import MCoroutine.Generators

/-! Schedules of Resume calls over coroutines that are each given one callback, on any
number of threads. The calls refine generators: a Resume executes the next segment of
the callback and the end of a segment returns to it. -/
namespace MCoroutine.Schedules
open General General.Runs Process MCoroutine.Numbering SlotRuns Switching Generators

variable {Body : Type}

def callBackOf : List (Event Body) → Nat → Option Body
  | [],_ => none
  | .setCallBack _ c cb true::past,co => if c = co then some cb else callBackOf past co
  | _::past,co => callBackOf past co

def resumes : List (Event Body) → Nat → Nat
  | [],_ => 0
  | .resume _ c::past,co => if c = co then resumes past co + 1 else resumes past co
  | _::past,co => resumes past co

/-- The thread whose pointer to its current coroutine a call leaves set. -/
def points : Event Body → Option Nat
  | .getCurrentCoroutine thread _ => some thread
  | .resume thread _ => some thread
  | .yield thread _ => some thread
  | .finish thread _ => some thread
  | _ => none

/-- Each coroutine is given one callback, is not resumed while it executes, and is not
given back. -/
def Scheduled (history : List (Event Body)) (process : Process Body) : Event Body → Prop
  | .backCoroutine _ _ _ => False
  | .setCallBack _ co _ true => stacked process.store.identities co = true ∧
      callBackOf history co = none
  | .resume _ co => ¬ Executing process co
  | _ => True

def labels : List (Event Body) → Nat → List (Generator.Label Body Nat)
  | [],_ => []
  | event::past,co => extend (label event co) (labels past co)

structure Staged (next : Body → Option Body) (history : List (Event Body))
    (process : Process Body) : Prop where
  later : ∀ co, process.store.objects.length ≤ co → labels history co = []
  played : ∀ co object, process.store.objects[co]? = some object → object.stackSp ≠ 0 →
    ∃ state, Generator.Trace next (labels history co) state ∧ Represents process co object state
  counted : ∀ co, Generator.given (labels history co) = (callBackOf history co).map fun cb =>
    (cb,resumes history co)
  early : ∀ co, callBackOf history co = none → resumes history co = 0
  owned : ∀ co cb, callBackOf history co = some cb → stacked process.store.identities co = true
  pointed : ∀ thread, (process.threads thread).curCoroutine = none →
    ∀ event ∈ history, points event ≠ some thread

private theorem scheduled_sensible {next : Body → Option Body} {history : List (Event Body)}
    {process : Process Body}
    (run : Run (fun process => process = Process.initial) Scheduled (Step next) history process) :
    Run (fun process => process = Process.initial) Sensible (Step next) history process := by
  refine run.weaken ?_
  intro past before event after _ permitted _
  cases event with
  | setCallBack thread co cb accepted =>
    cases accepted with
    | true => exact permitted.1
    | false => trivial
  | _ => trivial

section
variable {next : Body → Option Body} {past : List (Event Body)} {process after : Process Body}
  {event : Event Body}

private theorem unset_before (effect : Effect next past process event after) {thread : Nat}
    (unset : (after.threads thread).curCoroutine = none) :
    (process.threads thread).curCoroutine = none := by
  have make (middle : Process Body) (maker : Nat) :
    ((middle.makeMain maker).threads thread).curCoroutine =
      (middle.threads thread).curCoroutine := setThread_keeps Thread.curCoroutine (by rfl) thread
  have aim (middle : Process Body) (maker m : Nat)
      (missing : ((middle.point maker m).threads thread).curCoroutine = none) :
      (middle.threads thread).curCoroutine = none := by
    rw [Process.point,setThread_threads] at missing
    split at missing
    · cases missing
    · exact missing
  have attached (maker : Nat) (missing :
    ((process.attach maker).threads thread).curCoroutine = none) :
      (process.threads thread).curCoroutine = none :=
    attach_preserves (fun middle => (middle.threads thread).curCoroutine = none →
      (process.threads thread).curCoroutine = none) maker
      (fun middle _ before missing => before (make middle maker ▸ missing))
      (fun middle m _ _ before missing => before (aim middle maker m missing)) process id missing
  have settled (maker : Nat) (missing :
    ((process.getMainCoroutine maker).2.threads thread).curCoroutine = none) :
      (process.threads thread).curCoroutine = none := by
    rwa [getMainCoroutine_current] at missing
  cases effect with
  | grow _ _ fresh plain threads objects unused => exact threads ▸ unset
  | attach _ _ maker plain reached =>
    exact reached (fun middle => (middle.threads thread).curCoroutine = none →
      (process.threads thread).curCoroutine = none) (fun middle _ before missing =>
        before (make middle maker ▸ missing))
      (fun middle m _ _ before missing => before (aim middle maker m missing)) id unset
  | release maker index co before result store there call => exact unset
  | accept maker co cb accepted _ call =>
    obtain ⟨_,_,_,_,⟨_,_,_,rfl⟩ | ⟨_,_,rfl⟩⟩ :=
      setCallBack_effect maker co cb process after accepted call
    · exact settled maker unset
    · exact settled maker unset
  | enter maker co main object body _ entered =>
    rw [entered.threads,Function.update_apply] at unset
    split at unset
    · cases unset
    · exact attached maker unset
  | leave maker co main body rest _ running more left =>
    rw [left.threads,Function.update_apply] at unset
    split at unset
    · cases unset
    · exact unset
  | stop maker co main body _ running done left =>
    rw [left.threads,Function.update_apply] at unset
    split at unset
    · cases unset
    · exact unset

private theorem step_points (coherent : Coherent past process)
    (step : Step next process event after) {thread : Nat} (pointing : points event = some thread) :
    (after.threads thread).curCoroutine ≠ none := by
  cases step with
  | getCurrentCoroutine _ caller co call =>
    cases pointing
    have current := getCurrentCoroutine_current thread process
    rw [call] at current
    rw [current]
    exact nofun
  | resume _ caller co call =>
    cases pointing
    obtain ⟨main,object,body,entered⟩ := coherent.resume_enters call
    rw [entered.threads,Function.update_self]
    exact nofun
  | yield _ caller co body rest running more call =>
    cases pointing
    obtain ⟨main,left⟩ := coherent.yield_leaves running call
    rw [left.threads,Function.update_self]
    exact nofun
  | finish _ caller co body running done call =>
    cases pointing
    obtain ⟨main,left⟩ := (coherent.clear co).yield_leaves running call
    rw [left.threads,Function.update_self]
    exact nofun
  | _ => cases pointing

private theorem counts_away (past : List (Event Body)) {co : Nat} (away : label event co = none) :
    callBackOf (event::past) co = callBackOf past co ∧
      resumes (event::past) co = resumes past co := by
  cases event with
  | setCallBack thread c cb accepted =>
    cases accepted with
    | true =>
      have apart : ¬ c = co := by
        intro same
        rw [label,if_pos same] at away
        cases away
      exact ⟨if_neg apart,rfl⟩
    | false => exact ⟨rfl,rfl⟩
  | resume thread c =>
    have apart : ¬ c = co := by
      intro same
      rw [label,if_pos same] at away
      cases away
    exact ⟨rfl,if_neg apart⟩
  | _ => exact ⟨rfl,rfl⟩

theorem Staged.resumed {thread co main : Nat} {object : Coroutine (Context Body) Body} {body : Body}
    (staged : Staged next past process)
    (entered : Entered past (process.attach thread) thread co main object body after) :
    callBackOf past co ≠ none := by
  intro missing
  have flag := entered.flag
  obtain ⟨state,trace,represents⟩ := staged.played co object entered.present entered.stack
  rw [represents.ready,(Generator.position trace).1 (by rw [staged.counted,missing]; rfl)] at flag
  cases flag

private theorem Staged.at_position (staged : Staged next past process) {co : Nat}
    {object : Coroutine (Context Body) Body} {cb : Body}
    (present : process.store.objects[co]? = some object) (stack : object.stackSp ≠ 0)
    (set : callBackOf past co = some cb) :
    ∃ state, Generator.At next cb (resumes past co) state ∧ Represents process co object state := by
  obtain ⟨state,trace,represents⟩ := staged.played co object present stack
  exact ⟨state,(Generator.position trace).2 cb _ (by rw [staged.counted,set]; rfl),represents⟩

theorem labels_later (structured : Structured process) (coherent : Coherent past process)
    (step : Step next process event after)
    (later : ∀ co, process.store.objects.length ≤ co → labels past co = []) {co : Nat}
    (beyond : after.store.objects.length ≤ co) : labels (event::past) co = [] := by
  obtain ⟨more,identities⟩ := step_lasts structured step
  have length : process.store.objects.length ≤ after.store.objects.length := by
    rw [← identities_length,← identities_length,identities,List.length_append]
    omega
  have apart : touched event ≠ some co := fun touch =>
    absurd (touched_inside coherent (step_effect structured coherent step) touch)
      (Nat.not_lt.mpr beyond)
  rw [labels,label_untouched apart]
  exact later co (Nat.le_trans length beyond)

private theorem step_staged (structured : Structured process) (coherent : Coherent past process)
    (staged : Staged next past process) (permitted : Scheduled past process event)
    (step : Step next process event after) : Staged next (event::past) after := by
  have effect := step_effect structured coherent step
  have counted (co : Nat) :
      Generator.given (labels (event::past) co) =
        (callBackOf (event::past) co).map (fun cb => (cb,resumes (event::past) co)) ∧
      (callBackOf (event::past) co = none → resumes (event::past) co = 0) := by
    cases found : label event co with
    | none =>
      obtain ⟨set,count⟩ := counts_away past found
      rw [labels,found,set,count]
      exact ⟨staged.counted co,staged.early co⟩
    | some called =>
      rw [labels,found]
      rcases label_some found with ⟨thread,cb,rfl,rfl⟩ | ⟨thread,rfl,rfl⟩ | ⟨thread,rfl,
        rfl⟩ | ⟨thread,rfl,rfl⟩
      · have fresh : resumes past co = 0 := staged.early co permitted.2
        simp [extend,Generator.given,callBackOf,resumes,fresh]
      · have set : callBackOf past co ≠ none := by
          cases effect with
          | attach _ _ _ plain _ => exact plain.elim
          | grow _ _ _ plain _ _ _ => exact plain.elim
          | enter _ _ main object body _ entered => exact staged.resumed entered
        obtain ⟨cb,here⟩ := Option.ne_none_iff_exists'.mp set
        have given := staged.counted co
        rw [here] at given
        simp [extend,Generator.given,callBackOf,resumes,here,given]
      · exact ⟨staged.counted co,staged.early co⟩
      · exact ⟨staged.counted co,staged.early co⟩
  refine ⟨?_,?_,fun co => (counted co).1,fun co => (counted co).2,?_,?_⟩
  · intro co beyond
    exact labels_later structured coherent step staged.later beyond
  · intro co object located stack
    refine trace_step structured coherent step ?_ ?_ (staged.later co)
      (staged.played co) object located stack
    · rintro thread index other rfl
      exact permitted
    · rintro thread rfl
      exact permitted
  · intro co cb set
    obtain ⟨more,identities⟩ := step_lasts structured step
    have before : stacked process.store.identities co = true := by
      cases found : label event co with
      | none => exact staged.owned co cb ((counts_away past found).1 ▸ set)
      | some called =>
        rcases label_some found with ⟨thread,_,rfl,_⟩ | ⟨thread,rfl,_⟩ | ⟨thread,rfl,
          _⟩ | ⟨thread,rfl,_⟩
        · exact permitted.1
        all_goals exact staged.owned co cb set
    rw [identities,stacked_append _ _ _ (stacked_inside before)]
    exact before
  · intro thread unset other member
    rcases List.mem_cons.mp member with rfl | earlier
    · exact fun pointing => step_points coherent step pointing unset
    · exact staged.pointed thread (unset_before effect unset) other earlier

end

private theorem reached_staged {next : Body → Option Body} {history : List (Event Body)}
    {process : Process Body}
    (run : Run (fun process => process = Process.initial) Scheduled (Step next) history process) :
    Staged next history process := by
  refine run.invariant (Staged next) ?_ ?_
  · rintro process rfl
    exact ⟨fun _ _ => rfl,nofun,fun _ => rfl,fun _ _ => rfl,nofun,nofun⟩
  · intro past before event after reached staged permitted step
    exact step_staged (reached_structured reached) (reached_coherent (scheduled_sensible reached))
      staged permitted step

section
variable {next : Body → Option Body} {history : List (Event Body)} {process : Process Body}
  (run : Run (fun process => process = Process.initial) Scheduled (Step next) history process)
include run

private theorem resume_executes {thread co : Nat} {after : Process Body}
    (idle : ¬ Executing process co) (step : Step next process (.resume thread co) after) :
    ∃ cb body, callBackOf history co = some cb ∧ Generator.segment next cb
      (resumes history co) = some body ∧
      (after.threads thread).running = .callBack co body := by
  have staged := reached_staged run
  have coherent := reached_coherent (scheduled_sensible run)
  cases step with
  | resume _ _ _ call =>
    obtain ⟨main,object,body,entered⟩ := coherent.resume_enters call
    obtain ⟨cb,set⟩ := Option.ne_none_iff_exists'.mp (staged.resumed entered)
    obtain ⟨state,here,represents⟩ := staged.at_position entered.present entered.stack set
    obtain ⟨_,located,same⟩ := here.resume (enter_moves entered represents idle)
    cases same
    exact ⟨cb,body,set,located,by rw [entered.threads,Function.update_self]⟩

private theorem resume_proceeds {thread count co : Nat} {cb body : Body}
    (running : (process.threads thread).running = .main thread count)
    (set : callBackOf history co = some cb)
    (located : Generator.segment next cb (resumes history co) = some body)
    (idle : ¬ Executing process co) :
    ∃ after, Step next process (.resume thread co) after := by
  have staged := reached_staged run
  obtain ⟨object,present,stack⟩ := (stacked_iff _ co).mp (staged.owned co cb set)
  obtain ⟨state,here,represents⟩ := staged.at_position present stack set
  have startable := here.startable located fun other b same =>
    idle ⟨other,b,(represents.executing other b).mpr same⟩
  obtain ⟨after,call⟩ :=
    resume_runs (reached_coherent (scheduled_sensible run)) running present stack
      represents startable
  exact ⟨after,Step.resume process after thread co call⟩

private theorem segment_current {thread co : Nat} {body : Body}
    (running : (process.threads thread).running = .callBack co body) :
    (process.threads thread).curCoroutine = some co ∧
      ∀ other, ∃ message, process.resume thread (some other) = .error (.exit message) := by
  have coherent := reached_coherent (scheduled_sensible run)
  cases coherent.runs thread with
  | main running_ _ =>
    rw [running] at running_
    cases running_
  | callBack c main b running_ current owner saved stack =>
    rw [running] at running_
    cases running_
    refine ⟨current,?_⟩
    intro other
    obtain ⟨object,present,high⟩ := (stacked_iff _ co).mp stack
    have same := attach_same owner current
    have refused := resumeCheck_elsewhere thread other main co process (by rw [same]; exact owner)
      (by rw [same]; exact current) (stacked_not_main coherent owner present high)
    exact ⟨_,by rw [Process.resume,refused]; rfl⟩

private theorem segment_ends {thread co : Nat} {body : Body}
    (running : (process.threads thread).running = .callBack co body) :
    ∃ event after, (event = .yield thread co ∨ event = .finish thread co) ∧
      Step next process event after := by
  have coherent := reached_coherent (scheduled_sensible run)
  cases more : next body with
  | none =>
    obtain ⟨after,call⟩ := yield_leaves (coherent.clear co) running (.finished co)
    exact ⟨.finish thread co,after,Or.inr rfl,
      Step.finish process after thread co body running more call⟩
  | some rest =>
    obtain ⟨after,call⟩ := yield_leaves coherent running (.callBack co rest)
    exact ⟨.yield thread co,after,Or.inl rfl,
      Step.yield process after thread co body rest running more call⟩

private theorem segment_returns {thread co : Nat} {event : Event Body} {after : Process Body}
    (ends : event = .yield thread co ∨ event = .finish thread co)
    (step : Step next process event after) :
    (after.threads thread).running = .main thread (calls history thread) := by
  have effect := step_effect (reached_structured run)
    (reached_coherent (scheduled_sensible run)) step
  rcases ends with rfl | rfl
  · cases effect with
    | attach _ _ _ plain _ => exact plain.elim
    | grow _ _ _ plain _ _ _ => exact plain.elim
    | leave _ _ _ _ _ _ _ _ left => rw [left.threads,Function.update_self]
  · cases effect with
    | attach _ _ _ plain _ => exact plain.elim
    | grow _ _ _ plain _ _ _ => exact plain.elim
    | stop _ _ _ _ _ _ _ left => rw [left.threads,Function.update_self]

private theorem main_pointed {thread owner count : Nat}
    (running : (process.threads thread).running = .main owner count) :
    owner = thread ∧ count = calls history thread ∧
      ((∃ main, (process.threads thread).mainCoroutine = some main ∧
        (process.threads thread).curCoroutine = some main) ∨
        ((process.threads thread).curCoroutine = none ∧ ∀ event ∈ history, points event ≠
          some thread)) := by
  cases (reached_coherent (scheduled_sensible run)).runs thread with
  | main running_ points =>
    rw [running] at running_
    cases running_
    refine ⟨rfl,rfl,?_⟩
    cases pointer : (process.threads thread).curCoroutine with
    | none => exact Or.inr ⟨rfl,(reached_staged run).pointed thread pointer⟩
    | some main => exact Or.inl ⟨main,points main pointer,rfl⟩
  | callBack co main body inner _ _ _ _ =>
    rw [running] at inner
    cases inner

end

/-- Coroutines that are each given one callback, under any schedule. The `k`-th Resume
of one is carried out and executes the `k`-th segment of its callback on the calling
thread. During the segment the thread has it as its current coroutine and cannot call
Resume; the end of the segment returns to the Resume call. In main code the current
coroutine is the main coroutine, or still unset as long as the thread has made none of
the calls that set it. -/
theorem resumes_execute_segments (next : Body → Option Body) (history : List (Event Body))
    (process : Process Body)
    (run : Run (fun process => process = Process.initial) Scheduled (Step next) history process) :
    (∀ thread co after, ¬ Executing process co → Step next process (.resume thread co) after →
      ∃ cb body, callBackOf history co = some cb ∧ Generator.segment next cb
        (resumes history co) = some body ∧
        (after.threads thread).running = .callBack co body) ∧
    (∀ thread count co cb body, (process.threads thread).running = .main thread count →
      callBackOf history co = some cb → Generator.segment next cb (resumes history co) = some body →
      ¬ Executing process co → ∃ after, Step next process (.resume thread co) after) ∧
    (∀ thread co body, (process.threads thread).running = .callBack co body →
      (process.threads thread).curCoroutine = some co ∧
      (∀ other, ∃ message, process.resume thread (some other) = .error (.exit message)) ∧
      (∃ event after, (event = .yield thread co ∨ event = .finish thread co) ∧
        Step next process event after) ∧
      ∀ event after, (event = .yield thread co ∨ event = .finish thread co) →
        Step next process event after →
        (after.threads thread).running = .main thread (calls history thread)) ∧
    (∀ thread owner count, (process.threads thread).running = .main owner count →
      owner = thread ∧ count = calls history thread ∧
      ((∃ main, (process.threads thread).mainCoroutine = some main ∧
        (process.threads thread).curCoroutine = some main) ∨
        ((process.threads thread).curCoroutine = none ∧ ∀ event ∈ history, points event ≠
          some thread))) := by
  refine ⟨?_,?_,?_,?_⟩
  · exact fun thread co after idle step => resume_executes run idle step
  · exact fun thread count co cb body running set located idle =>
      resume_proceeds run running set located idle
  · intro thread co body running
    obtain ⟨current,refused⟩ := segment_current run running
    exact ⟨current,refused,segment_ends run running,fun event after ends step =>
      segment_returns run ends step⟩
  · exact fun thread owner count running => main_pointed run running

def twice : Bool → Option Bool
  | true => some false
  | false => none

def onceGiven : Process Bool where
  store := { objects := [Coroutine.default .zero,
               { corId := 1, coctx := .runCallBack 1, stackSize := 16, stackSp := 65536,
                 cbfuncRunningFlag := false, resumeFlag := true, callBack := some true },
               Coroutine.default .zero],
             curCoroutineId := 2 }
  threads := Function.update Process.initial.threads 0
    { mainCoroutine := some 2, curCoroutine := none, running := .main 0 0 }
  pools := [onePool 0 true]

private theorem onceGiven_reached :
    Run (fun process => process = Process.initial) Scheduled (Step twice)
      [Event.setCallBack 0 1 true true,.getCoroutine 0 0 1,.newPool 1 16] onceGiven :=
  Run.next _ _ (Event.setCallBack 0 1 true true) _
    (oneProcess_handed _ Scheduled trivial trivial) ⟨rfl,rfl⟩
    (Step.setCallBack _ _ 0 1 true true rfl)

private theorem alone_idle {history : List (Event Body)} {process : Process Body}
    {next : Body → Option Body} {allowed : List (Event Body) → Process Body → Event Body → Prop}
    {count co : Nat}
    (run : Run (fun process => process = Process.initial) allowed (Step next) history process)
    (main : (process.threads 0).running = .main 0 count)
    (alone : ∀ event ∈ history, caller event ∈ [some 0,none]) :
    ¬ Executing process co := by
  rintro ⟨thread,body,running⟩
  by_cases same : thread = 0
  · subst same
    rw [main] at running
    cases running
  · have silent : ∀ event ∈ history, caller event ≠ some thread := by
      intro event member calls
      have zero := alone event member
      rw [calls] at zero
      exact same (by simpa using zero)
    rw [silent_untouched run silent] at running
    cases running

/-- The second Resume of a coroutine behind one of another. -/
theorem resumes_execute_second :
    ∃ (history : List (Event Bool)) (process after : Process Bool),
      history = [.yield 0 2,.resume 0 2,.yield 0 1,.resume 0 1,.setCallBack 0 2 true true,
        .setCallBack 0 1 true true,
        .getCoroutine 0 0 2,.getCoroutine 0 0 1,.newPool 1 16] ∧
      Step twice process (.resume 0 1) after ∧ (after.threads 0).running = .callBack 1 false ∧
      ∀ event final, (event = .yield 0 1 ∨ event = .finish 0 1) → Step twice after event final →
        (final.threads 0).running = .main 0 3 := by
  have made := grownProcess_handed twice Scheduled
    (oneProcess_handed _ Scheduled trivial trivial) trivial
  have one := Run.next _ _ (Event.setCallBack 0 1 true true) _ made ⟨rfl,rfl⟩
    (Step.setCallBack _ _ 0 1 true true rfl)
  have two := Run.next _ _ (Event.setCallBack 0 2 true true) _ one ⟨rfl,rfl⟩
    (Step.setCallBack _ _ 0 2 true true rfl)
  have entered := Run.next _ _ (Event.resume 0 1) _ two (alone_idle two rfl (by simp [caller]))
    (Step.resume _ _ 0 1 rfl)
  have left := Run.next _ _ (Event.yield 0 1) _ entered trivial
    (Step.yield _ _ 0 1 true false rfl rfl rfl)
  have other := Run.next _ _ (Event.resume 0 2) _ left (alone_idle left rfl (by simp [caller]))
    (Step.resume _ _ 0 2 rfl)
  have back := Run.next _ _ (Event.yield 0 2) _ other trivial
    (Step.yield _ _ 0 2 true false rfl rfl rfl)
  have idle : ¬ Executing _ 1 := alone_idle back rfl (by simp [caller])
  obtain ⟨executed,carried,_,_⟩ := resumes_execute_segments twice _ _ back
  obtain ⟨after,step⟩ := carried 0 2 1 true false rfl rfl rfl idle
  obtain ⟨cb,body,set,located,running⟩ := executed 0 1 after idle step
  cases set
  cases located
  have again := Run.next _ _ (Event.resume 0 1) _ back idle step
  obtain ⟨_,_,inside,_⟩ := resumes_execute_segments twice _ _ again
  exact ⟨_,_,after,rfl,step,running,(inside 0 1 false running).2.2.2⟩

theorem main_code_unpointed :
    ∃ (history : List (Event Bool)) (process : Process Bool),
      Run (fun process => process = Process.initial) Scheduled (Step twice) history process ∧
        (process.threads 0).running = .main 0 0 ∧ (process.threads 0).mainCoroutine = some 2 ∧
        (process.threads 0).curCoroutine = none :=
  ⟨_,_,onceGiven_reached,rfl,rfl,rfl⟩

end MCoroutine.Schedules
