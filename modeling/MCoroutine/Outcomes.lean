import MCoroutine.ResumeGuard

/-! How the switching calls end in every state of a run: which call exits with which
message, which one jumps into nothing, and which ones return. -/
namespace MCoroutine.Outcomes
open General.Runs Process MCoroutine.Numbering SlotRuns Switching ResumeGuard

variable {Body : Type}

/-- Where callbacks are set on coroutines with a stack only, no other one can be resumed. -/
def BareUnset (store : Store Body) : Prop :=
  ∀ (co : Nat) (object : Coroutine (Context Body) Body), store.objects[co]? = some object →
    object.stackSp = 0 → object.resumeFlag = false

theorem BareUnset.tame {process after : Process Body} (tame : Tame process after)
    (bare : BareUnset process.store) :
    BareUnset after.store := by
  intro co other located none
  rcases tame.objects co other located with ⟨object,there,size,_,_,flag⟩ | ⟨_,unset⟩
  · exact flag (bare co object there (size.symm.trans none))
  · exact unset

theorem BareUnset.modify {store : Store Body} (bare : BareUnset store) (co : Nat)
    (change : Coroutine (Context Body) Body → Coroutine (Context Body) Body)
    (keeps : ∀ object, store.objects[co]? = some object → (change object).stackSp = 0 →
      object.stackSp = 0 ∧ (change object).resumeFlag = object.resumeFlag) :
    BareUnset (store.modify co change) := by
  intro k other located none
  rw [Store.modify_at] at located
  split at located
  · rename_i same
    subst same
    obtain ⟨object,there,rfl⟩ := Option.map_eq_some_iff.mp located
    obtain ⟨origin,flag⟩ := keeps object there none
    rw [flag]
    exact bare k object there origin
  · exact bare k other located none

theorem BareUnset.attach {process : Process Body} (bare : BareUnset process.store) (thread : Nat) :
    BareUnset (process.attach thread).store :=
  attach_preserves (fun middle => BareUnset middle.store) thread
    (fun _ missing before => before.tame (tame_makeMain missing))
    (fun middle m _ _ before => before.tame (tame_point middle thread m)) process bare

private theorem step_bareUnset {next : Body → Option Body} {past : List (Event Body)}
    {process after : Process Body} {event : Event Body} (bare : BareUnset process.store)
    (sensible : Sensible past process event) (effect : Effect next past process event after) :
    BareUnset after.store := by
  cases effect with
  | grow _ _ fresh plain threads objects unused =>
    exact bare.tame (tame_grow fresh threads objects unused)
  | attach _ _ thread plain reached =>
    exact reached (fun middle => BareUnset middle.store)
      (fun _ missing before => before.tame (tame_makeMain missing))
      (fun middle m _ _ before => before.tame (tame_point middle thread m)) bare
  | release thread index co before result store located call =>
    exact bare.tame (tame_release index call)
  | accept thread co cb accepted _ call =>
    have attached : BareUnset (process.getMainCoroutine thread).2.store :=
      getMainCoroutine_preserves (fun middle => BareUnset middle.store) thread
        (fun _ missing before => before.tame (tame_makeMain missing)) process bare
    obtain ⟨_,object,_,located,⟨rfl,_,_,rfl⟩ | ⟨_,_,rfl⟩⟩ :=
      setCallBack_effect thread co cb process after accepted call
    · obtain ⟨origin,present,high⟩ := (stacked_iff _ co).mp sensible
      rw [getMainCoroutine_keeps thread present] at located
      cases located
      exact attached.modify co _ fun _ _ none => absurd none high
    · exact attached
  | enter thread co main object body _ entered =>
    have hosted := (bare.attach thread).modify main
      (fun m => { m with coctx := .main thread (calls past thread + 1) })
      fun _ _ none => ⟨none,rfl⟩
    rcases entered.entry with ⟨_,store⟩ | ⟨_,_,store⟩
    · rw [store]
      exact hosted
    · rw [store]
      exact hosted.modify co _ fun _ _ none => ⟨none,rfl⟩
  | leave thread co main body rest _ running more left =>
    rw [left.store]
    exact bare.modify co _ fun _ _ none => ⟨none,rfl⟩
  | stop thread co main body _ running done left =>
    have cleared := bare.modify co (Coroutine.setCallBackRunningFlag false) fun _ _ none =>
      ⟨none,rfl⟩
    rw [left.store]
    exact cleared.modify co _ fun _ _ none => ⟨none,rfl⟩

private theorem reached_bareUnset {next : Body → Option Body} {history : List (Event Body)}
    {process : Process Body}
    (run : Run (fun process => process = Process.initial) Sensible (Step next) history process) :
    BareUnset process.store := by
  refine run.invariant (fun _ process => BareUnset process.store) ?_ ?_
  · rintro process rfl co object located
    cases located
  · intro past before event after reached bare sensible step
    exact step_bareUnset bare sensible (step_effect (reached_structured reached)
      (reached_coherent reached) step)

/-- A coroutine that a thread executes still holds the context it was resumed with. -/
def Entering (history : List (Event Body)) (process : Process Body) : Prop :=
  ∀ co object, process.store.objects[co]? = some object → object.stackSp ≠ 0 →
    ResumeGuard.control history co = .executing →
    (object.coctx = .runCallBack co ∧ ∃ cb, object.callBack = some cb) ∨
      ∃ rest, object.coctx = .callBack co rest

private theorem control_untouched {event : Event Body} {co : Nat} (apart : touched event ≠ some co)
    (past : List (Event Body)) :
    ResumeGuard.control (event::past) co = ResumeGuard.control past co := by
  cases event with
  | setCallBack thread c cb accepted =>
    cases accepted with
    | true => exact if_neg fun same => apart (by rw [same]; rfl)
    | false => rfl
  | resume thread c => exact if_neg fun same => apart (by rw [same]; rfl)
  | yield thread c => exact if_neg fun same => apart (by rw [same]; rfl)
  | finish thread c => exact if_neg fun same => apart (by rw [same]; rfl)
  | _ => rfl

section
variable {next : Body → Option Body} {past history : List (Event Body)}
  {process after : Process Body} {event : Event Body}

private theorem release_object {thread index co : Nat}
    (step : Step next process (.backCoroutine thread index co) after) {k : Nat}
    {object : Coroutine (Context Body) Body} (located : after.store.objects[k]? = some object) :
    ∃ before, process.store.objects[k]? = some before ∧ object.coctx = before.coctx ∧
      object.callBack = before.callBack ∧ object.stackSp = before.stackSp := by
  cases step with
  | backCoroutine _ _ _ pool result store there call =>
    rw [setPool_store] at located
    obtain ⟨_,pair,_,_,⟨_,rfl,_⟩ | ⟨_,rfl,_⟩⟩ :=
      CoroutinePool.backCoroutine_effect co process.store store pool result call
    · exact ⟨object,located,rfl,rfl,rfl⟩
    · rw [Store.modify_at] at located
      split at located
      · obtain ⟨before,here,rfl⟩ := Option.map_eq_some_iff.mp located
        exact ⟨before,here,rfl,rfl,rfl⟩
      · exact ⟨object,located,rfl,rfl,rfl⟩

private theorem step_entering (structured : Structured process) (coherent : Coherent past process)
    (guarded : Guarded past process) (entering : Entering past process)
    (step : Step next process event after) :
    Entering (event::past) after := by
  intro co object located stack status
  by_cases own : touched event = some co
  · cases step_effect structured coherent step with
    | enter thread c main target body _ entered =>
      obtain rfl : c = co := Option.some.inj own
      rcases entered.target with ⟨same,kind⟩ | ⟨same,kind,set⟩
      · rw [located] at same
        cases same
        exact Or.inr ⟨body,kind⟩
      · rw [located] at same
        cases same
        exact Or.inl ⟨kind,body,set⟩
    | grow _ _ _ plain =>
      rw [touched_plain plain] at own
      cases own
    | attach _ _ _ plain =>
      rw [touched_plain plain] at own
      cases own
    | release => cases own
    | accept thread c cb accepted =>
      cases accepted with
      | true =>
        obtain rfl : c = co := Option.some.inj own
        simp [ResumeGuard.control] at status
      | false => cases own
    | leave thread c main =>
      obtain rfl : c = co := Option.some.inj own
      simp [ResumeGuard.control] at status
    | stop thread c main =>
      obtain rfl : c = co := Option.some.inj own
      simp [ResumeGuard.control] at status
  · rw [control_untouched own] at status
    have inherited : ∃ before, process.store.objects[co]? = some before ∧
      object.coctx = before.coctx ∧
        object.callBack = before.callBack ∧ object.stackSp = before.stackSp := by
      by_cases given : ∃ thread index c, event = .backCoroutine thread index c
      · obtain ⟨thread,index,c,rfl⟩ := given
        exact release_object step located
      · have kept (thread index c : Nat) : event ≠ .backCoroutine thread index c :=
          fun same => given ⟨thread,index,c,same⟩
        rcases (step_effect structured coherent step).frame coherent kept co object located
          stack own with
          there | ⟨beyond,_⟩
        · exact ⟨object,there,rfl,rfl,rfl⟩
        · rw [guarded.later co beyond] at status
          cases status
    obtain ⟨before,there,coctx,callBack,stackSp⟩ := inherited
    rw [coctx,callBack]
    exact entering co before there (by rw [← stackSp]; exact stack) status

private theorem reached_entering
    (run : Run (fun process => process = Process.initial) Sensible (Step next) history process) :
    Entering history process := by
  apply run.invariant Entering
  · intro process start co object located
    rw [start] at located
    cases located
  · intro past before event after reached entering _ step
    exact step_entering (reached_structured reached) (reached_coherent reached)
      (reached_guarded reached) entering step

end

section
variable {history : List (Event Body)} {process : Process Body} {thread : Nat}

private theorem inside_saved {co : Nat} {body : Body} (coherent : Coherent history process)
    (running : (process.threads thread).running = .callBack co body) :
    ∃ main, (process.threads thread).curCoroutine = some co ∧
      (process.threads thread).mainCoroutine = some main ∧
      contextOf process.store main = some (.main thread (calls history thread)) ∧ co ≠ main := by
  cases coherent.runs thread with
  | main outside =>
    rw [running] at outside
    cases outside
  | callBack c main b inside current owner saved stack =>
    rw [running] at inside
    cases inside
    obtain ⟨object,located,high⟩ := (stacked_iff _ co).mp stack
    exact ⟨main,current,owner,saved,stacked_not_main coherent owner located high⟩

private theorem inside_pointers {co : Nat} {body : Body} (coherent : Coherent history process)
    (running : (process.threads thread).running = .callBack co body) :
    ∃ main, process.getCurrentCoroutine thread = (co,process) ∧ process.getMainCoroutine thread =
      (main,process) ∧
      co ≠ main := by
  obtain ⟨main,current,owner,_,other⟩ := inside_saved coherent running
  refine ⟨main,?_,?_,other⟩
  · unfold getCurrentCoroutine
    rw [current]
  · unfold getMainCoroutine
    rw [owner]

private theorem outside_pointers {count : Nat} (coherent : Coherent history process)
    (running : (process.threads thread).running = .main thread count) :
    ∃ main, ((process.attach thread).threads thread).mainCoroutine = some main ∧
      ((process.attach thread).threads thread).curCoroutine = some main := by
  cases (coherent.attach thread).runs thread with
  | main _ current => exact ⟨_,current _ (attach_current thread process),
      attach_current thread process⟩
  | callBack co main body inside =>
    rw [running_attach,running] at inside
    cases inside

private theorem resume_inside {co : Nat} {body : Body} (coherent : Coherent history process)
    (running : (process.threads thread).running = .callBack co body) (cor : Option Nat) :
    process.resume thread cor = .error (.exit "swap error, current coroutine must be main coroutine!") := by
  obtain ⟨main,current,owner,other⟩ := inside_pointers coherent running
  have checked : process.resumeCheck thread cor =
      .error (.exit "swap error, current coroutine must be main coroutine!") := by
    unfold resumeCheck
    rw [current]
    dsimp only
    rw [owner]
    exact if_pos other
  rw [resume,checked]
  rfl

private theorem resume_unset {count : Nat} (coherent : Coherent history process)
    (running : (process.threads thread).running = .main thread count) (cor : Option Nat)
    (unset : ∀ co, cor = some co → ∃ object, process.store.objects[co]? = some object ∧
      object.resumeFlag = false) :
    process.resume thread cor = .error (.exit "pending coroutine is nullptr or resume flag is false!") := by
  obtain ⟨main,owner,current⟩ := outside_pointers coherent running
  have pointed := Option.some.inj ((attach_current thread process).symm.trans current)
  have owned := Option.some.inj ((attach_main thread process).symm.trans owner)
  have checked : process.resumeCheck thread cor =
      .error (.exit "pending coroutine is nullptr or resume flag is false!") := by
    unfold resumeCheck
    dsimp only
    rw [pointed,owned,if_neg (by simp),
      show ((process.getCurrentCoroutine thread).2.getMainCoroutine thread).2 =
      process.attach thread from rfl]
    cases cor with
    | none => rfl
    | some co =>
      obtain ⟨object,located,flag⟩ := unset co rfl
      dsimp only
      rw [attach_keeps thread located]
      exact if_pos flag
  rw [resume,checked]
  rfl

theorem swap_enters {main co : Nat} {object : Coroutine (Context Body) Body} (saved : Context Body)
    (located : process.store.objects[co]? = some object) (other : co ≠ main)
    (stack : object.stackSp ≠ 0)
    (kind : (object.coctx = .runCallBack co ∧ ∃ cb, object.callBack = some cb) ∨
      ∃ rest, object.coctx = .callBack co rest) :
    ∃ after body, process.swap thread main co saved = .ok after ∧ (after.threads thread).running =
      .callBack co body := by
  have found : (process.store.modify main fun host => { host with coctx := saved }).objects[co]? =
      some object := by
    rw [Store.modify_at,if_neg other]
    exact located
  unfold swap
  dsimp only
  rw [found]
  rcases kind with ⟨start,cb,set⟩ | ⟨rest,suspended⟩
  · dsimp only
    rw [start,enter,found]
    dsimp only
    rw [if_neg stack,set]
    exact ⟨_,cb,rfl,congrArg Thread.running (setThread_same ..)⟩
  · dsimp only
    rw [suspended]
    exact ⟨_,rest,rfl,congrArg Thread.running (setThread_same ..)⟩

variable {next : Body → Option Body}

private theorem resume_set
    (run : Run (fun process => process = Process.initial) Sensible (Step next) history process)
    {count co : Nat} {object : Coroutine (Context Body) Body}
    (running : (process.threads thread).running = .main thread count)
    (located : process.store.objects[co]? = some object) (flag : object.resumeFlag = true) :
    if ResumeGuard.control history co = .completed then process.resume thread (some co) =
      .error .wildJump
    else ∃ after body, process.resume thread (some co) = .ok after ∧
      (after.threads thread).running = .callBack co body := by
  have coherent := reached_coherent run
  obtain ⟨main,owner,current⟩ := outside_pointers coherent running
  have there := attach_keeps thread located
  have other := (coherent.attach thread).resumed_not_main owner there flag
  have checked : process.resumeCheck thread (some co) = .ok
      (some (main,co),process.attach thread) := by
    rw [resumeCheck_main thread co main process object owner current there other,
      if_neg (by simp [flag])]
  have stack : object.stackSp ≠ 0 := by
    intro none
    rw [reached_bareUnset run co object located none] at flag
    cases flag
  have tracks := (reached_guarded run).tracks co object located stack
  rw [resume,checked]
  cases status : ResumeGuard.control history co with
  | unset =>
    rw [status] at tracks
    rw [show object.resumeFlag = false from tracks] at flag
    cases flag
  | fresh =>
    rw [status] at tracks
    exact swap_enters _ there other stack (Or.inl tracks)
  | executing => exact swap_enters _ there other stack (reached_entering run co object located stack status)
  | suspended =>
    rw [status] at tracks
    exact swap_enters _ there other stack (Or.inr tracks)
  | completed =>
    rw [status] at tracks
    exact swap_finished _ there other tracks

/-- Inside a callback every Resume exits. In main code it exits for the null pointer and
without the resume flag. With it, the Resume jumps behind the end of runCallBack when the
callback has completed, and otherwise swaps into the context saved last, which nothing
prevents while another thread executes the coroutine. -/
theorem resume_outcome
    (run : Run (fun process => process = Process.initial) Sensible (Step next) history process)
    (thread : Nat) :
    (∀ co body, (process.threads thread).running = .callBack co body →
      ∀ cor, process.resume thread cor =
      .error (.exit "swap error, current coroutine must be main coroutine!")) ∧
    (∀ count, (process.threads thread).running = .main thread count →
      process.resume thread none = .error (.exit "pending coroutine is nullptr or resume flag is false!") ∧
      ∀ co object, process.store.objects[co]? = some object →
        if object.resumeFlag = false then
          process.resume thread (some co) = .error (.exit "pending coroutine is nullptr or resume flag is false!")
        else if ResumeGuard.control history co = .completed then process.resume thread (some co) =
          .error .wildJump
        else ∃ after body, process.resume thread (some co) = .ok after ∧
          (after.threads thread).running = .callBack co body) := by
  have coherent := reached_coherent run
  constructor
  · intro co body running cor
    exact resume_inside coherent running cor
  · intro count running
    constructor
    · refine resume_unset coherent running none ?_
      intro co same
      cases same
    · intro co object located
      split
      · rename_i unset
        refine resume_unset coherent running (some co) ?_
        intro c same
        cases same
        exact ⟨object,located,unset⟩
      · rename_i set
        exact resume_set run running located (by simpa using set)

theorem resume_outcome_completed :
    ∃ process : Process Unit,
      process.resume 0 none = .error (.exit "pending coroutine is nullptr or resume flag is false!") ∧
      process.resume 0 (some 1) = .error .wildJump := by
  have given : Run (fun process => process = Process.initial) Sensible
      (Step fun _ : Unit => none) _ _ :=
    Run.next _ _ (Event.setCallBack 0 1 () true) _
      (oneProcess_handed _ Sensible trivial trivial) rfl
      (Step.setCallBack _ _ 0 1 () true rfl)
  have entered := Run.next _ _ (Event.resume 0 1) _ given trivial (Step.resume _ _ 0 1 rfl)
  have completed := Run.next _ _ (Event.finish 0 1) _ entered trivial
    (Step.finish _ _ 0 1 () rfl rfl rfl)
  obtain ⟨unset,outcome⟩ := (resume_outcome completed 0).2 1 rfl
  exact ⟨_,unset,outcome 1 _ rfl⟩

private theorem yield_lands {co main count : Nat}
    (current : (process.threads thread).curCoroutine = some co)
    (owner : (process.threads thread).mainCoroutine = some main) (other : co ≠ main)
    (saved : contextOf process.store main = some (.main thread count))
    (continuation : Context Body) :
    ∃ after, process.yield thread continuation = .ok after ∧ (after.threads thread).running =
      .main thread count := by
  obtain ⟨host,located,kind⟩ := Option.map_eq_some_iff.mp saved
  have found : (process.store.modify co fun object =>
    { object with coctx := continuation }).objects[main]? = some host := by
    rw [Store.modify_at,if_neg (Ne.symm other)]
    exact located
  have pointed : process.getCurrentCoroutine thread = (co,process) := by
    unfold getCurrentCoroutine
    rw [current]
  have owned : process.getMainCoroutine thread = (main,process) := by
    unfold getMainCoroutine
    rw [owner]
  have landed : process.yield thread continuation = .ok (setThread thread
      { ((process.point thread main).threads thread) with running := .main thread count }
      { process.point thread main with store := process.store.modify co fun object =>
        { object with coctx := continuation } }) := by
    unfold yield
    rw [pointed]
    dsimp only
    rw [owned]
    dsimp only
    rw [if_neg other]
    unfold swap
    dsimp only [setThread]
    rw [found]
    dsimp only
    rw [kind]
    rfl
  exact ⟨_,landed,congrArg Thread.running (setThread_same ..)⟩

private theorem finish_lands {co main count : Nat}
    (current : (process.threads thread).curCoroutine = some co)
    (owner : (process.threads thread).mainCoroutine = some main) (other : co ≠ main)
    (saved : contextOf process.store main = some (.main thread count)) :
    ∃ after, process.finish thread co = .ok after ∧ (after.threads thread).running =
      .main thread count := by
  have kept : contextOf (process.store.modify co (Coroutine.setCallBackRunningFlag false)) main =
      some (.main thread count) := by
    rw [contextOf,Store.modify_at,if_neg (Ne.symm other)]
    exact saved
  exact @yield_lands Body { process with store := process.store.modify co (Coroutine.setCallBackRunningFlag false) }
    thread co main count current owner other kept (.finished co)

private theorem isMainCoroutine_inside {co : Nat} {body : Body}
    (coherent : Coherent history process)
    (running : (process.threads thread).running = .callBack co body) :
    process.isMainCoroutine thread = (false,process) := by
  obtain ⟨main,current,owner,other⟩ := inside_pointers coherent running
  unfold isMainCoroutine
  rw [owner]
  dsimp only
  rw [current]
  simp [Ne.symm other]

private theorem isMainCoroutine_outside {count : Nat} (coherent : Coherent history process)
    (running : (process.threads thread).running = .main thread count) :
    (process.isMainCoroutine thread).1 = true := by
  have owner := getMainCoroutine_main thread process
  have current := getMainCoroutine_current thread thread process
  unfold isMainCoroutine
  dsimp only
  rcases getCurrentCoroutine_cases thread (process.getMainCoroutine thread).2 with
    ⟨c,set,same⟩ | ⟨_,made⟩
  · rw [same]
    rw [current] at set
    cases coherent.runs thread with
    | main _ pointed =>
      have kept : process.getMainCoroutine thread = (c,process) := by
        unfold getMainCoroutine
        rw [pointed c set]
      rw [kept]
      simp
    | callBack co main body inside =>
      rw [running] at inside
      cases inside
  · rw [made]
    have kept : (process.getMainCoroutine thread).2.getMainCoroutine thread =
        process.getMainCoroutine thread := by
      rw [getMainCoroutine,owner]
    rw [kept]
    simp

/-- In main code every Yield exits, and IsMainCoroutine says so. Inside a callback it says
the contrary, and the callback can always leave, by its next Yield or by returning; the
thread is then behind its last Resume. -/
theorem leaving_outcome
    (run : Run (fun process => process = Process.initial) Sensible (Step next) history process)
    (thread : Nat) :
    (∀ count, (process.threads thread).running = .main thread count →
      (process.isMainCoroutine thread).1 = true ∧
      ∀ continuation, process.yield thread continuation = .error (.exit "current coroutine is main coroutine!")) ∧
    (∀ co body, (process.threads thread).running = .callBack co body →
      (process.isMainCoroutine thread).1 = false ∧
      ∃ after, (after.threads thread).running = .main thread (calls history thread) ∧
        match next body with
        | some _ => Step next process (.yield thread co) after
        | none => Step next process (.finish thread co) after) := by
  have coherent := reached_coherent run
  constructor
  · intro count running
    refine ⟨isMainCoroutine_outside coherent running,?_⟩
    intro continuation
    obtain ⟨main,owner,current⟩ := outside_pointers coherent running
    have pointed := Option.some.inj ((attach_current thread process).symm.trans current)
    have owned := Option.some.inj ((attach_main thread process).symm.trans owner)
    unfold yield
    dsimp only
    rw [pointed,owned,if_pos rfl]
  · intro co body running
    refine ⟨by rw [isMainCoroutine_inside coherent running],?_⟩
    obtain ⟨main,current,owner,saved,other⟩ := inside_saved coherent running
    cases more : next body with
    | some rest =>
      obtain ⟨after,call,lands⟩ := yield_lands current owner other saved (.callBack co rest)
      exact ⟨after,lands,.yield process after thread co body rest running more call⟩
    | none =>
      obtain ⟨after,call,lands⟩ := finish_lands current owner other saved
      exact ⟨after,lands,.finish process after thread co body running more call⟩

theorem leaving_outcome_inside :
    ∃ process after : Process Unit, (process.isMainCoroutine 0).1 = false ∧
      (after.threads 0).running = .main 0 1 ∧ Step (fun _ => none) process (.finish 0 1) after := by
  have given : Run (fun process => process = Process.initial) Sensible
      (Step fun _ : Unit => none) _ _ :=
    Run.next _ _ (Event.setCallBack 0 1 () true) _
      (oneProcess_handed _ Sensible trivial trivial) rfl
      (Step.setCallBack _ _ 0 1 () true rfl)
  have entered := Run.next _ _ (Event.resume 0 1) _ given trivial (Step.resume _ _ 0 1 rfl)
  obtain ⟨inside,after,lands,step⟩ := (leaving_outcome entered 0).2 1 () rfl
  exact ⟨_,after,inside,lands,step⟩

end

end MCoroutine.Outcomes
