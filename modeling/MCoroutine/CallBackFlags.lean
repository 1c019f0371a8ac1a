import MCoroutine.Schedules

/-! The running flag of a coroutine on one thread: it says that the callback has begun
and has not returned, and it protects the callback from setCallBack. -/
namespace MCoroutine.CallBackFlags
open General General.Runs Process MCoroutine.Numbering SlotRuns Switching Generators Schedules

variable {Body : Type}

/-- Everything runs on one thread, and no coroutine is given back. -/
def Alone (thread : Nat) (_ : List (Event Body)) (_ : Process Body) : Event Body → Prop
  | .backCoroutine _ _ _ => False
  | event => ∀ other, caller event = some other → other = thread

def Begun : List (Event Body) → Nat → Prop
  | [],_ => False
  | .resume _ c::past,co => c = co ∨ Begun past co
  | .finish _ c::past,co => c ≠ co ∧ Begun past co
  | _::past,co => Begun past co

theorem Alone.kept {thread : Nat} {past : List (Event Body)} {process : Process Body}
    {event : Event Body} (alone : Alone thread past process event) :
    ∀ other index co, event ≠ .backCoroutine other index co := by
  rintro other index co rfl
  exact alone

theorem Alone.caller {thread other : Nat} {past : List (Event Body)} {process : Process Body}
    {event : Event Body} (alone : Alone thread past process event)
    (calls : caller event = some other) : other = thread := by
  cases event with
  | backCoroutine => exact alone.elim
  | _ => exact alone other calls

section
variable {next : Body → Option Body} {thread : Nat} {history : List (Event Body)}
  {process : Process Body}
  (run : Run (fun process => process = Process.initial) (Alone thread) (Step next) history process)
include run

private theorem alone_elsewhere {other : Nat} (apart : other ≠ thread) :
    process.threads other = (Process.initial : Process Body).threads other := by
  refine run.invariant (fun _ process =>
    process.threads other = (Process.initial : Process Body).threads other) ?_ ?_
  · rintro process rfl
    rfl
  · intro past before event after _ same alone step
    refine (step_elsewhere step ?_).trans same
    rintro t calls rfl
    exact apart (alone.caller calls)

/-- The code of setCallBack itself keeps the one main coroutine from being set. -/
private theorem alone_apt :
    Run (fun process => process = Process.initial) Apt (Step next) history process := by
  refine run.weaken ?_
  intro past before event after reached alone step
  cases step with
  | setCallBack _ t co cb accepted call =>
    cases accepted with
    | false => trivial
    | true =>
      obtain rfl := alone.caller rfl
      obtain ⟨main,_,owner,_,⟨_,self,_,_⟩ | ⟨clash,_⟩⟩ :=
        setCallBack_effect t co cb before after true call
      · intro other owned
        by_cases same : other = t
        · subst other
          rcases getMainCoroutine_cases t before with ⟨m,there,made⟩ | ⟨missing,_⟩
          · rw [made,there] at owner
            rw [there] at owned
            exact self (Option.some.inj (owned.symm.trans owner))
          · rw [missing] at owned
            cases owned
        · rw [alone_elsewhere reached same] at owned
          cases owned
      · cases clash
  | _ => trivial

private theorem alone_coherent : Coherent history process := apt_coherent (alone_apt run)

theorem alone_idle {event : Event Body} {after : Process Body}
    (permitted : Alone thread history process event) (step : Step next process event after)
    {t co : Nat} (resumes : event = .resume t co) : ¬ Executing process co := by
  subst resumes
  obtain rfl := permitted.caller rfl
  rintro ⟨other,body,running⟩
  cases step with
  | resume _ _ _ call =>
    obtain ⟨main,object,b,entered⟩ := (alone_coherent run).resume_enters call
    by_cases same : other = t
    · subst other
      have main_ := entered.caller
      rw [running_attach,running] at main_
      cases main_
    · rw [alone_elsewhere run same] at running
      cases running

/-- Every coroutine with a stack is represented by a generator that took the calls on it. -/
structure Played (next : Body → Option Body) (history : List (Event Body))
    (process : Process Body) : Prop where
  later : ∀ co, process.store.objects.length ≤ co → labels history co = []
  played : ∀ co object, process.store.objects[co]? = some object → object.stackSp ≠ 0 →
    ∃ state, Generator.Trace next (labels history co) state ∧ Represents process co object state

private theorem alone_played : Played next history process := by
  refine run.invariant (Played next) ?_ ?_
  · rintro process rfl
    exact ⟨fun _ _ => rfl,fun co object located => by cases located⟩
  · intro past before event after reached played permitted step
    have structured := reached_structured reached
    have coherent := alone_coherent reached
    refine ⟨fun co beyond => labels_later structured coherent step played.later beyond,?_⟩
    intro co object located stack
    exact trace_step structured coherent step permitted.kept
      (fun t resumes => alone_idle reached permitted step resumes) (played.later co)
        (played.played co) object located
      stack

end

private theorem begun_labels (history : List (Event Body)) (co : Nat) :
    Begun history co ↔ Generator.begun (labels history co) = true := by
  induction history with
  | nil => simp [Begun,labels,Generator.begun]
  | cons event past ih =>
    cases event with
    | setCallBack thread c cb accepted =>
      cases accepted with
      | true =>
        by_cases same : c = co
        · simpa [Begun,labels,label,same,extend,Generator.begun] using ih
        · simpa [Begun,labels,label,same,extend] using ih
      | false => simpa [Begun,labels,label,extend] using ih
    | resume thread c =>
      by_cases same : c = co
      · simp [Begun,labels,label,same,extend,Generator.begun]
      · simpa [Begun,labels,label,same,extend] using ih
    | yield thread c =>
      by_cases same : c = co
      · simpa [Begun,labels,label,same,extend,Generator.begun] using ih
      · simpa [Begun,labels,label,same,extend] using ih
    | finish thread c =>
      by_cases same : c = co
      · simp [Begun,labels,label,same,extend,Generator.begun]
      · simpa [Begun,labels,label,same,extend] using ih
    | _ => simpa [Begun,labels,label,extend] using ih

section
variable {next : Body → Option Body} {thread : Nat} {history : List (Event Body)}
  {process : Process Body}
  (run : Run (fun process => process = Process.initial) (Alone thread) (Step next) history process)
include run

private theorem flag_begun {co : Nat} {object : Coroutine (Context Body) Body}
    (located : process.store.objects[co]? = some object) (stack : object.stackSp ≠ 0) :
    object.cbfuncRunningFlag = true ↔ Begun history co := by
  obtain ⟨state,trace,represents⟩ := (alone_played run).played co object located stack
  rw [begun_labels,← Generator.started_begun trace,represents.started]

end

structure Answer (thread : Nat) (history : List (Event Body)) (process : Process Body) (co : Nat)
    (object : Coroutine (Context Body) Body) (accepted : Bool) (after : Process Body) : Prop where
  begun : object.stackSp ≠ 0 → (accepted = false ↔ Begun history co)
  main : (process.threads thread).mainCoroutine = some co → accepted = false
  unchanged : accepted = false → ∀ (k : Nat) (other : Coroutine (Context Body) Body),
    process.store.objects[k]? = some other → after.store.objects[k]? = some other

def Waits (process : Process Body) (co : Nat) (rest : Body) (callBack : Option Body) : Prop :=
  ∃ object, process.store.objects[co]? = some object ∧ object.stackSp ≠ 0 ∧
    object.callBack = callBack ∧
    Represents process co object (.suspended rest)

section
variable {next : Body → Option Body} {thread : Nat} {history : List (Event Body)}
  {process after : Process Body}
  (run : Run (fun process => process = Process.initial) (Alone thread) (Step next) history process)
include run

private theorem setCallBack_answers {co : Nat} {object : Coroutine (Context Body) Body} (cb : Body)
    (located : process.store.objects[co]? = some object) :
    ∃ accepted after, process.setCallBack thread co cb = .ok (accepted,after) ∧
      Answer thread history process co object accepted after := by
  have there := getMainCoroutine_keeps thread located
  obtain ⟨accepted,after,call⟩ : ∃ accepted after, process.setCallBack thread co cb = .ok
      (accepted,after) := by
    unfold Process.setCallBack
    dsimp only
    rw [there]
    exact ⟨_,_,rfl⟩
  refine ⟨accepted,after,call,?_⟩
  obtain ⟨main,target,owner,found,act⟩ :=
    setCallBack_effect thread co cb process after accepted call
  rw [there] at found
  cases found
  refine ⟨?_,?_,?_⟩
  · intro stack
    rw [← flag_begun run located stack]
    rcases act with ⟨rfl,_,idle,_⟩ | ⟨rfl,why,_⟩
    · simp [idle]
    · refine ⟨fun _ => why.resolve_left ?_,fun _ => rfl⟩
      exact stacked_not_main ((alone_coherent run).getMainCoroutine thread) owner there stack
  · intro owned
    rcases act with ⟨_,self,_,_⟩ | ⟨refused,_⟩
    · rcases getMainCoroutine_cases thread process with ⟨m,mine,made⟩ | ⟨missing,_⟩
      · rw [made,mine] at owner
        rw [mine] at owned
        exact absurd (Option.some.inj (owned.symm.trans owner)) self
      · rw [missing] at owned
        cases owned
    · exact refused
  · intro refused k other present
    rcases act with ⟨rfl,_⟩ | ⟨_,_,rfl⟩
    · cases refused
    · exact getMainCoroutine_keeps thread present

private theorem yield_waits {co : Nat} {body rest : Body}
    (running : (process.threads thread).running = .callBack co body) (more : next body = some rest)
    (step : Step next process (.yield thread co) after) :
    ∃ callBack, Waits after co rest callBack := by
  have coherent := alone_coherent run
  have structured := reached_structured run
  obtain ⟨object,located,stack⟩ := executing_stacked coherent running
  obtain ⟨state,_,represents⟩ := (alone_played run).played co object located stack
  have unique := represents.unique located
  obtain rfl := executes unique coherent running
  obtain ⟨later,there,same⟩ := object_lasts (step_lasts structured step) located
  have high : later.stackSp ≠ 0 := by
    rw [show later.stackSp = object.stackSp from congrArg Identity.stackSp same]
    exact stack
  obtain ⟨reached,moves,represented⟩ :=
    simulates unique coherent (step_effect structured coherent step) nofun nofun
    (fun beyond => absurd (List.getElem?_eq_some_iff.mp located).1 (Nat.not_lt.mpr beyond))
      later there high
  rw [label,if_pos rfl] at moves
  cases moves with
  | pause _ _ other again =>
    rw [more] at again
    cases again
    exact ⟨later.callBack,later,there,high,rfl,represented⟩

private theorem step_waits {event : Event Body} {co : Nat} {rest : Body} {callBack : Option Body}
    (waits : Waits process co rest callBack) (permitted : Alone thread history process event)
    (other : ∀ t, event ≠ .resume t co) (step : Step next process event after) :
    Waits after co rest callBack := by
  obtain ⟨object,located,stack,set,represents⟩ := waits
  have coherent := alone_coherent run
  have structured := reached_structured run
  have effect := step_effect structured coherent step
  have unique := represents.unique located
  have inside := (List.getElem?_eq_some_iff.mp located).1
  obtain ⟨later,there,same⟩ := object_lasts (step_lasts structured step) located
  have high : later.stackSp ≠ 0 := by
    rw [show later.stackSp = object.stackSp from congrArg Identity.stackSp same]
    exact stack
  obtain ⟨reached,moves,represented⟩ := simulates unique coherent effect permitted.kept
    (fun t resumes => absurd resumes (other t))
      (fun beyond => absurd inside (Nat.not_lt.mpr beyond)) later there high
  cases found : label event co with
  | none =>
    rw [found] at moves
    cases moves
    have kept : process.store.objects[co]? = some later := by
      rcases effect.frame coherent permitted.kept co later there high (untouched_label found) with
        old | ⟨beyond,_⟩
      · exact old
      · exact absurd inside (Nat.not_lt.mpr beyond)
    rw [located] at kept
    cases kept
    exact ⟨object,there,high,set,represented⟩
  | some called =>
    rw [found] at moves
    rcases label_some found with ⟨t,cb,_,rfl⟩ | ⟨t,resumes,_⟩ | ⟨t,_,rfl⟩ | ⟨t,_,rfl⟩
    · cases moves with
      | set _ _ idle => cases idle
    · exact absurd resumes (other t)
    · cases moves
    · cases moves

private theorem resume_continues {co count : Nat} {rest : Body} {callBack : Option Body}
    (waits : Waits process co rest callBack)
    (main_ : (process.threads thread).running = .main thread count) :
    ∃ after, process.resume thread (some co) = .ok after ∧ (after.threads thread).running =
      .callBack co rest := by
  obtain ⟨object,located,stack,_,represents⟩ := waits
  have coherent := alone_coherent run
  obtain ⟨after,call⟩ := resume_runs coherent main_ located stack represents (Or.inr ⟨rest,rfl⟩)
  refine ⟨after,call,?_⟩
  have idle : ¬ Executing process co := by
    rintro ⟨other,body,running⟩
    cases (represents.executing other body).mp running
  obtain ⟨main,target,body,entered⟩ := coherent.resume_enters call
  have same : object = target := Option.some.inj (located.symm.trans entered.present)
  subst target
  have moves : Generator.Step next _ _ _ := enter_moves entered represents idle
  cases moves
  rw [entered.threads,Function.update_self]

private theorem run_waits {co : Nat} {rest : Body} {callBack : Option Body}
    (waits : Waits process co rest callBack) {late : List (Event Body)} {middle : Process Body}
    (later : Run (fun start => start = process) (fun late => Alone thread (late ++ history))
      (Step next) late middle)
    (away : ∀ t, Event.resume t co ∉ late) : Waits middle co rest callBack := by
  revert away
  refine later.invariant (fun late middle => (∀ t, Event.resume t co ∉ late) →
    Waits middle co rest callBack) ?_ ?_
  · rintro start rfl _
    exact waits
  · intro past before event after reached held permitted step away
    refine step_waits (run.append reached)
      (held fun t member => away t (List.mem_cons_of_mem event member)) permitted
      ?_ step
    rintro t rfl
    exact away t List.mem_cons_self

end

/-- What the running flag is worth in a reached state: it is set exactly while the
callback of its coroutine has begun and not returned, setCallBack answers by it, and a
callback suspended here by a Yield waits unchanged for the next Resume. -/
structure Protected (next : Body → Option Body) (thread : Nat) (history : List (Event Body))
    (process : Process Body) :
    Prop where
  flag : ∀ co object, process.store.objects[co]? = some object → object.stackSp ≠ 0 →
    (object.cbfuncRunningFlag = true ↔ Begun history co)
  answers : ∀ co object cb, process.store.objects[co]? = some object →
    ∃ accepted after, process.setCallBack thread co cb = .ok (accepted,after) ∧
      Answer thread history process co object accepted after
  continues : ∀ co body rest suspended, (process.threads thread).running = .callBack co body →
    next body = some rest →
    Step next process (.yield thread co) suspended →
    ∃ original, suspended.store.objects[co]? = some original ∧
      ∀ late middle, Run (fun start => start = suspended)
        (fun late => Alone thread (late ++ .yield thread co::history))
          (Step next) late middle → (∀ t, Event.resume t co ∉ late) →
        (∃ object, middle.store.objects[co]? = some object ∧ object.coctx = .callBack co rest ∧
          object.callBack = original.callBack) ∧
        ∀ count, (middle.threads thread).running = .main thread count →
          ∃ after, middle.resume thread (some co) = .ok after ∧ (after.threads thread).running =
            .callBack co rest

theorem callBack_protected (next : Body → Option Body) (thread : Nat) (history : List (Event Body))
    (process : Process Body)
    (run : Run (fun process => process = Process.initial) (Alone thread)
      (Step next) history process) :
    Protected next thread history process := by
  refine ⟨fun _ _ => flag_begun run,fun _ _ cb => setCallBack_answers run cb,?_⟩
  intro co body rest suspended running more step
  obtain ⟨callBack,waits⟩ := yield_waits run running more step
  have yielded : Run _ (Alone thread) (Step next) _ suspended :=
    .next _ _ (.yield thread co) _ run ?_ step
  · have start := waits
    obtain ⟨original,there,_,set,_⟩ := start
    refine ⟨original,there,?_⟩
    intro late middle later away
    have held := run_waits yielded waits later away
    refine ⟨?_,fun count main_ => resume_continues (yielded.append later) held main_⟩
    obtain ⟨object,located,_,same,represents⟩ := held
    exact ⟨object,located,represents.saved,same.trans set.symm⟩
  · intro other called
    exact (Option.some.inj called).symm

theorem callBack_protected_entered :
    ∃ process : Process Bool, (process.threads 0).running = .callBack 1 true ∧
      Protected (fun more => if more then some false else none) 0
        [.resume 0 1,.setCallBack 0 1 true true,.getCoroutine 0 0 1,.newPool 1 16] process := by
  have given := Run.next _ _ (Event.setCallBack 0 1 true true) _
    (oneProcess_handed (fun more => if more then some false else none) (Alone 0)
      (by simp [Alone,caller])
      (by simp [Alone,caller])) (by simp [Alone,caller]) (Step.setCallBack _ _ 0 1 true true rfl)
  have entered := Run.next _ _ (Event.resume 0 1) _ given (by simp [Alone,caller])
    (Step.resume _ _ 0 1 rfl)
  exact ⟨_,rfl,callBack_protected _ 0 _ _ entered⟩

end MCoroutine.CallBackFlags
