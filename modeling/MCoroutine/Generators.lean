import MCoroutine.General.Generator
import MCoroutine.Switching

/-! Coroutines as generators. The flags, the saved context and the running threads of a
coroutine represent the state of a generator, and the calls made on it are its labels. -/
namespace MCoroutine.Generators
open General General.Runs Process MCoroutine.Numbering SlotRuns Switching

variable {Body : Type}

def label : Event Body → Nat → Option (Generator.Label Body Nat)
  | .setCallBack _ c cb true,co => if c = co then some (.set cb) else none
  | .resume thread c,co => if c = co then some (.resume thread) else none
  | .yield _ c,co => if c = co then some .pause else none
  | .finish _ c,co => if c = co then some .stop else none
  | _,_ => none

def Saved (co : Nat) : Generator.State Body Nat → Coroutine (Context Body) Body → Prop
  | .fresh cb,object => object.coctx = .runCallBack co ∧ object.callBack = some cb
  | .suspended rest,object => object.coctx = .callBack co rest
  | .completed,object => object.coctx = .finished co
  | _,_ => True

structure Represents (process : Process Body) (co : Nat) (object : Coroutine (Context Body) Body)
    (state : Generator.State Body Nat) : Prop where
  started : object.cbfuncRunningFlag = state.started
  ready : object.resumeFlag = state.ready
  saved : Saved co state object
  executing : ∀ thread body, (process.threads thread).running = .callBack co body ↔
    state = .executing thread body

def Moves (next : Body → Option Body) :
    Option (Generator.Label Body Nat) → Generator.State Body Nat →
    Generator.State Body Nat → Prop
  | none,before,after => after = before
  | some label,before,after => Generator.Step next before label after

theorem label_untouched {event : Event Body} {co : Nat} (apart : touched event ≠ some co) :
    label event co = none := by
  cases event with
  | setCallBack thread c cb accepted =>
    cases accepted with
    | true => exact if_neg fun same => apart (congrArg some same)
    | false => rfl
  | resume thread c => exact if_neg fun same => apart (congrArg some same)
  | yield thread c => exact if_neg fun same => apart (congrArg some same)
  | finish thread c => exact if_neg fun same => apart (congrArg some same)
  | _ => rfl

theorem untouched_label {event : Event Body} {co : Nat} (away : label event co = none) :
    touched event ≠ some co := by
  intro touch
  cases event with
  | setCallBack thread c cb accepted =>
    cases accepted with
    | true =>
      rw [label,if_pos (Option.some.inj touch)] at away
      cases away
    | false => cases touch
  | resume thread c | yield thread c | finish thread c =>
    rw [label,if_pos (Option.some.inj touch)] at away
    cases away
  | _ => cases touch

theorem label_some {event : Event Body} {co : Nat} {found : Generator.Label Body Nat}
    (called : label event co = some found) :
    (∃ thread cb, event = .setCallBack thread co cb true ∧ found = .set cb) ∨
      (∃ thread, event = .resume thread co ∧ found = .resume thread) ∨
      (∃ thread, event = .yield thread co ∧ found = .pause) ∨
      (∃ thread, event = .finish thread co ∧ found = .stop) := by
  cases event with
  | setCallBack thread c cb accepted =>
    cases accepted with
    | true =>
      obtain ⟨rfl,same⟩ := Option.ite_none_right_eq_some.mp called
      exact Or.inl ⟨thread,cb,rfl,(Option.some.inj same).symm⟩
    | false => cases called
  | resume thread c =>
    obtain ⟨rfl,same⟩ := Option.ite_none_right_eq_some.mp called
    exact Or.inr (Or.inl ⟨thread,rfl,(Option.some.inj same).symm⟩)
  | yield thread c =>
    obtain ⟨rfl,same⟩ := Option.ite_none_right_eq_some.mp called
    exact Or.inr (Or.inr (Or.inl ⟨thread,rfl,(Option.some.inj same).symm⟩))
  | finish thread c =>
    obtain ⟨rfl,same⟩ := Option.ite_none_right_eq_some.mp called
    exact Or.inr (Or.inr (Or.inr ⟨thread,rfl,(Option.some.inj same).symm⟩))
  | _ => cases called

section
variable {next : Body → Option Body} {past : List (Event Body)} {process after : Process Body}
  {event : Event Body} {co : Nat}

theorem running_untouched (effect : Effect next past process event after)
    (apart : touched event ≠ some co) (thread : Nat) (body : Body) :
    (after.threads thread).running = .callBack co body ↔ (process.threads thread).running =
      .callBack co body := by
  rcases effect.running thread with same | ⟨c,b,rfl,entered,caller⟩ | ⟨c,b,count,ended,
    inner,returned⟩
  · rw [same]
  · rw [entered,caller]
    refine ⟨?_,nofun⟩
    intro same
    cases same
    exact absurd rfl apart
  · rw [inner,returned]
    refine ⟨nofun,?_⟩
    intro same
    cases same
    rcases ended with rfl | rfl
    · exact absurd rfl apart
    · exact absurd rfl apart

theorem executing_stacked (coherent : Coherent past process) {thread : Nat} {body : Body}
    (running : (process.threads thread).running = .callBack co body) :
    ∃ object, process.store.objects[co]? = some object ∧ object.stackSp ≠ 0 := by
  cases coherent.runs thread with
  | main running_ _ =>
    rw [running] at running_
    cases running_
  | callBack c main b running_ current owner saved stack =>
    rw [running] at running_
    cases running_
    exact (stacked_iff _ co).mp stack

variable {state : Generator.State Body Nat}
  (before : ∀ object, process.store.objects[co]? = some object → object.stackSp ≠ 0 →
    Represents process co object state)
include before

theorem executes (coherent : Coherent past process) {thread : Nat} {body : Body}
    (running : (process.threads thread).running = .callBack co body) :
    state = .executing thread body := by
  obtain ⟨object,located,stack⟩ := executing_stacked coherent running
  exact ((before object located stack).executing thread body).mp running

private theorem simulates_accept (coherent : Coherent past process)
    (later : process.store.objects.length ≤ co → state = .unset) {thread : Nat} {cb : Body}
    (call : process.setCallBack thread co cb = .ok (true,after))
    (object : Coroutine (Context Body) Body) (located : after.store.objects[co]? = some object)
    (stack : object.stackSp ≠ 0) :
    Generator.Step next state (.set cb) (.fresh cb) ∧ Represents after co object (.fresh cb) := by
  obtain ⟨main,target,_,there,⟨_,_,idle,rfl⟩ | ⟨clash,_⟩⟩ :=
    setCallBack_effect thread co cb process after true call
  · rw [Store.modify_at,if_pos rfl,there] at located
    cases located
    have calm : state.started = false := by
      rcases getMainCoroutine_inherits process thread co target there stack with
        present | ⟨beyond,_⟩
      · rw [← (before target present stack).started]
        exact idle
      · rw [later beyond]
        rfl
    refine ⟨.set state cb calm,idle,rfl,⟨rfl,rfl⟩,?_⟩
    intro other body
    refine ⟨?_,nofun⟩
    intro running
    rw [show _ = (process.threads other).running from running_getMainCoroutine process thread
      other] at running
    rw [executes before coherent running] at calm
    cases calm
  · cases clash

private theorem simulates_enter (idle : ¬ Executing process co) {thread main : Nat}
    {target : Coroutine (Context Body) Body} {body : Body}
    (entered : Entered past (process.attach thread) thread co main target body after)
    (object : Coroutine (Context Body) Body) (located : after.store.objects[co]? = some object) :
    Generator.Step next state (.resume thread) (.executing thread body) ∧
      Represents after co object (.executing thread body) := by
  obtain ⟨started,ready,saved,executing⟩ := before target entered.present entered.stack
  have running (other : Nat) (b : Body) : (after.threads other).running = .callBack co b ↔
      (Generator.State.executing thread body : Generator.State Body Nat) = .executing other b := by
    rw [entered.threads]
    by_cases same : other = thread
    · subst other
      rw [Function.update_self]
      refine ⟨?_,?_⟩
      · intro same
        cases same
        rfl
      · intro same
        cases same
        rfl
    · rw [Function.update_of_ne same,running_attach]
      refine ⟨fun runs => absurd ⟨other,b,runs⟩ idle,?_⟩
      intro clash
      cases clash
      exact absurd rfl same
  rw [entered.flag] at ready
  rcases entered.target with ⟨kept,kind⟩ | ⟨changed,kind,set⟩
  · rw [kept] at located
    cases located
    cases state with
    | unset => cases ready
    | fresh cb =>
      rw [saved.1] at kind
      cases kind
    | executing other b => exact absurd ⟨other,b,(executing other b).mpr rfl⟩ idle
    | suspended rest =>
      rw [show _ = _ from saved] at kind
      cases kind
      exact ⟨.proceed thread body,started,entered.flag,trivial,running⟩
    | completed =>
      rw [show _ = _ from saved] at kind
      cases kind
  · rw [changed] at located
    cases located
    cases state with
    | unset => cases ready
    | fresh cb =>
      obtain rfl : cb = body := Option.some.inj (saved.2.symm.trans set)
      exact ⟨.start thread cb,rfl,entered.flag,trivial,running⟩
    | executing other b => exact absurd ⟨other,b,(executing other b).mpr rfl⟩ idle
    | suspended rest =>
      rw [show _ = _ from saved] at kind
      cases kind
    | completed =>
      rw [show _ = _ from saved] at kind
      cases kind

private theorem simulates_leave (coherent : Coherent past process) {thread main : Nat} {body : Body}
    {saved : Context Body} {reached : Generator.State Body Nat} {middle : Process Body}
    (running : (process.threads thread).running = .callBack co body)
    (left : Left past middle thread co main saved after) (same : middle.threads = process.threads)
    (passive : ∀ other b, reached ≠ .executing other b) (other : Nat) (b : Body) :
    (after.threads other).running = .callBack co b ↔ reached = .executing other b := by
  refine ⟨?_,fun clash => absurd clash (passive other b)⟩
  intro runs
  rw [left.threads] at runs
  by_cases here : other = thread
  · subst other
    rw [Function.update_self] at runs
    cases runs
  · rw [Function.update_of_ne here,same] at runs
    have clash := (executes before coherent runs).symm.trans (executes before coherent running)
    cases clash
    exact absurd rfl here

/-- Each step of the process is a labelled move of the generator of each coroutine, or
none: setCallBack, Resume, Yield and the end of a callback of their own coroutine. -/
theorem simulates (coherent : Coherent past process) (effect : Effect next past process event after)
    (kept : ∀ thread index co, event ≠ .backCoroutine thread index co)
    (idle : ∀ thread, event = .resume thread co → ¬ Executing process co)
    (later : process.store.objects.length ≤ co → state = .unset)
    (object : Coroutine (Context Body) Body) (located : after.store.objects[co]? = some object)
    (stack : object.stackSp ≠ 0) :
    ∃ reached, Moves next (label event co) state reached ∧ Represents after co object reached := by
  by_cases touch : touched event = some co
  · cases effect with
    | grow _ _ fresh plain threads objects unused =>
      rw [touched_plain plain] at touch
      cases touch
    | attach _ _ thread plain attached =>
      rw [touched_plain plain] at touch
      cases touch
    | release thread index other pool result store there call =>
      exact absurd rfl (kept thread index other)
    | accept thread other cb accepted _ call =>
      cases accepted with
      | true =>
        obtain rfl := Option.some.inj touch
        rw [label,if_pos rfl]
        exact ⟨_,simulates_accept before coherent later call object located stack⟩
      | false => cases touch
    | enter thread other main target body _ entered =>
      obtain rfl := Option.some.inj touch
      rw [label,if_pos rfl]
      exact ⟨_,simulates_enter before (idle thread rfl) entered object located⟩
    | leave thread other main body rest _ running more left =>
      obtain rfl := Option.some.inj touch
      rw [label,if_pos rfl]
      obtain ⟨inner,there,rfl⟩ := left.source_object located
      obtain rfl := executes before coherent running
      obtain ⟨started,ready,_,_⟩ := before inner there stack
      exact ⟨.suspended rest,.pause thread body rest more,started,ready,rfl,
        simulates_leave before coherent running left rfl nofun⟩
    | stop thread other main body _ running done left =>
      obtain rfl := Option.some.inj touch
      rw [label,if_pos rfl]
      obtain ⟨inner,cleared,rfl⟩ := left.source_object located
      rw [Store.modify_at,if_pos rfl] at cleared
      obtain ⟨origin,there,rfl⟩ := Option.map_eq_some_iff.mp cleared
      obtain rfl := executes before coherent running
      obtain ⟨started,ready,_,_⟩ := before origin there stack
      exact ⟨.completed,.stop thread body done,rfl,ready,rfl,
        simulates_leave before coherent running left rfl nofun⟩
  · rw [label_untouched touch]
    refine ⟨state,rfl,?_⟩
    rcases effect.frame coherent kept co object located stack touch with
      there | ⟨beyond,_,resume,running⟩
    · obtain ⟨started,ready,saved,executing⟩ := before object there stack
      exact ⟨started,ready,saved,
        fun thread body => (running_untouched effect touch thread body).trans
          (executing thread body)⟩
    · rw [later beyond]
      refine ⟨running,resume,trivial,?_⟩
      intro thread body
      rw [running_untouched effect touch thread body]
      refine ⟨fun runs => ?_,nofun⟩
      obtain ⟨_,present,_⟩ := executing_stacked coherent runs
      exact absurd (List.getElem?_eq_some_iff.mp present).1 (Nat.not_lt.mpr beyond)

end

theorem Represents.unique {process : Process Body} {co : Nat}
    {object : Coroutine (Context Body) Body} {state : Generator.State Body Nat}
    (represents : Represents process co object state)
    (located : process.store.objects[co]? = some object) (other : Coroutine (Context Body) Body)
    (here : process.store.objects[co]? = some other) (_ : other.stackSp ≠ 0) :
    Represents process co other state := by
  rw [located] at here
  cases here
  exact represents

theorem enter_moves {next : Body → Option Body} {past : List (Event Body)}
    {process after : Process Body} {thread co main : Nat} {object : Coroutine (Context Body) Body}
    {body : Body} {state : Generator.State Body Nat}
    (entered : Entered past (process.attach thread) thread co main object body after)
    (represents : Represents process co object state) (idle : ¬ Executing process co) :
    Generator.Step next state (.resume thread) (.executing thread body) := by
  have unique := represents.unique entered.present
  rcases entered.target with ⟨kept,_⟩ | ⟨changed,_,_⟩
  · exact (simulates_enter unique idle entered object kept).1
  · exact (simulates_enter unique idle entered _ changed).1

section
variable {past : List (Event Body)} {process : Process Body} {thread co : Nat}

private theorem attach_in_main (coherent : Coherent past process) {count : Nat}
    (running : (process.threads thread).running = .main thread count) :
    ∃ main, ((process.attach thread).threads thread).mainCoroutine = some main ∧
      ((process.attach thread).threads thread).curCoroutine = some main := by
  have current := attach_current thread process
  cases (coherent.attach thread).runs thread with
  | main _ points => exact ⟨_,points _ current,current⟩
  | callBack c main body inner _ _ _ _ =>
    rw [running_attach,running] at inner
    cases inner

theorem resume_runs (coherent : Coherent past process) {count : Nat}
    (running : (process.threads thread).running = .main thread count)
    {object : Coroutine (Context Body) Body} (located : process.store.objects[co]? = some object)
    (stack : object.stackSp ≠ 0) {state : Generator.State Body Nat}
    (represents : Represents process co object state)
    (startable : (∃ cb, state = .fresh cb) ∨ ∃ rest, state = .suspended rest) :
    ∃ after, process.resume thread (some co) = .ok after := by
  obtain ⟨main,owner,current⟩ := attach_in_main coherent running
  have there := attach_keeps thread located
  have other := stacked_not_main (coherent.attach thread) owner there stack
  have flag : ¬ object.resumeFlag = false := by
    rw [represents.ready]
    rcases startable with ⟨cb,rfl⟩ | ⟨rest,rfl⟩
    · simp [Generator.State.ready]
    · simp [Generator.State.ready]
  have found : (((process.attach thread).point thread co).store.modify main fun host =>
      { host with coctx := returned ((process.attach thread).threads thread).running
          }).objects[co]? = some object := by
    rw [Store.modify_at,if_neg other]
    exact there
  rw [resume,resumeCheck_main thread co main process object owner current there other,if_neg flag]
  change ∃ after, swap thread main co (returned ((process.attach thread).threads thread).running)
    ((process.attach thread).point thread co) = .ok after
  unfold swap
  dsimp only
  rw [found]
  rcases startable with ⟨cb,rfl⟩ | ⟨rest,rfl⟩
  · have whole : object.callBack = some cb := represents.saved.2
    simp only [show object.coctx = .runCallBack co from represents.saved.1,enter,found,stack,
      whole,if_false]
    exact ⟨_,rfl⟩
  · simp only [show object.coctx = .callBack co rest from represents.saved,enter]
    exact ⟨_,rfl⟩

theorem yield_leaves (coherent : Coherent past process) {body : Body}
    (running : (process.threads thread).running = .callBack co body) (saved : Context Body) :
    ∃ after, process.yield thread saved = .ok after := by
  cases coherent.runs thread with
  | main running_ _ =>
    rw [running] at running_
    cases running_
  | callBack c main b running_ current owner waiting stack =>
    rw [running] at running_
    cases running_
    obtain ⟨object,located,high⟩ := (stacked_iff _ co).mp stack
    have other := stacked_not_main coherent owner located high
    have same := attach_same owner current
    have pointed := Option.some.inj ((attach_current thread process).symm.trans (same ▸ current))
    have owned := Option.some.inj ((attach_main thread process).symm.trans (same ▸ owner))
    obtain ⟨host,there,context⟩ := Option.map_eq_some_iff.mp waiting
    have found : ((process.point thread main).store.modify co fun object =>
        { object with coctx := saved }).objects[main]? = some host := by
      rw [Store.modify_at,if_neg (Ne.symm other)]
      exact there
    unfold Process.yield
    dsimp only
    rw [pointed,owned,if_neg other]
    change ∃ after, swap thread co main saved
      ((process.attach thread).point thread main) = .ok after
    rw [same]
    unfold swap
    dsimp only
    rw [found]
    simp only [context,enter]
    exact ⟨_,rfl⟩

end

def extend (found : Option (Generator.Label Body Nat)) (labels : List (Generator.Label Body Nat)) :
    List (Generator.Label Body Nat) := found.toList ++ labels

private theorem trace_extend {next : Body → Option Body} {labels : List (Generator.Label Body Nat)}
    {state reached : Generator.State Body Nat} {found : Option (Generator.Label Body Nat)}
    (trace : Generator.Trace next labels state) (moves : Moves next found state reached) :
    Generator.Trace next (extend found labels) reached := by
  cases found with
  | none =>
    cases moves
    exact trace
  | some label => exact .next labels state label reached trace trivial moves

section
variable {next : Body → Option Body} {past : List (Event Body)} {process after : Process Body}
  {event : Event Body} {co : Nat}

theorem touched_inside (coherent : Coherent past process)
    (effect : Effect next past process event after) (touch : touched event = some co) :
    co < after.store.objects.length := by
  cases effect with
  | grow _ _ fresh plain threads objects unused =>
    rw [touched_plain plain] at touch
    cases touch
  | attach _ _ thread plain attached =>
    rw [touched_plain plain] at touch
    cases touch
  | release => cases touch
  | accept thread other cb accepted _ call =>
    obtain ⟨main,target,_,there,⟨rfl,_,_,rfl⟩ | ⟨rfl,_,_⟩⟩ :=
      setCallBack_effect thread other cb process after accepted call
    · cases touch
      rw [Store.modify_length]
      exact (List.getElem?_eq_some_iff.mp there).1
    · cases touch
  | enter thread other main target body _ entered =>
    cases touch
    rcases entered.target with ⟨kept,_⟩ | ⟨changed,_,_⟩
    · exact (List.getElem?_eq_some_iff.mp kept).1
    · exact (List.getElem?_eq_some_iff.mp changed).1
  | leave thread other main body rest _ running more left =>
    cases touch
    obtain ⟨object,there,_⟩ := executing_stacked coherent running
    rw [left.store,Store.modify_length]
    exact (List.getElem?_eq_some_iff.mp there).1
  | stop thread other main body _ running done left =>
    cases touch
    obtain ⟨object,there,_⟩ := executing_stacked coherent running
    rw [left.store,Store.modify_length,Store.modify_length]
    exact (List.getElem?_eq_some_iff.mp there).1

theorem trace_step (structured : Structured process) (coherent : Coherent past process)
    (step : Step next process event after)
    (kept : ∀ thread index co, event ≠ .backCoroutine thread index co)
    (idle : ∀ thread, event = .resume thread co → ¬ Executing process co)
    {labels : List (Generator.Label Body Nat)}
    (later : process.store.objects.length ≤ co → labels = [])
    (played : ∀ object, process.store.objects[co]? = some object → object.stackSp ≠ 0 →
      ∃ state, Generator.Trace next labels state ∧ Represents process co object state)
    (object : Coroutine (Context Body) Body) (located : after.store.objects[co]? = some object)
    (stack : object.stackSp ≠ 0) :
    ∃ reached, Generator.Trace next (extend (label event co) labels) reached ∧
      Represents after co object reached := by
  obtain ⟨state,trace,before,beyond⟩ : ∃ state, Generator.Trace next labels state ∧
      (∀ object, process.store.objects[co]? = some object → object.stackSp ≠ 0 →
        Represents process co object state) ∧
      (process.store.objects.length ≤ co → state = .unset) := by
    rcases Nat.lt_or_ge co process.store.objects.length with inside | outside
    · have there : process.store.objects[co]? = some process.store.objects[co] :=
        List.getElem?_eq_getElem inside
      have high : (process.store.objects[co]).stackSp ≠ 0 := by
        obtain ⟨later,found,same⟩ := object_lasts (step_lasts structured step) there
        rw [located] at found
        cases found
        have size : object.stackSp = (process.store.objects[co]).stackSp :=
          congrArg Identity.stackSp same
        rw [← size]
        exact stack
      obtain ⟨state,trace,represents⟩ := played _ there high
      exact ⟨state,trace,represents.unique there,fun clash => absurd inside (Nat.not_lt.mpr clash)⟩
    · refine ⟨.unset,?_,?_,fun _ => rfl⟩
      · rw [later outside]
        exact .start _ rfl
      · intro other here _
        exact absurd (List.getElem?_eq_some_iff.mp here).1 (Nat.not_lt.mpr outside)
  obtain ⟨reached,moves,represents⟩ :=
    simulates before coherent (step_effect structured coherent step) kept idle beyond
      object located stack
  exact ⟨reached,trace_extend trace moves,represents⟩

end

end MCoroutine.Generators
