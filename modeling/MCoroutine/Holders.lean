import MCoroutine.Generators
import MCoroutine.Handout

/-! Successive holders of a pooled coroutine. What one holder leaves in it, fresh,
suspended or completed, is neither executed nor in the way of the next. -/
namespace MCoroutine.Holders
open General General.Runs Process MCoroutine.Numbering SlotRuns Switching Handout Generators

variable {Body : Type}

def accepted : List (Event Body) → Nat → List Body
  | [],_ => []
  | .getCoroutine _ _ c::past,co => if c = co then [] else accepted past co
  | .setCallBack _ c cb true::past,co => if c = co then cb::accepted past co else accepted past co
  | _::past,co => accepted past co

def tenure : List (Event Body) → Nat → List (Generator.Label Body Nat)
  | [],_ => []
  | .getCoroutine _ _ c::past,co => if c = co then [] else tenure past co
  | event::past,co => extend (label event co) (tenure past co)

/-- Since it was last handed out, the coroutine was not resumed during a segment. -/
def Sequential : List (Event Body) → Nat → Prop
  | [],_ => True
  | .getCoroutine _ _ c::past,co => c = co ∨ Sequential past co
  | .resume _ c::past,co => Sequential past co ∧ (c = co → Generator.busy (tenure past co) = false)
  | _::past,co => Sequential past co

structure Within (holds : Body → Prop) (process : Process Body) (co : Nat)
    (object : Coroutine (Context Body) Body) :
    Prop where
  saved : object.resumeFlag = true →
    (object.coctx = .runCallBack co ∧ ∃ cb, object.callBack = some cb ∧ holds cb) ∨
      (∃ rest, object.coctx = .callBack co rest ∧ holds rest) ∨ object.coctx = .finished co
  executing : ∀ thread body, (process.threads thread).running = .callBack co body → holds body

section
variable {next : Body → Option Body} {past : List (Event Body)} {process after : Process Body}
  {event : Event Body} {co : Nat}

private theorem within_unset {holds : Body → Prop} {object : Coroutine (Context Body) Body}
    (represents : Represents process co object .unset) : Within holds process co object := by
  refine ⟨?_,?_⟩
  · intro flag
    rw [represents.ready] at flag
    cases flag
  · intro thread body running
    have clash := (represents.executing thread body).mp running
    cases clash

structure Lending (next : Body → Option Body) (history : List (Event Body))
    (process : Process Body) : Prop where
  later : ∀ co, process.store.objects.length ≤ co → tenure history co = []
  unset : ∀ co object, process.store.objects[co]? = some object → object.stackSp ≠ 0 →
    ¬ Held 0 history co ∨ accepted history co = [] → Represents process co object .unset
  played : ∀ co object, process.store.objects[co]? = some object → object.stackSp ≠ 0 →
    Held 0 history co →
    Sequential history co → ∃ state, Generator.Trace next (tenure history co) state ∧
      Represents process co object state
  mine : ∀ co object, process.store.objects[co]? = some object → object.stackSp ≠ 0 →
    Within (Generator.Generated next (accepted history co)) process co object

theorem Lending.release (lending : Lending next past process)
    (reached : Run (fun process => process = Process.initial) Tended (Step next) past process)
    {thread index c : Nat} (held : Held index past c) (idle : ¬ Executing process c)
    (step : Step next process (.backCoroutine thread index c) after) :
    Lending next (.backCoroutine thread index c::past) after := by
  cases step with
  | backCoroutine _ _ _ pool result store there call =>
    obtain ⟨rfl,_,_,_,_,_,rfl,_⟩ := sole_returned reached
      (reached_exclusive reached).served held there call
    have cleared (object : Coroutine (Context Body) Body) :
        Represents process c ((object.setCallBackRunningFlag false).setResumeFlag false) .unset :=
      ⟨rfl,rfl,trivial,fun runner body => ⟨fun running => absurd ⟨runner,body,running⟩ idle,nofun⟩⟩
    refine ⟨?_,?_,?_,?_⟩
    · intro co beyond
      rw [setPool_store,Store.modify_length] at beyond
      exact lending.later co beyond
    · intro co object located stack free
      rw [setPool_store,Store.modify_at] at located
      by_cases same : co = c
      · subst co
        rw [if_pos rfl] at located
        obtain ⟨inner,_,rfl⟩ := Option.map_eq_some_iff.mp located
        obtain ⟨started,ready,saved,executing⟩ := cleared inner
        exact ⟨started,ready,saved,executing⟩
      · rw [if_neg same] at located
        have before : ¬ Held 0 past co ∨ accepted past co = [] :=
          free.imp (fun lost held => lost ⟨held,fun clash => same clash.2.symm⟩) id
        obtain ⟨started,ready,saved,executing⟩ := lending.unset co object located stack before
        exact ⟨started,ready,saved,executing⟩
    · intro co object located stack taken sequential
      have apart : co ≠ c := fun same => taken.2 ⟨rfl,same.symm⟩
      rw [setPool_store,Store.modify_at,if_neg apart] at located
      obtain ⟨state,trace,started,ready,saved,executing⟩ :=
        lending.played co object located stack taken.1 sequential
      exact ⟨state,trace,started,ready,saved,executing⟩
    · intro co object located stack
      rw [setPool_store,Store.modify_at] at located
      by_cases same : co = c
      · subst co
        rw [if_pos rfl] at located
        obtain ⟨inner,_,rfl⟩ := Option.map_eq_some_iff.mp located
        have within : Within (Generator.Generated next (accepted past c)) process c _ :=
          within_unset (cleared inner)
        exact ⟨within.saved,within.executing⟩
      · rw [if_neg same] at located
        obtain ⟨saved,executing⟩ := lending.mine co object located stack
        exact ⟨saved,executing⟩

theorem Within.mono {one two : Body → Prop} {object : Coroutine (Context Body) Body}
    (wider : ∀ body, one body → two body) (within : Within one process co object) :
    Within two process co object := by
  refine ⟨?_,fun thread body running => wider body (within.executing thread body running)⟩
  intro flag
  rcases within.saved flag with ⟨start,cb,set,holding⟩ | ⟨rest,inner,holding⟩ | done
  · exact Or.inl ⟨start,cb,set,wider cb holding⟩
  · exact Or.inr (Or.inl ⟨rest,inner,wider rest holding⟩)
  · exact Or.inr (Or.inr done)

section
variable (reached : Run (fun process => process = Process.initial) Tended (Step next) past process)
  (lending : Lending next past process) (step : Step next process event after)
include reached lending step

theorem Lending.handed {thread index : Nat} (same : event = .getCoroutine thread index co)
    (object : Coroutine (Context Body) Body) (present : process.store.objects[co]? = some object)
    (stack : object.stackSp ≠ 0) : Represents process co object .unset := by
  subst same
  exact lending.unset co object present stack
    (Or.inl (handed_free (tended_unshared reached) step).2.1)

variable (kept : ∀ thread index c, event ≠ .backCoroutine thread index c)
  (object : Coroutine (Context Body) Body) (located : after.store.objects[co]? = some object)
  (stack : object.stackSp ≠ 0)
include kept located stack

end

end

section
variable {next : Body → Option Body} {history : List (Event Body)} {process : Process Body}
  (run : Run (fun process => process = Process.initial) Lent (Step next) history process) {co : Nat}
  (held : Held 0 history co)
include run held

end

end MCoroutine.Holders
