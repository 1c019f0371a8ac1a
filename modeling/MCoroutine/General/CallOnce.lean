import MCoroutine.General.Runs

/-! `call_once` flags. The first caller runs the callable, others wait until it is done,
and from then on every call returns at once. What the callable stores is a value kept
with the flag. -/
namespace MCoroutine.General.CallOnce
open Runs

inductive OnceFlag (Value : Type*)
  | fresh
  | active (caller : Nat)
  | done (value : Value)
  deriving DecidableEq, Repr

/-- What a thread does to a flag: it begins to run the callable, it completes it and
returns, or it returns because the callable is done. -/
inductive Call (Value : Type*)
  | begin (caller : Nat)
  | complete (caller : Nat) (value : Value)
  | pass (caller : Nat) (value : Value)
  deriving DecidableEq, Repr

variable {Value State Event : Type*}

def OnceFlag.count : OnceFlag Value → Nat
  | done _ => 1
  | _ => 0

def Call.returned : Call Value → Option Value
  | begin _ => none
  | complete _ value => some value
  | pass _ value => some value

def Call.completes : Call Value → Bool
  | complete _ _ => true
  | _ => false

inductive Move : OnceFlag Value → Call Value → OnceFlag Value → Prop
  | begin (caller : Nat) : Move .fresh (.begin caller) (.active caller)
  | complete (caller : Nat) (value : Value) : Move (.active caller)
      (.complete caller value) (.done value)
  | pass (caller : Nat) (value : Value) : Move (.done value) (.pass caller value) (.done value)

/-- A system with a flag: its steps move the flag by the calls that its events stand for,
and leave it alone otherwise. -/
structure Guards (flag : State → OnceFlag Value) (call : Event → Option (Call Value))
    (step : State → Event → State → Prop) : Prop where
  moves : ∀ before event after made, step before event after → call event = some made →
    Move (flag before) made (flag after)
  rests : ∀ before event after, step before event after → call event = none →
    flag after = flag before

def returned (call : Event → Option (Call Value)) (history : List Event) : List Value :=
  history.filterMap fun event => (call event).bind Call.returned

def completions (call : Event → Option (Call Value)) (history : List Event) : Nat :=
  history.countP fun event => (call event).any Call.completes

structure Tells (flag : OnceFlag Value) (values : List Value) (count : Nat) : Prop where
  same : ∀ value, value ∈ values → flag = .done value
  completed : count = flag.count

theorem Move.tells {before after : OnceFlag Value} {made : Call Value} {values : List Value}
    {count : Nat} (move : Move before made after) (tells : Tells before values count) :
    Tells after (made.returned.toList ++ values) (count + if made.completes then 1 else 0) := by
  obtain ⟨same,completed⟩ := tells
  rw [completed]
  cases move with
  | begin caller =>
    constructor
    · intro value member
      cases same value member
    · rfl
  | complete caller value =>
    constructor
    · intro other member
      rcases List.mem_cons.mp member with here | before
      · rw [here]
      · cases same other before
    · rfl
  | pass caller value =>
    constructor
    · intro other member
      rcases List.mem_cons.mp member with here | before
      · rw [here]
      · exact same other before
    · rfl

variable {initial : State → Prop} {allowed : List Event → State → Event → Prop}
  {step : State → Event → State → Prop} {flag : State → OnceFlag Value}
  {call : Event → Option (Call Value)}

theorem Guards.reached_tells (guards : Guards flag call step)
    (starts : ∀ state, initial state → flag state = .fresh) {history : List Event} {state : State}
    (run : Run initial allowed step history state) :
    Tells (flag state) (returned call history) (completions call history) := by
  apply run.invariant fun history state => Tells (flag state) (returned call history)
    (completions call history)
  · intro state ready
    rw [starts state ready]
    exact ⟨fun value member => (List.not_mem_nil member).elim,rfl⟩
  · intro past before event after _ tells _ taken
    cases made : call event with
    | none =>
      rw [guards.rests before event after taken made]
      simpa [returned,completions,made] using tells
    | some made_ =>
      have moved := (guards.moves before event after made_ taken made).tells tells
      have values : returned call (event::past) = made_.returned.toList ++ returned call past := by
        cases result : made_.returned with
        | none => simp [returned,made,result]
        | some value => simp [returned,made,result]
      have count : completions call (event::past) =
          completions call past + if made_.completes then 1 else 0 := by
        simp [completions,made,List.countP_cons]
      rw [values,count]
      exact moved

/-- The callable is completed once at most, and all calls return what it stored. -/
theorem Guards.once (guards : Guards flag call step)
    (starts : ∀ state, initial state → flag state = .fresh) {history : List Event} {state : State}
    (run : Run initial allowed step history state) :
    completions call history ≤ 1 ∧
      ∀ value other, value ∈ returned call history → other ∈ returned call history →
        value = other := by
  obtain ⟨same,completed⟩ := guards.reached_tells starts run
  constructor
  · rw [completed]
    cases flag state with
    | done value => exact Nat.le_refl 1
    | fresh | active caller => exact Nat.zero_le 1
  · intro value other first second
    have one := same value first
    rw [same other second] at one
    cases one
    rfl

end MCoroutine.General.CallOnce
