import Mathlib.Logic.Relation

/-! Recorded runs of a labelled transition relation under a usage discipline.
The history is newest first, so that properties of the past are defined by
recursion on it and a step only adds its head. -/
namespace MCoroutine.General.Runs

variable {State Event : Type*}

/-- A run whose every step is permitted in the state and after the history it
starts from. -/
inductive Run (initial : State → Prop) (allowed : List Event → State → Event → Prop)
    (step : State → Event → State → Prop) : List Event → State → Prop
  | start (state : State) (ready : initial state) : Run initial allowed step [] state
  | next (history : List Event) (before : State) (event : Event) (after : State)
      (reached : Run initial allowed step history before)
      (permitted : allowed history before event) (taken : step before event after) :
      Run initial allowed step (event::history) after

variable {initial : State → Prop} {allowed : List Event → State → Event → Prop}
  {step : State → Event → State → Prop}

/-- The invariant rule: the history may be used both in the invariant and in the
discipline, and each step may use that its source is itself reached. -/
theorem Run.invariant (holds : List Event → State → Prop)
    (base : ∀ state, initial state → holds [] state)
    (preserved : ∀ history before event after, Run initial allowed step history before →
      holds history before → allowed history before event → step before event after →
      holds (event::history) after)
    {history : List Event} {state : State} (run : Run initial allowed step history state) :
    holds history state := by
  induction run with
  | start state ready => exact base state ready
  | next history before event after reached permitted taken ih =>
    exact preserved history before event after reached ih permitted taken

theorem Run.weaken {liberal : List Event → State → Event → Prop}
    (weaker : ∀ history before event after, Run initial allowed step history before →
      allowed history before event → step before event after → liberal history before event)
    {history : List Event} {state : State} (run : Run initial allowed step history state) :
    Run initial liberal step history state := by
  induction run with
  | start state ready => exact .start state ready
  | next history before event after reached permitted taken ih =>
    exact .next history before event after ih
      (weaker history before event after reached permitted taken) taken

theorem Run.append {history late : List Event} {middle state : State}
    (first : Run initial allowed step history middle)
    (second : Run (fun state => state = middle)
      (fun late => allowed (late ++ history)) step late state) :
    Run initial allowed step (late ++ history) state := by
  induction second with
  | start state same =>
    subst same
    exact first
  | next past before event after _ permitted taken ih =>
    exact .next (past ++ history) before event after ih permitted taken

end MCoroutine.General.Runs
