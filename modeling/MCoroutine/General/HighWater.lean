import MCoroutine.General.Runs
import Mathlib.Order.MinMax

/-! High-water marks of a run: the largest value that a measure of the history had so
far, and sizes that only ever grow up to it. -/
namespace MCoroutine.General.HighWater
open Runs

variable {State Event α β : Type*} [LinearOrder α] [LinearOrder β]

def peak (measure : List Event → α) : List Event → α
  | [] => measure []
  | event::past => max (measure (event::past)) (peak measure past)

theorem measure_le_peak (measure : List Event → α) (history : List Event) :
    measure history ≤ peak measure history := by
  cases history with
  | nil => exact le_refl _
  | cons event past => exact le_max_left _ _

theorem peak_rises (measure : List Event → α) (past : List Event) (event : Event) :
    peak measure past ≤ peak measure (event::past) := le_max_right _ _

variable {initial : State → Prop} {allowed : List Event → State → Event → Prop}
  {step : State → Event → State → Prop}

/-- The growth rule. A size that a step raises only up to a rising floor, or up to what
the present value of the measure calls for, never exceeds the floor and what the peak of
the measure calls for. -/
theorem size_bounded (size : State → β) (floor : List Event → β) (measure : List Event → α)
    (grow : α → β) (monotone : Monotone grow)
    (rising : ∀ past event, floor past ≤ floor (event::past))
    (base : ∀ state, initial state → size state ≤ floor [])
    (steps : ∀ past before event after, Run initial allowed step past before →
      allowed past before event → step before event after → size after ≤ size before ∨
      size after ≤ floor (event::past) ∨ size after ≤ grow (measure (event::past)))
    {history : List Event} {state : State} (run : Run initial allowed step history state) :
    size state ≤ max (floor history) (grow (peak measure history)) := by
  refine run.invariant (fun history state =>
    size state ≤ max (floor history) (grow (peak measure history))) ?_ ?_
  · intro state ready
    exact le_max_of_le_left (base state ready)
  · intro past before event after reached bounded permitted taken
    rcases steps past before event after reached permitted taken with same | called | full
    · have higher := max_le_max (rising past event) (monotone (peak_rises measure past event))
      exact same.trans (bounded.trans higher)
    · exact le_max_of_le_left called
    · exact le_max_of_le_right (full.trans (monotone (measure_le_peak measure _)))

end MCoroutine.General.HighWater
