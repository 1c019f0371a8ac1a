import MCoroutine.General.Runs

/-! Simulation between recorded runs. A step of the first relation is matched by a run
of the second, of any length, from the state related to its source; the relation may
use both histories. -/
namespace MCoroutine.General.Simulation
open Runs

variable {State Event Abstract Action : Type*}

/-- The later part of a run, from a state that was reached by a record. -/
abbrev Continues (permitted : List Action → Abstract → Action → Prop)
    (move : Abstract → Action → Abstract → Prop) (record : List Action) (source : Abstract)
    (later : List Action) (target : Abstract) : Prop :=
  Run (fun state => state = source) (fun late => permitted (late ++ record)) move later target

section
variable {permitted : List Action → Abstract → Action → Prop}
  {move : Abstract → Action → Abstract → Prop} {record : List Action} {source : Abstract}

theorem stays : Continues permitted move record source [] source := .start source rfl

theorem moves {action : Action} {target : Abstract} (allowed : permitted record source action)
    (taken : move source action target) : Continues permitted move record source [action] target :=
  .next [] source action target stays allowed taken

end

structure Simulates (initial : State → Prop) (allowed : List Event → State → Event → Prop)
    (step : State → Event → State → Prop) (start : Abstract → Prop)
    (permitted : List Action → Abstract → Action → Prop)
    (move : Abstract → Action → Abstract → Prop)
    (related : List Event → State → List Action → Abstract → Prop) : Prop where
  base : ∀ state, initial state → ∃ abstract, start abstract ∧ related [] state [] abstract
  matched : ∀ history before event after record source, Run initial allowed step history before →
    Run start permitted move record source → related history before record source →
    allowed history before event → step before event after →
    ∃ later target, Continues permitted move record source later target ∧
      related (event::history) after (later ++ record) target

variable {initial : State → Prop} {allowed : List Event → State → Event → Prop}
  {step : State → Event → State → Prop} {start : Abstract → Prop}
  {permitted : List Action → Abstract → Action → Prop} {move : Abstract → Action → Abstract → Prop}
  {related : List Event → State → List Action → Abstract → Prop}

/-- Every run of the first relation is one of the second, up to the relation. -/
theorem Simulates.run (simulates : Simulates initial allowed step start permitted move related)
    {history : List Event} {state : State} (run : Run initial allowed step history state) :
    ∃ record abstract, Run start permitted move record abstract ∧
      related history state record abstract := by
  induction run with
  | start state ready =>
    obtain ⟨abstract,begins,same⟩ := simulates.base state ready
    exact ⟨[],abstract,.start abstract begins,same⟩
  | next history before event after reached legal taken ih =>
    obtain ⟨record,source,below,same⟩ := ih
    obtain ⟨later,target,continues,kept⟩ :=
      simulates.matched history before event after record source reached below same legal taken
    exact ⟨later ++ record,target,below.append continues,kept⟩

theorem Simulates.image {view : List Event → State → Abstract} {image : List Event → List Action}
    (simulates : Simulates initial allowed step start permitted move
      fun history state record abstract => record = image history ∧ abstract = view history state)
    {history : List Event} {state : State} (run : Run initial allowed step history state) :
    Run start permitted move (image history) (view history state) := by
  obtain ⟨record,abstract,below,rfl,rfl⟩ := simulates.run run
  exact below

end MCoroutine.General.Simulation
