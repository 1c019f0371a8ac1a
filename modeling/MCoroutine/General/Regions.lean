import Mathlib.Logic.Function.Basic

/-! Memory shared by owners with a region each. What an owner leaves in its region stays
there for as long as it is away and nobody else writes to the region. -/
namespace MCoroutine.General.Regions

variable {Address Value Owner : Type*}

def Changes (written : Address → Prop) (memory later : Address → Value) : Prop :=
  ∀ address, ¬ written address → later address = memory address

/-- The regions of the owners that are away hold what they left there. -/
def Intact (region : Owner → Address → Prop) (left : Owner → (Address → Value) → Prop)
    (memory : Address → Value) : Prop :=
  ∀ owner kept, left owner kept → ∀ address, region owner address → memory address = kept address

theorem Intact.step {region grown : Owner → Address → Prop}
    {left stays : Owner → (Address → Value) → Prop} {written : Address → Prop}
    {memory later : Address → Value} (intact : Intact region left memory)
    (changes : Changes written memory later)
    (away : ∀ owner kept, stays owner kept →
      (left owner kept ∧ ∀ address, grown owner address → region owner address ∧
      ¬ written address) ∨ ∀ address, grown owner address → later address = kept address) :
    Intact grown stays later := by
  intro owner kept absent address inside
  rcases away owner kept absent with ⟨before,spared⟩ | same
  · obtain ⟨there,unwritten⟩ := spared address inside
    rw [changes address unwritten]
    exact intact owner kept before address there
  · exact same address inside

end MCoroutine.General.Regions
