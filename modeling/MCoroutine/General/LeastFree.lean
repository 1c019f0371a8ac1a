import MCoroutine.General.Runs
import Mathlib.Data.Finset.Card
import Mathlib.Order.Bounds.Defs
import Mathlib.Order.Interval.Finset.Nat

/-! An allocator of numbers: it hands out the least number from `base` on that nobody
holds, and takes back what is held. -/
namespace MCoroutine.General.LeastFree
open Runs

inductive Request
  | take (number : Nat)
  | give (number : Nat)
  deriving DecidableEq, Repr

def Free (base : Nat) (held : Finset Nat) : Set Nat := { number | base ≤ number ∧ number ∉ held }

inductive Serve (base : Nat) : Finset Nat → Request → Finset Nat → Prop
  | take (held : Finset Nat) (number : Nat) (least : IsLeast (Free base held) number) :
      Serve base held (.take number) (insert number held)
  | give (held : Finset Nat) (number : Nat) (member : number ∈ held) :
      Serve base held (.give number) (held.erase number)

abbrev Served (base : Nat) : List Request → Finset Nat → Prop :=
  Run (fun held => held = ∅) (fun _ _ _ => True) (Serve base)

theorem least_bounded {base number : Nat} {held : Finset Nat}
    (least : IsLeast (Free base held) number) :
    number ≤ base + held.card := by
  have below : Finset.Ico base number ⊆ held := by
    intro other member
    obtain ⟨low,high⟩ := Finset.mem_Ico.mp member
    by_contra free
    have bound := least.2 ⟨low,free⟩
    omega
  have count := Finset.card_le_card below
  rw [Nat.card_Ico] at count
  omega

end MCoroutine.General.LeastFree
