import Mathlib.Data.List.Pairwise

/-! Equally sized arrays in a flat address space. -/
namespace MCoroutine.General.Ranges

/-- Two arrays of `size` bytes at different addresses that share no byte. An empty
array shares none, so the addresses are compared as well. -/
def Separate (size first second : Nat) : Prop :=
  first ≠ second ∧ (first + size ≤ second ∨ second + size ≤ first)

theorem Separate.symm {size first second : Nat} (separate : Separate size first second) :
    Separate size second first :=
  ⟨separate.1.symm,separate.2.symm⟩

instance (size : Nat) : Std.Symm (Separate size) := ⟨fun _ _ => Separate.symm⟩

def Family (size : Nat) (starts : List Nat) : Prop := starts.Pairwise (Separate size)

theorem Family.nodup {size : Nat} {starts : List Nat} (family : Family size starts) :
    starts.Nodup :=
  family.imp fun separate => separate.1

theorem Family.perm {size : Nat} {starts others : List Nat} (family : Family size starts)
    (perm : starts.Perm others) : Family size others :=
  (perm.pairwise_iff (fun separate => separate.symm)).mp family

theorem Family.sublist {size : Nat} {starts others : List Nat} (family : Family size starts)
    (sublist : others.Sublist starts) : Family size others :=
  List.Pairwise.sublist sublist family

theorem Family.append {size : Nat} {starts : List Nat} {start : Nat} (family : Family size starts)
    (fresh : ∀ other ∈ starts, Separate size other start) : Family size (starts ++ [start]) := by
  refine List.pairwise_append.mpr ⟨family,by simp,?_⟩
  intro other member last single
  rw [List.mem_singleton.mp single]
  exact fresh other member

theorem Family.unique {size : Nat} {starts : List Nat} (family : Family size starts)
    {first second address : Nat} (one : first ∈ starts) (two : second ∈ starts)
    (inFirst : first ≤ address ∧ address < first + size)
    (inSecond : second ≤ address ∧ address < second + size) : first = second := by
  by_contra different
  have separate : Separate size first second :=
    family.forall one two different
  rcases separate.2 with before | after <;> omega

end MCoroutine.General.Ranges
