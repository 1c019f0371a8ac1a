import Mathlib.Data.List.Basic
import Mathlib.Data.List.Perm.Basic

/-! The traffic of a program with a heap, replayed on the arrays that are live. Handing
out a live array and releasing one that is not live are faults. -/
namespace MCoroutine.General.HeapTraffic

inductive Traffic (Array : Type*)
  | allocate (array : Array)
  | release (array : Array)
  deriving DecidableEq, Repr

variable {Array : Type*} [DecidableEq Array]

def apply : Traffic Array → List Array → Option (List Array)
  | .allocate array,live => if array ∈ live then none else some (array::live)
  | .release array,live => if array ∈ live then some (live.erase array) else none

def replay (traffic : List (Traffic Array)) (live : List Array) : Option (List Array) :=
  traffic.foldlM (fun live next => apply next live) live

theorem replay_append (first second : List (Traffic Array)) (live : List Array) :
    replay (first ++ second) live = (replay first live).bind (replay second) := by
  rw [replay,List.foldlM_append]
  rfl

theorem replay_allocate (arrays live : List Array) (nodup : (arrays ++ live).Nodup) :
    ∃ after, replay (arrays.map .allocate) live = some after ∧ after.Perm (arrays ++ live) := by
  induction arrays generalizing live with
  | nil => exact ⟨live,rfl,.refl _⟩
  | cons array arrays ih =>
    obtain ⟨absent,rest⟩ := List.nodup_cons.mp nodup
    have unlisted : array ∉ live := fun member => absent (List.mem_append_right _ member)
    obtain ⟨after,replayed,perm⟩ := ih (array::live) (List.perm_middle.nodup_iff.mpr nodup)
    refine ⟨after,?_,perm.trans List.perm_middle⟩
    rw [← replayed]
    simp [replay,apply,unlisted]

theorem replay_release (arrays rest live : List Array) (perm : live.Perm (arrays ++ rest)) :
    ∃ after, replay (arrays.map .release) live = some after ∧ after.Perm rest := by
  induction arrays generalizing live with
  | nil => exact ⟨live,rfl,perm⟩
  | cons array arrays ih =>
    have listed : array ∈ live := perm.mem_iff.mpr List.mem_cons_self
    have less : (live.erase array).Perm (arrays ++ rest) := by
      rw [List.cons_append] at perm
      simpa using perm.erase array
    obtain ⟨after,replayed,kept⟩ := ih (live.erase array) less
    refine ⟨after,?_,kept⟩
    rw [← replayed]
    simp [replay,apply,listed]

end MCoroutine.General.HeapTraffic
