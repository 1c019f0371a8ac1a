import Mathlib.Data.List.Basic
import Mathlib.Data.List.Perm.Basic

/-! Removing the elements that fail a test from a vector in place: a failing element
is swapped with the last one and popped, and the index advances only past elements
that are kept. The order changes, the kept elements do not. -/
namespace MCoroutine.General.Sweep

variable {α : Type*}

/-- `std::swap(xs[i],xs.back())`. -/
def swapBack (xs : List α) (i : Nat) : List α :=
  match xs[i]?,xs.getLast? with
  | some here,some back => (xs.set i back).set (xs.length - 1) here
  | _,_ => xs

def swapRemove (xs : List α) (i : Nat) : List α := (swapBack xs i).dropLast

/-- The scan from index `i`; `fuel` bounds the number of iterations. -/
def sweep (keep : α → Bool) : Nat → Nat → List α → List α
  | 0,_,xs => xs
  | fuel+1,i,xs =>
    match xs[i]? with
    | none => xs
    | some x => if keep x then sweep keep fuel (i+1) xs else sweep keep fuel i (swapRemove xs i)

section
variable (keep : α → Bool) (fuel : Nat) {i : Nat} {xs : List α} {x : α} (located : xs[i]? = some x)
include located

theorem sweep_keep (good : keep x = true) :
    sweep keep (fuel+1) i xs = sweep keep fuel (i+1) xs := by
  rw [sweep,located]
  exact if_pos good

theorem sweep_remove (bad : keep x = false) :
    sweep keep (fuel+1) i xs = sweep keep fuel i (swapRemove xs i) := by
  rw [sweep,located]
  dsimp only
  rw [bad]
  rfl

end

theorem split_at (xs : List α) (i : Nat) (x : α) (located : xs[i]? = some x) :
    ∃ front back, xs = front ++ x::back ∧ front.length = i := by
  obtain ⟨bound,rfl⟩ := List.getElem?_eq_some_iff.mp located
  refine ⟨xs.take i,xs.drop (i+1),?_,by simp; omega⟩
  rw [List.getElem_cons_drop,List.take_append_drop]

theorem swapRemove_last (front : List α) (x : α) :
    swapRemove (front ++ [x]) front.length = front := by
  simp [swapRemove,swapBack]

theorem swapRemove_inner (front middle : List α) (x last : α) :
    swapRemove (front ++ x::(middle ++ [last])) front.length = front ++ last::middle := by
  have shape (y z : α) : front ++ y::(middle ++ [z]) = (front ++ y::middle) ++ [z] := by simp
  have back : (front ++ x::(middle ++ [last])).getLast? = some last := by
    rw [shape]
    exact List.getLast?_concat
  have moved : swapBack (front ++ x::(middle ++ [last])) front.length =
      front ++ last::(middle ++ [x]) := by
    simp [swapBack,back]
  rw [swapRemove,moved,shape]
  exact List.dropLast_concat

theorem swapRemove_cases (front : List α) (x : α) (tail : List α) :
    (tail = [] ∧ swapRemove (front ++ x::tail) front.length = front) ∨
      ∃ middle last, tail = middle ++ [last] ∧
        swapRemove (front ++ x::tail) front.length = front ++ last::middle := by
  rcases List.eq_nil_or_concat tail with rfl | ⟨middle,last,rfl⟩
  · exact Or.inl ⟨rfl,swapRemove_last front x⟩
  · refine Or.inr ⟨middle,last,by simp,?_⟩
    simpa using swapRemove_inner front middle x last

/-- The scan splits the vector into the kept front and the pending rest. Of the rest
exactly the elements that pass the test survive, and one that stands below the
number of survivors keeps its position. -/
theorem sweep_pending (keep : α → Bool) (fuel : Nat) (front pending : List α)
    (enough : pending.length ≤ fuel) :
    ∃ kept, sweep keep fuel front.length (front ++ pending) = front ++ kept ∧
      kept.Perm (pending.filter keep) ∧
      ∀ j x, j < kept.length → pending[j]? = some x → keep x = true → kept[j]? = some x := by
  induction fuel generalizing front pending with
  | zero =>
    have empty : pending = [] := List.length_eq_zero_iff.mp (by omega)
    subst pending
    exact ⟨[],by simp [sweep],by simp,by simp⟩
  | succ fuel ih =>
    cases pending with
    | nil => exact ⟨[],by simp [sweep],by simp,by simp⟩
    | cons x tail =>
      have here : (front ++ x::tail)[front.length]? = some x := by simp
      cases good : keep x with
      | true =>
        have rest : tail.length ≤ fuel := by simpa using enough
        obtain ⟨kept,result,perm,stable⟩ := ih (front ++ [x]) tail rest
        refine ⟨x::kept,?_,by simpa [good] using perm,?_⟩
        · rw [sweep_keep keep fuel here good]
          simpa using result
        · intro j y bound located passes
          cases j with
          | zero => simpa using located
          | succ j => exact stable j y (by simpa using bound) (by simpa using located) passes
      | false =>
        rw [sweep_remove keep fuel here good]
        rcases swapRemove_cases front x tail with ⟨rfl,removed⟩ | ⟨middle,last,rfl,removed⟩
        · rw [removed]
          obtain ⟨kept,result,perm,stable⟩ := ih front [] (by simp)
          refine ⟨kept,by simpa using result,by simpa [good] using perm,?_⟩
          intro j y bound
          have empty : kept = [] := by simpa using perm
          simp [empty] at bound
        · rw [removed]
          have rest : (last::middle).length ≤ fuel := by simpa using enough
          obtain ⟨kept,result,perm,stable⟩ := ih front (last::middle) rest
          have count : kept.length ≤ middle.length + 1 := by
            rw [perm.length_eq]
            simpa using List.length_filter_le keep (last::middle)
          refine ⟨kept,result,?_,?_⟩
          · have moved : (last::middle).Perm (middle ++ [last]) :=
              (List.perm_append_singleton last middle).symm
            simpa [good] using perm.trans (moved.filter keep)
          · intro j y bound located passes
            cases j with
            | zero =>
              -- the removed element itself
              have same : x = y := by simpa using located
              rw [same,passes] at good
              cases good
            | succ j =>
              apply stable (j+1) y bound _ passes
              have inner : j < middle.length := by omega
              simpa [List.getElem?_append_left inner] using located

theorem sweep_perm (keep : α → Bool) (xs : List α) :
    (sweep keep xs.length 0 xs).Perm (xs.filter keep) := by
  obtain ⟨kept,result,perm,_⟩ := sweep_pending keep xs.length [] xs (Nat.le_refl _)
  rw [List.length_nil,List.nil_append,List.nil_append] at result
  rw [result]
  exact perm

theorem sweep_stable (keep : α → Bool) (xs : List α) (j : Nat) (x : α)
    (bound : j < (xs.filter keep).length) (located : xs[j]? = some x) (passes : keep x = true) :
    (sweep keep xs.length 0 xs)[j]? = some x := by
  obtain ⟨kept,result,perm,stable⟩ := sweep_pending keep xs.length [] xs (Nat.le_refl _)
  have same : sweep keep xs.length 0 xs = kept := by simpa using result
  rw [same]
  exact stable j x (by rw [perm.length_eq]; exact bound) located passes

def swept (keep : α → Bool) : Nat → Nat → List α → List α
  | 0,_,_ => []
  | fuel+1,i,xs =>
    match xs[i]? with
    | none => []
    | some x => if keep x then swept keep fuel (i+1) xs else x::swept keep fuel i (swapRemove xs i)

theorem swapRemove_perm (xs : List α) (i : Nat) (x : α) (located : xs[i]? = some x) :
    (x::swapRemove xs i).Perm xs := by
  obtain ⟨front,back,rfl,rfl⟩ := split_at xs i x located
  rcases swapRemove_cases front x back with ⟨rfl,removed⟩ | ⟨middle,last,rfl,removed⟩
  · rw [removed]
    exact (List.perm_append_singleton x front).symm
  · rw [removed]
    have rest : (front ++ last::middle).Perm (front ++ (middle ++ [last])) :=
      (List.perm_append_singleton last middle).symm.append_left front
    exact (rest.cons x).trans List.perm_middle.symm

theorem sweep_swept (keep : α → Bool) (fuel i : Nat) (xs : List α) :
    (sweep keep fuel i xs ++ swept keep fuel i xs).Perm xs := by
  induction fuel generalizing i xs with
  | zero => simp [sweep,swept]
  | succ fuel ih =>
    cases located : xs[i]? with
    | none => simp [sweep,swept,located]
    | some x =>
      cases good : keep x with
      | true => simpa [sweep,swept,located,good] using ih (i+1) xs
      | false =>
        have rest := ih i (swapRemove xs i)
        have whole := (rest.cons x).trans (swapRemove_perm xs i x located)
        simpa [sweep,swept,located,good] using List.perm_middle.trans whole

theorem swept_perm (keep : α → Bool) (xs : List α) :
    (swept keep xs.length 0 xs).Perm (xs.filter fun x => !keep x) := by
  have parts := List.filter_append_perm keep xs
  have whole := (sweep_swept keep xs.length 0 xs).trans parts.symm
  have kept := (sweep_perm keep xs).append_right (swept keep xs.length 0 xs)
  exact (List.perm_append_left_iff _).mp (kept.symm.trans whole)

end MCoroutine.General.Sweep
