import MCoroutine.MemoryEffects
import Mathlib.Data.Nat.ModEq

/-! recovery on an arbitrary list of groups: when it returns, what it keeps and what it
takes off the counter of all blocks. -/
namespace MCoroutine.MemoryRecovery
open General.Sweep MemoryPool

def usedGroups (pool : MemoryPool) : List MemoryBlockGroup :=
  pool.blockGroups.filter MemoryBlockGroup.hasUsed

def releasedGroups (pool : MemoryPool) : List MemoryBlockGroup :=
  swept MemoryBlockGroup.hasUsed pool.blockGroups.length 0 pool.blockGroups

/-- What recovery is for: it ends with the groups that hold a used block and the others
released, counts down once for each of these, and finds nothing to do when called again. -/
def Compacts (pool : MemoryPool) : Prop :=
  ∃ after, (∀ fuel, pool.blockGroups.length ≤ fuel → recoveryLoop fuel 0 pool = .ok after) ∧
    after.blockGroups.Perm (usedGroups pool) ∧
    (releasedGroups pool).Perm (pool.blockGroups.filter fun group => !group.hasUsed) ∧
    (after.blockGroups ++ releasedGroups pool).Perm pool.blockGroups ∧
    (after.allCounts : Int) =
      (pool.allCounts - (releasedGroups pool).length * pool.blockGroupSize) % 2^32 ∧
    after.useCounts = pool.useCounts ∧ after.recovery = .ok after

def popGroup (pool : MemoryPool) (i : Nat) : MemoryPool :=
  { pool with
    blockGroups := swapRemove pool.blockGroups i,
    allCounts := u32 (pool.allCounts + (2^32 - pool.blockGroupSize)) }

private theorem recoveryLoop_end {pool : MemoryPool} {i : Nat} (fuel : Nat)
    (past : pool.blockGroups.length ≤ i) :
    recoveryLoop fuel i pool = .ok pool := by
  cases fuel with
  | zero => rfl
  | succ fuel => rw [recoveryLoop,List.getElem?_eq_none past]

private theorem popGroup_length {pool : MemoryPool} {i : Nat} {group : MemoryBlockGroup}
    (located : pool.blockGroups[i]? = some group) :
    (popGroup pool i).blockGroups.length + 1 = pool.blockGroups.length :=
  (swapRemove_perm pool.blockGroups i group located).length_eq

/-- The loop ends by its own test: more fuel than groups are left changes nothing. -/
private theorem recoveryLoop_fuel (fuel extra i : Nat) (pool : MemoryPool)
    (enough : pool.blockGroups.length ≤ i + fuel) :
    recoveryLoop (fuel + extra) i pool = recoveryLoop fuel i pool := by
  induction fuel generalizing i pool with
  | zero =>
    have past : pool.blockGroups.length ≤ i := enough
    rw [recoveryLoop_end _ past,recoveryLoop_end 0 past]
  | succ fuel ih =>
    rw [Nat.add_right_comm]
    cases located : pool.blockGroups[i]? with
    | none =>
      have past := List.getElem?_eq_none_iff.mp located
      rw [recoveryLoop_end _ past,recoveryLoop_end _ past]
    | some group =>
      cases kind : group.hasUsed with
      | false =>
        have shorter := popGroup_length located
        rw [recoveryLoop_unused _ located kind,recoveryLoop_unused _ located kind]
        exact ih i (popGroup pool i) (by omega)
      | true =>
        rw [recoveryLoop_used _ located kind,recoveryLoop_used _ located kind,
          ih (i+1) pool (by omega)]

/-- The index counts the kept groups, and overflows when there are `2^31` of them. -/
private theorem recoveryLoop_returns (fuel : Nat) (front pending : List MemoryBlockGroup)
    (pool : MemoryPool) (split : pool.blockGroups = front ++ pending)
    (enough : pending.length ≤ fuel) (low : front.length < 2^31) :
    (front.length + (pending.filter MemoryBlockGroup.hasUsed).length < 2^31 ∧
      ∃ after, recoveryLoop fuel front.length pool = .ok after) ∨
    (2^31 ≤ front.length + (pending.filter MemoryBlockGroup.hasUsed).length ∧
      recoveryLoop fuel front.length pool = .error .signedOverflow) := by
  induction fuel generalizing front pending pool with
  | zero =>
    obtain rfl : pending = [] := List.length_eq_zero_iff.mp (by omega)
    exact Or.inl ⟨low,pool,rfl⟩
  | succ fuel ih =>
    cases pending with
    | nil => exact Or.inl ⟨low,pool,recoveryLoop_end _ (by simp [split])⟩
    | cons group tail =>
      have located : pool.blockGroups[front.length]? = some group := by simp [split]
      rw [List.length_cons] at enough
      cases kind : group.hasUsed with
      | false =>
        have skipped : (group::tail).filter MemoryBlockGroup.hasUsed =
            tail.filter MemoryBlockGroup.hasUsed := by
          simp [kind]
        rw [recoveryLoop_unused fuel located kind,skipped]
        -- the last group takes the place of the popped one
        rcases swapRemove_cases front group tail with ⟨rfl,removed⟩ | ⟨middle,last,rfl,removed⟩
        · exact ih front [] (popGroup pool front.length)
            (by simp [popGroup,split,removed]) (by simp) low
        · have moved : ((last::middle).filter MemoryBlockGroup.hasUsed).length =
              ((middle ++ [last]).filter MemoryBlockGroup.hasUsed).length :=
            ((List.perm_append_singleton last middle).symm.filter _).length_eq
          rw [← moved]
          exact ih front (last::middle) (popGroup pool front.length)
            (by simp [popGroup,split,removed])
            (by simpa using enough) low
      | true =>
        rw [recoveryLoop_used fuel located kind,List.filter_cons_of_pos kind,List.length_cons]
        by_cases full : front.length + 1 = 2^31
        · exact Or.inr ⟨by omega,if_pos full⟩
        · rw [if_neg full]
          have result := ih (front ++ [group]) tail pool (by simp [split]) (by omega)
            (by simp; omega)
          simpa only [List.length_append,List.length_singleton,Nat.add_assoc,
            Nat.add_comm 1] using result

theorem recovery_returns (pool : MemoryPool) :
    ((usedGroups pool).length < 2^31 ∧ ∃ after, pool.recovery = .ok after) ∨
      (2^31 ≤ (usedGroups pool).length ∧ pool.recovery = .error .signedOverflow) := by
  have result := recoveryLoop_returns _ [] pool.blockGroups pool rfl (Nat.le_refl _) (by simp)
  rw [List.length_nil,Nat.zero_add] at result
  exact result

private theorem recoveryLoop_invariant (holds : MemoryPool → Prop)
    (popped : ∀ (i : Nat) (pool : MemoryPool) (group : MemoryBlockGroup), pool.blockGroups[i]? =
      some group → group.hasUsed = false → holds pool → holds (popGroup pool i))
    {fuel i : Nat} {pool after : MemoryPool} (base : holds pool)
    (call : recoveryLoop fuel i pool = .ok after) :
    holds after := by
  induction fuel generalizing i pool with
  | zero =>
    cases call
    exact base
  | succ fuel ih =>
    cases located : pool.blockGroups[i]? with
    | none =>
      rw [recoveryLoop,located] at call
      cases call
      exact base
    | some group =>
      cases kind : group.hasUsed with
      | false =>
        rw [recoveryLoop_unused fuel located kind] at call
        exact ih (popped i pool group located kind base) call
      | true =>
        rw [recoveryLoop_used fuel located kind] at call
        split at call
        · cases call
        · exact ih base call

theorem recoveryLoop_counts (fuel i : Nat) (pool after : MemoryPool)
    (sized : pool.blockGroupSize < 2^32) (call : recoveryLoop fuel i pool = .ok after) :
    after.allCounts + pool.blockGroups.length * pool.blockGroupSize ≡
      pool.allCounts + after.blockGroups.length * pool.blockGroupSize [MOD 2^32] := by
  refine (recoveryLoop_invariant (fun now => now.blockGroupSize = pool.blockGroupSize ∧
    now.allCounts + pool.blockGroups.length * pool.blockGroupSize ≡
      pool.allCounts + now.blockGroups.length * pool.blockGroupSize [MOD 2^32]) ?_
        ⟨rfl,Nat.ModEq.refl _⟩ call).2
  rintro k before group located _ ⟨size,counts⟩
  refine ⟨size,?_⟩
  rw [← popGroup_length located,Nat.add_mul] at counts
  simp only [popGroup,size] at counts ⊢
  generalize (swapRemove before.blockGroups k).length * pool.blockGroupSize = shorter at *
  generalize pool.blockGroups.length * pool.blockGroupSize = whole at *
  unfold Nat.ModEq u32 at *
  omega

theorem recoveryLoop_bound (fuel i : Nat) (pool after : MemoryPool)
    (counted : pool.allCounts < 2^32) (call : recoveryLoop fuel i pool = .ok after) :
    after.allCounts < 2^32 :=
  recoveryLoop_invariant (fun now => now.allCounts < 2^32)
    (fun _ _ _ _ _ _ => u32_lt _) counted call

theorem recovery_conserves (pool after : MemoryPool) (call : pool.recovery = .ok after) :
    (after.blockGroups ++ releasedGroups pool).Perm pool.blockGroups := by
  obtain ⟨groups,_⟩ := recoveryLoop_sweep _ _ _ _ call
  rw [groups,releasedGroups]
  exact sweep_swept _ _ _ _

private theorem recoveryLoop_full (fuel i : Nat) (pool after : MemoryPool)
    (full : ∀ group ∈ pool.blockGroups, group.hasUsed = true)
    (call : recoveryLoop fuel i pool = .ok after) :
    after = pool := by
  refine recoveryLoop_invariant (fun now => now = pool) ?_ rfl call
  rintro k before group located unused rfl
  rw [full group (List.mem_of_getElem? located)] at unused
  cases unused

theorem recovery_perm (pool after : MemoryPool) (call : pool.recovery = .ok after) :
    after.blockGroups.Perm (usedGroups pool) := by
  obtain ⟨groups,_⟩ := recoveryLoop_sweep _ _ _ _ call
  rw [groups]
  exact sweep_perm _ _

private theorem recovery_again (pool after : MemoryPool) (call : pool.recovery = .ok after) :
    after.recovery = .ok after := by
  have perm := recovery_perm pool after call
  have full : ∀ group ∈ after.blockGroups, group.hasUsed = true := fun group member =>
    (List.mem_filter.mp (perm.mem_iff.mp member)).2
  have kept : usedGroups after = after.blockGroups := List.filter_eq_self.mpr full
  rcases recovery_returns after with ⟨_,second,again⟩ | ⟨many,_⟩
  · rw [again,recoveryLoop_full _ _ after second full again]
  · rcases recovery_returns pool with ⟨few,_⟩ | ⟨_,overflow⟩
    · rw [kept,perm.length_eq] at many
      omega
    · rw [call] at overflow
      cases overflow

private theorem recovery_counts (pool after : MemoryPool) (sized : pool.blockGroupSize < 2^32)
    (counted : pool.allCounts < 2^32) (call : pool.recovery = .ok after) :
    (after.allCounts : Int) =
      (pool.allCounts - (releasedGroups pool).length * pool.blockGroupSize) % 2^32 := by
  have bound := recoveryLoop_bound _ _ pool after counted call
  have counts := recoveryLoop_counts _ _ pool after sized call
  rw [← (recovery_conserves pool after call).length_eq,List.length_append,Nat.add_mul] at counts
  rw [← Int.natCast_mul]
  generalize (releasedGroups pool).length * pool.blockGroupSize = released at *
  generalize after.blockGroups.length * pool.blockGroupSize = kept at *
  unfold Nat.ModEq at counts
  omega

/-- recovery does what it is for exactly while its `int` index can count the groups
that stay. -/
theorem recovery_compacts_iff (pool : MemoryPool) (sized : pool.blockGroupSize < 2^32)
    (counted : pool.allCounts < 2^32) : Compacts pool ↔ (usedGroups pool).length < 2^31 := by
  constructor
  · rintro ⟨after,ends,_⟩
    rcases recovery_returns pool with ⟨few,_⟩ | ⟨_,overflow⟩
    · exact few
    · have call : pool.recovery = .ok after := ends _ (Nat.le_refl _)
      rw [call] at overflow
      cases overflow
  · intro few
    rcases recovery_returns pool with ⟨_,after,call⟩ | ⟨many,_⟩
    · refine ⟨after,?_,recovery_perm pool after call,swept_perm _ _,
        recovery_conserves pool after call,
        recovery_counts pool after sized counted call,(recoveryLoop_sweep _ _ _ _ call).2.2.2,
        recovery_again pool after call⟩
      intro fuel enough
      obtain ⟨extra,rfl⟩ := Nat.exists_eq_add_of_le enough
      rw [recoveryLoop_fuel _ extra 0 pool (by omega)]
      exact call
    · omega

def mixedPool : MemoryPool :=
  { allCounts := 6, useCounts := 1,
    blockGroups := [⟨4096,[false,false]⟩,⟨8192,[false,true]⟩,⟨12288,[false,false]⟩],
      blockSize := 16,
    blockGroupSize := 2 }

theorem recovery_compacts_mixed : Compacts mixedPool :=
  (recovery_compacts_iff mixedPool (by decide) (by decide)).mpr (by decide)

/-- `n` groups of one block each, all in use. -/
def crowdedPool (n : Nat) : MemoryPool :=
  { allCounts := u32 n, useCounts := u32 n, blockGroups := (List.range n).map fun i =>
    ⟨4096 + i,[true]⟩,
    blockSize := 1, blockGroupSize := 1 }

/-- The same with a free group behind, which the loop of recovery does not reach when it
overflows. -/
def strandedPool (n : Nat) : MemoryPool :=
  { crowdedPool n with
    allCounts := u32 (n + 1)
    blockGroups := (crowdedPool n).blockGroups ++ [⟨4096 + n,[false]⟩] }

private theorem stranded_used (n : Nat) : (usedGroups (strandedPool n)).length = n := by
  have full : ∀ group ∈ (crowdedPool n).blockGroups, group.hasUsed = true := by
    intro group member
    obtain ⟨i,_,rfl⟩ := List.mem_map.mp member
    rfl
  rw [usedGroups,strandedPool,List.filter_append,List.filter_eq_self.mpr full]
  simp [crowdedPool,MemoryBlockGroup.hasUsed]

theorem recovery_overflows :
    ¬ Compacts (strandedPool (2^31)) ∧ (strandedPool (2^31)).recovery = .error .signedOverflow := by
  rcases recovery_returns (strandedPool (2^31)) with ⟨few,_⟩ | ⟨_,overflow⟩
  · rw [stranded_used] at few
    omega
  · refine ⟨?_,overflow⟩
    rintro ⟨after,ends,_⟩
    have call : (strandedPool (2^31)).recovery = .ok after := ends _ (Nat.le_refl _)
    rw [call] at overflow
    cases overflow

end MCoroutine.MemoryRecovery
