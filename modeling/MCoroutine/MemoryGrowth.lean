import MCoroutine.General.HighWater
import MCoroutine.MemoryAccounts
import Mathlib.Algebra.Order.Floor.Div
import Mathlib.GroupTheory.GroupAction.Ring

/-! How far a memory pool grows: a group is added only to groups without a free block, so
that their number follows the largest number of blocks handed out at once. -/
namespace MCoroutine.MemoryGrowth
open General.HighWater General.Runs MemoryPool MemoryRuns MemoryAccounts

abbrev peakBlocks (blockSize : Nat) : List Event → Nat :=
  peak fun history => (handedOut blockSize history).length

def Full (pool : MemoryPool) : Prop :=
  ∀ start ∈ pool.starts, ∀ k < pool.blockGroupSize, pool.Used start k

theorem Full.usedFlags {pool : MemoryPool} (full : Full pool) (sound : pool.Sound) :
    pool.usedFlags = pool.blockGroups.length * pool.blockGroupSize := by
  rw [← sound.allFlags_eq,MemoryPool.usedFlags,allFlags]
  congr 1
  refine List.map_congr_left fun group member => List.count_eq_length.mpr fun flag present => ?_
  obtain ⟨k,located⟩ := List.mem_iff_getElem?.mp present
  have bound := (List.getElem?_eq_some_iff.mp located).1
  rw [sound.flags group member] at bound
  have used := (sound.used_iff member k).mp (full group.start (mem_starts member) k bound)
  exact Option.some.inj (used.symm.trans located)

private theorem starts_length (pool : MemoryPool) : pool.starts.length = pool.blockGroups.length :=
  List.length_map _

private theorem step_groups {pool after : MemoryPool} {event : Event} (sound : pool.Sound)
    (step : Step pool event after) :
    ((∀ start ∈ after.starts, start ∈ pool.starts) ∧
      after.blockGroups.length ≤ pool.blockGroups.length) ∨
      (Full pool ∧ after.blockGroups.length = pool.blockGroups.length + 1 ∧
        ∃ addr, event = .getBlock addr) := by
  rcases step_cases pool after event sound step with
    ⟨array,index,rfl,taken⟩ | ⟨_,_,_,_,_,cleared⟩ | ⟨_,_,rfl,_⟩ | ⟨_,recovered⟩
  · rcases taken.starts with same | ⟨grown,full⟩
    · refine Or.inl ⟨by simp [same],?_⟩
      rw [← starts_length,← starts_length,same]
    · refine Or.inr ⟨full,?_,_,rfl⟩
      rw [← starts_length,← starts_length,grown,List.length_append,List.length_singleton]
  · refine Or.inl ⟨?_,?_⟩
    · rw [cleared.starts]
      exact fun _ listed => listed
    · rw [cleared.length]
      exact Nat.le_refl _
  · exact Or.inl ⟨fun _ listed => listed,Nat.le_refl _⟩
  · refine Or.inl ⟨?_,?_⟩
    · intro start listed
      obtain ⟨k,used⟩ := (recovered.starts start).mp listed
      exact (sound.used_index used).1
    · rw [recovered.groups.length_eq]
      exact List.length_filter_le _ _

private theorem groups_called {groups size handed : Nat} (positive : 0 < size)
    (more : groups * size < handed) :
    groups + 1 ≤ handed ⌈/⌉ size := by
  by_contra few
  have covered : handed ≤ size * groups := (ceilDiv_le_iff_le_mul positive).mp (by omega)
  rw [Nat.mul_comm] at covered
  omega

private theorem ceilDiv_monotone {size : Nat} (positive : 0 < size) :
    Monotone fun handed : Nat => handed ⌈/⌉ size :=
  (gc_mul_ceilDiv positive).monotone_l

/-- An array is allocated only while every block of every live group is handed out, and
the groups never outnumber those of the construction and those that the blocks handed out
at once fill. -/
theorem groups_bounded (blockCount blockSize blockGroupSize : Nat) (positive : 1 ≤ blockSize)
    (small : blockSize * blockGroupSize < 2^32) (history : List Event) (pool : MemoryPool)
    (run : Run (Constructed blockCount blockSize blockGroupSize)
      (Lawful blockSize) Step history pool) :
    (∀ event after, Step pool event after → ∀ start ∈ after.starts, start ∉ pool.starts →
      ∀ array ∈ pool.starts, ∀ k < blockGroupSize, Held blockSize history (array + k * blockSize)) ∧
    pool.blockGroups.length ≤ max (blockCount / blockGroupSize + 1)
      (peakBlocks blockSize history ⌈/⌉ blockGroupSize) := by
  have liberal {past : List Event} {pool : MemoryPool}
      (run : Run (Constructed blockCount blockSize blockGroupSize)
        (Lawful blockSize) Step past pool) :
      Reached blockCount blockSize blockGroupSize past pool :=
        run.weaken fun _ _ _ _ _ _ _ => trivial
  have tracked := reached_tracked positive small (liberal run)
  have several : 0 < blockGroupSize := tracked.count ▸ tracked.sound.positive
  refine ⟨?_,?_⟩
  · intro event after step start listed new array member k bound
    have full : Full pool := by
      rcases step_groups tracked.sound step with ⟨old,_⟩ | ⟨full,_⟩
      · exact absurd (old start listed) new
      · exact full
    exact (tracked.held _).mpr ⟨array,k,full array member k (tracked.count.symm ▸ bound),rfl⟩
  · refine size_bounded (fun pool => pool.blockGroups.length)
      (fun _ => blockCount / blockGroupSize + 1) _
      (fun handed => handed ⌈/⌉ blockGroupSize) (ceilDiv_monotone several)
        (fun _ _ => Nat.le_refl _) ?_ ?_ run
    · rintro pool ⟨heap,rest,arrays,call⟩
      rw [(create_counts call).1]
      exact u32_le _
    · intro past before event after reached lawful step
      obtain ⟨sound,_,count⟩ := reached_sound (liberal reached)
      rcases step_groups sound step with ⟨_,fewer⟩ | ⟨full,length,addr,rfl⟩
      · exact Or.inl fewer
      · have used := (reached_accounted positive small reached).used
        rw [full.usedFlags sound,count] at used
        refine Or.inr (Or.inr ?_)
        rw [length]
        refine groups_called several ?_
        rw [handedOut,List.length_cons,used]
        exact Nat.lt_succ_self _

theorem groups_bounded_pair :
    ∃ pool, Run (Constructed 0 16 2) (Lawful 16) Step
      [.getBlock 8192,.getBlock 4112,.getBlock 4096] pool ∧
      pool.blockGroups.length = 2 ∧
      pool.blockGroups.length ≤ max (0 / 2 + 1)
        (peakBlocks 16 [.getBlock 8192,.getBlock 4112,.getBlock 4096] ⌈/⌉ 2) := by
  have first : Run (Constructed 0 16 2) (Lawful 16) Step [.getBlock 4096] pairPool :=
    Run.next [] _ _ _ (Run.start _ pairPool_constructed) trivial
      (Step.getBlock _ _ [] [] 4096 (by simp) rfl)
  have second := Run.next _ _ (Event.getBlock 4112) _ first trivial
    (Step.getBlock _ _ [] [] 4112 (by simp) rfl)
  have third := Run.next _ _ (Event.getBlock 8192) _ second trivial
    (Step.getBlock _ _ [8192] [] 8192 pairPool_fresh rfl)
  exact ⟨_,third,rfl,(groups_bounded 0 16 2 (by decide) (by decide) _ _ third).2⟩

end MCoroutine.MemoryGrowth
