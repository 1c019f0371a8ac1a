import MCoroutine.MemoryRecovery
import Mathlib.Data.List.Nodup

/-! The counters of the memory pool and what they count: the flags of all groups, and
among them those that are set. -/
namespace MCoroutine.MemoryPool

def usedFlags (pool : MemoryPool) : Nat :=
  (pool.blockGroups.map fun group => group.useFlags.count true).sum

def allFlags (pool : MemoryPool) : Nat :=
  (pool.blockGroups.map fun group => group.useFlags.length).sum

def groupBlocks (group : MemoryBlockGroup) : List (Nat × Nat) :=
  (group.useFlags.zipIdx.filter (·.1)).map fun flag => (group.start,flag.2)

def usedBlocks (pool : MemoryPool) : List (Nat × Nat) := pool.blockGroups.flatMap groupBlocks

private theorem mem_groupBlocks (group : MemoryBlockGroup) (s k : Nat) :
    (s,k) ∈ groupBlocks group ↔ group.start = s ∧ group.useFlags[k]? = some true := by
  simp [groupBlocks,List.mem_zipIdx_iff_getElem?,and_comm]

theorem mem_usedBlocks (pool : MemoryPool) (s k : Nat) :
    (s,k) ∈ pool.usedBlocks ↔ pool.Used s k := by
  simp only [usedBlocks,List.mem_flatMap,mem_groupBlocks,Used]

private theorem length_groupBlocks (group : MemoryBlockGroup) :
    (groupBlocks group).length = group.useFlags.count true := by
  have firsts : group.useFlags.zipIdx.map Prod.fst = group.useFlags := List.zipIdx_map_fst _ _
  rw [groupBlocks,List.length_map,← List.countP_eq_length_filter]
  conv_rhs => rw [← firsts]
  rw [List.count,List.countP_map]
  congr 1
  funext flag
  simp

theorem length_usedBlocks (pool : MemoryPool) : pool.usedBlocks.length = pool.usedFlags := by
  simp [usedBlocks,usedFlags,List.length_flatMap,length_groupBlocks]

private theorem groupBlocks_nodup (group : MemoryBlockGroup) : (groupBlocks group).Nodup := by
  have indices : (group.useFlags.zipIdx.map Prod.snd).Nodup := by
    rw [List.zipIdx_map_snd]
    exact List.nodup_range'
  have flags : ((group.useFlags.zipIdx.filter (·.1)).map Prod.snd).Nodup :=
    indices.sublist (List.filter_sublist.map _)
  have pairs := flags.map (f := fun k => (group.start,k)) fun k l same => congrArg Prod.snd same
  rwa [List.map_map] at pairs

theorem Sound.usedBlocks_nodup {pool : MemoryPool} (sound : pool.Sound) :
    pool.usedBlocks.Nodup := by
  refine List.nodup_flatMap.mpr ⟨fun group _ => groupBlocks_nodup group,?_⟩
  have apart : pool.blockGroups.Pairwise fun one two => one.start ≠ two.start :=
    List.pairwise_map.mp sound.separate.nodup
  refine apart.imp fun {one two} different => ?_
  rintro ⟨s,k⟩ first second
  exact different (((mem_groupBlocks one s k).mp first).1.trans
    ((mem_groupBlocks two s k).mp second).1.symm)

theorem Sound.usedFlags_eq {pool : MemoryPool} (sound : pool.Sound) {blocks : List (Nat × Nat)}
    (nodup : blocks.Nodup) (same : ∀ s k, (s,k) ∈ blocks ↔ pool.Used s k) :
    pool.usedFlags = blocks.length := by
  rw [← length_usedBlocks]
  refine ((List.perm_ext_iff_of_nodup sound.usedBlocks_nodup nodup).mpr ?_).length_eq
  rintro ⟨s,k⟩
  rw [mem_usedBlocks,same]

theorem Sound.allFlags_eq {pool : MemoryPool} (sound : pool.Sound) :
    pool.allFlags = pool.blockGroups.length * pool.blockGroupSize := by
  have constant : pool.blockGroups.map (fun group => group.useFlags.length) =
      List.replicate pool.blockGroups.length pool.blockGroupSize := by
    rw [List.map_congr_left sound.flags,List.map_const']
  rw [allFlags,constant,List.sum_replicate_nat]

theorem Taken.usedFlags {pool after : MemoryPool} {start index : Nat}
    (taken : Taken pool start index after) (sound : pool.Sound) :
    after.usedFlags = pool.usedFlags + 1 := by
  have nodup : ((start,index)::pool.usedBlocks).Nodup := by
    refine List.nodup_cons.mpr ⟨?_,sound.usedBlocks_nodup⟩
    rw [mem_usedBlocks]
    exact taken.free
  rw [taken.sound.usedFlags_eq nodup,List.length_cons,length_usedBlocks]
  intro s k
  rw [List.mem_cons,mem_usedBlocks,taken.used,Prod.mk.injEq,or_comm]

theorem Cleared.usedFlags {pool after : MemoryPool} {start index : Nat}
    (cleared : Cleared pool start index after) (sound : pool.Sound) (used : pool.Used start index) :
    after.usedFlags + 1 = pool.usedFlags := by
  have nodup : ((start,index)::after.usedBlocks).Nodup := by
    refine List.nodup_cons.mpr ⟨?_,cleared.sound.usedBlocks_nodup⟩
    rw [mem_usedBlocks,cleared.used]
    exact fun both => both.2 ⟨rfl,rfl⟩
  rw [sound.usedFlags_eq nodup,List.length_cons,length_usedBlocks]
  intro s k
  rw [List.mem_cons,mem_usedBlocks,cleared.used,Prod.mk.injEq]
  constructor
  · rintro (⟨rfl,rfl⟩ | both)
    · exact used
    · exact both.1
  · intro present
    by_cases same : s = start ∧ k = index
    · exact Or.inl same
    · exact Or.inr ⟨present,same⟩

theorem Recovered.usedFlags {pool after : MemoryPool} (recovered : Recovered pool after)
    (sound : pool.Sound) :
    after.usedFlags = pool.usedFlags := by
  rw [← length_usedBlocks pool]
  refine recovered.sound.usedFlags_eq sound.usedBlocks_nodup ?_
  intro s k
  rw [mem_usedBlocks,recovered.used]

theorem takeBlock_counts {pool after : MemoryPool} {heap rest : List Nat} {start index : Nat}
    (call : pool.takeBlock heap = .ok (start,index,after,rest)) :
    after.useCounts = u32 (pool.useCounts + 1) ∧
      ((after.blockGroups.length = pool.blockGroups.length ∧ after.allCounts = pool.allCounts) ∨
        (after.blockGroups.length = pool.blockGroups.length + 1 ∧
          after.allCounts = u32 (pool.allCounts + pool.blockGroupSize))) := by
  unfold takeBlock at call
  cases found : takeFree pool.blockGroups with
  | some taken =>
    obtain ⟨s,k,groups⟩ := taken
    rw [found] at call
    cases call
    obtain ⟨front,group,back,split,_,_,_,result⟩ :=
      takeFree_split pool.blockGroups start index groups found
    exact ⟨rfl,Or.inl ⟨by simp [split,result],rfl⟩⟩
  | none =>
    rw [found] at call
    cases heap with
    | nil => cases call
    | cons array heap =>
      dsimp only at call
      split at call
      · cases call
      · cases call
        exact ⟨rfl,Or.inr ⟨by simp,rfl⟩⟩

private theorem emplaceGroups_counts (n : Nat) (heap rest : List Nat) (pool after : MemoryPool)
    (call : emplaceGroups n heap pool = .ok (after,rest)) :
    after.blockGroups.length = pool.blockGroups.length + n ∧ after.allCounts = pool.allCounts ∧
      after.useCounts = pool.useCounts := by
  induction n generalizing heap pool with
  | zero =>
    cases call
    exact ⟨rfl,rfl,rfl⟩
  | succ n ih =>
    cases heap with
    | nil => cases call
    | cons start heap =>
      obtain ⟨length,counts⟩ := ih heap _ call
      refine ⟨?_,counts⟩
      rw [length,List.length_append,List.length_singleton]
      omega

theorem create_counts {blockCount blockSize blockGroupSize : Nat} {heap rest : List Nat}
    {pool : MemoryPool} (call : create blockCount blockSize blockGroupSize heap = .ok (pool,rest)) :
    pool.blockGroups.length = u32 (blockCount / blockGroupSize + 1) ∧
      pool.allCounts = u32 (pool.blockGroups.length * blockGroupSize) ∧ pool.useCounts = 0 := by
  unfold create at call
  split at call
  · cases call
  · dsimp only at call
    split at call
    · cases call
    · obtain ⟨length,all,used⟩ := emplaceGroups_counts _ heap rest _ pool call
      rw [List.length_nil,Nat.zero_add] at length
      rw [length]
      exact ⟨rfl,all,used⟩

theorem takeBlock_allFlags {pool after : MemoryPool} {heap rest : List Nat} {start index : Nat}
    (sound : pool.Sound) (taken : Taken pool start index after)
    (call : pool.takeBlock heap = .ok (start,index,after,rest)) :
    pool.allFlags ≤ after.allFlags := by
  rw [sound.allFlags_eq,taken.sound.allFlags_eq,taken.blockGroupSize]
  apply Nat.mul_le_mul_right
  rcases (takeBlock_counts call).2 with ⟨length,_⟩ | ⟨length,_⟩
  · omega
  · omega

theorem Cleared.length {pool after : MemoryPool} {start index : Nat}
    (cleared : Cleared pool start index after) :
    after.blockGroups.length = pool.blockGroups.length := by
  simpa [MemoryPool.starts] using congrArg List.length cleared.starts

def Whole (pool : MemoryPool) : Prop :=
  pool.allCounts = u32 (pool.blockGroups.length * pool.blockGroupSize)

theorem Whole.taken {pool after : MemoryPool} {heap rest : List Nat} {start index : Nat}
    (whole : pool.Whole) (call : pool.takeBlock heap = .ok (start,index,after,rest)) :
    after.Whole := by
  obtain ⟨_,_,size⟩ := takeBlock_arrays pool after heap rest start index call
  unfold Whole u32 at *
  rcases (takeBlock_counts call).2 with ⟨length,all⟩ | ⟨length,all⟩
  · rw [length,all,size,whole]
  · rw [length,all,size,Nat.add_mul,whole,u32]
    omega

theorem Whole.cleared {pool after : MemoryPool} {start index : Nat} (whole : pool.Whole)
    (cleared : Cleared pool start index after) : after.Whole := by
  rw [Whole,cleared.length,cleared.blockGroupSize,cleared.allCounts]
  exact whole

theorem Whole.recovered {pool after : MemoryPool} (whole : pool.Whole)
    (sized : pool.blockGroupSize < 2^32) (call : pool.recovery = .ok after) : after.Whole := by
  have counted : pool.allCounts < 2^32 := by
    rw [whole]
    exact u32_lt _
  have counts := MemoryRecovery.recoveryLoop_counts _ _ pool after sized call
  have bound := MemoryRecovery.recoveryLoop_bound _ _ pool after counted call
  have size := (recoveryLoop_sweep _ _ _ _ call).2.2.1
  rw [Whole,u32] at *
  rw [size]
  rw [whole] at counts
  generalize after.blockGroups.length * pool.blockGroupSize = kept at *
  generalize pool.blockGroups.length * pool.blockGroupSize = prior at *
  unfold Nat.ModEq at counts
  omega

end MCoroutine.MemoryPool
