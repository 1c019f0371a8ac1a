import MCoroutine.MemoryQueries

/-! The divisions and the vector accesses of the memory pool, for every pair of sizes
that the constructor accepts: blocks of no bytes and wrapped products included. -/
namespace MCoroutine.MemoryAccesses
open General.Runs MemoryPool MemoryRuns

def FullFlags (pool : MemoryPool) (blockGroupSize : Nat) : Prop :=
  0 < blockGroupSize ∧ ∀ group ∈ pool.blockGroups, group.useFlags.length = blockGroupSize

/-- What the three calls that take an address do with it: the group that the lookup
designates exists when backBlock comes back to it, each quotient names a flag, and only the
counter of the lookup can keep a call from returning. -/
structure Guarded (pool : MemoryPool) (addr : Nat) : Prop where
  designated : ∀ i, pool.hasBlockHelp addr = .ok (true,i) →
    ∃ group, pool.decrement.blockGroups[i]? = some group ∧ Indexed pool.decrement addr group
  scanned : ∀ group ∈ pool.blockGroups, pool.inGroup addr group = true → Indexed pool addr group
  backBlock : (∃ after, pool.backBlock addr = .ok after) ∨
    (2^32 ≤ pool.blockGroups.length ∧ pool.backBlock addr = .error .endless)
  hasBlock : (∃ found, pool.hasBlock addr = .ok found) ∨
    (2^32 ≤ pool.blockGroups.length ∧ pool.hasBlock addr = .error .endless)
  usedBlockHelp : ∃ used, pool.usedBlockHelp addr = .ok used

def Extends (pool : MemoryPool) (start : Nat) (heap : List Nat) : Prop :=
  let group := MemoryBlockGroup.create pool.blockGroupSize start
  group.useFlags[0]? = some false ∧
    ∃ after, pool.takeBlock (start::heap) = .ok (start,0,after,heap) ∧
      after.blockGroups = pool.blockGroups ++ [{ group with useFlags := group.useFlags.set 0 true }]

section
variable {pool : MemoryPool} (sound : pool.Sound)
include sound

private theorem sound_guarded (addr : Nat) : Guarded pool addr := by
  refine ⟨?_,fun group member inside => sound.indexed member inside,backBlock_returns sound addr,?_,
    ⟨_,MemoryQueries.usedBlockHelp_any sound addr⟩⟩
  · intro i lookup
    obtain ⟨group,located,inside⟩ := lookup_found pool addr i lookup
    exact ⟨group,located,sound.decrement.indexed (List.mem_of_getElem? located) inside⟩
  · rw [hasBlock]
    rcases lookup_returns pool addr with ⟨found,i,lookup⟩ | ⟨many,endless⟩
    · rw [lookup]
      exact Or.inl ⟨found,rfl⟩
    · rw [endless]
      exact Or.inr ⟨many,rfl⟩

private theorem sound_extends (full : ∀ group ∈ pool.blockGroups, false ∉ group.useFlags)
    (start : Nat) (heap : List Nat) :
    Extends pool start heap := by
  have first : (MemoryBlockGroup.create pool.blockGroupSize start).useFlags[0]? = some false := by
    rw [MemoryBlockGroup.create,List.getElem?_replicate,if_pos sound.positive]
  have nonempty : (MemoryBlockGroup.create pool.blockGroupSize start).useFlags.length ≠ 0 := by
    rw [MemoryBlockGroup.create,List.length_replicate]
    exact Nat.pos_iff_ne_zero.mp sound.positive
  refine ⟨first,?_⟩
  rw [takeBlock,MemoryQueries.takeFree_full _ full]
  exact ⟨_,if_neg nonempty,rfl⟩

end

/-- No reachable state and no address makes a division by zero or an access outside a
vector. -/
theorem accesses_in_range (blockCount blockSize blockGroupSize : Nat) (history : List Event)
    (pool : MemoryPool) (run : Reached blockCount blockSize blockGroupSize history pool) :
    FullFlags pool blockGroupSize ∧ (∀ addr, Guarded pool addr) ∧
    (∀ heap, (∃ addr after rest, pool.getBlock heap = .ok (addr,after,rest)) ∨
      (heap = [] ∧ pool.getBlock heap = .error .badAlloc)) ∧
    ((∀ group ∈ pool.blockGroups, false ∉ group.useFlags) →
      ∀ start heap, Extends pool start heap) := by
  obtain ⟨sound,_,rfl⟩ := reached_sound run
  exact ⟨⟨sound.positive,sound.flags⟩,sound_guarded sound,getBlock_returns pool sound,
    sound_extends sound⟩

/-- Two blocks whose product of sizes wraps to two bytes. -/
def wrappedPool : MemoryPool :=
  { allCounts := 2, useCounts := 2, blockGroups := [⟨4096,[true,true]⟩], blockSize := 2^31 + 1,
    blockGroupSize := 2 }

private theorem wrappedPool_reached :
    Reached 0 (2^31 + 1) 2 [.getBlock (4096 + (2^31 + 1)),.getBlock 4096] wrappedPool := by
  have constructed : Constructed 0 (2^31 + 1) 2
      { wrappedPool with useCounts := 0, blockGroups := [⟨4096,[false,false]⟩] } :=
    ⟨[4096],[],heapArrays_single (by decide),rfl⟩
  have first : Step { wrappedPool with useCounts := 0, blockGroups := [⟨4096,[false,false]⟩] }
    (.getBlock 4096)
      { wrappedPool with useCounts := 1, blockGroups := [⟨4096,[true,false]⟩] } :=
    .getBlock _ _ [] [] 4096 (by simp) rfl
  exact .next _ _ _ _ (.next [] _ _ _ (.start _ constructed) trivial first) trivial
    (.getBlock _ _ [] [] _ (by simp) rfl)

theorem accesses_in_range_wrapped :
    wrappedPool.arrayBytes = 2 ∧ FullFlags wrappedPool 2 ∧ Guarded wrappedPool 4097 ∧
      Extends wrappedPool 8192 [] := by
  have safe := accesses_in_range 0 (2^31 + 1) 2 _ wrappedPool wrappedPool_reached
  exact ⟨rfl,safe.1,safe.2.1 4097,safe.2.2.2 (by decide) 8192 []⟩

end MCoroutine.MemoryAccesses
