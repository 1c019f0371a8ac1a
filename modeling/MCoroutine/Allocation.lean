import MCoroutine.MemoryCounts
import MCoroutine.MemoryRuns
import MCoroutine.SlotRuns

/-! Whether blocks lie in their arrays. The size of an array is a 32-bit product, the
address of a block in it a 64-bit sum. -/
namespace MCoroutine.Allocation
open General.Runs General.Ranges MemoryPool MCoroutine.Numbering SlotRuns

def InArray (pool : MemoryPool) (start addr : Nat) : Prop :=
  start ≤ addr ∧ addr + pool.blockSize ≤ start + pool.arrayBytes

/-- The groups that the search of getBlock passes over. -/
def fullGroups (pool : MemoryPool) : Nat :=
  pool.blockGroups.findIdx fun group => group.useFlags.contains false

/-- What getBlock returns lies in the array of the group in which it sets a flag, and
hasBlock finds all of it unless the group is behind the reach of its counter. -/
def BlocksAllocated (blockCount blockSize blockGroupSize : Nat) : Prop :=
  ∀ history pool, MemoryRuns.Reached blockCount blockSize blockGroupSize history pool →
    ∀ heap addr after rest, (∀ array ∈ heap.head?, pool.Fresh array) →
      pool.getBlock heap = .ok (addr,after,rest) →
      (∃ start index, ¬ pool.Used start index ∧ after.Used start index ∧ InArray after start addr) ∧
        (fullGroups pool < 2^32 → ∀ k < blockSize, after.hasBlock (addr + k) = .ok true)

private theorem taken_position {pool after : MemoryPool} {heap rest : List Nat} {start index : Nat}
    (call : pool.takeBlock heap = .ok (start,index,after,rest)) :
    ∃ group, after.blockGroups[fullGroups pool]? = some group ∧ group.start = start := by
  unfold takeBlock at call
  cases found : takeFree pool.blockGroups with
  | some taken =>
    obtain ⟨s,k,groups⟩ := taken
    rw [found] at call
    cases call
    obtain ⟨front,group,back,split,rfl,flag,full,rfl⟩ :=
      takeFree_split pool.blockGroups start index groups found
    have passed : fullGroups pool = front.length := by
      rw [fullGroups,split,List.findIdx_append,if_neg (by simpa using full)]
      simp [List.findIdx_cons,List.mem_of_getElem? flag]
    refine ⟨{ group with useFlags := group.useFlags.set index true },?_,rfl⟩
    rw [passed]
    simp
  | none =>
    have passed : fullGroups pool = pool.blockGroups.length := by
      refine List.findIdx_eq_length.mpr ?_
      simpa using takeFree_none _ found
    rw [found] at call
    cases heap with
    | nil => cases call
    | cons array heap =>
      dsimp only at call
      split at call
      · cases call
      · cases call
        refine ⟨⟨start,(List.replicate pool.blockGroupSize false).set 0 true⟩,?_,rfl⟩
        rw [passed]
        simp [MemoryBlockGroup.create]

private theorem hasBlock_at {pool : MemoryPool} (sound : pool.Sound) {group : MemoryBlockGroup}
    {i addr : Nat} (located : pool.blockGroups[i]? = some group)
    (inside : pool.inGroup addr group = true) :
    pool.hasBlock addr = if i < 2^32 then .ok true else .error .endless := by
  have search : pool.blockGroups.findIdx? (pool.inGroup addr) = some i := by
    obtain ⟨bound,here⟩ := List.getElem?_eq_some_iff.mp located
    refine List.findIdx?_eq_some_iff_getElem.mpr ⟨bound,by rw [here]; exact inside,?_⟩
    intro j before other
    have member := List.mem_of_getElem? located
    have present : pool.blockGroups[j] ∈ pool.blockGroups := List.getElem_mem _
    have same := sound.separate.unique (mem_starts present) (mem_starts member)
      ((sound.inGroup_iff present addr).mp other) ((sound.inGroup_iff member addr).mp inside)
    have nodup : pool.blockGroups.Nodup := sound.separate.nodup.of_map
    have index := (nodup.getElem_inj_iff).mp
      ((sound.group_unique present member same).trans here.symm)
    omega
  rw [hasBlock,hasBlockHelp,search]
  dsimp only
  split
  · rfl
  · rfl

private theorem taken_inside {pool after : MemoryPool} {start index : Nat} (fits : pool.Fits)
    (taken : Taken pool start index after) :
    offset start (index * pool.blockSize) = start + index * pool.blockSize ∧
      InArray after start (start + index * pool.blockSize) := by
  refine ⟨MemoryRuns.taken_address fits taken,?_⟩
  have room := MemoryRuns.block_inside fits start taken.bound
  rw [InArray,arrayBytes,taken.blockSize,taken.blockGroupSize,← arrayBytes]
  omega

private theorem taken_lookup {pool after : MemoryPool} {heap rest : List Nat} {start index k : Nat}
    (fits : pool.Fits) (call : pool.takeBlock heap = .ok (start,index,after,rest))
    (taken : Taken pool start index after) (within : k < pool.blockSize) :
    after.hasBlock (offset start (index * pool.blockSize) + k) =
      if fullGroups pool < 2^32 then .ok true else .error .endless := by
  obtain ⟨address,low,high⟩ := taken_inside fits taken
  obtain ⟨group,located,rfl⟩ := taken_position call
  refine hasBlock_at taken.sound located
    ((taken.sound.inGroup_iff (List.mem_of_getElem? located) _).mpr ?_)
  rw [taken.blockSize] at high
  omega

private theorem fitting_allocated {blockCount blockSize blockGroupSize : Nat}
    (positive : 1 ≤ blockSize) (small : blockSize * blockGroupSize < 2^32) :
    BlocksAllocated blockCount blockSize blockGroupSize := by
  intro history pool run heap addr after rest fresh got
  obtain ⟨sound,rfl,rfl⟩ := MemoryRuns.reached_sound run
  obtain ⟨⟨start,index,_,_⟩,call,result⟩ := bind_success got
  cases result
  have taken := takeBlock_taken pool after heap rest start index sound fresh call
  obtain ⟨address,inside⟩ := taken_inside ⟨positive,small⟩ taken
  refine ⟨⟨start,index,taken.free,(taken.used start index).mpr
    (Or.inr ⟨rfl,rfl⟩),by rw [address]; exact inside⟩,?_⟩
  intro reach k within
  rw [taken_lookup ⟨positive,small⟩ call taken within,if_pos reach]

private theorem fitting_endless {blockCount blockSize blockGroupSize : Nat}
    (positive : 1 ≤ blockSize) (small : blockSize * blockGroupSize < 2^32)
    {history : List MemoryRuns.Event} {pool : MemoryPool}
    (run : MemoryRuns.Reached blockCount blockSize blockGroupSize history pool)
    {heap rest : List Nat} {addr k : Nat} {after : MemoryPool}
    (fresh : ∀ array ∈ heap.head?, pool.Fresh array)
    (got : pool.getBlock heap = .ok (addr,after,rest)) (beyond : ¬ fullGroups pool < 2^32)
    (within : k < blockSize) : after.hasBlock (addr + k) = .error .endless := by
  obtain ⟨sound,rfl,rfl⟩ := MemoryRuns.reached_sound run
  obtain ⟨⟨start,index,_,_⟩,call,result⟩ := bind_success got
  cases result
  have taken := takeBlock_taken pool after heap rest start index sound fresh call
  rw [taken_lookup ⟨positive,small⟩ call taken within,if_neg beyond]

structure Filled (start k : Nat) (groups : List MemoryBlockGroup) (pool : MemoryPool) : Prop where
  few : k ≤ pool.blockGroupSize
  first : pool.blockGroups =
    ⟨start,List.replicate k true ++ List.replicate (pool.blockGroupSize - k) false⟩::groups

private theorem flags_search (k m : Nat) :
    (List.replicate k true ++ List.replicate (m + 1) false).idxOf false = k := by
  rw [List.idxOf_append,List.replicate_succ,List.idxOf_cons_self]
  simp

private theorem flags_take (k m : Nat) :
    (List.replicate k true ++ List.replicate (m + 1) false).set k true =
    List.replicate (k + 1) true ++ List.replicate m false := by
  rw [List.set_append_right _ _ (by simp),List.replicate_succ' (n := k)]
  simp [List.replicate_succ]

theorem Filled.take {start k : Nat} {groups : List MemoryBlockGroup} {pool : MemoryPool}
    (filled : Filled start k groups pool) (room : k < pool.blockGroupSize) (heap : List Nat) :
    ∃ after, pool.takeBlock heap = .ok (start,k,after,heap) ∧ Filled start (k + 1) groups after ∧
      after.blockSize = pool.blockSize ∧ after.blockGroupSize = pool.blockGroupSize := by
  obtain ⟨m,split⟩ : ∃ m, pool.blockGroupSize - k = m + 1 := ⟨pool.blockGroupSize - k - 1,by omega⟩
  let taken : List MemoryBlockGroup :=
    ⟨start,List.replicate (k + 1) true ++ List.replicate m false⟩::groups
  have search : takeFree pool.blockGroups = some (start,k,taken) := by
    rw [filled.first,split]
    simp only [takeFree,flags_search,flags_take]
    simp [taken]
  refine ⟨{ pool with blockGroups := taken, useCounts := u32 (pool.useCounts + 1) },?_,
    ⟨room,?_⟩,rfl,rfl⟩
  · unfold takeBlock
    rw [search]
  · rw [show pool.blockGroupSize - (k + 1) = m by omega]

private theorem constructed_filled {blockCount blockSize blockGroupSize : Nat} {pool : MemoryPool}
    (counted : blockCount < 2^32) (several : 2 ≤ blockGroupSize)
    (constructed : MemoryRuns.Constructed blockCount blockSize blockGroupSize pool) :
    ∃ start groups, Filled start 0 groups pool := by
  obtain ⟨heap,rest,arrays,call⟩ := constructed
  have initial := create_initial blockCount blockSize blockGroupSize heap rest pool arrays call
  have quotient : blockCount / blockGroupSize ≤ blockCount / 2 :=
    Nat.div_le_div_left several (by omega)
  have length : 0 < pool.blockGroups.length := by
    rw [(create_counts call).1]
    generalize blockCount / blockGroupSize = full at quotient ⊢
    rw [u32_of_lt (by omega)]
    omega
  cases located : pool.blockGroups with
  | nil =>
    rw [located,List.length_nil] at length
    omega
  | cons group groups =>
    have member : group ∈ pool.blockGroups := by simp [located]
    have free : group.useFlags = List.replicate pool.blockGroupSize false := by
      refine List.eq_replicate_iff.mpr ⟨initial.sound.flags group member,?_⟩
      intro flag present
      cases flag with
      | false => rfl
      | true =>
        obtain ⟨k,used⟩ := List.mem_iff_getElem?.mp present
        exact absurd ⟨group,member,rfl,used⟩ (initial.unused group.start k)
    refine ⟨group.start,groups,Nat.zero_le _,?_⟩
    rw [located,Nat.sub_zero,← free]
    rfl

/-- getBlock alone leads to every number of blocks in use. -/
private theorem filled_reached {blockCount blockSize blockGroupSize start : Nat}
    {groups : List MemoryBlockGroup} {pool : MemoryPool}
    (constructed : MemoryRuns.Constructed blockCount blockSize blockGroupSize pool)
    (filled : Filled start 0 groups pool) (k : Nat) (room : k ≤ blockGroupSize) :
    ∃ history after, MemoryRuns.Reached blockCount blockSize blockGroupSize history after ∧
      Filled start k groups after := by
  induction k with
  | zero => exact ⟨[],pool,Run.start pool constructed,filled⟩
  | succ k ih =>
    obtain ⟨history,before,run,prior⟩ := ih (by omega)
    obtain ⟨_,size,count⟩ := MemoryRuns.reached_sound run
    obtain ⟨after,taken,next,_,_⟩ := prior.take (by omega) []
    refine ⟨_,after,Run.next history before (.getBlock (offset start (k * before.blockSize))) after
      run trivial ?_,next⟩
    refine MemoryRuns.Step.getBlock before after [] [] _ (by simp) ?_
    rw [getBlock,taken]
    rfl

/-- Where the product wraps, the last block of an array lies outside: its end is
behind the array, or its address wraps to below it. -/
private theorem last_outside {pool : MemoryPool} {start : Nat} (located : start < 2^64)
    (sized : pool.blockSize < 2^32) (counted : pool.blockGroupSize < 2^32)
    (large : 2^32 ≤ pool.blockSize * pool.blockGroupSize) :
    ¬ InArray pool start (offset start ((pool.blockGroupSize - 1) * pool.blockSize)) := by
  rintro ⟨low,high⟩
  have bytes : pool.arrayBytes < 2^32 := u32_lt _
  have whole : (pool.blockGroupSize - 1) * pool.blockSize + pool.blockSize =
      pool.blockSize * pool.blockGroupSize := by
    rcases Nat.eq_zero_or_pos pool.blockGroupSize with none | some
    · rw [none,Nat.mul_zero] at large
      omega
    · rw [← Nat.succ_mul,Nat.succ_eq_add_one,Nat.sub_add_cancel some,Nat.mul_comm]
  have distance : (pool.blockGroupSize - 1) * pool.blockSize < 2^64 := by
    have product := Nat.mul_lt_mul'' sized counted
    omega
  generalize (pool.blockGroupSize - 1) * pool.blockSize = place at *
  unfold offset at low high
  omega

theorem blocks_allocated {blockCount blockSize blockGroupSize : Nat} (positive : 1 ≤ blockSize)
    (sized : blockSize < 2^32) (counted : blockGroupSize < 2^32) (few : blockCount < 2^32)
    (accepted : ∃ pool, MemoryRuns.Constructed blockCount blockSize blockGroupSize pool) :
    BlocksAllocated blockCount blockSize blockGroupSize ↔ blockSize * blockGroupSize < 2^32 := by
  constructor
  · intro allocated
    by_contra large
    have several : 2 ≤ blockGroupSize := by
      by_contra single
      have product := Nat.mul_le_mul_left blockSize (show blockGroupSize ≤ 1 by omega)
      omega
    obtain ⟨pool,constructed⟩ := accepted
    obtain ⟨start,groups,filled⟩ := constructed_filled few several constructed
    obtain ⟨history,before,run,last⟩ :=
      filled_reached constructed filled (blockGroupSize - 1) (by omega)
    obtain ⟨sound,rfl,rfl⟩ := MemoryRuns.reached_sound run
    obtain ⟨after,call,_,size,count⟩ := last.take (by omega) []
    have taken := takeBlock_taken before after [] [] start _ sound (by simp) call
    obtain ⟨⟨s,k,free,used,inside⟩,_⟩ :=
      allocated history before run [] _ after [] (by simp) (by rw [getBlock,call]; rfl)
    -- the flag that the call sets is the one of the last block
    obtain ⟨rfl,-⟩ := ((taken.used s k).mp used).resolve_left free
    have located := (sound.located s (by simp [starts,last.first])).2
    rw [InArray,arrayBytes,size,count] at inside
    exact last_outside (by omega) sized counted (by omega) inside
  · exact fun small => fitting_allocated positive small

variable {Body : Type}

def Stacked (pool : CoroutinePool) (identity : Identity) : Prop :=
  identity.stackSize = pool.stackSize ∧
    ∃ start index, pool.memoryPool.Used start index ∧ identity.stackSp = offset start
      (index * pool.stackSize)

structure Backed (ids : List Identity) (pool : CoroutinePool) : Prop where
  sound : pool.memoryPool.Sound
  blockSize : pool.memoryPool.blockSize = pool.stackSize
  blockGroupSize : pool.memoryPool.blockGroupSize = 128
  blocks : ∀ (i co : Nat) identity, 1 ≤ i → pool.refs[i]? = some co → ids[co]? = some identity →
    Stacked pool identity

theorem backed_stable : Stable Body Backed := by
  refine ⟨?_,?_,?_⟩
  · intro ids more pool shape backed
    refine ⟨backed.sound,backed.blockSize,backed.blockGroupSize,?_⟩
    intro i co identity positive slot present
    rw [List.getElem?_append_left (shape.located co (List.mem_of_getElem? slot))] at present
    exact backed.blocks i co identity positive slot present
  · intro before after shape backed append
    cases append with
    | slot store after pool heap rest block co memoryPool supplied call made =>
      obtain ⟨⟨start,index,next,tail⟩,call,result⟩ := bind_success call
      cases result
      have taken := takeBlock_taken pool.memoryPool memoryPool heap rest start index backed.sound
        supplied.fresh call
      obtain ⟨_,rfl,identities,_⟩ := identities_make store after pool.stackSize _ co made
      refine ⟨taken.sound,taken.blockSize.trans backed.blockSize,
        taken.blockGroupSize.trans backed.blockGroupSize,?_⟩
      intro i co identity positive slot present
      rw [identities] at present
      simp only [CoroutinePool.refs,List.map_append,List.map_cons,List.map_nil] at slot
      rcases shape.appended slot present with ⟨old,there⟩ | ⟨_,rfl⟩
      · obtain ⟨size,s,k,used,address⟩ := backed.blocks i co identity positive old there
        exact ⟨size,s,k,(taken.used s k).mpr (Or.inl used),address⟩
      · refine ⟨rfl,start,index,(taken.used start index).mpr (Or.inr ⟨rfl,rfl⟩),?_⟩
        change offset start (index * pool.memoryPool.blockSize) = offset start
          (index * pool.stackSize)
        rw [backed.blockSize]
  · intro ids pool i co flag other slot backed
    refine ⟨backed.sound,backed.blockSize,backed.blockGroupSize,?_⟩
    rw [refs_set pool i co flag other slot]
    exact backed.blocks

theorem created_backed (ids : List Identity) (co : Nat) {poolSize stackSize : Nat}
    {heap left : List Nat} {memoryPool : MemoryPool}
    (arrays : HeapArrays (u32 (stackSize * 128)) heap)
    (made : create poolSize stackSize 128 heap = .ok (memoryPool,left)) :
    Backed ids ⟨stackSize,[⟨co,true⟩],memoryPool⟩ := by
  have initial := create_initial poolSize stackSize 128 heap left memoryPool arrays made
  refine ⟨initial.sound,initial.blockSize,initial.blockGroupSize,?_⟩
  intro i co identity positive slot
  have bound := (List.getElem?_eq_some_iff.mp slot).1
  simp [CoroutinePool.refs] at bound
  omega

theorem reached_backed {next : Body → Option Body} {history : List (Process.Event Body)}
    {process : Process Body} (run : SlotRuns.Reached next history process) :
    ∀ pool ∈ process.pools, Backed process.store.identities pool := by
  refine run.invariant (fun _ process =>
    ∀ pool ∈ process.pools, Backed process.store.identities pool) ?_ ?_
  · rintro process rfl pool member
    cases member
  · intro past before event after reached backed _ step
    exact backed_stable.step (reached_structured reached) backed
      (fun _ _ _ _ _ _ arrays made => created_backed _ _ arrays made) step

/-- The coroutines of the pools with that stack size have stacks inside an array. -/
def StacksAllocated (next : Body → Option Body) (stackSize : Nat) : Prop :=
  ∀ history process, SlotRuns.Reached next history process →
    ∀ pool ∈ process.pools, pool.stackSize = stackSize →
    ∀ (i co : Nat) object, 1 ≤ i → pool.refs[i]? = some co →
      process.store.objects[co]? = some object →
      object.stackSize = stackSize ∧
        ∃ start ∈ pool.memoryPool.starts, start ≤ object.stackSp ∧
          object.stackSp + object.stackSize ≤ start + pool.memoryPool.arrayBytes

private theorem fitting_stacks {next : Body → Option Body} {stackSize : Nat}
    (positive : 1 ≤ stackSize) (small : stackSize * 128 < 2^32) :
    StacksAllocated next stackSize := by
  intro history process run pool member rfl i co object behind slot present
  obtain ⟨sound,size,count,blocks⟩ := reached_backed run pool member
  have identity := identities_located present
  obtain ⟨same,start,index,used,address⟩ := blocks i co object.identity behind slot identity
  have fits : pool.memoryPool.Fits := by
    rw [Fits,size,count]
    exact ⟨positive,small⟩
  obtain ⟨listed,bound⟩ := sound.used_index used
  have room := MemoryRuns.block_inside fits start bound
  have place := MemoryRuns.block_address sound fits listed bound
  rw [size] at room place
  rw [place] at address
  refine ⟨same,start,listed,?_⟩
  change object.stackSp = _ at address
  change object.stackSize = _ at same
  omega

private theorem resizeLoop_step {start k : Nat} {groups : List MemoryBlockGroup}
    (located : 0 < start) (n : Nat) (store : Store Body) (pool : CoroutinePool)
    (filled : Filled start k groups pool.memoryPool)
    (size : pool.memoryPool.blockSize = pool.stackSize) (room : k < pool.memoryPool.blockGroupSize)
    (unwrapped : start + k * pool.stackSize < 2^64) :
    ∃ memoryPool after object, CoroutinePool.resizeLoop (n + 1) [] store pool =
        CoroutinePool.resizeLoop n [] after
          { pool with coroutines := pool.coroutines ++ [⟨store.objects.length,false⟩], memoryPool := memoryPool } ∧
      Filled start (k + 1) groups memoryPool ∧ memoryPool.blockSize = pool.memoryPool.blockSize ∧
      memoryPool.blockGroupSize = pool.memoryPool.blockGroupSize ∧
        after.objects = store.objects ++ [object] ∧
      object.stackSize = pool.stackSize ∧ object.stackSp = start + k * pool.stackSize := by
  obtain ⟨memoryPool,taken,next,sizes,counts⟩ := filled.take room []
  let object : Coroutine (Context Body) Body :=
    { Coroutine.default .zero with
      corId := store.curCoroutineId, stackSize := pool.stackSize,
        stackSp := start + k * pool.stackSize }
  let after : Store Body := { objects := store.objects ++ [object], curCoroutineId := u32 (store.curCoroutineId + 1) }
  have block : pool.memoryPool.getBlock [] = .ok (start + k * pool.stackSize,memoryPool,[]) := by
    rw [← offset_of_lt unwrapped,← size,getBlock,taken]
    rfl
  have made : store.make pool.stackSize (start + k * pool.stackSize) = .ok
      (store.objects.length,after) := by
    rw [Store.make,Coroutine.create,if_neg (by omega)]
    rfl
  refine ⟨memoryPool,after,object,?_,next,sizes,counts,rfl,rfl,rfl⟩
  rw [CoroutinePool.resizeLoop,block]
  change (store.make pool.stackSize (start + k * pool.stackSize) >>= _) = _
  rw [made]
  rfl

/-- A growth by blocks that are left in the first group: its last stack is the last of
these blocks. -/
private theorem resizeLoop_fills {start k : Nat} {groups : List MemoryBlockGroup}
    (located : 0 < start) (n : Nat) (store : Store Body) (pool : CoroutinePool)
    (filled : Filled start k groups pool.memoryPool)
    (size : pool.memoryPool.blockSize = pool.stackSize)
    (room : k + n < pool.memoryPool.blockGroupSize)
    (unwrapped : start + (k + n) * pool.stackSize < 2^64) (present : 0 < pool.coroutines.length) :
    ∃ after result i co object, CoroutinePool.resizeLoop (n + 1) [] store pool = .ok
      (after,result,[]) ∧
      result.stackSize = pool.stackSize ∧ result.memoryPool.starts = start::groups.map (·.start) ∧
      1 ≤ i ∧ result.refs[i]? = some co ∧ after.objects[co]? = some object ∧
      object.stackSp = start + (k + n) * pool.stackSize := by
  induction n generalizing k store pool with
  | zero =>
    obtain ⟨memoryPool,after,object,step,next,_,_,objects,_,address⟩ :=
      resizeLoop_step located 0 store pool filled size room unwrapped
    refine ⟨after,_,pool.coroutines.length,store.objects.length,object,step,rfl,?_,present,
      ?_,?_,address⟩
    · simp [starts,next.first]
    · simp [CoroutinePool.refs]
    · simp [objects]
  | succ n ih =>
    have below : start + k * pool.stackSize < 2^64 := by
      have product := Nat.mul_le_mul_right pool.stackSize (show k ≤ k + (n + 1) by omega)
      omega
    obtain ⟨memoryPool,middle,object,step,next,sizes,counts,_⟩ :=
      resizeLoop_step located (n + 1) store pool filled size (by omega) below
    rw [step]
    rw [show k + (n + 1) = k + 1 + n by omega] at room unwrapped ⊢
    exact ih middle _ next (sizes.trans size) (by rw [counts]; exact room) unwrapped (by simp)

private theorem launch_fills {stackSize : Nat} (sized : stackSize < 2^32) (store : Store Body) :
    ∃ after result i co object, CoroutinePool.create 127 stackSize [4096] store = .ok
      (after,result,[]) ∧
      result.stackSize = stackSize ∧ result.memoryPool.starts = [4096] ∧
      1 ≤ i ∧ result.refs[i]? = some co ∧ after.objects[co]? = some object ∧
      object.stackSp = 4096 + 126 * stackSize := by
  let memoryPool : MemoryPool :=
    { allCounts := 128, useCounts := 0, blockGroups := [MemoryBlockGroup.create 128 4096],
      blockSize := stackSize, blockGroupSize := 128 }
  have filled : Filled 4096 0 [] memoryPool := ⟨Nat.zero_le _,rfl⟩
  obtain ⟨after,result,i,co,object,grown,size,arrays,rest⟩ :=
    resizeLoop_fills (by omega) 126 store.makeDefault.2
      ⟨stackSize,[⟨store.objects.length,true⟩],memoryPool⟩ filled rfl (show 0 + 126 < 128 by decide)
      (by dsimp only; omega) (by simp)
  have made : MemoryPool.create 127 stackSize 128 [4096] = .ok (memoryPool,[]) := rfl
  refine ⟨after,result,i,co,object,?_,size,arrays,by simpa using rest⟩
  rw [← grown]
  simp only [CoroutinePool.create,made,bind,Except.bind]
  rw [CoroutinePool.resize,if_neg (by simp [CoroutinePool.getPoolSize,u32]),if_neg (by decide)]
  rfl

private theorem stacks_allocated {next : Body → Option Body} {stackSize : Nat}
    (positive : 1 ≤ stackSize) (sized : stackSize < 2^32) :
    StacksAllocated next stackSize ↔ stackSize * 128 < 2^32 := by
  constructor
  · intro allocated
    by_contra large
    obtain ⟨store,pool,i,co,object,call,size,arrays,behind,slot,present,address⟩ :=
      launch_fills sized (Process.initial : Process Body).store
    have bytes : u32 (stackSize * 128) < 2^32 := u32_lt _
    have array : HeapArrays (u32 (stackSize * 128)) [4096] := heapArrays_single (by omega)
    have run : SlotRuns.Reached next _ _ :=
      Run.next [] Process.initial (Process.Event.newPool 127 stackSize) _
      (Run.start _ rfl) trivial
      (Process.Step.newPool Process.initial 127 stackSize [4096] [] store pool
        ⟨by omega,sized⟩ array call)
    have listed : pool ∈ ((Process.initial : Process Body).pools ++ [pool]) := by simp
    have backed := reached_backed run pool listed
    obtain ⟨same,start,member,_,high⟩ :=
      allocated _ _ run pool listed size i co object behind slot present
    rw [arrays] at member
    rw [List.mem_singleton.mp member,same,address,arrayBytes,backed.blockSize,
      backed.blockGroupSize,size] at high
    -- the product loses a multiple of `2^32`, more than one stack
    unfold u32 at high
    omega
  · exact fun small => fitting_stacks positive small

theorem blocks_allocated_iff (next : Body → Option Body)
    (blockCount blockSize blockGroupSize stackSize : Nat) (positive : 1 ≤ blockSize)
    (sized : blockSize < 2^32) (counted : blockGroupSize < 2^32) (few : blockCount < 2^32)
    (accepted : ∃ pool, MemoryRuns.Constructed blockCount blockSize blockGroupSize pool)
    (stack : 1 ≤ stackSize) (stackSized : stackSize < 2^32) :
    (BlocksAllocated blockCount blockSize blockGroupSize ↔ blockSize * blockGroupSize < 2^32) ∧
      (StacksAllocated next stackSize ↔ stackSize * 128 < 2^32) ∧
      -- where the arrays are large enough, a lookup fails only behind the reach of its counter
      (blockSize * blockGroupSize < 2^32 → ∀ history pool,
        MemoryRuns.Reached blockCount blockSize blockGroupSize history pool →
        ∀ heap addr after rest, (∀ array ∈ heap.head?, pool.Fresh array) →
          pool.getBlock heap = .ok (addr,after,rest) → ¬ fullGroups pool < 2^32 →
          ∀ k < blockSize, after.hasBlock (addr + k) = .error .endless) := by
  refine ⟨blocks_allocated positive sized counted few accepted,stacks_allocated stack stackSized,?_⟩
  intro small history pool run heap addr after rest fresh got beyond k within
  exact fitting_endless positive small run fresh got beyond within

theorem blocks_allocated_pair :
    (BlocksAllocated 0 16 2 ↔ 16 * 2 < 2^32) ∧
      (StacksAllocated (fun _ : Unit => none) 65536 ↔ 65536 * 128 < 2^32) ∧
      (16 * 2 < 2^32 → ∀ history pool, MemoryRuns.Reached 0 16 2 history pool →
        ∀ heap addr after rest, (∀ array ∈ heap.head?, pool.Fresh array) →
          pool.getBlock heap = .ok (addr,after,rest) → ¬ fullGroups pool < 2^32 →
          ∀ k < 16, after.hasBlock (addr + k) = .error .endless) :=
  blocks_allocated_iff (fun _ => none) 0 16 2 65536 (by decide) (by decide) (by decide) (by decide)
    ⟨_,MemoryRuns.pairPool_constructed⟩ (by decide) (by decide)

/-- Blocks of 32 MiB in groups of 128: the array of the group has no bytes. -/
def emptyArray (flags : List Bool) (used : Nat) : MemoryPool :=
  { allCounts := 128, useCounts := used, blockGroups := [⟨4096,flags⟩], blockSize := 2^25,
    blockGroupSize := 128 }

set_option maxRecDepth 2000 in
theorem huge_block_unallocated : ¬ BlocksAllocated 0 (2^25) 128 ∧
    ∃ pool after, MemoryRuns.Constructed 0 (2^25) 128 pool ∧ pool.getBlock [] = .ok
      (4096,after,[]) ∧
      ¬ InArray after 4096 4096 ∧ after.hasBlock 4096 = .ok false := by
  have constructed : MemoryRuns.Constructed 0 (2^25) 128
      (emptyArray (List.replicate 128 false) 0) :=
    ⟨[4096],[],heapArrays_single (by decide),rfl⟩
  have taken : (emptyArray (List.replicate 128 false) 0).getBlock [] =
      .ok (4096,emptyArray (true::List.replicate 127 false) 1,[]) := rfl
  have outside : ¬ InArray (emptyArray (true::List.replicate 127 false) 1) 4096 4096 := by
    rintro ⟨_,high⟩
    simp [emptyArray,arrayBytes,u32] at high
  refine ⟨?_,_,_,constructed,taken,outside,rfl⟩
  intro allocated
  obtain ⟨⟨start,index,_,⟨group,member,rfl,_⟩,inside⟩,_⟩ :=
    allocated [] _ (Run.start _ constructed) [] 4096 _ [] (by simp) taken
  obtain rfl : group = ⟨4096,true::List.replicate 127 false⟩ := List.mem_singleton.mp member
  exact outside inside

end MCoroutine.Allocation
