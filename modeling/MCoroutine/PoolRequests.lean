import MCoroutine.Allocation
import MCoroutine.Switching

/-! What getCoroutine answers, whatever the number of slots and their use flags: the
search for a free slot, and the growth where there is none. -/
namespace MCoroutine.PoolRequests
open MemoryPool CoroutinePool

variable {Body : Type}

/-- The memory pool of a coroutine pool and the heap behind it. A group spans fewer than
`2^39` bytes of user space, so that no block reaches the end of the address space, also
where the byte count of the array wraps. -/
structure Ready (pool : MemoryPool) (heap : List Nat) : Prop where
  sound : pool.Sound
  supplied : pool.Supplied heap
  addressed : ∀ start ∈ pool.starts ++ heap, start + pool.blockSize * pool.blockGroupSize ≤ 2^64

/-- In a process every memory pool is as its constructor and getBlock left it. -/
private theorem reached_ready {next : Body → Option Body} {history : List (Process.Event Body)}
    {process : Process Body} (run : SlotRuns.Reached next history process) {pool : CoroutinePool}
    (member : pool ∈ process.pools) {heap : List Nat} (supplied : pool.memoryPool.Supplied heap)
    (user : ∀ start ∈ pool.memoryPool.starts ++ heap, start + pool.stackSize * 128 ≤ 2^64) :
    Ready pool.memoryPool heap := by
  have backed := Allocation.reached_backed run pool member
  refine ⟨backed.sound,supplied,?_⟩
  rw [backed.blockSize,backed.blockGroupSize]
  exact user

theorem taken_address {pool after : MemoryPool} {heap rest : List Nat} {start index : Nat}
    (ready : Ready pool heap) (taken : Taken pool start index after)
    (arrays : after.starts ++ rest = pool.starts ++ heap) :
    offset start (index * pool.blockSize) ≠ 0 := by
  have listed : start ∈ pool.starts ++ heap := by
    rw [← arrays]
    exact List.mem_append_left _ taken.listed
  have room := ready.addressed start listed
  obtain ⟨positive,below⟩ := taken.sound.located start taken.listed
  have place : index * pool.blockSize + pool.blockSize ≤ pool.blockSize * pool.blockGroupSize := by
    rw [← Nat.succ_mul,Nat.mul_comm pool.blockSize]
    exact Nat.mul_le_mul_right _ taken.bound
  have unwrapped : start + index * pool.blockSize < 2^64 := by
    rcases Nat.eq_zero_or_pos pool.blockSize with empty | some
    · rw [empty,Nat.mul_zero]
      omega
    · omega
  rw [offset_of_lt unwrapped]
  omega

theorem Ready.getBlock {pool : MemoryPool} {heap : List Nat} (ready : Ready pool heap) :
    (∃ start index after rest, pool.getBlock heap = .ok
      (offset start (index * pool.blockSize),after,rest) ∧
      offset start (index * pool.blockSize) ≠ 0 ∧ Taken pool start index after ∧ Ready after rest ∧
      heap.length ≤ rest.length + 1) ∨
    (heap = [] ∧ pool.getBlock heap = .error .badAlloc) := by
  rcases takeBlock_returns pool heap ready.sound with ⟨start,index,after,rest,call⟩ | ⟨none,failed⟩
  · have taken := takeBlock_taken pool after heap rest start index ready.sound
      ready.supplied.fresh call
    obtain ⟨arrays,size,count⟩ := takeBlock_arrays pool after heap rest start index call
    have returned : pool.getBlock heap = .ok
        (offset start (index * pool.blockSize),after,rest) := by
      rw [MemoryPool.getBlock,call]
      rfl
    refine Or.inl ⟨start,index,after,rest,returned,taken_address ready taken arrays,taken,
      ⟨taken.sound,?_,?_⟩,?_⟩
    · exact getBlock_supplied pool after heap rest _ ready.supplied returned
    · rw [arrays,size,count]
      exact ready.addressed
    · have length := congrArg List.length arrays
      rw [List.length_append,List.length_append] at length
      rcases taken.starts with same | ⟨grown,_⟩
      · rw [same] at length
        omega
      · rw [grown,List.length_append,List.length_singleton] at length
        omega
  · refine Or.inr ⟨none,?_⟩
    rw [MemoryPool.getBlock,failed]
    rfl

private theorem make_returns {stackPtr : Nat} (stack : stackPtr ≠ 0) (stackSize : Nat)
    (store : Store Body) :
    ∃ after, store.make stackSize stackPtr = .ok (store.objects.length,after) := by
  rw [Store.make,Coroutine.create,if_neg stack]
  exact ⟨_,rfl⟩

/-- A coroutine as resize makes it, on a block that was free before the growth. -/
structure Furnished (before after : MemoryPool) (stackSize : Nat)
    (object : Coroutine (Context Body) Body) : Prop where
  stackSize : object.stackSize = stackSize
  stack : object.stackSp ≠ 0
  block : ∃ start index, object.stackSp = offset start (index * before.blockSize) ∧
    ¬ before.Used start index ∧ after.Used start index
  running : object.cbfuncRunningFlag = false
  resume : object.resumeFlag = false

/-- `n` slots more, free and each with a coroutine made for it; what was there stays. -/
structure Extended (n : Nat) (store after : Store Body) (pool grown : CoroutinePool) : Prop where
  slots : grown.coroutines = pool.coroutines ++ (List.range' store.objects.length n).map fun co =>
    ⟨co,false⟩
  objects : ∃ fresh, fresh.length = n ∧ after.objects = store.objects ++ fresh ∧
    ∀ object ∈ fresh, Furnished pool.memoryPool grown.memoryPool pool.stackSize object
  used : ∀ start index, pool.memoryPool.Used start index → grown.memoryPool.Used start index
  blockSize : grown.memoryPool.blockSize = pool.memoryPool.blockSize
  stackSize : grown.stackSize = pool.stackSize

private theorem extended_none (store : Store Body) (pool : CoroutinePool) :
    Extended 0 store store pool pool := by
  refine ⟨?_,⟨[],rfl,?_,?_⟩,fun _ _ used => used,rfl,rfl⟩
  · simp
  · simp
  · exact fun object member => absurd member List.not_mem_nil

private theorem Extended.prepend {n start index block : Nat} {store middle after : Store Body}
    {pool grown : CoroutinePool} {memoryPool : MemoryPool}
    (address : block = offset start (index * pool.memoryPool.blockSize)) (stack : block ≠ 0)
    (taken : Taken pool.memoryPool start index memoryPool)
    (made : store.make pool.stackSize block = .ok (store.objects.length,middle))
    (rest : Extended n middle after { pool with
      coroutines := pool.coroutines ++ [⟨store.objects.length,false⟩],
      memoryPool := memoryPool } grown) :
    Extended (n + 1) store after pool grown := by
  let object : Coroutine (Context Body) Body := { Coroutine.default .zero with
    corId := store.curCoroutineId, stackSize := pool.stackSize, stackSp := block }
  have stored : middle.objects = store.objects ++ [object] := by
    rw [(Store.make_effect store middle pool.stackSize block _ made).2.2]
  obtain ⟨fresh,length,objects,furnished⟩ := rest.objects
  have kept (s k : Nat) (used : pool.memoryPool.Used s k) : memoryPool.Used s k :=
    (taken.used s k).mpr (Or.inl used)
  have own : memoryPool.Used start index := (taken.used start index).mpr (Or.inr ⟨rfl,rfl⟩)
  refine ⟨?_,⟨object::fresh,by rw [List.length_cons,length],?_,?_⟩,?_,
    rest.blockSize.trans taken.blockSize,rest.stackSize⟩
  · rw [rest.slots,stored,List.append_assoc,List.length_append,List.length_singleton,
      List.range'_succ]
    rfl
  · rw [objects,stored,List.append_assoc]
    rfl
  · intro other member
    rcases List.mem_cons.mp member with rfl | later
    · exact ⟨rfl,stack,⟨start,index,address,taken.free,rest.used start index own⟩,rfl,rfl⟩
    · obtain ⟨s,k,place,free,used⟩ := (furnished other later).block
      rw [show memoryPool.blockSize = pool.memoryPool.blockSize from taken.blockSize] at place
      have same := furnished other later
      exact ⟨same.stackSize,same.stack,⟨s,k,place,fun before => free (kept s k before),used⟩,
        same.running,same.resume⟩
  · exact fun s k used => rest.used s k (kept s k used)

private theorem resizeLoop_returns (n : Nat) (heap : List Nat) (store : Store Body)
    (pool : CoroutinePool) (ready : Ready pool.memoryPool heap) :
    (∃ after grown rest, resizeLoop n heap store pool = .ok (after,grown,rest) ∧
      Extended n store after pool grown) ∨
      (heap.length < n ∧ resizeLoop n heap store pool = .error .badAlloc) := by
  induction n generalizing heap store pool with
  | zero => exact Or.inl ⟨store,pool,heap,rfl,extended_none store pool⟩
  | succ n ih =>
    rcases ready.getBlock with ⟨start,index,memoryPool,rest,block,stack,taken,remains,
      length⟩ | ⟨none,failed⟩
    · obtain ⟨middle,made⟩ := make_returns stack pool.stackSize store
      have next : resizeLoop (n + 1) heap store pool = resizeLoop n rest middle { pool with
          coroutines := pool.coroutines ++ [⟨store.objects.length,false⟩],
              memoryPool := memoryPool } := by
        rw [resizeLoop,block]
        change (store.make pool.stackSize (offset start
          (index * pool.memoryPool.blockSize)) >>= _) = _
        rw [made]
        rfl
      rw [next]
      rcases ih rest middle { pool with
          coroutines := pool.coroutines ++ [⟨store.objects.length,false⟩],
            memoryPool := memoryPool } remains with
        ⟨after,grown,left,done,extended⟩ | ⟨short,failed⟩
      · exact Or.inl ⟨after,grown,left,done,extended.prepend rfl stack taken made⟩
      · exact Or.inr ⟨by omega,failed⟩
    · refine Or.inr ⟨by rw [none]; exact Nat.succ_pos n,?_⟩
      rw [resizeLoop,failed]
      rfl

/-- The growth of a full pool: the slots it had stay, with their coroutines, and each
new one is free and has a coroutine of its own. `co` is the first of these. -/
structure Grown (heap rest : List Nat) (store after : Store Body) (pool grown : CoroutinePool)
    (co : Nat) : Prop where
  resized : pool.resize (3 * pool.coroutines.length / 2) heap store = .ok (after,grown,rest)
  size : grown.getPoolSize = 3 * pool.coroutines.length / 2
  extended : Extended (3 * pool.coroutines.length / 2 + 1 - pool.coroutines.length) store
    after pool grown
  first : co = store.objects.length

section
variable {pool : CoroutinePool} {heap : List Nat} (ready : Ready pool.memoryPool heap)
  (present : 1 ≤ pool.coroutines.length) (room : 3 * pool.coroutines.length < 2 * (2^32 - 1))
include present room

private theorem request_accepted :
    growthRequest pool.coroutines.length = .ok (3 * pool.coroutines.length / 2) ∧
    pool.getPoolSize < 3 * pool.coroutines.length / 2 ∧
    pool.coroutines.length ≤ 3 * pool.coroutines.length / 2 := by
  have size := getPoolSize_of_lt pool (by omega)
  exact ⟨if_pos (by omega),by omega,by omega⟩

include ready

private theorem resize_returns (store : Store Body) :
    (∃ after grown rest, Grown heap rest store after pool grown store.objects.length) ∨
      (heap.length < 3 * pool.coroutines.length / 2 + 1 - pool.coroutines.length ∧
        pool.resize (3 * pool.coroutines.length / 2) heap store = .error .badAlloc) := by
  obtain ⟨_,accepted,_⟩ := request_accepted present room
  have loop : pool.resize (3 * pool.coroutines.length / 2) heap store =
      resizeLoop (3 * pool.coroutines.length / 2 + 1 - pool.coroutines.length) heap store pool := by
    rw [resize,if_neg (by omega),if_neg (by omega),u32_of_lt (by omega)]
  rcases resizeLoop_returns (3 * pool.coroutines.length / 2 + 1 - pool.coroutines.length) heap store
    pool ready with
    ⟨after,grown,rest,call,extended⟩ | ⟨short,failed⟩
  · have length := congrArg List.length extended.slots
    rw [List.length_append,List.length_map,List.length_range'] at length
    refine Or.inl ⟨after,grown,rest,loop.trans call,?_,extended,rfl⟩
    rw [getPoolSize_of_lt grown (by omega)]
    omega
  · exact Or.inr ⟨short,loop.trans failed⟩

end

/-- getCoroutine hands out the first free slot and changes nothing else. In a pool
without one it grows: its request is beyond the size of the pool, resize ends there, and
the first new slot is handed out. Nothing but the heap makes it fail. -/
theorem getCoroutine_answers (heap : List Nat) (store : Store Body) (pool : CoroutinePool)
    (ready : Ready pool.memoryPool heap) (present : 1 ≤ pool.coroutines.length)
    (room : 3 * pool.coroutines.length < 2 * (2^32 - 1)) :
    (∃ i co, FirstFree pool i co ∧ pool.getCoroutine heap store =
      .ok (co,store,{ pool with coroutines := pool.coroutines.set i ⟨co,true⟩ },heap)) ∨
    (Full pool ∧ growthRequest pool.coroutines.length = .ok (3 * pool.coroutines.length / 2) ∧
      pool.getPoolSize < 3 * pool.coroutines.length / 2 ∧
      pool.coroutines.length ≤ 3 * pool.coroutines.length / 2 ∧
      ((∃ after grown rest co, Grown heap rest store after pool grown co ∧
        pool.getCoroutine heap store =
          .ok (co,after,{ grown with coroutines := grown.coroutines.set pool.coroutines.length ⟨co,true⟩ },rest)) ∨
        (heap.length < 3 * pool.coroutines.length / 2 + 1 - pool.coroutines.length ∧
          pool.getCoroutine heap store = .error .badAlloc))) := by
  have small : pool.coroutines.length < 2^32 := by omega
  rcases search_returns present small with ⟨i,co,first,_⟩ | ⟨full,_⟩
  · exact Or.inl ⟨i,co,first,getCoroutine_found present small first heap store⟩
  · obtain ⟨asked,accepted,covered⟩ := request_accepted present room
    refine Or.inr ⟨full,asked,accepted,covered,?_⟩
    rw [getCoroutine_full present small full,asked]
    change (∃ after grown rest co, _ ∧ (pool.resize _ heap store >>= _) = _) ∨
      (_ ∧ (pool.resize _ heap store >>= _) = _)
    rcases resize_returns ready present room store with ⟨after,grown,rest,growth⟩ | ⟨short,failed⟩
    · refine Or.inl ⟨after,grown,rest,_,growth,?_⟩
      obtain ⟨n,count⟩ : ∃ n, 3 * pool.coroutines.length / 2 + 1 - pool.coroutines.length = n + 1 :=
        ⟨3 * pool.coroutines.length / 2 - pool.coroutines.length,by omega⟩
      have slots := growth.extended.slots
      rw [count,List.range'_succ,List.map_cons] at slots
      have slot : grown.coroutines[pool.coroutines.length]? = some
          ⟨store.objects.length,false⟩ := by
        rw [slots,List.getElem?_append_right (Nat.le_refl _),Nat.sub_self]
        rfl
      rw [growth.resized]
      change (grown.take pool.coroutines.length >>= _) = _
      rw [take_located slot]
      rfl
    · refine Or.inr ⟨short,?_⟩
      rw [failed]
      rfl

def emptyPool : CoroutinePool :=
  { stackSize := 16, coroutines := [⟨0,true⟩],
    memoryPool :=
      { allCounts := 128, useCounts := 0, blockGroups := [⟨65536,List.replicate 128 false⟩],
                    blockSize := 16, blockGroupSize := 128 } }

def emptyProcess : Process Unit :=
  { Process.initial with store := { objects := [Coroutine.default .zero], curCoroutineId := 1 }, pools := [emptyPool] }

set_option maxRecDepth 2000 in
private theorem emptyProcess_reached :
    SlotRuns.Reached (fun _ => none) [.newPool 0 16] emptyProcess :=
  General.Runs.Run.next [] Process.initial (Process.Event.newPool 0 16) _ (.start _ rfl) trivial
    (Process.Step.newPool Process.initial 0 16 [65536] [] _ emptyPool (by decide) SlotRuns.one_array rfl)

private theorem emptyPool_supplied : emptyPool.memoryPool.Supplied [131072] := by
  have separate : General.Ranges.Separate 2048 65536 131072 := ⟨by decide,Or.inl (by decide)⟩
  refine ⟨?_,List.pairwise_pair.mpr separate⟩
  intro start member
  rcases List.mem_pair.mp member with rfl | rfl <;> decide

/-- A pool constructed with size 0 grows at its first getCoroutine. -/
theorem getCoroutine_answers_empty :
    ∃ after grown rest co, Grown [131072] rest emptyProcess.store after emptyPool grown co ∧
      emptyPool.getCoroutine [131072] emptyProcess.store =
        .ok (co,after,{ grown with coroutines := grown.coroutines.set 1 ⟨co,true⟩ },rest) := by
  have ready := reached_ready emptyProcess_reached List.mem_cons_self emptyPool_supplied (by decide)
  rcases getCoroutine_answers [131072] emptyProcess.store emptyPool ready (by decide)
    (by decide) with
    ⟨i,co,⟨positive,slot,_⟩,_⟩ | ⟨_,_,_,_,grows | ⟨short,_⟩⟩
  · have bound := (List.getElem?_eq_some_iff.mp slot).1
    change i < 1 at bound
    omega
  · exact grows
  · change 1 < 1 at short
    omega

end MCoroutine.PoolRequests
