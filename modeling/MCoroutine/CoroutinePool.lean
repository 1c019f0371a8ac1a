import MCoroutine.MemoryPool
import MCoroutine.Store

/-! The coroutine pool: a vector of coroutines with use flags, whose stacks are blocks
of a memory pool of its own. -/
namespace MCoroutine

structure CoroutinePair where
  first : Nat
  second : Bool
  deriving DecidableEq, Repr

structure CoroutinePool where
  stackSize : Nat
  coroutines : List CoroutinePair
  memoryPool : MemoryPool
  deriving DecidableEq, Repr

namespace CoroutinePool

variable {Body : Type}

/-- `m_coroutines.size() - 1`; the vector is never empty. -/
def getPoolSize (pool : CoroutinePool) : Nat := u32 (pool.coroutines.length - 1)

/-- `n` iterations of the loop of resize. -/
def resizeLoop : Nat → List Nat → Store Body → CoroutinePool →
    Except Failure (Store Body × CoroutinePool × List Nat)
  | 0,heap,store,pool => .ok (store,pool,heap)
  | n+1,heap,store,pool => do
    let (block,memoryPool,heap) ← pool.memoryPool.getBlock heap
    let (co,store) ← store.make pool.stackSize block
    resizeLoop n heap store
      { pool with coroutines := pool.coroutines ++ [⟨co,false⟩], memoryPool := memoryPool }

/-- The `uint32_t` counter of the loop cannot pass `UINT32_MAX`. -/
def resize (newSize : Nat) (heap : List Nat) (store : Store Body) (pool : CoroutinePool) :
    Except Failure (Store Body × CoroutinePool × List Nat) :=
  if newSize ≤ pool.getPoolSize then .ok (store,pool,heap)
  else if newSize = 2^32 - 1 then .error .endless
  else resizeLoop (newSize + 1 - u32 pool.coroutines.length) heap store pool

def create (poolSize stackSize : Nat) (heap : List Nat) (store : Store Body) :
    Except Failure (Store Body × CoroutinePool × List Nat) := do
  let (memoryPool,heap) ← MemoryPool.create poolSize stackSize 128 heap
  let (slot,store) := store.makeDefault
  resize poolSize heap store
    { stackSize := stackSize, coroutines := [⟨slot,true⟩], memoryPool := memoryPool }

/-- The search of getCoroutine from index `i`, with `fuel` indices left. -/
def searchLoop (pool : CoroutinePool) : Nat → Nat → Except Failure (Option Nat)
  | 0,_ => .ok none
  | fuel+1,i =>
    match pool.coroutines[i]? with
    | none => .error .outOfRange
    | some pair => if pair.second = false then .ok (some i) else searchLoop pool fuel (i+1)

/-- `m_coroutines[i].second = true; return m_coroutines[i].first.get()`. -/
def take (i : Nat) (pool : CoroutinePool) : Except Failure (Nat × CoroutinePool) :=
  match pool.coroutines[i]? with
  | none => .error .outOfRange
  | some pair =>
    .ok (pair.first,{ pool with coroutines := pool.coroutines.set i { pair with second := true } })

/-- `static_cast<uint32_t>(1.5 * old_size)`, undefined when the product does not fit. -/
def growthRequest (oldSize : Nat) : Except Failure Nat :=
  if 3 * oldSize / 2 < 2^32 then .ok (3 * oldSize / 2) else .error .badCast

def getCoroutine (heap : List Nat) (store : Store Body) (pool : CoroutinePool) :
    Except Failure (Nat × Store Body × CoroutinePool × List Nat) := do
  match ← pool.searchLoop pool.getPoolSize 1 with
  | some i =>
    let (co,pool) ← pool.take i
    return (co,store,pool,heap)
  | none =>
    -- the `uint32_t` counter of the search never passes a bound of `UINT32_MAX`
    if pool.getPoolSize = 2^32 - 1 then .error .endless
    else
      let oldSize := u32 pool.coroutines.length
      let request ← growthRequest oldSize
      let (store,pool,heap) ← pool.resize request heap store
      let (co,pool) ← pool.take oldSize
      return (co,store,pool,heap)

def backCoroutine (cor : Nat) (store : Store Body) (pool : CoroutinePool) :
    Except Failure (Store Body × CoroutinePool) :=
  match store.objects[cor]? with
  | none => .error .invalidPointer
  | some object =>
    let index := object.corId
    match pool.coroutines[index]? with
    | none => .error .outOfRange
    | some pair =>
      if pair.second = false then .ok (store,pool)
      else
        .ok (store.modify pair.first fun co =>
          (co.setCallBackRunningFlag false).setResumeFlag false,
          { pool with coroutines := pool.coroutines.set index { pair with second := false } })

end CoroutinePool

end MCoroutine
