import MCoroutine.Basic
import MCoroutine.General.Ranges
import MCoroutine.General.Sweep

/-! The memory pool: groups of equally sized blocks, each group one heap array with a
vector of use flags. Results of the heap allocator are the starts of the arrays it
returns, passed as the list of what its next calls return. -/
namespace MCoroutine
open General.Sweep General.Ranges

structure MemoryBlockGroup where
  start : Nat
  useFlags : List Bool
  deriving DecidableEq, Repr

structure MemoryPool where
  allCounts : Nat
  useCounts : Nat
  blockGroups : List MemoryBlockGroup
  blockSize : Nat
  blockGroupSize : Nat
  deriving DecidableEq, Repr

namespace MemoryBlockGroup

/-- The constructor, on the array the heap returned. -/
def create (blockGroupSize start : Nat) : MemoryBlockGroup :=
  { start := start, useFlags := List.replicate blockGroupSize false }

/-- `std::find(begin,end,true) != end`. -/
def hasUsed (group : MemoryBlockGroup) : Bool :=
  decide (group.useFlags.idxOf true < group.useFlags.length)

end MemoryBlockGroup

namespace MemoryPool

/-- Bytes allocated for a group, and the bound of the range tests: a product of two
`uint32_t`. -/
def arrayBytes (pool : MemoryPool) : Nat := u32 (pool.blockSize * pool.blockGroupSize)

def starts (pool : MemoryPool) : List Nat := pool.blockGroups.map (·.start)

def emplaceGroups : Nat → List Nat → MemoryPool → Except Failure (MemoryPool × List Nat)
  | 0,heap,pool => .ok (pool,heap)
  | _+1,[],_ => .error .badAlloc
  | n+1,start::heap,pool =>
    emplaceGroups n heap
      { pool with blockGroups := pool.blockGroups ++
        [MemoryBlockGroup.create pool.blockGroupSize start] }

/-- The constructor. Its loop counter is an `int`, so a group count from `2^31` on
overflows it. -/
def create (blockCount blockSize blockGroupSize : Nat) (heap : List Nat) :
    Except Failure (MemoryPool × List Nat) :=
  if blockGroupSize = 0 then .error .divisionByZero
  else
    let groupCount := u32 (blockCount / blockGroupSize + 1)
    if 2^31 ≤ groupCount then .error .signedOverflow
    else
      emplaceGroups groupCount heap
        { allCounts := u32 (groupCount * blockGroupSize), useCounts := 0, blockGroups := [],
          blockSize := blockSize, blockGroupSize := blockGroupSize }

/-- The search loop of getBlock: the group and flag it stops at, with the flag set. -/
def takeFree : List MemoryBlockGroup → Option (Nat × Nat × List MemoryBlockGroup)
  | [] => none
  | group::rest =>
    let searchBlock := group.useFlags.idxOf false
    if searchBlock < group.useFlags.length then
      some (group.start,searchBlock,{ group with
        useFlags := group.useFlags.set searchBlock true }::rest)
    else (takeFree rest).map fun (start,index,rest) => (start,index,group::rest)

/-- getBlock up to the address computation: the array and the flag index taken. -/
def takeBlock (heap : List Nat) (pool : MemoryPool) :
    Except Failure (Nat × Nat × MemoryPool × List Nat) :=
  match takeFree pool.blockGroups with
  | some (start,index,groups) =>
    .ok (start,index,{ pool with blockGroups := groups, useCounts := u32 (pool.useCounts + 1) },
      heap)
  | none =>
    match heap with
    | [] => .error .badAlloc
    | start::heap =>
      let group := MemoryBlockGroup.create pool.blockGroupSize start
      if group.useFlags.length = 0 then .error .outOfRange
      else
        .ok (start,0,
          { pool with
            blockGroups :=
              pool.blockGroups ++ [{ group with useFlags := group.useFlags.set 0 true }],
            useCounts := u32 (pool.useCounts + 1),
            allCounts := u32 (pool.allCounts + pool.blockGroupSize) },
          heap)

def getBlock (heap : List Nat) (pool : MemoryPool) : Except Failure (Nat × MemoryPool × List Nat) :=
  do
  let (start,index,after,rest) ← takeBlock heap pool
  return (offset start (index * pool.blockSize),after,rest)

/-- The range test of hasBlockHelp and usedBlockHelp. -/
def inGroup (pool : MemoryPool) (addr : Nat) (group : MemoryBlockGroup) : Bool :=
  group.start ≤ addr && addr < offset group.start pool.arrayBytes

/-- The loop counter is a `uint32_t` compared with the vector size: with `2^32`
groups or more an unsuccessful search never ends. -/
def hasBlockHelp (addr : Nat) (pool : MemoryPool) : Except Failure (Bool × Nat) :=
  match pool.blockGroups.findIdx? (pool.inGroup addr) with
  | some i => if i < 2^32 then .ok (true,i) else .error .endless
  | none => if pool.blockGroups.length < 2^32 then .ok (false,2^32 - 1) else .error .endless

def hasBlock (addr : Nat) (pool : MemoryPool) : Except Failure Bool := do
  let temp ← hasBlockHelp addr pool
  return temp.1

/-- `m_use_counts--`. -/
def decrement (pool : MemoryPool) : MemoryPool :=
  { pool with useCounts := if pool.useCounts = 0 then 2^32 - 1 else pool.useCounts - 1 }

/-- `(addr - start) / m_block_size` as the code computes it: a signed difference and
quotient, narrowed to `uint32_t`. -/
def flagIndex (addr start blockSize : Nat) : Nat :=
  (((addr : Int) - start).tdiv blockSize % 2^32).toNat

/-- The second critical section of backBlock, for the group index looked up before. -/
def clearFlag (addr i : Nat) (pool : MemoryPool) : Except Failure MemoryPool :=
  match pool.blockGroups[i]? with
  | none => .error .outOfRange
  | some group =>
    if pool.blockSize = 0 then .error .divisionByZero
    else
      let index := flagIndex addr group.start pool.blockSize
      if index < group.useFlags.length then
        .ok { pool with
              blockGroups := pool.blockGroups.set i
                { group with useFlags := group.useFlags.set index false } }
      else .error .outOfRange

def backBlock (addr : Nat) (pool : MemoryPool) : Except Failure MemoryPool := do
  let temp ← hasBlockHelp addr pool
  if temp.1 then clearFlag addr temp.2 pool.decrement else return pool

/-- The loop of recovery from index `i`, with `fuel` iterations left. The index is an
`int`. -/
def recoveryLoop : Nat → Nat → MemoryPool → Except Failure MemoryPool
  | 0,_,pool => .ok pool
  | fuel+1,i,pool =>
    match pool.blockGroups[i]? with
    | none => .ok pool
    | some group =>
      if group.useFlags.idxOf true = group.useFlags.length then
        recoveryLoop fuel i
          { pool with
            blockGroups := swapRemove pool.blockGroups i,
            allCounts := u32 (pool.allCounts + (2^32 - pool.blockGroupSize)) }
      else if i + 1 = 2^31 then .error .signedOverflow
      else recoveryLoop fuel (i+1) pool

/-- Every iteration advances the index or shortens the vector, so its size is fuel
enough. -/
def recovery (pool : MemoryPool) : Except Failure MemoryPool :=
  recoveryLoop pool.blockGroups.length 0 pool

def usedBlockHelp (addr : Nat) (pool : MemoryPool) : Except Failure Bool :=
  pool.blockGroups.foldlM (fun found group =>
    if found then .ok true
    else if pool.inGroup addr group then
      if pool.blockSize = 0 then .error .divisionByZero
      else
        match group.useFlags[(addr - group.start) / pool.blockSize]? with
        | none => .error .outOfRange
        | some flag => .ok flag
    else .ok false) false

end MemoryPool

end MCoroutine
