import MCoroutine.MemoryPool
import Mathlib.Data.List.Nodup

/-! What each memory pool operation does to the abstract state of the pool: the set
of live arrays and the set of used blocks, a block being an array and a flag index. -/
namespace MCoroutine.MemoryPool
open General.Sweep General.Ranges

def Used (pool : MemoryPool) (start index : Nat) : Prop :=
  ∃ group ∈ pool.blockGroups, group.start = start ∧ group.useFlags[index]? = some true

/-- The pool and the heap it lives in: every group has its full vector of flags, and
the arrays are non-null, inside the address space and pairwise separate. -/
structure Sound (pool : MemoryPool) : Prop where
  positive : 0 < pool.blockGroupSize
  flags : ∀ group ∈ pool.blockGroups, group.useFlags.length = pool.blockGroupSize
  located : ∀ start ∈ pool.starts, 0 < start ∧ start + pool.arrayBytes < 2^64
  separate : Family pool.arrayBytes pool.starts

/-- What the heap promises of an array it returns while the pool's arrays are live. -/
def Fresh (pool : MemoryPool) (start : Nat) : Prop :=
  (0 < start ∧ start + pool.arrayBytes < 2^64) ∧
    ∀ other ∈ pool.starts, Separate pool.arrayBytes other start

def HeapArrays (size : Nat) (heap : List Nat) : Prop :=
  (∀ start ∈ heap, 0 < start ∧ start + size < 2^64) ∧ Family size heap

theorem heapArrays_single {size start : Nat} (located : 0 < start ∧ start + size < 2^64) :
    HeapArrays size [start] := by
  refine ⟨?_,List.pairwise_singleton _ _⟩
  intro other member
  rw [List.mem_singleton.mp member]
  exact located

def Supplied (pool : MemoryPool) (heap : List Nat) : Prop :=
  HeapArrays pool.arrayBytes (pool.starts ++ heap)

def Fits (pool : MemoryPool) : Prop :=
  0 < pool.blockSize ∧ pool.blockSize * pool.blockGroupSize < 2^32

theorem mem_starts {pool : MemoryPool} {group : MemoryBlockGroup}
    (member : group ∈ pool.blockGroups) :
    group.start ∈ pool.starts := List.mem_map_of_mem member

theorem Sound.group_unique {pool : MemoryPool} (sound : pool.Sound)
    {first second : MemoryBlockGroup} (one : first ∈ pool.blockGroups)
    (two : second ∈ pool.blockGroups) (same : first.start = second.start) : first = second :=
  List.inj_on_of_nodup_map sound.separate.nodup one two same

theorem Sound.used_index {pool : MemoryPool} (sound : pool.Sound) {start index : Nat}
    (used : pool.Used start index) : start ∈ pool.starts ∧ index < pool.blockGroupSize := by
  obtain ⟨group,member,rfl,flag⟩ := used
  refine ⟨mem_starts member,?_⟩
  have bound := (List.getElem?_eq_some_iff.mp flag).1
  rw [sound.flags group member] at bound
  exact bound

theorem Sound.used_iff {pool : MemoryPool} (sound : pool.Sound) {group : MemoryBlockGroup}
    (member : group ∈ pool.blockGroups) (index : Nat) :
    pool.Used group.start index ↔ group.useFlags[index]? = some true := by
  constructor
  · rintro ⟨other,present,same,flag⟩
    rw [← sound.group_unique present member same]
    exact flag
  · exact fun flag => ⟨group,member,rfl,flag⟩

private theorem idxOf_spec {α : Type} [BEq α] [LawfulBEq α] (value : α) (xs : List α)
    (found : xs.idxOf value < xs.length) :
    xs[xs.idxOf value]? = some value := by
  rw [List.getElem?_eq_getElem found,List.getElem_idxOf found]

theorem takeFree_split (groups : List MemoryBlockGroup) (start index : Nat)
    (after : List MemoryBlockGroup) (found : takeFree groups = some (start,index,after)) :
    ∃ front group back, groups = front ++ group::back ∧ start = group.start ∧
      group.useFlags[index]? = some false ∧ (∀ full ∈ front, false ∉ full.useFlags) ∧
      after = front ++ { group with useFlags := group.useFlags.set index true }::back := by
  induction groups generalizing after with
  | nil => cases found
  | cons head rest ih =>
    simp only [takeFree] at found
    split at found
    · rename_i inside
      cases found
      exact ⟨[],head,rest,rfl,rfl,idxOf_spec false _ inside,by simp,rfl⟩
    · rename_i full
      obtain ⟨⟨start',index',after'⟩,taken,same⟩ := Option.map_eq_some_iff.mp found
      cases same
      obtain ⟨front,group,back,split,first,flag,fullFront,result⟩ := ih after' taken
      refine ⟨head::front,group,back,by rw [split]; rfl,first,flag,?_,by rw [result]; rfl⟩
      intro other member
      rcases List.mem_cons.mp member with rfl | inner
      · exact fun present => full (List.idxOf_lt_length_iff.mpr present)
      · exact fullFront other inner

theorem takeFree_none (groups : List MemoryBlockGroup) (full : takeFree groups = none) :
    ∀ group ∈ groups, false ∉ group.useFlags := by
  induction groups with
  | nil => simp
  | cons head rest ih =>
    simp only [takeFree] at full
    split at full
    · cases full
    · rename_i absent
      have tail := ih (by simpa using full)
      intro group member
      rcases List.mem_cons.mp member with rfl | inner
      · exact fun present => absent (List.idxOf_lt_length_iff.mpr present)
      · exact tail group inner

private theorem used_split (pool : MemoryPool) (front back : List MemoryBlockGroup)
    (group : MemoryBlockGroup) (split : pool.blockGroups = front ++ group::back) (s k : Nat) :
    pool.Used s k ↔ (s = group.start ∧ group.useFlags[k]? = some true) ∨
      ∃ other ∈ front ++ back, other.start = s ∧ other.useFlags[k]? = some true := by
  unfold Used
  rw [split]
  constructor
  · rintro ⟨other,present,same,flag⟩
    rcases List.mem_append.mp present with left | right
    · exact Or.inr ⟨other,List.mem_append_left _ left,same,flag⟩
    · rcases List.mem_cons.mp right with rfl | right
      · exact Or.inl ⟨same.symm,flag⟩
      · exact Or.inr ⟨other,List.mem_append_right _ right,same,flag⟩
  · rintro (⟨rfl,flag⟩ | ⟨other,present,same,flag⟩)
    · exact ⟨group,by simp,rfl,flag⟩
    · refine ⟨other,?_,same,flag⟩
      rcases List.mem_append.mp present with left | right
      · exact List.mem_append_left _ left
      · exact List.mem_append_right _ (List.mem_cons_of_mem _ right)

private theorem used_replace (pool after : MemoryPool) (front back : List MemoryBlockGroup)
    (group : MemoryBlockGroup) (index : Nat) (value : Bool) (sound : pool.Sound)
    (split : pool.blockGroups = front ++ group::back) (inside : index < group.useFlags.length)
    (result : after.blockGroups = front ++
      { group with useFlags := group.useFlags.set index value }::back)
    (s k : Nat) :
    after.Used s k ↔ if s = group.start ∧ k = index then value = true else pool.Used s k := by
  rw [used_split after front back _ result,used_split pool front back group split]
  by_cases here : s = group.start
  · have alone : ¬ ∃ other ∈ front ++ back, other.start = s ∧ other.useFlags[k]? = some true := by
      rintro ⟨other,present,same,_⟩
      have nodup := sound.separate.nodup
      rw [starts,split,List.map_append,List.map_cons] at nodup
      have apart := (List.nodup_cons.mp (List.perm_middle.nodup_iff.mp nodup)).1
      apply apart
      rw [← List.map_append,← here,← same]
      exact List.mem_map_of_mem present
    rw [or_iff_left alone,or_iff_left alone]
    by_cases there : k = index
    · subst k
      simp [here,inside]
    · simp [here,there,List.getElem?_set_ne (Ne.symm there)]
  · simp [here]

structure Taken (pool : MemoryPool) (start index : Nat) (after : MemoryPool) : Prop where
  sound : after.Sound
  blockSize : after.blockSize = pool.blockSize
  blockGroupSize : after.blockGroupSize = pool.blockGroupSize
  listed : start ∈ after.starts
  bound : index < pool.blockGroupSize
  free : ¬ pool.Used start index
  used : ∀ s k, after.Used s k ↔ pool.Used s k ∨ (s = start ∧ k = index)
  starts : after.starts = pool.starts ∨
    (after.starts = pool.starts ++ [start] ∧ ∀ s ∈ pool.starts, ∀ k < pool.blockGroupSize,
      pool.Used s k)

private theorem arrayBytes_congr {pool after : MemoryPool} (size : after.blockSize = pool.blockSize)
    (count : after.blockGroupSize = pool.blockGroupSize) : after.arrayBytes = pool.arrayBytes := by
  rw [arrayBytes,arrayBytes,size,count]

theorem Sound.replace {pool after : MemoryPool} (sound : pool.Sound)
    {front back : List MemoryBlockGroup} {group : MemoryBlockGroup} {index : Nat} {value : Bool}
    (split : pool.blockGroups = front ++ group::back) (size : after.blockSize = pool.blockSize)
    (count : after.blockGroupSize = pool.blockGroupSize)
    (result : after.blockGroups = front ++
      { group with useFlags := group.useFlags.set index value }::back) :
    after.Sound ∧ after.starts = pool.starts := by
  have same : after.starts = pool.starts := by simp [starts,result,split]
  refine ⟨⟨by rw [count]; exact sound.positive,?_,?_,?_⟩,same⟩
  · intro other present
    rw [result,List.mem_append,List.mem_cons] at present
    rw [count]
    rcases present with left | rfl | right
    · exact sound.flags other (by rw [split]; simp [left])
    · simpa using sound.flags group (by rw [split]; simp)
    · exact sound.flags other (by rw [split]; simp [right])
  · rw [same,arrayBytes_congr size count]
    exact sound.located
  · rw [same,arrayBytes_congr size count]
    exact sound.separate

private theorem taken_free (pool after : MemoryPool) (start index : Nat)
    (groups : List MemoryBlockGroup) (sound : pool.Sound)
    (found : takeFree pool.blockGroups = some (start,index,groups))
    (size : after.blockSize = pool.blockSize) (count : after.blockGroupSize = pool.blockGroupSize)
    (result : after.blockGroups = groups) : Taken pool start index after := by
  obtain ⟨front,group,back,split,rfl,flag,_,replaced⟩ :=
    takeFree_split pool.blockGroups start index groups found
  rw [replaced] at result
  obtain ⟨kept,sameStarts⟩ := sound.replace split size count result
  have member : group ∈ pool.blockGroups := by rw [split]; simp
  have inside := (List.getElem?_eq_some_iff.mp flag).1
  have full := sound.flags group member
  have free : ¬ pool.Used group.start index := by
    rw [sound.used_iff member,flag]
    simp
  refine ⟨kept,size,count,?_,by omega,free,?_,Or.inl sameStarts⟩
  · rw [sameStarts]
    exact mem_starts member
  · intro s k
    rw [used_replace pool after front back group index true sound split inside result]
    by_cases here : s = group.start ∧ k = index
    · simp [here]
    · simp [here]

private theorem taken_grown (pool after : MemoryPool) (start : Nat) (sound : pool.Sound)
    (full : takeFree pool.blockGroups = none) (fresh : pool.Fresh start)
    (size : after.blockSize = pool.blockSize) (count : after.blockGroupSize = pool.blockGroupSize)
    (result : after.blockGroups =
      pool.blockGroups ++ [⟨start,(List.replicate pool.blockGroupSize false).set 0 true⟩]) :
    Taken pool start 0 after := by
  have grown : after.starts = pool.starts ++ [start] := by simp [starts,result]
  have absent : start ∉ pool.starts := fun present => (fresh.2 start present).1 rfl
  have used (s k : Nat) : after.Used s k ↔ pool.Used s k ∨ (s = start ∧ k = 0) := by
    unfold Used
    rw [result]
    simp only [List.mem_append,List.mem_singleton,or_and_right,exists_or,exists_eq_left]
    apply or_congr_right
    have positive := sound.positive
    by_cases zero : k = 0
    · subst k
      simp [positive,eq_comm]
    · simp [zero,List.getElem?_set_ne (Ne.symm zero),List.getElem?_replicate]
  have allUsed : ∀ s ∈ pool.starts, ∀ k < pool.blockGroupSize, pool.Used s k := by
    intro s member k bound
    obtain ⟨group,present,rfl⟩ := List.mem_map.mp member
    rw [← sound.flags group present] at bound
    refine ⟨group,present,rfl,?_⟩
    cases value : group.useFlags[k] with
    | true => rw [List.getElem?_eq_getElem bound,value]
    | false => exact absurd (value ▸ List.getElem_mem bound) (takeFree_none _ full group present)
  refine ⟨⟨by rw [count]; exact sound.positive,?_,?_,?_⟩,size,
    count,by simp [grown],sound.positive,?_,used,
    Or.inr ⟨grown,allUsed⟩⟩
  · intro group present
    rw [result,List.mem_append,List.mem_singleton] at present
    rw [count]
    rcases present with old | rfl
    · exact sound.flags group old
    · simp
  · rw [grown,arrayBytes_congr size count]
    intro other present
    rcases List.mem_append.mp present with old | new
    · exact sound.located other old
    · rw [List.mem_singleton.mp new]
      exact fresh.1
  · rw [grown,arrayBytes_congr size count]
    exact sound.separate.append fresh.2
  · rintro ⟨group,present,same,_⟩
    exact absent (same ▸ mem_starts present)

/-- getBlock takes a block that was free, from the pool or from a fresh array. -/
theorem takeBlock_taken (pool after : MemoryPool) (heap rest : List Nat) (start index : Nat)
    (sound : pool.Sound) (fresh : ∀ array ∈ heap.head?, pool.Fresh array)
    (call : pool.takeBlock heap = .ok (start,index,after,rest)) : Taken pool start index after := by
  unfold takeBlock at call
  cases found : takeFree pool.blockGroups with
  | some taken =>
    obtain ⟨s,k,groups⟩ := taken
    rw [found] at call
    cases call
    exact taken_free pool _ start index groups sound found rfl rfl rfl
  | none =>
    rw [found] at call
    cases heap with
    | nil => cases call
    | cons array heap =>
      dsimp only at call
      split at call
      · cases call
      · cases call
        exact taken_grown pool _ start sound found (fresh start (by simp)) rfl rfl rfl

theorem takeBlock_arrays (pool after : MemoryPool) (heap rest : List Nat) (start index : Nat)
    (call : pool.takeBlock heap = .ok (start,index,after,rest)) :
    after.starts ++ rest = pool.starts ++ heap ∧ after.blockSize = pool.blockSize ∧
      after.blockGroupSize = pool.blockGroupSize := by
  unfold takeBlock at call
  cases found : takeFree pool.blockGroups with
  | some taken =>
    obtain ⟨s,k,groups⟩ := taken
    rw [found] at call
    cases call
    obtain ⟨front,group,back,split,_,_,_,result⟩ :=
      takeFree_split pool.blockGroups start index groups found
    exact ⟨by simp [starts,split,result],rfl,rfl⟩
  | none =>
    rw [found] at call
    cases heap with
    | nil => cases call
    | cons array heap =>
      dsimp only at call
      split at call
      · cases call
      · cases call
        exact ⟨by simp [starts,MemoryBlockGroup.create],rfl,rfl⟩

theorem Supplied.fresh {pool : MemoryPool} {heap : List Nat} (supplied : pool.Supplied heap) :
    ∀ array ∈ heap.head?, pool.Fresh array := by
  intro array member
  obtain ⟨rest,rfl⟩ : ∃ rest, heap = array::rest := by
    cases heap with
    | nil => cases member
    | cons head rest => exact ⟨rest,by rw [Option.some.inj member]⟩
  obtain ⟨located,family⟩ := supplied
  refine ⟨located array (by simp),?_⟩
  intro other present
  exact (List.pairwise_append.mp family).2.2 other present array (by simp)

theorem takeBlock_returns (pool : MemoryPool) (heap : List Nat) (sound : pool.Sound) :
    (∃ start index after rest, pool.takeBlock heap = .ok (start,index,after,rest)) ∨
      (heap = [] ∧ pool.takeBlock heap = .error .badAlloc) := by
  unfold takeBlock
  cases found : takeFree pool.blockGroups with
  | some taken =>
    obtain ⟨s,k,groups⟩ := taken
    exact Or.inl ⟨_,_,_,_,rfl⟩
  | none =>
    cases heap with
    | nil => exact Or.inr ⟨rfl,rfl⟩
    | cons array heap =>
      have positive := sound.positive
      refine Or.inl ?_
      simp [MemoryBlockGroup.create,Nat.pos_iff_ne_zero.mp positive]

theorem getBlock_returns (pool : MemoryPool) (sound : pool.Sound) (heap : List Nat) :
    (∃ addr after rest, pool.getBlock heap = .ok (addr,after,rest)) ∨
      (heap = [] ∧ pool.getBlock heap = .error .badAlloc) := by
  rw [getBlock]
  rcases takeBlock_returns pool heap sound with ⟨_,_,after,rest,taken⟩ | ⟨empty,refused⟩
  · rw [taken]
    exact Or.inl ⟨_,after,rest,rfl⟩
  · rw [refused]
    exact Or.inr ⟨empty,rfl⟩

theorem Sound.inGroup_iff {pool : MemoryPool} (sound : pool.Sound) {group : MemoryBlockGroup}
    (member : group ∈ pool.blockGroups) (addr : Nat) :
    pool.inGroup addr group = true ↔ group.start ≤ addr ∧ addr < group.start + pool.arrayBytes := by
  rw [inGroup,offset_of_lt (sound.located _ (mem_starts member)).2]
  simp

/-- The search ends, unless its counter wraps before the last group. -/
theorem lookup_returns (pool : MemoryPool) (addr : Nat) :
    (∃ found i, pool.hasBlockHelp addr = .ok (found,i)) ∨
      (2^32 ≤ pool.blockGroups.length ∧ pool.hasBlockHelp addr = .error .endless) := by
  unfold hasBlockHelp
  split
  · rename_i i found
    have bound := (List.findIdx?_eq_some_iff_getElem.mp found).1
    by_cases reached : i < 2^32
    · exact Or.inl ⟨true,i,if_pos reached⟩
    · exact Or.inr ⟨by omega,if_neg reached⟩
  · by_cases few : pool.blockGroups.length < 2^32
    · exact Or.inl ⟨false,_,if_pos few⟩
    · exact Or.inr ⟨by omega,if_neg few⟩

theorem lookup_found (pool : MemoryPool) (addr i : Nat)
    (call : pool.hasBlockHelp addr = .ok (true,i)) :
    ∃ group, pool.blockGroups[i]? = some group ∧ pool.inGroup addr group = true := by
  unfold hasBlockHelp at call
  split at call
  · rename_i j found
    split at call
    · cases call
      obtain ⟨bound,test,_⟩ := List.findIdx?_eq_some_iff_getElem.mp found
      exact ⟨_,List.getElem?_eq_getElem bound,test⟩
    · cases call
  · split at call <;> cases call

private theorem lookup_missing (pool : MemoryPool) (addr i : Nat)
    (call : pool.hasBlockHelp addr = .ok (false,i)) :
    ∀ group ∈ pool.blockGroups, pool.inGroup addr group = false := by
  unfold hasBlockHelp at call
  split at call
  · split at call <;> cases call
  · rename_i absent
    exact List.findIdx?_eq_none_iff.mp absent

theorem Sound.lookup {pool : MemoryPool} (sound : pool.Sound) {group : MemoryBlockGroup}
    {addr i : Nat} {found : Bool} (member : group ∈ pool.blockGroups)
    (inside : pool.inGroup addr group = true) (call : pool.hasBlockHelp addr = .ok (found,i)) :
    found = true ∧ pool.blockGroups[i]? = some group := by
  cases found with
  | false =>
    rw [lookup_missing pool addr i call group member] at inside
    cases inside
  | true =>
    obtain ⟨other,located,test⟩ := lookup_found pool addr i call
    have present := List.mem_of_getElem? located
    have same := sound.separate.unique (mem_starts present) (mem_starts member)
      ((sound.inGroup_iff present addr).mp test) ((sound.inGroup_iff member addr).mp inside)
    rw [sound.group_unique present member same] at located
    exact ⟨rfl,located⟩

structure Cleared (pool : MemoryPool) (start index : Nat) (after : MemoryPool) : Prop where
  sound : after.Sound
  blockSize : after.blockSize = pool.blockSize
  blockGroupSize : after.blockGroupSize = pool.blockGroupSize
  starts : after.starts = pool.starts
  bound : index < pool.blockGroupSize
  used : ∀ s k, after.Used s k ↔ pool.Used s k ∧ ¬ (s = start ∧ k = index)
  useCounts : after.useCounts = pool.useCounts
  allCounts : after.allCounts = pool.allCounts

private theorem flagIndex_of_le (addr start blockSize : Nat) (after : start ≤ addr)
    (small : addr - start < 2^32) :
    flagIndex addr start blockSize = (addr - start) / blockSize := by
  have difference : (addr : Int) - start = ((addr - start : Nat) : Int) := by omega
  have bound : (addr - start) / blockSize < 2^32 := Nat.lt_of_le_of_lt (Nat.div_le_self _ _) small
  rw [flagIndex,difference,← Int.ofNat_tdiv]
  generalize (addr - start) / blockSize = quotient at *
  omega

/-- Inside the accepted range the quotient is a flag index, even where the product
that bounds the range has wrapped. -/
theorem range_index (pool : MemoryPool) (distance : Nat) (inside : distance < pool.arrayBytes) :
    0 < pool.blockSize ∧ distance / pool.blockSize < pool.blockGroupSize := by
  have bound : distance < pool.blockSize * pool.blockGroupSize :=
    Nat.lt_of_lt_of_le inside (u32_le _)
  have positive : 0 < pool.blockSize := by
    rcases Nat.eq_zero_or_pos pool.blockSize with zero | positive
    · rw [zero] at bound
      omega
    · exact positive
  exact ⟨positive,Nat.div_lt_of_lt_mul bound⟩

/-- The division and the access to the flags that an address in a group leads to, with
and without the narrowing of the quotient. -/
structure Indexed (pool : MemoryPool) (addr : Nat) (group : MemoryBlockGroup) : Prop where
  divisor : 0 < pool.blockSize
  bound : (addr - group.start) / pool.blockSize < group.useFlags.length
  narrowed : flagIndex addr group.start pool.blockSize = (addr - group.start) / pool.blockSize

theorem Sound.indexed {pool : MemoryPool} (sound : pool.Sound) {group : MemoryBlockGroup}
    (member : group ∈ pool.blockGroups) {addr : Nat} (inside : pool.inGroup addr group = true) :
    Indexed pool addr group := by
  obtain ⟨low,high⟩ := (sound.inGroup_iff member addr).mp inside
  have distance : addr - group.start < pool.arrayBytes := by omega
  obtain ⟨positive,bound⟩ := range_index pool _ distance
  rw [← sound.flags group member] at bound
  exact ⟨positive,bound,flagIndex_of_le _ _ _ low (Nat.lt_trans distance (u32_lt _))⟩

theorem clearFlag_clears (pool : MemoryPool) (addr i : Nat) (group : MemoryBlockGroup)
    (sound : pool.Sound) (located : pool.blockGroups[i]? = some group)
    (inside : pool.inGroup addr group = true) :
    ∃ after, pool.clearFlag addr i = .ok after ∧
      Cleared pool group.start ((addr - group.start) / pool.blockSize) after := by
  have member := List.mem_of_getElem? located
  obtain ⟨positive,bound,narrowed⟩ := sound.indexed member inside
  have full := sound.flags group member
  let index := (addr - group.start) / pool.blockSize
  let after : MemoryPool :=
    { pool with
      blockGroups := pool.blockGroups.set i
        { group with useFlags := group.useFlags.set index false } }
  have returned : pool.clearFlag addr i = .ok after := by
    simp only [clearFlag,located,Nat.pos_iff_ne_zero.mp positive,narrowed,bound,if_true,
      if_false,after,index]
  obtain ⟨front,back,split,size⟩ := split_at pool.blockGroups i group located
  subst size
  have result : after.blockGroups = front ++
      { group with useFlags := group.useFlags.set index false }::back := by
    simp [after,split]
  obtain ⟨kept,sameStarts⟩ := sound.replace
    split (show after.blockSize = pool.blockSize from rfl) rfl result
  refine ⟨after,returned,⟨kept,rfl,rfl,sameStarts,by rwa [full] at bound,?_,rfl,rfl⟩⟩
  intro s k
  rw [used_replace pool after front back group index false sound split bound result]
  by_cases here : s = group.start ∧ k = index
  · simp [here,index]
  · simp [here,index]

theorem Sound.decrement {pool : MemoryPool} (sound : pool.Sound) : pool.decrement.Sound where
  positive := sound.positive
  flags := sound.flags
  located := sound.located
  separate := sound.separate

theorem backBlock_returns {pool : MemoryPool} (sound : pool.Sound) (addr : Nat) :
    (∃ after, pool.backBlock addr = .ok after) ∨
      (2^32 ≤ pool.blockGroups.length ∧ pool.backBlock addr = .error .endless) := by
  unfold backBlock
  rcases lookup_returns pool addr with ⟨found,i,lookup⟩ | ⟨many,endless⟩
  · rw [lookup]
    cases found with
    | false => exact Or.inl ⟨pool,rfl⟩
    | true =>
      obtain ⟨group,located,inside⟩ := lookup_found pool addr i lookup
      obtain ⟨after,returned,_⟩ := clearFlag_clears pool.decrement addr i group sound.decrement
        located inside
      exact Or.inl ⟨after,returned⟩
  · rw [endless]
    exact Or.inr ⟨many,rfl⟩

theorem backBlock_effect (pool after : MemoryPool) (addr : Nat) (sound : pool.Sound)
    (call : pool.backBlock addr = .ok after) :
    (∃ group ∈ pool.blockGroups, pool.inGroup addr group = true ∧
      Cleared pool.decrement group.start ((addr - group.start) / pool.blockSize) after) ∨
    (after = pool ∧ ∀ group ∈ pool.blockGroups, pool.inGroup addr group = false) := by
  obtain ⟨⟨found,i⟩,lookup,rest⟩ := bind_success call
  cases found with
  | false =>
    cases rest
    exact Or.inr ⟨rfl,lookup_missing pool addr i lookup⟩
  | true =>
    obtain ⟨group,located,inside⟩ := lookup_found pool addr i lookup
    obtain ⟨result,returned,cleared⟩ :=
      clearFlag_clears pool.decrement addr i group sound.decrement located inside
    simp only [if_true] at rest
    rw [returned] at rest
    cases rest
    exact Or.inl ⟨group,List.mem_of_getElem? located,inside,cleared⟩

structure Recovered (pool after : MemoryPool) : Prop where
  sound : after.Sound
  blockSize : after.blockSize = pool.blockSize
  blockGroupSize : after.blockGroupSize = pool.blockGroupSize
  groups : after.blockGroups.Perm (pool.blockGroups.filter MemoryBlockGroup.hasUsed)
  stable : ∀ i group, i < (pool.blockGroups.filter MemoryBlockGroup.hasUsed).length →
    pool.blockGroups[i]? = some group → group.hasUsed = true → after.blockGroups[i]? = some group
  used : ∀ s k, after.Used s k ↔ pool.Used s k
  useCounts : after.useCounts = pool.useCounts

theorem hasUsed_iff (group : MemoryBlockGroup) :
    group.hasUsed = true ↔ ∃ k : Nat, group.useFlags[k]? = some true := by
  unfold MemoryBlockGroup.hasUsed
  rw [decide_eq_true_iff,List.idxOf_lt_length_iff,List.mem_iff_getElem?]

private theorem not_hasUsed (group : MemoryBlockGroup) :
    group.hasUsed = false ↔ group.useFlags.idxOf true = group.useFlags.length := by
  have within : group.useFlags.idxOf true ≤ group.useFlags.length := List.idxOf_le_length
  rw [MemoryBlockGroup.hasUsed,decide_eq_false_iff_not]
  omega

section
variable {pool : MemoryPool} {group : MemoryBlockGroup} {i : Nat} (fuel : Nat)
  (located : pool.blockGroups[i]? = some group)
include located

theorem recoveryLoop_unused (unused : group.hasUsed = false) :
    recoveryLoop (fuel + 1) i pool = recoveryLoop fuel i
      { pool with
        blockGroups := swapRemove pool.blockGroups i,
        allCounts := u32 (pool.allCounts + (2^32 - pool.blockGroupSize)) } := by
  rw [recoveryLoop,located]
  dsimp only
  rw [if_pos ((not_hasUsed group).mp unused)]

theorem recoveryLoop_used (used : group.hasUsed = true) :
    recoveryLoop (fuel + 1) i pool = if i + 1 = 2^31 then .error .signedOverflow else recoveryLoop
      fuel (i+1) pool := by
  have present : group.useFlags.idxOf true ≠ group.useFlags.length := by
    intro absent
    rw [(not_hasUsed group).mpr absent] at used
    cases used
  rw [recoveryLoop,located]
  dsimp only
  rw [if_neg present]

end

/-- The loop of recovery is the general sweep over the groups with a used block. -/
theorem recoveryLoop_sweep (fuel i : Nat) (pool after : MemoryPool)
    (call : recoveryLoop fuel i pool = .ok after) :
    after.blockGroups = sweep MemoryBlockGroup.hasUsed fuel i pool.blockGroups ∧
      after.blockSize = pool.blockSize ∧ after.blockGroupSize = pool.blockGroupSize ∧
      after.useCounts = pool.useCounts := by
  induction fuel generalizing i pool with
  | zero =>
    cases call
    exact ⟨rfl,rfl,rfl,rfl⟩
  | succ fuel ih =>
    cases located : pool.blockGroups[i]? with
    | none =>
      rw [recoveryLoop,located] at call
      cases call
      simp [sweep,located]
    | some group =>
      cases kind : group.hasUsed with
      | false =>
        rw [recoveryLoop_unused fuel located kind] at call
        rw [sweep_remove MemoryBlockGroup.hasUsed fuel located kind]
        exact ih i _ call
      | true =>
        rw [recoveryLoop_used fuel located kind] at call
        rw [sweep_keep MemoryBlockGroup.hasUsed fuel located kind]
        split at call
        · cases call
        · exact ih (i+1) pool call

theorem recovery_recovered (pool after : MemoryPool) (sound : pool.Sound)
    (call : pool.recovery = .ok after) :
    Recovered pool after := by
  obtain ⟨swept,size,count,uses⟩ := recoveryLoop_sweep _ _ _ _ call
  have perm : after.blockGroups.Perm (pool.blockGroups.filter MemoryBlockGroup.hasUsed) := by
    rw [swept]
    exact sweep_perm _ _
  have kept {group : MemoryBlockGroup} : group ∈ after.blockGroups ↔
      group ∈ pool.blockGroups ∧ group.hasUsed = true := by
    rw [perm.mem_iff,List.mem_filter]
  have family : Family pool.arrayBytes after.starts := by
    have sublist : ((pool.blockGroups.filter MemoryBlockGroup.hasUsed).map (·.start)).Sublist
        pool.starts :=
      List.filter_sublist.map _
    exact (sound.separate.sublist sublist).perm (perm.map _).symm
  refine ⟨⟨by rw [count]; exact sound.positive,?_,?_,?_⟩,size,count,perm,?_,?_,uses⟩
  · intro group member
    rw [count]
    exact sound.flags group (kept.mp member).1
  · rw [arrayBytes_congr size count]
    intro start member
    obtain ⟨group,present,rfl⟩ := List.mem_map.mp member
    exact sound.located _ (mem_starts (kept.mp present).1)
  · rw [arrayBytes_congr size count]
    exact family
  · intro i group bound located passes
    rw [swept]
    exact sweep_stable _ _ i group bound located passes
  · intro s k
    constructor
    · rintro ⟨group,member,same,flag⟩
      exact ⟨group,(kept.mp member).1,same,flag⟩
    · rintro ⟨group,member,same,flag⟩
      exact ⟨group,kept.mpr ⟨member,(hasUsed_iff group).mpr ⟨k,flag⟩⟩,same,flag⟩

theorem Recovered.starts {pool after : MemoryPool} (recovered : Recovered pool after)
    (start : Nat) :
    start ∈ after.starts ↔ ∃ k, pool.Used start k := by
  constructor
  · intro member
    obtain ⟨group,present,rfl⟩ := List.mem_map.mp member
    obtain ⟨old,used⟩ := List.mem_filter.mp (recovered.groups.mem_iff.mp present)
    obtain ⟨k,flag⟩ := (hasUsed_iff group).mp used
    exact ⟨k,group,old,rfl,flag⟩
  · rintro ⟨k,used⟩
    exact (recovered.sound.used_index ((recovered.used start k).mpr used)).1

structure Initial (blockSize blockGroupSize : Nat) (pool : MemoryPool) : Prop where
  sound : pool.Sound
  blockSize : pool.blockSize = blockSize
  blockGroupSize : pool.blockGroupSize = blockGroupSize
  unused : ∀ s k, ¬ pool.Used s k

private theorem emplaceGroups_arrays (n : Nat) (heap rest : List Nat) (pool after : MemoryPool)
    (call : emplaceGroups n heap pool = .ok (after,rest)) :
    after.starts ++ rest = pool.starts ++ heap ∧ after.blockSize = pool.blockSize ∧
      after.blockGroupSize = pool.blockGroupSize := by
  induction n generalizing heap pool with
  | zero =>
    cases call
    exact ⟨rfl,rfl,rfl⟩
  | succ n ih =>
    cases heap with
    | nil => cases call
    | cons start heap =>
      obtain ⟨arrays,size,count⟩ := ih heap _ call
      refine ⟨?_,size,count⟩
      rw [arrays]
      simp [starts,MemoryBlockGroup.create]

theorem create_arrays {blockCount blockSize blockGroupSize : Nat} {heap rest : List Nat}
    {pool : MemoryPool} (call : create blockCount blockSize blockGroupSize heap = .ok (pool,rest)) :
    pool.starts ++ rest = heap ∧ pool.blockSize = blockSize ∧
      pool.blockGroupSize = blockGroupSize := by
  unfold create at call
  split at call
  · cases call
  · dsimp only at call
    split at call
    · cases call
    · exact emplaceGroups_arrays _ heap rest _ pool call

private theorem emplaceGroups_initial (blockSize blockGroupSize n : Nat) (heap rest : List Nat)
    (pool after : MemoryPool) (initial : Initial blockSize blockGroupSize pool)
    (arrays : HeapArrays pool.arrayBytes (pool.starts ++ heap))
    (call : emplaceGroups n heap pool = .ok (after,rest)) :
    Initial blockSize blockGroupSize after := by
  induction n generalizing heap pool with
  | zero =>
    cases call
    exact initial
  | succ n ih =>
    cases heap with
    | nil => cases call
    | cons start heap =>
      have grown : (pool.starts ++ [start]) ++ heap = pool.starts ++ start::heap := by simp
      rw [← grown] at arrays
      obtain ⟨located,family⟩ := arrays
      let next : MemoryPool :=
        { pool with blockGroups := pool.blockGroups ++
          [MemoryBlockGroup.create pool.blockGroupSize start] }
      have sameStarts : next.starts = pool.starts ++ [start] := by
        simp [next,starts,MemoryBlockGroup.create]
      have sameBytes : next.arrayBytes = pool.arrayBytes := rfl
      refine ih heap next ⟨⟨initial.sound.positive,?_,?_,?_⟩,initial.blockSize,
        initial.blockGroupSize,?_⟩ ?_ call
      · intro group member
        rcases List.mem_append.mp member with old | new
        · exact initial.sound.flags group old
        · rw [List.mem_singleton.mp new]
          simp [MemoryBlockGroup.create,next]
      · rw [sameStarts,sameBytes]
        exact fun s member => located s (List.mem_append_left _ member)
      · rw [sameStarts,sameBytes]
        exact family.sublist (List.sublist_append_left _ _)
      · rintro s k ⟨group,member,same,flag⟩
        rcases List.mem_append.mp member with old | new
        · exact initial.unused s k ⟨group,old,same,flag⟩
        · rw [List.mem_singleton.mp new] at flag
          have value := List.mem_of_getElem? flag
          simp [MemoryBlockGroup.create] at value
      · rw [sameStarts,sameBytes]
        exact ⟨located,family⟩

theorem create_initial (blockCount blockSize blockGroupSize : Nat) (heap rest : List Nat)
    (pool : MemoryPool) (arrays : HeapArrays (u32 (blockSize * blockGroupSize)) heap)
    (call : create blockCount blockSize blockGroupSize heap = .ok (pool,rest)) :
    Initial blockSize blockGroupSize pool := by
  unfold create at call
  split at call
  · cases call
  · rename_i positive
    dsimp only at call
    split at call
    · cases call
    · refine emplaceGroups_initial blockSize blockGroupSize _ heap rest _ pool
        ⟨⟨Nat.pos_of_ne_zero positive,by simp,by simp [starts],by simp [starts,Family]⟩,rfl,
          rfl,?_⟩ ?_ call
      · simp [Used]
      · simpa [starts,arrayBytes] using arrays

end MCoroutine.MemoryPool
