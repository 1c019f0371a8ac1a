import MCoroutine.General.Runs
import MCoroutine.MemoryEffects

/-! Sequential runs of one memory pool against the history of the addresses that
getBlock returned and backBlock was given. -/
namespace MCoroutine.MemoryRuns
open General.Runs General.Ranges MemoryPool

inductive Event
  | getBlock (addr : Nat)
  | backBlock (addr : Nat)
  | recovery
  deriving DecidableEq, Repr

/-- A call that returns. A recovery over `2^31` used groups overflows its `int` index and is
no step: no run passes through one, and results about runs say nothing of what follows it. -/
inductive Step : MemoryPool → Event → MemoryPool → Prop
  | getBlock (pool after : MemoryPool) (heap rest : List Nat) (addr : Nat)
      (fresh : ∀ array ∈ heap.head?, pool.Fresh array)
      (call : pool.getBlock heap = .ok (addr,after,rest)) : Step pool (.getBlock addr) after
  | backBlock (pool after : MemoryPool) (addr : Nat)
      (call : pool.backBlock addr = .ok after) : Step pool (.backBlock addr) after
  | recovery (pool after : MemoryPool) (call : pool.recovery = .ok after) :
      Step pool .recovery after

def Constructed (blockCount blockSize blockGroupSize : Nat) (pool : MemoryPool) : Prop :=
  ∃ heap rest, HeapArrays (u32 (blockSize * blockGroupSize)) heap ∧
    create blockCount blockSize blockGroupSize heap = .ok (pool,rest)

abbrev Reached (blockCount blockSize blockGroupSize : Nat) (history : List Event)
    (pool : MemoryPool) : Prop :=
  Run (Constructed blockCount blockSize blockGroupSize) (fun _ _ _ => True) Step history pool

/-- From the getBlock that returned it to the first backBlock of an address inside. -/
def Held (blockSize : Nat) : List Event → Nat → Prop
  | [],_ => False
  | .getBlock addr::past,block => block = addr ∨ Held blockSize past block
  | .backBlock addr::past,block => Held blockSize past block ∧
      ¬ (block ≤ addr ∧ addr < block + blockSize)
  | .recovery::past,block => Held blockSize past block

def InHeld (blockSize : Nat) (history : List Event) (addr : Nat) : Prop :=
  ∃ block, Held blockSize history block ∧ block ≤ addr ∧ addr < block + blockSize

theorem step_cases (pool after : MemoryPool) (event : Event) (sound : pool.Sound)
    (step : Step pool event after) :
    (∃ start index, event = .getBlock (offset start (index * pool.blockSize)) ∧
      Taken pool start index after) ∨
    (∃ addr group, event = .backBlock addr ∧ group ∈ pool.blockGroups ∧
      pool.inGroup addr group = true ∧
      Cleared pool.decrement group.start ((addr - group.start) / pool.blockSize) after) ∨
    (∃ addr, event = .backBlock addr ∧ after = pool ∧
      ∀ group ∈ pool.blockGroups, pool.inGroup addr group = false) ∨
    (event = .recovery ∧ Recovered pool after) := by
  cases step with
  | getBlock _ heap rest addr fresh call =>
    obtain ⟨⟨start,index,next,tail⟩,taken,result⟩ := bind_success call
    cases result
    exact Or.inl ⟨start,index,rfl,takeBlock_taken pool after heap rest start index
      sound fresh taken⟩
  | backBlock _ addr call =>
    rcases backBlock_effect pool after addr sound call with
      ⟨group,member,inside,cleared⟩ | ⟨same,outside⟩
    · exact Or.inr (Or.inl ⟨addr,group,rfl,member,inside,cleared⟩)
    · exact Or.inr (Or.inr (Or.inl ⟨addr,rfl,same,outside⟩))
  | recovery _ call => exact Or.inr (Or.inr (Or.inr ⟨rfl,recovery_recovered pool after sound call⟩))

theorem reached_sound {blockCount blockSize blockGroupSize : Nat} {history : List Event}
    {pool : MemoryPool} (run : Reached blockCount blockSize blockGroupSize history pool) :
    pool.Sound ∧ pool.blockSize = blockSize ∧ pool.blockGroupSize = blockGroupSize := by
  refine run.invariant (fun _ pool => pool.Sound ∧ pool.blockSize = blockSize ∧
    pool.blockGroupSize = blockGroupSize) ?_ ?_
  · rintro pool ⟨heap,rest,arrays,call⟩
    have initial := create_initial blockCount blockSize blockGroupSize heap rest pool arrays call
    exact ⟨initial.sound,initial.blockSize,initial.blockGroupSize⟩
  · rintro history before event after _ ⟨sound,size,count⟩ _ step
    rcases step_cases before after event sound step with
      ⟨start,index,_,taken⟩ | ⟨addr,group,_,_,_,cleared⟩ | ⟨addr,_,rfl,_⟩ | ⟨_,recovered⟩
    · exact ⟨taken.sound,taken.blockSize.trans size,taken.blockGroupSize.trans count⟩
    · exact ⟨cleared.sound,cleared.blockSize.trans size,cleared.blockGroupSize.trans count⟩
    · exact ⟨sound,size,count⟩
    · exact ⟨recovered.sound,recovered.blockSize.trans size,recovered.blockGroupSize.trans count⟩

theorem arrayBytes_fits {pool : MemoryPool} (fits : pool.Fits) :
    pool.arrayBytes = pool.blockSize * pool.blockGroupSize :=
  u32_of_lt fits.2

section
variable {pool : MemoryPool} (sound : pool.Sound) (fits : pool.Fits)
include fits

theorem block_inside (start : Nat) {index : Nat} (bound : index < pool.blockGroupSize) :
    start + index * pool.blockSize + pool.blockSize ≤ start + pool.arrayBytes := by
  have room : (index + 1) * pool.blockSize ≤ pool.blockGroupSize * pool.blockSize :=
    Nat.mul_le_mul_right _ bound
  rw [arrayBytes_fits fits,Nat.mul_comm pool.blockSize]
  rw [Nat.add_mul] at room
  omega

include sound

theorem block_address {start index : Nat} (member : start ∈ pool.starts)
    (bound : index < pool.blockGroupSize) :
    offset start (index * pool.blockSize) = start + index * pool.blockSize := by
  have inside := block_inside fits start bound
  have located := (sound.located start member).2
  exact offset_of_lt (by omega)

theorem block_unique {start index other place : Nat} (addr : Nat) (one : start ∈ pool.starts)
    (two : other ∈ pool.starts) (first : index < pool.blockGroupSize)
    (second : place < pool.blockGroupSize)
    (inFirst : start + index * pool.blockSize ≤ addr ∧
      addr < start + index * pool.blockSize + pool.blockSize)
    (inSecond : other + place * pool.blockSize ≤ addr ∧
      addr < other + place * pool.blockSize + pool.blockSize) :
    start = other ∧ index = place := by
  have roomFirst := block_inside fits start first
  have roomSecond := block_inside fits other second
  have same : start = other := sound.separate.unique one two
    (show start ≤ addr ∧ addr < start + pool.arrayBytes by omega) (by omega)
  subst other
  refine ⟨rfl,?_⟩
  have quotient (k : Nat) (inside : start + k * pool.blockSize ≤ addr ∧
      addr < start + k * pool.blockSize + pool.blockSize) :
          (addr - start) / pool.blockSize = k := by
    apply Nat.div_eq_of_lt_le
    · omega
    · rw [Nat.add_mul]
      omega
  rw [← quotient index inFirst,← quotient place inSecond]

theorem blocks_apart {start index other place : Nat} (one : pool.Used start index)
    (two : pool.Used other place) (differ : ¬ (start = other ∧ index = place)) :
    start + index * pool.blockSize + pool.blockSize ≤ other + place * pool.blockSize ∨
      other + place * pool.blockSize + pool.blockSize ≤ start + index * pool.blockSize := by
  obtain ⟨listed,bound⟩ := sound.used_index one
  obtain ⟨there,limit⟩ := sound.used_index two
  by_contra overlap
  have size := fits.1
  exact differ (block_unique sound fits
    (max (start + index * pool.blockSize) (other + place * pool.blockSize))
    listed there bound limit (by omega) (by omega))

private theorem block_around {group : MemoryBlockGroup} {addr : Nat}
    (member : group ∈ pool.blockGroups) (inside : pool.inGroup addr group = true) :
    group.start + (addr - group.start) / pool.blockSize * pool.blockSize ≤ addr ∧
      addr < group.start + (addr - group.start) / pool.blockSize * pool.blockSize +
        pool.blockSize := by
  obtain ⟨low,_⟩ := (sound.inGroup_iff member addr).mp inside
  have split := Nat.div_add_mod (addr - group.start) pool.blockSize
  have rest := Nat.mod_lt (addr - group.start) fits.1
  rw [Nat.mul_comm] at split
  omega

end

theorem taken_address {pool after : MemoryPool} {start index : Nat} (fits : pool.Fits)
    (taken : Taken pool start index after) :
    offset start (index * pool.blockSize) = start + index * pool.blockSize := by
  have fitsAfter : after.Fits := by
    rw [Fits,taken.blockSize,taken.blockGroupSize]
    exact fits
  have bound : index < after.blockGroupSize := by
    rw [taken.blockGroupSize]
    exact taken.bound
  rw [← taken.blockSize]
  exact block_address taken.sound fitsAfter taken.listed bound

/-- The use flags record exactly the blocks held according to the history. -/
structure Tracked (blockSize blockGroupSize : Nat) (history : List Event) (pool : MemoryPool) :
    Prop where
  sound : pool.Sound
  size : pool.blockSize = blockSize
  count : pool.blockGroupSize = blockGroupSize
  held : ∀ block, Held blockSize history block ↔
    ∃ start index, pool.Used start index ∧ block = start + index * blockSize

theorem Tracked.fits {blockSize blockGroupSize : Nat} {past : List Event} {pool : MemoryPool}
    (tracked : Tracked blockSize blockGroupSize past pool) (positive : 0 < blockSize)
    (small : blockSize * blockGroupSize < 2^32) : pool.Fits := by
  rw [Fits,tracked.size,tracked.count]
  exact ⟨positive,small⟩

private theorem Tracked.flagged {blockSize blockGroupSize addr block : Nat} {past : List Event}
    {pool : MemoryPool} (tracked : Tracked blockSize blockGroupSize past pool) (fits : pool.Fits)
    (held : Held blockSize past block) (inside : block ≤ addr ∧ addr < block + blockSize) :
    ∃ group ∈ pool.blockGroups, pool.inGroup addr group = true ∧
      pool.Used group.start ((addr - group.start) / blockSize) ∧
      block = group.start + (addr - group.start) / blockSize * blockSize := by
  obtain ⟨sound,rfl,rfl,exact⟩ := tracked
  obtain ⟨s,k,used,rfl⟩ := (exact block).mp held
  obtain ⟨listed,bound⟩ := sound.used_index used
  obtain ⟨group,member,rfl⟩ := List.mem_map.mp listed
  have room := block_inside fits group.start bound
  have inArray : pool.inGroup addr group = true := by
    rw [sound.inGroup_iff member]
    omega
  have quotient : (addr - group.start) / pool.blockSize = k := by
    apply Nat.div_eq_of_lt_le
    · omega
    · rw [Nat.add_mul]
      omega
  refine ⟨group,member,inArray,?_,?_⟩
  · rw [quotient]
    exact used
  · rw [quotient]

theorem Tracked.one {blockSize blockGroupSize addr block other : Nat} {past : List Event}
    {pool : MemoryPool} (tracked : Tracked blockSize blockGroupSize past pool) (fits : pool.Fits)
    (held : Held blockSize past block) (inside : block ≤ addr ∧ addr < block + blockSize)
    (second : Held blockSize past other) (within : other ≤ addr ∧ addr < other + blockSize) :
    other = block := by
  obtain ⟨group,member,inFirst,_,first⟩ := tracked.flagged fits held inside
  obtain ⟨partner,present,inSecond,_,last⟩ := tracked.flagged fits second within
  have same := tracked.sound.separate.unique (mem_starts present) (mem_starts member)
    ((tracked.sound.inGroup_iff present addr).mp inSecond)
      ((tracked.sound.inGroup_iff member addr).mp inFirst)
  rw [last,first,same]

theorem Tracked.returns {blockSize blockGroupSize addr block : Nat} {past : List Event}
    {pool after : MemoryPool} (tracked : Tracked blockSize blockGroupSize past pool)
    (fits : pool.Fits) (held : Held blockSize past block)
    (inside : block ≤ addr ∧ addr < block + blockSize) (call : pool.backBlock addr = .ok after) :
    ∃ start index, pool.Used start index ∧ block = start + index * blockSize ∧
      Cleared pool.decrement start index after := by
  obtain ⟨group,member,inArray,used,place⟩ := tracked.flagged fits held inside
  rcases backBlock_effect pool after addr tracked.sound call with
    ⟨other,present,inOther,cleared⟩ | ⟨_,outside⟩
  · have same := tracked.sound.separate.unique (mem_starts present) (mem_starts member)
      ((tracked.sound.inGroup_iff present addr).mp inOther)
        ((tracked.sound.inGroup_iff member addr).mp inArray)
    rw [same,tracked.size] at cleared
    exact ⟨_,_,used,place,cleared⟩
  · rw [outside group member] at inArray
    cases inArray

theorem Tracked.inHeld_iff {blockSize blockGroupSize : Nat} {past : List Event} {pool : MemoryPool}
    (tracked : Tracked blockSize blockGroupSize past pool) (fits : pool.Fits) (addr : Nat) :
    InHeld blockSize past addr ↔ ∃ group ∈ pool.blockGroups, pool.inGroup addr group = true ∧
      pool.Used group.start ((addr - group.start) / blockSize) := by
  constructor
  · rintro ⟨block,held,inside⟩
    obtain ⟨group,member,inArray,used,_⟩ := tracked.flagged fits held inside
    exact ⟨group,member,inArray,used⟩
  · rintro ⟨group,member,inArray,used⟩
    have around := block_around tracked.sound fits member inArray
    rw [tracked.size] at around
    exact ⟨_,(tracked.held _).mpr ⟨_,_,used,rfl⟩,around⟩

theorem Tracked.taken {blockSize blockGroupSize start index : Nat} {past : List Event}
    {before after : MemoryPool} (tracked : Tracked blockSize blockGroupSize past before)
    (fits : before.Fits) (taken : Taken before start index after) :
    Tracked blockSize blockGroupSize (.getBlock
      (offset start (index * before.blockSize))::past) after := by
  obtain ⟨sound,rfl,rfl,held⟩ := tracked
  refine ⟨taken.sound,taken.blockSize,taken.blockGroupSize,?_⟩
  intro block
  rw [Held,held,taken_address fits taken]
  simp only [taken.used]
  constructor
  · rintro (rfl | ⟨s,k,used,rfl⟩)
    · exact ⟨start,index,Or.inr ⟨rfl,rfl⟩,rfl⟩
    · exact ⟨s,k,Or.inl used,rfl⟩
  · rintro ⟨s,k,used | ⟨rfl,rfl⟩,rfl⟩
    · exact Or.inr ⟨s,k,used,rfl⟩
    · exact Or.inl rfl

theorem Tracked.cleared {blockSize blockGroupSize addr : Nat} {past : List Event}
    {before after : MemoryPool} {group : MemoryBlockGroup}
    (tracked : Tracked blockSize blockGroupSize past before) (fits : before.Fits)
    (member : group ∈ before.blockGroups) (inside : before.inGroup addr group = true)
    (cleared : Cleared before.decrement group.start
      ((addr - group.start) / before.blockSize) after) :
    Tracked blockSize blockGroupSize (.backBlock addr::past) after := by
  obtain ⟨sound,rfl,rfl,held⟩ := tracked
  refine ⟨cleared.sound,cleared.blockSize,cleared.blockGroupSize,?_⟩
  intro block
  have around := block_around sound fits member inside
  rw [Held,held]
  simp only [cleared.used]
  constructor
  · rintro ⟨⟨s,k,used,rfl⟩,spared⟩
    refine ⟨s,k,⟨used,?_⟩,rfl⟩
    rintro ⟨rfl,rfl⟩
    exact spared around
  · rintro ⟨s,k,⟨used,other⟩,rfl⟩
    refine ⟨⟨s,k,used,rfl⟩,?_⟩
    intro inBlock
    obtain ⟨listed,bound⟩ := sound.used_index used
    exact other (block_unique sound fits addr listed
      (mem_starts member) bound cleared.bound inBlock around)

theorem Tracked.outside {blockSize blockGroupSize addr : Nat} {past : List Event}
    {pool : MemoryPool} (tracked : Tracked blockSize blockGroupSize past pool) (fits : pool.Fits)
    (outside : ∀ group ∈ pool.blockGroups, pool.inGroup addr group = false) :
    Tracked blockSize blockGroupSize (.backBlock addr::past) pool := by
  refine ⟨tracked.sound,tracked.size,tracked.count,?_⟩
  intro block
  rw [Held,← tracked.held,and_iff_left_iff_imp]
  intro held inside
  obtain ⟨group,member,inArray,_⟩ := tracked.flagged fits held inside
  rw [outside group member] at inArray
  cases inArray

theorem Tracked.recovered {blockSize blockGroupSize : Nat} {past : List Event}
    {before after : MemoryPool} (tracked : Tracked blockSize blockGroupSize past before)
    (recovered : Recovered before after) :
    Tracked blockSize blockGroupSize (.recovery::past) after := by
  refine ⟨recovered.sound,recovered.blockSize.trans tracked.size,
    recovered.blockGroupSize.trans tracked.count,?_⟩
  intro block
  rw [Held,tracked.held]
  simp only [recovered.used]

theorem reached_tracked {blockCount blockSize blockGroupSize : Nat} (positive : 0 < blockSize)
    (small : blockSize * blockGroupSize < 2^32) {history : List Event} {pool : MemoryPool}
    (run : Reached blockCount blockSize blockGroupSize history pool) :
    Tracked blockSize blockGroupSize history pool := by
  refine run.invariant (fun history pool => Tracked blockSize blockGroupSize history pool) ?_ ?_
  · rintro pool ⟨heap,rest,arrays,call⟩
    have initial := create_initial blockCount blockSize blockGroupSize heap rest pool arrays call
    refine ⟨initial.sound,initial.blockSize,initial.blockGroupSize,?_⟩
    intro block
    simp [Held,initial.unused]
  · rintro history before event after _ tracked _ step
    have fits := tracked.fits positive small
    rcases step_cases before after event tracked.sound step with
      ⟨start,index,rfl,taken⟩ | ⟨addr,group,rfl,member,inside,cleared⟩ | ⟨addr,rfl,rfl,
        outside⟩ | ⟨rfl,recovered⟩
    · exact tracked.taken fits taken
    · exact tracked.cleared fits member inside cleared
    · exact tracked.outside fits outside
    · exact tracked.recovered recovered

private theorem held_located {blockSize blockGroupSize : Nat} {history : List Event}
    {pool : MemoryPool} {block : Nat} (positive : 0 < blockSize)
    (small : blockSize * blockGroupSize < 2^32)
    (tracked : Tracked blockSize blockGroupSize history pool)
    (held : Held blockSize history block) :
    ∃ start ∈ pool.starts, start ≤ block ∧ block + blockSize ≤ start + blockSize * blockGroupSize ∧
      ∀ event after, Step pool event after → start ∈ after.starts := by
  obtain ⟨sound,rfl,rfl,exact⟩ := tracked
  obtain ⟨start,index,used,rfl⟩ := (exact block).mp held
  have fits : pool.Fits := ⟨positive,small⟩
  obtain ⟨listed,bound⟩ := sound.used_index used
  have room := block_inside fits start bound
  rw [arrayBytes_fits fits] at room
  refine ⟨start,listed,by omega,room,?_⟩
  intro event after step
  rcases step_cases pool after event sound step with
    ⟨_,_,_,taken⟩ | ⟨_,_,_,_,_,cleared⟩ | ⟨_,_,rfl,_⟩ | ⟨_,recovered⟩
  · rcases taken.starts with same | ⟨grown,_⟩
    · rw [same]
      exact listed
    · rw [grown]
      exact List.mem_append_left _ listed
  · rw [cleared.starts]
    exact listed
  · exact listed
  · exact (recovered.starts start).mpr ⟨index,used⟩

/-- What getBlock takes shares no byte with a held block: it would be the same block. -/
theorem Tracked.apart {blockSize blockGroupSize start index : Nat} {past : List Event}
    {before after : MemoryPool} (tracked : Tracked blockSize blockGroupSize past before)
    (fits : before.Fits) (taken : Taken before start index after) :
    offset start (index * before.blockSize) = start + index * blockSize ∧
      ∀ block, Held blockSize past block →
        start + index * blockSize + blockSize ≤ block ∨
          block + blockSize ≤ start + index * blockSize := by
  obtain ⟨sound,rfl,rfl,exact⟩ := tracked
  refine ⟨taken_address fits taken,?_⟩
  intro block held
  have fitsAfter : after.Fits := by
    rw [Fits,taken.blockSize,taken.blockGroupSize]
    exact fits
  obtain ⟨s,k,used,rfl⟩ := (exact block).mp held
  have new := (taken.used start index).mpr (Or.inr ⟨rfl,rfl⟩)
  have differ : ¬ (start = s ∧ index = k) := by
    rintro ⟨rfl,rfl⟩
    exact taken.free used
  rw [← taken.blockSize]
  exact blocks_apart taken.sound fitsAfter new ((taken.used s k).mpr (Or.inl used)) differ

theorem blocks_exclusive (blockCount blockSize blockGroupSize : Nat) (positive : 1 ≤ blockSize)
    (small : blockSize * blockGroupSize < 2^32) (history : List Event) (pool : MemoryPool)
    (run : Reached blockCount blockSize blockGroupSize history pool) :
    (∀ heap, heap ≠ [] → (∀ array ∈ heap.head?, pool.Fresh array) →
      ∃ addr after, Step pool (.getBlock addr) after) ∧
    (∀ addr after, Step pool (.getBlock addr) after →
      ¬ Held blockSize history addr ∧
      (∀ block, Held blockSize history block → addr + blockSize ≤ block ∨
        block + blockSize ≤ addr) ∧
      ∃ start ∈ after.starts, start ≤ addr ∧
        addr + blockSize ≤ start + blockSize * blockGroupSize) ∧
    (∀ block, Held blockSize history block →
      ∃ start ∈ pool.starts, start ≤ block ∧
        block + blockSize ≤ start + blockSize * blockGroupSize ∧
        ∀ event after, Step pool event after → start ∈ after.starts) := by
  have tracked := reached_tracked positive small run
  refine ⟨?_,?_,fun block held => held_located positive small tracked held⟩
  · intro heap supplied fresh
    obtain ⟨addr,after,rest,call⟩ := (getBlock_returns pool tracked.sound heap).resolve_right
      fun none => supplied none.1
    exact ⟨addr,after,Step.getBlock pool after heap rest addr fresh call⟩
  · intro addr after step
    have fits := tracked.fits positive small
    rcases step_cases pool after _ tracked.sound step with
      ⟨start,index,same,taken⟩ | ⟨_,_,impossible,_⟩ | ⟨_,impossible,_⟩ | ⟨impossible,_⟩
    · obtain ⟨address,apart⟩ := tracked.apart fits taken
      obtain rfl : addr = start + index * blockSize := (Event.getBlock.inj same).trans address
      refine ⟨?_,apart,start,taken.listed,by omega,?_⟩
      · intro held
        have overlap := apart _ held
        omega
      · have room := block_inside fits start taken.bound
        rw [arrayBytes_fits fits,tracked.size,tracked.count] at room
        exact room
    · cases impossible
    · cases impossible
    · cases impossible

def pairPool : MemoryPool :=
  { allCounts := 2, useCounts := 1, blockGroups := [⟨4096,[true,false]⟩], blockSize := 16,
    blockGroupSize := 2 }

theorem pairPool_constructed :
    Constructed 0 16 2 { pairPool with useCounts := 0, blockGroups := [⟨4096,[false,false]⟩] } :=
  ⟨[4096],[],heapArrays_single (by decide),rfl⟩

theorem pairPool_reached : Reached 0 16 2 [.getBlock 4096] pairPool :=
  Run.next [] _ _ _ (Run.start _ pairPool_constructed) trivial
    (Step.getBlock _ _ [] [] 4096 (by simp) rfl)

theorem pairPool_fresh :
    ∀ array ∈ [8192].head?, Fresh { pairPool with
      useCounts := 2, blockGroups := [⟨4096,[true,true]⟩] } array := by
  intro array member
  obtain rfl : 8192 = array := by simpa using member
  exact ⟨by decide,by simp [starts,pairPool,Separate,arrayBytes,u32]⟩

theorem blocks_exclusive_pair :
    (∀ heap, heap ≠ [] → (∀ array ∈ heap.head?, pairPool.Fresh array) →
      ∃ addr after, Step pairPool (.getBlock addr) after) ∧
    (∀ addr after, Step pairPool (.getBlock addr) after →
      ¬ Held 16 [.getBlock 4096] addr ∧
      (∀ block, Held 16 [.getBlock 4096] block → addr + 16 ≤ block ∨ block + 16 ≤ addr) ∧
      ∃ start ∈ after.starts, start ≤ addr ∧ addr + 16 ≤ start + 16 * 2) ∧
    (∀ block, Held 16 [.getBlock 4096] block →
      ∃ start ∈ pairPool.starts, start ≤ block ∧ block + 16 ≤ start + 16 * 2 ∧
        ∀ event after, Step pairPool event after → start ∈ after.starts) :=
  blocks_exclusive 0 16 2 (by decide) (by decide) [.getBlock 4096] pairPool pairPool_reached

end MCoroutine.MemoryRuns
