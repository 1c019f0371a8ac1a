import MCoroutine.MemoryRecovery
import MCoroutine.MemoryRuns

/-! usedBlockHelp and hasBlock against the history of a run, in which the arrays that
the heap hands to the pool and takes back are recorded as well. -/
namespace MCoroutine.MemoryQueries
open General.Runs General.Ranges MemoryPool MemoryRecovery MemoryRuns

inductive Event
  | getBlock (addr : Nat) (allocated : List Nat)
  | backBlock (addr : Nat)
  | recovery (released : List Nat)
  deriving DecidableEq, Repr

def Event.plain : Event → MemoryRuns.Event
  | .getBlock addr _ => .getBlock addr
  | .backBlock addr => .backBlock addr
  | .recovery _ => .recovery

inductive Step : MemoryPool → Event → MemoryPool → Prop
  | getBlock (pool after : MemoryPool) (allocated rest : List Nat) (addr : Nat)
      (fresh : ∀ array ∈ (allocated ++ rest).head?, pool.Fresh array)
      (call : pool.getBlock (allocated ++ rest) = .ok (addr,after,rest)) :
        Step pool (.getBlock addr allocated) after
  | backBlock (pool after : MemoryPool) (addr : Nat)
      (call : pool.backBlock addr = .ok after) : Step pool (.backBlock addr) after
  | recovery (pool after : MemoryPool) (call : pool.recovery = .ok after) :
      Step pool (.recovery ((releasedGroups pool).map (·.start))) after

def Constructed (arrays : List Nat) (blockCount blockSize blockGroupSize : Nat)
    (pool : MemoryPool) : Prop :=
  ∃ rest, HeapArrays (u32 (blockSize * blockGroupSize)) (arrays ++ rest) ∧
    create blockCount blockSize blockGroupSize (arrays ++ rest) = .ok (pool,rest)

abbrev Reached (arrays : List Nat) (blockCount blockSize blockGroupSize : Nat)
    (history : List Event) (pool : MemoryPool) : Prop :=
  Run (Constructed arrays blockCount blockSize blockGroupSize) (fun _ _ _ => True) Step history pool

/-- An array is live from its allocation to the recovery that releases it. -/
def Live (arrays : List Nat) : List Event → Nat → Prop
  | [],start => start ∈ arrays
  | .getBlock _ allocated::past,start => start ∈ allocated ∨ Live arrays past start
  | .recovery released::past,start => Live arrays past start ∧ start ∉ released
  | .backBlock _::past,start => Live arrays past start

private theorem step_plain {pool after : MemoryPool} {event : Event}
    (step : Step pool event after) :
    MemoryRuns.Step pool event.plain after := by
  cases step with
  | getBlock _ allocated rest addr fresh call => exact .getBlock pool after _ rest addr fresh call
  | backBlock _ addr call => exact .backBlock pool after addr call
  | recovery _ call => exact .recovery pool after call

section
variable {arrays : List Nat} {blockCount blockSize blockGroupSize : Nat} {history : List Event}
  {pool : MemoryPool}

theorem reached_plain (run : Reached arrays blockCount blockSize blockGroupSize history pool) :
    MemoryRuns.Reached blockCount blockSize blockGroupSize (history.map Event.plain) pool := by
  induction run with
  | start pool ready =>
    obtain ⟨rest,separate,call⟩ := ready
    exact .start pool ⟨_,rest,separate,call⟩
  | next past before event after _ _ step ih => exact .next _ before event.plain after ih trivial (step_plain step)

private theorem released_starts {after : MemoryPool} (sound : pool.Sound)
    (call : pool.recovery = .ok after) (start : Nat) :
    start ∈ after.starts ↔ start ∈ pool.starts ∧ start ∉ (releasedGroups pool).map (·.start) := by
  have perm := (recovery_conserves pool after call).map (·.start)
  rw [List.map_append] at perm
  have apart := (List.nodup_append.mp (perm.nodup_iff.mpr sound.separate.nodup)).2.2
  have member : start ∈ pool.starts ↔ start ∈ after.starts ∨
      start ∈ (releasedGroups pool).map (·.start) :=
    perm.mem_iff.symm.trans List.mem_append
  rw [member]
  constructor
  · exact fun here => ⟨Or.inl here,fun gone => apart start here start gone rfl⟩
  · exact fun both => both.1.resolve_right both.2

private theorem reached_live (run : Reached arrays blockCount blockSize blockGroupSize history pool)
    (start : Nat) :
    start ∈ pool.starts ↔ Live arrays history start := by
  refine run.invariant (fun history pool => start ∈ pool.starts ↔ Live arrays history start) ?_ ?_
  · rintro pool ⟨rest,_,call⟩
    rw [List.append_cancel_right (create_arrays call).1,Live]
  · intro past before event after reached live _ step
    have sound := (reached_sound (reached_plain reached)).1
    cases step with
    | getBlock _ allocated rest addr _ call =>
      obtain ⟨⟨array,index,next,tail⟩,taken,result⟩ := bind_success call
      cases result
      have kept := (takeBlock_arrays before after _ rest array index taken).1
      rw [← List.append_assoc] at kept
      rw [List.append_cancel_right kept,List.mem_append,live,Live,or_comm]
    | backBlock _ addr call =>
      rw [Live,← live]
      rcases backBlock_effect before after addr sound call with ⟨_,_,_,cleared⟩ | ⟨same,_⟩
      · rw [cleared.starts]
        rfl
      · rw [same]
    | recovery _ call => rw [released_starts sound call,live,Live]

end

def usedIn (pool : MemoryPool) (addr : Nat) (group : MemoryBlockGroup) : Bool :=
  pool.inGroup addr group && group.useFlags[(addr - group.start) / pool.blockSize]? == some true

/-- One iteration of usedBlockHelp. -/
def probe (pool : MemoryPool) (addr : Nat) (found : Bool) (group : MemoryBlockGroup) :
    Except Failure Bool :=
  if found then .ok true
  else if pool.inGroup addr group then
    if pool.blockSize = 0 then .error .divisionByZero
    else
      match group.useFlags[(addr - group.start) / pool.blockSize]? with
      | none => .error .outOfRange
      | some flag => .ok flag
  else .ok false

private theorem probe_returns {pool : MemoryPool} (sound : pool.Sound) {group : MemoryBlockGroup}
    (member : group ∈ pool.blockGroups) (addr : Nat) (found : Bool) :
    probe pool addr found group = .ok (found || usedIn pool addr group) := by
  cases found with
  | true => rfl
  | false =>
    cases inside : pool.inGroup addr group with
    | false => simp [probe,usedIn,inside]
    | true =>
      obtain ⟨positive,bound,_⟩ := sound.indexed member inside
      simp [probe,usedIn,inside,Nat.pos_iff_ne_zero.mp positive,List.getElem?_eq_getElem bound]

theorem usedBlockHelp_any {pool : MemoryPool} (sound : pool.Sound) (addr : Nat) :
    pool.usedBlockHelp addr = .ok (pool.blockGroups.any (usedIn pool addr)) := by
  have scan (groups : List MemoryBlockGroup) (listed : ∀ group ∈ groups, group ∈ pool.blockGroups)
    (found : Bool) :
      groups.foldlM (probe pool addr) found = .ok (found || groups.any (usedIn pool addr)) := by
    induction groups generalizing found with
    | nil =>
      rw [List.any_nil,Bool.or_false]
      rfl
    | cons group rest ih =>
      have later := ih fun other present => listed other (List.mem_cons_of_mem _ present)
      rw [List.foldlM_cons,probe_returns sound (listed group List.mem_cons_self),List.any_cons,
        ← Bool.or_assoc]
      exact later _
  exact scan pool.blockGroups (fun _ member => member) false

private theorem usedIn_any {pool : MemoryPool} (sound : pool.Sound) (addr : Nat) :
    pool.blockGroups.any (usedIn pool addr) = true ↔
      ∃ group ∈ pool.blockGroups, pool.inGroup addr group = true ∧
      pool.Used group.start ((addr - group.start) / pool.blockSize) := by
  rw [List.any_eq_true]
  refine exists_congr fun group => and_congr_right fun member => ?_
  rw [usedIn,Bool.and_eq_true,sound.used_iff member,beq_iff_eq]

/-- The counter of the search reaches a group around the address or the end of the
groups before it wraps. -/
def Searchable (pool : MemoryPool) (addr : Nat) : Prop :=
  pool.blockGroups.length < 2^32 ∨
    ∃ i group, i < 2^32 ∧ pool.blockGroups[i]? = some group ∧ pool.inGroup addr group = true

private theorem hasBlock_returns {pool : MemoryPool} {addr : Nat}
    (searchable : Searchable pool addr) :
    ∃ found, pool.hasBlock addr = .ok found ∧
      (found = true ↔ ∃ group ∈ pool.blockGroups, pool.inGroup addr group = true) := by
  rw [hasBlock,hasBlockHelp]
  cases search : pool.blockGroups.findIdx? (pool.inGroup addr) with
  | none =>
    have outside := List.findIdx?_eq_none_iff.mp search
    have few : pool.blockGroups.length < 2^32 := by
      rcases searchable with few | ⟨i,group,_,located,inside⟩
      · exact few
      · rw [outside group (List.mem_of_getElem? located)] at inside
        cases inside
    dsimp only
    rw [if_pos few]
    refine ⟨false,rfl,nofun,?_⟩
    rintro ⟨group,member,inside⟩
    rw [outside group member] at inside
    cases inside
  | some j =>
    obtain ⟨bound,test,first⟩ := List.findIdx?_eq_some_iff_getElem.mp search
    have early : j < 2^32 := by
      rcases searchable with few | ⟨i,group,small,located,inside⟩
      · omega
      · by_contra late
        obtain ⟨present,rfl⟩ := List.getElem?_eq_some_iff.mp located
        exact first i (by omega) inside
    dsimp only
    rw [if_pos early]
    exact ⟨true,rfl,fun _ => ⟨_,List.getElem_mem bound,test⟩,fun _ => rfl⟩

private theorem returns_searchable {pool : MemoryPool} {addr : Nat} {found : Bool}
    (call : pool.hasBlock addr = .ok found) :
    Searchable pool addr := by
  rw [hasBlock,hasBlockHelp] at call
  cases search : pool.blockGroups.findIdx? (pool.inGroup addr) with
  | none =>
    rw [search] at call
    dsimp only at call
    split at call
    · rename_i few
      exact Or.inl few
    · cases call
  | some j =>
    rw [search] at call
    obtain ⟨bound,test,_⟩ := List.findIdx?_eq_some_iff_getElem.mp search
    dsimp only at call
    split at call
    · rename_i early
      exact Or.inr ⟨j,_,early,List.getElem?_eq_getElem bound,test⟩
    · cases call

private theorem null_outside {pool : MemoryPool} (sound : pool.Sound) (group : MemoryBlockGroup)
    (member : group ∈ pool.blockGroups) : pool.inGroup 0 group = false := by
  have located := (sound.located group.start (mem_starts member)).1
  rw [inGroup,decide_eq_false (by omega),Bool.false_and]

def Answers (arrays : List Nat) (blockSize blockGroupSize : Nat) (history : List Event)
    (pool : MemoryPool) (addr : Nat) :
    Prop :=
  (∃ used, pool.usedBlockHelp addr = .ok used ∧
    (used = true ↔ InHeld blockSize (history.map Event.plain) addr)) ∧
  (∃ found, pool.hasBlock addr = .ok found ∧
    (found = true ↔ ∃ start, Live arrays history start ∧ start ≤ addr ∧
      addr < start + blockSize * blockGroupSize)) ∧
  (pool.usedBlockHelp addr = .ok true → pool.hasBlock addr = .ok true)

section
variable {arrays : List Nat} {blockCount blockSize blockGroupSize : Nat} {history : List Event}
  {pool : MemoryPool}

private theorem used_answers (positive : 1 ≤ blockSize) (small : blockSize * blockGroupSize < 2^32)
    (run : Reached arrays blockCount blockSize blockGroupSize history pool) (addr : Nat) :
    ∃ used, pool.usedBlockHelp addr = .ok used ∧
      (used = true ↔ InHeld blockSize (history.map Event.plain) addr) := by
  have tracked := reached_tracked positive small (reached_plain run)
  refine ⟨_,usedBlockHelp_any tracked.sound addr,?_⟩
  rw [usedIn_any tracked.sound,tracked.inHeld_iff (tracked.fits positive small),tracked.size]

private theorem inGroup_live (positive : 1 ≤ blockSize) (small : blockSize * blockGroupSize < 2^32)
    (run : Reached arrays blockCount blockSize blockGroupSize history pool) (addr : Nat) :
    (∃ group ∈ pool.blockGroups, pool.inGroup addr group = true) ↔
      ∃ start, Live arrays history start ∧ start ≤ addr ∧
        addr < start + blockSize * blockGroupSize := by
  have tracked := reached_tracked positive small (reached_plain run)
  have bytes := arrayBytes_fits (tracked.fits positive small)
  rw [tracked.size,tracked.count] at bytes
  constructor
  · rintro ⟨group,member,inside⟩
    have range := (tracked.sound.inGroup_iff member addr).mp inside
    rw [bytes] at range
    exact ⟨group.start,(reached_live run group.start).mp (mem_starts member),range⟩
  · rintro ⟨start,live,range⟩
    obtain ⟨group,member,rfl⟩ := List.mem_map.mp ((reached_live run start).mpr live)
    rw [← bytes] at range
    exact ⟨group,member,(tracked.sound.inGroup_iff member addr).mpr range⟩

private theorem searchable_answers (positive : 1 ≤ blockSize)
    (small : blockSize * blockGroupSize < 2^32)
    (run : Reached arrays blockCount blockSize blockGroupSize history pool) {addr : Nat}
    (searchable : Searchable pool addr) :
    Answers arrays blockSize blockGroupSize history pool addr := by
  have tracked := reached_tracked positive small (reached_plain run)
  obtain ⟨found,returned,exact⟩ := hasBlock_returns searchable
  refine ⟨used_answers positive small run addr,⟨found,returned,?_⟩,?_⟩
  · rw [exact,inGroup_live positive small run]
  · intro used
    rw [usedBlockHelp_any tracked.sound] at used
    obtain ⟨group,member,inside,_⟩ := (usedIn_any tracked.sound addr).mp (Except.ok.inj used)
    rw [returned,exact.mpr ⟨group,member,inside⟩]

end

/-- usedBlockHelp always answers as the history says, and both queries do for an address
exactly when the counter of the lookup reaches the group around it, or the last group. -/
theorem queries_agree_iff (arrays : List Nat) (blockCount blockSize blockGroupSize : Nat)
    (positive : 1 ≤ blockSize) (small : blockSize * blockGroupSize < 2^32) (history : List Event)
    (pool : MemoryPool) (run : Reached arrays blockCount blockSize blockGroupSize history pool)
    (addr : Nat) :
    (∃ used, pool.usedBlockHelp addr = .ok used ∧
      (used = true ↔ InHeld blockSize (history.map Event.plain) addr)) ∧
    (Answers arrays blockSize blockGroupSize history pool addr ↔ Searchable pool addr) := by
  refine ⟨used_answers positive small run addr,?_,searchable_answers positive small run⟩
  rintro ⟨_,⟨found,returned,_⟩,_⟩
  exact returns_searchable returned

theorem queries_agree_pair :
    pairPool.blockGroups.length < 2^32 ∧ Answers [4096] 16 2 [.getBlock 4096 []] pairPool 4100 ∧
      pairPool.usedBlockHelp 4100 = .ok true := by
  have constructed : Constructed [4096] 0 16 2
      { pairPool with useCounts := 0, blockGroups := [⟨4096,[false,false]⟩] } :=
    ⟨[],heapArrays_single (by decide),rfl⟩
  have run : Reached [4096] 0 16 2 [.getBlock 4096 []] pairPool :=
    .next [] _ _ _ (.start _ constructed) trivial (Step.getBlock _ _ [] [] 4096 (by simp) rfl)
  have few : pairPool.blockGroups.length < 2^32 := by decide
  exact ⟨few,(queries_agree_iff [4096] 0 16 2 (by decide) (by decide) _ _ run 4100).2.mpr
    (Or.inl few),by decide⟩

theorem takeFree_full (groups : List MemoryBlockGroup)
    (full : ∀ group ∈ groups, false ∉ group.useFlags) :
    takeFree groups = none := by
  induction groups with
  | nil => rfl
  | cons group rest ih =>
    have later := ih fun other member => full other (List.mem_cons_of_mem _ member)
    have absent : ¬ group.useFlags.idxOf false < group.useFlags.length := fun found =>
      full group List.mem_cons_self (List.idxOf_lt_length_iff.mp found)
    simp [takeFree,absent,later]

private theorem crowded_grows (n : Nat) (room : n < 2^33) :
    Step (crowdedPool n) (.getBlock (4096 + n) [4096 + n]) (crowdedPool (n + 1)) := by
  have full : takeFree (crowdedPool n).blockGroups = none := by
    refine takeFree_full _ fun group member => ?_
    obtain ⟨i,_,rfl⟩ := List.mem_map.mp member
    simp
  refine Step.getBlock _ _ [4096 + n] [] _ ?_ ?_
  · intro array member
    obtain rfl : 4096 + n = array := by simpa using member
    refine ⟨⟨by omega,?_⟩,?_⟩
    · change 4096 + n + 1 < 2^64
      omega
    · intro other present
      obtain ⟨group,member,rfl⟩ := List.mem_map.mp present
      obtain ⟨i,below,rfl⟩ := List.mem_map.mp member
      have before := List.mem_range.mp below
      refine ⟨?_,Or.inl ?_⟩
      · dsimp only
        omega
      · change 4096 + i + 1 ≤ 4096 + n
        omega
  · have counts : u32 (u32 n + 1) = u32 (n + 1) := by
      unfold u32
      omega
    have taken : (crowdedPool n).takeBlock [4096 + n] = .ok
        (4096 + n,0,crowdedPool (n + 1),[]) := by
      unfold takeBlock
      rw [full]
      simp [crowdedPool,MemoryBlockGroup.create,counts,List.range_succ]
    have address : offset (4096 + n) (0 * (crowdedPool n).blockSize) = 4096 + n := by
      rw [Nat.zero_mul]
      exact offset_of_lt (by omega)
    rw [List.append_nil,getBlock,taken]
    change Except.ok (offset (4096 + n) (0 * (crowdedPool n).blockSize),_,_) = _
    rw [address]

private theorem crowded_reached (n : Nat) (room : n < 2^33) :
    ∃ history, Reached [4096] 0 1 1 history (crowdedPool (n + 1)) := by
  induction n with
  | zero =>
    have constructed : Constructed [4096] 0 1 1 ⟨1,0,[⟨4096,[false]⟩],1,1⟩ :=
      ⟨[],heapArrays_single (by decide),rfl⟩
    exact ⟨_,.next [] _ _ _ (.start _ constructed) trivial
      (Step.getBlock _ _ [] [] 4096 (by simp) rfl)⟩
  | succ n ih =>
    obtain ⟨history,run⟩ := ih (by omega)
    exact ⟨_,.next history _ _ _ run trivial (crowded_grows (n + 1) room)⟩

theorem lookup_endless :
    ∃ history, Reached [4096] 0 1 1 history (crowdedPool (2^32)) ∧ (crowdedPool (2^32)).hasBlock 0 =
      .error .endless ∧
      ¬ Answers [4096] 1 1 history (crowdedPool (2^32)) 0 := by
  obtain ⟨history,run⟩ := crowded_reached (2^32 - 1) (by omega)
  have many : (crowdedPool (2^32)).blockGroups.length = 2^32 := by simp [crowdedPool]
  have sound : (crowdedPool (2^32)).Sound := (reached_sound (reached_plain run)).1
  have unsearchable : ¬ Searchable (crowdedPool (2^32)) 0 := by
    rintro (few | ⟨i,group,_,located,inside⟩)
    · omega
    · rw [null_outside sound group (List.mem_of_getElem? located)] at inside
      cases inside
  refine ⟨history,run,?_,?_⟩
  · rcases lookup_returns (crowdedPool (2^32)) 0 with ⟨found,i,lookup⟩ | ⟨_,endless⟩
    · have call : (crowdedPool (2^32)).hasBlock 0 = .ok found := by
        rw [hasBlock,lookup]
        rfl
      exact absurd (returns_searchable call) unsearchable
    · rw [hasBlock,endless]
      rfl
  · rintro ⟨_,⟨found,returned,_⟩,_⟩
    exact unsearchable (returns_searchable returned)

end MCoroutine.MemoryQueries
