import MCoroutine.General.Runs
import MCoroutine.MemoryEffects
import Mathlib.Logic.Function.Basic

/-! The memory pool under threads. Each critical section and each counter update is
one step, so backBlock is three: the lookup, the decrement and the clearing of the
flag at the index that the lookup returned. A block is named by its array and its
flag index. -/
namespace MCoroutine.MemoryThreads
open General.Runs General.Ranges MemoryPool

inductive Phase
  | idle
  | lookedUp (addr i : Nat)
  | decremented (addr i : Nat)
  deriving DecidableEq, Repr

/-- The address and group index a thread carries from one critical section of
backBlock to the next. -/
def Phase.pending : Phase → Option (Nat × Nat)
  | .idle => none
  | .lookedUp addr i => some (addr,i)
  | .decremented addr i => some (addr,i)

structure State where
  pool : MemoryPool
  phase : Nat → Phase

inductive Event
  | getBlock (thread start index : Nat)
  | recovery (thread : Nat)
  | lookup (thread start index : Nat) (found : Bool)
  | decrement (thread : Nat)
  | clear (thread : Nat)
  deriving DecidableEq, Repr

inductive Step : State → Event → State → Prop
  | getBlock (state : State) (thread start index : Nat) (heap rest : List Nat) (after : MemoryPool)
      (ready : state.phase thread = .idle) (fresh : ∀ array ∈ heap.head?, state.pool.Fresh array)
      (call : state.pool.takeBlock heap = .ok (start,index,after,rest)) :
      Step state (.getBlock thread start index) { state with pool := after }
  | recovery (state : State) (thread : Nat) (after : MemoryPool)
      (ready : state.phase thread = .idle) (call : state.pool.recovery = .ok after) :
      Step state (.recovery thread) { state with pool := after }
  | lookup (state : State) (thread start index : Nat) (found : Bool) (i : Nat)
      (ready : state.phase thread = .idle)
      (call : state.pool.hasBlockHelp (offset start (index * state.pool.blockSize)) =
        .ok (found,i)) :
      Step state (.lookup thread start index found)
        { state with
          phase := Function.update state.phase thread
            (if found then .lookedUp (offset start (index * state.pool.blockSize)) i else .idle) }
  | decrement (state : State) (thread addr i : Nat)
      (ready : state.phase thread = .lookedUp addr i) :
      Step state (.decrement thread)
        { pool := state.pool.decrement, phase := Function.update state.phase thread (.decremented addr i) }
  | clear (state : State) (thread addr i : Nat) (after : MemoryPool)
      (ready : state.phase thread = .decremented addr i)
      (call : state.pool.clearFlag addr i = .ok after) :
      Step state (.clear thread) { pool := after, phase := Function.update state.phase thread .idle }

def Constructed (blockCount blockSize blockGroupSize : Nat) (state : State) : Prop :=
  (∀ thread, state.phase thread = .idle) ∧
    ∃ heap rest, HeapArrays (u32 (blockSize * blockGroupSize)) heap ∧
      create blockCount blockSize blockGroupSize heap = .ok (state.pool,rest)

/-- From getBlock to the lookup with which its return begins. -/
def Holds : List Event → Nat → Nat → Nat → Prop
  | [],_,_,_ => False
  | .getBlock holder s k::past,thread,start,index =>
    (holder = thread ∧ s = start ∧ k = index) ∨ Holds past thread start index
  | .lookup holder s k _::past,thread,start,index =>
    Holds past thread start index ∧ ¬ (holder = thread ∧ s = start ∧ k = index)
  | _::past,thread,start,index => Holds past thread start index

def returning : List Event → Nat → Option (Nat × Nat)
  | [],_ => none
  | .lookup holder s k found::past,thread =>
    if holder = thread then (if found then some (s,k) else none) else returning past thread
  | .clear holder::past,thread => if holder = thread then none else returning past thread
  | _::past,thread => returning past thread

def Usage (history : List Event) (_ : State) : Event → Prop
  | .lookup thread start index _ => Holds history thread start index
  | _ => True

/-- The usage under which the index survives: the block starts inside the range that
the lookup accepts, and no recovery runs while a pending index is at or above the
number of groups that keep a used block. -/
def Settled (history : List Event) (state : State) : Event → Prop
  | .lookup thread start index _ =>
    Holds history thread start index ∧ index * state.pool.blockSize < state.pool.arrayBytes
  | .recovery _ => ∀ thread addr i, (state.phase thread).pending = some (addr,i) →
      i < (state.pool.blockGroups.filter MemoryBlockGroup.hasUsed).length
  | _ => True

def Owns (history : List Event) (thread start index : Nat) : Prop :=
  Holds history thread start index ∨ returning history thread = some (start,index)

structure Pending (history : List Event) (pool : MemoryPool) (thread addr i start index : Nat) :
    Prop where
  returning : returning history thread = some (start,index)
  address : addr = start + index * pool.blockSize
  inside : index * pool.blockSize < pool.arrayBytes
  designated : pool.starts[i]? = some start

structure Consistent (history : List Event) (state : State) : Prop where
  sound : state.pool.Sound
  used : ∀ thread start index, Owns history thread start index → state.pool.Used start index
  exclusive : ∀ thread other start index, Owns history thread start index →
    Owns history other start index → thread = other
  once : ∀ thread start index, Holds history thread start index →
    returning history thread ≠ some (start,index)
  idle : ∀ thread, (state.phase thread).pending = none → returning history thread = none
  pending : ∀ thread addr i, (state.phase thread).pending = some (addr,i) →
    ∃ start index, Pending history state.pool thread addr i start index

private theorem starts_at (pool : MemoryPool) (i start : Nat) :
    pool.starts[i]? = some start ↔ ∃ group, pool.blockGroups[i]? = some group ∧
      group.start = start := by
  simp [starts]

theorem Pending.carried {history past : List Event} {pool after : MemoryPool}
    {thread addr i start index : Nat} (pending : Pending past pool thread addr i start index)
    (same : MemoryThreads.returning history thread = MemoryThreads.returning past thread)
    (size : after.blockSize = pool.blockSize) (count : after.blockGroupSize = pool.blockGroupSize)
    (kept : after.starts[i]? = some start) : Pending history after thread addr i start index := by
  refine ⟨same.trans pending.returning,?_,?_,kept⟩
  · rw [size]
    exact pending.address
  · rw [arrayBytes,size,count]
    exact pending.inside

theorem Consistent.getBlock {past : List Event} {state : State} {thread start index : Nat}
    {after : MemoryPool} (before : Consistent past state)
    (taken : Taken state.pool start index after) :
    Consistent (.getBlock thread start index::past) { state with pool := after } := by
  have owns (owner s k : Nat) : Owns (.getBlock thread start index::past) owner s k ↔
      (thread = owner ∧ start = s ∧ index = k) ∨ Owns past owner s k := by
    simp only [Owns,Holds,returning,or_assoc]
  have unowned (owner : Nat) : ¬ Owns past owner start index :=
    fun mine => taken.free (before.used owner start index mine)
  refine ⟨taken.sound,?_,?_,?_,before.idle,?_⟩
  · intro owner s k mine
    rw [taken.used]
    rcases (owns owner s k).mp mine with ⟨_,rfl,rfl⟩ | old
    · exact Or.inr ⟨rfl,rfl⟩
    · exact Or.inl (before.used owner s k old)
  · intro owner other s k mine yours
    rcases (owns owner s k).mp mine with ⟨rfl,rfl,rfl⟩ | old
    · rcases (owns other start index).mp yours with ⟨rfl,_,_⟩ | clash
      · rfl
      · exact absurd clash (unowned other)
    · rcases (owns other s k).mp yours with ⟨rfl,rfl,rfl⟩ | recent
      · exact absurd old (unowned owner)
      · exact before.exclusive owner other s k old recent
  · intro owner s k held
    rcases held with ⟨rfl,rfl,rfl⟩ | held
    · exact fun returned => unowned thread (Or.inr returned)
    · exact before.once owner s k held
  · intro owner addr i phase
    obtain ⟨s,k,pending⟩ := before.pending owner addr i phase
    refine ⟨s,k,pending.carried rfl taken.blockSize taken.blockGroupSize ?_⟩
    rcases taken.starts with same | ⟨grown,_⟩
    · rw [same]
      exact pending.designated
    · rw [grown,List.getElem?_append_left (List.getElem?_eq_some_iff.mp pending.designated).1]
      exact pending.designated

theorem Consistent.recovery {past : List Event} {state : State} {thread : Nat} {after : MemoryPool}
    (before : Consistent past state) (recovered : Recovered state.pool after)
    (settled : Settled past state (.recovery thread)) :
    Consistent (.recovery thread::past) { state with pool := after } := by
  refine ⟨recovered.sound,?_,before.exclusive,before.once,before.idle,?_⟩
  · intro owner s k mine
    exact (recovered.used s k).mpr (before.used owner s k mine)
  · intro owner addr i phase
    obtain ⟨s,k,pending⟩ := before.pending owner addr i phase
    refine ⟨s,k,pending.carried rfl recovered.blockSize recovered.blockGroupSize ?_⟩
    obtain ⟨group,located,rfl⟩ := (starts_at state.pool i s).mp pending.designated
    -- the block is still marked used, so its group stays where it is
    have flag := (before.sound.used_iff (List.mem_of_getElem? located) k).mp
      (before.used owner group.start k (Or.inr pending.returning))
    have kept := recovered.stable i group (settled owner addr i phase) located
      ((hasUsed_iff group).mpr ⟨k,flag⟩)
    exact (starts_at after i group.start).mpr ⟨group,kept,rfl⟩

theorem pending_update (phase : Nat → Phase) (thread owner : Nat) (next : Phase) :
    (Function.update phase thread next owner).pending =
      if owner = thread then next.pending else (phase owner).pending := by
  by_cases same : owner = thread
  · subst owner
    simp
  · simp [same]

theorem Consistent.found {past : List Event} {state : State} {thread start index i : Nat}
    {found : Bool} (before : Consistent past state) (held : Holds past thread start index)
    (inside : index * state.pool.blockSize < state.pool.arrayBytes)
    (call : state.pool.hasBlockHelp (offset start (index * state.pool.blockSize)) = .ok (found,i)) :
    found = true ∧ offset start (index * state.pool.blockSize) =
      start + index * state.pool.blockSize ∧
      state.pool.starts[i]? = some start := by
  have listed := (before.sound.used_index (before.used thread start index (Or.inl held))).1
  have located := (before.sound.located start listed).2
  have address : offset start (index * state.pool.blockSize) =
      start + index * state.pool.blockSize :=
    offset_of_lt (by omega)
  obtain ⟨group,member,rfl⟩ := List.mem_map.mp listed
  have inGroup : state.pool.inGroup (offset group.start (index * state.pool.blockSize))
      group = true := by
    rw [before.sound.inGroup_iff member,address]
    omega
  obtain ⟨yes,there⟩ := before.sound.lookup member inGroup call
  exact ⟨yes,address,(starts_at state.pool i group.start).mpr ⟨group,there,rfl⟩⟩

theorem Consistent.lookup {past : List Event} {state : State} {thread start index i : Nat}
    {found : Bool} (before : Consistent past state) (ready : state.phase thread = .idle)
    (settled : Settled past state (.lookup thread start index found))
    (call : state.pool.hasBlockHelp (offset start (index * state.pool.blockSize)) = .ok (found,i)) :
    Consistent (.lookup thread start index found::past)
      { state with
        phase := Function.update state.phase thread
          (if found then .lookedUp (offset start (index * state.pool.blockSize)) i
            else .idle) } := by
  obtain ⟨held,inside⟩ := settled
  obtain ⟨rfl,address,designated⟩ := before.found held inside call
  have resting : returning past thread = none := before.idle thread (by rw [ready]; rfl)
  have owns (owner s k : Nat) (mine : Owns (.lookup thread start index true::past) owner s k) :
      Owns past owner s k := by
    rcases mine with ⟨old,_⟩ | recent
    · exact Or.inl old
    · by_cases same : thread = owner
      · subst owner
        have block : start = s ∧ index = k := by simpa [returning] using recent
        obtain ⟨rfl,rfl⟩ := block
        exact Or.inl held
      · exact Or.inr (by simpa [returning,same] using recent)
  refine ⟨before.sound,?_,?_,?_,?_,?_⟩
  · exact fun owner s k mine => before.used owner s k (owns owner s k mine)
  · exact fun owner other s k mine yours =>
      before.exclusive owner other s k (owns owner s k mine) (owns other s k yours)
  · rintro owner s k ⟨old,spared⟩
    by_cases same : thread = owner
    · subst owner
      simpa [returning] using spared
    · simpa [returning,same] using before.once owner s k old
  · intro owner phase
    rw [pending_update] at phase
    by_cases same : owner = thread
    · subst owner
      simp [Phase.pending] at phase
    · simpa [returning,Ne.symm same] using before.idle owner (by simpa [same] using phase)
  · intro owner addr j phase
    rw [pending_update] at phase
    by_cases same : owner = thread
    · subst owner
      obtain ⟨rfl,rfl⟩ : offset start (index * state.pool.blockSize) = addr ∧ i = j := by
        simpa [Phase.pending] using phase
      exact ⟨start,index,by simp [returning],address,inside,designated⟩
    · obtain ⟨s,k,pending⟩ := before.pending owner addr j (by simpa [same] using phase)
      exact ⟨s,k,pending.carried (by simp [returning,Ne.symm same]) rfl rfl pending.designated⟩

theorem Consistent.decrement {past : List Event} {state : State} {thread addr i : Nat}
    (before : Consistent past state) (ready : state.phase thread = .lookedUp addr i) :
    Consistent (.decrement thread::past)
      { pool := state.pool.decrement, phase := Function.update state.phase thread (.decremented addr i) } := by
  have phases (owner : Nat) : (Function.update state.phase thread
    (.decremented addr i) owner).pending =
      (state.phase owner).pending := by
    rw [pending_update]
    by_cases same : owner = thread
    · subst owner
      simp [ready,Phase.pending]
    · simp [same]
  refine ⟨before.sound.decrement,before.used,before.exclusive,before.once,?_,?_⟩
  · intro owner phase
    exact before.idle owner ((phases owner).symm.trans phase)
  · intro owner addr j phase
    obtain ⟨s,k,pending⟩ := before.pending owner addr j ((phases owner).symm.trans phase)
    exact ⟨s,k,pending.carried rfl rfl rfl pending.designated⟩

theorem Consistent.clears {past : List Event} {state : State} {thread addr i : Nat}
    (before : Consistent past state) (phase : (state.phase thread).pending = some (addr,i)) :
    ∃ start index group after, returning past thread = some (start,index) ∧
      addr = start + index * state.pool.blockSize ∧
      state.pool.blockGroups[i]? = some group ∧ group.start = start ∧
        state.pool.inGroup addr group = true ∧
      state.pool.clearFlag addr i = .ok after ∧ Cleared state.pool start index after := by
  obtain ⟨start,index,returning,address,inside,designated⟩ := before.pending thread addr i phase
  obtain ⟨group,located,rfl⟩ := (starts_at state.pool i start).mp designated
  have inGroup : state.pool.inGroup addr group = true := by
    rw [before.sound.inGroup_iff (List.mem_of_getElem? located),address]
    omega
  obtain ⟨after,call,cleared⟩ := clearFlag_clears state.pool addr i group before.sound
    located inGroup
  have positive := (range_index state.pool _ inside).1
  have quotient : (addr - group.start) / state.pool.blockSize = index := by
    rw [address,Nat.add_sub_cancel_left,Nat.mul_div_cancel _ positive]
  rw [quotient] at cleared
  exact ⟨group.start,index,group,after,returning,address,located,rfl,inGroup,call,cleared⟩

theorem Consistent.clear {past : List Event} {state : State} {thread addr i : Nat}
    {after : MemoryPool} (before : Consistent past state)
    (ready : state.phase thread = .decremented addr i)
    (call : state.pool.clearFlag addr i = .ok after) :
    Consistent (.clear thread::past) { pool := after, phase := Function.update state.phase thread .idle } := by
  obtain ⟨start,index,group,result,returned,_,_,_,_,clears,cleared⟩ :=
    before.clears (by rw [ready]; rfl)
  rw [call] at clears
  cases clears
  have owns (owner s k : Nat) (mine : Owns (.clear thread::past) owner s k) :
      Owns past owner s k ∧ ¬ (s = start ∧ k = index) := by
    rcases mine with held | recent
    · refine ⟨Or.inl held,?_⟩
      rintro ⟨rfl,rfl⟩
      have same := before.exclusive owner thread s k (Or.inl held) (Or.inr returned)
      subst owner
      exact before.once thread s k held returned
    · by_cases same : thread = owner
      · simp [returning,same] at recent
      · have old : returning past owner = some (s,k) := by simpa [returning,same] using recent
        refine ⟨Or.inr old,?_⟩
        rintro ⟨rfl,rfl⟩
        exact same (before.exclusive thread owner s k (Or.inr returned) (Or.inr old))
  refine ⟨cleared.sound,?_,?_,?_,?_,?_⟩
  · intro owner s k mine
    obtain ⟨old,other⟩ := owns owner s k mine
    exact (cleared.used s k).mpr ⟨before.used owner s k old,other⟩
  · exact fun owner other s k mine yours =>
      before.exclusive owner other s k (owns owner s k mine).1 (owns other s k yours).1
  · intro owner s k held
    by_cases same : thread = owner
    · simp [returning,same]
    · simpa [returning,same] using before.once owner s k held
  · intro owner phase
    rw [pending_update] at phase
    by_cases same : owner = thread
    · simp [returning,same]
    · simpa [returning,Ne.symm same] using before.idle owner (by simpa [same] using phase)
  · intro owner addr j phase
    rw [pending_update] at phase
    by_cases same : owner = thread
    · simp [same,Phase.pending] at phase
    · obtain ⟨s,k,pending⟩ := before.pending owner addr j (by simpa [same] using phase)
      refine ⟨s,k,pending.carried (by simp [returning,Ne.symm same]) cleared.blockSize
        cleared.blockGroupSize ?_⟩
      rw [cleared.starts]
      exact pending.designated

theorem reached_consistent {blockCount blockSize blockGroupSize : Nat} {history : List Event} {state : State}
    (run : Run (Constructed blockCount blockSize blockGroupSize) Settled Step history state) :
    Consistent history state := by
  refine run.invariant Consistent ?_ ?_
  · rintro state ⟨idle,heap,rest,arrays,call⟩
    have initial := create_initial blockCount blockSize blockGroupSize heap rest
      state.pool arrays call
    refine ⟨initial.sound,?_,?_,?_,?_,?_⟩
    · rintro thread s k (held | returned)
      · exact absurd held id
      · cases returned
    · rintro thread other s k (held | returned)
      · exact absurd held id
      · cases returned
    · intro thread s k held
      exact absurd held id
    · exact fun _ _ => rfl
    · intro thread addr i phase
      rw [idle thread] at phase
      cases phase
  · intro past before event after _ consistent settled step
    cases step with
    | getBlock thread start index heap rest after ready fresh call =>
      exact consistent.getBlock (takeBlock_taken _ after heap rest start index
        consistent.sound fresh call)
    | recovery thread after ready call =>
      exact consistent.recovery (recovery_recovered _ after consistent.sound call) settled
    | lookup thread start index found i ready call => exact consistent.lookup ready settled call
    | decrement thread addr i ready => exact consistent.decrement ready
    | clear thread addr i after ready call => exact consistent.clear ready call

theorem reached_sizes {blockCount blockSize blockGroupSize : Nat} {history : List Event} {state : State}
    (run : Run (Constructed blockCount blockSize blockGroupSize) Settled Step history state) :
    state.pool.blockSize = blockSize ∧ state.pool.blockGroupSize = blockGroupSize := by
  refine run.invariant (fun _ state => state.pool.blockSize = blockSize ∧
    state.pool.blockGroupSize = blockGroupSize) ?_ ?_
  · rintro state ⟨_,heap,rest,arrays,call⟩
    have initial := create_initial blockCount blockSize blockGroupSize heap rest
      state.pool arrays call
    exact ⟨initial.blockSize,initial.blockGroupSize⟩
  · intro past before event after reached ⟨size,count⟩ _ step
    have consistent := reached_consistent reached
    cases step with
    | getBlock thread start index heap rest after ready fresh call =>
      have taken := takeBlock_taken _ after heap rest start index consistent.sound fresh call
      exact ⟨taken.blockSize.trans size,taken.blockGroupSize.trans count⟩
    | recovery thread after ready call =>
      have recovered := recovery_recovered _ after consistent.sound call
      exact ⟨recovered.blockSize.trans size,recovered.blockGroupSize.trans count⟩
    | lookup => exact ⟨size,count⟩
    | decrement => exact ⟨size,count⟩
    | clear thread addr i after ready call =>
      obtain ⟨_,_,_,_,_,_,_,_,_,clears,cleared⟩ := consistent.clears (by rw [ready]; rfl)
      rw [call] at clears
      cases clears
      exact ⟨cleared.blockSize.trans size,cleared.blockGroupSize.trans count⟩

private theorem Consistent.missed {past : List Event} {state : State} {thread start index i : Nat}
    {found : Bool} (before : Consistent past state) (size : state.pool.blockSize < 2^32)
    (count : state.pool.blockGroupSize < 2^32) (held : Holds past thread start index)
    (beyond : state.pool.arrayBytes ≤ index * state.pool.blockSize)
    (call : state.pool.hasBlockHelp (offset start (index * state.pool.blockSize)) = .ok (found,i)) :
    ¬ (found = true ∧ state.pool.starts[i]? = some start) := by
  rintro ⟨rfl,designated⟩
  obtain ⟨group,located,inGroup⟩ := lookup_found _ _ _ call
  obtain ⟨other,there,rfl⟩ := (starts_at state.pool i start).mp designated
  obtain rfl : group = other := Option.some.inj (located.symm.trans there)
  have member := List.mem_of_getElem? located
  have bound := (before.sound.used_index (before.used thread group.start index (Or.inl held))).2
  have near := (before.sound.located group.start (mem_starts member)).2
  have product : index * state.pool.blockSize < 2^64 := by
    calc index * state.pool.blockSize ≤ index * 2^32 := Nat.mul_le_mul_left _ (by omega)
      _ < 2^32 * 2^32 := Nat.mul_lt_mul_of_pos_right (by omega) (by omega)
      _ = 2^64 := (Nat.pow_add 2 32 32).symm
  obtain ⟨low,high⟩ := (before.sound.inGroup_iff member _).mp inGroup
  -- the sum wraps at most once, and then falls below the start
  rcases Nat.lt_or_ge (group.start + index * state.pool.blockSize) (2^64) with plain | wrapped
  · rw [offset_of_lt plain] at high
    omega
  · rw [offset,Nat.mod_eq_sub_mod wrapped,Nat.mod_eq_of_lt (by omega)] at low
    omega

/-- Along a settled run the second critical section of backBlock finds its group at the
index it looked up and clears its own flag only. Where a step is not settled it goes
wrong: the index is past the end after the recovery, or never was that of the block. -/
theorem pending_designates (blockCount blockSize blockGroupSize : Nat) (sized : blockSize < 2^32)
    (counted : blockGroupSize < 2^32) (history : List Event) (state : State)
    (run : Run (Constructed blockCount blockSize blockGroupSize) Settled Step history state) :
    (∀ thread addr i, state.phase thread = .decremented addr i →
      ∃ start index group after, returning history thread = some (start,index) ∧
        addr = start + index * blockSize ∧ state.pool.Used start index ∧
        state.pool.blockGroups[i]? = some group ∧ group.start = start ∧
          state.pool.inGroup addr group = true ∧
        state.pool.clearFlag addr i = .ok after ∧
        ∀ s k, after.Used s k ↔ state.pool.Used s k ∧ ¬ (s = start ∧ k = index)) ∧
    (∀ thread addr i after, (state.phase thread).pending = some (addr,i) →
      (state.pool.blockGroups.filter MemoryBlockGroup.hasUsed).length ≤ i →
      state.pool.recovery = .ok after → after.clearFlag addr i = .error .outOfRange) ∧
    (∀ thread start index found i, Holds history thread start index →
      state.pool.arrayBytes ≤ index * blockSize →
      state.pool.hasBlockHelp (offset start (index * blockSize)) = .ok (found,i) →
      ¬ (found = true ∧ state.pool.starts[i]? = some start)) := by
  have consistent := reached_consistent run
  obtain ⟨rfl,rfl⟩ := reached_sizes run
  refine ⟨?_,?_,fun _ _ _ _ _ held beyond call => consistent.missed sized counted held beyond call⟩
  · intro thread addr i phase
    obtain ⟨start,index,group,after,returned,address,located,same,inGroup,call,cleared⟩ :=
      consistent.clears (show (state.phase thread).pending = some (addr,i) by rw [phase]; rfl)
    exact ⟨start,index,group,after,returned,address,consistent.used thread start index
      (Or.inr returned),
      located,same,inGroup,call,cleared.used⟩
  · intro thread addr i after _ beyond call
    have recovered := recovery_recovered state.pool after consistent.sound call
    have gone : after.blockGroups[i]? = none := by
      rw [List.getElem?_eq_none_iff,recovered.groups.length_eq]
      exact beyond
    rw [clearFlag,gone]

private def unitPool (blockGroups : List MemoryBlockGroup) (allCounts useCounts : Nat) :
    MemoryPool :=
  { allCounts := allCounts, useCounts := useCounts, blockGroups := blockGroups, blockSize := 16,
    blockGroupSize := 1 }

private theorem one_constructed :
    Constructed 0 16 1 ⟨unitPool [⟨4096,[false]⟩] 1 0,fun _ => .idle⟩ :=
  ⟨fun _ => rfl,[4096],[],heapArrays_single (by decide),rfl⟩

private theorem two_fresh : (unitPool [⟨4096,[true]⟩] 1 1).Fresh 8192 :=
  ⟨by decide,by simp [starts,unitPool,Separate,arrayBytes,u32]⟩

private theorem three_fresh : (unitPool [⟨4096,[true]⟩,⟨8192,[true]⟩] 2 2).Fresh 12288 :=
  ⟨by decide,by simp [starts,unitPool,Separate,arrayBytes,u32]⟩

private theorem two_taken (allowed : List Event → State → Event → Prop)
    (permitted : ∀ past state thread start index, allowed past state
      (.getBlock thread start index)) :
    Run (Constructed 0 16 1) allowed Step [.getBlock 1 8192 0,.getBlock 0 4096 0]
      ⟨unitPool [⟨4096,[true]⟩,⟨8192,[true]⟩] 2 2,fun _ => .idle⟩ :=
  .next _ _ _ _ (.next [] _ _ _ (.start _ one_constructed) (permitted _ _ _ _ _)
      (Step.getBlock _ 0 4096 0 [] [] _ rfl (by simp) rfl)) (permitted _ _ _ _ _)
    (Step.getBlock _ 1 8192 0 [8192] [] (unitPool [⟨4096,[true]⟩,⟨8192,[true]⟩] 2 2) rfl
      (by rintro array ⟨⟩; exact two_fresh) rfl)

/-- Thread 0 gives a third block back and its recovery removes that group, while thread 1
is between the counter and the flag of its own. -/
theorem pending_designates_recovered :
    ∃ (history : List Event) (state : State), Run (Constructed 0 16 1) Settled Step
      (.recovery 0::history) state ∧
      state.pool.starts = [4096,8192] ∧ state.phase 1 = .decremented 8192 1 ∧
      ∃ (start index : Nat) (group : MemoryBlockGroup) (after : MemoryPool),
        returning (.recovery 0::history) 1 = some (start,index) ∧
        8192 = start + index * 16 ∧ state.pool.Used start index ∧
        state.pool.blockGroups[1]? = some group ∧ group.start = start ∧
          state.pool.inGroup 8192 group = true ∧
        state.pool.clearFlag 8192 1 = .ok after ∧
        ∀ s k, after.Used s k ↔ state.pool.Used s k ∧ ¬ (s = start ∧ k = index) := by
  have third := Run.next _ _ (Event.getBlock 0 12288 0) _ (two_taken Settled fun _ _ _ _ _ =>
    trivial) trivial
    (Step.getBlock _ 0 12288 0 [12288] [] _ rfl (by rintro array ⟨⟩; exact three_fresh) rfl)
  have looked := Run.next _ _ (Event.lookup 0 12288 0 true) _ third ⟨Or.inl ⟨rfl,rfl,rfl⟩,by decide⟩
    (Step.lookup _ 0 12288 0 true 2 rfl rfl)
  have counted := Run.next _ _ (Event.decrement 0) _ looked trivial (Step.decrement _ 0 12288 2 rfl)
  have cleared := Run.next _ _ (Event.clear 0) _ counted trivial (Step.clear _ 0 12288 2 _ rfl rfl)
  have found := Run.next _ _ (Event.lookup 1 8192 0 true) _ cleared
    ⟨⟨Or.inr (Or.inl ⟨rfl,rfl,rfl⟩),by decide⟩,by decide⟩ (Step.lookup _ 1 8192 0 true 1 rfl rfl)
  have pending := Run.next _ _ (Event.decrement 1) _ found trivial (Step.decrement _ 1 8192 1 rfl)
  have swept := Run.next _ _ (Event.recovery 0) _ pending ?_ (Step.recovery _ 0 _ rfl rfl)
  · exact ⟨_,_,swept,rfl,rfl,(pending_designates 0 16 1 (by decide)
      (by decide) _ _ swept).1 1 8192 1 rfl⟩
  · intro thread addr i phase
    by_cases mine : thread = 1
    · subst mine
      cases phase
      decide
    · simp [mine,Phase.pending] at phase

/-- Another thread's recovery between the lookup and the clearing. -/
theorem recovery_overtakes :
    ∃ history state, Run (Constructed 0 16 1) Usage Step history state ∧
      state.phase 1 = .decremented 8192 1 ∧ returning history 1 = some (8192,0) ∧
      state.pool.blockGroups[1]? = none ∧ state.pool.clearFlag 8192 1 = .error .outOfRange := by
  have looked := Run.next _ _ (Event.lookup 0 4096 0 true) _
    (two_taken Usage fun _ _ _ _ _ => trivial)
    (Or.inr (Or.inl ⟨rfl,rfl,rfl⟩)) (Step.lookup _ 0 4096 0 true 0 rfl rfl)
  have counted := Run.next _ _ (Event.decrement 0) _ looked trivial (Step.decrement _ 0 4096 0 rfl)
  have cleared := Run.next _ _ (Event.clear 0) _ counted trivial (Step.clear _ 0 4096 0 _ rfl rfl)
  have found := Run.next _ _ (Event.lookup 1 8192 0 true) _ cleared ⟨Or.inl ⟨rfl,rfl,rfl⟩,by decide⟩
    (Step.lookup _ 1 8192 0 true 1 rfl rfl)
  have swept := Run.next _ _ (Event.recovery 0) _ found trivial (Step.recovery _ 0 _ rfl rfl)
  have run := Run.next _ _ (Event.decrement 1) _ swept trivial (Step.decrement _ 1 8192 1 rfl)
  exact ⟨_,_,run,rfl,rfl,rfl,rfl⟩

end MCoroutine.MemoryThreads
