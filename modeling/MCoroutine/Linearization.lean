import MCoroutine.General.Simulation
import MCoroutine.MemoryAccounts
import MCoroutine.MemoryThreads

/-! The memory pool under threads against the pool used by one call at a time. A return
takes place where it clears its flag; what it has counted down before is counted back. -/
namespace MCoroutine.Linearization
open General.Runs General.Ranges General.Simulation MemoryPool MemoryThreads

def recount (count : Nat) (pool : MemoryPool) : MemoryPool := { pool with useCounts := count }

@[simp] theorem recount_blockGroups (count : Nat) (pool : MemoryPool) :
    (recount count pool).blockGroups = pool.blockGroups := rfl

private theorem takeBlock_recount {pool after : MemoryPool} {heap rest : List Nat}
    {start index : Nat} (count : Nat) (call : pool.takeBlock heap = .ok (start,index,after,rest)) :
    (recount count pool).takeBlock heap = .ok
      (start,index,recount (u32 (count + 1)) after,rest) := by
  unfold takeBlock at *
  rw [recount_blockGroups]
  cases found : takeFree pool.blockGroups with
  | some taken =>
    rw [found] at call
    cases call
    rfl
  | none =>
    rw [found] at call
    cases heap with
    | nil => cases call
    | cons array heap =>
      dsimp only at call ⊢
      split at call
      · cases call
      · rename_i room
        cases call
        exact if_neg room

private theorem recoveryLoop_recount (count fuel i : Nat) (pool : MemoryPool) :
    recoveryLoop fuel i (recount count pool) = (recoveryLoop fuel i pool).map (recount count) := by
  induction fuel generalizing i pool with
  | zero => rfl
  | succ fuel ih =>
    rw [recoveryLoop,recoveryLoop,recount_blockGroups]
    cases pool.blockGroups[i]? with
    | none => rfl
    | some group =>
      dsimp only
      split
      · rw [← ih]
        rfl
      · split
        · rfl
        · exact ih (i+1) pool

private theorem recovery_recount {pool after : MemoryPool} (count : Nat)
    (call : pool.recovery = .ok after) :
    (recount count pool).recovery = .ok (recount count after) := by
  have loop := recoveryLoop_recount count pool.blockGroups.length 0 pool
  rw [recovery] at call
  rw [call] at loop
  exact loop

private theorem clearFlag_recount {pool after : MemoryPool} {addr i : Nat} (count : Nat)
    (call : pool.clearFlag addr i = .ok after) :
    (recount count pool).clearFlag addr i = .ok (recount count after) := by
  unfold clearFlag at *
  rw [recount_blockGroups]
  cases located : pool.blockGroups[i]? with
  | none =>
    rw [located] at call
    cases call
  | some group =>
    rw [located] at call
    dsimp only at call ⊢
    split at call
    · cases call
    · rename_i divisor
      split at call
      · rename_i bound
        cases call
        exact (if_neg divisor).trans (if_pos bound)
      · cases call

private theorem hasBlockHelp_recount (count addr : Nat) (pool : MemoryPool) :
    (recount count pool).hasBlockHelp addr = pool.hasBlockHelp addr := rfl

private theorem queries_recount (count addr : Nat) (pool : MemoryPool) :
    (recount count pool).hasBlock addr = pool.hasBlock addr ∧
      (recount count pool).usedBlockHelp addr = pool.usedBlockHelp addr := ⟨rfl,rfl⟩

/-- The same calls one at a time: getBlock and recovery where they are, and a return where
its flag is cleared. -/
def sequential (blockSize : Nat) : List Event → List MemoryRuns.Event
  | [] => []
  | .getBlock _ start index::past => .getBlock (offset start (index * blockSize))::sequential
      blockSize past
  | .recovery _::past => .recovery::sequential blockSize past
  | .clear thread::past =>
    match returning past thread with
    | none => sequential blockSize past
    | some (start,index) => .backBlock (offset start (index * blockSize))::sequential blockSize past
  | _::past => sequential blockSize past

def midway : List Event → List Nat
  | [] => []
  | .decrement thread::past => thread::midway past
  | .clear thread::past => (midway past).erase thread
  | _::past => midway past

/-- The pool in which the returns under way have not begun. -/
def settledPool (history : List Event) (pool : MemoryPool) : MemoryPool :=
  recount (u32 (pool.useCounts + (midway history).length)) pool

private theorem settledPool_quiet {history : List Event} {pool : MemoryPool}
    (empty : midway history = []) (bounded : pool.useCounts < 2^32) :
    settledPool history pool = pool := by
  rw [settledPool,empty,List.length_nil,Nat.add_zero,u32_of_lt bounded]
  rfl

structure Under (history : List Event) (state : State) : Prop where
  distinct : (midway history).Nodup
  counted : ∀ thread, thread ∈ midway history ↔ ∃ addr i, state.phase thread = .decremented addr i
  near : ∀ thread addr i, (state.phase thread).pending = some (addr,i) → i < 2^32
  bounded : state.pool.useCounts < 2^32

private theorem lookup_index {pool : MemoryPool} {addr i : Nat}
    (call : pool.hasBlockHelp addr = .ok (true,i)) : i < 2^32 := by
  unfold hasBlockHelp at call
  split at call
  · split at call
    · rename_i near
      cases call
      exact near
    · cases call
  · split at call
    · cases call
    · cases call

section
variable {past : List Event} {state : State}

theorem Under.frame {history : List Event} {after : State} (before : Under past state)
    (same : midway history = midway past) (phases : after.phase = state.phase)
    (bounded : after.pool.useCounts < 2^32) : Under history after := by
  refine ⟨?_,?_,?_,bounded⟩
  · rw [same]
    exact before.distinct
  · rw [same,phases]
    exact before.counted
  · rw [phases]
    exact before.near

theorem Under.lookup {thread start index i addr : Nat} {found : Bool} (before : Under past state)
    (ready : state.phase thread = .idle) (call : state.pool.hasBlockHelp addr = .ok (found,i)) :
    Under (.lookup thread start index found::past)
      { state with phase := Function.update state.phase thread (if found then .lookedUp addr i else .idle) } := by
  refine ⟨before.distinct,?_,?_,before.bounded⟩
  · intro owner
    refine (before.counted owner).trans ?_
    by_cases same : owner = thread
    · subst owner
      cases found <;> simp [ready]
    · simp [same]
  · intro owner a j phase
    rw [pending_update] at phase
    by_cases same : owner = thread
    · cases found with
      | false => simp [same,Phase.pending] at phase
      | true =>
        obtain ⟨_,rfl⟩ : addr = a ∧ i = j := by simpa [same,Phase.pending] using phase
        exact lookup_index call
    · exact before.near owner a j (by simpa [same] using phase)

theorem Under.decrement {thread addr i : Nat} (before : Under past state)
    (ready : state.phase thread = .lookedUp addr i) :
    Under (.decrement thread::past)
      { pool := state.pool.decrement, phase := Function.update state.phase thread (.decremented addr i) } := by
  have absent : thread ∉ midway past := by
    rw [before.counted,ready]
    simp
  refine ⟨List.nodup_cons.mpr ⟨absent,before.distinct⟩,?_,?_,?_⟩
  · intro owner
    rw [midway,List.mem_cons,before.counted]
    by_cases same : owner = thread
    · simp [same]
    · simp [same]
  · intro owner a j phase
    rw [pending_update] at phase
    by_cases same : owner = thread
    · refine before.near thread a j ?_
      rw [ready]
      simpa [same,Phase.pending] using phase
    · exact before.near owner a j (by simpa [same] using phase)
  · have bounded := before.bounded
    unfold MemoryPool.decrement
    dsimp only
    split <;> omega

theorem Under.clear {thread : Nat} {after : MemoryPool} (before : Under past state)
    (same : after.useCounts = state.pool.useCounts) :
    Under (.clear thread::past) { pool := after, phase := Function.update state.phase thread .idle } := by
  refine ⟨before.distinct.erase thread,?_,?_,by rw [same]; exact before.bounded⟩
  · intro owner
    rw [midway,before.distinct.mem_erase_iff,before.counted]
    by_cases self : owner = thread
    · simp [self]
    · simp [self]
  · intro owner a j phase
    rw [pending_update] at phase
    by_cases self : owner = thread
    · simp [self,Phase.pending] at phase
    · exact before.near owner a j (by simpa [self] using phase)

end

private theorem lookup_designated {pool : MemoryPool} {addr i : Nat} {group : MemoryBlockGroup}
    (sound : pool.Sound) (near : i < 2^32) (located : pool.blockGroups[i]? = some group)
    (inside : pool.inGroup addr group = true) :
    pool.hasBlockHelp addr = .ok (true,i) := by
  obtain ⟨bound,here⟩ := List.getElem?_eq_some_iff.mp located
  have search : pool.blockGroups.findIdx? (pool.inGroup addr) = some i := by
    refine List.findIdx?_eq_some_iff_getElem.mpr ⟨bound,by rw [here]; exact inside,?_⟩
    intro j before found
    have first := List.getElem_mem (Nat.lt_trans before bound)
    have member := List.mem_of_getElem? located
    have same := sound.separate.unique (mem_starts first) (mem_starts member)
      ((sound.inGroup_iff first addr).mp found) ((sound.inGroup_iff member addr).mp inside)
    have places : pool.starts[j]? = pool.starts[i]? := by
      simp only [starts,List.getElem?_map,located,List.getElem?_eq_getElem
        (Nat.lt_trans before bound),Option.map_some,same]
    have length : j < pool.starts.length := by
      rw [starts,List.length_map]
      omega
    exact Nat.ne_of_lt before ((List.getElem?_inj length sound.separate.nodup).mp places)
  rw [hasBlockHelp,search]
  exact if_pos near

section
variable {blockCount blockSize blockGroupSize : Nat} {history : List Event} {state : State}

private theorem reached_under
    (run : Run (Constructed blockCount blockSize blockGroupSize) Settled Step history state) :
    Under history state := by
  refine run.invariant Under ?_ ?_
  · rintro state ⟨idle,heap,rest,arrays,call⟩
    refine ⟨List.nodup_nil,?_,?_,?_⟩
    · intro thread
      simp [midway,idle thread]
    · intro thread addr i phase
      rw [idle thread] at phase
      cases phase
    · rw [(create_counts call).2.2]
      omega
  · intro past before event after reached under settled step
    cases step with
    | getBlock thread start index heap rest after ready fresh call =>
      refine under.frame rfl rfl ?_
      rw [(takeBlock_counts call).1]
      exact u32_lt _
    | recovery thread after ready call =>
      refine under.frame rfl rfl ?_
      rw [MemoryAccounts.recovery_uses call]
      exact under.bounded
    | lookup thread start index found i ready call => exact under.lookup ready call
    | decrement thread addr i ready => exact under.decrement ready
    | clear thread addr i after ready call =>
      obtain ⟨_,_,_,_,_,_,_,_,_,clears,cleared⟩ :=
        (reached_consistent reached).clears (by rw [ready]; rfl)
      rw [call] at clears
      cases clears
      exact under.clear cleared.useCounts

end

private theorem getBlock_settled {pool after : MemoryPool} {heap rest : List Nat}
    {start index : Nat} (count : Nat) (call : pool.takeBlock heap = .ok (start,index,after,rest)) :
    (recount (u32 (pool.useCounts + count)) pool).getBlock heap =
      .ok (offset start (index * pool.blockSize),
        recount (u32 (after.useCounts + count)) after,rest) := by
  have counts : u32 (u32 (pool.useCounts + count) + 1) = u32 (after.useCounts + count) := by
    rw [(takeBlock_counts call).1]
    unfold u32
    omega
  rw [getBlock,takeBlock_recount _ call,counts]
  rfl

/-- The return at its clearing: the search finds the group at the pending index, and the
count goes down by the one that was counted back. -/
private theorem backBlock_settled {pool after : MemoryPool} {addr i : Nat}
    {group : MemoryBlockGroup} (count : Nat) (sound : pool.Sound) (near : i < 2^32)
    (located : pool.blockGroups[i]? = some group) (inside : pool.inGroup addr group = true)
    (same : after.useCounts = pool.useCounts) (call : pool.clearFlag addr i = .ok after) :
    (recount (u32 (pool.useCounts + (count + 1))) pool).backBlock addr =
      .ok (recount (u32 (after.useCounts + count)) after) := by
  have counts : (recount (u32 (pool.useCounts + (count + 1))) pool).decrement =
      recount (u32 (after.useCounts + count)) pool := by
    rw [same]
    unfold MemoryPool.decrement recount u32
    dsimp only
    congr 1
    split <;> omega
  rw [backBlock,hasBlockHelp_recount,lookup_designated sound near located inside]
  change clearFlag addr i (recount (u32 (pool.useCounts + (count + 1))) pool).decrement = _
  rw [counts]
  exact clearFlag_recount _ call

theorem simulates (blockCount blockSize blockGroupSize : Nat) :
    Simulates (Constructed blockCount blockSize blockGroupSize) Settled Step
      (MemoryRuns.Constructed blockCount blockSize blockGroupSize)
        (fun _ _ _ => True) MemoryRuns.Step
      fun history state record pool => record = sequential blockSize history ∧
        pool = settledPool history state.pool := by
  refine ⟨?_,?_⟩
  · rintro state ⟨idle,heap,rest,arrays,call⟩
    have zero := (create_counts call).2.2
    exact ⟨state.pool,⟨heap,rest,arrays,call⟩,rfl,(settledPool_quiet rfl (by omega)).symm⟩
  · rintro past before event after _ _ reached _ ⟨rfl,rfl⟩ settled step
    have consistent := reached_consistent reached
    have under := reached_under reached
    have size := (reached_sizes reached).1
    cases step with
    | getBlock thread start index heap rest after ready fresh call =>
      refine ⟨[.getBlock (offset start (index * blockSize))],_,moves trivial ?_,rfl,rfl⟩
      rw [← size]
      exact .getBlock _ _ heap rest _ fresh (getBlock_settled _ call)
    | recovery thread after ready call =>
      refine ⟨[.recovery],_,moves trivial (.recovery _ _ (recovery_recount _ call)),rfl,?_⟩
      simp only [settledPool,midway,MemoryAccounts.recovery_uses call]
    | lookup thread start index found i ready call => exact ⟨[],_,stays,rfl,rfl⟩
    | decrement thread addr i ready =>
      refine ⟨[],_,stays,rfl,?_⟩
      have counts : u32 (before.pool.decrement.useCounts + ((midway past).length + 1)) =
          u32 (before.pool.useCounts + (midway past).length) := by
        unfold MemoryPool.decrement u32
        dsimp only
        split <;> omega
      simp only [settledPool,midway,List.length_cons,counts]
      rfl
    | clear thread addr i after ready call =>
      obtain ⟨start,index,group,result,returned,address,located,_,inside,clears,cleared⟩ :=
        consistent.clears (by rw [ready]; rfl)
      rw [call] at clears
      cases clears
      have near := under.near thread addr i (by rw [ready]; rfl)
      have counting : thread ∈ midway past := (under.counted thread).mpr ⟨addr,i,ready⟩
      have pulled : (midway past).length = (midway (.clear thread::past)).length + 1 := by
        rw [midway,List.length_erase_of_mem counting]
        have := List.length_pos_of_mem counting
        omega
      have place : offset start (index * blockSize) = addr := by
        have member := List.mem_of_getElem? located
        have range := (consistent.sound.inGroup_iff member addr).mp inside
        have bound := (consistent.sound.located group.start (mem_starts member)).2
        rw [address,size] at range ⊢
        exact offset_of_lt (by omega)
      refine ⟨[.backBlock addr],settledPool (.clear thread::past) after,moves trivial ?_,?_,rfl⟩
      · refine .backBlock _ _ addr ?_
        rw [settledPool,pulled]
        exact backBlock_settled _ consistent.sound near located inside cleared.useCounts call
      · rw [sequential,returned]
        dsimp only
        rw [place]
        rfl

/-- Every settled interleaving of getBlock, recovery and the three steps of backBlock is
one of whole calls, in the order of the steps in which they take place. -/
theorem interleavings_linearize (blockCount blockSize blockGroupSize : Nat) (history : List Event)
    (state : State)
    (run : Run (Constructed blockCount blockSize blockGroupSize) Settled Step history state) :
    MemoryRuns.Reached blockCount blockSize blockGroupSize (sequential blockSize history)
      (settledPool history state.pool) ∧
    (∀ addr, state.pool.hasBlock addr = (settledPool history state.pool).hasBlock addr ∧
      state.pool.usedBlockHelp addr = (settledPool history state.pool).usedBlockHelp addr) ∧
    ((∀ thread addr i, state.phase thread ≠ .decremented addr i) →
      settledPool history state.pool = state.pool) := by
  have under := reached_under run
  refine ⟨(simulates blockCount blockSize blockGroupSize).image run,fun addr =>
    queries_recount _ addr _,?_⟩
  intro quiet
  have empty : midway history = [] := by
    refine List.eq_nil_iff_forall_not_mem.mpr fun thread member => ?_
    obtain ⟨addr,i,phase⟩ := (under.counted thread).mp member
    exact quiet thread addr i phase
  exact settledPool_quiet empty under.bounded

/-- A block is taken while another thread has counted down and not cleared: the counter is
one behind the pool of the calls, in which that return comes later. -/
theorem interleavings_linearize_midway :
    ∃ state : State, state.phase 0 = .decremented 4096 0 ∧
      MemoryRuns.Reached 0 16 2 [.getBlock 4112,.getBlock 4096]
        (settledPool [.getBlock 1 4096 1,.decrement 0,.lookup 0 4096 0 true,
          .getBlock 0 4096 0] state.pool) ∧
      state.pool.useCounts = 1 := by
  have constructed : Constructed 0 16 2
      ⟨{ MemoryRuns.pairPool with useCounts := 0, blockGroups := [⟨4096,[false,false]⟩] },
          fun _ => .idle⟩ :=
    ⟨fun _ => rfl,MemoryRuns.pairPool_constructed⟩
  have taken : Run (Constructed 0 16 2) Settled Step [.getBlock 0 4096 0]
      ⟨MemoryRuns.pairPool,fun _ => .idle⟩ :=
    .next [] _ _ _ (.start _ constructed) trivial
      (Step.getBlock _ 0 4096 0 [] [] _ rfl (by simp) rfl)
  have looked := Run.next _ _ (Event.lookup 0 4096 0 true) _ taken ⟨Or.inl ⟨rfl,rfl,rfl⟩,by decide⟩
    (Step.lookup _ 0 4096 0 true 0 rfl rfl)
  have counted := Run.next _ _ (Event.decrement 0) _ looked trivial (Step.decrement _ 0 4096 0 rfl)
  have run := Run.next _ _ (Event.getBlock 1 4096 1) _ counted trivial
    (Step.getBlock _ 1 4096 1 [] [] _ rfl (by simp) rfl)
  exact ⟨_,rfl,(interleavings_linearize 0 16 2 _ _ run).1,rfl⟩

end MCoroutine.Linearization
