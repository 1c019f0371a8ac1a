import MCoroutine.MemoryCounts
import MCoroutine.MemoryRuns
import MCoroutine.MemoryThreads
import Mathlib.Data.Finset.Card

/-! The counter of used blocks while threads return blocks. backBlock counts down
before it clears the flag, so in between the flags are ahead of the counter. -/
namespace MCoroutine.ThreadCounts
open General.Runs General.Ranges MemoryPool MemoryThreads

/-- Threads return only blocks they hold, and nobody calls recovery. -/
def Returning (history : List Event) (_ : State) : Event → Prop
  | .lookup thread start index _ => Holds history thread start index
  | .recovery _ => False
  | _ => True

/-- The held blocks, the threads inside backBlock and those of them that have counted
down, all against the flags and the counter. -/
structure Tally (history : List Event) (state : State) (held : Finset (Nat × Nat × Nat))
    (inside midway : Finset Nat) :
    Prop where
  holds : ∀ thread start index, (thread,start,index) ∈ held ↔ Holds history thread start index
  busy : ∀ thread, thread ∈ inside ↔ state.phase thread ≠ .idle
  counted : ∀ thread, thread ∈ midway ↔ ∃ addr i, state.phase thread = .decremented addr i
  flags : state.pool.usedFlags = held.card + inside.card
  counter : state.pool.useCounts + midway.card = state.pool.usedFlags

private theorem usedFlags_le (pool : MemoryPool) : pool.usedFlags ≤ pool.allFlags := by
  rw [usedFlags,allFlags]
  induction pool.blockGroups with
  | nil => exact Nat.le_refl _
  | cons group rest ih =>
    have part : group.useFlags.count true ≤ group.useFlags.length := List.count_le_length
    simp only [List.map_cons,List.sum_cons]
    omega

section
variable {past : List Event} {state : State} {held : Finset (Nat × Nat × Nat)}
  {inside midway : Finset Nat}

theorem Tally.getBlock {thread start index : Nat} {heap rest : List Nat} {after : MemoryPool}
    (tally : Tally past state held inside midway) (consistent : Consistent past state)
    (taken : Taken state.pool start index after)
    (call : state.pool.takeBlock heap = .ok (start,index,after,rest))
    (few : after.allFlags < 2^32) :
    Tally (.getBlock thread start index::past) { state with pool := after }
      (insert (thread,start,index) held) inside
      midway := by
  have flags := taken.usedFlags consistent.sound
  have bounded := usedFlags_le after
  have absent : (thread,start,index) ∉ held := by
    intro member
    exact taken.free (consistent.used thread start index (Or.inl ((tally.holds _ _ _).mp member)))
  refine ⟨?_,tally.busy,tally.counted,?_,?_⟩
  · intro owner s k
    rw [Finset.mem_insert,tally.holds,Holds,Prod.mk.injEq,Prod.mk.injEq]
    simp only [eq_comm]
  · rw [Finset.card_insert_of_notMem absent]
    have before := tally.flags
    dsimp only
    omega
  · have before := tally.counter
    have counts := (takeBlock_counts call).1
    dsimp only
    rw [counts,u32_of_lt (by omega)]
    omega

theorem Tally.lookup {thread start index i : Nat} (tally : Tally past state held inside midway)
    (mine : Holds past thread start index) (ready : state.phase thread = .idle) (addr : Nat) :
    Tally (.lookup thread start index true::past)
      { state with phase := Function.update state.phase thread (.lookedUp addr i) }
      (held.erase (thread,start,index)) (insert thread inside) midway := by
  have member := (tally.holds thread start index).mpr mine
  have outside : thread ∉ inside := fun busy => (tally.busy thread).mp busy ready
  refine ⟨?_,?_,?_,?_,tally.counter⟩
  · intro owner s k
    rw [Finset.mem_erase,tally.holds,Holds,and_comm,ne_eq,Prod.mk.injEq,Prod.mk.injEq]
    simp only [eq_comm]
  · intro owner
    rw [Finset.mem_insert,tally.busy]
    by_cases same : owner = thread
    · simp [same]
    · simp [same]
  · intro owner
    rw [tally.counted]
    by_cases same : owner = thread
    · subst owner
      simp [ready]
    · simp [same]
  · have positive := Finset.card_pos.mpr ⟨_,member⟩
    have before := tally.flags
    rw [Finset.card_erase_of_mem member,Finset.card_insert_of_notMem outside]
    dsimp only
    omega

theorem Tally.positive {thread addr i : Nat} (tally : Tally past state held inside midway)
    (ready : state.phase thread = .lookedUp addr i) : 0 < state.pool.useCounts := by
  have member : thread ∈ inside := by
    rw [tally.busy,ready]
    simp
  have part : midway ⊆ inside.erase thread := by
    intro owner counted
    obtain ⟨addr',j,phase⟩ := (tally.counted owner).mp counted
    refine Finset.mem_erase.mpr ⟨?_,?_⟩
    · rintro rfl
      rw [ready] at phase
      cases phase
    · rw [tally.busy,phase]
      simp
  have fewer := Finset.card_le_card part
  have positive := Finset.card_pos.mpr ⟨_,member⟩
  have flags := tally.flags
  have counter := tally.counter
  rw [Finset.card_erase_of_mem member] at fewer
  omega

theorem Tally.decrement {thread addr i : Nat} (tally : Tally past state held inside midway)
    (ready : state.phase thread = .lookedUp addr i) :
    Tally (.decrement thread::past)
      { pool := state.pool.decrement, phase := Function.update state.phase thread (.decremented addr i) } held inside
      (insert thread midway) := by
  have positive := tally.positive ready
  have absent : thread ∉ midway := by
    rw [tally.counted,ready]
    simp
  refine ⟨tally.holds,?_,?_,tally.flags,?_⟩
  · intro owner
    rw [tally.busy]
    by_cases same : owner = thread
    · subst owner
      simp [ready]
    · simp [same]
  · intro owner
    rw [Finset.mem_insert,tally.counted]
    by_cases same : owner = thread
    · simp [same]
    · simp [same]
  · have before := tally.counter
    rw [Finset.card_insert_of_notMem absent]
    change (if state.pool.useCounts = 0 then 2^32 - 1 else state.pool.useCounts - 1) + _ =
      state.pool.usedFlags
    rw [if_neg (Nat.pos_iff_ne_zero.mp positive)]
    omega

theorem Tally.clear {thread addr i start index : Nat} {after : MemoryPool}
    (tally : Tally past state held inside midway) (ready : state.phase thread = .decremented addr i)
    (sound : state.pool.Sound) (used : state.pool.Used start index)
    (cleared : Cleared state.pool start index after) :
    Tally (.clear thread::past) { pool := after, phase := Function.update state.phase thread .idle }
      held
      (inside.erase thread) (midway.erase thread) := by
  have flags := cleared.usedFlags sound used
  have busy : thread ∈ inside := by
    rw [tally.busy,ready]
    simp
  have counted := (tally.counted thread).mpr ⟨addr,i,ready⟩
  have someBusy := Finset.card_pos.mpr ⟨_,busy⟩
  have someCounted := Finset.card_pos.mpr ⟨_,counted⟩
  have total := tally.flags
  have counter := tally.counter
  refine ⟨tally.holds,?_,?_,?_,?_⟩
  · intro owner
    rw [Finset.mem_erase,tally.busy]
    by_cases same : owner = thread
    · simp [same]
    · simp [same]
  · intro owner
    rw [Finset.mem_erase,tally.counted]
    by_cases same : owner = thread
    · simp [same]
    · simp [same]
  · rw [Finset.card_erase_of_mem busy]
    dsimp only
    omega
  · rw [Finset.card_erase_of_mem counted]
    dsimp only
    rw [cleared.useCounts]
    omega

end

section
variable {blockCount blockSize blockGroupSize : Nat} (positive : 1 ≤ blockSize)
  (small : blockSize * blockGroupSize < 2^32) {history : List Event} {state : State}
include positive small

private theorem held_inside
    (run : Run (Constructed blockCount blockSize blockGroupSize) Settled Step history state)
    {thread start index : Nat} (held : Holds history thread start index) :
    index * state.pool.blockSize < state.pool.arrayBytes := by
  have consistent := reached_consistent run
  obtain ⟨size,count⟩ := reached_sizes run
  obtain ⟨_,bound⟩ := consistent.sound.used_index (consistent.used thread start index (Or.inl held))
  rw [arrayBytes,size,count,u32_of_lt small,Nat.mul_comm blockSize]
  rw [count] at bound
  exact Nat.mul_lt_mul_of_pos_right bound positive

private theorem returning_settled
    (run : Run (Constructed blockCount blockSize blockGroupSize) Returning Step history state) :
    Run (Constructed blockCount blockSize blockGroupSize) Settled Step history state := by
  induction run with
  | start state ready => exact .start state ready
  | next past before event after _ permitted step settled =>
    refine .next past before event after settled ?_ step
    cases event with
    | lookup thread start index found =>
      exact ⟨permitted,held_inside positive small settled permitted⟩
    | recovery thread => exact permitted.elim
    | getBlock => trivial
    | decrement => trivial
    | clear => trivial

private theorem reached_tally
    (run : Run (Constructed blockCount blockSize blockGroupSize) Returning Step history state) :
    state.pool.allFlags < 2^32 → ∃ held inside midway, Tally history state held inside midway := by
  refine run.invariant
    (fun history state => state.pool.allFlags < 2^32 →
      ∃ held inside midway, Tally history state held inside midway) ?_ ?_
  · rintro state ⟨idle,heap,rest,arrays,call⟩ _
    have initial := create_initial blockCount blockSize blockGroupSize heap rest
      state.pool arrays call
    have none : state.pool.usedFlags = 0 :=
      initial.sound.usedFlags_eq List.nodup_nil fun s k => by simp [initial.unused s k]
    refine ⟨∅,∅,∅,?_,?_,?_,none,?_⟩
    · intro thread start index
      simp [Holds]
    · intro thread
      simp [idle thread]
    · intro thread
      simp [idle thread]
    · rw [none,(create_counts call).2.2]
      rfl
  · intro past before event after reached tallied permitted step few
    have settled := returning_settled positive small reached
    have consistent := reached_consistent settled
    cases step with
    | getBlock thread start index heap rest after ready fresh call =>
      have taken := takeBlock_taken _ after heap rest start index consistent.sound fresh call
      have grows := takeBlock_allFlags consistent.sound taken call
      obtain ⟨held,inside,midway,tally⟩ := tallied (Nat.lt_of_le_of_lt grows few)
      exact ⟨_,_,_,tally.getBlock consistent taken call few⟩
    | recovery thread after ready call => exact permitted.elim
    | lookup thread start index found i ready call =>
      obtain ⟨held,inside,midway,tally⟩ := tallied few
      obtain ⟨rfl,_⟩ := consistent.found permitted
        (held_inside positive small settled permitted) call
      exact ⟨_,_,_,tally.lookup permitted ready _⟩
    | decrement thread addr i ready =>
      obtain ⟨held,inside,midway,tally⟩ := tallied few
      exact ⟨_,_,_,tally.decrement ready⟩
    | clear thread addr i after ready call =>
      obtain ⟨start,index,_,result,returned,_,_,_,_,clears,cleared⟩ :=
        consistent.clears (by rw [ready]; rfl)
      rw [call] at clears
      cases clears
      have same : after.allFlags = before.pool.allFlags := by
        rw [consistent.sound.allFlags_eq,cleared.sound.allFlags_eq,cleared.blockGroupSize,
          cleared.length]
      obtain ⟨held,inside,midway,tally⟩ := tallied (same ▸ few)
      exact ⟨_,_,_,tally.clear ready consistent.sound
        (consistent.used thread start index (Or.inr returned)) cleared⟩

end

/-- The counter lags behind the flags by the threads that have counted down and not yet
cleared. It never wraps, counts the held blocks when no thread is inside backBlock, and
no two threads hold one block. -/
theorem threads_account (blockCount blockSize blockGroupSize : Nat) (positive : 1 ≤ blockSize)
    (small : blockSize * blockGroupSize < 2^32) (history : List Event) (state : State)
    (run : Run (Constructed blockCount blockSize blockGroupSize) Returning Step history state)
    (few : state.pool.allFlags < 2^32) :
    (∃ midway : Finset Nat, (∀ thread, thread ∈ midway ↔
      ∃ addr i, state.phase thread = .decremented addr i) ∧
      state.pool.useCounts + midway.card = state.pool.usedFlags) ∧
    (∀ thread addr i, state.phase thread = .lookedUp addr i → 0 < state.pool.useCounts) ∧
    (∃ held : Finset (Nat × Nat × Nat),
      (∀ thread start index, (thread,start,index) ∈ held ↔ Holds history thread start index) ∧
      ((∀ thread, state.phase thread = .idle) → state.pool.useCounts = held.card)) ∧
    (∀ thread start index other start' index', Holds history thread start index →
      Holds history other start' index' →
      start + index * blockSize = start' + index' * blockSize → thread = other ∧ start = start' ∧
        index = index') := by
  obtain ⟨held,inside,midway,tally⟩ := reached_tally positive small run few
  refine ⟨⟨midway,tally.counted,tally.counter⟩,fun _ _ _ ready => tally.positive ready,
    ⟨held,tally.holds,?_⟩,?_⟩
  · intro idle
    have nobody : inside = ∅ := Finset.eq_empty_of_forall_notMem fun thread busy =>
      (tally.busy thread).mp busy (idle thread)
    have uncounted : midway = ∅ := by
      refine Finset.eq_empty_of_forall_notMem fun thread member => ?_
      obtain ⟨addr,i,phase⟩ := (tally.counted thread).mp member
      rw [idle thread] at phase
      cases phase
    have flags := tally.flags
    have counter := tally.counter
    rw [nobody,Finset.card_empty] at flags
    rw [uncounted,Finset.card_empty] at counter
    omega
  · intro thread start index other start' index' mine yours same
    have settled := returning_settled positive small run
    have consistent := reached_consistent settled
    obtain ⟨rfl,rfl⟩ := reached_sizes settled
    obtain ⟨listed,bound⟩ := consistent.sound.used_index
      (consistent.used thread start index (Or.inl mine))
    obtain ⟨listed',bound'⟩ := consistent.sound.used_index
      (consistent.used other start' index' (Or.inl yours))
    obtain ⟨rfl,rfl⟩ := MemoryRuns.block_unique consistent.sound ⟨positive,small⟩
      (start + index * state.pool.blockSize)
      listed listed' bound bound' (by omega) (by omega)
    exact ⟨consistent.exclusive thread other start index (Or.inl mine) (Or.inl yours),rfl,rfl⟩

/-- Thread 0 is between the counter and the flag, thread 1 behind its lookup. -/
theorem threads_account_midway :
    ∃ state : State, state.phase 0 = .decremented 4096 0 ∧ state.phase 1 = .lookedUp 4112 0 ∧
      (∃ midway : Finset Nat, (∀ thread, thread ∈ midway ↔
        ∃ addr i, state.phase thread = .decremented addr i) ∧
        state.pool.useCounts + midway.card = state.pool.usedFlags) ∧
      0 < state.pool.useCounts ∧ state.pool.usedFlags = 2 := by
  have constructed : Constructed 0 16 2
      ⟨{ MemoryRuns.pairPool with useCounts := 0, blockGroups := [⟨4096,[false,false]⟩] },
          fun _ => .idle⟩ :=
    ⟨fun _ => rfl,MemoryRuns.pairPool_constructed⟩
  have first : Run (Constructed 0 16 2) Returning Step [.getBlock 0 4096 0]
      ⟨MemoryRuns.pairPool,fun _ => .idle⟩ :=
    .next [] _ _ _ (.start _ constructed) trivial
      (Step.getBlock _ 0 4096 0 [] [] _ rfl (by simp) rfl)
  have second := Run.next _ _ (Event.getBlock 1 4096 1) _ first trivial
    (Step.getBlock _ 1 4096 1 [] [] _ rfl (by simp) rfl)
  have looked := Run.next _ _ (Event.lookup 0 4096 0 true) _ second (Or.inr (Or.inl ⟨rfl,rfl,rfl⟩))
    (Step.lookup _ 0 4096 0 true 0 rfl rfl)
  have counted := Run.next _ _ (Event.decrement 0) _ looked trivial (Step.decrement _ 0 4096 0 rfl)
  have run := Run.next _ _ (Event.lookup 1 4096 1 true) _ counted ⟨Or.inl ⟨rfl,rfl,rfl⟩,by decide⟩
    (Step.lookup _ 1 4096 1 true 0 rfl rfl)
  obtain ⟨midway,positive,_⟩ := threads_account 0 16 2 (by decide) (by decide) _ _ run (by decide)
  exact ⟨_,rfl,rfl,midway,positive 1 4112 0 rfl,rfl⟩

end MCoroutine.ThreadCounts
