import MCoroutine.General.HeapTraffic
import MCoroutine.MemoryQueries

/-! The arrays of a memory pool from its construction to its destruction: none is
released twice or while a block in it is handed out, and none is left. -/
namespace MCoroutine.HeapBalance
open General.HeapTraffic General.Runs MemoryPool MemoryQueries MemoryRecovery MemoryRuns

/-- `~MemoryPool() = default`: the arrays that the groups release. -/
def destruct (pool : MemoryPool) : List Nat := pool.starts

/-- What the pool asked of the heap, in order, from its constructor on. -/
def traffic (arrays : List Nat) : List MemoryQueries.Event → List (Traffic Nat)
  | [] => arrays.map .allocate
  | .getBlock _ allocated::past => traffic arrays past ++ allocated.map .allocate
  | .backBlock _::past => traffic arrays past
  | .recovery released::past => traffic arrays past ++ released.map .release

section
variable {arrays : List Nat} {blockCount blockSize blockGroupSize : Nat}
  {history : List MemoryQueries.Event} {pool : MemoryPool}

private theorem replay_next {first second : List (Traffic Nat)} {middle : List Nat}
    (replayed : replay first [] = some middle) :
    replay (first ++ second) [] = replay second middle := by
  rw [replay_append,replayed]
  rfl

private theorem reached_replays
    (run : MemoryQueries.Reached arrays blockCount blockSize blockGroupSize history pool) :
    ∃ live, replay (traffic arrays history) [] = some live ∧ live.Perm pool.starts := by
  apply run.invariant (fun history pool => ∃ live, replay (traffic arrays history) [] = some live ∧
    live.Perm pool.starts)
  · rintro pool constructed
    have sound := (reached_sound (reached_plain (.start pool constructed))).1
    obtain ⟨rest,_,call⟩ := constructed
    have listed : pool.starts = arrays := List.append_cancel_right (create_arrays call).1
    have nodup := sound.separate.nodup
    rw [listed] at nodup ⊢
    simpa [traffic] using replay_allocate arrays [] (by simpa using nodup)
  · intro past before event after reached replays _ step
    obtain ⟨live,replayed,perm⟩ := replays
    have sound := (reached_sound (reached_plain reached)).1
    have later :=
      (reached_sound (reached_plain (.next past before event after reached trivial step))).1
    cases step with
    | getBlock _ allocated rest addr _ call =>
      obtain ⟨⟨array,index,next,tail⟩,taken,result⟩ := bind_success call
      cases result
      have kept := (takeBlock_arrays before after _ rest array index taken).1
      rw [← List.append_assoc] at kept
      have grown : after.starts = before.starts ++ allocated := List.append_cancel_right kept
      have order : (allocated ++ live).Perm after.starts := by
        rw [grown]
        exact List.perm_append_comm.trans (perm.append_right allocated)
      obtain ⟨more,allocates,same⟩ := replay_allocate allocated live
        (order.nodup_iff.mpr later.separate.nodup)
      rw [traffic,replay_next replayed]
      exact ⟨more,allocates,same.trans order⟩
    | backBlock _ addr call =>
      refine ⟨live,replayed,perm.trans ?_⟩
      rcases backBlock_effect before after addr sound call with ⟨_,_,_,cleared⟩ | ⟨same,_⟩
      · rw [cleared.starts]
        exact .refl _
      · rw [same]
    | recovery _ call =>
      have split := (recovery_conserves before after call).map (·.start)
      rw [List.map_append] at split
      have order : live.Perm ((releasedGroups before).map (·.start) ++ after.starts) :=
        perm.trans (split.symm.trans List.perm_append_comm)
      rw [traffic,replay_next replayed]
      exact replay_release _ after.starts live order

private theorem held_allocated (positive : 1 ≤ blockSize)
    (small : blockSize * blockGroupSize < 2^32)
    (run : MemoryQueries.Reached arrays blockCount blockSize blockGroupSize history pool)
    {block : Nat} (held : Held blockSize (history.map Event.plain) block) :
    ∃ start ∈ pool.starts, start ≤ block ∧
      block + blockSize ≤ start + blockSize * blockGroupSize := by
  have tracked := reached_tracked positive small (reached_plain run)
  have fits := tracked.fits positive small
  obtain ⟨start,index,used,rfl⟩ := (tracked.held block).mp held
  obtain ⟨listed,bound⟩ := tracked.sound.used_index used
  have room := block_inside fits start bound
  rw [arrayBytes_fits fits,tracked.size,tracked.count] at room
  exact ⟨start,listed,by omega,by omega⟩

end

/-- The heap never faults on the traffic of a pool, what is live are its arrays, every
block handed out lies in one of them, and the destructor releases exactly these. -/
theorem heap_balanced (arrays : List Nat) (blockCount blockSize blockGroupSize : Nat)
    (history : List MemoryQueries.Event) (pool : MemoryPool)
    (run : MemoryQueries.Reached arrays blockCount blockSize blockGroupSize history pool) :
    (∃ live, replay (traffic arrays history) [] = some live ∧ live.Perm pool.starts ∧
      (1 ≤ blockSize → blockSize * blockGroupSize < 2^32 →
        ∀ block, Held blockSize (history.map Event.plain) block →
        ∃ start ∈ live, start ≤ block ∧ block + blockSize ≤ start + blockSize * blockGroupSize)) ∧
    replay (traffic arrays history ++ (destruct pool).map .release) [] = some [] := by
  obtain ⟨live,replayed,perm⟩ := reached_replays run
  constructor
  · refine ⟨live,replayed,perm,?_⟩
    intro positive small block held
    obtain ⟨start,listed,inside⟩ := held_allocated positive small run held
    exact ⟨start,perm.mem_iff.mpr listed,inside⟩
  · rw [replay_next replayed]
    obtain ⟨after,released,empty⟩ := replay_release (destruct pool) [] live
      (by simpa [destruct] using perm)
    rw [released,List.perm_nil.mp empty]

theorem heap_balanced_pair :
    replay (traffic [4096] [.recovery [4096],.backBlock 4096,.getBlock 4096 []] ++
      (destruct { pairPool with allCounts := 0, useCounts := 0, blockGroups := [] }).map .release)
        [] = some [] := by
  have constructed : MemoryQueries.Constructed [4096] 0 16 2
      { pairPool with useCounts := 0, blockGroups := [⟨4096,[false,false]⟩] } :=
        ⟨[],heapArrays_single (by decide),rfl⟩
  have taken : MemoryQueries.Reached [4096] 0 16 2 [.getBlock 4096 []] pairPool :=
    .next [] _ _ _ (.start _ constructed) trivial
      (MemoryQueries.Step.getBlock _ _ [] [] 4096 (by simp) rfl)
  have given := Run.next _ _ _ _ taken trivial (MemoryQueries.Step.backBlock _ _ 4096 rfl)
  have recovered := Run.next _ _ _ _ given trivial (MemoryQueries.Step.recovery _ _ rfl)
  exact (heap_balanced [4096] 0 16 2 _ _ recovered).2

end MCoroutine.HeapBalance
