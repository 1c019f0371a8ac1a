import MCoroutine.MemoryCounts
import MCoroutine.MemoryRuns

/-! The counters along sequential runs, against the blocks that the history of the run
leaves handed out. -/
namespace MCoroutine.MemoryAccounts
open General.Runs MemoryPool MemoryRuns

/-- The results of getBlock that have not been returned, the last one first. -/
def handedOut (blockSize : Nat) : List Event → List Nat
  | [] => []
  | .getBlock addr::past => addr::handedOut blockSize past
  | .backBlock addr::past => (handedOut blockSize past).filter fun block =>
    ¬ (block ≤ addr ∧ addr < block + blockSize)
  | .recovery::past => handedOut blockSize past

theorem mem_handedOut (blockSize : Nat) (history : List Event) (block : Nat) :
    block ∈ handedOut blockSize history ↔ Held blockSize history block := by
  induction history with
  | nil => simp [handedOut,Held]
  | cons event past ih =>
    cases event with
    | getBlock addr => rw [handedOut,Held,List.mem_cons,ih]
    | backBlock addr => rw [handedOut,Held,List.mem_filter,ih,decide_eq_true_iff]
    | recovery => exact ih

def Lawful (blockSize : Nat) (history : List Event) (_ : MemoryPool) : Event → Prop
  | .backBlock addr => InHeld blockSize history addr
  | _ => True

/-- The counter can count one block more, and what is returned is handed out or lies in
no array of the pool. -/
def Careful (blockSize : Nat) (history : List Event) (pool : MemoryPool) : Event → Prop
  | .getBlock _ => pool.useCounts + 1 < 2^32
  | .backBlock addr =>
    InHeld blockSize history addr ∨ ∀ group ∈ pool.blockGroups, pool.inGroup addr group = false
  | .recovery => True

theorem getBlock_counts {pool after : MemoryPool} {heap rest : List Nat} {addr : Nat}
    (call : pool.getBlock heap = .ok (addr,after,rest)) :
    after.useCounts = u32 (pool.useCounts + 1) := by
  obtain ⟨⟨start,index,next,tail⟩,taken,result⟩ := bind_success call
  cases result
  exact (takeBlock_counts taken).1

theorem recovery_uses {pool after : MemoryPool} (call : pool.recovery = .ok after) :
    after.useCounts = pool.useCounts := (recoveryLoop_sweep _ _ _ _ call).2.2.2

private theorem handedOut_returned {blockSize addr : Nat} {past : List Event}
    (held : InHeld blockSize past addr) :
    (handedOut blockSize (.backBlock addr::past)).length + 1 ≤
      (handedOut blockSize past).length := by
  obtain ⟨block,held,inside⟩ := held
  refine List.length_filter_lt_length_iff_exists.mpr
    ⟨block,(mem_handedOut blockSize past block).mpr held,?_⟩
  simpa using inside

private theorem backBlock_counts {blockSize addr : Nat} {history : List Event}
    {pool after : MemoryPool} (sound : pool.Sound)
    (covers : (handedOut blockSize history).length ≤ pool.useCounts)
    (permitted : Careful blockSize history pool (.backBlock addr))
    (call : pool.backBlock addr = .ok after) :
    after.useCounts = pool.useCounts ∨ (InHeld blockSize history addr ∧
      after.useCounts + 1 = pool.useCounts) := by
  rcases backBlock_effect pool after addr sound call with ⟨group,member,inside,cleared⟩ | ⟨same,_⟩
  · rcases permitted with held | outside
    · have fewer := handedOut_returned held
      refine Or.inr ⟨held,?_⟩
      rw [cleared.useCounts,decrement]
      dsimp only
      rw [if_neg (by omega)]
      omega
    · rw [outside group member] at inside
      cases inside
  · exact Or.inl (by rw [same])

private theorem handedOut_shrinks (blockSize addr : Nat) (past : List Event) :
    (handedOut blockSize (.backBlock addr::past)).length ≤ (handedOut blockSize past).length :=
  List.length_filter_le _ _

private theorem reached_covers {blockCount blockSize blockGroupSize : Nat} {history : List Event}
    {pool : MemoryPool}
    (run : Run (Constructed blockCount blockSize blockGroupSize)
      (Careful blockSize) Step history pool) :
    (handedOut blockSize history).length ≤ pool.useCounts := by
  refine run.invariant (fun history pool =>
    (handedOut blockSize history).length ≤ pool.useCounts) ?_ ?_
  · intro pool _
    exact Nat.zero_le _
  · intro past before event after reached covers permitted step
    have sound := (reached_sound (reached.weaken fun _ _ _ _ _ _ _ => trivial)).1
    cases step with
    | getBlock _ heap rest addr _ call =>
      rw [getBlock_counts call,u32_of_lt permitted,handedOut,List.length_cons]
      omega
    | backBlock _ addr call =>
      rcases backBlock_counts sound covers permitted call with same | ⟨held,less⟩
      · rw [same]
        exact Nat.le_trans (handedOut_shrinks blockSize addr past) covers
      · have fewer := handedOut_returned held
        omega
    | recovery _ call =>
      rw [recovery_uses call]
      exact covers

private theorem backBlock_unchanged_iff {pool : MemoryPool} (sound : pool.Sound) (addr : Nat) :
    pool.backBlock addr = .ok pool ↔
      (∀ group ∈ pool.blockGroups, pool.inGroup addr group = false) ∧
        pool.blockGroups.length < 2^32 := by
  constructor
  · intro call
    have outside : ∀ group ∈ pool.blockGroups, pool.inGroup addr group = false := by
      rcases backBlock_effect pool pool addr sound call with ⟨_,_,_,cleared⟩ | ⟨_,outside⟩
      · have counter := cleared.useCounts
        rw [decrement] at counter
        dsimp only at counter
        split at counter
        · omega
        · omega
      · exact outside
    have absent := List.findIdx?_eq_none_iff.mpr outside
    refine ⟨outside,?_⟩
    by_contra many
    rw [backBlock,hasBlockHelp,absent] at call
    dsimp only at call
    rw [if_neg many] at call
    cases call
  · rintro ⟨outside,few⟩
    have absent := List.findIdx?_eq_none_iff.mpr outside
    rw [backBlock,hasBlockHelp,absent]
    dsimp only
    rw [if_pos few]
    rfl

/-- backBlock leaves the pool as it is exactly for the addresses outside its arrays. In
runs that return nothing else but blocks handed out, the counter covers these and counts
down by one at most. -/
theorem unheld_rejected_iff (blockCount blockSize blockGroupSize : Nat) (history : List Event)
    (pool : MemoryPool) (run : Reached blockCount blockSize blockGroupSize history pool) :
    (∀ addr, pool.backBlock addr = .ok pool ↔
      (∀ group ∈ pool.blockGroups, pool.inGroup addr group = false) ∧
        pool.blockGroups.length < 2^32) ∧
    (Run (Constructed blockCount blockSize blockGroupSize) (Careful blockSize) Step history pool →
      (handedOut blockSize history).length ≤ pool.useCounts ∧
      ∀ addr after, Careful blockSize history pool (.backBlock addr) →
        pool.backBlock addr = .ok after →
        after.useCounts = pool.useCounts ∨ after.useCounts + 1 = pool.useCounts) := by
  have sound := (reached_sound run).1
  refine ⟨backBlock_unchanged_iff sound,?_⟩
  intro careful
  have covers := reached_covers careful
  refine ⟨covers,?_⟩
  intro addr after permitted call
  exact (backBlock_counts sound covers permitted call).imp_right fun both => both.2

theorem unheld_rejected_foreign : pairPool.backBlock 8192 = .ok pairPool ∧
    (handedOut 16 [.getBlock 4096]).length ≤ pairPool.useCounts := by
  obtain ⟨rejected,careful⟩ := unheld_rejected_iff 0 16 2 [.getBlock 4096] pairPool pairPool_reached
  refine ⟨(rejected 8192).mpr (by decide),(careful ?_).1⟩
  exact Run.next [] _ _ _ (Run.start _ pairPool_constructed) (show 0 + 1 < 2^32 by decide)
    (Step.getBlock _ _ [] [] 4096 (by simp) rfl)

/-- A block returned a second time: nothing is handed out, and the counter wraps. -/
theorem second_return_uncounts :
    ∃ history pool after, Reached 0 16 2 history pool ∧ ¬ InHeld 16 history 4096 ∧
      handedOut 16 history = [] ∧
      pool.backBlock 4096 = .ok after ∧ after ≠ pool ∧ after.useCounts = 2^32 - 1 := by
  have returned := Run.next _ _ (Event.backBlock 4096) _ pairPool_reached trivial
    (Step.backBlock _ _ 4096 rfl)
  refine ⟨_,_,_,returned,?_,by decide,rfl,by decide,rfl⟩
  rintro ⟨block,held,_⟩
  rw [← mem_handedOut] at held
  cases held

structure Accounted (blockSize : Nat) (history : List Event) (pool : MemoryPool) : Prop where
  nodup : (handedOut blockSize history).Nodup
  used : pool.usedFlags = (handedOut blockSize history).length
  useCounts : pool.useCounts = u32 pool.usedFlags
  whole : pool.Whole

private theorem returned_one {blockSize blockGroupSize addr : Nat} {past : List Event}
    {pool : MemoryPool} (tracked : Tracked blockSize blockGroupSize past pool) (fits : pool.Fits)
    (nodup : (handedOut blockSize past).Nodup) (held : InHeld blockSize past addr) :
    (handedOut blockSize (.backBlock addr::past)).length + 1 =
      (handedOut blockSize past).length := by
  obtain ⟨block,held,inside⟩ := held
  have only (other : Nat) (present : other ∈ handedOut blockSize past) :
      (other ≤ addr ∧ addr < other + blockSize) ↔ other = block := by
    constructor
    · exact fun within => tracked.one fits held inside
        ((mem_handedOut blockSize past other).mp present) within
    · rintro rfl
      exact inside
  have erased : handedOut blockSize (.backBlock addr::past) =
      (handedOut blockSize past).erase block := by
    rw [nodup.erase_eq_filter,handedOut]
    refine List.filter_congr ?_
    intro other present
    rw [Bool.eq_iff_iff]
    simp [only other present]
  have member := (mem_handedOut blockSize past block).mpr held
  have positive := List.length_pos_of_mem member
  rw [erased,List.length_erase_of_mem member]
  omega

theorem Accounted.getBlock {blockSize blockGroupSize addr : Nat} {past : List Event}
    {pool after : MemoryPool} {heap rest : List Nat} (accounted : Accounted blockSize past pool)
    (tracked : Tracked blockSize blockGroupSize past pool) (fits : pool.Fits)
    (fresh : ∀ array ∈ heap.head?, pool.Fresh array)
    (call : pool.getBlock heap = .ok (addr,after,rest)) :
    Accounted blockSize (.getBlock addr::past) after := by
  have counts := getBlock_counts call
  obtain ⟨⟨start,index,next,tail⟩,call,result⟩ := bind_success call
  cases result
  have taken := takeBlock_taken pool after heap rest start index tracked.sound fresh call
  have flags := taken.usedFlags tracked.sound
  obtain ⟨address,apart⟩ := tracked.apart fits taken
  refine ⟨?_,?_,?_,accounted.whole.taken call⟩
  · refine List.nodup_cons.mpr ⟨?_,accounted.nodup⟩
    intro member
    have held := (mem_handedOut blockSize past _).mp member
    have overlap := apart _ held
    have positive : 0 < blockSize := tracked.size ▸ fits.1
    omega
  · rw [flags,accounted.used,handedOut,List.length_cons]
  · rw [counts,flags,accounted.useCounts]
    unfold u32
    omega

theorem Accounted.backBlock {blockSize blockGroupSize addr : Nat} {past : List Event}
    {pool after : MemoryPool} (accounted : Accounted blockSize past pool)
    (tracked : Tracked blockSize blockGroupSize past pool) (fits : pool.Fits)
    (held : InHeld blockSize past addr) (call : pool.backBlock addr = .ok after) :
    Accounted blockSize (.backBlock addr::past) after := by
  have fewer := returned_one tracked fits accounted.nodup held
  obtain ⟨block,held,inside⟩ := held
  obtain ⟨start,index,used,_,cleared⟩ := tracked.returns fits held inside call
  have flags : after.usedFlags + 1 = pool.usedFlags :=
    cleared.usedFlags tracked.sound.decrement used
  refine ⟨accounted.nodup.filter _,?_,?_,
    Whole.cleared (show pool.decrement.Whole from accounted.whole) cleared⟩
  · have total := accounted.used
    omega
  · rw [cleared.useCounts,decrement,accounted.useCounts]
    unfold u32
    dsimp only
    split
    · omega
    · omega

theorem Accounted.recovery {blockSize : Nat} {past : List Event} {pool after : MemoryPool}
    (accounted : Accounted blockSize past pool) (sound : pool.Sound)
    (sized : pool.blockGroupSize < 2^32) (call : pool.recovery = .ok after) :
    Accounted blockSize (.recovery::past) after := by
  have flags := (recovery_recovered pool after sound call).usedFlags sound
  refine ⟨accounted.nodup,?_,?_,accounted.whole.recovered sized call⟩
  · rw [flags]
    exact accounted.used
  · rw [recovery_uses call,flags]
    exact accounted.useCounts

theorem group_sized {blockSize blockGroupSize : Nat} (positive : 1 ≤ blockSize)
    (small : blockSize * blockGroupSize < 2^32) : blockGroupSize < 2^32 := by
  have product := Nat.mul_le_mul_right blockGroupSize positive
  omega

theorem reached_accounted {blockCount blockSize blockGroupSize : Nat} (positive : 1 ≤ blockSize)
    (small : blockSize * blockGroupSize < 2^32) {history : List Event} {pool : MemoryPool}
    (run : Run (Constructed blockCount blockSize blockGroupSize)
      (Lawful blockSize) Step history pool) :
    Accounted blockSize history pool := by
  refine run.invariant (Accounted blockSize) ?_ ?_
  · rintro pool ⟨heap,rest,arrays,call⟩
    have initial := create_initial blockCount blockSize blockGroupSize heap rest pool arrays call
    obtain ⟨_,all,used⟩ := create_counts call
    have none : pool.usedFlags = 0 :=
      initial.sound.usedFlags_eq List.nodup_nil fun s k => by simp [initial.unused s k]
    refine ⟨List.nodup_nil,none,?_,?_⟩
    · rw [used,none]
      rfl
    · rw [Whole,initial.blockGroupSize]
      exact all
  · intro past before event after reached accounted lawful step
    have tracked := reached_tracked positive small (reached.weaken fun _ _ _ _ _ _ _ => trivial)
    have fits := tracked.fits positive small
    cases step with
    | getBlock _ heap rest addr fresh call => exact accounted.getBlock tracked fits fresh call
    | backBlock _ addr call => exact accounted.backBlock tracked fits lawful call
    | recovery _ call =>
      exact accounted.recovery tracked.sound (tracked.count ▸ group_sized positive small) call

/-- Both counters hold, modulo `2^32`, what they count: the set flags, one for each block
handed out and not returned, and all flags of the live groups. -/
theorem counters_account (blockCount blockSize blockGroupSize : Nat) (positive : 1 ≤ blockSize)
    (small : blockSize * blockGroupSize < 2^32) (history : List Event) (pool : MemoryPool)
    (run : Run (Constructed blockCount blockSize blockGroupSize)
      (Lawful blockSize) Step history pool) :
    (pool.useCounts = u32 pool.usedFlags ∧ pool.usedFlags = (handedOut blockSize history).length ∧
      (handedOut blockSize history).Nodup ∧ ∀ block, block ∈ handedOut blockSize history ↔
        Held blockSize history block) ∧
    pool.allCounts = u32 pool.allFlags ∧
      pool.allFlags = pool.blockGroups.length * blockGroupSize := by
  obtain ⟨nodup,used,useCounts,whole⟩ := reached_accounted positive small run
  obtain ⟨sound,_,rfl⟩ := reached_sound (run.weaken fun _ _ _ _ _ _ _ => trivial)
  refine ⟨⟨useCounts,used,nodup,mem_handedOut blockSize history⟩,?_,sound.allFlags_eq⟩
  rw [sound.allFlags_eq]
  exact whole

theorem counters_account_pair :
    ∃ pool, Run (Constructed 0 16 2) (Lawful 16) Step
      [.backBlock 4096,.getBlock 4112,.getBlock 4096] pool ∧
      pool.useCounts = u32 pool.usedFlags ∧ pool.usedFlags = 1 ∧
        pool.allCounts = u32 pool.allFlags := by
  have first : Run (Constructed 0 16 2) (Lawful 16) Step [.getBlock 4096] pairPool :=
    Run.next [] _ _ _ (Run.start _ pairPool_constructed) trivial
      (Step.getBlock _ _ [] [] 4096 (by simp) rfl)
  have second := Run.next _ _ (Event.getBlock 4112) _ first trivial
    (Step.getBlock _ _ [] [] 4112 (by simp) rfl)
  have returned := Run.next _ _ (Event.backBlock 4096) _ second ⟨4096,Or.inr (Or.inl rfl),by decide⟩
    (Step.backBlock _ _ 4096 rfl)
  obtain ⟨⟨useCounts,used,_,_⟩,allCounts,_⟩ :=
    counters_account 0 16 2 (by decide) (by decide) _ _ returned
  exact ⟨_,returned,useCounts,used,allCounts⟩

end MCoroutine.MemoryAccounts
