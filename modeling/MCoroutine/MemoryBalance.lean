import MCoroutine.MemoryAccounts

/-! A stretch of a run that returns what it obtained. Whatever it did to the groups, a
recovery at its end leaves what a recovery at its beginning would have left. -/
namespace MCoroutine.MemoryBalance
open General.Runs MemoryPool MemoryRuns MemoryAccounts MemoryRecovery

/-- `use` is the history of the stretch, whose steps return only blocks of its own. -/
abbrev Use (blockSize : Nat) (pool : MemoryPool) (use : List Event) (state : MemoryPool) : Prop :=
  Run (fun state => state = pool) (Lawful blockSize) Step use state

private theorem use_reached {blockCount blockSize blockGroupSize : Nat} {history use : List Event}
    {pool state : MemoryPool} (run : Reached blockCount blockSize blockGroupSize history pool)
    (stretch : Use blockSize pool use state) :
    Reached blockCount blockSize blockGroupSize (use ++ history) state :=
  run.append (stretch.weaken fun _ _ _ _ _ _ _ => trivial)

/-- What the stretch holds lies apart from what was held before, and the flags and the
counter move together. -/
structure Beside (blockSize : Nat) (history use : List Event) (pool state : MemoryPool) : Prop where
  held : ∀ block, Held blockSize (use ++ history) block ↔ Held blockSize use block ∨
    Held blockSize history block
  own : ∀ block, Held blockSize use block → ¬ Held blockSize history block
  base : ∀ s k, pool.Used s k → state.Used s k
  counts : state.useCounts + pool.usedFlags ≡ pool.useCounts + state.usedFlags [MOD 2^32]

section
variable {blockSize blockGroupSize : Nat} {history use : List Event} {pool state after : MemoryPool}
  (beside : Beside blockSize history use pool state)
  (tracked : Tracked blockSize blockGroupSize (use ++ history) state)
include beside tracked

theorem Beside.getBlock {heap rest : List Nat} {addr : Nat} (fits : state.Fits)
    (fresh : ∀ array ∈ heap.head?, state.Fresh array)
    (call : state.getBlock heap = .ok (addr,after,rest)) :
    Beside blockSize history (.getBlock addr::use) pool after := by
  have uses := getBlock_counts call
  obtain ⟨⟨start,index,next,tail⟩,call,result⟩ := bind_success call
  cases result
  have taken := takeBlock_taken state after heap rest start index tracked.sound fresh call
  obtain ⟨address,apart⟩ := tracked.apart fits taken
  refine ⟨?_,?_,?_,?_⟩
  · intro block
    rw [List.cons_append,Held,Held,beside.held,or_assoc]
  · rintro block (rfl | held) before
    · have overlap := apart _ ((beside.held _).mpr (Or.inr before))
      have positive : 0 < blockSize := tracked.size ▸ fits.1
      omega
    · exact beside.own block held before
  · exact fun s k used => (taken.used s k).mpr (Or.inl (beside.base s k used))
  · have counts := beside.counts
    rw [uses,taken.usedFlags tracked.sound]
    unfold Nat.ModEq u32 at *
    omega

theorem Beside.backBlock {addr : Nat} (fits : state.Fits)
    (prior : Tracked blockSize blockGroupSize history pool) (lawful : InHeld blockSize use addr)
    (call : state.backBlock addr = .ok after) :
    Beside blockSize history (.backBlock addr::use) pool after := by
  obtain ⟨block,mine,inside⟩ := lawful
  have held := (beside.held block).mpr (Or.inl mine)
  obtain ⟨start,index,used,rfl,cleared⟩ := tracked.returns fits held inside call
  refine ⟨?_,fun other both => beside.own other both.1,?_,?_⟩
  · intro other
    rw [List.cons_append,Held,Held,beside.held]
    constructor
    · rintro ⟨now | before,outside⟩
      · exact Or.inl ⟨now,outside⟩
      · exact Or.inr before
    · rintro (⟨now,outside⟩ | before)
      · exact ⟨Or.inl now,outside⟩
      · refine ⟨Or.inr before,fun within => ?_⟩
        obtain rfl := tracked.one fits held inside ((beside.held other).mpr (Or.inr before)) within
        exact beside.own _ mine before
  · intro s k old
    refine (cleared.used s k).mpr ⟨beside.base s k old,?_⟩
    rintro ⟨rfl,rfl⟩
    exact beside.own _ mine ((prior.held _).mpr ⟨s,k,old,rfl⟩)
  · have flags : after.usedFlags + 1 = state.usedFlags :=
      cleared.usedFlags tracked.sound.decrement used
    have counts := beside.counts
    rw [cleared.useCounts,decrement]
    dsimp only
    unfold Nat.ModEq at *
    split
    · omega
    · omega

theorem Beside.recovery (call : state.recovery = .ok after) :
    Beside blockSize history (.recovery::use) pool after := by
  have recovered := recovery_recovered state after tracked.sound call
  refine ⟨beside.held,beside.own,fun s k used => (recovered.used s k).mpr (beside.base s k used),?_⟩
  rw [recovered.useCounts,recovered.usedFlags tracked.sound]
  exact beside.counts

end

private theorem use_beside {blockCount blockSize blockGroupSize : Nat} {history use : List Event}
    {pool state : MemoryPool} (positive : 1 ≤ blockSize) (small : blockSize * blockGroupSize < 2^32)
    (run : Reached blockCount blockSize blockGroupSize history pool)
    (stretch : Use blockSize pool use state) :
    Beside blockSize history use pool state := by
  have prior := reached_tracked positive small run
  refine stretch.invariant (fun use state => Beside blockSize history use pool state) ?_ ?_
  · rintro state rfl
    exact ⟨by simp [Held],fun block held => absurd held id,fun _ _ used => used,Nat.ModEq.refl _⟩
  · intro past before event after reached beside lawful step
    have tracked := reached_tracked positive small (use_reached run reached)
    have fits := tracked.fits positive small
    cases step with
    | getBlock _ heap rest addr fresh call => exact beside.getBlock tracked fits fresh call
    | backBlock _ addr call => exact beside.backBlock tracked fits prior lawful call
    | recovery _ call => exact beside.recovery tracked call

private theorem balanced_used {blockCount blockSize blockGroupSize : Nat} {history use : List Event}
    {pool state : MemoryPool} (positive : 1 ≤ blockSize) (small : blockSize * blockGroupSize < 2^32)
    (run : Reached blockCount blockSize blockGroupSize history pool)
    (stretch : Use blockSize pool use state) (balanced : handedOut blockSize use = []) (s k : Nat) :
    state.Used s k ↔ pool.Used s k := by
  have prior := reached_tracked positive small run
  have tracked := reached_tracked positive small (use_reached run stretch)
  have beside := use_beside positive small run stretch
  refine ⟨fun used => ?_,beside.base s k⟩
  have before : Held blockSize history (s + k * blockSize) := by
    rcases (beside.held _).mp ((tracked.held _).mpr ⟨s,k,used,rfl⟩) with mine | before
    · rw [← mem_handedOut,balanced] at mine
      cases mine
    · exact before
  obtain ⟨start,index,old,same⟩ := (prior.held _).mp before
  -- both blocks are used now, at one address
  obtain ⟨listed,bound⟩ := tracked.sound.used_index used
  obtain ⟨listed',bound'⟩ := tracked.sound.used_index (beside.base start index old)
  have fits := tracked.fits positive small
  obtain ⟨rfl,rfl⟩ := block_unique tracked.sound fits
    (s + k * blockSize) listed listed' bound bound'
    (by rw [tracked.size]; omega) (by rw [tracked.size,← same]; omega)
  exact old

private theorem group_same {pool state : MemoryPool} (sound : pool.Sound) (now : state.Sound)
    (size : state.blockGroupSize = pool.blockGroupSize)
    (used : ∀ s k, state.Used s k ↔ pool.Used s k) {group other : MemoryBlockGroup}
    (member : group ∈ state.blockGroups) (present : other ∈ pool.blockGroups)
    (start : group.start = other.start) : group = other := by
  have flags : group.useFlags = other.useFlags := by
    have length := now.flags group member
    have length' := sound.flags other present
    refine List.ext_getElem (by omega) fun k bound bound' => ?_
    have same := used group.start k
    rw [now.used_iff member,start,sound.used_iff present,List.getElem?_eq_getElem bound,
      List.getElem?_eq_getElem bound',
      Option.some_inj,Option.some_inj] at same
    exact Bool.eq_iff_iff.mpr same
  cases group
  cases other
  cases start
  cases flags
  rfl

private theorem usedGroups_sub {pool state : MemoryPool} (sound : pool.Sound) (now : state.Sound)
    (size : state.blockGroupSize = pool.blockGroupSize)
    (used : ∀ s k, state.Used s k ↔ pool.Used s k) {group : MemoryBlockGroup}
    (member : group ∈ usedGroups state) : group ∈ usedGroups pool := by
  obtain ⟨member,kept⟩ := List.mem_filter.mp member
  obtain ⟨k,flag⟩ := (hasUsed_iff group).mp kept
  obtain ⟨other,present,start,_⟩ := (used group.start k).mp ⟨group,member,rfl,flag⟩
  rw [group_same sound now size used member present start.symm] at kept ⊢
  exact List.mem_filter.mpr ⟨present,kept⟩

private theorem usedGroups_nodup {pool : MemoryPool} (sound : pool.Sound) :
    (usedGroups pool).Nodup :=
  (sound.separate.nodup.of_map _).filter _

private theorem usedGroups_perm {pool state : MemoryPool} (sound : pool.Sound) (now : state.Sound)
    (size : state.blockGroupSize = pool.blockGroupSize)
    (used : ∀ s k, state.Used s k ↔ pool.Used s k) :
    (usedGroups state).Perm (usedGroups pool) := by
  refine (List.perm_ext_iff_of_nodup (usedGroups_nodup now) (usedGroups_nodup sound)).mpr
    fun group => ?_
  exact ⟨usedGroups_sub sound now size used,usedGroups_sub now sound size.symm fun s k =>
    (used s k).symm⟩

private theorem reached_counters {blockCount blockSize blockGroupSize : Nat} {history : List Event}
    {pool : MemoryPool} (sized : blockGroupSize < 2^32)
    (run : Reached blockCount blockSize blockGroupSize history pool) :
    pool.Whole ∧ pool.useCounts < 2^32 := by
  refine run.invariant (fun _ pool => pool.Whole ∧ pool.useCounts < 2^32) ?_ ?_
  · rintro pool ⟨heap,rest,arrays,call⟩
    obtain ⟨_,all,used⟩ := create_counts call
    rw [Whole,(create_initial _ _ _ _ _ _ arrays call).blockGroupSize]
    exact ⟨all,by omega⟩
  · rintro past before event after reached ⟨whole,bounded⟩ _ step
    obtain ⟨sound,_,count⟩ := reached_sound reached
    cases step with
    | getBlock _ heap rest addr fresh call =>
      have uses := getBlock_counts call
      obtain ⟨⟨start,index,next,tail⟩,call,result⟩ := bind_success call
      cases result
      refine ⟨whole.taken call,?_⟩
      rw [uses]
      exact u32_lt _
    | backBlock _ addr call =>
      rcases backBlock_effect before after addr sound call with ⟨group,_,_,cleared⟩ | ⟨same,_⟩
      · refine ⟨Whole.cleared (show before.decrement.Whole from whole) cleared,?_⟩
        rw [cleared.useCounts,decrement]
        dsimp only
        split
        · omega
        · omega
      · rw [same]
        exact ⟨whole,bounded⟩
    | recovery _ call =>
      refine ⟨whole.recovered (count ▸ sized) call,?_⟩
      rw [recovery_uses call]
      exact bounded

private theorem balanced_uses {blockCount blockSize blockGroupSize : Nat} {history use : List Event}
    {pool state : MemoryPool} (positive : 1 ≤ blockSize) (small : blockSize * blockGroupSize < 2^32)
    (run : Reached blockCount blockSize blockGroupSize history pool)
    (stretch : Use blockSize pool use state) (balanced : handedOut blockSize use = []) :
    state.useCounts = pool.useCounts := by
  have sized := group_sized positive small
  have sound := (reached_sound run).1
  have now := (reached_sound (use_reached run stretch)).1
  have flags : state.usedFlags = pool.usedFlags := by
    rw [← length_usedBlocks pool]
    refine now.usedFlags_eq sound.usedBlocks_nodup fun s k => ?_
    rw [mem_usedBlocks,balanced_used positive small run stretch balanced]
  have counts := (use_beside positive small run stretch).counts
  have bound := (reached_counters sized run).2
  have bound' := (reached_counters sized (use_reached run stretch)).2
  rw [flags] at counts
  unfold Nat.ModEq at counts
  omega

/-- A recovery behind a balanced stretch leaves the groups, up to order, and the counters
that it would have left before it. With `2^31` used groups both overflow; inside the
stretch such a recovery does not occur. -/
theorem balanced_use_leaves (blockCount blockSize blockGroupSize : Nat) (positive : 1 ≤ blockSize)
    (small : blockSize * blockGroupSize < 2^32) (history : List Event) (pool : MemoryPool)
    (run : Reached blockCount blockSize blockGroupSize history pool) (use : List Event)
    (state : MemoryPool) (stretch : Use blockSize pool use state)
    (balanced : handedOut blockSize use = []) :
    (∀ direct, pool.recovery = .ok direct → ∃ later, state.recovery = .ok later ∧
      later.blockGroups.Perm direct.blockGroups ∧ later.useCounts = direct.useCounts ∧
      later.allCounts = direct.allCounts) ∧
    (∀ failure, pool.recovery = .error failure → state.recovery = .error failure) := by
  have sized := group_sized positive small
  have reached := use_reached run stretch
  obtain ⟨sound,_,count⟩ := reached_sound run
  obtain ⟨now,_,count'⟩ := reached_sound reached
  have perm := usedGroups_perm sound now (count'.trans count.symm)
    (balanced_used positive small run stretch balanced)
  have length := perm.length_eq
  rcases recovery_returns pool with ⟨few,direct,call⟩ | ⟨many,overflow⟩
  · rw [call]
    refine ⟨?_,nofun⟩
    intro other same
    cases same
    rcases recovery_returns state with ⟨_,later,again⟩ | ⟨many,_⟩
    · have groups := ((recovery_perm state later again).trans perm).trans
        (recovery_perm pool direct call).symm
      have whole := (reached_counters sized run).1.recovered (count ▸ sized) call
      have whole' := (reached_counters sized reached).1.recovered (count' ▸ sized) again
      refine ⟨later,again,groups,?_,?_⟩
      · rw [recovery_uses again,recovery_uses call]
        exact balanced_uses positive small run stretch balanced
      · rw [whole,whole',groups.length_eq,(recoveryLoop_sweep _ _ _ _ again).2.2.1,
          (recoveryLoop_sweep _ _ _ _ call).2.2.1,count,count']
    · omega
  · rw [overflow]
    refine ⟨nofun,?_⟩
    intro failure same
    cases same
    rcases recovery_returns state with ⟨few,_⟩ | ⟨_,again⟩
    · omega
    · exact again

theorem balanced_use_pair :
    ∃ state, Use 16 pairPool [.backBlock 4112,.backBlock 8192,.getBlock 8192,.getBlock 4112] state ∧
      ∀ direct, pairPool.recovery = .ok direct → ∃ later, state.recovery = .ok later ∧
        later.blockGroups.Perm direct.blockGroups ∧ later.useCounts = direct.useCounts ∧
        later.allCounts = direct.allCounts := by
  have first : Use 16 pairPool [.getBlock 4112]
      { pairPool with useCounts := 2, blockGroups := [⟨4096,[true,true]⟩] } :=
    .next [] _ _ _ (.start _ rfl) trivial (Step.getBlock _ _ [] [] 4112 (by simp) rfl)
  have second := Run.next _ _ (Event.getBlock 8192) _ first trivial
    (Step.getBlock _ _ [8192] [] 8192 pairPool_fresh rfl)
  have third := Run.next _ _ (Event.backBlock 8192) _ second ⟨8192,Or.inl rfl,by decide⟩
    (Step.backBlock _ _ 8192 rfl)
  have stretch := Run.next _ _ (Event.backBlock 4112) _ third
    ⟨4112,⟨Or.inr (Or.inl rfl),by decide⟩,by decide⟩
    (Step.backBlock _ _ 4112 rfl)
  exact ⟨_,stretch,(balanced_use_leaves 0 16 2 (by decide)
    (by decide) _ pairPool pairPool_reached _ _ stretch
    (by decide)).1⟩

end MCoroutine.MemoryBalance
