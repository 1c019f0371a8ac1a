import MCoroutine.PoolStructure

/-! Where the stacks of a coroutine pool lie. Nothing gives blocks back to its memory
pool, so that first fit fills the groups one after the other. -/
namespace MCoroutine.StackLayout
open General.Runs Process MemoryPool MCoroutine.Numbering SlotRuns PoolStructure

variable {Body : Type}

/-- The use flags of group `g` when the first `count` blocks are taken. -/
def fill (size g count : Nat) : List Bool :=
  (List.range size).map fun k => decide (g * size + k < count)

private theorem fill_at {size k : Nat} (bound : k < size) (g count : Nat) :
    (fill size g count)[k]? = some (decide (g * size + k < count)) := by
  simp [fill,List.getElem?_range bound]

@[simp] theorem fill_length (size g count : Nat) :
    (fill size g count).length = size := by simp [fill]

section
variable {size : Nat} (positive : 0 < size)
include positive

private theorem fill_full {g count : Nat} (full : false ∉ fill size g count) :
    (g + 1) * size ≤ count := by
  rw [Nat.succ_mul]
  by_contra short
  apply full
  refine List.mem_iff_getElem?.mpr ⟨size - 1,?_⟩
  rw [fill_at (by omega)]
  simp
  omega

private theorem fill_search {g count : Nat} (begun : g * size ≤ count)
    (free : false ∈ fill size g count) :
    count / size = g ∧ (fill size g count).idxOf false = count % size := by
  obtain ⟨k,located⟩ := List.mem_iff_getElem?.mp free
  have bound := (List.getElem?_eq_some_iff.mp located).1
  rw [fill_length] at bound
  rw [fill_at bound] at located
  have room : count < (g + 1) * size := by
    rw [Nat.succ_mul]
    simp at located
    omega
  have quotient : count / size = g := Nat.div_eq_of_lt_le begun room
  have split := Nat.div_add_mod count size
  rw [quotient,Nat.mul_comm] at split
  have inside := Nat.mod_lt count positive
  refine ⟨quotient,(List.findIdx_eq (by simpa using inside)).mpr ⟨?_,?_⟩⟩
  · simp [fill]
    omega
  · intro j before
    simp [fill]
    omega

private theorem fill_next (g count : Nat) : fill size g (count + 1) =
    if count / size = g then (fill size g count).set
      (count % size) true else fill size g count := by
  have split := Nat.div_add_mod count size
  have inside := Nat.mod_lt count positive
  split
  · rename_i here
    rw [here,Nat.mul_comm] at split
    apply List.ext_getElem
    · simp
    · intro k low high
      rw [List.getElem_set]
      split
      · simp [fill]
        omega
      · simp [fill]
        omega
  · rename_i apart
    apply List.ext_getElem
    · simp
    · intro k low high
      rw [fill_length] at low
      have other : g * size + k ≠ count := by
        intro same
        apply apart
        rw [← same,Nat.mul_comm,Nat.mul_add_div positive,Nat.div_eq_of_lt low,Nat.add_zero]
      simp [fill]
      omega

end

private theorem fill_empty {size g count : Nat} (before : count ≤ g * size) :
    fill size g count = List.replicate size false := by
  apply List.ext_getElem
  · simp
  · intro k low high
    simp [fill]
    omega

/-- The first `count` blocks of the pool are taken, in as many groups as these need, but
at least `origin`. -/
structure Packed (count origin : Nat) (pool : MemoryPool) : Prop where
  flags : ∀ (g : Nat) group, pool.blockGroups[g]? = some group →
    group.useFlags = fill pool.blockGroupSize g count
  covered : count ≤ pool.blockGroups.length * pool.blockGroupSize
  least : pool.blockGroups.length ≤ origin ∨
    (pool.blockGroups.length - 1) * pool.blockGroupSize < count
  floor : origin ≤ pool.blockGroups.length

private theorem takeFree_passes (front groups : List MemoryBlockGroup)
    (full : ∀ group ∈ front, false ∉ group.useFlags) :
    takeFree (front ++ groups) = (takeFree groups).map fun (start,index,rest) =>
      (start,index,front ++ rest) := by
  induction front with
  | nil => simp
  | cons group front ih =>
    have passed := full group List.mem_cons_self
    rw [← List.idxOf_lt_length_iff] at passed
    rw [List.cons_append,takeFree]
    dsimp only
    rw [if_neg passed,ih fun other member => full other (List.mem_cons_of_mem _ member),
      Option.map_map]
    rfl

section
variable {count origin : Nat} {pool after : MemoryPool} (positive : 0 < pool.blockGroupSize)
include positive

theorem Packed.free (packed : Packed count origin pool) {front back : List MemoryBlockGroup}
    {group : MemoryBlockGroup} (split : pool.blockGroups = front ++ group::back)
    (full : ∀ other ∈ front, false ∉ other.useFlags) (free : false ∈ group.useFlags) :
    count / pool.blockGroupSize = front.length ∧ group.useFlags.idxOf false =
      count % pool.blockGroupSize := by
  rw [packed.flags front.length group (by simp [split])] at free ⊢
  apply fill_search positive ?_ free
  cases last : front.getLast? with
  | none => simp [List.getLast?_eq_none_iff.mp last]
  | some other =>
    obtain ⟨before,rfl⟩ := List.getLast?_eq_some_iff.mp last
    have passed := full other (by simp)
    rw [packed.flags before.length other (by simp [split])] at passed
    simpa using fill_full positive passed

theorem Packed.full (packed : Packed count origin pool)
    (full : ∀ group ∈ pool.blockGroups, false ∉ group.useFlags) :
    count = pool.blockGroups.length * pool.blockGroupSize := by
  apply Nat.le_antisymm packed.covered
  cases last : pool.blockGroups.getLast? with
  | none => simp [List.getLast?_eq_none_iff.mp last]
  | some group =>
    obtain ⟨before,split⟩ := List.getLast?_eq_some_iff.mp last
    have passed := full group (by simp [split])
    rw [packed.flags before.length group (by simp [split])] at passed
    simpa [split] using fill_full positive passed

theorem Packed.replace (packed : Packed count origin pool) {front back : List MemoryBlockGroup}
    {group : MemoryBlockGroup} (split : pool.blockGroups = front ++ group::back)
    (place : count / pool.blockGroupSize = front.length) (size : after.blockGroupSize = pool.blockGroupSize)
    (result : after.blockGroups =
      front ++ { group with useFlags := group.useFlags.set (count % pool.blockGroupSize) true }::back) :
    Packed (count + 1) origin after := by
  have length : after.blockGroups.length = pool.blockGroups.length := by simp [result,split]
  refine ⟨?_,?_,?_,by rw [length]; exact packed.floor⟩
  · intro g other located
    rw [size,fill_next positive,place]
    rw [result] at located
    rcases Nat.lt_trichotomy g front.length with before | here | behind
    · rw [List.getElem?_append_left before] at located
      rw [if_neg (by omega)]
      exact packed.flags g other (by rw [split,List.getElem?_append_left before]; exact located)
    · subst here
      rw [List.getElem?_append_right (Nat.le_refl _),Nat.sub_self] at located
      cases located
      rw [if_pos rfl,← packed.flags front.length group (by simp [split])]
    · obtain ⟨j,rfl⟩ : ∃ j, g = front.length + (j + 1) := ⟨g - front.length - 1,by omega⟩
      rw [List.getElem?_append_right (by omega),Nat.add_sub_cancel_left,
        List.getElem?_cons_succ] at located
      rw [if_neg (by omega)]
      apply packed.flags _ other
      rw [split,List.getElem?_append_right (by omega),Nat.add_sub_cancel_left,
        List.getElem?_cons_succ]
      exact located
  · have inside := Nat.lt_mul_div_succ count positive
    rw [place,Nat.mul_comm] at inside
    have room : (front.length + 1) * pool.blockGroupSize ≤
        pool.blockGroups.length * pool.blockGroupSize :=
      Nat.mul_le_mul_right _ (by simp [split])
    rw [length,size]
    omega
  · rw [length,size]
    exact packed.least.imp_right Nat.lt_succ_of_lt

theorem Packed.append (packed : Packed count origin pool) {start : Nat}
    (all : count = pool.blockGroups.length * pool.blockGroupSize)
    (size : after.blockGroupSize = pool.blockGroupSize)
    (result : after.blockGroups = pool.blockGroups ++
      [⟨start,(List.replicate pool.blockGroupSize false).set 0 true⟩]) :
    Packed (count + 1) origin after := by
  have length : after.blockGroups.length = pool.blockGroups.length + 1 := by simp [result]
  have place : count / pool.blockGroupSize = pool.blockGroups.length := by
    rw [all,Nat.mul_div_cancel _ positive]
  refine ⟨?_,?_,?_,by rw [length]; exact Nat.le_succ_of_le packed.floor⟩
  · intro g other located
    rw [size,fill_next positive,place]
    rw [result] at located
    rcases Nat.lt_or_ge g pool.blockGroups.length with before | behind
    · rw [List.getElem?_append_left before] at located
      rw [if_neg (by omega)]
      exact packed.flags g other located
    · rw [List.getElem?_append_right behind] at located
      have bound := (List.getElem?_eq_some_iff.mp located).1
      obtain rfl : g = pool.blockGroups.length := by
        rw [List.length_singleton] at bound
        omega
      rw [Nat.sub_self] at located
      cases located
      rw [if_pos rfl,fill_empty (Nat.le_of_eq all),all,Nat.mul_mod_left]
  · rw [length,size,Nat.succ_mul]
    omega
  · rw [length,size,Nat.add_sub_cancel]
    exact Or.inr (by omega)

theorem Packed.takeBlock (packed : Packed count origin pool) {heap rest : List Nat} {start index : Nat}
    (call : pool.takeBlock heap = .ok (start,index,after,rest)) :
    Packed (count + 1) origin after ∧ after.starts[count / pool.blockGroupSize]? = some start ∧
      index = count % pool.blockGroupSize ∧ ∃ more, after.starts = pool.starts ++ more := by
  unfold MemoryPool.takeBlock at call
  cases found : takeFree pool.blockGroups with
  | some taken =>
    obtain ⟨s,k,groups⟩ := taken
    rw [found] at call
    cases call
    obtain ⟨front,group,back,split,rfl,flag,full,rfl⟩ := takeFree_split pool.blockGroups start index groups found
    have free := List.mem_of_getElem? flag
    obtain ⟨place,search⟩ := packed.free positive split full free
    have first : index = group.useFlags.idxOf false := by
      rw [split,takeFree_passes front _ full,takeFree] at found
      dsimp only at found
      rw [if_pos (List.idxOf_lt_length_iff.mpr free)] at found
      cases found
      rfl
    rw [first,search]
    refine ⟨packed.replace positive split place rfl rfl,?_,rfl,[],by simp [MemoryPool.starts,split]⟩
    rw [place]
    simp [MemoryPool.starts]
  | none =>
    have all := packed.full positive (takeFree_none _ found)
    rw [found] at call
    cases heap with
    | nil => cases call
    | cons array heap =>
      dsimp only at call
      split at call
      · cases call
      · cases call
        refine ⟨packed.append positive all rfl rfl,?_,?_,
          [start],by simp [MemoryPool.starts,MemoryBlockGroup.create]⟩
        · rw [all,Nat.mul_div_cancel _ positive]
          simp [MemoryPool.starts,MemoryBlockGroup.create]
        · rw [all,Nat.mul_mod_left]

end

private theorem created_packed {blockCount blockSize blockGroupSize : Nat} {heap left : List Nat}
    {pool : MemoryPool} (arrays : HeapArrays (u32 (blockSize * blockGroupSize)) heap)
    (made : create blockCount blockSize blockGroupSize heap = .ok (pool,left)) :
    Packed 0 (u32 (blockCount / blockGroupSize + 1)) pool := by
  have initial := create_initial blockCount blockSize blockGroupSize heap left pool arrays made
  obtain ⟨length,_⟩ := create_counts made
  refine ⟨?_,Nat.zero_le _,Or.inl (Nat.le_of_eq length),Nat.le_of_eq length.symm⟩
  intro g group located
  have member := List.mem_of_getElem? located
  rw [fill_empty (Nat.zero_le _),List.eq_replicate_iff,initial.sound.flags group member]
  refine ⟨rfl,?_⟩
  intro flag present
  obtain ⟨k,there⟩ := List.mem_iff_getElem?.mp present
  cases flag with
  | false => rfl
  | true => exact absurd ((initial.sound.used_iff member k).mpr there) (initial.unused group.start k)

/-- The stacks of a pool in the order of its slots, from one of the sizes asked for. -/
structure Ordered (sizes : Nat → Nat → Prop) (ids : List Identity) (pool : CoroutinePool) :
    Prop where
  blockSize : pool.memoryPool.blockSize = pool.stackSize
  blockGroupSize : pool.memoryPool.blockGroupSize = 128
  packed : ∃ poolSize, sizes poolSize pool.stackSize ∧
    Packed (pool.coroutines.length - 1) (u32 (poolSize / 128 + 1)) pool.memoryPool
  placed : ∀ i identity, 1 ≤ i → InSlot ids pool i identity → ∃ start,
    pool.memoryPool.starts[(i - 1) / 128]? = some start ∧ identity.stackSp = offset start
      ((i - 1) % 128 * pool.stackSize)

theorem Ordered.mono {sizes more : Nat → Nat → Prop} {ids : List Identity} {pool : CoroutinePool}
    (ordered : Ordered sizes ids pool)
    (weaker : ∀ poolSize stackSize, sizes poolSize stackSize → more poolSize stackSize) :
    Ordered more ids pool := by
  obtain ⟨poolSize,asked,packed⟩ := ordered.packed
  exact ⟨ordered.blockSize,ordered.blockGroupSize,⟨poolSize,weaker _ _ asked,packed⟩,ordered.placed⟩

private theorem ordered_stable (sizes : Nat → Nat → Prop) : Stable Body (Ordered sizes) := by
  refine ⟨?_,?_,?_⟩
  · intro ids more pool shape ordered
    refine ⟨ordered.blockSize,ordered.blockGroupSize,ordered.packed,?_⟩
    intro i identity positive slot
    exact ordered.placed i identity positive (slot.old shape)
  · intro before after shape ordered append
    cases append with
    | slot store after pool heap rest block co memoryPool supplied call made =>
      obtain ⟨⟨start,index,next,tail⟩,call,result⟩ := bind_success call
      cases result
      obtain ⟨poolSize,asked,packed⟩ := ordered.packed
      have size : pool.memoryPool.blockGroupSize = 128 := ordered.blockGroupSize
      obtain ⟨taken,listed,first,more,starts⟩ :=
        packed.takeBlock (show 0 < pool.memoryPool.blockGroupSize by omega) call
      obtain ⟨_,rfl,identities,_⟩ := identities_make store after pool.stackSize _ co made
      obtain ⟨_,block,group⟩ := takeBlock_arrays pool.memoryPool memoryPool heap rest
        start index call
      have several : 0 < pool.coroutines.length := shape_present shape
      refine ⟨block.trans ordered.blockSize,group.trans size,⟨poolSize,asked,?_⟩,?_⟩
      · dsimp only
        rw [List.length_append,List.length_singleton,Nat.add_sub_cancel]
        rw [Nat.sub_add_cancel several] at taken
        exact taken
      · intro i identity positive slot
        rw [identities] at slot
        rcases slot.appended shape with old | ⟨last,rfl⟩
        · obtain ⟨s,there,address⟩ := ordered.placed i identity positive old
          refine ⟨s,?_,address⟩
          dsimp only at there ⊢
          rw [starts,List.getElem?_append_left (List.getElem?_eq_some_iff.mp there).1]
          exact there
        · have width : pool.memoryPool.blockSize = pool.stackSize := ordered.blockSize
          have position : i = pool.coroutines.length := by simpa [CoroutinePool.refs] using last
          rw [size,← position] at listed first
          refine ⟨start,listed,?_⟩
          dsimp only
          rw [first,width]
  · intro ids pool i co flag other slot ordered
    refine ⟨ordered.blockSize,ordered.blockGroupSize,?_,?_⟩
    · rw [List.length_set]
      exact ordered.packed
    · intro j identity positive here
      rw [InSlot,refs_set pool i co flag other slot] at here
      exact ordered.placed j identity positive here

private theorem created_ordered {sizes : Nat → Nat → Prop} {poolSize stackSize co : Nat}
    {heap left : List Nat} {memoryPool : MemoryPool} (asked : sizes poolSize stackSize)
    (ids : List Identity) (arrays : HeapArrays (u32 (stackSize * 128)) heap)
    (made : create poolSize stackSize 128 heap = .ok (memoryPool,left)) :
    Ordered sizes ids ⟨stackSize,[⟨co,true⟩],memoryPool⟩ := by
  have initial := create_initial poolSize stackSize 128 heap left memoryPool arrays made
  refine ⟨initial.blockSize,initial.blockGroupSize,⟨poolSize,asked,created_packed arrays made⟩,?_⟩
  rintro i identity positive ⟨co,slot,_⟩
  have bound := (List.getElem?_eq_some_iff.mp slot).1
  simp [CoroutinePool.refs] at bound
  omega

/-- The arguments of the pool constructors in the history, those of pool 0 first. -/
def sizes : List (Event Body) → List (Nat × Nat)
  | [] => []
  | .newPool poolSize stackSize::past => sizes past ++ [(poolSize,stackSize)]
  | _::past => sizes past

private theorem sizes_still {past : List (Event Body)} {event : Event Body}
    (other : ∀ poolSize stackSize, event ≠ .newPool poolSize stackSize) :
    sizes (event::past) = sizes past := by
  cases event with
  | newPool poolSize stackSize => exact absurd rfl (other poolSize stackSize)
  | _ => rfl

private theorem sizes_kept {past : List (Event Body)} {event : Event Body} {index : Nat}
    {pair : Nat × Nat} (asked : (sizes past)[index]? = some pair) :
    (sizes (event::past))[index]? = some pair := by
  cases event with
  | newPool poolSize stackSize =>
    rw [sizes,List.getElem?_append_left (List.getElem?_eq_some_iff.mp asked).1]
    exact asked
  | _ => exact asked

private theorem sizes_length {next : Body → Option Body} {history : List (Event Body)}
    {process : Process Body} (run : Reached next history process) :
    (sizes history).length = process.pools.length := by
  refine run.invariant (fun history process => (sizes history).length = process.pools.length) ?_ ?_
  · rintro process rfl
    rfl
  · intro past before event after reached same _ step
    cases step_pools (reached_structured reached) step with
    | quiet _ _ still quiet =>
      rw [sizes_still (by rintro _ _ rfl; exact still),same,quiet.pools]
    | create => simp [sizes,same]
    | construct => exact same
    | grow | hand | release => simpa [sizes,Process.setPool] using same

def Asked (history : List (Event Body)) (index poolSize stackSize : Nat) : Prop :=
  (sizes history)[index]? = some (poolSize,stackSize) ∧ poolSize < 2^32

private theorem reached_ordered {next : Body → Option Body} {history : List (Event Body)}
    {process : Process Body} (run : Reached next history process) :
    ∀ index pool, process.pools[index]? = some pool →
      Ordered (Asked history index) process.store.identities pool := by
  apply run.invariant (fun history process => ∀ index pool, process.pools[index]? = some pool →
    Ordered (Asked history index) process.store.identities pool)
  · rintro process rfl index pool located
    cases located
  · intro past before event after reached ordered _ step
    refine stable_step (fun index => ordered_stable (Asked (event::past) index))
      (reached_structured reached) ?_ ?_ step
    · intro index pool located
      exact (ordered index pool located).mono fun poolSize stackSize asked =>
        ⟨sizes_kept asked.1,asked.2⟩
    · rintro poolSize stackSize heap left memoryPool rfl arrays made
      refine created_ordered ⟨?_,?_⟩ _ arrays made
      · rw [← sizes_length reached,sizes]
        exact List.getElem?_concat_length
      · cases step with
        | newPool _ _ _ _ _ _ sized => exact sized.1

private theorem ordered_touch {sizes : Nat → Nat → Prop} {ids : List Identity}
    {pool : CoroutinePool} (ordered : Ordered sizes ids pool) (backed : Allocation.Backed ids pool)
    (fits : pool.memoryPool.Fits) {i : Nat} {one two : Identity} (positive : 1 ≤ i)
    (inside : i % 128 ≠ 0) (here : InSlot ids pool i one) (there : InSlot ids pool (i + 1) two) :
    one.stackSp + one.stackSize = two.stackSp := by
  obtain ⟨start,listed,address⟩ := ordered.placed i one positive here
  obtain ⟨later,behind,place⟩ := ordered.placed (i + 1) two (by omega) there
  rw [Nat.add_sub_cancel] at behind place
  rw [show (i - 1) / 128 = i / 128 by omega,behind] at listed
  cases listed
  obtain ⟨co,slot,present⟩ := here
  have width := (backed.blocks i co one positive slot present).1
  have member := List.mem_of_getElem? behind
  have unwrapped (k : Nat) (bound : k < 128) : offset start (k * pool.stackSize) =
      start + k * pool.stackSize := by
    rw [← ordered.blockSize]
    exact MemoryRuns.block_address backed.sound fits member
      (by rw [ordered.blockGroupSize]; exact bound)
  rw [unwrapped _ (by omega)] at address place
  rw [show i % 128 = (i - 1) % 128 + 1 by omega,Nat.succ_mul] at place
  omega

/-- The stack of slot `i` is block `i - 1` of the memory pool, counted through its groups,
and these are as many as the slots need, or as the constructor of this pool made. Nothing
lies between the stacks of two slots of a group. -/
theorem stacks_packed (next : Body → Option Body) (history : List (Event Body))
    (process : Process Body) (run : Reached next history process) (index : Nat)
    (pool : CoroutinePool) (there : process.pools[index]? = some pool) :
    (∀ (i : Nat) pair object, 1 ≤ i → pool.coroutines[i]? = some pair →
      process.store.objects[pair.first]? = some object → ∃ start,
        pool.memoryPool.starts[(i - 1) / 128]? = some start ∧
          object.stackSp = offset start ((i - 1) % 128 * pool.stackSize)) ∧
    (∀ (g k : Nat) group, pool.memoryPool.blockGroups[g]? = some group → k < 128 →
      group.useFlags[k]? = some (decide (g * 128 + k < pool.getPoolSize))) ∧
    (∃ poolSize, (sizes history)[index]? = some (poolSize,pool.stackSize) ∧
      pool.memoryPool.blockGroups.length = max (poolSize / 128 + 1)
        ((pool.getPoolSize + 127) / 128)) ∧
    (1 ≤ pool.stackSize → pool.stackSize * 128 < 2^32 → ∀ (i : Nat) pair other one two, 1 ≤
      i → i % 128 ≠ 0 →
      pool.coroutines[i]? = some pair → pool.coroutines[i + 1]? = some other →
      process.store.objects[pair.first]? = some one →
        process.store.objects[other.first]? = some two →
      one.stackSp + one.stackSize = two.stackSp) := by
  have ordered := reached_ordered run index pool there
  have member := List.mem_of_getElem? there
  have small := (reached_structured run).small pool member
  obtain ⟨poolSize,⟨asked,sized⟩,packed⟩ := ordered.packed
  rw [← CoroutinePool.getPoolSize_of_lt pool small] at packed
  refine ⟨?_,?_,⟨poolSize,asked,?_⟩,?_⟩
  · intro i pair object positive slot located
    exact ordered.placed i object.identity positive (inSlot_of slot located)
  · intro g k group located bound
    rw [packed.flags g group located,ordered.blockGroupSize]
    exact fill_at bound g _
  · have covered := packed.covered
    have least := packed.least
    have floor := packed.floor
    rw [u32_of_lt (by omega)] at least floor
    rw [ordered.blockGroupSize] at covered least
    omega
  · intro positive fitting i pair other one two behind inside slot next located found
    have fits : pool.memoryPool.Fits := by
      rw [Fits,ordered.blockSize,ordered.blockGroupSize]
      exact ⟨positive,fitting⟩
    exact ordered_touch ordered (Allocation.reached_backed run pool member) fits behind inside
      (inSlot_of slot located)
      (inSlot_of next found)

def secondPool : CoroutinePool :=
  { stackSize := 16, coroutines := [⟨2,true⟩,⟨3,false⟩,⟨4,false⟩],
    memoryPool := { allCounts := 128, useCounts := 2, blockGroups := [⟨131072,true::true::List.replicate 126 false⟩],
                    blockSize := 16, blockGroupSize := 128 } }

set_option maxRecDepth 2000 in
/-- Two pools of one stack size, the second with two stacks that touch. -/
theorem stacks_packed_second : ∃ (process : Process Unit) (pool : CoroutinePool),
    Reached (fun _ => none) [Event.newPool 2 16,.newPool 1 16] process ∧
      process.pools[1]? = some pool ∧
      pool.memoryPool.starts = [131072] ∧ pool.getPoolSize = 2 ∧
      (∃ start, pool.memoryPool.starts[0]? = some start ∧ 131088 = offset start (1 * 16)) ∧
      (∀ k < 128, (true::true::List.replicate 126 false)[k]? = some
        (decide (0 * 128 + k < pool.getPoolSize))) ∧
      (∃ poolSize, (sizes [Event.newPool 2 16,(.newPool 1 16 : Event Unit)])[1]? = some
        (poolSize,pool.stackSize) ∧
        pool.memoryPool.blockGroups.length = max (poolSize / 128 + 1)
          ((pool.getPoolSize + 127) / 128)) ∧
      131072 + 16 = 131088 := by
  have both := Run.next _ _ (Event.newPool 2 16) _
    (oneProcess_launched (fun _ : Unit => none) (fun _ _ _ => True) trivial) trivial
    (Step.newPool _ 2 16 [131072] [] _ secondPool (by decide)
      (MemoryPool.heapArrays_single (by decide)) rfl)
  obtain ⟨placed,flags,groups,touching⟩ := stacks_packed _ _ _ both 1 secondPool rfl
  exact ⟨_,secondPool,both,rfl,rfl,rfl,placed 2 _ _ (by decide) rfl rfl,fun k bound =>
    flags 0 k _ rfl bound,groups,
    touching (by decide) (by decide) 1 _ _ _ _ (by decide) (by decide) rfl rfl rfl rfl⟩

end MCoroutine.StackLayout
