import MCoroutine.Allocation
import MCoroutine.Handout

/-! The structure of the pool of a process in which no one else draws identities: slot
numbers are identities, and the blocks of its memory pool are the stacks. -/
namespace MCoroutine.PoolStructure
open General.Runs Process MemoryPool MCoroutine.Numbering SlotRuns Handout Allocation

variable {Body : Type}

def InSlot (ids : List Identity) (pool : CoroutinePool) (i : Nat) (identity : Identity) : Prop :=
  ∃ co, pool.refs[i]? = some co ∧ ids[co]? = some identity

structure Housed (ids : List Identity) (pool : CoroutinePool) : Prop where
  backed : Backed ids pool
  fits : pool.memoryPool.Fits
  bare : InSlot ids pool 0 ⟨0,0,0⟩
  distinct : ∀ i j one two, 1 ≤ i → 1 ≤ j → InSlot ids pool i one → InSlot ids pool j two →
    one.stackSp = two.stackSp → i = j
  counted : pool.memoryPool.useCounts = u32 (pool.coroutines.length - 1)

theorem InSlot.old {ids more : List Identity} {pool : CoroutinePool} {i : Nat} {identity : Identity}
    (shape : Shape ids pool.refs) (slot : InSlot (ids ++ more) pool i identity) :
    InSlot ids pool i identity := by
  obtain ⟨co,there,present⟩ := slot
  rw [List.getElem?_append_left (shape.located co (List.mem_of_getElem? there))] at present
  exact ⟨co,there,present⟩

theorem InSlot.extend {ids : List Identity} {pool : CoroutinePool} {i : Nat} {identity : Identity}
    (shape : Shape ids pool.refs) (more : List Identity) (slot : InSlot ids pool i identity) :
    InSlot (ids ++ more) pool i identity := by
  obtain ⟨co,there,present⟩ := slot
  refine ⟨co,there,?_⟩
  rw [List.getElem?_append_left (shape.located co (List.mem_of_getElem? there))]
  exact present

theorem InSlot.append {ids : List Identity} {pool : CoroutinePool} {i : Nat} {identity : Identity}
    (added : List CoroutinePair) (memoryPool : MemoryPool) (slot : InSlot ids pool i identity) :
    InSlot ids { pool with coroutines := pool.coroutines ++ added, memoryPool := memoryPool } i
      identity := by
  obtain ⟨co,there,present⟩ := slot
  refine ⟨co,?_,present⟩
  rw [CoroutinePool.refs,List.map_append,← CoroutinePool.refs,
    List.getElem?_append_left (List.getElem?_eq_some_iff.mp there).1]
  exact there

theorem InSlot.appended {ids : List Identity} {pool : CoroutinePool} {memoryPool : MemoryPool}
    {i : Nat} {added identity : Identity} (shape : Shape ids pool.refs)
    (slot : InSlot (ids ++ [added]) { pool with
      coroutines := pool.coroutines ++ [⟨ids.length,false⟩],
      memoryPool := memoryPool } i identity) :
    InSlot ids pool i identity ∨ (i = pool.refs.length ∧ identity = added) := by
  obtain ⟨co,there,present⟩ := slot
  simp only [CoroutinePool.refs,List.map_append,List.map_cons,List.map_nil] at there
  rcases shape.appended there present with ⟨old,known⟩ | last
  · exact Or.inl ⟨co,old,known⟩
  · exact Or.inr last

private theorem taken_new {ids : List Identity} {pool : CoroutinePool} {start index : Nat}
    {after : MemoryPool} (housed : Housed ids pool)
    (taken : Taken pool.memoryPool start index after) {i : Nat} {identity : Identity}
    (positive : 1 ≤ i) (slot : InSlot ids pool i identity) :
    identity.stackSp ≠ offset start (index * pool.memoryPool.blockSize) := by
  obtain ⟨co,there,present⟩ := slot
  obtain ⟨_,s,k,used,address⟩ := housed.backed.blocks i co identity positive there present
  obtain ⟨listed,bound⟩ := housed.backed.sound.used_index used
  have fits : after.Fits := by
    rw [Fits,taken.blockSize,taken.blockGroupSize]
    exact housed.fits
  have differ : ¬ (start = s ∧ index = k) := by
    rintro ⟨rfl,rfl⟩
    exact taken.free used
  have apart := MemoryRuns.blocks_apart taken.sound fits
    ((taken.used start index).mpr (Or.inr ⟨rfl,rfl⟩))
    ((taken.used s k).mpr (Or.inl used)) differ
  have size : 0 < after.blockSize := fits.1
  rw [address,MemoryRuns.taken_address housed.fits taken,← housed.backed.blockSize,
    MemoryRuns.block_address housed.backed.sound housed.fits listed bound]
  rw [taken.blockSize] at apart size
  omega

theorem Housed.slot {ids : List Identity} {pool : CoroutinePool} (shape : Shape ids pool.refs)
    (housed : Housed ids pool) {heap rest : List Nat} {start index : Nat} {memoryPool : MemoryPool}
    {added : Identity} (taken : Taken pool.memoryPool start index memoryPool)
    (call : pool.memoryPool.takeBlock heap = .ok (start,index,memoryPool,rest))
    (address : added.stackSp = offset start (index * pool.memoryPool.blockSize))
    (backed : Backed (ids ++ [added]) { pool with
      coroutines := pool.coroutines ++ [⟨ids.length,false⟩], memoryPool := memoryPool }) :
    Housed (ids ++ [added])
      { pool with coroutines := pool.coroutines ++ [⟨ids.length,false⟩], memoryPool := memoryPool } := by
  refine ⟨backed,?_,(housed.bare.extend shape [added]).append _ memoryPool,?_,?_⟩
  · rw [Fits,taken.blockSize,taken.blockGroupSize]
    exact housed.fits
  · intro i j one two first second here other same
    rcases here.appended shape with old | ⟨last,rfl⟩
    · rcases other.appended shape with known | ⟨_,rfl⟩
      · exact housed.distinct i j one two first second old known same
      · exact absurd (same.trans address) (taken_new housed taken first old)
    · rcases other.appended shape with known | ⟨newest,_⟩
      · exact absurd (same.symm.trans address) (taken_new housed taken second known)
      · rw [last,newest]
  · have counted : pool.memoryPool.useCounts = u32 (pool.coroutines.length - 1) := housed.counted
    have several : 0 < pool.coroutines.length := shape_present shape
    rw [(takeBlock_counts call).1,counted,u32,u32,u32,List.length_append,List.length_singleton]
    omega

private theorem housed_stable : Stable Body Housed := by
  refine ⟨?_,?_,?_⟩
  · intro ids more pool shape housed
    have backed := (backed_stable : Stable Body Backed).extend ids more pool shape housed.backed
    refine ⟨backed,housed.fits,housed.bare.extend shape more,?_,housed.counted⟩
    intro i j one two first second here other
    exact housed.distinct i j one two first second (here.old shape) (other.old shape)
  · intro before after shape housed append
    have backed := backed_stable.append before after shape housed.backed append
    cases append with
    | slot store after pool heap rest block co memoryPool supplied call made =>
      obtain ⟨⟨start,index,next,tail⟩,call,result⟩ := bind_success call
      cases result
      have taken := takeBlock_taken pool.memoryPool memoryPool heap rest start index
        housed.backed.sound supplied.fresh call
      obtain ⟨_,rfl,identities,_⟩ := identities_make store after pool.stackSize _ co made
      rw [identities] at backed ⊢
      exact housed.slot shape taken call rfl backed
  · intro ids pool i co flag other slot housed
    have same := refs_set pool i co flag other slot
    have backed := (backed_stable : Stable Body Backed).flags ids pool i co flag other
      slot housed.backed
    refine ⟨backed,housed.fits,?_,?_,?_⟩
    · rw [InSlot,same]
      exact housed.bare
    · simp only [InSlot,same]
      exact housed.distinct
    · rw [List.length_set]
      exact housed.counted

private theorem created_housed {ids : List Identity} {poolSize stackSize : Nat}
    {heap left : List Nat} {memoryPool : MemoryPool} (positive : 1 ≤ stackSize)
    (small : stackSize * 128 < 2^32) (arrays : HeapArrays (u32 (stackSize * 128)) heap)
    (made : create poolSize stackSize 128 heap = .ok (memoryPool,left)) :
    Housed (ids ++ [⟨0,0,0⟩]) ⟨stackSize,[⟨ids.length,true⟩],memoryPool⟩ := by
  have backed := created_backed (ids ++ [⟨0,0,0⟩]) ids.length arrays made
  refine ⟨backed,?_,⟨ids.length,rfl,by simp⟩,?_,?_⟩
  · rw [Fits,backed.blockSize,backed.blockGroupSize]
    exact ⟨positive,small⟩
  · rintro i j one two first _ ⟨co,slot,_⟩
    have bound := (List.getElem?_eq_some_iff.mp slot).1
    simp [CoroutinePool.refs] at bound
    omega
  · exact (create_counts made).2.2

theorem reached_housed {next : Body → Option Body} {history : List (Event Body)}
    {process : Process Body}
    (run : Run (fun process => process = Process.initial) Single (Step next) history process) :
    ∀ pool ∈ process.pools, Housed process.store.identities pool := by
  refine run.invariant (fun _ process =>
    ∀ pool ∈ process.pools, Housed process.store.identities pool) ?_ ?_
  · rintro process rfl pool member
    cases member
  · intro past before event after reached housed permitted step
    refine housed_stable.step (reached_structured reached) housed ?_ step
    rintro poolSize stackSize heap left memoryPool rfl arrays made
    rw [identities_makeDefault,← identities_length]
    exact created_housed permitted.2.1 permitted.2.2 arrays made

/-- The pool of a process: slot `i` belongs to the coroutine with identity `i`, slot 0
to one without a stack, and the stacks are disjoint used blocks of the memory pool. -/
structure Laid (process : Process Body) (pool : CoroutinePool) : Prop where
  numbered : ∀ (i : Nat) (pair : CoroutinePair), pool.coroutines[i]? = some pair →
    ∃ object, process.store.objects[pair.first]? = some object ∧ object.corId = i
  origin : ∃ co object, pool.coroutines[0]? = some ⟨co,true⟩ ∧
    process.store.objects[co]? = some object ∧
    object.stackSp = 0 ∧ object.stackSize = 0
  blocks : ∀ (i : Nat) (pair : CoroutinePair) object, 1 ≤ i → pool.coroutines[i]? = some pair →
    process.store.objects[pair.first]? = some object → object.stackSize = pool.stackSize ∧
      ∃ start index, pool.memoryPool.Used start index ∧
        object.stackSp = start + index * pool.stackSize
  disjoint : ∀ (i j : Nat) (pair other : CoroutinePair) one two, 1 ≤ i → 1 ≤ j → i ≠ j →
    pool.coroutines[i]? = some pair → pool.coroutines[j]? = some other →
    process.store.objects[pair.first]? = some one → process.store.objects[other.first]? = some two →
    one.stackSp ≠ two.stackSp ∧
      (one.stackSp + one.stackSize ≤ two.stackSp ∨ two.stackSp + two.stackSize ≤ one.stackSp)
  counted : pool.memoryPool.useCounts = pool.getPoolSize

theorem inSlot_of {process : Process Body} {pool : CoroutinePool} {i : Nat} {pair : CoroutinePair}
    {object : Coroutine (Context Body) Body} (slot : pool.coroutines[i]? = some pair)
    (located : process.store.objects[pair.first]? = some object) :
    InSlot process.store.identities pool i object.identity :=
  ⟨pair.first,by rw [refs_at,slot]; rfl,identities_located located⟩

theorem housed_stack {ids : List Identity} {pool : CoroutinePool} (housed : Housed ids pool)
    {i : Nat} {identity : Identity} (positive : 1 ≤ i) (slot : InSlot ids pool i identity) :
    identity.stackSize = pool.stackSize ∧
      ∃ start index, pool.memoryPool.Used start index ∧
        identity.stackSp = start + index * pool.stackSize := by
  obtain ⟨co,there,present⟩ := slot
  obtain ⟨size,start,index,used,address⟩ :=
    housed.backed.blocks i co identity positive there present
  obtain ⟨listed,bound⟩ := housed.backed.sound.used_index used
  have unwrapped := MemoryRuns.block_address housed.backed.sound housed.fits listed bound
  rw [housed.backed.blockSize] at unwrapped
  exact ⟨size,start,index,used,address.trans unwrapped⟩

theorem housed_disjoint {ids : List Identity} {pool : CoroutinePool} (housed : Housed ids pool)
    {i j : Nat} {one two : Identity} (first : 1 ≤ i) (second : 1 ≤ j) (other : i ≠ j)
    (here : InSlot ids pool i one) (there : InSlot ids pool j two) : one.stackSp ≠ two.stackSp ∧
      (one.stackSp + one.stackSize ≤ two.stackSp ∨ two.stackSp + two.stackSize ≤ one.stackSp) := by
  obtain ⟨whole,start,index,used,address⟩ := housed_stack housed first here
  obtain ⟨same,s,k,busy,place⟩ := housed_stack housed second there
  have differ : ¬ (start = s ∧ index = k) := by
    rintro ⟨rfl,rfl⟩
    exact other (housed.distinct i j one two first second here there (address.trans place.symm))
  have apart := MemoryRuns.blocks_apart housed.backed.sound housed.fits used busy differ
  have size := housed.fits.1
  rw [housed.backed.blockSize] at apart size
  omega

private theorem reached_laid {next : Body → Option Body} {history : List (Event Body)}
    {process : Process Body}
    (run : Run (fun process => process = Process.initial) Single (Step next) history process)
    {pool : CoroutinePool} (member : pool ∈ process.pools) : Laid process pool := by
  have structured := reached_structured run
  have housed := reached_housed run pool member
  have shape := structured.shape pool member
  have served := reached_served (run.weaken fun _ _ _ _ _ single _ => single.unshared)
  obtain ⟨_,here⟩ := List.mem_iff_getElem?.mp member
  obtain ⟨_,_,serves⟩ := served.located here
  obtain ⟨bare,first,zero⟩ := housed.bare
  obtain ⟨object,located,identity⟩ :=
    Option.map_eq_some_iff.mp ((identities_at process.store bare).symm.trans zero)
  refine ⟨?_,?_,?_,?_,?_⟩
  · intro i pair slot
    have there : pool.refs[i]? = some pair.first := by rw [refs_at,slot]; rfl
    rcases Nat.eq_zero_or_pos i with rfl | positive
    · rw [first] at there
      cases there
      exact ⟨object,located,congrArg Identity.corId identity⟩
    · have inside := shape.located pair.first (List.mem_of_getElem? there)
      rw [identities_length] at inside
      have present := List.getElem?_eq_getElem inside
      exact ⟨_,present,serves.addressed structured member positive there present⟩
  · obtain ⟨co,origin⟩ := serves.origin
    rw [refs_at,origin] at first
    cases first
    exact ⟨co,object,origin,located,congrArg Identity.stackSp identity,
      congrArg Identity.stackSize identity⟩
  · intro i pair object positive slot located
    exact housed_stack housed positive (inSlot_of slot located)
  · intro i j pair other one two positive behind differ slot place here there
    exact housed_disjoint housed positive behind differ (inSlot_of slot here)
      (inSlot_of place there)
  · rw [housed.counted]
    rfl

def Fixed (before after : Process Body) : Prop :=
  ∀ (index : Nat) (pool : CoroutinePool), before.pools[index]? = some pool →
    ∃ longer, after.pools[index]? = some longer ∧
      ∀ (i : Nat) (pair : CoroutinePair) object, pool.coroutines[i]? = some pair →
        before.store.objects[pair.first]? = some object →
        ∃ flag later, longer.coroutines[i]? = some ⟨pair.first,flag⟩ ∧
          after.store.objects[pair.first]? = some later ∧ later.corId = object.corId ∧
          later.stackSp = object.stackSp ∧ later.stackSize = object.stackSize

private theorem fixed_of {before after : Process Body} (prolongs : Prolongs before after)
    (lasts : ∃ more, after.store.identities = before.store.identities ++ more) :
    Fixed before after := by
  intro index pool located
  obtain ⟨longer,there,fresh,refs⟩ := prolongs index pool located
  refine ⟨longer,there,?_⟩
  intro i pair object slot present
  have here : pool.refs[i]? = some pair.first := by rw [refs_at,slot]; rfl
  have kept : longer.refs[i]? = some pair.first := by
    rw [refs,List.getElem?_append_left (List.getElem?_eq_some_iff.mp here).1]
    exact here
  rw [refs_at] at kept
  obtain ⟨⟨first,flag⟩,place,rfl⟩ := Option.map_eq_some_iff.mp kept
  obtain ⟨later,found,same⟩ := object_lasts lasts present
  exact ⟨flag,later,place,found,congrArg Identity.corId same,congrArg Identity.stackSp same,
    congrArg Identity.stackSize same⟩

private theorem run_fixed {next : Body → Option Body}
    {allowed : List (Event Body) → Process Body → Event Body → Prop} {late : List (Event Body)}
    {process after : Process Body} (structured : Structured process)
    (later : Run (fun start => start = process) allowed (Step next) late after) :
    Fixed process after := by
  have kept : Structured after ∧ Prolongs process after ∧
      ∃ more, after.store.identities = process.store.identities ++ more := by
    refine later.invariant (fun _ after => Structured after ∧ Prolongs process after ∧
      ∃ more, after.store.identities = process.store.identities ++ more) ?_ ?_
    · rintro start rfl
      exact ⟨structured,fun _ pool located => ⟨pool,located,[],by simp⟩,[],by simp⟩
    · rintro past before event after _ ⟨shaped,prolongs,more,identities⟩ _ step
      refine ⟨step_structured shaped step,?_,?_⟩
      · intro index pool located
        obtain ⟨middle,there,fresh,refs⟩ := prolongs index pool located
        obtain ⟨longer,beyond,further,extended⟩ := step_prolongs shaped step index middle there
        exact ⟨longer,beyond,fresh ++ further,by rw [extended,refs,List.append_assoc]⟩
      · obtain ⟨further,extended⟩ := step_lasts shaped step
        exact ⟨more ++ further,by rw [extended,identities,List.append_assoc]⟩
  exact fixed_of kept.2.1 kept.2.2

/-- Where nobody but one pool draws identities, the pool is laid out in every state
that is reached, and what it has laid out never moves. -/
theorem pool_laid (next : Body → Option Body) (history : List (Event Body)) (process : Process Body)
    (run : Run (fun process => process = Process.initial) Single (Step next) history process) :
    (∀ pool ∈ process.pools, Laid process pool) ∧
      ∀ late after, Run (fun start => start = process) (fun late => Single (late ++ history))
        (Step next) late after →
        Fixed process after :=
  ⟨fun _ member => reached_laid run member,fun _ _ later =>
    run_fixed (reached_structured run) later⟩

theorem pool_laid_grown :
    (∀ pool ∈ (grownProcess true false : Process Unit).pools, Laid
      (grownProcess true false : Process Unit) pool) ∧
      ∀ late after, Run (fun start => start = (grownProcess true false : Process Unit))
        (fun late => Single (late ++ [Event.getCoroutine 0 0 2,.getCoroutine 0 0 1,.newPool 1 16]))
        (Step fun _ => none) late after → Fixed (grownProcess true false : Process Unit) after :=
  pool_laid (fun _ => none) _ _
    (grownProcess_handed _ Single (oneProcess_handed _ Single
      ⟨rfl,by decide,by decide⟩ trivial) trivial)

end MCoroutine.PoolStructure
