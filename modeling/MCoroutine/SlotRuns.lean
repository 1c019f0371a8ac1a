import MCoroutine.General.Runs
import MCoroutine.Numbering
import MCoroutine.ProcessEffects

/-! Runs of a process with any number of pools and of coroutines constructed outside
them: identities follow the counter, and slots follow construction order. -/
namespace MCoroutine.SlotRuns
open General.Runs Process MCoroutine.Numbering

variable {Body : Type}

theorem identities_at (store : Store Body) (co : Nat) :
    store.identities[co]? = store.objects[co]?.map Coroutine.identity := by simp [Store.identities]

theorem identities_located {store : Store Body} {co : Nat} {object : Coroutine (Context Body) Body}
    (located : store.objects[co]? = some object) :
    store.identities[co]? = some object.identity := by
  rw [identities_at,located]
  rfl

theorem identities_length (store : Store Body) :
    store.identities.length = store.objects.length := by
  simp [Store.identities]

theorem identities_modify (store : Store Body) (co : Nat)
    (change : Coroutine (Context Body) Body → Coroutine (Context Body) Body)
    (keeps : ∀ object, store.objects[co]? = some object →
      (change object).identity = object.identity) :
    (store.modify co change).identities = store.identities := by
  apply List.ext_getElem?
  intro k
  rw [identities_at,identities_at,Store.modify_at]
  by_cases same : k = co
  · subst k
    cases located : store.objects[co]? with
    | none => simp
    | some object => simp [keeps object located]
  · simp [same]

theorem identities_makeDefault (store : Store Body) :
    store.makeDefault.2.identities = store.identities ++ [⟨0,0,0⟩] := by
  simp [Store.identities,Store.makeDefault,Coroutine.identity,Coroutine.default]

theorem identities_make (store after : Store Body) (stackSize stackPtr co : Nat)
    (call : store.make stackSize stackPtr = .ok (co,after)) :
    stackPtr ≠ 0 ∧ co = store.identities.length ∧
      after.identities = store.identities ++ [⟨store.curCoroutineId,stackPtr,stackSize⟩] ∧
      after.curCoroutineId = u32 (store.curCoroutineId + 1) := by
  obtain ⟨stack,rfl,rfl⟩ := Store.make_effect store after stackSize stackPtr co call
  exact ⟨stack,(identities_length store).symm,by simp [Store.identities,Coroutine.identity],rfl⟩

structure Quiet (process after : Process Body) : Prop where
  pools : after.pools = process.pools
  counter : after.store.curCoroutineId = process.store.curCoroutineId
  identities : ∃ bare, after.store.identities = process.store.identities ++ bare ∧
    ∀ identity ∈ bare, identity = ⟨0,0,0⟩

theorem Quiet.trans {first second third : Process Body} (one : Quiet first second)
    (two : Quiet second third) :
    Quiet first third := by
  obtain ⟨bare,ids,zero⟩ := one.identities
  obtain ⟨more,rest,none⟩ := two.identities
  refine ⟨two.pools.trans one.pools,two.counter.trans one.counter,
    bare ++ more,by rw [rest,ids,List.append_assoc],?_⟩
  intro identity member
  rcases List.mem_append.mp member with old | new
  · exact zero identity old
  · exact none identity new

theorem Quiet.same {process after : Process Body} (pools : after.pools = process.pools)
    (counter : after.store.curCoroutineId = process.store.curCoroutineId)
    (identities : after.store.identities = process.store.identities) : Quiet process after :=
  ⟨pools,counter,[],by rw [identities,List.append_nil],by simp⟩

private theorem quiet_makeMain (process : Process Body) (thread : Nat) :
    Quiet process (process.makeMain thread) :=
  ⟨rfl,rfl,[⟨0,0,0⟩],identities_makeDefault process.store,by simp⟩

private theorem quiet_getMainCoroutine (process : Process Body) (thread : Nat) :
    Quiet process (process.getMainCoroutine thread).2 :=
  getMainCoroutine_preserves (Quiet process) thread
    (fun middle _ before => before.trans (quiet_makeMain middle thread))
    process (.same rfl rfl rfl)

private theorem quiet_getCurrentCoroutine (process : Process Body) (thread : Nat) :
    Quiet process (process.getCurrentCoroutine thread).2 :=
  getCurrentCoroutine_preserves (Quiet process) thread
    (fun middle _ before => before.trans (quiet_makeMain middle thread))
    (fun _ _ _ _ before => before.trans (.same rfl rfl rfl)) process (.same rfl rfl rfl)

private theorem quiet_attach (process : Process Body) (thread : Nat) :
    Quiet process (process.attach thread) :=
  (quiet_getCurrentCoroutine process thread).trans (quiet_getMainCoroutine _ thread)

private theorem quiet_swap (thread source target : Nat) (saved : Context Body)
    (process after : Process Body) (call : process.swap thread source target saved = .ok after) :
    Quiet process after := by
  obtain ⟨object,running,store,_,entered,rfl⟩ :=
    swap_effect thread source target saved process after call
  have saving := identities_modify process.store source (fun co => { co with coctx := saved })
    (fun _ _ => rfl)
  rcases enter_cases _ _ _ _ entered with ⟨_,_,_,_,rfl⟩ | ⟨_,_,_,_,rfl⟩ | ⟨co,_,_,_,_,_,_,_,rfl⟩
  · exact .same rfl rfl saving
  · exact .same rfl rfl saving
  · exact .same rfl rfl ((identities_modify _ co (Coroutine.setCallBackRunningFlag true)
      (fun _ _ => rfl)).trans saving)

private theorem quiet_yield (thread : Nat) (saved : Context Body) (process after : Process Body)
    (call : process.yield thread saved = .ok after) : Quiet process after := by
  obtain ⟨main,current,_,_,_,swapped⟩ := yield_effect thread saved process after call
  have pointed : Quiet (process.attach thread) ((process.attach thread).point thread main) :=
    .same rfl rfl rfl
  exact ((quiet_attach process thread).trans pointed).trans
    (quiet_swap thread current main saved _ after swapped)

private theorem quiet_resume (thread co : Nat) (process after : Process Body)
    (call : process.resume thread (some co) = .ok after) : Quiet process after := by
  obtain ⟨main,object,_,_,_,_,⟨_,rfl⟩ | ⟨_,swapped⟩⟩ := resume_effect thread co process after call
  · exact (quiet_attach process thread).trans (.same rfl rfl rfl)
  · have pointed : Quiet (process.attach thread) ((process.attach thread).point thread co) :=
      .same rfl rfl rfl
    exact ((quiet_attach process thread).trans pointed).trans
      (quiet_swap thread main co _ _ after swapped)

private theorem quiet_setCallBack (thread co : Nat) (cb : Body) (process after : Process Body)
    (accepted : Bool) (call : process.setCallBack thread co cb = .ok (accepted,after)) :
    Quiet process after := by
  obtain ⟨main,object,_,located,⟨_,_,_,rfl⟩ | ⟨_,_,rfl⟩⟩ :=
    setCallBack_effect thread co cb process after accepted call
  · refine (quiet_getMainCoroutine process thread).trans (.same rfl rfl ?_)
    refine identities_modify _ co _ ?_
    intro other there
    rw [located] at there
    cases there
    rfl
  · exact quiet_getMainCoroutine process thread

/-- The calls that leave the pools alone and construct nothing but main coroutines. -/
def Still : Event Body → Prop
  | .newCoroutine _ | .newPool _ _ | .resize _ _ | .getCoroutine _ _ _ | .backCoroutine _ _ _ =>
    False
  | _ => True

theorem step_quiet {next : Body → Option Body} {process after : Process Body} {event : Event Body}
    (step : Step next process event after) (still : Still event) : Quiet process after := by
  cases step with
  | newCoroutine | newPool | resize | getCoroutine | backCoroutine => exact still.elim
  | getMainCoroutine _ thread co call =>
    have quiet := quiet_getMainCoroutine process thread
    rw [call] at quiet
    exact quiet
  | getCurrentCoroutine _ thread co call =>
    have quiet := quiet_getCurrentCoroutine process thread
    rw [call] at quiet
    exact quiet
  | setCallBack _ thread co cb accepted call =>
    exact quiet_setCallBack thread co cb process after accepted call
  | resume _ thread co call => exact quiet_resume thread co process after call
  | yield _ thread co body rest running more call =>
    exact quiet_yield thread (.callBack co rest) process after call
  | finish _ thread co body running done call =>
    have cleared : Quiet process { process with store := process.store.modify co (Coroutine.setCallBackRunningFlag false) } :=
      .same rfl rfl (identities_modify process.store co _ (fun _ _ => rfl))
    exact cleared.trans (quiet_yield thread (.finished co) _ after call)

structure Structured (process : Process Body) : Prop where
  numbered : Numbered process.store.identities process.store.curCoroutineId
  shape : ∀ pool ∈ process.pools, Shape process.store.identities pool.refs
  small : ∀ pool ∈ process.pools, pool.coroutines.length < 2^32

theorem Structured.quiet {process after : Process Body} (structured : Structured process)
    (quiet : Quiet process after) : Structured after := by
  obtain ⟨pools,counter,bare,identities,zero⟩ := quiet
  refine ⟨?_,?_,?_⟩
  · rw [counter,identities]
    clear identities
    have numbered := structured.numbered
    generalize process.store.identities = ids at numbered
    induction bare generalizing ids with
    | nil => simpa using numbered
    | cons identity rest ih =>
      have first := zero identity (by simp)
      subst first
      have next := numbered.append ⟨0,0,0⟩ rfl
      simpa using ih (fun identity member => zero identity (by simp [member])) _ next
  · intro pool member
    rw [pools] at member
    rw [identities]
    exact (structured.shape pool member).extend bare
  · intro pool member
    rw [pools] at member
    exact structured.small pool member

structure Growing (ids : List Identity) (pair : Store Body × CoroutinePool) : Prop where
  numbered : Numbered pair.1.identities pair.1.curCoroutineId
  shape : Shape pair.1.identities pair.2.refs
  extends_ : ∃ more, pair.1.identities = ids ++ more

theorem Structured.growing {process : Process Body} {pool : CoroutinePool}
    (structured : Structured process) (member : pool ∈ process.pools) :
    Growing process.store.identities (process.store,pool) :=
  ⟨structured.numbered,structured.shape pool member,[],by simp⟩

theorem Growing.append {ids : List Identity} {before after : Store Body × CoroutinePool}
    (growing : Growing ids before) (append : CoroutinePool.Append before after) :
    Growing ids after := by
  cases append with
  | slot store after pool heap rest block co memoryPool supplied taken made =>
    obtain ⟨stack,rfl,identities,counter⟩ :=
      identities_make store after pool.stackSize block co made
    obtain ⟨more,extends_⟩ := growing.extends_
    refine ⟨?_,?_,?_⟩
    · rw [identities,counter]
      simpa [stack] using growing.numbered.append ⟨store.curCoroutineId,block,pool.stackSize⟩
        (by simp [stack])
    · rw [identities]
      simpa [CoroutinePool.refs] using growing.shape.append
        ⟨store.curCoroutineId,block,pool.stackSize⟩ stack
    · exact ⟨more ++ [⟨store.curCoroutineId,block,pool.stackSize⟩],by
        rw [identities,show store.identities = ids ++ more from extends_,List.append_assoc]⟩

theorem Growing.appends {ids : List Identity} {before after : Store Body × CoroutinePool}
    (growing : Growing ids before) (appends : CoroutinePool.Appends before after) :
    Growing ids after := by
  induction appends with
  | refl => exact growing
  | tail _ last ih => exact ih.append last

theorem Structured.setPool {process : Process Body} (structured : Structured process) (index : Nat)
    (store : Store Body) (pool : CoroutinePool)
    (growing : Growing process.store.identities (store,pool))
    (small : pool.coroutines.length < 2^32) : Structured (process.setPool index store pool) := by
  refine ⟨growing.numbered,?_,?_⟩
  · intro other member
    rcases List.mem_or_eq_of_mem_set member with old | rfl
    · obtain ⟨more,extends_⟩ := growing.extends_
      change Shape store.identities other.refs
      rw [show store.identities = process.store.identities ++ more from extends_]
      exact (structured.shape other old).extend more
    · exact growing.shape
  · intro other member
    rcases List.mem_or_eq_of_mem_set member with old | rfl
    · exact structured.small other old
    · exact small

theorem refs_set (pool : CoroutinePool) (i co : Nat) (flag other : Bool)
    (located : pool.coroutines[i]? = some ⟨co,flag⟩) :
    { pool with coroutines := pool.coroutines.set i ⟨co,other⟩ }.refs = pool.refs := by
  apply List.ext_getElem?
  intro k
  simp only [CoroutinePool.refs,List.getElem?_map,List.getElem?_set]
  by_cases same : i = k
  · subst k
    obtain ⟨bound,value⟩ := List.getElem?_eq_some_iff.mp located
    simp [bound,value]
  · simp [same]

theorem shape_present {ids : List Identity} {pool : CoroutinePool} (shape : Shape ids pool.refs) :
    0 < pool.coroutines.length := by
  obtain ⟨co,located,_⟩ := shape.origin
  have bound := (List.getElem?_eq_some_iff.mp located).1
  simpa [CoroutinePool.refs] using bound

theorem backCoroutine_keeps (co : Nat) (store after : Store Body) (pool result : CoroutinePool)
    (call : pool.backCoroutine co store = .ok (after,result)) :
    after.identities = store.identities ∧ after.curCoroutineId = store.curCoroutineId ∧
      result.refs = pool.refs ∧
      result.coroutines.length = pool.coroutines.length := by
  obtain ⟨object,⟨first,flag⟩,_,named,⟨_,rfl,rfl⟩ | ⟨_,rfl,rfl⟩⟩ :=
    CoroutinePool.backCoroutine_effect co store after pool result call
  · exact ⟨rfl,rfl,rfl,rfl⟩
  · exact ⟨identities_modify store first _ (fun _ _ => rfl),rfl,
      refs_set pool object.corId first flag false named,
      by simp⟩

private theorem growing_refs {ids : List Identity} {pair : Store Body × CoroutinePool}
    {pool : CoroutinePool} (growing : Growing ids pair) (same : pool.refs = pair.2.refs) :
    Growing ids (pair.1,pool) :=
  ⟨growing.numbered,by rw [same]; exact growing.shape,growing.extends_⟩

theorem growing_origin {process : Process Body} (structured : Structured process) (stackSize : Nat)
    (memoryPool : MemoryPool) : Growing process.store.identities
      (process.store.makeDefault.2,⟨stackSize,[⟨process.store.objects.length,true⟩],
        memoryPool⟩) := by
  refine ⟨?_,?_,⟨[⟨0,0,0⟩],identities_makeDefault _⟩⟩
  · rw [identities_makeDefault]
    exact structured.numbered.append ⟨0,0,0⟩ rfl
  · rw [identities_makeDefault]
    refine ⟨by simp [CoroutinePool.refs],by simp [CoroutinePool.refs,identities_length],
      ⟨process.store.objects.length,by simp [CoroutinePool.refs],?_⟩,?_⟩
    · have last : (process.store.identities ++ [⟨0,0,0⟩])[process.store.objects.length]? =
          some ⟨0,0,0⟩ := by
        rw [← identities_length]
        simp
      rw [stacked_of last]
      rfl
    · intro i co positive located
      obtain ⟨bound,_⟩ := List.getElem?_eq_some_iff.mp located
      simp [CoroutinePool.refs] at bound
      omega

/-- What a step does to the pools. Their growths are appends, which start from a pool
that was there or from a new one with slot 0 only. -/
inductive PoolStep (process : Process Body) : Event Body → Process Body → Prop
  | quiet (event : Event Body) (after : Process Body) (still : Still event)
      (same : Quiet process after) :
      PoolStep process event after
  | construct (stackSize stackPtr co : Nat) (store : Store Body)
      (call : process.store.make stackSize stackPtr = .ok (co,store)) :
      PoolStep process (.newCoroutine co) { process with store := store }
  | create (poolSize stackSize : Nat) (heap left : List Nat) (memoryPool : MemoryPool)
      (store : Store Body)
      (pool : CoroutinePool) (arrays : MemoryPool.HeapArrays (u32 (stackSize * 128)) heap)
      (made : MemoryPool.create poolSize stackSize 128 heap = .ok (memoryPool,left))
      (appends : CoroutinePool.Appends
        (process.store.makeDefault.2,⟨stackSize,[⟨process.store.objects.length,true⟩],memoryPool⟩)
        (store,pool))
      (length : pool.coroutines.length = poolSize + 1) (small : pool.coroutines.length < 2^32) :
      PoolStep process (.newPool poolSize stackSize)
        { process with store := store, pools := process.pools ++ [pool] }
  | grow (index newSize : Nat) (before result : CoroutinePool) (store : Store Body)
      (located : process.pools[index]? = some before)
      (appends : CoroutinePool.Appends (process.store,before) (store,result))
      (length : result.coroutines.length = max before.coroutines.length (newSize + 1))
      (small : result.coroutines.length < 2^32) :
      PoolStep process (.resize index newSize) (process.setPool index store result)
  | hand (thread index co i : Nat) (before grown : CoroutinePool) (store : Store Body)
      (located : process.pools[index]? = some before)
      (appends : CoroutinePool.Appends (process.store,before) (store,grown))
      (small : grown.coroutines.length < 2^32) (behind : 1 ≤ i)
      (slot : grown.coroutines[i]? = some ⟨co,false⟩) :
      PoolStep process (.getCoroutine thread index co)
        (process.setPool index store { grown with coroutines := grown.coroutines.set i ⟨co,true⟩ })
  | release (thread index co : Nat) (before result : CoroutinePool) (store : Store Body)
      (located : process.pools[index]? = some before)
      (call : before.backCoroutine co process.store = .ok (store,result)) :
      PoolStep process (.backCoroutine thread index co) (process.setPool index store result)

section
variable {next : Body → Option Body} {process after : Process Body} {event : Event Body}

theorem step_pools (structured : Structured process) (step : Step next process event after) :
    PoolStep process event after := by
  have whole := step
  cases step with
  | newCoroutine stackSize stackPtr co store sized call =>
    exact .construct stackSize stackPtr co store call
  | newPool poolSize stackSize heap rest store pool sized arrays call =>
    obtain ⟨memoryPool,left,made,appends,length,small⟩ :=
      CoroutinePool.create_appends poolSize stackSize heap rest process.store store pool
        arrays sized.1 call
    exact .create poolSize stackSize heap left memoryPool store pool arrays made
      appends length small
  | resize index newSize heap rest before result store sized located arrays call =>
    have member := List.mem_of_getElem? located
    obtain ⟨appends,length,small⟩ := CoroutinePool.resize_appends newSize heap rest process.store
      store before result
      arrays sized (shape_present (structured.shape before member))
        (structured.small before member) call
    exact .grow index newSize before result store located appends length small
  | getCoroutine thread index co heap rest before result store located arrays call =>
    have member := List.mem_of_getElem? located
    obtain ⟨grown,i,appends,small,behind,slot,rfl⟩ :=
      CoroutinePool.getCoroutine_effect heap rest process.store store
      before result co arrays (shape_present (structured.shape before member))
        (structured.small before member) call
    exact .hand thread index co i before grown store located appends small behind slot
  | backCoroutine thread index co before result store located call =>
    exact .release thread index co before result store located call
  | getMainCoroutine | getCurrentCoroutine | setCallBack | resume | yield | finish =>
    exact .quiet _ _ trivial (step_quiet whole trivial)

theorem step_structured (structured : Structured process) (step : Step next process event after) :
    Structured after := by
  cases step_pools structured step with
  | quiet _ _ _ same => exact structured.quiet same
  | construct stackSize stackPtr co store call =>
    obtain ⟨stack,_,identities,counter⟩ :=
      identities_make process.store store stackSize stackPtr co call
    refine ⟨?_,?_,structured.small⟩
    · change Numbered store.identities store.curCoroutineId
      rw [identities,counter]
      simpa [stack] using structured.numbered.append
        ⟨process.store.curCoroutineId,stackPtr,stackSize⟩ (by simp [stack])
    · intro pool member
      change Shape store.identities pool.refs
      rw [identities]
      exact (structured.shape pool member).extend _
  | create poolSize stackSize _ _ memoryPool store pool _ _ appends _ small =>
    have grown := (growing_origin structured stackSize memoryPool).appends appends
    refine ⟨grown.numbered,?_,?_⟩
    · intro other member
      rcases List.mem_append.mp member with old | new
      · obtain ⟨more,extends_⟩ := grown.extends_
        change Shape store.identities other.refs
        rw [show store.identities = process.store.identities ++ more from extends_]
        exact (structured.shape other old).extend more
      · rw [List.mem_singleton.mp new]
        exact grown.shape
    · intro other member
      rcases List.mem_append.mp member with old | new
      · exact structured.small other old
      · rw [List.mem_singleton.mp new]
        exact small
  | grow index _ before result store located appends _ small =>
    exact structured.setPool index store result
      ((structured.growing (List.mem_of_getElem? located)).appends appends) small
  | hand _ index co i before grown store located appends small _ slot =>
    have growing := (structured.growing (List.mem_of_getElem? located)).appends appends
    refine structured.setPool index store _
      (growing_refs growing (refs_set grown i co false true slot)) ?_
    simpa using small
  | release _ index co before result store located call =>
    have member := List.mem_of_getElem? located
    obtain ⟨identities,counter,refs,length⟩ :=
      backCoroutine_keeps co process.store store before result call
    refine structured.setPool index store result ⟨?_,?_,[],by simp [identities]⟩ ?_
    · rw [identities,counter]
      exact structured.numbered
    · rw [identities,refs]
      exact structured.shape before member
    · rw [length]
      exact structured.small before member

theorem step_lasts (structured : Structured process) (step : Step next process event after) :
    ∃ more, after.store.identities = process.store.identities ++ more := by
  cases step_pools structured step with
  | quiet _ _ _ same =>
    obtain ⟨_,_,bare,identities,_⟩ := same
    exact ⟨bare,identities⟩
  | construct stackSize stackPtr co store call =>
    obtain ⟨_,_,identities,_⟩ := identities_make process.store store stackSize stackPtr co call
    exact ⟨_,identities⟩
  | create poolSize stackSize _ _ memoryPool _ _ _ _ appends _ _ =>
    exact ((growing_origin structured stackSize memoryPool).appends appends).extends_
  | grow _ _ _ _ _ located appends _ _ =>
    exact ((structured.growing (List.mem_of_getElem? located)).appends appends).extends_
  | hand _ _ _ _ _ _ _ located appends _ _ _ =>
    exact ((structured.growing (List.mem_of_getElem? located)).appends appends).extends_
  | release _ _ co before result store _ call =>
    obtain ⟨identities,_⟩ := backCoroutine_keeps co process.store store before result call
    exact ⟨[],identities.trans (List.append_nil _).symm⟩

end

theorem object_lasts {store after : Store Body} {co : Nat} {object : Coroutine (Context Body) Body}
    (lasts : ∃ more, after.identities = store.identities ++ more)
    (located : store.objects[co]? = some object) :
    ∃ later, after.objects[co]? = some later ∧ later.identity = object.identity := by
  obtain ⟨more,identities⟩ := lasts
  have known := identities_located located
  have still : after.identities[co]? = some object.identity := by
    rw [identities,List.getElem?_append_left (List.getElem?_eq_some_iff.mp known).1]
    exact known
  rw [identities_at] at still
  exact Option.map_eq_some_iff.mp still

def Prolongs (process after : Process Body) : Prop :=
  ∀ (index : Nat) (pool : CoroutinePool), process.pools[index]? = some pool →
    ∃ longer, after.pools[index]? = some longer ∧ ∃ more, longer.refs = pool.refs ++ more

theorem Quiet.prolongs {process after : Process Body} (quiet : Quiet process after) :
    Prolongs process after := by
  intro index pool located
  exact ⟨pool,by rw [quiet.pools]; exact located,[],by simp⟩

theorem setPool_at {process : Process Body} {k index : Nat} {before : CoroutinePool}
    (located : process.pools[k]? = some before) (store : Store Body) (result : CoroutinePool) :
    (process.setPool k store result).pools[index]? =
      if k = index then some result else process.pools[index]? := by
  have inside := (List.getElem?_eq_some_iff.mp located).1
  by_cases same : k = index
  · subst k
    rw [if_pos rfl,Process.setPool,List.getElem?_set_self inside]
  · rw [if_neg same,Process.setPool,List.getElem?_set_ne same]

private theorem setPool_prolongs {process : Process Body} {index : Nat}
    {before result : CoroutinePool} (store : Store Body)
    (located : process.pools[index]? = some before)
    (prolonged : ∃ more, result.refs = before.refs ++ more) :
    Prolongs process (process.setPool index store result) := by
  intro i pool there
  rw [setPool_at located]
  by_cases same : index = i
  · subst i
    rw [located] at there
    cases there
    exact ⟨result,if_pos rfl,prolonged⟩
  · exact ⟨pool,by rw [if_neg same]; exact there,[],by simp⟩

theorem appends_refs {before after : Store Body × CoroutinePool}
    (appends : CoroutinePool.Appends before after) :
    ∃ more, after.2.refs = before.2.refs ++ more := by
  obtain ⟨fresh,slots,_⟩ := CoroutinePool.appends_slots appends
  exact ⟨fresh.map (·.first),by rw [CoroutinePool.refs,slots,List.map_append]; rfl⟩

theorem step_prolongs {next : Body → Option Body} {process after : Process Body}
    {event : Event Body} (structured : Structured process) (step : Step next process event after) :
    Prolongs process after := by
  cases step_pools structured step with
  | quiet _ _ _ same => exact same.prolongs
  | construct => exact fun index pool located => ⟨pool,located,[],by simp⟩
  | create =>
    intro index other located
    refine ⟨other,?_,[],by simp⟩
    rw [List.getElem?_append_left (List.getElem?_eq_some_iff.mp located).1]
    exact located
  | grow index _ before result store located appends _ _ =>
    exact setPool_prolongs store located (appends_refs appends)
  | hand _ index co i before grown store located appends _ _ slot =>
    refine setPool_prolongs store located ?_
    rw [refs_set grown i co false true slot]
    exact appends_refs appends
  | release _ index co before result store located call =>
    obtain ⟨_,_,refs,_⟩ := backCoroutine_keeps co process.store store before result call
    exact setPool_prolongs store located ⟨[],by rw [refs,List.append_nil]⟩

/-- Returned by getCoroutine of the pool and not given back to it since. -/
def Held (pool : Nat) : List (Event Body) → Nat → Prop
  | [],_ => False
  | .getCoroutine _ index c::past,co => (index = pool ∧ c = co) ∨ Held pool past co
  | .backCoroutine _ index c::past,co => Held pool past co ∧ ¬ (index = pool ∧ c = co)
  | _::past,co => Held pool past co

theorem held_still_iff {index co : Nat} {event : Event Body} {past : List (Event Body)}
    (still : Still event) :
    Held index (event::past) co ↔ Held index past co := by
  cases event with
  | newCoroutine | newPool | resize | getCoroutine | backCoroutine => exact still.elim
  | getMainCoroutine | getCurrentCoroutine | setCallBack | resume | yield | finish => exact Iff.rfl

abbrev Reached (next : Body → Option Body) (history : List (Event Body)) (process : Process Body) :
    Prop :=
  Run (fun process => process = Process.initial) (fun _ _ _ => True) (Step next) history process

theorem reached_structured {next : Body → Option Body}
    {allowed : List (Event Body) → Process Body → Event Body → Prop} {history : List (Event Body)}
    {process : Process Body}
    (run : Run (fun process => process = Process.initial) allowed (Step next) history process) :
    Structured process := by
  refine run.invariant (fun _ process => Structured process) ?_ ?_
  · rintro process rfl
    exact ⟨⟨rfl,by simp [Process.initial,Store.initial,Store.identities]⟩,by simp [Process.initial],
      by simp [Process.initial]⟩
  · intro past before event after _ structured _ step
    exact step_structured structured step

theorem silent_untouched {next : Body → Option Body}
    {allowed : List (Event Body) → Process Body → Event Body → Prop} {history : List (Event Body)}
    {process : Process Body}
    (run : Run (fun process => process = Process.initial) allowed (Step next) history process)
    {thread : Nat} (silent : ∀ event ∈ history, caller event ≠ some thread) :
    process.threads thread = (Process.initial : Process Body).threads thread := by
  induction run with
  | start process ready => rw [ready]
  | next past before event after reached permitted step ih =>
    have same := ih fun event member => silent event (List.mem_cons_of_mem _ member)
    refine (step_elsewhere step ?_).trans same
    rintro other calls rfl
    exact silent event List.mem_cons_self calls

/-- A property of a pool over the objects of its process that no step breaks: it
survives objects constructed elsewhere, appended slots and changed use flags. -/
structure Stable (Body : Type) (holds : List Identity → CoroutinePool → Prop) : Prop where
  extend : ∀ (ids more : List Identity) (pool : CoroutinePool), Shape ids pool.refs →
    holds ids pool →
    holds (ids ++ more) pool
  append : ∀ (before after : Store Body × CoroutinePool), Shape before.1.identities before.2.refs →
    holds before.1.identities before.2 → CoroutinePool.Append before after →
      holds after.1.identities after.2
  flags : ∀ (ids : List Identity) (pool : CoroutinePool) (i co : Nat) (flag other : Bool),
    pool.coroutines[i]? = some ⟨co,flag⟩ → holds ids pool →
    holds ids { pool with coroutines := pool.coroutines.set i ⟨co,other⟩ }

section
variable {holds : List Identity → CoroutinePool → Prop} (stable : Stable Body holds)
include stable

theorem Stable.appends {ids : List Identity} {before after : Store Body × CoroutinePool}
    (growing : Growing ids before) (start : holds before.1.identities before.2)
    (appends : CoroutinePool.Appends before after) : holds after.1.identities after.2 := by
  induction appends with
  | refl => exact start
  | tail prior last ih => exact stable.append _ _ (growing.appends prior).shape ih last

end

/-- The invariant rule for pools, each with a property of its own: what remains to show is
that a new pool has its property before its first resize. -/
theorem stable_step {holds : Nat → List Identity → CoroutinePool → Prop}
    (stable : ∀ index, Stable Body (holds index)) {next : Body → Option Body}
    {process after : Process Body} {event : Event Body} (structured : Structured process)
    (every : ∀ index pool, process.pools[index]? = some pool →
      holds index process.store.identities pool)
    (origin : ∀ poolSize stackSize heap left memoryPool, event = .newPool poolSize stackSize →
      MemoryPool.HeapArrays (u32 (stackSize * 128)) heap →
      MemoryPool.create poolSize stackSize 128 heap = .ok (memoryPool,left) →
      holds process.pools.length process.store.makeDefault.2.identities
      ⟨stackSize,[⟨process.store.objects.length,true⟩],memoryPool⟩)
    (step : Step next process event after) :
    ∀ index pool, after.pools[index]? = some pool → holds index after.store.identities pool := by
  obtain ⟨more,lasts⟩ := step_lasts structured step
  have kept (index : Nat) (pool : CoroutinePool) (located : process.pools[index]? = some pool) :
      holds index after.store.identities pool := by
    rw [lasts]
    exact (stable index).extend _ more pool (structured.shape pool (List.mem_of_getElem? located))
      (every index pool located)
  have replaced {index : Nat} {store : Store Body} {result : CoroutinePool}
      (same : after = process.setPool index store result)
        (changed : holds index after.store.identities result) :
      ∀ other pool, after.pools[other]? = some pool → holds other after.store.identities pool := by
    intro other pool there
    rw [same,Process.setPool,List.getElem?_set] at there
    split at there
    · rename_i here
      subst here
      split at there
      · cases there
        exact changed
      · cases there
    · exact kept other pool there
  cases step_pools structured step with
  | quiet _ _ _ same =>
    rw [same.pools]
    exact kept
  | construct => exact kept
  | create poolSize stackSize heap left memoryPool store pool arrays made appends _ _ =>
    intro index other there
    rcases Nat.lt_or_ge index process.pools.length with old | new
    · rw [List.getElem?_append_left old] at there
      exact kept index other there
    obtain ⟨bound,last⟩ := List.getElem?_eq_some_iff.mp there
    rw [List.length_append,List.length_singleton] at bound
    obtain rfl : index = process.pools.length := by omega
    rw [List.getElem_concat_length rfl] at last
    subst last
    exact (stable _).appends (growing_origin structured stackSize memoryPool)
      (origin poolSize stackSize heap left memoryPool rfl arrays made) appends
  | grow index _ before result store located appends _ _ =>
    have member := List.mem_of_getElem? located
    exact replaced rfl ((stable index).appends (structured.growing member)
      (every index before located) appends)
  | hand _ index co i before grown store located appends _ _ slot =>
    have member := List.mem_of_getElem? located
    have extended := (stable index).appends (structured.growing member)
      (every index before located) appends
    exact replaced rfl ((stable index).flags _ grown i co false true slot extended)
  | release _ index co before result store located call =>
    obtain ⟨object,⟨first,flag⟩,_,named,⟨_,rfl,rfl⟩ | ⟨_,rfl,rfl⟩⟩ :=
      CoroutinePool.backCoroutine_effect co process.store store before result call
    · exact replaced rfl (kept index result located)
    · exact replaced rfl ((stable index).flags _ before object.corId first flag false named
        (kept index before located))

theorem Stable.step {holds : List Identity → CoroutinePool → Prop} (stable : Stable Body holds)
    {next : Body → Option Body} {process after : Process Body} {event : Event Body}
    (structured : Structured process)
    (every : ∀ pool ∈ process.pools, holds process.store.identities pool)
    (origin : ∀ poolSize stackSize heap left memoryPool, event = .newPool poolSize stackSize →
      MemoryPool.HeapArrays (u32 (stackSize * 128)) heap →
      MemoryPool.create poolSize stackSize 128 heap = .ok (memoryPool,left) →
      holds process.store.makeDefault.2.identities
      ⟨stackSize,[⟨process.store.objects.length,true⟩],memoryPool⟩)
    (step : Step next process event after) :
    ∀ pool ∈ after.pools, holds after.store.identities pool := by
  intro pool member
  obtain ⟨index,located⟩ := List.mem_iff_getElem?.mp member
  exact stable_step (fun _ => stable) structured
    (fun _ other there => every other (List.mem_of_getElem? there)) origin step index pool located

theorem held_slot {next : Body → Option Body}
    {allowed : List (Event Body) → Process Body → Event Body → Prop} {history : List (Event Body)}
    {process : Process Body}
    (run : Run (fun process => process = Process.initial) allowed (Step next) history process) :
    ∀ index co, Held index history co →
      ∃ pool i, process.pools[index]? = some pool ∧ 1 ≤ i ∧ pool.refs[i]? = some co := by
  refine run.invariant (fun history process => ∀ index co, Held index history co →
    ∃ pool i, process.pools[index]? = some pool ∧ 1 ≤ i ∧ pool.refs[i]? = some co) ?_ ?_
  · intro process _ index co held
    exact held.elim
  · intro past before event after reached slots _ step index co held
    have structured := reached_structured reached
    have kept (old : Held index past co) :
        ∃ pool i, after.pools[index]? = some pool ∧ 1 ≤ i ∧ pool.refs[i]? = some co := by
      obtain ⟨pool,i,located,positive,slot⟩ := slots index co old
      obtain ⟨longer,there,more,refs⟩ := step_prolongs structured step index pool located
      refine ⟨longer,i,there,positive,?_⟩
      rw [refs,List.getElem?_append_left (List.getElem?_eq_some_iff.mp slot).1]
      exact slot
    cases step_pools structured step with
    | hand thread index co i pool grown store located _ _ behind slot =>
      rcases held with ⟨rfl,rfl⟩ | old
      · refine ⟨{ grown with coroutines := grown.coroutines.set i ⟨co,true⟩ },i,?_,behind,?_⟩
        · exact List.getElem?_set_self (List.getElem?_eq_some_iff.mp located).1
        rw [refs_set grown i co false true slot]
        simp [CoroutinePool.refs,slot]
      · exact kept old
    | release => exact kept held.1
    | construct | create | grow => exact kept held
    | quiet event _ still _ => exact kept ((held_still_iff still).mp held)

private theorem backCoroutine_owner {store : Store Body} {pool : CoroutinePool} {co : Nat}
    {flag : Bool} {object : Coroutine (Context Body) Body}
    (present : store.objects[co]? = some object)
    (owner : pool.coroutines[object.corId]? = some ⟨co,flag⟩) :
    ∃ after, pool.backCoroutine co store =
      .ok (after,{ pool with coroutines := pool.coroutines.set object.corId ⟨co,false⟩ }) := by
  unfold CoroutinePool.backCoroutine
  rw [present]
  dsimp only
  rw [owner]
  cases flag with
  | true => exact ⟨_,rfl⟩
  | false =>
    obtain ⟨inside,here⟩ := List.getElem?_eq_some_iff.mp owner
    have same : pool.coroutines.set object.corId ⟨co,false⟩ = pool.coroutines := by
      rw [← here,List.set_getElem_self]
    rw [same]
    exact ⟨store,rfl⟩

/-- A held coroutine leads backCoroutine to the slot that owns it, of which it clears the
flag and no other, exactly when the objects outside the pool drew a multiple of `2^32`
identities before it. -/
theorem held_addressed_iff (next : Body → Option Body) (history : List (Event Body))
    (process : Process Body) (run : Reached next history process) (index co : Nat)
    (held : Held index history co) :
    ∃ pool object, process.pools[index]? = some pool ∧ process.store.objects[co]? = some object ∧
      ((∃ flag after, pool.coroutines[object.corId]? = some ⟨co,flag⟩ ∧
        pool.backCoroutine co process.store =
          .ok (after,{ pool with coroutines := pool.coroutines.set object.corId ⟨co,false⟩ })) ↔
        2^32 ∣ outside process.store.identities pool.refs co) := by
  have structured := reached_structured run
  obtain ⟨pool,i,located,positive,slot⟩ := held_slot run index co held
  have member := List.mem_of_getElem? located
  have shape := structured.shape pool member
  have inside := shape.located co (List.mem_of_getElem? slot)
  rw [identities_length] at inside
  have present : process.store.objects[co]? = some process.store.objects[co] :=
    List.getElem?_eq_getElem inside
  refine ⟨pool,process.store.objects[co],located,present,?_⟩
  rw [← slot_named_iff structured.numbered shape
    (by simpa [CoroutinePool.refs] using structured.small pool member)
    positive slot (identities_located present)]
  simp only [CoroutinePool.refs,List.getElem?_map,Option.map_eq_some_iff]
  constructor
  · rintro ⟨flag,_,owner,_⟩
    exact ⟨⟨co,flag⟩,owner,rfl⟩
  · rintro ⟨⟨first,flag⟩,owner,rfl⟩
    obtain ⟨after,call⟩ := backCoroutine_owner present owner
    exact ⟨flag,after,owner,call⟩

def onePool (origin : Nat) (flag : Bool) : CoroutinePool :=
  { stackSize := 16, coroutines := [⟨origin,true⟩,⟨origin + 1,flag⟩],
    memoryPool :=
      { allCounts := 128, useCounts := 1, blockGroups := [⟨65536,true::List.replicate 127 false⟩],
                    blockSize := 16, blockGroupSize := 128 } }

def oneObjects (number : Nat) : List (Coroutine (Context Body) Body) :=
  [Coroutine.default .zero,
    { Coroutine.default .zero with corId := number, stackSize := 16, stackSp := 65536 }]

def oneProcess (flag : Bool) : Process Body :=
  { Process.initial with store := { objects := oneObjects 1, curCoroutineId := 2 }, pools := [onePool 0 flag] }

theorem one_array : MemoryPool.HeapArrays (u32 (16 * 128)) [65536] :=
  MemoryPool.heapArrays_single (by decide)

theorem onePool_supplied (origin : Nat) (flag : Bool) :
    (onePool origin flag).memoryPool.Supplied [] := one_array

set_option maxRecDepth 2000 in
theorem oneProcess_launched (next : Body → Option Body)
    (allowed : List (Event Body) → Process Body → Event Body → Prop)
    (permitted : allowed [] Process.initial (.newPool 1 16)) :
    Run (fun process => process = Process.initial) allowed (Step next) [Event.newPool 1 16]
      (oneProcess false) :=
  .next [] Process.initial (Event.newPool 1 16) _ (.start _ rfl) permitted
    (Step.newPool Process.initial 1 16 [65536] [] _ (onePool 0 false) (by decide) one_array rfl)

theorem oneProcess_handed (next : Body → Option Body)
    (allowed : List (Event Body) → Process Body → Event Body → Prop)
    (permitted : allowed [] Process.initial (.newPool 1 16))
    (asked : allowed [.newPool 1 16] (oneProcess false) (.getCoroutine 0 0 1)) :
    Run (fun process => process = Process.initial) allowed (Step next)
      [Event.getCoroutine 0 0 1,.newPool 1 16]
      (oneProcess true) :=
  .next _ _ (Event.getCoroutine 0 0 1) _ (oneProcess_launched next allowed permitted) asked
    (Step.getCoroutine _ 0 0 1 [] [] (onePool 0 false) (onePool 0 true) _ rfl (onePool_supplied 0 false) rfl)

def grownPool (second third : Nat) (two three : Bool) : CoroutinePool :=
  { stackSize := 16, coroutines := [⟨0,true⟩,⟨1,true⟩,⟨second,two⟩,⟨third,three⟩],
    memoryPool := { allCounts := 128, useCounts := 3,
                    blockGroups := [⟨65536,true::true::true::List.replicate 125 false⟩],
                    blockSize := 16, blockGroupSize := 128 } }

def grownProcess (two three : Bool) : Process Body :=
  { Process.initial with
    store := { objects := oneObjects 1 ++
      [{ Coroutine.default .zero with corId := 2, stackSize := 16, stackSp := 65552 },
                 { Coroutine.default .zero with corId := 3, stackSize := 16, stackSp := 65568 }]
               curCoroutineId := 4 }
    pools := [grownPool 2 3 two three] }

theorem grownPool_supplied (second third : Nat) (two three : Bool) :
    (grownPool second third two three).memoryPool.Supplied [] := one_array

set_option maxRecDepth 2000 in
/-- With its only coroutine held, the pool grows on the next call. -/
theorem grownProcess_handed (next : Body → Option Body)
    (allowed : List (Event Body) → Process Body → Event Body → Prop)
    (handed : Run (fun process => process = Process.initial) allowed (Step next)
      [Event.getCoroutine 0 0 1,.newPool 1 16] (oneProcess true))
    (asked : allowed [.getCoroutine 0 0 1,.newPool 1 16] (oneProcess true) (.getCoroutine 0 0 2)) :
    Run (fun process => process = Process.initial) allowed (Step next)
      [Event.getCoroutine 0 0 2,.getCoroutine 0 0 1,.newPool 1 16] (grownProcess true false) :=
  .next _ _ (Event.getCoroutine 0 0 2) _ handed asked
    (Step.getCoroutine _ 0 0 2 [] [] (onePool 0 true) (grownPool 2 3 true false) _ rfl
      (onePool_supplied 0 true) rfl)

theorem held_addressed_grown :
    ∃ pool object, (grownProcess true false : Process Unit).pools[0]? = some pool ∧
      (grownProcess true false : Process Unit).store.objects[2]? = some object ∧
      ((∃ flag after, pool.coroutines[object.corId]? = some ⟨2,flag⟩ ∧
          pool.backCoroutine 2 (grownProcess true false : Process Unit).store =
            .ok (after,{ pool with coroutines := pool.coroutines.set object.corId ⟨2,false⟩ })) ↔
        2^32 ∣ outside (grownProcess true false : Process Unit).store.identities pool.refs 2) :=
  held_addressed_iff (fun _ => none) _ _
    (grownProcess_handed _ _ (oneProcess_handed _ _ trivial trivial) trivial) 0 2 (Or.inl ⟨rfl,rfl⟩)

set_option maxRecDepth 2000 in
/-- A coroutine constructed before the pool takes the identity of slot 1. -/
theorem stranger_shifts_slot :
    ∃ (history : List (Event Unit)) (process : Process Unit), Reached
      (fun _ => none) history process ∧
      Held 0 history 2 ∧ ∃ pool object, process.pools[0]? = some pool ∧
        process.store.objects[2]? = some object ∧
        pool.coroutines.length ≤ object.corId ∧
        pool.backCoroutine 2 process.store = .error .outOfRange := by
  have alone : Reached (fun _ => none) _ _ :=
    Run.next _ _ (Event.newCoroutine 0) _ (Run.start _ rfl) trivial
    (Step.newCoroutine (Process.initial : Process Unit) 16 4096 0 _ (by decide) rfl)
  have made : Reached (fun _ => none) _ _ := Run.next _ _ (Event.newPool 1 16) _ alone trivial
    (Step.newPool _ 1 16 [65536] [] _ (onePool 1 false) (by decide) one_array rfl)
  have handed : Reached (fun _ => none) _ _ :=
    Run.next _ _ (Event.getCoroutine 0 0 2) _ made trivial
    (Step.getCoroutine _ 0 0 2 [] [] (onePool 1 false) (onePool 1 true) _ rfl
      (onePool_supplied 1 false) rfl)
  exact ⟨_,_,handed,Or.inl ⟨rfl,rfl⟩,_,_,rfl,rfl,by decide,rfl⟩

end MCoroutine.SlotRuns
