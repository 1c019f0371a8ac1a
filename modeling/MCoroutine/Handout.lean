import MCoroutine.Switching

/-! A pool that is the only creator of stacks and whose coroutines are set up and given
back by their holders. Identities are then slot numbers, so that the use flags say who
holds what and a free coroutine has both of its flags cleared. -/
namespace MCoroutine.Handout
open General.Runs Process MCoroutine.Numbering SlotRuns Switching

variable {Body : Type}

def Sole (history : List (Event Body)) (process : Process Body) : Event Body → Prop
  | .newCoroutine _ => False
  | .newPool _ stackSize => process.pools = [] ∧ 1 ≤ stackSize ∧ stackSize * 128 < 2^32
  | .backCoroutine _ index co => Held index history co
  | .setCallBack _ co _ true => Held 0 history co
  | _ => True

/-- The part of it that the slots of the pool depend on. -/
def Single (history : List (Event Body)) (process : Process Body) : Event Body → Prop
  | .newCoroutine _ => False
  | .newPool _ stackSize => process.pools = [] ∧ 1 ≤ stackSize ∧ stackSize * 128 < 2^32
  | .backCoroutine _ index co => Held index history co
  | _ => True

theorem Sole.single {history : List (Event Body)} {process : Process Body} {event : Event Body}
    (sole : Sole history process event) : Single history process event := by
  cases event with
  | newCoroutine | newPool | backCoroutine => exact sole
  | _ => trivial

/-- `Sole` with stacks of any size. -/
def Tended (history : List (Event Body)) (process : Process Body) : Event Body → Prop
  | .newCoroutine _ => False
  | .newPool _ _ => process.pools = []
  | .backCoroutine _ index co => Held index history co
  | .setCallBack _ co _ true => Held 0 history co
  | _ => True

theorem Sole.tended {history : List (Event Body)} {process : Process Body} {event : Event Body}
    (sole : Sole history process event) : Tended history process event := by
  cases event with
  | newPool => exact sole.1
  | setCallBack thread co cb accepted =>
    cases accepted with
    | true => exact sole
    | false => trivial
  | newCoroutine | backCoroutine => exact sole
  | _ => trivial

/-- The part that leaves the callbacks open as well. -/
def Unshared (history : List (Event Body)) (process : Process Body) : Event Body → Prop
  | .newCoroutine _ => False
  | .newPool _ _ => process.pools = []
  | .backCoroutine _ index co => Held index history co
  | _ => True

theorem Tended.unshared {history : List (Event Body)} {process : Process Body} {event : Event Body}
    (tended : Tended history process event) : Unshared history process event := by
  cases event with
  | newCoroutine | newPool | backCoroutine => exact tended
  | _ => trivial

theorem Single.unshared {history : List (Event Body)} {process : Process Body} {event : Event Body}
    (single : Single history process event) : Unshared history process event := by
  cases event with
  | newPool => exact single.1
  | newCoroutine | backCoroutine => exact single
  | _ => trivial

structure Idle (object : Coroutine (Context Body) Body) : Prop where
  running : object.cbfuncRunningFlag = false
  resume : object.resumeFlag = false

/-- The flags of a coroutine are raised by an accepted callback and by a Resume of it,
and a Resume passes only when one of them is raised already. -/
private theorem effect_idle {next : Body → Option Body} {past : List (Event Body)}
    {process after : Process Body} {event : Event Body} (coherent : Coherent past process)
    (effect : Effect next past process event after) {co : Nat}
    (before : ∀ object, process.store.objects[co]? = some object → object.stackSp ≠ 0 → Idle object)
    (unset : ∀ thread cb, event ≠ .setCallBack thread co cb true)
    (object : Coroutine (Context Body) Body) (located : after.store.objects[co]? = some object)
    (stack : object.stackSp ≠ 0) : Idle object := by
  have calm {other : Coroutine (Context Body) Body} (high : other.stackSp ≠ 0)
    (inherits : Inherits process co other) :
      Idle other := by
    rcases inherits with there | ⟨_,_,resume,running⟩
    · exact before other there high
    · exact ⟨running,resume⟩
  have framed (kept : ∀ thread index co, event ≠ .backCoroutine thread index co)
    (apart : touched event ≠ some co) :
      Idle object := calm stack (effect.frame coherent kept co object located stack apart)
  cases effect with
  | grow _ _ fresh plain threads objects unused =>
    refine framed ?_ ?_
    · rintro thread index other rfl
      exact plain
    · rw [touched_plain plain]
      nofun
  | attach _ _ thread plain attached =>
    refine framed ?_ ?_
    · rintro thread index other rfl
      exact plain
    · rw [touched_plain plain]
      nofun
  | release thread index other pool result store there call =>
    obtain ⟨_,pair,_,_,⟨_,rfl,_⟩ | ⟨_,rfl,_⟩⟩ :=
      CoroutinePool.backCoroutine_effect other process.store store pool result call
    · exact before object located stack
    · rw [setPool_store,Store.modify_at] at located
      split at located
      · obtain ⟨inner,_,rfl⟩ := Option.map_eq_some_iff.mp located
        exact ⟨rfl,rfl⟩
      · exact before object located stack
  | accept thread other cb accepted _ call =>
    refine framed nofun ?_
    intro same
    cases accepted with
    | true =>
      cases same
      exact unset thread cb rfl
    | false => cases same
  | enter thread other main target body _ entered =>
    refine framed nofun ?_
    intro same
    cases same
    have flag := (before target entered.present entered.stack).resume
    rw [entered.flag] at flag
    cases flag
  | leave thread other main body rest _ running more left =>
    by_cases same : co = other
    · subst co
      obtain ⟨inner,there,rfl⟩ := left.source_object located
      exact ⟨(before inner there stack).running,(before inner there stack).resume⟩
    · exact framed nofun fun touch => same (Option.some.inj touch).symm
  | stop thread other main body _ running done left =>
    by_cases same : co = other
    · subst co
      obtain ⟨inner,cleared,rfl⟩ := left.source_object located
      rw [Store.modify_at,if_pos rfl] at cleared
      obtain ⟨origin,there,rfl⟩ := Option.map_eq_some_iff.mp cleared
      exact ⟨rfl,(before origin there stack).resume⟩
    · exact framed nofun fun touch => same (Option.some.inj touch).symm

structure Serves (history : List (Event Body)) (ids : List Identity) (pool : CoroutinePool) :
    Prop where
  inside : ∀ co, stacked ids co = true → co ∈ pool.refs
  origin : ∃ co, pool.coroutines[0]? = some ⟨co,true⟩
  used : ∀ i co flag, 1 ≤ i → pool.coroutines[i]? = some ⟨co,flag⟩ →
    (flag = true ↔ Held 0 history co)

def Served (history : List (Event Body)) (process : Process Body) : Prop :=
  (process.pools = [] ∧ ∀ co, stacked process.store.identities co = false) ∨
    ∃ pool, process.pools = [pool] ∧ Serves history process.store.identities pool

theorem refs_at (pool : CoroutinePool) (i : Nat) :
    pool.refs[i]? = pool.coroutines[i]?.map (·.first) := by
  simp [CoroutinePool.refs]

theorem Serves.same {past history : List (Event Body)} {ids : List Identity} {pool : CoroutinePool}
    (serves : Serves past ids pool) (same : ∀ co, Held 0 history co ↔ Held 0 past co) :
    Serves history ids pool :=
  ⟨serves.inside,serves.origin,fun i co flag positive located => by
    rw [same]
    exact serves.used i co flag positive located⟩

theorem Serves.append {history : List (Event Body)} {before after : Store Body × CoroutinePool}
    (serves : Serves history before.1.identities before.2)
    (shape : Shape before.1.identities before.2.refs)
    (held : ∀ co, Held 0 history co → co ∈ before.2.refs)
    (append : CoroutinePool.Append before after) :
    Serves history after.1.identities after.2 := by
  cases append with
  | slot store after pool heap rest block co memoryPool supplied taken made =>
    obtain ⟨stack,rfl,identities,_⟩ := identities_make store after pool.stackSize block co made
    refine ⟨?_,?_,?_⟩
    · intro k high
      have bound := stacked_inside high
      simp only [identities,List.length_append,List.length_singleton] at high bound
      rcases Nat.lt_or_ge k store.identities.length with below | beyond
      · rw [stacked_append _ _ _ below] at high
        have member := serves.inside k high
        simp only [CoroutinePool.refs,List.map_append,List.mem_append]
        exact Or.inl member
      · simp [CoroutinePool.refs,show k = store.identities.length by omega]
    · obtain ⟨co,origin⟩ := serves.origin
      exact ⟨co,by rw [List.getElem?_append_left (List.getElem?_eq_some_iff.mp origin).1]; exact origin⟩
    · intro i co flag positive located
      rcases Nat.lt_or_ge i pool.coroutines.length with below | beyond
      · rw [List.getElem?_append_left below] at located
        exact serves.used i co flag positive located
      · rw [List.getElem?_append_right beyond] at located
        cases List.mem_singleton.mp (List.mem_of_getElem? located)
        refine ⟨fun used => absurd used Bool.false_ne_true,fun taken => ?_⟩
        exact absurd (shape.located _ (held _ taken)) (Nat.lt_irrefl _)

theorem Serves.appends {history : List (Event Body)} {ids : List Identity}
    {before after : Store Body × CoroutinePool}
    (serves : Serves history before.1.identities before.2) (growing : Growing ids before)
    (held : ∀ co, Held 0 history co → co ∈ before.2.refs)
    (appends : CoroutinePool.Appends before after) :
    Serves history after.1.identities after.2 := by
  induction appends with
  | refl => exact serves
  | tail first last ih =>
    obtain ⟨more,refs⟩ := appends_refs first
    refine ih.append (growing.appends first).shape ?_ last
    intro co taken
    rw [refs]
    exact List.mem_append_left more (held co taken)

theorem Serves.turn {past history : List (Event Body)} {ids : List Identity} {pool : CoroutinePool}
    {i co : Nat} {flag other : Bool} (serves : Serves past ids pool) (shape : Shape ids pool.refs)
    (positive : 1 ≤ i) (slot : pool.coroutines[i]? = some ⟨co,flag⟩)
    (self : other = true ↔ Held 0 history co)
    (rest : ∀ k, k ≠ co → (Held 0 history k ↔ Held 0 past k)) :
    Serves history ids { pool with coroutines := pool.coroutines.set i ⟨co,other⟩ } := by
  refine ⟨?_,?_,?_⟩
  · intro k high
    rw [refs_set pool i co flag other slot]
    exact serves.inside k high
  · obtain ⟨origin,first⟩ := serves.origin
    exact ⟨origin,by rw [List.getElem?_set_ne (by omega)]; exact first⟩
  · intro j k used behind located
    by_cases same : i = j
    · subst j
      rw [List.getElem?_set_self (List.getElem?_eq_some_iff.mp slot).1] at located
      cases located
      exact self
    · rw [List.getElem?_set_ne same] at located
      have apart : k ≠ co := by
        rintro rfl
        have there : pool.refs[i]? = some k := by rw [refs_at,slot]; rfl
        have here : pool.refs[j]? = some k := by rw [refs_at,located]; rfl
        exact same (shape.slot_unique there here)
      rw [rest k apart]
      exact serves.used j k used behind located

theorem Serves.addressed {history : List (Event Body)} {process : Process Body}
    {pool : CoroutinePool} {i co : Nat} {object : Coroutine (Context Body) Body}
    (serves : Serves history process.store.identities pool) (structured : Structured process)
    (member : pool ∈ process.pools) (positive : 1 ≤ i) (slot : pool.refs[i]? = some co)
    (located : process.store.objects[co]? = some object) :
    object.corId = i := by
  have present := identities_located located
  have number := slot_number structured.numbered
    (structured.shape pool member) positive slot present
  have bound := (List.getElem?_eq_some_iff.mp slot).1
  have small := structured.small pool member
  rw [outside_none serves.inside,Nat.add_zero,
    u32_of_lt (by simp [CoroutinePool.refs] at bound; omega)] at number
  exact number

private theorem sole_index {process : Process Body} {pool before : CoroutinePool} {index : Nat}
    (only : process.pools = [pool]) (located : process.pools[index]? = some before) :
    index = 0 ∧ before = pool := by
  rw [only] at located
  obtain ⟨bound,here⟩ := List.getElem?_eq_some_iff.mp located
  have zero : index = 0 := by simpa using bound
  subst index
  exact ⟨rfl,here.symm⟩

theorem Served.located {history : List (Event Body)} {process : Process Body}
    (served : Served history process) {index : Nat} {pool : CoroutinePool}
    (located : process.pools[index]? = some pool) :
    index = 0 ∧ process.pools = [pool] ∧ Serves history process.store.identities pool := by
  rcases served with ⟨none,_⟩ | ⟨other,only,serves⟩
  · rw [none] at located
    cases located
  · obtain ⟨rfl,rfl⟩ := sole_index only located
    exact ⟨rfl,only,serves⟩

theorem Served.quiet {past : List (Event Body)} {process after : Process Body} {event : Event Body}
    (served : Served past process) (quiet : Quiet process after)
    (same : ∀ co, Held 0 (event::past) co ↔ Held 0 past co) : Served (event::past) after := by
  obtain ⟨pools,_,bare,identities,zero⟩ := quiet
  rcases served with ⟨none,empty⟩ | ⟨pool,only,serves⟩
  · refine Or.inl ⟨pools.trans none,fun co => ?_⟩
    rw [identities,stacked_bare zero]
    exact empty co
  · refine Or.inr ⟨pool,pools.trans only,?_,serves.origin,(serves.same same).used⟩
    intro co high
    rw [identities,stacked_bare zero] at high
    exact serves.inside co high

private theorem serves_created {past : List (Event Body)} {process : Process Body} {stackSize : Nat}
    {memoryPool : MemoryPool} {store : Store Body} {pool : CoroutinePool}
    (structured : Structured process) (empty : ∀ co, stacked process.store.identities co = false)
    (unheld : ∀ co, ¬ Held 0 past co)
    (appends : CoroutinePool.Appends (process.store.makeDefault.2,
      ⟨stackSize,[⟨process.store.objects.length,true⟩],memoryPool⟩) (store,pool)) :
    Serves past store.identities pool := by
  have origin : Serves past process.store.makeDefault.2.identities
      ⟨stackSize,[⟨process.store.objects.length,true⟩],memoryPool⟩ := by
    refine ⟨?_,⟨_,rfl⟩,?_⟩
    · intro co high
      rw [identities_makeDefault,stacked_bare (by simp),empty] at high
      cases high
    · intro i co flag positive located
      have bound := (List.getElem?_eq_some_iff.mp located).1
      rw [List.length_singleton] at bound
      omega
  exact origin.appends (growing_origin structured stackSize memoryPool)
    (fun co held => absurd held (unheld co)) appends

section
variable {next : Body → Option Body} {past : List (Event Body)} {process after : Process Body}
  {event : Event Body} {allowed : List (Event Body) → Process Body → Event Body → Prop}
  (reached : Run (fun process => process = Process.initial) allowed (Step next) past process)
include reached

theorem sole_slot {pool : CoroutinePool} (only : process.pools = [pool]) {co : Nat}
    (held : Held 0 past co) :
    ∃ i, 1 ≤ i ∧ pool.refs[i]? = some co := by
  obtain ⟨before,i,located,positive,slot⟩ := held_slot reached 0 co held
  obtain ⟨_,rfl⟩ := sole_index only located
  exact ⟨i,positive,slot⟩

theorem sole_returned (served : Served past process) {index co : Nat}
    {before result : CoroutinePool} {store : Store Body} (held : Held index past co)
    (located : process.pools[index]? = some before)
    (call : before.backCoroutine co process.store = .ok (store,result)) :
    index = 0 ∧ process.pools = [before] ∧ Serves past process.store.identities before ∧
      ∃ i, 1 ≤ i ∧ before.coroutines[i]? = some ⟨co,true⟩ ∧
        store = process.store.modify co (fun co =>
          (co.setCallBackRunningFlag false).setResumeFlag false) ∧
        result = { before with coroutines := before.coroutines.set i ⟨co,false⟩ } := by
  obtain ⟨rfl,only,serves⟩ := served.located located
  obtain ⟨i,positive,slot⟩ := sole_slot reached only held
  obtain ⟨object,⟨first,flag⟩,there,named,act⟩ :=
    CoroutinePool.backCoroutine_effect co process.store store before result call
  obtain rfl := serves.addressed (reached_structured reached)
    (List.mem_of_getElem? located) positive slot there
  rw [refs_at,named] at slot
  cases slot
  have used := (serves.used _ _ _ positive named).mpr held
  rcases act with ⟨free,_,_⟩ | ⟨_,rfl,rfl⟩
  · rw [used] at free
    cases free
  · subst used
    exact ⟨rfl,only,serves,_,positive,named,rfl,rfl⟩

private theorem served_grown (served : Served past process) {index : Nat}
    {before grown : CoroutinePool} {store : Store Body}
    (located : process.pools[index]? = some before)
    (appends : CoroutinePool.Appends (process.store,before) (store,grown)) :
    index = 0 ∧ process.pools = [before] ∧ Serves past store.identities grown := by
  have structured := reached_structured reached
  obtain ⟨rfl,only,serves⟩ := served.located located
  refine ⟨rfl,only,serves.appends (structured.growing (List.mem_of_getElem? located)) ?_ appends⟩
  intro co held
  obtain ⟨i,_,slot⟩ := sole_slot reached only held
  exact List.mem_of_getElem? slot

private theorem step_served (served : Served past process) (permitted : Unshared past process event)
    (step : Step next process event after) : Served (event::past) after := by
  have structured := reached_structured reached
  cases step_pools structured step with
  | quiet _ _ still same => exact served.quiet same fun co => held_still_iff still
  | construct => exact permitted.elim
  | create poolSize stackSize _ _ _ store pool _ _ appends _ _ =>
    have none : process.pools = [] := permitted
    have unheld (co : Nat) : ¬ Held 0 past co := by
      intro held
      obtain ⟨before,_,located,_⟩ := held_slot reached 0 co held
      rw [none] at located
      cases located
    have empty (co : Nat) : stacked process.store.identities co = false := by
      rcases served with ⟨_,empty⟩ | ⟨pool,only,_⟩
      · exact empty co
      · rw [none] at only
        cases only
    have created := serves_created structured empty unheld appends
    exact Or.inr ⟨pool,by rw [none]; rfl,created.same fun _ => Iff.rfl⟩
  | grow index _ before result store located appends _ _ =>
    obtain ⟨rfl,only,serves⟩ := served_grown reached served located appends
    exact Or.inr ⟨result,by simp [Process.setPool,only],serves.same fun _ => Iff.rfl⟩
  | hand _ index co i before grown store located appends _ positive slot =>
    obtain ⟨rfl,only,serves⟩ := served_grown reached served located appends
    have growing := (structured.growing (List.mem_of_getElem? located)).appends appends
    refine Or.inr ⟨_,by simp [Process.setPool,only]; rfl,?_⟩
    refine serves.turn growing.shape positive slot ⟨fun _ => Or.inl ⟨rfl,rfl⟩,fun _ => rfl⟩ ?_
    intro k apart
    exact ⟨fun taken => taken.elim (fun clash => absurd clash.2.symm apart) id,Or.inr⟩
  | release _ index co before result store located call =>
    obtain ⟨rfl,only,serves,i,positive,slot,rfl,rfl⟩ :=
      sole_returned reached served permitted located call
    refine Or.inr ⟨_,by simp [Process.setPool,only]; rfl,?_⟩
    have kept : (process.store.modify co fun co =>
      (co.setCallBackRunningFlag false).setResumeFlag false).identities =
        process.store.identities := identities_modify process.store co _ (fun _ _ => rfl)
    rw [setPool_store,kept]
    refine serves.turn (structured.shape before (List.mem_of_getElem? located)) positive slot ?_ ?_
    · exact ⟨fun used => absurd used Bool.false_ne_true,fun taken => absurd ⟨rfl,rfl⟩ taken.2⟩
    · intro k apart
      exact ⟨fun taken => taken.1,fun taken => ⟨taken,fun clash => apart clash.2.symm⟩⟩

end

theorem reached_served {next : Body → Option Body} {history : List (Event Body)}
    {process : Process Body}
    (run : Run (fun process => process = Process.initial) Unshared (Step next) history process) :
    Served history process := by
  refine run.invariant Served ?_ ?_
  · rintro process rfl
    exact Or.inl ⟨rfl,fun _ => rfl⟩
  · intro past before event after reached served permitted step
    exact step_served reached served permitted step

theorem held_stacked {next : Body → Option Body}
    {allowed : List (Event Body) → Process Body → Event Body → Prop} {history : List (Event Body)}
    {process : Process Body}
    (run : Run (fun process => process = Process.initial) allowed (Step next) history process)
    {index co : Nat} (held : Held index history co) :
    stacked process.store.identities co = true := by
  obtain ⟨pool,i,located,positive,slot⟩ := held_slot run index co held
  exact ((reached_structured run).shape pool (List.mem_of_getElem? located)).slots i
    co positive slot

theorem tended_sensible {next : Body → Option Body} {history : List (Event Body)}
    {process : Process Body}
    (run : Run (fun process => process = Process.initial) Tended (Step next) history process) :
    Run (fun process => process = Process.initial) Sensible (Step next) history process := by
  refine run.weaken ?_
  intro past before event after reached permitted _
  cases event with
  | setCallBack thread co cb accepted =>
    cases accepted with
    | true => exact held_stacked reached permitted
    | false => trivial
  | _ => trivial

theorem tended_unshared {next : Body → Option Body} {history : List (Event Body)}
    {process : Process Body}
    (run : Run (fun process => process = Process.initial) Tended (Step next) history process) :
    Run (fun process => process = Process.initial) Unshared (Step next) history process :=
  run.weaken fun _ _ _ _ _ tended _ => tended.unshared

private theorem sole_tended {next : Body → Option Body} {history : List (Event Body)}
    {process : Process Body}
    (run : Run (fun process => process = Process.initial) Sole (Step next) history process) :
    Run (fun process => process = Process.initial) Tended (Step next) history process :=
  run.weaken fun _ _ _ _ _ sole _ => sole.tended

theorem sole_sensible {next : Body → Option Body} {history : List (Event Body)}
    {process : Process Body}
    (run : Run (fun process => process = Process.initial) Sole (Step next) history process) :
    Run (fun process => process = Process.initial) Sensible (Step next) history process :=
  tended_sensible (sole_tended run)

theorem sole_unshared {next : Body → Option Body} {history : List (Event Body)}
    {process : Process Body}
    (run : Run (fun process => process = Process.initial) Sole (Step next) history process) :
    Run (fun process => process = Process.initial) Unshared (Step next) history process :=
  tended_unshared (sole_tended run)

theorem held_lost {past : List (Event Body)} {event : Event Body} {co : Nat} (held : Held 0 past co)
    (lost : ¬ Held 0 (event::past) co) : ∃ thread, event = .backCoroutine thread 0 co := by
  cases event with
  | backCoroutine thread index other =>
    by_cases same : index = 0 ∧ other = co
    · obtain ⟨rfl,rfl⟩ := same
      exact ⟨thread,rfl⟩
    · exact absurd ⟨held,same⟩ lost
  | getCoroutine thread index other => exact absurd (Or.inr held) lost
  | _ => exact absurd held lost

structure Exclusive (history : List (Event Body)) (process : Process Body) : Prop where
  served : Served history process
  idle : ∀ co object, process.store.objects[co]? = some object → object.stackSp ≠ 0 →
    ¬ Held 0 history co → Idle object

private theorem unheld_idle {next : Body → Option Body} {past : List (Event Body)}
    {process after : Process Body} {event : Event Body}
    (reached : Run (fun process => process = Process.initial) Tended (Step next) past process)
    (exclusive : Exclusive past process) (step : Step next process event after)
    (permitted : Tended past process event) {co : Nat} (free : ¬ Held 0 past co)
    (object : Coroutine (Context Body) Body) (located : after.store.objects[co]? = some object)
    (stack : object.stackSp ≠ 0) : Idle object := by
  have structured := reached_structured reached
  have effect := step_effect structured (reached_coherent (tended_sensible reached)) step
  refine effect_idle (reached_coherent (tended_sensible reached)) effect ?_ ?_ object located stack
  · exact fun other there high => exclusive.idle co other there high free
  · rintro thread cb rfl
    exact free permitted

theorem reached_exclusive {next : Body → Option Body} {history : List (Event Body)}
    {process : Process Body}
    (run : Run (fun process => process = Process.initial) Tended (Step next) history process) :
    Exclusive history process := by
  refine run.invariant Exclusive ?_ ?_
  · rintro process rfl
    exact ⟨Or.inl ⟨rfl,fun _ => rfl⟩,fun co object located => by cases located⟩
  · intro past before event after reached exclusive permitted step
    refine ⟨step_served reached exclusive.served permitted.unshared step,?_⟩
    intro co object located stack free
    by_cases held : Held 0 past co
    · obtain ⟨thread,rfl⟩ := held_lost held free
      cases step with
      | backCoroutine _ _ _ pool result store there call =>
        obtain ⟨_,_,_,_,_,_,rfl,_⟩ := sole_returned reached exclusive.served permitted there call
        rw [setPool_store,Store.modify_at,if_pos rfl] at located
        obtain ⟨inner,_,rfl⟩ := Option.map_eq_some_iff.mp located
        exact ⟨rfl,rfl⟩
    · exact unheld_idle reached exclusive step permitted held object located stack

theorem sole_held {next : Body → Option Body} {history : List (Event Body)} {process : Process Body}
    (run : Run (fun process => process = Process.initial) Unshared (Step next) history process)
    {index co : Nat} (held : Held index history co) : index = 0 := by
  obtain ⟨before,_,located,_⟩ := held_slot run index co held
  exact ((reached_served run).located located).1

theorem handed_free {next : Body → Option Body} {history : List (Event Body)}
    {process after : Process Body}
    (run : Run (fun process => process = Process.initial) Unshared (Step next) history process)
    {thread index co : Nat} (step : Step next process (.getCoroutine thread index co) after) :
    index = 0 ∧ ¬ Held 0 history co ∧ ∃ pool i, after.pools = [pool] ∧ 1 ≤ i ∧
      pool.refs[i]? = some co := by
  cases step_pools (reached_structured run) step with
  | quiet _ _ still _ => exact still.elim
  | hand _ _ _ i before grown store located appends _ positive slot =>
    obtain ⟨rfl,only,serves⟩ := served_grown run (reached_served run) located appends
    have free : ¬ Held 0 history co := by
      intro held
      have used := (serves.used i co false positive slot).mpr held
      cases used
    refine ⟨rfl,free,_,i,by rw [Process.setPool,only]; rfl,positive,?_⟩
    rw [refs_set grown i co false true slot,refs_at,slot]
    rfl

/-- getCoroutine hands out what nobody holds, never slot 0, with both flags cleared. -/
theorem handed_exclusive (next : Body → Option Body) (history : List (Event Body))
    (process after : Process Body)
    (run : Run (fun process => process = Process.initial) Sole (Step next) history process)
    (thread index co : Nat) (step : Step next process (.getCoroutine thread index co) after) :
    (∀ pool, ¬ Held pool history co) ∧ (∀ pool ∈ after.pools, pool.refs[0]? ≠ some co) ∧
      ∃ object, after.store.objects[co]? = some object ∧ object.cbfuncRunningFlag = false ∧
        object.resumeFlag = false := by
  have tended := sole_tended run
  obtain ⟨rfl,free,pool,i,only,positive,slot⟩ := handed_free (sole_unshared run) step
  have shape := (step_structured (reached_structured run) step).shape pool (by simp [only])
  refine ⟨?_,?_,?_⟩
  · intro k held
    rw [sole_held (sole_unshared run) held] at held
    exact free held
  · intro other member first
    rw [only] at member
    rw [List.mem_singleton.mp member] at first
    have clash := shape.slot_unique first slot
    omega
  · obtain ⟨object,present,stack⟩ := (stacked_iff after.store co).mp
      (shape.slots i co positive slot)
    have idle := unheld_idle tended (reached_exclusive tended) step trivial free
      object present stack
    exact ⟨object,present,idle.running,idle.resume⟩

set_option maxRecDepth 2000 in
/-- The coroutine given back with a suspended callback is handed out again, and with it
held the next call grows the pool. -/
theorem handed_exclusive_reissued :
    ∃ (returned : List (Event Bool)) (reissued grown : Process Bool),
    returned = [.backCoroutine 0 0 1,.yield 0 1,.resume 0 1,.setCallBack 0 1 true true,
      .getCoroutine 0 0 1,.newPool 1 16] ∧
      ((∀ pool, ¬ Held pool returned 1) ∧ (∀ pool ∈ reissued.pools, pool.refs[0]? ≠ some 1) ∧
        ∃ object, reissued.store.objects[1]? = some object ∧ object.cbfuncRunningFlag = false ∧
          object.resumeFlag = false) ∧
      Held 0 (.getCoroutine 0 0 1::returned) 1 ∧ reissued.store.objects[3]? = none ∧
      (∀ pool, ¬ Held pool (.getCoroutine 0 0 1::returned) 3) ∧
        (∀ pool ∈ grown.pools, pool.refs[0]? ≠ some 3) ∧
        ∃ object, grown.store.objects[3]? = some object ∧ object.cbfuncRunningFlag = false ∧
          object.resumeFlag = false := by
  have given := Run.next _ _ (Event.setCallBack 0 1 true true) _
    (oneProcess_handed (fun body => if body then some false else none) Sole
      ⟨rfl,by decide,by decide⟩ trivial)
    (Or.inl ⟨rfl,rfl⟩) (Step.setCallBack _ _ 0 1 true true rfl)
  have entered := Run.next _ _ (Event.resume 0 1) _ given trivial (Step.resume _ _ 0 1 rfl)
  have suspended := Run.next _ _ (Event.yield 0 1) _ entered trivial
    (Step.yield _ _ 0 1 true false rfl rfl rfl)
  have returned := Run.next _ _ (Event.backCoroutine 0 0 1) _ suspended (Or.inl ⟨rfl,rfl⟩)
    (Step.backCoroutine _ 0 0 1 (onePool 0 true) (onePool 0 false) _ rfl rfl)
  have first := handed_exclusive _ _ _ _ returned 0 0 1
    (Step.getCoroutine _ 0 0 1 [] [] (onePool 0 false) (onePool 0 true) _ rfl
      (onePool_supplied 0 false) rfl)
  have reissued := Run.next _ _ (Event.getCoroutine 0 0 1) _ returned trivial
    (Step.getCoroutine _ 0 0 1 [] [] (onePool 0 false) (onePool 0 true) _ rfl
      (onePool_supplied 0 false) rfl)
  exact ⟨_,_,_,rfl,first,Or.inl ⟨rfl,rfl⟩,rfl,handed_exclusive _ _ _ _ reissued 0 0 3
    (Step.getCoroutine _ 0 0 3 [] [] (onePool 0 true) (grownPool 3 4 true false) _ rfl
      (onePool_supplied 0 true) rfl)⟩

end MCoroutine.Handout
