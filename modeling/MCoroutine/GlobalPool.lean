import MCoroutine.General.CallOnce
import MCoroutine.General.Simulation
import MCoroutine.Handout

/-! The process-wide configuration and coroutine pool. SetGlobalConfig is two atomic
stores, and the callable that constructs the pool loads the two sizes in either order, so
that the calls of other threads come in between. -/
namespace MCoroutine.GlobalPool
open General.Runs General.CallOnce General.Simulation SlotRuns Handout

variable {Body : Type}

structure Config where
  poolSize : Nat
  stackSize : Nat
  deriving DecidableEq, Repr

/-- `m_pool_size{128}` and `m_stack_size{1024 * 128}`. -/
def Config.default : Config := { poolSize := 128, stackSize := 1024 * 128 }

/-- How far a thread is in SetGlobalConfig, or in the callable of GetGlobalCoroutinePool
with the sizes it has loaded. -/
inductive Phase
  | idle
  | setting (stackSize : Nat)
  | building (poolSize stackSize : Option Nat)
  deriving DecidableEq, Repr

structure Globals (Body : Type) where
  process : Process Body
  config : Option Config
  pool : OnceFlag Nat
  phase : Nat → Phase

namespace Globals

def initial : Globals Body :=
  { process := .initial, config := none, pool := .fresh, phase := fun _ => .idle }

/-- The `call_once` of GetGlobalConfig: its callable calls nothing of the library and
nobody sees the configuration before it is done. -/
def getGlobalConfig (globals : Globals Body) : Config × Globals Body :=
  match globals.config with
  | some config => (config,globals)
  | none => (.default,{ globals with config := some .default })

def storePoolSize (poolSize : Nat) (globals : Globals Body) : Globals Body :=
  let (config,globals) := globals.getGlobalConfig
  { globals with config := some { config with poolSize := poolSize } }

def storeStackSize (stackSize : Nat) (globals : Globals Body) : Globals Body :=
  let (config,globals) := globals.getGlobalConfig
  { globals with config := some { config with stackSize := stackSize } }

def setPhase (thread : Nat) (phase : Phase) (globals : Globals Body) : Globals Body :=
  { globals with phase := Function.update globals.phase thread phase }

end Globals

/-- SetGlobalConfig is `setPoolSize` with both arguments and `setStackSize`;
GetGlobalCoroutinePool is `begin`, the two loads and `construct`, or `found`. -/
inductive Event (Body : Type)
  | process (event : Process.Event Body)
  | getGlobalConfig (thread : Nat)
  | setPoolSize (thread poolSize stackSize : Nat)
  | setStackSize (thread stackSize : Nat)
  | begin (thread : Nat)
  | loadPoolSize (thread poolSize : Nat)
  | loadStackSize (thread stackSize : Nat)
  | construct (thread pool poolSize stackSize : Nat)
  | found (thread pool : Nat)

inductive Step (next : Body → Option Body) : Globals Body → Event Body → Globals Body → Prop
  | process (before : Globals Body) (event : Process.Event Body) (after : Process Body)
      (ready : ∀ thread, Process.caller event = some thread → before.phase thread = .idle)
      (step : Process.Step next before.process event after) :
      Step next before (.process event) { before with process := after }
  | getGlobalConfig (before : Globals Body) (thread : Nat) (ready : before.phase thread = .idle) :
      Step next before (.getGlobalConfig thread) before.getGlobalConfig.2
  | setPoolSize (before : Globals Body) (thread poolSize stackSize : Nat)
      (ready : before.phase thread = .idle)
      (sized : poolSize < 2^32 ∧ stackSize < 2^32) :
      Step next before (.setPoolSize thread poolSize stackSize)
        ((before.storePoolSize poolSize).setPhase thread (.setting stackSize))
  | setStackSize (before : Globals Body) (thread stackSize : Nat)
      (ready : before.phase thread = .setting stackSize) :
      Step next before (.setStackSize thread stackSize)
        ((before.storeStackSize stackSize).setPhase thread .idle)
  | begin (before : Globals Body) (thread : Nat) (ready : before.phase thread = .idle)
      (first : before.pool = .fresh) :
      Step next before (.begin thread)
        ({ before.getGlobalConfig.2 with pool := .active thread }.setPhase thread
          (.building none none))
  | loadPoolSize (before : Globals Body) (thread : Nat) (config : Config) (stackSize : Option Nat)
      (ready : before.phase thread = .building none stackSize)
      (present : before.config = some config) :
      Step next before (.loadPoolSize thread config.poolSize)
        (before.setPhase thread (.building (some config.poolSize) stackSize))
  | loadStackSize (before : Globals Body) (thread : Nat) (config : Config) (poolSize : Option Nat)
      (ready : before.phase thread = .building poolSize none)
      (present : before.config = some config) :
      Step next before (.loadStackSize thread config.stackSize)
        (before.setPhase thread (.building poolSize (some config.stackSize)))
  | construct (before : Globals Body) (thread poolSize stackSize : Nat) (after : Process Body)
      (ready : before.phase thread = .building (some poolSize) (some stackSize))
      (running : before.pool = .active thread)
      (step : Process.Step next before.process (.newPool poolSize stackSize) after) :
      Step next before (.construct thread before.process.pools.length poolSize stackSize)
        ({ before with process := after, pool := .done before.process.pools.length }.setPhase thread
          .idle)
  | found (before : Globals Body) (thread pool : Nat) (ready : before.phase thread = .idle)
      (made : before.pool = .done pool) : Step next before (.found thread pool) before

def onceCall : Event Body → Option (Call Nat)
  | .begin thread => some (.begin thread)
  | .construct thread pool _ _ => some (.complete thread pool)
  | .found thread pool => some (.pass thread pool)
  | _ => none

def plain : Event Body → Option (Process.Event Body)
  | .process event => some event
  | .construct _ _ poolSize stackSize => some (.newPool poolSize stackSize)
  | _ => none

@[simp] theorem getGlobalConfig_fst (globals : Globals Body) :
    globals.getGlobalConfig.1 = globals.config.getD .default := by
  unfold Globals.getGlobalConfig
  cases globals.config with
  | none => rfl
  | some config => rfl

private theorem getGlobalConfig_snd (globals : Globals Body) :
    globals.getGlobalConfig.2 = { globals with config := some (globals.config.getD .default) } := by
  obtain ⟨process,config,pool,phase⟩ := globals
  cases config with
  | none => rfl
  | some config => rfl

private theorem storePoolSize_eq (poolSize : Nat) (globals : Globals Body) :
    globals.storePoolSize poolSize =
    { globals with config := some { globals.config.getD .default with poolSize := poolSize } } := by
  unfold Globals.storePoolSize
  simp [getGlobalConfig_snd]

private theorem storeStackSize_eq (stackSize : Nat) (globals : Globals Body) :
    globals.storeStackSize stackSize =
    { globals with config := some { globals.config.getD .default with
      stackSize := stackSize } } := by
  unfold Globals.storeStackSize
  simp [getGlobalConfig_snd]

theorem guards (next : Body → Option Body) :
    Guards (fun globals => globals.pool) onceCall (Step next) := by
  constructor
  · intro before event after made step call
    cases step with
    | begin thread ready first =>
      cases call
      rw [first]
      exact .begin thread
    | construct thread poolSize stackSize process ready running step =>
      cases call
      rw [running]
      exact .complete thread _
    | found thread pool ready made =>
      cases call
      rw [made]
      exact .pass thread pool
    | _ => cases call
  · intro before event after step call
    cases step with
    | begin | construct | found => cases call
    | getGlobalConfig thread ready => rw [getGlobalConfig_snd]
    | setPoolSize thread poolSize stackSize ready sized => rw [storePoolSize_eq,Globals.setPhase]
    | setStackSize thread stackSize ready => rw [storeStackSize_eq,Globals.setPhase]
    | _ => rfl

abbrev Reached (next : Body → Option Body)
    (allowed : List (Event Body) → Globals Body → Event Body → Prop) (history : List (Event Body))
    (globals : Globals Body) : Prop :=
  Run (fun globals => globals = .initial) allowed (Step next) history globals

section
variable {next : Body → Option Body}
  {allowed : List (Event Body) → Globals Body → Event Body → Prop}
  {permitted : List (Process.Event Body) → Process Body → Process.Event Body → Prop}

private theorem simulates_process
    (permits : ∀ history before event after action, Reached next allowed history before →
      allowed history before event → Step next before event after → plain event = some action →
      permitted (history.filterMap plain) before.process action) :
    Simulates (fun globals => globals = .initial) allowed (Step next)
      (fun process => process = Process.initial)
      permitted (Process.Step next)
      fun history globals record process => record = history.filterMap plain ∧
        process = globals.process := by
  constructor
  · intro globals start
    subst start
    exact ⟨Process.initial,rfl,rfl,rfl⟩
  · intro past before event after record process reached _ related legal step
    obtain ⟨rfl,rfl⟩ := related
    have permit := permits past before event after
    cases step with
    | process event after ready step =>
      exact ⟨[event],after,moves (permit event reached legal (.process _ _ _ ready step) rfl) step,
        rfl,rfl⟩
    | construct thread poolSize stackSize after ready running step =>
      exact ⟨[.newPool poolSize stackSize],after,
        moves (permit _ reached legal (.construct _ _ _ _ _ ready running step) rfl) step,rfl,rfl⟩
    | getGlobalConfig thread ready => exact ⟨[],before.process,stays,
        rfl,by rw [getGlobalConfig_snd]⟩
    | setPoolSize thread poolSize stackSize ready sized =>
      exact ⟨[],before.process,stays,rfl,by rw [storePoolSize_eq,Globals.setPhase]⟩
    | setStackSize thread stackSize ready =>
      exact ⟨[],before.process,stays,rfl,by rw [storeStackSize_eq,Globals.setPhase]⟩
    | begin thread ready first => exact ⟨[],before.process,stays,
        rfl,by rw [getGlobalConfig_snd,Globals.setPhase]⟩
    | loadPoolSize | loadStackSize | found => exact ⟨[],before.process,stays,rfl,rfl⟩

theorem reached_structured {history : List (Event Body)} {globals : Globals Body}
    (run : Reached next allowed history globals) : Structured globals.process := by
  have process : Run (fun process => process = Process.initial) (fun _ _ _ => True)
    (Process.Step next)
      (history.filterMap plain) globals.process :=
        (simulates_process fun _ _ _ _ _ _ _ _ _ => trivial).image run
  exact SlotRuns.reached_structured process

end

private theorem appends_stackSize {before after : Store Body × CoroutinePool}
    (appends : CoroutinePool.Appends before after) :
    after.2.stackSize = before.2.stackSize := by
  induction appends with
  | refl => rfl
  | tail _ last ih =>
    cases last with
    | slot => exact ih

private theorem step_stackSize {next : Body → Option Body} {process after : Process Body}
    {event : Process.Event Body} (structured : Structured process)
    (step : Process.Step next process event after) {index : Nat} {pool : CoroutinePool}
    (located : process.pools[index]? = some pool) :
    ∃ later, after.pools[index]? = some later ∧ later.stackSize = pool.stackSize := by
  have replaced {k : Nat} {before result : CoroutinePool} (there : process.pools[k]? = some before)
    (store : Store Body)
      (same : result.stackSize = before.stackSize) :
      ∃ later, (process.setPool k store result).pools[index]? = some later ∧
          later.stackSize = pool.stackSize := by
    rw [setPool_at there]
    by_cases self : k = index
    · subst k
      rw [located] at there
      cases there
      exact ⟨result,if_pos rfl,same⟩
    · exact ⟨pool,by rw [if_neg self]; exact located,rfl⟩
  cases step_pools structured step with
  | quiet _ _ _ same => exact ⟨pool,by rw [same.pools]; exact located,rfl⟩
  | construct => exact ⟨pool,located,rfl⟩
  | create =>
    refine ⟨pool,?_,rfl⟩
    rw [List.getElem?_append_left (List.getElem?_eq_some_iff.mp located).1]
    exact located
  | grow k _ before result store there appends _ _ =>
    exact replaced there store (appends_stackSize appends)
  | hand _ k co i before grown store there appends _ _ slot =>
    apply replaced there store
    exact appends_stackSize appends
  | release _ k co before result store there call =>
    obtain ⟨_,_,_,_,⟨_,_,rfl⟩ | ⟨_,_,rfl⟩⟩ :=
      CoroutinePool.backCoroutine_effect co process.store store before result call
    · exact replaced there store rfl
    · exact replaced there store rfl

private theorem newPool_last {next : Body → Option Body} {process after : Process Body}
    {poolSize stackSize : Nat} (structured : Structured process)
    (step : Process.Step next process (.newPool poolSize stackSize) after) :
    ∃ pool, after.pools = process.pools ++ [pool] ∧ pool.stackSize = stackSize := by
  cases step_pools structured step with
  | quiet _ _ still => exact still.elim
  | create _ _ _ _ _ _ pool _ _ appends => exact ⟨pool,rfl,appends_stackSize appends⟩

def Built (history : List (Event Body)) (globals : Globals Body) (index : Nat) : Prop :=
  ∃ thread poolSize stackSize pool, .construct thread index poolSize stackSize ∈ history ∧
    globals.process.pools[index]? = some pool ∧ pool.stackSize = stackSize

theorem Built.frame {past : List (Event Body)} {before after : Globals Body} {index : Nat}
    (event : Event Body) (built : Built past before index) (same : after.process = before.process) :
    Built (event::past) after index := by
  obtain ⟨thread,poolSize,stackSize,pool,member,located,size⟩ := built
  exact ⟨thread,poolSize,stackSize,pool,
    List.mem_cons_of_mem _ member,by rw [same]; exact located,size⟩

section
variable {next : Body → Option Body}
  {allowed : List (Event Body) → Globals Body → Event Body → Prop} {history : List (Event Body)}
  {globals : Globals Body}

private theorem reached_built (run : Reached next allowed history globals) (index : Nat)
    (made : globals.pool = .done index) :
    Built history globals index := by
  revert index
  apply run.invariant fun history globals => ∀ index, globals.pool = .done index →
    Built history globals index
  · intro globals start index made
    rw [start] at made
    cases made
  · intro past before event after reached built _ step index made
    have structured := reached_structured reached
    cases step with
    | process event after ready step =>
      obtain ⟨thread,poolSize,stackSize,pool,member,located,size⟩ := built index made
      obtain ⟨later,there,same⟩ := step_stackSize structured step located
      exact ⟨thread,poolSize,stackSize,later,List.mem_cons_of_mem _ member,there,same.trans size⟩
    | construct thread poolSize stackSize after ready running step =>
      obtain ⟨pool,pools,size⟩ := newPool_last structured step
      obtain rfl : before.process.pools.length = index := by
        cases made
        rfl
      refine ⟨thread,poolSize,stackSize,pool,List.mem_cons_self,?_,size⟩
      change after.pools[before.process.pools.length]? = some pool
      rw [pools,List.getElem?_append_right (Nat.le_refl _),Nat.sub_self]
      rfl
    | begin thread ready first => cases made
    | getGlobalConfig thread ready =>
      rw [getGlobalConfig_snd] at made
      exact (built index made).frame _ (by rw [getGlobalConfig_snd])
    | setPoolSize thread poolSize stackSize ready sized =>
      rw [storePoolSize_eq] at made
      exact (built index made).frame _ (by rw [storePoolSize_eq,Globals.setPhase])
    | setStackSize thread stackSize ready =>
      rw [storeStackSize_eq] at made
      exact (built index made).frame _ (by rw [storeStackSize_eq,Globals.setPhase])
    | loadPoolSize | loadStackSize | found => exact (built index made).frame _ rfl

/-- Under any interleaving of configuration, creation and use, the pool is constructed at
most once, every GetGlobalCoroutinePool returns it, and it keeps the stack size that it
was constructed with, whatever is configured later. -/
theorem global_pool_once (run : Reached next allowed history globals) :
    completions onceCall history ≤ 1 ∧
    (∀ index other, index ∈ returned onceCall history → other ∈ returned onceCall history →
      index = other) ∧
    ∀ index, index ∈ returned onceCall history → Built history globals index := by
  have starts : ∀ globals : Globals Body, globals = .initial → globals.pool = .fresh := by
    intro globals start
    rw [start]
    rfl
  obtain ⟨once,same⟩ := (guards next).once starts run
  refine ⟨once,same,?_⟩
  intro index member
  exact reached_built run index (((guards next).reached_tells starts run).same index member)

end

def lastConfig : List (Event Body) → Config
  | [] => .default
  | .setPoolSize _ poolSize stackSize::_ => { poolSize := poolSize, stackSize := stackSize }
  | _::past => lastConfig past

/-- A SetGlobalConfig begins only while no other thread is in one or creates the pool, and
the pool is not created while one is under way. -/
def Serial (_ : List (Event Body)) (globals : Globals Body) : Event Body → Prop
  | .setPoolSize _ _ _ => ∀ thread, globals.phase thread = .idle
  | .begin _ => ∀ thread stackSize, globals.phase thread ≠ .setting stackSize
  | _ => True

structure Agrees (history : List (Event Body)) (globals : Globals Body) : Prop where
  rest : (∀ thread stackSize, globals.phase thread ≠ .setting stackSize) →
    globals.config.getD .default = lastConfig history
  setting : ∀ thread stackSize, globals.phase thread = .setting stackSize →
    (globals.config.getD .default).poolSize = (lastConfig history).poolSize ∧
      stackSize = (lastConfig history).stackSize ∧ ∀ other, other ≠ thread →
        globals.phase other = .idle
  building : ∀ thread poolSize stackSize, globals.phase thread = .building poolSize stackSize →
    (∀ size, poolSize = some size → size = (lastConfig history).poolSize) ∧
      (∀ size, stackSize = some size → size = (lastConfig history).stackSize)

section
variable {past : List (Event Body)} {globals after : Globals Body}

private theorem setPhase_phase (globals : Globals Body) (thread other : Nat) (phase : Phase) :
    (globals.setPhase thread phase).phase other =
      if other = thread then phase else globals.phase other := by
  simp [Globals.setPhase,Function.update_apply]

theorem Agrees.frame {history : List (Event Body)} (agrees : Agrees past globals)
    (phases : after.phase = globals.phase)
    (config : after.config.getD .default = globals.config.getD .default)
    (same : lastConfig history = lastConfig past) :
    Agrees history after := by
  constructor
  · rw [phases,config,same]
    exact agrees.rest
  · rw [phases,config,same]
    exact agrees.setting
  · rw [phases,same]
    exact agrees.building

theorem Agrees.unset {thread : Nat} {poolSize stackSize : Option Nat} (agrees : Agrees past globals)
    (ready : globals.phase thread = .building poolSize stackSize) (other size : Nat) :
    globals.phase other ≠ .setting size := by
  intro setting
  obtain ⟨_,_,alone⟩ := agrees.setting other size setting
  by_cases same : thread = other
  · rw [same,setting] at ready
    cases ready
  · rw [alone thread same] at ready
    cases ready

theorem Agrees.move {history : List (Event Body)} {thread : Nat} {phase : Phase}
    (agrees : Agrees past globals) (unset : ∀ other size, globals.phase other ≠ .setting size)
    (other : ∀ size, phase ≠ .setting size)
    (phases : after.phase = Function.update globals.phase thread phase)
    (config : after.config.getD .default = globals.config.getD .default)
    (same : lastConfig history = lastConfig past)
    (loaded : ∀ poolSize stackSize, phase = .building poolSize stackSize →
      (∀ size, poolSize = some size → size = (lastConfig past).poolSize) ∧
      (∀ size, stackSize = some size → size = (lastConfig past).stackSize)) :
    Agrees history after := by
  constructor
  · intro _
    rw [config,same]
    exact agrees.rest unset
  · intro t size setting
    rw [phases,Function.update_apply] at setting
    split at setting
    · exact absurd setting (other size)
    · exact absurd setting (unset t size)
  · intro t poolSize stackSize building
    rw [phases,Function.update_apply] at building
    rw [same]
    split at building
    · exact loaded poolSize stackSize building
    · exact agrees.building t poolSize stackSize building

private theorem Agrees.setPoolSize {thread poolSize stackSize : Nat}
    (idle : ∀ thread, globals.phase thread = .idle) :
    Agrees (.setPoolSize thread poolSize stackSize::past)
      ((globals.storePoolSize poolSize).setPhase thread (.setting stackSize)) := by
  have phases (other : Nat) : ((globals.storePoolSize poolSize).setPhase thread
    (.setting stackSize)).phase other =
      if other = thread then .setting stackSize else .idle := by
    rw [setPhase_phase,storePoolSize_eq,idle]
  constructor
  · intro unset
    exact absurd (by rw [phases,if_pos rfl]) (unset thread stackSize)
  · intro t size setting
    rw [phases] at setting
    split at setting
    · rename_i same
      cases setting
      refine ⟨by rw [storePoolSize_eq]; rfl,rfl,?_⟩
      intro other apart
      rw [phases,if_neg (by rw [← same]; exact apart)]
    · cases setting
  · intro t p s building
    rw [phases] at building
    split at building <;> cases building

private theorem Agrees.setStackSize {thread stackSize : Nat} (agrees : Agrees past globals)
    (ready : globals.phase thread = .setting stackSize) :
    Agrees (.setStackSize thread stackSize::past)
      ((globals.storeStackSize stackSize).setPhase thread .idle) := by
  obtain ⟨poolSize,size,alone⟩ := agrees.setting thread stackSize ready
  have phases (other : Nat) : ((globals.storeStackSize stackSize).setPhase thread .idle).phase
      other = .idle := by
    rw [setPhase_phase,storeStackSize_eq]
    split
    · rfl
    · rename_i apart
      exact alone other apart
  constructor
  · intro _
    rw [storeStackSize_eq,Globals.setPhase]
    change Config.mk (globals.config.getD .default).poolSize stackSize = lastConfig past
    rw [size,poolSize]
  · intro t s setting
    rw [phases] at setting
    cases setting
  · intro t p s building
    rw [phases] at building
    cases building

end

section
variable {next : Body → Option Body} {history : List (Event Body)} {globals : Globals Body}

private theorem serial_agrees (run : Reached next Serial history globals) :
    Agrees history globals := by
  apply run.invariant Agrees
  · intro globals start
    rw [start]
    constructor
    · exact fun _ => rfl
    · intro thread stackSize setting
      cases setting
    · intro thread poolSize stackSize building
      cases building
  · intro past before event after _ agrees serial step
    cases step with
    | process event after ready step => exact agrees.frame rfl rfl rfl
    | getGlobalConfig thread ready =>
      rw [getGlobalConfig_snd]
      exact agrees.frame rfl rfl rfl
    | setPoolSize thread poolSize stackSize ready sized => exact Agrees.setPoolSize serial
    | setStackSize thread stackSize ready => exact agrees.setStackSize ready
    | begin thread ready first =>
      rw [getGlobalConfig_snd]
      refine agrees.move serial (by simp) rfl rfl rfl ?_
      intro poolSize stackSize building
      cases building
      simp
    | loadPoolSize thread config stackSize ready present =>
      have last := agrees.rest (agrees.unset ready)
      rw [present,Option.getD_some] at last
      refine agrees.move (agrees.unset ready) (by simp) rfl rfl rfl ?_
      intro p s building
      cases building
      refine ⟨?_,(agrees.building thread none stackSize ready).2⟩
      intro size same
      cases same
      rw [last]
    | loadStackSize thread config poolSize ready present =>
      have last := agrees.rest (agrees.unset ready)
      rw [present,Option.getD_some] at last
      refine agrees.move (agrees.unset ready) (by simp) rfl rfl rfl ?_
      intro p s building
      cases building
      refine ⟨(agrees.building thread poolSize none ready).1,?_⟩
      intro size same
      cases same
      rw [last]
    | construct thread poolSize stackSize after ready running step =>
      exact agrees.move (agrees.unset ready) (by simp) rfl rfl rfl (by simp)
    | found thread pool ready made => exact agrees.frame rfl rfl rfl

/-- When configuration calls do not overlap each other or the creation, the pool has the
two sizes of the last SetGlobalConfig before it, or the default ones. -/
theorem global_sizes_serial (run : Reached next Serial history globals)
    {thread pool poolSize stackSize : Nat} {after : Globals Body}
    (step : Step next globals (.construct thread pool poolSize stackSize) after) :
    lastConfig history = { poolSize := poolSize, stackSize := stackSize } := by
  cases step with
  | construct _ _ _ process ready running step =>
    obtain ⟨first,second⟩ := (serial_agrees run).building thread _ _ ready
    rw [first poolSize rfl,second stackSize rfl]

end

/-- A stack size for which a group of 128 blocks fits into `uint32_t` bytes. -/
def Fits (stackSize : Nat) : Prop := 1 ≤ stackSize ∧ stackSize * 128 < 2^32

/-- A program that takes all its coroutines from the global pool, gives back only what it
holds, and configures fitting stack sizes. -/
def OnlyGlobal (history : List (Event Body)) (_ : Globals Body) : Event Body → Prop
  | .process (.newCoroutine _) => False
  | .process (.newPool _ _) => False
  | .process (.backCoroutine _ index co) => Held index (history.filterMap plain) co
  | .setPoolSize _ _ stackSize => Fits stackSize
  | _ => True

/-- No pool before the callable is done, the one at index 0 behind it, and only fitting
stack sizes on the way. -/
structure Lone (globals : Globals Body) : Prop where
  length : globals.process.pools.length = globals.pool.count
  first : ∀ index, globals.pool = .done index → index = 0
  config : Fits (globals.config.getD .default).stackSize
  setting : ∀ thread stackSize, globals.phase thread = .setting stackSize → Fits stackSize
  building : ∀ thread poolSize stackSize, globals.phase thread = .building poolSize
    (some stackSize) → Fits stackSize

private theorem step_length {next : Body → Option Body} {process after : Process Body}
    {event : Process.Event Body} (structured : Structured process)
    (step : Process.Step next process event after)
    (made : ∀ poolSize stackSize, event ≠ .newPool poolSize stackSize) :
    after.pools.length = process.pools.length := by
  cases step_pools structured step with
  | quiet _ _ _ same => rw [same.pools]
  | construct => rfl
  | create poolSize stackSize => exact absurd rfl (made poolSize stackSize)
  | grow | hand | release => exact List.length_set

theorem Lone.phases {before after : Globals Body} {thread : Nat} {phase : Phase}
    (lone : Lone before) (length : after.process.pools.length = after.pool.count)
    (first : ∀ index, after.pool = .done index → index = 0)
    (config : Fits (after.config.getD .default).stackSize)
    (moved : after.phase = Function.update before.phase thread phase)
    (setting : ∀ stackSize, phase = .setting stackSize → Fits stackSize)
    (building : ∀ poolSize stackSize, phase = .building poolSize (some stackSize) →
      Fits stackSize) :
    Lone after := by
  refine ⟨length,first,config,?_,?_⟩
  · intro t size there
    rw [moved,Function.update_apply] at there
    split at there
    · exact setting size there
    · exact lone.setting t size there
  · intro t p s there
    rw [moved,Function.update_apply] at there
    split at there
    · exact building p s there
    · exact lone.building t p s there

section
variable {next : Body → Option Body} {history : List (Event Body)} {globals : Globals Body}

private theorem reached_lone (run : Reached next OnlyGlobal history globals) : Lone globals := by
  apply run.invariant fun _ globals => Lone globals
  · intro globals start
    rw [start]
    refine ⟨rfl,?_,show Fits (1024 * 128) from ⟨by decide,by decide⟩,?_,?_⟩
    · intro index made
      cases made
    · intro thread stackSize setting
      cases setting
    · intro thread poolSize stackSize building
      cases building
  · intro past before event after reached lone only step
    have structured := reached_structured reached
    cases step with
    | process event after ready step =>
      refine ⟨?_,lone.first,lone.config,lone.setting,lone.building⟩
      refine (step_length structured step ?_).trans lone.length
      intro poolSize stackSize same
      rw [same] at only
      exact only
    | getGlobalConfig thread ready =>
      rw [getGlobalConfig_snd]
      exact ⟨lone.length,lone.first,lone.config,lone.setting,lone.building⟩
    | setPoolSize thread poolSize stackSize ready sized =>
      rw [storePoolSize_eq]
      refine lone.phases lone.length lone.first lone.config rfl ?_ (by simp)
      intro size same
      cases same
      exact only
    | setStackSize thread stackSize ready =>
      rw [storeStackSize_eq]
      exact lone.phases lone.length lone.first (lone.setting thread stackSize ready) rfl
        (by simp) (by simp)
    | begin thread ready first =>
      rw [getGlobalConfig_snd]
      have none := lone.length
      rw [first] at none
      refine lone.phases none ?_ lone.config rfl (by simp) (by simp)
      intro index made
      cases made
    | loadPoolSize thread config stackSize ready present =>
      refine lone.phases lone.length lone.first lone.config rfl (by simp) ?_
      intro p s same
      cases same
      exact lone.building thread none s ready
    | loadStackSize thread config poolSize ready present =>
      refine lone.phases lone.length lone.first lone.config rfl (by simp) ?_
      intro p s same
      cases same
      have fits := lone.config
      rw [present] at fits
      exact fits
    | construct thread poolSize stackSize after ready running step =>
      obtain ⟨pool,pools,_⟩ := newPool_last structured step
      have none := lone.length
      rw [running] at none
      refine lone.phases ?_ ?_ lone.config rfl (by simp) (by simp)
      · change after.pools.length = 1
        rw [pools,List.length_append,none]
        rfl
      · intro index made
        cases made
        exact none
    | found thread pool ready made => exact lone

/-- Such a program is one with a single pool, which is the one that GetGlobalCoroutinePool
returns. -/
theorem global_runs_single (run : Reached next OnlyGlobal history globals) :
    Run (fun process => process = Process.initial) Single (Process.Step next)
      (history.filterMap plain)
      globals.process ∧
    ∀ index, index ∈ returned onceCall history → index = 0 ∧
      ∃ pool, globals.process.pools = [pool] := by
  constructor
  · refine (simulates_process ?_).image run
    intro past before event after action reached only step part
    cases step with
    | process event after ready step =>
      cases part
      cases action with
      | newCoroutine | newPool => exact only.elim
      | backCoroutine => exact only
      | _ => trivial
    | construct thread poolSize stackSize after ready running step =>
      cases part
      have lone := reached_lone reached
      have none := lone.length
      rw [running] at none
      exact ⟨List.eq_nil_of_length_eq_zero none,lone.building thread _ stackSize ready⟩
    | _ => cases part
  · intro index member
    have starts : ∀ globals : Globals Body, globals = .initial → globals.pool = .fresh := by
      intro globals start
      rw [start]
      rfl
    have made := ((guards next).reached_tells starts run).same index member
    have lone := reached_lone run
    have one := lone.length
    rw [made] at one
    exact ⟨lone.first index made,List.length_eq_one_iff.mp one⟩

end

def begun : Globals Unit :=
  let configured :=
    (((Globals.initial.storePoolSize 1).setPhase 0 (.setting 16)).storeStackSize 16).setPhase 0
    .idle
  { configured with pool := .active 1 }.setPhase 1 (.building none none)

def loaded : Globals Unit :=
  (begun.setPhase 1 (.building none (some 16))).setPhase 1 (.building (some 1) (some 16))

def loadedHistory : List (Event Unit) :=
  [.loadPoolSize 1 1,.loadStackSize 1 16,.begin 1,.setStackSize 0 16,.setPoolSize 0 1 16]

private theorem loaded_reached : Reached (fun _ => none)
    (fun history globals event => Serial history globals event ∧ OnlyGlobal history globals event)
      loadedHistory loaded := by
  let configuring : Globals Unit := (Globals.initial.storePoolSize 1).setPhase 0 (.setting 16)
  let configured : Globals Unit := (configuring.storeStackSize 16).setPhase 0 .idle
  have settled : ∀ thread stackSize, configured.phase thread ≠ .setting stackSize := by
    intro thread stackSize setting
    rw [setPhase_phase] at setting
    split at setting
    · cases setting
    · rename_i other
      have before : configuring.phase thread = .setting stackSize := setting
      rw [setPhase_phase,if_neg other] at before
      cases before
  have first : Step (fun _ => none) Globals.initial (.setPoolSize 0 1 16) configuring :=
    .setPoolSize _ 0 1 16 rfl (by decide)
  have second : Step (fun _ => none) configuring (.setStackSize 0 16) configured :=
    .setStackSize _ 0 16 rfl
  have third : Step (fun _ => none) configured (.begin 1) begun := .begin _ 1 rfl rfl
  refine .next _ _ _ _ (.next _ _ _ _
    (.next _ _ _ _ (.next _ _ _ _ (.next [] _ _ _ (.start _ rfl) ?_ first) ?_ second)
    ?_ third) ?_ (.loadStackSize _ 1 ⟨1,16⟩ none rfl rfl)) ?_
      (.loadPoolSize _ 1 ⟨1,16⟩ (some 16) rfl rfl)
  · exact ⟨fun _ => rfl,by decide,by decide⟩
  · exact ⟨trivial,trivial⟩
  · exact ⟨settled,trivial⟩
  · exact ⟨trivial,trivial⟩
  · exact ⟨trivial,trivial⟩

private theorem loaded_serial : Reached (fun _ => none) Serial loadedHistory loaded :=
  loaded_reached.weaken fun _ _ _ _ _ legal _ => legal.1

private theorem loaded_only : Reached (fun _ => none) OnlyGlobal loadedHistory loaded :=
  loaded_reached.weaken fun _ _ _ _ _ legal _ => legal.2

def constructed : Globals Unit :=
  { loaded with process := oneProcess false, pool := .done 0 }.setPhase 1 .idle

set_option maxRecDepth 2000 in
private theorem loaded_constructs : Step (fun _ => none) loaded (.construct 1 0 1 16) constructed :=
  .construct _ 1 1 16 (oneProcess false) rfl rfl
    (.newPool Process.initial 1 16 [65536] [] _ (onePool 0 false) (by decide) one_array rfl)

private theorem constructed_reached :
    Reached (fun _ => none) OnlyGlobal (.construct 1 0 1 16::loadedHistory) constructed :=
  .next _ _ _ _ loaded_only trivial loaded_constructs

theorem global_pool_once_one :
    ∃ pool, constructed.process.pools[0]? = some pool ∧ pool.stackSize = 16 := by
  obtain ⟨_,_,built⟩ := global_pool_once constructed_reached
  obtain ⟨thread,poolSize,stackSize,pool,member,located,size⟩ :=
    built 0 (by simp [returned,onceCall,Call.returned])
  obtain ⟨_,_,sizes⟩ : thread = 1 ∧ poolSize = 1 ∧ stackSize = 16 := by
    simpa [loadedHistory] using member
  exact ⟨pool,located,size.trans sizes⟩

theorem global_sizes_serial_one : Step (fun _ => none) loaded (.construct 1 0 1 16) constructed ∧
    lastConfig loadedHistory = { poolSize := 1, stackSize := 16 } :=
  ⟨loaded_constructs,global_sizes_serial loaded_serial loaded_constructs⟩

theorem global_runs_single_one :
    Run (fun process => process = Process.initial) Single (Process.Step fun _ => none)
      [.newPool 1 16] constructed.process :=
  (global_runs_single constructed_reached).1

end MCoroutine.GlobalPool
