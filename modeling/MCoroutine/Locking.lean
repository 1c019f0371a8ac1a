import MCoroutine.General.LockOrder
import MCoroutine.SlotRuns

/-! The mutexes and once flags that the calls take. getCoroutine holds the mutex of its
pool while it takes blocks, and the callable that constructs the global pool reads the
configuration and takes blocks. -/
namespace MCoroutine.Locking
open General.LockOrder General.Runs

variable {Body : Type}

/-- The `m_mutex` of the pools and the once flags. The flag of a main coroutine is
thread-local. -/
inductive Resource
  | globalPool
  | globalConfig
  | mainCoroutine (thread : Nat)
  | pool (index : Nat)
  | memory (index : Nat)
  deriving DecidableEq, Repr

def rank : Resource → Nat
  | .globalPool => 0
  | .globalConfig => 1
  | .mainCoroutine _ => 1
  | .pool _ => 1
  | .memory _ => 2

abbrev Program := List (Op Resource)

namespace MemoryPool

def getBlock (pool : Nat) : Program := lockGuard (.memory pool) []

def hasBlockHelp (pool : Nat) : Program := lockGuard (.memory pool) []

def hasBlock (pool : Nat) : Program := hasBlockHelp pool

def usedBlockHelp (pool : Nat) : Program := lockGuard (.memory pool) []

def recovery (pool : Nat) : Program := lockGuard (.memory pool) []

/-- The lock is given up between the lookup and the clearing. -/
def backBlock (pool : Nat) (found : Bool) : Program :=
  hasBlockHelp pool ++ if found then lockGuard (.memory pool) [] else []

end MemoryPool

namespace CoroutinePool

/-- resize takes no lock of its own. -/
def resize (pool blocks : Nat) : Program :=
  (List.replicate blocks (MemoryPool.getBlock pool)).flatten

def getCoroutine (pool blocks : Nat) : Program := lockGuard (.pool pool) (resize pool blocks)

def backCoroutine (pool : Nat) : Program := lockGuard (.pool pool) []

end CoroutinePool

def getGlobalConfig : Program := callOnce .globalConfig []

/-- One GetGlobalConfig for each of the two stores. -/
def setGlobalConfig : Program := getGlobalConfig ++ getGlobalConfig

def getGlobalCoroutinePool (pool poolSize : Nat) : Program :=
  callOnce .globalPool (getGlobalConfig ++ CoroutinePool.resize pool poolSize)

def getMainCoroutine (thread : Nat) : Program := callOnce (.mainCoroutine thread) []

def getCurrentCoroutine (thread : Nat) (current : Option Nat) : Program :=
  if current = none then getMainCoroutine thread else []

def isMainCoroutine (thread : Nat) (current : Option Nat) : Program :=
  getMainCoroutine thread ++ getCurrentCoroutine thread current

/-- The constructor with a callback, which calls setCallBack. -/
def newCoroutine (thread : Nat) : Program := getMainCoroutine thread

def appended (process after : Process Body) (index : Nat) : Nat :=
  after.pools[index]?.elim 0 (·.coroutines.length) - process.pools[index]?.elim 0
    (·.coroutines.length)

/-- What a call of the process does to the locks, up to its swap. Yield asks for the main
coroutine three times, Resume once: the context it leaves is that of the pointer. -/
def program (process after : Process Body) : Process.Event Body → Program
  | .newCoroutine _ => []
  | .newPool poolSize _ => CoroutinePool.resize process.pools.length poolSize
  | .resize index _ => CoroutinePool.resize index (appended process after index)
  | .getCoroutine _ index _ => CoroutinePool.getCoroutine index (appended process after index)
  | .backCoroutine _ index _ => CoroutinePool.backCoroutine index
  | .getMainCoroutine thread _ => getMainCoroutine thread
  | .getCurrentCoroutine thread _ => getCurrentCoroutine thread
      (process.threads thread).curCoroutine
  | .setCallBack thread _ _ _ => getMainCoroutine thread
  | .resume thread _ => getCurrentCoroutine thread (process.threads thread).curCoroutine ++
      getMainCoroutine thread
  | .yield thread _ =>
    getCurrentCoroutine thread (process.threads thread).curCoroutine ++ getMainCoroutine thread ++
      getMainCoroutine thread ++ getMainCoroutine thread
  | .finish thread _ =>
    getCurrentCoroutine thread (process.threads thread).curCoroutine ++ getMainCoroutine thread ++
      getMainCoroutine thread ++ getMainCoroutine thread

inductive Call : Program → Prop
  | process {Body : Type} (next : Body → Option Body) (before after : Process Body)
      (event : Process.Event Body)
      (step : Process.Step next before event after) : Call (program before after event)
  | getBlock (pool : Nat) : Call (MemoryPool.getBlock pool)
  | hasBlock (pool : Nat) : Call (MemoryPool.hasBlock pool)
  | usedBlockHelp (pool : Nat) : Call (MemoryPool.usedBlockHelp pool)
  | recovery (pool : Nat) : Call (MemoryPool.recovery pool)
  | backBlock (pool : Nat) (found : Bool) : Call (MemoryPool.backBlock pool found)
  | getGlobalConfig : Call getGlobalConfig
  | setGlobalConfig : Call setGlobalConfig
  | getGlobalCoroutinePool (pool poolSize : Nat) : Call (getGlobalCoroutinePool pool poolSize)
  | isMainCoroutine (thread : Nat) (current : Option Nat) : Call (isMainCoroutine thread current)
  | newCoroutine (thread : Nat) : Call (newCoroutine thread)

private theorem getBlock_above {low : Nat} (pool : Nat) (high : low ≤ 2) :
    Above rank low (MemoryPool.getBlock pool) :=
  above_nil.lockGuard high

private theorem resize_above {low : Nat} (pool blocks : Nat) (high : low ≤ 2) :
    Above rank low (CoroutinePool.resize pool blocks) :=
  (getBlock_above pool high).replicate blocks

private theorem getMainCoroutine_above {low : Nat} (thread : Nat) (high : low ≤ 1) :
    Above rank low (getMainCoroutine thread) :=
  above_nil.callOnce high

private theorem getCurrentCoroutine_above {low : Nat} (thread : Nat) (current : Option Nat)
    (high : low ≤ 1) :
    Above rank low (getCurrentCoroutine thread current) := by
  unfold getCurrentCoroutine
  split
  · exact getMainCoroutine_above thread high
  · exact above_nil

private theorem getGlobalConfig_above {low : Nat} (high : low ≤ 1) :
    Above rank low getGlobalConfig := above_nil.callOnce high

private theorem leaving_above (thread : Nat) (current : Option Nat) :
    Above rank 0 (getCurrentCoroutine thread current ++ getMainCoroutine thread ++
      getMainCoroutine thread ++
      getMainCoroutine thread) := by
  have main := getMainCoroutine_above thread (Nat.zero_le 1)
  exact (((getCurrentCoroutine_above thread current (Nat.zero_le 1)).append main).append
    main).append main

private theorem program_above (process after : Process Body) (event : Process.Event Body) :
    Above rank 0 (program process after event) := by
  cases event with
  | newCoroutine co => exact above_nil
  | newPool poolSize stackSize => exact resize_above _ _ (Nat.zero_le 2)
  | resize index newSize => exact resize_above _ _ (Nat.zero_le 2)
  | getCoroutine thread index co => exact (resize_above index _ (Nat.le_refl 2)).lockGuard (Nat.zero_le 1)
  | backCoroutine thread index co => exact above_nil.lockGuard (Nat.zero_le 1)
  | getMainCoroutine thread co => exact getMainCoroutine_above thread (Nat.zero_le 1)
  | getCurrentCoroutine thread co => exact getCurrentCoroutine_above thread _ (Nat.zero_le 1)
  | setCallBack thread co cb accepted => exact getMainCoroutine_above thread (Nat.zero_le 1)
  | resume thread co =>
    exact (getCurrentCoroutine_above thread _ (Nat.zero_le 1)).append
      (getMainCoroutine_above thread (Nat.zero_le 1))
  | yield thread co => exact leaving_above thread _
  | finish thread co => exact leaving_above thread _

private theorem call_above {program : Program} (call : Call program) : Above rank 0 program := by
  cases call with
  | process next before after event step => exact program_above before after event
  | getBlock pool | hasBlock pool | usedBlockHelp pool | recovery pool =>
    exact getBlock_above pool (Nat.zero_le 2)
  | backBlock pool found =>
    apply (getBlock_above pool (Nat.zero_le 2)).append
    split
    · exact getBlock_above pool (Nat.zero_le 2)
    · exact above_nil
  | getGlobalConfig => exact getGlobalConfig_above (Nat.zero_le 1)
  | setGlobalConfig => exact (getGlobalConfig_above (Nat.zero_le 1)).append (getGlobalConfig_above (Nat.zero_le 1))
  | getGlobalCoroutinePool pool poolSize =>
    exact ((getGlobalConfig_above (Nat.le_refl 1)).append
      (resize_above pool poolSize (by decide))).callOnce (Nat.le_refl 0)
  | isMainCoroutine thread current =>
    exact (getMainCoroutine_above thread (Nat.zero_le 1)).append
      (getCurrentCoroutine_above thread current (Nat.zero_le 1))
  | newCoroutine thread => exact getMainCoroutine_above thread (Nat.zero_le 1)

private theorem rank_bounded (resource : Resource) : rank resource ≤ 2 := by
  cases resource <;> simp [rank]

def Calls (_ : List (Event Resource)) (_ : State Resource) : Event Resource → Prop
  | .call _ program => Call program
  | .advance _ => True

private theorem calls_disciplined {history : List (Event Resource)} {state : State Resource}
    (run : Run (fun state => state = State.initial) Calls Step history state) :
    Reached rank history state := by
  apply run.weaken
  intro past before event after _ permitted _
  cases event with
  | call thread program => exact (call_above permitted).ordered
  | advance thread => trivial

/-- Whatever calls any number of threads have under way, they all return, in whatever order
they go on, without a further call: each takes its next operation or waits for another that
can, and the operations left only get fewer. A thread outside calls holds nothing. -/
theorem locks_released (history : List (Event Resource)) (state : State Resource)
    (run : Run (fun state => state = State.initial) Calls Step history state) :
    (∀ thread, (state.threads thread).rest = [] → (state.threads thread).held = []) ∧
    ∃ count, (∀ thread, count ≤ thread → state.threads thread = ⟨[],[]⟩) ∧
      ∀ late after, Run (fun start => start = state) Closed Step late after →
        late.length + work count after ≤ work count state ∧
        ((∀ thread, after.threads thread = ⟨[],[]⟩) ∨ ∃ mover further, Step after
          (.advance mover) further) := by
  have reached := calls_disciplined run
  refine ⟨?_,calls_return rank_bounded reached⟩
  intro thread outside
  obtain ⟨count,safe⟩ := reached_safe reached
  have ordered := safe.ordered thread
  rw [outside] at ordered
  generalize (state.threads thread).held = held at ordered
  cases ordered
  rfl

theorem locks_released_waiting :
    ∃ state : State Resource, state.threads 0 = ⟨[.memory 0],[.unlock (.memory 0)]⟩ ∧
      state.threads 1 = ⟨[],MemoryPool.getBlock 0⟩ ∧ ∃ mover further, Step state
        (.advance mover) further := by
  have first : Run (fun state => state = State.initial) Calls Step _ _ :=
    Run.next _ _ (Event.call 0 (MemoryPool.getBlock 0)) _ (Run.start State.initial rfl)
      (Call.getBlock 0)
      (Step.call _ 0 _ rfl)
  have second := Run.next _ _ (Event.call 1 (MemoryPool.getBlock 0)) _ first (Call.getBlock 0)
    (Step.call _ 1 _ rfl)
  have run : Run (fun state => state = State.initial) Calls Step _ _ :=
    Run.next _ _ (Event.advance 0) _ second trivial
    (Step.lock _ 0 (.memory 0) [] [.unlock (.memory 0)] rfl ?_)
  · obtain ⟨_,count,_,returns⟩ := locks_released _ _ run
    refine ⟨_,rfl,rfl,(returns [] _ (.start _ rfl)).2.resolve_left ?_⟩
    intro finished
    cases finished 0
  · intro thread member
    rw [set_threads,set_threads] at member
    split at member
    · cases member
    · split at member
      · cases member
      · cases member

end MCoroutine.Locking
