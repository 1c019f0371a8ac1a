import MCoroutine.CoroutinePool
import MCoroutine.MemoryEffects
import Mathlib.Logic.Function.Basic

/-! The process: the threads, their thread-local coroutine pointers, and the calls they
make. A callback is a sequence of segments: `next body` is what remains of `body`
behind the Yield that ends its first segment, or nothing when the callback returns. -/
namespace MCoroutine

structure Thread (Body : Type) where
  mainCoroutine : Option Nat
  curCoroutine : Option Nat
  running : Context Body
  deriving DecidableEq, Repr

structure Process (Body : Type) where
  store : Store Body
  threads : Nat → Thread Body
  pools : List CoroutinePool

namespace Process

variable {Body : Type}

def initial : Process Body :=
  { store := Store.initial,
    threads := fun thread => { mainCoroutine := none, curCoroutine := none, running := .main thread 0 },
    pools := [] }

def setThread (thread : Nat) (value : Thread Body) (process : Process Body) : Process Body :=
  { process with threads := Function.update process.threads thread value }

/-- The `call_once` of GetMainCoroutine. -/
def getMainCoroutine (thread : Nat) (process : Process Body) : Nat × Process Body :=
  match (process.threads thread).mainCoroutine with
  | some co => (co,process)
  | none =>
    let (co,store) := process.store.makeDefault
    (co,setThread thread { process.threads thread with mainCoroutine := some co }
      { process with store := store })

def getCurrentCoroutine (thread : Nat) (process : Process Body) : Nat × Process Body :=
  match (process.threads thread).curCoroutine with
  | some co => (co,process)
  | none =>
    let (co,process) := process.getMainCoroutine thread
    (co,setThread thread { process.threads thread with curCoroutine := some co } process)

def isMainCoroutine (thread : Nat) (process : Process Body) : Bool × Process Body :=
  let (main,process) := process.getMainCoroutine thread
  let (current,process) := process.getCurrentCoroutine thread
  (main == current,process)

/-- What a swap into a saved context runs, up to the first code outside the library.
runCallBack needs a stack and a callback; behind its last Yield there is only the end
of the function. -/
def enter (context : Context Body) (store : Store Body) :
    Except Failure (Context Body × Store Body) :=
  match context with
  | .main thread calls => .ok (.main thread calls,store)
  | .callBack co rest => .ok (.callBack co rest,store)
  | .runCallBack co =>
    match store.objects[co]? with
    | none => .error .invalidPointer
    | some object =>
      if object.stackSp = 0 then .error .wildJump
      else
        match object.callBack with
        | none => .error .badFunctionCall
        | some cb => .ok (.callBack co cb,store.modify co (Coroutine.setCallBackRunningFlag true))
  | .zero => .error .wildJump
  | .finished _ => .error .wildJump

/-- `coctx_swap(&from->m_coctx,&to->m_coctx)` on a thread, where `saved` is the
continuation of the caller. -/
def swap (thread source target : Nat) (saved : Context Body) (process : Process Body) :
    Except Failure (Process Body) := do
  let store := process.store.modify source fun co => { co with coctx := saved }
  match store.objects[target]? with
  | none => .error .invalidPointer
  | some object =>
    let (running,store) ← enter object.coctx store
    return setThread thread { process.threads thread with running := running }
      { process with store := store }

/-- The code behind a call that returns. -/
def returned : Context Body → Context Body
  | .main thread calls => .main thread (calls + 1)
  | context => context

/-- The checks of Resume: nothing is left to do when the coroutine is the current one. -/
def resumeCheck (thread : Nat) (cor : Option Nat) (process : Process Body) :
    Except Failure (Option (Nat × Nat) × Process Body) :=
  let (current,process) := process.getCurrentCoroutine thread
  let (main,process) := process.getMainCoroutine thread
  if current ≠ main then .error (.exit "swap error, current coroutine must be main coroutine!")
  else
    match cor with
    | none => .error (.exit "pending coroutine is nullptr or resume flag is false!")
    | some co =>
      match process.store.objects[co]? with
      | none => .error .invalidPointer
      | some object =>
        if object.resumeFlag = false then .error (.exit "pending coroutine is nullptr or resume flag is false!")
        else if current = co then .ok (none,process)
        else .ok (some (main,co),process)

def resume (thread : Nat) (cor : Option Nat) (process : Process Body) :
    Except Failure (Process Body) := do
  let (pending,process) ← process.resumeCheck thread cor
  let continuation := returned (process.threads thread).running
  match pending with
  | none => return setThread thread { process.threads thread with running := continuation } process
  | some (main,co) =>
    swap thread main co continuation
      (setThread thread { process.threads thread with curCoroutine := some co } process)

/-- Yield, where `saved` is the continuation of the code that calls it. -/
def yield (thread : Nat) (saved : Context Body) (process : Process Body) :
    Except Failure (Process Body) :=
  let (current,process) := process.getCurrentCoroutine thread
  let (main,process) := process.getMainCoroutine thread
  if current = main then .error (.exit "current coroutine is main coroutine!")
  else
    swap thread current main saved
      (setThread thread { process.threads thread with curCoroutine := some main } process)

/-- The callback of `co` returns: the rest of runCallBack. -/
def finish (thread co : Nat) (process : Process Body) : Except Failure (Process Body) :=
  yield thread (.finished co)
    { process with store := process.store.modify co (Coroutine.setCallBackRunningFlag false) }

def setCallBack (thread co : Nat) (cb : Body) (process : Process Body) :
    Except Failure (Bool × Process Body) :=
  let (main,process) := process.getMainCoroutine thread
  match process.store.objects[co]? with
  | none => .error .invalidPointer
  | some object =>
    let (accepted,object) := object.setCallBack (co == main) (.runCallBack co) cb
    .ok (accepted,{ process with store := process.store.modify co fun _ => object })

/-- `Coroutine(stack_size,stack_ptr,cb)`, whose body calls setCallBack on the new object. -/
def newCoroutine (thread stackSize stackPtr : Nat) (cb : Body) (process : Process Body) :
    Except Failure (Nat × Process Body) := do
  let (co,store) ← process.store.make stackSize stackPtr
  let (_,process) ← setCallBack thread co cb { process with store := store }
  return (co,process)

def setPool (index : Nat) (store : Store Body) (pool : CoroutinePool) (process : Process Body) :
    Process Body :=
  { process with store := store, pools := process.pools.set index pool }

inductive Event (Body : Type)
  | newCoroutine (co : Nat)
  | newPool (poolSize stackSize : Nat)
  | resize (pool newSize : Nat)
  | getCoroutine (thread pool co : Nat)
  | backCoroutine (thread pool co : Nat)
  | getMainCoroutine (thread co : Nat)
  | getCurrentCoroutine (thread co : Nat)
  | setCallBack (thread co : Nat) (cb : Body) (accepted : Bool)
  | resume (thread co : Nat)
  | yield (thread co : Nat)
  | finish (thread co : Nat)
  deriving DecidableEq, Repr

/-- The thread that makes a call, where the model names it. -/
def caller : Event Body → Option Nat
  | .newCoroutine _ => none
  | .newPool _ _ => none
  | .resize _ _ => none
  | .getCoroutine thread _ _ => some thread
  | .backCoroutine thread _ _ => some thread
  | .getMainCoroutine thread _ => some thread
  | .getCurrentCoroutine thread _ => some thread
  | .setCallBack thread _ _ _ => some thread
  | .resume thread _ => some thread
  | .yield thread _ => some thread
  | .finish thread _ => some thread

/-- One call of a thread that returns, or the end of a segment of a callback. -/
inductive Step (next : Body → Option Body) : Process Body → Event Body → Process Body → Prop
  | newCoroutine (process : Process Body) (stackSize stackPtr co : Nat) (store : Store Body)
      (sized : stackSize < 2^32) (call : process.store.make stackSize stackPtr = .ok (co,store)) :
      Step next process (.newCoroutine co) { process with store := store }
  | newPool (process : Process Body) (poolSize stackSize : Nat) (heap rest : List Nat)
      (store : Store Body)
      (pool : CoroutinePool) (sized : poolSize < 2^32 ∧ stackSize < 2^32)
      (arrays : MemoryPool.HeapArrays (u32 (stackSize * 128)) heap)
      (call : CoroutinePool.create poolSize stackSize heap process.store = .ok (store,pool,rest)) :
      Step next process (.newPool poolSize stackSize)
        { process with store := store, pools := process.pools ++ [pool] }
  | resize (process : Process Body) (index newSize : Nat) (heap rest : List Nat)
      (before after : CoroutinePool)
      (store : Store Body) (sized : newSize < 2^32) (located : process.pools[index]? = some before)
      (arrays : before.memoryPool.Supplied heap)
      (call : before.resize newSize heap process.store = .ok (store,after,rest)) :
      Step next process (.resize index newSize) (setPool index store after process)
  | getCoroutine (process : Process Body) (thread index co : Nat) (heap rest : List Nat)
      (before after : CoroutinePool) (store : Store Body)
      (located : process.pools[index]? = some before)
      (arrays : before.memoryPool.Supplied heap)
      (call : before.getCoroutine heap process.store = .ok (co,store,after,rest)) :
      Step next process (.getCoroutine thread index co) (setPool index store after process)
  | backCoroutine (process : Process Body) (thread index co : Nat) (before after : CoroutinePool)
      (store : Store Body) (located : process.pools[index]? = some before)
      (call : before.backCoroutine co process.store = .ok (store,after)) :
      Step next process (.backCoroutine thread index co) (setPool index store after process)
  | getMainCoroutine (process after : Process Body) (thread co : Nat)
      (call : process.getMainCoroutine thread = (co,after)) :
      Step next process (.getMainCoroutine thread co) after
  | getCurrentCoroutine (process after : Process Body) (thread co : Nat)
      (call : process.getCurrentCoroutine thread = (co,after)) :
      Step next process (.getCurrentCoroutine thread co) after
  | setCallBack (process after : Process Body) (thread co : Nat) (cb : Body) (accepted : Bool)
      (call : process.setCallBack thread co cb = .ok (accepted,after)) :
      Step next process (.setCallBack thread co cb accepted) after
  | resume (process after : Process Body) (thread co : Nat)
      (call : process.resume thread (some co) = .ok after) :
      Step next process (.resume thread co) after
  | yield (process after : Process Body) (thread co : Nat) (body rest : Body)
      (running : (process.threads thread).running = .callBack co body)
      (more : next body = some rest)
      (call : process.yield thread (.callBack co rest) = .ok after) :
      Step next process (.yield thread co) after
  | finish (process after : Process Body) (thread co : Nat) (body : Body)
      (running : (process.threads thread).running = .callBack co body) (done : next body = none)
      (call : process.finish thread co = .ok after) :
      Step next process (.finish thread co) after

end Process

end MCoroutine
