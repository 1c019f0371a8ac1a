import MCoroutine.Coroutine

/-! The Coroutine objects of a process. A reference is the position of the object in
construction order, and a register array is represented by the continuation saved in
it. -/
namespace MCoroutine

/-- What a swap into a register array continues with. `main thread calls` is main
code that returned from its Resume call of that number; `callBack co rest` is a
callback behind a Yield, with `rest` still to run; `finished co` is runCallBack behind
its last Yield. -/
inductive Context (Body : Type)
  | zero
  | main (thread calls : Nat)
  | runCallBack (co : Nat)
  | callBack (co : Nat) (rest : Body)
  | finished (co : Nat)
  deriving DecidableEq, Repr

structure Store (Body : Type) where
  objects : List (Coroutine (Context Body) Body)
  curCoroutineId : Nat
  deriving DecidableEq, Repr

namespace Store

variable {Body : Type}

def initial : Store Body := { objects := [], curCoroutineId := 1 }

/-- `MAKE_UNIQUE(Coroutine)`. -/
def makeDefault (store : Store Body) : Nat × Store Body :=
  (store.objects.length,{ store with objects := store.objects ++ [Coroutine.default .zero] })

/-- `MAKE_UNIQUE(Coroutine,stack_size,stack_ptr)`. -/
def make (stackSize stackPtr : Nat) (store : Store Body) : Except Failure (Nat × Store Body) := do
  let co ← Coroutine.create .zero store.curCoroutineId stackSize stackPtr
  return (store.objects.length,
    { objects := store.objects ++ [co], curCoroutineId := u32 (store.curCoroutineId + 1) })

def modify (co : Nat) (change : Coroutine (Context Body) Body → Coroutine (Context Body) Body)
    (store : Store Body) : Store Body :=
  { store with objects := store.objects.modify co change }

end Store

end MCoroutine
