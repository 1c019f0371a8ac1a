import MCoroutine.Basic

/-! The Coroutine object. The register array and the callback are parameters: the
machine layer instantiates the array with fourteen words, the switching layer with
the continuation such an array stands for. -/
namespace MCoroutine

structure Coroutine (Coctx Function : Type) where
  corId : Nat
  coctx : Coctx
  stackSize : Nat
  stackSp : Nat
  cbfuncRunningFlag : Bool
  resumeFlag : Bool
  callBack : Option Function
  deriving DecidableEq, Repr

namespace Coroutine

variable {Coctx Function : Type}

/-- `Coroutine()`: identity 0, no stack, zeroed registers. -/
def default (zero : Coctx) : Coroutine Coctx Function :=
  { corId := 0, coctx := zero, stackSize := 0, stackSp := 0,
    cbfuncRunningFlag := false, resumeFlag := false, callBack := none }

/-- `Coroutine(stack_size,stack_ptr)` with the identity drawn from the counter. -/
def create (zero : Coctx) (id stackSize : Nat) (stackPtr : Nat) :
    Except Failure (Coroutine Coctx Function) :=
  if stackPtr = 0 then .error (.exit "the stack pointer can't be nullptr!")
  else .ok { default zero with corId := id, stackSize := stackSize, stackSp := stackPtr }

def setCallBackRunningFlag (flag : Bool) (co : Coroutine Coctx Function) :
    Coroutine Coctx Function :=
  { co with cbfuncRunningFlag := flag }

def setResumeFlag (flag : Bool) (co : Coroutine Coctx Function) : Coroutine Coctx Function :=
  { co with resumeFlag := flag }

/-- `setCallBack`, where `isMain` is the test against the calling thread's main
coroutine and `prepared` the register array written on success. -/
def setCallBack (isMain : Bool) (prepared : Coctx) (cb : Function) (co : Coroutine Coctx Function) :
    Bool × Coroutine Coctx Function :=
  if isMain then (false,co)
  else if co.cbfuncRunningFlag then (false,co)
  else (true,{ co with callBack := some cb, coctx := prepared, resumeFlag := true })

theorem setCallBack_accepted {isMain : Bool} {prepared : Coctx} {cb : Function}
    {co after : Coroutine Coctx Function}
    (accepted : co.setCallBack isMain prepared cb = (true,after)) :
    isMain = false ∧ co.cbfuncRunningFlag = false ∧
      after = { co with callBack := some cb, coctx := prepared, resumeFlag := true } := by
  unfold setCallBack at accepted
  split at accepted
  · cases accepted
  · split at accepted
    · cases accepted
    · rename_i other idle
      cases accepted
      exact ⟨by simpa using other,by simpa using idle,rfl⟩

theorem setCallBack_refused {isMain : Bool} {prepared : Coctx} {cb : Function}
    {co after : Coroutine Coctx Function}
    (refused : co.setCallBack isMain prepared cb = (false,after)) :
    (isMain = true ∨ co.cbfuncRunningFlag = true) ∧ after = co := by
  unfold setCallBack at refused
  split at refused
  · rename_i main
    cases refused
    exact ⟨Or.inl main,rfl⟩
  · split at refused
    · rename_i running
      cases refused
      exact ⟨Or.inr running,rfl⟩
    · cases refused

end Coroutine

end MCoroutine
