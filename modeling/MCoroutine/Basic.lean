import Mathlib.Algebra.Group.Int.Defs
import Mathlib.Algebra.Group.Nat.Defs

/-! What the C++ code shares: fixed-width arithmetic, addresses, and the ways in
which a call can fail to return. -/
namespace MCoroutine

/-- The value of a `uint32_t` expression. -/
def u32 (n : Nat) : Nat := n % 2^32

/-- `pointer + n` on a byte pointer; addresses are numbers below `2^64`. -/
def offset (pointer : Nat) (n : Nat) : Nat := (pointer + n) % 2^64

/-- How a call ends when it does not return. `exit` carries the logged error; the
other cases are undefined behaviour, an uncaught exception or a loop without end. -/
inductive Failure
  | exit (message : String)
  | outOfRange
  | invalidPointer
  | divisionByZero
  | signedOverflow
  | badAlloc
  | badCast
  | badFunctionCall
  | endless
  | wildJump
  deriving DecidableEq, Repr

theorem u32_of_lt {n : Nat} (small : n < 2^32) : u32 n = n := Nat.mod_eq_of_lt small

theorem u32_lt (n : Nat) : u32 n < 2^32 := Nat.mod_lt _ (by omega)

theorem u32_le (n : Nat) : u32 n ≤ n := Nat.mod_le _ _

theorem offset_of_lt {pointer : Nat} {n : Nat} (small : pointer + n < 2^64) :
    offset pointer n = pointer + n := Nat.mod_eq_of_lt small

theorem bind_success {α β : Type} {first : Except Failure α} {next : α → Except Failure β}
    {result : β} (ok : (first >>= next) = .ok result) :
    ∃ value, first = .ok value ∧ next value = .ok result := by
  cases first with
  | error failure => cases ok
  | ok value => exact ⟨value,rfl,ok⟩

end MCoroutine
