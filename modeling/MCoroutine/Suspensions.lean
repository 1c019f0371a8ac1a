import MCoroutine.General.Runs
import MCoroutine.Swap
import Mathlib.Logic.Pairwise

/-! Chains of coctx_swap calls between any number of contexts, with other code in
between: for the suspended side a swap is a call that returns. -/
namespace MCoroutine.Suspensions
open General.ByteMemory General.Runs Machine Swap

variable {Context : Type} [DecidableEq Context]

/-- The calls of coctx_swap and the code between them, of which only the state it
leaves matters. -/
inductive Event (Context : Type)
  | code (after : State)
  | swap (call : State) (outgoing incoming : Context)

inductive Step : State → Event Context → State → Prop
  | code (before after : State) : Step before (.code after) after
  | swap (call : State) (outgoing incoming : Context) :
      Step call (.swap call outgoing incoming) (exec coctxSwap call)

/-- The call that suspended a context, as long as no swap has gone back into it. -/
def suspendedBy : List (Event Context) → Context → Option State
  | [] => fun _ => none
  | .code _::past => suspendedBy past
  | .swap call outgoing incoming::past =>
    Function.update (Function.update (suspendedBy past) outgoing (some call)) incoming none

/-- The call that suspended the incoming context of a swap; of a context swapped with
itself it is that same call. -/
def resumedCall (past : List (Event Context)) (call : State) (outgoing incoming : Context) :
    Option State :=
  Function.update (suspendedBy past) outgoing (some call) incoming

/-- A call `coctx_swap(outgoing,incoming)`. The stack words involved, the caller's
return address and the word at a saved stack pointer that no call has put there, lie
outside the register arrays. -/
structure Calls (arrays : Context → Word) (past : List (Event Context)) (call : State)
    (outgoing incoming : Context) : Prop where
  rdi : call.regs .rdi = arrays outgoing
  rsi : call.regs .rsi = arrays incoming
  returnWord : ∀ context, Apart (call.regs .rsp) 8 (arrays context) coctxBytes
  preparedTop : resumedCall past call outgoing incoming = none →
    ∀ context, Apart (readCoctx call kRSP) 8 (arrays context) coctxBytes

def Permitted (arrays : Context → Word) (past : List (Event Context)) (state : State) :
    Event Context → Prop
  | .code after => ∀ context, suspendedBy past context ≠ none →
      ∀ byte, Inside (arrays context) coctxBytes byte → after.mem byte = state.mem byte
  | .swap _ outgoing incoming => Calls arrays past state outgoing incoming

/-- What the caller sees after the swap back: a return from the call that suspended it. -/
structure Returned (call after : State) : Prop where
  rip : after.rip = load call.mem (call.regs .rsp)
  rsp : after.regs .rsp = call.regs .rsp + 8#64
  kept : ∀ reg, reg ≠ .rax → reg ≠ .rsp → after.regs reg = call.regs reg

/-- Besides the outgoing array the swap stores one word, and that is the return address. -/
structure PushesReturn (outgoing : Word) (coctx : Coctx) (call after : State) : Prop where
  stores : targets coctxSwap call = savedDisplacements.map (slot outgoing) ++ [coctx kRSP]
  pushed : load after.mem (coctx kRSP) = coctx kRETAddr
  frame : ∀ byte, ¬ Inside outgoing coctxBytes byte → ¬ Inside (coctx kRSP) 8 byte →
    after.mem byte = call.mem byte

theorem returned_of_entered {call after : State} (entered : Entered (suspendedCoctx call) after) :
    Returned call after := by
  refine ⟨entered.rip,entered.rsp,?_⟩
  intro reg scratch top
  have listed : reg = .rax ∨ ∃ index, entryReg index = some reg := by
    cases reg with
    | rax => exact Or.inl rfl
    | _ => exact Or.inr (by decide)
  obtain ⟨index,entry⟩ := listed.resolve_left scratch
  rw [entered.restored index reg entry top,suspendedCoctx,entry]
  rfl

section Chains

variable {arrays : Context → Word}
  (separate : Pairwise fun first second => Apart (arrays first) coctxBytes
    (arrays second) coctxBytes)

include separate

private theorem arrays_inj {first second : Context} (same : arrays first = arrays second) :
    first = second := by
  by_contra other
  have byte := inside_offset (arrays first) coctxBytes 0 (by decide) (by decide)
  exact separate other _ byte (same ▸ byte)

def Saved (arrays : Context → Word) (past : List (Event Context)) (state : State) : Prop :=
  ∀ context call, suspendedBy past context = some call →
    Holds state.mem (arrays context) (suspendedCoctx call) ∧
      ∀ other, Apart (call.regs .rsp) 8 (arrays other) coctxBytes

private theorem readCoctx_resumed {past : List (Event Context)} {call earlier : State}
    {outgoing incoming : Context} (saved : Saved arrays past call)
    (calls : Calls arrays past call outgoing incoming)
    (resumed : resumedCall past call outgoing incoming = some earlier) :
    readCoctx call = suspendedCoctx earlier ∧
      ∀ other, Apart (earlier.regs .rsp) 8 (arrays other) coctxBytes := by
  unfold resumedCall at resumed
  by_cases self : incoming = outgoing
  · rw [self,Function.update_self] at resumed
    cases resumed
    exact ⟨by rw [readCoctx,if_pos (by rw [calls.rsi,calls.rdi,self])],calls.returnWord⟩
  · rw [Function.update_of_ne self] at resumed
    obtain ⟨held,clear⟩ := saved incoming earlier resumed
    have distinct : call.regs .rsi ≠ call.regs .rdi := by
      rw [calls.rsi,calls.rdi]
      exact fun same => self (arrays_inj separate same)
    refine ⟨?_,clear⟩
    rw [readCoctx,if_neg distinct,calls.rsi]
    funext index
    exact held index

private theorem readCoctx_clear {past : List (Event Context)} {call : State}
    {outgoing incoming : Context} (saved : Saved arrays past call)
    (calls : Calls arrays past call outgoing incoming) (other : Context) :
    Apart (readCoctx call kRSP) 8 (arrays other) coctxBytes := by
  cases resumed : resumedCall past call outgoing incoming with
  | none => exact calls.preparedTop resumed other
  | some earlier =>
    obtain ⟨same,clear⟩ := readCoctx_resumed separate saved calls resumed
    rw [same]
    exact clear other

private theorem calls_held {past : List (Event Context)} {call : State}
    {outgoing incoming : Context} (calls : Calls arrays past call outgoing incoming) :
    Holds (exec saveContext call).mem (call.regs .rsi) (readCoctx call) := by
  apply save_reads
  · rw [calls.rsi,calls.rdi]
    by_cases self : outgoing = incoming
    · exact Or.inl (by rw [self])
    · exact Or.inr (separate self)
  · intro _
    rw [calls.rdi]
    exact calls.returnWord outgoing

private theorem calls_enter {past : List (Event Context)} {call : State}
    {outgoing incoming : Context} (saved : Saved arrays past call)
    (calls : Calls arrays past call outgoing incoming) :
    Entered (readCoctx call) (exec coctxSwap call) ∧
      (exec coctxSwap call).mem =
        store (exec saveContext call).mem (readCoctx call kRSP) (readCoctx call kRETAddr) := by
  apply swap_enters call (readCoctx call) (calls_held separate calls)
  rw [calls.rsi]
  exact readCoctx_clear separate saved calls incoming

private theorem saved_swap {past : List (Event Context)} {call : State}
    {outgoing incoming : Context} (saved : Saved arrays past call)
    (calls : Calls arrays past call outgoing incoming) :
    Saved arrays (.swap call outgoing incoming::past) (exec coctxSwap call) := by
  obtain ⟨_,memory⟩ := calls_enter separate saved calls
  -- the push spares every array
  have push (context : Context) {coctx : Coctx}
    (held : Holds (exec saveContext call).mem (arrays context) coctx) :
      Holds (exec coctxSwap call).mem (arrays context) coctx := by
    apply held.congr
    intro address inside
    rw [memory]
    exact store_outside _ _ _ _ fun pushed =>
      readCoctx_clear separate saved calls context address pushed inside
  intro context earlier suspended
  simp only [suspendedBy] at suspended
  by_cases entered : context = incoming
  · rw [entered,Function.update_self] at suspended
    cases suspended
  rw [Function.update_of_ne entered] at suspended
  by_cases left : context = outgoing
  · subst left
    rw [Function.update_self] at suspended
    cases suspended
    have whole := save_holds call (calls.rdi ▸ calls.returnWord context)
    exact ⟨push context (calls.rdi ▸ whole),calls.returnWord⟩
  · rw [Function.update_of_ne left] at suspended
    obtain ⟨held,clear⟩ := saved context earlier suspended
    refine ⟨push context (held.congr ?_),clear⟩
    intro address inside
    apply save_frame
    rw [calls.rdi]
    exact fun written => separate left address inside written

private theorem reached_saved {past : List (Event Context)} {state : State}
    (run : Run (fun _ => True) (Permitted arrays) Step past state) : Saved arrays past state := by
  refine run.invariant (Saved arrays) ?_ ?_
  · intro state _ context call suspended
    cases suspended
  · intro past before event after _ saved permitted taken
    cases taken with
    | code =>
      intro context call suspended
      obtain ⟨held,clear⟩ := saved context call suspended
      refine ⟨held.congr fun address inside => ?_,clear⟩
      exact permitted context
        (by rw [show suspendedBy past context = some call from suspended]; simp) address inside
    | swap outgoing incoming => exact saved_swap separate saved permitted

/-- In every chain of swaps a swap back into a context returns from the call that
suspended it, and stores no more than the outgoing array and its return address. -/
theorem swap_returns {past : List (Event Context)} {call : State}
    (run : Run (fun _ => True) (Permitted arrays) Step past call) (outgoing incoming : Context)
    (calls : Calls arrays past call outgoing incoming) :
    PushesReturn (arrays outgoing) (readCoctx call) call (exec coctxSwap call) ∧
      ∀ earlier, resumedCall past call outgoing incoming = some earlier →
        readCoctx call = suspendedCoctx earlier ∧ Returned earlier (exec coctxSwap call) := by
  have saved := reached_saved separate run
  obtain ⟨entered,memory⟩ := calls_enter separate saved calls
  refine ⟨⟨?_,?_,?_⟩,?_⟩
  · rw [swap_targets,pushSlot_eq,calls.rdi]
    exact congrArg (_ ++ [·]) (calls_held separate calls kRSP)
  · rw [memory,load_store]
  · intro byte unsaved unpushed
    rw [memory,store_outside _ _ _ _ unpushed]
    exact save_frame call byte (by rw [calls.rdi]; exact unsaved)
  · intro earlier resumed
    obtain ⟨same,_⟩ := readCoctx_resumed separate saved calls resumed
    exact ⟨same,returned_of_entered (same ▸ entered)⟩

end Chains

/-- Two contexts, with their arrays at `0x1000` and `0x2000`. -/
def twoArrays : Bool → Word
  | false => 0x1000
  | true => 0x2000

def calling (outgoing incoming : Bool) (top mark : Word) (mem : Memory) : State :=
  { regs := fun reg => if reg = .rdi then twoArrays outgoing
    else if reg = .rsi then twoArrays incoming
      else if reg = .rsp then top else mark,
    rip := 0, mem := mem }

def firstCall : State := calling false true 0x8000 0x11 fun _ => 0

def secondCall : State := calling true false 0x9000 0x22 (exec coctxSwap firstCall).mem

private theorem twoArrays_separate :
    Pairwise fun first second => Apart (twoArrays first) coctxBytes
      (twoArrays second) coctxBytes := by
  intro first second other byte inside
  unfold Inside coctxBytes at *
  cases first <;> cases second <;> simp only [ne_eq,not_true_eq_false,twoArrays] at * <;> bv_omega

private theorem firstCall_calls : Calls twoArrays [] firstCall false true := by
  have prepared : readCoctx firstCall kRSP = 0 := rfl
  refine ⟨rfl,rfl,?_,?_⟩
  · intro context byte inside
    unfold Inside coctxBytes at *
    cases context <;> simp only [firstCall,calling,twoArrays,reduceCtorEq,if_true,
      if_false] at * <;> bv_omega
  · intro _ context byte inside
    rw [prepared] at inside
    unfold Inside coctxBytes at *
    cases context <;> simp only [twoArrays] <;> bv_omega

private theorem secondCall_calls :
    Calls twoArrays [.code secondCall,.swap firstCall false true] secondCall true false := by
  refine ⟨rfl,rfl,?_,?_⟩
  · intro context byte inside
    unfold Inside coctxBytes at *
    cases context <;> simp only [secondCall,calling,twoArrays,reduceCtorEq,if_true,
      if_false] at * <;> bv_omega
  · intro fresh
    cases fresh

private theorem second_run : Run (fun _ => True) (Permitted twoArrays) Step
    [.code secondCall,.swap firstCall false true] secondCall :=
  .next _ _ _ _ (.next _ _ _ _ (.start firstCall trivial) firstCall_calls
    (.swap firstCall false true))
    (fun _ _ _ _ => rfl) (.code _ _)

theorem swap_returns_pair : Returned firstCall (exec coctxSwap secondCall) :=
  ((swap_returns twoArrays_separate second_run true false secondCall_calls).2 firstCall rfl).2

end MCoroutine.Suspensions
