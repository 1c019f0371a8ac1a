import MCoroutine.Coroutine
import MCoroutine.Swap
import Mathlib.Order.Bounds.Defs
import Mathlib.Tactic.IntervalCases

/-! The first entry into a coroutine: setCallBack prepares the register array,
coctx_swap reads it back and pushes the return address. -/
namespace MCoroutine.FirstSwap
open General.ByteMemory Machine Swap

/-- The stack top that setCallBack computes: base plus size, masked with `-16LL`. -/
def stackTop (stackSp : Nat) (stackSize : Nat) : Word :=
  (BitVec.ofNat 64 stackSp + BitVec.ofNat 64 stackSize) &&& BitVec.ofInt 64 (-16)

/-- The array setCallBack leaves in `m_coctx`: zeroed, then four entries. -/
def initialCoctx (runCallBack this : Word) (stackSp : Nat) (stackSize : Nat) : Coctx :=
  let top := stackTop stackSp stackSize
  let cleared : Coctx := fun _ => 0
  Function.update (Function.update (Function.update (Function.update cleared kRSP top) kRBP top)
    kRETAddr runCallBack) kRDI this

theorem initialCoctx_rsp (runCallBack this : Word) (stackSp : Nat) (stackSize : Nat) :
    initialCoctx runCallBack this stackSp stackSize kRSP = stackTop stackSp stackSize := by
  simp [initialCoctx,kRSP,kRBP,kRETAddr,kRDI]

private theorem mask_bits (bit : Fin 64) :
    (BitVec.ofInt 64 (-16)).getLsbD bit = decide (4 ≤ bit.val) := by
  revert bit
  decide

private theorem mask_round (address : Word) :
    address &&& BitVec.ofInt 64 (-16) = (address >>> 4) <<< 4 := by
  apply BitVec.eq_of_getLsbD_eq
  intro bit bound
  rw [BitVec.getLsbD_and,mask_bits ⟨bit,bound⟩,BitVec.getLsbD_shiftLeft,BitVec.getLsbD_ushiftRight]
  by_cases low : bit < 4
  · simp [low]
  · have high : 4 ≤ bit := by omega
    simp [low,high,bound,Nat.add_sub_cancel' high]

private theorem mask_toNat (address : Word) :
    (address &&& BitVec.ofInt 64 (-16)).toNat = address.toNat - address.toNat % 16 := by
  have bound := address.isLt
  rw [mask_round,BitVec.toNat_shiftLeft,BitVec.toNat_ushiftRight,Nat.shiftLeft_eq,
    Nat.shiftRight_eq_div_pow]
  omega

theorem stackTop_distance (stackSp : Nat) (stackSize : Nat) (room : 16 ≤ stackSize)
    (small : stackSize < 2^32) :
    (stackTop stackSp stackSize - BitVec.ofNat 64 stackSp).toNat =
      stackSize - (stackSp + stackSize) % 16 := by
  have rounded := mask_toNat (BitVec.ofNat 64 stackSp + BitVec.ofNat 64 stackSize)
  rw [stackTop,BitVec.toNat_sub,rounded,BitVec.toNat_add,BitVec.toNat_ofNat,BitVec.toNat_ofNat]
  omega

variable {Function : Type}

/-- The coroutine's own stack bytes `[s,s+n)`. -/
def OwnStack (co : Coroutine Coctx Function) (byte : Word) : Prop :=
  Inside (BitVec.ofNat 64 co.stackSp) co.stackSize byte

/-- Starting the coroutine is confined: the swap stores, and changes, nothing but
the two register arrays and the coroutine's own stack, and the pushed word lies on
that stack. -/
def StartConfined (co : Coroutine Coctx Function) (state : State) : Prop :=
  (∀ byte, Stores coctxSwap state byte →
    Inside (state.regs .rdi) coctxBytes byte ∨ Inside (state.regs .rsi) coctxBytes byte ∨
      OwnStack co byte) ∧
  (∀ byte, Inside (pushSlot state) 8 byte → OwnStack co byte) ∧
  ∀ byte, ¬ Inside (state.regs .rdi) coctxBytes byte → ¬ Inside (state.regs .rsi) coctxBytes byte →
    ¬ OwnStack co byte → (exec coctxSwap state).mem byte = state.mem byte

private theorem confined_iff_push (co : Coroutine Coctx Function) (state : State) :
    StartConfined co state ↔ ∀ byte, Inside (pushSlot state) 8 byte → OwnStack co byte := by
  constructor
  · exact fun confined => confined.2.1
  · intro own
    have stores : ∀ byte, Stores coctxSwap state byte →
        Inside (state.regs .rdi) coctxBytes byte ∨ Inside (state.regs .rsi) coctxBytes byte ∨
            OwnStack co byte := by
      intro byte written
      rcases swap_stores state byte written with outgoing | pushed
      · exact Or.inl outgoing
      · exact Or.inr (Or.inr (own byte pushed))
    refine ⟨stores,own,?_⟩
    intro byte notOutgoing notIncoming notOwn
    apply exec_frame
    intro written
    rcases stores byte written with outgoing | incoming | stack
    · exact notOutgoing outgoing
    · exact notIncoming incoming
    · exact notOwn stack

private theorem top_byte_own (stackSp : Nat) (stackSize : Nat) (room : 32 ≤ stackSize)
    (small : stackSize < 2^32) (byte : Word) (inside : Inside (stackTop stackSp stackSize) 8 byte) :
    Inside (BitVec.ofNat 64 stackSp) stackSize byte ↔
      (byte - stackTop stackSp stackSize).toNat < (stackSp + stackSize) % 16 := by
  have distance := stackTop_distance stackSp stackSize (by omega) small
  have split : byte - BitVec.ofNat 64 stackSp =
      byte - stackTop stackSp stackSize + (stackTop stackSp stackSize - BitVec.ofNat 64
          stackSp) := by
    bv_omega
  unfold Inside at *
  rw [split,BitVec.toNat_add,distance]
  omega

private theorem top_word_own (stackSp : Nat) (stackSize : Nat) (room : 32 ≤ stackSize)
    (small : stackSize < 2^32) :
    (∀ byte, Inside (stackTop stackSp stackSize) 8 byte →
      Inside (BitVec.ofNat 64 stackSp) stackSize byte) ↔
      8 ≤ (stackSp + stackSize) % 16 := by
  constructor
  · intro own
    have last := inside_offset (stackTop stackSp stackSize) 8 7 (by omega) (by omega)
    have bound := (top_byte_own stackSp stackSize room small _ last).mp (own _ last)
    have seven : (stackTop stackSp stackSize + BitVec.ofNat 64 7 - stackTop stackSp
        stackSize).toNat = 7 := by
      rw [BitVec.add_comm,BitVec.add_sub_cancel]
      rfl
    omega
  · intro aligned byte inside
    apply (top_byte_own stackSp stackSize room small byte inside).mpr
    unfold Inside at inside
    omega

private theorem first_pushSlot (runCallBack this : Word) (isMain : Bool) (cb : Function)
    (co after : Coroutine Coctx Function)
    (accepted : co.setCallBack isMain (initialCoctx runCallBack this co.stackSp co.stackSize)
      cb = (true,after))
    (state : State) (held : Holds state.mem (state.regs .rsi) after.coctx)
    (apart : Apart (state.regs .rdi) coctxBytes (state.regs .rsi) coctxBytes) :
    pushSlot state = stackTop co.stackSp co.stackSize := by
  obtain ⟨_,_,same⟩ := Coroutine.setCallBack_accepted accepted
  rw [pushSlot_of_holds state after.coctx apart held,same]
  exact initialCoctx_rsp runCallBack this co.stackSp co.stackSize

/-- Starting a coroutine stays on its stack exactly when the end of the stack is
misaligned by at least the eight bytes that the push needs. -/
theorem start_confined_iff (runCallBack this : Word) (isMain : Bool) (cb : Function)
    (co after : Coroutine Coctx Function) (room : 32 ≤ co.stackSize) (small : co.stackSize < 2^32)
    (accepted : co.setCallBack isMain (initialCoctx runCallBack this co.stackSp co.stackSize)
      cb = (true,after))
    (state : State) (held : Holds state.mem (state.regs .rsi) after.coctx)
    (apart : Apart (state.regs .rdi) coctxBytes (state.regs .rsi) coctxBytes) :
    StartConfined after state ↔ 8 ≤ (co.stackSp + co.stackSize) % 16 := by
  obtain ⟨_,_,same⟩ := Coroutine.setCallBack_accepted accepted
  have own (byte : Word) : OwnStack after byte ↔
      Inside (BitVec.ofNat 64 co.stackSp) co.stackSize byte := by
    rw [same]
    rfl
  rw [confined_iff_push,first_pushSlot runCallBack this isMain cb co after accepted
    state held apart]
  simp only [own]
  exact top_word_own co.stackSp co.stackSize room small

def constructed (stackSp stackSize : Nat) : Coroutine Coctx Unit :=
  { Coroutine.default (fun _ => 0) with corId := 1, stackSize := stackSize, stackSp := stackSp }

def started (stackSp stackSize : Nat) : Coroutine Coctx Unit :=
  { constructed stackSp stackSize with
    coctx := initialCoctx 0x400000 0x3000 stackSp stackSize, resumeFlag := true,
      callBack := some () }

def startState (coctx : Coctx) : State :=
  { regs := fun reg => if reg = .rdi then 0x1000#64 else if reg = .rsi then 0x2000#64 else 0#64,
    rip := 0, mem := place (fun _ => 0) 0x2000#64 coctx }

private theorem started_accepted (stackSp stackSize : Nat) :
    (constructed stackSp stackSize).setCallBack false
      (initialCoctx 0x400000 0x3000 (constructed stackSp stackSize).stackSp
        (constructed stackSp stackSize).stackSize)
      () = (true,started stackSp stackSize) := rfl

private theorem startState_holds (coctx : Coctx) :
    Holds (startState coctx).mem ((startState coctx).regs .rsi) coctx :=
  place_holds _ _ coctx (by omega)

private theorem startState_apart (coctx : Coctx) :
    Apart ((startState coctx).regs .rdi) coctxBytes ((startState coctx).regs .rsi) coctxBytes := by
  intro address first second
  simp only [Inside,startState,coctxBytes,if_true,reduceCtorEq,if_false] at first second
  bv_omega

private theorem started_pushSlot (stackSp stackSize : Nat) :
    pushSlot (startState (started stackSp stackSize).coctx) = stackTop stackSp stackSize := by
  have slot := first_pushSlot 0x400000 0x3000 false () (constructed stackSp stackSize)
    (started stackSp stackSize)
    (started_accepted stackSp stackSize) (startState (started stackSp stackSize).coctx)
    (startState_holds (started stackSp stackSize).coctx)
      (startState_apart (started stackSp stackSize).coctx)
  exact slot

theorem start_confined_misaligned :
    StartConfined (started 0x10008 131072) (startState (started 0x10008 131072).coctx) := by
  have exact_condition := start_confined_iff 0x400000 0x3000 false () (constructed 0x10008 131072)
    (started 0x10008 131072) (by simp [constructed]) (by simp [constructed])
    (started_accepted 0x10008 131072) (startState (started 0x10008 131072).coctx)
    (startState_holds (started 0x10008 131072).coctx)
      (startState_apart (started 0x10008 131072).coctx)
  exact exact_condition.mpr (by simp [constructed])

/-- The default pool stack in an aligned block: after a successful setCallBack the
push of the first swap lands on the first bytes of the next block. -/
theorem start_overruns_aligned :
    (constructed 0x10000 131072).setCallBack false
        (initialCoctx 0x400000 0x3000 (constructed 0x10000 131072).stackSp
          (constructed 0x10000 131072).stackSize)
        () = (true,started 0x10000 131072) ∧
      ¬ StartConfined (started 0x10000 131072) (startState (started 0x10000 131072).coctx) ∧
      Stores coctxSwap (startState (started 0x10000 131072).coctx)
        (BitVec.ofNat 64 (0x10000 + 131072)) := by
  refine ⟨started_accepted 0x10000 131072,?_,?_⟩
  · rw [confined_iff_push,started_pushSlot]
    intro own
    have aligned := (top_word_own 0x10000 131072 (by omega) (by omega)).mp own
    omega
  · apply swap_stores_push
    rw [started_pushSlot]
    decide

theorem swap_rax (state : State) : (exec coctxSwap state).regs .rax = 0 := by
  rw [coctxSwap,List.append_assoc,exec_append,
    exec_regs (loadContext ++ enterContext) _ .rax (by decide),
    save_regs,if_pos rfl]

private theorem initialCoctx_rest (runCallBack this : Word) (stackSp : Nat) (stackSize : Nat)
    (index : Fin 14) (rest : index ∉ [kRSP,kRBP,kRETAddr,kRDI]) :
    initialCoctx runCallBack this stackSp stackSize index = 0 := by
  simp only [List.mem_cons,List.not_mem_nil,or_false,not_or] at rest
  obtain ⟨rsp,rbp,back,rdi⟩ := rest
  simp [initialCoctx,Function.update_of_ne,rsp,rbp,back,rdi]

private theorem stackTop_toNat (stackSp : Nat) (stackSize : Nat)
    (room : stackSp + stackSize < 2^64) :
    (stackTop stackSp stackSize).toNat = (stackSp + stackSize) / 16 * 16 := by
  rw [stackTop,mask_toNat,BitVec.toNat_add,BitVec.toNat_ofNat,BitVec.toNat_ofNat]
  omega

private theorem stackTop_greatest (stackSp : Nat) (stackSize : Nat)
    (room : stackSp + stackSize < 2^64) :
    IsGreatest {address | 16 ∣ address ∧ address ≤ stackSp + stackSize}
      (stackTop stackSp stackSize).toNat := by
  rw [stackTop_toNat stackSp stackSize room]
  constructor
  · exact ⟨Dvd.intro_left _ rfl,Nat.div_mul_le_self _ 16⟩
  · rintro address ⟨⟨count,rfl⟩,below⟩
    omega

/-- How a coroutine's function is entered for the first time. -/
structure FirstEntry (runCallBack this : Word) (stackSp : Nat) (stackSize : Nat) (state : State) :
    Prop where
  rip : state.rip = runCallBack
  rdi : state.regs .rdi = this
  rbp : IsGreatest {address | 16 ∣ address ∧ address ≤ stackSp + stackSize} (state.regs .rbp).toNat
  rsp : (state.regs .rsp).toNat % 16 = 8
  rest : ∀ reg, reg ∉ [.rdi,.rbp,.rsp] → state.regs reg = 0

theorem entered_first (runCallBack this : Word) (stackSp : Nat) (stackSize : Nat)
    (room : stackSp + stackSize < 2^64) (state : State)
    (entered : Entered (initialCoctx runCallBack this stackSp stackSize) state)
    (scratch : state.regs .rax = 0) :
    FirstEntry runCallBack this stackSp stackSize state := by
  have top := stackTop_toNat stackSp stackSize room
  refine ⟨entered.rip,entered.restored kRDI .rdi rfl (by decide),?_,?_,?_⟩
  · have rbp : state.regs .rbp = stackTop stackSp stackSize :=
      entered.restored kRBP .rbp rfl (by decide)
    rw [rbp]
    exact stackTop_greatest stackSp stackSize room
  · rw [entered.rsp,initialCoctx_rsp,BitVec.toNat_add,top]
    simp only [BitVec.reduceToNat]
    omega
  · intro reg rest
    by_cases rax : reg = .rax
    · rw [rax,scratch]
    · -- every other register is loaded from an entry that setCallBack left zeroed
      have listed : ∃ index, entryReg index = some reg ∧ index ∉ [kRSP,kRBP,kRETAddr,kRDI] := by
        cases reg with
        | rax => exact absurd rfl rax
        | rdi | rbp | rsp => simp at rest
        | _ => decide
      obtain ⟨index,entry,zeroed⟩ := listed
      rw [entered.restored index reg entry fun top => rest (by simp [top])]
      exact initialCoctx_rest runCallBack this stackSp stackSize index zeroed

/-- The first swap into a coroutine enters runCallBack as a function called with the
coroutine as its argument, whatever the coroutine's context held before setCallBack. -/
theorem first_swap_enters (runCallBack this : Word) (isMain : Bool) (cb : Function)
    (co after : Coroutine Coctx Function) (room : co.stackSp + co.stackSize < 2^64)
    (accepted : co.setCallBack isMain (initialCoctx runCallBack this co.stackSp co.stackSize)
      cb = (true,after))
    (state : State) (held : Holds state.mem (state.regs .rsi) after.coctx)
    (apart : Apart (state.regs .rdi) coctxBytes (state.regs .rsi) coctxBytes)
    (clear : Apart (stackTop co.stackSp co.stackSize) 8 (state.regs .rsi) coctxBytes) :
    FirstEntry runCallBack this co.stackSp co.stackSize (exec coctxSwap state) := by
  obtain ⟨_,_,same⟩ := Coroutine.setCallBack_accepted accepted
  have coctx : after.coctx = initialCoctx runCallBack this co.stackSp co.stackSize := by
    rw [same]
  have kept : Holds (exec saveContext state).mem (state.regs .rsi) after.coctx :=
    held.congr fun address inside => save_frame state address fun outgoing =>
      apart address outgoing inside
  rw [coctx] at kept
  have entered := (swap_enters state _ kept (by rw [initialCoctx_rsp]; exact clear)).1
  exact entered_first runCallBack this co.stackSp co.stackSize room _ entered (swap_rax state)

theorem first_swap_enters_misaligned :
    FirstEntry 0x400000 0x3000 0x10008 131072
      (exec coctxSwap (startState (started 0x10008 131072).coctx)) := by
  refine first_swap_enters 0x400000 0x3000 false () (constructed 0x10008 131072)
    (started 0x10008 131072)
    (by simp [constructed]) (started_accepted 0x10008 131072)
      (startState (started 0x10008 131072).coctx)
    (startState_holds (started 0x10008 131072).coctx)
      (startState_apart (started 0x10008 131072).coctx) ?_
  have top : stackTop 0x10008 131072 = 0x30000#64 := by decide
  intro byte inside
  simp only [constructed,Coroutine.default] at inside
  rw [top] at inside
  unfold Inside at *
  simp only [startState,coctxBytes,reduceCtorEq,if_true,if_false]
  bv_omega

end MCoroutine.FirstSwap
