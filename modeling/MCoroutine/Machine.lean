import MCoroutine.General.ByteMemory
import Mathlib.Data.List.Pairwise
import Mathlib.Logic.Function.Basic

/-! The x86-64 instructions of coctx_swap over registers and byte memory, and the
addresses a program stores to. -/
namespace MCoroutine.Machine
open General.ByteMemory

inductive Reg
  | rax | rbx | rcx | rdx | rsi | rdi | rbp | rsp | r8 | r9 | r12 | r13 | r14 | r15
  deriving DecidableEq, Repr

structure State where
  regs : Reg → Word
  rip : Word
  mem : Memory

/-- Operands in the order of the assembly text: `load disp base dest` is
`movq disp(%base), %dest` and `save src disp base` is `movq %src, disp(%base)`. -/
inductive Instr
  | leaq (disp : Nat) (base dest : Reg)
  | load (disp : Nat) (base dest : Reg)
  | save (src : Reg) (disp : Nat) (base : Reg)
  | xorq (src dest : Reg)
  | pushq (disp : Nat) (base : Reg)
  | ret
  deriving DecidableEq, Repr

namespace State

def set (state : State) (reg : Reg) (value : Word) : State :=
  { state with regs := Function.update state.regs reg value }

/-- The address `disp(%base)`. -/
def address (state : State) (disp : Nat) (base : Reg) : Word :=
  state.regs base + BitVec.ofNat 64 disp

@[simp] theorem set_regs (state : State) (reg other : Reg) (value : Word) :
    (state.set reg value).regs other = if other = reg then value else state.regs other := by
  simp [set,Function.update_apply]

@[simp] theorem set_mem (state : State) (reg : Reg) (value : Word) :
    (state.set reg value).mem = state.mem := rfl

@[simp] theorem set_rip (state : State) (reg : Reg) (value : Word) :
    (state.set reg value).rip = state.rip := rfl

end State

namespace Instr

def step (state : State) : Instr → State
  | leaq disp base dest => state.set dest (state.address disp base)
  | load disp base dest => state.set dest
      (General.ByteMemory.load state.mem (state.address disp base))
  | save src disp base => { state with mem := store state.mem (state.address disp base) (state.regs src) }
  | xorq src dest => state.set dest (state.regs dest ^^^ state.regs src)
  | pushq disp base =>
    let value := General.ByteMemory.load state.mem (state.address disp base)
    let top := state.regs .rsp - 8#64
    { state.set .rsp top with mem := store state.mem top value }
  | ret =>
    { state.set .rsp (state.regs .rsp + 8#64) with rip := General.ByteMemory.load state.mem (state.regs .rsp) }

def target (state : State) : Instr → Option Word
  | save _ disp base => some (state.address disp base)
  | pushq _ _ => some (state.regs .rsp - 8#64)
  | _ => none

def dest : Instr → Option Reg
  | leaq _ _ dest => some dest
  | load _ _ dest => some dest
  | save _ _ _ => none
  | xorq _ dest => some dest
  | pushq _ _ => some .rsp
  | ret => some .rsp

def saved (base : Reg) : Instr → Option Nat
  | save _ disp other => if other = base then some disp else none
  | _ => none

def storesBy (base : Reg) : Instr → Bool
  | save _ _ other => other = base
  | pushq _ _ => false
  | _ => true

theorem step_regs (state : State) (instr : Instr) (reg : Reg) (other : instr.dest ≠ some reg) :
    (instr.step state).regs reg = state.regs reg := by
  cases instr with
  | save => rfl
  | leaq | load | xorq | pushq | ret =>
    simp only [dest,ne_eq,Option.some.injEq] at other
    simp [step,Ne.symm other]

private theorem target_saved (state : State) (instr : Instr) (base : Reg)
    (relative : instr.storesBy base = true) :
    instr.target state = (instr.saved base).map fun disp => state.address disp base := by
  cases instr with
  | save src disp other =>
    obtain rfl : other = base := by simpa [storesBy] using relative
    simp [target,saved]
  | pushq => cases relative
  | leaq | load | xorq | ret => rfl

private theorem step_mem (state : State) (instr : Instr) (byte : Word)
    (outside : ∀ base, instr.target state = some base → ¬ Inside base 8 byte) :
    (instr.step state).mem byte = state.mem byte := by
  cases instr with
  | save src disp base => exact store_outside _ _ _ _ (outside _ rfl)
  | pushq disp base => exact store_outside _ _ _ _ (outside _ rfl)
  | leaq | load | xorq | ret => rfl

end Instr

def exec (program : List Instr) (state : State) : State := program.foldl Instr.step state

def targets : List Instr → State → List Word
  | [],_ => []
  | instr::rest,state => (instr.target state).toList ++ targets rest (instr.step state)

def Stores (program : List Instr) (state : State) (byte : Word) : Prop :=
  ∃ base ∈ targets program state, Inside base 8 byte

@[simp] theorem exec_nil (state : State) : exec [] state = state := rfl

@[simp] theorem exec_cons (instr : Instr) (rest : List Instr) (state : State) :
    exec (instr::rest) state = exec rest (instr.step state) := rfl

theorem exec_append (first second : List Instr) (state : State) :
    exec (first ++ second) state = exec second (exec first state) := List.foldl_append

theorem targets_append (first second : List Instr) (state : State) :
    targets (first ++ second) state = targets first state ++ targets second (exec first state) := by
  induction first generalizing state with
  | nil => rfl
  | cons instr rest ih => simp only [List.cons_append,targets,exec_cons,ih,List.append_assoc]

theorem targets_saved (program : List Instr) (state : State) (base : Reg)
    (kept : ∀ instr ∈ program, instr.dest ≠ some base)
    (stores : ∀ instr ∈ program, instr.storesBy base = true) :
    targets program state = (program.filterMap (Instr.saved base)).map fun disp =>
      state.address disp base := by
  induction program generalizing state with
  | nil => rfl
  | cons instr rest ih =>
    rw [List.forall_mem_cons] at kept stores
    have same : (instr.step state).regs base = state.regs base := instr.step_regs state base kept.1
    rw [targets,ih _ kept.2 stores.2,instr.target_saved state base stores.1]
    simp only [State.address,same]
    cases found : instr.saved base with
    | none => simp [found]
    | some disp => simp [found]

theorem exec_regs (program : List Instr) (state : State) (reg : Reg)
    (kept : ∀ instr ∈ program, instr.dest ≠ some reg) :
    (exec program state).regs reg = state.regs reg := by
  induction program generalizing state with
  | nil => rfl
  | cons instr rest ih =>
    rw [List.forall_mem_cons] at kept
    rw [exec_cons,ih _ kept.2,instr.step_regs state reg kept.1]

theorem exec_frame (program : List Instr) (state : State) (byte : Word)
    (untouched : ¬ Stores program state byte) : (exec program state).mem byte = state.mem byte := by
  induction program generalizing state with
  | nil => rfl
  | cons instr rest ih =>
    have later : ¬ Stores rest (instr.step state) byte := by
      rintro ⟨base,member,inside⟩
      exact untouched ⟨base,by simp [targets,member],inside⟩
    rw [exec_cons,ih _ later]
    exact instr.step_mem state byte fun base stored inside =>
      untouched ⟨base,by simp [targets,stored],inside⟩

theorem load_frame (program : List Instr) (state : State) (base : Word)
    (apart : ∀ stored ∈ targets program state, Apart stored 8 base 8) :
    load (exec program state).mem base = load state.mem base := by
  apply load_congr
  intro address inside
  apply exec_frame
  rintro ⟨stored,member,written⟩
  exact apart stored member address written inside

/-- A program that stores relative to a register it does not write, and no word twice,
leaves in each word what the source register held at that store. -/
theorem exec_saved (front back : List Instr) (src base : Reg) (disp : Nat) (state : State)
    (kept : ∀ instr ∈ front ++ .save src disp base::back, instr.dest ≠ some base)
    (stores : ∀ instr ∈ back, instr.storesBy base = true)
    (spread : ((front ++ .save src disp base::back).filterMap (Instr.saved base)).Pairwise
      fun first second => first + 8 ≤ second ∨ second + 8 ≤ first)
    (small : ∀ saved ∈ (front ++ .save src disp base::back).filterMap (Instr.saved base),
      saved < 2^32) :
    load (exec (front ++ .save src disp base::back) state).mem (state.address disp base) =
      (exec front state).regs src := by
  rw [List.forall_mem_append,List.forall_mem_cons] at kept
  simp only [List.filterMap_append,List.filterMap_cons,Instr.saved,if_true] at spread small
  let middle := (Instr.save src disp base).step (exec front state)
  have held : middle.regs base = state.regs base := exec_regs front state base kept.1
  rw [exec_append,exec_cons,load_frame back middle]
  · have place : (exec front state).address disp base = state.address disp base := by
      rw [State.address,exec_regs front state base kept.1,State.address]
    rw [← place]
    exact load_store _ _ _
  · intro stored member
    rw [targets_saved back middle base kept.2.2 stores] at member
    obtain ⟨other,listed,rfl⟩ := List.mem_map.mp member
    rw [State.address,held,State.address]
    have far := (List.pairwise_cons.mp (List.pairwise_append.mp spread).2.1).1 other listed
    exact apart_words _ other disp far.symm
      ⟨small other (by simp [listed]),small disp (by simp)⟩

/-- A program that reads relative to a register it does not write leaves in a
destination that nothing later overwrites the word it loaded. -/
theorem exec_loaded (front back : List Instr) (base dest : Reg) (disp : Nat) (state : State)
    (kept : ∀ instr ∈ front, instr.dest ≠ some base)
    (later : ∀ instr ∈ back, instr.dest ≠ some dest) (unstored : targets front state = []) :
    (exec (front ++ .load disp base dest::back) state).regs dest = load state.mem
      (state.address disp base) := by
  rw [exec_append,exec_cons,exec_regs back _ dest later,Instr.step,State.set_regs,if_pos rfl,State.address,
    exec_regs front state base kept,load_frame front state _ (by simp [unstored])]
  rfl

end MCoroutine.Machine
