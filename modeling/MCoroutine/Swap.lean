import MCoroutine.Machine

/-! coctx_swap and the register array it saves and restores. -/
namespace MCoroutine.Swap
open General.ByteMemory Machine

/-- `void* regs[14]`. -/
abbrev Coctx := Fin 14 → Word

def kRBP : Fin 14 := 6
def kRDI : Fin 14 := 7
def kRSI : Fin 14 := 8
def kRETAddr : Fin 14 := 9
def kRSP : Fin 14 := 13

def coctxBytes : Nat := 112

/-- The first half of coctx_swap: the outgoing context is written to `(%rdi)`. -/
def saveContext : List Instr :=
  [.leaq 0 .rsp .rax,
   .save .rax 104 .rdi,
   .save .rbx 96 .rdi,
   .save .rcx 88 .rdi,
   .save .rdx 80 .rdi,
   .load 0 .rax .rax,
   .save .rax 72 .rdi,
   .save .rsi 64 .rdi,
   .save .rdi 56 .rdi,
   .save .rbp 48 .rdi,
   .save .r8 40 .rdi,
   .save .r9 32 .rdi,
   .save .r12 24 .rdi,
   .save .r13 16 .rdi,
   .save .r14 8 .rdi,
   .save .r15 0 .rdi,
   .xorq .rax .rax]

/-- The second half up to the push: the incoming context is read from `(%rsi)`. -/
def loadContext : List Instr :=
  [.load 48 .rsi .rbp,
   .load 104 .rsi .rsp,
   .load 0 .rsi .r15,
   .load 8 .rsi .r14,
   .load 16 .rsi .r13,
   .load 24 .rsi .r12,
   .load 32 .rsi .r9,
   .load 40 .rsi .r8,
   .load 56 .rsi .rdi,
   .load 80 .rsi .rdx,
   .load 88 .rsi .rcx,
   .load 96 .rsi .rbx,
   .leaq 8 .rsp .rsp]

/-- The return address is pushed, `%rsi` restored last, and `ret` enters the context. -/
def enterContext : List Instr :=
  [.pushq 72 .rsi,
   .load 64 .rsi .rsi,
   .ret]

def coctxSwap : List Instr := saveContext ++ loadContext ++ enterContext

def slot (base : Word) (disp : Nat) : Word := base + BitVec.ofNat 64 disp

def savedDisplacements : List Nat := [104,96,88,80,72,64,56,48,40,32,24,16,8,0]

theorem save_regs (state : State) (reg : Reg) :
    (exec saveContext state).regs reg = if reg = .rax then 0 else state.regs reg := by
  have split : saveContext = saveContext.dropLast ++ [.xorq .rax .rax] := rfl
  rw [split,exec_append]
  by_cases scratch : reg = .rax
  · simp [scratch,Instr.step]
  · have kept : ∀ instr ∈ saveContext.dropLast, instr.dest ≠ some reg := by
      cases reg with
      | rax => exact absurd rfl scratch
      | _ => decide
    rw [if_neg scratch,exec_cons,exec_nil,Instr.step_regs _ _ _
      (by simpa [Instr.dest,eq_comm] using scratch)]
    exact exec_regs _ state reg kept

private theorem save_targets (state : State) :
    targets saveContext state = savedDisplacements.map (slot (state.regs .rdi)) := by
  rw [targets_saved saveContext state .rdi (by decide) (by decide)]
  rfl

private theorem load_rsp (state : State) :
    (exec loadContext state).regs .rsp = load state.mem (slot (state.regs .rsi) 104) + 8#64 := by
  -- between the load of `%rsp` and the final leaq nothing writes it
  let rest := (loadContext.drop 2).dropLast
  have split : loadContext = [.load 48 .rsi .rbp,.load 104 .rsi .rsp] ++ rest ++
    [.leaq 8 .rsp .rsp] := rfl
  have kept : ∀ instr ∈ rest, instr.dest ≠ some .rsp := by decide
  rw [split,exec_append,exec_append,exec_cons,exec_nil,Instr.step,State.set_regs,if_pos rfl,
    State.address,
    exec_regs rest _ .rsp kept]
  simp [Instr.step,State.address,slot]

private theorem load_targets (state : State) : targets loadContext state = [] := by
  simp [loadContext,targets,Instr.target]

private theorem enter_targets (state : State) :
    targets enterContext state = [state.regs .rsp - 8#64] := by
  simp [enterContext,targets,Instr.target]

/-- Where the push of the return address stores. -/
def pushSlot (state : State) : Word :=
  (exec (saveContext ++ loadContext) state).regs .rsp - 8#64

/-- The push goes to the saved `%rsp` itself: the `leaq` and the push cancel. -/
theorem pushSlot_eq (state : State) :
    pushSlot state = load (exec saveContext state).mem (slot (state.regs .rsi) 104) := by
  rw [pushSlot,exec_append,load_rsp,save_regs]
  simp

theorem swap_targets (state : State) :
    targets coctxSwap state = savedDisplacements.map (slot (state.regs .rdi)) ++
      [pushSlot state] := by
  rw [coctxSwap,targets_append,targets_append,save_targets,load_targets,enter_targets,pushSlot]
  simp

private theorem saved_inside (base byte : Word) (disp : Nat) (member : disp ∈ savedDisplacements)
    (inside : Inside (slot base disp) 8 byte) : Inside base coctxBytes byte := by
  have room : disp + 8 ≤ coctxBytes := by
    simp only [savedDisplacements,List.mem_cons,List.not_mem_nil,or_false] at member
    unfold coctxBytes
    omega
  exact inside_part base byte disp 8 coctxBytes room inside

theorem save_frame (state : State) (byte : Word)
    (outside : ¬ Inside (state.regs .rdi) coctxBytes byte) :
    (exec saveContext state).mem byte = state.mem byte := by
  apply exec_frame
  rintro ⟨base,member,inside⟩
  rw [save_targets] at member
  obtain ⟨disp,listed,rfl⟩ := List.mem_map.mp member
  exact outside (saved_inside _ _ disp listed inside)

theorem swap_stores (state : State) (byte : Word) (written : Stores coctxSwap state byte) :
    Inside (state.regs .rdi) coctxBytes byte ∨ Inside (pushSlot state) 8 byte := by
  obtain ⟨base,member,inside⟩ := written
  rw [swap_targets,List.mem_append,List.mem_singleton] at member
  rcases member with saved | rfl
  · obtain ⟨disp,listed,rfl⟩ := List.mem_map.mp saved
    exact Or.inl (saved_inside _ _ disp listed inside)
  · exact Or.inr inside

theorem swap_stores_push (state : State) (byte : Word) (inside : Inside (pushSlot state) 8 byte) :
    Stores coctxSwap state byte :=
  ⟨pushSlot state,by rw [swap_targets]; simp,inside⟩

theorem pushSlot_of_holds (state : State) (coctx : Coctx)
    (apart : Apart (state.regs .rdi) coctxBytes (state.regs .rsi) coctxBytes)
    (held : Holds state.mem (state.regs .rsi) coctx) : pushSlot state = coctx kRSP := by
  rw [pushSlot_eq]
  have kept : Holds (exec saveContext state).mem (state.regs .rsi) coctx :=
    held.congr fun address inside =>
      save_frame state address fun outgoing =>
        apart address outgoing (by simpa [coctxBytes] using inside)
  exact kept kRSP

/-- The register that each entry of the array carries; the entry between them is the
return address, which the caller's call instruction left at its `%rsp`. -/
def entryReg : Fin 14 → Option Reg
  | 0 => some .r15
  | 1 => some .r14
  | 2 => some .r13
  | 3 => some .r12
  | 4 => some .r9
  | 5 => some .r8
  | 6 => some .rbp
  | 7 => some .rdi
  | 8 => some .rsi
  | 9 => none
  | 10 => some .rdx
  | 11 => some .rcx
  | 12 => some .rbx
  | 13 => some .rsp

/-- The array that describes a state about to run coctx_swap. -/
def suspendedCoctx (state : State) : Coctx :=
  fun index => ((entryReg index).map state.regs).getD (load state.mem (state.regs .rsp))

/-- The array coctx_swap restores from: with one array for both it is the one just saved. -/
def readCoctx (state : State) : Coctx :=
  if state.regs .rsi = state.regs .rdi then suspendedCoctx state
  else fun index => load state.mem (slot (state.regs .rsi) (8 * index.val))

private theorem saved_spread :
    savedDisplacements.Pairwise fun first second => first + 8 ≤ second ∨ second + 8 ≤ first := by
  decide

private theorem save_word (front back : List Instr) (src : Reg) (disp : Nat) (state : State)
    (split : saveContext = front ++ .save src disp .rdi::back) :
    load (exec saveContext state).mem (slot (state.regs .rdi) disp) =
      (exec front state).regs src := by
  have kept : ∀ instr ∈ saveContext, instr.dest ≠ some .rdi := by decide
  have stores : ∀ instr ∈ saveContext, instr.storesBy .rdi = true := by decide
  have listed : saveContext.filterMap (Instr.saved .rdi) = savedDisplacements := rfl
  have small : ∀ saved ∈ savedDisplacements, saved < 2^32 := by decide
  rw [← listed] at small
  have spread := listed ▸ saved_spread
  rw [split] at kept stores small spread ⊢
  exact exec_saved front back src .rdi disp state kept
    (fun instr member => stores instr (by simp [member])) spread small

private theorem saved_plain : ∀ index : Fin 14, ∀ reg ∈ entryReg index, reg = .rsp ∨
    reg ≠ .rax ∧ Instr.save reg (8 * index.val) .rdi ∈ saveContext := by
  decide

private theorem save_entry (state : State) (index : Fin 14) (reg : Reg)
    (entry : entryReg index = some reg) (plain : reg ≠ .rsp) :
    load (exec saveContext state).mem (slot (state.regs .rdi) (8 * index.val)) =
      state.regs reg := by
  obtain ⟨other,member⟩ := (saved_plain index reg entry).resolve_left plain
  obtain ⟨front,back,split⟩ := List.append_of_mem member
  rw [save_word front back reg _ state split]
  -- only `%rax` is written on the way
  have scratch : ∀ instr ∈ saveContext, ∀ dest ∈ instr.dest, dest = .rax := by decide
  rw [split,List.forall_mem_append] at scratch
  exact exec_regs front state reg fun instr listed written =>
    other (scratch.1 instr listed reg written)

private theorem save_rsp (state : State) :
    load (exec saveContext state).mem (slot (state.regs .rdi) 104) = state.regs .rsp := by
  rw [save_word [.leaq 0 .rsp .rax] _ .rax 104 state rfl]
  simp [Instr.step,State.address]

private theorem save_return (state : State)
    (apart : Apart (state.regs .rsp) 8 (state.regs .rdi) coctxBytes) :
    load (exec saveContext state).mem (slot (state.regs .rdi) 72) = load state.mem
      (state.regs .rsp) := by
  let front := saveContext.take 5
  have place : (exec front state).regs .rax = state.regs .rsp := by
    simp [front,saveContext,Instr.step,State.address]
  have split : saveContext = (front ++ [.load 0 .rax .rax]) ++ .save .rax 72
    .rdi::saveContext.drop 7 := rfl
  rw [save_word _ _ .rax 72 state split,exec_append,exec_cons,exec_nil,Instr.step,
    State.set_regs,if_pos rfl,
    State.address,place]
  rw [BitVec.add_zero,load_frame front state]
  have words : targets front state = [104,96,88,80].map (slot (state.regs .rdi)) := by
    rw [targets_saved front state .rdi (by decide) (by decide)]
    rfl
  intro stored member
  rw [words] at member
  obtain ⟨disp,listed,rfl⟩ := List.mem_map.mp member
  have early : ∀ disp ∈ [104,96,88,80], disp + 8 ≤ coctxBytes := by decide
  exact (apart.part disp 8 (early disp listed)).symm

theorem save_holds (state : State)
    (apart : Apart (state.regs .rsp) 8 (state.regs .rdi) coctxBytes) :
    Holds (exec saveContext state).mem (state.regs .rdi) (suspendedCoctx state) := by
  intro index
  cases entry : entryReg index with
  | none =>
    have middle : ∀ index : Fin 14, entryReg index = none → index = 9 := by decide
    obtain rfl := middle index entry
    rw [suspendedCoctx,entry]
    exact save_return state apart
  | some reg =>
    rw [suspendedCoctx,entry]
    by_cases top : reg = .rsp
    · have last : ∀ index : Fin 14, entryReg index = some .rsp → index = 13 := by decide
      subst top
      obtain rfl := last index entry
      exact save_rsp state
    · exact save_entry state index reg entry top

theorem save_reads (state : State)
    (same : state.regs .rsi = state.regs .rdi ∨ Apart (state.regs .rdi) coctxBytes
      (state.regs .rsi) coctxBytes)
    (call : state.regs .rsi = state.regs .rdi →
      Apart (state.regs .rsp) 8 (state.regs .rdi) coctxBytes) :
    Holds (exec saveContext state).mem (state.regs .rsi) (readCoctx state) := by
  by_cases shared : state.regs .rsi = state.regs .rdi
  · rw [readCoctx,if_pos shared,shared]
    exact save_holds state (call shared)
  · rw [readCoctx,if_neg shared]
    have before : Holds state.mem (state.regs .rsi)
        fun index : Fin 14 => load state.mem (slot (state.regs .rsi) (8 * index.val)) :=
          fun _ => rfl
    exact before.congr fun address inside =>
      save_frame state address fun outgoing => same.resolve_left shared address outgoing inside

private theorem loaded_plain : ∀ index : Fin 14, ∀ reg ∈ entryReg index, reg = .rsp ∨ reg = .rsi ∨
    Instr.load (8 * index.val) .rsi reg ∈ loadContext := by
  decide

private theorem load_entry (state : State) (index : Fin 14) (reg : Reg)
    (member : Instr.load (8 * index.val) .rsi reg ∈ loadContext) (plain : reg ≠ .rsp) :
    (exec loadContext state).regs reg = load state.mem
      (slot (state.regs .rsi) (8 * index.val)) := by
  obtain ⟨front,back,split⟩ := List.append_of_mem member
  have kept : ∀ instr ∈ loadContext, instr.dest ≠ some .rsi := by decide
  have fresh : loadContext.Pairwise fun first second => first.dest = some .rsp ∨
    second.dest ≠ first.dest := by decide
  have unstored := load_targets state
  rw [split,targets_append,List.append_eq_nil_iff] at unstored
  rw [split] at kept fresh ⊢
  have later := (List.pairwise_cons.mp (List.pairwise_append.mp fresh).2.1).1
  refine exec_loaded front back .rsi reg _ state
    (fun instr listed => kept instr (by simp [listed])) ?_ unstored.1
  intro instr listed
  rcases later instr listed with top | other
  · exact absurd (Option.some.inj top) plain
  · exact other

/-- The state in which a context goes on: at its return address, with the registers
of its array and the stack pointer past the return address. -/
structure Entered (coctx : Coctx) (state : State) : Prop where
  rip : state.rip = coctx kRETAddr
  rsp : state.regs .rsp = coctx kRSP + 8#64
  restored : ∀ index reg, entryReg index = some reg → reg ≠ .rsp → state.regs reg = coctx index

/-- The push of the return address leaves the incoming array readable, so that `%rsi`
is restored after it, and the `ret` takes the pushed word. -/
private theorem enter_state (state : State) (coctx : Coctx)
    (held : Holds state.mem (state.regs .rsi) coctx)
    (clear : Apart (coctx kRSP) 8 (state.regs .rsi) coctxBytes)
    (top : state.regs .rsp = coctx kRSP + 8#64) :
    (exec enterContext state).rip = coctx kRETAddr ∧
      (exec enterContext state).mem = store state.mem (coctx kRSP) (coctx kRETAddr) ∧
      ∀ reg, (exec enterContext state).regs reg =
        if reg = .rsp then coctx kRSP + 8#64 else if reg = .rsi then coctx kRSI
          else state.regs reg := by
  have back : load state.mem (state.address 72 .rsi) = coctx kRETAddr := held kRETAddr
  have under : state.regs .rsp - 8#64 = coctx kRSP := by
    rw [top,BitVec.add_sub_cancel]
  let pushed : State :=
    { state.set .rsp (coctx kRSP) with mem := store state.mem (coctx kRSP) (coctx kRETAddr) }
  have push : (Instr.pushq 72 .rsi).step state = pushed := by
    simp only [Instr.step,back,under,pushed]
  have stays : load pushed.mem (pushed.address 64 .rsi) = coctx kRSI := by
    have place : pushed.address 64 .rsi = state.regs .rsi + BitVec.ofNat 64 64 := by
      simp [pushed,State.address]
    rw [place]
    exact (load_store_apart _ _ _ _ (clear.part 64 8 (by decide))).trans (held kRSI)
  have onTop : load pushed.mem (coctx kRSP) = coctx kRETAddr := load_store _ _ _
  have restore : (Instr.load 64 .rsi .rsi).step pushed = pushed.set .rsi (coctx kRSI) := by
    rw [Instr.step,stays]
  have rsp : (pushed.set .rsi (coctx kRSI)).regs .rsp = coctx kRSP := by
    simp [pushed]
  rw [enterContext,exec_cons,exec_cons,exec_cons,exec_nil,push,restore]
  refine ⟨?_,rfl,?_⟩
  · rw [Instr.step,rsp]
    exact onTop
  · intro reg
    rw [Instr.step,rsp]
    change ((pushed.set .rsi (coctx kRSI)).set .rsp (coctx kRSP + 8#64)).regs reg = _
    simp only [State.set_regs]
    split
    · rfl
    · split
      · rfl
      · rename_i other _
        simp [pushed,other]

/-- The whole swap, from the array that is in memory once the outgoing one is saved. -/
theorem swap_enters (state : State) (coctx : Coctx)
    (held : Holds (exec saveContext state).mem (state.regs .rsi) coctx)
    (clear : Apart (coctx kRSP) 8 (state.regs .rsi) coctxBytes) :
    Entered coctx (exec coctxSwap state) ∧
      (exec coctxSwap state).mem = store (exec saveContext state).mem (coctx kRSP)
        (coctx kRETAddr) := by
  let saved := exec saveContext state
  let loaded := exec loadContext saved
  have run : exec coctxSwap state = exec enterContext loaded := by
    rw [coctxSwap,exec_append,exec_append]
  have incoming : saved.regs .rsi = state.regs .rsi := save_regs state .rsi
  have still : loaded.regs .rsi = state.regs .rsi := by
    rw [← incoming]
    exact exec_regs loadContext saved .rsi (by decide)
  have mem : loaded.mem = saved.mem := by
    funext byte
    apply exec_frame
    rintro ⟨base,member,_⟩
    simp [load_targets] at member
  have top : loaded.regs .rsp = coctx kRSP + 8#64 := by
    rw [load_rsp saved,incoming]
    exact congrArg (· + 8#64) (held kRSP)
  have arrays : Holds loaded.mem (loaded.regs .rsi) coctx := by
    rw [mem,still]
    exact held
  obtain ⟨rip,memory,regs⟩ := enter_state loaded coctx arrays (by rw [still]; exact clear) top
  rw [run]
  refine ⟨⟨rip,by rw [regs,if_pos rfl],?_⟩,by rw [memory,mem]⟩
  intro index reg entry plain
  rw [regs,if_neg plain]
  split
  · rename_i source
    subst source
    have only : ∀ index : Fin 14, entryReg index = some .rsi → index = kRSI := by decide
    rw [only index entry]
  · rename_i other
    have member := ((loaded_plain index reg entry).resolve_left plain).resolve_left other
    rw [load_entry saved index reg member plain,incoming]
    exact held index

end MCoroutine.Swap
