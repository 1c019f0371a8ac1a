import MCoroutine.PoolStructure
import MCoroutine.RegisterArrays

/-! The stacks of a process with its byte memory. Main code works on the stack of its thread
and a callback on that of its coroutine, while the library writes to register arrays and to
one word at a saved stack pointer. -/
namespace MCoroutine.Stacks
open General.ByteMemory General.Runs Machine Swap FirstSwap Switching SlotRuns Handout
  RegisterArrays

variable {Body : Type}

structure Ground where
  base : Nat → Word
  size : Nat → Nat
  apart : ∀ thread other, thread ≠ other → Apart (base thread) (size thread)
    (base other) (size other)

inductive Owner
  | thread (thread : Nat)
  | coroutine (co : Nat)

/-- A stack without its lowest word, which holds the first return address of the coroutine
below in memory. -/
def Live (object : Coroutine (Context Body) Body) (byte : Word) : Prop :=
  Inside (BitVec.ofNat 64 (object.stackSp + 8)) (object.stackSize - 8) byte

/-- A stack with the word behind it. -/
def Span (object : Coroutine (Context Body) Body) (byte : Word) : Prop :=
  Inside (BitVec.ofNat 64 object.stackSp) (object.stackSize + 8) byte

def Region (ground : Ground) (store : Store Body) : Owner → Word → Prop
  | .thread thread,byte => Inside (ground.base thread) (ground.size thread) byte
  | .coroutine co,byte => ∃ object, store.objects[co]? = some object ∧ Live object byte

/-- The threads inside a callback and the suspended coroutines that no thread executes. -/
def Absent (process : Process Body) : Owner → Prop
  | .thread thread => ∃ co body, (process.threads thread).running = .callBack co body
  | .coroutine co => ¬ Executing process co ∧
      ∃ object c rest, process.store.objects[co]? = some object ∧ object.coctx = .callBack c rest

def departure (history : List (Event Body)) : Owner → Option State
  | .thread thread => lastResume history thread
  | .coroutine co =>
    match content history co with
    | .saved call => some call
    | _ => none

/-- The memory that the code before the next call of the library or before the swap leaves. -/
def behind (after : Joint Body) : Event Body → Memory
  | .call _ => after.mem
  | .swap _ call => call.mem

/-- Code outside the library leaves the stacks alone that nobody runs on, and calls with its
stack pointer in the stack it runs on. Register arrays and stacks share no byte. -/
structure Orderly (layout : Layout) (ground : Ground) (before : Joint Body) (event : Event Body)
    (after : Joint Body) :
    Prop where
  code : ∀ owner, Absent before.process owner →
    ∀ byte, Region ground before.process.store owner byte →
    behind after event byte = written layout before.process after.process event.plain
      before.mem byte
  arrays : ∀ co, co < after.process.store.objects.length → ∀ owner byte,
    Region ground after.process.store owner byte → ¬ Inside (layout.array co) coctxBytes byte
  grounds : ∀ (thread co : Nat) (object : Coroutine (Context Body) Body) (byte : Word),
    after.process.store.objects[co]? = some object →
    Region ground after.process.store (.thread thread) byte → ¬ Span object byte
  resumes : ∀ thread co call, event = .swap (.resume thread co) call →
    (∀ byte, Inside (call.regs .rsp) 8 byte → Region ground after.process.store
      (.thread thread) byte) ∧
      ∀ object, before.process.store.objects[co]? = some object → 16 ≤ object.stackSize
  yields : ∀ thread co call, event = .swap (.yield thread co) call →
    ∀ byte, Inside (call.regs .rsp) 8 byte → Region ground after.process.store (.coroutine co) byte

section
variable {one two : Coroutine (Context Body) Body}

/-- The first word of a callback stands in its own stack or right behind it. -/
theorem top_span (room : 16 ≤ one.stackSize) (small : one.stackSize < 2^32) {byte : Word}
    (inside : Inside (stackTop one.stackSp one.stackSize) 8 byte) : Span one byte := by
  have distance := stackTop_distance one.stackSp one.stackSize room small
  have split : byte - BitVec.ofNat 64 one.stackSp =
      byte - stackTop one.stackSp one.stackSize + (stackTop one.stackSp one.stackSize - BitVec.ofNat
          64 one.stackSp) := by
    bv_omega
  unfold Inside at inside
  rw [Span,Inside,split,BitVec.toNat_add,distance]
  omega

theorem live_span (small : one.stackSize < 2^32) {byte : Word} (live : Live one byte) :
    Span one byte := by
  unfold Live Span Inside at *
  have split : byte - BitVec.ofNat 64 one.stackSp = byte - BitVec.ofNat 64
      (one.stackSp + 8) + 8#64 := by
    rw [BitVec.ofNat_add]
    bv_omega
  have eight : (8#64).toNat = 8 := rfl
  rw [split,BitVec.toNat_add,eight]
  omega

/-- Disjoint stacks: neither one with the word behind it reaches the other but for its
lowest word. -/
theorem spans_spare (below : one.stackSp + one.stackSize < 2^64)
    (bound : two.stackSp + two.stackSize < 2^64)
    (disjoint : one.stackSp + one.stackSize ≤ two.stackSp ∨
      two.stackSp + two.stackSize ≤ one.stackSp)
    {byte : Word} (span : Span one byte) : ¬ Live two byte := by
  intro live
  unfold Live Span Inside at *
  rw [BitVec.toNat_sub,BitVec.toNat_ofNat] at live span
  have limit := byte.isLt
  omega

end

section
variable {next : Body → Option Body} {past : List (Process.Event Body)} {process : Process Body}
  (run : Run (fun process => process = Process.initial) Sole (Process.Step next) past process)
include run

private theorem stack_slot {co : Nat} {object : Coroutine (Context Body) Body}
    (located : process.store.objects[co]? = some object) (stack : object.stackSp ≠ 0) :
    ∃ pool, process.pools = [pool] ∧ PoolStructure.Housed process.store.identities pool ∧
      ∃ i, 1 ≤ i ∧ pool.refs[i]? = some co ∧
        PoolStructure.InSlot process.store.identities pool i object.identity := by
  have high : Numbering.stacked process.store.identities co = true :=
    (stacked_iff _ co).mpr ⟨object,located,stack⟩
  rcases reached_served (sole_unshared run) with ⟨_,empty⟩ | ⟨pool,only,serves⟩
  · rw [empty co] at high
    cases high
  · have member : pool ∈ process.pools := by simp [only]
    have housed := PoolStructure.reached_housed (run.weaken fun _ _ _ _ _ sole _ =>
      sole.single) pool member
    obtain ⟨i,slot⟩ := List.mem_iff_getElem?.mp (serves.inside co high)
    have shape := (reached_structured run).shape pool member
    refine ⟨pool,only,housed,i,?_,slot,co,slot,identities_located located⟩
    rcases Nat.eq_zero_or_pos i with rfl | positive
    · obtain ⟨first,origin,bare⟩ := shape.origin
      obtain rfl : first = co := Option.some.inj (origin.symm.trans slot)
      rw [high] at bare
      cases bare
    · exact positive

theorem stack_bounds {co : Nat} {object : Coroutine (Context Body) Body}
    (located : process.store.objects[co]? = some object) (stack : object.stackSp ≠ 0) :
    object.stackSize < 2^32 ∧ object.stackSp + object.stackSize < 2^64 := by
  obtain ⟨pool,_,housed,i,positive,_,inside⟩ := stack_slot run located stack
  obtain ⟨size,start,index,used,address⟩ := PoolStructure.housed_stack housed positive inside
  obtain ⟨listed,bound⟩ := housed.backed.sound.used_index used
  have whole := housed.backed.sound.located start listed
  have part := MemoryRuns.block_inside housed.fits start bound
  have fits := housed.fits
  change object.stackSize = pool.stackSize at size
  change object.stackSp = _ at address
  rw [MemoryPool.Fits,housed.backed.blockSize,housed.backed.blockGroupSize] at fits
  rw [housed.backed.blockSize] at part
  omega

theorem stacks_disjoint {j k : Nat} {one two : Coroutine (Context Body) Body}
    (first : process.store.objects[j]? = some one) (second : process.store.objects[k]? = some two)
    (stack : one.stackSp ≠ 0) (high : two.stackSp ≠ 0) (other : j ≠ k) :
    one.stackSp + one.stackSize ≤ two.stackSp ∨ two.stackSp + two.stackSize ≤ one.stackSp := by
  obtain ⟨pool,only,housed,i,positive,slot,inside⟩ := stack_slot run first stack
  obtain ⟨same,again,_,l,behind,place,within⟩ := stack_slot run second high
  obtain rfl : pool = same := by simpa using only.symm.trans again
  have apart : i ≠ l := by
    rintro rfl
    exact other (Option.some.inj (slot.symm.trans place))
  exact (PoolStructure.housed_disjoint housed positive behind apart inside within).2

end

section
variable {layout : Layout} {past : List (Event Body)} {process : Process Body} {call : State}

private theorem swap_pushes {outgoing incoming : Nat} {target : Coroutine (Context Body) Body}
    (stored : Stored layout past process call.mem) (other : incoming ≠ outgoing)
    (source : outgoing < process.store.objects.length)
    (located : process.store.objects[incoming]? = some target) (saved : target.coctx ≠ .zero)
    (rdi : call.regs .rdi = layout.array outgoing) (rsi : call.regs .rsi = layout.array incoming) :
    ∃ words, image layout past incoming target = some words ∧
      ∀ byte, ¬ Inside (layout.array outgoing) coctxBytes byte →
        (exec coctxSwap call).mem byte = store call.mem (words kRSP) (words kRETAddr) byte := by
  have bound := (List.getElem?_eq_some_iff.mp located).1
  obtain ⟨words,same,held,clear⟩ := stored.arrays incoming target located
  have kept : Holds (exec saveContext call).mem (call.regs .rsi) words := by
    rw [rsi]
    refine held.congr fun byte inside => save_frame call byte fun written => ?_
    rw [rdi] at written
    exact stored.apart source bound (Ne.symm other) byte written inside
  obtain ⟨_,memory⟩ := swap_enters call words kept (by rw [rsi]; exact clear saved incoming bound)
  refine ⟨words,same,fun byte outside => ?_⟩
  have unsaved : (exec saveContext call).mem byte = call.mem byte :=
    save_frame call byte (by rw [rdi]; exact outside)
  rw [memory]
  by_cases inside : Inside (words kRSP) 8 byte
  · rw [store_inside _ _ _ _ inside,store_inside _ _ _ _ inside]
  · rw [store_outside _ _ _ _ inside,store_outside _ _ _ _ inside,unsaved]

end

theorem store_back {memory kept : Memory} {base byte : Word} (same : memory byte = kept byte) :
    store memory base (load kept base) byte = kept byte := by
  by_cases inside : Inside base 8 byte
  · rw [store_inside _ _ _ _ inside,← store_inside kept base
      (load kept base) byte inside,store_load]
  · rw [store_outside _ _ _ _ inside,same]

theorem written_outside {layout : Layout} {before after : Process Body} {event : Process.Event Body}
    {mem : Memory} (longer : before.store.objects.length ≤ after.store.objects.length) {byte : Word}
    (outside : ∀ co, co < after.store.objects.length → ¬ Inside (layout.array co) coctxBytes byte) :
    written layout before after event mem byte = mem byte := by
  have constructed : construct layout before.store.objects.length
      (after.store.objects.length - before.store.objects.length) mem byte = mem byte :=
    construct_outside layout _ _ mem byte fun co _ bound => outside co (by omega)
  cases event with
  | setCallBack thread co cb accepted =>
    cases accepted with
    | true =>
      rw [written]
      cases located : after.store.objects[co]? with
      | none => exact constructed
      | some object =>
        refine (place_outside _ _ _ byte ?_).trans constructed
        exact outside co (List.getElem?_eq_some_iff.mp located).1
    | false => exact constructed
  | _ => exact constructed

private theorem keeps_live {store after : Store Body} (keeps : Keeps store after) {k : Nat}
    {found : Coroutine (Context Body) Body} (located : after.objects[k]? = some found)
    (live : found.coctx ≠ .zero) :
    ∃ object, store.objects[k]? = some object ∧ found.coctx = object.coctx ∧
      found.stackSp = object.stackSp ∧
      found.stackSize = object.stackSize := by
  rcases Nat.lt_or_ge k store.objects.length with inside | beyond
  · exact keeps.old k found located inside
  · exact absurd (keeps.fresh k found located beyond) live

section
variable {next : Body → Option Body} {plain : List (Process.Event Body)}
  {process after : Process Body} {event : Process.Event Body}

private theorem suspended_before (effect : Effect next plain process event after)
    (coherent : Coherent plain process) {k c : Nat} {rest : Body}
    {found : Coroutine (Context Body) Body} (located : after.store.objects[k]? = some found)
    (suspended : found.coctx = .callBack c rest) (stayed : ∀ thread, event ≠ .yield thread k) :
    ∃ object, process.store.objects[k]? = some object ∧ found.coctx = object.coctx ∧
      found.stackSp = object.stackSp ∧
      found.stackSize = object.stackSize := by
  have live : found.coctx ≠ .zero := by simp [suspended]
  cases effect with
  | grow _ _ fresh _ threads objects unused =>
    exact keeps_live (.append objects fun object member => (unused object member).1) located live
  | attach _ _ thread _ reached =>
    refine keeps_live ?_ located live
    exact reached (fun middle => Keeps process.store middle.store)
      (fun _ _ => Keeps.makeMain thread) (fun _ _ _ _ kept => kept) (.refl _)
  | release thread index co pool result store there call =>
    exact keeps_live (keeps_release call) located live
  | accept thread co cb accepted _ answer =>
    have keeps := Keeps.getMainCoroutine process thread
    obtain ⟨main,object,_,there,⟨_,_,_,rfl⟩ | ⟨_,_,rfl⟩⟩ :=
      Process.setCallBack_effect thread co cb process after accepted answer
    · rw [Store.modify_at] at located
      by_cases same : k = co
      · subst k
        rw [if_pos rfl,there] at located
        cases located
        cases suspended
      · rw [if_neg same] at located
        exact keeps_live keeps located live
    · exact keeps_live keeps located live
  | enter thread co main object body _ entered =>
    have keeps := Keeps.attach process thread
    by_cases caller : k = main
    · subst k
      obtain ⟨host,there,_⟩ := (coherent.attach thread).mains thread main entered.owner
      rw [entered.caller_object there] at located
      cases located
      cases suspended
    · by_cases same : k = co
      · subst k
        rcases entered.target with ⟨there,_⟩ | ⟨there,start,_⟩
        · rw [there] at located
          cases located
          exact ⟨_,entered.present,rfl,rfl,rfl⟩
        · rw [there] at located
          cases located
          rw [show (object.setCallBackRunningFlag true).coctx = object.coctx from rfl,
            start] at suspended
          cases suspended
      · rw [entered.elsewhere caller same] at located
        exact keeps_live keeps located live
  | leave thread co main body rest _ running more left =>
    have apart : k ≠ co := by
      rintro rfl
      exact stayed thread rfl
    rw [left.elsewhere apart] at located
    exact ⟨found,located,rfl,rfl,rfl⟩
  | stop thread co main body _ running done left =>
    by_cases same : k = co
    · subst k
      obtain ⟨_,_,rfl⟩ := left.source_object located
      cases suspended
    · rw [left.elsewhere same,Store.modify_at,if_neg same] at located
      exact ⟨found,located,rfl,rfl,rfl⟩

private theorem idle_before (effect : Effect next plain process event after) {k : Nat}
    (idle : ¬ Executing after k)
    (stayed : ∀ thread, event ≠ .yield thread k ∧ event ≠ .finish thread k) :
    ¬ Executing process k := by
  rintro ⟨other,body,running⟩
  rcases effect.running other with same | ⟨co,_,_,_,main⟩ | ⟨co,_,count,left,was,_⟩
  · exact idle ⟨other,body,same.trans running⟩
  · rw [running] at main
    cases main
  · rw [running] at was
    cases was
    rcases left with rfl | rfl
    · exact (stayed other).1 rfl
    · exact (stayed other).2 rfl

private theorem inside_before (effect : Effect next plain process event after) {thread co : Nat}
    {body : Body} (running : (after.threads thread).running = .callBack co body)
    (stayed : ∀ co, event ≠ .resume thread co) :
    (process.threads thread).running = .callBack co body := by
  rcases effect.running thread with same | ⟨target,_,rfl,_,_⟩ | ⟨_,_,_,_,_,main⟩
  · exact same.symm.trans running
  · exact absurd rfl (stayed target)
  · rw [running] at main
    cases main

end

/-- What a step writes besides the register arrays: nothing in a call without a swap, and in a
swap the return address of the incoming context, at its stack pointer. -/
inductive Turn (layout : Layout) (past : List (Event Body)) (before after : Joint Body) :
    Event Body → Prop
  | call (event : Process.Event Body)
      (kind : ∀ thread co, event ≠ .resume thread co ∧ event ≠ .yield thread co ∧
        event ≠ .finish thread co) :
      Turn layout past before after (.call event)
  | enter (thread co main : Nat) (object : Coroutine (Context Body) Body) (body : Body)
      (call : State) (words : Coctx)
      (entered : Switching.Entered (past.map Event.plain)
      (before.process.attach thread) thread co main object body
        after.process)
      (same : image layout past co object = some words)
      (known : main < after.process.store.objects.length)
      (pushes : ∀ byte, ¬ Inside (layout.array main) coctxBytes byte →
        after.mem byte = store call.mem (words kRSP) (words kRETAddr) byte) :
      Turn layout past before after (.swap (.resume thread co) call)
  | leave (thread co : Nat) (event : Process.Event Body) (body : Body) (count : Nat)
      (call earlier : State)
      (kind : event = .yield thread co ∨ event = .finish thread co)
      (inside : (before.process.threads thread).running = .callBack co body)
      (outside : (after.process.threads thread).running = .main thread count)
      (last : lastResume past thread = some earlier)
      (known : co < after.process.store.objects.length)
      (pushes : ∀ byte, ¬ Inside (layout.array co) coctxBytes byte →
        after.mem byte = store call.mem (earlier.regs .rsp)
          (load earlier.mem (earlier.regs .rsp)) byte) :
      Turn layout past before after (.swap event call)

section
variable {layout : Layout} {past : List (Event Body)} {before : Joint Body}

private theorem turn_enter {after : Process Body} {thread co main : Nat}
    {object : Coroutine (Context Body) Body} {body : Body} {call : State}
    (stored : Stored layout past before.process before.mem)
    (coherent : Coherent (past.map Event.plain) before.process)
    (entered : Switching.Entered (past.map Event.plain)
      (before.process.attach thread) thread co main object body after)
    (allocated : Allocated layout before after.store.objects.length)
    (code : Agree layout after.store.objects.length
      (written layout before.process after (.resume thread co) before.mem) call.mem)
    (rdi : call.regs .rdi = layout.array main) (rsi : call.regs .rsi = layout.array co) :
    Turn layout past before ⟨after,(exec coctxSwap call).mem⟩ (.swap (.resume thread co) call) := by
  have longer : after.store.objects.length =
      (before.process.attach thread).store.objects.length := by
    rw [← identities_length,← identities_length,entered.identities]
  rw [written_construct (by simp),longer] at code
  rw [longer] at allocated
  have stays : Stored layout past (before.process.attach thread) call.mem :=
    stored.extend (Keeps.attach before.process thread) (fun _ => rfl) (fun _ => rfl) allocated code
  obtain ⟨host,there,_⟩ := (coherent.attach thread).mains thread main entered.owner
  have live : object.coctx ≠ .zero := by
    rcases entered.entry with ⟨kind,_⟩ | ⟨kind,_,_⟩
    · simp [kind]
    · simp [kind]
  obtain ⟨words,same,pushes⟩ := swap_pushes stays entered.other
    (List.getElem?_eq_some_iff.mp there).1 entered.located
    live rdi rsi
  refine .enter thread co main object body call words entered same ?_ pushes
  rw [longer]
  exact (List.getElem?_eq_some_iff.mp there).1

private theorem turn_leave {middle after : Process Body} {thread co main : Nat} {body : Body}
    {saved : Context Body} {event : Process.Event Body} {call : State}
    (stored : Stored layout past before.process before.mem)
    (coherent : Coherent (past.map Event.plain) middle)
    (keeps : Keeps before.process.store middle.store)
    (length : middle.store.objects.length = before.process.store.objects.length)
    (left : Left (past.map Event.plain) middle thread co main saved after)
    (kind : event = .yield thread co ∨ event = .finish thread co)
    (inside : (before.process.threads thread).running = .callBack co body)
    (code : Agree layout after.store.objects.length
      (written layout before.process after event before.mem) call.mem)
    (rdi : call.regs .rdi = layout.array co) (rsi : call.regs .rsi = layout.array main) :
    Turn layout past before ⟨after,(exec coctxSwap call).mem⟩ (.swap event call) := by
  have longer : after.store.objects.length = middle.store.objects.length := by
    rw [left.store,Store.modify_length]
  have allocated : Allocated layout before middle.store.objects.length :=
    ⟨fun _ _ _ above below => absurd below (by omega),fun _ _ _ _ _ above below =>
      absurd below (by omega)⟩
  have unset : ∀ thread co cb, event ≠ .setCallBack thread co cb true := by
    rcases kind with rfl | rfl
    · simp
    · simp
  rw [written_construct unset,longer] at code
  have stays := stored.extend keeps (fun _ => rfl) (fun _ => rfl) allocated code
  obtain ⟨host,there,_⟩ := coherent.mains thread main left.owner
  have waiting : host.coctx = .main thread (calls (past.map Event.plain) thread) := by
    have context := left.waiting
    rw [contextOf,there] at context
    exact Option.some.inj context
  obtain ⟨inner,source,_⟩ := (stacked_iff _ co).mp left.stack
  obtain ⟨words,same,pushes⟩ := swap_pushes stays (Ne.symm left.other)
    (List.getElem?_eq_some_iff.mp source).1 there
    (by simp [waiting]) rdi rsi
  obtain ⟨earlier,last,rfl⟩ := image_main waiting same
  refine .leave thread co event body _ call earlier kind inside
    (by rw [left.threads,Function.update_self]) last ?_ pushes
  rw [longer]
  exact (List.getElem?_eq_some_iff.mp source).1

theorem step_turn {next : Body → Option Body} {after : Joint Body} {event : Event Body}
    (structured : Structured before.process)
    (coherent : Coherent (past.map Event.plain) before.process)
    (stored : Stored layout past before.process before.mem)
    (step : Step next layout before event after) :
    Turn layout past before after event := by
  cases step with
  | call event after mem unswapped step =>
    refine .call event fun thread co => ?_
    cases step_effect structured coherent step with
    | grow _ _ fresh plain threads objects unused => cases event <;> first | exact plain.elim | simp
    | attach _ _ other plain reached => cases event <;> first | exact plain.elim | simp
    | release | accept => simp
    | enter _ _ _ _ _ _ entered =>
      rw [parties_enter coherent entered] at unswapped
      cases unswapped
    | leave _ _ _ _ _ _ _ _ left =>
      rw [(parties_leave before.process left.owner left.current).1] at unswapped
      cases unswapped
    | stop _ _ _ _ _ _ _ left =>
      rw [(parties_leave before.process left.owner left.current).2] at unswapped
      cases unswapped
  | swap event after call outgoing incoming swapped step allocated code rdi rsi returnWord =>
    cases step_effect structured coherent step with
    | grow _ _ fresh plain threads objects unused =>
      rw [parties_plain plain] at swapped
      cases swapped
    | attach _ _ other plain reached =>
      rw [parties_plain plain] at swapped
      cases swapped
    | release | accept => cases swapped
    | enter thread co main object body _ entered =>
      rw [parties_enter coherent entered] at swapped
      cases swapped
      exact turn_enter stored coherent entered allocated code rdi rsi
    | leave thread co main body rest _ running more left =>
      rw [(parties_leave before.process left.owner left.current).1] at swapped
      obtain ⟨rfl,rfl⟩ : co = outgoing ∧ main = incoming := by simpa using swapped
      exact turn_leave stored coherent (.refl _) rfl left (Or.inl rfl) running code rdi rsi
    | stop thread co main body _ running done left =>
      rw [(parties_leave before.process left.owner left.current).2] at swapped
      obtain ⟨rfl,rfl⟩ : co = outgoing ∧ main = incoming := by simpa using swapped
      exact turn_leave stored (coherent.clear co) (.modify _ co fun _ => ⟨rfl,rfl,rfl⟩)
        (Store.modify_length _ _ _) left
        (Or.inr rfl) running code rdi rsi

end

def leaver : Event Body → Option (Owner × State)
  | .swap (.resume thread _) call => some (.thread thread,call)
  | .swap (.yield _ co) call => some (.coroutine co,call)
  | _ => none

theorem leaver_swap {event : Event Body} {owner : Owner} {call : State}
    (left : leaver event = some (owner,call)) :
    (∃ thread co, event = .swap (.resume thread co) call ∧ owner = .thread thread) ∨
      ∃ thread co, event = .swap (.yield thread co) call ∧ owner = .coroutine co := by
  unfold leaver at left
  split at left
  · rename_i thread co resumed
    cases left
    exact Or.inl ⟨thread,co,rfl,rfl⟩
  · rename_i thread co yielded
    cases left
    exact Or.inr ⟨thread,co,rfl,rfl⟩
  · cases left

theorem departure_saved {past : List (Event Body)} {co : Nat} {call : State}
    (gone : departure past (.coroutine co) = some call) : content past co = .saved call := by
  rw [departure] at gone
  cases kind : content past co with
  | saved left =>
    rw [kind] at gone
    cases gone
    rfl
  | zero | prepared =>
    rw [kind] at gone
    cases gone

private theorem departure_call {event : Process.Event Body} {past : List (Event Body)}
    {owner : Owner} {call : State} (gone : departure (.call event::past) owner = some call) :
    departure past owner = some call := by
  cases owner with
  | thread thread => exact gone
  | coroutine co =>
    by_cases accepts : ∃ thread cb, event = .setCallBack thread co cb true
    · obtain ⟨thread,cb,rfl⟩ := accepts
      simp [departure,content] at gone
    · rw [departure] at gone ⊢
      have same : content (.call event::past) co = content past co := by
        cases event with
        | setCallBack thread k cb accepted =>
          cases accepted with
          | true =>
            have apart : k ≠ co := by
              rintro rfl
              exact accepts ⟨thread,cb,rfl⟩
            rw [content,if_neg apart]
          | false => rfl
        | _ => rfl
      rw [same] at gone
      exact gone

theorem region_before {ground : Ground} {store after : Store Body} {co : Nat}
    (same : ∀ found, after.objects[co]? = some found → ∃ object, store.objects[co]? = some object ∧
      found.stackSp = object.stackSp ∧ found.stackSize = object.stackSize)
    {byte : Word} (inside : Region ground after (.coroutine co) byte) :
    Region ground store (.coroutine co) byte := by
  obtain ⟨found,located,live⟩ := inside
  obtain ⟨object,there,pointer,size⟩ := same found located
  refine ⟨object,there,?_⟩
  rw [Live,pointer,size] at live
  exact live

section
variable {layout : Layout} {next : Body → Option Body} {past : List (Event Body)}
  {before after : Joint Body} {event : Event Body}

private theorem finish_object {plain : List (Process.Event Body)} {process later : Process Body}
    {thread co : Nat} {found : Coroutine (Context Body) Body}
    (effect : Effect next plain process (.finish thread co) later)
    (located : later.store.objects[co]? = some found) : found.coctx = .finished co := by
  cases effect with
  | grow _ _ _ plain => exact plain.elim
  | attach _ _ _ plain => exact plain.elim
  | stop _ _ main body _ running done left =>
    obtain ⟨_,_,rfl⟩ := left.source_object located
    rfl

theorem thread_cases
    (effect : Effect next (past.map Event.plain) before.process event.plain after.process)
    (turn : Turn layout past before after event) {thread : Nat} {call : State}
    (absent : Absent after.process (.thread thread))
    (gone : departure (event::past) (.thread thread) = some call) :
    leaver event = some (.thread thread,call) ∨
      (Absent before.process (.thread thread) ∧ departure past (.thread thread) = some call) := by
  obtain ⟨co,body,running⟩ := absent
  cases turn with
  | call event kind =>
    exact Or.inr ⟨⟨co,body,inside_before effect running fun target => (kind thread target).1⟩,gone⟩
  | enter caller target main object code resumed words entered same known pushes =>
    change (if caller = thread then some resumed else lastResume past thread) = some call at gone
    by_cases self : caller = thread
    · subst caller
      rw [if_pos rfl] at gone
      cases gone
      exact Or.inl rfl
    · rw [if_neg self] at gone
      refine Or.inr ⟨⟨co,body,inside_before effect running fun other clash => ?_⟩,gone⟩
      injection clash with same
      exact self same
  | leave caller target event code count left earlier kind inside outside last known pushes =>
    rcases kind with rfl | rfl
    · exact Or.inr ⟨⟨co,body,inside_before effect running (by simp [Event.plain])⟩,gone⟩
    · exact Or.inr ⟨⟨co,body,inside_before effect running (by simp [Event.plain])⟩,gone⟩

theorem suspended_cases (coherent : Coherent (past.map Event.plain) before.process)
    (effect : Effect next (past.map Event.plain) before.process event.plain after.process)
    (turn : Turn layout past before after event) {co c : Nat} {rest : Body}
    {found : Coroutine (Context Body) Body} {call : State}
    (located : after.process.store.objects[co]? = some found)
    (suspended : found.coctx = .callBack c rest)
    (gone : departure (event::past) (.coroutine co) = some call) :
    leaver event = some (.coroutine co,call) ∨
      ((∀ thread, event.plain ≠ .yield thread co ∧ event.plain ≠ .finish thread co) ∧
        departure past (.coroutine co) = some call ∧
        ∃ object, before.process.store.objects[co]? = some object ∧ found.coctx = object.coctx ∧
          found.stackSp = object.stackSp ∧ found.stackSize = object.stackSize) := by
  have stays (stayed : ∀ thread, event.plain ≠ .yield thread co ∧
      event.plain ≠ .finish thread co) :=
    suspended_before effect coherent located suspended fun thread => (stayed thread).1
  cases turn with
  | call event kind =>
    have stayed (thread : Nat) := (kind thread co).2
    exact Or.inr ⟨stayed,departure_call gone,stays stayed⟩
  | enter caller target main object code resumed words entered same known pushes =>
    have stayed (thread : Nat) : (.resume caller target : Process.Event Body) ≠ .yield thread co ∧
        (.resume caller target : Process.Event Body) ≠ .finish thread co := by simp
    exact Or.inr ⟨stayed,gone,stays stayed⟩
  | leave caller target event code count left earlier kind inside outside last known pushes =>
    by_cases self : target = co
    · subst target
      rcases kind with rfl | rfl
      · rw [departure,content,if_pos rfl] at gone
        cases gone
        exact Or.inl rfl
      · rw [finish_object effect located] at suspended
        cases suspended
    · have stayed (thread : Nat) : event ≠ .yield thread co ∧ event ≠ .finish thread co := by
        rcases kind with rfl | rfl
        · simp [self]
        · simp [self]
      refine Or.inr ⟨stayed,?_,stays stayed⟩
      rcases kind with rfl | rfl
      · rw [departure,content,if_neg self] at gone
        exact gone
      · rw [departure,content,if_neg self] at gone
        exact gone

theorem coroutine_cases (coherent : Coherent (past.map Event.plain) before.process)
    (effect : Effect next (past.map Event.plain) before.process event.plain after.process)
    (turn : Turn layout past before after event) {co : Nat} {call : State}
    (absent : Absent after.process (.coroutine co))
    (gone : departure (event::past) (.coroutine co) = some call) :
    leaver event = some (.coroutine co,call) ∨
      (Absent before.process (.coroutine co) ∧ departure past (.coroutine co) = some call ∧
        ∀ ground byte, Region ground after.process.store (.coroutine co) byte →
          Region ground before.process.store (.coroutine co) byte) := by
  obtain ⟨idle,found,c,rest,located,suspended⟩ := absent
  rcases suspended_cases coherent effect turn located suspended gone with
    left | ⟨stayed,kept,object,there,coctx,identity⟩
  · exact Or.inl left
  · refine Or.inr ⟨⟨idle_before effect idle stayed,object,c,rest,there,?_⟩,kept,?_⟩
    · rw [← coctx,suspended]
    · intro ground byte
      refine region_before fun other here => ⟨object,there,?_⟩
      obtain rfl := Option.some.inj (located.symm.trans here)
      exact identity

end

end MCoroutine.Stacks
