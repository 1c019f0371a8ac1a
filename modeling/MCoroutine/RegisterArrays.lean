import MCoroutine.FirstSwap
import MCoroutine.Suspensions
import MCoroutine.Switching

/-! The process together with its byte memory. Every coroutine object has a register
array at an address of its own, and the contexts of the process are what these arrays
hold: zeroes, what setCallBack prepares, or what the swap of some call has saved. -/
namespace MCoroutine.RegisterArrays
open General.ByteMemory General.Runs Machine Swap Suspensions FirstSwap Switching SlotRuns

variable {Body : Type}

/-- Where the objects lie, in construction order, where `m_coctx` lies in an object, and
the address of runCallBack. -/
structure Layout where
  object : Nat → Word
  coctx : Word
  runCallBack : Word

/-- `&co->m_coctx`. -/
def Layout.array (layout : Layout) (co : Nat) : Word := layout.object co + layout.coctx

structure Joint (Body : Type) where
  process : Process Body
  mem : Memory

/-- A call with or without a swap; of the swap the state is recorded in which coctx_swap
is called. -/
inductive Event (Body : Type)
  | call (event : Process.Event Body)
  | swap (event : Process.Event Body) (call : State)

def Event.plain : Event Body → Process.Event Body
  | .call event => event
  | .swap event _ => event

/-- The coroutines whose arrays a call swaps, the outgoing one first. A Resume of the
current coroutine swaps none. -/
def parties (process : Process Body) : Process.Event Body → Option (Nat × Nat)
  | .resume thread co =>
    match process.resumeCheck thread (some co) with
    | .ok (pending,_) => pending
    | .error _ => none
  | .yield thread _ =>
    let (current,process) := process.getCurrentCoroutine thread
    some (current,(process.getMainCoroutine thread).1)
  | .finish thread _ =>
    let (current,process) := process.getCurrentCoroutine thread
    some (current,(process.getMainCoroutine thread).1)
  | _ => none

/-- The constructors of `count` objects: `coctx m_coctx{}`. -/
def construct (layout : Layout) (first count : Nat) (mem : Memory) : Memory :=
  (List.range' first count).foldl (fun mem co =>
    place mem (layout.array co) fun _ : Fin 14 => 0) mem

/-- What the library writes into register arrays in a call, up to the swap. -/
def written (layout : Layout) (before after : Process Body) (event : Process.Event Body)
    (mem : Memory) : Memory :=
  let mem := construct layout before.store.objects.length
    (after.store.objects.length - before.store.objects.length) mem
  match event with
  | .setCallBack _ co _ true =>
    match after.store.objects[co]? with
    | some object =>
      place mem (layout.array co) (initialCoctx layout.runCallBack
        (layout.object co) object.stackSp object.stackSize)
    | none => mem
  | _ => mem

/-- Code outside the library and its other writes leave the register arrays alone. -/
def Agree (layout : Layout) (count : Nat) (mem later : Memory) : Prop :=
  ∀ co, co < count → ∀ byte, Inside (layout.array co) coctxBytes byte → later byte = mem byte

/-- New arrays share no byte with the arrays that exist nor with the word at a saved stack
pointer. -/
structure Allocated (layout : Layout) (before : Joint Body) (count : Nat) : Prop where
  separate : ∀ j k, j < k → before.process.store.objects.length ≤ k → k < count →
    Apart (layout.array j) coctxBytes (layout.array k) coctxBytes
  saved : ∀ j k object, before.process.store.objects[j]? = some object → object.coctx ≠ .zero →
    before.process.store.objects.length ≤ k → k < count →
    Apart (load before.mem (slot (layout.array j) 104)) 8 (layout.array k) coctxBytes

/-- The word at the stack top that setCallBack prepares lies in no register array. -/
def TopSpared (layout : Layout) (event : Process.Event Body) (after : Process Body) : Prop :=
  ∀ thread co cb object, event = .setCallBack thread co cb true →
    after.store.objects[co]? = some object →
    ∀ k, k < after.store.objects.length →
      Apart (stackTop object.stackSp object.stackSize) 8 (layout.array k) coctxBytes

inductive Step (next : Body → Option Body) (layout : Layout) :
    Joint Body → Event Body → Joint Body → Prop
  | call (before : Joint Body) (event : Process.Event Body) (after : Process Body) (mem : Memory)
      (unswapped : parties before.process event = none)
      (step : Process.Step next before.process event after)
      (allocated : Allocated layout before after.store.objects.length)
      (top : TopSpared layout event after)
      (code : Agree layout after.store.objects.length
        (written layout before.process after event before.mem) mem) :
      Step next layout before (.call event) ⟨after,mem⟩
  | swap (before : Joint Body) (event : Process.Event Body) (after : Process Body) (call : State)
      (outgoing incoming : Nat) (swapped : parties before.process event = some (outgoing,incoming))
      (step : Process.Step next before.process event after)
      (allocated : Allocated layout before after.store.objects.length)
      (code : Agree layout after.store.objects.length
        (written layout before.process after event before.mem) call.mem)
      (rdi : call.regs .rdi = layout.array outgoing) (rsi : call.regs .rsi = layout.array incoming)
      (returnWord : ∀ co, co < after.store.objects.length →
        Apart (call.regs .rsp) 8 (layout.array co) coctxBytes) :
      Step next layout before (.swap event call) ⟨after,(exec coctxSwap call).mem⟩

inductive Content
  | zero
  | prepared
  | saved (call : State)

def content : List (Event Body) → Nat → Content
  | [],_ => .zero
  | .swap (.yield _ c) call::past,co => if c = co then .saved call else content past co
  | .swap (.finish _ c) call::past,co => if c = co then .saved call else content past co
  | .call (.setCallBack _ c _ true)::past,co => if c = co then .prepared else content past co
  | _::past,co => content past co

def lastResume : List (Event Body) → Nat → Option State
  | [],_ => none
  | .swap (.resume t _) call::past,thread =>
    if t = thread then some call else lastResume past thread
  | _::past,thread => lastResume past thread

/-- The words of a context, where the history agrees with it. -/
def image (layout : Layout) (history : List (Event Body)) (co : Nat)
    (object : Coroutine (Context Body) Body) :
    Option Coctx :=
  match object.coctx,content history co with
  | .zero,_ => some fun _ => 0
  | .main thread _,_ => (lastResume history thread).map suspendedCoctx
  | .runCallBack _,.prepared =>
    some (initialCoctx layout.runCallBack (layout.object co) object.stackSp object.stackSize)
  | .callBack _ _,.saved call => some (suspendedCoctx call)
  | .finished _,.saved call => some (suspendedCoctx call)
  | _,_ => none

def Allowed (history : List (Event Body)) (joint : Joint Body) (event : Event Body) : Prop :=
  Sensible (history.map Event.plain) joint.process event.plain

abbrev Reached (next : Body → Option Body) (layout : Layout) (history : List (Event Body))
    (joint : Joint Body) : Prop :=
  Run (fun joint => joint.process = Process.initial) Allowed (Step next layout) history joint

private theorem reached_process {next : Body → Option Body} {layout : Layout}
    {history : List (Event Body)} {joint : Joint Body} (run : Reached next layout history joint) :
    Run (fun process => process = Process.initial) Sensible (Process.Step next)
      (history.map Event.plain) joint.process := by
  induction run with
  | start joint ready => exact .start _ ready
  | next past before event after _ sensible step ih =>
    cases step with
    | call event after mem unswapped step => exact .next _ _ _ _ ih sensible step
    | swap event after call outgoing incoming swapped step => exact .next _ _ _ _ ih sensible step

theorem construct_outside (layout : Layout) (first count : Nat) (mem : Memory) (byte : Word)
    (outside : ∀ co, first ≤ co → co < first + count → ¬ Inside (layout.array co) coctxBytes byte) :
    construct layout first count mem byte = mem byte := by
  induction count generalizing first mem with
  | zero => rfl
  | succ count ih =>
    rw [construct,List.range'_succ,List.foldl_cons]
    refine (ih (first + 1) _ fun co low high => outside co (by omega) (by omega)).trans ?_
    exact place_outside _ _ _ _ (outside first (by omega) (by omega))

private theorem construct_zeroes (layout : Layout) (first count : Nat) (mem : Memory)
    (separate : ∀ j k, j < k → first ≤ k → k < first + count →
      Apart (layout.array j) coctxBytes (layout.array k) coctxBytes)
    (co : Nat) (low : first ≤ co) (high : co < first + count) :
    Holds (construct layout first count mem) (layout.array co) fun _ : Fin 14 => 0 := by
  induction count generalizing first mem with
  | zero => omega
  | succ count ih =>
    rw [construct,List.range'_succ,List.foldl_cons]
    rcases Nat.eq_or_lt_of_le low with rfl | later
    · refine (place_holds mem (layout.array first) _ (by decide)).congr fun byte inside => ?_
      refine construct_outside layout (first + 1) count _ byte fun k above below within => ?_
      exact separate first k (by omega) (by omega) (by omega) byte inside within
    · exact ih (first + 1) _ (fun j k before above below =>
        separate j k before (by omega) (by omega)) later (by omega)

/-- What a swap does to the arrays when neither the caller's return word nor the word that
is pushed lies in one. -/
private theorem swap_arrays {call : State} {outgoing incoming : Word} {coctx : Coctx}
    (rdi : call.regs .rdi = outgoing) (rsi : call.regs .rsi = incoming)
    (apart : Apart outgoing coctxBytes incoming coctxBytes)
    (returnWord : Apart (call.regs .rsp) 8 outgoing coctxBytes)
    (held : Holds call.mem incoming coctx) (clear : Apart (coctx kRSP) 8 incoming coctxBytes) :
    Swap.Entered coctx (exec coctxSwap call) ∧
      (Apart (coctx kRSP) 8 outgoing coctxBytes → Holds (exec coctxSwap call).mem outgoing
        (suspendedCoctx call)) ∧
      ∀ base (words : Coctx), Apart outgoing coctxBytes base coctxBytes →
        Apart (coctx kRSP) 8 base coctxBytes →
        Holds call.mem base words → Holds (exec coctxSwap call).mem base words := by
  subst rdi rsi
  have saved {base : Word} {words : Coctx}
    (other : Apart (call.regs .rdi) coctxBytes base coctxBytes)
      (before : Holds call.mem base words) : Holds (exec saveContext call).mem base words :=
    before.congr fun byte inside => save_frame call byte fun stored => other byte stored inside
  obtain ⟨entered,memory⟩ := swap_enters call coctx (saved apart held) clear
  have pushed {base : Word} {words : Coctx} (spared : Apart (coctx kRSP) 8 base coctxBytes)
      (before : Holds (exec saveContext call).mem base words) :
          Holds (exec coctxSwap call).mem base words := by
    refine before.congr fun byte inside => ?_
    rw [memory]
    exact store_outside _ _ _ _ fun stored => spared byte stored inside
  exact ⟨entered,fun spared => pushed spared (save_holds call returnWord),
    fun base words other spared before => pushed spared (saved other before)⟩

/-- The array of an object holds the words of its context, whose stack pointer leads
outside the arrays. -/
def Represents (layout : Layout) (history : List (Event Body)) (count : Nat) (mem : Memory)
    (co : Nat) (object : Coroutine (Context Body) Body) : Prop :=
  ∃ words, image layout history co object = some words ∧ Holds mem (layout.array co) words ∧
    (object.coctx ≠ .zero → ∀ k, k < count → Apart (words kRSP) 8 (layout.array k) coctxBytes)

structure Stored (layout : Layout) (history : List (Event Body)) (process : Process Body)
    (mem : Memory) : Prop where
  separate : ∀ j k, j < k → k < process.store.objects.length →
    Apart (layout.array j) coctxBytes (layout.array k) coctxBytes
  arrays : ∀ co object, process.store.objects[co]? = some object →
    Represents layout history process.store.objects.length mem co object

theorem Stored.apart {layout : Layout} {history : List (Event Body)} {process : Process Body}
    {mem : Memory} (stored : Stored layout history process mem) {j k : Nat}
    (first : j < process.store.objects.length) (second : k < process.store.objects.length)
    (other : j ≠ k) :
    Apart (layout.array j) coctxBytes (layout.array k) coctxBytes := by
  rcases Nat.lt_or_gt_of_ne other with before | behind
  · exact stored.separate j k before second
  · exact (stored.separate k j behind first).symm

private theorem Stored.agree {layout : Layout} {history : List (Event Body)}
    {process : Process Body} {mem later : Memory} (stored : Stored layout history process mem)
    (code : Agree layout process.store.objects.length mem later) :
    Stored layout history process later := by
  refine ⟨stored.separate,fun co object located => ?_⟩
  obtain ⟨words,same,held,clear⟩ := stored.arrays co object located
  exact ⟨words,same,held.congr (code co (List.getElem?_eq_some_iff.mp located).1),clear⟩

structure Keeps (store after : Store Body) : Prop where
  longer : store.objects.length ≤ after.objects.length
  old : ∀ co object, after.objects[co]? = some object → co < store.objects.length →
    ∃ before, store.objects[co]? = some before ∧ object.coctx = before.coctx ∧
      object.stackSp = before.stackSp ∧
      object.stackSize = before.stackSize
  fresh : ∀ co object, after.objects[co]? = some object → store.objects.length ≤ co →
    object.coctx = .zero

private theorem image_congr {layout : Layout} {past history : List (Event Body)} {co : Nat}
    {object before : Coroutine (Context Body) Body} (coctx : object.coctx = before.coctx)
    (stackSp : object.stackSp = before.stackSp) (stackSize : object.stackSize = before.stackSize)
    (same : content history co = content past co)
    (resumed : ∀ thread count, before.coctx = .main thread count →
      lastResume history thread = lastResume past thread) :
    image layout history co object = image layout past co before := by
  unfold image
  rw [coctx,stackSp,stackSize,same]
  cases kind : before.coctx with
  | main thread count =>
    dsimp only
    rw [resumed thread count kind]
  | _ => cases content past co <;> rfl

theorem image_prepared {layout : Layout} {history : List (Event Body)} {co c : Nat}
    {object : Coroutine (Context Body) Body} {words : Coctx} (start : object.coctx = .runCallBack c)
    (same : image layout history co object = some words) :
    content history co = .prepared ∧
      words = initialCoctx layout.runCallBack
        (layout.object co) object.stackSp object.stackSize := by
  rw [image,start] at same
  cases kind : content history co with
  | zero | saved call =>
    rw [kind] at same
    cases same
  | prepared =>
    rw [kind] at same
    exact ⟨rfl,(Option.some.inj same).symm⟩

theorem image_saved {layout : Layout} {history : List (Event Body)} {co c : Nat} {rest : Body}
    {object : Coroutine (Context Body) Body} {words : Coctx}
    (suspended : object.coctx = .callBack c rest)
    (same : image layout history co object = some words) :
    ∃ call, content history co = .saved call ∧ words = suspendedCoctx call := by
  rw [image,suspended] at same
  cases kind : content history co with
  | zero | prepared =>
    rw [kind] at same
    cases same
  | saved call =>
    rw [kind] at same
    exact ⟨call,rfl,(Option.some.inj same).symm⟩

theorem image_main {layout : Layout} {history : List (Event Body)} {co thread count : Nat}
    {object : Coroutine (Context Body) Body} {words : Coctx}
    (waiting : object.coctx = .main thread count)
    (same : image layout history co object = some words) :
    ∃ call, lastResume history thread = some call ∧ words = suspendedCoctx call := by
  rw [image,waiting] at same
  obtain ⟨call,last,rfl⟩ := Option.map_eq_some_iff.mp same
  exact ⟨call,last,rfl⟩

theorem Stored.extend {layout : Layout} {past history : List (Event Body)}
    {process after : Process Body} {mem later : Memory} (stored : Stored layout past process mem)
    (keeps : Keeps process.store after.store)
    (contents : ∀ co, content history co = content past co)
    (resumed : ∀ thread, lastResume history thread = lastResume past thread)
    (allocated : Allocated layout ⟨process,mem⟩ after.store.objects.length)
    (code : Agree layout after.store.objects.length
      (construct layout process.store.objects.length
      (after.store.objects.length - process.store.objects.length) mem) later) :
    Stored layout history after later := by
  have longer := keeps.longer
  have separate : ∀ j k, j < k → k < after.store.objects.length →
      Apart (layout.array j) coctxBytes (layout.array k) coctxBytes := by
    intro j k before below
    rcases Nat.lt_or_ge k process.store.objects.length with inside | beyond
    · exact stored.separate j k before inside
    · exact allocated.separate j k before beyond below
  refine ⟨separate,?_⟩
  intro co object located
  have below := (List.getElem?_eq_some_iff.mp located).1
  rcases Nat.lt_or_ge co process.store.objects.length with inside | beyond
  · obtain ⟨before,there,coctx,stackSp,stackSize⟩ := keeps.old co object located inside
    obtain ⟨words,same,held,clear⟩ := stored.arrays co before there
    refine ⟨words,?_,?_,?_⟩
    · rw [image_congr coctx stackSp stackSize (contents co) fun thread _ _ => resumed thread,same]
    · refine held.congr fun byte within => ?_
      rw [code co below byte within]
      refine construct_outside layout _ _ mem byte fun k above bound there => ?_
      exact separate co k (by omega) (by omega) byte within there
    · intro saved k bound
      rw [coctx] at saved
      rcases Nat.lt_or_ge k process.store.objects.length with old | new
      · exact clear saved k old
      · have word : load mem (slot (layout.array co) 104) = words kRSP := held kRSP
        rw [← word]
        exact allocated.saved co k before there saved new bound
  · have zero := keeps.fresh co object located beyond
    refine ⟨fun _ => 0,?_,?_,fun saved => absurd zero saved⟩
    · rw [image,zero]
    · refine (construct_zeroes layout _ _ mem ?_ co beyond (by omega)).congr (code co below)
      exact fun j k before above bound => allocated.separate j k before above (by omega)

section
variable {layout : Layout} {past history : List (Event Body)} {process after : Process Body}
  {mem : Memory}

private theorem Stored.prepare {co : Nat} {object changed : Coroutine (Context Body) Body}
    (stored : Stored layout past process mem) (located : process.store.objects[co]? = some object)
    (store : after.store = process.store.modify co fun _ => changed)
    (start : changed.coctx = .runCallBack co) (mine : content history co = .prepared)
    (contents : ∀ k, k ≠ co → content history k = content past k)
    (resumed : ∀ thread, lastResume history thread = lastResume past thread)
    (top : ∀ k, k < process.store.objects.length →
      Apart (stackTop changed.stackSp changed.stackSize) 8 (layout.array k) coctxBytes) :
    Stored layout history after
      (place mem (layout.array co)
        (initialCoctx layout.runCallBack (layout.object co) changed.stackSp
          changed.stackSize)) := by
  have length : after.store.objects.length = process.store.objects.length := by
    rw [store,Store.modify_length]
  have bound := (List.getElem?_eq_some_iff.mp located).1
  refine ⟨by rw [length]; exact stored.separate,?_⟩
  intro k found there
  rw [length]
  rw [store,Store.modify_at] at there
  by_cases same : k = co
  · subst k
    rw [if_pos rfl,located] at there
    cases there
    refine ⟨_,by rw [image,start,mine],place_holds mem _ _ (by decide),fun _ k below => ?_⟩
    rw [initialCoctx_rsp]
    exact top k below
  · rw [if_neg same] at there
    have below := (List.getElem?_eq_some_iff.mp there).1
    obtain ⟨words,shown,held,clear⟩ := stored.arrays k found there
    refine ⟨words,?_,held.congr fun byte inside => ?_,clear⟩
    · rw [image_congr rfl rfl rfl (contents k same) fun thread _ _ => resumed thread,shown]
    · exact place_outside _ _ _ byte fun within => stored.apart below bound same byte inside within

theorem Stored.swap {call : State} {outgoing incoming : Nat}
    {target : Coroutine (Context Body) Body} (stored : Stored layout past process call.mem)
    (other : incoming ≠ outgoing) (source : outgoing < process.store.objects.length)
    (located : process.store.objects[incoming]? = some target) (saved : target.coctx ≠ .zero)
    (rdi : call.regs .rdi = layout.array outgoing) (rsi : call.regs .rsi = layout.array incoming)
    (returnWord : ∀ co, co < process.store.objects.length →
      Apart (call.regs .rsp) 8 (layout.array co) coctxBytes)
    (length : after.store.objects.length = process.store.objects.length)
    (mine : ∀ object, after.store.objects[outgoing]? = some object →
      image layout history outgoing object = some (suspendedCoctx call))
    (others : ∀ k object, after.store.objects[k]? = some object → k ≠ outgoing →
      ∃ before, process.store.objects[k]? = some before ∧ object.coctx = before.coctx ∧
      image layout history k object = image layout past k before) :
    Stored layout history after (exec coctxSwap call).mem ∧
      ∃ words, image layout past incoming target = some words ∧
        Swap.Entered words (exec coctxSwap call) := by
  have bound := (List.getElem?_eq_some_iff.mp located).1
  obtain ⟨words,same,held,clear⟩ := stored.arrays incoming target located
  have spared := clear saved
  obtain ⟨entered,left,kept⟩ := swap_arrays rdi rsi (stored.apart source bound (Ne.symm other))
    (returnWord outgoing source)
    held (spared incoming bound)
  refine ⟨⟨by rw [length]; exact stored.separate,?_⟩,words,same,entered⟩
  intro k object there
  rw [length]
  by_cases self : k = outgoing
  · subst k
    exact ⟨_,mine object there,left (spared outgoing source),fun _ => returnWord⟩
  · obtain ⟨before,here,coctx,shown⟩ := others k object there self
    have below := (List.getElem?_eq_some_iff.mp here).1
    obtain ⟨mine,was,holds,free⟩ := stored.arrays k before here
    refine ⟨mine,shown.trans was,kept _ mine (stored.apart source below (Ne.symm self))
      (spared k below) holds,?_⟩
    rw [coctx]
    exact free

end

theorem Keeps.refl (store : Store Body) : Keeps store store :=
  ⟨Nat.le_refl _,fun _ object located _ => ⟨object,located,rfl,rfl,rfl⟩,fun _ _ located beyond =>
    absurd (List.getElem?_eq_some_iff.mp located).1 (Nat.not_lt.mpr beyond)⟩

theorem Keeps.trans {first second third : Store Body} (one : Keeps first second)
    (two : Keeps second third) :
    Keeps first third := by
  refine ⟨Nat.le_trans one.longer two.longer,?_,?_⟩
  · intro co object located inside
    obtain ⟨middle,there,coctx,stackSp,stackSize⟩ :=
      two.old co object located (Nat.lt_of_lt_of_le inside one.longer)
    obtain ⟨before,here,context,pointer,size⟩ := one.old co middle there inside
    exact ⟨before,here,coctx.trans context,stackSp.trans pointer,stackSize.trans size⟩
  · intro co object located beyond
    rcases Nat.lt_or_ge co second.objects.length with inside | above
    · obtain ⟨middle,there,coctx,_,_⟩ := two.old co object located inside
      rw [coctx]
      exact one.fresh co middle there beyond
    · exact two.fresh co object located above

theorem Keeps.append {store after : Store Body} {fresh : List (Coroutine (Context Body) Body)}
    (objects : after.objects = store.objects ++ fresh)
    (zero : ∀ object ∈ fresh, object.coctx = .zero) :
    Keeps store after := by
  refine ⟨by rw [objects,List.length_append]; omega,?_,?_⟩
  · intro co object located inside
    rw [objects,List.getElem?_append_left inside] at located
    exact ⟨object,located,rfl,rfl,rfl⟩
  · intro co object located beyond
    rw [objects,List.getElem?_append_right beyond] at located
    exact zero object (List.mem_of_getElem? located)

theorem Keeps.modify (store : Store Body) (co : Nat)
    {change : Coroutine (Context Body) Body → Coroutine (Context Body) Body}
    (same : ∀ object, (change object).coctx = object.coctx ∧
      (change object).stackSp = object.stackSp ∧ (change object).stackSize = object.stackSize) :
    Keeps store (store.modify co change) := by
  have length := Store.modify_length store co change
  refine ⟨by rw [length],?_,?_⟩
  · intro k object located _
    rw [Store.modify_at] at located
    by_cases self : k = co
    · rw [if_pos self] at located
      obtain ⟨before,there,rfl⟩ := Option.map_eq_some_iff.mp located
      exact ⟨before,there,same before⟩
    · rw [if_neg self] at located
      exact ⟨object,located,rfl,rfl,rfl⟩
  · intro k object located beyond
    have bound := (List.getElem?_eq_some_iff.mp located).1
    omega

theorem Keeps.makeMain {store : Store Body} {process : Process Body} (thread : Nat)
    (keeps : Keeps store process.store) :
    Keeps store (process.makeMain thread).store :=
  keeps.trans (.append rfl (by simp [Coroutine.default]))

theorem Keeps.getMainCoroutine (process : Process Body) (thread : Nat) :
    Keeps process.store (process.getMainCoroutine thread).2.store :=
  Process.getMainCoroutine_preserves (fun middle => Keeps process.store middle.store) thread
    (fun _ _ => Keeps.makeMain thread) process (.refl _)

theorem Keeps.attach (process : Process Body) (thread : Nat) :
    Keeps process.store (process.attach thread).store :=
  Process.attach_preserves (fun middle => Keeps process.store middle.store) thread
    (fun _ _ => Keeps.makeMain thread) (fun _ _ _ _ before => before) process (.refl _)

theorem keeps_release {store later : Store Body} {pool result : CoroutinePool} {co : Nat}
    (call : pool.backCoroutine co store = .ok (later,result)) : Keeps store later := by
  obtain ⟨object,pair,_,_,⟨_,rfl,_⟩ | ⟨_,rfl,_⟩⟩ :=
    CoroutinePool.backCoroutine_effect co store later pool result call
  · exact .refl _
  · exact .modify _ _ fun _ => ⟨rfl,rfl,rfl⟩

private theorem unset_plain {event : Process.Event Body} (plain : Plain event) (thread co : Nat)
    (cb : Body) :
    event ≠ .setCallBack thread co cb true := by
  rintro rfl
  exact plain

theorem parties_plain {event : Process.Event Body} (plain : Plain event) (process : Process Body) :
    parties process event = none := by
  cases event <;> first | rfl | exact plain.elim

theorem written_construct {layout : Layout} {process after : Process Body}
    {event : Process.Event Body} {mem : Memory}
    (kept : ∀ thread co cb, event ≠ .setCallBack thread co cb true) :
    written layout process after event mem =
      construct layout process.store.objects.length
        (after.store.objects.length - process.store.objects.length) mem := by
  cases event with
  | setCallBack thread co cb accepted =>
    cases accepted with
    | true => exact absurd rfl (kept thread co cb)
    | false => rfl
  | _ => rfl

private theorem content_call {event : Process.Event Body}
    (kept : ∀ thread co cb, event ≠ .setCallBack thread co cb true) (past : List (Event Body))
    (co : Nat) : content (.call event::past) co = content past co := by
  cases event with
  | setCallBack thread c cb accepted =>
    cases accepted with
    | true => exact absurd rfl (kept thread c cb)
    | false => rfl
  | _ => rfl

section
variable {thread co main : Nat}

theorem parties_enter {past : List (Process.Event Body)} {process after : Process Body}
    {object : Coroutine (Context Body) Body} {body : Body}
    (coherent : Coherent past process)
    (entered : Switching.Entered past (process.attach thread) thread co main object body after) :
    parties process (.resume thread co) = some (main,co) := by
  have current : ((process.attach thread).threads thread).curCoroutine = some main := by
    cases (coherent.attach thread).runs thread with
    | main running current =>
      have pointed := Process.attach_current thread process
      rw [pointed,← current _ pointed,entered.owner]
    | callBack c m b running =>
      rw [entered.caller] at running
      cases running
  rw [parties,Process.resumeCheck_main thread co main process object entered.owner current
    entered.located entered.other,
    if_neg (by simp [entered.flag])]

theorem parties_leave (process : Process Body)
    (owner : (process.threads thread).mainCoroutine = some main)
    (current : (process.threads thread).curCoroutine = some co) :
    parties process (.yield thread co) = some (co,main) ∧ parties process (.finish thread co) = some
      (co,main) := by
  have pointed : process.getCurrentCoroutine thread = (co,process) := by
    unfold Process.getCurrentCoroutine
    rw [current]
  have owned : process.getMainCoroutine thread = (main,process) := by
    unfold Process.getMainCoroutine
    rw [owner]
  simp only [parties,pointed,owned,and_self]

end

/-- Where a swap lands: at the start of runCallBack, or behind the call that saved the
context. Only Resume, Yield and the end of a callback swap. -/
def Lands (layout : Layout) (past : List (Event Body)) (process : Process Body) : Event Body → Prop
  | .call _ => True
  | .swap (.resume _ co) call =>
    match content past co with
    | .zero => False
    | .prepared => ∃ object, process.store.objects[co]? = some object ∧
        (object.stackSp + object.stackSize < 2^64 →
          FirstEntry layout.runCallBack (layout.object co) object.stackSp object.stackSize
            (exec coctxSwap call))
    | .saved earlier => Returned earlier (exec coctxSwap call)
  | .swap (.yield thread _) call => ∃ earlier, lastResume past thread = some earlier ∧
      Returned earlier (exec coctxSwap call)
  | .swap (.finish thread _) call => ∃ earlier, lastResume past thread = some earlier ∧
      Returned earlier (exec coctxSwap call)
  | .swap _ _ => False

section
variable {layout : Layout} {past : List (Event Body)} {process : Process Body} {mem : Memory}

theorem Stored.leave {plain : List (Process.Event Body)} {middle after : Process Body}
    {call : State} {thread co main : Nat} {saved : Context Body}
    (stored : Stored layout past process mem) (event : Process.Event Body)
    (coherent : Coherent plain middle) (keeps : Keeps process.store middle.store)
    (length : middle.store.objects.length = process.store.objects.length)
    (left : Left plain middle thread co main saved after)
    (own : (∃ rest, saved = .callBack co rest) ∨ saved = .finished co)
    (contents : ∀ k, content (.swap event call::past) k =
      if co = k then .saved call else content past k)
    (resumed : ∀ other, lastResume (.swap event call::past) other = lastResume past other)
    (unswapped : ∀ thread co cb, event ≠ .setCallBack thread co cb true)
    (code : Agree layout after.store.objects.length
      (written layout process after event mem) call.mem)
    (rdi : call.regs .rdi = layout.array co) (rsi : call.regs .rsi = layout.array main)
    (returnWord : ∀ k, k < after.store.objects.length →
      Apart (call.regs .rsp) 8 (layout.array k) coctxBytes) :
    Stored layout (.swap event call::past) after (exec coctxSwap call).mem ∧
      ∃ earlier, lastResume past thread = some earlier ∧
        Returned earlier (exec coctxSwap call) := by
  have longer : after.store.objects.length = middle.store.objects.length := by
    rw [left.store,Store.modify_length]
  have allocated : Allocated layout ⟨process,mem⟩ middle.store.objects.length :=
    ⟨fun _ _ _ above below => absurd below (by dsimp only at above; omega),
      fun _ _ _ _ _ above below => absurd below (by dsimp only at above; omega)⟩
  rw [written_construct unswapped,longer] at code
  have stays := stored.extend keeps (fun _ => rfl) (fun _ => rfl) allocated code
  obtain ⟨host,there,_⟩ := coherent.mains thread main left.owner
  have waiting : host.coctx = .main thread (calls plain thread) := by
    have context := left.waiting
    rw [contextOf,there] at context
    exact Option.some.inj context
  obtain ⟨inner,source,_⟩ := (stacked_iff _ co).mp left.stack
  have mine : ∀ object, after.store.objects[co]? = some object →
      image layout (.swap event call::past) co object = some (suspendedCoctx call) := by
    intro object located
    obtain ⟨_,_,rfl⟩ := left.source_object located
    rcases own with ⟨rest,rfl⟩ | rfl
    · rw [image,contents,if_pos rfl]
    · rw [image,contents,if_pos rfl]
  have others : ∀ k object, after.store.objects[k]? = some object → k ≠ co →
      ∃ before, middle.store.objects[k]? = some before ∧ object.coctx = before.coctx ∧
        image layout (.swap event call::past) k object = image layout past k before := by
    intro k object located apart
    rw [left.elsewhere apart] at located
    refine ⟨object,located,rfl,image_congr rfl rfl rfl ?_ fun other _ _ => resumed other⟩
    rw [contents,if_neg (Ne.symm apart)]
  obtain ⟨kept,words,same,entered⟩ :=
    stays.swap (Ne.symm left.other) (List.getElem?_eq_some_iff.mp source).1 there
    (by rw [waiting]; simp) rdi rsi (by rw [← longer]; exact returnWord) longer mine others
  obtain ⟨earlier,last,rfl⟩ := image_main waiting same
  exact ⟨kept,earlier,last,returned_of_entered entered⟩

private theorem main_saved {plain : List (Process.Event Body)} {k thread count : Nat}
    {object : Coroutine (Context Body) Body} (coherent : Coherent plain process)
    (located : process.store.objects[k]? = some object)
    (waiting : object.coctx = .main thread count) :
    (process.threads thread).mainCoroutine = some k := by
  obtain ⟨bare,own⟩ := coherent.belongs k object located
  by_cases none : object.stackSp = 0
  · obtain ⟨_,⟨_,zero | ⟨other,n,owner,saved⟩⟩ | ⟨start,_⟩⟩ := bare none
    · rw [waiting] at zero
      cases zero
    · rw [waiting] at saved
      cases saved
      exact owner
    · rw [waiting] at start
      cases start
  · rw [waiting] at own
    simp [none] at own

theorem Stored.enter {plain : List (Process.Event Body)} {after : Process Body} {call : State}
    {thread co main : Nat} {object : Coroutine (Context Body) Body} {body : Body}
    (coherent : Coherent plain process) (stored : Stored layout past process mem)
    (entered : Switching.Entered plain (process.attach thread) thread co main object body after)
    (allocated : Allocated layout ⟨process,mem⟩ after.store.objects.length)
    (code : Agree layout after.store.objects.length
      (written layout process after (.resume thread co) mem) call.mem)
    (rdi : call.regs .rdi = layout.array main) (rsi : call.regs .rsi = layout.array co)
    (returnWord : ∀ k, k < after.store.objects.length →
      Apart (call.regs .rsp) 8 (layout.array k) coctxBytes) :
    Stored layout (.swap (.resume thread co) call::past) after (exec coctxSwap call).mem ∧
      Lands layout past process (.swap (.resume thread co) call) := by
  have attached := coherent.attach thread
  have longer : after.store.objects.length = (process.attach thread).store.objects.length := by
    rw [← identities_length,← identities_length,entered.identities]
  rw [written_construct (by simp),longer] at code
  rw [longer] at allocated returnWord
  have stays : Stored layout past (process.attach thread) call.mem :=
    stored.extend (Keeps.attach process thread) (fun _ => rfl) (fun _ => rfl) allocated code
  obtain ⟨host,there,_⟩ := attached.mains thread main entered.owner
  have mine : ∀ found, after.store.objects[main]? = some found →
      image layout (.swap (.resume thread co) call::past) main found = some
          (suspendedCoctx call) := by
    intro found located
    rw [entered.caller_object there] at located
    cases located
    change (lastResume (.swap (.resume thread co) call::past) thread).map suspendedCoctx = _
    rw [lastResume,if_pos rfl]
    rfl
  have others : ∀ k found, after.store.objects[k]? = some found → k ≠ main →
      ∃ before, (process.attach thread).store.objects[k]? = some before ∧
        found.coctx = before.coctx ∧
        image layout (.swap (.resume thread co) call::past) k found =
            image layout past k before := by
    intro k found located apart
    have resumed {before : Coroutine (Context Body) Body}
      (here : (process.attach thread).store.objects[k]? = some before)
        (t count : Nat) (waiting : before.coctx = .main t count) :
        lastResume (.swap (.resume thread co) call::past) t = lastResume past t := by
      have owner := main_saved attached here waiting
      have different : thread ≠ t := by
        rintro rfl
        exact apart (Option.some.inj (owner.symm.trans entered.owner))
      rw [lastResume,if_neg different]
    by_cases self : k = co
    · subst k
      have kept : found.coctx = object.coctx ∧ found.stackSp = object.stackSp ∧
          found.stackSize = object.stackSize := by
        rcases entered.target with ⟨same,_⟩ | ⟨same,_,_⟩
        · rw [same] at located
          cases located
          exact ⟨rfl,rfl,rfl⟩
        · rw [same] at located
          cases located
          exact ⟨rfl,rfl,rfl⟩
      exact ⟨object,entered.located,kept.1,image_congr kept.1 kept.2.1 kept.2.2 rfl
        (resumed entered.located)⟩
    · rw [entered.elsewhere apart self] at located
      exact ⟨found,located,rfl,image_congr rfl rfl rfl rfl (resumed located)⟩
  have live : object.coctx ≠ .zero := by
    rcases entered.entry with ⟨kind,_⟩ | ⟨kind,_,_⟩
    · rw [kind]
      simp
    · rw [kind]
      simp
  obtain ⟨kept,words,same,arrived⟩ :=
    stays.swap entered.other (List.getElem?_eq_some_iff.mp there).1 entered.located
    live rdi rsi returnWord longer mine others
  refine ⟨kept,?_⟩
  rcases entered.entry with ⟨suspended,_⟩ | ⟨start,_,_⟩
  · obtain ⟨earlier,saved,rfl⟩ := image_saved suspended same
    rw [Lands,saved]
    exact returned_of_entered arrived
  · obtain ⟨prepared,rfl⟩ := image_prepared start same
    rw [Lands,prepared]
    exact ⟨object,entered.present,fun room => entered_first _ _ _ _ room _ arrived (swap_rax call)⟩

theorem Stored.accept {after : Process Body} {later : Memory} {thread co : Nat} {cb : Body}
    {accepted : Bool} (stored : Stored layout past process mem)
    (answer : process.setCallBack thread co cb = .ok (accepted,after))
    (allocated : Allocated layout ⟨process,mem⟩ after.store.objects.length)
    (top : TopSpared layout (.setCallBack thread co cb accepted) after)
    (code : Agree layout after.store.objects.length
      (written layout process after (.setCallBack thread co cb accepted) mem) later) :
    Stored layout (.call (.setCallBack thread co cb accepted)::past) after later := by
  obtain ⟨main,object,_,located,⟨rfl,_,_,same⟩ | ⟨rfl,_,same⟩⟩ :=
    Process.setCallBack_effect thread co cb process after accepted answer
  · let middle := (process.getMainCoroutine thread).2
    let changed : Coroutine (Context Body) Body :=
      { object with callBack := some cb, coctx := .runCallBack co, resumeFlag := true }
    have store : after.store = middle.store.modify co fun _ => changed := by
      rw [same]
    have longer : after.store.objects.length = middle.store.objects.length := by
      rw [store,Store.modify_length]
    have there : after.store.objects[co]? = some changed := by
      rw [store,Store.modify_at,if_pos rfl,show middle.store.objects[co]? =
        some object from located]
      rfl
    rw [longer] at allocated
    have stays := stored.extend (Keeps.getMainCoroutine process thread) (fun _ => rfl)
      (fun _ => rfl) allocated
      (fun _ _ _ _ => rfl)
    have prepared : Stored layout (.call (.setCallBack thread co cb true)::past) after _ :=
      stays.prepare located store rfl (if_pos rfl) (fun k apart => if_neg (Ne.symm apart))
        (fun _ => rfl)
        fun k below => top thread co cb changed rfl there k (by rw [longer]; exact below)
    refine prepared.agree ?_
    rw [written,there,longer] at code
    rw [longer]
    exact code
  · subst after
    rw [written_construct (by simp)] at code
    exact stored.extend (Keeps.getMainCoroutine process thread) (fun _ => rfl)
      (fun _ => rfl) allocated code

end

section
variable {next : Body → Option Body} {layout : Layout} {history : List (Event Body)}
  {joint : Joint Body}

theorem step_stored {past : List (Event Body)} {before after : Joint Body} {event : Event Body}
    (structured : Structured before.process)
    (coherent : Coherent (past.map Event.plain) before.process)
    (stored : Stored layout past before.process before.mem)
    (step : Step next layout before event after) :
    Stored layout (event::past) after.process after.mem ∧
      Lands layout past before.process event := by
  cases step with
  | call event after mem unswapped step allocated top code =>
    refine ⟨?_,trivial⟩
    cases step_effect structured coherent step with
    | grow _ _ fresh plain threads objects unused =>
      rw [written_construct (unset_plain plain)] at code
      exact stored.extend (.append objects fun object member => (unused object member).1)
        (content_call (unset_plain plain) past) (fun _ => rfl) allocated code
    | attach _ _ thread plain reached =>
      rw [written_construct (unset_plain plain)] at code
      exact stored.extend (reached (fun middle => Keeps before.process.store middle.store)
        (fun _ _ => Keeps.makeMain thread) (fun _ _ _ _ kept => kept) (.refl _))
        (content_call (unset_plain plain) past) (fun _ => rfl) allocated code
    | release thread index co pool result store located call =>
      rw [written_construct (by simp)] at code
      exact stored.extend (keeps_release call) (fun _ => rfl) (fun _ => rfl) allocated code
    | accept thread co cb accepted _ answer => exact stored.accept answer allocated top code
    | enter thread co main object body _ entered =>
      rw [parties_enter coherent entered] at unswapped
      cases unswapped
    | leave thread co main body rest _ running more left =>
      rw [(parties_leave before.process left.owner left.current).1] at unswapped
      cases unswapped
    | stop thread co main body _ running done left =>
      rw [(parties_leave before.process left.owner left.current).2] at unswapped
      cases unswapped
  | swap event after call outgoing incoming swapped step allocated code rdi rsi returnWord =>
    cases step_effect structured coherent step with
    | grow _ _ fresh plain threads objects unused =>
      rw [parties_plain plain] at swapped
      cases swapped
    | attach _ _ thread plain reached =>
      rw [parties_plain plain] at swapped
      cases swapped
    | release thread index co pool result store located call => cases swapped
    | accept thread co cb accepted _ answer => cases swapped
    | enter thread co main object body _ entered =>
      rw [parties_enter coherent entered] at swapped
      cases swapped
      dsimp only
      exact stored.enter coherent entered allocated code rdi rsi returnWord
    | leave thread co main body rest _ running more left =>
      rw [(parties_leave before.process left.owner left.current).1] at swapped
      obtain ⟨source,target⟩ : co = outgoing ∧ main = incoming := by simpa using swapped
      subst outgoing incoming
      dsimp only
      obtain ⟨kept,earlier,last,back⟩ := stored.leave (.yield thread co) coherent (.refl _) rfl left
        (Or.inl ⟨rest,rfl⟩)
        (fun _ => rfl) (fun _ => rfl) (by simp) code rdi rsi returnWord
      exact ⟨kept,earlier,last,back⟩
    | stop thread co main body _ running done left =>
      rw [(parties_leave before.process left.owner left.current).2] at swapped
      obtain ⟨source,target⟩ : co = outgoing ∧ main = incoming := by simpa using swapped
      subst outgoing incoming
      dsimp only
      obtain ⟨kept,earlier,last,back⟩ := stored.leave (.finish thread co) (coherent.clear co)
        (.modify _ co fun _ => ⟨rfl,rfl,rfl⟩) (Store.modify_length _ _ _) left (Or.inr rfl)
          (fun _ => rfl) (fun _ => rfl)
        (by simp) code rdi rsi returnWord
      exact ⟨kept,earlier,last,back⟩

theorem reached_stored (run : Reached next layout history joint) :
    Stored layout history joint.process joint.mem := by
  refine run.invariant (fun history joint => Stored layout history joint.process joint.mem) ?_ ?_
  · intro joint start
    rw [start]
    refine ⟨fun j k _ below => ?_,fun co object located => ?_⟩
    · simp [Process.initial,Store.initial] at below
    · simp [Process.initial,Store.initial] at located
  · intro past before event after reached stored _ step
    have run := reached_process reached
    exact (step_stored (reached_structured run) (reached_coherent run) stored step).1

/-- In every run of a sensible program the register array of each coroutine holds the words
of its context: zeroes before the first callback, what setCallBack prepared, or the call
that left the context last. -/
theorem arrays_represent (run : Reached next layout history joint) (co : Nat)
    (object : Coroutine (Context Body) Body)
    (located : joint.process.store.objects[co]? = some object) :
    ∃ words, image layout history co object = some words ∧
      Holds joint.mem (layout.array co) words := by
  obtain ⟨words,same,held,_⟩ := (reached_stored run).arrays co object located
  exact ⟨words,same,held⟩

/-- Every swap of a run lands where the process model says: a Resume at the start of
runCallBack or behind the Yield that left the coroutine last, whichever thread made it, and
leaving a callback behind the Resume call of the same thread. -/
theorem swaps_land {event : Event Body} {past : List (Event Body)} {before after : Joint Body}
    (run : Reached next layout past before) (step : Step next layout before event after) :
    Lands layout past before.process event := by
  have below := reached_process run
  exact (step_stored (reached_structured below) (reached_coherent below)
    (reached_stored run) step).2

end

/-- One coroutine with its stack at `0x10000`, in objects a megabyte apart. -/
def sparse : Layout :=
  { object := fun co => 0x100000#64 * BitVec.ofNat 64 (co + 1), coctx := 8,
    runCallBack := 0x400000 }

def sample : Coroutine (Context Unit) Unit :=
  { Coroutine.default .zero with corId := 1, stackSize := 131072, stackSp := 0x10000 }

def withSample : Process Unit := { Process.initial with store := ⟨[sample],2⟩ }

def prepared : Process Unit :=
  { withSample.setThread 0 { mainCoroutine := some 1, curCoroutine := none, running := .main 0 0 } with
    store := ⟨[{ sample with coctx := .runCallBack 0, resumeFlag := true, callBack := some () },
      Coroutine.default .zero],2⟩ }

def sampleMem : Memory := written sparse Process.initial withSample (.newCoroutine 0) fun _ => 0

def preparedMem : Memory := written sparse withSample prepared (.setCallBack 0 0 () true) sampleMem

def resumeCall : State :=
  { regs := fun reg => if reg = .rdi then sparse.array 1 else if reg = .rsi then sparse.array 0
      else if reg = .rsp then 0x8000 else 0,
    rip := 0, mem := preparedMem }

private theorem sparse_apart {base : Word} {size co : Nat} (low : base.toNat + size ≤ 0x100008)
    (few : co < 2) :
    Apart base size (sparse.array co) coctxBytes := by
  intro byte inside within
  unfold Inside Layout.array sparse coctxBytes at *
  have either : co = 0 ∨ co = 1 := by omega
  rcases either with rfl | rfl
  · simp only [Nat.zero_add,BitVec.ofNat_eq_ofNat] at within
    bv_omega
  · simp only [Nat.reduceAdd,BitVec.ofNat_eq_ofNat] at within
    bv_omega

private theorem prepared_reached (next : Unit → Option Unit) :
    Reached next sparse [.call (.setCallBack 0 0 () true),.call (.newCoroutine 0)]
      ⟨prepared,preparedMem⟩ := by
  have one : withSample.store.objects.length = 1 := rfl
  have two : prepared.store.objects.length = 2 := rfl
  have made : Reached next sparse [.call (.newCoroutine 0)] ⟨withSample,sampleMem⟩ := by
    refine .next [] ⟨Process.initial,fun _ => 0⟩ _ _ (.start _ rfl) trivial (.call _ _ _ _ rfl
      (.newCoroutine _ 131072 0x10000 0 _ (by decide) rfl) ⟨?_,?_⟩ ?_ fun _ _ _ _ => rfl)
    · intro j k before _ below
      rw [one] at below
      omega
    · intro j k object located
      cases located
    · intro thread co cb object event
      cases event
  refine .next _ _ _ _ made rfl (.call _ _ _ _ rfl (.setCallBack _ _ 0 0 () true rfl)
    ⟨?_,?_⟩ ?_ fun _ _ _ _ => rfl)
  · intro j k before above below
    dsimp only at above
    rw [one] at above
    rw [two] at below
    obtain rfl : j = 0 := by omega
    obtain rfl : k = 1 := by omega
    intro byte inside within
    unfold Inside Layout.array sparse coctxBytes at *
    simp only [Nat.zero_add,Nat.reduceAdd,BitVec.ofNat_eq_ofNat] at inside within
    bv_omega
  · intro j k object located saved
    dsimp only at located
    have first : j = 0 := by
      have := (List.getElem?_eq_some_iff.mp located).1
      rw [one] at this
      omega
    subst j
    cases located
    exact absurd rfl saved
  · intro thread co cb object event there k below
    cases event
    cases there
    exact sparse_apart (by decide) below

theorem arrays_represent_sample :
    ∃ words, image sparse [.call (.setCallBack 0 0 () true),.call (.newCoroutine 0)] 0
        { sample with coctx := .runCallBack 0, resumeFlag := true, callBack := some () } = some words ∧
      Holds preparedMem (sparse.array 0) words :=
  arrays_represent (prepared_reached fun _ => none) 0 _ rfl

theorem swaps_land_sample :
    FirstEntry 0x400000 (sparse.object 0) 0x10000 131072 (exec coctxSwap resumeCall) := by
  let next : Unit → Option Unit := fun _ => none
  obtain ⟨after,step⟩ : ∃ after, Step next sparse ⟨prepared,preparedMem⟩
      (.swap (.resume 0 0) resumeCall) after := by
    refine ⟨_,.swap _ _ _ resumeCall 1 0 rfl (.resume _ _ 0 0 rfl) ⟨?_,?_⟩
      (fun _ _ _ _ => rfl) rfl rfl ?_⟩
    · intro j k _ above below
      exact absurd below (Nat.not_lt.mpr above)
    · intro j k object _ _ above below
      exact absurd below (Nat.not_lt.mpr above)
    · intro co below
      exact sparse_apart (by decide) below
  obtain ⟨object,located,enters⟩ := swaps_land (prepared_reached next) step
  cases located
  exact enters (by decide)

end MCoroutine.RegisterArrays
