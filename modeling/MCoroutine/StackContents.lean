import MCoroutine.General.Regions
import MCoroutine.Stacks

/-! What stands in the stacks. As long as code outside the library works on its own stack, a
callback finds its stack as its Yield left it, and main code as its Resume did. -/
namespace MCoroutine.StackContents
open General.ByteMemory General.Regions General.Runs Machine Swap FirstSwap Switching SlotRuns
  Handout RegisterArrays Stacks
open Suspensions (Returned)

variable {Body : Type}

def Allowed (history : List (Event Body)) (joint : Joint Body) (event : Event Body) : Prop :=
  Sole (history.map Event.plain) joint.process event.plain

abbrev Reached (next : Body → Option Body) (layout : Layout) (ground : Ground)
    (history : List (Event Body)) (joint : Joint Body) : Prop :=
  Run (fun joint => joint.process = Process.initial) Allowed
    (fun before event after => Step next layout before event after ∧
      Orderly layout ground before event after)
    history joint

section
variable {next : Body → Option Body} {layout : Layout} {ground : Ground}
  {history : List (Event Body)} {joint : Joint Body}

private theorem reached_sole (run : Reached next layout ground history joint) :
    Run (fun process => process = Process.initial) Sole (Process.Step next)
      (history.map Event.plain) joint.process := by
  induction run with
  | start joint ready => exact .start _ ready
  | next past before event after _ sole step ih =>
    obtain ⟨taken,_⟩ := step
    cases taken with
    | call event after mem unswapped step => exact .next _ _ _ _ ih sole step
    | swap event after call outgoing incoming swapped step => exact .next _ _ _ _ ih sole step

private theorem reached_joint (run : Reached next layout ground history joint) :
    RegisterArrays.Reached next layout history joint := by
  induction run with
  | start joint ready => exact .start _ ready
  | next past before event after reached sole step ih =>
    refine .next _ _ _ _ ih ?_ step.1
    have held := sole
    unfold RegisterArrays.Allowed Sensible
    unfold Allowed Sole at held
    cases plain : event.plain with
    | setCallBack thread co cb accepted =>
      cases accepted with
      | true =>
        rw [plain] at held
        exact held_stacked (reached_sole reached) held
      | false => trivial
    | _ => trivial

end

def Kept (history : List (Event Body)) (process : Process Body) (owner : Owner) (kept : Memory) :
    Prop :=
  Absent process owner ∧ ∃ call, departure history owner = some call ∧ kept = call.mem

/-- The stack pointers of the owners that have left. -/
structure Seated (ground : Ground) (history : List (Event Body)) (process : Process Body) :
    Prop where
  threads : ∀ (thread : Nat) (call : State), Absent process (.thread thread) →
    departure history (.thread thread) = some call → ∀ byte, Inside (call.regs .rsp) 8 byte →
      Region ground process.store (.thread thread) byte
  coroutines : ∀ (co c : Nat) (object : Coroutine (Context Body) Body) (rest : Body) (call : State),
    process.store.objects[co]? = some object → object.coctx = .callBack c rest →
      content history co = .saved call →
      ∀ byte, Inside (call.regs .rsp) 8 byte → Region ground process.store (.coroutine co) byte

section
variable {layout : Layout} {ground : Ground} {next : Body → Option Body}
  {past history : List (Event Body)} {joint before after : Joint Body} {event : Event Body}

private theorem suspended_stacked {plain : List (Process.Event Body)} {process : Process Body}
    {co c : Nat} {object : Coroutine (Context Body) Body} {rest : Body}
    (coherent : Coherent plain process) (located : process.store.objects[co]? = some object)
    (suspended : object.coctx = .callBack c rest) :
    object.stackSp ≠ 0 := by
  intro bare
  obtain ⟨_,⟨_,zero | ⟨_,_,_,main⟩⟩ | ⟨start,_⟩⟩ := (coherent.belongs co object located).bare bare
  · rw [suspended] at zero
    cases zero
  · rw [suspended] at main
    cases main
  · rw [suspended] at start
    cases start

private theorem enter_span {thread co main : Nat} {object : Coroutine (Context Body) Body}
    {body : Body} {words : Coctx} (small : object.stackSize < 2^32) (room : 16 ≤ object.stackSize)
    (seated : Seated ground past before.process)
    (entered : Switching.Entered (past.map Event.plain)
      (before.process.attach thread) thread co main object body after.process)
    (same : image layout past co object = some words) {byte : Word}
    (inside : Inside (words kRSP) 8 byte) :
    Span object byte := by
  rcases entered.entry with ⟨suspended,_⟩ | ⟨start,_,_⟩
  · obtain ⟨call,saved,rfl⟩ := image_saved suspended same
    obtain ⟨found,located,live⟩ := seated.coroutines co co object body call entered.present
      suspended saved byte inside
    obtain rfl := Option.some.inj (located.symm.trans entered.present)
    exact live_span small live
  · obtain ⟨_,rfl⟩ := image_prepared start same
    rw [initialCoctx_rsp] at inside
    exact top_span room small inside

private theorem entered_object {plain : List (Process.Event Body)} {process later : Process Body}
    {thread co main : Nat} {object : Coroutine (Context Body) Body} {body : Body}
    (entered : Switching.Entered plain process thread co main object body later) :
    ∃ found, later.store.objects[co]? = some found ∧ found.stackSp = object.stackSp ∧
      found.stackSize = object.stackSize := by
  rcases entered.target with ⟨there,_⟩ | ⟨there,_,_⟩
  · exact ⟨_,there,rfl,rfl⟩
  · exact ⟨_,there,rfl,rfl⟩

/-- Owners that are away are spared by what lies on the stack of a coroutine that runs. -/
private theorem span_spares {plain : List (Process.Event Body)}
    (run : Run (fun process => process = Process.initial) Sole
      (Process.Step next) plain joint.process)
    (grounds : ∀ (thread co : Nat) (object : Coroutine (Context Body) Body) (byte : Word),
      joint.process.store.objects[co]? = some object → Region ground joint.process.store
      (.thread thread) byte → ¬ Span object byte)
    {co : Nat} {object : Coroutine (Context Body) Body}
    (located : joint.process.store.objects[co]? = some object) (stack : object.stackSp ≠ 0)
    (executing : Executing joint.process co) {owner : Owner} (absent : Absent joint.process owner)
    {byte : Word} (inside : Region ground joint.process.store owner byte) :
    ¬ Span object byte := by
  cases owner with
  | thread thread => exact grounds thread co object byte located inside
  | coroutine k =>
    obtain ⟨idle,found,c,rest,there,suspended⟩ := absent
    obtain ⟨other,here,live⟩ := inside
    obtain rfl := Option.some.inj (there.symm.trans here)
    have apart : co ≠ k := by
      rintro rfl
      exact idle executing
    have high := suspended_stacked (reached_coherent (sole_sensible run)) there suspended
    have disjoint := stacks_disjoint run located there stack high apart
    intro span
    exact spans_spare (stack_bounds run located stack).2
      (stack_bounds run there high).2 disjoint span live

private theorem ground_spares
    (grounds : ∀ (thread co : Nat) (object : Coroutine (Context Body) Body) (byte : Word),
      joint.process.store.objects[co]? = some object → Region ground joint.process.store
      (.thread thread) byte → ¬ Span object byte)
    (small : ∀ (co : Nat) (object : Coroutine (Context Body) Body),
      joint.process.store.objects[co]? = some object → ∀ c rest, object.coctx = .callBack c rest →
      object.stackSize < 2^32)
    {thread count : Nat} (outside : (joint.process.threads thread).running = .main thread count)
    {owner : Owner} (absent : Absent joint.process owner) {byte : Word}
    (inside : Region ground joint.process.store owner byte) :
    ¬ Region ground joint.process.store (.thread thread) byte := by
  intro mine
  cases owner with
  | thread other =>
    obtain ⟨co,body,running⟩ := absent
    have apart : thread ≠ other := by
      rintro rfl
      rw [outside] at running
      cases running
    exact ground.apart thread other apart byte mine inside
  | coroutine k =>
    obtain ⟨_,found,c,rest,there,suspended⟩ := absent
    obtain ⟨other,here,live⟩ := inside
    obtain rfl := Option.some.inj (there.symm.trans here)
    exact grounds thread k found byte there mine
      (live_span (small k found there c rest suspended) live)

end

section
variable {layout : Layout} {ground : Ground} {next : Body → Option Body} {past : List (Event Body)}
  {before after : Joint Body} {event : Event Body}

/-- What a swap or a call without one changes apart from the register arrays, and whom that spares. -/
private theorem turn_word
    (run : Run (fun process => process = Process.initial) Sole (Process.Step next)
      (event.plain::past.map Event.plain) after.process)
    (seated : Seated ground past before.process)
    (orderly : Orderly layout ground before event after)
    (turn : Turn layout past before after event) :
    ∃ word : Word → Prop,
      (∀ byte, (∀ co, co < after.process.store.objects.length →
        ¬ Inside (layout.array co) coctxBytes byte) →
        ¬ word byte → after.mem byte = behind after event byte) ∧
      ∀ owner, Absent after.process owner → ∀ byte, Region ground after.process.store owner byte →
        ¬ word byte := by
  have coherent := reached_coherent (sole_sensible run)
  cases turn with
  | call event kind => exact ⟨fun _ => False,fun _ _ _ => rfl,fun _ _ _ _ => id⟩
  | enter thread co main object body call words entered same known pushes =>
    obtain ⟨found,there,pointer,size⟩ := entered_object entered
    have stack : found.stackSp ≠ 0 := by
      rw [pointer]
      exact entered.stack
    have small := (stack_bounds run there stack).1
    rw [size] at small
    have room := (orderly.resumes thread co call rfl).2 object entered.present
    refine ⟨fun byte => Inside (words kRSP) 8 byte,?_,?_⟩
    · intro byte outside unpushed
      rw [pushes byte (outside main known),store_outside _ _ _ _ unpushed]
      rfl
    · intro owner absent byte inside pushed
      have span := enter_span small room seated entered same pushed
      have executing : Executing after.process co :=
        ⟨thread,body,by rw [entered.threads,Function.update_self]⟩
      refine span_spares run orderly.grounds there stack executing absent inside ?_
      rw [Span,pointer,size]
      exact span
  | leave thread co event body count call earlier kind within main last known pushes =>
    refine ⟨fun byte => Inside (earlier.regs .rsp) 8 byte,?_,?_⟩
    · intro byte outside unpushed
      rw [pushes byte (outside co known),store_outside _ _ _ _ unpushed]
      rfl
    · intro owner absent byte inside pushed
      refine ground_spares orderly.grounds ?_ main absent inside ?_
      · intro k object located c rest suspended
        exact (stack_bounds run located (suspended_stacked coherent located suspended)).1
      · exact seated.threads thread earlier ⟨co,body,within⟩ last byte pushed

private theorem step_kept
    (run : Run (fun process => process = Process.initial) Sole (Process.Step next)
      (event.plain::past.map Event.plain) after.process)
    (coherent : Coherent (past.map Event.plain) before.process)
    (effect : Effect next (past.map Event.plain) before.process event.plain after.process)
    (longer : before.process.store.objects.length ≤ after.process.store.objects.length)
    (seated : Seated ground past before.process)
    (orderly : Orderly layout ground before event after)
    (turn : Turn layout past before after event)
    (intact : Intact (Region ground before.process.store) (Kept past before.process) before.mem) :
    Intact (Region ground after.process.store) (Kept (event::past) after.process) after.mem := by
  obtain ⟨word,changed,spares⟩ := turn_word run seated orderly turn
  let written (byte : Word) : Prop :=
    (∃ co, co < after.process.store.objects.length ∧ Inside (layout.array co) coctxBytes byte) ∨
      word byte ∨
      ¬ ∃ owner, Absent before.process owner ∧ Region ground before.process.store owner byte
  have changes : Changes written before.mem after.mem := by
    intro byte unwritten
    have outside : ∀ co, co < after.process.store.objects.length →
        ¬ Inside (layout.array co) coctxBytes byte :=
      fun co bound inside => unwritten (Or.inl ⟨co,bound,inside⟩)
    obtain ⟨owner,absent,inside⟩ := not_not.mp fun none => unwritten (Or.inr (Or.inr none))
    rw [changed byte outside fun pushed => unwritten (Or.inr (Or.inl pushed)),
      orderly.code owner absent byte inside,
      written_outside longer outside]
  refine intact.step changes ?_
  rintro owner kept ⟨absent,call,gone,rfl⟩
  have spared (byte : Word) (inside : Region ground after.process.store owner byte) :
      (∀ co, co < after.process.store.objects.length → ¬ Inside (layout.array co) coctxBytes byte) ∧
          ¬ word byte :=
    ⟨fun co bound => orderly.arrays co bound owner byte inside,spares owner absent byte inside⟩
  have stays (away : Absent before.process owner) (kept : departure past owner = some call)
      (region : ∀ byte, Region ground after.process.store owner byte →
        Region ground before.process.store owner byte) :
      Kept past before.process owner call.mem ∧
        ∀ byte, Region ground after.process.store owner byte →
        Region ground before.process.store owner byte ∧ ¬ written byte := by
    refine ⟨⟨away,call,kept,rfl⟩,fun byte inside => ⟨region byte inside,?_⟩⟩
    obtain ⟨outside,unpushed⟩ := spared byte inside
    rintro (⟨co,bound,array⟩ | pushed | nobody)
    · exact outside co bound array
    · exact unpushed pushed
    · exact nobody ⟨owner,away,region byte inside⟩
  have leaves (left : leaver event = some (owner,call)) (byte : Word)
      (inside : Region ground after.process.store owner byte) : after.mem byte = call.mem byte := by
    obtain ⟨outside,unpushed⟩ := spared byte inside
    rw [changed byte outside unpushed]
    rcases leaver_swap left with ⟨_,_,rfl,_⟩ | ⟨_,_,rfl,_⟩
    · rfl
    · rfl
  cases owner with
  | thread thread =>
    rcases thread_cases effect turn absent gone with left | ⟨away,kept⟩
    · exact Or.inr (leaves left)
    · exact Or.inl (stays away kept fun _ => id)
  | coroutine co =>
    rcases coroutine_cases coherent effect turn absent gone with left | ⟨away,kept,region⟩
    · exact Or.inr (leaves left)
    · exact Or.inl (stays away kept (region ground))

private theorem step_seated (coherent : Coherent (past.map Event.plain) before.process)
    (effect : Effect next (past.map Event.plain) before.process event.plain after.process)
    (seated : Seated ground past before.process)
    (orderly : Orderly layout ground before event after)
    (turn : Turn layout past before after event) : Seated ground (event::past) after.process := by
  refine ⟨?_,?_⟩
  · intro thread call absent gone byte inside
    rcases thread_cases effect turn absent gone with left | ⟨away,kept⟩
    · rcases leaver_swap left with ⟨_,target,rfl,same⟩ | ⟨_,_,_,other⟩
      · cases same
        exact (orderly.resumes thread target call rfl).1 byte inside
      · cases other
    · exact seated.threads thread call away kept byte inside
  · intro co c found rest call located suspended saved byte inside
    have gone : departure (event::past) (.coroutine co) = some call := by
      rw [departure,saved]
    rcases suspended_cases coherent effect turn located suspended gone with
      left | ⟨_,kept,object,there,coctx,identity⟩
    · rcases leaver_swap left with ⟨_,_,_,other⟩ | ⟨thread,_,rfl,same⟩
      · cases other
      · cases same
        exact orderly.yields thread co call rfl byte inside
    · have saved := departure_saved kept
      obtain ⟨other,here,live⟩ := seated.coroutines co c object rest call there
        (by rw [← coctx,suspended]) saved byte inside
      obtain rfl := Option.some.inj (there.symm.trans here)
      refine ⟨found,located,?_⟩
      rw [Live,identity.1,identity.2]
      exact live

end

private theorem step_process {next : Body → Option Body} {layout : Layout}
    {before after : Joint Body} {event : Event Body} (step : Step next layout before event after) :
    Process.Step next before.process event.plain after.process := by
  cases step with
  | call event after mem unswapped step => exact step
  | swap event after call outgoing incoming swapped step => exact step

structure Stepped (next : Body → Option Body) (layout : Layout) (ground : Ground)
    (past : List (Event Body)) (before after : Joint Body) (event : Event Body) : Prop where
  run : Run (fun process => process = Process.initial) Sole (Process.Step next)
    (event.plain::past.map Event.plain)
    after.process
  coherent : Coherent (past.map Event.plain) before.process
  effect : Effect next (past.map Event.plain) before.process event.plain after.process
  longer : before.process.store.objects.length ≤ after.process.store.objects.length
  orderly : Orderly layout ground before event after
  turn : Turn layout past before after event
  lands : Lands layout past before.process event

section
variable {next : Body → Option Body} {layout : Layout} {ground : Ground}
  {past history : List (Event Body)} {joint before after : Joint Body} {event : Event Body}

private theorem reached_stepped (reached : Reached next layout ground past before)
    (permitted : Allowed past before event) (step : Step next layout before event after)
    (orderly : Orderly layout ground before event after) :
    Stepped next layout ground past before after event := by
  have sole := reached_sole reached
  have structured := reached_structured sole
  have coherent := reached_coherent (sole_sensible sole)
  have stored := reached_stored (reached_joint reached)
  have taken := step_process step
  refine ⟨.next _ _ _ _ sole permitted taken,coherent,
    step_effect structured coherent taken,?_,orderly,
    step_turn structured coherent stored step,(step_stored structured coherent stored step).2⟩
  obtain ⟨more,same⟩ := step_lasts structured taken
  rw [← identities_length,← identities_length,same,List.length_append]
  exact Nat.le_add_right _ _

private theorem reached_kept (run : Reached next layout ground history joint) :
    Seated ground history joint.process ∧
    Intact (Region ground joint.process.store) (Kept history joint.process) joint.mem := by
  refine run.invariant (fun history joint => Seated ground history joint.process ∧
    Intact (Region ground joint.process.store) (Kept history joint.process) joint.mem) ?_ ?_
  · intro joint start
    have nobody (owner : Owner) : ¬ Absent joint.process owner := by
      rw [start]
      cases owner with
      | thread thread =>
        rintro ⟨co,body,running⟩
        cases running
      | coroutine co =>
        rintro ⟨_,object,c,rest,located,_⟩
        cases located
    refine ⟨⟨fun thread call absent => absurd absent (nobody _),?_⟩,fun owner kept left =>
      absurd left.1 (nobody owner)⟩
    intro co c object rest call located
    rw [start] at located
    cases located
  · rintro past before event after reached ⟨seated,intact⟩ permitted ⟨step,orderly⟩
    have stepped := reached_stepped reached permitted step orderly
    exact ⟨step_seated stepped.coherent stepped.effect seated orderly stepped.turn,
      step_kept stepped.run stepped.coherent stepped.effect stepped.longer seated orderly
        stepped.turn intact⟩

private theorem kept_call {plain : Process.Event Body} {call earlier : State} {owner : Owner}
    (reached : Reached next layout ground past before)
    (stepped : Stepped next layout ground past before after (.swap plain call))
    (absent : Absent before.process owner) (gone : departure past owner = some earlier)
    {byte : Word} (inside : Region ground before.process.store owner byte)
    (outside : ∀ co, co < after.process.store.objects.length →
      ¬ Inside (layout.array co) coctxBytes byte) :
    call.mem byte = earlier.mem byte := by
  have code : call.mem byte = _ := stepped.orderly.code owner absent byte inside
  rw [code,written_outside stepped.longer outside]
  exact (reached_kept reached).2 owner earlier.mem ⟨absent,earlier,gone,rfl⟩ byte inside

end

/-- Where a swap goes back to code that has left before, it returns from the call of that
code, to its registers and to its stack as the call left it. Of a coroutine that another
thread executes nothing is promised. -/
def Continues (ground : Ground) (past : List (Event Body)) (before after : Joint Body) :
    Event Body → Prop
  | .call _ => True
  | .swap (.resume _ co) call => ¬ Executing before.process co →
      ∀ earlier, content past co = .saved earlier →
      Returned earlier (exec coctxSwap call) ∧
        ∀ byte, Region ground after.process.store (.coroutine co) byte →
          after.mem byte = earlier.mem byte
  | .swap (.yield thread _) call => ∃ earlier, lastResume past thread = some earlier ∧
      Returned earlier (exec coctxSwap call) ∧
        ∀ byte, Region ground after.process.store (.thread thread) byte →
          after.mem byte = earlier.mem byte
  | .swap (.finish thread _) call => ∃ earlier, lastResume past thread = some earlier ∧
      Returned earlier (exec coctxSwap call) ∧
        ∀ byte, Region ground after.process.store (.thread thread) byte →
          after.mem byte = earlier.mem byte
  | .swap _ _ => False

/-- In every run a callback finds its stack as it left it, and so does main code. -/
theorem stacks_kept (next : Body → Option Body) (layout : Layout) (ground : Ground)
    (past : List (Event Body)) (before after : Joint Body) (event : Event Body)
    (run : Reached next layout ground past before) (permitted : Allowed past before event)
    (step : Step next layout before event after)
    (orderly : Orderly layout ground before event after) :
    Continues ground past before after event := by
  have stepped := reached_stepped run permitted step orderly
  have lands := stepped.lands
  cases stepped.turn with
  | call event kind => trivial
  | enter thread co main object body call words entered same known pushes =>
    intro idle earlier saved
    rw [Lands,saved] at lands
    refine ⟨lands,fun byte inside => ?_⟩
    rcases entered.entry with ⟨suspended,_⟩ | ⟨start,_,_⟩
    · obtain ⟨left,found,rfl⟩ := image_saved suspended same
      obtain rfl : earlier = left := by
        rw [saved] at found
        cases found
        rfl
      have outside (k : Nat) (bound : k < after.process.store.objects.length) :=
        orderly.arrays k bound (.coroutine co) byte inside
      have absent : Absent before.process (.coroutine co) :=
        ⟨idle,object,co,body,entered.present,suspended⟩
      have gone : departure past (.coroutine co) = some earlier := by rw [departure,saved]
      have there : Region ground before.process.store (.coroutine co) byte := by
        refine region_before (fun found located => ⟨object,entered.present,?_⟩) inside
        obtain ⟨again,here,identity⟩ := entered_object entered
        obtain rfl := Option.some.inj (here.symm.trans located)
        exact identity
      rw [pushes byte (outside main known)]
      exact store_back (kept_call run stepped absent gone there outside)
    · rw [(image_prepared start same).1] at saved
      cases saved
  | leave thread co plain body count call earlier kind inside outside last known pushes =>
    have absent : Absent before.process (.thread thread) := ⟨co,body,inside⟩
    have stays (byte : Word) (here : Region ground after.process.store (.thread thread) byte) :
        after.mem byte = earlier.mem byte := by
      have outside (k : Nat) (bound : k < after.process.store.objects.length) :=
        orderly.arrays k bound (.thread thread) byte here
      rw [pushes byte (outside co known)]
      exact store_back (kept_call run stepped absent last here outside)
    rcases kind with rfl | rfl
    · obtain ⟨resumed,same,back⟩ := lands
      obtain rfl := Option.some.inj (last.symm.trans same)
      exact ⟨earlier,last,back,stays⟩
    · obtain ⟨resumed,same,back⟩ := lands
      obtain rfl := Option.some.inj (last.symm.trans same)
      exact ⟨earlier,last,back,stays⟩

/-- Thread 0 has its stack at `0x8000`. -/
def lowGround : Ground where
  base := fun _ => 0x8000
  size := fun thread => if thread = 0 then 0x1000 else 0
  apart := by
    intro thread other differ byte inside within
    unfold Inside at *
    by_cases first : thread = 0
    · rw [if_neg fun same => differ (first.trans same.symm)] at within
      exact absurd within (Nat.not_lt_zero _)
    · rw [if_neg first] at inside
      exact absurd inside (Nat.not_lt_zero _)

/-- Few objects, of which all stacks are the one at `0x10000`. -/
def loneStack (store : Store Bool) : Bool :=
  store.objects.length ≤ 3 && store.objects.all fun object =>
    (object.stackSp == 0 && object.stackSize == 0) ||
      (object.stackSp == 65536 && object.stackSize == 16)

private theorem loneStack_at {store : Store Bool} (holds : loneStack store = true) {co : Nat}
    {object : Coroutine (Context Bool) Bool} (located : store.objects[co]? = some object) :
    co < 3 ∧ ((object.stackSp = 0 ∧ object.stackSize = 0) ∨
      (object.stackSp = 65536 ∧ object.stackSize = 16)) := by
  rw [loneStack,Bool.and_eq_true,List.all_eq_true] at holds
  have bound := (List.getElem?_eq_some_iff.mp located).1
  have few := of_decide_eq_true holds.1
  have sized := holds.2 object (List.mem_of_getElem? located)
  refine ⟨by omega,?_⟩
  simpa using sized

private theorem sparse_high {byte : Word} (low : byte.toNat < 0x100000) {co : Nat} (few : co < 3) :
    ¬ Inside (sparse.array co) coctxBytes byte := by
  intro within
  unfold Inside Layout.array sparse coctxBytes at within
  interval_cases co <;> simp only [BitVec.ofNat_eq_ofNat,Nat.reduceAdd] at within <;> bv_omega

private theorem sparse_separate {j k : Nat} (before : j < k) (few : k < 3) :
    Apart (sparse.array j) coctxBytes (sparse.array k) coctxBytes := by
  intro byte inside within
  unfold Inside Layout.array sparse coctxBytes at *
  interval_cases k <;> interval_cases j <;> simp only [BitVec.ofNat_eq_ofNat,
    Nat.reduceAdd] at inside within <;> bv_omega

private theorem loneStack_low {store : Store Bool} (holds : loneStack store = true) {owner : Owner}
    {byte : Word} (inside : Region lowGround store owner byte) : byte.toNat < 0x100000 := by
  cases owner with
  | thread thread =>
    change Inside 0x8000#64 (if thread = 0 then 0x1000 else 0) byte at inside
    unfold Inside at inside
    split at inside
    · bv_omega
    · omega
  | coroutine co =>
    obtain ⟨object,located,live⟩ := inside
    unfold Live Inside at live
    rcases (loneStack_at holds located).2 with ⟨_,none⟩ | ⟨pointer,size⟩
    · rw [none] at live
      omega
    · rw [pointer,size] at live
      bv_omega

private theorem loneStack_ground {store : Store Bool} (holds : loneStack store = true)
    (thread co : Nat) (object : Coroutine (Context Bool) Bool) (byte : Word)
    (located : store.objects[co]? = some object)
    (inside : Region lowGround store (.thread thread) byte) : ¬ Span object byte := by
  intro span
  change Inside 0x8000#64 (if thread = 0 then 0x1000 else 0) byte at inside
  unfold Span Inside at *
  split at inside
  · rcases (loneStack_at holds located).2 with ⟨pointer,size⟩ | ⟨pointer,size⟩
    · rw [pointer,size] at span
      bv_omega
    · rw [pointer,size] at span
      bv_omega
  · omega

private theorem loneStack_few {store : Store Bool} (holds : loneStack store = true) :
    store.objects.length ≤ 3 := by
  rw [loneStack,Bool.and_eq_true] at holds
  exact of_decide_eq_true holds.1

/-- A swap called with `top` as stack pointer. -/
def swapCall (outgoing incoming : Nat) (top : Word) (mem : Memory) : State :=
  { regs := fun reg => if reg = .rdi then sparse.array outgoing
    else if reg = .rsi then sparse.array incoming
      else if reg = .rsp then top else 0,
    rip := 0, mem := mem }

section
variable {next : Bool → Option Bool} {process after : Process Bool} (mem : Memory)
  {event : Process.Event Bool} (unbroken : Process.Step next process event after)
  (holds : loneStack after.store = true)
include unbroken holds

/-- A call behind which no code runs, before the first swap. -/
private theorem loneStack_call (unswapped : parties process event = none)
    (zero : ∀ object ∈ process.store.objects, object.coctx = .zero)
    (top : ∀ thread co cb object, event = .setCallBack thread co cb true →
      after.store.objects[co]? = some object → object.stackSp = 65536 ∧ object.stackSize = 16) :
    Step next sparse ⟨process,mem⟩ (.call event) ⟨after,written sparse process after event mem⟩ ∧
      Orderly sparse lowGround ⟨process,mem⟩ (.call event)
        ⟨after,written sparse process after event mem⟩ := by
  have few := loneStack_few holds
  refine ⟨.call ⟨process,mem⟩ event after _ unswapped unbroken ⟨?_,?_⟩ ?_ fun _ _ _ _ => rfl,?_⟩
  · exact fun j k smaller _ below => sparse_separate smaller (by omega)
  · exact fun j k object located saved => absurd (zero object (List.mem_of_getElem? located)) saved
  · intro thread co cb object same located k below byte inside
    obtain ⟨pointer,size⟩ := top thread co cb object same located
    rw [pointer,size,show stackTop 65536 16 = 65552#64 from rfl] at inside
    refine sparse_high ?_ (by omega)
    unfold Inside at inside
    bv_omega
  · refine ⟨fun _ _ _ _ => rfl,?_,loneStack_ground holds,by simp,by simp⟩
    exact fun co below owner byte inside =>
      sparse_high (loneStack_low holds inside) (Nat.lt_of_lt_of_le below few)

/-- A swap right behind the writes of the library. -/
private theorem loneStack_swap (outgoing incoming : Nat) (top : Word)
    (swapped : parties process event = some (outgoing,incoming))
    (length : after.store.objects.length = process.store.objects.length) (low : top.toNat < 0x80000)
    (resumes : ∀ thread co, event = .resume thread co →
      (∀ byte, Inside top 8 byte → Region lowGround after.store (.thread thread) byte) ∧
      ∀ object, process.store.objects[co]? = some object → 16 ≤ object.stackSize)
    (yields : ∀ thread co, event = .yield thread co → ∀ byte, Inside top 8 byte →
      Region lowGround after.store (.coroutine co) byte) :
    let call := swapCall outgoing incoming top (written sparse process after event mem)
    Step next sparse ⟨process,mem⟩ (.swap event call) ⟨after,(exec coctxSwap call).mem⟩ ∧
      Orderly sparse lowGround ⟨process,mem⟩ (.swap event call)
        ⟨after,(exec coctxSwap call).mem⟩ := by
  have few := loneStack_few holds
  refine ⟨.swap ⟨process,mem⟩ event after _ outgoing incoming swapped unbroken ⟨?_,?_⟩
    (fun _ _ _ _ => rfl) rfl rfl ?_,?_⟩
  · exact fun j k _ above below => absurd below (by dsimp only at above; omega)
  · exact fun j k object _ _ above below => absurd below (by dsimp only at above; omega)
  · intro co below byte inside
    refine sparse_high ?_ (by omega)
    change Inside top 8 byte at inside
    unfold Inside at inside
    bv_omega
  · refine ⟨fun _ _ _ _ => rfl,?_,loneStack_ground holds,?_,?_⟩
    · exact fun co below owner byte inside =>
        sparse_high (loneStack_low holds inside) (Nat.lt_of_lt_of_le below few)
    · intro thread co other same
      cases same
      exact resumes thread co rfl
    · intro thread co other same
      cases same
      exact yields thread co rfl

end

def oneYield (body : Bool) : Option Bool := if body then some false else none

/-- The process with one coroutine, which has been given a callback that yields once, after
some calls of thread 0. -/
def loneProcess (context host : Context Bool) (running : Bool) (thread : Thread Bool) :
    Process Bool :=
  { (oneProcess true).setThread 0 thread with
    store :=
      { objects :=
          [.default .zero,
            { corId := 1, coctx := context, stackSize := 16, stackSp := 65536,
              cbfuncRunningFlag := running,
              resumeFlag := true, callBack := some true },
            .default host],
        curCoroutineId := 2 } }

private theorem process_ext {process other : Process Bool} (store : process.store = other.store)
    (pools : process.pools = other.pools)
    (threads : ∀ thread, process.threads thread = other.threads thread) :
    process = other := by
  cases process
  cases other
  simp only [Process.mk.injEq]
  exact ⟨store,funext threads,pools⟩

private theorem lowGround_word (store : Store Bool) (byte : Word) (inside : Inside 0x8100 8 byte) :
    Region lowGround store (.thread 0) byte := by
  change Inside 0x8000#64 0x1000 byte
  unfold Inside at *
  bv_omega

set_option maxRecDepth 2000 in
private theorem lone_reached : ∃ history mem, Reached oneYield sparse lowGround history
    ⟨loneProcess (.runCallBack 1) .zero false ⟨some 2,none,.main 0 0⟩,mem⟩ := by
  have made : Reached oneYield sparse lowGround [.call (.newPool 1 16)] ⟨oneProcess false,_⟩ :=
    .next _ ⟨Process.initial,fun _ => 0⟩ _ _ (.start _ rfl) ⟨rfl,by decide,by decide⟩
      (loneStack_call _ (.newPool Process.initial 1 16 [65536] [] _ (onePool 0 false)
        (by decide) one_array rfl)
        rfl rfl (fun _ member => by cases member) nofun)
  have taken : Reached oneYield sparse lowGround [.call (.getCoroutine 0 0 1),.call (.newPool 1 16)]
      ⟨oneProcess true,_⟩ :=
    .next _ _ _ _ made trivial
      (loneStack_call _ (.getCoroutine _ 0 0 1 [] [] (onePool 0 false) (onePool 0 true) _ rfl
        (onePool_supplied 0 false) rfl)
        rfl rfl (by decide) nofun)
  have set : Process.Step oneYield (oneProcess true) (.setCallBack 0 1 true true)
      (loneProcess (.runCallBack 1) .zero false ⟨some 2,none,.main 0 0⟩) :=
        .setCallBack _ _ 0 1 true true rfl
  have given : Reached oneYield sparse lowGround
      [.call (.setCallBack 0 1 true true),.call (.getCoroutine 0 0 1),.call (.newPool 1 16)] _ :=
    .next _ _ _ _ taken (Or.inl ⟨rfl,rfl⟩) (loneStack_call _ set rfl rfl (by decide) (by
      rintro _ _ _ object ⟨⟩ ⟨⟩
      exact ⟨rfl,rfl⟩))
  exact ⟨_,_,given⟩

/-- The second Resume goes back to the Yield, with the stack as it was then. -/
theorem stacks_kept_again :
    ∃ (past : List (Event Bool)) (before after : Joint Bool) (left call : State),
      Reached oneYield sparse lowGround past before ∧ content past 1 = .saved left ∧
      Step oneYield sparse before (.swap (.resume 0 1) call) after ∧
        Returned left (exec coctxSwap call) ∧
      ∀ byte, Region lowGround after.process.store (.coroutine 1) byte →
        after.mem byte = left.mem byte := by
  obtain ⟨_,_,reached⟩ := lone_reached
  have enter : Process.Step oneYield (loneProcess (.runCallBack 1) .zero false
    ⟨some 2,none,.main 0 0⟩) (.resume 0 1)
      (loneProcess (.runCallBack 1) (.main 0 1) true ⟨some 2,some 1,.callBack 1 true⟩) :=
    .resume _ _ 0 1 (congrArg Except.ok (process_ext rfl rfl fun thread => by cases thread <;> rfl))
  have leave : Process.Step oneYield (loneProcess (.runCallBack 1) (.main 0 1) true
    ⟨some 2,some 1,.callBack 1 true⟩)
      (.yield 0 1) (loneProcess (.callBack 1 false) (.main 0 1) true ⟨some 2,some 2,.main 0 1⟩) :=
    .yield _ _ 0 1 true false rfl rfl (congrArg Except.ok
      (process_ext rfl rfl fun thread => by cases thread <;> rfl))
  have back : Process.Step oneYield (loneProcess (.callBack 1 false) (.main 0 1) true
    ⟨some 2,some 2,.main 0 1⟩)
      (.resume 0 1) (loneProcess (.callBack 1 false) (.main 0 2) true
          ⟨some 2,some 1,.callBack 1 false⟩) :=
    .resume _ _ 0 1 (congrArg Except.ok (process_ext rfl rfl fun thread => by cases thread <;> rfl))
  have entered : Reached oneYield sparse lowGround (.swap (.resume 0 1) _::_) _ :=
    .next _ _ _ _ reached trivial (loneStack_swap _ enter rfl 2 1 0x8100 rfl rfl (by decide) (by
    rintro _ _ ⟨⟩
    refine ⟨lowGround_word _,?_⟩
    rintro object ⟨⟩
    decide) nofun)
  have left : Reached oneYield sparse lowGround (.swap (.yield 0 1) _::_) _ :=
    .next _ _ _ _ entered trivial (loneStack_swap _ leave rfl 1 2 65544 rfl rfl
    (by decide) nofun (by
    rintro _ _ ⟨⟩ byte inside
    exact ⟨_,rfl,inside⟩))
  obtain ⟨step,orderly⟩ := loneStack_swap _ back rfl 2 1 0x8100 rfl rfl (by decide) (by
    rintro _ _ ⟨⟩
    refine ⟨lowGround_word _,?_⟩
    rintro object ⟨⟩
    decide) nofun
  have idle : ¬ Executing (loneProcess (.callBack 1 false) (.main 0 1) true
      ⟨some 2,some 2,.main 0 1⟩) 1 := by
    rintro ⟨thread,body,running⟩
    cases thread <;> cases running
  have kept := stacks_kept _ _ _ _ _ _ _ left
    (show Allowed _ _ (.swap (.resume 0 1) _) from trivial) step orderly
  obtain ⟨returned,same⟩ := kept idle _ rfl
  exact ⟨_,_,_,_,_,left,rfl,step,returned,same⟩

end MCoroutine.StackContents
