import MCoroutine.Switching

/-! Threads and saved contexts in every run, also where a callback is set on the main
coroutine of another thread. A Resume may then enter the main code of that thread, and
stays there. -/
namespace MCoroutine.Anchors
open General.Runs Process MCoroutine.Numbering SlotRuns Switching

variable {Body : Type}

/-- What an object may hold: the start of a callback of its own, main code when it has
no stack, and behind a callback that started its rest or its end. -/
def Legal (co : Nat) (object : Coroutine (Context Body) Body) : Prop :=
  object.coctx = .zero ∨ object.coctx = .runCallBack co ∨
    (object.stackSp = 0 ∧ ∃ thread count, object.coctx = .main thread count) ∨
    (object.stackSp ≠ 0 ∧ ((∃ rest, object.coctx = .callBack co rest) ∨
      object.coctx = .finished co))

theorem Legal.entry {co : Nat} {object : Coroutine (Context Body) Body} (legal : Legal co object) :
    (∀ thread count, object.coctx = .main thread count → object.stackSp = 0) ∧
      (∀ c rest, object.coctx = .callBack c rest → c = co ∧ object.stackSp ≠ 0) ∧
      ∀ c, object.coctx = .runCallBack c → c = co := by
  rcases legal with kind | kind | ⟨bare,_,_,kind⟩ | ⟨high,⟨_,kind⟩ | kind⟩
  · simp [kind]
  · simp [kind,eq_comm]
  · simp [kind,bare]
  · simp [kind,high,eq_comm]
  · simp [kind]

/-- A thread runs main code, not always its own, or the callback its pointer names. -/
def Placed (process : Process Body) (thread : Nat) : Prop :=
  (∃ owner count, (process.threads thread).running = .main owner count) ∨
    ∃ co body, (process.threads thread).running = .callBack co body ∧
      (process.threads thread).curCoroutine = some co ∧ stacked process.store.identities co = true

structure Anchored (process : Process Body) : Prop where
  legal : ∀ co object, process.store.objects[co]? = some object → Legal co object
  mains : ∀ thread main, (process.threads thread).mainCoroutine = some main →
    ∃ object, process.store.objects[main]? = some object ∧ object.stackSp = 0
  distinct : ∀ thread other main, (process.threads thread).mainCoroutine = some main →
    (process.threads other).mainCoroutine = some main → thread = other
  placed : ∀ thread, Placed process thread

/-- The effect of a swap: one context is saved, and one thread goes on elsewhere. -/
structure Shift (process after : Process Body) (thread written : Nat) (saved : Context Body) :
    Prop where
  length : after.store.objects.length = process.store.objects.length
  objects : ∀ k other, after.store.objects[k]? = some other →
    ∃ object, process.store.objects[k]? = some object ∧
    other.stackSp = object.stackSp ∧ other.callBack = object.callBack ∧
      other.resumeFlag = object.resumeFlag ∧
    other.coctx = if k = written then saved else object.coctx
  owners : ∀ other, (after.threads other).mainCoroutine = (process.threads other).mainCoroutine
  elsewhere : ∀ other, other ≠ thread → after.threads other = process.threads other

private theorem Placed.carry {process after : Process Body} {thread : Nat}
    (placed : Placed process thread) (same : after.threads thread = process.threads thread)
    (stays : ∀ co, stacked process.store.identities co = true →
      stacked after.store.identities co = true) :
    Placed after thread := by
  rcases placed with ⟨owner,count,running⟩ | ⟨co,body,running,current,stack⟩
  · exact Or.inl ⟨owner,count,by rw [same,running]⟩
  · exact Or.inr ⟨co,body,by rw [same,running],by rw [same,current],stays co stack⟩

def Lasting (process after : Process Body) : Prop :=
  ∀ (k : Nat) (object : Coroutine (Context Body) Body), process.store.objects[k]? = some object →
    ∃ other, after.store.objects[k]? = some other ∧ other.stackSp = object.stackSp

theorem Lasting.stacked {process after : Process Body} (lasting : Lasting process after) (co : Nat)
    (stack : stacked process.store.identities co = true) :
    stacked after.store.identities co = true := by
  obtain ⟨object,located,high⟩ := (stacked_iff _ co).mp stack
  obtain ⟨other,there,same⟩ := lasting co object located
  exact (stacked_iff _ co).mpr ⟨other,there,by rw [same]; exact high⟩

private theorem lasting_append {process after : Process Body}
    (fresh : List (Coroutine (Context Body) Body))
    (objects : after.store.objects = process.store.objects ++ fresh) : Lasting process after := by
  intro k object located
  refine ⟨object,?_,rfl⟩
  rw [objects,List.getElem?_append_left (List.getElem?_eq_some_iff.mp located).1]
  exact located

private theorem lasting_modify {process after : Process Body} (co : Nat)
    (change : Coroutine (Context Body) Body → Coroutine (Context Body) Body)
    (store : after.store = process.store.modify co change)
    (keeps : ∀ object, process.store.objects[co]? = some object →
      (change object).stackSp = object.stackSp) :
    Lasting process after := by
  intro k object located
  rw [store,Store.modify_at]
  by_cases same : k = co
  · subst k
    exact ⟨change object,by simp [located],keeps object located⟩
  · exact ⟨object,by rw [if_neg same]; exact located,rfl⟩

private theorem Shift.lasting {process after : Process Body} {thread written : Nat}
    {saved : Context Body} (shift : Shift process after thread written saved) :
    Lasting process after := by
  intro k object located
  have inside := (List.getElem?_eq_some_iff.mp located).1
  rw [← shift.length] at inside
  have there := List.getElem?_eq_getElem inside
  obtain ⟨before,here,stack,_⟩ := shift.objects k _ there
  rw [located] at here
  cases here
  exact ⟨_,there,stack⟩

private theorem Anchored.carry {process after : Process Body} (anchored : Anchored process)
    (owners : ∀ thread, (after.threads thread).mainCoroutine =
      (process.threads thread).mainCoroutine)
    (lasting : Lasting process after)
    (legal : ∀ co object, after.store.objects[co]? = some object → Legal co object)
    (placed : ∀ thread, after.threads thread = process.threads thread ∨ Placed after thread) :
    Anchored after := by
  refine ⟨legal,?_,?_,?_⟩
  · intro thread main owner
    rw [owners] at owner
    obtain ⟨object,located,bare⟩ := anchored.mains thread main owner
    obtain ⟨other,there,same⟩ := lasting main object located
    exact ⟨other,there,same.trans bare⟩
  · intro thread other main one two
    rw [owners] at one two
    exact anchored.distinct thread other main one two
  · intro thread
    rcases placed thread with same | there
    · exact (anchored.placed thread).carry same lasting.stacked
    · exact there

theorem Anchored.grow {process after : Process Body} (anchored : Anchored process)
    (fresh : List (Coroutine (Context Body) Body)) (threads : after.threads = process.threads)
    (objects : after.store.objects = process.store.objects ++ fresh)
    (unused : ∀ object ∈ fresh, object.coctx = .zero) :
    Anchored after := by
  refine anchored.carry (by simp [threads]) (lasting_append fresh objects) ?_ (by simp [threads])
  intro co object located
  rw [objects] at located
  rcases Nat.lt_or_ge co process.store.objects.length with inside | beyond
  · rw [List.getElem?_append_left inside] at located
    exact anchored.legal co object located
  · rw [List.getElem?_append_right beyond] at located
    exact Or.inl (unused object (List.mem_of_getElem? located))

theorem Anchored.modify {process after : Process Body} (anchored : Anchored process) (co : Nat)
    (change : Coroutine (Context Body) Body → Coroutine (Context Body) Body)
    (threads : after.threads = process.threads)
    (store : after.store = process.store.modify co change)
    (keeps : ∀ object, process.store.objects[co]? = some object →
      (change object).stackSp = object.stackSp)
    (legal : ∀ object, process.store.objects[co]? = some object → Legal co (change object)) :
    Anchored after := by
  refine anchored.carry (by simp [threads]) (lasting_modify co change store keeps) ?_
    (by simp [threads])
  intro k other located
  rw [store,Store.modify_at] at located
  split at located
  · rename_i same
    subst same
    obtain ⟨object,there,rfl⟩ := Option.map_eq_some_iff.mp located
    exact legal object there
  · exact anchored.legal k other located

theorem Anchored.makeMain {process : Process Body} {thread : Nat}
    (missing : (process.threads thread).mainCoroutine = none) (anchored : Anchored process) :
    Anchored (process.makeMain thread) := by
  let grown : Process Body := { process with store := process.store.makeDefault.2 }
  have extended : Anchored grown := anchored.grow [Coroutine.default .zero] rfl rfl
    (by simp [Coroutine.default])
  have fresh : grown.store.objects[process.store.objects.length]? = some
      (Coroutine.default .zero) := by
    simp [grown,Store.makeDefault]
  have unowned (other : Nat) : (process.threads other).mainCoroutine ≠
      some process.store.objects.length := by
    intro owner
    obtain ⟨object,located,_⟩ := anchored.mains other _ owner
    exact absurd (List.getElem?_eq_some_iff.mp located).1 (Nat.lt_irrefl _)
  have owners := appointed_owner missing process.store.objects.length
  refine ⟨extended.legal,?_,?_,?_⟩
  · intro other main owner
    rcases (owners other main).mp owner with ⟨_,rfl⟩ | before
    · exact ⟨_,fresh,rfl⟩
    · exact extended.mains other main before
  · intro one two main first second
    rcases (owners one main).mp first with ⟨rfl,rfl⟩ | left
    · rcases (owners two _).mp second with ⟨rfl,_⟩ | right
      · rfl
      · exact absurd right (unowned two)
    · rcases (owners two main).mp second with ⟨_,rfl⟩ | right
      · exact absurd left (unowned one)
      · exact anchored.distinct one two main left right
  · intro other
    by_cases same : other = thread
    · subst other
      rcases extended.placed thread with ⟨owner,count,running⟩ | ⟨co,body,running,current,stack⟩
      · exact Or.inl ⟨owner,count,by rw [running_makeMain]; exact running⟩
      · exact Or.inr
          ⟨co,body,by rw [running_makeMain]; exact running,by simpa [Process.makeMain] using current,stack⟩
    · refine (extended.placed other).carry ?_ (fun _ high => high)
      rw [Process.makeMain,setThread_threads,if_neg same]

theorem Anchored.point {process : Process Body} {thread main : Nat}
    (missing : (process.threads thread).curCoroutine = none) (anchored : Anchored process) :
    Anchored (process.point thread main) := by
  refine anchored.carry (setThread_keeps Thread.mainCoroutine (by rfl))
    (lasting_append [] (by simp [Process.point]))
    anchored.legal ?_
  intro other
  by_cases same : other = thread
  · subst other
    rcases anchored.placed thread with ⟨owner,count,running⟩ | ⟨co,_,_,current,_⟩
    · exact Or.inr (Or.inl ⟨owner,count,by rw [running_point]; exact running⟩)
    · rw [missing] at current
      cases current
  · exact Or.inl (by rw [Process.point,setThread_threads,if_neg same])

theorem Anchored.getMainCoroutine {process : Process Body} (anchored : Anchored process)
    (thread : Nat) :
    Anchored (process.getMainCoroutine thread).2 :=
  getMainCoroutine_preserves Anchored thread (fun _ => Anchored.makeMain) process anchored

theorem Anchored.attach {process : Process Body} (anchored : Anchored process) (thread : Nat) :
    Anchored (process.attach thread) :=
  attach_preserves Anchored thread (fun _ => Anchored.makeMain)
    (fun _ _ _ => Anchored.point) process anchored

theorem Anchored.in_main {process : Process Body} {thread main : Nat} (anchored : Anchored process)
    (owner : (process.threads thread).mainCoroutine = some main)
    (current : (process.threads thread).curCoroutine = some main) :
    ∃ host count, (process.threads thread).running = .main host count := by
  rcases anchored.placed thread with main_ | ⟨co,body,_,pointed,stack⟩
  · exact main_
  · rw [current] at pointed
    cases pointed
    obtain ⟨object,located,high⟩ := (stacked_iff _ main).mp stack
    obtain ⟨other,there,bare⟩ := anchored.mains thread main owner
    rw [located] at there
    cases there
    exact absurd bare high

private theorem shift_swapped {process : Process Body} {thread source target pointed : Nat}
    {saved running : Context Body} {store : Store Body}
    (change : Coroutine (Context Body) Body → Coroutine (Context Body) Body)
    (keeps : ∀ before, (change before).stackSp = before.stackSp ∧
      (change before).callBack = before.callBack ∧ (change before).resumeFlag = before.resumeFlag ∧
      (change before).coctx = before.coctx)
    (other : target ≠ source)
    (written : store = (process.store.modify source fun co => { co with coctx := saved }).modify
      target change) :
    Shift process (setThread thread { (process.point thread pointed).threads thread with
      running := running }
      { process.point thread pointed with store := store }) thread source saved := by
  refine ⟨?_,?_,?_,?_⟩
  · simp [written,Store.modify_length]
  · intro k later there
    rw [setThread_store,written,Store.modify_at] at there
    simp only [Store.modify_at] at there
    cases before : process.store.objects[k]? with
    | none => simp [before] at there
    | some old =>
      refine ⟨old,rfl,?_⟩
      by_cases here : k = source
      · rw [if_neg (by rw [here]; exact Ne.symm other),if_pos here,before] at there
        cases there
        exact ⟨rfl,rfl,rfl,(if_pos here).symm⟩
      · rw [if_neg here,before] at there
        rw [if_neg here]
        split at there
        · cases there
          exact keeps old
        · cases there
          exact ⟨rfl,rfl,rfl,rfl⟩
  · intro k
    by_cases here : k = thread
    · simp [here,Process.point]
    · rw [setThread_threads,if_neg here]
      exact congrArg Thread.mainCoroutine (setThread_elsewhere process here _)
  · intro k apart
    rw [setThread_threads,if_neg apart]
    exact setThread_elsewhere process apart _

/-- What a swap to another object enters: main code without a stack, and with one the
callback of that object. -/
private theorem swap_shifts {process after : Process Body} {thread source target pointed : Nat}
    {saved : Context Body}
    (legal : ∀ co object, process.store.objects[co]? = some object → Legal co object)
    (other : target ≠ source)
    (call : (process.point thread pointed).swap thread source target saved = .ok after) :
    Shift process after thread source saved ∧ (after.threads thread).curCoroutine = some pointed ∧
      ∃ object, process.store.objects[target]? = some object ∧
        ((object.stackSp = 0 ∧ ∃ host count, (after.threads thread).running = .main host count) ∨
          (object.stackSp ≠ 0 ∧ ∃ body, (after.threads thread).running =
            .callBack target body)) := by
  obtain ⟨object,running,store,found,entered,rfl⟩ :=
    swap_effect thread source target saved _ after call
  rw [Store.modify_at,if_neg other] at found
  have located : process.store.objects[target]? = some object := found
  obtain ⟨mainBare,ownRest,ownStart⟩ := (legal target object located).entry
  have unchanged : (process.store.modify source fun co =>
    { co with coctx := saved }).modify target id =
      process.store.modify source fun co => { co with coctx := saved } := by
    simp [Store.modify]
  refine ⟨?_,by simp [Process.point],object,located,?_⟩
  · rcases enter_cases _ _ _ _ entered with
      ⟨_,_,_,_,same⟩ | ⟨_,_,_,_,same⟩ | ⟨co,_,_,kind,_,_,_,_,same⟩
    · exact shift_swapped id (fun _ => ⟨rfl,rfl,rfl,rfl⟩) other (same.trans unchanged.symm)
    · exact shift_swapped id (fun _ => ⟨rfl,rfl,rfl,rfl⟩) other (same.trans unchanged.symm)
    · obtain rfl := ownStart co kind
      exact shift_swapped (Coroutine.setCallBackRunningFlag true)
        (fun _ => ⟨rfl,rfl,rfl,rfl⟩) other same
  · rw [setThread_same]
    rcases enter_cases _ _ _ _ entered with
      ⟨host,count,kind,code,_⟩ | ⟨co,rest,kind,code,_⟩ | ⟨co,whole,cb,kind,there,stack,_,code,_⟩
    · exact Or.inl ⟨mainBare host count kind,host,count,code.trans kind⟩
    · obtain ⟨rfl,high⟩ := ownRest co rest kind
      exact Or.inr ⟨high,rest,code.trans kind⟩
    · obtain rfl := ownStart co kind
      rw [Store.modify_at,if_neg other] at there
      obtain rfl : object = whole := Option.some.inj (found.symm.trans there)
      exact Or.inr ⟨stack,cb,code⟩

/-- A Resume that returns, from a thread with both pointers set: the coroutine is the
main coroutine of the thread itself, or the thread swaps into it. -/
inductive Resumed (process : Process Body) (thread co : Nat) : Process Body → Prop
  | itself (host count : Nat) (owner : (process.threads thread).mainCoroutine = some co)
      (caller : (process.threads thread).running = .main host count) :
      Resumed process thread co
        (process.setThread thread { process.threads thread with running := .main host (count + 1) })
  | swapped (main host count : Nat) (object : Coroutine (Context Body) Body) (after : Process Body)
      (owner : (process.threads thread).mainCoroutine = some main)
      (caller : (process.threads thread).running = .main host count) (other : co ≠ main)
      (located : process.store.objects[co]? = some object)
      (shift : Shift process after thread main (.main host (count + 1)))
      (current : (after.threads thread).curCoroutine = some co)
      (entered : (object.stackSp = 0 ∧ ∃ host count, (after.threads thread).running =
        .main host count) ∨
        (object.stackSp ≠ 0 ∧ ∃ body, (after.threads thread).running = .callBack co body)) :
      Resumed process thread co after

theorem Anchored.resumes {process after : Process Body} {thread co : Nat}
    (anchored : Anchored (process.attach thread))
    (call : process.resume thread (some co) = .ok after) :
    Resumed (process.attach thread) thread co after := by
  obtain ⟨main,object,owner,current,located,_,act⟩ := resume_effect thread co process after call
  obtain ⟨host,count,caller⟩ := anchored.in_main owner current
  rcases act with ⟨rfl,rfl⟩ | ⟨other,swapped⟩
  · rw [caller]
    exact .itself host count owner caller
  · rw [caller] at swapped
    obtain ⟨shift,pointed,target,there,entered⟩ := swap_shifts anchored.legal other swapped
    exact .swapped main host count target after owner caller other there shift pointed entered

theorem Anchored.yields {process after : Process Body} {thread co : Nat} {body : Body}
    {saved : Context Body} (anchored : Anchored (process.attach thread))
    (running : (process.threads thread).running = .callBack co body)
    (call : process.yield thread saved = .ok after) :
    Shift (process.attach thread) after thread co saved ∧
      ∃ host count, (after.threads thread).running = .main host count := by
  obtain ⟨main,current,owner,pointed,other,swapped⟩ := yield_effect thread saved process after call
  have runs : ((process.attach thread).threads thread).running = .callBack co body := by
    rw [running_attach]
    exact running
  have own : current = co := by
    rcases anchored.placed thread with ⟨_,_,main_⟩ | ⟨c,b,there,here,_⟩
    · rw [runs] at main_
      cases main_
    · rw [runs] at there
      cases there
      exact Option.some.inj (pointed.symm.trans here)
  subst current
  obtain ⟨shift,_,object,located,entered⟩ := swap_shifts anchored.legal (Ne.symm other) swapped
  obtain ⟨there,found,bare⟩ := anchored.mains thread main owner
  obtain rfl : object = there := Option.some.inj (located.symm.trans found)
  rcases entered with ⟨_,code⟩ | ⟨high,_⟩
  · exact ⟨shift,code⟩
  · exact absurd bare high

theorem Anchored.shift {process after : Process Body} {thread written : Nat} {saved : Context Body}
    (anchored : Anchored process) (shift : Shift process after thread written saved)
    (legal : ∀ object, process.store.objects[written]? = some object →
      Legal written { object with coctx := saved })
    (placed : Placed after thread) : Anchored after := by
  refine anchored.carry shift.owners shift.lasting ?_ ?_
  · intro k other located
    obtain ⟨object,there,stack,_,_,context⟩ := shift.objects k other located
    by_cases same : k = written
    · subst k
      rw [if_pos rfl] at context
      have holds := legal object there
      unfold Legal at holds ⊢
      rw [stack,context]
      exact holds
    · rw [if_neg same] at context
      have holds := anchored.legal k object there
      unfold Legal at holds ⊢
      rw [stack,context]
      exact holds
  · intro other
    by_cases same : other = thread
    · subst other
      exact Or.inr placed
    · exact Or.inl (shift.elsewhere other same)

theorem Anchored.resumed {process after : Process Body} {thread co : Nat}
    (anchored : Anchored process) (resumed : Resumed process thread co after) : Anchored after := by
  cases resumed with
  | itself host count owner caller =>
    refine anchored.carry (setThread_keeps Thread.mainCoroutine (by rfl))
      (lasting_append [] (by simp)) anchored.legal ?_
    intro other
    by_cases same : other = thread
    · subst other
      exact Or.inr (Or.inl ⟨host,count + 1,by rw [setThread_same]⟩)
    · exact Or.inl (setThread_elsewhere process same _)
  | swapped main host count object _ owner caller other located shift current entered =>
    obtain ⟨mine,there,bare⟩ := anchored.mains thread main owner
    refine anchored.shift shift ?_ ?_
    · intro found here
      rw [there] at here
      cases here
      exact Or.inr (Or.inr (Or.inl ⟨bare,host,count + 1,rfl⟩))
    · rcases entered with ⟨_,code⟩ | ⟨high,body,code⟩
      · exact Or.inl code
      · refine Or.inr ⟨co,body,code,current,shift.lasting.stacked co ?_⟩
        exact (stacked_iff _ co).mpr ⟨object,located,high⟩

theorem Anchored.left {process after : Process Body} {thread co : Nat} {body : Body}
    {saved : Context Body} (anchored : Anchored process)
    (running : (process.threads thread).running = .callBack co body)
    (shift : Shift process after thread co saved)
    (code : ∃ host count, (after.threads thread).running = .main host count)
    (own : (∃ rest, saved = .callBack co rest) ∨ saved = .finished co) : Anchored after := by
  refine anchored.shift shift ?_ (Or.inl code)
  intro object located
  rcases anchored.placed thread with ⟨_,_,main_⟩ | ⟨c,b,there,_,stack⟩
  · rw [running] at main_
    cases main_
  · rw [running] at there
    cases there
    obtain ⟨same,found,high⟩ := (stacked_iff _ co).mp stack
    rw [located] at found
    cases found
    exact Or.inr (Or.inr (Or.inr ⟨high,own⟩))

theorem Anchored.clear {process : Process Body} (anchored : Anchored process) (co : Nat) :
    Anchored { process with store := process.store.modify co (Coroutine.setCallBackRunningFlag false) } :=
  anchored.modify co _ rfl rfl (fun _ _ => rfl)
    (fun object located => anchored.legal co object located)

private theorem step_anchored {next : Body → Option Body} {process after : Process Body} {event : Event Body}
    (structured : Structured process) (anchored : Anchored process) (step : Step next process event after) :
    Anchored after := by
  cases step_outline structured step with
  | grow _ _ fresh plain threads objects unused =>
    exact anchored.grow fresh threads objects fun object member => (unused object member).1
  | attach _ _ thread plain reached =>
    exact reached Anchored (fun _ => Anchored.makeMain) (fun _ _ _ => Anchored.point) anchored
  | release thread index co before result store located call =>
    obtain ⟨object,pair,_,_,⟨_,rfl,rfl⟩ | ⟨_,rfl,rfl⟩⟩ :=
      CoroutinePool.backCoroutine_effect co process.store store before result call
    · exact anchored.grow [] rfl (by simp [Process.setPool]) (by simp)
    · exact anchored.modify pair.first (fun co =>
        (co.setCallBackRunningFlag false).setResumeFlag false) rfl rfl
        (fun _ _ => rfl) (fun object there => anchored.legal pair.first object there)
  | accept thread co cb accepted _ call =>
    have attached := anchored.getMainCoroutine thread
    obtain ⟨main,object,_,located,⟨rfl,_,_,rfl⟩ | ⟨_,_,rfl⟩⟩ :=
      setCallBack_effect thread co cb process after accepted call
    · refine attached.modify co _ rfl rfl ?_ (fun _ _ => Or.inr (Or.inl rfl))
      intro other there
      rw [located] at there
      cases there
      rfl
    · exact attached
  | resume thread co _ call =>
    have attached := anchored.attach thread
    exact attached.resumed (attached.resumes call)
  | yield thread co body rest _ running more call =>
    have attached := anchored.attach thread
    obtain ⟨shift,code⟩ := attached.yields running call
    exact attached.left ((running_attach process thread thread).trans running) shift code
      (Or.inl ⟨rest,rfl⟩)
  | finish thread co body _ running done call =>
    have attached := (anchored.clear co).attach thread
    obtain ⟨shift,code⟩ := attached.yields running call
    exact attached.left ((running_attach _ thread thread).trans running) shift code (Or.inr rfl)

theorem reached_anchored {next : Body → Option Body}
    {allowed : List (Event Body) → Process Body → Event Body → Prop} {history : List (Event Body)}
    {process : Process Body}
    (run : Run (fun process => process = Process.initial) allowed (Step next) history process) :
    Anchored process := by
  refine run.invariant (fun _ process => Anchored process) ?_ ?_
  · rintro process rfl
    constructor
    · intro co object located
      cases located
    · intro thread main owner
      cases owner
    · intro thread other main owner
      cases owner
    · intro thread
      exact Or.inl ⟨thread,0,rfl⟩
  · intro past before event after reached anchored _ step
    exact step_anchored (reached_structured reached) anchored step

end MCoroutine.Anchors
