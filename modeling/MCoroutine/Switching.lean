import MCoroutine.SlotRuns

/-! Switching between main code and callbacks. Every saved context belongs to the
coroutine it is saved in, and every thread runs its own main code or the coroutine
that its pointer names. -/
namespace MCoroutine.Switching
open General.Runs Process MCoroutine.Numbering SlotRuns

variable {Body : Type}

def calls : List (Event Body) → Nat → Nat
  | [],_ => 0
  | .resume caller _::past,thread => if caller = thread then calls past thread + 1
      else calls past thread
  | _::past,thread => calls past thread

def contextOf (store : Store Body) (co : Nat) : Option (Context Body) :=
  store.objects[co]?.map (·.coctx)

/-- What an object may hold. Without a stack it is a main coroutine or a slot 0, and
runs no callback even when it is given one; with a stack it holds contexts of its own
only. -/
structure Belongs (mains : Nat → Option Nat) (co : Nat) (object : Coroutine (Context Body) Body) :
    Prop where
  bare : object.stackSp = 0 → object.cbfuncRunningFlag = false ∧
    ((object.resumeFlag = false ∧
        (object.coctx = .zero ∨ ∃ thread count, mains thread = some co ∧
          object.coctx = .main thread count)) ∨
      (object.coctx = .runCallBack co ∧ ∀ thread, mains thread ≠ some co))
  own : object.stackSp ≠ 0 → object.coctx = .zero ∨ object.coctx = .runCallBack co ∨
    (∃ rest, object.coctx = .callBack co rest) ∨ object.coctx = .finished co

/-- What a thread runs. While it runs a callback, its main coroutine holds the return
of its last Resume. -/
inductive Runs (history : List (Event Body)) (process : Process Body) (thread : Nat) : Prop
  | main (running : (process.threads thread).running = .main thread (calls history thread))
      (current : ∀ co, (process.threads thread).curCoroutine = some co →
        (process.threads thread).mainCoroutine = some co)
  | callBack (co main : Nat) (body : Body)
      (running : (process.threads thread).running = .callBack co body)
      (current : (process.threads thread).curCoroutine = some co)
      (owner : (process.threads thread).mainCoroutine = some main)
      (saved : contextOf process.store main = some (.main thread (calls history thread)))
      (stack : stacked process.store.identities co = true)

structure Coherent (history : List (Event Body)) (process : Process Body) : Prop where
  belongs : ∀ co object, process.store.objects[co]? = some object →
    Belongs (fun thread => (process.threads thread).mainCoroutine) co object
  mains : ∀ thread main, (process.threads thread).mainCoroutine = some main →
    ∃ object, process.store.objects[main]? = some object ∧ object.stackSp = 0
  distinct : ∀ thread other main, (process.threads thread).mainCoroutine = some main →
    (process.threads other).mainCoroutine = some main → thread = other
  runs : ∀ thread, Runs history process thread

theorem stacked_iff (store : Store Body) (co : Nat) :
    stacked store.identities co = true ↔ ∃ object, store.objects[co]? = some object ∧
      object.stackSp ≠ 0 := by
  rw [stacked,identities_at]
  cases store.objects[co]? with
  | none => simp
  | some object => simp [Coroutine.identity]

theorem stacked_not_main {history : List (Event Body)} {process : Process Body}
    (coherent : Coherent history process) {main co thread : Nat}
    {object : Coroutine (Context Body) Body}
    (owner : (process.threads thread).mainCoroutine = some main)
    (located : process.store.objects[co]? = some object) (stack : object.stackSp ≠ 0) :
    co ≠ main := by
  rintro rfl
  obtain ⟨there,found,bare⟩ := coherent.mains thread co owner
  rw [located] at found
  cases found
  exact stack bare

theorem Runs.frame {past history : List (Event Body)} {process after : Process Body} {thread : Nat}
    (runs : Runs past process thread) (same : after.threads thread = process.threads thread)
    (count : calls history thread = calls past thread)
    (contexts : ∀ main, (process.threads thread).mainCoroutine = some main →
      contextOf after.store main = contextOf process.store main)
    (stacksLast : ∀ co, stacked process.store.identities co = true →
      stacked after.store.identities co = true) :
    Runs history after thread := by
  cases runs with
  | main running current =>
    refine .main ?_ ?_
    · rw [same,running,count]
    · rw [same]
      exact current
  | callBack co main body running current owner saved stack =>
    refine .callBack co main body ?_ ?_ ?_ ?_ (stacksLast co stack)
    · rw [same,running]
    · rw [same,current]
    · rw [same,owner]
    · rw [contexts main owner,saved,count]

theorem Coherent.grow {past history : List (Event Body)} {process after : Process Body}
    (coherent : Coherent past process) (fresh : List (Coroutine (Context Body) Body))
    (threads : after.threads = process.threads)
    (objects : after.store.objects = process.store.objects ++ fresh)
    (unused : ∀ object ∈ fresh, object.coctx = .zero ∧ object.resumeFlag = false ∧
      object.cbfuncRunningFlag = false)
    (count : ∀ thread, calls history thread = calls past thread) : Coherent history after := by
  have kept {co : Nat} {object : Coroutine (Context Body) Body}
    (located : process.store.objects[co]? = some object) :
      after.store.objects[co]? = some object := by
    rw [objects,List.getElem?_append_left (List.getElem?_eq_some_iff.mp located).1]
    exact located
  refine ⟨?_,?_,?_,?_⟩
  · intro co object located
    rw [threads]
    rcases Nat.lt_or_ge co process.store.objects.length with inside | beyond
    · rw [objects,List.getElem?_append_left inside] at located
      exact coherent.belongs co object located
    · rw [objects,List.getElem?_append_right beyond] at located
      obtain ⟨zero,resume,running⟩ := unused object (List.mem_of_getElem? located)
      exact ⟨fun _ => ⟨running,Or.inl ⟨resume,Or.inl zero⟩⟩,fun _ => Or.inl zero⟩
  · intro thread main owner
    rw [threads] at owner
    obtain ⟨object,located,bare⟩ := coherent.mains thread main owner
    exact ⟨object,kept located,bare⟩
  · rw [threads]
    exact coherent.distinct
  · intro thread
    refine (coherent.runs thread).frame (by rw [threads]) (count thread) ?_ ?_
    · intro main owner
      obtain ⟨object,located,_⟩ := coherent.mains thread main owner
      rw [contextOf,contextOf,kept located,located]
    · intro co stack
      obtain ⟨object,located,high⟩ := (stacked_iff _ co).mp stack
      exact (stacked_iff _ co).mpr ⟨object,kept located,high⟩

theorem Coherent.change {past history : List (Event Body)} {process after : Process Body}
    (coherent : Coherent past process) (co : Nat)
    (change : Coroutine (Context Body) Body → Coroutine (Context Body) Body)
    (threads : after.threads = process.threads)
    (store : after.store = process.store.modify co change)
    (stack : ∀ object, process.store.objects[co]? = some object →
      (change object).stackSp = object.stackSp)
    (belongs : ∀ object, process.store.objects[co]? = some object →
      Belongs (fun thread => (process.threads thread).mainCoroutine) co (change object))
    (mains : ∀ thread object, (process.threads thread).mainCoroutine = some co →
      process.store.objects[co]? = some object → (change object).coctx = object.coctx)
    (count : ∀ thread, calls history thread = calls past thread) : Coherent history after := by
  refine ⟨?_,?_,?_,?_⟩
  · intro k object located
    rw [store,Store.modify_at] at located
    rw [threads]
    by_cases same : k = co
    · subst k
      rw [if_pos rfl] at located
      obtain ⟨before,there,rfl⟩ := Option.map_eq_some_iff.mp located
      exact belongs before there
    · rw [if_neg same] at located
      exact coherent.belongs k object located
  · intro thread main owner
    rw [threads] at owner
    obtain ⟨object,located,bare⟩ := coherent.mains thread main owner
    rw [store,Store.modify_at]
    by_cases same : main = co
    · subst main
      exact ⟨change object,by simp [located],by rw [stack object located,bare]⟩
    · exact ⟨object,by simp [same,located],bare⟩
  · rw [threads]
    exact coherent.distinct
  · intro thread
    refine (coherent.runs thread).frame (by rw [threads]) (count thread) ?_ ?_
    · intro main owner
      obtain ⟨object,located,_⟩ := coherent.mains thread main owner
      rw [contextOf,contextOf,store,Store.modify_at]
      by_cases same : main = co
      · subst main
        simp [located,mains thread object owner located]
      · simp [same]
    · intro k high
      obtain ⟨object,located,nonzero⟩ := (stacked_iff _ k).mp high
      refine (stacked_iff _ k).mpr ?_
      rw [store,Store.modify_at]
      by_cases same : k = co
      · subst k
        exact ⟨change object,by simp [located],by rw [stack object located]; exact nonzero⟩
      · exact ⟨object,by simp [same,located],nonzero⟩

theorem appointed_owner {process : Process Body} {thread : Nat}
    (missing : (process.threads thread).mainCoroutine = none) (co other main : Nat) :
    ((process.setThread thread { process.threads thread with mainCoroutine := some co }).threads
      other).mainCoroutine =
      some main ↔ (other = thread ∧ main = co) ∨ (process.threads other).mainCoroutine =
        some main := by
  rw [setThread_threads]
  by_cases same : other = thread
  · subst other
    simp [missing,eq_comm]
  · simp [same]

private theorem Coherent.appoint {history : List (Event Body)} {process : Process Body}
    {thread co : Nat} {object : Coroutine (Context Body) Body} (coherent : Coherent history process)
    (missing : (process.threads thread).mainCoroutine = none)
    (located : process.store.objects[co]? = some object) (bare : object.stackSp = 0)
    (blank : object.coctx = .zero)
    (unowned : ∀ other, (process.threads other).mainCoroutine ≠ some co) :
    Coherent history (process.setThread thread
      { process.threads thread with mainCoroutine := some co }) := by
  have owners := appointed_owner missing co
  refine ⟨?_,?_,?_,?_⟩
  · intro k inner there
    obtain ⟨none,own⟩ := coherent.belongs k inner there
    refine ⟨?_,own⟩
    intro zero
    obtain ⟨running,⟨resume,unset | ⟨other,count,owner,saved⟩⟩ | ⟨start,foreign⟩⟩ := none zero
    · exact ⟨running,Or.inl ⟨resume,Or.inl unset⟩⟩
    · exact ⟨running,Or.inl ⟨resume,Or.inr ⟨other,count,(owners other k).mpr (Or.inr owner),saved⟩⟩⟩
    · refine ⟨running,Or.inr ⟨start,fun other owner => ?_⟩⟩
      rcases (owners other k).mp owner with ⟨_,rfl⟩ | before
      · rw [setThread_store,located] at there
        cases there
        rw [blank] at start
        cases start
      · exact foreign other before
  · intro other main owner
    rcases (owners other main).mp owner with ⟨_,rfl⟩ | before
    · exact ⟨object,located,bare⟩
    · exact coherent.mains other main before
  · intro one two main first second
    rcases (owners one main).mp first with ⟨rfl,rfl⟩ | left
    · rcases (owners two main).mp second with ⟨rfl,_⟩ | right
      · rfl
      · exact absurd right (unowned two)
    · rcases (owners two main).mp second with ⟨_,rfl⟩ | right
      · exact absurd left (unowned one)
      · exact coherent.distinct one two main left right
  · intro other
    by_cases same : other = thread
    · subst other
      cases coherent.runs thread with
      | main running current =>
        refine .main (by rw [setThread_same]; exact running) ?_
        intro c pointed
        rw [setThread_same] at pointed
        rw [current c pointed] at missing
        cases missing
      | callBack c main body running current owner saved stack =>
        rw [owner] at missing
        cases missing
    · refine (coherent.runs other).frame ?_ rfl (fun _ _ => rfl) (fun _ high => high)
      rw [setThread_threads,if_neg same]

theorem Coherent.makeMain {history : List (Event Body)} {process : Process Body} {thread : Nat}
    (missing : (process.threads thread).mainCoroutine = none)
    (coherent : Coherent history process) :
    Coherent history (process.makeMain thread) := by
  let grown : Process Body := { process with store := process.store.makeDefault.2 }
  have extended : Coherent history grown :=
    coherent.grow [Coroutine.default .zero] rfl rfl (by simp [Coroutine.default]) (fun _ => rfl)
  have fresh : grown.store.objects[process.store.objects.length]? = some
      (Coroutine.default .zero) := by
    simp [grown,Store.makeDefault]
  refine extended.appoint missing fresh rfl rfl ?_
  intro other owner
  obtain ⟨object,located,_⟩ := coherent.mains other _ owner
  exact absurd (List.getElem?_eq_some_iff.mp located).1 (Nat.lt_irrefl _)

theorem Coherent.point {history : List (Event Body)} {process : Process Body} {thread main : Nat}
    (owner : (process.threads thread).mainCoroutine = some main)
    (missing : (process.threads thread).curCoroutine = none) (coherent : Coherent history process) :
    Coherent history (process.point thread main) := by
  have mains (other : Nat) : ((process.point thread main).threads other).mainCoroutine =
      (process.threads other).mainCoroutine := setThread_keeps Thread.mainCoroutine (by rfl) other
  refine ⟨?_,?_,?_,?_⟩
  · simp only [mains]
    exact coherent.belongs
  · simp only [mains]
    exact coherent.mains
  · simp only [mains]
    exact coherent.distinct
  · intro other
    by_cases same : other = thread
    · subst other
      cases coherent.runs thread with
      | main running current =>
        refine .main (by simpa [Process.point] using running) ?_
        intro co pointed
        rw [mains,owner]
        simpa [Process.point] using pointed
      | callBack co _ body running current _ saved stack =>
        rw [current] at missing
        cases missing
    · exact (coherent.runs other).frame (by rw [Process.point,setThread_threads,if_neg same]) rfl
        (fun _ _ => rfl) (fun _ high => high)

theorem Coherent.getMainCoroutine {history : List (Event Body)} {process : Process Body}
    (coherent : Coherent history process) (thread : Nat) :
    Coherent history (process.getMainCoroutine thread).2 :=
  getMainCoroutine_preserves (Coherent history) thread (fun _ => Coherent.makeMain) process coherent

theorem Coherent.attach {history : List (Event Body)} {process : Process Body}
    (coherent : Coherent history process) (thread : Nat) :
    Coherent history (process.attach thread) :=
  attach_preserves (Coherent history) thread (fun _ => Coherent.makeMain)
    (fun _ _ => Coherent.point) process coherent

theorem Coherent.in_main {history : List (Event Body)} {process : Process Body} {thread main : Nat}
    (coherent : Coherent history process)
    (owner : (process.threads thread).mainCoroutine = some main)
    (current : (process.threads thread).curCoroutine = some main) :
    (process.threads thread).running = .main thread (calls history thread) := by
  cases coherent.runs thread with
  | main running _ => exact running
  | callBack co _ body running pointed _ saved stack =>
    rw [current] at pointed
    cases pointed
    obtain ⟨other,there,high⟩ := (stacked_iff _ main).mp stack
    exact absurd rfl (stacked_not_main coherent owner there high)

theorem Belongs.entry {mains : Nat → Option Nat} {co : Nat} {object : Coroutine (Context Body) Body}
    (belongs : Belongs mains co object) (flag : object.resumeFlag = true) :
    object.coctx = .runCallBack co ∨ (object.stackSp ≠ 0 ∧
      (object.coctx = .zero ∨ (∃ rest, object.coctx = .callBack co rest) ∨
        object.coctx = .finished co)) := by
  by_cases none : object.stackSp = 0
  · obtain ⟨_,⟨unset,_⟩ | ⟨start,_⟩⟩ := belongs.bare none
    · rw [unset] at flag
      cases flag
    · exact Or.inl start
  · rcases belongs.own none with zero | start | rest
    · exact Or.inr ⟨none,Or.inl zero⟩
    · exact Or.inl start
    · exact Or.inr ⟨none,Or.inr rest⟩

theorem Coherent.resumed_not_main {history : List (Event Body)} {process : Process Body}
    {thread main co : Nat} {object : Coroutine (Context Body) Body}
    (coherent : Coherent history process)
    (owner : (process.threads thread).mainCoroutine = some main)
    (located : process.store.objects[co]? = some object) (flag : object.resumeFlag = true) :
    co ≠ main := by
  rintro rfl
  obtain ⟨there,found,zero⟩ := coherent.mains thread co owner
  rw [located] at found
  cases found
  obtain ⟨_,⟨unset,_⟩ | ⟨_,foreign⟩⟩ := (coherent.belongs co object located).bare zero
  · rw [unset] at flag
    cases flag
  · exact foreign thread owner

structure Entered (past : List (Event Body)) (process : Process Body) (thread co main : Nat)
    (object : Coroutine (Context Body) Body) (body : Body) (after : Process Body) : Prop where
  owner : (process.threads thread).mainCoroutine = some main
  caller : (process.threads thread).running = .main thread (calls past thread)
  located : process.store.objects[co]? = some object
  flag : object.resumeFlag = true
  stack : object.stackSp ≠ 0
  other : co ≠ main
  threads : after.threads = Function.update process.threads thread
    { mainCoroutine := some main, curCoroutine := some co, running := .callBack co body }
  pools : after.pools = process.pools
  entry : (object.coctx = .callBack co body ∧
      after.store = process.store.modify main fun m =>
        { m with coctx := .main thread (calls past thread + 1) }) ∨
    (object.coctx = .runCallBack co ∧ object.callBack = some body ∧
      after.store = (process.store.modify main fun m =>
        { m with coctx := .main thread (calls past thread + 1) }).modify co
        (Coroutine.setCallBackRunningFlag true))

theorem Coherent.resume_enters {past : List (Event Body)} {process after : Process Body}
    {thread co : Nat} (before : Coherent past process)
    (call : process.resume thread (some co) = .ok after) :
    ∃ main object body, Entered past (process.attach thread) thread co main object body after := by
  have coherent := before.attach thread
  obtain ⟨main,object,owner,current,located,flag,act⟩ := resume_effect thread co process after call
  have running := coherent.in_main owner current
  have other := coherent.resumed_not_main owner located flag
  rcases act with ⟨same,_⟩ | ⟨_,swapped⟩
  · exact absurd same other
  · obtain ⟨target,code,store,found,entered,rfl⟩ := swap_effect thread main co _ _ after swapped
    rw [Store.modify_at,if_neg other] at found
    have same : object = target := Option.some.inj (located.symm.trans found)
    subst target
    have threads (body : Body) : (setThread thread
        { ((process.attach thread).point thread co).threads thread with
          running := .callBack co body }
        { (process.attach thread).point thread co with store := store }).threads =
          Function.update (process.attach thread).threads thread
            { mainCoroutine := some main, curCoroutine := some co,
                running := .callBack co body } := by
      simp [Process.point,setThread,owner]
    have contexts := (coherent.belongs co object located).entry flag
    rw [running] at entered
    rcases enter_cases _ _ _ _ entered with
      ⟨t,n,kind,_,_⟩ | ⟨c,rest,kind,code_,store_⟩ | ⟨c,whole,cb,kind,there,stack,set,code_,store_⟩
    · rw [kind] at contexts
      simp at contexts
    · rw [kind] at contexts code_
      obtain ⟨stack,same⟩ : object.stackSp ≠ 0 ∧ c = co := by simpa using contexts
      subst c code store
      exact ⟨main,object,rest,owner,running,located,flag,stack,other,threads rest,rfl,
        Or.inl ⟨kind,rfl⟩⟩
    · rw [kind] at contexts
      obtain rfl : c = co := by simpa using contexts
      subst code store
      rw [Store.modify_at,if_neg other] at there
      have same : object = whole := Option.some.inj (located.symm.trans there)
      subst whole
      exact ⟨main,object,cb,owner,running,located,flag,stack,other,threads cb,rfl,
        Or.inr ⟨kind,set,rfl⟩⟩

theorem attach_same {process : Process Body} {thread main co : Nat}
    (owner : (process.threads thread).mainCoroutine = some main)
    (current : (process.threads thread).curCoroutine = some co) :
    process.attach thread = process := by
  have one : process.getCurrentCoroutine thread = (co,process) := by
    unfold getCurrentCoroutine
    rw [current]
  rw [Process.attach,one]
  unfold Process.getMainCoroutine
  rw [owner]

structure Left (past : List (Event Body)) (process : Process Body) (thread co main : Nat)
    (saved : Context Body) (after : Process Body) : Prop where
  owner : (process.threads thread).mainCoroutine = some main
  current : (process.threads thread).curCoroutine = some co
  waiting : contextOf process.store main = some (.main thread (calls past thread))
  other : co ≠ main
  stack : stacked process.store.identities co = true
  threads : after.threads = Function.update process.threads thread
    { mainCoroutine := some main, curCoroutine := some main, running := .main thread (calls past thread) }
  pools : after.pools = process.pools
  store : after.store = process.store.modify co fun object => { object with coctx := saved }

theorem Coherent.yield_leaves {past : List (Event Body)} {process after : Process Body}
    {thread co : Nat} {body : Body} {saved : Context Body} (coherent : Coherent past process)
    (running : (process.threads thread).running = .callBack co body)
    (call : process.yield thread saved = .ok after) :
    ∃ main, Left past process thread co main saved after := by
  cases coherent.runs thread with
  | main main_ _ =>
    rw [running] at main_
    cases main_
  | callBack c main b running_ current owner waiting stack =>
    rw [running] at running_
    cases running_
    obtain ⟨m,c,owned,pointed,other,swapped⟩ := yield_effect thread saved process after call
    rw [attach_same owner current] at owned pointed swapped
    obtain rfl : main = m := Option.some.inj (owner.symm.trans owned)
    obtain rfl : co = c := Option.some.inj (current.symm.trans pointed)
    obtain ⟨object,code,store,found,entered,rfl⟩ := swap_effect thread co main saved _ after swapped
    rw [Store.modify_at,if_neg (Ne.symm other)] at found
    have context : object.coctx = .main thread (calls past thread) := by
      rw [contextOf,show process.store.objects[main]? = some object from found] at waiting
      exact Option.some.inj waiting
    rw [context] at entered
    cases entered
    exact ⟨main,owner,current,waiting,other,stack,by simp [Process.point,setThread,owner],rfl,rfl⟩

section
variable {past : List (Event Body)} {process after : Process Body} {thread co main : Nat}
  {object : Coroutine (Context Body) Body} {body : Body}

theorem Entered.mains (entered : Entered past process thread co main object body after)
    (other : Nat) :
    (after.threads other).mainCoroutine = (process.threads other).mainCoroutine := by
  rw [entered.threads,Function.update_apply]
  split
  · rename_i same
    rw [same,entered.owner]
  · rfl

theorem Entered.elsewhere (entered : Entered past process thread co main object body after)
    {k : Nat} (apart : k ≠ main) (distinct : k ≠ co) :
    after.store.objects[k]? = process.store.objects[k]? := by
  rcases entered.entry with ⟨_,store⟩ | ⟨_,_,store⟩
  · rw [store,Store.modify_at,if_neg apart]
  · rw [store,Store.modify_at,if_neg distinct,Store.modify_at,if_neg apart]

theorem Entered.target (entered : Entered past process thread co main object body after) :
    after.store.objects[co]? = some object ∧ object.coctx = .callBack co body ∨
      after.store.objects[co]? = some (object.setCallBackRunningFlag true) ∧
        object.coctx = .runCallBack co ∧
        object.callBack = some body := by
  rcases entered.entry with ⟨kind,store⟩ | ⟨kind,set,store⟩
  · rw [store,Store.modify_at,if_neg entered.other]
    exact Or.inl ⟨entered.located,kind⟩
  · rw [store,Store.modify_at,if_pos rfl,Store.modify_at,if_neg entered.other,entered.located]
    exact Or.inr ⟨rfl,kind,set⟩

theorem Entered.caller_object (entered : Entered past process thread co main object body after)
    {host : Coroutine (Context Body) Body} (there : process.store.objects[main]? = some host) :
    after.store.objects[main]? = some { host with
      coctx := .main thread (calls past thread + 1) } := by
  rcases entered.entry with ⟨_,store⟩ | ⟨_,_,store⟩
  · rw [store,Store.modify_at,if_pos rfl,there]
    rfl
  · rw [store,Store.modify_at,if_neg (Ne.symm entered.other),Store.modify_at,if_pos rfl,there]
    rfl

theorem Entered.identities (entered : Entered past process thread co main object body after) :
    after.store.identities = process.store.identities := by
  rcases entered.entry with ⟨_,store⟩ | ⟨_,_,store⟩
  · rw [store]
    exact identities_modify _ main _ (fun _ _ => rfl)
  · rw [store]
    refine (identities_modify _ co _ ?_).trans (identities_modify _ main _ ?_)
    · exact fun _ _ => rfl
    · exact fun _ _ => rfl

theorem Entered.belongs (entered : Entered past process thread co main object body after)
    (coherent : Coherent past process) {k : Nat} {found : Coroutine (Context Body) Body}
    (located : after.store.objects[k]? = some found) :
    Belongs (fun other => (process.threads other).mainCoroutine) k found := by
  obtain ⟨host,there,none⟩ := coherent.mains thread main entered.owner
  by_cases self : k = main
  · subst k
    rw [entered.caller_object there] at located
    cases located
    obtain ⟨running,⟨resume,_⟩ | ⟨_,foreign⟩⟩ := (coherent.belongs main host there).bare none
    · exact ⟨fun _ => ⟨running,Or.inl ⟨resume,Or.inr ⟨thread,_,entered.owner,rfl⟩⟩⟩,fun high =>
        absurd none high⟩
    · exact absurd entered.owner (foreign thread)
  · by_cases inner : k = co
    · subst k
      obtain ⟨_,own⟩ := coherent.belongs co object entered.located
      rcases entered.target with ⟨kept,_⟩ | ⟨changed,_,_⟩
      · rw [kept] at located
        cases located
        exact ⟨fun zero => absurd zero entered.stack,own⟩
      · rw [changed] at located
        cases located
        exact ⟨fun zero => absurd zero entered.stack,own⟩
    · rw [entered.elsewhere self inner] at located
      exact coherent.belongs k found located

theorem Coherent.enter (coherent : Coherent past process)
    (entered : Entered past process thread co main object body after) :
    Coherent (.resume thread co::past) after := by
  obtain ⟨host,there,_⟩ := coherent.mains thread main entered.owner
  have hosted := entered.caller_object there
  have bareMain {other m : Nat} (owner : (process.threads other).mainCoroutine = some m) : m ≠ co :=
    (stacked_not_main coherent owner entered.located entered.stack).symm
  refine ⟨?_,?_,?_,?_⟩
  · intro k found located
    simp only [entered.mains]
    exact entered.belongs coherent located
  · intro other m owner
    rw [entered.mains] at owner
    obtain ⟨mine,found,zero⟩ := coherent.mains other m owner
    by_cases self : m = main
    · subst m
      rw [there] at found
      cases found
      exact ⟨_,hosted,zero⟩
    · exact ⟨mine,by rw [entered.elsewhere self (bareMain owner)]; exact found,zero⟩
  · simp only [entered.mains]
    exact coherent.distinct
  · intro other
    by_cases same : other = thread
    · subst other
      refine .callBack co main body ?_ ?_ ?_ ?_ ?_
      · rw [entered.threads,Function.update_self]
      · rw [entered.threads,Function.update_self]
      · rw [entered.mains,entered.owner]
      · rw [contextOf,hosted]
        simp [calls]
      · rw [entered.identities]
        exact (stacked_iff _ co).mpr ⟨object,entered.located,entered.stack⟩
    · refine (coherent.runs other).frame ?_ ?_ ?_ ?_
      · rw [entered.threads,Function.update_of_ne same]
      · simp [calls,Ne.symm same]
      · intro m owner
        have apart : m ≠ main := by
          rintro rfl
          exact same (coherent.distinct other thread m owner entered.owner)
        rw [contextOf,contextOf,entered.elsewhere apart (bareMain owner)]
      · intro k high
        rw [entered.identities]
        exact high

theorem Left.mains {saved : Context Body} (left : Left past process thread co main saved after) (other : Nat) :
    (after.threads other).mainCoroutine = (process.threads other).mainCoroutine := by
  rw [left.threads,Function.update_apply]
  split
  · rename_i same
    rw [same,left.owner]
  · rfl

theorem Left.source_object {saved : Context Body}
    (left : Left past process thread co main saved after) {found : Coroutine (Context Body) Body}
    (located : after.store.objects[co]? = some found) :
    ∃ inner, process.store.objects[co]? = some inner ∧ { inner with coctx := saved } = found := by
  rw [left.store,Store.modify_at,if_pos rfl] at located
  exact Option.map_eq_some_iff.mp located

theorem Left.elsewhere {saved : Context Body} (left : Left past process thread co main saved after)
    {k : Nat} (apart : k ≠ co) : after.store.objects[k]? = process.store.objects[k]? := by
  rw [left.store,Store.modify_at,if_neg apart]

theorem Coherent.leave {saved : Context Body} {event : Event Body}
    (coherent : Coherent past process) (left : Left past process thread co main saved after)
    (own : (∃ rest, saved = .callBack co rest) ∨ saved = .finished co)
    (count : ∀ other, calls (event::past) other = calls past other) :
    Coherent (event::past) after := by
  obtain ⟨inner,located,high⟩ := (stacked_iff _ co).mp left.stack
  have identities : after.store.identities = process.store.identities := by
    rw [left.store]
    exact identities_modify _ co _ (fun _ _ => rfl)
  have bareMain {other m : Nat} (owner : (process.threads other).mainCoroutine = some m) : m ≠ co :=
    (stacked_not_main coherent owner located high).symm
  refine ⟨?_,?_,?_,?_⟩
  · intro k found there
    simp only [left.mains]
    by_cases same : k = co
    · subst k
      obtain ⟨before,here,rfl⟩ := left.source_object there
      obtain rfl : inner = before := Option.some.inj (located.symm.trans here)
      refine ⟨fun zero => absurd zero high,fun _ => ?_⟩
      rcases own with ⟨rest,rfl⟩ | rfl
      · exact Or.inr (Or.inr (Or.inl ⟨rest,rfl⟩))
      · exact Or.inr (Or.inr (Or.inr rfl))
    · rw [left.elsewhere same] at there
      exact coherent.belongs k found there
  · intro other m owner
    rw [left.mains] at owner
    obtain ⟨mine,found,zero⟩ := coherent.mains other m owner
    exact ⟨mine,by rw [left.elsewhere (bareMain owner)]; exact found,zero⟩
  · simp only [left.mains]
    exact coherent.distinct
  · intro other
    by_cases same : other = thread
    · subst other
      refine .main ?_ ?_
      · rw [left.threads,Function.update_self,count]
      · intro k pointed
        rw [left.mains,left.owner]
        rw [left.threads,Function.update_self] at pointed
        exact pointed
    · refine (coherent.runs other).frame ?_ (count other) ?_ ?_
      · rw [left.threads,Function.update_of_ne same]
      · intro m owner
        rw [contextOf,contextOf,left.elsewhere (bareMain owner)]
      · intro k stack
        rw [identities]
        exact stack

end

/-- No callback is set on the main coroutine of another thread; that of its own thread
setCallBack refuses. -/
def Apt (_ : List (Event Body)) (process : Process Body) : Event Body → Prop
  | .setCallBack _ co _ true => ∀ thread, (process.threads thread).mainCoroutine ≠ some co
  | _ => True

/-- Callbacks are accepted by coroutines with a stack of their own only: neither by the
main coroutine of another thread nor by a slot 0. -/
def Sensible (_ : List (Event Body)) (process : Process Body) : Event Body → Prop
  | .setCallBack _ co _ true => stacked process.store.identities co = true
  | _ => True

private theorem Sensible.apt {history : List (Event Body)} {process : Process Body}
    {event : Event Body} (sensible : Sensible history process event)
    (coherent : Coherent history process) : Apt history process event := by
  cases event with
  | setCallBack thread co cb accepted =>
    cases accepted with
    | true =>
      intro other owner
      obtain ⟨object,located,high⟩ := (stacked_iff _ co).mp sensible
      exact stacked_not_main coherent owner located high rfl
    | false => trivial
  | _ => trivial

/-- The calls that touch neither flags nor contexts of existing coroutines. -/
def Plain : Event Body → Prop
  | .backCoroutine _ _ _ => False
  | .setCallBack _ _ _ _ => False
  | .resume _ _ => False
  | .yield _ _ => False
  | .finish _ _ => False
  | _ => True

def Unused (object : Coroutine (Context Body) Body) : Prop :=
  object.coctx = .zero ∧ object.resumeFlag = false ∧ object.cbfuncRunningFlag = false

private theorem appends_objects {before after : Store Body × CoroutinePool}
    (appends : CoroutinePool.Appends before after) :
    ∃ fresh, after.1.objects = before.1.objects ++ fresh ∧ ∀ object ∈ fresh, Unused object := by
  induction appends with
  | refl => exact ⟨[],by simp,by simp⟩
  | tail _ last ih =>
    obtain ⟨fresh,objects,unused⟩ := ih
    cases last with
    | slot store after pool heap rest block co memoryPool supplied taken made =>
      obtain ⟨_,_,rfl⟩ := Store.make_effect store after pool.stackSize block co made
      refine ⟨fresh ++ [_],by rw [← List.append_assoc,← objects],?_⟩
      intro object member
      rcases List.mem_append.mp member with old | new
      · exact unused object old
      · rw [List.mem_singleton.mp new]
        exact ⟨rfl,rfl,rfl⟩

/-- What a step does to the objects of a process, with the calls that switch as they
stand. -/
inductive Outline (next : Body → Option Body) (process : Process Body) :
    Event Body → Process Body → Prop
  | grow (event : Event Body) (after : Process Body) (fresh : List (Coroutine (Context Body) Body))
      (plain : Plain event) (threads : after.threads = process.threads)
      (objects : after.store.objects = process.store.objects ++ fresh)
      (unused : ∀ object ∈ fresh, Unused object) : Outline next process event after
  | attach (event : Event Body) (after : Process Body) (thread : Nat) (plain : Plain event)
      (reached : ∀ holds : Process Body → Prop,
        (∀ middle, (middle.threads thread).mainCoroutine = none → holds middle →
          holds (middle.makeMain thread)) →
        (∀ middle m, (middle.threads thread).mainCoroutine = some m →
          (middle.threads thread).curCoroutine = none → holds middle →
            holds (middle.point thread m)) →
        holds process → holds after) : Outline next process event after
  | release (thread index co : Nat) (before result : CoroutinePool) (store : Store Body)
      (located : process.pools[index]? = some before)
      (call : before.backCoroutine co process.store = .ok (store,result)) :
      Outline next process (.backCoroutine thread index co) (process.setPool index store result)
  | accept (thread co : Nat) (cb : Body) (accepted : Bool) (after : Process Body)
      (call : process.setCallBack thread co cb = .ok (accepted,after)) :
      Outline next process (.setCallBack thread co cb accepted) after
  | resume (thread co : Nat) (after : Process Body)
      (call : process.resume thread (some co) = .ok after) :
      Outline next process (.resume thread co) after
  | yield (thread co : Nat) (body rest : Body) (after : Process Body)
      (running : (process.threads thread).running = .callBack co body)
      (more : next body = some rest)
      (call : process.yield thread (.callBack co rest) = .ok after) : Outline next process
        (.yield thread co) after
  | finish (thread co : Nat) (body : Body) (after : Process Body)
      (running : (process.threads thread).running = .callBack co body) (done : next body = none)
      (call : process.finish thread co = .ok after) : Outline next process (.finish thread co) after

/-- What a step of a coherent process does to its objects and threads. -/
inductive Effect (next : Body → Option Body) (past : List (Event Body)) (process : Process Body) :
    Event Body → Process Body → Prop
  | grow (event : Event Body) (after : Process Body) (fresh : List (Coroutine (Context Body) Body))
      (plain : Plain event) (threads : after.threads = process.threads)
      (objects : after.store.objects = process.store.objects ++ fresh)
      (unused : ∀ object ∈ fresh, Unused object) :
      Effect next past process event after
  | attach (event : Event Body) (after : Process Body) (thread : Nat) (plain : Plain event)
      (reached : ∀ holds : Process Body → Prop,
        (∀ middle, (middle.threads thread).mainCoroutine = none → holds middle →
          holds (middle.makeMain thread)) →
        (∀ middle m, (middle.threads thread).mainCoroutine = some m →
          (middle.threads thread).curCoroutine = none → holds middle →
            holds (middle.point thread m)) →
        holds process → holds after) : Effect next past process event after
  | release (thread index co : Nat) (before result : CoroutinePool) (store : Store Body)
      (located : process.pools[index]? = some before)
      (call : before.backCoroutine co process.store = .ok (store,result)) :
      Effect next past process (.backCoroutine thread index co) (process.setPool index store result)
  | accept (thread co : Nat) (cb : Body) (accepted : Bool) (after : Process Body)
      (call : process.setCallBack thread co cb = .ok (accepted,after)) :
      Effect next past process (.setCallBack thread co cb accepted) after
  | enter (thread co main : Nat) (object : Coroutine (Context Body) Body) (body : Body)
      (after : Process Body)
      (entered : Entered past (process.attach thread) thread co main object body after) :
      Effect next past process (.resume thread co) after
  | leave (thread co main : Nat) (body rest : Body) (after : Process Body)
      (running : (process.threads thread).running = .callBack co body)
      (more : next body = some rest)
      (left : Left past process thread co main (.callBack co rest) after) :
      Effect next past process (.yield thread co) after
  | stop (thread co main : Nat) (body : Body) (after : Process Body)
      (running : (process.threads thread).running = .callBack co body) (done : next body = none)
      (left : Left past { process with store := process.store.modify co (Coroutine.setCallBackRunningFlag false) }
        thread co main (.finished co) after) : Effect next past process (.finish thread co) after

theorem Coherent.release {history : List (Event Body)} {process : Process Body} {event : Event Body}
    {co : Nat} {result before : CoroutinePool} {store : Store Body}
    (coherent : Coherent history process) (index : Nat)
    (call : before.backCoroutine co process.store = .ok (store,result))
    (count : ∀ thread, calls (event::history) thread = calls history thread) :
    Coherent (event::history) (process.setPool index store result) := by
  obtain ⟨object,pair,_,_,⟨_,rfl,rfl⟩ | ⟨_,rfl,rfl⟩⟩ :=
    CoroutinePool.backCoroutine_effect co process.store store before result call
  · exact coherent.grow [] rfl (by simp [Process.setPool]) (by simp) count
  · refine coherent.change pair.first
      (fun co => (co.setCallBackRunningFlag false).setResumeFlag false) rfl rfl
      (fun _ _ => rfl) ?_ (fun _ _ _ _ => rfl) count
    intro object located
    obtain ⟨bare,own⟩ := coherent.belongs pair.first object located
    refine ⟨fun zero => ⟨rfl,?_⟩,own⟩
    obtain ⟨_,⟨_,saved⟩ | given⟩ := bare zero
    · exact Or.inl ⟨rfl,saved⟩
    · exact Or.inr given

theorem Coherent.accept {history : List (Event Body)} {process after : Process Body}
    {thread co : Nat} {cb : Body} {accepted : Bool} (coherent : Coherent history process)
    (apt : Apt history process (.setCallBack thread co cb accepted))
    (call : process.setCallBack thread co cb = .ok (accepted,after)) :
    Coherent (.setCallBack thread co cb accepted::history) after := by
  have attached := coherent.getMainCoroutine thread
  obtain ⟨main,object,owner,located,⟨rfl,self,idle,rfl⟩ | ⟨_,_,rfl⟩⟩ :=
    setCallBack_effect thread co cb process after accepted call
  · have foreign (other : Nat) : ((process.getMainCoroutine thread).2.threads other).mainCoroutine ≠
        some co := by
      by_cases same : other = thread
      · rw [same,owner]
        exact fun clash => self (Option.some.inj clash).symm
      · rw [getMainCoroutine_elsewhere process same]
        exact apt other
    refine attached.change co _ rfl rfl ?_ ?_ ?_ (fun _ => rfl)
    · intro other here
      rw [located] at here
      cases here
      rfl
    · intro other _
      exact ⟨fun _ => ⟨idle,Or.inr ⟨rfl,foreign⟩⟩,fun _ => Or.inr (Or.inl rfl)⟩
    · intro other _ owned
      exact absurd owned (foreign other)
  · exact attached.grow [] rfl (by simp) (by simp) (fun _ => rfl)

theorem Coherent.clear {history : List (Event Body)} {process : Process Body}
    (coherent : Coherent history process) (co : Nat) : Coherent history
      { process with store := process.store.modify co (Coroutine.setCallBackRunningFlag false) } := by
  refine coherent.change co (Coroutine.setCallBackRunningFlag false) rfl rfl (fun _ _ => rfl) ?_
    (fun _ _ _ _ => rfl)
    (fun _ => rfl)
  intro object located
  obtain ⟨bare,own⟩ := coherent.belongs co object located
  exact ⟨fun zero => ⟨rfl,(bare zero).2⟩,own⟩

theorem step_outline {next : Body → Option Body} {process after : Process Body} {event : Event Body}
    (structured : Structured process) (step : Step next process event after) :
    Outline next process event after := by
  cases step with
  | newCoroutine stackSize stackPtr co store sized call =>
    obtain ⟨_,_,rfl⟩ := Store.make_effect process.store store stackSize stackPtr co call
    exact .grow _ _ [_] trivial rfl rfl (by simp [Unused,Coroutine.default])
  | newPool poolSize stackSize heap rest store pool sized arrays call =>
    obtain ⟨memoryPool,left,_,appends,_,_⟩ :=
      CoroutinePool.create_appends poolSize stackSize heap rest process.store store pool
        arrays sized.1 call
    obtain ⟨fresh,objects,unused⟩ := appends_objects appends
    refine .grow _ _ (Coroutine.default .zero::fresh) trivial rfl ?_ ?_
    · rw [show store.objects = _ from objects]
      simp [Store.makeDefault]
    · intro object member
      rcases List.mem_cons.mp member with rfl | old
      · exact ⟨rfl,rfl,rfl⟩
      · exact unused object old
  | resize index newSize heap rest before result store sized located arrays call =>
    have member := List.mem_of_getElem? located
    obtain ⟨appends,_,_⟩ := CoroutinePool.resize_appends newSize heap rest process.store
      store before result
      arrays sized (shape_present (structured.shape before member))
        (structured.small before member) call
    obtain ⟨fresh,objects,unused⟩ := appends_objects appends
    exact .grow _ _ fresh trivial rfl objects unused
  | getCoroutine thread index co heap rest before result store located arrays call =>
    have member := List.mem_of_getElem? located
    obtain ⟨grown,i,appends,_⟩ := CoroutinePool.getCoroutine_effect heap rest process.store store
      before result co arrays (shape_present (structured.shape before member))
        (structured.small before member) call
    obtain ⟨fresh,objects,unused⟩ := appends_objects appends
    exact .grow _ _ fresh trivial rfl objects unused
  | backCoroutine thread index co before result store located call =>
    exact .release thread index co _ _ _ located call
  | getMainCoroutine _ thread co call =>
    refine .attach _ _ thread trivial ?_
    intro holds make _ start
    have attached := getMainCoroutine_preserves holds thread make process start
    rw [call] at attached
    exact attached
  | getCurrentCoroutine _ thread co call =>
    refine .attach _ _ thread trivial ?_
    intro holds make aim start
    have attached := getCurrentCoroutine_preserves holds thread make aim process start
    rw [call] at attached
    exact attached
  | setCallBack _ thread co cb accepted call => exact .accept thread co cb accepted after call
  | resume _ thread co call => exact .resume thread co after call
  | yield _ thread co body rest running more call =>
    exact .yield thread co body rest after running more call
  | finish _ thread co body running done call =>
    exact .finish thread co body after running done call

theorem step_effect {next : Body → Option Body} {past : List (Event Body)} {process after : Process Body}
    {event : Event Body} (structured : Structured process) (coherent : Coherent past process)
    (step : Step next process event after) : Effect next past process event after := by
  cases step_outline structured step with
  | grow _ _ fresh plain threads objects unused =>
    exact .grow _ _ fresh plain threads objects unused
  | attach _ _ thread plain reached => exact .attach _ _ thread plain reached
  | release thread index co before result store located call =>
    exact .release thread index co _ _ _ located call
  | accept thread co cb accepted _ call => exact .accept thread co cb accepted after call
  | resume thread co _ call =>
    obtain ⟨main,object,body,entered⟩ := coherent.resume_enters call
    exact .enter thread co main object body after entered
  | yield thread co body rest _ running more call =>
    obtain ⟨main,left⟩ := coherent.yield_leaves running call
    exact .leave thread co main body rest after running more left
  | finish thread co body _ running done call =>
    obtain ⟨main,left⟩ := (coherent.clear co).yield_leaves running call
    exact .stop thread co main body after running done left

private theorem calls_plain {event : Event Body} (plain : Plain event) (past : List (Event Body))
    (thread : Nat) :
    calls (event::past) thread = calls past thread := by
  cases event <;> first | rfl | exact plain.elim

private theorem step_coherent {next : Body → Option Body} {past : List (Event Body)}
    {process after : Process Body} {event : Event Body} (structured : Structured process)
    (coherent : Coherent past process) (apt : Apt past process event)
    (step : Step next process event after) :
    Coherent (event::past) after := by
  cases step_effect structured coherent step with
  | grow _ _ fresh plain threads objects unused =>
    exact coherent.grow fresh threads objects unused (calls_plain plain past)
  | attach _ _ thread plain reached =>
    have attached := reached (Coherent past) (fun _ => Coherent.makeMain)
      (fun _ _ => Coherent.point) coherent
    exact attached.grow [] rfl (by simp) (by simp) (calls_plain plain past)
  | release thread index co before result store located call =>
    exact coherent.release index call (fun _ => rfl)
  | accept thread co cb accepted _ call => exact coherent.accept apt call
  | enter thread co main object body _ entered => exact (coherent.attach thread).enter entered
  | leave thread co main body rest _ running more left =>
    exact coherent.leave left (Or.inl ⟨rest,rfl⟩) (fun _ => rfl)
  | stop thread co main body _ running done left =>
    exact (coherent.clear co).leave left (Or.inr rfl) (fun _ => rfl)

private theorem initial_coherent : Coherent [] (Process.initial : Process Body) := by
  refine ⟨?_,?_,?_,?_⟩
  · intro co object located
    cases located
  · intro thread main owner
    cases owner
  · intro thread other main owner
    cases owner
  · intro thread
    exact .main rfl (fun _ pointed => by cases pointed)

theorem apt_coherent {next : Body → Option Body} {history : List (Event Body)}
    {process : Process Body}
    (run : Run (fun process => process = Process.initial) Apt (Step next) history process) :
    Coherent history process := by
  refine run.invariant Coherent ?_ ?_
  · rintro process rfl
    exact initial_coherent
  · intro past before event after reached coherent apt step
    exact step_coherent (reached_structured reached) coherent apt step

theorem reached_coherent {next : Body → Option Body} {history : List (Event Body)}
    {process : Process Body}
    (run : Run (fun process => process = Process.initial) Sensible (Step next) history process) :
    Coherent history process := by
  refine run.invariant Coherent ?_ ?_
  · rintro process rfl
    exact initial_coherent
  · intro past before event after reached coherent sensible step
    exact step_coherent (reached_structured reached) coherent (sensible.apt coherent) step

def touched : Event Body → Option Nat
  | .setCallBack _ co _ true => some co
  | .resume _ co => some co
  | .yield _ co => some co
  | .finish _ co => some co
  | _ => none

theorem touched_plain {event : Event Body} (plain : Plain event) : touched event = none := by
  cases event <;> first | rfl | exact plain.elim

def Executing (process : Process Body) (co : Nat) : Prop :=
  ∃ thread body, (process.threads thread).running = .callBack co body

theorem setPool_store (process : Process Body) (index : Nat) (store : Store Body)
    (pool : CoroutinePool) :
    (process.setPool index store pool).store = store := rfl

def Inherits (process : Process Body) (co : Nat) (object : Coroutine (Context Body) Body) : Prop :=
  process.store.objects[co]? = some object ∨ (process.store.objects.length ≤ co ∧ Unused object)

private theorem inherits_makeMain {process middle : Process Body} {thread : Nat}
    (inherits : ∀ co object, middle.store.objects[co]? = some object → object.stackSp ≠ 0 →
      Inherits process co object)
    (co : Nat) (object : Coroutine (Context Body) Body)
    (located : (middle.makeMain thread).store.objects[co]? = some object)
    (stack : object.stackSp ≠ 0) :
    Inherits process co object := by
  change (middle.store.objects ++ [Coroutine.default .zero])[co]? = some object at located
  rcases Nat.lt_or_ge co middle.store.objects.length with inside | beyond
  · rw [List.getElem?_append_left inside] at located
    exact inherits co object located stack
  · rw [List.getElem?_append_right beyond] at located
    rw [List.mem_singleton.mp (List.mem_of_getElem? located)] at stack
    exact absurd rfl stack

private theorem attach_inherits (process : Process Body) (thread co : Nat)
    (object : Coroutine (Context Body) Body)
    (located : (process.attach thread).store.objects[co]? = some object)
    (stack : object.stackSp ≠ 0) :
    Inherits process co object :=
  attach_preserves (fun middle => ∀ co object, middle.store.objects[co]? = some object →
    object.stackSp ≠ 0 →
      Inherits process co object) thread
    (fun _ _ before => inherits_makeMain before) (fun _ _ _ _ before => before) process
    (fun _ _ there _ => Or.inl there) co object located stack

private theorem makeMain_keeps {process : Process Body} {co : Nat} (thread : Nat)
    {object : Coroutine (Context Body) Body} (located : process.store.objects[co]? = some object) :
    (process.makeMain thread).store.objects[co]? = some object := by
  change (process.store.objects ++ [Coroutine.default .zero])[co]? = some object
  rw [List.getElem?_append_left (List.getElem?_eq_some_iff.mp located).1]
  exact located

theorem attach_keeps {process : Process Body} {co : Nat} (thread : Nat)
    {object : Coroutine (Context Body) Body} (located : process.store.objects[co]? = some object) :
    (process.attach thread).store.objects[co]? = some object :=
  attach_preserves (fun middle => middle.store.objects[co]? = some object) thread
    (fun _ _ there => makeMain_keeps thread there) (fun _ _ _ _ there => there) process located

theorem getMainCoroutine_keeps {process : Process Body} {co : Nat} (thread : Nat)
    {object : Coroutine (Context Body) Body} (located : process.store.objects[co]? = some object) :
    (process.getMainCoroutine thread).2.store.objects[co]? = some object :=
  getMainCoroutine_preserves (fun middle => middle.store.objects[co]? = some object) thread
    (fun _ _ there => makeMain_keeps thread there) process located

theorem Entered.present {process after : Process Body} {past : List (Event Body)}
    {thread co main : Nat} {object : Coroutine (Context Body) Body} {body : Body}
    (entered : Entered past (process.attach thread) thread co main object body after) :
    process.store.objects[co]? = some object := by
  rcases attach_inherits process thread co object entered.located entered.stack with
    there | ⟨_,_,unset,_⟩
  · exact there
  · rw [entered.flag] at unset
    cases unset

theorem getMainCoroutine_inherits (process : Process Body) (thread co : Nat)
    (object : Coroutine (Context Body) Body)
    (located : (process.getMainCoroutine thread).2.store.objects[co]? = some object)
    (stack : object.stackSp ≠ 0) :
    Inherits process co object :=
  getMainCoroutine_preserves (fun middle => ∀ co object, middle.store.objects[co]? = some object →
      object.stackSp ≠ 0 → Inherits process co object) thread
    (fun _ _ before => inherits_makeMain before) process
      (fun _ _ there _ => Or.inl there) co object located stack

section
variable {next : Body → Option Body} {past : List (Event Body)} {process after : Process Body}
  {event : Event Body}

theorem Effect.frame (coherent : Coherent past process)
    (effect : Effect next past process event after)
    (kept : ∀ thread index co, event ≠ .backCoroutine thread index co) (co : Nat)
    (object : Coroutine (Context Body) Body) (located : after.store.objects[co]? = some object)
    (stack : object.stackSp ≠ 0) (apart : touched event ≠ some co) :
    Inherits process co object := by
  cases effect with
  | grow _ _ fresh plain threads objects unused =>
    rcases Nat.lt_or_ge co process.store.objects.length with inside | beyond
    · rw [objects,List.getElem?_append_left inside] at located
      exact Or.inl located
    · rw [objects,List.getElem?_append_right beyond] at located
      exact Or.inr ⟨beyond,unused object (List.mem_of_getElem? located)⟩
  | attach _ _ thread plain reached =>
    exact reached (fun middle => ∀ co object, middle.store.objects[co]? = some object →
      object.stackSp ≠ 0 →
        Inherits process co object)
      (fun _ _ before => inherits_makeMain before) (fun _ _ _ _ before => before)
      (fun _ _ there _ => Or.inl there) co object located stack
  | release thread index co before result store there call =>
    exact absurd rfl (kept thread index co)
  | accept thread c cb accepted _ call =>
    obtain ⟨main,target,_,there,⟨rfl,_,_,rfl⟩ | ⟨_,_,rfl⟩⟩ :=
      setCallBack_effect thread c cb process after accepted call
    · rw [Store.modify_at,if_neg (fun same => apart (by rw [same]; rfl))] at located
      exact getMainCoroutine_inherits process thread co object located stack
    · exact getMainCoroutine_inherits process thread co object located stack
  | enter thread c main target body _ entered =>
    by_cases same : co = main
    · subst co
      obtain ⟨host,there,none⟩ := (coherent.attach thread).mains thread main entered.owner
      rw [entered.caller_object there] at located
      cases located
      exact absurd none stack
    · rw [entered.elsewhere same (fun same => apart (by rw [same]; rfl))] at located
      exact attach_inherits process thread co object located stack
  | leave thread c main body rest _ running more left =>
    rw [left.elsewhere (fun same => apart (by rw [same]; rfl))] at located
    exact Or.inl located
  | stop thread c main body _ running done left =>
    have other : co ≠ c := fun same => apart (by rw [same]; rfl)
    rw [left.elsewhere other,Store.modify_at,if_neg other] at located
    exact Or.inl located

theorem running_makeMain (process : Process Body) (thread other : Nat) :
    ((process.makeMain thread).threads other).running = (process.threads other).running :=
  setThread_keeps Thread.running (by rfl) other

theorem running_point (process : Process Body) (thread co other : Nat) :
    ((process.point thread co).threads other).running = (process.threads other).running :=
  setThread_keeps Thread.running (by rfl) other

theorem running_attach (process : Process Body) (thread other : Nat) :
    ((process.attach thread).threads other).running = (process.threads other).running :=
  attach_preserves (fun middle => (middle.threads other).running =
    (process.threads other).running) thread
    (fun middle _ before => (running_makeMain middle thread other).trans before)
    (fun middle m _ _ before => (running_point middle thread m other).trans before) process rfl

theorem executing_attach (process : Process Body) (thread co : Nat) :
    Executing (process.attach thread) co ↔ Executing process co := by
  simp only [Executing,running_attach]

theorem running_getMainCoroutine (process : Process Body) (thread other : Nat) :
    ((process.getMainCoroutine thread).2.threads other).running = (process.threads other).running :=
  getMainCoroutine_preserves (fun middle =>
    (middle.threads other).running = (process.threads other).running) thread
    (fun middle _ before => (running_makeMain middle thread other).trans before) process rfl

theorem Effect.running (effect : Effect next past process event after) (other : Nat) :
    (after.threads other).running = (process.threads other).running ∨
      (∃ co body, event = .resume other co ∧ (after.threads other).running = .callBack co body ∧
        (process.threads other).running = .main other (calls past other)) ∨
      (∃ co body count, (event = .yield other co ∨ event = .finish other co) ∧
        (process.threads other).running = .callBack co body ∧ (after.threads other).running =
          .main other count) := by
  cases effect with
  | grow _ _ fresh plain threads objects unused => exact Or.inl (by rw [threads])
  | attach _ _ thread plain reached =>
    exact Or.inl (reached (fun middle =>
      (middle.threads other).running = (process.threads other).running)
      (fun middle _ before => (running_makeMain middle thread other).trans before)
      (fun middle m _ _ before => (running_point middle thread m other).trans before) rfl)
  | release thread index co before result store there call => exact Or.inl rfl
  | accept thread c cb accepted _ call =>
    obtain ⟨main,target,_,there,⟨_,_,_,rfl⟩ | ⟨_,_,rfl⟩⟩ :=
      setCallBack_effect thread c cb process after accepted call
    · exact Or.inl (running_getMainCoroutine process thread other)
    · exact Or.inl (running_getMainCoroutine process thread other)
  | enter thread c main target body _ entered =>
    by_cases same : other = thread
    · subst other
      refine Or.inr (Or.inl ⟨c,body,rfl,by rw [entered.threads,Function.update_self],?_⟩)
      rw [← running_attach process thread thread,entered.caller]
    · exact Or.inl (by rw [entered.threads,Function.update_of_ne same,running_attach])
  | leave thread c main body rest _ running more left =>
    by_cases same : other = thread
    · subst other
      exact Or.inr (Or.inr ⟨c,body,_,Or.inl rfl,running,by rw [left.threads,Function.update_self]⟩)
    · exact Or.inl (by rw [left.threads,Function.update_of_ne same])
  | stop thread c main body _ running done left =>
    by_cases same : other = thread
    · subst other
      exact Or.inr (Or.inr ⟨c,body,_,Or.inr rfl,running,by rw [left.threads,Function.update_self]⟩)
    · exact Or.inl (by rw [left.threads,Function.update_of_ne same])

end

end MCoroutine.Switching
