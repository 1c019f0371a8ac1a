import MCoroutine.Process
import MCoroutine.PoolEffects

/-! What the calls of a thread do to the process. Each call that may find its thread
without coroutine pointers first sets them, so calls are described from there on. -/
namespace MCoroutine

variable {Body : Type}

namespace Store

theorem modify_at (store : Store Body) (co k : Nat)
    (change : Coroutine (Context Body) Body → Coroutine (Context Body) Body) :
    (store.modify co change).objects[k]? =
      if k = co then store.objects[k]?.map change else store.objects[k]? := by
  rw [modify,List.getElem?_modify]
  by_cases same : k = co
  · subst k
    simp
  · simp [same,Ne.symm same]

theorem modify_length (store : Store Body) (co : Nat)
    (change : Coroutine (Context Body) Body → Coroutine (Context Body) Body) :
    (store.modify co change).objects.length = store.objects.length := by simp [modify]

private theorem modify_same (store : Store Body) (co : Nat) (object : Coroutine (Context Body) Body)
    (located : store.objects[co]? = some object) : (store.modify co fun _ => object) = store := by
  have objects : store.objects.modify co (fun _ => object) = store.objects := by
    apply List.ext_getElem?
    intro k
    rw [List.getElem?_modify]
    by_cases same : co = k
    · subst k
      simp [located]
    · simp [same]
  rw [modify,objects]

theorem make_effect (store after : Store Body) (stackSize stackPtr co : Nat)
    (call : store.make stackSize stackPtr = .ok (co,after)) :
    stackPtr ≠ 0 ∧ co = store.objects.length ∧
      after = { objects := store.objects ++
                  [{ Coroutine.default .zero with
                     corId := store.curCoroutineId, stackSize := stackSize, stackSp := stackPtr }],
                curCoroutineId := u32 (store.curCoroutineId + 1) } := by
  unfold make Coroutine.create at call
  by_cases null : stackPtr = 0
  · rw [if_pos null] at call
    cases call
  · rw [if_neg null] at call
    cases call
    exact ⟨null,rfl,rfl⟩

end Store

namespace CoroutinePool

theorem backCoroutine_effect (cor : Nat) (store after : Store Body) (pool result : CoroutinePool)
    (call : pool.backCoroutine cor store = .ok (after,result)) :
    ∃ object pair, store.objects[cor]? = some object ∧ pool.coroutines[object.corId]? = some pair ∧
      ((pair.second = false ∧ after = store ∧ result = pool) ∨
        (pair.second = true ∧
          after = store.modify pair.first (fun co =>
            (co.setCallBackRunningFlag false).setResumeFlag false) ∧
          result = { pool with coroutines := pool.coroutines.set object.corId { pair with second := false } })) := by
  unfold backCoroutine at call
  cases located : store.objects[cor]? with
  | none =>
    rw [located] at call
    cases call
  | some object =>
    rw [located] at call
    cases named : pool.coroutines[object.corId]? with
    | none =>
      simp only [named] at call
      cases call
    | some pair =>
      refine ⟨object,pair,rfl,named,?_⟩
      simp only [named] at call
      split at call
      · rename_i free
        cases call
        exact Or.inl ⟨free,rfl,rfl⟩
      · rename_i used
        cases call
        exact Or.inr ⟨by simpa using used,rfl,rfl⟩

end CoroutinePool

namespace Process

@[simp] theorem setThread_store (thread : Nat) (value : Thread Body) (process : Process Body) :
    (process.setThread thread value).store = process.store := rfl

@[simp] theorem setThread_pools (thread : Nat) (value : Thread Body) (process : Process Body) :
    (process.setThread thread value).pools = process.pools := rfl

@[simp] theorem setThread_same (thread : Nat) (value : Thread Body) (process : Process Body) :
    (process.setThread thread value).threads thread = value := by simp [setThread]

theorem setThread_threads (thread other : Nat) (value : Thread Body) (process : Process Body) :
    (process.setThread thread value).threads other =
      if other = thread then value else process.threads other := by
  simp [setThread,Function.update_apply]

theorem setThread_keeps {α : Type} (field : Thread Body → α) {thread : Nat} {value : Thread Body}
    {process : Process Body} (same : field value = field (process.threads thread)) (other : Nat) :
    field ((process.setThread thread value).threads other) = field (process.threads other) := by
  rw [setThread_threads]
  split
  · rename_i here
    rw [here]
    exact same
  · rfl

/-- The main coroutine of a thread is made at its first use. -/
def makeMain (thread : Nat) (process : Process Body) : Process Body :=
  setThread thread { process.threads thread with
    mainCoroutine := some process.store.objects.length }
    { process with store := process.store.makeDefault.2 }

def point (thread co : Nat) (process : Process Body) : Process Body :=
  setThread thread { process.threads thread with curCoroutine := some co } process

theorem getMainCoroutine_cases (thread : Nat) (process : Process Body) :
    (∃ m, (process.threads thread).mainCoroutine = some m ∧ process.getMainCoroutine thread =
      (m,process)) ∨
      ((process.threads thread).mainCoroutine = none ∧
        process.getMainCoroutine thread = (process.store.objects.length,
          process.makeMain thread)) := by
  unfold getMainCoroutine
  cases found : (process.threads thread).mainCoroutine with
  | some m => exact Or.inl ⟨m,rfl,rfl⟩
  | none => exact Or.inr ⟨rfl,rfl⟩

theorem getMainCoroutine_main (thread : Nat) (process : Process Body) :
    ((process.getMainCoroutine thread).2.threads thread).mainCoroutine =
      some (process.getMainCoroutine thread).1 := by
  rcases getMainCoroutine_cases thread process with ⟨m,main,same⟩ | ⟨_,made⟩
  · rw [same]
    exact main
  · rw [made]
    simp [makeMain]

theorem getMainCoroutine_current (thread other : Nat) (process : Process Body) :
    ((process.getMainCoroutine thread).2.threads other).curCoroutine =
      (process.threads other).curCoroutine := by
  rcases getMainCoroutine_cases thread process with ⟨m,_,same⟩ | ⟨_,made⟩
  · rw [same]
  · rw [made]
    exact setThread_keeps Thread.curCoroutine (by rfl) other

theorem getCurrentCoroutine_cases (thread : Nat) (process : Process Body) :
    (∃ c, (process.threads thread).curCoroutine = some c ∧ process.getCurrentCoroutine thread =
      (c,process)) ∨
      ((process.threads thread).curCoroutine = none ∧
        process.getCurrentCoroutine thread =
          ((process.getMainCoroutine thread).1,
            (process.getMainCoroutine thread).2.point thread
              (process.getMainCoroutine thread).1)) := by
  unfold getCurrentCoroutine
  cases found : (process.threads thread).curCoroutine with
  | some c => exact Or.inl ⟨c,rfl,rfl⟩
  | none => exact Or.inr ⟨rfl,rfl⟩

theorem getCurrentCoroutine_current (thread : Nat) (process : Process Body) :
    ((process.getCurrentCoroutine thread).2.threads thread).curCoroutine =
      some (process.getCurrentCoroutine thread).1 := by
  rcases getCurrentCoroutine_cases thread process with ⟨c,current,same⟩ | ⟨_,pointed⟩
  · rw [same]
    exact current
  · rw [pointed]
    simp [point]

/-- The thread with both of its pointers set. -/
def attach (thread : Nat) (process : Process Body) : Process Body :=
  ((process.getCurrentCoroutine thread).2.getMainCoroutine thread).2

section
variable (holds : Process Body → Prop) (thread : Nat)
  (make : ∀ process, (process.threads thread).mainCoroutine = none → holds process →
    holds (process.makeMain thread))
include make

theorem getMainCoroutine_preserves (process : Process Body) (start : holds process) :
    holds (process.getMainCoroutine thread).2 := by
  rcases getMainCoroutine_cases thread process with ⟨m,_,same⟩ | ⟨missing,made⟩
  · rw [same]
    exact start
  · rw [made]
    exact make process missing start

variable (aim : ∀ process m, (process.threads thread).mainCoroutine = some m →
  (process.threads thread).curCoroutine = none → holds process → holds (process.point thread m))
include aim

theorem getCurrentCoroutine_preserves (process : Process Body) (start : holds process) :
    holds (process.getCurrentCoroutine thread).2 := by
  rcases getCurrentCoroutine_cases thread process with ⟨c,_,same⟩ | ⟨missing,pointed⟩
  · rw [same]
    exact start
  · rw [pointed]
    refine aim _ _ (getMainCoroutine_main thread process) ?_
      (getMainCoroutine_preserves holds thread make process start)
    rw [getMainCoroutine_current]
    exact missing

theorem attach_preserves (process : Process Body) (start : holds process) :
    holds (process.attach thread) :=
  getMainCoroutine_preserves holds thread make _
    (getCurrentCoroutine_preserves holds thread make aim process start)

end

section
variable {thread other : Nat} (process : Process Body) (apart : other ≠ thread)
include apart

theorem setThread_elsewhere (value : Thread Body) :
    (process.setThread thread value).threads other = process.threads other := by
  rw [setThread_threads,if_neg apart]

theorem getMainCoroutine_elsewhere :
    (process.getMainCoroutine thread).2.threads other = process.threads other :=
  getMainCoroutine_preserves (fun middle => middle.threads other = process.threads other) thread
    (fun _ _ before => (setThread_elsewhere _ apart _).trans before) process rfl

private theorem getCurrentCoroutine_elsewhere :
    (process.getCurrentCoroutine thread).2.threads other = process.threads other :=
  getCurrentCoroutine_preserves (fun middle => middle.threads other = process.threads other) thread
    (fun _ _ before => (setThread_elsewhere _ apart _).trans before)
    (fun _ _ _ _ before => (setThread_elsewhere _ apart _).trans before) process rfl

theorem attach_elsewhere : (process.attach thread).threads other = process.threads other :=
  (getMainCoroutine_elsewhere _ apart).trans (getCurrentCoroutine_elsewhere process apart)

end

theorem enter_cases (context running : Context Body) (store after : Store Body)
    (call : enter context store = .ok (running,after)) :
    (∃ thread calls, context = .main thread calls ∧ running = context ∧ after = store) ∨
    (∃ co rest, context = .callBack co rest ∧ running = context ∧ after = store) ∨
    (∃ co object cb, context = .runCallBack co ∧ store.objects[co]? = some object ∧
      object.stackSp ≠ 0 ∧
      object.callBack = some cb ∧ running = .callBack co cb ∧
      after = store.modify co (Coroutine.setCallBackRunningFlag true)) := by
  cases context with
  | zero => cases call
  | finished co => cases call
  | main thread calls =>
    cases call
    exact Or.inl ⟨thread,calls,rfl,rfl,rfl⟩
  | callBack co rest =>
    cases call
    exact Or.inr (Or.inl ⟨co,rest,rfl,rfl,rfl⟩)
  | runCallBack co =>
    unfold enter at call
    cases located : store.objects[co]? with
    | none =>
      simp only [located] at call
      cases call
    | some object =>
      simp only [located] at call
      split at call
      · cases call
      · rename_i stack
        cases set : object.callBack with
        | none =>
          rw [set] at call
          cases call
        | some cb =>
          rw [set] at call
          cases call
          exact Or.inr (Or.inr ⟨co,object,cb,rfl,located,stack,set,rfl,rfl⟩)

theorem swap_effect (thread source target : Nat) (saved : Context Body)
    (process after : Process Body) (call : process.swap thread source target saved = .ok after) :
    ∃ object running store,
      (process.store.modify source fun co =>
        { co with coctx := saved }).objects[target]? = some object ∧
      enter object.coctx (process.store.modify source fun co => { co with coctx := saved }) = .ok
        (running,store) ∧
      after = setThread thread { process.threads thread with running := running }
        { process with store := store } := by
  unfold swap at call
  dsimp only at call
  split at call
  · cases call
  · rename_i object located
    obtain ⟨⟨running,store⟩,entered,result⟩ := bind_success call
    cases result
    exact ⟨object,running,store,located,entered,rfl⟩

theorem attach_main (thread : Nat) (process : Process Body) :
    ((process.attach thread).threads thread).mainCoroutine =
      some ((process.getCurrentCoroutine thread).2.getMainCoroutine thread).1 :=
  getMainCoroutine_main thread (process.getCurrentCoroutine thread).2

theorem attach_current (thread : Nat) (process : Process Body) :
    ((process.attach thread).threads thread).curCoroutine = some
      (process.getCurrentCoroutine thread).1 := by
  rw [attach,getMainCoroutine_current,getCurrentCoroutine_current]

theorem resumeCheck_main (thread co main : Nat) (process : Process Body)
    (object : Coroutine (Context Body) Body)
    (owner : ((process.attach thread).threads thread).mainCoroutine = some main)
    (current : ((process.attach thread).threads thread).curCoroutine = some main)
    (located : (process.attach thread).store.objects[co]? = some object) (other : co ≠ main) :
    process.resumeCheck thread (some co) =
      if object.resumeFlag = false then .error (.exit "pending coroutine is nullptr or resume flag is false!")
      else .ok (some (main,co),process.attach thread) := by
  have pointed := Option.some.inj ((attach_current thread process).symm.trans current)
  have owned := Option.some.inj ((attach_main thread process).symm.trans owner)
  unfold resumeCheck
  dsimp only
  rw [pointed,owned,if_neg (by simp),
    show ((process.getCurrentCoroutine thread).2.getMainCoroutine thread).2 =
    process.attach thread from rfl,located]
  dsimp only
  rw [if_neg (Ne.symm other)]

theorem resumeCheck_elsewhere (thread co main current : Nat) (process : Process Body)
    (owner : ((process.attach thread).threads thread).mainCoroutine = some main)
    (pointer : ((process.attach thread).threads thread).curCoroutine = some current)
    (other : current ≠ main) :
    process.resumeCheck thread (some co) =
      .error (.exit "swap error, current coroutine must be main coroutine!") := by
  have pointed := Option.some.inj ((attach_current thread process).symm.trans pointer)
  have owned := Option.some.inj ((attach_main thread process).symm.trans owner)
  unfold resumeCheck
  dsimp only
  rw [pointed,owned,if_pos other]

theorem resumeCheck_effect (thread co : Nat) (process attached : Process Body)
    (pending : Option (Nat × Nat))
    (call : process.resumeCheck thread (some co) = .ok (pending,attached)) :
    attached = process.attach thread ∧
      ∃ main object, ((process.attach thread).threads thread).mainCoroutine = some main ∧
        ((process.attach thread).threads thread).curCoroutine = some main ∧
        (process.attach thread).store.objects[co]? = some object ∧ object.resumeFlag = true ∧
        pending = if co = main then none else some (main,co) := by
  unfold resumeCheck at call
  dsimp only at call
  split at call
  · cases call
  · rename_i same
    have equal : (process.getCurrentCoroutine thread).1 =
        ((process.getCurrentCoroutine thread).2.getMainCoroutine thread).1 := by simpa using same
    have current := attach_current thread process
    rw [equal] at current
    split at call
    · cases call
    · rename_i object located
      split at call
      · cases call
      · rename_i flag
        rw [equal] at call
        split at call
        · rename_i self
          cases call
          exact ⟨rfl,_,object,attach_main thread process,current,located,by simpa using flag,
            by rw [if_pos self.symm]⟩
        · rename_i other
          cases call
          exact ⟨rfl,_,object,attach_main thread process,current,located,by simpa using flag,
            by rw [if_neg (Ne.symm other)]⟩

theorem resume_effect (thread co : Nat) (process after : Process Body)
    (call : process.resume thread (some co) = .ok after) :
    ∃ main object, ((process.attach thread).threads thread).mainCoroutine = some main ∧
      ((process.attach thread).threads thread).curCoroutine = some main ∧
      (process.attach thread).store.objects[co]? = some object ∧ object.resumeFlag = true ∧
      ((co = main ∧ after = setThread thread
          { (process.attach thread).threads thread with
            running := returned ((process.attach thread).threads thread).running }
              (process.attach thread)) ∨
        (co ≠ main ∧ swap thread main co (returned ((process.attach thread).threads thread).running)
          ((process.attach thread).point thread co) = .ok after)) := by
  obtain ⟨⟨pending,attached⟩,checked,call⟩ := bind_success call
  obtain ⟨rfl,main,object,owner,current,located,flag,rfl⟩ :=
    resumeCheck_effect thread co process attached pending checked
  refine ⟨main,object,owner,current,located,flag,?_⟩
  by_cases self : co = main
  · rw [if_pos self] at call
    cases call
    exact Or.inl ⟨self,rfl⟩
  · rw [if_neg self] at call
    exact Or.inr ⟨self,call⟩

theorem yield_effect (thread : Nat) (saved : Context Body) (process after : Process Body)
    (call : process.yield thread saved = .ok after) :
    ∃ main current, ((process.attach thread).threads thread).mainCoroutine = some main ∧
      ((process.attach thread).threads thread).curCoroutine = some current ∧ current ≠ main ∧
      swap thread current main saved ((process.attach thread).point thread main) = .ok after := by
  have current := attach_current thread process
  have main := attach_main thread process
  unfold yield at call
  dsimp only at call
  split at call
  · cases call
  · rename_i other
    exact ⟨_,_,main,current,other,call⟩

theorem setCallBack_effect (thread co : Nat) (cb : Body) (process after : Process Body)
    (accepted : Bool) (call : process.setCallBack thread co cb = .ok (accepted,after)) :
    ∃ main object, ((process.getMainCoroutine thread).2.threads thread).mainCoroutine = some main ∧
      (process.getMainCoroutine thread).2.store.objects[co]? = some object ∧
      ((accepted = true ∧ co ≠ main ∧ object.cbfuncRunningFlag = false ∧
          after = { (process.getMainCoroutine thread).2 with
            store := (process.getMainCoroutine thread).2.store.modify co fun _ =>
              { object with callBack := some cb, coctx := .runCallBack co, resumeFlag := true } }) ∨
        (accepted = false ∧ (co = main ∨ object.cbfuncRunningFlag = true) ∧
          after = (process.getMainCoroutine thread).2)) := by
  have main := getMainCoroutine_main thread process
  unfold setCallBack at call
  dsimp only at call
  split at call
  · cases call
  · rename_i object located
    refine ⟨_,object,main,located,?_⟩
    cases result : object.setCallBack (co == (process.getMainCoroutine thread).1)
      (.runCallBack co) cb with
    | mk answer changed =>
      rw [result] at call
      cases call
      cases answer with
      | true =>
        obtain ⟨other,idle,rfl⟩ := Coroutine.setCallBack_accepted result
        exact Or.inl ⟨rfl,by simpa using other,idle,rfl⟩
      | false =>
        obtain ⟨why,rfl⟩ := Coroutine.setCallBack_refused result
        refine Or.inr ⟨rfl,by simpa using why,?_⟩
        rw [Store.modify_same _ co changed located]

theorem step_elsewhere {next : Body → Option Body} {process after : Process Body}
    {event : Event Body} {other : Nat} (step : Step next process event after)
    (apart : ∀ thread, caller event = some thread → other ≠ thread) :
    after.threads other = process.threads other := by
  have swapped {thread source target : Nat} {saved : Context Body} {before result : Process Body}
      (away : other ≠ thread) (call : before.swap thread source target saved = .ok result) :
      result.threads other = before.threads other := by
    obtain ⟨_,_,_,_,_,rfl⟩ := swap_effect thread source target saved before result call
    exact setThread_elsewhere _ away _
  have yielded {thread : Nat} {saved : Context Body} {before result : Process Body}
    (away : other ≠ thread)
      (call : before.yield thread saved = .ok result) :
          result.threads other = before.threads other := by
    obtain ⟨_,_,_,_,_,call⟩ := yield_effect thread saved before result call
    exact (swapped away call).trans ((setThread_elsewhere _ away _).trans (attach_elsewhere _ away))
  cases step with
  | newCoroutine | newPool | resize | getCoroutine | backCoroutine => rfl
  | getMainCoroutine _ thread co call =>
    have same := getMainCoroutine_elsewhere process (apart thread rfl)
    rw [call] at same
    exact same
  | getCurrentCoroutine _ thread co call =>
    have same := getCurrentCoroutine_elsewhere process (apart thread rfl)
    rw [call] at same
    exact same
  | setCallBack _ thread co cb accepted call =>
    have away := apart thread rfl
    obtain ⟨_,_,_,_,⟨_,_,_,rfl⟩ | ⟨_,_,rfl⟩⟩ :=
      setCallBack_effect thread co cb process after accepted call
    · exact getMainCoroutine_elsewhere process away
    · exact getMainCoroutine_elsewhere process away
  | resume _ thread co call =>
    have away := apart thread rfl
    obtain ⟨_,_,_,_,_,_,⟨_,rfl⟩ | ⟨_,call⟩⟩ := resume_effect thread co process after call
    · exact (setThread_elsewhere _ away _).trans (attach_elsewhere _ away)
    · exact (swapped away call).trans ((setThread_elsewhere _ away _).trans
        (attach_elsewhere _ away))
  | yield _ thread co body rest running more call => exact yielded (apart thread rfl) call
  | finish _ thread co body running done call =>
    have left : Process.yield thread (.finished co)
      { process with store := process.store.modify co (Coroutine.setCallBackRunningFlag false) } =
        .ok after := call
    have same := yielded (apart thread rfl) left
    exact same

end Process

end MCoroutine
