import MCoroutine.General.Simulation
import MCoroutine.Switching

/-! The calls of the interface that are made of other calls: the constructor with a
callback, which sets it on the new object, and IsMainCoroutine, which asks for both
pointers. Their runs are runs of the calls they are made of. -/
namespace MCoroutine.Constructors
open General.Runs General.Simulation Process MCoroutine.Numbering SlotRuns Switching

variable {Body : Type}

/-- Of IsMainCoroutine the two pointers are recorded that it compares. -/
inductive Event (Body : Type)
  | call (event : Process.Event Body)
  | construct (thread co : Nat) (cb : Body)
  | isMain (thread main current : Nat)

inductive Step (next : Body → Option Body) : Process Body → Event Body → Process Body → Prop
  | call (process after : Process Body) (event : Process.Event Body)
      (step : Process.Step next process event after) :
      Step next process (.call event) after
  | construct (process after : Process Body) (thread stackSize stackPtr co : Nat) (cb : Body)
      (sized : stackSize < 2^32) (made : process.newCoroutine thread stackSize stackPtr cb =
      .ok (co,after)) :
      Step next process (.construct thread co cb) after
  | isMain (process after : Process Body) (thread main current : Nat)
      (asked : process.isMainCoroutine thread = (main == current,after))
      (owner : (after.threads thread).mainCoroutine = some main)
      (pointer : (after.threads thread).curCoroutine = some current) :
      Step next process (.isMain thread main current) after

/-- The calls that a call is made of, the last one first. -/
def expand : Event Body → List (Process.Event Body)
  | .call event => [event]
  | .construct thread co cb => [.setCallBack thread co cb true,.newCoroutine co]
  | .isMain thread main current => [.getCurrentCoroutine thread current,
      .getMainCoroutine thread main]

def Careful (history : List (Event Body)) (process : Process Body) : Event Body → Prop
  | .call event => Sensible (history.flatMap expand) process event
  | _ => True

abbrev Reached (next : Body → Option Body) (history : List (Event Body)) (process : Process Body) :
    Prop :=
  Run (fun process => process = Process.initial) Careful (Step next) history process

private theorem constructed_object {store after : Store Body} {stackSize stackPtr co : Nat}
    (made : store.make stackSize stackPtr = .ok (co,after)) :
    ∃ object, after.objects[co]? = some object ∧ object.stackSp ≠ 0 ∧
      object.cbfuncRunningFlag = false := by
  obtain ⟨high,rfl,rfl⟩ := Store.make_effect store after stackSize stackPtr co made
  refine ⟨_,by rw [List.getElem?_append_right (Nat.le_refl _),Nat.sub_self]; rfl,high,rfl⟩

private theorem stacked_accepts {record : List (Process.Event Body)} {process after : Process Body}
    {thread co : Nat} {cb : Body} {accepted : Bool} {object : Coroutine (Context Body) Body}
    (coherent : Coherent record process) (located : process.store.objects[co]? = some object)
    (stack : object.stackSp ≠ 0) (outside : object.cbfuncRunningFlag = false)
    (call : process.setCallBack thread co cb = .ok (accepted,after)) :
    accepted = true := by
  obtain ⟨main,found,owner,there,⟨accepts,_⟩ | ⟨_,refused,_⟩⟩ :=
    setCallBack_effect thread co cb process after accepted call
  · exact accepts
  · obtain rfl := Option.some.inj ((getMainCoroutine_keeps thread located).symm.trans there)
    rcases refused with rfl | running
    · exact absurd rfl (stacked_not_main (coherent.getMainCoroutine thread) owner there stack)
    · rw [outside] at running
      cases running

section
variable {next : Body → Option Body} {record : List (Process.Event Body)}
  {process after : Process Body}
  (below : Run (fun process => process = Process.initial) Sensible
    (Process.Step next) record process)

include below in
private theorem construct_expands {thread stackSize stackPtr co : Nat} {cb : Body}
    (sized : stackSize < 2^32)
    (made : process.newCoroutine thread stackSize stackPtr cb = .ok (co,after)) :
    Continues Sensible (Process.Step next) record process
      [.setCallBack thread co cb true,.newCoroutine co] after := by
  obtain ⟨⟨fresh,store⟩,constructed,rest⟩ := bind_success made
  obtain ⟨⟨accepted,later⟩,set,result⟩ := bind_success rest
  cases result
  have first : Process.Step next process (.newCoroutine co) { process with store := store } :=
    .newCoroutine process stackSize stackPtr co store sized constructed
  have middle := Run.next record process (.newCoroutine co) _ below trivial first
  obtain ⟨object,located,stack,outside⟩ := constructed_object constructed
  obtain rfl := stacked_accepts (reached_coherent middle) located stack outside set
  refine .next _ _ _ _ (moves trivial first) ?_ (.setCallBack _ _ thread co cb true set)
  exact (stacked_iff _ co).mpr ⟨object,located,stack⟩

private theorem current_keeps_main {main : Nat} (process : Process Body) (thread : Nat)
    (owner : (process.threads thread).mainCoroutine = some main) :
    ((process.getCurrentCoroutine thread).2.threads thread).mainCoroutine = some main := by
  refine getCurrentCoroutine_preserves
    (fun middle => (middle.threads thread).mainCoroutine = some main) thread ?_ ?_
    process owner
  · intro middle missing there
    rw [there] at missing
    cases missing
  · intro middle m _ _ there
    exact (setThread_keeps Thread.mainCoroutine (by rfl) thread).trans there

private theorem isMain_expands {thread main current : Nat} {answer : Bool}
    (asked : process.isMainCoroutine thread = (answer,after))
    (owner : (after.threads thread).mainCoroutine = some main)
    (pointer : (after.threads thread).curCoroutine = some current) :
    Continues Sensible (Process.Step next) record process
      [.getCurrentCoroutine thread current,.getMainCoroutine thread main] after := by
  have result : ((process.getMainCoroutine thread).2.getCurrentCoroutine thread).2 = after :=
    congrArg Prod.snd asked
  subst after
  have owned := current_keeps_main _ thread (getMainCoroutine_main thread process)
  have pointed := getCurrentCoroutine_current thread (process.getMainCoroutine thread).2
  obtain rfl := Option.some.inj (owned.symm.trans owner)
  obtain rfl := Option.some.inj (pointed.symm.trans pointer)
  exact .next _ _ _ _ (moves trivial (.getMainCoroutine process _ thread _ rfl)) trivial
    (.getCurrentCoroutine _ _ thread _ rfl)

end

theorem simulates (next : Body → Option Body) :
    Simulates (fun process : Process Body => process = Process.initial) Careful (Step next)
      (fun process => process = Process.initial) Sensible (Process.Step next)
      fun history process record abstract => record = history.flatMap expand ∧
        abstract = process := by
  refine ⟨fun process start => ⟨process,start,rfl,rfl⟩,?_⟩
  rintro history before event after record source _ below ⟨rfl,rfl⟩ careful step
  refine ⟨expand event,after,?_,by simp,rfl⟩
  cases step with
  | call _ event step => exact moves careful step
  | construct _ thread stackSize stackPtr co cb sized made =>
    exact construct_expands below sized made
  | isMain _ thread main current asked owner pointer => exact isMain_expands asked owner pointer

/-- Every run with constructors that set callbacks and with IsMainCoroutine is a sensible run
of the calls these are made of. In particular no such constructor is refused its callback. -/
theorem interface_expands (next : Body → Option Body) (history : List (Event Body))
    (process : Process Body) (run : Reached next history process) :
    Run (fun process => process = Process.initial) Sensible (Process.Step next)
      (history.flatMap expand) process :=
  (simulates next).image run

theorem interface_expands_asked :
    ∃ process : Process Unit, Run (fun process => process = Process.initial) Sensible
      (Process.Step fun _ => none)
      [.getCurrentCoroutine 0 1,.getMainCoroutine 0 1,.setCallBack 0 0 () true,
        .newCoroutine 0] process := by
  have made : Reached (fun _ : Unit => none) [.construct 0 0 ()] _ :=
    .next [] _ _ _ (.start _ rfl) trivial
    (.construct _ _ 0 16 4096 0 () (by decide) rfl)
  have asked : Reached (fun _ : Unit => none) [.isMain 0 1 1,.construct 0 0 ()] _ :=
    .next _ _ _ _ made trivial
    (.isMain _ _ 0 1 1 rfl rfl rfl)
  exact ⟨_,interface_expands _ _ _ asked⟩

end MCoroutine.Constructors
