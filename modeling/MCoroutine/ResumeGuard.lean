import MCoroutine.Anchors

/-! The resume flag against the control state of a coroutine, as the calls made on it
determine it. The flag is set with a callback and is not cleared when it returns. -/
namespace MCoroutine.ResumeGuard
open General.Runs Process MCoroutine.Numbering SlotRuns Switching Anchors

variable {Body : Type}

inductive Control
  | unset
  | fresh
  | executing
  | suspended
  | completed
  deriving DecidableEq, Repr

def control : List (Event Body) → Nat → Control
  | [],_ => .unset
  | .setCallBack _ c _ true::past,co => if c = co then .fresh else control past co
  | .resume _ c::past,co => if c = co then .executing else control past co
  | .yield _ c::past,co => if c = co then .suspended else control past co
  | .finish _ c::past,co => if c = co then .completed else control past co
  | _::past,co => control past co

/-- A thread has resumed another coroutine since a callback was last accepted by `co`. -/
def ResumedSince : List (Event Body) → Nat → Nat → Prop
  | [],_,_ => False
  | .setCallBack _ c _ true::past,host,co => c ≠ co ∧ ResumedSince past host co
  | .resume caller c::past,host,co => (caller = host ∧ c ≠ co) ∨ ResumedSince past host co
  | _::past,host,co => ResumedSince past host co

/-- A main coroutine that was given a callback holds the main code of its thread again. -/
def Overwritten (history : List (Event Body)) (process : Process Body) (co : Nat) : Prop :=
  ∃ host, (process.threads host).mainCoroutine = some co ∧ ResumedSince history host co

/-- A callback is set that has not started yet or is suspended at a Yield. -/
def Resumable (process : Process Body) (co : Nat) : Prop :=
  ¬ Executing process co ∧ ∃ object, process.store.objects[co]? = some object ∧
    ((object.coctx = .runCallBack co ∧ ∃ cb, object.callBack = some cb) ∨
      ∃ rest, object.coctx = .callBack co rest)

def Tracks (process : Process Body) (co : Nat) : Control → Coroutine (Context Body) Body → Prop
  | .unset,object => object.resumeFlag = false
  | .fresh,object => object.coctx = .runCallBack co ∧ ∃ cb, object.callBack = some cb
  | .executing,_ => ∃ thread body, (process.threads thread).running = .callBack co body
  | .suspended,object => ∃ rest, object.coctx = .callBack co rest
  | .completed,object => object.coctx = .finished co

structure Guarded (history : List (Event Body)) (process : Process Body) : Prop where
  later : ∀ co, process.store.objects.length ≤ co → control history co = .unset
  tracks : ∀ co object, process.store.objects[co]? = some object → object.stackSp ≠ 0 →
    Tracks process co (control history co) object
  unfinished : ∀ co object, process.store.objects[co]? = some object → object.stackSp = 0 →
    control history co ≠ .completed
  bare : ∀ co object, process.store.objects[co]? = some object → object.stackSp = 0 →
    object.resumeFlag = true →
    (Overwritten history process co ∧ ∃ host count, object.coctx = .main host count) ∨
      (¬ Overwritten history process co ∧ object.coctx = .runCallBack co ∧
        ∃ cb, object.callBack = some cb)

theorem Tracks.keep {process after : Process Body} {co : Nat} {status : Control}
    {object other : Coroutine (Context Body) Body} (tracks : Tracks process co status object)
    (coctx : other.coctx = object.coctx) (callBack : other.callBack = object.callBack)
    (flag : object.resumeFlag = false → other.resumeFlag = false)
    (running : ∀ thread body, (process.threads thread).running = .callBack co body →
      (after.threads thread).running = .callBack co body) : Tracks after co status other := by
  cases status with
  | unset => exact flag tracks
  | fresh =>
    obtain ⟨start,cb,set⟩ := tracks
    exact ⟨coctx.trans start,cb,callBack.trans set⟩
  | executing =>
    obtain ⟨thread,body,runs⟩ := tracks
    exact ⟨thread,body,running thread body runs⟩
  | suspended =>
    obtain ⟨rest,saved⟩ := tracks
    exact ⟨rest,coctx.trans saved⟩
  | completed => exact coctx.trans tracks

/-- Objects are added without their resume flag, and those present keep their context. -/
structure Tame (process after : Process Body) : Prop where
  length : process.store.objects.length ≤ after.store.objects.length
  objects : ∀ (co : Nat) (other : Coroutine (Context Body) Body),
    after.store.objects[co]? = some other →
    (∃ object, process.store.objects[co]? = some object ∧ other.stackSp = object.stackSp ∧
      other.coctx = object.coctx ∧ other.callBack = object.callBack ∧
      (object.resumeFlag = false → other.resumeFlag = false)) ∨
    (process.store.objects.length ≤ co ∧ other.resumeFlag = false)
  owners : ∀ thread co, co < process.store.objects.length →
    ((after.threads thread).mainCoroutine = some co ↔
      (process.threads thread).mainCoroutine = some co)
  running : ∀ thread co body, (process.threads thread).running = .callBack co body →
    (after.threads thread).running = .callBack co body

private theorem tame_append {process after : Process Body}
    (fresh : List (Coroutine (Context Body) Body))
    (owners : ∀ thread co, co < process.store.objects.length →
      ((after.threads thread).mainCoroutine = some co ↔
      (process.threads thread).mainCoroutine = some co))
    (running : ∀ thread co body, (process.threads thread).running = .callBack co body →
      (after.threads thread).running = .callBack co body)
    (objects : after.store.objects = process.store.objects ++ fresh)
    (unused : ∀ object ∈ fresh, object.resumeFlag = false) : Tame process after := by
  refine ⟨by rw [objects,List.length_append]; omega,?_,owners,running⟩
  intro co other located
  rcases Nat.lt_or_ge co process.store.objects.length with inside | beyond
  · rw [objects,List.getElem?_append_left inside] at located
    exact Or.inl ⟨other,located,rfl,rfl,rfl,fun flag => flag⟩
  · rw [objects,List.getElem?_append_right beyond] at located
    exact Or.inr ⟨beyond,unused other (List.mem_of_getElem? located)⟩

theorem tame_grow {process after : Process Body} (fresh : List (Coroutine (Context Body) Body))
    (threads : after.threads = process.threads)
    (objects : after.store.objects = process.store.objects ++ fresh)
    (unused : ∀ object ∈ fresh, Unused object) : Tame process after :=
  tame_append fresh (by simp [threads]) (by simp [threads]) objects fun object old =>
    (unused object old).2.1

private theorem tame_modify {process after : Process Body} (co : Nat)
    (change : Coroutine (Context Body) Body → Coroutine (Context Body) Body)
    (threads : after.threads = process.threads)
    (store : after.store = process.store.modify co change)
    (keeps : ∀ object, (change object).stackSp = object.stackSp ∧
      (change object).coctx = object.coctx ∧ (change object).callBack = object.callBack ∧
      (object.resumeFlag = false → (change object).resumeFlag = false)) :
    Tame process after := by
  refine ⟨Nat.le_of_eq (by rw [store,Store.modify_length]),?_,by simp [threads],by simp [threads]⟩
  intro k other located
  rw [store,Store.modify_at] at located
  by_cases same : k = co
  · subst k
    rw [if_pos rfl] at located
    obtain ⟨object,there,rfl⟩ := Option.map_eq_some_iff.mp located
    exact Or.inl ⟨object,there,keeps object⟩
  · rw [if_neg same] at located
    exact Or.inl ⟨other,located,rfl,rfl,rfl,fun flag => flag⟩

theorem tame_makeMain {process : Process Body} {thread : Nat}
    (missing : (process.threads thread).mainCoroutine = none) :
    Tame process (process.makeMain thread) := by
  refine tame_append [Coroutine.default .zero] ?_ ?_ rfl (by simp [Coroutine.default])
  · intro other co inside
    have owner := appointed_owner missing process.store.objects.length other co
    refine owner.trans ⟨?_,Or.inr⟩
    rintro (⟨_,rfl⟩ | before)
    · exact absurd inside (Nat.lt_irrefl _)
    · exact before
  · intro other co body runs
    rw [running_makeMain]
    exact runs

theorem tame_point (process : Process Body) (thread co : Nat) :
    Tame process (process.point thread co) := by
  refine tame_append [] ?_ ?_ (by simp [Process.point]) (by simp)
  · intro other k _
    rw [show ((process.point thread co).threads other).mainCoroutine =
      (process.threads other).mainCoroutine from
      setThread_keeps Thread.mainCoroutine (by rfl) other]
  · intro other k body runs
    rw [running_point]
    exact runs

theorem tame_release {process : Process Body} {co : Nat} {result before : CoroutinePool}
    {store : Store Body} (index : Nat)
    (call : before.backCoroutine co process.store = .ok (store,result)) :
    Tame process (process.setPool index store result) := by
  obtain ⟨object,pair,_,_,⟨_,rfl,rfl⟩ | ⟨_,rfl,rfl⟩⟩ :=
    CoroutinePool.backCoroutine_effect co process.store store before result call
  · exact tame_grow [] rfl (by simp [Process.setPool]) (by simp)
  · exact tame_modify pair.first _ rfl rfl (fun _ => ⟨rfl,rfl,rfl,fun _ => rfl⟩)

/-- What an event leaves of the tracked history, where only a main coroutine may change
its control. -/
structure Unmoved (past history : List (Event Body)) (process : Process Body) : Prop where
  stacked : ∀ co, (∀ object, process.store.objects[co]? = some object → object.stackSp ≠ 0) →
    control history co = control past co
  completed : ∀ co, control past co ≠ .completed → control history co ≠ .completed
  since : ∀ host co, (process.threads host).mainCoroutine = some co →
    (ResumedSince history host co ↔ ResumedSince past host co)

theorem Unmoved.same {past history : List (Event Body)} {process : Process Body}
    (same : ∀ co, control history co = control past co)
    (since : ∀ host co, ResumedSince history host co ↔ ResumedSince past host co) :
    Unmoved past history process :=
  ⟨fun co _ => same co,fun co before => by rw [same]; exact before,fun host co _ => since host co⟩

private theorem unmoved_refl (history : List (Event Body)) (process : Process Body) :
    Unmoved history history process :=
  .same (fun _ => rfl) (fun _ _ => Iff.rfl)

private theorem unmoved_plain {event : Event Body} (plain : Plain event) (past : List (Event Body))
    (process : Process Body) :
    Unmoved past (event::past) process := by
  refine .same (fun co => ?_) (fun host co => ?_)
  · cases event <;> first | rfl | exact plain.elim
  · cases event <;> first | exact Iff.rfl | exact plain.elim

theorem Guarded.tame {past history : List (Event Body)} {process after : Process Body}
    (guarded : Guarded past process) (tame : Tame process after)
    (unmoved : Unmoved past history process) : Guarded history after := by
  have beyond_unset {co : Nat} (beyond : process.store.objects.length ≤ co) :
      control history co = .unset := by
    rw [unmoved.stacked co (by simp [List.getElem?_eq_none beyond])]
    exact guarded.later co beyond
  refine ⟨?_,?_,?_,?_⟩
  · intro co beyond
    exact beyond_unset (Nat.le_trans tame.length beyond)
  · intro co other located stack
    rcases tame.objects co other located with
      ⟨object,there,size,coctx,callBack,flag⟩ | ⟨beyond,unset⟩
    · rw [size] at stack
      rw [unmoved.stacked co (fun same here => by rw [there] at here; cases here; exact stack)]
      exact (guarded.tracks co object there stack).keep coctx callBack flag
        (fun thread body => tame.running thread co body)
    · rw [beyond_unset beyond]
      exact unset
  · intro co other located none
    rcases tame.objects co other located with ⟨object,there,size,_⟩ | ⟨beyond,_⟩
    · exact unmoved.completed co (guarded.unfinished co object there (size.symm.trans none))
    · rw [beyond_unset beyond]
      exact nofun
  · intro co other located none set
    rcases tame.objects co other located with ⟨object,there,size,coctx,callBack,flag⟩ | ⟨_,unset⟩
    · have inside := (List.getElem?_eq_some_iff.mp there).1
      have before : object.resumeFlag = true := by
        by_contra unset
        rw [flag (by simpa using unset)] at set
        cases set
      have overwritten : Overwritten history after co ↔ Overwritten past process co := by
        refine exists_congr fun host => ?_
        rw [tame.owners host co inside]
        exact and_congr_right fun owner => unmoved.since host co owner
      rw [overwritten,coctx,callBack]
      exact guarded.bare co object there (size.symm.trans none) before
    · rw [unset] at set
      cases set

theorem Guarded.fresh {history : List (Event Body)} {thread : Nat} {process : Process Body}
    (missing : (process.threads thread).mainCoroutine = none)
    (both : Anchored process ∧ Guarded history process) :
    Anchored (process.makeMain thread) ∧ Guarded history (process.makeMain thread) :=
  ⟨both.1.makeMain missing,both.2.tame (tame_makeMain missing) (unmoved_refl history process)⟩

theorem Guarded.aim {history : List (Event Body)} {thread main : Nat} {process : Process Body}
    (missing : (process.threads thread).curCoroutine = none)
    (both : Anchored process ∧ Guarded history process) :
    Anchored (process.point thread main) ∧ Guarded history (process.point thread main) :=
  ⟨both.1.point missing,both.2.tame (tame_point process thread main) (unmoved_refl history process)⟩

theorem Guarded.getMainCoroutine {history : List (Event Body)} {process : Process Body}
    (guarded : Guarded history process) (anchored : Anchored process) (thread : Nat) :
    Guarded history (process.getMainCoroutine thread).2 :=
  (getMainCoroutine_preserves (fun middle => Anchored middle ∧ Guarded history middle) thread
    (fun _ => Guarded.fresh) process ⟨anchored,guarded⟩).2

theorem Guarded.attach {history : List (Event Body)} {process : Process Body}
    (guarded : Guarded history process) (anchored : Anchored process) (thread : Nat) :
    Guarded history (process.attach thread) :=
  (attach_preserves (fun middle => Anchored middle ∧ Guarded history middle) thread
    (fun _ => Guarded.fresh) (fun _ _ _ => Guarded.aim) process ⟨anchored,guarded⟩).2

theorem Guarded.resumed {past : List (Event Body)} {process after : Process Body} {thread co : Nat}
    (guarded : Guarded past process) (anchored : Anchored process)
    (resumed : Resumed process thread co after) :
    Guarded (.resume thread co::past) after := by
  cases resumed with
  | itself host count owner caller =>
    obtain ⟨mine,present,none⟩ := anchored.mains thread co owner
    refine guarded.tame (tame_append [] ?_ ?_ (by simp) (by simp)) ⟨?_,?_,?_⟩
    · intro other k _
      rw [setThread_keeps Thread.mainCoroutine (by rfl) other]
    · intro other k body runs
      by_cases same : other = thread
      · subst other
        rw [caller] at runs
        cases runs
      · rw [setThread_elsewhere process same]
        exact runs
    · intro k high
      rw [control,if_neg]
      rintro rfl
      exact high mine present none
    · intro k before
      rw [control]
      split
      · exact nofun
      · exact before
    · intro other k owned
      refine ⟨?_,Or.inr⟩
      rintro (⟨rfl,apart⟩ | before)
      · exact absurd (Option.some.inj (owner.symm.trans owned)) apart
      · exact before
  | swapped main host count object _ owner caller other located shift current entered =>
    obtain ⟨mine,present,bareMain⟩ := anchored.mains thread main owner
    refine ⟨?_,?_,?_,?_⟩
    · intro k beyond
      have inside := (List.getElem?_eq_some_iff.mp located).1
      rw [shift.length] at beyond
      rw [control,if_neg (by omega)]
      exact guarded.later k beyond
    · intro k found there stack
      obtain ⟨before,here,size,callBack,flag,coctx⟩ := shift.objects k found there
      rw [size] at stack
      have apart : k ≠ main := by
        rintro rfl
        rw [present] at here
        cases here
        exact stack bareMain
      rw [if_neg apart] at coctx
      by_cases same : co = k
      · subst k
        rw [control,if_pos rfl]
        rw [located] at here
        cases here
        rcases entered with ⟨none,_⟩ | ⟨_,body,runs⟩
        · exact absurd none stack
        · exact ⟨thread,body,runs⟩
      · rw [control,if_neg same]
        refine (guarded.tracks k before here stack).keep coctx callBack
          (fun unset => flag.trans unset) ?_
        intro t b runs
        by_cases self : t = thread
        · subst t
          rw [caller] at runs
          cases runs
        · rw [shift.elsewhere t self]
          exact runs
    · intro k found there none
      obtain ⟨before,here,size,_⟩ := shift.objects k found there
      rw [control]
      split
      · exact nofun
      · exact guarded.unfinished k before here (size.symm.trans none)
    · intro k found there none set
      obtain ⟨before,here,size,callBack,flag,coctx⟩ := shift.objects k found there
      by_cases apart : k = main
      · subst k
        rw [if_pos rfl] at coctx
        exact Or.inl ⟨⟨thread,(shift.owners thread).trans owner,Or.inl ⟨rfl,other⟩⟩,host,
          count + 1,coctx⟩
      · rw [if_neg apart] at coctx
        have overwritten : Overwritten (.resume thread co::past) after k ↔
            Overwritten past process k := by
          refine exists_congr fun t => ?_
          rw [shift.owners]
          refine and_congr_right fun owned => ⟨?_,Or.inr⟩
          rintro (⟨rfl,_⟩ | earlier)
          · exact absurd (Option.some.inj (owned.symm.trans owner)) apart
          · exact earlier
        rw [overwritten,coctx,callBack]
        exact guarded.bare k before here (size.symm.trans none) (flag.symm.trans set)

theorem Guarded.left {past : List (Event Body)} {process after : Process Body} {thread co : Nat}
    {body : Body} {saved : Context Body} {event : Event Body} {status : Control}
    (guarded : Guarded past process) (anchored : Anchored process)
    (running : (process.threads thread).running = .callBack co body)
    (shift : Shift process after thread co saved)
    (changed : ∀ k, control (event::past) k = if co = k then status else control past k)
    (since : ∀ host k, ResumedSince (event::past) host k ↔ ResumedSince past host k)
    (tracks : ∀ object, object.coctx = saved → Tracks after co status object) :
    Guarded (event::past) after := by
  have stack : ∃ object, process.store.objects[co]? = some object ∧ object.stackSp ≠ 0 := by
    rcases anchored.placed thread with ⟨_,_,main⟩ | ⟨_,_,there,_,stack⟩
    · rw [running] at main
      cases main
    · rw [running] at there
      cases there
      exact (stacked_iff _ co).mp stack
  obtain ⟨inner,present,high⟩ := stack
  have inside := (List.getElem?_eq_some_iff.mp present).1
  have apart {k : Nat} {before : Coroutine (Context Body) Body}
    (here : process.store.objects[k]? = some before)
      (none : before.stackSp = 0) : k ≠ co := by
    rintro rfl
    rw [present] at here
    cases here
    exact high none
  refine ⟨?_,?_,?_,?_⟩
  · intro k beyond
    rw [shift.length] at beyond
    rw [changed,if_neg (by omega)]
    exact guarded.later k beyond
  · intro k found there stack
    obtain ⟨before,here,size,callBack,flag,coctx⟩ := shift.objects k found there
    rw [changed]
    by_cases same : co = k
    · subst k
      rw [if_pos rfl]
      exact tracks found (coctx.trans (if_pos rfl))
    · rw [if_neg (Ne.symm same)] at coctx
      rw [if_neg same]
      rw [size] at stack
      refine (guarded.tracks k before here stack).keep coctx callBack
        (fun unset => flag.trans unset) ?_
      intro t b runs
      by_cases self : t = thread
      · subst t
        rw [running] at runs
        cases runs
        exact absurd rfl same
      · rw [shift.elsewhere t self]
        exact runs
  · intro k found there none
    obtain ⟨before,here,size,_⟩ := shift.objects k found there
    have bare := size.symm.trans none
    rw [changed,if_neg (Ne.symm (apart here bare))]
    exact guarded.unfinished k before here bare
  · intro k found there none set
    obtain ⟨before,here,size,callBack,flag,coctx⟩ := shift.objects k found there
    have bare := size.symm.trans none
    rw [if_neg (apart here bare)] at coctx
    have overwritten : Overwritten (event::past) after k ↔ Overwritten past process k := by
      refine exists_congr fun t => ?_
      rw [shift.owners]
      exact and_congr_right fun _ => since t k
    rw [overwritten,coctx,callBack]
    exact guarded.bare k before here bare (flag.symm.trans set)

theorem Guarded.accept {past : List (Event Body)} {process after : Process Body} {thread co : Nat}
    {cb : Body} {accepted : Bool} (before : Guarded past process) (anchored : Anchored process)
    (call : process.setCallBack thread co cb = .ok (accepted,after)) :
    Guarded (.setCallBack thread co cb accepted::past) after := by
  have guarded := before.getMainCoroutine anchored thread
  obtain ⟨main,object,_,located,⟨rfl,_,_,rfl⟩ | ⟨rfl,_,rfl⟩⟩ :=
    setCallBack_effect thread co cb process after accepted call
  · have kept {k : Nat} {other : Coroutine (Context Body) Body} (same : co ≠ k)
        (there : ((process.getMainCoroutine thread).2.store.modify co fun _ =>
          { object with callBack := some cb, coctx := .runCallBack co, resumeFlag := true }).objects[k]? = some other) :
        (process.getMainCoroutine thread).2.store.objects[k]? = some other := by
      rw [Store.modify_at,if_neg (Ne.symm same)] at there
      exact there
    refine ⟨?_,?_,?_,?_⟩
    · intro k beyond
      have inside := (List.getElem?_eq_some_iff.mp located).1
      rw [Store.modify_length] at beyond
      rw [control,if_neg (by omega)]
      exact guarded.later k beyond
    · intro k other there stack
      by_cases same : co = k
      · subst k
        rw [Store.modify_at,if_pos rfl,located] at there
        cases there
        rw [control,if_pos rfl]
        exact ⟨rfl,cb,rfl⟩
      · rw [control,if_neg same]
        exact (guarded.tracks k other (kept same there) stack).keep rfl rfl (fun flag => flag)
          (fun _ _ runs => runs)
    · intro k other there none
      rw [control]
      split
      · exact nofun
      · rename_i same
        exact guarded.unfinished k other (kept same there) none
    · intro k other there none set
      by_cases same : co = k
      · subst k
        rw [Store.modify_at,if_pos rfl,located] at there
        cases there
        refine Or.inr ⟨?_,rfl,cb,rfl⟩
        rintro ⟨host,_,apart,_⟩
        exact apart rfl
      · rcases guarded.bare k other (kept same there) none set with
          ⟨⟨host,owner,since⟩,held⟩ | ⟨never,start⟩
        · exact Or.inl ⟨⟨host,owner,same,since⟩,held⟩
        · refine Or.inr ⟨?_,start⟩
          rintro ⟨host,owner,_,since⟩
          exact never ⟨host,owner,since⟩
  · exact guarded.tame (tame_grow [] rfl (by simp) (by simp))
      (.same (fun _ => rfl) (fun _ _ => Iff.rfl))

private theorem step_guarded {next : Body → Option Body} {past : List (Event Body)}
    {process after : Process Body} {event : Event Body} (structured : Structured process)
    (anchored : Anchored process) (guarded : Guarded past process)
    (step : Step next process event after) : Guarded (event::past) after := by
  cases step_outline structured step with
  | grow _ _ fresh plain threads objects unused =>
    exact guarded.tame (tame_grow fresh threads objects unused) (unmoved_plain plain past process)
  | attach _ _ thread plain reached =>
    obtain ⟨_,attached⟩ := reached (fun middle => Anchored middle ∧ Guarded past middle)
      (fun _ => Guarded.fresh) (fun _ _ _ => Guarded.aim) ⟨anchored,guarded⟩
    exact attached.tame (tame_grow [] rfl (by simp) (by simp)) (unmoved_plain plain past after)
  | release thread index co before result store located call =>
    exact guarded.tame (tame_release index call) (.same (fun _ => rfl) (fun _ _ => Iff.rfl))
  | accept thread co cb accepted _ call => exact guarded.accept anchored call
  | resume thread co _ call =>
    have attached := anchored.attach thread
    exact (guarded.attach anchored thread).resumed attached (attached.resumes call)
  | yield thread co body rest _ running more call =>
    have attached := anchored.attach thread
    obtain ⟨shift,_⟩ := attached.yields running call
    exact (guarded.attach anchored thread).left attached
      ((running_attach process thread thread).trans running) shift
      (fun _ => rfl) (fun _ _ => Iff.rfl) (fun _ saved => ⟨rest,saved⟩)
  | finish thread co body _ running done call =>
    have attached := (anchored.clear co).attach thread
    obtain ⟨shift,_⟩ := attached.yields running call
    have cleared : Guarded past
        { process with store := process.store.modify co (Coroutine.setCallBackRunningFlag false) } :=
      guarded.tame (tame_modify co (Coroutine.setCallBackRunningFlag false) rfl rfl
        (fun _ => ⟨rfl,rfl,rfl,fun flag => flag⟩)) (unmoved_refl past process)
    exact (cleared.attach (anchored.clear co) thread).left attached
      ((running_attach _ thread thread).trans running) shift
      (fun _ => rfl) (fun _ _ => Iff.rfl) (fun _ saved => saved)

theorem reached_guarded {next : Body → Option Body}
    {allowed : List (Event Body) → Process Body → Event Body → Prop} {history : List (Event Body)}
    {process : Process Body}
    (run : Run (fun process => process = Process.initial) allowed (Step next) history process) :
    Guarded history process := by
  refine run.invariant Guarded ?_ ?_
  · rintro process rfl
    constructor
    · exact fun _ _ => rfl
    · intro co object located
      cases located
    · intro co object located
      cases located
    · intro co object located
      cases located
  · intro past before event after reached guarded _ step
    exact step_guarded (reached_structured reached) (reached_anchored reached) guarded step

theorem swap_finished {process : Process Body} {thread main co runner : Nat}
    {object : Coroutine (Context Body) Body} (saved : Context Body)
    (located : process.store.objects[co]? = some object) (other : co ≠ main)
    (finished : object.coctx = .finished runner) :
    swap thread main co saved process = .error .wildJump := by
  have found : (process.store.modify main fun host => { host with coctx := saved }).objects[co]? =
      some object := by
    rw [Store.modify_at,if_neg other]
    exact located
  unfold swap
  dsimp only
  rw [found]
  simp only [finished]
  rfl

private theorem overwritten_attach {history : List (Event Body)} {process : Process Body}
    {thread co main : Nat}
    (owner : ((process.attach thread).threads thread).mainCoroutine = some main)
    (other : co ≠ main) :
    Overwritten history (process.attach thread) co ↔ Overwritten history process co := by
  refine exists_congr fun host => ?_
  by_cases same : host = thread
  · subst host
    have absent : (process.threads thread).mainCoroutine ≠ some co := by
      intro owned
      have kept := attach_preserves (fun middle =>
        (middle.threads thread).mainCoroutine = some co) thread
        (fun middle missing before => by rw [missing] at before; cases before)
        (fun middle m _ _ before => by simpa [Process.point] using before) process owned
      exact other (Option.some.inj (kept.symm.trans owner))
    simp [owner,absent,Ne.symm other]
  · rw [attach_elsewhere process same]

/-- A Resume that passes its checks and would swap finds a resumable coroutine exactly
when no thread executes it, its callback has not returned since it was set, and it is
not a main coroutine that holds the main code of its thread again. In the second case
it jumps behind the end of runCallBack. -/
theorem resumable_iff (next : Body → Option Body) (history : List (Event Body))
    (process attached : Process Body) (run : Reached next history process) (thread co main : Nat)
    (passes : process.resumeCheck thread (some co) = .ok (some (main,co),attached)) :
    (Resumable attached co ↔ ¬ Executing process co ∧ control history co ≠ .completed ∧
        ¬ Overwritten history process co) ∧
      (control history co = .completed → process.resume thread (some co) = .error .wildJump) := by
  obtain ⟨rfl,m,object,owner,current,located,flag,pending⟩ :=
    resumeCheck_effect thread co process attached _ passes
  have anchored := (reached_anchored run).attach thread
  have guarded := (reached_guarded run).attach (reached_anchored run) thread
  have other : co ≠ m := by
    intro same
    rw [if_pos same] at pending
    cases pending
  rw [if_neg other] at pending
  cases pending
  have resumable : Resumable (process.attach thread) co ↔ ¬ Executing process co ∧
      ((object.coctx = .runCallBack co ∧ ∃ cb, object.callBack = some cb) ∨
        ∃ rest, object.coctx = .callBack co rest) := by
    rw [Resumable,executing_attach]
    refine and_congr_right fun _ => ⟨?_,fun kind => ⟨object,located,kind⟩⟩
    rintro ⟨same,there,kind⟩
    rw [located] at there
    cases there
    exact kind
  rw [resumable,← overwritten_attach owner other]
  by_cases stack : object.stackSp = 0
  · have unfinished := guarded.unfinished co object located stack
    refine ⟨and_congr_right fun _ => ?_,fun done => absurd done unfinished⟩
    rcases guarded.bare co object located stack flag with
      ⟨overwritten,host,count,held⟩ | ⟨never,start⟩
    · simp [held,overwritten]
    · exact ⟨fun _ => ⟨unfinished,never⟩,fun _ => Or.inl start⟩
  · have never : ¬ Overwritten history (process.attach thread) co := by
      rintro ⟨host,owned,_⟩
      obtain ⟨mine,there,bare⟩ := anchored.mains host co owned
      rw [located] at there
      cases there
      exact stack bare
    have tracks := guarded.tracks co object located stack
    cases status : control history co with
    | unset =>
      rw [status] at tracks
      rw [show object.resumeFlag = false from tracks] at flag
      cases flag
    | fresh =>
      rw [status] at tracks
      exact ⟨and_congr_right fun _ => ⟨fun _ => ⟨nofun,never⟩,fun _ => Or.inl tracks⟩,nofun⟩
    | executing =>
      rw [status] at tracks
      have runs : Executing process co := (executing_attach process thread co).mp tracks
      exact ⟨⟨fun both => absurd runs both.1,fun both => absurd runs both.1⟩,nofun⟩
    | suspended =>
      rw [status] at tracks
      exact ⟨and_congr_right fun _ => ⟨fun _ => ⟨nofun,never⟩,fun _ => Or.inr tracks⟩,nofun⟩
    | completed =>
      rw [status] at tracks
      have finished : object.coctx = .finished co := tracks
      refine ⟨and_congr_right fun _ => by simp [finished],fun _ => ?_⟩
      rw [resume,passes]
      exact swap_finished _ located other finished

/-- A coroutine that is suspended at the Yield behind its first segment. -/
theorem resumable_given :
    ∃ process attached : Process Bool, (Resumable attached 1 ↔ ¬ Executing process 1 ∧
        control [Event.yield 0 1,.resume 0 1,.setCallBack 0 1 true true,.getCoroutine 0 0 1,
          .newPool 1 16] 1 ≠ .completed ∧
        ¬ Overwritten [Event.yield 0 1,.resume 0 1,.setCallBack 0 1 true true,.getCoroutine 0 0 1,
          .newPool 1 16] process 1) ∧
      Resumable attached 1 := by
  have given := Run.next _ _ (Event.setCallBack 0 1 true true) _
    (oneProcess_handed (fun body => if body then some false else none)
      (fun _ _ _ => True) trivial trivial) trivial
    (Step.setCallBack _ _ 0 1 true true rfl)
  have entered := Run.next _ _ (Event.resume 0 1) _ given trivial (Step.resume _ _ 0 1 rfl)
  have suspended := Run.next _ _ (Event.yield 0 1) _ entered trivial
    (Step.yield _ _ 0 1 true false rfl rfl rfl)
  have exact := (resumable_iff _ _ _ _ suspended 0 1 2 rfl).1
  refine ⟨_,_,exact,exact.mpr ⟨?_,by decide,?_⟩⟩
  · rintro ⟨other,body,running⟩
    by_cases same : other = 0
    · subst other
      cases running
    · rw [silent_untouched suspended (by simp [caller,Ne.symm same])] at running
      cases running
  · rintro ⟨host,_,since⟩
    simp [ResumedSince] at since

theorem completed_passes :
    ∃ (history : List (Event Unit)) (process attached : Process Unit), Reached
      (fun _ => none) history process ∧
      process.resumeCheck 0 (some 1) = .ok (some (2,1),attached) ∧ control history 1 = .completed ∧
      ¬ Resumable attached 1 ∧ process.resume 0 (some 1) = .error .wildJump := by
  have given := Run.next _ _ (Event.setCallBack 0 1 () true) _
    (oneProcess_handed (fun _ => none) (fun _ _ _ => True) trivial trivial) trivial
    (Step.setCallBack _ _ 0 1 () true rfl)
  have entered := Run.next _ _ (Event.resume 0 1) _ given trivial (Step.resume _ _ 0 1 rfl)
  have completed := Run.next _ _ (Event.finish 0 1) _ entered trivial
    (Step.finish _ _ 0 1 () rfl rfl rfl)
  refine ⟨_,_,_,completed,rfl,rfl,?_,rfl⟩
  rintro ⟨_,object,located,⟨start,_⟩ | ⟨rest,saved⟩⟩
  · cases located
    cases start
  · cases located
    cases saved

end MCoroutine.ResumeGuard
