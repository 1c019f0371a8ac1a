import MCoroutine.Handout

/-! What backCoroutine does to a coroutine that is not handed out. Its only check is
the use flag of the slot that the identity names, and main coroutines share the
identity of slot 0. -/
namespace MCoroutine.Returns
open General.Runs Process MCoroutine.Numbering SlotRuns Switching Handout

variable {Body : Type}

def useFlags (pool : CoroutinePool) : List Bool := pool.coroutines.map (·.second)

def coroutineFlags (store : Store Body) (ref : Nat) : Option (Bool × Bool) :=
  store.objects[ref]?.map fun object => (object.cbfuncRunningFlag,object.resumeFlag)

/-- The call stays inside the vector and changes no flag. -/
def Intact (pool : CoroutinePool) (co : Nat) (store : Store Body) : Prop :=
  ∃ after result, pool.backCoroutine co store = .ok (after,result) ∧
    useFlags result = useFlags pool ∧
    ∀ ref ∈ pool.refs, coroutineFlags after ref = coroutineFlags store ref

/-- Slot `i` of a pool is out: slot 0 from the start, another one from the call that
hands out its coroutine, until an object with its number is given back. -/
def Out (numbers : Nat → Option Nat) (refs : List Nat) (index : Nat) :
    List (Event Body) → Nat → Prop
  | [],i => i = 0
  | .getCoroutine _ k c::past,i => (k = index ∧ refs[i]? = some c) ∨ Out numbers refs index past i
  | .backCoroutine _ k c::past,i => Out numbers refs index past i ∧
      ¬ (k = index ∧ numbers c = some i)
  | _::past,i => Out numbers refs index past i

def numbers (store : Store Body) (co : Nat) : Option Nat := store.objects[co]?.map (·.corId)

private theorem flags_intact_iff (pool : CoroutinePool) (co : Nat) (store : Store Body)
    (object : Coroutine (Context Body) Body) (located : store.objects[co]? = some object) :
    Intact pool co store ↔ (useFlags pool)[object.corId]? = some false := by
  constructor
  · rintro ⟨after,result,call,same,_⟩
    obtain ⟨other,pair,there,named,⟨free,_,_⟩ | ⟨used,_,rfl⟩⟩ :=
      CoroutinePool.backCoroutine_effect co store after pool result call
    · rw [located] at there
      cases there
      rw [useFlags,List.getElem?_map,named,Option.map_some,free]
    · have cleared := congrArg (·[other.corId]?) same
      have inside := (List.getElem?_eq_some_iff.mp named).1
      simp only [useFlags,List.getElem?_map,List.getElem?_set_self inside,named,Option.map_some,
        used] at cleared
      cases cleared
  · intro free
    rw [useFlags,List.getElem?_map] at free
    obtain ⟨pair,named,unused⟩ := Option.map_eq_some_iff.mp free
    refine ⟨store,pool,?_,rfl,fun _ _ => rfl⟩
    simp [CoroutinePool.backCoroutine,located,named,unused]

structure Later (process : Process Body) (pool : CoroutinePool) (number : Nat → Option Nat)
    (refs : List Nat) :
    Prop where
  numbered : ∀ co identity, process.store.identities[co]? = some identity →
    number co = some identity.corId
  longer : ∃ more, refs = pool.refs ++ more
  distinct : refs.Nodup

structure Tallied (index : Nat) (history : List (Event Body)) (process : Process Body) : Prop where
  absent : process.pools[index]? = none → ∀ number refs i, Out number refs index history i ↔ i = 0
  present : ∀ pool, process.pools[index]? = some pool →
    ∀ number refs, Later process pool number refs →
    ∀ i, (useFlags pool)[i]? = some true ↔ Out number refs index history i

private theorem appends_flags {before after : Store Body × CoroutinePool}
    (appends : CoroutinePool.Appends before after) (i : Nat) :
    (useFlags after.2)[i]? = some true ↔ (useFlags before.2)[i]? = some true := by
  obtain ⟨fresh,slots,free⟩ := CoroutinePool.appends_slots appends
  rw [useFlags,useFlags,slots,List.map_append]
  rcases Nat.lt_or_ge i (before.2.coroutines.map (·.second)).length with below | beyond
  · rw [List.getElem?_append_left below]
  · rw [List.getElem?_append_right beyond,List.getElem?_eq_none beyond]
    refine ⟨?_,nofun⟩
    intro used
    obtain ⟨pair,member,flag⟩ := List.mem_map.mp (List.mem_of_getElem? used)
    rw [free pair member] at flag
    cases flag

private theorem set_flags {pool : CoroutinePool} {i co : Nat} {flag : Bool}
    (slot : pool.coroutines[i]? = some ⟨co,flag⟩) (other : Bool) (j : Nat) :
    (useFlags { pool with coroutines := pool.coroutines.set i ⟨co,other⟩ })[j]? =
      if i = j then some other else (useFlags pool)[j]? := by
  by_cases same : i = j
  · subst j
    rw [if_pos rfl,useFlags,List.getElem?_map,List.getElem?_set_self
      (List.getElem?_eq_some_iff.mp slot).1]
    rfl
  · rw [if_neg same,useFlags,useFlags,List.getElem?_map,List.getElem?_map,List.getElem?_set_ne same]

section
variable {next : Body → Option Body} {past : List (Event Body)} {process after : Process Body}
  {event : Event Body}

theorem Later.earlier {index : Nat} {before pool : CoroutinePool} {number : Nat → Option Nat}
    {refs : List Nat} (later : Later after pool number refs) (structured : Structured process)
    (step : Step next process event after) (located : process.pools[index]? = some before)
    (there : after.pools[index]? = some pool) :
    Later process before number refs := by
  obtain ⟨more,identities⟩ := step_lasts structured step
  obtain ⟨longer,here,tail,prolonged⟩ := step_prolongs structured step index before located
  rw [there] at here
  cases here
  refine ⟨?_,?_,later.distinct⟩
  · intro co identity present
    refine later.numbered co identity ?_
    rw [identities,List.getElem?_append_left (List.getElem?_eq_some_iff.mp present).1]
    exact present
  · obtain ⟨rest,all⟩ := later.longer
    exact ⟨tail ++ rest,by rw [all,prolonged,List.append_assoc]⟩

def Concerns (index : Nat) : Event Body → Prop
  | .getCoroutine _ k _ => k = index
  | .backCoroutine _ k _ => k = index
  | _ => False

private theorem still_away {index : Nat} (still : Still event) : ¬ Concerns index event := by
  cases event with
  | getCoroutine | backCoroutine => exact still.elim
  | _ => exact fun concerned => concerned

private theorem out_away {index i : Nat} {number : Nat → Option Nat} {refs : List Nat}
    (away : ¬ Concerns index event) :
    Out number refs index (event::past) i ↔ Out number refs index past i := by
  cases event with
  | getCoroutine _ k c => exact ⟨fun out => out.elim (fun here => absurd here.1 away) id,Or.inr⟩
  | backCoroutine _ k c => exact ⟨fun out => out.1,fun out => ⟨out,fun here => away here.1⟩⟩
  | _ => exact Iff.rfl

private theorem setPool_absent {index : Nat} (absent : process.pools[index]? = none) (k : Nat)
    (store : Store Body) (result : CoroutinePool) :
    (process.setPool k store result).pools[index]? = none := by
  rw [Process.setPool]
  simpa using absent

private theorem flags_away {index : Nat} {before pool : CoroutinePool} (structured : Structured process)
    (step : Step next process event after) (away : ¬ Concerns index event)
    (located : process.pools[index]? = some before) (there : after.pools[index]? = some pool) (i : Nat) :
    (useFlags pool)[i]? = some true ↔ (useFlags before)[i]? = some true := by
  have unchanged (same : after.pools[index]? = process.pools[index]?) :
      (useFlags pool)[i]? = some true ↔ (useFlags before)[i]? = some true := by
    rw [there,located] at same
    rw [Option.some.inj same]
  cases step_pools structured step with
  | quiet _ _ _ same => exact unchanged (by rw [same.pools])
  | construct => exact unchanged rfl
  | create => exact unchanged (List.getElem?_append_left (List.getElem?_eq_some_iff.mp located).1)
  | grow k _ first result store here appends _ _ =>
    by_cases same : k = index
    · subst k
      rw [located] at here
      cases here
      rw [setPool_at located,if_pos rfl] at there
      cases there
      exact appends_flags appends i
    · exact unchanged (by rw [setPool_at here,if_neg same])
  | hand _ k _ _ _ _ _ here => exact unchanged (by rw [setPool_at here,if_neg (show ¬ k = index from away)])
  | release _ k _ _ _ _ here => exact unchanged (by rw [setPool_at here,if_neg (show ¬ k = index from away)])

private theorem absent_before {index : Nat} (structured : Structured process)
    (step : Step next process event after) (missing : after.pools[index]? = none) :
    process.pools[index]? = none ∧ ¬ Concerns index event := by
  have absent : process.pools[index]? = none := by
    cases located : process.pools[index]? with
    | none => rfl
    | some pool =>
      obtain ⟨longer,there,_⟩ := step_prolongs structured step index pool located
      rw [missing] at there
      cases there
  refine ⟨absent,?_⟩
  intro concerned
  cases step with
  | getCoroutine thread k co heap rest first result store here arrays call =>
    rw [show k = index from concerned,absent] at here
    cases here
  | backCoroutine thread k co first result store here call =>
    rw [show k = index from concerned,absent] at here
    cases here
  | _ => exact concerned

private theorem flags_created {index : Nat} {pool : CoroutinePool} (structured : Structured process)
    (step : Step next process event after) (absent : process.pools[index]? = none)
    (there : after.pools[index]? = some pool) :
    ¬ Concerns index event ∧ ∀ i, (useFlags pool)[i]? = some true ↔ i = 0 := by
  cases step_pools structured step with
  | quiet _ _ _ same =>
    rw [same.pools,absent] at there
    cases there
  | construct =>
    rw [absent] at there
    cases there
  | create _ _ _ _ _ _ created _ _ appends _ _ =>
    have beyond := List.getElem?_eq_none_iff.mp absent
    rw [List.getElem?_append_right beyond] at there
    cases List.mem_singleton.mp (List.mem_of_getElem? there)
    refine ⟨fun concerned => concerned.elim,?_⟩
    intro i
    rw [appends_flags appends i]
    cases i with
    | zero => simp [useFlags]
    | succ i => simp [useFlags]
  | grow | hand | release =>
    rw [setPool_absent absent] at there
    cases there

private theorem flags_handed {before after : Store Body × CoroutinePool} {j co : Nat}
    {refs : List Nat} (appends : CoroutinePool.Appends before after)
    (slot : after.2.coroutines[j]? = some ⟨co,false⟩) (longer : ∃ more, refs = after.2.refs ++ more)
    (distinct : refs.Nodup) (i : Nat) :
    (useFlags { after.2 with coroutines := after.2.coroutines.set j ⟨co,true⟩ })[i]? = some true ↔
      refs[i]? = some co ∨ (useFlags before.2)[i]? = some true := by
  obtain ⟨more,longer⟩ := longer
  have own : refs[j]? = some co := by
    rw [longer,List.getElem?_append_left (by
      simpa [CoroutinePool.refs] using (List.getElem?_eq_some_iff.mp slot).1),refs_at,slot]
    rfl
  rw [set_flags slot true i]
  by_cases same : j = i
  · subst j
    simp [own]
  · have apart : refs[i]? ≠ some co := fun there =>
      same ((List.getElem?_inj (List.getElem?_eq_some_iff.mp own).1 distinct).mp
        (own.trans there.symm))
    rw [if_neg same,appends_flags appends i]
    simp [apart]

private theorem flags_returned {store later : Store Body} {before pool : CoroutinePool} {co : Nat}
    (call : before.backCoroutine co store = .ok (later,pool)) :
    ∃ object, store.objects[co]? = some object ∧
      ∀ i, (useFlags pool)[i]? = some true ↔ (useFlags before)[i]? = some true ∧
        object.corId ≠ i := by
  obtain ⟨object,⟨first,flag⟩,present,named,act⟩ :=
    CoroutinePool.backCoroutine_effect co store later before pool call
  refine ⟨object,present,?_⟩
  intro i
  rcases act with ⟨free,_,rfl⟩ | ⟨used,_,rfl⟩
  · have unused : flag = false := free
    have here : (useFlags pool)[object.corId]? = some false := by
      rw [useFlags,List.getElem?_map,named,unused]
      rfl
    refine ⟨fun out => ⟨out,?_⟩,fun out => out.1⟩
    rintro rfl
    rw [here] at out
    cases out
  · rw [set_flags named false i]
    by_cases same : object.corId = i
    · simp [same]
    · simp [same]

private theorem step_tallied {index : Nat} (structured : Structured process)
    (tallied : Tallied index past process) (step : Step next process event after) :
    Tallied index (event::past) after := by
  refine ⟨?_,?_⟩
  · intro missing number refs i
    obtain ⟨absent,away⟩ := absent_before structured step missing
    rw [out_away away]
    exact tallied.absent absent number refs i
  intro pool there number refs later i
  cases located : process.pools[index]? with
  | none =>
    obtain ⟨away,created⟩ := flags_created structured step located there
    rw [created i,out_away away,tallied.absent located number refs i]
  | some before =>
    have earlier := later.earlier structured step located there
    have tally := tallied.present before located number refs earlier i
    by_cases away : ¬ Concerns index event
    · rw [flags_away structured step away located there i,out_away away]
      exact tally
    cases step_pools structured step with
    | hand _ k co j first grown store here appends _ _ slot =>
      obtain rfl : k = index := not_not.mp away
      rw [located] at here
      cases here
      rw [setPool_at located,if_pos rfl] at there
      cases there
      have longer := later.longer
      rw [refs_set grown j co false true slot] at longer
      rw [Out,← tally,flags_handed appends slot longer later.distinct i]
      simp
    | release _ k co first result store here call =>
      obtain rfl : k = index := not_not.mp away
      rw [located] at here
      cases here
      rw [setPool_at located,if_pos rfl] at there
      cases there
      obtain ⟨object,present,flags⟩ := flags_returned call
      have own : number co = some object.corId :=
        earlier.numbered co object.identity (identities_located present)
      rw [Out,← tally,own,flags i]
      simp
    | quiet _ _ still _ => exact absurd (still_away still) away
    | construct | create | grow => exact absurd (fun concerned => concerned) away

end

private theorem reached_tallied {next : Body → Option Body} {history : List (Event Body)}
    {process : Process Body} (run : Reached next history process) (index : Nat) :
    Tallied index history process := by
  refine run.invariant (Tallied index) ?_ ?_
  · rintro process rfl
    exact ⟨fun _ _ _ _ => Iff.rfl,fun pool located => by cases located⟩
  · intro past before event after reached tallied _ step
    exact step_tallied (reached_structured reached) tallied step

/-- A return changes nothing exactly when the number of the object is that of a slot
that is not out. -/
theorem returned_intact_iff (next : Body → Option Body) (history : List (Event Body))
    (process : Process Body) (run : Reached next history process) (index : Nat)
    (pool : CoroutinePool) (located : process.pools[index]? = some pool) (co : Nat)
    (object : Coroutine (Context Body) Body) (present : process.store.objects[co]? = some object) :
    Intact pool co process.store ↔ object.corId < pool.coroutines.length ∧
      ¬ Out (numbers process.store) pool.refs index history object.corId := by
  have shape := (reached_structured run).shape pool (List.mem_of_getElem? located)
  have later : Later process pool (numbers process.store) pool.refs := by
    refine ⟨?_,⟨[],(List.append_nil _).symm⟩,shape.nodup⟩
    intro k identity there
    rw [identities_at] at there
    obtain ⟨other,here,rfl⟩ := Option.map_eq_some_iff.mp there
    rw [numbers,here]
    rfl
  rw [flags_intact_iff pool co process.store object present,
    ← (reached_tallied run index).present pool located
      (numbers process.store) pool.refs later object.corId]
  have length : (useFlags pool).length = pool.coroutines.length := by simp [useFlags]
  constructor
  · intro free
    have inside := (List.getElem?_eq_some_iff.mp free).1
    rw [length] at inside
    exact ⟨inside,by rw [free]; nofun⟩
  · rintro ⟨inside,free⟩
    rw [← length] at inside
    rw [List.getElem?_eq_getElem inside] at free ⊢
    simpa using free

theorem returned_intact_free :
    Intact (onePool 0 false) 1 (oneProcess false : Process Unit).store ↔ 1 < 2 ∧
      ¬ Out (numbers (oneProcess false : Process Unit).store) [0,1] 0
        [(Event.newPool 1 16 : Event Unit)] 1 :=
  returned_intact_iff (fun _ => none) _ _ (oneProcess_launched _ _ trivial) 0
    (onePool 0 false) rfl 1 _ rfl

/-- The main coroutine of a thread, given to backCoroutine, frees slot 0. -/
theorem main_frees_origin :
    ∃ (history : List (Event Unit)) (process : Process Unit) (pool : CoroutinePool),
      Reached (fun _ => none) history process ∧
        process.pools = [pool] ∧ (process.threads 0).mainCoroutine = some 2 ∧
          (∀ index, ¬ Held index history 2) ∧
        (∃ object, process.store.objects[2]? = some object) ∧ ¬ Intact pool 2 process.store ∧
        ∃ after result, pool.backCoroutine 2 process.store = .ok (after,result) ∧
          result.coroutines[0]? = some ⟨0,false⟩ := by
  have launched := oneProcess_launched (fun _ : Unit => none) (fun _ _ _ => True) trivial
  have pointed := Run.next _ _ (Event.getMainCoroutine 0 2) _ launched trivial
    (Step.getMainCoroutine _ _ 0 2 rfl)
  refine ⟨_,_,onePool 0 false,pointed,rfl,rfl,fun _ held => held,⟨_,rfl⟩,?_,_,_,rfl,rfl⟩
  rintro ⟨after,result,call,same,_⟩
  cases call
  cases same

/-- Under proper use of a single pool its free coroutines are returned without effect,
slot 0 and the main coroutines never are. -/
theorem unshared_intact_iff (next : Body → Option Body) (history : List (Event Body))
    (process : Process Body)
    (run : Run (fun process => process = Process.initial) Unshared (Step next) history process)
    (pool : CoroutinePool) (member : pool ∈ process.pools) (co : Nat)
    (object : Coroutine (Context Body) Body) (located : process.store.objects[co]? = some object)
    (free : ¬ Held 0 history co) :
    Intact pool co process.store ↔ object.stackSp ≠ 0 := by
  have structured := reached_structured run
  obtain ⟨_,here⟩ := List.mem_iff_getElem?.mp member
  obtain ⟨_,_,serves⟩ := (reached_served run).located here
  have present := identities_located located
  rw [flags_intact_iff pool co process.store object located,useFlags,List.getElem?_map]
  by_cases bare : object.stackSp = 0
  · have number : object.corId = 0 := by
      have drawn := structured.numbered.numbers co object.identity present
      rw [if_pos (show object.identity.stackSp = 0 from bare)] at drawn
      exact drawn
    obtain ⟨origin,first⟩ := serves.origin
    simp [bare,number,first]
  · have stack : stacked process.store.identities co = true :=
      (stacked_iff process.store co).mpr ⟨object,located,bare⟩
    obtain ⟨i,slot⟩ := List.mem_iff_getElem?.mp (serves.inside co stack)
    have positive : 1 ≤ i := by
      by_contra zero
      obtain ⟨origin,first,none⟩ := (structured.shape pool member).origin
      rw [show i = 0 by omega,first] at slot
      cases slot
      rw [none] at stack
      cases stack
    obtain rfl := serves.addressed structured member positive slot located
    rw [refs_at] at slot
    obtain ⟨⟨first,flag⟩,named,rfl⟩ := Option.map_eq_some_iff.mp slot
    have unused : flag = false := by
      cases flag with
      | false => rfl
      | true => exact absurd ((serves.used _ _ _ positive named).mp rfl) free
    simp [bare,named,unused]

end MCoroutine.Returns
