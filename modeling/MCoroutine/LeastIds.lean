import MCoroutine.General.LeastFree
import MCoroutine.General.Simulation
import MCoroutine.PoolGrowth

/-! What a coroutine pool is for, seen by its coroutine identities: an allocator that
hands out the least identity that is not held. -/
namespace MCoroutine.LeastIds
open General.HighWater General.LeastFree General.Runs General.Simulation
open Process MCoroutine.Numbering SlotRuns Handout PoolGrowth

variable {Body : Type}

def number (process : Process Body) (co : Nat) : Nat :=
  process.store.identities[co]?.elim 0 Identity.corId

def request (process : Process Body) : Event Body → Option Request
  | .getCoroutine _ _ co => some (.take (number process co))
  | .backCoroutine _ _ co => some (.give (number process co))
  | _ => none

def heldIds (history : List (Event Body)) (process : Process Body) : Finset Nat :=
  ((holdings 0 history).map (number process)).toFinset

private theorem mem_heldIds (history : List (Event Body)) (process : Process Body) (id : Nat) :
    id ∈ heldIds history process ↔ ∃ co, Held 0 history co ∧ number process co = id := by
  simp [heldIds,mem_holdings]

private theorem number_lasts {process after : Process Body} {co : Nat}
    (inside : co < process.store.objects.length)
    (lasts : ∃ more, after.store.identities = process.store.identities ++ more) :
    number after co = number process co := by
  obtain ⟨more,same⟩ := lasts
  rw [number,number,same,List.getElem?_append_left (by rw [identities_length]; exact inside)]

def moved : Event Body → Option Nat
  | .getCoroutine _ _ co => some co
  | .backCoroutine _ _ co => some co
  | _ => none

private theorem request_congr {process after : Process Body} {event : Event Body}
    (same : ∀ co, moved event = some co → number after co = number process co) :
    request after event = request process event := by
  cases event with
  | getCoroutine thread index co => exact congrArg (some ∘ Request.take) (same co rfl)
  | backCoroutine thread index co => exact congrArg (some ∘ Request.give) (same co rfl)
  | _ => rfl

section
variable {next : Body → Option Body} {history : List (Event Body)} {process after : Process Body}
  {event : Event Body}
  (run : Run (fun process => process = Process.initial) Unshared (Step next) history process)
include run

private theorem held_slot_number {co : Nat} (held : Held 0 history co) :
    ∃ pool, process.pools = [pool] ∧ 1 ≤ number process co ∧
      pool.refs[number process co]? = some co := by
  obtain ⟨pool,i,located,positive,slot⟩ := held_slot run 0 co held
  obtain ⟨_,only,serves⟩ := (reached_served run).located located
  have structured := reached_structured run
  have member := List.mem_of_getElem? located
  have inside := (structured.shape pool member).located co (List.mem_of_getElem? slot)
  rw [identities_length] at inside
  have present := List.getElem?_eq_getElem inside
  have named := serves.addressed structured member positive slot present
  have same : number process co = i := by
    rw [number,identities_located present]
    exact named
  exact ⟨pool,only,by omega,by rw [same]; exact slot⟩

private theorem held_present {co : Nat} (held : Held 0 history co) :
    co < process.store.objects.length := by
  obtain ⟨pool,only,_,slot⟩ := held_slot_number run held
  rw [← identities_length]
  exact ((reached_structured run).shape pool (by simp [only])).located co
    (List.mem_of_getElem? slot)

private theorem held_injective {co other : Nat} (held : Held 0 history co)
    (too : Held 0 history other) (same : number process co = number process other) :
    co = other := by
  obtain ⟨pool,only,_,slot⟩ := held_slot_number run held
  obtain ⟨again,here,_,place⟩ := held_slot_number run too
  obtain rfl : pool = again := by simpa using only.symm.trans here
  rw [← same,slot] at place
  exact Option.some.inj place

omit run in
private theorem moved_present
    (run : Run (fun process => process = Process.initial) Unshared (Step next) history process) :
    ∀ event ∈ history, ∀ co, moved event = some co → co < process.store.objects.length := by
  apply run.invariant (fun history process => ∀ event ∈ history, ∀ co, moved event = some co →
    co < process.store.objects.length)
  · intro process _ event member
    cases member
  · intro past before event after reached present permitted step other member co names
    have grows : before.store.objects.length ≤ after.store.objects.length := by
      obtain ⟨more,lasts⟩ := step_lasts (reached_structured reached) step
      rw [← identities_length,← identities_length,lasts,List.length_append]
      omega
    rcases List.mem_cons.mp member with rfl | old
    · cases other with
      | getCoroutine thread index c =>
        cases names
        obtain ⟨_,_,pool,i,only,_,slot⟩ := handed_free reached step
        have shape := (step_structured (reached_structured reached) step).shape pool
          (by simp [only])
        rw [← identities_length]
        exact shape.located co (List.mem_of_getElem? slot)
      | backCoroutine thread index c =>
        cases names
        have held : Held index past co := permitted
        rw [sole_held reached held] at held
        exact Nat.lt_of_lt_of_le (held_present reached held) grows
      | _ => cases names
    · exact Nat.lt_of_lt_of_le (present other old co names) grows

private theorem requests_last (step : Step next process event after) :
    history.filterMap (request after) = history.filterMap (request process) := by
  apply List.filterMap_congr
  intro old member
  apply request_congr
  intro co names
  exact number_lasts (moved_present run old member co names)
    (step_lasts (reached_structured run) step)

private theorem held_number_lasts (step : Step next process event after) {co : Nat}
    (held : Held 0 history co) :
    number after co = number process co :=
  number_lasts (held_present run held) (step_lasts (reached_structured run) step)

private theorem heldIds_still (step : Step next process event after)
    (still : ∀ co, Held 0 (event::history) co ↔ Held 0 history co) :
    heldIds (event::history) after = heldIds history process := by
  ext id
  rw [mem_heldIds,mem_heldIds]
  apply exists_congr
  intro co
  rw [still]
  apply and_congr_right
  intro held
  rw [held_number_lasts run step held]

private theorem used_held {pool : CoroutinePool} (only : process.pools = [pool]) {i co : Nat}
    (positive : 1 ≤ i) (slot : pool.coroutines[i]? = some ⟨co,true⟩) :
    i ∈ heldIds history process := by
  have located : process.pools[0]? = some pool := by simp [only]
  obtain ⟨_,_,serves⟩ := (reached_served run).located located
  have held := (serves.used i co true positive slot).mp rfl
  obtain ⟨again,here,behind,place⟩ := held_slot_number run held
  obtain rfl : pool = again := by simpa using only.symm.trans here
  have shape := (reached_structured run).shape pool (by simp [only])
  rw [mem_heldIds]
  exact ⟨co,held,shape.slot_unique place (by rw [refs_at,slot]; rfl)⟩

omit run in
/-- The slot that getCoroutine hands out: all before it are in use, and it was there with
the coroutine or it is new. -/
private theorem handed_slot (structured : Structured process) {thread index co : Nat}
    (step : Step next process (.getCoroutine thread index co) after) :
    ∃ pool result i, process.pools[index]? = some pool ∧ after.pools[index]? = some result ∧
      i ≤ pool.coroutines.length ∧ result.refs[i]? = some co ∧
        (∀ other, pool.refs[i]? = some other → other = co) ∧
      ∀ (j : Nat) pair, 1 ≤ j → j < i → pool.coroutines[j]? = some pair → pair.second = true := by
  cases step with
  | getCoroutine _ _ _ heap rest pool result store located arrays call =>
    have member := List.mem_of_getElem? located
    have here : (process.setPool index store result).pools[index]? = some result := by
      rw [setPool_at located,if_pos rfl]
    rcases CoroutinePool.getCoroutine_cases (shape_present (structured.shape pool member))
      (structured.small pool member) call with
        ⟨i,⟨positive,slot,used⟩,rfl,rfl,rfl⟩ | ⟨full,_,grown,_,taken⟩
    · have bound := (List.getElem?_eq_some_iff.mp slot).1
      have place : pool.refs[i]? = some co := by rw [refs_at,slot]; rfl
      refine ⟨pool,_,i,located,here,by omega,?_,?_,used⟩
      · rw [refs_set pool i co false true slot]
        exact place
      · intro other same
        rw [place] at same
        exact (Option.some.inj same).symm
    · refine ⟨pool,result,pool.coroutines.length,located,here,Nat.le_refl _,?_,?_,
        fun j pair behind _ => full j pair behind⟩
      · unfold CoroutinePool.take at taken
        split at taken
        · cases taken
        · rename_i pair slot
          cases taken
          have bound := (List.getElem?_eq_some_iff.mp slot).1
          rw [refs_at]
          simp [bound]
      · intro other same
        rw [refs_at,List.getElem?_eq_none (Nat.le_refl _)] at same
        cases same

private theorem taken_least {thread index co : Nat}
    (step : Step next process (.getCoroutine thread index co) after) :
    IsLeast (Free 1 (heldIds history process)) (number after co) := by
  have structured := reached_structured run
  obtain ⟨rfl,free,_⟩ := handed_free run step
  have later := Run.next history process (.getCoroutine thread 0 co) after run trivial step
  have taken : Held 0 (.getCoroutine thread 0 co::history) co := Or.inl ⟨rfl,rfl⟩
  obtain ⟨longer,only,positive,slot⟩ := held_slot_number later taken
  obtain ⟨pool,result,i,located,here,bound,place,old,used⟩ := handed_slot structured step
  obtain rfl : longer = result := by simpa [only] using here
  have shape := (reached_structured later).shape longer (by simp [only])
  obtain rfl := shape.slot_unique place slot
  obtain ⟨_,single,_⟩ := (reached_served run).located located
  constructor
  · refine ⟨positive,?_⟩
    intro member
    obtain ⟨other,held,same⟩ := (mem_heldIds history process _).mp member
    obtain ⟨again,there,_,position⟩ := held_slot_number run held
    obtain rfl : pool = again := by simpa using single.symm.trans there
    rw [same] at position
    rw [old other position] at held
    exact free held
  · intro id possible
    obtain ⟨low,unheld⟩ := possible
    by_contra below
    have inside : id < pool.coroutines.length := by omega
    obtain ⟨⟨first,flag⟩,entry⟩ : ∃ pair, pool.coroutines[id]? = some pair :=
      ⟨_,List.getElem?_eq_getElem inside⟩
    obtain rfl : flag = true := used id _ low (by omega) entry
    exact unheld (used_held run single low entry)

private theorem taken_held {thread index co : Nat}
    (step : Step next process (.getCoroutine thread index co) after) :
    heldIds (.getCoroutine thread index co::history) after = insert (number after co)
      (heldIds history process) := by
  obtain ⟨rfl,_⟩ := handed_free run step
  ext id
  rw [Finset.mem_insert,mem_heldIds,mem_heldIds]
  constructor
  · rintro ⟨other,⟨_,rfl⟩ | held,rfl⟩
    · exact Or.inl rfl
    · exact Or.inr ⟨other,held,(held_number_lasts run step held).symm⟩
  · rintro (rfl | ⟨other,held,rfl⟩)
    · exact ⟨co,Or.inl ⟨rfl,rfl⟩,rfl⟩
    · exact ⟨other,Or.inr held,held_number_lasts run step held⟩

private theorem given_held {thread index co : Nat}
    (step : Step next process (.backCoroutine thread index co) after)
    (held : Held index history co) :
    number after co ∈ heldIds history process ∧
      heldIds (.backCoroutine thread index co::history) after = (heldIds history process).erase
        (number after co) := by
  obtain rfl := sole_held run held
  have same := held_number_lasts run step held
  rw [same]
  refine ⟨(mem_heldIds history process _).mpr ⟨co,held,rfl⟩,?_⟩
  ext id
  rw [Finset.mem_erase,mem_heldIds,mem_heldIds]
  constructor
  · rintro ⟨other,⟨still,apart⟩,rfl⟩
    rw [held_number_lasts run step still]
    refine ⟨?_,other,still,rfl⟩
    intro clash
    exact apart ⟨rfl,(held_injective run still held clash).symm⟩
  · rintro ⟨apart,other,still,rfl⟩
    refine ⟨other,⟨still,?_⟩,held_number_lasts run step still⟩
    rintro ⟨_,rfl⟩
    exact apart rfl

end

def Allocates (history : List (Event Body)) (process : Process Body) (record : List Request)
    (held : Finset Nat) : Prop :=
  record = history.filterMap (request process) ∧ held = heldIds history process ∧
    ∀ id, Request.take id ∈ record → id ≤ peakHeld 0 history

theorem simulates (next : Body → Option Body) :
    Simulates (fun process => process = Process.initial) Unshared (Step next) (fun held => held = ∅)
      (fun _ _ _ => True)
      (Serve 1) Allocates := by
  constructor
  · intro process _
    exact ⟨∅,rfl,rfl,rfl,by simp⟩
  · rintro history before event after record held run _ ⟨rfl,rfl,bounded⟩ permitted step
    have old := requests_last run step
    have rises := peak_rises (fun past => (holdings 0 past).length) history event
    -- a step that moves no coroutine leaves the allocator where it is
    have stutters (silent : request after event = none)
        (still : ∀ co, Held 0 (event::history) co ↔ Held 0 history co) :
        ∃ later target, Continues (fun _ _ _ => True) (Serve 1) (history.filterMap (request before))
          (heldIds history before)
          later target ∧ Allocates (event::history) after
              (later ++ history.filterMap (request before)) target := by
      refine ⟨[],_,stays,?_,(heldIds_still run step still).symm,fun id member =>
        (bounded id member).trans rises⟩
      rw [List.filterMap_cons,silent,old]
      rfl
    cases event with
    | getCoroutine thread index co =>
      have least := taken_least run step
      have grown := taken_held run step
      obtain ⟨rfl,_⟩ := handed_free run step
      refine ⟨[.take (number after co)],_,moves trivial (.take _ _ least),?_,grown.symm,?_⟩
      · rw [List.filterMap_cons,old]
        rfl
      · intro id member
        rcases List.mem_cons.mp member with same | earlier
        · cases same
          have count := (List.toFinset_card_le ((holdings 0 history).map (number before)))
          rw [List.length_map] at count
          have bound := least_bounded least
          have present := measure_le_peak (fun past => (holdings 0 past).length)
            (.getCoroutine thread 0 co::history)
          rw [holdings,if_pos rfl,List.length_cons] at present
          exact (bound.trans (by rw [Nat.add_comm]; exact Nat.succ_le_succ count)).trans present
        · exact (bounded id earlier).trans rises
    | backCoroutine thread index co =>
      obtain ⟨member,less⟩ := given_held run step permitted
      refine ⟨[.give (number after co)],_,moves trivial (.give _ _ member),?_,less.symm,?_⟩
      · rw [List.filterMap_cons,old]
        rfl
      · intro id member
        rcases List.mem_cons.mp member with same | earlier
        · cases same
        · exact (bounded id earlier).trans rises
    | _ => exact stutters rfl fun _ => Iff.rfl

/-- The identities that a sole pool hands out are those of an allocator that always gives
the least one from 1 on that is not held. None of them ever exceeds the largest number of
coroutines held at once. -/
theorem pool_hands_least (next : Body → Option Body) (history : List (Event Body))
    (process : Process Body)
    (run : Run (fun process => process = Process.initial) Unshared (Step next) history process) :
    Served 1 (history.filterMap (request process)) (heldIds history process) ∧
    (∀ id, id ∈ heldIds history process ↔ ∃ co, Held 0 history co ∧ number process co = id) ∧
    ∀ thread index co, .getCoroutine thread index co ∈ history →
      number process co ≤ peakHeld 0 history := by
  obtain ⟨record,held,served,rfl,rfl,bounded⟩ := (simulates next).run run
  refine ⟨served,mem_heldIds history process,?_⟩
  intro thread index co member
  exact bounded _ (List.mem_filterMap.mpr ⟨_,member,rfl⟩)

/-- With 1 and 3 held the next coroutine is 2 again. -/
theorem pool_hands_least_hole :
    ∃ (history : List (Event Unit)) (process : Process Unit),
      history = [.getCoroutine 0 0 2,.backCoroutine 0 0 2,.getCoroutine 0 0 3,.getCoroutine 0 0 2,
        .getCoroutine 0 0 1,.newPool 1 16] ∧
      Served 1 [.take 2,.give 2,.take 3,.take 2,.take 1] (heldIds history process) ∧
      (3 ∈ heldIds history process ↔ ∃ co, Held 0 history co ∧ number process co = 3) ∧
      number process 3 ≤ peakHeld 0 history := by
  have two := grownProcess_handed (fun _ : Unit => none) Unshared
    (oneProcess_handed _ Unshared rfl trivial) trivial
  have three := Run.next _ _ (Event.getCoroutine 0 0 3) _ two trivial
    (Step.getCoroutine _ 0 0 3 [] [] (grownPool 2 3 true false) (grownPool 2 3 true true) _ rfl
      (grownPool_supplied 2 3 true false) rfl)
  have hole := Run.next _ _ (Event.backCoroutine 0 0 2) _ three (Or.inr (Or.inl ⟨rfl,rfl⟩))
    (Step.backCoroutine _ 0 0 2 (grownPool 2 3 true true) (grownPool 2 3 false true) _ rfl rfl)
  have again := Run.next _ _ (Event.getCoroutine 0 0 2) _ hole trivial
    (Step.getCoroutine _ 0 0 2 [] [] (grownPool 2 3 false true) (grownPool 2 3 true true) _ rfl
      (grownPool_supplied 2 3 false true) rfl)
  obtain ⟨served,held,bounded⟩ := pool_hands_least _ _ _ again
  exact ⟨_,_,rfl,served,held 3,bounded 0 0 3 (by simp)⟩

end MCoroutine.LeastIds
