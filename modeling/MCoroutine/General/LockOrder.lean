import MCoroutine.General.Runs
import Mathlib.Algebra.BigOperators.Group.Finset.Basic
import Mathlib.Algebra.Order.BigOperators.Group.Finset
import Mathlib.Data.Finset.Range
import Mathlib.Logic.Function.Basic

/-! Threads that take scoped locks and run the callables of once flags. Where each asks
only for resources of a higher rank than those it has, the calls under way can always go
on, and all of them return. -/
namespace MCoroutine.General.LockOrder
open Runs

variable {Resource : Type*}

/-- `once resource length` stands before the `length` operations of its callable, of
which `complete` is the last. -/
inductive Op (Resource : Type*)
  | lock (resource : Resource)
  | unlock (resource : Resource)
  | once (resource : Resource) (length : Nat)
  | complete (resource : Resource)
  deriving DecidableEq, Repr

/-- What a thread holds, the last one first, and what is left of the call it makes. -/
structure Thread (Resource : Type*) where
  held : List Resource
  rest : List (Op Resource)

structure State (Resource : Type*) where
  threads : Nat → Thread Resource
  done : List Resource

namespace State

def initial : State Resource := { threads := fun _ => ⟨[],[]⟩, done := [] }

def set (thread : Nat) (value : Thread Resource) (state : State Resource) : State Resource :=
  { state with threads := Function.update state.threads thread value }

def Free (resource : Resource) (state : State Resource) : Prop :=
  ∀ thread, resource ∉ (state.threads thread).held

end State

inductive Event (Resource : Type*)
  | call (thread : Nat) (program : List (Op Resource))
  | advance (thread : Nat)

inductive Step : State Resource → Event Resource → State Resource → Prop
  | call (state : State Resource) (thread : Nat) (program : List (Op Resource))
      (idle : state.threads thread = ⟨[],[]⟩) : Step state (.call thread program)
      (state.set thread ⟨[],program⟩)
  | lock (state : State Resource) (thread : Nat) (resource : Resource) (held : List Resource)
      (rest : List (Op Resource))
      (located : state.threads thread = ⟨held,.lock resource::rest⟩) (free : state.Free resource) :
      Step state (.advance thread) (state.set thread ⟨resource::held,rest⟩)
  | unlock (state : State Resource) (thread : Nat) (resource : Resource) (held : List Resource)
      (rest : List (Op Resource))
      (located : state.threads thread = ⟨resource::held,.unlock resource::rest⟩) :
      Step state (.advance thread) (state.set thread ⟨held,rest⟩)
  | enter (state : State Resource) (thread : Nat) (resource : Resource) (length : Nat)
      (held : List Resource)
      (rest : List (Op Resource)) (located :
      state.threads thread = ⟨held,.once resource length::rest⟩)
      (first : resource ∉ state.done) (free : state.Free resource) :
      Step state (.advance thread) (state.set thread ⟨resource::held,rest⟩)
  | pass (state : State Resource) (thread : Nat) (resource : Resource) (length : Nat)
      (held : List Resource)
      (rest : List (Op Resource)) (located :
      state.threads thread = ⟨held,.once resource length::rest⟩)
      (made : resource ∈ state.done) : Step state (.advance thread)
      (state.set thread ⟨held,rest.drop length⟩)
  | complete (state : State Resource) (thread : Nat) (resource : Resource) (held : List Resource)
      (rest : List (Op Resource)) (located :
      state.threads thread = ⟨resource::held,.complete resource::rest⟩) :
      Step state (.advance thread) { state.set thread ⟨held,rest⟩ with
        done := resource::state.done }

section
variable (rank : Resource → Nat)

/-- Resources are asked for in the order of their rank and given up in the reverse order,
and nothing is held at the end. -/
inductive Ordered : List Resource → List (Op Resource) → Prop
  | done : Ordered [] []
  | lock (resource : Resource) (held : List Resource) (rest : List (Op Resource))
      (above : ∀ other ∈ held, rank other < rank resource) (later : Ordered (resource::held) rest) :
      Ordered held (.lock resource::rest)
  | unlock (resource : Resource) (held : List Resource) (rest : List (Op Resource))
      (later : Ordered held rest) :
      Ordered (resource::held) (.unlock resource::rest)
  | once (resource : Resource) (length : Nat) (held : List Resource) (rest : List (Op Resource))
      (above : ∀ other ∈ held, rank other < rank resource) (later : Ordered (resource::held) rest)
      (behind : Ordered held (rest.drop length)) : Ordered held (.once resource length::rest)
  | complete (resource : Resource) (held : List Resource) (rest : List (Op Resource))
      (later : Ordered held rest) :
      Ordered (resource::held) (.complete resource::rest)

/-- What may stand before any rest of a call that holds resources below `low` only. -/
def Above (low : Nat) (program : List (Op Resource)) : Prop :=
  ∀ held rest, (∀ other ∈ held, rank other < low) → Ordered rank held rest →
    Ordered rank held (program ++ rest)

def Disciplined (_ : List (Event Resource)) (_ : State Resource) : Event Resource → Prop
  | .call _ program => Ordered rank [] program
  | .advance _ => True

def Closed (_ : List (Event Resource)) (_ : State Resource) : Event Resource → Prop
  | .call _ _ => False
  | .advance _ => True

/-- Every thread is inside an ordered call, no resource is held twice, and the threads
from `count` on have not called. -/
structure Safe (count : Nat) (state : State Resource) : Prop where
  ordered : ∀ thread, Ordered rank (state.threads thread).held (state.threads thread).rest
  exclusive : ∀ resource thread other, resource ∈ (state.threads thread).held →
    resource ∈ (state.threads other).held → thread = other
  idle : ∀ thread, count ≤ thread → state.threads thread = ⟨[],[]⟩

end

/-- `lock_guard` on a mutex for the scope of `body`. -/
def lockGuard (mutex : Resource) (body : List (Op Resource)) : List (Op Resource) :=
  .lock mutex::(body ++ [.unlock mutex])

def callOnce (flag : Resource) (callable : List (Op Resource)) : List (Op Resource) :=
  .once flag (callable.length + 1)::(callable ++ [.complete flag])

section
variable {rank : Resource → Nat} {low : Nat} {first second body : List (Op Resource)}

theorem above_nil : Above rank low [] := fun _ _ _ ordered => ordered

theorem Above.append (one : Above rank low first) (two : Above rank low second) :
    Above rank low (first ++ second) := by
  intro held rest below ordered
  rw [List.append_assoc]
  exact one held _ below (two held rest below ordered)

theorem Above.replicate (one : Above rank low body) (n : Nat) :
    Above rank low (List.replicate n body).flatten := by
  induction n with
  | zero => exact above_nil
  | succ n ih =>
    rw [List.replicate_succ,List.flatten_cons]
    exact one.append ih

theorem Above.ordered (above : Above rank low first) : Ordered rank [] first := by
  have alone := above [] [] (by simp) .done
  rwa [List.append_nil] at alone

theorem above_held {resource : Resource} {held : List Resource}
    (low : ∀ other ∈ held, rank other < rank resource) :
    ∀ other ∈ resource::held, rank other < rank resource + 1 := by
  intro other member
  rcases List.mem_cons.mp member with same | before
  · rw [same]
    exact Nat.lt_succ_self _
  · exact Nat.lt_succ_of_lt (low other before)

theorem Above.lockGuard {mutex : Resource} (above : Above rank (rank mutex + 1) body)
    (high : low ≤ rank mutex) :
    Above rank low (lockGuard mutex body) := by
  intro held rest below ordered
  have lower : ∀ other ∈ held, rank other < rank mutex := fun other member =>
    Nat.lt_of_lt_of_le (below other member) high
  rw [LockOrder.lockGuard,List.cons_append,List.append_assoc]
  exact .lock mutex held _ lower (above _ _ (above_held lower) (.unlock mutex held rest ordered))

theorem Above.callOnce {flag : Resource} (above : Above rank (rank flag + 1) body)
    (high : low ≤ rank flag) :
    Above rank low (callOnce flag body) := by
  intro held rest below ordered
  have lower : ∀ other ∈ held, rank other < rank flag := fun other member =>
    Nat.lt_of_lt_of_le (below other member) high
  rw [LockOrder.callOnce,List.cons_append,List.append_assoc]
  apply Ordered.once flag _ held _ lower
  · exact above _ _ (above_held lower) (.complete flag held rest ordered)
  · rw [← List.append_assoc,List.drop_left' (by simp)]
    exact ordered

end

section
variable {rank : Resource → Nat} {count : Nat} {state after : State Resource}

theorem set_threads (thread other : Nat) (value : Thread Resource) (state : State Resource) :
    (state.set thread value).threads other =
      if other = thread then value else state.threads other := by
  simp [State.set,Function.update_apply]

theorem Safe.set (safe : Safe rank count state) {thread : Nat} {value : Thread Resource}
    (ordered : Ordered rank value.held value.rest) (inside : thread < count)
    (held : ∀ resource ∈ value.held, resource ∈ (state.threads thread).held ∨ state.Free resource) :
    Safe rank count (state.set thread value) := by
  have foreign {resource : Resource} {other : Nat} (apart : other ≠ thread)
    (mine : resource ∈ value.held)
      (theirs : resource ∈ (state.threads other).held) : False := by
    rcases held resource mine with before | free
    · exact apart (safe.exclusive resource other thread theirs before)
    · exact free other theirs
  refine ⟨?_,?_,?_⟩
  · intro other
    rw [set_threads]
    split
    · exact ordered
    · exact safe.ordered other
  · intro resource one two first second
    rw [set_threads] at first second
    split at first
    · split at second
      · rename_i here there
        exact here.trans there.symm
      · rename_i apart
        exact (foreign apart first second).elim
    · split at second
      · rename_i apart _
        exact (foreign apart second first).elim
      · exact safe.exclusive resource one two first second
  · intro other beyond
    rw [set_threads,if_neg (by omega)]
    exact safe.idle other beyond

theorem Safe.inside (safe : Safe rank count state) {thread : Nat}
    (busy : (state.threads thread).rest ≠ []) :
    thread < count := by
  by_contra beyond
  apply busy
  rw [safe.idle thread (by omega)]

theorem Safe.more (safe : Safe rank count state) {larger : Nat} (more : count ≤ larger) :
    Safe rank larger state :=
  ⟨safe.ordered,safe.exclusive,fun thread beyond => safe.idle thread (by omega)⟩

theorem advance_effect {thread : Nat}
    (ordered : Ordered rank (state.threads thread).held (state.threads thread).rest)
    (step : Step state (.advance thread) after) :
    ∃ value, after.threads = (state.set thread value).threads ∧ Ordered rank value.held value.rest ∧
      value.rest.length < (state.threads thread).rest.length ∧
      ∀ resource ∈ value.held, resource ∈ (state.threads thread).held ∨ state.Free resource := by
  cases step with
  | lock _ resource held rest located free =>
    rw [located] at ordered ⊢
    cases ordered with
    | lock _ _ _ above later =>
      refine ⟨_,rfl,later,by simp,?_⟩
      intro other member
      rcases List.mem_cons.mp member with same | before
      · exact Or.inr (by rw [same]; exact free)
      · exact Or.inl before
  | unlock _ resource held rest located =>
    rw [located] at ordered ⊢
    cases ordered with
    | unlock _ _ _ later => exact ⟨_,rfl,
        later,by simp,fun other member => Or.inl (List.mem_cons_of_mem _ member)⟩
  | enter _ resource length held rest located first free =>
    rw [located] at ordered ⊢
    cases ordered with
    | once _ _ _ _ above later behind =>
      refine ⟨_,rfl,later,by simp,?_⟩
      intro other member
      rcases List.mem_cons.mp member with same | before
      · exact Or.inr (by rw [same]; exact free)
      · exact Or.inl before
  | pass _ resource length held rest located made =>
    rw [located] at ordered ⊢
    cases ordered with
    | once _ _ _ _ above later behind =>
      refine ⟨_,rfl,behind,?_,fun other member => Or.inl member⟩
      simp only [List.length_drop,List.length_cons]
      omega
  | complete _ resource held rest located =>
    rw [located] at ordered ⊢
    cases ordered with
    | complete _ _ _ later => exact ⟨_,rfl,
        later,by simp,fun other member => Or.inl (List.mem_cons_of_mem _ member)⟩

theorem advance_busy {thread : Nat} (step : Step state (.advance thread) after) :
    (state.threads thread).rest ≠ [] := by
  cases step with
  | lock _ _ _ _ located | unlock _ _ _ _ located | enter _ _ _ _ _ located | pass _ _ _ _ _ located
  | complete _ _ _ _ located => simp [located]

theorem Safe.congr (safe : Safe rank count state) (same : after.threads = state.threads) :
    Safe rank count after := by
  obtain ⟨ordered,exclusive,idle⟩ := safe
  rw [← same] at ordered exclusive idle
  exact ⟨ordered,exclusive,idle⟩

theorem Safe.advance (safe : Safe rank count state) {thread : Nat}
    (step : Step state (.advance thread) after) :
    Safe rank count after := by
  obtain ⟨value,same,ordered,_,held⟩ := advance_effect (safe.ordered thread) step
  exact (safe.set ordered (safe.inside (advance_busy step)) held).congr same

theorem Safe.call (safe : Safe rank count state) {thread : Nat} {program : List (Op Resource)}
    (ordered : Ordered rank [] program) (step : Step state (.call thread program) after) :
    Safe rank (max count (thread + 1)) after := by
  cases step with
  | call =>
    apply (safe.more (le_max_left _ _)).set ordered (by omega)
    intro resource member
    cases member

def work (count : Nat) (state : State Resource) : Nat :=
  ∑ thread ∈ Finset.range count, (state.threads thread).rest.length

theorem work_set {thread : Nat} (inside : thread < count) (value : Thread Resource)
    (state : State Resource) :
    work count (state.set thread value) + (state.threads thread).rest.length =
      work count state + value.rest.length := by
  have member := Finset.mem_range.mpr inside
  have others : ∑ other ∈ (Finset.range count).erase thread,
    ((state.set thread value).threads other).rest.length =
      ∑ other ∈ (Finset.range count).erase thread, (state.threads other).rest.length := by
    apply Finset.sum_congr rfl
    intro other among
    rw [set_threads,if_neg (Finset.ne_of_mem_erase among)]
  rw [work,work,← Finset.add_sum_erase _ _ member,← Finset.add_sum_erase _ _ member,others,
    set_threads,if_pos rfl]
  omega

theorem Safe.works (safe : Safe rank count state) {thread : Nat}
    (step : Step state (.advance thread) after) :
    work count after < work count state := by
  obtain ⟨value,same,_,fewer,_⟩ := advance_effect (safe.ordered thread) step
  have moved := work_set (safe.inside (advance_busy step)) value state
  have equal : work count after = work count (state.set thread value) := by rw [work,work,same]
  omega

theorem Safe.moves (safe : Safe rank count state) (thread : Nat)
    (busy : (state.threads thread).rest ≠ [])
    (holders : ∀ resource other, (∀ mine ∈ (state.threads thread).held, rank mine < rank resource) →
      resource ∈ (state.threads other).held → ∃ mover further, Step state
      (.advance mover) further) :
    ∃ mover further, Step state (.advance mover) further := by
  have ordered := safe.ordered thread
  cases located : state.threads thread with
  | mk held rest =>
    rw [located] at ordered busy holders
    cases ordered with
    | done => exact (busy rfl).elim
    | unlock resource held rest => exact ⟨thread,_,.unlock state thread resource held rest located⟩
    | complete resource held rest => exact ⟨thread,_,
        .complete state thread resource held rest located⟩
    | lock resource _ rest above =>
      by_cases free : state.Free resource
      · exact ⟨thread,_,.lock state thread resource held rest located free⟩
      · obtain ⟨other,holds⟩ := not_forall_not.mp free
        exact holders resource other above holds
    | once resource length _ rest above =>
      by_cases made : resource ∈ state.done
      · exact ⟨thread,_,.pass state thread resource length held rest located made⟩
      · by_cases free : state.Free resource
        · exact ⟨thread,_,.enter state thread resource length held rest located made free⟩
        · obtain ⟨other,holds⟩ := not_forall_not.mp free
          exact holders resource other above holds

variable {top : Nat} (bounded : ∀ resource, rank resource ≤ top)
include bounded

theorem Safe.holder_moves (safe : Safe rank count state) (resource : Resource) (thread : Nat)
    (holds : resource ∈ (state.threads thread).held) :
    ∃ mover further, Step state (.advance mover) further := by
  apply safe.moves thread
  · intro finished
    have ordered := safe.ordered thread
    rw [finished] at ordered
    generalize (state.threads thread).held = held at ordered holds
    cases ordered
    cases holds
  · intro wanted other above theirs
    have higher := above resource holds
    have below := bounded wanted
    exact safe.holder_moves wanted other theirs
termination_by top - rank resource

theorem Safe.progress (safe : Safe rank count state) (thread : Nat)
    (busy : (state.threads thread).rest ≠ []) :
    ∃ mover further, Step state (.advance mover) further :=
  safe.moves thread busy fun resource other _ holds =>
    safe.holder_moves bounded resource other holds

end

section
variable {rank : Resource → Nat} {history : List (Event Resource)} {state : State Resource}

abbrev Reached (rank : Resource → Nat) (history : List (Event Resource)) (state : State Resource) :
    Prop :=
  Run (fun state => state = State.initial) (Disciplined rank) Step history state

theorem reached_safe (run : Reached rank history state) : ∃ count, Safe rank count state := by
  apply run.invariant (fun _ state => ∃ count, Safe rank count state)
  · intro state start
    subst start
    exact ⟨0,fun _ => .done,by simp [State.initial],fun _ _ => rfl⟩
  · intro past before event after _ safe permitted step
    obtain ⟨count,safe⟩ := safe
    cases event with
    | call thread program => exact ⟨_,safe.call permitted step⟩
    | advance thread => exact ⟨count,safe.advance step⟩

/-- The calls under way return: however they go on, each operation shortens what is left,
and while a call is left some thread can take its next operation. -/
theorem calls_return {top : Nat} (bounded : ∀ resource, rank resource ≤ top)
    (run : Reached rank history state) :
    ∃ count, (∀ thread, count ≤ thread → state.threads thread = ⟨[],[]⟩) ∧
      ∀ late after, Run (fun start => start = state) Closed Step late after →
        late.length + work count after ≤ work count state ∧
        ((∀ thread, after.threads thread = ⟨[],[]⟩) ∨ ∃ mover further, Step after
          (.advance mover) further) := by
  obtain ⟨count,safe⟩ := reached_safe run
  refine ⟨count,safe.idle,?_⟩
  intro late after later
  have kept : Safe rank count after ∧ late.length + work count after ≤ work count state := by
    apply later.invariant (fun late after => Safe rank count after ∧
      late.length + work count after ≤ work count state)
    · intro start same
      subst same
      exact ⟨safe,by simp⟩
    · intro past before event beyond _ kept permitted step
      obtain ⟨before,few⟩ := kept
      cases event with
      | call thread program => exact permitted.elim
      | advance thread =>
        have less := before.works step
        exact ⟨before.advance step,by rw [List.length_cons]; omega⟩
  refine ⟨kept.2,?_⟩
  by_cases finished : ∀ thread, (after.threads thread).rest = []
  · refine Or.inl fun thread => ?_
    have ordered := kept.1.ordered thread
    cases located : after.threads thread with
    | mk held rest =>
      obtain rfl : rest = [] := by simpa [located] using finished thread
      rw [located] at ordered
      cases ordered
      rfl
  · obtain ⟨thread,busy⟩ := not_forall.mp finished
    exact Or.inr (kept.1.progress bounded thread busy)

end

end MCoroutine.General.LockOrder
