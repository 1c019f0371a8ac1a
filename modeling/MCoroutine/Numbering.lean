import MCoroutine.PoolEffects

/-! Identities and slot positions. Objects draw their identities from one counter in
construction order, and a pool uses the identity of a coroutine as its slot number. -/
namespace MCoroutine

/-- The fields of a Coroutine that no call changes. -/
structure Identity where
  corId : Nat
  stackSp : Nat
  stackSize : Nat
  deriving DecidableEq, Repr

variable {Body : Type}

def Coroutine.identity {Coctx Function : Type} (co : Coroutine Coctx Function) : Identity :=
  { corId := co.corId, stackSp := co.stackSp, stackSize := co.stackSize }

def Store.identities (store : Store Body) : List Identity := store.objects.map Coroutine.identity

def CoroutinePool.refs (pool : CoroutinePool) : List Nat := pool.coroutines.map (·.first)

namespace Numbering

/-- Only an object constructed with a stack draws an identity. -/
def stacked (ids : List Identity) (co : Nat) : Bool :=
  ids[co]?.any fun identity => identity.stackSp != 0

def drawn (ids : List Identity) (co : Nat) : Nat := (List.range co).countP (stacked ids)

def outside (ids : List Identity) (refs : List Nat) (co : Nat) : Nat :=
  (List.range co).countP fun k => stacked ids k && !refs.contains k

structure Numbered (ids : List Identity) (counter : Nat) : Prop where
  counter : counter = u32 (1 + drawn ids ids.length)
  numbers : ∀ co identity, ids[co]? = some identity →
    identity.corId = if identity.stackSp = 0 then 0 else u32 (1 + drawn ids co)

/-- The slots of a pool: slot 0 has no stack, the others do, in construction order. -/
structure Shape (ids : List Identity) (refs : List Nat) : Prop where
  increasing : refs.Pairwise (· < ·)
  located : ∀ co ∈ refs, co < ids.length
  origin : ∃ co, refs[0]? = some co ∧ stacked ids co = false
  slots : ∀ (i co : Nat), 1 ≤ i → refs[i]? = some co → stacked ids co = true

theorem Shape.nodup {ids : List Identity} {refs : List Nat} (shape : Shape ids refs) : refs.Nodup :=
  shape.increasing.imp fun less => Nat.ne_of_lt less

theorem Shape.slot_unique {ids : List Identity} {refs : List Nat} (shape : Shape ids refs)
    {i j co : Nat} (one : refs[i]? = some co) (two : refs[j]? = some co) : i = j :=
  (List.getElem?_inj (List.getElem?_eq_some_iff.mp one).1 shape.nodup).mp (one.trans two.symm)

theorem stacked_of {ids : List Identity} {co : Nat} {identity : Identity}
    (located : ids[co]? = some identity) :
    stacked ids co = (identity.stackSp != 0) := by
  rw [stacked,located]
  rfl

theorem stacked_append (ids more : List Identity) (co : Nat) (inside : co < ids.length) :
    stacked (ids ++ more) co = stacked ids co := by
  rw [stacked,stacked,List.getElem?_append_left inside]

theorem stacked_inside {ids : List Identity} {co : Nat} (stack : stacked ids co = true) :
    co < ids.length := by
  by_contra beyond
  rw [stacked,List.getElem?_eq_none (Nat.le_of_not_lt beyond)] at stack
  cases stack

theorem stacked_bare {ids bare : List Identity} (zero : ∀ identity ∈ bare, identity = ⟨0,0,0⟩)
    (co : Nat) :
    stacked (ids ++ bare) co = stacked ids co := by
  rcases Nat.lt_or_ge co ids.length with inside | beyond
  · exact stacked_append ids bare co inside
  · rw [stacked,stacked,List.getElem?_append_right beyond,List.getElem?_eq_none beyond]
    cases located : bare[co - ids.length]? with
    | none => rfl
    | some identity =>
      rw [zero identity (List.mem_of_getElem? located)]
      rfl

theorem outside_none {ids : List Identity} {refs : List Nat}
    (inside : ∀ co, stacked ids co = true → co ∈ refs) (co : Nat) : outside ids refs co = 0 := by
  refine List.countP_eq_zero.mpr ?_
  intro k _ counted
  rw [Bool.and_eq_true] at counted
  have member := inside k counted.1
  simp [member] at counted

private theorem drawn_append (ids more : List Identity) (co : Nat) (inside : co ≤ ids.length) :
    drawn (ids ++ more) co = drawn ids co := by
  apply List.countP_congr
  intro k member
  rw [stacked_append ids more k (by have := List.mem_range.mp member; omega)]

private theorem drawn_last (ids : List Identity) (identity : Identity) :
    drawn (ids ++ [identity]) (ids ++ [identity]).length =
      drawn ids ids.length + if identity.stackSp = 0 then 0 else 1 := by
  rw [List.length_append,List.length_singleton,drawn,List.range_succ,List.countP_append]
  change drawn (ids ++ [identity]) ids.length + _ = _
  rw [drawn_append ids [identity] ids.length (Nat.le_refl _)]
  have last : stacked (ids ++ [identity]) ids.length = (identity.stackSp != 0) :=
    stacked_of (by simp)
  by_cases bare : identity.stackSp = 0
  · simp [last,bare]
  · simp [last,bare]

theorem Numbered.append {ids : List Identity} {counter : Nat} (numbered : Numbered ids counter)
    (identity : Identity) (number : identity.corId = if identity.stackSp = 0 then 0 else counter) :
    Numbered (ids ++ [identity]) (if identity.stackSp = 0 then counter else u32 (counter + 1)) := by
  refine ⟨?_,?_⟩
  · rw [drawn_last]
    by_cases bare : identity.stackSp = 0
    · simp only [bare,if_true]
      exact numbered.counter
    · simp only [bare,if_false]
      rw [numbered.counter,u32,u32,u32,Nat.mod_add_mod,Nat.add_assoc]
  · intro co other located
    rcases Nat.lt_or_ge co ids.length with inside | beyond
    · rw [List.getElem?_append_left inside] at located
      rw [drawn_append ids _ co (Nat.le_of_lt inside)]
      exact numbered.numbers co other located
    · rw [List.getElem?_append_right beyond] at located
      obtain ⟨here,rfl⟩ := List.getElem?_eq_some_iff.mp located
      have same : co = ids.length := by
        rw [List.length_singleton] at here
        omega
      subst co
      rw [drawn_append ids _ _ (Nat.le_refl _),← numbered.counter]
      simpa using number

theorem Shape.extend {ids : List Identity} {refs : List Nat} (shape : Shape ids refs)
    (more : List Identity) :
    Shape (ids ++ more) refs := by
  have member {i co : Nat} (located : refs[i]? = some co) : co < ids.length :=
    shape.located co (List.mem_of_getElem? located)
  refine ⟨shape.increasing,?_,?_,?_⟩
  · intro co present
    have inside := shape.located co present
    rw [List.length_append]
    omega
  · obtain ⟨co,located,bare⟩ := shape.origin
    exact ⟨co,located,by rw [stacked_append ids more co (member located)]; exact bare⟩
  · intro i co positive located
    rw [stacked_append ids more co (member located)]
    exact shape.slots i co positive located

theorem Shape.append {ids : List Identity} {refs : List Nat} (shape : Shape ids refs)
    (identity : Identity) (stack : identity.stackSp ≠ 0) :
    Shape (ids ++ [identity]) (refs ++ [ids.length]) := by
  have extended := shape.extend [identity]
  refine ⟨?_,?_,?_,?_⟩
  · refine List.pairwise_append.mpr ⟨shape.increasing,by simp,?_⟩
    intro co member last single
    rw [List.mem_singleton.mp single]
    exact shape.located co member
  · intro co member
    rcases List.mem_append.mp member with old | new
    · exact extended.located co old
    · simp [List.mem_singleton.mp new]
  · obtain ⟨co,located,bare⟩ := extended.origin
    exact ⟨co,by rw [List.getElem?_append_left (List.getElem?_eq_some_iff.mp located).1]; exact located,bare⟩
  · intro i co positive located
    rcases Nat.lt_or_ge i refs.length with inside | beyond
    · rw [List.getElem?_append_left inside] at located
      exact extended.slots i co positive located
    · rw [List.getElem?_append_right beyond] at located
      obtain ⟨_,rfl⟩ := List.getElem?_eq_some_iff.mp located
      have last : (ids ++ [identity])[ids.length]? = some identity := by simp
      rw [List.getElem_singleton,stacked_of last]
      simpa using stack

theorem Shape.appended {ids : List Identity} {refs : List Nat} (shape : Shape ids refs)
    {added identity : Identity} {i co : Nat} (slot : (refs ++ [ids.length])[i]? = some co)
    (present : (ids ++ [added])[co]? = some identity) :
    (refs[i]? = some co ∧ ids[co]? = some identity) ∨ (i = refs.length ∧ identity = added) := by
  rcases Nat.lt_or_ge i refs.length with inside | beyond
  · rw [List.getElem?_append_left inside] at slot
    rw [List.getElem?_append_left (shape.located co (List.mem_of_getElem? slot))] at present
    exact Or.inl ⟨slot,present⟩
  · have last := (List.getElem?_eq_some_iff.mp slot).1
    rw [List.length_append,List.length_singleton] at last
    rw [List.getElem?_append_right beyond] at slot
    obtain ⟨_,rfl⟩ := List.getElem?_eq_some_iff.mp slot
    refine Or.inr ⟨by omega,?_⟩
    simpa using present.symm

private theorem countP_split {α : Type} (xs : List α) (p q : α → Bool) :
    xs.countP p = xs.countP (fun x => p x && q x) + xs.countP (fun x => p x && !q x) := by
  induction xs with
  | nil => rfl
  | cons x xs ih =>
    cases one : p x
    · simp [one,ih]
    · cases two : q x
      · simp [one,two,ih]
        omega
      · simp [one,two,ih]
        omega

private theorem Shape.drawn_slot {ids : List Identity} {refs : List Nat} (shape : Shape ids refs)
    {i co : Nat} (located : refs[i]? = some co) : drawn ids co = (i - 1) + outside ids refs co := by
  obtain ⟨bound,here⟩ := List.getElem?_eq_some_iff.mp located
  have order (j k : Nat) (first : j < refs.length) (second : k < refs.length) (before : j < k) :
      refs[j] < refs[k] := List.pairwise_iff_getElem.mp shape.increasing j k first second before
  have own : ((List.range co).filter fun k => stacked ids k && refs.contains k).Perm
      ((refs.take i).drop 1) := by
    refine (List.perm_ext_iff_of_nodup (List.nodup_range.filter _) (shape.nodup.take.drop)).mpr ?_
    intro k
    simp only [List.mem_filter,List.mem_range,Bool.and_eq_true,List.contains_iff_mem]
    constructor
    · rintro ⟨below,stack,member⟩
      obtain ⟨j,there⟩ := List.mem_iff_getElem?.mp member
      obtain ⟨inside,rfl⟩ := List.getElem?_eq_some_iff.mp there
      have before : j < i := by
        by_contra late
        rcases Nat.eq_or_lt_of_le (Nat.le_of_not_lt late) with rfl | after
        · omega
        · have := order i j bound inside after
          omega
      have behind : j ≠ 0 := by
        rintro rfl
        obtain ⟨origin,first,bare⟩ := shape.origin
        rw [first] at there
        rw [← Option.some.inj there,bare] at stack
        cases stack
      refine List.mem_iff_getElem?.mpr ⟨j - 1,?_⟩
      rw [List.getElem?_drop,show 1 + (j - 1) = j by omega,List.getElem?_take_of_lt before]
      exact there
    · intro member
      obtain ⟨j,there⟩ := List.mem_iff_getElem?.mp member
      rw [List.getElem?_drop] at there
      obtain ⟨inside,_⟩ := List.getElem?_eq_some_iff.mp there
      rw [List.length_take] at inside
      rw [List.getElem?_take_of_lt (by omega)] at there
      obtain ⟨within,rfl⟩ := List.getElem?_eq_some_iff.mp there
      refine ⟨?_,shape.slots (1+j) _ (by omega) there,List.mem_of_getElem? there⟩
      rw [← here]
      exact order (1+j) i within bound (by omega)
  have count := own.length_eq
  rw [List.length_drop,List.length_take,Nat.min_eq_left (Nat.le_of_lt bound),
    ← List.countP_eq_length_filter] at count
  rw [drawn,countP_split (List.range co) (stacked ids) refs.contains,count]
  rfl

theorem slot_number {ids : List Identity} {refs : List Nat} {counter i co : Nat}
    {identity : Identity} (numbered : Numbered ids counter) (shape : Shape ids refs)
    (positive : 1 ≤ i) (located : refs[i]? = some co) (present : ids[co]? = some identity) :
    identity.corId = u32 (i + outside ids refs co) := by
  have stack : identity.stackSp ≠ 0 := by
    have slot := shape.slots i co positive located
    rw [stacked_of present] at slot
    simpa using slot
  rw [numbered.numbers co identity present,if_neg stack,shape.drawn_slot located]
  congr 1
  omega

/-- The identity names the owning slot exactly when the objects outside the pool drew
a multiple of `2^32` identities before. -/
theorem slot_named_iff {ids : List Identity} {refs : List Nat} {counter i co : Nat}
    {identity : Identity} (numbered : Numbered ids counter) (shape : Shape ids refs)
    (small : refs.length < 2^32) (positive : 1 ≤ i) (located : refs[i]? = some co)
    (present : ids[co]? = some identity) :
    refs[identity.corId]? = some co ↔ 2^32 ∣ outside ids refs co := by
  obtain ⟨bound,_⟩ := List.getElem?_eq_some_iff.mp located
  have named : refs[identity.corId]? = some co ↔ identity.corId = i := by
    constructor
    · intro there
      exact shape.slot_unique there located
    · rintro rfl
      exact located
  rw [named,slot_number numbered shape positive located present,u32,Nat.dvd_iff_mod_eq_zero]
  omega

end Numbering

end MCoroutine
