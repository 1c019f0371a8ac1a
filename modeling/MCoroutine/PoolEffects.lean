import MCoroutine.CoroutinePool
import MCoroutine.MemoryEffects
import Mathlib.Logic.Relation

/-! What the coroutine pool operations do to the slots. Growth is a sequence of
appended slots, so that what one append preserves every growth preserves. -/
namespace MCoroutine.CoroutinePool
open MemoryPool

variable {Body : Type}

inductive Append : Store Body × CoroutinePool → Store Body × CoroutinePool → Prop
  | slot (store after : Store Body) (pool : CoroutinePool) (heap rest : List Nat) (block co : Nat)
      (memoryPool : MemoryPool) (supplied : pool.memoryPool.Supplied heap)
      (taken : pool.memoryPool.getBlock heap = .ok (block,memoryPool,rest))
      (made : store.make pool.stackSize block = .ok (co,after)) :
      Append (store,pool)
        (after,{ pool with coroutines := pool.coroutines ++ [⟨co,false⟩], memoryPool := memoryPool })

abbrev Appends : Store Body × CoroutinePool → Store Body × CoroutinePool → Prop :=
  Relation.ReflTransGen Append

theorem appends_slots {before after : Store Body × CoroutinePool} (appends : Appends before after) :
    ∃ fresh, after.2.coroutines = before.2.coroutines ++ fresh ∧
      ∀ pair ∈ fresh, pair.second = false := by
  induction appends with
  | refl => exact ⟨[],by simp,by simp⟩
  | tail _ last ih =>
    obtain ⟨fresh,slots,free⟩ := ih
    cases last with
    | slot store after pool heap rest block co memoryPool supplied taken made =>
      refine ⟨fresh ++ [⟨co,false⟩],by simp [← List.append_assoc,← slots],?_⟩
      intro pair member
      rcases List.mem_append.mp member with old | new
      · exact free pair old
      · rw [List.mem_singleton.mp new]

theorem getBlock_supplied (pool after : MemoryPool) (heap rest : List Nat) (block : Nat)
    (supplied : pool.Supplied heap) (call : pool.getBlock heap = .ok (block,after,rest)) :
    after.Supplied rest := by
  obtain ⟨⟨start,index,next,tail⟩,taken,result⟩ := bind_success call
  cases result
  obtain ⟨arrays,size,count⟩ := takeBlock_arrays pool after heap rest start index taken
  rw [Supplied,arrays,arrayBytes,size,count]
  exact supplied

private theorem resizeLoop_appends (n : Nat) (heap rest : List Nat) (store after : Store Body)
    (pool result : CoroutinePool) (supplied : pool.memoryPool.Supplied heap)
    (call : resizeLoop n heap store pool = .ok (after,result,rest)) :
    Appends (store,pool) (after,result) ∧
      result.coroutines.length = pool.coroutines.length + n := by
  induction n generalizing heap store pool with
  | zero =>
    cases call
    exact ⟨.refl,rfl⟩
  | succ n ih =>
    obtain ⟨⟨block,memoryPool,left⟩,taken,call⟩ := bind_success call
    obtain ⟨⟨co,middle⟩,made,call⟩ := bind_success call
    have grown := Append.slot store middle pool heap left block co memoryPool supplied taken made
    have remaining := getBlock_supplied pool.memoryPool memoryPool heap left block supplied taken
    obtain ⟨appends,length⟩ := ih left middle _ remaining call
    refine ⟨.head grown appends,?_⟩
    rw [length,List.length_append,List.length_singleton]
    omega

theorem getPoolSize_of_lt (pool : CoroutinePool) (small : pool.coroutines.length < 2^32) :
    pool.getPoolSize = pool.coroutines.length - 1 := u32_of_lt (by omega)

theorem resize_appends (newSize : Nat) (heap rest : List Nat) (store after : Store Body)
    (pool result : CoroutinePool) (supplied : pool.memoryPool.Supplied heap)
    (sized : newSize < 2^32) (present : 0 < pool.coroutines.length)
    (small : pool.coroutines.length < 2^32)
    (call : pool.resize newSize heap store = .ok (after,result,rest)) :
    Appends (store,pool) (after,result) ∧ result.coroutines.length = max pool.coroutines.length
      (newSize + 1) ∧
      result.coroutines.length < 2^32 := by
  rw [resize,getPoolSize_of_lt pool small,u32_of_lt small] at call
  split at call
  · cases call
    exact ⟨.refl,by omega,small⟩
  · split at call
    · cases call
    · obtain ⟨appends,length⟩ := resizeLoop_appends _ heap rest store after pool
        result supplied call
      exact ⟨appends,by omega,by omega⟩

private theorem create_supplied {blockCount blockSize blockGroupSize : Nat} {heap rest : List Nat}
    {pool : MemoryPool} (arrays : HeapArrays (u32 (blockSize * blockGroupSize)) heap)
    (call : MemoryPool.create blockCount blockSize blockGroupSize heap = .ok (pool,rest)) :
    pool.Supplied rest := by
  obtain ⟨taken,size,count⟩ := create_arrays call
  rw [Supplied,taken,arrayBytes,size,count]
  exact arrays

theorem create_appends (poolSize stackSize : Nat) (heap rest : List Nat) (store after : Store Body)
    (pool : CoroutinePool) (arrays : HeapArrays (u32 (stackSize * 128)) heap)
    (sized : poolSize < 2^32)
    (call : create poolSize stackSize heap store = .ok (after,pool,rest)) :
    ∃ memoryPool left, MemoryPool.create poolSize stackSize 128 heap = .ok (memoryPool,left) ∧
      Appends (store.makeDefault.2,⟨stackSize,[⟨store.objects.length,true⟩],memoryPool⟩)
        (after,pool) ∧
      pool.coroutines.length = poolSize + 1 ∧ pool.coroutines.length < 2^32 := by
  obtain ⟨⟨memoryPool,left⟩,made,call⟩ := bind_success call
  have supplied := create_supplied arrays made
  obtain ⟨appends,length,small⟩ := resize_appends poolSize left rest store.makeDefault.2 after
    ⟨stackSize,[⟨store.objects.length,true⟩],memoryPool⟩ pool supplied sized (by simp)
      (by simp) call
  refine ⟨memoryPool,left,made,appends,?_,small⟩
  rw [length,List.length_singleton]
  omega

theorem take_located {pool : CoroutinePool} {i co : Nat} {flag : Bool}
    (slot : pool.coroutines[i]? = some ⟨co,flag⟩) :
    pool.take i = .ok (co,{ pool with coroutines := pool.coroutines.set i ⟨co,true⟩ }) := by
  rw [take,slot]

def FirstFree (pool : CoroutinePool) (i co : Nat) : Prop :=
  1 ≤ i ∧ pool.coroutines[i]? = some ⟨co,false⟩ ∧
    ∀ (j : Nat) pair, 1 ≤ j → j < i → pool.coroutines[j]? = some pair → pair.second = true

def Full (pool : CoroutinePool) : Prop :=
  ∀ (i : Nat) pair, 1 ≤ i → pool.coroutines[i]? = some pair → pair.second = true

private theorem searchLoop_returns (pool : CoroutinePool) (fuel i : Nat)
    (inside : i + fuel ≤ pool.coroutines.length) :
    (∃ j co, pool.searchLoop fuel i = .ok (some j) ∧ i ≤ j ∧ pool.coroutines[j]? = some ⟨co,false⟩ ∧
      ∀ (k : Nat) pair, i ≤ k → k < j → pool.coroutines[k]? = some pair → pair.second = true) ∨
    (pool.searchLoop fuel i = .ok none ∧
      ∀ (k : Nat) pair, i ≤ k → k < i + fuel → pool.coroutines[k]? = some pair →
        pair.second = true) := by
  induction fuel generalizing i with
  | zero => exact Or.inr ⟨rfl,fun k pair low high => by omega⟩
  | succ fuel ih =>
    have bound : i < pool.coroutines.length := by omega
    obtain ⟨⟨co,flag⟩,located⟩ : ∃ pair, pool.coroutines[i]? = some pair :=
      ⟨_,List.getElem?_eq_getElem bound⟩
    cases flag with
    | false => exact Or.inl ⟨i,co,by simp [searchLoop,located],Nat.le_refl i,located,fun k pair low high => by omega⟩
    | true =>
      have next : pool.searchLoop (fuel + 1) i = pool.searchLoop fuel (i + 1) := by
        simp [searchLoop,located]
      -- the slot passed over is in use
      have passed {k : Nat} {other : CoroutinePair} (low : i ≤ k)
        (here : pool.coroutines[k]? = some other)
          (beyond : i + 1 ≤ k → other.second = true) : other.second = true := by
        rcases Nat.eq_or_lt_of_le low with rfl | after
        · rw [located] at here
          cases here
          rfl
        · exact beyond after
      rw [next]
      rcases ih (i + 1) (by omega) with ⟨j,first,found,low,slot,used⟩ | ⟨none,used⟩
      · refine Or.inl ⟨j,first,found,by omega,slot,?_⟩
        exact fun k other from_ before here => passed from_ here fun after =>
          used k other after before here
      · refine Or.inr ⟨none,?_⟩
        exact fun k other from_ before here => passed from_ here fun after =>
          used k other after (by omega) here

section
variable {pool : CoroutinePool} (present : 0 < pool.coroutines.length)
  (small : pool.coroutines.length < 2^32)
include present small

theorem search_returns :
    (∃ i co, FirstFree pool i co ∧ pool.searchLoop pool.getPoolSize 1 = .ok (some i)) ∨
      (Full pool ∧ pool.searchLoop pool.getPoolSize 1 = .ok none) := by
  have size := getPoolSize_of_lt pool small
  rcases searchLoop_returns pool pool.getPoolSize 1 (by omega) with
    ⟨i,co,found,positive,slot,used⟩ | ⟨none,used⟩
  · exact Or.inl ⟨i,co,⟨positive,slot,used⟩,found⟩
  · refine Or.inr ⟨?_,none⟩
    intro i pair positive here
    have bound := (List.getElem?_eq_some_iff.mp here).1
    exact used i pair positive (by omega) here

theorem getCoroutine_found {i co : Nat} (first : FirstFree pool i co) (heap : List Nat)
    (store : Store Body) :
    pool.getCoroutine heap store =
      .ok (co,store,{ pool with coroutines := pool.coroutines.set i ⟨co,true⟩ },heap) := by
  obtain ⟨positive,slot,used⟩ := first
  rcases search_returns present small with ⟨j,other,⟨behind,there,before⟩,found⟩ | ⟨full,_⟩
  · have same : j = i := by
      rcases Nat.lt_trichotomy j i with earlier | same | later
      · cases used j _ behind earlier there
      · exact same
      · cases before i _ positive later slot
    subst same
    rw [getCoroutine,found]
    change (pool.take j >>= _) = _
    rw [take_located slot]
    rfl
  · cases full i _ positive slot

theorem getCoroutine_full (full : Full pool) (heap : List Nat) (store : Store Body) :
    pool.getCoroutine heap store = (do
      let request ← growthRequest pool.coroutines.length
      let (store,grown,heap) ← pool.resize request heap store
      let (co,grown) ← grown.take pool.coroutines.length
      return (co,store,grown,heap)) := by
  have size := getPoolSize_of_lt pool small
  rcases search_returns present small with ⟨i,co,⟨positive,slot,_⟩,_⟩ | ⟨_,none⟩
  · cases full i _ positive slot
  · rw [getCoroutine,none,u32_of_lt small]
    change (if pool.getPoolSize = 2^32 - 1 then _ else _) = _
    rw [if_neg (by omega)]

/-- A getCoroutine that returns took the first free slot, or it grew a pool whose slots
were all in use and took the first new one. -/
theorem getCoroutine_cases {heap rest : List Nat} {store after : Store Body}
    {result : CoroutinePool} {co : Nat}
    (call : pool.getCoroutine heap store = .ok (co,after,result,rest)) :
    (∃ i, FirstFree pool i co ∧ after = store ∧ rest = heap ∧
      result = { pool with coroutines := pool.coroutines.set i ⟨co,true⟩ }) ∨
    (Full pool ∧ 3 * pool.coroutines.length / 2 < 2^32 ∧ ∃ grown,
      pool.resize (3 * pool.coroutines.length / 2) heap store = .ok (after,grown,rest) ∧
      grown.take pool.coroutines.length = .ok (co,result)) := by
  rcases search_returns present small with ⟨i,first,free,_⟩ | ⟨full,_⟩
  · rw [getCoroutine_found present small free] at call
    cases call
    exact Or.inl ⟨i,free,rfl,rfl,rfl⟩
  · rw [getCoroutine_full present small full] at call
    obtain ⟨request,asked,call⟩ := bind_success call
    obtain ⟨⟨next,grown,left⟩,resized,call⟩ := bind_success call
    obtain ⟨⟨taken,slots⟩,take,call⟩ := bind_success call
    cases call
    unfold growthRequest at asked
    split at asked
    · rename_i fits
      cases asked
      exact Or.inr ⟨full,fits,grown,resized,take⟩
    · cases asked

end

theorem getCoroutine_effect (heap rest : List Nat) (store after : Store Body)
    (pool result : CoroutinePool) (co : Nat) (supplied : pool.memoryPool.Supplied heap)
    (present : 0 < pool.coroutines.length) (small : pool.coroutines.length < 2^32)
    (call : pool.getCoroutine heap store = .ok (co,after,result,rest)) :
    ∃ grown i, Appends (store,pool) (after,grown) ∧ grown.coroutines.length < 2^32 ∧ 1 ≤ i ∧
      grown.coroutines[i]? = some ⟨co,false⟩ ∧
      result = { grown with coroutines := grown.coroutines.set i ⟨co,true⟩ } := by
  rcases getCoroutine_cases present small call with
    ⟨i,⟨positive,slot,_⟩,rfl,_,rfl⟩ | ⟨_,fits,grown,resized,taken⟩
  · exact ⟨pool,i,.refl,small,positive,slot,rfl⟩
  · obtain ⟨appends,length,smaller⟩ :=
      resize_appends _ heap rest store after pool grown supplied fits present small resized
    obtain ⟨fresh,slots,free⟩ := appends_slots appends
    have bound : pool.coroutines.length < grown.coroutines.length := by omega
    obtain ⟨⟨first,flag⟩,slot⟩ : ∃ pair, grown.coroutines[pool.coroutines.length]? = some pair :=
      ⟨_,List.getElem?_eq_getElem bound⟩
    have new : flag = false := by
      have here := slot
      rw [show grown.coroutines = pool.coroutines ++ fresh from slots,List.getElem?_append_right
        (Nat.le_refl _)] at here
      exact free _ (List.mem_of_getElem? here)
    subst new
    rw [take_located slot] at taken
    cases taken
    exact ⟨grown,pool.coroutines.length,appends,smaller,present,slot,rfl⟩

end MCoroutine.CoroutinePool
