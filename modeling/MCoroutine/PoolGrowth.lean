import MCoroutine.General.HighWater
import MCoroutine.Handout

/-! How far a coroutine pool grows: getCoroutine adds slots only to a pool whose slots are
all handed out, so that its size follows the largest number of coroutines held at once. -/
namespace MCoroutine.PoolGrowth
open General.HighWater General.Runs Process MCoroutine.Numbering SlotRuns Handout

variable {Body : Type}

/-- What the pool handed out and was not given back since, the last one first. -/
def holdings (index : Nat) : List (Event Body) → List Nat
  | [] => []
  | .getCoroutine _ pool co::past => if pool = index then co::holdings index past
      else holdings index past
  | .backCoroutine _ pool co::past => (holdings index past).filter fun held =>
    ¬ (pool = index ∧ co = held)
  | _::past => holdings index past

theorem mem_holdings (index : Nat) (history : List (Event Body)) (co : Nat) :
    co ∈ holdings index history ↔ Held index history co := by
  induction history with
  | nil => simp [holdings,Held]
  | cons event past ih =>
    cases event with
    | getCoroutine thread pool other =>
      rw [holdings,Held,← ih]
      split
      · rename_i same
        simp [same,eq_comm]
      · rename_i other
        simp [other]
    | backCoroutine thread pool other => rw [holdings,Held,List.mem_filter,ih,decide_eq_true_iff]
    | _ => exact ih

abbrev peakHeld (index : Nat) : List (Event Body) → Nat :=
  peak fun history => (holdings index history).length

def constructed : List (Event Body) → Nat
  | .newPool poolSize _::_ => poolSize
  | _ => 0

def requested : List (Event Body) → Nat
  | .resize _ newSize::_ => newSize
  | _ => 0

private theorem take_length {pool result : CoroutinePool} {i co : Nat}
    (call : pool.take i = .ok (co,result)) :
    result.coroutines.length = pool.coroutines.length := by
  unfold CoroutinePool.take at call
  split at call
  · cases call
  · cases call
    rw [List.length_set]

private theorem setPool_cases {process : Process Body} {k index : Nat} {before pool : CoroutinePool}
    (there : process.pools[k]? = some before) (located : process.pools[index]? = some pool)
    (store : Store Body) (result : CoroutinePool) :
    (k = index ∧ before = pool ∧ (process.setPool k store result).pools[index]? = some result) ∨
      (process.setPool k store result).pools[index]? = some pool := by
  rw [setPool_at there]
  by_cases same : k = index
  · subst k
    exact Or.inl ⟨rfl,Option.some.inj (there.symm.trans located),if_pos rfl⟩
  · rw [if_neg same]
    exact Or.inr located

private theorem step_sizes {next : Body → Option Body} {process after : Process Body}
    {event : Event Body} (structured : Structured process) (step : Step next process event after)
    {index : Nat} {pool : CoroutinePool} (located : process.pools[index]? = some pool) :
    ∃ longer, after.pools[index]? = some longer ∧
      (longer.coroutines.length = pool.coroutines.length ∨
      (∃ newSize, event = .resize index newSize ∧
        longer.coroutines.length = max pool.coroutines.length (newSize + 1)) ∨
      (∃ thread co, event = .getCoroutine thread index co ∧ pool.Full ∧
        longer.coroutines.length = 3 * pool.coroutines.length / 2 + 1)) := by
  have member := List.mem_of_getElem? located
  have present := shape_present (structured.shape pool member)
  have small := structured.small pool member
  have whole := step
  cases step with
  | newCoroutine => exact ⟨pool,located,Or.inl rfl⟩
  | newPool =>
    refine ⟨pool,?_,Or.inl rfl⟩
    rw [List.getElem?_append_left (List.getElem?_eq_some_iff.mp located).1]
    exact located
  | resize k newSize heap rest before result store sized there arrays call =>
    rcases setPool_cases there located store result with ⟨rfl,rfl,here⟩ | kept
    · obtain ⟨_,length,_⟩ := CoroutinePool.resize_appends newSize heap rest process.store store
        before result arrays sized
        present small call
      exact ⟨result,here,Or.inr (Or.inl ⟨newSize,rfl,length⟩)⟩
    · exact ⟨pool,kept,Or.inl rfl⟩
  | getCoroutine thread k co heap rest before result store there arrays call =>
    rcases setPool_cases there located store result with ⟨rfl,rfl,here⟩ | kept
    · refine ⟨result,here,?_⟩
      rcases CoroutinePool.getCoroutine_cases present small call with
        ⟨i,_,_,_,rfl⟩ | ⟨full,fits,grown,resized,taken⟩
      · exact Or.inl List.length_set
      · obtain ⟨_,length,_⟩ := CoroutinePool.resize_appends _ heap rest process.store store before
          grown arrays fits
          present small resized
        refine Or.inr (Or.inr ⟨thread,co,rfl,full,?_⟩)
        rw [take_length taken,length]
        omega
    · exact ⟨pool,kept,Or.inl rfl⟩
  | backCoroutine thread k co before result store there call =>
    rcases setPool_cases there located store result with ⟨rfl,rfl,here⟩ | kept
    · obtain ⟨_,_,_,length⟩ := backCoroutine_keeps co process.store store before result call
      exact ⟨result,here,Or.inl length⟩
    · exact ⟨pool,kept,Or.inl rfl⟩
  | getMainCoroutine | getCurrentCoroutine | setCallBack | resume | yield | finish =>
    refine ⟨pool,?_,Or.inl rfl⟩
    rw [(step_quiet whole trivial).pools]
    exact located

private theorem step_grows {next : Body → Option Body} {process after : Process Body}
    {event : Event Body} (structured : Structured process) (step : Step next process event after)
    {index : Nat} {pool : CoroutinePool} (located : process.pools[index]? = some pool) :
    ∃ longer, after.pools[index]? = some longer ∧ pool.getPoolSize ≤ longer.getPoolSize := by
  obtain ⟨longer,there,sizes⟩ := step_sizes structured step located
  have small := structured.small pool (List.mem_of_getElem? located)
  have still := (step_structured structured step).small longer (List.mem_of_getElem? there)
  refine ⟨longer,there,?_⟩
  rw [CoroutinePool.getPoolSize_of_lt pool small,CoroutinePool.getPoolSize_of_lt longer still]
  rcases sizes with same | ⟨newSize,_,length⟩ | ⟨_,_,_,_,length⟩
  · rw [same]
  · omega
  · omega

private theorem run_grows {next : Body → Option Body}
    {allowed : List (Event Body) → Process Body → Event Body → Prop} {late : List (Event Body)}
    {process after : Process Body} (structured : Structured process)
    (later : Run (fun start => start = process) allowed (Step next) late after) {index : Nat}
    {pool : CoroutinePool} (located : process.pools[index]? = some pool) :
    ∃ longer, after.pools[index]? = some longer ∧ pool.getPoolSize ≤ longer.getPoolSize := by
  have kept : Structured after ∧ ∃ longer, after.pools[index]? = some longer ∧
      pool.getPoolSize ≤ longer.getPoolSize := by
    refine later.invariant (fun _ after => Structured after ∧
      ∃ longer, after.pools[index]? = some longer ∧ pool.getPoolSize ≤ longer.getPoolSize) ?_ ?_
    · rintro start rfl
      exact ⟨structured,pool,located,Nat.le_refl _⟩
    · rintro past before event after _ ⟨shaped,middle,there,more⟩ _ step
      obtain ⟨longer,beyond,further⟩ := step_grows shaped step there
      exact ⟨step_structured shaped step,longer,beyond,more.trans further⟩
  exact kept.2

def size (process : Process Body) : Nat := process.pools[0]?.elim 0 CoroutinePool.getPoolSize

private theorem size_located {process : Process Body} {pool : CoroutinePool}
    (located : process.pools[0]? = some pool) :
    size process = pool.getPoolSize := by
  rw [size,located]
  rfl

section
variable {next : Body → Option Body} {history : List (Event Body)} {process : Process Body}
  (run : Run (fun process => process = Process.initial) Unshared (Step next) history process)
include run

private theorem holdings_nodup : (holdings 0 history).Nodup := by
  refine run.invariant (fun history _ => (holdings 0 history).Nodup) ?_ ?_
  · intro _ _
    exact List.nodup_nil
  · intro past before event after reached nodup _ step
    cases event with
    | getCoroutine thread index co =>
      obtain ⟨rfl,free,_⟩ := handed_free reached step
      rw [holdings,if_pos rfl]
      exact List.nodup_cons.mpr ⟨fun member => free ((mem_holdings 0 past co).mp member),nodup⟩
    | backCoroutine thread index co => exact nodup.filter _
    | _ => exact nodup

private theorem full_held {pool : CoroutinePool} (only : process.pools = [pool])
    (full : pool.Full) :
    (pool.refs.drop 1).Perm (holdings 0 history) := by
  have member : pool ∈ process.pools := by simp [only]
  have nodup := ((reached_structured run).shape pool member).nodup
  obtain ⟨_,_,serves⟩ := (reached_served run).located
    (show process.pools[0]? = some pool by rw [only]; rfl)
  refine (List.perm_ext_iff_of_nodup nodup.drop (holdings_nodup run)).mpr fun co => ?_
  rw [mem_holdings]
  constructor
  · intro listed
    obtain ⟨i,located⟩ := List.mem_iff_getElem?.mp listed
    rw [List.getElem?_drop,refs_at] at located
    obtain ⟨⟨first,flag⟩,slot,rfl⟩ := Option.map_eq_some_iff.mp located
    exact (serves.used (1 + i) first flag (by omega) slot).mp (full (1 + i) _ (by omega) slot)
  · intro held
    obtain ⟨i,positive,slot⟩ := sole_slot run only held
    refine List.mem_iff_getElem?.mpr ⟨i - 1,?_⟩
    rw [List.getElem?_drop,show 1 + (i - 1) = i by omega]
    exact slot

private theorem full_count {pool : CoroutinePool} (only : process.pools = [pool])
    (full : pool.Full) :
    (holdings 0 history).length = pool.getPoolSize := by
  have small := (reached_structured run).small pool (by simp [only])
  rw [← (full_held run only full).length_eq,List.length_drop,
    CoroutinePool.getPoolSize_of_lt pool small]
  simp [CoroutinePool.refs]

private theorem step_bounded {event : Event Body} {after : Process Body}
    (permitted : Unshared history process event) (step : Step next process event after) :
    size after ≤ size process ∨
      size after ≤ max (peak constructed (event::history)) (peak requested (event::history)) ∨
      size after ≤ 3 * (holdings 0 (event::history)).length / 2 := by
  have structured := reached_structured run
  cases located : process.pools[0]? with
  | some pool =>
    obtain ⟨longer,there,sizes⟩ := step_sizes structured step located
    have small := structured.small pool (List.mem_of_getElem? located)
    have still := (step_structured structured step).small longer (List.mem_of_getElem? there)
    rw [size_located located,size_located there,CoroutinePool.getPoolSize_of_lt pool small,
      CoroutinePool.getPoolSize_of_lt longer still]
    rcases sizes with same | ⟨newSize,rfl,length⟩ | ⟨thread,co,rfl,full,length⟩
    · exact Or.inl (by rw [same])
    · have asked : newSize ≤ peak requested (.resize 0 newSize::history) :=
        measure_le_peak requested (.resize 0 newSize::history)
      have floor := asked.trans (le_max_right (peak constructed (.resize 0 newSize::history)) _)
      omega
    · have count := full_count run ((reached_served run).located located).2.1 full
      rw [CoroutinePool.getPoolSize_of_lt pool small] at count
      have present := shape_present (structured.shape pool (List.mem_of_getElem? located))
      refine Or.inr (Or.inr ?_)
      rw [holdings,if_pos rfl,List.length_cons,count,length]
      omega
  | none =>
    have none := List.getElem?_eq_none_iff.mp located
    have empty : process.pools = [] := List.length_eq_zero_iff.mp (Nat.le_zero.mp none)
    cases step_pools structured step with
    | quiet _ _ _ same => exact Or.inl (by rw [size,size,same.pools])
    | construct => exact permitted.elim
    | create poolSize stackSize _ _ _ store pool _ _ _ length small =>
      have only : ({ process with store := store, pools := process.pools ++ [pool] } :
          Process Body).pools[0]? = some pool := by
        simp [empty]
      have asked : poolSize ≤ peak constructed (.newPool poolSize stackSize::history) :=
        measure_le_peak constructed (.newPool poolSize stackSize::history)
      refine Or.inr (Or.inl (le_max_of_le_left ?_))
      rw [size_located only,CoroutinePool.getPoolSize_of_lt pool small,length]
      exact asked
    | grow _ _ _ _ _ there => simp [empty] at there
    | hand _ _ _ _ _ _ _ there => simp [empty] at there
    | release _ _ _ _ _ _ there => simp [empty] at there

end

/-- getCoroutine adds slots only while all coroutines of the pool are held, and the pool
never outgrows the size it was constructed with, what resize asked for, and one and a
half times the coroutines held at once. It never shrinks. -/
theorem pool_bounded (next : Body → Option Body) (history : List (Event Body))
    (process : Process Body)
    (run : Run (fun process => process = Process.initial) Unshared (Step next) history process) :
    ((holdings 0 history).Nodup ∧ ∀ co, co ∈ holdings 0 history ↔ Held 0 history co) ∧
    (∀ thread index co after, Step next process (.getCoroutine thread index co) after →
      ∀ pool longer, process.pools[index]? = some pool → after.pools[index]? = some longer →
        pool.getPoolSize < longer.getPoolSize →
          (holdings index history).length = pool.getPoolSize ∧
            ∀ i co, 1 ≤ i → pool.refs[i]? = some co → Held index history co) ∧
    (∀ pool ∈ process.pools, pool.getPoolSize ≤
      max (peak constructed history) (max (peak requested history) (3 * peakHeld 0 history / 2))) ∧
    ∀ late after, Run (fun start => start = process) (fun _ _ _ => True) (Step next) late after →
      ∀ (index : Nat) (pool : CoroutinePool), process.pools[index]? = some pool →
        ∃ longer, after.pools[index]? = some longer ∧ pool.getPoolSize ≤ longer.getPoolSize := by
  have structured := reached_structured run
  refine ⟨⟨holdings_nodup run,mem_holdings 0 history⟩,?_,?_,fun _ _ later _ _ located =>
    run_grows structured later located⟩
  · intro thread index co after step pool longer located there more
    obtain ⟨rfl,only,_⟩ := (reached_served run).located located
    obtain ⟨other,here,sizes⟩ := step_sizes structured step located
    obtain rfl : longer = other := Option.some.inj (there.symm.trans here)
    rcases sizes with same | ⟨_,impossible,_⟩ | ⟨_,_,_,full,_⟩
    · rw [CoroutinePool.getPoolSize,CoroutinePool.getPoolSize,same] at more
      exact absurd more (Nat.lt_irrefl _)
    · cases impossible
    · refine ⟨full_count run only full,fun i co positive slot => ?_⟩
      have listed : co ∈ pool.refs.drop 1 := by
        refine List.mem_iff_getElem?.mpr ⟨i - 1,?_⟩
        rw [List.getElem?_drop,show 1 + (i - 1) = i by omega]
        exact slot
      exact (mem_holdings 0 history co).mp ((full_held run only full).mem_iff.mp listed)
  · intro pool member
    obtain ⟨index,located⟩ := List.mem_iff_getElem?.mp member
    obtain ⟨rfl,_,_⟩ := (reached_served run).located located
    rw [← size_located located,← max_assoc]
    refine size_bounded size (fun history =>
      max (peak constructed history) (peak requested history))
      (fun history => (holdings 0 history).length) (fun held => 3 * held / 2) ?_ ?_ ?_ ?_ run
    · intro few many more
      dsimp only
      omega
    · exact fun past event => max_le_max (peak_rises constructed past event)
        (peak_rises requested past event)
    · rintro process rfl
      exact Nat.zero_le _
    · exact fun past before event after reached permitted step =>
        step_bounded reached permitted step

set_option maxRecDepth 2000 in
/-- A pool constructed without coroutines grows to the one that is asked for. -/
theorem pool_bounded_one :
    (onePool 0 true).getPoolSize ≤
      max (peak constructed [Event.getCoroutine 0 0 1,(.newPool 0 16 : Event Unit)])
        (max (peak requested [Event.getCoroutine 0 0 1,(.newPool 0 16 : Event Unit)])
          (3 * peakHeld 0 [Event.getCoroutine 0 0 1,(.newPool 0 16 : Event Unit)] / 2)) := by
  have made : Run (fun process => process = Process.initial) Unshared (Step fun _ => none) _ _ :=
    Run.next [] _ (Event.newPool 0 16) _ (Run.start (Process.initial : Process Unit) rfl) rfl
      (Step.newPool _ 0 16 [65536] [] _ _ (by decide) one_array rfl)
  have handed := Run.next _ _ (Event.getCoroutine 0 0 1) (oneProcess true) made trivial
    (Step.getCoroutine _ 0 0 1 [] [] _ (onePool 0 true) _ rfl one_array rfl)
  exact (pool_bounded (fun _ => none) _ (oneProcess true) handed).2.2.1 _ List.mem_cons_self

end MCoroutine.PoolGrowth
