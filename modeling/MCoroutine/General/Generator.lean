import MCoroutine.General.Runs

/-! Generators: a body runs one segment after the other, each for whoever resumes it,
where `next body` is what remains of `body` behind its first segment, or nothing when
it is the last. -/
namespace MCoroutine.General.Generator
open Runs

variable {Body Runner : Type*}

inductive State (Body Runner : Type*)
  | unset
  | fresh (whole : Body)
  | executing (runner : Runner) (body : Body)
  | suspended (rest : Body)
  | completed

inductive Label (Body Runner : Type*)
  | set (whole : Body)
  | resume (runner : Runner)
  | pause
  | stop

def State.started : State Body Runner → Bool
  | .executing _ _ => true
  | .suspended _ => true
  | _ => false

def State.ready : State Body Runner → Bool
  | .unset => false
  | _ => true

inductive Step (next : Body → Option Body) :
    State Body Runner → Label Body Runner → State Body Runner → Prop
  | set (state : State Body Runner) (whole : Body) (idle : state.started = false) :
      Step next state (.set whole) (.fresh whole)
  | start (runner : Runner) (whole : Body) : Step next (.fresh whole) (.resume runner)
      (.executing runner whole)
  | proceed (runner : Runner) (rest : Body) : Step next (.suspended rest) (.resume runner)
      (.executing runner rest)
  | pause (runner : Runner) (body rest : Body) (more : next body = some rest) :
      Step next (.executing runner body) .pause (.suspended rest)
  | stop (runner : Runner) (body : Body) (done : next body = none) :
      Step next (.executing runner body) .stop .completed

abbrev Trace (next : Body → Option Body) : List (Label Body Runner) → State Body Runner → Prop :=
  Run (fun state => state = .unset) (fun _ _ _ => True) (Step next)

/-- Where segment `k` of a body starts. -/
def segment (next : Body → Option Body) (whole : Body) : Nat → Option Body
  | 0 => some whole
  | k+1 => (segment next whole k).bind next

/-- The last body set, and the resumes since. -/
def given : List (Label Body Runner) → Option (Body × Nat)
  | [] => none
  | .set whole::_ => some (whole,0)
  | .resume _::past => (given past).map fun (whole,k) => (whole,k + 1)
  | _::past => given past

def busy : List (Label Body Runner) → Bool
  | .resume _::_ => true
  | _ => false

def At (next : Body → Option Body) (whole : Body) : Nat → State Body Runner → Prop
  | 0,state => state = .fresh whole
  | k+1,state => ∃ body, segment next whole k = some body ∧
      ((∃ runner, state = .executing runner body) ∨
        (∃ rest, next body = some rest ∧ state = .suspended rest) ∨
        (next body = none ∧ state = .completed))

variable {next : Body → Option Body}

theorem At.resume {whole : Body} {k : Nat} {state after : State Body Runner} {runner : Runner}
    (here : At next whole k state) (step : Step next state (.resume runner) after) :
    ∃ body, segment next whole k = some body ∧ after = .executing runner body := by
  cases step with
  | start _ first =>
    cases k with
    | zero =>
      cases here
      exact ⟨whole,rfl,rfl⟩
    | succ k =>
      obtain ⟨_,_,⟨_,clash⟩ | ⟨_,_,clash⟩ | ⟨_,clash⟩⟩ := here
      all_goals cases clash
  | proceed _ rest =>
    cases k with
    | zero => cases here
    | succ k =>
      obtain ⟨body,located,⟨_,clash⟩ | ⟨other,more,same⟩ | ⟨_,clash⟩⟩ := here
      · cases clash
      · cases same
        exact ⟨rest,by rw [segment,located]; exact more,rfl⟩
      · cases clash

theorem At.startable {whole body : Body} {k : Nat} {state : State Body Runner}
    (here : At next whole k state) (located : segment next whole k = some body)
    (idle : ∀ runner b, state ≠ .executing runner b) :
    (∃ first, state = .fresh first) ∨ ∃ rest, state = .suspended rest := by
  cases k with
  | zero => exact Or.inl ⟨whole,here⟩
  | succ k =>
    obtain ⟨last,there,⟨runner,same⟩ | ⟨rest,_,same⟩ | ⟨done,_⟩⟩ := here
    · exact absurd same (idle runner last)
    · exact Or.inr ⟨rest,same⟩
    · rw [segment,there,Option.bind_some,done] at located
      cases located

theorem At.pause {whole : Body} {k : Nat} {state after : State Body Runner}
    (here : At next whole k state) (step : Step next state .pause after) :
    At next whole k after := by
  cases step with
  | pause runner body rest more =>
    cases k with
    | zero => cases here
    | succ k =>
      obtain ⟨other,located,⟨_,same⟩ | ⟨_,_,clash⟩ | ⟨_,clash⟩⟩ := here
      · cases same
        exact ⟨body,located,Or.inr (Or.inl ⟨rest,more,rfl⟩)⟩
      · cases clash
      · cases clash

theorem At.stop {whole : Body} {k : Nat} {state after : State Body Runner}
    (here : At next whole k state) (step : Step next state .stop after) :
    At next whole k after := by
  cases step with
  | stop runner body done =>
    cases k with
    | zero => cases here
    | succ k =>
      obtain ⟨other,located,⟨_,same⟩ | ⟨_,_,clash⟩ | ⟨_,clash⟩⟩ := here
      · cases same
        exact ⟨body,located,Or.inr (Or.inr ⟨done,rfl⟩)⟩
      · cases clash
      · cases clash

theorem position {labels : List (Label Body Runner)} {state : State Body Runner}
    (trace : Trace next labels state) :
    (given labels = none → state = .unset) ∧ ∀ whole k, given labels = some (whole,k) →
      At next whole k state := by
  refine trace.invariant (fun labels state => (given labels = none → state = .unset) ∧
    ∀ whole k, given labels = some (whole,k) → At next whole k state) ?_ ?_
  · rintro state rfl
    exact ⟨fun _ => rfl,nofun⟩
  · intro past before label after _ ⟨none_,here⟩ _ step
    cases label with
    | set first =>
      cases step with
      | set _ _ idle =>
        refine ⟨nofun,?_⟩
        intro whole k same
        cases same
        rfl
    | resume runner =>
      cases found : given past with
      | none =>
        rw [none_ found] at step
        cases step
      | some pair =>
        obtain ⟨whole,k⟩ := pair
        obtain ⟨body,located,rfl⟩ := (here whole k found).resume step
        refine ⟨by simp [given,found],?_⟩
        intro other j same
        rw [given,found] at same
        cases same
        exact ⟨body,located,Or.inl ⟨runner,rfl⟩⟩
    | pause =>
      refine ⟨?_,fun whole k same => (here whole k same).pause step⟩
      intro missing
      rw [none_ missing] at step
      cases step
    | stop =>
      refine ⟨?_,fun whole k same => (here whole k same).stop step⟩
      intro missing
      rw [none_ missing] at step
      cases step

def begun : List (Label Body Runner) → Bool
  | [] => false
  | .resume _::_ => true
  | .stop::_ => false
  | _::past => begun past

theorem started_begun {labels : List (Label Body Runner)} {state : State Body Runner}
    (trace : Trace next labels state) :
    state.started = begun labels := by
  refine trace.invariant (fun labels state => state.started = begun labels) ?_ ?_
  · rintro state rfl
    rfl
  · intro past before label after _ same _ step
    cases step with
    | set _ whole idle =>
      exact idle.symm.trans same
    | start | proceed => rfl
    | pause runner body rest more => exact same
    | stop => rfl

def Generated (next : Body → Option Body) (wholes : List Body) (body : Body) : Prop :=
  ∃ whole ∈ wholes, ∃ k, segment next whole k = some body

end MCoroutine.General.Generator
