import Mathlib

set_option autoImplicit false

/- Runs of a deterministic system that may stop: a step takes a state and an input
to the next state, or to none. What holds in every state of a run, and what every
input of a run meets in the state it is given in. -/
namespace NixRedox.StepRuns

universe u v

variable {State : Type u} {Input : Type v} (step : State → Input → Option State)

/-- The state after a list of inputs. -/
def runAll (start : State) : List Input → Option State
  | [] => some start
  | input :: rest => (step start input).bind fun next => runAll next rest

/-- Every state the inputs lead through satisfies the property. -/
def Throughout (property : State → Prop) (start : State) (inputs : List Input) : Prop :=
  ∀ done rest reached, done ++ rest = inputs → runAll step start done = some reached →
    property reached

/-- Every input meets the condition in the state it is given in. -/
def EachMeets (condition : State → Input → Prop) (start : State) (inputs : List Input) : Prop :=
  ∀ done input rest before, done ++ input :: rest = inputs →
    runAll step start done = some before → condition before input

variable {step}

theorem runAll_cons (start : State) (input : Input) (rest : List Input) :
    runAll step start (input :: rest) =
      (step start input).bind fun next => runAll step next rest :=
  rfl

theorem runAll_append (start : State) (first second : List Input) :
    runAll step start (first ++ second) =
      (runAll step start first).bind fun reached => runAll step reached second := by
  induction first generalizing start with
  | nil => rfl
  | cons input rest ih =>
      simp only [List.cons_append, runAll_cons, Option.bind_assoc]
      congr 1
      funext next
      exact ih next

theorem throughout_nil {property : State → Prop} {start : State} :
    Throughout step property start [] ↔ property start := by
  constructor
  · intro always
    exact always [] [] start rfl rfl
  · intro holds done rest reached split run
    obtain ⟨rfl, rfl⟩ := List.append_eq_nil_iff.mp split
    cases run
    exact holds

theorem throughout_cons {property : State → Prop} {start : State} {input : Input}
    {inputs : List Input} :
    Throughout step property start (input :: inputs) ↔
      property start ∧ ∀ next, step start input = some next →
        Throughout step property next inputs := by
  constructor
  · intro always
    refine ⟨always [] _ start rfl rfl, ?_⟩
    intro next stepped done rest reached split run
    apply always (input :: done) rest reached
    · rw [← split, List.cons_append]
    · simpa only [runAll_cons, stepped, Option.bind_some] using run
  · rintro ⟨first, later⟩ done rest reached split run
    cases done with
    | nil =>
        cases run
        exact first
    | cons head done =>
        cases split
        obtain ⟨next, stepped, run⟩ := Option.bind_eq_some_iff.mp run
        exact later next stepped done rest reached rfl run

theorem eachMeets_nil {condition : State → Input → Prop} {start : State} :
    EachMeets step condition start [] := by
  intro done input rest before split
  simp at split

theorem eachMeets_cons {condition : State → Input → Prop} {start : State} {input : Input}
    {inputs : List Input} :
    EachMeets step condition start (input :: inputs) ↔
      condition start input ∧ ∀ next, step start input = some next →
        EachMeets step condition next inputs := by
  constructor
  · intro always
    refine ⟨always [] input inputs start rfl rfl, ?_⟩
    intro next stepped done other rest before split run
    apply always (input :: done) other rest before
    · rw [← split, List.cons_append]
    · simpa only [runAll_cons, stepped, Option.bind_some] using run
  · rintro ⟨first, later⟩ done other rest before split run
    cases done with
    | nil =>
        cases split
        cases run
        exact first
    | cons head done =>
        cases split
        obtain ⟨next, stepped, run⟩ := Option.bind_eq_some_iff.mp run
        exact later next stepped done other rest before rfl run

/-- The property holds at the start of a run it holds throughout. -/
theorem Throughout.start {property : State → Prop} {start : State} {inputs : List Input}
    (always : Throughout step property start inputs) : property start :=
  always [] inputs start rfl rfl

/-- In a run that does not stop, every input leads on. -/
theorem eachMeets_isSome {start : State} {inputs : List Input}
    (runs : (runAll step start inputs).isSome = true) :
    EachMeets step (fun state input => (step state input).isSome = true) start inputs := by
  induction inputs generalizing start with
  | nil => exact eachMeets_nil
  | cons input rest ih =>
      rw [eachMeets_cons]
      cases stepped : step start input with
      | none => simp [runAll_cons, stepped] at runs
      | some next =>
          refine ⟨rfl, ?_⟩
          intro other same
          cases same
          apply ih
          simpa [runAll_cons, stepped] using runs

/-- A condition that the inputs meet in every state. -/
theorem eachMeets_of_forall {condition : State → Input → Prop} {start : State}
    {inputs : List Input} (meets : ∀ input ∈ inputs, ∀ state, condition state input) :
    EachMeets step condition start inputs := by
  intro done input rest before split _
  apply meets
  rw [← split]
  simp

/-- The invariant rule: what a condition lets every step keep holds throughout every
run that meets the condition. -/
theorem throughout_of_eachMeets {property : State → Prop} {condition : State → Input → Prop}
    (keeps : ∀ state input next, property state → condition state input →
      step state input = some next → property next)
    {start : State} {inputs : List Input} (holds : property start)
    (meets : EachMeets step condition start inputs) :
    Throughout step property start inputs := by
  induction inputs generalizing start with
  | nil => exact throughout_nil.mpr holds
  | cons input rest ih =>
      obtain ⟨first, later⟩ := eachMeets_cons.mp meets
      refine throughout_cons.mpr ⟨holds, ?_⟩
      intro next stepped
      exact ih (keeps start input next holds first stepped) (later next stepped)

/-- The exact form: if a step keeps the property exactly when the condition is met,
a run has the property throughout exactly when each of its inputs meets it. -/
theorem throughout_iff_eachMeets {property : State → Prop}
    {environment condition : State → Input → Prop}
    (stops : ∀ state input, environment state input → step state input = none →
      condition state input)
    (exact_ : ∀ state input next, property state → environment state input →
      step state input = some next → (property next ↔ condition state input))
    {start : State} {inputs : List Input} (holds : property start)
    (within : EachMeets step environment start inputs) :
    Throughout step property start inputs ↔ EachMeets step condition start inputs := by
  induction inputs generalizing start with
  | nil => exact ⟨fun _ => eachMeets_nil, fun _ => throughout_nil.mpr holds⟩
  | cons input rest ih =>
      obtain ⟨first, later⟩ := eachMeets_cons.mp within
      rw [throughout_cons, eachMeets_cons]
      cases stepped : step start input with
      | none => simp [holds, stops start input first stepped]
      | some next =>
          have one := exact_ start input next holds first stepped
          simp only [Option.some.injEq, forall_eq']
          constructor
          · rintro ⟨_, always⟩
            exact ⟨one.mp always.start, (ih always.start (later next stepped)).mp always⟩
          · rintro ⟨met, always⟩
            exact ⟨holds, (ih (one.mpr met) (later next stepped)).mpr always⟩

/-- The exact form with an invariant stronger than the property: it is kept by the steps
that meet the condition, and the first one that does not breaks the property. -/
theorem throughout_iff_of_invariant {property invariant : State → Prop}
    {environment condition : State → Input → Prop}
    (implies : ∀ state, invariant state → property state)
    (stops : ∀ state input, environment state input → step state input = none →
      condition state input)
    (decides : ∀ state input next, invariant state → environment state input →
      step state input = some next → property next → condition state input)
    (keeps : ∀ state input next, invariant state → environment state input →
      condition state input → step state input = some next → invariant next)
    {start : State} {inputs : List Input} (holds : invariant start)
    (within : EachMeets step environment start inputs) :
    Throughout step property start inputs ↔ EachMeets step condition start inputs := by
  induction inputs generalizing start with
  | nil => exact ⟨fun _ => eachMeets_nil, fun _ => throughout_nil.mpr (implies start holds)⟩
  | cons input rest ih =>
      obtain ⟨first, later⟩ := eachMeets_cons.mp within
      rw [throughout_cons, eachMeets_cons]
      cases stepped : step start input with
      | none => simp [implies start holds, stops start input first stepped]
      | some next =>
          simp only [Option.some.injEq, forall_eq']
          constructor
          · intro ⟨_, always⟩
            have met := decides start input next holds first stepped always.start
            have kept := keeps start input next holds first met stepped
            exact ⟨met, (ih kept (later next stepped)).mp always⟩
          · intro ⟨met, always⟩
            have kept := keeps start input next holds first met stepped
            exact ⟨implies start holds, (ih kept (later next stepped)).mpr always⟩

end NixRedox.StepRuns
