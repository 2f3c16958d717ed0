import Mathlib.Data.List.Basic

set_option autoImplicit false

/- Computations on a state that may fail and may not return, and the rules for what
holds after them: one condition where they end well, one wherever they fail. -/
namespace NixRedox.FallibleRuns

abbrev Run (ε σ : Type) := ExceptT ε (StateT σ Option)

variable {ε σ α β : Type}

namespace Run

/-- How a run ends, and in which state; nothing where it does not. -/
def from_ (run : Run ε σ α) (before : σ) : Option (Except ε α × σ) :=
  StateT.run (ExceptT.run run) before

def step (effect : σ → Except ε α × σ) : Run ε σ α :=
  ExceptT.mk fun before => some (effect before)

def never : Run ε σ α := ExceptT.mk fun _ => none

/-- Hand on a failure as a value. -/
def attempt (run : Run ε σ α) : Run ε σ (Except ε α) :=
  ExceptT.mk fun before => (run.from_ before).map fun (result, after) => (.ok result, after)

def ofExcept : Except ε α → Run ε σ α
  | .ok value => pure value
  | .error reason => throw reason

theorem from_pure (value : α) (before : σ) :
    (pure value : Run ε σ α).from_ before = some (.ok value, before) := rfl

theorem from_throw (reason : ε) (before : σ) :
    (throw reason : Run ε σ α).from_ before = some (.error reason, before) := rfl

theorem from_step (effect : σ → Except ε α × σ) (before : σ) :
    (step effect).from_ before = some (effect before) := rfl

theorem from_never (before : σ) : (never : Run ε σ α).from_ before = none := rfl

theorem from_attempt (run : Run ε σ α) (before : σ) :
    run.attempt.from_ before =
      (run.from_ before).map fun (result, after) => (.ok result, after) := rfl

theorem from_bind (run : Run ε σ α) (next : α → Run ε σ β) (before : σ) :
    (run >>= next).from_ before =
      match run.from_ before with
      | none => none
      | some (.error reason, after) => some (.error reason, after)
      | some (.ok value, mid) => (next value).from_ mid := by
  change Option.bind (run.from_ before) _ = _
  cases run.from_ before with
  | none => rfl
  | some ended =>
      obtain ⟨result, mid⟩ := ended
      cases result <;> rfl

end Run

/-- From a state with the first condition, a run that ends well reaches the last one for
its value, and one that fails reaches the condition for failures. -/
def Holds (fail pre : σ → Prop) (run : Run ε σ α) (post : α → σ → Prop) : Prop :=
  ∀ before result after, pre before → run.from_ before = some (result, after) →
    match result with
    | .ok value => post value after
    | .error _ => fail after

namespace Holds

variable {fail pre : σ → Prop} {post : α → σ → Prop} {run : Run ε σ α}

theorem pure {value : α} (holds : ∀ state, pre state → post value state) :
    Holds fail pre (pure value : Run ε σ α) post := by
  intro before result after start ran
  rw [Run.from_pure] at ran
  cases ran
  exact holds before start

theorem throw {reason : ε} (holds : ∀ state, pre state → fail state) :
    Holds fail pre (throw reason : Run ε σ α) post := by
  intro before result after start ran
  rw [Run.from_throw] at ran
  cases ran
  exact holds before start

theorem never : Holds fail pre (Run.never : Run ε σ α) post := by
  intro before result after start ran
  rw [Run.from_never] at ran
  cases ran

theorem step {effect : σ → Except ε α × σ}
    (good : ∀ before value after, pre before → effect before = (.ok value, after) →
      post value after)
    (bad : ∀ before reason after, pre before → effect before = (.error reason, after) →
      fail after) :
    Holds fail pre (Run.step effect) post := by
  intro before result after start ran
  rw [Run.from_step, Option.some.injEq] at ran
  cases result with
  | ok value => exact good before value after start ran
  | error reason => exact bad before reason after start ran

theorem bind {mid : α → σ → Prop} {next : α → Run ε σ β} {last : β → σ → Prop}
    (first : Holds fail pre run mid) (then_ : ∀ value, Holds fail (mid value) (next value) last) :
    Holds fail pre (run >>= next) last := by
  intro before result after start ran
  rw [Run.from_bind] at ran
  split at ran
  · cases ran
  · rename_i reason final failed
    cases ran
    exact first before _ _ start failed
  · rename_i value state ended
    exact then_ value state result after (first before _ state start ended) ran

theorem weaken {stronger : σ → Prop} {weaker : α → σ → Prop} (holds : Holds fail pre run post)
    (before : ∀ state, stronger state → pre state)
    (after : ∀ value state, post value state → weaker value state) :
    Holds fail stronger run weaker := by
  intro first result last start ran
  have ended := holds first result last (before first start) ran
  cases result with
  | ok value => exact after value last ended
  | error reason => exact ended

theorem ofExcept {result : Except ε α}
    (good : ∀ value state, result = .ok value → pre state → post value state)
    (bad : ∀ reason state, result = .error reason → pre state → fail state) :
    Holds fail pre (Run.ofExcept result) post := by
  cases result with
  | ok value => exact pure fun state => good value state rfl
  | error reason => exact throw fun state => bad reason state rfl

/-- A loop over a list: what holds for the elements behind it is kept and extended. -/
theorem forM {body : α → Run ε σ Unit} {inv : List α → σ → Prop} (list : List α)
    (each : ∀ done value, Holds fail (inv done) (body value) fun _ => inv (done ++ [value])) :
    Holds fail (inv []) (list.forM body) fun _ => inv list := by
  suffices general : ∀ rest done, Holds fail (inv done) (rest.forM body) fun _ =>
      inv (done ++ rest) from general list []
  intro rest
  induction rest with
  | nil =>
      intro done
      rw [List.append_nil]
      exact pure fun _ start => start
  | cons value rest ih =>
      intro done
      have further := ih (done ++ [value])
      rw [List.append_assoc, List.singleton_append] at further
      exact bind (each done value) fun _ => further

end Holds

end NixRedox.FallibleRuns
