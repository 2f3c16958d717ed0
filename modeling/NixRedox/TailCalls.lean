import Mathlib

set_option autoImplicit false

/- Functions that end by calling themselves: one call takes an argument to the next argument
or to a result. When they return. -/
namespace NixRedox.TailCalls

open Relation (ReflTransGen TransGen)

variable {α β : Type} (call : α → α ⊕ β)

/-- So many calls at most. -/
def run : Nat → α → Option β
  | 0, _ => none
  | fuel + 1, argument =>
      match call argument with
      | .inl next => run fuel next
      | .inr result => some result

def Returns (argument : α) (result : β) : Prop := ∃ fuel, run call fuel argument = some result

/-- One argument is passed on to the other. -/
def Passes (argument next : α) : Prop := call argument = .inl next

/-- The calls come to an argument that comes back. -/
def Circular (argument : α) : Prop :=
  ∃ again, ReflTransGen (Passes call) argument again ∧ TransGen (Passes call) again again

variable {call} {argument next : α} {result : β}

theorem run_inl (passes : call argument = .inl next) (fuel : Nat) :
    run call (fuel + 1) argument = run call fuel next := by
  simp only [run, passes]

theorem run_inr (ended : call argument = .inr result) (fuel : Nat) :
    run call (fuel + 1) argument = some result := by
  simp only [run, ended]

theorem returns_of_result (ended : call argument = .inr result) : Returns call argument result :=
  ⟨1, run_inr ended 0⟩

theorem returns_iff_of_passes (passes : Passes call argument next) :
    Returns call argument result ↔ Returns call next result := by
  have same : call argument = .inl next := passes
  constructor
  · rintro ⟨fuel, ended⟩
    cases fuel with
    | zero => cases ended
    | succ fuel =>
        rw [run_inl same] at ended
        exact ⟨fuel, ended⟩
  · rintro ⟨fuel, ended⟩
    exact ⟨fuel + 1, (run_inl same fuel).trans ended⟩

/-- What a call returns depends on what it does first only. -/
theorem returns_congr (same : call argument = call next) :
    Returns call argument result ↔ Returns call next result := by
  have step : ∀ fuel, run call fuel argument = run call fuel next := by
    intro fuel
    cases fuel with
    | zero => rfl
    | succ fuel =>
        cases first : call argument with
        | inl last => rw [run_inl first, run_inl (same ▸ first)]
        | inr value => rw [run_inr first, run_inr (same ▸ first)]
  simp only [Returns, step]

theorem run_succ {fuel : Nat} (ended : run call fuel argument = some result) :
    run call (fuel + 1) argument = some result := by
  induction fuel generalizing argument with
  | zero => cases ended
  | succ fuel ih =>
      cases first : call argument with
      | inl next =>
          rw [run_inl first] at ended ⊢
          exact ih ended
      | inr value =>
          rw [run_inr first] at ended ⊢
          exact ended

theorem run_mono {fuel more : Nat} (ended : run call fuel argument = some result)
    (le : fuel ≤ more) : run call more argument = some result := by
  induction le with
  | refl => exact ended
  | step _ ih => exact run_succ ih

theorem Returns.unique {other : β} (first : Returns call argument result)
    (second : Returns call argument other) : result = other := by
  obtain ⟨fuel, ended⟩ := first
  obtain ⟨more, endedOther⟩ := second
  have one := run_mono ended (Nat.le_max_left fuel more)
  have two := run_mono endedOther (Nat.le_max_right fuel more)
  exact Option.some.inj (one.symm.trans two)

/-- What is passed on returns with it. -/
theorem returns_of_reach (reach : ReflTransGen (Passes call) argument next) :
    Returns call argument result ↔ Returns call next result := by
  induction reach with
  | refl => exact Iff.rfl
  | tail _ passes ih => exact ih.trans (returns_iff_of_passes passes)

/-- The number of calls falls from one argument to the next. -/
theorem run_of_passes {fuel : Nat} (ended : run call fuel argument = some result)
    (passes : Passes call argument next) :
    ∃ fewer, fewer < fuel ∧ run call fewer next = some result := by
  have same : call argument = .inl next := passes
  cases fuel with
  | zero => cases ended
  | succ fewer =>
      rw [run_inl same] at ended
      exact ⟨fewer, Nat.lt_succ_self fewer, ended⟩

theorem run_of_transGen {fuel : Nat} (ended : run call fuel argument = some result)
    (passes : TransGen (Passes call) argument next) :
    ∃ fewer, fewer < fuel ∧ run call fewer next = some result := by
  induction passes with
  | single first => exact run_of_passes ended first
  | tail _ last ih =>
      obtain ⟨fewer, less, later⟩ := ih
      obtain ⟨least, lesser, final⟩ := run_of_passes later last
      exact ⟨least, lesser.trans less, final⟩

/-- An argument that comes back never returns. -/
theorem not_returns_of_cycle (cycle : TransGen (Passes call) argument argument) (fuel : Nat) :
    run call fuel argument ≠ some result := by
  induction fuel using Nat.strong_induction_on with
  | h fuel ih =>
      intro ended
      obtain ⟨fewer, less, again⟩ := run_of_transGen ended cycle
      exact ih fewer less again

/-- Where only finitely many arguments are passed on, a call returns if and only if it does
not run in a circle. -/
theorem returns_iff_not_circular (passed : List α)
    (finite : ∀ argument next, call argument = .inl next → next ∈ passed) (argument : α) :
    (∃ result, Returns call argument result) ↔ ¬ Circular call argument := by
  constructor
  · rintro ⟨result, returns⟩ ⟨again, reach, cycle⟩
    obtain ⟨fuel, ended⟩ := (returns_of_reach reach).mp returns
    exact not_returns_of_cycle cycle fuel ended
  · intro straight
    let later : {next // ReflTransGen (Passes call) argument next} →
        {next // ReflTransGen (Passes call) argument next} → Prop :=
      fun last first => TransGen (Passes call) first.1 last.1
    have listed : ∀ next, ReflTransGen (Passes call) argument next → next ∈ argument :: passed := by
      intro next reach
      rcases ReflTransGen.cases_tail reach with rfl | ⟨middle, _, passes⟩
      · exact List.mem_cons_self
      · exact List.mem_cons_of_mem _ (finite middle next passes)
    have few : Finite {next // ReflTransGen (Passes call) argument next} :=
      ((List.finite_toSet (argument :: passed)).subset listed).to_subtype
    have transitive : IsTrans _ later := ⟨fun _ _ _ first second => second.trans first⟩
    have irreflexive : Std.Irrefl later := ⟨fun next cycle => straight ⟨next.1, next.2, cycle⟩⟩
    have founded : WellFounded later := Finite.wellFounded_of_trans_of_irrefl later
    have all : ∀ next : {next // ReflTransGen (Passes call) argument next},
        ∃ result, Returns call next.1 result := by
      intro next
      induction next using founded.induction with
      | _ next ih =>
          cases ended : call next.1 with
          | inr result => exact ⟨result, returns_of_result ended⟩
          | inl last =>
              have passes : Passes call next.1 last := ended
              obtain ⟨result, returns⟩ := ih ⟨last, next.2.tail passes⟩ (.single passes)
              exact ⟨result, (returns_iff_of_passes passes).mpr returns⟩
    exact all ⟨argument, .refl⟩

section Numbered

/-- The arguments that are passed on have numbers, up to the first whose call ends. -/
def Numbered (call : α → α ⊕ β) (states : Nat → α) (ends : Nat → Option β) : Prop :=
  ∀ turn, (∀ earlier < turn, ends earlier = none) →
    call (states turn) = (ends turn).elim (.inl (states (turn + 1))) .inr

variable {states : Nat → α} {ends : Nat → Option β}

theorem Numbered.run_none (numbered : Numbered call states ends) (never : ∀ turn, ends turn = none)
    (fuel turn : Nat) : run call fuel (states turn) = none := by
  induction fuel generalizing turn with
  | zero => rfl
  | succ fuel ih =>
      have step := numbered turn fun earlier _ => never earlier
      rw [never turn] at step
      rw [run_inl step]
      exact ih (turn + 1)

theorem Numbered.run_some (numbered : Numbered call states ends) {first more : Nat}
    (going : ∀ earlier < first + more, ends earlier = none)
    (ended : ends (first + more) = some result) :
    run call (more + 1) (states first) = some result := by
  have step := numbered first fun earlier less => going earlier (by omega)
  induction more generalizing first with
  | zero =>
      rw [Nat.add_zero] at ended
      rw [ended] at step
      exact run_inr step 0
  | succ more ih =>
      have same : first + (more + 1) = first + 1 + more := by omega
      rw [same] at going ended
      rw [going first (by omega)] at step
      rw [run_inl step]
      apply ih going ended
      exact numbered (first + 1) fun earlier less => going earlier (by omega)

/-- Some call ends, so there is a first one. -/
theorem first_end (some_ : ∃ turn, ends turn ≠ none) :
    ∃ turn result, (∀ earlier < turn, ends earlier = none) ∧ ends turn = some result := by
  classical
  obtain ⟨result, ended⟩ := Option.ne_none_iff_exists'.mp (Nat.find_spec some_)
  refine ⟨Nat.find some_, result, ?_, ended⟩
  intro earlier less
  exact not_not.mp (Nat.find_min some_ less)

/-- The first call that ends returns. -/
theorem Numbered.run_first (numbered : Numbered call states ends) {turn : Nat}
    (going : ∀ earlier < turn, ends earlier = none) (ended : ends turn = some result) :
    run call (turn + 1) (states 0) = some result := by
  apply numbered.run_some
  · rwa [Nat.zero_add]
  · rwa [Nat.zero_add]

/-- Such a call returns what the first call that ends does. -/
theorem Numbered.returns_iff (numbered : Numbered call states ends) :
    Returns call (states 0) result ↔
      ∃ turn, (∀ earlier < turn, ends earlier = none) ∧ ends turn = some result := by
  constructor
  · intro returns
    by_cases some_ : ∃ turn, ends turn ≠ none
    · obtain ⟨turn, value, going, ended⟩ := first_end some_
      have same := returns.unique ⟨turn + 1, numbered.run_first going ended⟩
      exact ⟨turn, going, ended.trans (congrArg some same.symm)⟩
    · have never : ∀ turn, ends turn = none := not_exists_not.mp some_
      obtain ⟨fuel, ended⟩ := returns
      rw [numbered.run_none never] at ended
      cases ended
  · rintro ⟨turn, going, ended⟩
    exact ⟨turn + 1, numbered.run_first going ended⟩

/-- Where some call ends, one call more than there are before it returns. -/
theorem Numbered.run_isSome (numbered : Numbered call states ends) {turn : Nat}
    (ended : ends turn ≠ none) : (run call (turn + 1) (states 0)).isSome = true := by
  obtain ⟨first, result, going, firstEnded⟩ := first_end ⟨turn, ended⟩
  have before : first ≤ turn := by
    by_contra later
    exact ended (going turn (by omega))
  rw [run_mono (numbered.run_first going firstEnded) (Nat.succ_le_succ before)]
  rfl

end Numbered

end NixRedox.TailCalls
