import NixRedox.UnixPath

set_option autoImplicit false

/- The lexical normal form of an absolute path, by rewriting its components, and that
`clean_path` computes it. -/
namespace NixRedox.UnixPath

open Relation (ReflTransGen)

/-- One simplification: a `.` goes, a `..` goes with the component before it, and right
below the root it goes alone. -/
inductive Simplifies : PathBuf → PathBuf → Prop where
  | dot (front back : PathBuf) : Simplifies (front ++ .curDir :: back) (front ++ back)
  | up (front : PathBuf) (name : List Char) (back : PathBuf) :
      Simplifies (front ++ .normal name :: .parentDir :: back) (front ++ back)
  | absorbed (back : PathBuf) : Simplifies (.rootDir :: .parentDir :: back) (.rootDir :: back)

/-- What is left when nothing can be simplified any more. -/
structure NormalForm (path form : PathBuf) : Prop where
  reached : ReflTransGen Simplifies path form
  irreducible : ∀ next, ¬ Simplifies form next

/-- The root stands in front and nowhere else. -/
def Absolute (path : PathBuf) : Prop := ∃ rest, path = .rootDir :: rest ∧ .rootDir ∉ rest

theorem absolute_components {path : List Char} (absolute : isAbsolute path = true) :
    Absolute (components path) := by
  refine ⟨_, components_absolute path absolute, ?_⟩
  intro member
  obtain ⟨segment, -, -, -, same⟩ := mem_body.mp member
  unfold toComponent at same
  split at same <;> cases same

section Steps

variable {path next form : PathBuf}

theorem Simplifies.append (step : Simplifies path next) (back : PathBuf) :
    Simplifies (path ++ back) (next ++ back) := by
  cases step with
  | dot front rest =>
      rw [List.append_assoc, List.append_assoc, List.cons_append]
      exact .dot front (rest ++ back)
  | up front name rest =>
      rw [List.append_assoc, List.append_assoc, List.cons_append, List.cons_append]
      exact .up front name (rest ++ back)
  | absorbed rest => exact .absorbed (rest ++ back)

theorem reaches_append (reached : ReflTransGen Simplifies path next) (back : PathBuf) :
    ReflTransGen Simplifies (path ++ back) (next ++ back) := by
  induction reached with
  | refl => exact .refl
  | tail _ step ih => exact ih.tail (step.append back)

theorem Simplifies.absolute (step : Simplifies path next) (absolute : Absolute path) :
    Absolute next := by
  obtain ⟨rest, same, single⟩ := absolute
  cases step with
  | dot front back =>
      cases front with
      | nil => cases same
      | cons first front =>
          cases same
          exact ⟨front ++ back, rfl, by simpa using single⟩
  | up front name back =>
      cases front with
      | nil => cases same
      | cons first front =>
          cases same
          exact ⟨front ++ back, rfl, by simpa using single⟩
  | absorbed back =>
      cases same
      exact ⟨back, rfl, by simpa using single⟩

theorem reaches_absolute (reached : ReflTransGen Simplifies path next)
    (absolute : Absolute path) : Absolute next := by
  induction reached with
  | refl => exact absolute
  | tail _ step ih => exact step.absolute ih

/-- A simplification does not change what cleaning gives. -/
theorem Simplifies.cleanPath_eq (step : Simplifies path next) : cleanPath path = cleanPath next := by
  cases step with
  | dot front back => simp [cleanPath, cleanStep]
  | up front name back =>
      have popped := pop_append_normal (front.foldl cleanStep []) name
      simp only [cleanPath, List.foldl_append, List.foldl_cons, cleanStep_normal]
      rw [show cleanStep (front.foldl cleanStep [] ++ [.normal name]) .parentDir =
        front.foldl cleanStep [] from popped]
  | absorbed back => rfl

theorem reaches_cleanPath_eq (reached : ReflTransGen Simplifies path next) :
    cleanPath path = cleanPath next := by
  induction reached with
  | refl => rfl
  | tail _ step ih => exact ih.trans step.cleanPath_eq

end Steps

section Forms

variable {path form : PathBuf}

/-- What cannot be simplified has neither `.` nor `..`. -/
theorem cleaned_of_irreducible (absolute : Absolute path)
    (irreducible : ∀ next, ¬ Simplifies path next) : Cleaned path := by
  obtain ⟨rest, rfl, single⟩ := absolute
  suffices names : ∃ names : List (List Char), rest = names.map .normal by
    obtain ⟨names, rfl⟩ := names
    exact ⟨names, .inr rfl⟩
  induction rest using List.reverseRecOn with
  | nil => exact ⟨[], rfl⟩
  | append_singleton front last ih =>
      have earlier : ∀ next, ¬ Simplifies (.rootDir :: front) next := by
        intro next step
        exact irreducible _ (step.append [last])
      obtain ⟨names, rfl⟩ := ih (fun member => single (List.mem_append_left _ member)) earlier
      cases last with
      | rootDir => exact absurd (List.mem_append_right _ List.mem_cons_self) single
      | curDir => exact absurd (.dot (.rootDir :: names.map .normal) []) (irreducible _)
      | normal name => exact ⟨names ++ [name], by simp⟩
      | parentDir =>
          rcases List.eq_nil_or_concat' names with rfl | ⟨before, name, rfl⟩
          · exact absurd (.absorbed []) (irreducible _)
          · have step := Simplifies.up (.rootDir :: before.map .normal) name []
            refine absurd ?_ (irreducible (.rootDir :: before.map .normal))
            simpa using step

theorem irreducible_of_names (names : List (List Char)) (next : PathBuf) :
    ¬ Simplifies (.rootDir :: names.map .normal) next := by
  have plain : ∀ component ∈ Component.rootDir :: names.map .normal,
      component ≠ .curDir ∧ component ≠ .parentDir := by
    intro component member
    rcases List.mem_cons.mp member with rfl | below
    · simp
    · obtain ⟨name, -, rfl⟩ := List.mem_map.mp below
      simp
  intro step
  generalize same : Component.rootDir :: names.map .normal = path at step plain
  cases step with
  | dot front back => exact (plain .curDir (by simp)).1 rfl
  | up front name back => exact (plain .parentDir (by simp)).2 rfl
  | absorbed back => exact (plain .parentDir (by simp)).2 rfl

theorem cleanPath_names (rest : PathBuf) :
    ∃ names : List (List Char), cleanPath (.rootDir :: rest) = .rootDir :: names.map .normal := by
  obtain ⟨names, relative | absolute⟩ := cleaned_cleanPath (.rootDir :: rest)
  · obtain ⟨tail, same⟩ := cleanPath_absolute rest
    rw [relative] at same
    cases names with
    | nil => cases same
    | cons name names => cases same
  · exact ⟨names, absolute⟩

theorem reaches_cleanPath {rest : PathBuf} (single : .rootDir ∉ rest) :
    ReflTransGen Simplifies (.rootDir :: rest) (cleanPath (.rootDir :: rest)) := by
  induction rest using List.reverseRecOn with
  | nil => exact .refl
  | append_singleton front last ih =>
      have before := reaches_append (ih fun member => single (List.mem_append_left _ member)) [last]
      obtain ⟨names, shape⟩ := cleanPath_names front
      have stepped : cleanPath (.rootDir :: (front ++ [last])) =
          cleanStep (.rootDir :: names.map .normal) last := by
        rw [← shape]
        simp [cleanPath]
      rw [shape] at before
      rw [stepped]
      cases last with
      | rootDir => exact absurd (List.mem_append_right _ List.mem_cons_self) single
      | normal name => exact before
      | curDir =>
          have step := Simplifies.dot (.rootDir :: names.map .normal) []
          rw [List.append_nil] at step
          exact before.tail step
      | parentDir =>
          refine before.tail ?_
          rcases List.eq_nil_or_concat' names with rfl | ⟨front, name, rfl⟩
          · exact .absorbed []
          · have popped : cleanStep (.rootDir :: (front ++ [name]).map .normal) .parentDir =
                .rootDir :: front.map .normal := by
              have shown := pop_append_normal (.rootDir :: front.map .normal) name
              simpa [cleanStep] using shown
            rw [popped]
            simpa using Simplifies.up (.rootDir :: front.map .normal) name []

/-- Cleaning computes the normal form. -/
theorem normalForm_cleanPath (absolute : Absolute path) : NormalForm path (cleanPath path) := by
  obtain ⟨rest, rfl, single⟩ := absolute
  refine ⟨reaches_cleanPath single, ?_⟩
  obtain ⟨names, shape⟩ := cleanPath_names rest
  rw [shape]
  exact irreducible_of_names names

/-- There is only one. -/
theorem NormalForm.eq_cleanPath (normal : NormalForm path form) (absolute : Absolute path) :
    form = cleanPath path := by
  have last := reaches_absolute normal.reached absolute
  rw [reaches_cleanPath_eq normal.reached]
  exact (cleaned_of_irreducible last normal.irreducible).cleanPath_eq.symm

theorem cleanPath_idempotent (path : PathBuf) : cleanPath (cleanPath path) = cleanPath path :=
  (cleaned_cleanPath path).cleanPath_eq

end Forms

end NixRedox.UnixPath
