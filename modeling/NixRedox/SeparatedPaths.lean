import Mathlib

set_option autoImplicit false

/- Paths written as flat texts: segments with a separator between them. When no
segment is empty or holds the separator, the text determines the segments, and a
path lies below another exactly when its text continues the other's after a
separator. -/
namespace NixRedox.SeparatedPaths

universe u

variable {α : Type u} (separator : α)

/-- Segments that can be read back from the text. -/
def Proper (segments : List (List α)) : Prop :=
  ∀ segment ∈ segments, segment ≠ [] ∧ separator ∉ segment

def text (segments : List (List α)) : List α := [separator].intercalate segments

@[simp] theorem text_nil : text separator [] = [] := rfl

@[simp] theorem text_singleton (segment : List α) : text separator [segment] = segment :=
  List.intercalate_singleton

theorem text_cons (segment : List α) {rest : List (List α)} (more : rest ≠ []) :
    text separator (segment :: rest) = segment ++ separator :: text separator rest := by
  unfold text
  rw [List.intercalate_cons_of_ne_nil more, List.append_assoc, List.singleton_append]

theorem text_append {front back : List (List α)} (first : front ≠ []) (second : back ≠ []) :
    text separator (front ++ back) = text separator front ++ separator :: text separator back := by
  induction front with
  | nil => exact False.elim (first rfl)
  | cons segment rest ih =>
      by_cases last : rest = []
      · subst last
        rw [List.singleton_append, text_cons separator segment second, text_singleton]
      · have more : rest ++ back ≠ [] := by simp [last]
        rw [List.cons_append, text_cons separator segment more, text_cons separator segment last,
          ih last, List.append_assoc, List.cons_append]

variable {separator}

theorem proper_append {front back : List (List α)} :
    Proper separator (front ++ back) ↔ Proper separator front ∧ Proper separator back := by
  constructor
  · intro proper
    exact ⟨fun segment member => proper segment (by simp [member]),
      fun segment member => proper segment (by simp [member])⟩
  · rintro ⟨first, second⟩ segment member
    rcases List.mem_append.mp member with member | member
    · exact first segment member
    · exact second segment member

theorem proper_singleton {segment : List α} :
    Proper separator [segment] ↔ segment ≠ [] ∧ separator ∉ segment := by
  simp [Proper]

theorem proper_cons {segment : List α} {rest : List (List α)} :
    Proper separator (segment :: rest) ↔
      (segment ≠ [] ∧ separator ∉ segment) ∧ Proper separator rest := by
  rw [← List.singleton_append, proper_append, proper_singleton]

theorem text_eq_nil {segments : List (List α)} (proper : Proper separator segments) :
    text separator segments = [] ↔ segments = [] := by
  constructor
  · intro empty
    cases segments with
    | nil => rfl
    | cons segment rest =>
        by_cases last : rest = []
        · subst last
          exact False.elim ((proper_singleton.mp proper).1 (by simpa using empty))
        · rw [text_cons separator segment last] at empty
          simp at empty
  · rintro rfl
    rfl

/-- A proper text does not start with the separator. -/
theorem head_text {segments : List (List α)} (proper : Proper separator segments) :
    (text separator segments).head? ≠ some separator := by
  cases segments with
  | nil => simp
  | cons segment rest =>
      have own := (proper_cons.mp proper).1
      obtain ⟨letter, body, rfl⟩ := List.exists_cons_of_ne_nil own.1
      have starts : (text separator ((letter :: body) :: rest)).head? = some letter := by
        by_cases alone : rest = []
        · subst alone
          simp
        · rw [text_cons separator _ alone]
          rfl
      rw [starts]
      rintro ⟨⟩
      exact own.2 (by simp)

/-- Nor does it end with it. -/
theorem getLast_text {segments : List (List α)} (proper : Proper separator segments) :
    (text separator segments).getLast? ≠ some separator := by
  rcases List.eq_nil_or_concat' segments with rfl | ⟨front, last, rfl⟩
  · simp
  · have own := proper_singleton.mp (proper_append.mp proper).2
    obtain ⟨body, letter, rfl⟩ := (List.eq_nil_or_concat' last).resolve_left own.1
    have ends : (text separator (front ++ [body ++ [letter]])).getLast? = some letter := by
      by_cases alone : front = []
      · subst alone
        simp
      · rw [text_append separator alone (by simp), text_singleton, ← List.cons_append,
          ← List.append_assoc]
        exact List.getLast?_concat
    rw [ends]
    rintro ⟨⟩
    exact own.2 (by simp)

variable [DecidableEq α]

theorem splitOn_text {segments : List (List α)} (proper : Proper separator segments)
    (nonempty : segments ≠ []) : (text separator segments).splitOn separator = segments :=
  List.splitOn_intercalate separator (fun segment member => (proper segment member).2) nonempty

/-- The text of a path determines its segments. -/
theorem text_inj {one two : List (List α)} (first : Proper separator one)
    (second : Proper separator two) : text separator one = text separator two ↔ one = two := by
  constructor
  · intro same
    by_cases empty : one = []
    · subst empty
      exact ((text_eq_nil second).mp same.symm).symm
    · have other : two ≠ [] := by
        intro none
        rw [none, text_nil, text_eq_nil first] at same
        exact empty same
      rw [← splitOn_text first empty, same, splitOn_text second other]
  · rintro rfl
    rfl

/-- A text that goes on after a separator is the text of a path below. -/
theorem text_continues {base path : List (List α)} {rest : List α} (proper : Proper separator path)
    (root : Proper separator base) (nonempty : base ≠ [])
    (continues : text separator path = text separator base ++ separator :: rest) :
    ∃ below, below ≠ [] ∧ path = base ++ below ∧ rest = text separator below := by
  have some_ : path ≠ [] := by
    rintro rfl
    simp at continues
  have split := splitOn_text proper some_
  rw [continues, List.splitOn_append_cons_self, splitOn_text root nonempty] at split
  refine ⟨rest.splitOn separator, List.splitOn_ne_nil _ _, split.symm, ?_⟩
  exact (List.intercalate_splitOn separator).symm

theorem text_prefix_iff {base path : List (List α)} (proper : Proper separator path)
    (root : Proper separator base) (nonempty : base ≠ []) :
    text separator base ++ [separator] <+: text separator path ↔
      ∃ below, below ≠ [] ∧ path = base ++ below := by
  constructor
  · rintro ⟨rest, continues⟩
    rw [List.append_assoc, List.singleton_append] at continues
    obtain ⟨below, some_, same, -⟩ := text_continues proper root nonempty continues.symm
    exact ⟨below, some_, same⟩
  · rintro ⟨below, some_, rfl⟩
    rw [text_append separator nonempty some_]
    exact ⟨text separator below, by simp⟩

/-- The first segment of a text is what stands before the first separator. -/
theorem takeWhile_text {segment : List α} (rest : List (List α)) (free : separator ∉ segment) :
    (text separator (segment :: rest)).takeWhile (· ≠ separator) = segment := by
  have passes : ∀ letter ∈ segment, decide (letter ≠ separator) = true := by
    intro letter member
    simpa using fun same : letter = separator => free (same ▸ member)
  by_cases last : rest = []
  · subst last
    rw [text_singleton, List.takeWhile_eq_self_iff.mpr passes]
  · rw [text_cons separator segment last, List.takeWhile_append_of_pos passes]
    simp

theorem dropWhile_text {segment : List α} (rest : List (List α)) (free : separator ∉ segment) :
    (text separator (segment :: rest)).dropWhile (· ≠ separator) =
      if rest = [] then [] else separator :: text separator rest := by
  have passes : ∀ letter ∈ segment, decide (letter ≠ separator) = true := by
    intro letter member
    simpa using fun same : letter = separator => free (same ▸ member)
  by_cases last : rest = []
  · subst last
    simp only [text_singleton, ↓reduceIte]
    exact List.dropWhile_eq_nil_iff.mpr passes
  · rw [text_cons separator segment last, List.dropWhile_append_of_pos passes]
    simp [last]

end NixRedox.SeparatedPaths
