import Mathlib

set_option autoImplicit false

/- Counting in sorted lists and in lists without repetition. -/
namespace NixRedox

section Counting

variable {α β : Type}

/-- The front of a sorted list holds the copies of an element that start early enough. -/
theorem count_take_of_sorted [DecidableEq α] [LE α] [LT α] [DecidableLT α]
    [Std.IsLinearOrder α] [Std.LawfulOrderLT α] {list : List α} (sorted : list.Pairwise (· ≤ ·))
    (kept : Nat) (x : α) :
    (list.take kept).count x = min (list.count x) (kept - list.countP (· < x)) := by
  induction list generalizing kept with
  | nil => simp
  | cons first rest ih =>
      obtain ⟨least, restSorted⟩ := List.pairwise_cons.mp sorted
      cases kept with
      | zero => simp
      | succ kept =>
          have tail := ih restSorted kept
          rw [List.take_succ_cons, List.count_cons, List.count_cons, List.countP_cons, tail]
          by_cases below : first < x
          · have other : (first == x) = false := by grind
            simp only [other, below, decide_true, ↓reduceIte, Bool.false_eq_true]
            omega
          · have none : rest.countP (· < x) = 0 := by
              rw [List.countP_eq_zero]
              intro y member
              have above := least y member
              grind
            simp only [below, decide_false, ↓reduceIte, Bool.false_eq_true, none]
            by_cases same : first = x
            · simp only [same, BEq.rfl, ↓reduceIte]
              omega
            · have absent : rest.count x = 0 := by
                rw [List.count_eq_zero]
                intro member
                have above := least x member
                grind
              have other : (first == x) = false := by grind
              simp only [absent, other, Bool.false_eq_true, ↓reduceIte]
              omega

/-- A value comes up once at most if it comes from one element at most. -/
theorem count_filterMap_le_one_iff [DecidableEq β] (f : α → Option β) {list : List α}
    (distinct : list.Nodup) (value : β) :
    (list.filterMap f).count value ≤ 1 ↔
      ∀ x ∈ list, ∀ y ∈ list, f x = some value → f y = some value → x = y := by
  induction list with
  | nil => simp
  | cons first rest ih =>
      obtain ⟨fresh, restDistinct⟩ := List.nodup_cons.mp distinct
      have none : (rest.filterMap f).count value = 0 ↔ ∀ y ∈ rest, f y ≠ some value := by
        rw [List.count_eq_zero, List.mem_filterMap]
        grind
      by_cases hit : f first = some value
      · rw [List.filterMap_cons_some hit, List.count_cons_self]
        grind
      · have skipped : ((first :: rest).filterMap f).count value =
            (rest.filterMap f).count value := by
          cases value? : f first with
          | none => rw [List.filterMap_cons_none value?]
          | some other =>
              have apart : other ≠ value := by
                intro same
                exact hit (same ▸ value?)
              rw [List.filterMap_cons_some value?, List.count_cons_of_ne apart]
        rw [skipped, ih restDistinct]
        grind

end Counting

end NixRedox
