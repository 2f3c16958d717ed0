import Mathlib

set_option autoImplicit false

/- Computations that may fail with an error: when they succeed. Nothing here knows what is
computed. -/
namespace NixRedox.Attempts

variable {ε α β : Type}

theorem bind_eq_ok {first : Except ε α} {next : α → Except ε β} {result : β} :
    first >>= next = .ok result ↔ ∃ value, first = .ok value ∧ next value = .ok result := by
  cases first with
  | ok value => simp [bind, Except.bind]
  | error e => simp [bind, Except.bind]

theorem map_eq_ok {first : Except ε α} {make : α → β} {result : β} :
    first.map make = .ok result ↔ ∃ value, first = .ok value ∧ make value = result := by
  cases first with
  | ok value => simp [Except.map]
  | error e => simp [Except.map]

theorem mapM_eq_ok {f : α → Except ε β} {values : List α} {results : List β} :
    values.mapM f = .ok results ↔
      List.Forall₂ (fun value result => f value = .ok result) values results := by
  induction values generalizing results with
  | nil =>
      rw [List.mapM_nil, List.forall₂_nil_left_iff]
      constructor
      · intro same
        cases same
        rfl
      · rintro rfl
        rfl
  | cons value rest ih =>
      rw [List.mapM_cons, bind_eq_ok, List.forall₂_cons_left_iff]
      constructor
      · rintro ⟨first, made, later⟩
        obtain ⟨others, all, same⟩ := bind_eq_ok.mp later
        cases same
        exact ⟨first, others, made, ih.mp all, rfl⟩
      · rintro ⟨first, others, made, all, rfl⟩
        exact ⟨first, made, bind_eq_ok.mpr ⟨others, ih.mpr all, rfl⟩⟩

/-- All succeed or one fails. -/
theorem mapM_cases (f : α → Except ε β) (values : List α) :
    (∃ results, values.mapM f = .ok results) ∨
      ∃ value ∈ values, ∃ e, f value = .error e ∧ values.mapM f = .error e := by
  induction values with
  | nil => exact .inl ⟨[], rfl⟩
  | cons value rest ih =>
      rw [List.mapM_cons]
      cases made : f value with
      | error e => exact .inr ⟨value, List.mem_cons_self, e, made, rfl⟩
      | ok first =>
          rcases ih with ⟨others, all⟩ | ⟨other, inside, e, failed, all⟩
          · rw [all]
            exact .inl ⟨first :: others, rfl⟩
          · rw [all]
            exact .inr ⟨other, List.mem_cons_of_mem _ inside, e, failed, rfl⟩

theorem mapM_succeeds {f : α → Except ε β} {values : List α} :
    (∃ results, values.mapM f = .ok results) ↔
      ∀ value ∈ values, ∃ result, f value = .ok result := by
  constructor
  · rintro ⟨results, all⟩ value inside
    obtain ⟨index, below, rfl⟩ := List.getElem_of_mem inside
    have paired := mapM_eq_ok.mp all
    exact ⟨_, paired.get below (paired.length_eq ▸ below)⟩
  · intro each
    rcases mapM_cases f values with all | ⟨value, inside, e, failed, _⟩
    · exact all
    · obtain ⟨result, made⟩ := each value inside
      rw [failed] at made
      cases made

section Options

theorem mapM_cons_eq_some {f : α → Option β} {first : α} {rest : List α}
    {results : List β} :
    (first :: rest).mapM f = some results ↔
      ∃ result others, f first = some result ∧ rest.mapM f = some others ∧
        results = result :: others := by
  rw [List.mapM_cons]
  cases f first with
  | none => simp
  | some result =>
      cases rest.mapM f with
      | none => simp
      | some others => simp [eq_comm]

theorem mapM_eq_some {f : α → Option β} {values : List α} {results : List β} :
    values.mapM f = some results ↔
      List.Forall₂ (fun value result => f value = some result) values results := by
  induction values generalizing results with
  | nil =>
      rw [List.mapM_nil, List.forall₂_nil_left_iff]
      simp [eq_comm]
  | cons value rest ih =>
      rw [mapM_cons_eq_some, List.forall₂_cons_left_iff]
      constructor
      · rintro ⟨first, others, made, all, rfl⟩
        exact ⟨first, others, made, ih.mp all, rfl⟩
      · rintro ⟨first, others, made, all, rfl⟩
        exact ⟨first, others, made, ih.mpr all, rfl⟩

end Options

section Pairs

variable {relation : α → β → Prop} {values : List α} {results : List β}

theorem exists_right (paired : List.Forall₂ relation values results) {value : α}
    (inside : value ∈ values) : ∃ result ∈ results, relation value result := by
  induction paired with
  | nil => cases inside
  | cons first _ ih =>
      rcases List.mem_cons.mp inside with rfl | later
      · exact ⟨_, List.mem_cons_self, first⟩
      · obtain ⟨result, there, related⟩ := ih later
        exact ⟨result, List.mem_cons_of_mem _ there, related⟩

theorem exists_left (paired : List.Forall₂ relation values results) {result : β}
    (inside : result ∈ results) : ∃ value ∈ values, relation value result :=
  exists_right paired.flip inside

end Pairs

end NixRedox.Attempts
