import Mathlib

set_option autoImplicit false

/- Finite maps as association lists: mapping and filtering the values, and equality as
maps. Nothing here knows what keys and values are. -/
namespace NixRedox.KeyedMap

variable {α β γ : Type} [DecidableEq α]

/-- The values of a map, one by one, with their keys. -/
def mapValues (change : α → β → γ) (map : AList fun _ : α => β) : AList fun _ : α => γ where
  entries := map.entries.map fun entry => ⟨entry.1, change entry.1 entry.2⟩
  nodupKeys := by
    rw [List.NodupKeys, List.keys, List.map_map]
    exact map.nodupKeys

/-- `BTreeMap::retain`. -/
def retain (keep : α → β → Bool) (map : AList fun _ : α => β) : AList fun _ : α => β where
  entries := map.entries.filter fun entry => keep entry.1 entry.2
  nodupKeys := map.nodupKeys.sublist List.filter_sublist

@[simp] theorem lookup_mapValues (change : α → β → γ) (map : AList fun _ : α => β) (key : α) :
    (mapValues change map).lookup key = (map.lookup key).map (change key) := by
  apply Option.ext
  intro value
  rw [Option.map_eq_some_iff, ← Option.mem_def, AList.mem_lookup_iff]
  simp only [mapValues, List.mem_map]
  constructor
  · rintro ⟨⟨other, found⟩, member, same⟩
    cases same
    exact ⟨found, AList.mem_lookup_iff.mpr member, rfl⟩
  · rintro ⟨found, present, rfl⟩
    exact ⟨⟨key, found⟩, AList.mem_lookup_iff.mp present, rfl⟩

@[simp] theorem lookup_retain (keep : α → β → Bool) (map : AList fun _ : α => β) (key : α) :
    (retain keep map).lookup key = (map.lookup key).filter (keep key) := by
  apply Option.ext
  intro value
  rw [Option.filter_eq_some_iff, ← Option.mem_def, AList.mem_lookup_iff]
  simp only [retain, List.mem_filter]
  rw [← AList.mem_lookup_iff, Option.mem_def]

theorem lookup_foldl_insert (value : α → β) (keys : List α) (map : AList fun _ : α => β) (key : α) :
    (keys.foldl (fun map key => map.insert key (value key)) map).lookup key =
      if key ∈ keys then some (value key) else map.lookup key := by
  induction keys generalizing map with
  | nil => rfl
  | cons first rest ih =>
      rw [List.foldl_cons, ih]
      by_cases later : key ∈ rest
      · simp [later]
      · by_cases same : key = first
        · subst same
          simp [later]
        · simp [later, same, AList.lookup_insert_ne same]

theorem lookup_foldl_erase (keys : List α) (map : AList fun _ : α => β) (key : α) :
    (keys.foldl (fun map key => map.erase key) map).lookup key =
      if key ∈ keys then none else map.lookup key := by
  induction keys generalizing map with
  | nil => rfl
  | cons first rest ih =>
      rw [List.foldl_cons, ih]
      by_cases later : key ∈ rest
      · simp [later]
      · by_cases same : key = first
        · subst same
          simp [later]
        · simp [later, same, AList.lookup_erase_ne same]

theorem lookup_of_mem {entries : List (α × β)} {name : α} {value : β}
    (distinct : (entries.map Prod.fst).Nodup) (member : (name, value) ∈ entries) :
    entries.lookup name = some value := by
  induction entries with
  | nil => cases member
  | cons entry rest ih =>
      obtain ⟨key, first⟩ := entry
      rw [List.map_cons, List.nodup_cons] at distinct
      rcases List.mem_cons.mp member with same | later
      · cases same
        exact List.lookup_cons_self
      · have differ : name ≠ key := by
          intro same
          apply distinct.1
          rw [← same, List.mem_map]
          exact ⟨(name, value), later, rfl⟩
        have unequal : (name == key) = false := beq_false_of_ne differ
        rw [List.lookup_cons, unequal]
        exact ih distinct.2 later

theorem mem_of_lookup {entries : List (α × β)} {name : α} {value : β}
    (found : entries.lookup name = some value) : (name, value) ∈ entries := by
  obtain ⟨before, after, same, -⟩ := List.lookup_eq_some_iff.mp found
  rw [same]
  simp

theorem lookup_none {entries : List (α × β)} {name : α} (absent : name ∉ entries.map Prod.fst) :
    entries.lookup name = none := by
  apply List.lookup_eq_none_iff.mpr
  intro entry inside
  apply bne_iff_ne.mpr
  rintro rfl
  exact absent (List.mem_map_of_mem inside)

/-- Equality of `BTreeMap`s. -/
def SameMap (one two : AList fun _ : α => β) : Prop := ∀ key, one.lookup key = two.lookup key

theorem SameMap.refl (map : AList fun _ : α => β) : SameMap map map := fun _ => rfl

theorem sameMap_iff {one two : AList fun _ : α => β} :
    SameMap one two ↔ ∀ key ∈ one.keys ++ two.keys, one.lookup key = two.lookup key := by
  constructor
  · intro same key _
    exact same key
  · intro same key
    by_cases member : key ∈ one.keys ++ two.keys
    · exact same key member
    · rw [List.mem_append, not_or] at member
      rw [AList.lookup_eq_none.mpr (fun inside => member.1 (AList.mem_keys.mp inside)),
        AList.lookup_eq_none.mpr (fun inside => member.2 (AList.mem_keys.mp inside))]

instance [DecidableEq β] (one two : AList fun _ : α => β) : Decidable (SameMap one two) :=
  decidable_of_iff _ sameMap_iff.symm

end NixRedox.KeyedMap
