import NixRedox.KeyedMap

set_option autoImplicit false

/- Maps to lists: all elements that are somewhere in such a map. Nothing here knows what they
are. -/
namespace NixRedox.KeyedLists

variable {α β : Type} [DecidableEq α]

/-- What is listed under a key. -/
def under (map : AList fun _ : α => List β) (key : α) : List β := (map.lookup key).getD []

def listed (map : AList fun _ : α => List β) : List β := map.entries.flatMap Sigma.snd

variable {map : AList fun _ : α => List β}

/-- What is under a key, and what is left without the key. -/
theorem listed_perm (map : AList fun _ : α => List β) (key : α) :
    (listed map).Perm (under map key ++ listed (map.erase key)) := by
  unfold listed under AList.lookup AList.erase
  obtain ⟨entries, nodup⟩ := map
  dsimp only
  clear nodup
  induction entries with
  | nil => exact List.Perm.refl _
  | cons entry entries ih =>
      obtain ⟨name, elements⟩ := entry
      by_cases here : key = name
      · subst here
        have behind : List.kerase key (⟨key, elements⟩ :: entries) = entries :=
          List.kerase_cons_eq rfl
        rw [List.dlookup_cons_eq, behind, List.flatMap_cons, Option.getD_some]
      · rw [List.dlookup_cons_ne _ _ here, List.kerase_cons_ne here, List.flatMap_cons,
          List.flatMap_cons]
        have behind := ih.append_left elements
        refine behind.trans ?_
        rw [← List.append_assoc, ← List.append_assoc]
        exact List.perm_append_comm.append_right _

theorem listed_insert (map : AList fun _ : α => List β) (key : α) (elements : List β) :
    listed (map.insert key elements) = elements ++ listed (map.erase key) := by
  unfold listed
  rw [AList.entries_insert, List.flatMap_cons]
  rfl

theorem under_erase {key other : α} (different : other ≠ key) :
    under (map.erase key) other = under map other := by
  unfold under
  rw [AList.lookup_erase_ne different]

/-- One element more under a key. -/
theorem listed_insert_append (map : AList fun _ : α => List β) (key : α) (element : β) :
    (listed (map.insert key (under map key ++ [element]))).Perm (element :: listed map) := by
  rw [listed_insert, List.append_assoc, List.singleton_append]
  have moved : (under map key ++ element :: listed (map.erase key)).Perm
      (element :: (under map key ++ listed (map.erase key))) := List.perm_middle
  exact moved.trans ((listed_perm map key).symm.cons element)

/-- Keys are taken out one after the other, with what is under them. -/
theorem listed_foldl_erase {keys : List α} (distinct : keys.Nodup) :
    (listed map).Perm (keys.flatMap (under map) ++
      listed (keys.foldl (fun map key => map.erase key) map)) := by
  induction keys generalizing map with
  | nil => exact List.Perm.refl _
  | cons key keys ih =>
      obtain ⟨fresh, distinct⟩ := List.nodup_cons.mp distinct
      have same : keys.flatMap (under (map.erase key)) = keys.flatMap (under map) := by
        apply List.flatMap_congr
        intro other member
        exact under_erase fun same => fresh (same ▸ member)
      have rest := @ih (map.erase key) distinct
      rw [same] at rest
      rw [List.flatMap_cons, List.append_assoc, List.foldl_cons]
      exact (listed_perm map key).trans (rest.append_left _)

theorem mem_foldl_erase {keys : List α} {key : α} :
    key ∈ keys.foldl (fun map key => map.erase key) map ↔ key ∉ keys ∧ key ∈ map := by
  rw [← AList.lookup_isSome, KeyedMap.lookup_foldl_erase, ← AList.lookup_isSome]
  split
  · rename_i inside
    simp [inside]
  · rename_i outside
    simp [outside]

end NixRedox.KeyedLists
