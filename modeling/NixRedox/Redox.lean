import Mathlib
import NixRedox.Paging
import NixRedox.Text

set_option autoImplicit false

/- What the Redox scheme interface gives its daemons: error codes and directory
entries, and the ordered tables they keep. -/
namespace NixRedox.Redox

inductive Errno where
  | eacces
  | ebadf
  | eio
  | eisdir
  | enoent
  | enotdir
  | eopnotsupp
  | other (code : Nat)
  deriving DecidableEq, Repr

inductive DirentKind where
  | unspecified
  | charDev
  | directory
  | blockDev
  | regular
  | symlink
  | socket
  deriving DecidableEq, Repr

abbrev Dirent := List Char × DirentKind

/-- The reply buffer of `redox_syscall`, as far as the listings rely on it. -/
abbrev DirentBuf := Paging.ReplyBuffer Dirent

/-- Such a buffer: a record is a packed header of 19 bytes, the name and a NUL, rounded up to
eight bytes, and the buffer is taken away before a record is split off. -/
def syscallBuf : DirentBuf where
  size := fun entry => (19 + Text.byteLength entry.1 + 1 + 7) / 8 * 8
  sized := by
    intro entry
    omega
  refused := fun _ _ => 0

/-- A `BTreeMap` with text keys. -/
abbrev Table (β : Type) := AList fun _ : List Char => β

namespace Table

variable {β : Type}

/-- Iteration is in the order of the keys. -/
def sorted (table : Table β) : List ((_ : List Char) × β) :=
  table.entries.insertionSort fun one two => one.1 ≤ two.1

def sortedKeys (table : Table β) : List (List Char) := table.sorted.map Sigma.fst

def sortedValues (table : Table β) : List β := table.sorted.map Sigma.snd

/-- `entry(key).or_insert(value)`. -/
def orInsert (table : Table β) (key : List Char) (value : β) : Table β :=
  if key ∈ table then table else table.insert key value

theorem lookup_orInsert (table : Table β) (key other : List Char) (value : β) :
    (orInsert table key value).lookup other =
      if other = key then some ((table.lookup key).getD value) else table.lookup other := by
  unfold orInsert
  by_cases same : other = key
  · subst same
    split
    · rename_i present
      obtain ⟨found, lookup⟩ := Option.isSome_iff_exists.mp (AList.lookup_isSome.mpr present)
      simp [lookup]
    · rename_i absent
      simp [AList.lookup_eq_none.mpr absent]
  · rw [if_neg same]
    split
    · rfl
    · exact AList.lookup_insert_ne same

theorem mem_sorted {table : Table β} {entry : (_ : List Char) × β} :
    entry ∈ table.sorted ↔ table.lookup entry.1 = some entry.2 := by
  rw [sorted, (List.perm_insertionSort _ _).mem_iff]
  exact AList.mem_lookup_iff.symm

theorem mem_sortedValues {table : Table β} {value : β} :
    value ∈ table.sortedValues ↔ ∃ key, table.lookup key = some value := by
  simp only [sortedValues, List.mem_map, mem_sorted]
  constructor
  · rintro ⟨entry, present, rfl⟩
    exact ⟨entry.1, present⟩
  · rintro ⟨key, present⟩
    exact ⟨⟨key, value⟩, present, rfl⟩

theorem sorted_pairwise (table : Table β) :
    table.sorted.Pairwise fun one two => one.1 < two.1 := by
  have ordered : table.sorted.Pairwise fun one two => one.1 ≤ two.1 :=
    List.pairwise_insertionSort _ _
  have keys : (table.sorted.map Sigma.fst).Nodup :=
    ((List.perm_insertionSort _ table.entries).map Sigma.fst).nodup_iff.mpr table.nodupKeys
  have distinct : table.sorted.Pairwise fun one two => one.1 ≠ two.1 :=
    List.pairwise_map.mp keys
  exact (ordered.and distinct).imp fun both => lt_of_le_of_ne both.1 both.2

/-- When every value carries its key as its name, the values come in the order of
their names. -/
theorem sortedValues_pairwise {table : Table β} {name : β → List Char}
    (named : ∀ key value, table.lookup key = some value → name value = key) :
    table.sortedValues.Pairwise fun one two => name one < name two := by
  rw [sortedValues, List.pairwise_map]
  refine (sorted_pairwise table).imp_of_mem ?_
  intro one two first second less
  rw [named one.1 one.2 (mem_sorted.mp first), named two.1 two.2 (mem_sorted.mp second)]
  exact less

/-- Iteration only depends on what is in the table. -/
theorem sorted_congr {one two : Table β} (same : ∀ key, one.lookup key = two.lookup key) :
    one.sorted = two.sorted := by
  have perm : one.sorted.Perm two.sorted := by
    refine (List.perm_insertionSort _ _).trans (List.Perm.trans ?_ (List.perm_insertionSort _ _).symm)
    apply List.lookup_ext one.nodupKeys two.nodupKeys
    intro key value
    have lookups : one.entries.dlookup key = two.entries.dlookup key := same key
    rw [lookups]
  apply perm.eq_of_pairwise _ (sorted_pairwise one) (sorted_pairwise two)
  intro first second _ _ less greater
  exact False.elim (lt_asymm less greater)

theorem sortedValues_congr {one two : Table β} (same : ∀ key, one.lookup key = two.lookup key) :
    one.sortedValues = two.sortedValues := by
  rw [sortedValues, sortedValues, sorted_congr same]

end Table

/-- A `BTreeSet` of texts built from a list. -/
def sortedSet (names : List (List Char)) : List (List Char) :=
  names.dedup.insertionSort (· ≤ ·)

end NixRedox.Redox
