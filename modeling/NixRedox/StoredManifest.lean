import NixRedox.Getdents
import NixRedox.ManifestTree

set_option autoImplicit false

/- The store daemon's view of a store path (`stored/mod.rs`): four scans of the flat
manifest, and the tree they stand for. -/
namespace NixRedox.Stored

open Manifest (ManifestDirEntry entryOf listFromManifest manifestOf mem_manifestOf
  mem_manifestOf_path pathText tree_below tree_proper)
open Nar (FsNode ManifestEntry NarEntries NarNode RelPath fileMode)
open Redox (Table)
open SeparatedPaths (Proper)

namespace StoreDaemon

/-- Some entry of the manifest lies below the path. -/
def hasEntriesBelow (manifest : List ManifestEntry) (subpath : List Char) : Bool :=
  manifest.any fun entry => (subpath ++ ['/']).isPrefixOf entry.path

def manifestContainsPath (daemon : StoreDaemon) (storePathName subpath : List Char) :
    Option Bool :=
  (daemon.manifests.lookup storePathName).map fun manifest =>
    let subpath := Text.trimMatches subpath
    if subpath = [] then true
    else if manifest.any (·.path = subpath) then true
    else hasEntriesBelow manifest subpath

/-- Without a manifest everything is taken for a directory. -/
def isDirectoryInManifest (daemon : StoreDaemon) (storePathName subpath : List Char) : Bool :=
  match daemon.manifests.lookup storePathName with
  | none => true
  | some manifest =>
      let subpath := Text.trimMatches subpath
      manifest.any (fun entry => entry.path = subpath ∧ entry.entryType = .dir) ||
        hasEntriesBelow manifest subpath

def fileMetadataFromManifest (daemon : StoreDaemon) (storePathName subpath : List Char) :
    Nat × Bool :=
  match daemon.manifests.lookup storePathName with
  | none => (0, false)
  | some manifest =>
      let subpath := Text.trimMatches subpath
      match manifest.find? (·.path = subpath) with
      | some entry => (entry.size, entry.executable)
      | none => (0, false)

end StoreDaemon

/-- How a directory lists a node of the tree. -/
def listedAs (name : List Char) : FsNode → ManifestDirEntry
  | .dir => ⟨name, true, false, 0, false⟩
  | .file content mode => ⟨name, false, false, content.length, mode = fileMode true⟩
  | .symlink _ => ⟨name, false, true, 0, false⟩

/-- The four scans tell what is in the tree: which paths there are, which of them are
directories, the metadata of the files, and the children of every directory in
order. -/
structure Faithful (daemon : StoreDaemon) (storePathName : List Char) (tree : Nar.Fs) : Prop where
  contains : ∀ path, Proper '/' path → path ≠ [] →
    (daemon.manifestContainsPath storePathName (pathText path) = some true ↔ tree path ≠ none)
  directories : ∀ path, Proper '/' path → path ≠ [] →
    (daemon.isDirectoryInManifest storePathName (pathText path) = true ↔ tree path = some .dir)
  metadata : ∀ path content mode, tree path = some (.file content mode) →
    daemon.fileMetadataFromManifest storePathName (pathText path) =
      (content.length, decide (mode = fileMode true))
  children : ∀ directory, tree directory = some .dir →
    ∃ listing, listFromManifest daemon.manifests storePathName (pathText directory) =
        some listing ∧
      listing.Pairwise (·.name < ·.name) ∧
      ∀ entry, entry ∈ listing ↔
        ∃ name found, tree (directory ++ [name]) = some found ∧ entry = listedAs name found

section Scans

variable {node : NarNode} (wellFormed : node.WellFormed) (complete : node.complete = true)
include wellFormed complete

theorem hasEntriesBelow_iff {path : RelPath} (proper : Proper '/' path) (nonempty : path ≠ []) :
    StoreDaemon.hasEntriesBelow (manifestOf node) (pathText path) = true ↔
      ∃ below found, below ≠ [] ∧ node.tree (path ++ below) = some found := by
  simp only [StoreDaemon.hasEntriesBelow, List.any_eq_true, List.isPrefixOf_iff_prefix,
    mem_manifestOf wellFormed complete]
  constructor
  · rintro ⟨entry, ⟨other, found, present, -, rfl⟩, front⟩
    rw [Manifest.entryOf_path, SeparatedPaths.text_prefix_iff
      (tree_proper wellFormed complete present) proper nonempty] at front
    obtain ⟨below, some_, rfl⟩ := front
    exact ⟨below, found, some_, present⟩
  · rintro ⟨below, found, some_, present⟩
    refine ⟨entryOf (path ++ below) found, ⟨path ++ below, found, present, ?_, rfl⟩, ?_⟩
    · intro empty
      exact False.elim (nonempty (List.append_eq_nil_iff.mp empty).1)
    · rw [Manifest.entryOf_path, SeparatedPaths.text_prefix_iff
        (tree_proper wellFormed complete present) proper nonempty]
      exact ⟨below, some_, rfl⟩

variable {daemon : StoreDaemon} {storePathName : List Char}
  (installed : daemon.manifests.lookup storePathName = some (manifestOf node))
include installed

theorem manifestContainsPath_iff {path : RelPath} (proper : Proper '/' path)
    (nonempty : path ≠ []) :
    daemon.manifestContainsPath storePathName (pathText path) = some true ↔
      node.tree path ≠ none := by
  have named : pathText path ≠ [] := by
    rw [ne_eq, SeparatedPaths.text_eq_nil proper]
    exact nonempty
  simp only [StoreDaemon.manifestContainsPath, installed, Option.map_some, Option.some.injEq,
    Manifest.trimMatches_pathText proper, named, ↓reduceIte]
  constructor
  · intro found
    split at found
    · rename_i exact_
      obtain ⟨entry, member, same⟩ := List.any_eq_true.mp exact_
      obtain ⟨there, present, -⟩ := (mem_manifestOf_path wellFormed complete proper).mp
        ⟨member, of_decide_eq_true same⟩
      simp [present]
    · obtain ⟨below, there, some_, present⟩ :=
        (hasEntriesBelow_iff wellFormed complete proper nonempty).mp found
      simp [tree_below some_ present]
  · intro exists_
    obtain ⟨found, present⟩ := Option.ne_none_iff_exists'.mp exists_
    obtain ⟨member, same⟩ := (mem_manifestOf_path wellFormed complete proper).mpr
      ⟨found, present, fun empty => False.elim (nonempty empty), rfl⟩
    have exact_ : (manifestOf node).any (·.path = pathText path) = true :=
      List.any_eq_true.mpr ⟨_, member, decide_eq_true same⟩
    rw [if_pos exact_]

theorem isDirectoryInManifest_iff {path : RelPath} (proper : Proper '/' path)
    (nonempty : path ≠ []) :
    daemon.isDirectoryInManifest storePathName (pathText path) = true ↔
      node.tree path = some .dir := by
  simp only [StoreDaemon.isDirectoryInManifest, installed, Bool.or_eq_true,
    Manifest.trimMatches_pathText proper]
  constructor
  · rintro (own | below)
    · obtain ⟨entry, member, matching⟩ := List.any_eq_true.mp own
      obtain ⟨same, kind⟩ := of_decide_eq_true matching
      obtain ⟨found, present, -, rfl⟩ := (mem_manifestOf_path wellFormed complete proper).mp
        ⟨member, same⟩
      cases found with
      | dir => exact present
      | file content mode => cases kind
      | symlink target => cases kind
    · obtain ⟨rest, found, some_, present⟩ :=
        (hasEntriesBelow_iff wellFormed complete proper nonempty).mp below
      exact tree_below some_ present
  · intro present
    obtain ⟨member, same⟩ := (mem_manifestOf_path wellFormed complete proper).mpr
      ⟨.dir, present, fun empty => False.elim (nonempty empty), rfl⟩
    exact Or.inl (List.any_eq_true.mpr ⟨_, member, decide_eq_true ⟨same, rfl⟩⟩)

theorem fileMetadataFromManifest_eq {path : RelPath} {content : List UInt8} {mode : Nat}
    (present : node.tree path = some (.file content mode)) :
    daemon.fileMetadataFromManifest storePathName (pathText path) =
      (content.length, decide (mode = fileMode true)) := by
  have proper := tree_proper wellFormed complete present
  obtain ⟨member, same⟩ := (mem_manifestOf_path wellFormed complete proper).mpr
    ⟨.file content mode, present, fun _ => nofun, rfl⟩
  simp only [StoreDaemon.fileMetadataFromManifest, installed,
    Manifest.trimMatches_pathText proper]
  cases search : (manifestOf node).find? (·.path = pathText path) with
  | none =>
      have missed := List.find?_eq_none.mp search _ member
      simp at missed
  | some entry =>
      obtain ⟨found, there, -, rfl⟩ := (mem_manifestOf_path wellFormed complete proper).mp
        ⟨List.mem_of_find?_eq_some search, by simpa using List.find?_some search⟩
      cases present.symm.trans there
      rfl

theorem listFromManifest_children {directory : RelPath} (proper : Proper '/' directory) :
    ∃ listing, listFromManifest daemon.manifests storePathName (pathText directory) =
        some listing ∧
      listing.Pairwise (·.name < ·.name) ∧
      ∀ entry, entry ∈ listing ↔
        ∃ name found, node.tree (directory ++ [name]) = some found ∧
          entry = listedAs name found := by
  simp only [listFromManifest, installed, Option.map_some, Option.some.injEq, exists_eq_left']
  generalize gathered : Manifest.addChildren _ _ _ _ _ = seen
  have lookups : ∀ name, seen.lookup name =
      (node.tree (directory ++ [name])).map (listedAs name) := by
    intro name
    rw [← gathered, Manifest.lookup_addChildren_tree _ _ wellFormed complete proper]
    cases node.tree (directory ++ [name]) with
    | none => rfl
    | some found => cases found <;> rfl
  have named : ∀ key value, seen.lookup key = some value → value.name = key := by
    intro key value present
    rw [lookups] at present
    obtain ⟨found, -, rfl⟩ := Option.map_eq_some_iff.mp present
    cases found <;> rfl
  have ordered := Table.sortedValues_pairwise named
  have sorted : seen.sortedValues.insertionSort (fun one two => one.name ≤ two.name) =
      seen.sortedValues := List.Pairwise.insertionSort_eq (ordered.imp fun less => less.le)
  rw [sorted]
  refine ⟨ordered, ?_⟩
  intro entry
  rw [Table.mem_sortedValues]
  constructor
  · rintro ⟨key, present⟩
    rw [lookups] at present
    obtain ⟨found, there, rfl⟩ := Option.map_eq_some_iff.mp present
    exact ⟨key, found, there, rfl⟩
  · rintro ⟨name, found, there, rfl⟩
    exact ⟨name, by rw [lookups, there]; rfl⟩

end Scans

/-- The daemon's view of an extracted directory is the directory's tree. -/
theorem manifest_faithful (entries : NarEntries) (wellFormed : entries.WellFormed)
    (complete : entries.complete = true) (daemon : StoreDaemon) (storePathName : List Char)
    (installed : daemon.manifests.lookup storePathName =
      some (manifestOf (.directory entries))) :
    Faithful daemon storePathName (NarNode.directory entries).tree := by
  have formed : (NarNode.directory entries).WellFormed := wellFormed
  have whole : (NarNode.directory entries).complete = true := complete
  constructor
  · intro path proper nonempty
    exact manifestContainsPath_iff formed whole installed proper nonempty
  · intro path proper nonempty
    exact isDirectoryInManifest_iff formed whole installed proper nonempty
  · intro path content mode present
    exact fileMetadataFromManifest_eq formed whole installed present
  · intro directory present
    exact listFromManifest_children formed whole installed (tree_proper formed whole present)

/-- A directory `bin` with a program, beside a file whose name starts the same. -/
def binTree : NarEntries :=
  .entry (some "bin".toList)
    (.directory (.entry (some "rg".toList) (.file true [[1, 2], [3]] true) .done))
    (.entry (some "bin.old".toList) (.file false [] true) .done)

theorem manifest_faithful_bin :
    Faithful
      { handles := ∅
        registeredPaths := ∅
        manifests := AList.singleton "abc-rg".toList (manifestOf (.directory binTree)) }
      "abc-rg".toList (NarNode.directory binTree).tree :=
  manifest_faithful binTree
    (by simp [binTree, NarEntries.WellFormed, NarNode.WellFormed, NarEntries.names]) (by decide)
    _ _ rfl

end NixRedox.Stored
