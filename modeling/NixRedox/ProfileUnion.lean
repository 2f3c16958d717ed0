import NixRedox.FileWays
import NixRedox.ManifestTree

set_option autoImplicit false

/- The union listing of a profile (`profiled/mapping.rs`) in its two versions: over the
extracted trees on disk, and over the manifests recorded when they were extracted. -/
namespace NixRedox.Manifest

open Nar (FsNode ManifestEntry NarNode RelPath)
open Redox (Table)
open SeparatedPaths (Proper)

/-- The node an extraction leaves on disk. -/
def diskNode : FsNode → Node
  | .dir => .dir
  | .file content mode => .file ⟨content.toArray⟩ mode
  | .symlink target => .symlink target

/-- A directory entry as the union shows it. -/
def unionEntry (package : ProfileEntry) (name : List Char) (node : Node) : UnionEntry :=
  { name
    isDir := node = .dir
    isSymlink := match node with
      | .symlink _ => true
      | _ => false
    fromPackage := package.name }

/-- What one package contributes to the union: the entries of its directory, if the
path leads to one. -/
def addDirectory (disk : FileTree) (subpath : List Char) (seen : Table UnionEntry)
    (package : ProfileEntry) : Table UnionEntry :=
  match disk.followPath (UnixPath.components (UnixPath.join package.storePath subpath)) with
  | some directory =>
      if disk.nodeAt directory = some .dir then
        (disk.children directory).foldl
          (fun seen child => seen.insert child.1 (unionEntry package child.1 child.2)) seen
      else
        seen
  | none => seen

/-- Later installs overwrite earlier ones. -/
def listUnion (mapping : ProfileMapping) (subpath : List Char) (disk : FileTree) :
    List UnionEntry :=
  (mapping.packages.foldl (addDirectory disk subpath) ∅).sortedValues.insertionSort
    (·.name ≤ ·.name)

/-- A path without empty segments, `.` and `..`. -/
def Normalised (path : RelPath) : Prop :=
  Proper '/' path ∧ ∀ name ∈ path, name ≠ ['.'] ∧ name ≠ ['.', '.']

/-- The archive is extracted at the store path, and no symlink in it leads to a
directory. -/
structure Extracted (disk : FileTree) (storePath : List Char) (node : NarNode) : Prop where
  wellFormed : node.WellFormed
  complete : node.complete = true
  placed : ∃ passed location,
    disk.resolve FileTree.maxLinks [] (UnixPath.components storePath) = some (passed, location) ∧
      ∀ path, disk.nodeAt (location ++ path) = (node.tree path).map diskNode
  unlinked : ∀ path target directory, node.tree path = some (.symlink target) →
    disk.followPath (UnixPath.components storePath ++ path.map .normal) = some directory →
    disk.nodeAt directory ≠ some .dir

theorem components_pathText {path : RelPath} (normalised : Normalised path) :
    UnixPath.components (pathText path) = path.map .normal := by
  have relative : UnixPath.isAbsolute (pathText path) = false := by
    have head : (pathText path).head? ≠ some '/' := SeparatedPaths.head_text normalised.1
    unfold UnixPath.isAbsolute
    split
    · rename_i rest same
      rw [same] at head
      exact False.elim (head rfl)
    · rfl
  by_cases top : path = []
  · subst top
    rfl
  · have body : UnixPath.body path = path.map .normal := by
      unfold UnixPath.body
      have kept : path.filter (fun segment => segment ≠ [] ∧ segment ≠ ['.']) = path := by
        rw [List.filter_eq_self]
        intro segment member
        exact decide_eq_true ⟨(normalised.1 segment member).1, (normalised.2 segment member).1⟩
      rw [kept]
      apply List.map_congr_left
      intro segment member
      exact if_neg (normalised.2 segment member).2
    rw [UnixPath.components_relative _ relative, SeparatedPaths.splitOn_text normalised.1 top]
    split
    · rename_i rest
      exact False.elim ((normalised.2 ['.'] (by simp)).1 rfl)
    · exact body

theorem components_join_pathText (storePath : List Char) {path : RelPath}
    (normalised : Normalised path) :
    UnixPath.components (UnixPath.join storePath (pathText path)) =
      UnixPath.components storePath ++ path.map .normal := by
  rw [UnixPath.components_join, components_pathText normalised]
  cases path <;> rfl

section Extraction

variable {disk : FileTree} {storePath : List Char} {node : NarNode} {location : Location}
  {passed : List Location}
  (reached : disk.resolve FileTree.maxLinks [] (UnixPath.components storePath) =
    some (passed, location))
  (nodes : ∀ path, disk.nodeAt (location ++ path) = (node.tree path).map diskNode)
include reached nodes

/-- A directory of the archive is reached through directories. -/
theorem follow_directory {path : RelPath} (directory : node.tree path = some .dir) :
    disk.resolve FileTree.maxLinks [] (UnixPath.components storePath ++ path.map .normal) =
      some (passed, location ++ path) := by
  induction path using List.reverseRecOn with
  | nil => simpa using reached
  | append_singleton front name ih =>
      have above := tree_below (List.cons_ne_nil name []) directory
      have next : disk.nodeAt (location ++ front ++ [name]) = some .dir := by
        rw [List.append_assoc, nodes, directory]
        rfl
      rw [List.map_append, ← List.append_assoc, FileTree.resolve_append (ih above)
        (by rw [nodes, above]; rfl)]
      have walked : disk.walk (location ++ front) ([name].map .normal) =
          .found (location ++ front ++ [name]) := FileTree.walk_normal_dir next
      rw [FileTree.resolve_found walked]
      simp

/-- Nothing else of the archive leads to a directory. -/
theorem follow_elsewhere
    (unlinked : ∀ path target directory, node.tree path = some (.symlink target) →
      disk.followPath (UnixPath.components storePath ++ path.map .normal) = some directory →
      disk.nodeAt directory ≠ some .dir)
    {path : RelPath} (other : node.tree path ≠ some .dir) {directory : Location}
    {links : List Location}
    (followed : disk.resolve FileTree.maxLinks []
      (UnixPath.components storePath ++ path.map .normal) = some (links, directory)) :
    disk.nodeAt directory ≠ some .dir := by
  induction path using List.reverseRecOn generalizing links directory with
  | nil =>
      have same : disk.resolve FileTree.maxLinks [] (UnixPath.components storePath) =
          some (links, directory) := by simpa using followed
      cases reached.symm.trans same
      have root := nodes []
      rw [List.append_nil] at root
      rw [root]
      intro listed
      obtain ⟨found, there, shape⟩ := Option.map_eq_some_iff.mp listed
      cases found with
      | dir => exact other there
      | file content mode => cases shape
      | symlink target => cases shape
  | append_singleton front name ih =>
      by_cases above : node.tree front = some .dir
      · have next := nodes (front ++ [name])
        rw [← List.append_assoc] at next
        have onward := followed
        rw [List.map_append, ← List.append_assoc,
          FileTree.resolve_append (follow_directory reached nodes above)
            (by rw [nodes, above]; rfl)] at onward
        obtain ⟨⟨more, last⟩, stepped, same⟩ := Option.map_eq_some_iff.mp onward
        cases same
        cases there : node.tree (front ++ [name]) with
        | none =>
            rw [there] at next
            have walked : disk.walk (location ++ front) ([name].map .normal) = .missing := by
              rw [List.map_cons, FileTree.walk, next]
              rfl
            rw [FileTree.resolve_missing walked] at stepped
            cases stepped
        | some found =>
            rw [there] at next
            cases found with
            | dir => exact False.elim (other there)
            | file content mode =>
                have walked : disk.walk (location ++ front) ([name].map .normal) =
                    .found (location ++ front ++ [name]) := by
                  rw [List.map_cons, FileTree.walk, next]
                  rfl
                rw [FileTree.resolve_found walked] at stepped
                cases stepped
                rw [next]
                simp [diskNode]
            | symlink target =>
                apply unlinked (front ++ [name]) target _ there
                rw [FileTree.followPath, followed]
                rfl
      · rw [List.map_append, ← List.append_assoc, List.map_cons, List.map_nil,
          FileTree.resolve_append_none fun passed mid resolved => ih above resolved] at followed
        cases followed

end Extraction

theorem addEntries_absent (value : List Char → Node → UnionEntry) {name : List Char}
    {entries : List (List Char × Node)} (seen : Table UnionEntry)
    (absent : ∀ node, (name, node) ∉ entries) :
    (entries.foldl (fun seen child => seen.insert child.1 (value child.1 child.2)) seen).lookup
        name = seen.lookup name := by
  induction entries generalizing seen with
  | nil => rfl
  | cons child rest ih =>
      have different : name ≠ child.1 := by
        rintro rfl
        exact absent child.2 (by simp)
      rw [List.foldl_cons, ih _ fun node member => absent node (List.mem_cons_of_mem _ member),
        AList.lookup_insert_ne different]

theorem addEntries_present (value : List Char → Node → UnionEntry) {name : List Char} {node : Node}
    {entries : List (List Char × Node)} (seen : Table UnionEntry)
    (present : (name, node) ∈ entries) (only : ∀ other, (name, other) ∈ entries → other = node) :
    (entries.foldl (fun seen child => seen.insert child.1 (value child.1 child.2)) seen).lookup
        name = some (value name node) := by
  induction entries generalizing seen with
  | nil => cases present
  | cons child rest ih =>
      rw [List.foldl_cons]
      by_cases later : (name, node) ∈ rest
      · exact ih _ later fun other member => only other (List.mem_cons_of_mem _ member)
      · have own : child = (name, node) := by
          rcases List.mem_cons.mp present with same | member
          · exact same.symm
          · exact False.elim (later member)
        subst own
        rw [addEntries_absent]
        · exact AList.lookup_insert _
        · intro other member
          have same := only other (List.mem_cons_of_mem _ member)
          exact later (same ▸ member)

/-- A package's directory on disk adds to the union what its archive has there. -/
theorem lookup_addDirectory {disk : FileTree} {package : ProfileEntry} {node : NarNode}
    (extracted : Extracted disk package.storePath node) {path : RelPath}
    (normalised : Normalised path) (seen : Table UnionEntry) (name : List Char) :
    (addDirectory disk (pathText path) seen package).lookup name =
      match node.tree (path ++ [name]) with
      | some found => some (unionEntry package name (diskNode found))
      | none => seen.lookup name := by
  obtain ⟨passed, location, reached, nodes⟩ := extracted.placed
  unfold addDirectory
  rw [components_join_pathText package.storePath normalised]
  by_cases directory : node.tree path = some .dir
  · have inside : disk.nodeAt (location ++ path) = some .dir := by
      rw [nodes, directory]
      rfl
    rw [FileTree.followPath, follow_directory reached nodes directory]
    simp only [Option.map_some, inside, ↓reduceIte]
    have listed : ∀ other, (name, other) ∈ disk.children (location ++ path) ↔
        (node.tree (path ++ [name])).map diskNode = some other := by
      intro other
      rw [FileTree.mem_children, List.append_assoc, nodes]
    cases present : node.tree (path ++ [name]) with
    | none =>
        apply addEntries_absent
        intro other member
        rw [listed, present] at member
        cases member
    | some found =>
        apply addEntries_present
        · rw [listed, present]
          rfl
        · intro other member
          rw [listed, present] at member
          exact (Option.some.inj member).symm
  · have nothing : node.tree (path ++ [name]) = none := by
      by_contra there
      obtain ⟨found, present⟩ := Option.ne_none_iff_exists'.mp there
      exact directory (tree_below (List.cons_ne_nil name []) present)
    rw [nothing]
    split
    · rename_i followed
      obtain ⟨⟨links, place⟩, resolved, same⟩ := Option.map_eq_some_iff.mp followed
      cases same
      rw [if_neg (follow_elsewhere reached nodes extracted.unlinked directory resolved)]
    · rfl

/-- What one package's manifest contributes to the union. -/
def addManifest (manifests : Manifests) (subpath : List Char) (seen : Table UnionEntry)
    (package : ProfileEntry) : Table UnionEntry :=
  match manifests.lookup package.storePath with
  | none => seen
  | some manifest =>
      addChildren
        (fun name => { name, isDir := true, isSymlink := false, fromPackage := package.name })
        (fun name entry =>
          { name
            isDir := entry.entryType = .dir
            isSymlink := entry.entryType = .symlink
            fromPackage := package.name })
        (pathStart subpath) manifest seen

theorem listUnionFromManifests_eq (mapping : ProfileMapping) (subpath : List Char)
    (manifests : Manifests) :
    listUnionFromManifests mapping subpath manifests =
      (mapping.packages.foldl (addManifest manifests subpath) ∅).sortedValues.insertionSort
        (·.name ≤ ·.name) := rfl

/-- A package's manifest adds what its archive has in the directory. -/
theorem lookup_addManifest {manifests : Manifests} {package : ProfileEntry} {node : NarNode}
    (wellFormed : node.WellFormed) (complete : node.complete = true)
    (recorded : manifests.lookup package.storePath = some (manifestOf node)) {path : RelPath}
    (proper : Proper '/' path) (seen : Table UnionEntry) (name : List Char) :
    (addManifest manifests (pathText path) seen package).lookup name =
      match node.tree (path ++ [name]) with
      | some found => some (unionEntry package name (diskNode found))
      | none => seen.lookup name := by
  unfold addManifest
  rw [recorded]
  dsimp only
  rw [lookup_addChildren_tree _ _ wellFormed complete proper]
  cases node.tree (path ++ [name]) with
  | none => rfl
  | some found => cases found <;> rfl

/-- The manifests list what the disk lists, for every profile and every path. -/
theorem listUnionFromManifests_eq_listUnion (mapping : ProfileMapping) (disk : FileTree)
    (manifests : Manifests) (archive : List Char → NarNode)
    (extracted : ∀ package ∈ mapping.packages,
      Extracted disk package.storePath (archive package.storePath))
    (recorded : ∀ package ∈ mapping.packages,
      manifests.lookup package.storePath = some (manifestOf (archive package.storePath)))
    (path : RelPath) (normalised : Normalised path) :
    listUnionFromManifests mapping (pathText path) manifests =
      listUnion mapping (pathText path) disk := by
  rw [listUnionFromManifests_eq, listUnion]
  congr 1
  apply Table.sortedValues_congr
  generalize mapping.packages = packages at extracted recorded
  intro name
  -- the two tables agree on every name after each package
  suffices agree : ∀ one two : Table UnionEntry, (∀ name, one.lookup name = two.lookup name) →
      ∀ name, (packages.foldl (addManifest manifests (pathText path)) one).lookup name =
        (packages.foldl (addDirectory disk (pathText path)) two).lookup name from
    agree ∅ ∅ (fun _ => rfl) name
  clear name
  induction packages with
  | nil =>
      intro one two same
      exact same
  | cons package rest ih =>
      intro one two same
      rw [List.foldl_cons, List.foldl_cons]
      apply ih (fun other member => extracted other (List.mem_cons_of_mem _ member))
        (fun other member => recorded other (List.mem_cons_of_mem _ member))
      intro name
      have tree := extracted package List.mem_cons_self
      rw [lookup_addDirectory tree normalised, lookup_addManifest tree.wellFormed tree.complete
        (recorded package List.mem_cons_self) normalised.1, same]

/-- An archive with one file `x`, and a disk that holds it. -/
def oneFile : NarNode := .directory (.entry (some ['x']) (.file false [[1]] true) .done)

def oneFileDisk : FileTree where
  nodes := ⟨[⟨[['a']], .dir⟩, ⟨[['a'], ['x']], .file ⟨#[1]⟩ 0o444⟩],
    by unfold List.NodupKeys; decide⟩
  placed := by
    intro location node found
    have entry := AList.mem_lookup_iff.mp found
    simp only [List.mem_cons, List.not_mem_nil, or_false, Sigma.mk.injEq, heq_eq_eq] at entry
    rcases entry with ⟨rfl, rfl⟩ | ⟨rfl, rfl⟩
    · exact ⟨List.cons_ne_nil _ _, .inl rfl⟩
    · exact ⟨List.cons_ne_nil _ _, .inr rfl⟩

theorem oneFile_tree (name : List Char) (rest : RelPath) :
    oneFile.tree (name :: rest) =
      if name = ['x'] ∧ rest = [] then some (.file [1] 0o444) else none := by
  unfold oneFile
  rw [NarNode.tree, Nar.NarEntries.tree]
  by_cases same : name = ['x']
  · cases rest with
    | nil => simp [same, NarNode.tree, Nar.fileMode]
    | cons next rest => simp [same, NarNode.tree]
  · simp [same, Nar.NarEntries.tree]

theorem oneFile_extracted : Extracted oneFileDisk ['/', 'a'] oneFile := by
  refine ⟨⟨by decide, by simp [Nar.NarEntries.names], trivial, trivial⟩, rfl,
    ⟨[], [['a']], by decide +kernel, ?_⟩, ?_⟩
  · intro path
    cases path with
    | nil => decide +kernel
    | cons name rest =>
        rw [oneFile_tree]
        by_cases own : name = ['x'] ∧ rest = []
        · obtain ⟨rfl, rfl⟩ := own
          decide +kernel
        · have elsewhere : (oneFileDisk.nodes.lookup ([['a']] ++ name :: rest)) = none := by
            rw [AList.lookup_eq_none]
            simpa [AList.mem_keys, AList.keys, oneFileDisk, List.keys] using own
          rw [if_neg own, FileTree.nodeAt_ne_nil _ (by simp), elsewhere]
          rfl
  · intro path target _ linked
    cases path with
    | nil => cases linked
    | cons name rest =>
        rw [oneFile_tree] at linked
        split at linked <;> cases linked

/-- Two packages at the same store path: the last one is named. -/
theorem listUnionFromManifests_eq_listUnion_oneFile :
    listUnionFromManifests ⟨[⟨['p'], ['/', 'a']⟩, ⟨['q'], ['/', 'a']⟩]⟩ (pathText [])
        (AList.singleton ['/', 'a'] (manifestOf oneFile)) =
      listUnion ⟨[⟨['p'], ['/', 'a']⟩, ⟨['q'], ['/', 'a']⟩]⟩ (pathText []) oneFileDisk := by
  apply listUnionFromManifests_eq_listUnion _ _ _ fun _ => oneFile
  · intro package member
    simp only [List.mem_cons, List.not_mem_nil, or_false] at member
    rcases member with rfl | rfl <;> exact oneFile_extracted
  · intro package member
    simp only [List.mem_cons, List.not_mem_nil, or_false] at member
    rcases member with rfl | rfl <;> rfl
  · exact ⟨by simp [Proper], by simp⟩

end NixRedox.Manifest
