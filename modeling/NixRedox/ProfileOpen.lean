import NixRedox.Getdents
import NixRedox.ProfileUnion

set_option autoImplicit false

/- Opening and listing in a profile (`profiled/scheme.rs`): `openat` against the
entries `getdents` returns. -/
namespace NixRedox.Profiled

open Manifest (ProfileEntry ProfileMapping UnionEntry addManifest diskNode entryOf
  listUnionFromManifests manifestOf mem_manifestOf_path pathText tree_proper unionEntry)
open Nar (FsNode ManifestEntry NarNode RelPath)
open Redox (Dirent DirentBuf DirentKind Errno Table syscallBuf)
open SeparatedPaths (Proper)

/-- The profile a scheme path names, and the path inside it. -/
def parsePath (path : List Char) : Option (List Char) × List Char :=
  let path := Text.trimMatches path
  if path = [] then
    (none, [])
  else
    match Text.splitFirstSlash path with
    | (name, some subpath) => (some name, subpath)
    | (name, none) => (some name, [])

/-- What `openat` puts in the handle table. -/
inductive Opened where
  | dir (schemePath profileName subpath : List Char)
  | control (profileName schemePath : List Char)
  | file (realPath : UnixPath.PathBuf) (schemePath : List Char) (size : Nat) (executable : Bool)
  deriving DecidableEq, Repr

def Opened.handle : Opened → Handle
  | .dir _ profileName subpath => .dir profileName subpath
  | .control profileName _ => .control profileName
  | .file _ schemePath _ _ => .file schemePath

def Handle.isDir : Handle → Bool
  | .dir _ _ => true
  | _ => false

namespace ProfileSchemeHandler

/-- The file a subpath stands for, from the last package that has one. -/
def findFile (handler : ProfileSchemeHandler) (mapping : ProfileMapping) (subpath : List Char) :
    Option (UnixPath.PathBuf × Nat × Bool) :=
  mapping.packages.reverse.findSome? fun package =>
    (handler.manifests.lookup package.storePath).bind fun manifest =>
      (manifest.find? fun entry => entry.path = subpath ∧ entry.entryType = .file).map fun entry =>
        (UnixPath.components (UnixPath.join package.storePath subpath), entry.size,
          entry.executable)

/-- What `openat` opens. A path is a directory if the union has something in it. -/
def openPath (handler : ProfileSchemeHandler) (path : List Char) (flags : UInt64) :
    Except Errno Opened :=
  let path := Text.trimMatches path
  match parsePath path with
  | (none, _) => .ok (.dir [] [] [])
  | (some name, subpath) =>
      if subpath = ".control".toList then
        .ok (.control name path)
      else if subpath = [] ∨ flags &&& BuildProxy.O_DIRECTORY ≠ 0 then
        .ok (.dir path name subpath)
      else
        match handler.profiles.lookup name with
        | none => .error .enoent
        | some mapping =>
            if listUnionFromManifests mapping subpath handler.manifests ≠ [] then
              .ok (.dir path name subpath)
            else
              match handler.findFile mapping subpath with
              | some (fullPath, size, executable) => .ok (.file fullPath path size executable)
              | none => .error .enoent

/-- `openat`, with the free id `alloc_id` picks. -/
def openat (handler : ProfileSchemeHandler) (id : Nat) (path : List Char) (flags : UInt64) :
    Except Errno ProfileSchemeHandler :=
  (handler.openPath path flags).map fun opened =>
    { handler with handles := handler.handles.insert id opened.handle }

/-- Some call of `getdents` on the handle returns the entry. -/
def Returned (handler : ProfileSchemeHandler) (buf : DirentBuf) (id : Nat) (entry : Dirent) : Prop :=
  ∃ capacity offset page next, handler.getdents buf id capacity offset = .ok page ∧
    (entry, next) ∈ page

/-- Every entry listed through the handle of a directory opens, and as a directory
exactly if it is listed as one. -/
def EntriesOpen (handler : ProfileSchemeHandler) (buf : DirentBuf) (id : Nat)
    (directory : RelPath) : Prop :=
  ∀ entry, handler.Returned buf id entry → ∀ fresh flags, flags &&& BuildProxy.O_DIRECTORY = 0 →
    ∃ after handle,
      handler.openat fresh (pathText (directory ++ [entry.1])) flags = .ok after ∧
      after.handles.lookup fresh = some handle ∧
      (handle.isDir = true ↔ entry.2 = .directory)

/-- Every path that opens as a file is listed in its directory. -/
def FilesListed (handler : ProfileSchemeHandler) (buf : DirentBuf) : Prop :=
  ∀ path flags realPath schemePath size executable,
    handler.openPath path flags = .ok (.file realPath schemePath size executable) →
    ∃ profile directory name, Text.trimMatches path = pathText (profile :: directory ++ [name]) ∧
      ∀ id, handler.handles.lookup id = some (.dir profile (pathText directory)) →
        ∃ kind, handler.Returned buf id (name, kind)

end ProfileSchemeHandler

section Archives

variable (archives : List Char → Option NarNode) (mapping : ProfileMapping)

/-- The node a profile shows at a path: that of the last package that has one. -/
def shown (path : RelPath) : Option FsNode :=
  mapping.packages.reverse.findSome? fun package =>
    (archives package.storePath).bind fun node => node.tree path

/-- Some package has a directory at the path with something in it. -/
def Occupied (path : RelPath) : Prop :=
  ∃ package ∈ mapping.packages, ∃ node name, archives package.storePath = some node ∧
    node.tree (path ++ [name]) ≠ none

/-- Some package has a regular file at the path. -/
def HasFile (path : RelPath) : Prop :=
  ∃ package ∈ mapping.packages, ∃ node content mode, archives package.storePath = some node ∧
    node.tree path = some (.file content mode)

/-- A shown entry opens as what it is shown as: it is no empty directory, no file or
symlink over another package's directory, no symlink without a file behind it in
another package, and no directory in the place of the control file. -/
def EntryClear (directory : RelPath) (name : List Char) (found : FsNode) : Prop :=
  if directory = [] ∧ name = ".control".toList then
    found ≠ .dir
  else
    match found with
    | .dir => Occupied archives mapping (directory ++ [name])
    | .file _ _ => ¬ Occupied archives mapping (directory ++ [name])
    | .symlink _ => ¬ Occupied archives mapping (directory ++ [name]) ∧
        HasFile archives mapping (directory ++ [name])

def Clear (directory : RelPath) : Prop :=
  ∀ name found, shown archives mapping (directory ++ [name]) = some found →
    EntryClear archives mapping directory name found

end Archives

/-- The manifests are those of well-formed archives, read to their end. -/
structure Recorded (manifests : Manifest.Manifests) (archives : List Char → Option NarNode) :
    Prop where
  manifest : ∀ storePath, manifests.lookup storePath = (archives storePath).map manifestOf
  wellFormed : ∀ storePath node, archives storePath = some node → node.WellFormed
  complete : ∀ storePath node, archives storePath = some node → node.complete = true

section Union

variable {manifests : Manifest.Manifests} {archives : List Char → Option NarNode}
  (recorded : Recorded manifests archives)
include recorded

/-- The last package that has the name in the directory decides how it is listed. -/
theorem lookup_union {directory : RelPath} (proper : Proper '/' directory)
    (packages : List ProfileEntry) (name : List Char) :
    (packages.foldl (addManifest manifests (pathText directory)) ∅).lookup name =
      packages.reverse.findSome? fun package =>
        (archives package.storePath).bind fun node =>
          (node.tree (directory ++ [name])).map fun found =>
            unionEntry package name (diskNode found) := by
  induction packages using List.reverseRecOn with
  | nil => rfl
  | append_singleton front last ih =>
      rw [List.foldl_append, List.foldl_cons, List.foldl_nil, List.reverse_append,
        List.reverse_singleton, List.singleton_append, List.findSome?_cons]
      cases stored : archives last.storePath with
      | none =>
          have missing : manifests.lookup last.storePath = none := by
            rw [recorded.manifest, stored]
            rfl
          simp only [addManifest, missing, Option.bind_none]
          exact ih
      | some node =>
          have present : manifests.lookup last.storePath = some (manifestOf node) := by
            rw [recorded.manifest, stored]
            rfl
          rw [Manifest.lookup_addManifest (recorded.wellFormed _ _ stored)
            (recorded.complete _ _ stored) present proper]
          cases tree : node.tree (directory ++ [name]) with
          | none =>
              simp only [Option.bind_some, tree, Option.map_none]
              exact ih
          | some found => simp only [Option.bind_some, tree, Option.map_some]

theorem union_named {directory : RelPath} (proper : Proper '/' directory)
    {packages : List ProfileEntry} {name : List Char} {entry : UnionEntry}
    (present : (packages.foldl (addManifest manifests (pathText directory)) ∅).lookup name =
      some entry) : entry.name = name := by
  rw [lookup_union recorded proper] at present
  obtain ⟨package, -, found⟩ := List.exists_of_findSome?_eq_some present
  obtain ⟨node, -, there⟩ := Option.bind_eq_some_iff.mp found
  obtain ⟨kind, -, rfl⟩ := Option.map_eq_some_iff.mp there
  rfl

theorem lookup_union_shown {directory : RelPath} (proper : Proper '/' directory)
    (mapping : ProfileMapping) (name : List Char) :
    ((mapping.packages.foldl (addManifest manifests (pathText directory)) ∅).lookup name).map
        UnionEntry.isDir =
      (shown archives mapping (directory ++ [name])).map fun found => decide (found = .dir) := by
  rw [lookup_union recorded proper]
  unfold shown
  induction mapping.packages.reverse with
  | nil => rfl
  | cons package rest ih =>
      rw [List.findSome?_cons, List.findSome?_cons]
      cases archives package.storePath with
      | none => exact ih
      | some node =>
          cases tree : node.tree (directory ++ [name]) with
          | none => simpa [tree] using ih
          | some found => cases found <;> simp [tree, unionEntry, diskNode]

omit recorded in
theorem mem_listUnionFromManifests {subpath : List Char} {mapping : ProfileMapping}
    {entry : UnionEntry} :
    entry ∈ listUnionFromManifests mapping subpath manifests ↔
      ∃ name, (mapping.packages.foldl (addManifest manifests subpath) ∅).lookup name =
        some entry := by
  rw [Manifest.listUnionFromManifests_eq, (List.perm_insertionSort _ _).mem_iff,
    Table.mem_sortedValues]

/-- A name is listed with its kind exactly if the profile shows a node of that kind. -/
theorem listed_iff_shown {directory : RelPath} (proper : Proper '/' directory)
    {mapping : ProfileMapping} {name : List Char} {isDir : Bool} :
    (∃ entry ∈ listUnionFromManifests mapping (pathText directory) manifests,
        entry.name = name ∧ entry.isDir = isDir) ↔
      ∃ found, shown archives mapping (directory ++ [name]) = some found ∧
        decide (found = .dir) = isDir := by
  have lookups := lookup_union_shown recorded proper mapping name
  constructor
  · rintro ⟨entry, member, named, rfl⟩
    obtain ⟨key, present⟩ := mem_listUnionFromManifests.mp member
    have same := (union_named recorded proper present).symm.trans named
    subst same
    rw [present, Option.map_some, eq_comm, Option.map_eq_some_iff] at lookups
    exact lookups
  · rintro ⟨found, present, rfl⟩
    rw [present, Option.map_some, Option.map_eq_some_iff] at lookups
    obtain ⟨entry, there, kind⟩ := lookups
    exact ⟨entry, mem_listUnionFromManifests.mpr ⟨name, there⟩,
      union_named recorded proper there, kind⟩

omit recorded in
theorem shown_ne_none {mapping : ProfileMapping} {path : RelPath} :
    shown archives mapping path ≠ none ↔
      ∃ package ∈ mapping.packages, ∃ node, archives package.storePath = some node ∧
        node.tree path ≠ none := by
  unfold shown
  rw [ne_eq, List.findSome?_eq_none_iff]
  simp only [List.mem_reverse, Option.bind_eq_none_iff, not_forall, exists_prop]

/-- The listing of a path is empty unless some package has something there. -/
theorem union_occupied {path : RelPath} (proper : Proper '/' path) {mapping : ProfileMapping} :
    listUnionFromManifests mapping (pathText path) manifests ≠ [] ↔
      Occupied archives mapping path := by
  constructor
  · intro nonempty
    obtain ⟨entry, member⟩ := List.exists_mem_of_ne_nil _ nonempty
    obtain ⟨found, present, -⟩ := (listed_iff_shown recorded proper).mp
      ⟨entry, member, rfl, rfl⟩
    obtain ⟨package, installed, node, stored, there⟩ := shown_ne_none.mp
      (Option.ne_none_iff_exists'.mpr ⟨found, present⟩)
    exact ⟨package, installed, node, entry.name, stored, there⟩
  · rintro ⟨package, installed, node, name, stored, there⟩
    obtain ⟨found, present⟩ := Option.ne_none_iff_exists'.mp
      (shown_ne_none.mpr ⟨package, installed, node, stored, there⟩)
    obtain ⟨entry, member, -⟩ := (listed_iff_shown recorded proper).mpr ⟨found, present, rfl⟩
    exact List.ne_nil_of_mem member

end Union

section Opening

variable {buf : DirentBuf} {handler : ProfileSchemeHandler} {archives : List Char → Option NarNode}
  (recorded : Recorded handler.manifests archives)
include recorded

omit recorded in
theorem find_file {node : NarNode} (wellFormed : node.WellFormed)
    (complete : node.complete = true) {path : RelPath} (proper : Proper '/' path) :
    ((manifestOf node).find? fun entry =>
        entry.path = pathText path ∧ entry.entryType = .file).isSome ↔
      ∃ content mode, node.tree path = some (.file content mode) := by
  rw [List.find?_isSome]
  constructor
  · rintro ⟨entry, member, matching⟩
    obtain ⟨same, kind⟩ := of_decide_eq_true matching
    obtain ⟨found, present, -, rfl⟩ := (mem_manifestOf_path wellFormed complete proper).mp
      ⟨member, same⟩
    cases found with
    | dir => cases kind
    | file content mode => exact ⟨content, mode, present⟩
    | symlink target => cases kind
  · rintro ⟨content, mode, present⟩
    obtain ⟨member, same⟩ := (mem_manifestOf_path wellFormed complete proper).mpr
      ⟨.file content mode, present, fun _ => nofun, rfl⟩
    exact ⟨_, member, decide_eq_true ⟨same, rfl⟩⟩

/-- A file is found exactly if some package has it. -/
theorem findFile_isSome {path : RelPath} (proper : Proper '/' path) {mapping : ProfileMapping} :
    (handler.findFile mapping (pathText path)).isSome ↔ HasFile archives mapping path := by
  unfold ProfileSchemeHandler.findFile
  rw [List.findSome?_isSome_iff]
  constructor
  · rintro ⟨package, installed, found⟩
    rw [List.mem_reverse] at installed
    rw [recorded.manifest] at found
    cases stored : archives package.storePath with
    | none => simp [stored] at found
    | some node =>
        rw [stored, Option.map_some, Option.bind_some, Option.isSome_map,
          find_file (recorded.wellFormed _ _ stored) (recorded.complete _ _ stored) proper] at found
        obtain ⟨content, mode, present⟩ := found
        exact ⟨package, installed, node, content, mode, stored, present⟩
  · rintro ⟨package, installed, node, content, mode, stored, present⟩
    refine ⟨package, List.mem_reverse.mpr installed, ?_⟩
    rw [recorded.manifest, stored, Option.map_some, Option.bind_some, Option.isSome_map,
      find_file (recorded.wellFormed _ _ stored) (recorded.complete _ _ stored) proper]
    exact ⟨content, mode, present⟩

omit recorded in
theorem parsePath_pathText {profile : List Char} {path : RelPath}
    (proper : Proper '/' (profile :: path)) :
    parsePath (pathText (profile :: path)) = (some profile, pathText path) := by
  have named : pathText (profile :: path) ≠ [] := by
    rw [ne_eq, SeparatedPaths.text_eq_nil proper]
    simp
  unfold parsePath
  rw [Manifest.trimMatches_pathText proper]
  simp only [named, ↓reduceIte,
    Manifest.splitFirstSlash_pathText (SeparatedPaths.proper_cons.mp proper).1.2]
  cases path with
  | nil => rfl
  | cons name rest => rfl

/-- The name of the control file at the top of every profile. -/
def controlPath : RelPath := [".control".toList]

omit recorded in
theorem pathText_control {path : RelPath} (proper : Proper '/' path) :
    pathText path = ".control".toList ↔ path = controlPath := by
  have own : Proper '/' controlPath := SeparatedPaths.proper_singleton.mpr (by decide)
  have text : pathText controlPath = ".control".toList := SeparatedPaths.text_singleton '/' _
  rw [← text]
  exact SeparatedPaths.text_inj proper own

/-- How a path of a profile opens without `O_DIRECTORY`: the control file, then any
directory that is not empty, then files. -/
theorem openat_iff {profile : List Char} {path : RelPath} (proper : Proper '/' (profile :: path))
    (below : path ≠ []) {mapping : ProfileMapping}
    (installed : handler.profiles.lookup profile = some mapping) {flags : UInt64}
    (plain : flags &&& BuildProxy.O_DIRECTORY = 0) (fresh : Nat) (directory : Prop) :
    (∃ after handle, handler.openat fresh (pathText (profile :: path)) flags = .ok after ∧
        after.handles.lookup fresh = some handle ∧ (handle.isDir = true ↔ directory)) ↔
      (path = controlPath ∧ ¬ directory) ∨
        (path ≠ controlPath ∧ Occupied archives mapping path ∧ directory) ∨
        (path ≠ controlPath ∧ ¬ Occupied archives mapping path ∧ HasFile archives mapping path ∧
          ¬ directory) := by
  have inner := (SeparatedPaths.proper_cons.mp proper).2
  have named : pathText path ≠ [] := by
    rw [ne_eq, SeparatedPaths.text_eq_nil inner]
    exact below
  have opens : ∀ opened, handler.openPath (pathText (profile :: path)) flags = .ok opened →
      ((∃ after handle, handler.openat fresh (pathText (profile :: path)) flags = .ok after ∧
        after.handles.lookup fresh = some handle ∧ (handle.isDir = true ↔ directory)) ↔
        (opened.handle.isDir = true ↔ directory)) := by
    intro opened success
    simp only [ProfileSchemeHandler.openat, success, Except.map, Except.ok.injEq,
      exists_and_left, exists_eq_left']
    simp
  have resolved : handler.openPath (pathText (profile :: path)) flags =
      if path = controlPath then .ok (.control profile (pathText (profile :: path)))
      else if listUnionFromManifests mapping (pathText path) handler.manifests ≠ [] then
        .ok (.dir (pathText (profile :: path)) profile (pathText path))
      else
        match handler.findFile mapping (pathText path) with
        | some (fullPath, size, executable) =>
            .ok (.file fullPath (pathText (profile :: path)) size executable)
        | none => .error .enoent := by
    unfold ProfileSchemeHandler.openPath
    simp only [Manifest.trimMatches_pathText proper, parsePath_pathText proper,
      pathText_control inner, named, plain, false_or, ne_eq, not_true_eq_false, ↓reduceIte,
      installed]
  by_cases control : path = controlPath
  · rw [if_pos control] at resolved
    rw [opens _ resolved]
    simp [control, Opened.handle, Handle.isDir]
  · rw [if_neg control] at resolved
    have listing := @union_occupied handler.manifests archives recorded path inner mapping
    by_cases occupied : Occupied archives mapping path
    · rw [if_pos (listing.mpr occupied)] at resolved
      rw [opens _ resolved]
      simp [control, occupied, Opened.handle, Handle.isDir]
    · rw [if_neg fun nonempty => occupied (listing.mp nonempty)] at resolved
      have search := @findFile_isSome handler archives recorded path inner mapping
      cases found : handler.findFile mapping (pathText path) with
      | some file =>
          rw [found] at resolved search
          have present := search.mp rfl
          rw [opens _ resolved]
          simp [control, occupied, present, Opened.handle, Handle.isDir]
      | none =>
          rw [found] at resolved search
          have absent : ¬ HasFile archives mapping path := fun present => by
            simpa using search.mpr present
          simp [ProfileSchemeHandler.openat, resolved, Except.map, control, occupied, absent]

omit recorded in
/-- What the calls of `getdents` on a handle return, all together. -/
theorem returned_iff {id : Nat} {profile subpath : List Char} {entry : Dirent}
    (named : profile ≠ []) (opened : handler.handles.lookup id = some (.dir profile subpath)) :
    handler.Returned buf id entry ↔ ∃ mapping, handler.profiles.lookup profile = some mapping ∧
      if subpath = [] then entry ∈ handler.rootDirents mapping ++ [controlEntry]
      else entry ∈ handler.subdirDirents mapping subpath := by
  unfold ProfileSchemeHandler.Returned ProfileSchemeHandler.getdents
  simp only [opened, named, ↓reduceIte]
  cases handler.profiles.lookup profile with
  | none => simp
  | some mapping =>
      by_cases top : subpath = []
      · simp only [top, ↓reduceIte, Except.ok.injEq, exists_and_left, exists_eq_left',
          Option.some.injEq]
        exact Paging.mem_pageThen buf
      · simp only [top, ↓reduceIte, Except.ok.injEq, exists_and_left, exists_eq_left',
          Option.some.injEq]
        exact Paging.mem_pageOf buf

/-- The entries listed in a directory are the nodes the profile shows there, and the
control file at the top. -/
theorem returned_shown {id : Nat} {profile : List Char} {directory : RelPath}
    (proper : Proper '/' (profile :: directory))
    (opened : handler.handles.lookup id = some (.dir profile (pathText directory)))
    {mapping : ProfileMapping} (installed : handler.profiles.lookup profile = some mapping)
    {name : List Char} {kind : DirentKind} (returned : handler.Returned buf id (name, kind)) :
    (directory = [] ∧ (name, kind) = controlEntry) ∨
      ∃ found, shown archives mapping (directory ++ [name]) = some found ∧
        (kind = .directory ↔ found = .dir) := by
  obtain ⟨⟨named, -⟩, inner⟩ := SeparatedPaths.proper_cons.mp proper
  obtain ⟨other, same, listed⟩ := (returned_iff named opened).mp returned
  cases installed.symm.trans same
  have node : ∀ entry ∈ listUnionFromManifests mapping (pathText directory) handler.manifests,
      ∃ found, shown archives mapping (directory ++ [entry.name]) = some found ∧
        (entry.isDir = true ↔ found = .dir) := by
    intro entry member
    obtain ⟨found, present, kind⟩ := (listed_iff_shown recorded inner).mp ⟨entry, member, rfl, rfl⟩
    exact ⟨found, present, by rw [← kind, decide_eq_true_iff]⟩
  split at listed
  · rename_i empty
    have top := (SeparatedPaths.text_eq_nil inner).mp empty
    rcases List.mem_append.mp listed with shown_ | control
    · obtain ⟨entry, member, pair⟩ := List.mem_map.mp shown_
      cases pair
      subst top
      obtain ⟨found, present, same⟩ := node entry member
      refine Or.inr ⟨found, present, ?_⟩
      rw [← same]
      cases entry.isDir <;> simp
    · exact Or.inl ⟨top, List.mem_singleton.mp control⟩
  · obtain ⟨entry, member, pair⟩ := List.mem_map.mp listed
    cases pair
    obtain ⟨found, present, same⟩ := node entry member
    refine Or.inr ⟨found, present, ?_⟩
    rw [← same]
    cases entry.isDir <;> cases entry.isSymlink <;> simp [Manifest.entryKind]

theorem shown_returned {id : Nat} {profile : List Char} {directory : RelPath}
    (proper : Proper '/' (profile :: directory))
    (opened : handler.handles.lookup id = some (.dir profile (pathText directory)))
    {mapping : ProfileMapping} (installed : handler.profiles.lookup profile = some mapping)
    {name : List Char} {found : FsNode}
    (present : shown archives mapping (directory ++ [name]) = some found) :
    ∃ kind, handler.Returned buf id (name, kind) ∧ (kind = .directory ↔ found = .dir) := by
  obtain ⟨⟨named, -⟩, inner⟩ := SeparatedPaths.proper_cons.mp proper
  obtain ⟨entry, member, rfl, same⟩ := (listed_iff_shown recorded inner).mpr ⟨found, present, rfl⟩
  have directories : entry.isDir = true ↔ found = .dir := by
    rw [same, decide_eq_true_iff]
  simp only [returned_iff named opened, SeparatedPaths.text_eq_nil inner]
  by_cases top : directory = []
  · refine ⟨if entry.isDir then .directory else .regular, ⟨mapping, installed, ?_⟩, ?_⟩
    · rw [if_pos top]
      refine List.mem_append_left _ (List.mem_map.mpr ⟨entry, ?_, rfl⟩)
      rw [top] at member
      exact member
    · rw [← directories]
      cases entry.isDir <;> simp
  · refine ⟨Manifest.entryKind entry.isDir entry.isSymlink, ⟨mapping, installed, ?_⟩, ?_⟩
    · rw [if_neg top]
      exact List.mem_map.mpr ⟨entry, member, rfl⟩
    · rw [← directories]
      cases entry.isDir <;> cases entry.isSymlink <;> simp [Manifest.entryKind]

omit recorded in
/-- A shown file is one that some package has. -/
theorem shown_file {mapping : ProfileMapping} {path : RelPath} {content : List UInt8} {mode : Nat}
    (present : shown archives mapping path = some (.file content mode)) :
    HasFile archives mapping path := by
  obtain ⟨package, installed, found⟩ := List.exists_of_findSome?_eq_some present
  obtain ⟨node, stored, there⟩ := Option.bind_eq_some_iff.mp found
  exact ⟨package, List.mem_reverse.mp installed, node, content, mode, stored, there⟩

theorem shown_proper {mapping : ProfileMapping} {path : RelPath} {found : FsNode}
    (present : shown archives mapping path = some found) : Proper '/' path := by
  obtain ⟨package, -, there⟩ := List.exists_of_findSome?_eq_some present
  obtain ⟨node, stored, there⟩ := Option.bind_eq_some_iff.mp there
  exact tree_proper (recorded.wellFormed _ _ stored) (recorded.complete _ _ stored) there

/-- An entry that shows a node opens as what it shows exactly if it is clear. -/
theorem opens_iff_clear {profile : List Char} {directory : RelPath} {name : List Char}
    (proper : Proper '/' (profile :: directory)) {mapping : ProfileMapping}
    (installed : handler.profiles.lookup profile = some mapping) {found : FsNode}
    (present : shown archives mapping (directory ++ [name]) = some found) {flags : UInt64}
    (plain : flags &&& BuildProxy.O_DIRECTORY = 0) (fresh : Nat) :
    (∃ after handle,
        handler.openat fresh (pathText (profile :: directory ++ [name])) flags = .ok after ∧
        after.handles.lookup fresh = some handle ∧ (handle.isDir = true ↔ found = .dir)) ↔
      EntryClear archives mapping directory name found := by
  have whole : Proper '/' (profile :: (directory ++ [name])) :=
    SeparatedPaths.proper_cons.mpr
      ⟨(SeparatedPaths.proper_cons.mp proper).1, shown_proper recorded present⟩
  have control : directory ++ [name] = controlPath ↔
      directory = [] ∧ name = ".control".toList := by
    unfold controlPath
    cases directory with
    | nil => simp
    | cons first rest => simp
  rw [List.cons_append, openat_iff recorded whole (by simp) installed plain fresh (found = .dir)]
  unfold EntryClear
  by_cases top : directory = [] ∧ name = ".control".toList
  · simp only [control.mpr top, true_and, ne_eq, not_true_eq_false, false_and, or_false]
    rw [if_pos top]
  · have elsewhere : directory ++ [name] ≠ controlPath := fun same => top (control.mp same)
    rw [if_neg top]
    cases found with
    | dir => simp [elsewhere]
    | file content mode => simp [elsewhere, shown_file present]
    | symlink target => simp [elsewhere]

omit recorded in
/-- The steps of an open that ends in a file. -/
theorem openPath_file {path schemePath : List Char} {flags : UInt64} {realPath : UnixPath.PathBuf}
    {size : Nat} {executable : Bool}
    (success : handler.openPath path flags = .ok (.file realPath schemePath size executable)) :
    ∃ profile subpath mapping, parsePath (Text.trimMatches path) = (some profile, subpath) ∧
      subpath ≠ [] ∧ handler.profiles.lookup profile = some mapping ∧
      (handler.findFile mapping subpath).isSome := by
  unfold ProfileSchemeHandler.openPath at success
  dsimp only at success
  split at success
  · cases success
  · rename_i profile subpath parsed
    split at success
    · cases success
    · split at success
      · cases success
      · rename_i plain
        split at success
        · cases success
        · rename_i mapping installed
          split at success
          · cases success
          · split at success
            · rename_i found
              exact ⟨profile, subpath, mapping, parsed, fun empty => plain (Or.inl empty),
                installed, by rw [found]; rfl⟩
            · cases success

omit recorded in
theorem parsePath_some {path profile subpath : List Char}
    (parsed : parsePath (Text.trimMatches path) = (some profile, subpath))
    (deeper : subpath ≠ []) :
    (profile ≠ [] ∧ '/' ∉ profile) ∧ Text.trimMatches path = profile ++ '/' :: subpath := by
  have head := Text.trimMatches_head path
  unfold parsePath at parsed
  rw [Text.trimMatches_idempotent] at parsed
  generalize Text.trimMatches path = trimmed at parsed head
  dsimp only at parsed
  split at parsed
  · cases parsed
  · rename_i nonempty
    rw [Text.splitFirstSlash_eq] at parsed
    by_cases whole : trimmed.dropWhile (· ≠ '/') = []
    · simp only [whole, ↓reduceIte] at parsed
      cases parsed
      exact False.elim (deeper rfl)
    · simp only [whole, ↓reduceIte] at parsed
      cases parsed
      have slash : (trimmed.dropWhile (· ≠ '/')).head? = some '/' := by
        have stopped := List.head?_dropWhile_not (fun letter : Char => decide (letter ≠ '/')) trimmed
        obtain ⟨letter, rest, same⟩ := List.exists_cons_of_ne_nil whole
        rw [same] at stopped ⊢
        simpa using stopped
      refine ⟨⟨?_, ?_⟩, ?_⟩
      · cases trimmed with
        | nil => exact False.elim (nonempty rfl)
        | cons first rest =>
            have ordinary : first ≠ '/' := fun same => head (by rw [same]; rfl)
            simp [ordinary]
      · intro member
        have passed := List.mem_takeWhile_imp member
        simp at passed
      · have joined := List.takeWhile_append_dropWhile (p := (· ≠ '/')) (l := trimmed)
        obtain ⟨letter, rest, same⟩ := List.exists_cons_of_ne_nil whole
        rw [same] at slash joined ⊢
        cases slash
        exact joined.symm

/-- Every path that opens as a file is listed. -/
theorem files_listed : handler.FilesListed buf := by
  intro path flags realPath schemePath size executable success
  obtain ⟨profile, subpath, mapping, parsed, deeper, installed, found⟩ := openPath_file success
  obtain ⟨own, split⟩ := parsePath_some parsed deeper
  unfold ProfileSchemeHandler.findFile at found
  obtain ⟨package, member, there⟩ := List.findSome?_isSome_iff.mp found
  rw [recorded.manifest] at there
  cases stored : archives package.storePath with
  | none => simp [stored] at there
  | some node =>
      rw [stored, Option.map_some, Option.bind_some, Option.isSome_map, List.find?_isSome] at there
      obtain ⟨entry, listed, matching⟩ := there
      obtain ⟨place, node_, present, -, rfl⟩ := (Manifest.mem_manifestOf
        (recorded.wellFormed _ _ stored) (recorded.complete _ _ stored)).mp listed
      have same : pathText place = subpath := by
        rw [← Manifest.entryOf_path place node_]
        exact (of_decide_eq_true matching).1
      have proper := tree_proper (recorded.wellFormed _ _ stored) (recorded.complete _ _ stored)
        present
      have below : place ≠ [] := by
        rintro rfl
        exact deeper same.symm
      obtain ⟨directory, name, rfl⟩ := (List.eq_nil_or_concat' place).resolve_left below
      refine ⟨profile, directory, name, ?_, ?_⟩
      · rw [split, ← same, List.cons_append]
        exact (SeparatedPaths.text_cons '/' profile below).symm
      · intro id opened
        obtain ⟨shown_, visible⟩ := Option.ne_none_iff_exists'.mp (shown_ne_none.mpr
          ⟨package, List.mem_reverse.mp member, node, stored, by rw [present]; nofun⟩)
        obtain ⟨kind, returned, -⟩ := shown_returned recorded
          (SeparatedPaths.proper_cons.mpr ⟨own, (SeparatedPaths.proper_append.mp proper).1⟩)
          opened installed visible
        exact ⟨kind, returned⟩

/-- Listing and opening agree in a directory of a profile exactly if every entry shown
there is clear. -/
theorem entriesOpen_iff_clear {profile : List Char} {directory : RelPath}
    (proper : Proper '/' (profile :: directory)) {id : Nat}
    (opened : handler.handles.lookup id = some (.dir profile (pathText directory))) :
    handler.EntriesOpen buf id (profile :: directory) ∧ handler.FilesListed buf ↔
      ∀ mapping, handler.profiles.lookup profile = some mapping →
        Clear archives mapping directory := by
  have plainFlags : (0 : UInt64) &&& BuildProxy.O_DIRECTORY = 0 := by decide
  constructor
  · rintro ⟨opens, -⟩ mapping installed name found present
    obtain ⟨kind, returned, same⟩ := shown_returned recorded proper opened installed present
    obtain ⟨after, handle, success, there, kinds⟩ := opens (name, kind) returned 0 0 plainFlags
    exact (opens_iff_clear recorded proper installed present plainFlags 0).mp
      ⟨after, handle, success, there, kinds.trans same⟩
  · intro clear
    refine ⟨?_, files_listed recorded⟩
    intro entry returned fresh flags plain
    obtain ⟨named, inner⟩ := SeparatedPaths.proper_cons.mp proper
    obtain ⟨mapping, installed, -⟩ := (returned_iff named.1 opened).mp returned
    rcases returned_shown recorded proper opened installed returned with
      ⟨top, control⟩ | ⟨found, present, kind⟩
    · have same : entry = controlEntry := control
      subst top same
      have whole : Proper '/' (profile :: controlPath) :=
        SeparatedPaths.proper_cons.mpr ⟨named, SeparatedPaths.proper_singleton.mpr (by decide)⟩
      exact (openat_iff recorded whole (by simp [controlPath]) installed plain fresh
        (controlEntry.2 = .directory)).mpr (Or.inl ⟨rfl, by decide⟩)
    · obtain ⟨after, handle, success, there, kinds⟩ :=
        (opens_iff_clear recorded proper installed present plain fresh).mpr
          (clear mapping installed entry.1 found present)
      exact ⟨after, handle, success, there, kinds.trans kind.symm⟩

end Opening

/-- An archive with one directory `share`. -/
def shareArchive (entries : Nar.NarEntries) : NarNode :=
  .directory (.entry (some "share".toList) (.directory entries) .done)

def sharePackage : ProfileEntry := ⟨"pkg".toList, "/nix/store/pkg".toList⟩

/-- The only archive, at the store path of the package. -/
def shareArchives (entries : Nar.NarEntries) (storePath : List Char) : Option NarNode :=
  if storePath = sharePackage.storePath then some (shareArchive entries) else none

/-- A profile with that package, and a handle for the top of it. -/
def shareHandler (entries : Nar.NarEntries) : ProfileSchemeHandler :=
  Getdents.singlePackage (manifestOf (shareArchive entries))

theorem share_recorded {entries : Nar.NarEntries} (wellFormed : entries.WellFormed)
    (complete : entries.complete = true) :
    Recorded (shareHandler entries).manifests (shareArchives entries) := by
  have only : ∀ storePath node, shareArchives entries storePath = some node →
      node = shareArchive entries := by
    intro storePath node stored
    unfold shareArchives at stored
    split at stored
    · exact (Option.some.inj stored).symm
    · cases stored
  refine ⟨?_, ?_, ?_⟩
  · intro storePath
    unfold shareArchives
    split
    · rename_i same
      subst same
      rfl
    · rename_i other
      exact AList.lookup_eq_none.mpr fun member => other (List.mem_singleton.mp member)
  · intro storePath node stored
    rw [only storePath node stored]
    exact ⟨by decide, by simp [Nar.NarEntries.names], wellFormed, trivial⟩
  · intro storePath node stored
    rw [only storePath node stored]
    simp only [shareArchive, NarNode.complete, Nar.NarEntries.complete, complete]
    decide

/-- The only node at the top of the profile. -/
theorem share_shown {entries : Nar.NarEntries} {name : List Char} {found : FsNode}
    (present : shown (shareArchives entries) ⟨[sharePackage]⟩ [name] = some found) :
    name = "share".toList ∧ found = .dir := by
  have node : shareArchives entries sharePackage.storePath = some (shareArchive entries) :=
    if_pos rfl
  simp only [shown, List.reverse_singleton, List.findSome?_cons, node, Option.bind_some,
    List.findSome?_nil] at present
  have lookup : (shareArchive entries).tree [name] =
      if name = "share".toList then some .dir else none := by
    rw [shareArchive, NarNode.tree, Nar.NarEntries.tree]
    split <;> rfl
  rw [lookup] at present
  by_cases same : name = "share".toList
  · rw [if_pos same] at present
    cases present
    exact ⟨same, rfl⟩
  · rw [if_neg same] at present
    cases present

/-- A file in the directory. -/
def docEntries : Nar.NarEntries := .entry (some "doc".toList) (.file false [] true) .done

/-- The entries of a profile whose `share` has a file in it. -/
theorem entriesOpen_iff_clear_share :
    (shareHandler docEntries).EntriesOpen syscallBuf 1 ["default".toList] ∧
      (shareHandler docEntries).FilesListed syscallBuf := by
  have recorded : Recorded (shareHandler docEntries).manifests (shareArchives docEntries) :=
    share_recorded ⟨by decide, by simp [Nar.NarEntries.names], trivial, trivial⟩ rfl
  have proper : Proper '/' ["default".toList] := SeparatedPaths.proper_singleton.mpr (by decide)
  apply (entriesOpen_iff_clear recorded proper rfl).mpr
  intro mapping installed name found present
  have only : (shareHandler docEntries).profiles.lookup "default".toList =
      some ⟨[sharePackage]⟩ := rfl
  cases only.symm.trans installed
  obtain ⟨rfl, rfl⟩ := share_shown present
  have ordinary : ¬ (([] : RelPath) = [] ∧ "share".toList = ".control".toList) := by decide
  unfold EntryClear
  rw [if_neg ordinary]
  exact ⟨sharePackage, List.mem_singleton.mpr rfl, shareArchive docEntries, "doc".toList,
    if_pos rfl, by decide +kernel⟩

/-- An empty directory is listed and cannot be opened. -/
theorem empty_directory_unopened :
    Recorded (shareHandler .done).manifests (shareArchives .done) ∧
      (shareHandler .done).handles.lookup 1 = some (.dir "default".toList (pathText [])) ∧
      ¬ ((shareHandler .done).EntriesOpen syscallBuf 1 ["default".toList] ∧
        (shareHandler .done).FilesListed syscallBuf) := by
  refine ⟨share_recorded trivial rfl, rfl, ?_⟩
  rintro ⟨opens, -⟩
  have returned : (shareHandler .done).Returned syscallBuf 1 ("share".toList, .directory) :=
    ⟨100, 0, _, 1, rfl, by decide +kernel⟩
  obtain ⟨after, handle, success, -⟩ := opens _ returned 2 0 (by decide)
  have fails : (shareHandler .done).openat 2
      (pathText (["default".toList] ++ ["share".toList])) 0 = .error .enoent := rfl
  rw [fails] at success
  cases success

end NixRedox.Profiled
