import Mathlib
import NixRedox.UnixPath

set_option autoImplicit false

/- A file system tree with symlinks, and what `std::fs` does to it. Locations are
lists of names from the root directory, which is not stored itself. -/
namespace NixRedox

abbrev Location := List (List Char)

inductive Node where
  | dir
  | file (contents : ByteArray) (mode : Nat)
  | symlink (target : List Char)
  deriving DecidableEq

def Node.isSymlink : Node → Bool
  | .symlink _ => true
  | _ => false

/-- The nodes below the root. Whatever is there is in a directory. -/
structure FileTree where
  nodes : AList fun _ : Location => Node
  placed : ∀ location node, nodes.lookup location = some node →
    location ≠ [] ∧
      (location.dropLast = [] ∨ nodes.lookup location.dropLast = some .dir)

namespace FileTree

def nodeAt (tree : FileTree) (location : Location) : Option Node :=
  if location = [] then some .dir else tree.nodes.lookup location

theorem nodeAt_nil (tree : FileTree) : tree.nodeAt [] = some .dir := rfl

theorem nodeAt_ne_nil (tree : FileTree) {location : Location} (below : location ≠ []) :
    tree.nodeAt location = tree.nodes.lookup location := if_neg below

/-- Whatever is there is in a directory. -/
theorem nodeAt_dropLast {tree : FileTree} {location : Location}
    (there : tree.nodeAt location ≠ none) : tree.nodeAt location.dropLast = some .dir := by
  by_cases root : location = []
  · subst root
    rfl
  · rw [nodeAt_ne_nil tree root] at there
    obtain ⟨node, found⟩ := Option.ne_none_iff_exists'.mp there
    rcases (tree.placed location node found).2 with top | inside
    · rw [top]
      rfl
    · unfold nodeAt
      split
      · rfl
      · exact inside

theorem nodeAt_append {tree : FileTree} {front back : Location}
    (there : tree.nodeAt (front ++ back) ≠ none) (below : back ≠ []) :
    tree.nodeAt front = some .dir := by
  induction back using List.reverseRecOn with
  | nil => exact absurd rfl below
  | append_singleton back name ih =>
      have inside := nodeAt_dropLast there
      rw [← List.append_assoc, List.dropLast_concat] at inside
      by_cases empty : back = []
      · rw [empty, List.append_nil] at inside
        exact inside
      · exact ih (by rw [inside]; nofun) empty

theorem nodeAt_of_prefix {tree : FileTree} {above location : Location}
    (there : tree.nodeAt location ≠ none) (before : above <+: location) :
    tree.nodeAt above ≠ none := by
  obtain ⟨rest, split⟩ := before
  subst split
  by_cases whole : rest = []
  · rw [whole, List.append_nil] at there
    exact there
  · rw [nodeAt_append there whole]
    nofun

theorem ne_dropLast {location : Location} (below : location ≠ []) :
    location.dropLast ≠ location := by
  intro same
  have shorter := congrArg List.length same
  have positive := List.length_pos_iff.mpr below
  rw [List.length_dropLast] at shorter
  omega

/-- Put a node in a directory. Another directory is not replaced. -/
def insertNode (tree : FileTree) (location : Location) (node : Node) (below : location ≠ [])
    (inside : tree.nodeAt location.dropLast = some .dir)
    (kept : tree.nodeAt location ≠ some .dir) : FileTree where
  nodes := tree.nodes.insert location node
  placed := by
    intro other found present
    by_cases same : other = location
    · subst same
      refine ⟨below, ?_⟩
      rw [AList.lookup_insert_ne (ne_dropLast below)]
      by_cases top : other.dropLast = []
      · exact .inl top
      · rw [nodeAt_ne_nil tree top] at inside
        exact .inr inside
    · rw [AList.lookup_insert_ne same] at present
      obtain ⟨lower, parent⟩ := tree.placed other found present
      refine ⟨lower, parent.imp_right fun directory => ?_⟩
      have apart : other.dropLast ≠ location := by
        intro equal
        rw [equal] at directory
        exact kept ((nodeAt_ne_nil tree below).trans directory)
      rw [AList.lookup_insert_ne apart]
      exact directory

/-- Take away what is not a directory. -/
def eraseNode (tree : FileTree) (location : Location)
    (leaf : tree.nodeAt location ≠ some .dir) : FileTree where
  nodes := tree.nodes.erase location
  placed := by
    intro other found present
    have differs : other ≠ location := by
      intro same
      rw [same, AList.lookup_erase] at present
      cases present
    rw [AList.lookup_erase_ne differs] at present
    obtain ⟨lower, parent⟩ := tree.placed other found present
    refine ⟨lower, parent.imp_right fun directory => ?_⟩
    have apart : other.dropLast ≠ location := by
      intro equal
      rw [equal] at directory
      have below := (tree.placed location .dir directory).1
      exact leaf ((nodeAt_ne_nil tree below).trans directory)
    rw [AList.lookup_erase_ne apart]
    exact directory

theorem insertNode_nodeAt {tree : FileTree} {location : Location} {node : Node}
    {below : location ≠ []} {inside : tree.nodeAt location.dropLast = some .dir}
    {kept : tree.nodeAt location ≠ some .dir} (other : Location) :
    (tree.insertNode location node below inside kept).nodeAt other =
      if other = location then some node else tree.nodeAt other := by
  by_cases same : other = location
  · subst same
    rw [if_pos rfl, nodeAt_ne_nil _ below]
    exact AList.lookup_insert _
  · rw [if_neg same]
    unfold nodeAt
    split
    · rfl
    · exact AList.lookup_insert_ne same

theorem eraseNode_nodeAt {tree : FileTree} {location : Location}
    {leaf : tree.nodeAt location ≠ some .dir} (other : Location) :
    (tree.eraseNode location leaf).nodeAt other =
      if other = location then none else tree.nodeAt other := by
  by_cases same : other = location
  · subst same
    have below : other ≠ [] := by
      intro root
      rw [root] at leaf
      exact leaf rfl
    rw [if_pos rfl, nodeAt_ne_nil _ below]
    exact AList.lookup_erase _ _
  · rw [if_neg same]
    unfold nodeAt
    split
    · rfl
    · exact AList.lookup_erase_ne same

theorem nodeAt_eq_some {tree : FileTree} {location : Location} {node : Node} :
    tree.nodeAt location = some node ↔
      location = [] ∧ node = .dir ∨ ⟨location, node⟩ ∈ tree.nodes.entries := by
  have root : ⟨[], node⟩ ∉ tree.nodes.entries := fun listed =>
    (tree.placed [] node (AList.mem_lookup_iff.mpr listed)).1 rfl
  by_cases top : location = []
  · subst top
    simp [nodeAt_nil, root, eq_comm]
  · rw [nodeAt_ne_nil tree top, ← Option.mem_def, AList.mem_lookup_iff]
    simp [top]

/-- A file system as a list of what is where. -/
def ofEntries (entries : List (Location × Node)) (distinct : (entries.map Prod.fst).Nodup)
    (closed : ∀ entry ∈ entries, entry.1 ≠ [] ∧
      (entry.1.dropLast = [] ∨ (entry.1.dropLast, .dir) ∈ entries)) : FileTree where
  nodes := ⟨entries.map fun entry => ⟨entry.1, entry.2⟩, by
    simpa [List.NodupKeys, List.keys, Function.comp_def] using distinct⟩
  placed := by
    intro location node found
    have listed := AList.mem_lookup_iff.mp found
    simp only [List.mem_map, Sigma.mk.injEq, heq_eq_eq] at listed
    obtain ⟨⟨own, kind⟩, member, rfl, rfl⟩ := listed
    obtain ⟨below, parent⟩ := closed (own, kind) member
    refine ⟨below, parent.imp_right fun directory => ?_⟩
    apply AList.mem_lookup_iff.mpr
    exact List.mem_map.mpr ⟨_, directory, rfl⟩

/-- Take away a location and all that is below it. -/
def eraseBelow (tree : FileTree) (location : Location) : FileTree where
  nodes := ⟨tree.nodes.entries.filter fun entry => ¬ location.isPrefixOf entry.1,
    tree.nodes.nodupKeys.sublist List.filter_sublist⟩
  placed := by
    intro other found present
    have kept := AList.mem_lookup_iff.mp present
    simp only [List.mem_filter, decide_eq_true_eq, List.isPrefixOf_iff_prefix] at kept
    obtain ⟨lower, parent⟩ := tree.placed other found (AList.mem_lookup_iff.mpr kept.1)
    refine ⟨lower, parent.imp_right fun directory => ?_⟩
    apply AList.mem_lookup_iff.mpr
    simp only [List.mem_filter, decide_eq_true_eq, List.isPrefixOf_iff_prefix]
    refine ⟨AList.mem_lookup_iff.mp directory, ?_⟩
    intro front
    exact kept.2 (front.trans (List.dropLast_prefix other))

theorem eraseBelow_nodeAt {tree : FileTree} {location : Location} (below : location ≠ [])
    (other : Location) :
    (tree.eraseBelow location).nodeAt other =
      if location <+: other then none else tree.nodeAt other := by
  have listed : ∀ node, (tree.eraseBelow location).nodes.lookup other = some node ↔
      tree.nodes.lookup other = some node ∧ ¬ location <+: other := by
    intro node
    rw [← Option.mem_def, ← Option.mem_def, AList.mem_lookup_iff, AList.mem_lookup_iff]
    simp [eraseBelow]
  by_cases root : other = []
  · subst root
    rw [if_neg (by simpa using below)]
    rfl
  · rw [nodeAt_ne_nil _ root, nodeAt_ne_nil _ root]
    apply Option.ext
    intro node
    rw [listed]
    by_cases front : location <+: other
    · simp [front]
    · simp [front]

/-- How far the components of a path lead: to a node, nowhere, or to a symlink with
components left. -/
inductive Walk where
  | found (location : Location)
  | missing
  | link (location : Location) (target : List Char) (rest : UnixPath.PathBuf)

def walk (tree : FileTree) : Location → UnixPath.PathBuf → Walk
  | here, [] => .found here
  | _, .rootDir :: rest => walk tree [] rest
  | here, .curDir :: rest => walk tree here rest
  | here, .parentDir :: rest => walk tree here.dropLast rest
  | here, .normal name :: rest =>
      match tree.nodeAt (here ++ [name]) with
      | none => .missing
      | some .dir => walk tree (here ++ [name]) rest
      | some (.file _ _) => if rest = [] then .found (here ++ [name]) else .missing
      | some (.symlink target) => .link (here ++ [name]) target rest

theorem walk_normal_dir {tree : FileTree} {here : Location} {name : List Char}
    {back : UnixPath.PathBuf} (next : tree.nodeAt (here ++ [name]) = some .dir) :
    tree.walk here (.normal name :: back) = tree.walk (here ++ [name]) back := by
  rw [walk, next]

/-- Follow a path from a directory, through so many symlinks at most: the symlinks it
passes, and where it leads. -/
def resolve (tree : FileTree) :
    Nat → Location → UnixPath.PathBuf → Option (List Location × Location)
  | links, here, path =>
      match walk tree here path with
      | .found location => some ([], location)
      | .missing => none
      | .link link target rest =>
          match links with
          | 0 => none
          | links + 1 =>
              (resolve tree links link.dropLast (UnixPath.components target ++ rest)).map
                fun (passed, location) => (link :: passed, location)

theorem resolve_found {tree : FileTree} {links : Nat} {here last : Location}
    {front : UnixPath.PathBuf} (walked : tree.walk here front = .found last) :
    tree.resolve links here front = some ([], last) := by
  unfold resolve
  rw [walked]

/-- Symlinks that one lookup follows before it gives up. -/
def maxLinks : Nat := 40

def follow (tree : FileTree) (path : Location) : Option Location :=
  (tree.resolve maxLinks [] (path.map .normal)).map Prod.snd

/-- Where a path leads that is given by its components. -/
def followPath (tree : FileTree) (path : UnixPath.PathBuf) : Option Location :=
  (tree.resolve maxLinks [] path).map Prod.snd

/-- The entries of the directory at a location, by name and node. -/
def children (tree : FileTree) (directory : Location) : List (List Char × Node) :=
  tree.nodes.entries.filterMap fun entry =>
    if entry.1.dropLast = directory then entry.1.getLast?.map fun name => (name, entry.2)
    else none

theorem mem_children {tree : FileTree} {directory : Location} {name : List Char} {node : Node} :
    (name, node) ∈ tree.children directory ↔ tree.nodeAt (directory ++ [name]) = some node := by
  have listed : ∀ location found, ⟨location, found⟩ ∈ tree.nodes.entries ↔
      tree.nodes.lookup location = some found := fun location found => AList.mem_lookup_iff.symm
  rw [nodeAt_ne_nil tree (by simp), ← listed]
  simp only [children, List.mem_filterMap]
  constructor
  · rintro ⟨⟨location, found⟩, member, shown⟩
    split at shown
    · rename_i inside
      obtain ⟨last, ends, same⟩ := Option.map_eq_some_iff.mp shown
      cases same
      have whole : directory ++ [name] = location := by
        rw [← inside]
        exact List.dropLast_append_getLast? name ends
      rw [whole]
      exact member
    · cases shown
  · intro member
    exact ⟨_, member, by simp⟩

/-- `Path::exists`: a dangling symlink does not. -/
def existsAt (tree : FileTree) (path : Location) : Bool := (tree.follow path).isSome

/-- `Path::is_dir`. -/
def isDir (tree : FileTree) (path : Location) : Bool :=
  (tree.follow path).bind tree.nodeAt = some .dir

/-- Where the last name of a path is or would be: in the directory the rest leads to. -/
def place (tree : FileTree) (path : Location) : Option Location :=
  match path.getLast?, tree.follow path.dropLast with
  | some name, some directory =>
      if tree.nodeAt directory = some .dir then some (directory ++ [name]) else none
  | _, _ => none

theorem place_inside {tree : FileTree} {path location : Location}
    (found : tree.place path = some location) :
    location ≠ [] ∧ tree.nodeAt location.dropLast = some .dir := by
  unfold place at found
  split at found
  · split at found
    · rename_i name directory _ _ inside
      cases found
      rw [List.dropLast_concat]
      exact ⟨List.append_ne_nil_of_right_ne_nil _ (by simp), inside⟩
    · cases found
  · cases found

/-- `fs::symlink_metadata`, as far as the kind of the node goes. -/
def symlinkMetadata (tree : FileTree) (path : Location) : Option Node :=
  (tree.place path).bind tree.nodeAt

/-- `fs::read_link`. -/
def readLink (tree : FileTree) (path : Location) : Option (List Char) :=
  match tree.symlinkMetadata path with
  | some (.symlink target) => some target
  | _ => none

/-- `Path::is_symlink`. -/
def isSymlink (tree : FileTree) (path : Location) : Bool := (tree.readLink path).isSome

/-- `Path::is_dir` for a path given by its components. -/
def isDirPath (tree : FileTree) (path : UnixPath.PathBuf) : Bool :=
  (tree.followPath path).bind tree.nodeAt = some .dir

/-- `fs::read_dir`: the names in a directory when it is opened. -/
def readDir (tree : FileTree) (path : UnixPath.PathBuf) : Option (List (List Char)) :=
  (tree.followPath path).bind fun directory =>
    if tree.nodeAt directory = some .dir then some ((tree.children directory).map Prod.fst)
    else none

/-- `fs::read`. -/
def read (tree : FileTree) (path : Location) : Option ByteArray :=
  match (tree.follow path).bind tree.nodeAt with
  | some (.file contents _) => some contents
  | _ => none

def mkdir (tree : FileTree) (path : Location) : Except String FileTree :=
  match found : tree.place path with
  | none => .error "No such file or directory"
  | some location =>
      if free : tree.nodeAt location = none then
        .ok (tree.insertNode location .dir (place_inside found).1 (place_inside found).2
          (by rw [free]; nofun))
      else
        .error "File exists"

/-- `fs::create_dir_all` on a path read from its end. Directories made before a
failure stay. -/
def createDirAllRev (tree : FileTree) : Location → FileTree × Except String Unit
  | [] => (tree, .ok ())
  | name :: above =>
      if tree.isDir (name :: above).reverse then
        (tree, .ok ())
      else
        match createDirAllRev tree above with
        | (made, .error reason) => (made, .error reason)
        | (made, .ok ()) =>
            match made.mkdir (name :: above).reverse with
            | .ok made => (made, .ok ())
            | .error reason => (made, .error reason)

def createDirAll (tree : FileTree) (path : Location) : FileTree × Except String Unit :=
  tree.createDirAllRev path.reverse

/-- `unix::fs::symlink`. -/
def symlink (tree : FileTree) (target : List Char) (path : Location) : Except String FileTree :=
  match found : tree.place path with
  | none => .error "No such file or directory"
  | some location =>
      if free : tree.nodeAt location = none then
        .ok (tree.insertNode location (.symlink target) (place_inside found).1
          (place_inside found).2 (by rw [free]; nofun))
      else
        .error "File exists"

/-- The mode of a file that is created with a umask of 022. -/
def newFileMode : Nat := 0o644

/-- `fs::write` on a path whose last name is not a symlink. -/
def write (tree : FileTree) (path : Location) (contents : ByteArray) : Except String FileTree :=
  match found : tree.place path with
  | none => .error "No such file or directory"
  | some location =>
      match present : tree.nodeAt location with
      | none => .ok (tree.insertNode location (.file contents newFileMode) (place_inside found).1
          (place_inside found).2 (by rw [present]; nofun))
      | some (.file _ mode) => .ok (tree.insertNode location (.file contents mode)
          (place_inside found).1 (place_inside found).2 (by rw [present]; nofun))
      | some .dir => .error "Is a directory"
      | some (.symlink _) => .error "Too many levels of symbolic links"

/-- `fs::set_permissions` on a regular file. -/
def setPermissions (tree : FileTree) (path : Location) (mode : Nat) : Except String FileTree :=
  match found : tree.place path with
  | none => .error "No such file or directory"
  | some location =>
      match present : tree.nodeAt location with
      | some (.file contents _) => .ok (tree.insertNode location (.file contents mode)
          (place_inside found).1 (place_inside found).2 (by rw [present]; nofun))
      | _ => .error "Operation not supported"

/-- `fs::remove_file`: a symlink goes itself, a directory does not. -/
def removeFile (tree : FileTree) (path : Location) : Except String FileTree :=
  match tree.place path with
  | none => .error "No such file or directory"
  | some location =>
      if tree.nodeAt location = none then
        .error "No such file or directory"
      else if leaf : tree.nodeAt location ≠ some .dir then
        .ok (tree.eraseNode location leaf)
      else
        .error "Is a directory"

/-- `fs::remove_dir_all` on a directory, with all that is in it. -/
def removeDirAll (tree : FileTree) (path : Location) : Except String FileTree :=
  match tree.place path with
  | none => .error "No such file or directory"
  | some location =>
      if tree.nodeAt location = some .dir then
        .ok (tree.eraseBelow location)
      else
        .error "Not a directory"

end FileTree

end NixRedox
