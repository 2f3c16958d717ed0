import NixRedox.FileRename
import NixRedox.SystemManifest

set_option autoImplicit false

/- `atomic_profile_swap` of `activate.rs`: the links of the new profile are made in a
staging directory, which then takes the place of the old profile. -/
namespace NixRedox.Activate

open NixRedox.System (Package)
open FileTree (Changed Grown Moved Unlinked)

section Paths

def stagingDir : Location := ["nix".toList, "system".toList, ".profile-staging".toList]

def profileDir : Location := ["nix".toList, "system".toList, "profile".toList]

def stagingBin : Location := stagingDir ++ ["bin".toList]

def profileBin : Location := profileDir ++ ["bin".toList]

def profileBinNew : Location := profileDir ++ ["bin.new".toList]

def profileBinOld : Location := profileDir ++ ["bin.old".toList]

end Paths

section Calls

/-- A call that fails for a reason of the system. A failing `create_dir_all` may have made
some of the directories. -/
structure Fault where
  reason : String
  made : Nat

/-- The calls that fail, by their number in the run. -/
abbrev Faults := Nat → Option Fault

/-- What a run of calls leaves behind: the file system, the number of calls so far, and the
result. -/
structure FsRun (α : Type) where
  tree : FileTree
  calls : Nat
  result : Except String α

variable {α β : Type}

def FsRun.pure (tree : FileTree) (calls : Nat) (value : α) : FsRun α := ⟨tree, calls, .ok value⟩

/-- `?`: go on with the value unless the run has failed. -/
def FsRun.bind (run : FsRun α) (next : α → FileTree → Nat → FsRun β) : FsRun β :=
  match run.result with
  | .error reason => ⟨run.tree, run.calls, .error reason⟩
  | .ok value => next value run.tree run.calls

/-- What holds of the file system when a run has failed and when it is done. -/
def FsRun.Meets (run : FsRun α) (failed : FileTree → Prop) (done : α → FileTree → Prop) : Prop :=
  match run.result with
  | .error _ => failed run.tree
  | .ok value => done value run.tree

theorem FsRun.Meets.bind {run : FsRun α} {next : α → FileTree → Nat → FsRun β}
    {failed : FileTree → Prop} {between : α → FileTree → Prop} {done : β → FileTree → Prop}
    (first : run.Meets failed between)
    (second : ∀ value tree calls, between value tree →
      (next value tree calls).Meets failed done) :
    (run.bind next).Meets failed done := by
  unfold FsRun.Meets at first
  unfold FsRun.bind
  split at first
  · exact first
  · rename_i value ended
    exact second value run.tree run.calls first

theorem FsRun.Meets.mono {run : FsRun α} {failed failed' : FileTree → Prop}
    {done done' : α → FileTree → Prop} (meets : run.Meets failed done)
    (weaker : ∀ tree, failed tree → failed' tree)
    (also : ∀ value tree, done value tree → done' value tree) : run.Meets failed' done' := by
  unfold FsRun.Meets at meets ⊢
  split at meets
  · exact weaker _ meets
  · exact also _ _ meets

variable (faults : Faults)

def createDirAll (path : Location) (tree : FileTree) (calls : Nat) : FsRun Unit :=
  match faults calls with
  | some fault =>
      ⟨(tree.createDirAll (path.take fault.made)).1, calls + 1, .error fault.reason⟩
  | none => ⟨(tree.createDirAll path).1, calls + 1, (tree.createDirAll path).2⟩

/-- A call that leaves the file system alone when it fails. -/
def attempt (act : FileTree → Except String FileTree) (tree : FileTree) (calls : Nat) :
    FsRun Unit :=
  match faults calls with
  | some fault => ⟨tree, calls + 1, .error fault.reason⟩
  | none =>
      match act tree with
      | .error reason => ⟨tree, calls + 1, .error reason⟩
      | .ok after => ⟨after, calls + 1, .ok ()⟩

def rename (old new : Location) (tree : FileTree) (calls : Nat) : FsRun Unit :=
  attempt faults (·.rename old new) tree calls

def symlink (target : List Char) (path : Location) (tree : FileTree) (calls : Nat) :
    FsRun Unit :=
  attempt faults (·.symlink target path) tree calls

/-- The entries of a directory, with their file types. -/
def readDir (directory : Location) (tree : FileTree) (calls : Nat) :
    FsRun (List (List Char × Node)) :=
  match faults calls with
  | some fault => ⟨tree, calls + 1, .error fault.reason⟩
  | none => ⟨tree, calls + 1, .ok (tree.children directory)⟩

end Calls

/-- Remove a path silently. `remove_dir_all` takes a symlink away itself. -/
def cleanupPath (tree : FileTree) (path : Location) : FileTree :=
  if tree.isDir path ∧ tree.isSymlink path = false then
    (tree.removeDirAll path).toOption.getD tree
  else if tree.isDir path ∨ tree.existsAt path ∨ (tree.symlinkMetadata path).isSome then
    (tree.removeFile path).toOption.getD tree
  else
    tree

section Populate

variable (faults : Faults) (cwd binDir : Location)

/-- The text of a package's `bin` directory. -/
def pkgBin (package : Package) : List Char :=
  UnixPath.join package.storePath.toList "bin".toList

/-- Where a package's `bin` leads, if that is a directory. -/
def pkgBinDir (tree : FileTree) (package : Package) : Option Location :=
  match tree.resolve FileTree.maxLinks cwd (UnixPath.components (pkgBin package)) with
  | none => none
  | some (_, directory) => if tree.nodeAt directory = some .dir then some directory else none

/-- Link a regular file of a package, in place of a link of its name. -/
def linkEntry (package : Package) (entry : List Char × Node) (count : UInt32)
    (tree : FileTree) (calls : Nat) : FsRun UInt32 :=
  match entry.2 with
  | .file _ _ =>
      let linkPath := binDir ++ [entry.1]
      let target := UnixPath.join (pkgBin package) entry.1
      let cleared :=
        if (tree.symlinkMetadata linkPath).isSome then tree.removeFile linkPath else .ok tree
      match cleared with
      | .error reason => ⟨tree, calls, .error reason⟩
      | .ok tree => (symlink faults target linkPath tree calls).bind fun _ tree calls =>
          .pure tree calls (count + 1)
  | .dir | .symlink _ => .pure tree calls count

def linkEntries (package : Package) :
    List (List Char × Node) → UInt32 → FileTree → Nat → FsRun UInt32
  | [], count, tree, calls => .pure tree calls count
  | entry :: rest, count, tree, calls =>
      (linkEntry faults binDir package entry count tree calls).bind fun count tree calls =>
        linkEntries package rest count tree calls

/-- Link the binaries of the packages one after the other, so that the last one wins. -/
def populateProfileDir : List Package → UInt32 → FileTree → Nat → FsRun UInt32
  | [], count, tree, calls => .pure tree calls count
  | package :: rest, count, tree, calls =>
      if package.storePath = "" then
        populateProfileDir rest count tree calls
      else
        match pkgBinDir cwd tree package with
        | none => populateProfileDir rest count tree calls
        | some directory =>
            (readDir faults directory tree calls).bind fun entries tree calls =>
              (linkEntries faults binDir package entries count tree calls).bind
                fun count tree calls => populateProfileDir rest count tree calls

end Populate

section Swap

variable (faults : Faults)

/-- The last step: the new profile takes the place of the old one, which comes back if that
fails. -/
def finishSwap (hadOld : Bool) (count : UInt32) (tree : FileTree) (calls : Nat) : FsRun UInt32 :=
  let run := rename faults profileBinNew profileBin tree calls
  match run.result with
  | .ok () =>
      let tree := if hadOld then cleanupPath run.tree profileBinOld else run.tree
      ⟨cleanupPath tree stagingDir, run.calls, .ok count⟩
  | .error reason =>
      let tree :=
        if hadOld then (run.tree.rename profileBinOld profileBin).toOption.getD run.tree
        else run.tree
      ⟨cleanupPath (cleanupPath tree profileBinNew) stagingDir, run.calls,
        .error ("atomic swap failed: " ++ reason)⟩

def atomicProfileSwap (cwd : Location) (packages : List Package) (tree : FileTree) :
    FsRun UInt32 :=
  let tree := cleanupPath tree stagingBin
  let tree := cleanupPath tree profileBinNew
  let tree := cleanupPath tree profileBinOld
  (createDirAll faults stagingBin tree 0).bind fun _ tree calls =>
  (populateProfileDir faults cwd stagingBin packages 0 tree calls).bind fun count tree calls =>
  (rename faults stagingBin profileBinNew tree calls).bind fun _ tree calls =>
  (createDirAll faults profileDir tree calls).bind fun _ tree calls =>
  if tree.existsAt profileBin ∨ (tree.symlinkMetadata profileBin).isSome then
    (rename faults profileBin profileBinOld tree calls).bind fun _ tree calls =>
      finishSwap faults true count tree calls
  else
    finishSwap faults false count tree calls

end Swap

section Cleanup

variable {tree : FileTree} {directory path location : Location} {name : List Char}

theorem removeFile_nodeAt (placed : tree.place path = some location)
    (there : tree.nodeAt location ≠ none) (leaf : tree.nodeAt location ≠ some .dir)
    (other : Location) :
    ((tree.removeFile path).toOption.getD tree).nodeAt other =
      if location <+: other then none else tree.nodeAt other := by
  have removed : tree.removeFile path = .ok (tree.eraseNode location leaf) := by
    simp only [FileTree.removeFile, placed, there, ↓reduceIte, leaf, ne_eq, not_false_eq_true,
      ↓reduceDIte]
  rw [removed, Except.toOption, Option.getD_some, FileTree.eraseNode_nodeAt]
  by_cases same : other = location
  · rw [if_pos same, if_pos (same ▸ List.prefix_rfl)]
  · rw [if_neg same]
    split
    · -- nothing is below what is no directory
      rename_i front
      obtain ⟨rest, rfl⟩ := front
      have below : rest ≠ [] := fun empty => same (by rw [empty, List.append_nil])
      by_contra present
      exact leaf (FileTree.nodeAt_append present below)
    · rfl

theorem removeDirAll_nodeAt (placed : tree.place path = some location)
    (inside : tree.nodeAt location = some .dir) (other : Location) :
    ((tree.removeDirAll path).toOption.getD tree).nodeAt other =
      if location <+: other then none else tree.nodeAt other := by
  have removed : tree.removeDirAll path = .ok (tree.eraseBelow location) := by
    simp only [FileTree.removeDirAll, placed, inside, ↓reduceIte]
  rw [removed, Except.toOption, Option.getD_some,
    FileTree.eraseBelow_nodeAt (FileTree.place_inside placed).1]

theorem isSymlink_unlinked (unlinked : Unlinked tree [] directory) (name : List Char) :
    tree.isSymlink (directory ++ [name]) = true ↔
      ∃ target, tree.nodeAt (directory ++ [name]) = some (.symlink target) := by
  rw [FileTree.isSymlink, FileTree.readLink, FileTree.symlinkMetadata_unlinked unlinked]
  split
  · rename_i target found
    simp [found]
  · rename_i plain
    simp only [Option.isSome_none, Bool.false_eq_true, false_iff]
    intro ⟨target, found⟩
    exact plain target found

/-- `cleanup_path` takes away whatever is at the path and below. -/
theorem cleanupPath_nodeAt (unlinked : Unlinked tree [] directory) (name : List Char)
    (other : Location) :
    (cleanupPath tree (directory ++ [name])).nodeAt other =
      if directory ++ [name] <+: other then none else tree.nodeAt other := by
  have meta_ := FileTree.symlinkMetadata_unlinked unlinked name
  have placed := FileTree.place_unlinked unlinked name
  have link := isSymlink_unlinked unlinked name
  by_cases absent : tree.nodeAt (directory ++ [name]) = none
  · have plain : Unlinked tree [] (directory ++ [name]) := by
      apply unlinked.concat
      intro target found
      rw [List.nil_append, absent] at found
      cases found
    have nowhere : tree.follow (directory ++ [name]) = none := by
      rw [FileTree.follow_unlinked plain, if_pos absent]
    have kept : cleanupPath tree (directory ++ [name]) = tree := by
      simp [cleanupPath, FileTree.isDir, FileTree.existsAt, nowhere, meta_, absent]
    rw [kept]
    split
    · rename_i front
      by_contra there
      exact FileTree.nodeAt_of_prefix there front absent
    · rfl
  · have inside := FileTree.nodeAt_append absent (List.cons_ne_nil _ _)
    rw [if_pos inside] at placed
    by_cases folder : tree.nodeAt (directory ++ [name]) = some .dir
    · have isDir : tree.isDir (directory ++ [name]) = true := by
        rw [FileTree.isDir, FileTree.follow_dir folder, decide_eq_true_eq]
        exact folder
      have plain : tree.isSymlink (directory ++ [name]) = false := by
        rw [← Bool.not_eq_true, link, folder]
        simp
      rw [cleanupPath, if_pos ⟨isDir, plain⟩]
      exact removeDirAll_nodeAt placed folder other
    · have leaf : ¬ (tree.isDir (directory ++ [name]) = true ∧
          tree.isSymlink (directory ++ [name]) = false) := by
        rintro ⟨isDir, plain⟩
        have straight : Unlinked tree [] (directory ++ [name]) := by
          apply unlinked.concat
          intro target found
          rw [← Bool.not_eq_true, link] at plain
          exact plain ⟨target, found⟩
        rw [FileTree.isDir, FileTree.follow_unlinked straight, if_neg absent,
          decide_eq_true_eq] at isDir
        exact folder isDir
      have present : (tree.symlinkMetadata (directory ++ [name])).isSome := by
        rw [meta_]
        exact Option.isSome_iff_ne_none.mpr absent
      rw [cleanupPath, if_neg leaf, if_pos (.inr (.inr present))]
      exact removeFile_nodeAt placed absent folder other

end Cleanup

section Beside

variable {tree now next : FileTree} {location path : Location}

/-- The profile and the staging directory are reached without symlinks. -/
structure Direct (tree : FileTree) : Prop where
  profile : Unlinked tree [] profileDir
  staging : Unlinked tree [] stagingDir

/-- The profile's `bin`, and all below it, is as it was. -/
structure Beside (tree now : FileTree) : Prop where
  direct : Direct now
  bin : ∀ rest, now.nodeAt (profileBin ++ rest) = tree.nodeAt (profileBin ++ rest)

/-- Changes outside of the profile's `bin` that put no symlink on the way to it. -/
def Harmless (now next : FileTree) : Prop :=
  ∀ other, next.nodeAt other = now.nodeAt other ∨
    (¬ profileBin <+: other ∧
      (4 ≤ other.length ∨ next.nodeAt other = none ∨ next.nodeAt other = some .dir))

theorem Harmless.unlinked (harmless : Harmless now next) (unlinked : Unlinked now [] path)
    (short : path.length < 4) : Unlinked next [] path := by
  apply unlinked.of_nodes
  intro front before
  rcases harmless front with same | ⟨_, long | gone | made⟩
  · exact .inl same
  · exact absurd (Nat.le_trans long before.length_le) (Nat.not_le.mpr short)
  · exact .inr (.inl gone)
  · exact .inr (.inr made)

theorem Harmless.direct (harmless : Harmless now next) (direct : Direct now) :
    Direct next :=
  ⟨harmless.unlinked direct.profile (by decide), harmless.unlinked direct.staging (by decide)⟩

theorem Beside.step (beside : Beside tree now) (harmless : Harmless now next) :
    Beside tree next where
  direct := harmless.direct beside.direct
  bin := by
    intro rest
    rcases harmless (profileBin ++ rest) with same | ⟨apart, _⟩
    · rw [same, beside.bin]
    · exact absurd (List.prefix_append _ _) apart

/-- Neither of two locations is inside the other. -/
def Separate (one two : Location) : Prop := ¬ one <+: two ∧ ¬ two <+: one

instance (one two : Location) : Decidable (Separate one two) :=
  inferInstanceAs (Decidable (_ ∧ _))

theorem not_below_both {one two other : Location} (apart : Separate one two)
    (first : one <+: other) : ¬ two <+: other := by
  intro second
  rcases List.prefix_or_prefix_of_prefix first second with before | after
  · exact apart.1 before
  · exact apart.2 after

theorem harmless_cleanup {directory : Location} (unlinked : Unlinked now [] directory)
    (name : List Char) (apart : Separate (directory ++ [name]) profileBin) :
    Harmless now (cleanupPath now (directory ++ [name])) := by
  intro other
  rw [cleanupPath_nodeAt unlinked]
  split
  · rename_i below
    exact .inr ⟨not_below_both apart below, .inr (.inl rfl)⟩
  · exact .inl rfl

theorem harmless_grown (grown : Grown now next path) (outside : ¬ profileBin <+: path) :
    Harmless now next := by
  intro other
  rcases grown other with same | ⟨_, made, before⟩
  · exact .inl same
  · exact .inr ⟨fun inside => outside (inside.trans before), .inr (.inr made)⟩

theorem harmless_moved {source target : Location} (moved : Moved now next source target)
    (long : 4 ≤ target.length) (first : Separate source profileBin)
    (second : Separate target profileBin) : Harmless now next := by
  intro other
  by_cases below : target <+: other
  · exact .inr ⟨not_below_both second below, .inl (Nat.le_trans long below.length_le)⟩
  · rw [moved.elsewhere other below]
    split
    · rename_i above
      exact .inr ⟨not_below_both first above, .inr (.inl rfl)⟩
    · exact .inl rfl

end Beside

section Staged

variable {faults : Faults} {cwd : Location} {tree start now : FileTree}
  {links : List Char → Option (List Char)} {package : Package}

/-- The directory holds nothing but links. -/
structure Filled (now : FileTree) (directory : Location)
    (links : List Char → Option (List Char)) : Prop where
  inside : now.nodeAt directory = some .dir
  link : ∀ name, now.nodeAt (directory ++ [name]) = (links name).map .symlink

/-- The staging directory holds nothing but links, and nothing else has changed. -/
structure Staged (start now : FileTree) (links : List Char → Option (List Char)) : Prop
    extends Filled now stagingBin links where
  elsewhere : ∀ other, ¬ stagingBin <+: other → now.nodeAt other = start.nodeAt other

/-- The links once a file has been linked. -/
def relink (links : List Char → Option (List Char)) (name : List Char)
    (target : Option (List Char)) (other : List Char) : Option (List Char) :=
  if other = name then target else links other

theorem Filled.place {directory : Location} (filled : Filled now directory links)
    (name : List Char) : now.place (directory ++ [name]) = some (directory ++ [name]) :=
  FileTree.place_dir filled.inside

/-- A change of one link. -/
theorem Staged.changed (staged : Staged start now links) {next : FileTree} {name : List Char}
    (target : Option (List Char))
    (changed : Changed now next (stagingBin ++ [name]) (target.map .symlink)) :
    Staged start next (relink links name target) where
  inside := by
    rw [changed, if_neg (by simp), staged.inside]
  link := by
    intro other
    rw [changed, relink]
    by_cases same : other = name
    · rw [if_pos same, if_pos (by rw [same])]
    · rw [if_neg same, if_neg (by simpa using same), staged.link]
  elsewhere := by
    intro other apart
    have differs : other ≠ stagingBin ++ [name] := by
      rintro rfl
      exact apart (List.prefix_append _ _)
    rw [changed, if_neg differs, staged.elsewhere other apart]

theorem relink_relink (links : List Char → Option (List Char)) (name : List Char)
    (before target : Option (List Char)) :
    relink (relink links name before) name target = relink links name target := by
  funext other
  unfold relink
  by_cases same : other = name
  · rw [if_pos same, if_pos same]
  · rw [if_neg same, if_neg same, if_neg same]

/-- Clearing the way for a link. -/
theorem Staged.cleared (staged : Staged start now links) (name : List Char) :
    ∃ next, (if (now.symlinkMetadata (stagingBin ++ [name])).isSome then
        now.removeFile (stagingBin ++ [name]) else .ok now) = .ok next ∧
      Staged start next (relink links name none) := by
  have meta_ : now.symlinkMetadata (stagingBin ++ [name]) = (links name).map .symlink := by
    rw [FileTree.symlinkMetadata, staged.place, Option.bind_some, staged.link]
  rw [meta_, Option.isSome_map]
  cases old : links name with
  | none =>
      have idle : Changed now now (stagingBin ++ [name]) none := by
        intro other
        split
        · rename_i same
          rw [same, staged.link, old]
          rfl
        · rfl
      exact ⟨now, rfl, staged.changed none idle⟩
  | some target =>
      rw [Option.isSome_some, if_pos rfl]
      cases removed : now.removeFile (stagingBin ++ [name]) with
      | error reason =>
          have kind := FileTree.removeFile_error (staged.place name) removed
          rw [staged.link, old] at kind
          rcases kind with none_ | folder
          · cases none_
          · cases folder
      | ok next =>
          obtain ⟨location, placed, _, _, changed⟩ := FileTree.removeFile_changed removed
          rw [staged.place, Option.some.injEq] at placed
          subst placed
          exact ⟨next, rfl, staged.changed none changed⟩

/-- A call fails and leaves the file system alone, or it does what it is for. -/
theorem attempt_meets {act : FileTree → Except String FileTree} {calls : Nat}
    {failed done : FileTree → Prop} (idle : failed now)
    (works : ∀ next, act now = .ok next → done next) :
    (attempt faults act now calls).Meets failed fun _ tree => done tree := by
  unfold attempt
  split
  · exact idle
  · split
    · exact idle
    · rename_i next acted
      exact works next acted

/-- A regular file is linked to, over an earlier link of its name. -/
def linkOf (package : Package) (links : List Char → Option (List Char))
    (entry : List Char × Node) : List Char → Option (List Char) :=
  match entry.2 with
  | .file _ _ => relink links entry.1 (some (UnixPath.join (pkgBin package) entry.1))
  | .dir | .symlink _ => links

theorem linkEntry_meets (staged : Staged start now links) (entry : List Char × Node)
    (count : UInt32) (calls : Nat) :
    (linkEntry faults stagingBin package entry count now calls).Meets
      (fun tree => ∃ links, Staged start tree links)
      (fun _ tree => Staged start tree (linkOf package links entry)) := by
  unfold linkEntry linkOf
  split
  · obtain ⟨next, cleared, rest⟩ := staged.cleared entry.1
    simp only [cleared]
    have linked : (symlink faults (UnixPath.join (pkgBin package) entry.1)
        (stagingBin ++ [entry.1]) next calls).Meets (fun tree => ∃ links, Staged start tree links)
        (fun _ tree => Staged start tree
          (relink links entry.1 (some (UnixPath.join (pkgBin package) entry.1)))) := by
      apply attempt_meets ⟨_, rest⟩
      intro after made
      obtain ⟨location, placed, _, changed⟩ := FileTree.symlink_changed made
      rw [rest.place, Option.some.injEq] at placed
      subst placed
      have final := rest.changed (some (UnixPath.join (pkgBin package) entry.1)) changed
      rwa [relink_relink] at final
    apply linked.bind
    intro _ tree calls made
    exact made
  · exact staged
  · exact staged

theorem linkEntries_meets (entries : List (List Char × Node))
    (staged : Staged start now links) (count : UInt32) (calls : Nat) :
    (linkEntries faults stagingBin package entries count now calls).Meets
      (fun tree => ∃ links, Staged start tree links)
      (fun _ tree => Staged start tree (entries.foldl (linkOf package) links)) := by
  induction entries generalizing now links count calls with
  | nil => exact staged
  | cons entry rest ih =>
      apply (linkEntry_meets staged entry count calls).bind
      intro count tree calls made
      exact ih made count calls

def isRegular : Node → Bool
  | .file _ _ => true
  | .dir | .symlink _ => false

/-- The names linked to by the entries of a directory. -/
theorem foldl_linkOf (entries : List (List Char × Node)) (name : List Char) :
    entries.foldl (linkOf package) links name =
      if entries.any (fun entry => entry.1 = name && isRegular entry.2) then
        some (UnixPath.join (pkgBin package) name)
      else links name := by
  induction entries generalizing links with
  | nil => rfl
  | cons entry rest ih =>
      obtain ⟨own, node⟩ := entry
      rw [List.foldl_cons, ih, List.any_cons]
      by_cases later : rest.any fun entry => entry.1 = name && isRegular entry.2
      · rw [if_pos later, if_pos (by rw [later, Bool.or_true])]
      · rw [if_neg later, eq_false_of_ne_true later, Bool.or_false]
        cases node with
        | file contents mode =>
            by_cases same : name = own
            · simp [linkOf, relink, isRegular, same]
            · simp [linkOf, relink, isRegular, same, Ne.symm same]
        | dir => simp [linkOf, isRegular]
        | symlink target => simp [linkOf, isRegular]

theorem children_any_regular (tree : FileTree) (directory : Location) (name : List Char) :
    (tree.children directory).any (fun entry => entry.1 = name && isRegular entry.2) =
      (tree.nodeAt (directory ++ [name])).any isRegular := by
  rw [Bool.eq_iff_iff, List.any_eq_true, Option.any_eq_true]
  constructor
  · intro ⟨⟨own, node⟩, member, same⟩
    simp only [Bool.and_eq_true, decide_eq_true_eq] at same
    obtain ⟨rfl, regular⟩ := same
    exact ⟨node, FileTree.mem_children.mp member, regular⟩
  · intro ⟨node, found, regular⟩
    exact ⟨(name, node), FileTree.mem_children.mpr found, by simpa using regular⟩

end Staged

section Provides

variable {faults : Faults} {cwd : Location} {tree start now : FileTree}
  {links : List Char → Option (List Char)} {packages : List Package}

/-- A package has a regular file of the name in its `bin`. -/
def provides (tree : FileTree) (cwd : Location) (name : List Char) (package : Package) : Bool :=
  package.storePath ≠ "" && (pkgBinDir cwd tree package).any fun directory =>
    (tree.nodeAt (directory ++ [name])).any isRegular

/-- The last of the packages that provides a binary. -/
def lastProvider (tree : FileTree) (cwd : Location) (packages : List Package)
    (name : List Char) : Option Package :=
  (packages.filter (provides tree cwd name)).getLast?

/-- The links of a profile: each binary is linked to in the last package that provides it. -/
def profileLinks (tree : FileTree) (cwd : Location) (packages : List Package)
    (name : List Char) : Option (List Char) :=
  (lastProvider tree cwd packages name).map fun package => UnixPath.join (pkgBin package) name

/-- Where a failed swap leaves something behind. -/
def Leftover (location : Location) : Prop :=
  stagingBin <+: location ∨ profileBinNew <+: location ∨ profileBinOld <+: location

instance (location : Location) : Decidable (Leftover location) :=
  inferInstanceAs (Decidable (_ ∨ _))

/-- The file system has only changed where a failed swap leaves something behind, and in
new directories on the way to the staging directory. -/
def Around (tree now : FileTree) : Prop :=
  ∀ other, now.nodeAt other = tree.nodeAt other ∨ Leftover other ∨
    (tree.nodeAt other = none ∧ now.nodeAt other = some .dir ∧ other <+: stagingDir)

/-- The binaries of a package do not depend on what a failed swap leaves behind. -/
def Apart (tree : FileTree) (cwd : Location) (package : Package) : Prop :=
  ∀ now, Around tree now → ∀ name, provides now cwd name package = provides tree cwd name package

theorem not_leftover {above : Location} (outside : ¬ Leftover (above ++ ["bin".toList]))
    (name : List Char) : ¬ Leftover (above ++ ["bin".toList] ++ [name]) := by
  -- the directory of a leftover is no `bin`
  have ends : ∀ directory : Location, ∀ leaf : List Char,
      directory ++ [leaf] = above ++ ["bin".toList] ++ [name] →
        directory.getLast? = some "bin".toList := by
    intro directory leaf same
    rw [(List.append_inj' same rfl).1, List.getLast?_concat]
  intro leftover
  rcases leftover with staging | new | old
  · rcases List.prefix_concat_iff.mp staging with same | inside
    · exact absurd (ends stagingDir _ same) (by decide)
    · exact outside (.inl inside)
  · rcases List.prefix_concat_iff.mp new with same | inside
    · exact absurd (ends profileDir _ same) (by decide)
    · exact outside (.inr (.inl inside))
  · rcases List.prefix_concat_iff.mp old with same | inside
    · exact absurd (ends profileDir _ same) (by decide)
    · exact outside (.inr (.inr inside))

/-- A package whose `bin` is a directory elsewhere does not depend on it. -/
theorem apart_of_dir {package : Package} (above : Location)
    (named : UnixPath.components (pkgBin package) =
      .rootDir :: (above ++ ["bin".toList]).map .normal)
    (inside : tree.nodeAt (above ++ ["bin".toList]) = some .dir)
    (outside : ¬ Leftover (above ++ ["bin".toList])) : Apart tree cwd package := by
  have found : ∀ after : FileTree, after.nodeAt (above ++ ["bin".toList]) = some .dir →
      pkgBinDir cwd after package = some (above ++ ["bin".toList]) := by
    intro after there
    have walked : after.walk cwd (.rootDir :: (above ++ ["bin".toList]).map .normal) =
        .found (above ++ ["bin".toList]) := by
      rw [FileTree.walk, FileTree.walk_dir (by simpa using there), List.nil_append]
    rw [pkgBinDir, named, FileTree.resolve_found walked]
    simp only [there, ↓reduceIte]
  intro now around name
  have there : now.nodeAt (above ++ ["bin".toList]) = some .dir := by
    rcases around (above ++ ["bin".toList]) with same | leftover | ⟨absent, _⟩
    · exact same.trans inside
    · exact absurd leftover outside
    · rw [absent] at inside
      cases inside
  have regular : (now.nodeAt (above ++ ["bin".toList] ++ [name])).any isRegular =
      (tree.nodeAt (above ++ ["bin".toList] ++ [name])).any isRegular := by
    rcases around (above ++ ["bin".toList] ++ [name]) with same | leftover | ⟨absent, made, _⟩
    · rw [same]
    · exact absurd leftover (not_leftover outside name)
    · rw [absent, made]
      rfl
  rw [provides, provides, found now there, found tree inside, Option.any_some, Option.any_some,
    regular]

theorem Staged.around (staged : Staged start now links) (around : Around tree start) :
    Around tree now := by
  intro other
  by_cases below : stagingBin <+: other
  · exact .inr (.inl (.inl below))
  · rw [staged.elsewhere other below]
    exact around other

theorem Leftover.below {front other : Location} (leftover : Leftover front)
    (before : front <+: other) : Leftover other := by
  rcases leftover with staging | new | old
  · exact .inl (staging.trans before)
  · exact .inr (.inl (new.trans before))
  · exact .inr (.inr (old.trans before))

theorem Around.cleanup {directory : Location} (around : Around tree now)
    (unlinked : Unlinked now [] directory) (name : List Char)
    (leftover : Leftover (directory ++ [name])) :
    Around tree (cleanupPath now (directory ++ [name])) := by
  intro other
  rw [cleanupPath_nodeAt unlinked]
  split
  · rename_i below
    exact .inr (.inl (leftover.below below))
  · exact around other

theorem Around.grown {next : FileTree} (around : Around tree now)
    (grown : Grown now next stagingBin) : Around tree next := by
  intro other
  rcases grown other with same | ⟨absent, made, before⟩
  · rw [same]
    exact around other
  · by_cases whole : other = stagingBin
    · exact .inr (.inl (.inl (whole ▸ List.prefix_rfl)))
    · have above : other <+: stagingDir := by
        rcases List.prefix_concat_iff.mp before with same | short
        · exact absurd same whole
        · exact short
      rcases around other with same | leftover | ⟨_, dir, _⟩
      · exact .inr (.inr ⟨same.symm.trans absent, made, above⟩)
      · exact .inr (.inl leftover)
      · rw [absent] at dir
        cases dir

/-- A provider at the head of the list counts where no later package provides the name. -/
theorem profileLinks_cons (package : Package) (rest : List Package) (name : List Char) :
    profileLinks tree cwd (package :: rest) name =
      (profileLinks tree cwd rest name).or
        (if provides tree cwd name package then some (UnixPath.join (pkgBin package) name)
        else none) := by
  unfold profileLinks lastProvider
  by_cases own : provides tree cwd name package
  · rw [List.filter_cons_of_pos own, List.getLast?_cons, if_pos own]
    cases (rest.filter (provides tree cwd name)).getLast? with
    | none => rfl
    | some last => rfl
  · rw [List.filter_cons_of_neg own, if_neg own, Option.or_none]

theorem populateProfileDir_meets (packages : List Package) (around : Around tree start)
    (staged : Staged start now links) (count : UInt32) (calls : Nat) :
    (populateProfileDir faults cwd stagingBin packages count now calls).Meets
      (fun after => ∃ links, Staged start after links)
      (fun _ after => ∃ filled, Staged start after filled ∧
        ((∀ package ∈ packages, Apart tree cwd package) → ∀ name,
          filled name = (profileLinks tree cwd packages name).or (links name))) := by
  induction packages generalizing now links count calls with
  | nil => exact ⟨links, staged, fun _ _ => rfl⟩
  | cons package rest ih =>
      -- a package of which nothing is linked
      have skipped : (∀ name, provides now cwd name package = false) →
          (populateProfileDir faults cwd stagingBin rest count now calls).Meets
            (fun after => ∃ links, Staged start after links)
            (fun _ after => ∃ filled, Staged start after filled ∧
              ((∀ own ∈ package :: rest, Apart tree cwd own) → ∀ name,
                filled name = (profileLinks tree cwd (package :: rest) name).or (links name))) := by
        intro nothing
        apply (ih staged count calls).mono (fun _ failed => failed)
        intro _ after ⟨filled, done, reads⟩
        refine ⟨filled, done, fun apart name => ?_⟩
        have own := apart package List.mem_cons_self now (staged.around around) name
        rw [nothing name] at own
        rw [reads (fun other member => apart other (List.mem_cons_of_mem _ member)),
          profileLinks_cons, ← own, if_neg Bool.false_ne_true, Option.or_none]
      rw [populateProfileDir]
      split
      · rename_i empty
        apply skipped
        intro name
        simp [provides, empty]
      · rename_i stored
        split
        · rename_i nowhere
          apply skipped
          intro name
          simp [provides, nowhere]
        · rename_i directory found
          have listed : (readDir faults directory now calls).Meets
              (fun after => ∃ links, Staged start after links)
              (fun entries after => after = now ∧ entries = now.children directory) := by
            unfold readDir
            split
            · exact ⟨links, staged⟩
            · exact ⟨rfl, rfl⟩
          apply listed.bind
          rintro entries tree_ calls ⟨rfl, rfl⟩
          apply (linkEntries_meets _ staged count calls).bind
          intro count after calls linked
          apply (ih linked count calls).mono (fun _ failed => failed)
          intro _ final ⟨filled, done, reads⟩
          refine ⟨filled, done, fun apart name => ?_⟩
          have own := apart package List.mem_cons_self _ (staged.around around) name
          have here : provides tree_ cwd name package =
              (tree_.nodeAt (directory ++ [name])).any isRegular := by
            simp [provides, stored, found]
          rw [reads (fun other member => apart other (List.mem_cons_of_mem _ member)),
            profileLinks_cons, foldl_linkOf, children_any_regular, ← here, own, Option.or_assoc]
          split
          · rw [Option.some_or]
          · rw [Option.none_or]

end Provides

section Steps

variable {faults : Faults} {tree now next : FileTree} {source target path : Location}
  {links : List Char → Option (List Char)}

theorem createDirAll_meets (unlinked : Unlinked now [] path) (calls : Nat) :
    (createDirAll faults path now calls).Meets (fun after => Grown now after path)
      (fun _ after => Grown now after path ∧ after.nodeAt path = some .dir) := by
  unfold createDirAll
  split
  · rename_i fault _
    have short : Unlinked now [] (path.take fault.made) := fun front some_ before =>
      unlinked front some_ (before.trans (List.take_prefix _ _))
    exact (FileTree.createDirAll_grown short).mono (List.take_prefix _ _)
  · unfold FsRun.Meets
    split
    · exact FileTree.createDirAll_grown unlinked
    · rename_i made
      have both : now.createDirAll path = ((now.createDirAll path).1, .ok ()) :=
        Prod.ext rfl made
      obtain ⟨inside, grown⟩ := FileTree.createDirAll_ok (FileTree.aim_unlinked unlinked) both
      exact ⟨grown, inside⟩

/-- A directory with all below it is as another one was. -/
theorem Filled.of_same {directory : Location} (filled : Filled now source links)
    (same : ∀ rest, next.nodeAt (directory ++ rest) = now.nodeAt (source ++ rest)) :
    Filled next directory links where
  inside := by
    have top := same []
    rwa [List.append_nil, List.append_nil, filled.inside] at top
  link := by
    intro name
    rw [same, filled.link]

theorem moved_same {directory : Location} (moved : Moved now next source target)
    (first : Separate source directory) (second : Separate target directory)
    (rest : Location) :
    next.nodeAt (directory ++ rest) = now.nodeAt (directory ++ rest) := by
  have below := List.prefix_append directory rest
  rw [moved.elsewhere _ fun above => not_below_both second above below,
    if_neg fun above => not_below_both first above below]

/-- Nothing moved into or out of the directories named by a path puts a symlink there. -/
theorem moved_unlinked (moved : Moved now next source target) (unlinked : Unlinked now [] path)
    (long : path.length < target.length) : Unlinked next [] path := by
  apply unlinked.of_nodes
  intro front before
  have outside : ¬ target <+: front := fun inside =>
    absurd (inside.trans before).length_le (Nat.not_le.mpr long)
  rw [moved.elsewhere front outside]
  split
  · exact .inr (.inl rfl)
  · exact .inl rfl

theorem moved_direct (moved : Moved now next source target) (direct : Direct now)
    (long : target.length = 4) : Direct next :=
  ⟨moved_unlinked moved direct.profile (long ▸ by decide),
    moved_unlinked moved direct.staging (long ▸ by decide)⟩

theorem cleanup_direct {directory : Location} (direct : Direct now)
    (unlinked : Unlinked now [] directory) (name : List Char) :
    Direct (cleanupPath now (directory ++ [name])) := by
  have gone : ∀ other, (cleanupPath now (directory ++ [name])).nodeAt other = now.nodeAt other ∨
      (cleanupPath now (directory ++ [name])).nodeAt other = none := by
    intro other
    rw [cleanupPath_nodeAt unlinked]
    split
    · exact .inr rfl
    · exact .inl rfl
  exact ⟨direct.profile.of_nodes fun front _ => (gone front).imp_right .inl,
    direct.staging.of_nodes fun front _ => (gone front).imp_right .inl⟩

theorem cleanup_same {directory kept : Location} (unlinked : Unlinked now [] directory)
    (name : List Char) (apart : Separate (directory ++ [name]) kept) (rest : Location) :
    (cleanupPath now (directory ++ [name])).nodeAt (kept ++ rest) = now.nodeAt (kept ++ rest) := by
  rw [cleanupPath_nodeAt unlinked,
    if_neg fun above => not_below_both apart above (List.prefix_append kept rest)]

end Steps

section Swap

variable {faults : Faults} {cwd : Location} {tree now : FileTree}
  {links : List Char → Option (List Char)} {packages : List Package}

/-- The profile's `bin` is as it was. -/
def Intact (tree after : FileTree) : Prop :=
  ∀ rest, after.nodeAt (profileBin ++ rest) = tree.nodeAt (profileBin ++ rest)

/-- What is there when the staging directory has been made. -/
structure Ready (tree start : FileTree) : Prop where
  beside : Beside tree start
  around : Around tree start
  empty : Staged start start fun _ => none

theorem prepared_meets (direct : Direct tree) :
    let cleared := cleanupPath (cleanupPath (cleanupPath tree stagingBin) profileBinNew)
      profileBinOld
    (createDirAll faults stagingBin cleared 0).Meets (Intact tree)
      (fun _ start => Ready tree start) := by
  intro cleared
  have start : Beside tree tree := ⟨direct, fun _ => rfl⟩
  have one := start.step (harmless_cleanup direct.staging "bin".toList (by decide))
  have two := one.step (harmless_cleanup one.direct.profile "bin.new".toList (by decide))
  have three := two.step (harmless_cleanup two.direct.profile "bin.old".toList (by decide))
  have around : Around tree cleared := by
    have same : Around tree tree := fun _ => .inl rfl
    have first := same.cleanup direct.staging "bin".toList (.inl List.prefix_rfl)
    have second := first.cleanup one.direct.profile "bin.new".toList
      (.inr (.inl List.prefix_rfl))
    exact second.cleanup two.direct.profile "bin.old".toList (.inr (.inr List.prefix_rfl))
  have gone : ∀ rest, cleared.nodeAt (stagingBin ++ rest) = none := by
    intro rest
    have second := cleanup_same one.direct.profile "bin.new".toList
      (show Separate _ stagingBin by decide) rest
    have third := cleanup_same two.direct.profile "bin.old".toList
      (show Separate _ stagingBin by decide) rest
    have first := (cleanupPath_nodeAt direct.staging "bin".toList (stagingBin ++ rest)).trans
      (if_pos (List.prefix_append stagingBin rest))
    exact third.trans (second.trans first)
  have straight : Unlinked cleared [] stagingBin := by
    apply three.direct.staging.concat
    intro target found
    have absent := gone []
    rw [List.append_nil] at absent
    cases absent.symm.trans found
  apply (createDirAll_meets straight 0).mono
  · intro after grown
    exact (three.step (harmless_grown grown (by decide))).bin
  · intro _ after ⟨grown, inside⟩
    refine ⟨three.step (harmless_grown grown (by decide)), around.grown grown,
      ⟨inside, ?_⟩, fun _ _ => rfl⟩
    intro name
    rcases grown (stagingBin ++ [name]) with same | ⟨_, _, before⟩
    · rw [same, gone]
      rfl
    · exact absurd before.length_le (by simp)

theorem Staged.harmless {start : FileTree} (staged : Staged start now links) :
    Harmless start now := by
  intro other
  by_cases below : stagingBin <+: other
  · exact .inr ⟨not_below_both (by decide) below, .inl below.length_le⟩
  · exact .inl (staged.elsewhere other below)

/-- What is there when the new profile is complete. -/
structure Loaded (tree now : FileTree) (directory : Location)
    (links : List Char → Option (List Char)) : Prop where
  beside : Beside tree now
  filled : Filled now directory links

theorem Ready.populated {start : FileTree} (ready : Ready tree start) (calls : Nat) :
    (populateProfileDir faults cwd stagingBin packages 0 start calls).Meets (Intact tree)
      (fun _ after => ∃ links, Loaded tree after stagingBin links ∧
        ((∀ package ∈ packages, Apart tree cwd package) →
          links = profileLinks tree cwd packages)) := by
  apply (populateProfileDir_meets packages ready.around ready.empty 0 calls).mono
  · intro after ⟨links, staged⟩
    exact (ready.beside.step staged.harmless).bin
  · intro _ after ⟨links, staged, reads⟩
    refine ⟨links, ⟨ready.beside.step staged.harmless, staged.toFilled⟩, fun apart => ?_⟩
    funext name
    rw [reads apart, Option.or_none]

/-- The complete profile is put beside the old one. -/
theorem Loaded.renamed (loaded : Loaded tree now stagingBin links) (calls : Nat) :
    (rename faults stagingBin profileBinNew now calls).Meets (Intact tree)
      (fun _ after => Loaded tree after profileBinNew links) := by
  apply attempt_meets loaded.beside.bin
  intro next renamed
  have moved : Moved now next stagingBin profileBinNew :=
    FileTree.rename_unlinked loaded.beside.direct.staging loaded.beside.direct.profile
      (by decide) renamed
  exact ⟨loaded.beside.step (harmless_moved moved (by decide) (by decide) (by decide)),
    loaded.filled.of_same moved.below⟩

/-- The directory of the profile is there already. -/
theorem Loaded.created (loaded : Loaded tree now profileBinNew links) (calls : Nat) :
    (createDirAll faults profileDir now calls).Meets (Intact tree)
      (fun _ after => Loaded tree after profileBinNew links) := by
  apply (createDirAll_meets loaded.beside.direct.profile calls).mono
  · intro after grown
    exact (loaded.beside.step (harmless_grown grown (by decide))).bin
  · intro _ after ⟨grown, _⟩
    refine ⟨loaded.beside.step (harmless_grown grown (by decide)), loaded.filled.of_same ?_⟩
    intro rest
    rcases grown (profileBinNew ++ rest) with same | ⟨_, _, before⟩
    · exact same
    · exact absurd ((List.prefix_append _ _).trans before) (by decide)

/-- The old profile has been put aside, and the new one waits beside it. -/
structure Aside (tree now : FileTree) (links : List Char → Option (List Char)) : Prop where
  direct : Direct now
  there : now.nodeAt profileBinOld ≠ none
  old : ∀ rest, now.nodeAt (profileBinOld ++ rest) = tree.nodeAt (profileBin ++ rest)
  free : now.nodeAt profileBin = none
  filled : Filled now profileBinNew links

theorem Loaded.aside (loaded : Loaded tree now profileBinNew links) (calls : Nat) :
    (rename faults profileBin profileBinOld now calls).Meets (Intact tree)
      (fun _ after => Aside tree after links) := by
  apply attempt_meets loaded.beside.bin
  intro next renamed
  have moved : Moved now next profileBin profileBinOld :=
    FileTree.rename_unlinked loaded.beside.direct.profile loaded.beside.direct.profile
      (by decide) renamed
  refine ⟨moved_direct moved loaded.beside.direct rfl, ?_, ?_, ?_, ?_⟩
  · have top := moved.below []
    rw [List.append_nil, List.append_nil] at top
    rw [top]
    exact moved.there
  · intro rest
    rw [moved.below, loaded.beside.bin]
  · rw [moved.elsewhere _ (by decide), if_pos List.prefix_rfl]
  · exact loaded.filled.of_same (moved_same moved (by decide) (by decide))

/-- The old profile comes back where it was. -/
theorem Aside.rollback (aside : Aside tree now links) :
    Intact tree ((now.rename profileBinOld profileBin).toOption.getD now) ∧
      Direct ((now.rename profileBinOld profileBin).toOption.getD now) := by
  have below : now.nodeAt (profileDir ++ ["bin.old".toList]) ≠ none := aside.there
  have inside : now.nodeAt profileDir = some .dir :=
    FileTree.nodeAt_append below (List.cons_ne_nil _ _)
  have placedOld : now.place profileBinOld = some profileBinOld := FileTree.place_dir inside
  have placed : now.place profileBin = some profileBin := FileTree.place_dir inside
  obtain ⟨next, renamed⟩ :=
    FileTree.rename_free placedOld placed aside.there aside.free (by decide)
  have moved := FileTree.rename_moved placedOld placed (by decide) renamed
  rw [renamed]
  refine ⟨?_, moved_direct moved aside.direct rfl⟩
  intro rest
  exact (moved.below rest).trans (aside.old rest)

/-- What is removed at the end is not the profile. -/
theorem finished_same (direct : Direct now) (rest : Location) :
    (cleanupPath now stagingDir).nodeAt (profileBin ++ rest) =
      now.nodeAt (profileBin ++ rest) := by
  have above : Unlinked now [] ["nix".toList, "system".toList] := fun front some_ before =>
    direct.profile front some_ (before.trans (List.prefix_append _ _))
  exact cleanup_same above ".profile-staging".toList (show Separate _ profileBin by decide) rest

/-- The last rename puts the new profile in place, or `before` is what it leaves. -/
theorem finishSwap_meets (hadOld : Bool) (count : UInt32) (calls : Nat) (direct : Direct now)
    (filled : Filled now profileBinNew links) {before : FileTree} (back : Direct before)
    (restored : before =
      if hadOld then (now.rename profileBinOld profileBin).toOption.getD now else now)
    (intact : Intact tree before) :
    (finishSwap faults hadOld count now calls).Meets (Intact tree)
      (fun _ after => Filled after profileBin links) := by
  have swapped : (rename faults profileBinNew profileBin now calls).Meets (· = now)
      (fun _ next => Moved now next profileBinNew profileBin) := by
    refine attempt_meets ?_ ?_
    · rfl
    · intro next renamed
      exact FileTree.rename_unlinked direct.profile direct.profile (by decide) renamed
  unfold FsRun.Meets at swapped
  unfold finishSwap
  dsimp only
  split at swapped
  · rename_i reason ended
    rw [ended, swapped, ← restored]
    intro rest
    have first := cleanup_direct back back.profile "bin.new".toList
    have second := cleanup_same back.profile "bin.new".toList
      (show Separate _ profileBin by decide) rest
    exact (finished_same first rest).trans (second.trans (intact rest))
  · rename_i ended
    rw [ended]
    have after := moved_direct swapped direct rfl
    have placed : Filled (rename faults profileBinNew profileBin now calls).tree profileBin links :=
      filled.of_same swapped.below
    cases hadOld with
    | false => exact placed.of_same (finished_same after)
    | true =>
        have first := cleanup_direct after after.profile "bin.old".toList
        have second := placed.of_same (cleanup_same after.profile "bin.old".toList
          (show Separate _ profileBin by decide))
        exact second.of_same (finished_same first)

/-- Whatever fails, a failed swap leaves the profile's `bin` as it was, and a swap that works
fills it with the links to the last providers. -/
theorem atomicProfileSwap_meets (faults : Faults) (cwd : Location) (packages : List Package)
    (tree : FileTree) (direct : Direct tree) :
    (atomicProfileSwap faults cwd packages tree).Meets (Intact tree)
      (fun _ after => (∀ package ∈ packages, Apart tree cwd package) →
        Filled after profileBin (profileLinks tree cwd packages)) := by
  unfold atomicProfileSwap
  apply (prepared_meets direct).bind
  intro _ start calls ready
  apply (ready.populated calls).bind
  intro count staged calls ⟨links, loaded, reads⟩
  apply (loaded.renamed calls).bind
  intro _ waiting calls loaded
  apply (loaded.created calls).bind
  intro _ now calls loaded
  split
  · apply (loaded.aside calls).bind
    intro _ next calls aside
    obtain ⟨intact, back⟩ := aside.rollback
    apply (finishSwap_meets true count calls aside.direct aside.filled back rfl intact).mono
      (fun _ failed => failed)
    intro _ after filled apart
    exact reads apart ▸ filled
  · apply (finishSwap_meets false count calls loaded.beside.direct loaded.filled
      loaded.beside.direct rfl loaded.beside.bin).mono (fun _ failed => failed)
    intro _ after filled apart
    exact reads apart ▸ filled

/-- Two packages with a shell, and an old profile. -/
def shellsTree : FileTree :=
  FileTree.ofEntries
    [(["nix".toList], .dir), (["nix".toList, "system".toList], .dir), (profileDir, .dir),
      (profileBin, .dir), (profileBin ++ ["old".toList], .symlink "/nix/store/c/bin/old".toList),
      (["nix".toList, "store".toList], .dir), (["nix".toList, "store".toList, ['a']], .dir),
      (["nix".toList, "store".toList, ['a'], "bin".toList], .dir),
      (["nix".toList, "store".toList, ['a'], "bin".toList, "sh".toList], .file ⟨#[1]⟩ 0o555),
      (["nix".toList, "store".toList, ['b']], .dir),
      (["nix".toList, "store".toList, ['b'], "bin".toList], .dir),
      (["nix".toList, "store".toList, ['b'], "bin".toList, "sh".toList], .file ⟨#[2]⟩ 0o555)]
    (by decide +kernel) (by decide +kernel)

def shells : List Package := [⟨"a", "1", "/nix/store/a"⟩, ⟨"b", "1", "/nix/store/b"⟩]

theorem shells_swapped :
    (atomicProfileSwap (fun _ => none) [] shells shellsTree).Meets (Intact shellsTree)
      (fun _ after => Filled after profileBin (profileLinks shellsTree [] shells)) ∧
    profileLinks shellsTree [] shells "sh".toList = some "/nix/store/b/bin/sh".toList := by
  have direct : Direct shellsTree := by
    refine ⟨FileTree.unlinked_of_dir (by decide +kernel), ?_⟩
    have above : FileTree.Unlinked shellsTree [] ["nix".toList, "system".toList] :=
      FileTree.unlinked_of_dir (by decide +kernel)
    have free : shellsTree.nodeAt stagingDir = none := by decide +kernel
    apply above.concat
    intro target found
    cases free.symm.trans found
  have apart : ∀ package ∈ shells, Apart shellsTree [] package := by
    intro package member
    simp only [shells, List.mem_cons, List.not_mem_nil, or_false] at member
    rcases member with rfl | rfl
    · exact apart_of_dir ["nix".toList, "store".toList, ['a']] (by decide +kernel)
        (by decide +kernel) (by decide +kernel)
    · exact apart_of_dir ["nix".toList, "store".toList, ['b']] (by decide +kernel)
        (by decide +kernel) (by decide +kernel)
  refine ⟨?_, by decide +kernel⟩
  apply (atomicProfileSwap_meets _ _ shells shellsTree direct).mono (fun _ failed => failed)
  intro _ after filled
  exact filled apart

/-- The staging directory is a symlink to the profile. -/
def linkedTree : FileTree :=
  FileTree.ofEntries
    [(["nix".toList], .dir), (["nix".toList, "system".toList], .dir), (profileDir, .dir),
      (profileBin, .dir), (stagingDir, .symlink "/nix/system/profile".toList)]
    (by decide +kernel) (by decide +kernel)

/-- The clean-up takes the profile's `bin` away before the first step fails. -/
theorem linked_staging_not_intact :
    ¬ (atomicProfileSwap (fun _ => some ⟨"No space left on device", 0⟩) [] [] linkedTree).Meets
      (Intact linkedTree)
      (fun _ after => Filled after profileBin (profileLinks linkedTree [] [])) := by
  have failed : (atomicProfileSwap (fun _ => some ⟨"No space left on device", 0⟩) [] []
      linkedTree).result = .error "No space left on device" := rfl
  have gone : (atomicProfileSwap (fun _ => some ⟨"No space left on device", 0⟩) [] []
      linkedTree).tree.nodeAt profileBin = none := by decide +kernel
  have before : linkedTree.nodeAt profileBin = some .dir := by decide +kernel
  intro meets
  unfold FsRun.Meets at meets
  rw [failed] at meets
  have same := meets []
  rw [List.append_nil, gone, before] at same
  cases same

end Swap

end NixRedox.Activate
