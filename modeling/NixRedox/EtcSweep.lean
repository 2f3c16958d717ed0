import NixRedox.EtcFarm

set_option autoImplicit false

/- Where the links of the farm lead, which of them the sweep takes away, and when the
setup as a whole is right. -/
namespace NixRedox.Activate

open UnixPath (components absoluteText Proper)
open FileTree (Changed Named Unlinked)

/-- `/etc/static` leads to an etc derivation. -/
structure Standing (source : StorePath) (tree : FileTree) : Prop where
  etc : tree.nodeAt etcPath = some .dir
  static : tree.nodeAt etcStaticPath = some (.symlink source.toAbsolutePath)
  stored : Stored source tree

section Resolve

variable {source : StorePath} {tree : FileTree} {names : Location} {target : List Char}

/-- A path through `/etc/static` leads into the derivation. -/
theorem Standing.resolve (standing : Standing source tree) (here names : Location) (links : Nat) :
    tree.resolve (links + 1) here
        (.rootDir :: (etcStaticPath ++ (etcPath ++ names)).map .normal) =
      if sourceNode source tree names = none then none
      else some ([etcStaticPath], storeLocation source ++ (etcPath ++ names)) := by
  have walked : tree.walk here (.rootDir :: (etcStaticPath ++ (etcPath ++ names)).map .normal) =
      .link etcStaticPath source.toAbsolutePath ((etcPath ++ names).map .normal) := by
    rw [FileTree.walk, List.map_append]
    show tree.walk [] (.normal "etc".toList :: .normal "static".toList :: _) = _
    rw [FileTree.walk_normal_dir standing.etc]
    exact FileTree.walk_normal_symlink standing.static
  have inner : tree.walk etcStaticPath.dropLast
      (components source.toAbsolutePath ++ (etcPath ++ names).map .normal) =
        tree.walk [] ((storeLocation source ++ (etcPath ++ names)).map .normal) := by
    rw [components_source, List.cons_append, FileTree.walk, ← List.map_append]
  rw [FileTree.resolve_link walked, FileTree.resolve_of_walk_eq inner,
    FileTree.resolve_unlinked (FileTree.nodeAt_nil tree) (standing.stored.unlinked _),
    List.nil_append, sourceNode]
  split
  · rfl
  · rfl

theorem Standing.followPath (standing : Standing source tree) (farmed : Farmed names target) :
    tree.followPath (components target) =
      if sourceNode source tree names = none then none
      else some (storeLocation source ++ (etcPath ++ names)) := by
  rw [farmed, FileTree.followPath, FileTree.maxLinks, standing.resolve]
  split
  · rfl
  · rfl

theorem walk_symlink {directory : Location} {name : List Char}
    (found : tree.nodeAt (directory ++ [name]) = some (.symlink target)) :
    tree.walk [] ((directory ++ [name]).map .normal) = .link (directory ++ [name]) target [] := by
  have inside : tree.nodeAt directory = some .dir :=
    FileTree.nodeAt_append (by rw [found]; simp) (by simp)
  rw [List.map_append, FileTree.walk_append (FileTree.walk_dir inside) inside, List.nil_append]
  exact FileTree.walk_normal_symlink found

/-- The path of a file leads through its link and `/etc/static`. -/
theorem Standing.resolve_link (standing : Standing source tree)
    (below : names ≠ []) (found : tree.nodeAt (etcPath ++ names) = some (.symlink target))
    (farmed : Farmed names target) (file : IsFile (sourceNode source tree names)) :
    tree.resolve FileTree.maxLinks [] ((etcPath ++ names).map .normal) =
      some ([etcPath ++ names, etcStaticPath], storeLocation source ++ (etcPath ++ names)) := by
  obtain ⟨front, last, rfl⟩ := (List.eq_nil_or_concat' names).resolve_left below
  have walked := found
  rw [← List.append_assoc] at walked
  rw [FileTree.maxLinks, ← List.append_assoc, FileTree.resolve_link (walk_symlink walked),
    List.append_nil, farmed, standing.resolve, if_neg file.ne_none, List.append_assoc]
  rfl

/-- A file is read through its link. -/
theorem Standing.read {contents : ByteArray} {mode : Nat} (standing : Standing source tree)
    (below : names ≠ []) (found : tree.nodeAt (etcPath ++ names) = some (.symlink target))
    (farmed : Farmed names target)
    (file : sourceNode source tree names = some (.file contents mode)) :
    tree.read (etcPath ++ names) = some contents := by
  have resolved := standing.resolve_link below found farmed ⟨contents, mode, file⟩
  rw [sourceNode] at file
  rw [FileTree.read, FileTree.follow, resolved, Option.map_some, Option.bind_some, file]

end Resolve

/-- A link into `/etc/static` that is no link of a file of the derivation. -/
def Loose (source : StorePath) (tree : FileTree) (location : Location) : Prop :=
  ∃ target, tree.nodeAt location = some (.symlink target) ∧ staticLead <+: target ∧
    ∀ own, Farmed own target → sourceNode source tree own = none

/-- A link into `/etc/static` for which the derivation has nothing. -/
def Stale (source : StorePath) (tree : FileTree) (location : Location) : Prop :=
  ∃ target own, tree.nodeAt location = some (.symlink target) ∧ staticLead <+: target ∧
    Farmed own target ∧ sourceNode source tree own = none

/-- Some loose links are gone. The sweep does not enter directories called `static`. -/
def Swept (source : StorePath) (tree after : FileTree) : Prop :=
  ∀ location, after.nodeAt location = tree.nodeAt location ∨
    ∃ names, location = etcPath ++ names ∧ "static".toList ∉ names.dropLast ∧
      Loose source tree location ∧ after.nodeAt location = none

namespace Swept

variable {source : StorePath} {tree between after : FileTree} {location : Location}

theorem refl (source : StorePath) (tree : FileTree) : Swept source tree tree := fun _ => .inl rfl

theorem outside (swept : Swept source tree after) (apart : ¬ etcPath <+: location) :
    after.nodeAt location = tree.nodeAt location := by
  rcases swept location with same | ⟨names, rfl, _⟩
  · exact same
  · exact absurd (List.prefix_append _ _) apart

theorem sourceNode_eq (swept : Swept source tree after) (names : Location) :
    sourceNode source after names = sourceNode source tree names :=
  swept.outside (storeLocation_apart source _)

/-- What is still there has not changed. -/
theorem nodeAt_eq (swept : Swept source tree after) (there : after.nodeAt location ≠ none) :
    after.nodeAt location = tree.nodeAt location := by
  rcases swept location with same | ⟨_, _, _, _, gone⟩
  · exact same
  · exact absurd gone there

theorem dirs (swept : Swept source tree after) (inside : tree.nodeAt location = some .dir) :
    after.nodeAt location = some .dir := by
  rcases swept location with same | ⟨_, _, _, ⟨target, found, _⟩, _⟩
  · exact same.trans inside
  · rw [found] at inside
    cases inside

theorem stale (swept : Swept source tree after) (stale : Stale source after location) :
    Stale source tree location := by
  obtain ⟨target, own, found, lead, farmed, nothing⟩ := stale
  have same := swept.nodeAt_eq (by rw [found]; simp)
  rw [swept.sourceNode_eq] at nothing
  exact ⟨target, own, same.symm.trans found, lead, farmed, nothing⟩

theorem loose (swept : Swept source tree after) (loose : Loose source after location) :
    Loose source tree location := by
  obtain ⟨target, found, lead, nothing⟩ := loose
  have same := swept.nodeAt_eq (by rw [found]; simp)
  refine ⟨target, same.symm.trans found, lead, ?_⟩
  intro own farmed
  rw [← swept.sourceNode_eq]
  exact nothing own farmed

theorem trans (first : Swept source tree between) (second : Swept source between after) :
    Swept source tree after := by
  intro location
  rcases second location with same | ⟨names, rfl, reached, loose, gone⟩
  · rcases first location with early | ⟨names, rfl, reached, loose, gone⟩
    · exact .inl (same.trans early)
    · exact .inr ⟨names, rfl, reached, loose, same.trans gone⟩
  · exact .inr ⟨names, rfl, reached, first.loose loose, gone⟩

theorem standing (swept : Swept source tree after) (standing : Standing source tree) :
    Standing source after where
  etc := swept.dirs standing.etc
  static := by
    rcases swept etcStaticPath with same | ⟨_, _, _, ⟨target, found, lead, _⟩, _⟩
    · exact same.trans standing.static
    · rw [standing.static] at found
      cases found
      exact absurd lead (source_not_lead source)
  stored := standing.stored.congr fun names => swept.outside (storeLocation_apart source names)

end Swept

section Sweep

variable {source : StorePath} {tree after : FileTree} {directory names : Location}
  {name target : List Char}

theorem readLink_dir (inside : tree.nodeAt directory = some .dir) :
    tree.readLink (directory ++ [name]) = some target ↔
      tree.nodeAt (directory ++ [name]) = some (.symlink target) := by
  rw [FileTree.readLink, FileTree.symlinkMetadata_dir inside]
  split
  · rename_i found
    simp [found]
  · rename_i other
    constructor
    · simp
    · intro found
      exact absurd found (other target)

theorem isDir_dir (inside : tree.nodeAt directory = some .dir) :
    (tree.isDir (directory ++ [name]) = true ∧ ¬ tree.isSymlink (directory ++ [name]) = true) ↔
      tree.nodeAt (directory ++ [name]) = some .dir := by
  constructor
  · rintro ⟨leads, plain⟩
    have unlinked : Unlinked tree [] (directory ++ [name]) := by
      apply (FileTree.unlinked_of_dir inside).concat
      intro target found
      apply plain
      rw [FileTree.isSymlink, (readLink_dir inside).mpr found]
      rfl
    rw [FileTree.isDir, FileTree.follow_unlinked unlinked, decide_eq_true_eq] at leads
    split at leads
    · cases leads
    · exact leads
  · intro own
    refine ⟨?_, ?_⟩
    · rw [FileTree.isDir, FileTree.follow_dir own, decide_eq_true_eq]
      exact own
    · rw [FileTree.isSymlink, Option.isSome_iff_exists]
      rintro ⟨target, read⟩
      rw [(readLink_dir inside).mp read] at own
      cases own

theorem tryRemoveFile_link (inside : tree.nodeAt directory = some .dir)
    (found : tree.nodeAt (directory ++ [name]) = some (.symlink target)) :
    Changed tree (tryRemoveFile tree (directory ++ [name])) (directory ++ [name]) none := by
  unfold tryRemoveFile
  cases removed : tree.removeFile (directory ++ [name]) with
  | ok after =>
      obtain ⟨location, placed, _, _, changed⟩ := FileTree.removeFile_changed removed
      rw [FileTree.place_dir inside] at placed
      cases placed
      exact changed
  | error reason =>
      rcases FileTree.removeFile_error (FileTree.place_dir inside) removed with absent | own
      · rw [absent] at found
        cases found
      · rw [own] at found
        cases found

/-- A link that goes is loose, and a stale one goes. -/
theorem cleanStaleLink_swept (standing : Standing source tree)
    (reached : "static".toList ∉ names) (inside : tree.nodeAt (etcPath ++ names) = some .dir)
    (found : tree.nodeAt (etcPath ++ names ++ [name]) = some (.symlink target)) :
    Swept source tree (cleanStaleLink (etcPath ++ names ++ [name]) staticLead target tree) ∧
      ¬ Stale source (cleanStaleLink (etcPath ++ names ++ [name]) staticLead target tree)
        (etcPath ++ names ++ [name]) := by
  unfold cleanStaleLink
  split
  · rename_i dangling
    obtain ⟨lead, nothing⟩ := dangling
    have changed := tryRemoveFile_link inside found
    refine ⟨?_, ?_⟩
    · intro location
      rw [changed location]
      split
      · rename_i same
        subst same
        rw [List.isPrefixOf_iff_prefix] at lead
        refine .inr ⟨names ++ [name], List.append_assoc _ _ _, by rwa [List.dropLast_concat],
          ⟨target, found, lead, ?_⟩, rfl⟩
        intro own farmed
        by_contra there
        rw [standing.followPath farmed, if_neg there] at nothing
        cases nothing
      · exact .inl rfl
    · rintro ⟨other, _, still, _⟩
      rw [changed, if_pos rfl] at still
      cases still
  · rename_i kept
    refine ⟨.refl source tree, ?_⟩
    rintro ⟨other, own, still, lead, farmed, nothing⟩
    rw [found] at still
    cases still
    apply kept
    rw [List.isPrefixOf_iff_prefix, standing.followPath farmed, if_pos nothing]
    exact ⟨lead, rfl⟩

/-- No stale link is left at or below an entry, as far as the sweep goes. -/
def Tidy (source : StorePath) (names : Location) (name : List Char) (tree : FileTree) : Prop :=
  ∀ rest, "static".toList ∉ (name :: rest).dropLast →
    ¬ Stale source tree (etcPath ++ (names ++ name :: rest))

theorem Tidy.swept (tidy : Tidy source names name tree) (swept : Swept source tree after) :
    Tidy source names name after :=
  fun rest reached stale => tidy rest reached (swept.stale stale)

theorem tidy_of_leaf (leaf : tree.nodeAt (etcPath ++ names ++ [name]) ≠ some .dir)
    (own : ¬ Stale source tree (etcPath ++ names ++ [name])) : Tidy source names name tree := by
  intro rest _ stale
  cases rest with
  | nil =>
      rw [← List.append_assoc] at stale
      exact own stale
  | cons head more =>
      obtain ⟨target, _, found, _⟩ := stale
      have path : etcPath ++ (names ++ name :: head :: more) =
          etcPath ++ names ++ [name] ++ head :: more := by simp
      rw [path] at found
      exact leaf (FileTree.nodeAt_append (by rw [found]; simp) (by simp))

/-- The sweep takes away all stale links it reaches, and only loose ones. -/
theorem cleanStaleEtcSymlinks_swept {fuel : Nat} (standing : Standing source tree)
    (reached : "static".toList ∉ names) (inside : tree.nodeAt (etcPath ++ names) = some .dir)
    (ran : cleanStaleEtcSymlinks fuel (etcPath ++ names) staticLead tree = (after, .ok ())) :
    Swept source tree after ∧ ∀ name, Tidy source names name after := by
  induction fuel generalizing names tree after with
  | zero => cases ran
  | succ fuel ih =>
      rw [cleanStaleEtcSymlinks] at ran
      have opened : tree.readDir ((etcPath ++ names).map .normal) =
          some ((tree.children (etcPath ++ names)).map Prod.fst) := by
        rw [FileTree.readDir]
        show (tree.follow (etcPath ++ names)).bind _ = _
        rw [FileTree.follow_dir inside, Option.bind_some, if_pos inside]
      rw [opened] at ran
      have loop := @forEntries_ok (Swept source) _ (Tidy source names) (Swept.refl source)
        (fun _ _ _ => Swept.trans) (fun _ _ _ swept tidy => tidy.swept swept) _ tree after ?_ ran
      · refine ⟨loop.1, ?_⟩
        intro name
        by_cases there : tree.nodeAt (etcPath ++ names ++ [name]) = none
        · -- where nothing was, nothing is left behind
          have nothing : Tidy source names name tree := by
            apply tidy_of_leaf (by rw [there]; simp)
            rintro ⟨target, _, found, _⟩
            rw [there] at found
            cases found
          exact nothing.swept loop.1
        · obtain ⟨node, found⟩ := Option.ne_none_iff_exists'.mp there
          exact loop.2 name (List.mem_map.mpr ⟨(name, node), FileTree.mem_children.mpr found, rfl⟩)
      · intro name _ now next swept acted
        have standingNow := swept.standing standing
        have still := swept.dirs inside
        simp only [isDir_dir still] at acted
        split at acted
        · rename_i own
          split at acted
          · rename_i skipped
            cases acted
            refine ⟨.refl source now, ?_⟩
            intro rest outside stale
            cases rest with
            | nil =>
                obtain ⟨target, _, found, _⟩ := stale
                rw [← List.append_assoc, own] at found
                cases found
            | cons head more => simp [skipped] at outside
          · rename_i entered
            rw [List.append_assoc] at own acted
            have deeper : "static".toList ∉ names ++ [name] := by
              intro member
              rcases List.mem_append.mp member with early | own
              · exact reached early
              · exact entered (List.mem_singleton.mp own).symm
            obtain ⟨step, tidy⟩ := ih standingNow deeper own acted
            refine ⟨step, ?_⟩
            intro rest outside stale
            cases rest with
            | nil =>
                obtain ⟨target, _, found, _⟩ := step.stale stale
                rw [own] at found
                cases found
            | cons head more =>
                rw [List.append_cons] at stale
                refine tidy head more ?_ stale
                intro inner
                apply outside
                rw [List.dropLast_cons_of_ne_nil (by simp)]
                exact List.mem_cons_of_mem name inner
        · rename_i leaf
          split at acted
          · rename_i target read
            cases acted
            have found := (readLink_dir still).mp read
            obtain ⟨step, gone⟩ := cleanStaleLink_swept standingNow reached still found
            refine ⟨step, tidy_of_leaf ?_ gone⟩
            intro inner
            have same := step.nodeAt_eq (by rw [inner]; simp)
            rw [found, inner] at same
            cases same
          · rename_i unread
            cases acted
            refine ⟨.refl source now, tidy_of_leaf leaf ?_⟩
            rintro ⟨target, _, found, _⟩
            rw [(readLink_dir still).mpr found] at unread
            cases unread

end Sweep

end NixRedox.Activate
