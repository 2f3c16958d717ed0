import NixRedox.EtcLinks

set_option autoImplicit false

/- When the symlink farm is right: the etc derivation is left alone, each of its files
is reached in `/etc`, and no link into `/etc/static` is left behind. -/
namespace NixRedox.Activate

open UnixPath (components absoluteText Proper)
open FileTree (Changed Named Unlinked)

/-- What an etc derivation has at `etc` and some names. -/
def sourceNode (source : StorePath) (tree : FileTree) (names : Location) : Option Node :=
  tree.nodeAt (storeLocation source ++ (etcPath ++ names))

def IsFile (node : Option Node) : Prop := ∃ contents mode, node = some (.file contents mode)

theorem IsFile.ne_dir {node : Option Node} (file : IsFile node) : node ≠ some .dir := by
  obtain ⟨contents, mode, rfl⟩ := file
  simp

theorem IsFile.ne_none {node : Option Node} (file : IsFile node) : node ≠ none := by
  obtain ⟨contents, mode, rfl⟩ := file
  simp

/-- An etc derivation in the store: directories and regular files. -/
structure Stored (source : StorePath) (tree : FileTree) : Prop where
  present : tree.nodeAt (storeLocation source) ≠ none
  plain : ∀ names target, tree.nodeAt (storeLocation source ++ names) ≠ some (.symlink target)

/-- The store is not in `/etc`. -/
theorem storeLocation_apart (source : StorePath) (names : Location) :
    ¬ etcPath <+: storeLocation source ++ names := by
  rintro ⟨rest, same⟩
  cases same

section Stored

variable {source : StorePath} {tree after : FileTree} {names : Location}

theorem Stored.unlinked (stored : Stored source tree) (names : Location) :
    Unlinked tree [] (storeLocation source ++ names) := by
  intro front _ before target
  rw [List.nil_append]
  rcases List.prefix_or_prefix_of_prefix before (List.prefix_append _ names) with above | below
  · obtain ⟨rest, split⟩ := above
    by_cases whole : rest = []
    · rw [whole, List.append_nil] at split
      rw [split, ← List.append_nil (storeLocation source)]
      exact stored.plain [] target
    · have there := stored.present
      rw [← split] at there
      rw [FileTree.nodeAt_append there whole]
      simp
  · obtain ⟨rest, rfl⟩ := below
    exact stored.plain rest target

theorem Stored.followPath (stored : Stored source tree) (names : Location) :
    tree.followPath (.rootDir :: (storeLocation source ++ names).map .normal) =
      if tree.nodeAt (storeLocation source ++ names) = none then none
      else some (storeLocation source ++ names) := by
  rw [FileTree.followPath_root]
  exact FileTree.follow_unlinked (stored.unlinked names)

theorem Stored.congr (stored : Stored source tree)
    (same : ∀ names, after.nodeAt (storeLocation source ++ names) =
      tree.nodeAt (storeLocation source ++ names)) : Stored source after where
  present := by
    have root := same []
    rw [List.append_nil] at root
    rw [root]
    exact stored.present
  plain := by
    intro names target
    rw [same]
    exact stored.plain names target

theorem Stored.isDirPath (stored : Stored source tree) (names : Location) :
    tree.isDirPath (.rootDir :: (storeLocation source ++ (etcPath ++ names)).map .normal) = true ↔
      sourceNode source tree names = some .dir := by
  rw [FileTree.isDirPath, stored.followPath, decide_eq_true_eq, sourceNode]
  split
  · rename_i absent
    simp [absent]
  · rfl

theorem Stored.mem_readDir (stored : Stored source tree) {listed : List (List Char)}
    (opened : tree.readDir (.rootDir :: (storeLocation source ++ (etcPath ++ names)).map .normal) =
      some listed) (name : List Char) :
    name ∈ listed ↔ sourceNode source tree (names ++ [name]) ≠ none := by
  unfold FileTree.readDir at opened
  rw [stored.followPath] at opened
  split at opened
  · cases opened
  · rw [Option.bind_some] at opened
    split at opened
    · cases opened
      rw [sourceNode, ← List.append_assoc etcPath, ← List.append_assoc (storeLocation source)]
      simp [Option.ne_none_iff_exists', FileTree.mem_children]
    · cases opened

/-- What the source has below a name it has as a directory or not at all. -/
theorem sourceNode_dir {rest : Location} (there : sourceNode source tree (names ++ rest) ≠ none)
    (below : rest ≠ []) : sourceNode source tree names = some .dir := by
  unfold sourceNode at there
  rw [← List.append_assoc etcPath, ← List.append_assoc (storeLocation source)] at there
  exact FileTree.nodeAt_append there below

theorem sourceNode_front {rest : Location}
    (there : sourceNode source tree (names ++ rest) ≠ none) :
    sourceNode source tree names ≠ none := by
  apply FileTree.nodeAt_of_prefix there
  rw [← List.append_assoc etcPath, ← List.append_assoc (storeLocation source)]
  exact List.prefix_append _ rest

theorem sourceNode_file (stored : Stored source tree) (there : sourceNode source tree names ≠ none)
    (leaf : sourceNode source tree names ≠ some .dir) : IsFile (sourceNode source tree names) := by
  cases found : sourceNode source tree names with
  | none => exact absurd found there
  | some node =>
      cases node with
      | dir => exact absurd found leaf
      | file contents mode => exact ⟨contents, mode, rfl⟩
      | symlink target => exact absurd found (stored.plain _ target)

end Stored

/-- The file has its link. -/
def Linked (names : Location) (tree : FileTree) : Prop :=
  ∃ target, tree.nodeAt (etcPath ++ names) = some (.symlink target) ∧
    components target = components (absoluteText (etcStaticPath ++ (etcPath ++ names)))

/-- Some of the directories of the source have been made, and some of its files have
been linked. -/
def Made (source : StorePath) (tree after : FileTree) : Prop :=
  ∀ location, after.nodeAt location = tree.nodeAt location ∨
    ∃ names, location = etcPath ++ names ∧
      (sourceNode source tree names = some .dir ∧ tree.nodeAt location = none ∧
          after.nodeAt location = some .dir ∨
        IsFile (sourceNode source tree names) ∧ tree.nodeAt location ≠ some .dir ∧
          Linked names after)

namespace Made

variable {source : StorePath} {tree between after : FileTree} {names : Location}

theorem refl (source : StorePath) (tree : FileTree) : Made source tree tree := fun _ => .inl rfl

theorem outside (made : Made source tree after) {location : Location}
    (apart : ¬ etcPath <+: location) : after.nodeAt location = tree.nodeAt location := by
  rcases made location with same | ⟨names, rfl, _⟩
  · exact same
  · exact absurd (List.prefix_append _ _) apart

theorem stored (made : Made source tree after) (held : Stored source tree) :
    Stored source after :=
  held.congr fun names => made.outside (storeLocation_apart source names)

theorem sourceNode_eq (made : Made source tree after) (names : Location) :
    sourceNode source after names = sourceNode source tree names :=
  made.outside (storeLocation_apart source _)

theorem dirs (made : Made source tree after) {location : Location}
    (inside : tree.nodeAt location = some .dir) : after.nodeAt location = some .dir := by
  rcases made location with same | ⟨names, _, ⟨_, _, directory⟩ | ⟨_, leaf, _⟩⟩
  · rw [same]
    exact inside
  · exact directory
  · exact absurd inside leaf

theorem linked (made : Made source tree after) (file : IsFile (sourceNode source tree names))
    (link : Linked names tree) : Linked names after := by
  rcases made (etcPath ++ names) with same | ⟨own, equal, ⟨directory, _⟩ | ⟨_, _, fresh⟩⟩
  · obtain ⟨target, found, leads⟩ := link
    exact ⟨target, same.trans found, leads⟩
  · cases equal
    exact absurd directory file.ne_dir
  · cases equal
    exact fresh

theorem trans (first : Made source tree between) (second : Made source between after) :
    Made source tree after := by
  intro location
  rcases second location with same | ⟨names, rfl, ⟨directory, free, own⟩ | ⟨file, leaf, own⟩⟩
  · rw [same]
    rcases first location with early | ⟨names, rfl, ⟨directory, free, own⟩ | ⟨file, leaf, link⟩⟩
    · exact .inl early
    · exact .inr ⟨names, rfl, .inl ⟨directory, free, own⟩⟩
    · refine .inr ⟨names, rfl, .inr ⟨file, leaf, ?_⟩⟩
      obtain ⟨target, found, leads⟩ := link
      exact ⟨target, same.trans found, leads⟩
  · rw [first.sourceNode_eq] at directory
    refine .inr ⟨names, rfl, .inl ⟨directory, ?_, own⟩⟩
    rcases first (etcPath ++ names) with early | ⟨other, equal, ⟨_, absent, _⟩ | ⟨file, _, _⟩⟩
    · exact early.symm.trans free
    · exact absent
    · cases equal
      exact absurd directory file.ne_dir
  · rw [first.sourceNode_eq] at file
    refine .inr ⟨names, rfl, .inr ⟨file, ?_, own⟩⟩
    intro inside
    exact leaf (first.dirs inside)

end Made

section Create

variable {source : StorePath} {tree after : FileTree} {directory : Location} {name : List Char}

theorem tryRemoveFile_cases (tree : FileTree) (path : Location) :
    tryRemoveFile tree path = tree ∨ ∃ location, tree.place path = some location ∧
      tree.nodeAt location ≠ some .dir ∧ Changed tree (tryRemoveFile tree path) location none := by
  unfold tryRemoveFile
  cases removed : tree.removeFile path with
  | error reason => exact .inl rfl
  | ok after =>
      obtain ⟨location, placed, _, leaf, changed⟩ := FileTree.removeFile_changed removed
      exact .inr ⟨location, placed, leaf, changed⟩

/-- A symlink takes the place of what was there. -/
theorem placeSymlink_dir {target : List Char} (inside : tree.nodeAt directory = some .dir)
    (ran : placeSymlink target (directory ++ [name]) tree = (after, .ok ())) :
    tree.nodeAt (directory ++ [name]) ≠ some .dir ∧
      Changed tree after (directory ++ [name]) (some (.symlink target)) := by
  obtain ⟨location, placed, free, changed⟩ := placeSymlink_changed ran
  rw [FileTree.place_dir inside] at placed
  cases placed
  exact ⟨by simp [free], changed⟩

theorem replace_dir {target : List Char} (inside : tree.nodeAt directory = some .dir)
    (ran : placeSymlink target (directory ++ [name]) (tryRemoveFile tree (directory ++ [name])) =
      (after, .ok ())) :
    tree.nodeAt (directory ++ [name]) ≠ some .dir ∧
      Changed tree after (directory ++ [name]) (some (.symlink target)) := by
  rcases tryRemoveFile_cases tree (directory ++ [name]) with same | ⟨location, placed, leaf, gone⟩
  · rw [same] at ran
    exact placeSymlink_dir inside ran
  · rw [FileTree.place_dir inside] at placed
    cases placed
    refine ⟨leaf, ?_⟩
    have still : (tryRemoveFile tree (directory ++ [name])).nodeAt directory = some .dir := by
      rw [gone, if_neg (by simp)]
      exact inside
    obtain ⟨_, changed⟩ := placeSymlink_dir still ran
    intro other
    rw [changed other, gone other]
    split
    · rfl
    · rfl

theorem linkEtcFile_dir {staticPath : Location} (inside : tree.nodeAt directory = some .dir)
    (ran : linkEtcFile (directory ++ [name]) staticPath tree = (after, .ok ())) :
    tree.nodeAt (directory ++ [name]) ≠ some .dir ∧
      (∃ target, after.nodeAt (directory ++ [name]) = some (.symlink target) ∧
        components target = components (absoluteText staticPath)) ∧
      ∀ other, other ≠ directory ++ [name] → after.nodeAt other = tree.nodeAt other := by
  have replaced (changed : Changed tree after (directory ++ [name])
      (some (.symlink (absoluteText staticPath)))) :
      (∃ target, after.nodeAt (directory ++ [name]) = some (.symlink target) ∧
        components target = components (absoluteText staticPath)) ∧
      ∀ other, other ≠ directory ++ [name] → after.nodeAt other = tree.nodeAt other := by
    refine ⟨⟨_, by rw [changed, if_pos rfl], rfl⟩, ?_⟩
    intro other differs
    rw [changed, if_neg differs]
  unfold linkEtcFile at ran
  split at ran
  · rename_i target read
    split at ran
    · rename_i right
      cases ran
      unfold FileTree.readLink at read
      rw [FileTree.symlinkMetadata_dir inside] at read
      split at read
      · rename_i found
        cases read
        exact ⟨by simp [found], ⟨target, found, right⟩, fun _ _ => rfl⟩
      · cases read
    · obtain ⟨leaf, changed⟩ := replace_dir inside ran
      exact ⟨leaf, replaced changed⟩
  · split at ran
    · obtain ⟨leaf, changed⟩ := replace_dir inside ran
      exact ⟨leaf, replaced changed⟩
    · obtain ⟨leaf, changed⟩ := placeSymlink_dir inside ran
      exact ⟨leaf, replaced changed⟩

theorem createDirAll_below (inside : tree.nodeAt directory = some .dir)
    (plain : ∀ target, tree.nodeAt (directory ++ [name]) ≠ some (.symlink target))
    (ran : tree.createDirAll (directory ++ [name]) = (after, .ok ())) :
    after.nodeAt (directory ++ [name]) = some .dir ∧
      ∀ other, after.nodeAt other = tree.nodeAt other ∨
        other = directory ++ [name] ∧ tree.nodeAt other = none := by
  have unlinked : Unlinked tree [] (directory ++ [name]) :=
    (FileTree.unlinked_of_dir inside).concat plain
  obtain ⟨made, grown⟩ := FileTree.createDirAll_ok (FileTree.aim_unlinked unlinked) ran
  refine ⟨made, ?_⟩
  intro other
  rcases grown other with same | ⟨absent, _, before⟩
  · exact .inl same
  · rcases List.prefix_concat_iff.mp before with own | above
    · exact .inr ⟨own, absent⟩
    · exact absurd absent (FileTree.nodeAt_of_prefix (by simp [inside]) above)

/-- A symlink to a directory is as good as the directory. -/
theorem createDirAll_link {target : List Char} (inside : tree.nodeAt directory = some .dir)
    (bent : tree.nodeAt (directory ++ [name]) = some (.symlink target))
    (ran : tree.createDirAll (directory ++ [name]) = (after, .ok ())) : after = tree := by
  have above : tree.createDirAllRev directory.reverse = (tree, .ok ()) :=
    FileTree.createDirAll_dir inside
  rw [FileTree.createDirAll, List.reverse_concat, FileTree.createDirAllRev] at ran
  split at ran
  · cases ran
    rfl
  · rw [above] at ran
    split at ran
    · cases ran
    · rename_i made ok
      cases ok
      split at ran
      · rename_i last created
        -- `mkdir` wants the place to be free
        obtain ⟨location, placed, free, _⟩ := FileTree.mkdir_changed created
        rw [List.reverse_cons, List.reverse_reverse, FileTree.place_dir inside] at placed
        cases placed
        rw [bent] at free
        cases free
      · cases ran

/-- No directory of the source with something in it is a symlink in `/etc`. -/
def Unbent (source : StorePath) (tree : FileTree) : Prop :=
  ∀ names name, names ≠ [] → sourceNode source tree (names ++ [name]) ≠ none →
    ∀ target, tree.nodeAt (etcPath ++ names) ≠ some (.symlink target)

theorem Unbent.made (unbent : Unbent source tree) (made : Made source tree after) :
    Unbent source after := by
  intro names name below there target found
  rw [made.sourceNode_eq] at there
  rcases made (etcPath ++ names) with same | ⟨own, equal, ⟨_, _, inside⟩ | ⟨file, _, _⟩⟩
  · exact unbent names name below there target (same.symm.trans found)
  · rw [inside] at found
    cases found
  · cases equal
    exact absurd (sourceNode_dir there (List.cons_ne_nil _ _)) file.ne_dir

variable {names : Location}

theorem made_directory (inside : tree.nodeAt (etcPath ++ names) = some .dir)
    (plain : ∀ target, tree.nodeAt (etcPath ++ (names ++ [name])) ≠ some (.symlink target))
    (own : sourceNode source tree (names ++ [name]) = some .dir)
    (ran : tree.createDirAll (etcPath ++ names ++ [name]) = (after, .ok ())) :
    Made source tree after ∧ after.nodeAt (etcPath ++ (names ++ [name])) = some .dir := by
  rw [← List.append_assoc] at plain
  obtain ⟨made, nodes⟩ := createDirAll_below inside plain ran
  rw [← List.append_assoc]
  refine ⟨?_, made⟩
  intro location
  rcases nodes location with same | ⟨rfl, absent⟩
  · exact .inl same
  · exact .inr ⟨names ++ [name], List.append_assoc _ _ _, .inl ⟨own, absent, made⟩⟩

theorem made_link (inside : tree.nodeAt (etcPath ++ names) = some .dir)
    (own : IsFile (sourceNode source tree (names ++ [name])))
    (ran : linkEtcFile (etcPath ++ names ++ [name])
      (etcStaticPath ++ (etcPath ++ names) ++ [name]) tree = (after, .ok ())) :
    Made source tree after ∧ Linked (names ++ [name]) after := by
  obtain ⟨leaf, ⟨target, found, leads⟩, elsewhere⟩ := linkEtcFile_dir inside ran
  have linked : Linked (names ++ [name]) after := by
    refine ⟨target, ?_, ?_⟩
    · rw [← List.append_assoc]
      exact found
    · simpa only [List.append_assoc] using leads
  refine ⟨?_, linked⟩
  intro location
  by_cases same : location = etcPath ++ names ++ [name]
  · subst same
    exact .inr ⟨names ++ [name], List.append_assoc _ _ _, .inr ⟨own, leaf, linked⟩⟩
  · exact .inl (elsewhere location same)

/-- All files at and below an entry are linked. -/
def Covered (source : StorePath) (names : Location) (name : List Char) (tree : FileTree) : Prop :=
  ∀ rest, IsFile (sourceNode source tree (names ++ name :: rest)) →
    Linked (names ++ name :: rest) tree

theorem Covered.made (covered : Covered source names name tree) (made : Made source tree after) :
    Covered source names name after := by
  intro rest file
  rw [made.sourceNode_eq] at file
  exact made.linked file (covered rest file)

/-- Only a directory has something below it. -/
theorem isFile_below {head : List Char} {more : Location}
    (file : IsFile (sourceNode source tree (names ++ name :: head :: more))) :
    sourceNode source tree (names ++ [name]) = some .dir := by
  rw [List.append_cons] at file
  exact sourceNode_dir file.ne_none (by simp)

/-- In an empty directory the walk does nothing. -/
theorem createEtcSymlinks_empty {fuel : Nat} {etcDir staticBase : Location}
    (stored : Stored source tree) (empty : ∀ name, sourceNode source tree (names ++ [name]) = none)
    (ran : createEtcSymlinks fuel
      (.rootDir :: (storeLocation source ++ (etcPath ++ names)).map .normal) etcDir staticBase
      tree = (after, .ok ())) : after = tree := by
  cases fuel with
  | zero => cases ran
  | succ fuel =>
      rw [createEtcSymlinks] at ran
      split at ran
      · cases ran
      · rename_i listed opened
        have nothing : listed = [] := by
          apply List.eq_nil_iff_forall_not_mem.mpr
          intro name member
          exact (stored.mem_readDir opened name).mp member (empty name)
        rw [nothing] at ran
        cases ran
        rfl

/-- Nothing of an empty directory has to be made behind a symlink. -/
theorem createEtcSymlinks_link {fuel : Nat} {etcDir staticBase : Location} {target : List Char}
    {grown : FileTree} (stored : Stored source tree) (unbent : Unbent source tree)
    (inside : tree.nodeAt (etcPath ++ names) = some .dir)
    (own : sourceNode source tree (names ++ [name]) = some .dir)
    (link : tree.nodeAt (etcPath ++ (names ++ [name])) = some (.symlink target))
    (created : tree.createDirAll (etcPath ++ names ++ [name]) = (grown, .ok ()))
    (ran : createEtcSymlinks fuel
      (.rootDir :: (storeLocation source ++ (etcPath ++ (names ++ [name]))).map .normal) etcDir
      staticBase grown = (after, .ok ())) :
    after = tree ∧ Covered source names name tree := by
  have empty : ∀ last, sourceNode source tree (names ++ [name] ++ [last]) = none := by
    intro last
    by_contra there
    exact unbent (names ++ [name]) last (by simp) there target link
  rw [← List.append_assoc] at link
  have same := createDirAll_link inside link created
  subst same
  refine ⟨createEtcSymlinks_empty stored empty ran, ?_⟩
  intro rest file
  cases rest with
  | nil => exact absurd own file.ne_dir
  | cons head more =>
      rw [List.append_cons, List.append_cons] at file
      exact absurd (empty head) (sourceNode_front file.ne_none)

/-- The walk makes the directories and links the files it finds below a directory, all
of them and nothing else. -/
theorem createEtcSymlinks_made {fuel : Nat} (stored : Stored source tree)
    (unbent : Unbent source tree) (inside : tree.nodeAt (etcPath ++ names) = some .dir)
    (ran : createEtcSymlinks fuel
      (.rootDir :: (storeLocation source ++ (etcPath ++ names)).map .normal) (etcPath ++ names)
      (etcStaticPath ++ (etcPath ++ names)) tree = (after, .ok ())) :
    Made source tree after ∧ ∀ rest, rest ≠ [] →
      IsFile (sourceNode source tree (names ++ rest)) → Linked (names ++ rest) after := by
  induction fuel generalizing names tree after with
  | zero => cases ran
  | succ fuel ih =>
      rw [createEtcSymlinks] at ran
      split at ran
      · cases ran
      · rename_i listed opened
        have loop := @forEntries_ok (Made source) _ (Covered source names) (Made.refl source)
          (fun _ _ _ => Made.trans) (fun _ _ _ made covered => covered.made made) listed tree after
          ?_ ran
        · refine ⟨loop.1, ?_⟩
          intro rest below file
          cases rest with
          | nil => exact absurd rfl below
          | cons name rest =>
              have there : sourceNode source tree (names ++ [name]) ≠ none := by
                apply sourceNode_front
                rw [← List.append_cons]
                exact file.ne_none
              apply loop.2 name ((stored.mem_readDir opened name).mpr there) rest
              rw [loop.1.sourceNode_eq]
              exact file
        · intro name member now next made acted
          have there := (stored.mem_readDir opened name).mp member
          rw [← made.sourceNode_eq] at there
          have held := made.stored stored
          have still := made.dirs inside
          have path : (UnixPath.Component.rootDir ::
                (storeLocation source ++ (etcPath ++ names)).map .normal) ++ [.normal name] =
              .rootDir :: (storeLocation source ++ (etcPath ++ (names ++ [name]))).map .normal := by
            simp
          rw [path] at acted
          split at acted
          · rename_i isDir
            have own := (held.isDirPath (names ++ [name])).mp isDir
            split at acted
            · cases acted
            · rename_i grown created
              simp only [List.append_assoc] at acted
              by_cases bent : ∃ target,
                  now.nodeAt (etcPath ++ (names ++ [name])) = some (.symlink target)
              · obtain ⟨target, link⟩ := bent
                obtain ⟨unchanged, covered⟩ :=
                  createEtcSymlinks_link held (unbent.made made) still own link created acted
                subst unchanged
                exact ⟨.refl source _, covered⟩
              · obtain ⟨first, deeper⟩ := made_directory still (not_exists.mp bent) own created
                obtain ⟨second, linked⟩ := ih ((made.trans first).stored stored)
                  (unbent.made (made.trans first)) deeper acted
                refine ⟨first.trans second, ?_⟩
                intro rest file
                rw [second.sourceNode_eq, List.append_cons] at file
                rw [List.append_cons]
                apply linked rest _ file
                rintro rfl
                rw [List.append_nil, first.sourceNode_eq] at file
                exact file.ne_dir own
          · rename_i notDir
            have leaf : sourceNode source now (names ++ [name]) ≠ some .dir := fun own =>
              notDir ((held.isDirPath (names ++ [name])).mpr own)
            obtain ⟨step, linked⟩ := made_link still (sourceNode_file held there leaf) acted
            refine ⟨step, ?_⟩
            intro rest file
            cases rest with
            | nil => exact linked
            | cons head more =>
                rw [step.sourceNode_eq] at file
                exact absurd (isFile_below file) leaf

end Create

end NixRedox.Activate
