import NixRedox.FileDeeds

set_option autoImplicit false

/- Where the paths of a run of writes and removals lead. A frame of a tree has its
directories, and its symlinks with some that are there no more, but no files; the
directories that the run makes are made in it as well. -/
namespace NixRedox

def Node.isFile : Node → Bool
  | .file _ _ => true
  | _ => false

namespace FileTree

/-- The directories and symlinks alone. -/
def skeleton (tree : FileTree) : FileTree where
  nodes := ⟨tree.nodes.entries.filter fun entry => ¬ entry.2.isFile,
    tree.nodes.nodupKeys.sublist List.filter_sublist⟩
  placed := by
    intro location node found
    have kept := AList.mem_lookup_iff.mp found
    simp only [List.mem_filter] at kept
    obtain ⟨below, parent⟩ := tree.placed location node (AList.mem_lookup_iff.mpr kept.1)
    refine ⟨below, parent.imp_right fun directory => ?_⟩
    apply AList.mem_lookup_iff.mpr
    exact List.mem_filter.mpr ⟨AList.mem_lookup_iff.mp directory, rfl⟩

/-- The tree without what is at the locations, directories apart. -/
def without (tree : FileTree) (locations : List Location) : FileTree :=
  locations.foldl (fun left location =>
    if leaf : left.nodeAt location ≠ some .dir then left.eraseNode location leaf else left) tree

/-- The frame has the directories of the tree, and all its symlinks. -/
structure Covers (frame tree : FileTree) : Prop where
  dirs : ∀ location, tree.nodeAt location = some .dir ↔ frame.nodeAt location = some .dir
  links : ∀ location target, tree.nodeAt location = some (.symlink target) →
    frame.nodeAt location = some (.symlink target)

/-- And it has no files; where it has a symlink and the tree has nothing, the location is
one of those given. -/
structure Frames (gone : Location → Prop) (frame tree : FileTree) : Prop
    extends Covers frame tree where
  lost : ∀ location target, frame.nodeAt location = some (.symlink target) →
    tree.nodeAt location = none → gone location
  fileless : ∀ location contents mode, frame.nodeAt location ≠ some (.file contents mode)

section Frames

variable {gone : Location → Prop} {frame tree after made cleared filled : FileTree}
  {location directory path names : Location} {passed : List Location} {node : Option Node}

theorem skeleton_nodeAt {node : Node} :
    tree.skeleton.nodeAt location = some node ↔
      tree.nodeAt location = some node ∧ node.isFile = false := by
  rw [nodeAt_eq_some, nodeAt_eq_some]
  simp only [skeleton, List.mem_filter, decide_eq_true_eq, Bool.not_eq_true]
  constructor
  · rintro (⟨top, dir⟩ | ⟨listed, solid⟩)
    · subst dir
      exact ⟨.inl ⟨top, rfl⟩, rfl⟩
    · exact ⟨.inr listed, solid⟩
  · rintro ⟨⟨top, dir⟩ | listed, solid⟩
    · exact .inl ⟨top, dir⟩
    · exact .inr ⟨listed, solid⟩

theorem frames_skeleton : Frames gone tree.skeleton tree where
  dirs := fun location => by
    rw [skeleton_nodeAt]
    exact ⟨fun found => ⟨found, rfl⟩, And.left⟩
  links := fun location target found => skeleton_nodeAt.mpr ⟨found, rfl⟩
  lost := by
    intro location target found absent
    rw [(skeleton_nodeAt.mp found).1] at absent
    cases absent
  fileless := by
    intro location contents mode found
    cases (skeleton_nodeAt.mp found).2

theorem without_nodeAt {locations : List Location} :
    (tree.without locations).nodeAt location =
      if location ∈ locations ∧ tree.nodeAt location ≠ some .dir then none
      else tree.nodeAt location := by
  induction locations generalizing tree with
  | nil => simp [without]
  | cons first rest ih =>
      rw [without, List.foldl_cons]
      split
      · rename_i leaf
        rw [← without, ih, eraseNode_nodeAt]
        by_cases same : location = first
        · subst same
          simp [leaf]
        · simp [same]
      · rename_i inside
        rw [← without, ih]
        by_cases same : location = first
        · subst same
          simp [not_not.mp inside]
        · simp [same]

theorem Covers.carried (covers : Covers frame tree) : Carried (fun _ => False) tree frame :=
  ⟨fun location => (covers.dirs location).mp, fun location target _ => covers.links location target⟩

/-- Where a name is put in the tree its way leads in the frame, through symlinks that the
tree has. -/
theorem Covers.place (covers : Covers frame tree) (placed : tree.place path = some location) :
    ∃ passed, frame.way path = some (passed, location) ∧
      ∀ link ∈ passed, ∃ target, tree.nodeAt link = some (.symlink target) := by
  obtain ⟨above, name, directory, rfl, inside, rfl⟩ := place_eq_some placed
  obtain ⟨passed, _, resolved, _⟩ := way_of_place placed
  rw [List.dropLast_concat, List.dropLast_concat] at resolved
  refine ⟨passed, ?_, ?_⟩
  · have reached := covers.carried.resolve resolved inside fun _ _ => not_false
    exact way_eq_some.mpr ⟨above, name, directory, rfl,
      aim_of_resolve above (nodeAt_nil frame) reached ((covers.dirs directory).mp inside), rfl⟩
  · intro link member
    obtain ⟨_, target, _, _, next, _⟩ := resolve_member resolved member
    exact ⟨target, next⟩

/-- A file comes or something goes where there was no directory. -/
theorem Covers.changed (covers : Covers frame tree) (changed : Changed tree after location node)
    (leaf : tree.nodeAt location ≠ some .dir) (plain : node ≠ some .dir)
    (unlinked : ∀ target, node ≠ some (.symlink target)) : Covers frame after where
  dirs := by
    intro other
    rw [← covers.dirs other, changed other]
    split
    · rename_i same
      subst same
      simp [leaf, plain]
    · rfl
  links := by
    intro other target found
    rw [changed other] at found
    split at found
    · exact absurd found (unlinked target)
    · exact covers.links other target found

theorem Frames.changed (frames : Frames gone frame tree)
    (changed : Changed tree after location node) (leaf : tree.nodeAt location ≠ some .dir)
    (plain : node ≠ some .dir) (unlinked : ∀ target, node ≠ some (.symlink target))
    (left : node = none → gone location) : Frames gone frame after where
  toCovers := frames.toCovers.changed changed leaf plain unlinked
  lost := by
    intro other target found absent
    rw [changed other] at absent
    split at absent
    · rename_i same
      exact same ▸ left absent
    · exact frames.lost other target found absent
  fileless := frames.fileless

/-- A file that comes is no link. -/
theorem Frames.written {contents : ByteArray} {mode : Nat} (frames : Frames gone frame tree)
    (changed : Changed tree after location (some (.file contents mode)))
    (leaf : tree.nodeAt location ≠ some .dir) : Frames gone frame after := by
  apply frames.changed changed leaf
  · intro same
    cases same
  · intro target same
    cases same
  · intro same
    cases same

theorem Covers.removed (covers : Covers frame tree) (changed : Changed tree after location none)
    (leaf : tree.nodeAt location ≠ some .dir) : Covers frame after :=
  covers.changed changed leaf (Option.some_ne_none _).symm
    fun target => (Option.some_ne_none (Node.symlink target)).symm

theorem Frames.removed (frames : Frames gone frame tree)
    (changed : Changed tree after location none) (leaf : tree.nodeAt location ≠ some .dir)
    (own : gone location) : Frames gone frame after :=
  frames.changed changed leaf (Option.some_ne_none _).symm
    (fun target => (Option.some_ne_none (Node.symlink target)).symm) fun _ => own

theorem Frames.mono {wider : Location → Prop} (frames : Frames gone frame tree)
    (more : ∀ location, gone location → wider location) : Frames wider frame tree :=
  ⟨frames.toCovers, fun location target found absent =>
    more location (frames.lost location target found absent), frames.fileless⟩

end Frames

section Directories

variable {gone : Location → Prop} {frame tree after made : FileTree}
  {location directory : Location} {passed : List Location}

/-- The way to directories that are made is there before. -/
theorem aim_of_createDirAllRev (names : Location) (after : FileTree)
    (made : tree.createDirAllRev names = (after, .ok ())) :
    ∃ passed directory, tree.aim maxLinks [] names.reverse = some (passed, directory) := by
  induction names generalizing after with
  | nil => exact ⟨[], [], rfl⟩
  | cons name above ih =>
      rw [createDirAllRev] at made
      split at made
      · rename_i there
        rw [isDir, decide_eq_true_eq] at there
        obtain ⟨directory, leads, inside⟩ := Option.bind_eq_some_iff.mp there
        obtain ⟨⟨passed, own⟩, resolved, same⟩ := Option.map_eq_some_iff.mp leads
        cases same
        exact ⟨passed, own, aim_of_resolve _ (nodeAt_nil tree) resolved inside⟩
      · split at made
        · cases made
        · rename_i between step
          obtain ⟨passed, mid, early⟩ := ih between step
          split at made
          · rename_i final last
            obtain ⟨_, grown⟩ := createDirAllRev_ok above between early step
            rw [List.reverse_cons] at last
            obtain ⟨free, _⟩ := mkdir_ok (grown.way early) last
            have absent := grown.absent free
            refine ⟨passed, mid ++ [name], ?_⟩
            rw [List.reverse_cons, aim_append early, aim_plain (noLink_of_absent absent)]
            simp [aim]
          · cases made

theorem mkdir_free {path : Location} (placed : tree.place path = some location)
    (free : tree.nodeAt location = none) : ∃ after, tree.mkdir path = .ok after := by
  unfold mkdir
  split
  · rename_i unplaced
    rw [placed] at unplaced
    cases unplaced
  · rename_i other own
    obtain rfl : other = location := Option.some.inj (own.symm.trans placed)
    exact ⟨_, dif_pos free⟩

/-- Without files in the way directories can be made wherever a path aims. -/
theorem createDirAllRev_fileless (names : Location)
    (fileless : ∀ location contents mode, tree.nodeAt location ≠ some (.file contents mode))
    (aimed : tree.aim maxLinks [] names.reverse = some (passed, directory)) :
    ∃ after, tree.createDirAllRev names = (after, .ok ()) := by
  induction names generalizing passed directory with
  | nil => exact ⟨tree, rfl⟩
  | cons name above ih =>
      rw [List.reverse_cons] at aimed
      obtain ⟨first, mid, more, early, late⟩ := aim_concat aimed
      rw [createDirAllRev]
      split
      · exact ⟨tree, rfl⟩
      · rename_i elsewhere
        obtain ⟨between, step⟩ := ih early
        obtain ⟨inside, grown⟩ := createDirAllRev_ok above between early step
        have found : between.way (above.reverse ++ [name]) = some (first, mid ++ [name]) :=
          grown.way early
        have free : between.nodeAt (mid ++ [name]) = none := by
          by_contra there
          obtain ⟨node, present⟩ := Option.ne_none_iff_exists'.mp there
          have before : tree.nodeAt (mid ++ [name]) = some node := by
            rcases grown (mid ++ [name]) with same | ⟨_, _, shorter⟩
            · exact same.symm.trans present
            · have longer := shorter.length_le
              rw [List.length_append, List.length_singleton] at longer
              omega
          have solid : tree.nodeAt (mid ++ [name]) ≠ none := by
            rw [before]
            exact Option.some_ne_none node
          -- it would lead to a directory already
          apply elsewhere
          rw [isDir, List.reverse_cons, follow_of_aim aimed, decide_eq_true_eq]
          cases node with
          | file contents mode => exact absurd before (fileless _ contents mode)
          | dir =>
              rw [aim_plain (noLink_of_dir before)] at late
              cases late
              rw [if_neg solid]
              exact before
          | symlink target =>
              obtain ⟨_, last, _, _, there, _, inner, _⟩ := aim_link before late
              cases inner
              rw [there]
              exact there
        have placed : between.place (above.reverse ++ [name]) = some (mid ++ [name]) := by
          rw [place_of_way found, List.dropLast_concat, if_pos inside]
        obtain ⟨after, made⟩ := mkdir_free placed free
        rw [step]
        dsimp only
        rw [List.reverse_cons, made]
        exact ⟨after, rfl⟩

/-- A frame aims where the tree does, if it has no symlinks more on the way. -/
theorem Covers.aim (covers : Covers frame tree) (names : Location)
    (aimed : tree.aim maxLinks [] names = some (passed, directory))
    (same : ∀ front name rest, names = front ++ name :: rest → ∀ early mid target,
      tree.aim maxLinks [] front = some (early, mid) →
      frame.aim maxLinks [] front = some (early, mid) →
      frame.nodeAt (mid ++ [name]) = some (.symlink target) →
      tree.nodeAt (mid ++ [name]) = some (.symlink target)) :
    frame.aim maxLinks [] names = some (passed, directory) := by
  induction names using List.reverseRecOn generalizing passed directory with
  | nil =>
      rw [FileTree.aim] at aimed ⊢
      exact aimed
  | append_singleton above name ih =>
      obtain ⟨first, mid, more, early, late⟩ := aim_concat aimed
      have there := ih early (by
        intro front other rest split
        exact same front other (rest ++ [name]) (by rw [split]; simp))
      rw [aim_append early, late] at aimed
      rw [aim_append there]
      suffices shared : frame.aim (maxLinks - first.length) mid [name] = some (more, directory) by
        rw [shared]
        exact aimed
      rcases link_or_plain tree (mid ++ [name]) with ⟨target, next⟩ | plain
      · obtain ⟨passed, last, rest, resolved, inside, _, inner, split⟩ := aim_link next late
        have still := covers.links _ _ next
        have reached := covers.carried.resolve resolved inside fun _ _ => not_false
        cases inner
        simp only [FileTree.aim, still, reached, (covers.dirs _).mp inside, if_true, split]
        rfl
      · have unlinked : ∀ target, frame.nodeAt (mid ++ [name]) ≠ some (.symlink target) :=
          fun target next => plain target (same above name [] rfl first mid target early there next)
        rw [aim_plain plain] at late
        rw [aim_plain unlinked]
        exact late

theorem createDirAllRev_evolved (names : Location) {free : Location → Prop} :
    Evolved free tree (tree.createDirAllRev names).1 := by
  induction names with
  | nil => exact .refl _ _
  | cons name above ih =>
      rw [createDirAllRev]
      split
      · exact .refl _ _
      · split
        · rename_i between failure step
          rw [step] at ih
          exact ih
        · rename_i between step
          rw [step] at ih
          split
          · rename_i final last
            obtain ⟨location, _, absent, changed⟩ := mkdir_changed last
            refine ih.trans (Grown.evolved (?_ : Grown between final location))
            intro other
            rw [changed other]
            split
            · rename_i same
              subst same
              exact .inr ⟨absent, rfl, List.prefix_rfl⟩
            · exact .inl rfl
          · exact ih

/-- Making directories changes nothing else, if it fails on the way too. -/
theorem createDirAll_evolved (names : Location) {free : Location → Prop} :
    Evolved free tree (tree.createDirAll names).1 :=
  createDirAllRev_evolved names.reverse

/-- Where directories are made in a tree, the frame aims as well, if no symlink on the way
may be gone. -/
theorem Frames.aim (frames : Frames gone frame tree) (names : Location)
    (clear : ∀ front name rest, names = front ++ name :: rest → ∀ early mid target,
      frame.aim maxLinks [] front = some (early, mid) →
      frame.nodeAt (mid ++ [name]) = some (.symlink target) → ¬ gone (mid ++ [name]))
    (aimed : tree.aim maxLinks [] names = some (passed, directory))
    (inside : after.nodeAt directory = some .dir) (grown : Grown tree after directory) :
    frame.aim maxLinks [] names = some (passed, directory) := by
  apply frames.toCovers.aim names aimed
  intro front name rest split early mid target reached shown next
  rcases link_or_plain tree (mid ++ [name]) with ⟨own, there⟩ | plain
  · rw [frames.links _ _ there] at next
    cases next
    exact there
  · exfalso
    -- a file would be in the way of the directories
    have solid : tree.nodeAt (mid ++ [name]) ≠ none := fun absent =>
      clear front name rest split early mid target shown next (frames.lost _ _ next absent)
    have blocked : tree.nodeAt (mid ++ [name]) ≠ some .dir := by
      intro dir
      rw [(frames.dirs _).mp dir] at next
      cases next
    rw [split, aim_append reached, aim_plain plain, aim_below rest blocked] at aimed
    cases aimed
    have still : after.nodeAt (mid ++ [name]) = tree.nodeAt (mid ++ [name]) := by
      rcases grown (mid ++ [name]) with same | ⟨absent, _⟩
      · exact same
      · exact absurd absent solid
    by_cases whole : rest = []
    · rw [whole, List.append_nil, still] at inside
      exact blocked inside
    · rw [nodeAt_append (by rw [inside]; exact Option.some_ne_none _) whole] at still
      exact blocked still.symm

/-- The same directories come in a tree and its frame. -/
theorem Frames.grown {raised : FileTree} (frames : Frames gone frame tree)
    (inside : after.nodeAt directory = some .dir) (grown : Grown tree after directory)
    (there : raised.nodeAt directory = some .dir) (taller : Grown frame raised directory) :
    Frames gone raised after := by
  have widened : Evolved (fun _ => False) tree after := grown.evolved
  have heightened : Evolved (fun _ => False) frame raised := taller.evolved
  refine ⟨⟨?_, ?_⟩, ?_, ?_⟩
  · intro location
    constructor
    · intro found
      rcases grown location with kept | ⟨_, _, before⟩
      · exact heightened.dirs location
          ((frames.dirs location).mp (kept.symm.trans found))
      · exact dir_above there before
    · intro found
      rcases taller location with kept | ⟨_, _, before⟩
      · exact widened.dirs location
          ((frames.dirs location).mpr (kept.symm.trans found))
      · exact dir_above inside before
  · intro location target found
    have before := widened.fresh location target found
    exact heightened.links location target not_false
      (frames.links location target before)
  · intro location target found absent
    have before := heightened.fresh location target found
    exact frames.lost location target before (grown.absent absent)
  · intro location contents mode found
    rcases taller location with kept | ⟨_, made, _⟩
    · exact frames.fileless location contents mode (kept.symm.trans found)
    · rw [made] at found
      cases found

/-- Directories that are made in a tree are made in its frame. -/
theorem Frames.createDirAll (frames : Frames gone frame tree) (names : Location)
    (clear : ∀ front name rest, names = front ++ name :: rest → ∀ early mid target,
      frame.aim maxLinks [] front = some (early, mid) →
      frame.nodeAt (mid ++ [name]) = some (.symlink target) → ¬ gone (mid ++ [name]))
    (made : tree.createDirAll names = (after, .ok ())) :
    Frames gone (frame.createDirAll names).1 after ∧
      ∃ passed directory, tree.aim maxLinks [] names = some (passed, directory) ∧
        Grown tree after directory := by
  have reversed := made
  rw [FileTree.createDirAll] at reversed
  obtain ⟨passed, directory, aimed⟩ := aim_of_createDirAllRev _ _ reversed
  rw [List.reverse_reverse] at aimed
  obtain ⟨inside, grown⟩ := createDirAll_ok aimed made
  have framed := frames.aim names clear aimed inside grown
  obtain ⟨raised, ran⟩ := createDirAllRev_fileless names.reverse frames.fileless
    (by rw [List.reverse_reverse]; exact framed)
  obtain ⟨there, taller⟩ := createDirAll_ok framed ran
  have same : (frame.createDirAll names).1 = raised := by rw [FileTree.createDirAll, ran]
  rw [same]
  exact ⟨frames.grown inside grown there taller, passed, directory, aimed, grown⟩

end Directories

section Runs

variable {gone : Location → Prop} {base frame later tree after made cleared filled : FileTree}
  {path location : Location} {passed : List Location} {deeds : List Deed}

/-- No symlink that may be gone is on the way to the directory of a path. -/
def Clear (gone : Location → Prop) (frame : FileTree) (path : Location) : Prop :=
  ∀ front name rest, path.dropLast = front ++ name :: rest → ∀ early mid target,
    frame.aim maxLinks [] front = some (early, mid) →
    frame.nodeAt (mid ++ [name]) = some (.symlink target) → ¬ gone (mid ++ [name])

theorem clear_of_none (frame : FileTree) (path : Location) : Clear (fun _ => False) frame path :=
  fun _ _ _ _ _ _ _ _ _ => not_false

/-- A path whose symlinks stay has a clear way. -/
theorem clear_of_way (evolved : Evolved (fun _ => False) frame later)
    (found : later.way path = some (passed, location)) (kept : ∀ link ∈ passed, ¬ gone link) :
    Clear gone frame path := by
  intro front name rest split early mid target aimed next
  obtain ⟨above, last, directory, rfl, whole, _⟩ := way_eq_some.mp found
  rw [List.dropLast_concat] at split
  rw [split, aim_append (evolved.aim front aimed fun _ _ => not_false)] at whole
  obtain ⟨⟨more, own⟩, inner, same⟩ := Option.map_eq_some_iff.mp whole
  cases same
  obtain ⟨first, _, others, _, _, member, _, rfl⟩ :=
    aim_link (evolved.links _ _ not_false next) inner
  exact kept _ (List.mem_append_right early (List.mem_append_left others member))

/-- A file that is written where its directories are made and a symlink in its place is
removed, in a tree and its frame. -/
theorem Frames.put {contents : ByteArray} (frames : Frames gone frame tree)
    (clear : Clear gone frame path) (directories : tree.createDirAll path.dropLast = (made, .ok ()))
    (clearing : cleared = made ∨ made.removeFile path = .ok cleared)
    (filling : cleared.write path contents = .ok filled) :
    ∃ passed location mode, (frame.createDirAll path.dropLast).1.way path = some (passed, location) ∧
      filled.nodeAt location = some (.file contents mode) ∧
      Done tree filled ⟨location, some (contents, none)⟩ ∧
      Frames gone (frame.createDirAll path.dropLast).1 filled := by
  obtain ⟨grown, early, directory, aimed, raised⟩ :=
    frames.createDirAll path.dropLast clear directories
  have one : ∃ passed location mode,
      (frame.createDirAll path.dropLast).1.way path = some (passed, location) ∧
        made.place path = some location ∧ made.nodeAt location ≠ some .dir ∧
        Changed made filled location (some (.file contents mode)) := by
    obtain ⟨location, mode, placed, leaf, changed⟩ := write_changed filling
    rcases clearing with same | removing
    · subst same
      obtain ⟨passed, found, _⟩ := grown.toCovers.place placed
      exact ⟨passed, location, mode, found, placed, leaf, changed⟩
    · obtain ⟨other, before, _, free, removed⟩ := removeFile_changed removing
      obtain ⟨passed, found, _⟩ := grown.toCovers.place before
      have left := grown.toCovers.removed removed free
      obtain ⟨again, there, _⟩ := left.place placed
      rw [found] at there
      cases there
      refine ⟨passed, location, mode, found, before, free, ?_⟩
      intro own
      rw [changed own, removed own]
      split
      · rfl
      · rfl
  obtain ⟨passed, location, mode, found, placed, leaf, changed⟩ := one
  have written : filled.nodeAt location = some (.file contents mode) :=
    (changed location).trans (if_pos rfl)
  have still : Evolved (fun _ => False) tree made := raised.evolved
  have free : tree.nodeAt location ≠ some .dir := fun inside => leaf (still.dirs location inside)
  refine ⟨passed, location, mode, found, written, ?_, ?_⟩
  · refine .put (fun own same => by cases same) free written ?_
    intro other differs
    rw [changed other, if_neg differs]
    rcases raised other with same | ⟨absent, dir, before⟩
    · exact .inl same
    · right
      refine ⟨absent, dir, before.trans ?_⟩
      obtain ⟨above, name, ends, rfl, inside, rfl⟩ := place_eq_some placed
      rw [List.dropLast_concat] at aimed
      have same := eq_of_place (raised.way aimed) placed
      rw [List.append_left_inj] at same
      rw [same]
      exact List.prefix_append directory [name]
  · exact grown.written changed leaf

/-- A file that is removed, in a tree and its frame. -/
theorem Frames.take (frames : Frames gone frame tree)
    (own : ∀ passed location, frame.way path = some (passed, location) → gone location)
    (removed : tree.removeFile path = .ok after) :
    ∃ passed location, frame.way path = some (passed, location) ∧
      Done tree after ⟨location, none⟩ ∧ Frames gone frame after := by
  obtain ⟨location, placed, _, leaf, changed⟩ := removeFile_changed removed
  obtain ⟨passed, found, _⟩ := frames.toCovers.place placed
  exact ⟨passed, location, found, .take leaf changed,
    frames.removed changed leaf (own passed location found)⟩

/-- The mode of a file that was put is set. -/
theorem Done.chmod {contents : ByteArray} {mode : Nat}
    (done : Done tree filled ⟨location, some (contents, none)⟩)
    (changed : Changed filled after location (some (.file contents mode))) :
    Done tree after ⟨location, some (contents, some mode)⟩ := by
  cases done with
  | put fits leaf written others =>
      have placed : after.nodeAt location = some (.file contents mode) :=
        (changed location).trans (if_pos rfl)
      refine .put (fun own same => Option.some.inj same) leaf placed ?_
      intro other differs
      rw [changed other, if_neg differs]
      exact others other differs

/-- The frame in the end: its symlinks are those of the first tree. -/
structure Framing (base frame after : FileTree) (deeds : List Deed) : Prop where
  ran : Ran base deeds after
  covers : Covers frame after
  links : ∀ location target, frame.nodeAt location = some (.symlink target) →
    base.nodeAt location = some (.symlink target)

/-- In the end a path leads where it does in the frame, as long as nothing was done at its
symlinks. -/
theorem Framing.way (framing : Framing base frame after deeds)
    (found : frame.way path = some (passed, location))
    (kept : ∀ link ∈ passed, ¬ Touched deeds link) :
    after.way path = some (passed, location) := by
  have evolved : Evolved (Touched deeds) frame after := by
    refine ⟨⟨fun location => (framing.covers.dirs location).mpr, ?_⟩, framing.covers.links⟩
    intro location target untouched next
    exact framing.ran.evolved.links location target untouched (framing.links location target next)
  exact evolved.way found kept

/-- What is at a path in the end. -/
theorem Framing.symlinkMetadata (framing : Framing base frame after deeds) (node : Node) :
    after.symlinkMetadata path = some node ↔ ∃ passed location,
      frame.way path = some (passed, location) ∧ (∀ link ∈ passed, ¬ Touched deeds link) ∧
      after.nodeAt location = some node := by
  constructor
  · intro present
    obtain ⟨location, placed, there⟩ := Option.bind_eq_some_iff.mp present
    obtain ⟨passed, found, linked⟩ := framing.covers.place placed
    refine ⟨passed, location, found, ?_, there⟩
    intro link member touched
    obtain ⟨target, next⟩ := linked link member
    exact framing.ran.unlinked touched target next
  · rintro ⟨passed, location, found, kept, there⟩
    rw [symlinkMetadata_of_way (framing.way found kept), there]

end Runs

end FileTree

end NixRedox
