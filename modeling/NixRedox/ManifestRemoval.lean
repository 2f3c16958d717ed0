import NixRedox.NarContained

set_option autoImplicit false

/- The order of an extraction's manifest, and `remove_tree_via_manifest`, which goes through
it from the end. -/
namespace NixRedox.Manifest

open Nar (Fs FsNode ManifestEntry Name NarEntries NarNode Plan RelPath SinkCall extractEntries
  extractNode extractNodeVia)
open SeparatedPaths (Proper)

section Listing

mutual

/-- The nodes of a tree, a directory before what is in it. -/
def nodesBelow (base : RelPath) : NarNode → List (RelPath × FsNode)
  | .file executable chunks _ => [(base, .file chunks.flatten (Nar.fileMode executable))]
  | .symlink none => []
  | .symlink (some target) => [(base, .symlink target)]
  | .directory entries => (base, .dir) :: entriesBelow base entries

def entriesBelow (base : RelPath) : NarEntries → List (RelPath × FsNode)
  | .entry (some name) node rest => nodesBelow (base ++ [name]) node ++ entriesBelow base rest
  | _ => []

end

/-- The nodes a manifest lists: all but the root directory. -/
def listed (base : RelPath) : NarNode → List (RelPath × FsNode)
  | .directory entries =>
      if base = [] then entriesBelow base entries else nodesBelow base (.directory entries)
  | node => nodesBelow base node

/-- No path comes after one that is at it or below it. -/
def ParentsFirst (nodes : List (RelPath × FsNode)) : Prop :=
  nodes.Pairwise fun earlier later => ¬ later.1 <+: earlier.1

mutual

theorem mem_nodesBelow {base path : RelPath} {node : NarNode} {found : FsNode}
    (member : (path, found) ∈ nodesBelow base node) : base <+: path := by
  cases node with
  | file executable chunks complete =>
      cases List.mem_singleton.mp member
      exact List.prefix_rfl
  | symlink target =>
      cases target with
      | none => cases member
      | some target =>
          cases List.mem_singleton.mp member
          exact List.prefix_rfl
  | directory entries =>
      rcases List.mem_cons.mp member with own | below
      · cases own
        exact List.prefix_rfl
      · obtain ⟨name, _, above⟩ := mem_entriesBelow below
        exact (List.prefix_append base [name]).trans above

theorem mem_entriesBelow {base path : RelPath} {entries : NarEntries} {found : FsNode}
    (member : (path, found) ∈ entriesBelow base entries) :
    ∃ name ∈ entries.names, base ++ [name] <+: path := by
  cases entries with
  | done => cases member
  | broken => cases member
  | entry name node rest =>
      cases name with
      | none => cases member
      | some name =>
          rcases List.mem_append.mp member with first | later
          · exact ⟨name, List.mem_cons_self, mem_nodesBelow first⟩
          · obtain ⟨other, listed, above⟩ := mem_entriesBelow later
            exact ⟨other, List.mem_cons_of_mem name listed, above⟩

end

mutual

theorem nodesBelow_parentsFirst (base : RelPath) {node : NarNode} (wellFormed : node.WellFormed) :
    ParentsFirst (nodesBelow base node) := by
  cases node with
  | file executable chunks complete => exact List.pairwise_singleton _ _
  | symlink target =>
      cases target with
      | none => exact List.Pairwise.nil
      | some target => exact List.pairwise_singleton _ _
  | directory entries =>
      refine List.pairwise_cons.mpr ⟨?_, entriesBelow_parentsFirst base wellFormed⟩
      rintro ⟨path, found⟩ member atOrAbove
      obtain ⟨name, _, above⟩ := mem_entriesBelow member
      have lengths := (above.trans atOrAbove).length_le
      simp at lengths

theorem entriesBelow_parentsFirst (base : RelPath) {entries : NarEntries}
    (wellFormed : entries.WellFormed) : ParentsFirst (entriesBelow base entries) := by
  cases entries with
  | done => exact List.Pairwise.nil
  | broken => exact List.Pairwise.nil
  | entry name node rest =>
      cases name with
      | none => exact List.Pairwise.nil
      | some name =>
          obtain ⟨-, absent, nodeFormed, restFormed⟩ := wellFormed
          refine List.pairwise_append.mpr ⟨nodesBelow_parentsFirst (base ++ [name]) nodeFormed,
            entriesBelow_parentsFirst base restFormed, ?_⟩
          rintro ⟨path, found⟩ first ⟨other, node⟩ later atOrAbove
          obtain ⟨name', named, above⟩ := mem_entriesBelow later
          have both := List.prefix_of_prefix_length_le (mem_nodesBelow first)
            (above.trans atOrAbove) (by simp)
          have same := both.eq_of_length (by simp)
          rw [List.append_cancel_left_eq, List.cons.injEq] at same
          exact absurd (same.1 ▸ named) absent

end

theorem concat_prefix_iff {base rest : RelPath} {name other : Name} :
    base ++ [name] <+: base ++ other :: rest ↔ name = other := by
  rw [List.prefix_append_right_inj, List.cons_prefix_cons]
  exact and_iff_left List.nil_prefix

mutual

theorem nodesBelow_tree (base : RelPath) {path : RelPath} {node : NarNode} {found : FsNode}
    (wellFormed : node.WellFormed) :
    (base ++ path, found) ∈ nodesBelow base node ↔ node.tree path = some found := by
  cases node with
  | file executable chunks complete =>
      cases path with
      | nil => simp [nodesBelow, NarNode.tree, eq_comm]
      | cons name rest => simp [nodesBelow, NarNode.tree]
  | symlink target =>
      cases target with
      | none => cases path <;> simp [nodesBelow, NarNode.tree]
      | some target =>
          cases path with
          | nil => simp [nodesBelow, NarNode.tree, eq_comm]
          | cons name rest => simp [nodesBelow, NarNode.tree]
  | directory entries =>
      cases path with
      | nil =>
          have outside : (base, found) ∉ entriesBelow base entries := by
            intro member
            obtain ⟨name, _, above⟩ := mem_entriesBelow member
            have lengths := above.length_le
            simp at lengths
          rw [List.append_nil, nodesBelow, List.mem_cons, or_iff_left outside]
          simp [NarNode.tree, eq_comm]
      | cons name rest =>
          have below : (base ++ name :: rest, found) ∈ entriesBelow base entries ↔
              entries.tree name rest = some found := entriesBelow_tree base wellFormed
          rw [nodesBelow, List.mem_cons, below]
          simp [NarNode.tree]

theorem entriesBelow_tree (base : RelPath) {name : Name} {path : RelPath} {entries : NarEntries}
    {found : FsNode} (wellFormed : entries.WellFormed) :
    (base ++ name :: path, found) ∈ entriesBelow base entries ↔
      entries.tree name path = some found := by
  cases entries with
  | done => simp [entriesBelow, NarEntries.tree]
  | broken => simp [entriesBelow, NarEntries.tree]
  | entry own node rest =>
      cases own with
      | none => simp [entriesBelow, NarEntries.tree]
      | some own =>
          obtain ⟨-, absent, nodeFormed, restFormed⟩ := wellFormed
          rw [entriesBelow, List.mem_append, NarEntries.tree,
            entriesBelow_tree base restFormed]
          by_cases same : name = own
          · subst same
            have first : (base ++ [name] ++ path, found) ∈ nodesBelow (base ++ [name]) node ↔
                node.tree path = some found := nodesBelow_tree (base ++ [name]) nodeFormed
            rw [← List.append_cons] at first
            rw [if_pos rfl, first, NarEntries.tree_eq_none absent]
            simp
          · have elsewhere : (base ++ name :: path, found) ∉ nodesBelow (base ++ [own]) node := by
              intro member
              exact same (concat_prefix_iff.mp (mem_nodesBelow member)).symm
            rw [if_neg same, or_iff_right elsewhere]

end

theorem listed_of_ne {base : RelPath} (deeper : base ≠ []) (node : NarNode) :
    listed base node = nodesBelow base node := by
  cases node with
  | directory entries => exact if_neg deeper
  | _ => rfl

theorem mem_listed {node : NarNode} {path : RelPath} {found : FsNode}
    (wellFormed : node.WellFormed) :
    (path, found) ∈ listed [] node ↔
      node.tree path = some found ∧ (path = [] → found ≠ .dir) := by
  have all : (path, found) ∈ nodesBelow [] node ↔ node.tree path = some found :=
    nodesBelow_tree [] wellFormed
  cases node with
  | file executable chunks complete =>
      refine all.trans (and_iff_left_of_imp ?_).symm
      rintro present rfl other
      cases present
      cases other
  | symlink target =>
      refine all.trans (and_iff_left_of_imp ?_).symm
      rintro present rfl other
      cases target with
      | none => cases present
      | some target =>
          cases present
          cases other
  | directory entries =>
      cases path with
      | nil =>
          refine iff_of_false ?_ ?_
          · intro member
            obtain ⟨name, _, above⟩ := mem_entriesBelow member
            exact absurd above.length_le (by simp)
          · rintro ⟨present, other⟩
            cases present
            exact other rfl rfl
      | cons name rest =>
          have below : ([] ++ name :: rest, found) ∈ entriesBelow [] entries ↔
              entries.tree name rest = some found := entriesBelow_tree [] wellFormed
          refine below.trans (and_iff_left ?_).symm
          intro empty
          cases empty

theorem listed_parentsFirst {node : NarNode} (wellFormed : node.WellFormed) :
    ParentsFirst (listed [] node) := by
  cases node with
  | directory entries => exact entriesBelow_parentsFirst [] wellFormed
  | file executable chunks complete => exact nodesBelow_parentsFirst [] wellFormed
  | symlink target => exact nodesBelow_parentsFirst [] wellFormed

mutual

theorem extractNode_manifest {node : NarNode} (wellFormed : node.WellFormed)
    (complete : node.complete = true) (place : RelPath) {base : RelPath}
    (proper : Proper '/' base) :
    (extractNode place (pathText base) node).manifest =
      (listed base node).map fun entry => entryOf entry.1 entry.2 := by
  cases node with
  | file executable chunks whole =>
      have finished : whole = true := complete
      subst finished
      simp [extractNode, listed, nodesBelow, entryOf, fileMode_executable, List.length_flatten]
  | symlink target =>
      cases target with
      | none => cases complete
      | some target => rfl
  | directory entries =>
      have below := extractEntries_manifest wellFormed complete place proper
      rw [extractNode, andThen_manifest rfl, below]
      simp only [SeparatedPaths.text_eq_nil proper, listed]
      split <;> rfl

theorem extractEntries_manifest {entries : NarEntries} (wellFormed : entries.WellFormed)
    (complete : entries.complete = true) (place : RelPath) {base : RelPath}
    (proper : Proper '/' base) :
    (extractEntries place (pathText base) entries).manifest =
      (entriesBelow base entries).map fun entry => entryOf entry.1 entry.2 := by
  cases entries with
  | done => rfl
  | broken => cases complete
  | entry own node rest =>
      cases own with
      | none => cases complete
      | some own =>
          simp only [NarEntries.complete, Bool.and_eq_true, Bool.not_eq_true'] at complete
          obtain ⟨named, absent, nodeFormed, restFormed⟩ := wellFormed
          have deeper : Proper '/' (base ++ [own]) := SeparatedPaths.proper_append.mpr
            ⟨proper, SeparatedPaths.proper_singleton.mpr (proper_name named complete.1.1)⟩
          have first := extractNode_manifest nodeFormed complete.1.2 (Nar.child place own) deeper
          have later := extractEntries_manifest restFormed complete.2 place proper
          rw [extractEntries, complete.1.1, if_neg (by simp), childRel_pathText proper,
            andThen_manifest ((Nar.complete_extractNode _ _ node).trans complete.1.2), first,
            later, listed_of_ne (by simp), entriesBelow, List.map_append]

end

end Listing

section Removal

/-- One `unlinkat`, at a path below the store path, of a directory or of something else. -/
structure Removal where
  path : RelPath
  dir : Bool

/-- The components of an entry's path. -/
def entryComponents (path : List Char) : RelPath := (path.splitOn '/').filter (· ≠ [])

/-- The calls of `remove_tree_via_manifest`: the entries from the last one, then the root. -/
def removeTreeViaManifest (manifest : List ManifestEntry) : List Removal :=
  (manifest.reverse.map fun entry => ⟨entryComponents entry.path, entry.entryType = .dir⟩) ++
    [⟨[], true⟩]

/-- A directory has nothing in it when it is removed, and nothing else is one. -/
def Removal.Clean (fs : Fs) (removal : Removal) : Prop :=
  if removal.dir then ∀ rest, rest ≠ [] → fs (removal.path ++ rest) = none
  else fs removal.path ≠ some .dir

def Removal.exec (fs : Fs) (removal : Removal) : Fs := Function.update fs removal.path none

def RemovesClean : List Removal → Fs → Prop
  | [], _ => True
  | removal :: rest, fs => removal.Clean fs ∧ RemovesClean rest (removal.exec fs)

theorem entryComponents_pathText {path : RelPath} (proper : Proper '/' path) :
    entryComponents (pathText path) = path := by
  by_cases top : path = []
  · subst top
    decide
  · rw [entryComponents, pathText, SeparatedPaths.splitOn_text proper top, List.filter_eq_self]
    intro name member
    exact decide_eq_true (proper name member).1

/-- The nodes of the list are on disk, and the root besides them. -/
def Remaining (nodes : List (RelPath × FsNode)) (root : Option FsNode) (fs : Fs) : Prop :=
  ∀ path found, fs path = some found ↔
    (path, found) ∈ nodes ∨ path = [] ∧ root = some found

def removalOf (node : RelPath × FsNode) : Removal := ⟨node.1, node.2 = .dir⟩

variable {nodes front : List (RelPath × FsNode)} {last : RelPath × FsNode}
  {root : Option FsNode} {fs : Fs}

/-- Nothing is below the last of the nodes. -/
theorem Remaining.clean (remaining : Remaining (front ++ [last]) root fs)
    (order : ParentsFirst (front ++ [last])) : (removalOf last).Clean fs := by
  have here : fs last.1 = some last.2 := (remaining last.1 last.2).mpr
    (.inl (List.mem_append_right _ List.mem_cons_self))
  unfold Removal.Clean removalOf
  by_cases dir : last.2 = .dir
  · rw [if_pos (decide_eq_true dir)]
    intro rest below
    by_contra occupied
    obtain ⟨found, present⟩ := Option.ne_none_iff_exists'.mp occupied
    rcases (remaining _ _).mp present with member | ⟨top, _⟩
    · rcases List.mem_append.mp member with earlier | own
      · exact (List.pairwise_append.mp order).2.2 _ earlier last List.mem_cons_self
          (List.prefix_append _ _)
      · have same := congrArg Prod.fst (List.mem_singleton.mp own)
        exact below (List.append_right_eq_self.mp same)
    · exact below (List.append_eq_nil_iff.mp top).2
  · rw [if_neg (by simpa using dir), here]
    exact fun same => dir (Option.some.inj same)

theorem Remaining.removed (remaining : Remaining (front ++ [last]) root fs)
    (order : ParentsFirst (front ++ [last])) (own : last.1 = [] → root = none) :
    Remaining front root ((removalOf last).exec fs) := by
  intro path found
  unfold Removal.exec removalOf
  by_cases here : path = last.1
  · subst here
    have absent : (last.1, found) ∉ front := fun earlier =>
      (List.pairwise_append.mp order).2.2 _ earlier last List.mem_cons_self List.prefix_rfl
    have gone : ¬ ((last.1, found) ∈ front ∨ last.1 = [] ∧ root = some found) := by
      rintro (member | ⟨top, some_⟩)
      · exact absent member
      · rw [own top] at some_
        cases some_
    rw [Function.update_self]
    exact iff_of_false (Option.some_ne_none found).symm gone
  · have other : (path, found) ∉ [last] := fun member =>
      here (congrArg Prod.fst (List.mem_singleton.mp member))
    rw [Function.update_of_ne here, remaining, List.mem_append, or_iff_left other]

/-- Going through the nodes from the end never meets a directory with something in it, and
leaves nothing. -/
theorem Remaining.removesClean (remaining : Remaining nodes root fs) (order : ParentsFirst nodes)
    (own : ∀ node ∈ nodes, node.1 = [] → root = none) :
    RemovesClean (nodes.reverse.map removalOf ++ [⟨[], true⟩]) fs ∧
      (nodes.reverse.map removalOf ++ [(⟨[], true⟩ : Removal)]).foldl Removal.exec fs =
        Fs.empty := by
  induction nodes using List.reverseRecOn generalizing fs with
  | nil =>
      have below : ∀ path, path ≠ [] → fs path = none := by
        intro path lower
        by_contra occupied
        obtain ⟨found, present⟩ := Option.ne_none_iff_exists'.mp occupied
        rcases (remaining _ _).mp present with member | ⟨top, _⟩
        · cases member
        · exact lower top
      refine ⟨⟨?_, trivial⟩, ?_⟩
      · exact fun rest lower => below rest lower
      · funext path
        by_cases top : path = []
        · subst top
          exact Function.update_self [] none fs
        · exact (Function.update_of_ne top none fs).trans (below path top)
  | append_singleton front last ih =>
      have cleared := remaining.removed order
        (own last (List.mem_append_right _ List.mem_cons_self))
      obtain ⟨clean, gone⟩ := ih cleared (List.pairwise_append.mp order).1
        fun node member => own node (List.mem_append_left _ member)
      rw [List.reverse_append, List.reverse_singleton, List.singleton_append, List.map_cons,
        List.cons_append]
      exact ⟨⟨remaining.clean order, clean⟩, gone⟩

theorem entryOf_dir (path : RelPath) (found : FsNode) :
    decide ((entryOf path found).entryType = .dir) = decide (found = .dir) := by
  cases found <;> rfl

/-- The calls of the cleanup are the nodes from the last one, and the root. -/
theorem removeTreeViaManifest_entries (proper : ∀ node ∈ nodes, Proper '/' node.1) :
    removeTreeViaManifest (nodes.map fun node => entryOf node.1 node.2) =
      nodes.reverse.map removalOf ++ [⟨[], true⟩] := by
  rw [removeTreeViaManifest, ← List.map_reverse, List.map_map]
  congr 1
  apply List.map_congr_left
  intro node member
  have own := entryComponents_pathText (proper node (List.mem_reverse.mp member))
  simp only [Function.comp_apply, entryOf_path, own, entryOf_dir, removalOf]

end Removal

/-- `extract_with_manifest`, with what the sink answers to its calls. -/
def extractTo (accepts : List SinkCall → Bool) (node : NarNode) : Plan :=
  extractNodeVia accepts ⟨[], [], true⟩ [] [] node

theorem extractTo_follows (accepts : List SinkCall → Bool) (node : NarNode) :
    Nar.Follows ⟨[], [], true⟩ (extractTo accepts node) (extractNode [] [] node) :=
  Nar.extractNodeVia_follows accepts _ [] [] node

/-- What is listed of a tree is on disk, besides a root directory. -/
theorem remaining_listed {node : NarNode} (wellFormed : node.WellFormed) :
    Remaining (listed [] node) (if node.tree [] = some .dir then some .dir else none)
      node.tree := by
  intro path found
  rw [mem_listed wellFormed]
  constructor
  · intro present
    by_cases top : path = [] ∧ found = .dir
    · obtain ⟨rfl, rfl⟩ := top
      exact .inr ⟨rfl, if_pos present⟩
    · exact .inl ⟨present, fun here dir => top ⟨here, dir⟩⟩
  · rintro (⟨present, _⟩ | ⟨rfl, root⟩)
    · exact present
    · split at root
      · rename_i dir
        rw [dir, root]
      · cases root

section Extracted

variable {accepts : List SinkCall → Bool} {node : NarNode}

theorem extractTo_inside {call : SinkCall} (member : call ∈ (extractTo accepts node).calls)
    {name : Name} (named : name ∈ call.path) :
    name ∈ node.allNames ∧ '/' ∉ name ∧ name ≠ ['.'] ∧ name ≠ ['.', '.'] := by
  have issued : (extractTo accepts node).calls <+: (extractNode [] [] node).calls :=
    (extractTo_follows accepts node).calls
  obtain ⟨below, same, own⟩ := Nar.extractNode_inside [] [] node call (issued.subset member)
  rw [same, List.nil_append] at named
  obtain ⟨listed, valid⟩ := own name named
  simp only [Nar.invalidName, Bool.or_eq_false_iff, List.contains_eq_mem,
    decide_eq_false_iff_not] at valid
  exact ⟨listed, valid.1.1, valid.1.2, valid.2⟩

theorem extractTo_dirsFirst {before after : List SinkCall} {call : SinkCall}
    (split : (extractTo accepts node).calls = before ++ call :: after) {parent : RelPath}
    (above : parent <+: call.path) (different : parent ≠ call.path) :
    SinkCall.createDirAll parent ∈ before := by
  have issued : (extractTo accepts node).calls <+: (extractNode [] [] node).calls :=
    (extractTo_follows accepts node).calls
  have dirs : Nar.DirsFirst [] (extractNode [] [] node).calls :=
    Nar.extractNode_dirsFirst [] node fun parent above different =>
      absurd (List.prefix_nil.mp above) different
  have made := dirs.before (split ▸ issued) parent above different
  rw [List.nil_append, List.mem_flatMap] at made
  obtain ⟨earlier, member, makes⟩ := made
  cases earlier with
  | createDirAll path => rwa [List.mem_singleton.mp makes]
  | writeFile path executable chunks complete => cases makes
  | createSymlink path target => cases makes

/-- An extraction that succeeds has read the node to its end and made all calls. -/
theorem extractTo_succeeds (succeeded : (extractTo accepts node).complete = true) :
    node.complete = true ∧ (extractTo accepts node).calls = (extractNode [] [] node).calls ∧
      (extractTo accepts node).manifest = (extractNode [] [] node).manifest := by
  obtain ⟨complete, calls, manifest⟩ := (extractTo_follows accepts node).done succeeded
  rw [Nar.complete_extractNode] at complete
  exact ⟨complete, calls, manifest⟩

variable (wellFormed : node.WellFormed)
include wellFormed

theorem extractTo_entries (succeeded : (extractTo accepts node).complete = true) :
    (extractTo accepts node).manifest =
      (listed [] node).map fun entry => entryOf entry.1 entry.2 := by
  obtain ⟨complete, _, manifest⟩ := extractTo_succeeds succeeded
  have top : Proper '/' ([] : RelPath) := by simp [Proper]
  have plan := extractNode_manifest wellFormed complete [] top
  rwa [manifest]

theorem extractTo_writes (succeeded : (extractTo accepts node).complete = true) (sink : Nar.Sink) :
    Nar.execAll ((extractTo accepts node).actions sink) Fs.empty = node.tree := by
  obtain ⟨complete, calls, _⟩ := extractTo_succeeds succeeded
  have plan : (extractTo accepts node).actions sink =
      (extractNode [] [] node).actions sink := congrArg (·.flatMap sink.actions) calls
  rw [plan, (Nar.extract_builds_tree sink node wellFormed).2 complete]

variable (complete : node.complete = true)
include complete

theorem listed_proper : ∀ entry ∈ listed [] node, Proper '/' entry.1 := by
  intro entry member
  exact tree_proper wellFormed complete ((mem_listed wellFormed).mp member).1

theorem listed_paths_nodup :
    ((listed [] node).map fun entry => (entryOf entry.1 entry.2).path).Nodup := by
  have proper := listed_proper wellFormed complete
  have apart : (listed [] node).Pairwise fun earlier later =>
      (entryOf earlier.1 earlier.2).path ≠ (entryOf later.1 later.2).path := by
    apply (listed_parentsFirst wellFormed).imp_of_mem
    intro earlier later first second below same
    rw [entryOf_path, entryOf_path,
      SeparatedPaths.text_inj (proper earlier first) (proper later second)] at same
    exact below (same ▸ List.prefix_rfl)
  exact List.pairwise_map.mpr apart

theorem listed_removesClean :
    let removals := removeTreeViaManifest ((listed [] node).map fun entry =>
      entryOf entry.1 entry.2)
    RemovesClean removals node.tree ∧ removals.foldl Removal.exec node.tree = Fs.empty := by
  dsimp only
  rw [removeTreeViaManifest_entries (listed_proper wellFormed complete)]
  apply (remaining_listed wellFormed).removesClean (listed_parentsFirst wellFormed)
  intro entry member top
  obtain ⟨present, other⟩ := (mem_listed wellFormed).mp member
  rw [top] at present
  apply if_neg
  rw [present]
  exact fun dir => other top (Option.some.inj dir)

end Extracted

/-- Whatever the sink answers, extraction calls it inside the destination and makes each
directory first. If it succeeds, its manifest has every node but the root directory once,
none before the directory it is in, and cleaning up by it takes away only empty
directories. -/
theorem extraction_contained (accepts : List SinkCall → Bool) (node : NarNode) :
    (∀ call ∈ (extractTo accepts node).calls, ∀ name ∈ call.path,
      name ∈ node.allNames ∧ '/' ∉ name ∧ name ≠ ['.'] ∧ name ≠ ['.', '.']) ∧
    (∀ before call after, (extractTo accepts node).calls = before ++ call :: after →
      ∀ parent, parent <+: call.path → parent ≠ call.path →
        SinkCall.createDirAll parent ∈ before) ∧
    (node.WellFormed → (extractTo accepts node).complete = true →
      (∃ nodes : List (RelPath × FsNode),
        (extractTo accepts node).manifest = nodes.map (fun entry => entryOf entry.1 entry.2) ∧
        (∀ path found, (path, found) ∈ nodes ↔
          node.tree path = some found ∧ (path = [] → found ≠ .dir)) ∧
        ParentsFirst nodes) ∧
      ((extractTo accepts node).manifest.map (·.path)).Nodup ∧
      ∀ sink, RemovesClean (removeTreeViaManifest (extractTo accepts node).manifest)
          (Nar.execAll ((extractTo accepts node).actions sink) Fs.empty) ∧
        (removeTreeViaManifest (extractTo accepts node).manifest).foldl Removal.exec
          (Nar.execAll ((extractTo accepts node).actions sink) Fs.empty) = Fs.empty) := by
  refine ⟨fun _ member _ named => extractTo_inside member named, ?_, ?_⟩
  · intro before call after split parent above different
    exact extractTo_dirsFirst split above different
  · intro wellFormed succeeded
    have complete := (extractTo_succeeds succeeded).1
    rw [extractTo_entries wellFormed succeeded]
    refine ⟨⟨listed [] node, rfl, fun _ _ => mem_listed wellFormed,
      listed_parentsFirst wellFormed⟩, ?_, ?_⟩
    · rw [List.map_map]
      exact listed_paths_nodup wellFormed complete
    · intro sink
      rw [extractTo_writes wellFormed succeeded sink]
      exact listed_removesClean wellFormed complete

/-- A directory with a program and a link to it. -/
def linkedProgram : NarNode :=
  .directory (.entry (some "bin".toList)
    (.directory (.entry (some "rg".toList) (.file true [[1, 2], [3]] true) .done))
    (.entry (some "rg".toList) (.symlink (some "bin/rg".toList)) .done))

theorem extraction_contained_program :
    linkedProgram.WellFormed ∧ (extractTo (fun _ => true) linkedProgram).complete = true ∧
      ((extractTo (fun _ => true) linkedProgram).manifest.map (·.path)).Nodup := by
  have wellFormed : linkedProgram.WellFormed := by
    simp [linkedProgram, NarEntries.WellFormed, NarNode.WellFormed, NarEntries.names]
  have succeeded : (extractTo (fun _ => true) linkedProgram).complete = true := by decide
  exact ⟨wellFormed, succeeded,
    ((extraction_contained (fun _ => true) linkedProgram).2.2 wellFormed succeeded).2.1⟩

end NixRedox.Manifest
