import NixRedox.ManifestListing
import NixRedox.SeparatedPaths

set_option autoImplicit false

/- The manifest of an extracted archive against the archive's tree: one entry for
each node, under the slash-separated path of the node. -/
namespace NixRedox.Manifest

open Nar (EntryType FsNode ManifestEntry Name NarEntries NarNode RelPath childRel extractEntries
  extractNode fileMode invalidName)
open Redox (Table)
open SeparatedPaths (Proper)

/-- A path below the extraction destination as manifests write it. -/
abbrev pathText (path : RelPath) : List Char := SeparatedPaths.text '/' path

/-- The manifest `extract_with_manifest` returns. -/
def manifestOf (node : NarNode) : List ManifestEntry := (extractNode [] [] node).manifest

/-- What the manifest says of a node. -/
def entryOf (path : RelPath) : FsNode → ManifestEntry
  | .dir => ⟨pathText path, .dir, 0, false⟩
  | .file content mode => ⟨pathText path, .file, content.length, mode = fileMode true⟩
  | .symlink _ => ⟨pathText path, .symlink, 0, false⟩

@[simp] theorem entryOf_path (path : RelPath) (node : FsNode) :
    (entryOf path node).path = pathText path := by
  cases node <;> rfl

theorem proper_name {name : Name} (named : name ≠ []) (valid : invalidName name = false) :
    name ≠ [] ∧ '/' ∉ name := by
  refine ⟨named, ?_⟩
  intro slash
  simp [invalidName, slash] at valid

theorem childRel_pathText {path : RelPath} {name : Name} (proper : Proper '/' path) :
    childRel (pathText path) name = pathText (path ++ [name]) := by
  unfold childRel
  by_cases top : path = []
  · subst top
    simp
  · have below : pathText path ≠ [] := by
      rw [ne_eq, SeparatedPaths.text_eq_nil proper]
      exact top
    have joined := SeparatedPaths.text_append '/' top (List.cons_ne_nil name [])
    rw [SeparatedPaths.text_singleton] at joined
    rw [if_neg below]
    exact joined.symm

mutual

/-- The names on the way to a node of a complete archive can be read back from its
path. -/
theorem tree_proper {node : NarNode} (wellFormed : node.WellFormed)
    (complete : node.complete = true) {path : RelPath} {found : FsNode}
    (present : node.tree path = some found) : Proper '/' path := by
  cases node with
  | file executable chunks whole =>
      cases path with
      | nil => simp [Proper]
      | cons name rest => cases present
  | symlink target =>
      cases path with
      | nil => simp [Proper]
      | cons name rest => cases target <;> cases present
  | directory entries =>
      cases path with
      | nil => simp [Proper]
      | cons name rest => exact entries_proper wellFormed complete present

theorem entries_proper {entries : NarEntries} (wellFormed : entries.WellFormed)
    (complete : entries.complete = true) {name : Name} {path : RelPath} {found : FsNode}
    (present : entries.tree name path = some found) : Proper '/' (name :: path) := by
  cases entries with
  | done => cases present
  | broken => cases present
  | entry own node rest =>
      cases own with
      | none => cases complete
      | some own =>
          simp only [NarEntries.complete, Bool.and_eq_true, Bool.not_eq_true'] at complete
          obtain ⟨named, -, nodeFormed, restFormed⟩ := wellFormed
          rw [NarEntries.tree] at present
          split at present
          · rename_i same
            subst same
            exact SeparatedPaths.proper_cons.mpr
              ⟨proper_name named complete.1.1, tree_proper nodeFormed complete.1.2 present⟩
          · exact entries_proper restFormed complete.2 present

end

mutual

/-- Only a directory has something below it. -/
theorem tree_below {node : NarNode} {path rest : RelPath} {found : FsNode} (below : rest ≠ [])
    (present : node.tree (path ++ rest) = some found) : node.tree path = some .dir := by
  obtain ⟨next, others, rfl⟩ := List.exists_cons_of_ne_nil below
  cases node with
  | file executable chunks whole => cases path <;> cases present
  | symlink target => cases target <;> cases path <;> cases present
  | directory entries =>
      cases path with
      | nil => rfl
      | cons name path => exact entries_below below present

theorem entries_below {entries : NarEntries} {name : Name} {path rest : RelPath} {found : FsNode}
    (below : rest ≠ []) (present : entries.tree name (path ++ rest) = some found) :
    entries.tree name path = some .dir := by
  cases entries with
  | done => cases present
  | broken => cases present
  | entry own node others =>
      cases own with
      | none => cases present
      | some own =>
          rw [NarEntries.tree] at present ⊢
          split at present
          · rename_i same
            rw [if_pos same]
            exact tree_below below present
          · rename_i different
            rw [if_neg different]
            exact entries_below below present

end

theorem fileMode_executable (executable : Bool) :
    decide (fileMode executable = fileMode true) = executable := by
  cases executable <;> decide

theorem andThen_manifest {first later : Nar.Plan} (complete : first.complete = true) :
    (first.andThen later).manifest = first.manifest ++ later.manifest := by
  simp [Nar.Plan.andThen, complete]

mutual

/-- The manifest of a subtree extracted at `base` has the entries of its nodes,
except for the root directory. -/
theorem mem_extractNode {node : NarNode} (wellFormed : node.WellFormed)
    (complete : node.complete = true) (place : RelPath) {base : RelPath}
    (proper : Proper '/' base) {entry : ManifestEntry} :
    entry ∈ (extractNode place (pathText base) node).manifest ↔
      ∃ path found, node.tree path = some found ∧ (base ++ path = [] → found ≠ .dir) ∧
        entry = entryOf (base ++ path) found := by
  cases node with
  | file executable chunks whole =>
      have finished : whole = true := complete
      subst finished
      have only : entryOf base (.file chunks.flatten (fileMode executable)) =
          ⟨pathText base, .file, (chunks.map List.length).sum, executable⟩ := by
        simp [entryOf, fileMode_executable, List.length_flatten]
      constructor
      · intro member
        have same : entry = ⟨pathText base, .file, (chunks.map List.length).sum, executable⟩ := by
          simpa [extractNode] using member
        refine ⟨[], .file chunks.flatten (fileMode executable), rfl, fun _ => nofun, ?_⟩
        rw [same, ← only, List.append_nil]
      · rintro ⟨path, found, present, -, rfl⟩
        cases path with
        | nil =>
            cases present
            rw [List.append_nil, only]
            simp [extractNode]
        | cons name rest => cases present
  | symlink target =>
      cases target with
      | none => cases complete
      | some target =>
          constructor
          · intro member
            have same : entry = ⟨pathText base, .symlink, 0, false⟩ := by
              simpa [extractNode] using member
            refine ⟨[], .symlink target, rfl, fun _ => nofun, ?_⟩
            rw [same, List.append_nil]
            rfl
          · rintro ⟨path, found, present, -, rfl⟩
            cases path with
            | nil =>
                cases present
                rw [List.append_nil]
                simp [extractNode, entryOf]
            | cons name rest => cases present
  | directory entries =>
      have below : ∀ entry, entry ∈ (extractEntries place (pathText base) entries).manifest ↔ _ :=
        fun entry => mem_extractEntries wellFormed complete place proper
      have split : (extractNode place (pathText base) (.directory entries)).manifest =
          (if base = [] then [] else [entryOf base .dir]) ++
            (extractEntries place (pathText base) entries).manifest := by
        rw [extractNode, andThen_manifest rfl]
        simp only [SeparatedPaths.text_eq_nil proper]
        rfl
      rw [split, List.mem_append, below]
      constructor
      · rintro (own | ⟨name, path, found, present, rfl⟩)
        · split at own
          · cases own
          · rename_i deeper
            rw [List.mem_singleton] at own
            refine ⟨[], .dir, rfl, ?_, by rw [own, List.append_nil]⟩
            intro top
            exact False.elim (deeper (by simpa using top))
        · exact ⟨name :: path, found, present, by simp, rfl⟩
      · rintro ⟨path, found, present, kept, rfl⟩
        cases path with
        | nil =>
            cases present
            refine Or.inl ?_
            have deeper : base ≠ [] := fun top => kept (by simp [top]) rfl
            simp [deeper]
        | cons name rest => exact Or.inr ⟨name, rest, found, present, rfl⟩

theorem mem_extractEntries {entries : NarEntries} (wellFormed : entries.WellFormed)
    (complete : entries.complete = true) (place : RelPath) {base : RelPath}
    (proper : Proper '/' base) {entry : ManifestEntry} :
    entry ∈ (extractEntries place (pathText base) entries).manifest ↔
      ∃ name path found, entries.tree name path = some found ∧
        entry = entryOf (base ++ name :: path) found := by
  cases entries with
  | done => simp [extractEntries, Nar.Plan.finish, NarEntries.tree]
  | broken => cases complete
  | entry own node rest =>
      cases own with
      | none => cases complete
      | some own =>
          simp only [NarEntries.complete, Bool.and_eq_true, Bool.not_eq_true'] at complete
          obtain ⟨named, absent, nodeFormed, restFormed⟩ := wellFormed
          have deeper : Proper '/' (base ++ [own]) := SeparatedPaths.proper_append.mpr
            ⟨proper, SeparatedPaths.proper_singleton.mpr (proper_name named complete.1.1)⟩
          have first : ∀ entry, entry ∈ (extractNode (Nar.child place own)
              (pathText (base ++ [own])) node).manifest ↔ _ := fun entry =>
            mem_extractNode nodeFormed complete.1.2 (Nar.child place own) deeper
          have later : ∀ entry, entry ∈ (extractEntries place (pathText base) rest).manifest ↔ _ :=
            fun entry => mem_extractEntries restFormed complete.2 place proper
          have split : (extractEntries place (pathText base) (.entry (some own) node rest)).manifest =
              (extractNode (Nar.child place own) (pathText (base ++ [own])) node).manifest ++
                (extractEntries place (pathText base) rest).manifest := by
            rw [extractEntries, complete.1.1, if_neg (by simp), childRel_pathText proper]
            exact andThen_manifest ((Nar.complete_extractNode _ _ node).trans complete.1.2)
          rw [split, List.mem_append, first, later]
          constructor
          · rintro (⟨path, found, present, -, rfl⟩ | ⟨name, path, found, present, rfl⟩)
            · refine ⟨own, path, found, ?_, by simp⟩
              rw [NarEntries.tree, if_pos rfl]
              exact present
            · refine ⟨name, path, found, ?_, rfl⟩
              have different : name ≠ own := by
                rintro rfl
                rw [NarEntries.tree_eq_none absent path] at present
                cases present
              rw [NarEntries.tree, if_neg different]
              exact present
          · rintro ⟨name, path, found, present, rfl⟩
            rw [NarEntries.tree] at present
            split at present
            · rename_i same
              subst same
              exact Or.inl ⟨path, found, present, by simp, by simp⟩
            · exact Or.inr ⟨name, path, found, present, rfl⟩

end

theorem mem_manifestOf {node : NarNode} (wellFormed : node.WellFormed)
    (complete : node.complete = true) {entry : ManifestEntry} :
    entry ∈ manifestOf node ↔
      ∃ path found, node.tree path = some found ∧ (path = [] → found ≠ .dir) ∧
        entry = entryOf path found :=
  @mem_extractNode node wellFormed complete [] [] (by simp [Proper]) entry

/-- The manifest has an entry at a path exactly if the tree has a node there, and then
only one. -/
theorem mem_manifestOf_path {node : NarNode} (wellFormed : node.WellFormed)
    (complete : node.complete = true) {path : RelPath} (proper : Proper '/' path)
    {entry : ManifestEntry} :
    entry ∈ manifestOf node ∧ entry.path = pathText path ↔
      ∃ found, node.tree path = some found ∧ (path = [] → found ≠ .dir) ∧
        entry = entryOf path found := by
  rw [mem_manifestOf wellFormed complete]
  constructor
  · rintro ⟨⟨other, found, present, kept, rfl⟩, same⟩
    rw [entryOf_path,
      SeparatedPaths.text_inj (tree_proper wellFormed complete present) proper] at same
    subst same
    exact ⟨found, present, kept, rfl⟩
  · rintro ⟨found, present, kept, rfl⟩
    exact ⟨⟨path, found, present, kept, rfl⟩, entryOf_path path found⟩

theorem trimEnd_pathText {path : RelPath} (proper : Proper '/' path) :
    Text.trimEnd (pathText path) = pathText path := by
  have last := SeparatedPaths.getLast_text proper
  unfold Text.trimEnd
  rw [List.rdropWhile_eq_self_iff]
  intro nonempty
  rw [List.getLast?_eq_some_getLast nonempty] at last
  simpa using last

theorem trimMatches_pathText {path : RelPath} (proper : Proper '/' path) :
    Text.trimMatches (pathText path) = pathText path := by
  have first : Text.trimStart (pathText path) = pathText path := by
    have head := SeparatedPaths.head_text proper
    unfold Text.trimStart
    rw [List.dropWhile_eq_self_iff]
    intro nonempty
    rw [List.head?_eq_getElem?, List.getElem?_eq_getElem nonempty] at head
    simpa using head
  rw [Text.trimMatches, first, trimEnd_pathText proper]

theorem relativeTo_eq_some {start path rest : List Char} :
    relativeTo start path = some rest ↔ path = start ++ rest := by
  unfold relativeTo
  split
  · rename_i front
    obtain ⟨tail, rfl⟩ := List.isPrefixOf_iff_prefix.mp front
    simp
  · rename_i apart
    constructor
    · intro impossible
      cases impossible
    · rintro rfl
      exact False.elim (apart (List.isPrefixOf_iff_prefix.mpr (List.prefix_append _ _)))

/-- What is left of a path's text after the start of a directory. -/
theorem relativeTo_pathText {directory path : RelPath} (base : Proper '/' directory)
    (proper : Proper '/' path) {rel : List Char} :
    relativeTo (pathStart (pathText directory)) (pathText path) = some rel ↔
      ∃ below, path = directory ++ below ∧ rel = pathText below ∧
        (directory ≠ [] → below ≠ []) := by
  rw [relativeTo_eq_some]
  unfold pathStart
  by_cases top : directory = []
  · subst top
    simp [eq_comm]
  · have named : pathText directory ≠ [] := by
      rw [ne_eq, SeparatedPaths.text_eq_nil base]
      exact top
    rw [if_neg named, trimEnd_pathText base, List.append_assoc, List.singleton_append]
    constructor
    · intro continues
      obtain ⟨below, some_, same, rest⟩ := SeparatedPaths.text_continues proper base top continues
      exact ⟨below, same, rest, fun _ => some_⟩
    · rintro ⟨below, rfl, rfl, some_⟩
      exact SeparatedPaths.text_append '/' top (some_ top)

theorem splitFirstSlash_pathText {name : Name} {rest : RelPath} (free : '/' ∉ name) :
    Text.splitFirstSlash (pathText (name :: rest)) =
      (name, if rest = [] then none else some (pathText rest)) := by
  rw [Text.splitFirstSlash_eq, SeparatedPaths.takeWhile_text rest free,
    SeparatedPaths.dropWhile_text rest free]
  by_cases last : rest = []
  · simp [last]
  · simp [last]

/-- How a path shows up in the listing of a directory. -/
theorem childOf_pathText {directory path : RelPath} (base : Proper '/' directory)
    (proper : Proper '/' path) {shown : Child} :
    childOf (pathStart (pathText directory)) (pathText path) = some shown ↔
      (∃ name, shown = .direct name ∧ path = directory ++ [name]) ∨
        ∃ name next rest, shown = .nested name ∧ path = directory ++ name :: next :: rest := by
  unfold childOf
  split
  · rename_i outside
    constructor
    · intro impossible
      cases impossible
    · intro shows
      exfalso
      have inside : ∃ below, below ≠ [] ∧ path = directory ++ below := by
        rcases shows with ⟨name, -, rfl⟩ | ⟨name, next, rest, -, rfl⟩
        · exact ⟨[name], by simp, rfl⟩
        · exact ⟨name :: next :: rest, by simp, rfl⟩
      obtain ⟨below, some_, rfl⟩ := inside
      have within := (relativeTo_pathText base proper).mpr ⟨below, rfl, rfl, fun _ => some_⟩
      rw [outside] at within
      cases within
  · rename_i rel inside
    obtain ⟨below, rfl, rfl, -⟩ := (relativeTo_pathText base proper).mp inside
    have lower := (SeparatedPaths.proper_append.mp proper).2
    cases below with
    | nil => simp [Text.splitFirstSlash]
    | cons name rest =>
        obtain ⟨⟨named, free⟩, later⟩ := SeparatedPaths.proper_cons.mp lower
        rw [splitFirstSlash_pathText free]
        cases rest with
        | nil => simp [named, eq_comm]
        | cons next rest => simp [eq_comm]

section Children

variable {β : Type} (nested : List Char → β) (direct : List Char → ManifestEntry → β)

theorem addChildren_concat (start : List Char) (front : List ManifestEntry)
    (last : ManifestEntry) (seen : Table β) :
    addChildren nested direct start (front ++ [last]) seen =
      match childOf start last.path with
      | none => addChildren nested direct start front seen
      | some (.nested name) =>
          Table.orInsert (addChildren nested direct start front seen) name (nested name)
      | some (.direct name) =>
          (addChildren nested direct start front seen).insert name (direct name last) := by
  unfold addChildren
  rw [List.foldl_append]
  rfl

/-- A name that no entry shows up under is left alone. -/
theorem lookup_addChildren_absent {start : List Char} {manifest : List ManifestEntry}
    {name : List Char} (seen : Table β)
    (absent : ∀ entry ∈ manifest, childOf start entry.path ≠ some (.direct name) ∧
      childOf start entry.path ≠ some (.nested name)) :
    (addChildren nested direct start manifest seen).lookup name = seen.lookup name := by
  induction manifest using List.reverseRecOn with
  | nil => rfl
  | append_singleton front last ih =>
      have before := ih fun entry member => absent entry (by simp [member])
      have own := absent last (by simp)
      rw [addChildren_concat]
      split
      · exact before
      · rename_i other shown
        have different : name ≠ other := fun same => own.2 (same ▸ shown)
        rw [Table.lookup_orInsert, if_neg different]
        exact before
      · rename_i other shown
        have different : name ≠ other := fun same => own.1 (same ▸ shown)
        rw [AList.lookup_insert_ne different]
        exact before

/-- A direct entry takes its name, whatever was there. -/
theorem lookup_addChildren_direct {start : List Char} {manifest : List ManifestEntry}
    {name : List Char} (seen : Table β)
    (present : ∃ entry ∈ manifest, childOf start entry.path = some (.direct name)) :
    ∃ entry ∈ manifest, childOf start entry.path = some (.direct name) ∧
      (addChildren nested direct start manifest seen).lookup name = some (direct name entry) := by
  induction manifest using List.reverseRecOn with
  | nil => simp at present
  | append_singleton front last ih =>
      rw [addChildren_concat]
      by_cases own : childOf start last.path = some (.direct name)
      · exact ⟨last, by simp, own, by rw [own]; simp⟩
      · have earlier : ∃ entry ∈ front, childOf start entry.path = some (.direct name) := by
          obtain ⟨entry, member, shown⟩ := present
          rcases List.mem_append.mp member with member | member
          · exact ⟨entry, member, shown⟩
          · rw [List.mem_singleton] at member
            exact False.elim (own (member ▸ shown))
        obtain ⟨entry, member, shown, found⟩ := ih earlier
        refine ⟨entry, by simp [member], shown, ?_⟩
        split
        · exact found
        · rename_i other _
          rw [Table.lookup_orInsert]
          split
          · rename_i same
            rw [← same, found, Option.getD_some]
          · exact found
        · rename_i other taken
          have different : name ≠ other := fun same => own (same ▸ taken)
          rw [AList.lookup_insert_ne different]
          exact found

/-- The children a tree's manifest adds to a listing are those of its directory. -/
theorem lookup_addChildren_tree {node : NarNode} (wellFormed : node.WellFormed)
    (complete : node.complete = true) {directory : RelPath} (base : Proper '/' directory)
    (seen : Table β) (name : List Char) :
    (addChildren nested direct (pathStart (pathText directory)) (manifestOf node) seen).lookup
        name =
      match node.tree (directory ++ [name]) with
      | some found => some (direct name (entryOf (directory ++ [name]) found))
      | none => seen.lookup name := by
  cases present : node.tree (directory ++ [name]) with
  | some found =>
      have listed : entryOf (directory ++ [name]) found ∈ manifestOf node :=
        (mem_manifestOf wellFormed complete).mpr
          ⟨directory ++ [name], found, present, by simp, rfl⟩
      have shown : childOf (pathStart (pathText directory))
          (entryOf (directory ++ [name]) found).path = some (.direct name) := by
        rw [entryOf_path]
        exact (childOf_pathText base (tree_proper wellFormed complete present)).mpr
          (Or.inl ⟨name, rfl, rfl⟩)
      obtain ⟨entry, member, direct_, found_⟩ :=
        lookup_addChildren_direct nested direct seen ⟨_, listed, shown⟩
      obtain ⟨path, other, there, -, rfl⟩ := (mem_manifestOf wellFormed complete).mp member
      rw [entryOf_path, childOf_pathText base (tree_proper wellFormed complete there)] at direct_
      rcases direct_ with ⟨own, same, rfl⟩ | ⟨own, next, rest, impossible, -⟩
      · cases same
        cases present.symm.trans there
        exact found_
      · cases impossible
  | none =>
      apply lookup_addChildren_absent
      intro entry member
      obtain ⟨path, found, there, -, rfl⟩ := (mem_manifestOf wellFormed complete).mp member
      have shows := @childOf_pathText directory path base (tree_proper wellFormed complete there)
      rw [entryOf_path]
      constructor
      · intro shown
        rcases shows.mp shown with ⟨own, same, rfl⟩ | ⟨own, next, rest, impossible, -⟩
        · cases same
          cases present.symm.trans there
        · cases impossible
      · intro shown
        rcases shows.mp shown with ⟨own, impossible, -⟩ | ⟨own, next, rest, same, rfl⟩
        · cases impossible
        · cases same
          have above : node.tree (directory ++ [name]) = some .dir := by
            apply tree_below (List.cons_ne_nil next rest)
            simpa using there
          cases present.symm.trans above

end Children

end NixRedox.Manifest
