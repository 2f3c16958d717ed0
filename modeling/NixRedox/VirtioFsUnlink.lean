import NixRedox.VirtioFsResolve

set_option autoImplicit false

/- `unlinkat` of `scheme.rs` on a host that shows a tree and removes entries from it. -/
namespace NixRedox.VirtioFs

open Redox (Errno)

section Removal

namespace HostTree

def IsDir (tree : HostTree) (id : UInt64) : Prop :=
  ∃ parent entries, tree.node id = some (.directory parent entries)

theorem isDir_iff {tree : HostTree} {id : UInt64} (there : (tree.node id).isSome) :
    (tree.attr id).isDir = true ↔ tree.IsDir id := by
  obtain ⟨found, here⟩ := Option.isSome_iff_exists.mp there
  rw [FuseAttr.isDir, decide_eq_true_iff, tree.typed id found here, IsDir, here]
  cases found with
  | file => exact iff_of_false (by decide) (by simp)
  | directory parent entries => exact iff_of_true rfl ⟨parent, entries, rfl⟩
  | symlink target => exact iff_of_false (by rw [HostNode.format]; decide) (by simp)

/-- The node of a directory without one of its entries. -/
def without (name : Name) : HostNode → HostNode
  | .directory parent entries => .directory parent (entries.erase name)
  | other => other

def removeNode (tree : HostTree) (dir : UInt64) (name : Name) (id : UInt64) : Option HostNode :=
  if id = dir then (tree.node id).map (without name) else tree.node id

variable {tree : HostTree} {dir id : UInt64} {name : Name}

theorem removeNode_eq {found : HostNode} (kept : tree.removeNode dir name id = some found) :
    ∃ before, tree.node id = some before ∧ (found = before ∨ found = without name before) := by
  unfold removeNode at kept
  split at kept
  · obtain ⟨before, here, rfl⟩ := Option.map_eq_some_iff.mp kept
    exact ⟨before, here, .inr rfl⟩
  · exact ⟨found, kept, .inl rfl⟩

/-- A directory keeps its parent, and no entry is added to it. -/
theorem removeNode_directory {parent : UInt64} {entries : AList fun _ : Name => UInt64}
    (kept : tree.removeNode dir name id = some (.directory parent entries)) :
    ∃ before, tree.node id = some (.directory parent before) ∧
      ∀ other child, entries.lookup other = some child → before.lookup other = some child := by
  obtain ⟨before, here, same⟩ := removeNode_eq kept
  rcases same with rfl | erased
  · exact ⟨entries, here, fun _ _ own => own⟩
  · cases before with
    | file => cases erased
    | symlink target => cases erased
    | directory up all =>
        cases erased
        refine ⟨all, here, ?_⟩
        intro other child own
        by_cases gone : other = name
        · rw [gone, AList.lookup_erase] at own
          cases own
        · rwa [AList.lookup_erase_ne gone] at own

theorem removeNode_some {before : HostNode} (here : tree.node id = some before) :
    tree.removeNode dir name id = some before ∨
      tree.removeNode dir name id = some (without name before) := by
  unfold removeNode
  split
  · rw [here]
    exact .inr rfl
  · exact .inl here

theorem removeNode_keeps_directory {parent : UInt64} {entries : AList fun _ : Name => UInt64}
    (here : tree.node id = some (.directory parent entries)) :
    ∃ left, tree.removeNode dir name id = some (.directory parent left) := by
  rcases @removeNode_some tree dir id name _ here with same | erased
  · exact ⟨entries, same⟩
  · exact ⟨entries.erase name, erased⟩

/-- The tree without an entry of a directory. What the entry led to stays. -/
def remove (tree : HostTree) (dir : UInt64) (name : Name) : HostTree where
  node := tree.removeNode dir name
  attr := tree.attr
  typed := by
    intro id found kept
    obtain ⟨before, here, same⟩ := removeNode_eq kept
    rw [tree.typed id before here]
    rcases same with rfl | rfl
    · rfl
    · cases before <;> rfl
  root := by
    obtain ⟨entries, here⟩ := tree.root
    exact removeNode_keeps_directory here
  parents := by
    intro id parent entries kept
    obtain ⟨before, here, _⟩ := removeNode_directory kept
    obtain ⟨above, siblings, there⟩ := tree.parents id parent before here
    exact ⟨above, removeNode_keeps_directory there⟩
  children := by
    intro id parent entries other child kept own
    obtain ⟨before, here, more⟩ := removeNode_directory kept
    obtain ⟨named, there⟩ := tree.children id parent before other child here (more other child own)
    obtain ⟨node, found⟩ := Option.isSome_iff_exists.mp there
    refine ⟨named, ?_⟩
    rcases @removeNode_some tree dir child name _ found with same | erased
    · rw [same]
      rfl
    · rw [erased]
      rfl

/-- Other directories, files and links are as before. -/
theorem remove_node_of_ne (other : id ≠ dir) : (tree.remove dir name).node id = tree.node id :=
  if_neg other

/-- The directory has lost this entry, and no other. -/
theorem remove_node_self {parent : UInt64} {entries : AList fun _ : Name => UInt64}
    (here : tree.node dir = some (.directory parent entries)) :
    (tree.remove dir name).node dir = some (.directory parent (entries.erase name)) := by
  change tree.removeNode dir name dir = _
  rw [removeNode, if_pos rfl, here]
  rfl

/-- `UNLINK` removes what is no directory. -/
def unlink (tree : HostTree) (dir : UInt64) (name : Name) :
    Except FuseTransportError Unit × HostTree :=
  match tree.node dir with
  | some (.directory _ entries) =>
      match entries.lookup name with
      | none => (.error (.fuseError (-ENOENT)), tree)
      | some child =>
          match tree.node child with
          | some (.directory ..) => (.error (.fuseError (-EISDIR)), tree)
          | _ => (.ok (), tree.remove dir name)
  | some _ => (.error (.fuseError (-ENOTDIR)), tree)
  | none => (.error (.fuseError (-ENOENT)), tree)

/-- `RMDIR` removes a directory that is empty. -/
def rmdir (tree : HostTree) (dir : UInt64) (name : Name) :
    Except FuseTransportError Unit × HostTree :=
  match tree.node dir with
  | some (.directory _ entries) =>
      match entries.lookup name with
      | none => (.error (.fuseError (-ENOENT)), tree)
      | some child =>
          match tree.node child with
          | some (.directory _ inside) =>
              if inside.entries = [] then (.ok (), tree.remove dir name)
              else (.error (.fuseError (-ENOTEMPTY)), tree)
          | _ => (.error (.fuseError (-ENOTDIR)), tree)
  | some _ => (.error (.fuseError (-ENOTDIR)), tree)
  | none => (.error (.fuseError (-ENOENT)), tree)

section Entry

variable {parent child : UInt64} {up : UInt64} {entries : AList fun _ : Name => UInt64}

theorem unlink_of_not_isDir (here : tree.node parent = some (.directory up entries))
    (own : entries.lookup name = some child) (plain : ¬ tree.IsDir child) :
    tree.unlink parent name = (.ok (), tree.remove parent name) := by
  simp only [unlink, here, own]
  split
  · rename_i above inside there
    exact absurd ⟨above, inside, there⟩ plain
  · rfl

theorem rmdir_of_directory {above : UInt64} {inside : AList fun _ : Name => UInt64}
    (here : tree.node parent = some (.directory up entries))
    (own : entries.lookup name = some child)
    (there : tree.node child = some (.directory above inside)) :
    tree.rmdir parent name =
      if inside.entries = [] then (.ok (), tree.remove parent name)
      else (.error (.fuseError (-ENOTEMPTY)), tree) := by
  simp only [rmdir, here, own, there]

theorem rmdir_of_not_isDir (here : tree.node parent = some (.directory up entries))
    (own : entries.lookup name = some child) (plain : ¬ tree.IsDir child) :
    tree.rmdir parent name = (.error (.fuseError (-ENOTDIR)), tree) := by
  simp only [rmdir, here, own]
  split
  · rename_i above inside there
    exact absurd ⟨above, inside, there⟩ plain
  · rfl

end Entry

end HostTree

/-- A host that also removes entries. -/
structure RemovingHost (server : FuseServer) extends Host server where
  unlink : ∀ exchanges dir name,
    server exchanges (.unlink dir name) = ((tree exchanges).unlink dir name).1
  unlinked : ∀ exchanges dir name reply,
    tree (⟨.unlink dir name, reply⟩ :: exchanges) = ((tree exchanges).unlink dir name).2
  rmdir : ∀ exchanges dir name,
    server exchanges (.rmdir dir name) = ((tree exchanges).rmdir dir name).1
  rmdired : ∀ exchanges dir name reply,
    tree (⟨.rmdir dir name, reply⟩ :: exchanges) = ((tree exchanges).rmdir dir name).2

end Removal

section Unlinking

variable {server : FuseServer} (host : RemovingHost server) {scheme after : VirtioFsScheme}
  {tree : HostTree} {dir parent child : UInt64} {name : Name} {names : List Name} {count : Nat}

/-- The path that `unlinkat` works on. -/
def unlinkPath (scheme : VirtioFsScheme) (fd : Nat) (path : List Char) : List Char :=
  let path := Text.trimMatches path
  let base := basePath scheme fd
  if base = [] then path else base ++ '/' :: path

/-- One entry is removed from its directory, and the rest of the tree is as it was; a directory
that is not empty is refused, and the tree is as it was. -/
def RemovesEntry (host : RemovingHost server) (scheme : VirtioFsScheme) (fd : Nat)
    (path : List Char) (parent : UInt64) (name : Name) (child : UInt64) : Prop :=
  ∃ outcome after, (unlinkat server fd path).perform scheme = some (outcome, after) ∧
    (((∀ up inside, (host.tree scheme.exchanges).node child = some (.directory up inside) →
        inside.entries = []) →
      outcome = .ok () ∧
        host.tree after.exchanges = (host.tree scheme.exchanges).remove parent name) ∧
    ((∃ up inside, (host.tree scheme.exchanges).node child = some (.directory up inside) ∧
        inside.entries ≠ []) →
      (∃ reason, outcome = .error reason) ∧
        host.tree after.exchanges = host.tree scheme.exchanges))

/-- A walk goes on to an entry that is no symlink. -/
theorem Walks.concat {dir : UInt64} (walks : Walks tree true dir names count (.ok parent))
    (found : tree.find parent name = .ok child) (plain : tree.target child = none) :
    Walks tree true dir (names ++ [name]) count (.ok child) := by
  generalize led : (Except.ok parent : Except Int UInt64) = result at walks
  induction walks with
  | here =>
      cases led
      exact .enter found plain (.here child)
  | missing => cases led
  | enter first ordinary _ ih => exact .enter first ordinary (ih led)
  | keep _ _ unfollowed => cases unfollowed
  | expand first link _ _ ih =>
      have further := ih led
      rw [List.append_assoc] at further
      exact .expand first link (.inr rfl) further

theorem pathNames_splitParent {path : List Char} (named : (splitParent path).2 ≠ []) :
    pathNames path = pathNames (splitParent path).1 ++ [(splitParent path).2] := by
  obtain ⟨flat, ⟨outside, alone⟩ | whole⟩ := splitParent_eq path
  · rw [alone] at named ⊢
    exact pathNames_flat outside named
  · calc pathNames path = _ := congrArg pathNames whole
      _ = _ := by rw [pathNames_append, pathNames_flat flat named]

/-- The parent is resolved to where its names lead. -/
theorem parentNodeid_resolves {parentPath : List Char} (few : count ≤ 40)
    (walks : Walks (host.tree scheme.exchanges) true 1 (pathNames parentPath) count
      (.ok parent)) :
    ∃ after, (parentNodeid server parentPath).perform scheme = some (.ok parent, after) ∧
      Asked scheme after := by
  rw [parentNodeid]
  split
  · rename_i top
    subst top
    cases walks
    have root : ((host.tree scheme.exchanges).node 1).isSome := by
      obtain ⟨entries, here⟩ := (host.tree scheme.exchanges).root
      rw [here]
      rfl
    have replied : server.answer scheme.exchanges (.getattr 1) =
        .ok ((host.tree scheme.exchanges).attr 1) := by
      rw [host.answer_getattr]
      exact HostTree.getattr_of_isSome root
    refine ⟨_, ?_, @Asked.one scheme (.getattr 1) rfl
      (.ok ((host.tree scheme.exchanges).attr 1))⟩
    rw [perform_bind, perform_ask, replied]
    rfl
  · obtain ⟨outcome, after, ran, asked, answers⟩ :=
      resolvePathHops_resolves host.toHost parentPath 40 true scheme
    obtain rfl := answers.ok_iff.mpr ⟨rfl, count, few, walks⟩
    refine ⟨after, ?_, asked⟩
    rw [perform_bind, resolvePath, ran]
    rfl

def sendUnlink (server : FuseServer) (dir : UInt64) (name : Name) : Op Unit :=
  ask server (.unlink dir name)

def sendRmdir (server : FuseServer) (dir : UInt64) (name : Name) : Op Unit :=
  ask server (.rmdir dir name)

/-- Which request removes the entry is told by what the whole path resolves to. -/
theorem unlinkat_perform {fd : Nat} {path : List Char} (named : Text.trimMatches path ≠ [])
    (few : count ≤ 40)
    (walks : Walks (host.tree scheme.exchanges) true 1
      (pathNames (splitParent (unlinkPath scheme fd path)).1) count (.ok parent)) :
    ∃ outcome after, Asked scheme after ∧
      Answers (host.tree scheme.exchanges) true 40 1 (pathNames (unlinkPath scheme fd path))
        outcome ∧
      (unlinkat server fd path).perform scheme =
        match outcome with
        | .error reason => some (.error reason, after)
        | .ok (_, attr) =>
            (if attr.isDir then
              sendRmdir server parent (splitParent (unlinkPath scheme fd path)).2
            else
              sendUnlink server parent (splitParent (unlinkPath scheme fd path)).2).perform
              after := by
  obtain ⟨middle, first, asked⟩ := parentNodeid_resolves host few walks
  obtain ⟨outcome, after, second, further, answers⟩ :=
    resolvePathHops_resolves host.toHost (unlinkPath scheme fd path) 40 true middle
  rw [host.tree_asked asked] at answers
  refine ⟨outcome, after, asked.trans further, answers, ?_⟩
  have proper : ¬ (basePath scheme fd ≠ [] ∧ Text.trimMatches path = []) := fun both =>
    named both.2
  have full : (if basePath scheme fd = [] then Text.trimMatches path
    else basePath scheme fd ++ '/' :: Text.trimMatches path) = unlinkPath scheme fd path := rfl
  rw [unlinkat, perform_bind, perform_get]
  dsimp only
  rw [if_neg proper, full, perform_bind, first]
  dsimp only
  rw [perform_bind, resolvePath, second]
  cases outcome with
  | error reason => rfl
  | ok value => rfl

theorem perform_unlink (dir : UInt64) (name : Name) :
    ∃ after, (sendUnlink server dir name).perform scheme =
        some (((host.tree scheme.exchanges).unlink dir name).1.mapError fuseErr, after) ∧
      host.tree after.exchanges = ((host.tree scheme.exchanges).unlink dir name).2 := by
  have replied : server.answer scheme.exchanges (.unlink dir name) =
      ((host.tree scheme.exchanges).unlink dir name).1 := by
    rw [FuseServer.answer, host.unlink]
    cases ((host.tree scheme.exchanges).unlink dir name).1 <;> rfl
  refine ⟨{ scheme with
    exchanges := ⟨.unlink dir name, server.answer scheme.exchanges (.unlink dir name)⟩ ::
      scheme.exchanges }, ?_, host.unlinked _ dir name _⟩
  rw [← replied]
  rfl

theorem perform_rmdir (dir : UInt64) (name : Name) :
    ∃ after, (sendRmdir server dir name).perform scheme =
        some (((host.tree scheme.exchanges).rmdir dir name).1.mapError fuseErr, after) ∧
      host.tree after.exchanges = ((host.tree scheme.exchanges).rmdir dir name).2 := by
  have replied : server.answer scheme.exchanges (.rmdir dir name) =
      ((host.tree scheme.exchanges).rmdir dir name).1 := by
    rw [FuseServer.answer, host.rmdir]
    cases ((host.tree scheme.exchanges).rmdir dir name).1 <;> rfl
  refine ⟨{ scheme with
    exchanges := ⟨.rmdir dir name, server.answer scheme.exchanges (.rmdir dir name)⟩ ::
      scheme.exchanges }, ?_, host.rmdired _ dir name _⟩
  rw [← replied]
  rfl

variable {fd : Nat} {path : List Char}

/-- What `unlinkat` is called on: a path whose parent leads to a directory with its last name. -/
structure NamesEntry (tree : HostTree) (scheme : VirtioFsScheme) (fd : Nat) (path : List Char)
    (parent child : UInt64) : Prop where
  named : Text.trimMatches path ≠ []
  reaches : ∃ count ≤ 40, Walks tree true 1
    (pathNames (splitParent (unlinkPath scheme fd path)).1) count (.ok parent)
  entry : ∃ up entries, tree.node parent = some (.directory up entries) ∧
    entries.lookup (splitParent (unlinkPath scheme fd path)).2 = some child

/-- The names of the whole path are those of its parent, and the name of the entry. -/
theorem NamesEntry.pathNames_eq (names : NamesEntry tree scheme fd path parent child) :
    pathNames (unlinkPath scheme fd path) =
      pathNames (splitParent (unlinkPath scheme fd path)).1 ++
        [(splitParent (unlinkPath scheme fd path)).2] := by
  obtain ⟨up, entries, here, own⟩ := names.entry
  exact pathNames_splitParent (tree.children parent up entries _ child here own).1.1

/-- An entry that is no symlink is removed, unless it is a directory with something in it. -/
theorem removesEntry_of_plain
    (names : NamesEntry (host.tree scheme.exchanges) scheme fd path parent child)
    (plain : (host.tree scheme.exchanges).target child = none) :
    RemovesEntry host scheme fd path parent (splitParent (unlinkPath scheme fd path)).2 child := by
  obtain ⟨count, few, walks⟩ := names.reaches
  obtain ⟨up, entries, here, own⟩ := names.entry
  obtain ⟨outcome, middle, asked, answers, ran⟩ := unlinkat_perform host names.named few walks
  have found := HostTree.find_entry here own
  have whole := walks.concat found plain
  rw [← names.pathNames_eq] at whole
  obtain rfl := answers.ok_iff.mpr ⟨rfl, count, few, whole⟩
  have same := host.tree_asked asked
  have there := HostTree.find_isSome found
  dsimp only at ran
  by_cases isDir : (host.tree scheme.exchanges).IsDir child
  · rw [if_pos ((HostTree.isDir_iff there).mpr isDir)] at ran
    obtain ⟨above, inside, node⟩ := isDir
    obtain ⟨after, removed, left⟩ := @perform_rmdir server host middle parent
      (splitParent (unlinkPath scheme fd path)).2
    rw [same, HostTree.rmdir_of_directory here own node] at removed left
    refine ⟨_, after, ran.trans removed, ?_⟩
    by_cases empty : inside.entries = []
    · rw [if_pos empty] at left ⊢
      refine ⟨fun _ => ⟨rfl, left⟩, ?_⟩
      rintro ⟨_, _, other, nonempty⟩
      cases node.symm.trans other
      exact absurd empty nonempty
    · rw [if_neg empty] at left ⊢
      refine ⟨fun all => absurd (all above inside node) empty, ?_⟩
      intro _
      exact ⟨⟨_, rfl⟩, left⟩
  · rw [if_neg (mt (HostTree.isDir_iff there).mp isDir)] at ran
    obtain ⟨after, removed, left⟩ := @perform_unlink server host middle parent
      (splitParent (unlinkPath scheme fd path)).2
    rw [same, HostTree.unlink_of_not_isDir here own isDir] at removed left
    refine ⟨_, after, ran.trans removed, fun _ => ⟨rfl, left⟩, ?_⟩
    rintro ⟨above, inside, node, _⟩
    exact absurd ⟨above, inside, node⟩ isDir

/-- A symlink is removed if and only if it leads to something that is no directory. -/
theorem removesEntry_of_link {target : List Char}
    (names : NamesEntry (host.tree scheme.exchanges) scheme fd path parent child)
    (link : (host.tree scheme.exchanges).target child = some target) :
    RemovesEntry host scheme fd path parent (splitParent (unlinkPath scheme fd path)).2 child ↔
      ∃ node count, count ≤ 40 ∧ Walks (host.tree scheme.exchanges) true 1
          (pathNames (unlinkPath scheme fd path)) count (.ok node) ∧
        ¬ (host.tree scheme.exchanges).IsDir node := by
  obtain ⟨count, few, walks⟩ := names.reaches
  obtain ⟨up, entries, here, own⟩ := names.entry
  obtain ⟨outcome, middle, asked, answers, ran⟩ := unlinkat_perform host names.named few walks
  have same := host.tree_asked asked
  have notDir : ¬ (host.tree scheme.exchanges).IsDir child := by
    rintro ⟨above, inside, node⟩
    rw [HostTree.target, node] at link
    cases link
  have kept : ∀ above inside,
      (host.tree scheme.exchanges).node child = some (.directory above inside) →
      inside.entries = [] := fun above inside node => absurd ⟨above, inside, node⟩ notDir
  constructor
  · rintro ⟨result, after, removed, removes, _⟩
    obtain ⟨rfl, _⟩ := removes kept
    cases outcome with
    | error reason => cases removed.symm.trans ran
    | ok value =>
        obtain ⟨attr, there, steps, within, leads⟩ := answers
        refine ⟨value.1, steps, within, leads, ?_⟩
        intro isDir
        have asDir : value.2.isDir = true := by
          rw [attr]
          exact (HostTree.isDir_iff there).mpr isDir
        dsimp only at ran
        rw [if_pos asDir] at ran
        obtain ⟨_, refused, _⟩ := @perform_rmdir server host middle parent
          (splitParent (unlinkPath scheme fd path)).2
        rw [same, HostTree.rmdir_of_not_isDir here own notDir] at refused
        cases removed.symm.trans (ran.trans refused)
  · rintro ⟨node, steps, within, leads, notNodeDir⟩
    obtain rfl := answers.ok_iff.mpr ⟨rfl, steps, within, leads⟩
    have there := answers.2.1
    dsimp only at ran
    rw [if_neg (mt (HostTree.isDir_iff there).mp notNodeDir)] at ran
    obtain ⟨after, removed, left⟩ := @perform_unlink server host middle parent
      (splitParent (unlinkPath scheme fd path)).2
    rw [same, HostTree.unlink_of_not_isDir here own notDir] at removed left
    refine ⟨_, after, ran.trans removed, fun _ => ⟨rfl, left⟩, ?_⟩
    rintro ⟨above, inside, dirNode, _⟩
    exact absurd ⟨above, inside, dirNode⟩ notDir

/-- `unlinkat` removes the entry that it is called on, and nothing else, if and only if the entry
is no symlink, or one that leads to something that is no directory. -/
theorem unlinkat_removes_iff
    (names : NamesEntry (host.tree scheme.exchanges) scheme fd path parent child) :
    RemovesEntry host scheme fd path parent (splitParent (unlinkPath scheme fd path)).2 child ↔
      ((host.tree scheme.exchanges).target child = none ∨
        ∃ node count, count ≤ 40 ∧ Walks (host.tree scheme.exchanges) true 1
            (pathNames (unlinkPath scheme fd path)) count (.ok node) ∧
          ¬ (host.tree scheme.exchanges).IsDir node) := by
  cases link : (host.tree scheme.exchanges).target child with
  | none => exact iff_of_true (removesEntry_of_plain host names link) (.inl rfl)
  | some target =>
      rw [removesEntry_of_link host names link]
      simp

end Unlinking

section Sample

/-- The tree after some exchanges with a host that starts from it. -/
def treeAfter (start : HostTree) : List Exchange → HostTree
  | [] => start
  | ⟨.unlink dir name, _⟩ :: exchanges => ((treeAfter start exchanges).unlink dir name).2
  | ⟨.rmdir dir name, _⟩ :: exchanges => ((treeAfter start exchanges).rmdir dir name).2
  | _ :: exchanges => treeAfter start exchanges

/-- A host that shows a tree, removes entries, and does nothing else. -/
def serverOf (start : HostTree) : FuseServer := fun exchanges request =>
  match request with
  | .lookup dir name => (treeAfter start exchanges).lookup dir name
  | .getattr id => (treeAfter start exchanges).getattr id
  | .readlink id => (treeAfter start exchanges).readlink id
  | .unlink dir name => ((treeAfter start exchanges).unlink dir name).1
  | .rmdir dir name => ((treeAfter start exchanges).rmdir dir name).1
  | _ => .error (.fuseError (-38))

def hostOf (start : HostTree) : RemovingHost (serverOf start) where
  tree := treeAfter start
  asked := by
    rintro exchanges ⟨request, reply⟩ asks
    cases request with
    | lookup | getattr | readlink => rfl
    | _ => cases asks
  lookup := fun _ _ _ => rfl
  getattr := fun _ _ => rfl
  readlink := fun _ _ => rfl
  unlink := fun _ _ _ => rfl
  unlinked := fun _ _ _ _ => rfl
  rmdir := fun _ _ _ => rfl
  rmdired := fun _ _ _ _ => rfl

/-- A directory with an empty directory, a link to it, and a file. -/
def sampleEntries : AList fun _ : Name => UInt64 :=
  ((AList.singleton "docs".toList 2).insert "link".toList 3).insert "note".toList 4

def sampleNode (id : UInt64) : Option HostNode :=
  if id = 1 then some (.directory 1 sampleEntries)
  else if id = 2 then some (.directory 1 ∅)
  else if id = 3 then some (.symlink "docs".toList)
  else if id = 4 then some .file
  else none

theorem sampleNode_directory {id parent : UInt64} {entries : AList fun _ : Name => UInt64}
    (here : sampleNode id = some (.directory parent entries)) :
    parent = 1 ∧ (entries = sampleEntries ∨ entries = ∅) := by
  unfold sampleNode at here
  split at here
  · cases here
    exact ⟨rfl, .inl rfl⟩
  · split at here
    · cases here
      exact ⟨rfl, .inr rfl⟩
    · split at here
      · cases here
      · split at here <;> cases here

theorem sampleEntries_lookup {name : Name} {child : UInt64}
    (own : sampleEntries.lookup name = some child) :
    EntryName name ∧ (sampleNode child).isSome := by
  have member : (⟨name, child⟩ : (_ : Name) × UInt64) ∈ sampleEntries.entries :=
    AList.mem_lookup_iff.mp own
  have all : sampleEntries.entries =
      [⟨"note".toList, 4⟩, ⟨"link".toList, 3⟩, ⟨"docs".toList, 2⟩] := by decide
  rw [all] at member
  simp only [List.mem_cons, List.not_mem_nil, or_false, Sigma.mk.injEq, heq_eq_eq] at member
  rcases member with ⟨rfl, rfl⟩ | ⟨rfl, rfl⟩ | ⟨rfl, rfl⟩
  all_goals exact ⟨by decide, rfl⟩

theorem format_masked (found : HostNode) : found.format &&& S_IFMT = found.format := by
  cases found with
  | file => rfl
  | directory => exact (by decide : S_IFDIR &&& S_IFMT = S_IFDIR)
  | symlink => exact (by decide : S_IFLNK &&& S_IFMT = S_IFLNK)

def sampleTree : HostTree where
  node := sampleNode
  attr := fun id => ⟨((sampleNode id).map HostNode.format).getD 0, 0⟩
  typed := by
    intro id found here
    rw [here]
    exact format_masked found
  root := ⟨sampleEntries, rfl⟩
  parents := by
    intro id parent entries here
    rw [(sampleNode_directory here).1]
    exact ⟨1, sampleEntries, rfl⟩
  children := by
    intro id parent entries name child here own
    rcases (sampleNode_directory here).2 with rfl | rfl
    · exact sampleEntries_lookup own
    · cases own

/-- A scheme with a handle of the shared directory. -/
def rootScheme : VirtioFsScheme where
  effectiveMaxIo := 4096
  nextId := 1
  handles := AList.singleton 0 (newHandle 1 0 true false [] ⟨S_IFDIR, 0⟩)
  exchanges := []

theorem note_named :
    NamesEntry ((hostOf sampleTree).tree rootScheme.exchanges) rootScheme 0 "note".toList 1 4 :=
  ⟨by decide, ⟨0, Nat.zero_le _, .here 1⟩, 1, sampleEntries, rfl, rfl⟩

theorem link_named :
    NamesEntry ((hostOf sampleTree).tree rootScheme.exchanges) rootScheme 0 "link".toList 1 3 :=
  ⟨by decide, ⟨0, Nat.zero_le _, .here 1⟩, 1, sampleEntries, rfl, rfl⟩

/-- A file is removed. -/
theorem note_removed :
    RemovesEntry (hostOf sampleTree) rootScheme 0 "note".toList 1 "note".toList 4 :=
  (unlinkat_removes_iff (hostOf sampleTree) note_named).mpr (.inl rfl)

/-- A link to a directory is not removed. -/
theorem link_kept :
    NamesEntry ((hostOf sampleTree).tree rootScheme.exchanges) rootScheme 0 "link".toList 1 3 ∧
      ¬ RemovesEntry (hostOf sampleTree) rootScheme 0 "link".toList 1 "link".toList 3 := by
  refine ⟨link_named, ?_⟩
  have link : ((hostOf sampleTree).tree rootScheme.exchanges).target 3 = some "docs".toList := rfl
  have leads : Walks sampleTree true 1 (pathNames "link".toList) 1 (.ok 2) :=
    .expand rfl rfl (.inr rfl) (.enter rfl rfl (.here 2))
  intro removes
  obtain ⟨node, count, _, walks, notDir⟩ :=
    (removesEntry_of_link (hostOf sampleTree) link_named link).mp removes
  cases (walks.unique leads).2
  exact notDir ⟨1, ∅, rfl⟩

end Sample

end NixRedox.VirtioFs
