import NixRedox.FileTree

set_option autoImplicit false

/- Trees in content-addressed services (`snix_castore`), what a complete copy of one is, and
the invariant of a worklist that writes one node after the other. -/
namespace NixRedox.Castore

/-- `snix_castore::Node`. -/
inductive Node (Digest : Type) where
  | directory (digest : Digest) (size : Nat)
  | file (digest : Digest) (size : Nat) (executable : Bool)
  | symlink (target : List Char)
  deriving DecidableEq

/-- The nodes of a directory by name, in whatever order they are handed out. -/
structure Directory (Digest : Type) where
  nodes : AList fun _ : List Char => Node Digest
  named : ∀ name ∈ nodes.keys, UnixPath.Proper name

/-- What the directory and blob services hold. -/
structure Services (Digest : Type) where
  directories : Digest → Option (Directory Digest)
  blobs : Digest → Option ByteArray

variable {Digest : Type} (services : Services Digest)

def filePermissions (executable : Bool) : Nat := if executable then 0o555 else 0o444

section Trees

/-- What a node becomes in a file system, where the services have it in the size it says. -/
def fileNode : Node Digest → Option NixRedox.Node
  | .directory digest _ => (services.directories digest).map fun _ => .dir
  | .file digest size executable =>
      (services.blobs digest).bind fun contents =>
        if contents.size = size then some (.file contents (filePermissions executable)) else none
  | .symlink target => some (.symlink target)

def child : Node Digest → List Char → Option (Node Digest)
  | .directory digest _, name => (services.directories digest).bind (·.nodes.lookup name)
  | _, _ => none

/-- The node at a location in the tree of another. -/
def descend (node : Node Digest) : Location → Option (Node Digest)
  | [] => some node
  | name :: rest => (child services node name).bind (descend · rest)

/-- The nodes in a directory with the places for them. -/
def children (path : Location) : Node Digest → List (Location × Node Digest)
  | .directory digest _ =>
      match services.directories digest with
      | some directory => directory.nodes.entries.map fun entry => (path ++ [entry.1], entry.2)
      | none => []
  | _ => []

/-- All that a node's tree has is there, and nothing else. -/
structure Complete (root : Node Digest) (view : Location → Option NixRedox.Node) : Prop where
  stored : ∀ rest node, descend services root rest = some node →
    ∃ entry, fileNode services node = some entry ∧ view rest = some entry
  nothingElse : ∀ rest, descend services root rest = none → view rest = none

variable {services} {root node : Node Digest} {view other : Location → Option NixRedox.Node}
  {path location : Location}

theorem descend_append (front back : Location) :
    descend services root (front ++ back) =
      (descend services root front).bind (descend services · back) := by
  induction front generalizing root with
  | nil => rfl
  | cons name front ih =>
      rw [List.cons_append, descend, descend, Option.bind_assoc]
      congr 1
      funext next
      exact ih

theorem mem_children {entry : Location × Node Digest} :
    entry ∈ children services path node ↔
      ∃ name, entry.1 = path ++ [name] ∧ child services node name = some entry.2 := by
  obtain ⟨location, found⟩ := entry
  cases node with
  | file digest size executable => simp [children, child]
  | symlink target => simp [children, child]
  | directory digest size =>
      simp only [children, child]
      cases services.directories digest with
      | none => simp
      | some directory =>
          simp only [List.mem_map, Option.bind_some]
          constructor
          · rintro ⟨⟨name, own⟩, listed, same⟩
            cases same
            exact ⟨name, rfl, AList.mem_lookup_iff.mpr listed⟩
          · rintro ⟨name, rfl, own⟩
            exact ⟨⟨name, found⟩, AList.mem_lookup_iff.mp own, rfl⟩

theorem children_nodup : ((children services path node).map Prod.fst).Nodup := by
  cases node with
  | file digest size executable => exact List.nodup_nil
  | symlink target => exact List.nodup_nil
  | directory digest size =>
      rw [children]
      cases services.directories digest with
      | none => exact List.nodup_nil
      | some directory =>
          have places : (directory.nodes.entries.map fun entry =>
              (path ++ [entry.1], entry.2)).map Prod.fst =
                directory.nodes.keys.map fun name => path ++ [name] := by
            simp [AList.keys, List.keys, Function.comp_def]
          rw [places]
          apply directory.nodes.keys_nodup.map
          intro one two same
          exact List.singleton_injective (List.append_cancel_left same)

/-- Only a directory has something in it. -/
theorem fileNode_of_child {entry : NixRedox.Node} {name : List Char} {below : Node Digest}
    (shown : fileNode services node = some entry)
    (found : child services node name = some below) : entry = .dir := by
  cases node with
  | file digest size executable => cases found
  | symlink target => cases found
  | directory digest size =>
      obtain ⟨_, _, same⟩ := Option.map_eq_some_iff.mp shown
      exact same.symm

/-- Complete copies of one tree are the same. -/
theorem Complete.eq (complete : Complete services root view)
    (also : Complete services root other) : view = other := by
  funext rest
  cases found : descend services root rest with
  | none => rw [complete.nothingElse rest found, also.nothingElse rest found]
  | some below =>
      obtain ⟨entry, shown, here⟩ := complete.stored rest below found
      obtain ⟨again, same, there⟩ := also.stored rest below found
      rw [here, there, ← shown, same]

theorem Complete.there (complete : Complete services root view) : view [] ≠ none := by
  obtain ⟨entry, _, here⟩ := complete.stored [] root rfl
  rw [here]
  exact Option.some_ne_none entry

end Trees

section Worklist

/-- While a tree is written below a place: what is pending has a free place in a directory,
and each location of the tree is written, or at or below a pending one. -/
structure Progress (root : Node Digest) (base : Location) (pending : List (Location × Node Digest))
    (view : Location → Option NixRedox.Node) : Prop where
  due : ∀ entry ∈ pending, ∃ rest, entry.1 = base ++ rest ∧
    descend services root rest = some entry.2
  free : ∀ entry ∈ pending, ∀ rest, view (entry.1 ++ rest) = none
  inside : ∀ entry ∈ pending, entry.1 ≠ [] ∧ view entry.1.dropLast = some .dir
  distinct : (pending.map Prod.fst).Nodup
  covered : ∀ rest node, descend services root rest = some node →
    (∃ entry, fileNode services node = some entry ∧ view (base ++ rest) = some entry) ∨
      ∃ entry ∈ pending, entry.1 <+: base ++ rest
  nothingElse : ∀ rest, descend services root rest = none → view (base ++ rest) = none

variable {services} {root node : Node Digest} {base path : Location}
  {pending : List (Location × Node Digest)} {view : Location → Option NixRedox.Node}

theorem Progress.start (below : base ≠ []) (inside : view base.dropLast = some .dir)
    (free : ∀ rest, view (base ++ rest) = none) :
    Progress services root base [(base, root)] view where
  due := by
    intro entry member
    rw [List.mem_singleton.mp member]
    exact ⟨[], (List.append_nil base).symm, rfl⟩
  free := by
    intro entry member
    rw [List.mem_singleton.mp member]
    exact free
  inside := by
    intro entry member
    rw [List.mem_singleton.mp member]
    exact ⟨below, inside⟩
  distinct := List.nodup_singleton base
  covered := fun rest _ _ => .inr ⟨_, List.mem_singleton_self _, List.prefix_append base rest⟩
  nothingElse := fun rest _ => free rest

theorem Progress.complete (progress : Progress services root base [] view) :
    Complete services root fun rest => view (base ++ rest) where
  stored := by
    intro rest node found
    rcases progress.covered rest node found with written | ⟨entry, member, _⟩
    · exact written
    · cases member
  nothingElse := progress.nothingElse

/-- A pending place is not above another one. -/
theorem Progress.apart (progress : Progress services root base ((path, node) :: pending) view)
    {entry : Location × Node Digest} (member : entry ∈ pending) : ¬ entry.1 <+: path := by
  rintro ⟨rest, split⟩
  by_cases whole : rest = []
  · rw [whole, List.append_nil] at split
    have twice := (List.nodup_cons.mp progress.distinct).1
    exact twice (List.mem_map.mpr ⟨entry, member, split⟩)
  · have above := (progress.inside (path, node) List.mem_cons_self).2
    dsimp only at above
    rw [← split, List.dropLast_append_of_ne_nil whole,
      progress.free entry (List.mem_cons_of_mem _ member)] at above
    cases above

/-- One turn of the worklist: a node is written, and what is in it becomes pending. -/
theorem Progress.write (progress : Progress services root base ((path, node) :: pending) view)
    {entry : NixRedox.Node} (shown : fileNode services node = some entry) :
    Progress services root base ((children services path node).reverse ++ pending)
      (Function.update view path (some entry)) := by
  obtain ⟨own, place, found⟩ := progress.due (path, node) List.mem_cons_self
  have empty : ∀ rest, view (path ++ rest) = none :=
    progress.free (path, node) List.mem_cons_self
  have kept : ∀ location, location ≠ path →
      Function.update view path (some entry) location = view location :=
    fun location differs => Function.update_of_ne differs _ _
  have listed : ∀ {next}, next ∈ (children services path node).reverse ++ pending ↔
      (∃ name, next.1 = path ++ [name] ∧ child services node name = some next.2) ∨
        next ∈ pending := by
    intro next
    rw [List.mem_append, List.mem_reverse, mem_children]
  constructor
  · intro next member
    rcases listed.mp member with ⟨name, below, child⟩ | earlier
    · refine ⟨own ++ [name], ?_, ?_⟩
      · rw [below, ← List.append_assoc, ← place]
      · rw [descend_append, found, Option.bind_some, descend, child]
        rfl
    · exact progress.due next (List.mem_cons_of_mem _ earlier)
  · intro next member rest
    rcases listed.mp member with ⟨name, below, _⟩ | earlier
    · rw [below, List.append_assoc, kept _ (by simp)]
      exact empty _
    · rw [kept _ fun same => progress.apart earlier ⟨rest, same⟩]
      exact progress.free next (List.mem_cons_of_mem _ earlier) rest
  · intro next member
    rcases listed.mp member with ⟨name, below, child⟩ | earlier
    · rw [below, List.dropLast_concat, Function.update_self, fileNode_of_child shown child]
      exact ⟨by simp, rfl⟩
    · obtain ⟨lower, parent⟩ := progress.inside next (List.mem_cons_of_mem _ earlier)
      have elsewhere : next.1.dropLast ≠ path := by
        intro same
        have absent := empty []
        rw [List.append_nil, ← same, parent] at absent
        cases absent
      exact ⟨lower, (kept _ elsewhere).trans parent⟩
  · rw [List.map_append, List.map_reverse, List.nodup_append']
    refine ⟨List.nodup_reverse.mpr children_nodup, (List.nodup_cons.mp progress.distinct).2, ?_⟩
    intro location fresh earlier
    obtain ⟨next, member, same⟩ := List.mem_map.mp (List.mem_reverse.mp fresh)
    obtain ⟨other, queued, again⟩ := List.mem_map.mp earlier
    obtain ⟨name, below, _⟩ := mem_children.mp member
    have parent := (progress.inside other (List.mem_cons_of_mem _ queued)).2
    have absent := empty []
    rw [List.append_nil] at absent
    rw [again, ← same, below, List.dropLast_concat, absent] at parent
    cases parent
  · intro rest below reached
    rcases progress.covered rest below reached with ⟨there, same, here⟩ | ⟨next, member, before⟩
    · refine .inl ⟨there, same, ?_⟩
      rw [kept _ fun equal => ?_, here]
      have absent := empty []
      rw [List.append_nil, ← equal, here] at absent
      cases absent
    · rcases List.mem_cons.mp member with first | earlier
      · rw [first] at before
        obtain ⟨more, split⟩ := before
        have whole : rest = own ++ more := by
          dsimp only at split place
          rw [place, List.append_assoc] at split
          exact (List.append_cancel_left split).symm
        rw [whole, descend_append, found, Option.bind_some] at reached
        cases more with
        | nil =>
            cases reached
            refine .inl ⟨entry, shown, ?_⟩
            rw [← split, List.append_nil, Function.update_self]
        | cons name more =>
            obtain ⟨next, child, _⟩ := Option.bind_eq_some_iff.mp reached
            refine .inr ⟨(path ++ [name], next), listed.mpr (.inl ⟨name, rfl, child⟩), more, ?_⟩
            rw [← split, List.append_assoc]
            rfl
      · exact .inr ⟨next, listed.mpr (.inr earlier), before⟩
  · intro rest missing
    rw [kept _ fun equal => ?_]
    · exact progress.nothingElse rest missing
    · rw [show path = base ++ own from place] at equal
      rw [List.append_cancel_left equal, found] at missing
      cases missing

end Worklist

end NixRedox.Castore
