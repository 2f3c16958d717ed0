import NixRedox.VirtioFs

set_option autoImplicit false

/- A tree of directories, files and symlinks that a host shows, and what it means to resolve a
path in it below the shared directory. -/
namespace NixRedox.VirtioFs

section Tree

abbrev Name := List Char

inductive HostNode where
  | file
  | directory (parent : UInt64) (entries : AList fun _ : Name => UInt64)
  | symlink (target : List Char)

def HostNode.format : HostNode → UInt32
  | .file => 0o100000
  | .directory .. => S_IFDIR
  | .symlink _ => S_IFLNK

/-- The name of an entry, as a directory of the host can hold it. -/
def EntryName (name : Name) : Prop := name ≠ [] ∧ '/' ∉ name ∧ name ≠ ['.'] ∧ name ≠ ['.', '.']

instance (name : Name) : Decidable (EntryName name) := inferInstanceAs (Decidable (_ ∧ _))

/-- What the host shares, by node number. The shared directory is node 1, and its own parent. -/
structure HostTree where
  node : UInt64 → Option HostNode
  attr : UInt64 → FuseAttr
  typed : ∀ id found, node id = some found → (attr id).mode &&& S_IFMT = found.format
  root : ∃ entries, node 1 = some (.directory 1 entries)
  parents : ∀ id parent entries, node id = some (.directory parent entries) →
    ∃ above siblings, node parent = some (.directory above siblings)
  children : ∀ id parent entries name child, node id = some (.directory parent entries) →
    entries.lookup name = some child → EntryName name ∧ (node child).isSome

def ENOENT : Int := 2
def ENOTDIR : Int := 20
def EISDIR : Int := 21
def EINVAL : Int := 22
def ENOTEMPTY : Int := 39

namespace HostTree

variable (tree : HostTree)

/-- One name in a directory. No link is followed. -/
def find (dir : UInt64) (name : Name) : Except Int UInt64 :=
  match tree.node dir with
  | some (.directory parent entries) =>
      if name = ['.'] then .ok dir
      else if name = ['.', '.'] then .ok parent
      else
        match entries.lookup name with
        | some child => .ok child
        | none => .error ENOENT
  | some _ => .error ENOTDIR
  | none => .error ENOENT

/-- The target of a symlink. -/
def target (id : UInt64) : Option (List Char) :=
  match tree.node id with
  | some (.symlink target) => some target
  | _ => none

def lookup (dir : UInt64) (name : Name) : Except FuseTransportError FuseEntry :=
  match tree.find dir name with
  | .ok child => .ok ⟨child, tree.attr child⟩
  | .error code => .error (.fuseError (-code))

def getattr (id : UInt64) : Except FuseTransportError FuseAttr :=
  match tree.node id with
  | some _ => .ok (tree.attr id)
  | none => .error (.fuseError (-ENOENT))

def readlink (id : UInt64) : Except FuseTransportError (List Char) :=
  match tree.target id with
  | some target => .ok target
  | none => .error (.fuseError (-EINVAL))

variable {tree}

theorem lookup_of_find {dir child : UInt64} {name : Name} (found : tree.find dir name = .ok child) :
    tree.lookup dir name = .ok ⟨child, tree.attr child⟩ := by
  simp only [lookup, found]

theorem lookup_of_missing {dir : UInt64} {name : Name} {code : Int}
    (absent : tree.find dir name = .error code) :
    tree.lookup dir name = .error (.fuseError (-code)) := by
  simp only [lookup, absent]

theorem getattr_of_isSome {id : UInt64} (there : (tree.node id).isSome) :
    tree.getattr id = .ok (tree.attr id) := by
  obtain ⟨found, here⟩ := Option.isSome_iff_exists.mp there
  simp only [getattr, here]

theorem readlink_of_target {id : UInt64} {target : List Char}
    (link : tree.target id = some target) : tree.readlink id = .ok target := by
  simp only [readlink, link]

theorem find_error {dir : UInt64} {name : Name} {code : Int}
    (failed : tree.find dir name = .error code) : code = ENOENT ∨ code = ENOTDIR := by
  unfold find at failed
  split at failed
  · split at failed
    · cases failed
    · split at failed
      · cases failed
      · split at failed
        · cases failed
        · cases failed
          exact .inl rfl
  · cases failed
    exact .inr rfl
  · cases failed
    exact .inl rfl

/-- What is found is there. -/
theorem find_isSome {dir child : UInt64} {name : Name} (found : tree.find dir name = .ok child) :
    (tree.node child).isSome := by
  unfold find at found
  split at found
  · rename_i parent entries here
    split at found
    · cases found
      rw [here]
      rfl
    · split at found
      · cases found
        obtain ⟨above, siblings, there⟩ := tree.parents dir _ entries here
        rw [there]
        rfl
      · split at found
        · rename_i own
          cases found
          exact (tree.children dir parent entries name _ here own).2
        · cases found
  · cases found
  · cases found

/-- An entry is found by its name. -/
theorem find_entry {dir parent child : UInt64} {name : Name}
    {entries : AList fun _ : Name => UInt64}
    (here : tree.node dir = some (.directory parent entries))
    (own : entries.lookup name = some child) : tree.find dir name = .ok child := by
  obtain ⟨_, _, notSelf, notUp⟩ := (tree.children dir parent entries name child here own).1
  rw [find, here]
  simp only
  rw [if_neg notSelf, if_neg notUp, own]

theorem isLink_iff {id : UInt64} (there : (tree.node id).isSome) :
    (tree.attr id).isLink = true ↔ (tree.target id).isSome := by
  obtain ⟨found, here⟩ := Option.isSome_iff_exists.mp there
  rw [FuseAttr.isLink, decide_eq_true_iff, tree.typed id found here, target, here]
  cases found with
  | file => exact iff_of_false (by decide) (by simp)
  | directory parent entries => exact iff_of_false (by rw [HostNode.format]; decide) (by simp)
  | symlink target => exact iff_of_true rfl rfl

end HostTree

end Tree

section Resolution

/-- The names that a path or the target of a link is made of. -/
def pathNames (path : List Char) : List Name := (path.splitOn '/').filter (· ≠ [])

/-- Where a target starts: at the shared directory, or in the directory of the link. -/
def startOf (dir : UInt64) (target : List Char) : UInt64 :=
  if target.head? = some '/' then 1 else dir

theorem startOf_isSome {tree : HostTree} {dir : UInt64} (here : (tree.node dir).isSome)
    (target : List Char) : (tree.node (startOf dir target)).isSome := by
  unfold startOf
  split
  · obtain ⟨entries, root⟩ := tree.root
    rw [root]
    rfl
  · exact here

/-- From a directory along the names to a node, or to a name that is not found, with so many
symlinks replaced by their targets. The last name is a symlink of its own unless it is followed. -/
inductive Walks (tree : HostTree) (followLast : Bool) :
    UInt64 → List Name → Nat → Except Int UInt64 → Prop
  | here (dir : UInt64) : Walks tree followLast dir [] 0 (.ok dir)
  | missing {dir : UInt64} {name : Name} {rest : List Name} {code : Int}
      (absent : tree.find dir name = .error code) :
      Walks tree followLast dir (name :: rest) 0 (.error code)
  | enter {dir child : UInt64} {name : Name} {rest : List Name} {count : Nat}
      {result : Except Int UInt64} (found : tree.find dir name = .ok child)
      (plain : tree.target child = none) (further : Walks tree followLast child rest count result) :
      Walks tree followLast dir (name :: rest) count result
  | keep {dir child : UInt64} {name : Name} {target : List Char}
      (found : tree.find dir name = .ok child) (link : tree.target child = some target)
      (unfollowed : followLast = false) : Walks tree followLast dir [name] 0 (.ok child)
  | expand {dir child : UInt64} {name : Name} {rest : List Name} {target : List Char} {count : Nat}
      {result : Except Int UInt64} (found : tree.find dir name = .ok child)
      (link : tree.target child = some target) (followed : rest ≠ [] ∨ followLast = true)
      (further : Walks tree followLast (startOf dir target) (pathNames target ++ rest) count
        result) : Walks tree followLast dir (name :: rest) (count + 1) result

/-- So many symlinks at least have to be replaced. -/
inductive Needs (tree : HostTree) (followLast : Bool) : UInt64 → List Name → Nat → Prop
  | none (dir : UInt64) (names : List Name) : Needs tree followLast dir names 0
  | enter {dir child : UInt64} {name : Name} {rest : List Name} {count : Nat}
      (found : tree.find dir name = .ok child) (plain : tree.target child = none)
      (further : Needs tree followLast child rest count) :
      Needs tree followLast dir (name :: rest) count
  | expand {dir child : UInt64} {name : Name} {rest : List Name} {target : List Char} {count : Nat}
      (found : tree.find dir name = .ok child) (link : tree.target child = some target)
      (followed : rest ≠ [] ∨ followLast = true)
      (further : Needs tree followLast (startOf dir target) (pathNames target ++ rest) count) :
      Needs tree followLast dir (name :: rest) (count + 1)

variable {tree : HostTree} {followLast : Bool} {dir : UInt64} {names : List Name} {count : Nat}

/-- A walk that ends needs no more than it replaced. -/
theorem Walks.needs_le {result : Except Int UInt64} {other : Nat}
    (walks : Walks tree followLast dir names count result)
    (needs : Needs tree followLast dir names other) : other ≤ count := by
  induction walks generalizing other with
  | here =>
      cases needs
      exact le_rfl
  | missing absent =>
      cases needs with
      | none => exact le_rfl
      | enter found => cases absent.symm.trans found
      | expand found => cases absent.symm.trans found
  | enter found plain _ ih =>
      cases needs with
      | none => exact Nat.zero_le _
      | enter again _ further =>
          cases found.symm.trans again
          exact ih further
      | expand again link =>
          cases found.symm.trans again
          cases plain.symm.trans link
  | keep found link unfollowed =>
      cases needs with
      | none => exact le_rfl
      | enter again plain =>
          cases found.symm.trans again
          cases plain.symm.trans link
      | expand _ _ followed =>
          rcases followed with more | follows
          · exact absurd rfl more
          · cases unfollowed.symm.trans follows
  | expand found link _ _ ih =>
      cases needs with
      | none => exact Nat.zero_le _
      | enter again plain =>
          cases found.symm.trans again
          cases plain.symm.trans link
      | expand again other _ further =>
          cases found.symm.trans again
          cases link.symm.trans other
          exact Nat.succ_le_succ (ih further)

/-- There is one walk. -/
theorem Walks.unique {result otherResult : Except Int UInt64} {other : Nat}
    (walks : Walks tree followLast dir names count result)
    (again : Walks tree followLast dir names other otherResult) :
    count = other ∧ result = otherResult := by
  induction walks generalizing other with
  | here =>
      cases again
      exact ⟨rfl, rfl⟩
  | missing absent =>
      cases again with
      | missing also =>
          cases absent.symm.trans also
          exact ⟨rfl, rfl⟩
      | enter found => cases absent.symm.trans found
      | keep found => cases absent.symm.trans found
      | expand found => cases absent.symm.trans found
  | enter found plain _ ih =>
      cases again with
      | missing absent => cases absent.symm.trans found
      | enter also _ further =>
          cases found.symm.trans also
          exact ih further
      | keep also link =>
          cases found.symm.trans also
          cases plain.symm.trans link
      | expand also link =>
          cases found.symm.trans also
          cases plain.symm.trans link
  | keep found link unfollowed =>
      cases again with
      | missing absent => cases absent.symm.trans found
      | enter also plain =>
          cases found.symm.trans also
          cases plain.symm.trans link
      | keep also =>
          cases found.symm.trans also
          exact ⟨rfl, rfl⟩
      | expand _ _ followed =>
          rcases followed with more | follows
          · exact absurd rfl more
          · cases unfollowed.symm.trans follows
  | expand found link followed _ ih =>
      cases again with
      | missing absent => cases absent.symm.trans found
      | enter also plain =>
          cases found.symm.trans also
          cases plain.symm.trans link
      | keep _ _ unfollowed =>
          rcases followed with more | follows
          · exact absurd rfl more
          · cases unfollowed.symm.trans follows
      | expand also other _ further =>
          cases found.symm.trans also
          cases link.symm.trans other
          obtain ⟨rfl, rfl⟩ := ih further
          exact ⟨rfl, rfl⟩

end Resolution

end NixRedox.VirtioFs
