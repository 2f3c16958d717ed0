import NixRedox.Bytes
import NixRedox.NarExtract

set_option autoImplicit false

/- NAR serialisation of a path (`nar_hash_path` of `local_build.rs`): the calls that
`write_path_to_nar` makes on the archive writer for a tree on disk. -/
namespace NixRedox.Nar

open Bytes (utf8)

mutual

/-- The calls on an archive writer: a whole file, a symlink, or a directory with its
entries in the order they are made in. -/
inductive Archive where
  | file (executable : Bool) (contents : List UInt8)
  | symlink (target : List UInt8)
  | directory (entries : ArchiveEntries)

inductive ArchiveEntries where
  | done
  | entry (name : List UInt8) (node : Archive) (rest : ArchiveEntries)

end

def ArchiveEntries.names : ArchiveEntries → List (List UInt8)
  | .done => []
  | .entry name _ rest => name :: rest.names

/-- The names an archive may have. -/
def ValidName (name : List UInt8) : Prop :=
  name ≠ [] ∧ name.length ≤ 255 ∧ 0 ∉ name ∧ 0x2F ∉ name ∧ name ≠ [0x2E] ∧ name ≠ [0x2E, 0x2E]

mutual

/-- The trees that canonical archives are of: the entries of a directory are in strictly
ascending order of their bytes. -/
def Archive.Canonical : Archive → Prop
  | .file _ contents => contents.length < 2 ^ 64
  | .symlink target => target ≠ [] ∧ target.length ≤ 4095 ∧ 0 ∉ target
  | .directory entries => entries.Canonical

def ArchiveEntries.Canonical : ArchiveEntries → Prop
  | .done => True
  | .entry name node rest =>
      ValidName name ∧ node.Canonical ∧ (∀ other ∈ rest.names, name < other) ∧ rest.Canonical

end

mutual

/-- Entry names and symlink targets are UTF-8. -/
def Archive.IsUtf8 : Archive → Prop
  | .file _ _ => True
  | .symlink target => ∃ text, utf8 text = target
  | .directory entries => entries.IsUtf8

def ArchiveEntries.IsUtf8 : ArchiveEntries → Prop
  | .done => True
  | .entry name node rest => (∃ text, utf8 text = name) ∧ node.IsUtf8 ∧ rest.IsUtf8

end

mutual

/-- What the reader yields for an archive, read to its end. -/
def NarNode.Reads : NarNode → Archive → Prop
  | .file executable chunks complete, .file wanted contents =>
      executable = wanted ∧ chunks.flatten = contents ∧ complete = true
  | .symlink target, .symlink bytes => ∀ text, target = some text ↔ utf8 text = bytes
  | .directory entries, .directory wanted => entries.Reads wanted
  | _, _ => False

def NarEntries.Reads : NarEntries → ArchiveEntries → Prop
  | .done, .done => True
  | .entry name node rest, .entry bytes wanted others =>
      (∀ text, name = some text ↔ utf8 text = bytes) ∧ node.Reads wanted ∧ rest.Reads others
  | _, _ => False

end

section Writing

variable (readDir : RelPath → List Name) (fs : Fs)

/-- The entries of a directory, sorted by the bytes of their names. -/
def sortedDir (path : RelPath) : List Name :=
  (readDir path).insertionSort fun one two => utf8 one ≤ utf8 two

def writeEntries (write : RelPath → Option Archive) (path : RelPath) :
    List Name → Option ArchiveEntries
  | [] => some .done
  | name :: rest => do
      let node ← write (path ++ [name])
      let others ← writeEntries write path rest
      some (.entry (utf8 name) node others)

/-- The recursion goes down the tree, so `fuel` bounds its depth. -/
def writePathToNar : Nat → RelPath → Option Archive
  | 0, _ => none
  | fuel + 1, path =>
      match fs path with
      | none => none
      | some (.symlink target) => some (.symlink (utf8 target))
      | some (.file content mode) => some (.file (mode &&& 0o111 != 0) content)
      | some .dir =>
          (writeEntries (writePathToNar fuel) path (sortedDir readDir path)).map .directory

/-- The hash and the size of the path, over the archive writer and SHA-256 in hex. -/
def narHashPath (write : Archive → List UInt8) (sha256Hex : List UInt8 → List Char) (fuel : Nat) :
    Option (String × Nat) :=
  (writePathToNar readDir fs fuel []).map fun archive =>
    ("sha256:" ++ String.ofList (sha256Hex (write archive)), (write archive).length)

/-- The directories list their entries, in any order. -/
def ListsDirs : Prop :=
  ∀ path, fs path = some .dir →
    (readDir path).Nodup ∧ ∀ name, name ∈ readDir path ↔ (fs (path ++ [name])).isSome = true

end Writing

mutual

/-- How deep the recursion goes. -/
def Archive.depth : Archive → Nat
  | .file _ _ => 1
  | .symlink _ => 1
  | .directory entries => entries.depth + 1

def ArchiveEntries.depth : ArchiveEntries → Nat
  | .done => 0
  | .entry _ node rest => max node.depth rest.depth

end

end NixRedox.Nar
