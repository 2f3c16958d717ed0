import NixRedox.ConfigActions

set_option autoImplicit false

/- When the update of managed files leaves the files of the new manifest. -/
namespace NixRedox.Activate

open NixRedox.System (FileInfo)
open FileTree (Framing Ran Touched lastDeed)

/-- An inline file of a manifest is there, with its text and mode. -/
def Holds (root : Location) (tree : FileTree) (key : String) (text mode : String) : Prop :=
  ∃ path bits, managedFilePathAt root key = .ok path ∧ parseModeString mode = .ok bits ∧
    tree.symlinkMetadata path = some (.file text.toUTF8 bits)

/-- An inline file of the new manifest is settled: nothing is done at a symlink on its
way, and the last deed at its location writes just its text and mode; or there is none,
and the entry had the text and mode before or, when it was not inline, the disk has them
already. -/
def Settled (root : Location) (old new : Files) (tree : FileTree) (key text mode : String) :
    Prop :=
  ∃ path passed location bits, managedFilePathAt root key = .ok path ∧
    (housing root old new tree).way path = some (passed, location) ∧
    parseModeString mode = .ok bits ∧
    (∀ link ∈ passed, ¬ Touched (deeds root old new tree) link) ∧
    match lastDeed (deeds root old new tree) location with
    | some (some (contents, set)) => contents = text.toUTF8 ∧ set = some bits
    | some none => False
    | none => ∃ before, old.lookup key = some before ∧
        (before.text = some text ∧ parseModeString before.mode = .ok bits ∨
          before.text = none ∧ tree.nodeAt location = some (.file text.toUTF8 bits))

section Converge

variable {blake3 : ByteArray → String} {root : Location} {old new : Files}
  {tree after : FileTree} {path location : Location} {passed : List Location}

end Converge

def emptyTree : FileTree where
  nodes := ∅
  placed := by
    intro location node found
    cases found

/-- A file system whose only directory is `/etc`. -/
def etcTree : FileTree :=
  emptyTree.insertNode ["etc".toList] .dir (by nofun) (by decide) (by nofun)

end NixRedox.Activate
