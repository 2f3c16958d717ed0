import Mathlib
import NixRedox.Text

set_option autoImplicit false

/- System manifests and the generations directory (`system.rs`). -/
namespace NixRedox.System

structure GenerationInfo where
  id : UInt32
  buildHash : String
  description : String
  timestamp : String
  deriving DecidableEq, Repr

/-- Boot component store paths tracked per generation. -/
structure BootComponents where
  kernel : Option String
  initfs : Option String
  bootloader : Option String
  deriving DecidableEq, Repr

structure Package where
  name : String
  version : String
  storePath : String
  deriving DecidableEq, Repr

structure FileInfo where
  blake3 : String
  size : Nat
  mode : String
  text : Option String
  deriving DecidableEq, Repr

/-- The parts of a manifest that generations, GC roots and managed files use. -/
structure Manifest where
  generation : GenerationInfo
  boot : Option BootComponents
  packages : List Package
  files : AList fun _ : String => FileInfo
  toplevel : Option String
  etcSource : Option String
  deriving DecidableEq

/-- A `manifest.json`; one that does not parse has the reason. -/
inductive ManifestFile where
  | missing
  | unreadable (reason : String)
  | readable (manifest : Manifest)
  deriving DecidableEq

/-- A discovered generation on disk. -/
structure Generation where
  id : UInt32
  manifest : Manifest
  deriving DecidableEq

def loadManifestFrom (path : String) : ManifestFile → Except String Manifest
  | .missing => .error ("manifest not found: " ++ path ++
      "\nIs this a Redox system built with the module system?")
  | .unreadable reason => .error reason
  | .readable manifest => .ok manifest

/-- `str::parse::<u32>`: an optional plus sign, then digits. -/
def parseU32 (text : List Char) : Option UInt32 :=
  let digits := match text with
    | '+' :: rest => rest
    | _ => text
  match Text.decimalValue digits with
  | some value => if value < 2 ^ 32 then some (UInt32.ofNat value) else none
  | none => none

/-- The error of a failed `parse::<u32>` on a non-empty text, with the value read so far. -/
def parseU32Error (value : Nat) : List Char → String
  | [] => "invalid digit found in string"
  | digit :: rest =>
      if digit.isDigit then
        let value := 10 * value + (digit.toNat - '0'.toNat)
        if value < 2 ^ 32 then parseU32Error value rest
        else "number too large to fit in target type"
      else
        "invalid digit found in string"

/-- The generations directory: its entries by name. -/
abbrev GenerationsDir := AList fun _ : String => ManifestFile

/-- The generation an entry of the directory holds, if its name is a number and its
manifest can be read. -/
def generationOfEntry (name : String) : ManifestFile → Option Generation
  | .readable manifest => (parseU32 name.toList).map fun id => { id, manifest }
  | .missing | .unreadable _ => none

def scanGenerations (dir : GenerationsDir) : List Generation :=
  (dir.entries.filterMap fun entry => generationOfEntry entry.1 entry.2).insertionSort
    (·.id ≤ ·.id)

end NixRedox.System
