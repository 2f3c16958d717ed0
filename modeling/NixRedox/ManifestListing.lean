import NixRedox.NarExtract
import NixRedox.Redox
import NixRedox.Text

set_option autoImplicit false

/- Directory listings from file manifests: `list_from_manifest` of the store daemon
(`stored/mod.rs`) and `list_union_from_manifests` of the profile daemon
(`profiled/mapping.rs`). -/
namespace NixRedox.Manifest

open Nar (ManifestEntry)
open Redox (Table)

abbrev Manifests := Table (List ManifestEntry)

/-- A manifest path below a directory shows up there as a child: itself, or the
directory it is nested in. -/
inductive Child where
  | nested (name : List Char)
  | direct (name : List Char)
  deriving DecidableEq, Repr

/-- What a listed directory's paths start with. -/
def pathStart (subpath : List Char) : List Char :=
  if subpath = [] then [] else Text.trimEnd subpath ++ ['/']

/-- `str::strip_prefix`, where an empty start strips nothing. -/
def relativeTo (start path : List Char) : Option (List Char) :=
  if start.isPrefixOf path then some (path.drop start.length) else none

def childOf (start path : List Char) : Option Child :=
  match relativeTo start path with
  | none => none
  | some rel =>
      match Text.splitFirstSlash rel with
      | (directory, some _) => some (.nested directory)
      | (_, none) => if rel = [] then none else some (.direct rel)

/-- Add the children a manifest has in a directory to those seen before: a nested
one only if its name is new, a direct one always. -/
def addChildren {β : Type} (nested : List Char → β) (direct : List Char → ManifestEntry → β)
    (start : List Char) (manifest : List ManifestEntry) (seen : Table β) : Table β :=
  manifest.foldl (fun seen entry =>
    match childOf start entry.path with
    | none => seen
    | some (.nested name) => Table.orInsert seen name (nested name)
    | some (.direct name) => seen.insert name (direct name entry)) seen

/-- The kind an entry is listed with. -/
def entryKind (isDir isSymlink : Bool) : Redox.DirentKind :=
  if isDir then .directory else if isSymlink then .symlink else .regular

structure ManifestDirEntry where
  name : List Char
  isDir : Bool
  isSymlink : Bool
  size : Nat
  executable : Bool
  deriving DecidableEq, Repr

def listFromManifest (manifests : Manifests) (storePathName subpath : List Char) :
    Option (List ManifestDirEntry) :=
  (manifests.lookup storePathName).map fun manifest =>
    let entries := addChildren
      (fun name => { name, isDir := true, isSymlink := false, size := 0, executable := false })
      (fun name entry =>
        { name
          isDir := entry.entryType = .dir
          isSymlink := entry.entryType = .symlink
          size := entry.size
          executable := entry.executable })
      (pathStart subpath) manifest ∅
    (Table.sortedValues entries).insertionSort (·.name ≤ ·.name)

structure ProfileEntry where
  name : List Char
  storePath : List Char
  deriving DecidableEq, Repr

/-- The packages of a profile, in installation order. -/
structure ProfileMapping where
  packages : List ProfileEntry
  deriving DecidableEq, Repr

structure UnionEntry where
  name : List Char
  isDir : Bool
  isSymlink : Bool
  fromPackage : List Char
  deriving DecidableEq, Repr

def listUnionFromManifests (mapping : ProfileMapping) (subpath : List Char)
    (manifests : Manifests) : List UnionEntry :=
  let seen := mapping.packages.foldl (fun seen package =>
    match manifests.lookup package.storePath with
    | none => seen
    | some manifest =>
        addChildren
          (fun name =>
            { name, isDir := true, isSymlink := false, fromPackage := package.name })
          (fun name entry =>
            { name
              isDir := entry.entryType = .dir
              isSymlink := entry.entryType = .symlink
              fromPackage := package.name })
          (pathStart subpath) manifest seen) (∅ : Table UnionEntry)
  seen.sortedValues.insertionSort (·.name ≤ ·.name)

end NixRedox.Manifest
