import NixRedox.Redox
import NixRedox.StoredResolve

set_option autoImplicit false

/- Derivations as the evaluator hands them over (`nix_compat::derivation`,
`snix_glue::known_paths`): the fields that building reads. -/
namespace NixRedox

open Redox (Table)

/-- Characters of a store path's name. -/
def isNameChar (c : Char) : Bool :=
  c.isAlphanum || c ∈ ['+', '-', '.', '_', '?', '=']

/-- A store path: a digest in nixbase32 and a name. -/
structure StorePath where
  digest : List Char
  name : List Char
  digestLength : digest.length = 32
  digestChars : digest.all Stored.isNixbase32 = true
  named : name ≠ []
  nameChars : name.all isNameChar = true
  deriving DecidableEq, Repr

namespace StorePath

def toText (path : StorePath) : List Char := path.digest ++ '-' :: path.name

def toAbsolutePath (path : StorePath) : List Char := "/nix/store/".toList ++ path.toText

theorem toText_flat (path : StorePath) : '/' ∉ path.toText := by
  intro member
  rcases List.mem_append.mp member with inDigest | inName
  · have digit := List.all_eq_true.mp path.digestChars _ inDigest
    exact absurd digit (by decide)
  · rcases List.mem_cons.mp inName with dash | inName
    · cases dash
    · have ordinary := List.all_eq_true.mp path.nameChars _ inName
      exact absurd ordinary (by decide)

theorem toText_length (path : StorePath) : 34 ≤ path.toText.length := by
  have some_ : 0 < path.name.length := List.length_pos_iff.mpr path.named
  have digits := path.digestLength
  simp only [toText, List.length_append, List.length_cons]
  omega

theorem toText_injective : Function.Injective toText := by
  intro one two same
  have digits : one.digest = two.digest ∧ '-' :: one.name = '-' :: two.name :=
    List.append_inj same (one.digestLength.trans two.digestLength.symm)
  cases one
  cases two
  simp_all

theorem toAbsolutePath_injective : Function.Injective toAbsolutePath := by
  intro one two same
  exact toText_injective (List.append_cancel_left same)

/-- The directory of a store path as components. -/
theorem components_toAbsolutePath (path : StorePath) :
    UnixPath.components path.toAbsolutePath =
      [.rootDir, .normal "nix".toList, .normal "store".toList, .normal path.toText] := by
  have long := path.toText_length
  have named : path.toText ≠ [] := by
    intro empty
    rw [empty] at long
    exact absurd long (by decide)
  have proper : path.toText ≠ ['.'] := by
    intro dot
    rw [dot] at long
    exact absurd long (by decide)
  have ordinary : path.toText ≠ ['.', '.'] := by
    intro dots
    rw [dots] at long
    exact absurd long (by decide)
  have split : path.toAbsolutePath = "/nix/store".toList ++ '/' :: path.toText := rfl
  have front : UnixPath.components "/nix/store".toList =
      [.rootDir, .normal "nix".toList, .normal "store".toList] := by
    decide
  rw [split, UnixPath.components_append _ (by decide), List.splitOn_eq_singleton path.toText_flat,
    UnixPath.body_segment_cons [] named proper, front]
  simp only [UnixPath.toComponent, ordinary, ↓reduceIte, UnixPath.body_nil, List.cons_append,
    List.nil_append]

end StorePath

inductive HashAlgo where
  | md5
  | sha1
  | sha256
  | sha512
  deriving DecidableEq, Repr

structure NixHash where
  algo : HashAlgo
  digest : List UInt8
  deriving DecidableEq, Repr

/-- The hash a fixed output declares: of its bytes, or of its archive. -/
inductive CAHash where
  | flat (hash : NixHash)
  | nar (hash : NixHash)
  | text (digest : List UInt8)
  deriving DecidableEq, Repr

structure Output where
  path : Option StorePath
  caHash : Option CAHash
  deriving DecidableEq, Repr

/-- Values of the environment are bytes; the input derivations are listed in the order
of their paths, each with the outputs that are used. -/
structure Derivation where
  arguments : List (List Char)
  builder : List Char
  environment : Table ByteArray
  inputDerivations : List (StorePath × List (List Char))
  inputSources : List StorePath
  outputs : Table Output
  deriving DecidableEq

namespace Derivation

/-- The store path of a named output, if it has one. -/
def outputPath (drv : Derivation) (name : List Char) : Option StorePath :=
  (drv.outputs.lookup name).bind Output.path

/-- The output of a fixed-output derivation, and the hash it declares for it. -/
def fixedOutput (drv : Derivation) : Option (StorePath × CAHash) :=
  (drv.outputs.lookup "out".toList).bind fun output =>
    output.path.bind fun place => output.caHash.map fun declared => (place, declared)

theorem outputPath_of_fixedOutput {drv : Derivation} {place : StorePath} {declared : CAHash}
    (fixed : drv.fixedOutput = some (place, declared)) :
    drv.outputPath "out".toList = some place := by
  obtain ⟨output, found, rest⟩ := Option.bind_eq_some_iff.mp fixed
  obtain ⟨own, placed, last⟩ := Option.bind_eq_some_iff.mp rest
  obtain ⟨_, _, same⟩ := Option.map_eq_some_iff.mp last
  cases same
  rw [outputPath, found, Option.bind_some, placed]

end Derivation

/-- The derivations of an evaluation by their paths. -/
abbrev KnownPaths := AList fun _ : StorePath => Derivation

namespace KnownPaths

def getDrvByDrvpath (knownPaths : KnownPaths) (drvPath : StorePath) : Option Derivation :=
  knownPaths.lookup drvPath

/-- The store paths of the outputs a derivation takes from its input derivations. -/
def inputOutputs (knownPaths : KnownPaths) (drv : Derivation) : List StorePath :=
  drv.inputDerivations.flatMap fun (inputDrvPath, outputNames) =>
    match knownPaths.getDrvByDrvpath inputDrvPath with
    | none => []
    | some inputDrv => outputNames.filterMap inputDrv.outputPath

end KnownPaths

def helloPath : StorePath where
  digest := "00000000000000000000000000000000".toList
  name := "hello".toList
  digestLength := by decide
  digestChars := by decide
  named := by decide
  nameChars := by decide

/-- A derivation with one output of the given name. -/
def helloDerivation (outputName : List Char) : Derivation where
  arguments := []
  builder := "/bin/sh".toList
  environment := ∅
  inputDerivations := []
  inputSources := []
  outputs := AList.insert outputName { path := some helloPath, caHash := none } ∅

theorem helloDerivation_output {outputName name : List Char} {output : Output}
    (present : (helloDerivation outputName).outputs.lookup name = some output) :
    name = outputName ∧ output.path = some helloPath := by
  by_cases same : name = outputName
  · subst same
    rw [helloDerivation, AList.lookup_insert] at present
    cases present
    exact ⟨rfl, rfl⟩
  · rw [helloDerivation, AList.lookup_insert_ne same, AList.lookup_empty] at present
    cases present

end NixRedox
