import NixRedox.Castore
import NixRedox.FallibleRuns
import NixRedox.FileRename
import NixRedox.LocalBuild
import NixRedox.UpstreamPathInfo

set_option autoImplicit false

/- The sources of derivations on their way from the castore services into the store
(`materialize_input_sources` and `write_source_node` of `eval.rs`), among other importers
that work in the same store. -/
namespace NixRedox.SourceImport

open FallibleRuns (Run)
open Hex (HexLower)
open LocalBuild (display)
open Upstream (NixCompat UpstreamInfo fromUpstream)

/-- A `snix_store::path_info::PathInfo` with its node. -/
structure SourceInfo (Digest Signature : Type) where
  upstream : UpstreamInfo StorePath Signature
  node : Castore.Node Digest

/-- The castore and path info services. An info is found by the digest of its store path. -/
structure Services (Digest Signature : Type) where
  castore : Castore.Services Digest
  pathInfos : List Char → Option (SourceInfo Digest Signature)
  keyed : ∀ digest info, pathInfos digest = some info → info.upstream.storePath.digest = digest
  nix : NixCompat StorePath Signature
  paths : nix.toAbsolutePath = display
  hex : HexLower

/-- What all importers share: the files below the store root, where it exists, the path
metadata, and the `IMPORT_COUNTER` of the process. -/
structure Shared where
  store : Option FileTree
  db : PathInfoDb literalHash
  importCounter : UInt64

/-- The shared state in the course of one run, with the staging names the run has taken and
what it has changed itself, the last change first. -/
structure World where
  shared : Shared
  clock : Nat
  taken : List (List Char)
  changes : List (Shared × Shared)

namespace Shared

def nodeAt (shared : Shared) (location : Location) : Option Node :=
  shared.store.bind (·.nodeAt location)

def Present (shared : Shared) (source : StorePath) : Prop :=
  shared.nodeAt [source.toText] ≠ none

end Shared

section Others

variable {Digest Signature : Type} (services : Services Digest Signature)

/-- A source path holds the tree of its castore node, where the path info service has one. -/
def Complete (shared : Shared) (source : StorePath) : Prop :=
  ∀ info, services.pathInfos source.digest = some info →
    Castore.Complete services.castore info.node fun rest =>
      shared.nodeAt (source.toText :: rest)

def SourcesComplete (shared : Shared) : Prop :=
  ∀ source, shared.Present source → Complete services shared source

/-- What importers expect of each other: a source that is there stays as it is, one that
comes is complete, the staging names of others are left alone, and what is registered stays
registered. -/
structure Permitted (mine : List (List Char)) (before after : Shared) : Prop where
  kept : ∀ source, before.Present source → ∀ rest,
    after.nodeAt (source.toText :: rest) = before.nodeAt (source.toText :: rest)
  published : ∀ source, ¬ before.Present source → after.Present source →
    Complete services after source
  apart : ∀ name ∈ mine, ∀ rest, after.nodeAt (name :: rest) = before.nodeAt (name :: rest)
  registered : ∀ path, before.db.isRegistered path = true → after.db.isRegistered path = true

/-- How an operation fails, and what it has done before: the bytes a copy has written, the
places a removal has cleared, and whether a metadata file is torn. -/
structure Fault where
  reason : String
  written : Nat
  removed : List Location
  torn : Bool

/-- What befalls a run: what other importers do before each of its operations, and which of
these fail. -/
structure Scenario where
  processId : Nat
  others : World → Shared
  permitted : ∀ world, Permitted services world.taken world.shared (others world)
  faults : Nat → Option Fault

end Others

section Operations

variable {Digest Signature α : Type} {services : Services Digest Signature}
  (scenario : Scenario services)

/-- One operation on what is shared, after whatever the others have done. -/
def act (effect : Option Fault → Shared → Except String α × Shared) : Run String World α :=
  .step fun world =>
    let before := scenario.others world
    let done := effect (scenario.faults world.clock) before
    (done.1, { world with
      shared := done.2
      clock := world.clock + 1
      changes := (before, done.2) :: world.changes })

/-- An operation that changes nothing. -/
def ask (answer : Shared → α) : Run String World α :=
  act scenario fun fault shared =>
    match fault with
    | some fault => (.error fault.reason, shared)
    | none => (.ok (answer shared), shared)

/-- An operation on the files of the store, and what it leaves where it fails. -/
def onStore (left : Fault → FileTree → FileTree) (effect : FileTree → Except String FileTree) :
    Run String World Unit :=
  act scenario fun fault shared =>
    match shared.store with
    | none => (.error "No such file or directory", shared)
    | some tree =>
        match fault with
        | some fault => (.error fault.reason, { shared with store := some (left fault tree) })
        | none =>
            match effect tree with
            | .ok after => (.ok (), { shared with store := some after })
            | .error reason => (.error reason, shared)

def unchanged : Fault → FileTree → FileTree := fun _ tree => tree

/-- `fs::symlink_metadata`: whether something is there. -/
def symlinkMetadata (path : Location) : Run String World Bool :=
  ask scenario fun shared => (shared.store.bind (·.symlinkMetadata path)).isSome

def emptyStore : FileTree :=
  .ofEntries [] List.nodup_nil fun _ member => absurd member List.not_mem_nil

/-- `fs::create_dir_all` of the store root. -/
def createStoreRoot : Run String World Unit :=
  act scenario fun fault shared =>
    match fault with
    | some fault => (.error fault.reason, shared)
    | none => (.ok (), { shared with store := some (shared.store.getD emptyStore) })

/-- `fs::create_dir`, and `fs::DirBuilder::create` without the mode. -/
def createDir (path : Location) : Run String World Unit :=
  onStore scenario unchanged (·.mkdir path)

/-- `tokio::fs::File::create`. -/
def createFile (path : Location) : Run String World Unit :=
  onStore scenario unchanged (·.write path .empty)

/-- `tokio::io::copy` into the file that was created. -/
def copy (contents : ByteArray) (path : Location) : Run String World Nat := do
  onStore scenario
    (fun fault tree => (tree.write path (contents.extract 0 fault.written)).toOption.getD tree)
    (·.write path contents)
  pure contents.size

def flush : Run String World Unit := ask scenario fun _ => ()

def setPermissions (path : Location) (mode : Nat) : Run String World Unit :=
  onStore scenario unchanged (·.setPermissions path mode)

def symlink (target : List Char) (path : Location) : Run String World Unit :=
  onStore scenario unchanged (·.symlink target path)

def rename (old new : Location) : Run String World Unit :=
  onStore scenario unchanged (·.rename old new)

/-- `fs::remove_dir_all`. Some of the tree may be gone where it fails. -/
def removeDirAll (path : Location) : Run String World Unit :=
  onStore scenario
    (fun fault tree =>
      fault.removed.foldl (fun tree rest => tree.eraseBelow (path ++ rest)) tree)
    (·.removeDirAll path)

def isRegistered (path : String) : Run String World Bool :=
  act scenario fun _ shared => (.ok (shared.db.isRegistered path), shared)

def register (info : PathInfo) : Run String World Unit :=
  act scenario fun fault shared =>
    let write := fault.map fun fault => PathInfoDb.WriteFault.mk fault.reason fault.torn
    let done := shared.db.register info write
    (done.2.mapError PathInfoError.toText, { shared with db := done.1 })

def stagingName (processId : Nat) (id : UInt64) : List Char :=
  ".snix-import-".toList ++ (toString processId).toList ++ '-' :: (toString id).toList

/-- `IMPORT_COUNTER.fetch_add`, and the name made of it. -/
def takeStaging : Run String World (List Char) := do
  let id ← act scenario fun _ shared =>
    (.ok shared.importCounter, { shared with importCounter := shared.importCounter + 1 })
  let name := stagingName scenario.processId id
  Run.step fun world => (.ok (), { world with taken := name :: world.taken })
  pure name

end Operations

section Code

variable {Digest Signature : Type} [ToString Digest] {services : Services Digest Signature}
  (scenario : Scenario services)

/-- One turn of the loop of `write_source_node`: the nodes it finds in a directory, in the
order in which they are taken from the end of `pending`. -/
def writeNode (path : Location) :
    Castore.Node Digest → Run String World (List (Location × Castore.Node Digest))
  | .directory digest size => do
      match ← ask scenario fun _ => services.castore.directories digest with
      | none => throw s!"missing source directory {digest}"
      | some _ => do
          createDir scenario path
          pure (Castore.children services.castore path (.directory digest size)).reverse
  | .file digest size executable => do
      match ← ask scenario fun _ => services.castore.blobs digest with
      | none => throw s!"missing source blob {digest}"
      | some reader => do
          createFile scenario path
          let written ← copy scenario reader path
          flush scenario
          if written ≠ size then
            throw s!"source blob {digest}: expected {size} bytes, received {written}"
          else
            setPermissions scenario path (Castore.filePermissions executable)
            pure []
  | .symlink target => do
      symlink scenario target path
      pure []

/-- The loop of `write_source_node`, so many turns at most. -/
def writePending : Nat → List (Location × Castore.Node Digest) → Run String World Unit
  | _, [] => pure ()
  | 0, _ :: _ => .never
  | turns + 1, (path, node) :: pending => do
      let children ← writeNode scenario path node
      writePending turns (children ++ pending)

def writeSourceNode (turns : Nat) (node : Castore.Node Digest) (destination : Location) :
    Run String World Unit :=
  writePending scenario turns [(destination, node)]

/-- Move a staged source to its place, where another importer may have been faster. -/
def publish (stagedSource destination : Location) : Run String World Unit := do
  match ← (rename scenario stagedSource destination).attempt with
  | .ok () => pure ()
  | .error reason =>
      match ← (symlinkMetadata scenario destination).attempt with
      | .ok true => pure ()
      | _ => throw reason

/-- What is done for a source that is not in the store. -/
def importSource (turns : Nat) (node : Castore.Node Digest) (destination : Location) :
    Run String World Unit := do
  createStoreRoot scenario
  let staging ← takeStaging scenario
  createDir scenario [staging]
  let stagedSource := [staging, "source".toList]
  let result ← Run.attempt do
    writeSourceNode scenario turns node stagedSource
    publish scenario stagedSource destination
  let cleanup ← (removeDirAll scenario [staging]).attempt
  Run.ofExcept result
  Run.ofExcept cleanup

/-- The body of the loop of `materialize_input_sources`. -/
def materializeSource (turns : Nat) (source : StorePath) : Run String World Unit := do
  let destination := [source.toText]
  let present ← symlinkMetadata scenario destination
  let registered ← if present then isRegistered scenario (display source) else pure false
  if registered then
    pure ()
  else
    match ← ask scenario fun _ => services.pathInfos source.digest with
    | none =>
        if present then pure ()
        else throw s!"source input is unavailable: {display source}"
    | some info => do
        if present then pure () else importSource scenario turns info.node destination
        register scenario (fromUpstream services.nix services.hex info.upstream)

/-- The `BTreeSet` of the input sources of all derivations. Paths are ordered as their texts. -/
def inputSources (knownPaths : KnownPaths) : List StorePath :=
  ((knownPaths.entries.flatMap fun entry => entry.2.inputSources).dedup).insertionSort
    (·.toText ≤ ·.toText)

def materializeInputSources (turns : Nat) (knownPaths : KnownPaths) : Run String World Unit :=
  (inputSources knownPaths).forM (materializeSource scenario turns)

end Code

end NixRedox.SourceImport
