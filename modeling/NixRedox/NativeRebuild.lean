import NixRedox.Rebuild
import NixRedox.StepRuns
import NixRedox.SystemGenerations

set_option autoImplicit false

/- Native rebuilds (`rebuild.rs`): the manifest read from a built system, and the
histories of native rebuilds and operations on generations. -/
namespace NixRedox.Rebuild

open Activate (Files)
open KeyedMap (retain)
open NixRedox.System (FileInfo Env Operation State perform)

/-- What is left to list of a directory below `root-files`, in the order `read_dir` gives:
regular files with their text and mode, directories, and entries of another kind. A failed
read ends the listing. -/
inductive RootFiles where
  | done
  | failed (reason : String)
  | file (name : String) (text : Except String String) (mode : Nat) (rest : RootFiles)
  | dir (name : String) (entries rest : RootFiles)
  | other (name : String) (rest : RootFiles)

/-- A built system: its path, what `load_manifest_from` gives for its manifest, which paths
are regular files, its `etc-source-path`, which paths have a directory `etc`, and its
`root-files` if that is a directory. -/
structure NativeOutput where
  path : String
  manifest : Except String Manifest
  isFile : String → Bool
  etcSourcePath : Except String String
  hasEtc : String → Bool
  rootFiles : Option RootFiles

/-- The entry of a root file, writable by its owner again. -/
def rootFileInfo (blake3 : ByteArray → String) (text : String) (mode : Nat) : FileInfo where
  blake3 := blake3 text.toUTF8
  size := text.utf8ByteSize
  mode := octal ((mode &&& 0o7777) ||| 0o200)
  text := some text

/-- `lead` is the path of the directory below `root`, with a slash behind each name. -/
def collectNativeRootFiles (blake3 : ByteArray → String) (root : String) :
    String → RootFiles → Files → Except String Files
  | _, .done, files => .ok files
  | _, .failed reason, _ => .error reason
  | lead, .dir name entries rest, files =>
      match collectNativeRootFiles blake3 root (lead ++ name ++ "/") entries files with
      | .error reason => .error reason
      | .ok files => collectNativeRootFiles blake3 root lead rest files
  | lead, .file name text mode rest, files =>
      match validateManagedFilePath (lead ++ name) with
      | .error reason => .error reason
      | .ok relative =>
          match text with
          | .error reason => .error reason
          | .ok text => collectNativeRootFiles blake3 root lead rest
              (files.insert relative (rootFileInfo blake3 text mode))
  | lead, .other name _, _ =>
      .error ("native root file must be a regular file: " ++ root ++ "/" ++ lead ++ name)

/-- The boot artifact of a name is there. -/
def checkArtifact (output : NativeOutput) (name : String) : Option String → Except String Unit
  | none => .error ("native system manifest has no boot." ++ name)
  | some path =>
      if output.isFile path then .ok ()
      else .error ("native system boot." ++ name ++ " artifact is missing: " ++ path)

def checkBoot (output : NativeOutput) : Option System.BootComponents → Except String Unit
  | none => .error "native system manifest has no boot artifacts"
  | some boot => do
      checkArtifact output "kernel" boot.kernel
      checkArtifact output "initfs" boot.initfs
      checkArtifact output "bootloader" boot.bootloader

/-- The `etcSource` of the manifest, or of the file next to it. -/
def nativeEtcSource (output : NativeOutput) : Option String → Except String String
  | some path => .ok path
  | none =>
      match output.etcSourcePath with
      | .error reason => .error ("native system has no etcSource or " ++ output.path ++
          "/etc-source-path: " ++ reason)
      | .ok text => .ok (String.ofList (Text.trim text.toList))

/-- `load_native_system_manifest`. -/
def loadNativeSystemManifest (blake3 : ByteArray → String) (config : RebuildConfig)
    (output : NativeOutput) (current : Manifest) : Except String Manifest := do
  let manifest ← output.manifest
  if manifest.system.target ≠ current.system.target then
    .error ("native system target '" ++ manifest.system.target ++
      "' does not match running target '" ++ current.system.target ++ "'")
  checkBoot output manifest.boot
  let etcSource ← nativeEtcSource output manifest.etcSource
  if ¬ output.hasEtc etcSource then
    .error "native system etcSource does not contain an etc directory"
  let manifest ← mergeConfig blake3
    { manifest with etcSource := some etcSource, toplevel := some output.path } config []
  match output.rootFiles with
  | none => pure manifest
  | some entries =>
      let files ← collectNativeRootFiles blake3 (output.path ++ "/root-files") "" entries
        (retain (fun path _ => !"usr/lib/init.d/".toList.isPrefixOf path.toList) manifest.files)
      pure { manifest with files }

/-- An operation on generations, or a native rebuild by a process over the current
manifest. -/
inductive Move where
  | operation (op : Operation)
  | nativeRebuild (pid : Nat) (config : RebuildConfig) (output : NativeOutput) (current : Manifest)

/-- `rebuild_native_system` from the built system on. -/
def rebuildNativeSystem (blake3 : ByteArray → String) (env : Env) (pid : Nat)
    (config : RebuildConfig) (output : NativeOutput) (current : Manifest) (state : State) :
    State :=
  match loadNativeSystemManifest blake3 config output current with
  | .error _ => state
  | .ok manifest =>
      (perform env state (.switch ("/tmp/snix-native-rebuild-" ++ toString pid ++ ".json")
        (.readable manifest.toManifest) (some "native system rebuild") false)).state

/-- A move of a history. A native rebuild starts from the manifest that is current. -/
def advance (blake3 : ByteArray → String) (state : State) : Env × Move → Option State
  | (env, .operation op) => some (perform env state op).state
  | (env, .nativeRebuild pid config output current) =>
      if state.manifest = .readable current.toManifest then
        some (rebuildNativeSystem blake3 env pid config output current state)
      else
        none

end NixRedox.Rebuild
