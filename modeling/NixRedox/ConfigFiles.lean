import NixRedox.FileTree
import NixRedox.SystemManifest

set_option autoImplicit false

/- Managed configuration files of `activate.rs`: the diff of two inventories and the
update of the files on disk. -/
namespace NixRedox.Activate

open NixRedox.System (FileInfo)

/-- The `files` of a manifest. -/
abbrev Files := AList fun _ : String => FileInfo

structure ConfigChange where
  path : String
  oldHash : String
  newHash : String
  deriving DecidableEq, Repr

/-- The keys in the order of a `BTreeMap`. -/
def sortedKeys (files : Files) : List String := files.keys.insertionSort (· ≤ ·)

/-- A file counts as changed when its hash does. -/
def changeOf (old new : Files) (path : String) : Option ConfigChange :=
  match new.lookup path, old.lookup path with
  | some newInfo, some oldInfo =>
      if oldInfo.blake3 ≠ newInfo.blake3 then some ⟨path, oldInfo.blake3, newInfo.blake3⟩
      else none
  | _, _ => none

def diffConfigFiles (old new : Files) : List String × List String × List ConfigChange :=
  ((sortedKeys new).filter fun path => old.lookup path = none,
    (sortedKeys old).filter fun path => path ∉ new,
    (sortedKeys new).filterMap (changeOf old new))

def stripPrefixOr (lead text : List Char) : List Char :=
  if lead.isPrefixOf text then text.drop lead.length else text

def parseModeString (mode : String) : Except String Nat :=
  let trimmed := stripPrefixOr "0o".toList (Text.trim mode.toList)
  let digits :=
    match trimmed with
    | '0' :: rest => if rest ≠ [] then rest else trimmed
    | _ => trimmed
  if digits = [] ∨ 4 < Text.byteLength digits ∨
      ¬ digits.all fun digit => '0' ≤ digit ∧ digit ≤ '7' then
    .error ("invalid file mode '" ++ mode ++ "' (expected octal like 0644)")
  else
    let parsed := digits.foldl (fun value digit => 8 * value + (digit.toNat - '0'.toNat)) 0
    if 0o7777 < parsed then
      .error ("invalid file mode '" ++ mode ++ "' (must be <= 07777)")
    else
      .ok parsed

/-- The name of a `Normal` component. -/
def normalName : UnixPath.Component → Option (List Char)
  | .normal name => some name
  | _ => none

def validateManagedRelativePath (path : String) : Except String Location :=
  match (UnixPath.components path.toList).mapM normalName with
  | none => .error ("managed file path '" ++ path ++
      "' must be root-relative without '.', '..', or a leading '/'")
  | some relative =>
      if relative = [] then .error "managed file path must not be empty" else .ok relative

def managedFilePathAt (root : Location) (path : String) : Except String Location :=
  (validateManagedRelativePath path).map (root ++ ·)

/-- A symlink in the place of the file is replaced; the mode is read only after the
contents are written. -/
def writeInlineConfigFileAt (root : Location) (path : String) (info : FileInfo)
    (tree : FileTree) : FileTree × Except String Unit :=
  match managedFilePathAt root path with
  | .error reason => (tree, .error reason)
  | .ok full =>
      match tree.createDirAll full.dropLast with
      | (tree, .error reason) => (tree, .error reason)
      | (tree, .ok ()) =>
          let cleared :=
            match tree.symlinkMetadata full with
            | some (.symlink _) => tree.removeFile full
            | _ => .ok tree
          match cleared with
          | .error reason => (tree, .error reason)
          | .ok tree =>
              match tree.write full (info.text.getD "").toUTF8 with
              | .error reason => (tree, .error reason)
              | .ok tree =>
                  match parseModeString info.mode with
                  | .error reason => (tree, .error reason)
                  | .ok mode =>
                      match tree.setPermissions full mode with
                      | .error reason => (tree, .error reason)
                      | .ok tree => (tree, .ok ())

/-- The files so far, the warnings and the number of updates. -/
structure Progress where
  tree : FileTree
  warnings : List String
  updated : Nat

def Progress.warn (state : Progress) (warning : String) : Progress :=
  { state with warnings := state.warnings ++ [warning] }

def invalidPath (path reason : String) : String :=
  "invalid config file path '" ++ path ++ "': " ++ reason

/-- The new entry of a path, when it has its contents inline. -/
def inlineInfo (newFiles : Files) (path : String) : Option FileInfo :=
  (newFiles.lookup path).filter fun info => info.text.isSome

def writeManaged (failure : String) (root : Location) (path : String) (info : FileInfo)
    (state : Progress) : Progress :=
  match writeInlineConfigFileAt root path info state.tree with
  | (tree, .ok ()) => { state with tree, updated := state.updated + 1 }
  | (tree, .error reason) =>
      Progress.warn { state with tree } (failure ++ path ++ ": " ++ reason)

def addConfigFile (root : Location) (newFiles : Files) (state : Progress) (path : String) :
    Progress :=
  match managedFilePathAt root path with
  | .error reason => state.warn (invalidPath path reason)
  | .ok full =>
      match inlineInfo newFiles path with
      | some info => writeManaged "failed to write /" root path info state
      | none =>
          if state.tree.existsAt full then
            state
          else
            state.warn ("new config file /" ++ path ++
              " not found on disk (expected from rootTree)")

def removeConfigFile (root : Location) (state : Progress) (path : String) : Progress :=
  match managedFilePathAt root path with
  | .error reason => state.warn (invalidPath path reason)
  | .ok full =>
      if state.tree.existsAt full then
        match state.tree.removeFile full with
        | .ok tree => { state with tree, updated := state.updated + 1 }
        | .error reason => state.warn ("could not remove /" ++ path ++ ": " ++ reason)
      else
        state

/-- The hash of what a path leads to, if that is a file. -/
def hashFileIfExists (blake3 : ByteArray → String) (tree : FileTree) (path : Location) :
    Option String :=
  match (tree.follow path).bind tree.nodeAt with
  | some (.file contents _) => some (blake3 contents)
  | _ => none

def changeConfigFile (blake3 : ByteArray → String) (root : Location) (newFiles : Files)
    (state : Progress) (change : ConfigChange) : Progress :=
  match managedFilePathAt root change.path with
  | .error reason => state.warn (invalidPath change.path reason)
  | .ok full =>
      match inlineInfo newFiles change.path with
      | some info => writeManaged "failed to update /" root change.path info state
      | none =>
          if state.tree.existsAt full then
            let checked :=
              if hashFileIfExists blake3 state.tree full = some change.newHash then
                state
              else
                state.warn ("config file /" ++ change.path ++
                  " needs update (hash mismatch) — redeploy rootTree or reboot")
            { checked with updated := checked.updated + 1 }
          else
            state

/-- Added files first, then removed ones, then changed ones. -/
def updateConfigFilesAt (blake3 : ByteArray → String) (root : Location) (added removed : List String)
    (changed : List ConfigChange) (newFiles : Files) (state : Progress) : Progress :=
  changed.foldl (changeConfigFile blake3 root newFiles)
    (removed.foldl (removeConfigFile root) (added.foldl (addConfigFile root newFiles) state))

/-- The update for the diff of two inventories. -/
def activateFiles (blake3 : ByteArray → String) (root : Location) (old new : Files)
    (tree : FileTree) : Progress :=
  let (added, removed, changed) := diffConfigFiles old new
  updateConfigFilesAt blake3 root added removed changed new ⟨tree, [], 0⟩

end NixRedox.Activate
