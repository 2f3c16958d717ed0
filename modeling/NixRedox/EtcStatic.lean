import NixRedox.Derivation
import NixRedox.FileWays

set_option autoImplicit false

/- The symlink farm of `/etc/static` in `activate.rs`: `/etc/static` is a symlink to
the etc derivation, and each file of it gets a symlink in `/etc` that leads through
`/etc/static`. -/
namespace NixRedox.Activate

open UnixPath (components absoluteText)

/-- What a fallible step leaves on disk, and whether it went well. -/
abbrev Attempt := FileTree × Except String Unit

/-- A loop over directory entries that stops at the first error. -/
def forEntries (act : List Char → FileTree → Attempt) : List (List Char) → FileTree → Attempt
  | [], tree => (tree, .ok ())
  | name :: rest, tree =>
      match act name tree with
      | (tree, .ok ()) => forEntries act rest tree
      | (tree, .error reason) => (tree, .error reason)

/-- `let _ = fs::remove_file(path)`. -/
def tryRemoveFile (tree : FileTree) (path : Location) : FileTree :=
  (tree.removeFile path).toOption.getD tree

def placeSymlink (target : List Char) (path : Location) (tree : FileTree) : Attempt :=
  match tree.symlink target path with
  | .ok tree => (tree, .ok ())
  | .error reason => (tree, .error reason)

/-- The entry of a file: a symlink with the right target stays, anything else makes
way for one. -/
def linkEtcFile (etcPath staticPath : Location) (tree : FileTree) : Attempt :=
  match tree.readLink etcPath with
  | some target =>
      if components target = components (absoluteText staticPath) then
        (tree, .ok ())
      else
        placeSymlink (absoluteText staticPath) etcPath (tryRemoveFile tree etcPath)
  | none =>
      if tree.existsAt etcPath then
        placeSymlink (absoluteText staticPath) etcPath (tryRemoveFile tree etcPath)
      else
        placeSymlink (absoluteText staticPath) etcPath tree

/-- The fuel bounds the depth: a path that is too long is an error. -/
def createEtcSymlinks : Nat → UnixPath.PathBuf → Location → Location → FileTree → Attempt
  | 0, _, _, _, tree => (tree, .error "File name too long")
  | fuel + 1, srcDir, etcDir, staticBase, tree =>
      match tree.readDir srcDir with
      | none => (tree, .error "No such file or directory")
      | some names =>
          forEntries (fun name tree =>
            if tree.isDirPath (srcDir ++ [.normal name]) then
              match tree.createDirAll (etcDir ++ [name]) with
              | (tree, .error reason) => (tree, .error reason)
              | (tree, .ok ()) =>
                  createEtcSymlinks fuel (srcDir ++ [.normal name]) (etcDir ++ [name])
                    (staticBase ++ [name]) tree
            else
              linkEtcFile (etcDir ++ [name]) (staticBase ++ [name]) tree) names tree

/-- The entry of a symlink: it goes if it leads to nothing under the lead. -/
def cleanStaleLink (path : Location) (lead target : List Char) (tree : FileTree) : FileTree :=
  if lead.isPrefixOf target ∧ (tree.followPath (components target)).isNone then
    tryRemoveFile tree path
  else
    tree

def cleanStaleEtcSymlinks : Nat → Location → List Char → FileTree → Attempt
  | 0, _, _, tree => (tree, .error "File name too long")
  | fuel + 1, dir, lead, tree =>
      match tree.readDir (dir.map .normal) with
      | none => (tree, .ok ())
      | some names =>
          forEntries (fun name tree =>
            if tree.isDir (dir ++ [name]) ∧ ¬ tree.isSymlink (dir ++ [name]) then
              if name = "static".toList then (tree, .ok ())
              else cleanStaleEtcSymlinks fuel (dir ++ [name]) lead tree
            else
              match tree.readLink (dir ++ [name]) with
              | some target => (cleanStaleLink (dir ++ [name]) lead target tree, .ok ())
              | none => (tree, .ok ())) names tree

def etcPath : Location := ["etc".toList]

def etcStaticPath : Location := ["etc".toList, "static".toList]

/-- Take away what is at `/etc/static`. -/
def clearEtcStatic (tree : FileTree) : Except String FileTree :=
  if (tree.symlinkMetadata etcStaticPath).isSome then
    match tree.removeFile etcStaticPath with
    | .ok tree => .ok tree
    | .error _ => tree.removeDirAll etcStaticPath
  else
    .ok tree

/-- No path to a node has more names than there are nodes. -/
def depthBound (tree : FileTree) : Nat := tree.nodes.entries.length + 1

/-- `setup_etc_static` for an absolute path. -/
def setupEtcStatic (etcSource : List Char) (tree : FileTree) : Attempt :=
  if (tree.followPath (components etcSource)).isNone then
    (tree, .error ("etc source not found: " ++ String.ofList etcSource))
  else
    match clearEtcStatic tree with
    | .error reason => (tree, .error reason)
    | .ok cleared =>
        match placeSymlink etcSource etcStaticPath cleared with
        | (tree, .error reason) => (tree, .error reason)
        | (tree, .ok ()) =>
            let etcSubdir := UnixPath.joinComponents (components etcSource) (components "etc".toList)
            let linked :=
              if tree.isDirPath etcSubdir then
                createEtcSymlinks (depthBound tree) etcSubdir etcPath (etcStaticPath ++ etcPath) tree
              else
                (tree, .ok ())
            match linked with
            | (tree, .error reason) => (tree, .error reason)
            | (tree, .ok ()) =>
                cleanStaleEtcSymlinks (depthBound tree) etcPath "/etc/static/".toList tree

end NixRedox.Activate
