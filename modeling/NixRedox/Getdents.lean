import NixRedox.BuildHandler
import NixRedox.ManifestListing
import NixRedox.Paging
import NixRedox.StoredResolve

set_option autoImplicit false

/- The three `getdents` implementations: `build_proxy/handler.rs`,
`stored/scheme.rs` and `profiled/scheme.rs`. -/
namespace NixRedox

open Manifest (Manifests ProfileMapping entryKind listFromManifest listUnionFromManifests)
open Paging (Lossless Pager pageOf pageThen)
open Redox (Dirent DirentBuf DirentKind Errno Table syscallBuf)

namespace BuildProxy.BuildFsHandler

def getdents (worker : BuildFsIoWorker) (handler : BuildFsHandler) (buf : DirentBuf)
    (id capacity offset : Nat) : Except Errno (List (Dirent × Nat)) :=
  (handler.dirEntries worker id).map fun entries => pageOf buf entries capacity offset

end BuildProxy.BuildFsHandler

namespace Stored

/-- Open handles, as far as `getdents` looks at them. -/
inductive Handle where
  | file (schemePath : List Char)
  | dir (schemePath : List Char)
  | control (schemePath : List Char)
  deriving DecidableEq, Repr

structure StoreDaemon where
  handles : AList fun _ : Nat => Handle
  registeredPaths : Table Unit
  manifests : Manifests

namespace StoreDaemon

def listRegisteredPathNames (daemon : StoreDaemon) : List (List Char) :=
  daemon.registeredPaths.sortedKeys

/-- The listing of a directory inside a store path comes from its manifest. -/
def manifestEntries (daemon : StoreDaemon) (storePathName subpath : List Char) :
    Except Errno (List Dirent) :=
  match listFromManifest daemon.manifests storePathName subpath with
  | some entries =>
      .ok (entries.map fun entry => (entry.name, entryKind entry.isDir entry.isSymlink))
  | none => .error .enoent

/-- What `getdents` pages through; `none` is a panic. -/
def dirEntries (daemon : StoreDaemon) (id : Nat) : Option (Except Errno (List Dirent)) :=
  match daemon.handles.lookup id with
  | none => some (.error .ebadf)
  | some (.file _) | some (.control _) => some (.error .enotdir)
  | some (.dir schemePath) =>
      if schemePath = [] then
        some (.ok (daemon.listRegisteredPathNames.map fun name => (name, .directory)))
      else
        match parseSchemePath schemePath with
        | none => none
        | some (.error _) => some (.error .enoent)
        | some (.ok .root) => some (.ok [])
        | some (.ok (.storePathRoot name)) => some (daemon.manifestEntries name [])
        | some (.ok (.subPath name subpath)) => some (daemon.manifestEntries name subpath)

def getdents (daemon : StoreDaemon) (buf : DirentBuf) (id capacity offset : Nat) :
    Option (Except Errno (List (Dirent × Nat))) :=
  (daemon.dirEntries id).map fun listed =>
    listed.map fun entries => pageOf buf entries capacity offset

end StoreDaemon

end Stored

namespace Profiled

inductive Handle where
  | file (schemePath : List Char)
  | dir (profileName subpath : List Char)
  | control (profileName : List Char)
  deriving DecidableEq, Repr

structure ProfileSchemeHandler where
  handles : AList fun _ : Nat => Handle
  profiles : Table ProfileMapping
  manifests : Manifests

/-- The synthetic entry of every profile root. -/
def controlEntry : Dirent := (".control".toList, .regular)

namespace ProfileSchemeHandler

def listProfiles (handler : ProfileSchemeHandler) : List (List Char) :=
  handler.profiles.sortedKeys

def profileDirents (handler : ProfileSchemeHandler) : List Dirent :=
  handler.listProfiles.map fun name => (name, .directory)

/-- Top-level entries of a profile; symlinks are listed as regular files here. -/
def rootDirents (handler : ProfileSchemeHandler) (mapping : ProfileMapping) : List Dirent :=
  (listUnionFromManifests mapping [] handler.manifests).map fun entry =>
    (entry.name, if entry.isDir then .directory else .regular)

def subdirDirents (handler : ProfileSchemeHandler) (mapping : ProfileMapping)
    (subpath : List Char) : List Dirent :=
  (listUnionFromManifests mapping subpath handler.manifests).map fun entry =>
    (entry.name, entryKind entry.isDir entry.isSymlink)

def getdents (handler : ProfileSchemeHandler) (buf : DirentBuf) (id capacity offset : Nat) :
    Except Errno (List (Dirent × Nat)) :=
  match handler.handles.lookup id with
  | none => .error .ebadf
  | some (.file _) | some (.control _) => .error .enotdir
  | some (.dir profileName subpath) =>
      if profileName = [] then
        .ok (pageOf buf handler.profileDirents capacity offset)
      else
        match handler.profiles.lookup profileName with
        | none => .ok []
        | some mapping =>
            if subpath = [] then
              .ok (pageThen buf (handler.rootDirents mapping) controlEntry capacity offset)
            else
              .ok (pageOf buf (handler.subdirDirents mapping subpath) capacity offset)

/-- The content of the directory behind a handle. -/
def dirEntries (handler : ProfileSchemeHandler) (id : Nat) : Except Errno (List Dirent) :=
  match handler.handles.lookup id with
  | none => .error .ebadf
  | some (.file _) | some (.control _) => .error .enotdir
  | some (.dir profileName subpath) =>
      if profileName = [] then
        .ok handler.profileDirents
      else
        match handler.profiles.lookup profileName with
        | none => .ok []
        | some mapping =>
            if subpath = [] then
              .ok (handler.rootDirents mapping ++ [controlEntry])
            else
              .ok (handler.subdirDirents mapping subpath)

end ProfileSchemeHandler

end Profiled

namespace Getdents

/-- A directory handle of one of the three schemes. -/
inductive Source where
  | build (worker : BuildProxy.BuildFsIoWorker) (handler : BuildProxy.BuildFsHandler) (id : Nat)
  | stored (daemon : Stored.StoreDaemon) (id : Nat)
  | profiled (handler : Profiled.ProfileSchemeHandler) (id : Nat)

namespace Source

def getdents (source : Source) (buf : DirentBuf) (capacity offset : Nat) :
    Option (Except Errno (List (Dirent × Nat))) :=
  match source with
  | .build worker handler id => some (handler.getdents worker buf id capacity offset)
  | .stored daemon id => daemon.getdents buf id capacity offset
  | .profiled handler id => some (handler.getdents buf id capacity offset)

/-- The entries of the directory, in listing order. -/
def directory : Source → Option (Except Errno (List Dirent))
  | .build worker handler id => some (handler.dirEntries worker id)
  | .stored daemon id => daemon.dirEntries id
  | .profiled handler id => some (handler.dirEntries id)

/-- The pages a client sees; a failed call has none. -/
def pages (source : Source) (buf : DirentBuf) : Pager Dirent := fun capacity offset =>
  match source.getdents buf capacity offset with
  | some (.ok page) => page
  | _ => []

end Source

variable {source : Source} {directory : List Dirent}

/-- Only the root of an existing profile is not listed by the plain loop. -/
theorem pages_eq (listed : source.directory = some (.ok directory)) (buf : DirentBuf) :
    source.pages buf = pageOf buf directory ∨
      ∃ entries, directory = entries ++ [Profiled.controlEntry] ∧
        source.pages buf = pageThen buf entries Profiled.controlEntry := by
  cases source with
  | build worker handler id =>
      have content : handler.dirEntries worker id = .ok directory := Option.some.inj listed
      left
      funext capacity offset
      simp only [Source.pages, Source.getdents, BuildProxy.BuildFsHandler.getdents, content,
        Except.map]
  | stored daemon id =>
      have content : daemon.dirEntries id = some (.ok directory) := listed
      left
      funext capacity offset
      simp only [Source.pages, Source.getdents, Stored.StoreDaemon.getdents, content,
        Option.map_some, Except.map]
  | profiled handler id =>
      have content : handler.dirEntries id = .ok directory := Option.some.inj listed
      unfold Profiled.ProfileSchemeHandler.dirEntries at content
      split at content
      · cases content
      · cases content
      · cases content
      · rename_i profileName subpath found
        split at content
        · rename_i schemeRoot
          cases content
          left
          funext capacity offset
          simp only [Source.pages, Source.getdents, Profiled.ProfileSchemeHandler.getdents, found,
            schemeRoot, ↓reduceIte]
        · rename_i named
          split at content
          · rename_i missing
            cases content
            left
            funext capacity offset
            simp only [Source.pages, Source.getdents, Profiled.ProfileSchemeHandler.getdents,
              found, named, ↓reduceIte, missing, pageOf, List.zipIdx_nil, List.drop_nil,
              Paging.fill]
          · rename_i mapping installed
            split at content
            · rename_i top
              cases content
              right
              refine ⟨_, rfl, ?_⟩
              funext capacity offset
              simp only [Source.pages, Source.getdents, Profiled.ProfileSchemeHandler.getdents,
                found, named, ↓reduceIte, installed, top]
            · rename_i below
              cases content
              left
              funext capacity offset
              simp only [Source.pages, Source.getdents, Profiled.ProfileSchemeHandler.getdents,
                found, named, ↓reduceIte, installed, below]

/-- Every listing is lossless for all buffers: the entries of the directory come back in
stretches, and the synthetic one of a profile root after all the others. -/
theorem getdents_lossless {buf : DirentBuf} (emptied : buf.Emptied)
    (listed : source.directory = some (.ok directory)) :
    Lossless buf.size directory (source.pages buf) := by
  apply Paging.lossless_of_contiguous
  rcases pages_eq listed buf with plain | ⟨entries, rfl, control⟩
  · rw [plain]
    exact Paging.pageOf_contiguous buf directory
  · rw [control]
    exact Paging.pageThen_contiguous emptied

/-- A profile with one package, and the manifest of that package. -/
def singlePackage (manifest : List Nar.ManifestEntry) : Profiled.ProfileSchemeHandler where
  handles := AList.singleton 1 (.dir "default".toList [])
  profiles := AList.singleton "default".toList ⟨[⟨"pkg".toList, "/nix/store/pkg".toList⟩]⟩
  manifests := AList.singleton "/nix/store/pkg".toList manifest

/-- The root of a profile that has a name longer than `.control`. -/
theorem getdents_lossless_completions :
    Lossless syscallBuf.size [("bin".toList, .directory), ("completions".toList, .directory),
        Profiled.controlEntry]
      (Source.pages (.profiled (singlePackage
        [⟨"bin".toList, .dir, 0, false⟩, ⟨"completions".toList, .dir, 0, false⟩]) 1) syscallBuf) :=
  have listed : (Source.profiled (singlePackage [⟨"bin".toList, .dir, 0, false⟩,
      ⟨"completions".toList, .dir, 0, false⟩]) 1).directory = some (.ok _) := rfl
  getdents_lossless (fun _ _ => rfl) listed

end Getdents

end NixRedox
