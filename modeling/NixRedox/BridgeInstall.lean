import NixRedox.EagerVerified
import NixRedox.SystemFreshIds
import NixRedox.SystemGcRoots

set_option autoImplicit false

/- From the host's answer to the running system: `install_bridge_packages` of `bridge.rs` and
the switch after it. -/
namespace NixRedox.BridgeInstall

open Cache (BinaryCache)
open EagerFetch
open NixRedox.System (Env State Manifest Outcome)
open Stored (ArchiveReader)

variable {hash : StorePathHash} {Profile : Type}

section Install

variable (reader : ArchiveReader) (cache : BinaryCache) (transfers : Nat → Transfer)

/-- The packages with a store path, as a warning calls them. -/
def packageItems (manifest : Manifest) : List (String × String) :=
  manifest.packages.filterMap fun package =>
    if package.storePath = "" then none else some (package.name, package.storePath)

/-- The store directories of the boot components. -/
def bootItems (manifest : Manifest) : List (String × String) :=
  match manifest.boot with
  | none => []
  | some boot => [("kernel", boot.kernel), ("initfs", boot.initfs),
      ("bootloader", boot.bootloader)].filterMap fun component =>
        component.2.map fun filePath => ("boot " ++ component.1, System.extractStoreDir filePath)

structure Progress (hash : StorePathHash) where
  disk : Disk hash
  installed : Nat
  warnings : List String

/-- Paths that are not in the store are fetched from the shared cache. The transfer of an item
is told by the number of items after it. -/
def installEach : List (String × String) → Progress hash → Progress hash
  | [], state => state
  | (name, path) :: rest, state =>
      if state.disk.pathExists (transfers rest.length) path then
        installEach rest state
      else
        match fetchLocal reader cache (transfers rest.length) state.disk path with
        | (disk, .ok ()) => installEach rest { state with disk, installed := state.installed + 1 }
        | (disk, .error reason) => installEach rest
            { state with
              disk
              warnings := state.warnings ++
                ["  warning: could not install " ++ name ++ ": " ++ reason] }

def items (manifest : Manifest) : List (String × String) :=
  packageItems manifest ++ bootItems manifest

def installBridgePackages (manifest : Manifest) (disk : Disk hash) : Progress hash :=
  installEach reader cache transfers (items manifest) ⟨disk, 0, []⟩

end Install

section Rebuild

/-- The guest as far as a rebuild changes it. -/
structure Guest (hash : StorePathHash) (Profile : Type) where
  disk : Disk hash
  system : State
  profile : Profile

/-- What the machine does during a rebuild: the transfers, whether the temporary manifest can be
written, what activation makes of the profile, and whether the configuration is preserved. -/
structure World (Profile : Type) where
  transfers : Nat → Transfer
  /-- A file written through a symlink takes nothing out of the store. -/
  adds : ∀ count trees path, (trees path []).isSome →
    ((transfers count).through trees path []).isSome
  pid : Nat
  tmpFile : Except String Unit
  env : Env
  swapProfile : Manifest → Profile → Profile
  preserved : Except String Unit

/-- `rebuild_via_bridge` from a success response with a manifest on. -/
def rebuildViaBridge (reader : ArchiveReader) (cache : BinaryCache) (world : World Profile)
    (manifest : Manifest) (guest : Guest hash Profile) : Guest hash Profile × Except String Unit :=
  let disk := (installBridgePackages reader cache world.transfers manifest guest.disk).disk
  match world.tmpFile with
  | .error reason => ({ guest with disk }, .error reason)
  | .ok () =>
      let outcome := System.switch world.env
        ("/tmp/snix-bridge-" ++ toString world.pid ++ ".json") (.readable manifest)
        (some "rebuild via bridge") false guest.system
      let profile := match outcome.created with
        | none => guest.profile
        | some _ => world.swapProfile manifest guest.profile
      match outcome.result with
      | .error reason => (⟨disk, outcome.state, profile⟩, .error reason)
      | .ok () => (⟨disk, outcome.state, profile⟩, world.preserved)

end Rebuild

section Complete

variable (reader : ArchiveReader) (cache : BinaryCache) (transfers : Nat → Transfer)

/-- Every store path that a manifest refers to. -/
def requiredPaths (manifest : Manifest) : List String :=
  (items manifest).map Prod.snd ++ manifest.etcSource.toList

/-- The disk after the first of some items. -/
def afterFirst (transfer : Transfer) (disk : Disk hash) (path : String) : Disk hash :=
  if disk.pathExists transfer path then disk else (fetchLocal reader cache transfer disk path).1

/-- A path is not in the store when its turn comes, and fetching it fails. -/
def Fails : List (String × String) → Disk hash → String → Prop
  | [], _, _ => False
  | (_, path) :: rest, disk, wanted =>
      (path = wanted ∧ disk.pathExists (transfers rest.length) path = false ∧
        ∃ reason, (fetchLocal reader cache (transfers rest.length) disk path).2 = .error reason) ∨
      Fails rest (afterFirst reader cache (transfers rest.length) disk path) wanted

/-- A required path whose fetch fails, or that nothing has brought into the store. -/
def CannotInstall (world : World Profile) (manifest : Manifest) (disk : Disk hash) (path : String) :
    Prop :=
  path ∈ requiredPaths manifest ∧
    (Fails reader cache world.transfers (items manifest) disk path ∨
      (installBridgePackages reader cache world.transfers manifest disk).disk.tree path [] = none)

/-- What a rebuild owes to the guest. -/
structure Complete (world : World Profile) (manifest : Manifest) (guest : Guest hash Profile) :
    Prop where
  installed : (rebuildViaBridge reader cache world manifest guest).2 = .ok () →
    ∀ path ∈ requiredPaths manifest,
      ((rebuildViaBridge reader cache world manifest guest).1.disk.tree path []).isSome
  refused : ∀ path, CannotInstall reader cache world manifest guest.disk path →
    (∃ reason, (rebuildViaBridge reader cache world manifest guest).2 = .error reason) ∧
    (rebuildViaBridge reader cache world manifest guest).1.system.manifest =
      guest.system.manifest ∧
    (rebuildViaBridge reader cache world manifest guest).1.system.generations =
      guest.system.generations ∧
    (rebuildViaBridge reader cache world manifest guest).1.profile = guest.profile

variable {reader : ArchiveReader} {cache : BinaryCache} {world : World Profile}
  {manifest : Manifest} {guest : Guest hash Profile}

end Complete

section Greeting

open NixRedox.System (emptyGeneration quietEnv)

def etcTree : String := "/nix/store/0c5b8vw40dy178xlpddw65q9gf1h2186-etc"

end Greeting

end NixRedox.BridgeInstall
