import NixRedox.ConfigFiles
import NixRedox.KeyedMap
import NixRedox.SystemManifest

set_option autoImplicit false

/- Guest-local rebuilds (`rebuild.rs`): the configuration, its merge into the current
manifest, and the test for changes. -/
namespace NixRedox.Rebuild

open Activate (Files)
open KeyedMap (SameMap mapValues retain)
open NixRedox.System (FileInfo Package)

section Manifests

structure SystemInfo where
  redoxSystemVersion : String
  target : String
  profile : String
  hostname : String
  timezone : String
  deriving DecidableEq, Repr

structure BootConfig where
  diskSizeMb : UInt32
  espSizeMb : UInt32
  bootProof : Bool
  deriving DecidableEq, Repr

structure HardwareConfig where
  storageDrivers : List String
  networkDrivers : List String
  graphicsDrivers : List String
  audioDrivers : List String
  usbEnabled : Bool
  deriving DecidableEq, Repr

structure NetworkingConfig where
  enabled : Bool
  mode : String
  dns : List String
  deriving DecidableEq, Repr

structure SysGraphicsConfig where
  enabled : Bool
  resolution : String
  deriving DecidableEq, Repr

structure SysSecurityConfig where
  protectKernelSchemes : Bool
  requirePasswords : Bool
  allowRemoteRoot : Bool
  deriving DecidableEq, Repr

structure SysLoggingConfig where
  logLevel : String
  kernelLogLevel : String
  logToFile : Bool
  maxLogSizeMb : UInt32
  deriving DecidableEq, Repr

structure SysPowerConfig where
  acpiEnabled : Bool
  powerAction : String
  rebootOnPanic : Bool
  deriving DecidableEq, Repr

structure Configuration where
  boot : BootConfig
  hardware : HardwareConfig
  networking : NetworkingConfig
  graphics : SysGraphicsConfig
  security : SysSecurityConfig
  logging : SysLoggingConfig
  power : SysPowerConfig
  deriving DecidableEq, Repr

structure Drivers where
  all : List String
  initfs : List String
  core : List String
  deriving DecidableEq, Repr

structure User where
  uid : UInt32
  gid : UInt32
  home : String
  shell : String
  deriving DecidableEq, Repr

structure Group where
  gid : UInt32
  members : List String
  deriving DecidableEq, Repr

/-- The environment of a service is listed in the order of its names. -/
structure ServiceInfo where
  description : String
  command : String
  svcType : String
  args : String
  wantedBy : String
  environment : List (String × String)
  after : List String
  deriving DecidableEq, Repr

structure Services where
  declared : AList fun _ : String => ServiceInfo
  initScripts : List String
  startupScript : String

structure ActivationScript where
  name : String
  deps : List String
  deriving DecidableEq, Repr

/-- The whole of a manifest. -/
structure Manifest extends System.Manifest where
  manifestVersion : UInt32
  system : SystemInfo
  configuration : Configuration
  drivers : Drivers
  users : AList fun _ : String => User
  groups : AList fun _ : String => Group
  services : Services
  activationScripts : List ActivationScript
  systemProfile : String

end Manifests

section Configs

structure NetworkConfig where
  enable : Option Bool
  mode : Option String
  dns : Option (List String)
  deriving DecidableEq, Repr

structure GraphicsConfigInput where
  enable : Option Bool
  resolution : Option String
  deriving DecidableEq, Repr

structure SecurityConfig where
  protectKernelSchemes : Option Bool
  requirePasswords : Option Bool
  allowRemoteRoot : Option Bool
  deriving DecidableEq, Repr

structure LoggingConfig where
  level : Option String
  kernelLevel : Option String
  logToFile : Option Bool
  deriving DecidableEq, Repr

structure PowerConfig where
  acpiEnabled : Option Bool
  powerAction : Option String
  rebootOnPanic : Option Bool
  deriving DecidableEq, Repr

structure ProgramsConfig where
  editor : Option String
  deriving DecidableEq, Repr

structure ManagedFileInput where
  text : String
  mode : Option String
  deriving DecidableEq, Repr

structure HardwareConfigInput where
  storageDrivers : Option (List String)
  networkDrivers : Option (List String)
  graphicsDrivers : Option (List String)
  audioDrivers : Option (List String)
  usbEnabled : Option Bool
  deriving DecidableEq, Repr

/-- Only what is present overrides the current manifest. The users of a configuration
have the fields of those of a manifest. -/
structure RebuildConfig where
  hostname : Option String
  timezone : Option String
  packages : Option (List String)
  networking : Option NetworkConfig
  graphics : Option GraphicsConfigInput
  security : Option SecurityConfig
  logging : Option LoggingConfig
  power : Option PowerConfig
  users : Option (AList fun _ : String => User)
  programs : Option ProgramsConfig
  files : Option (AList fun _ : String => ManagedFileInput)
  hardware : Option HardwareConfigInput
  services : Option (List String)
  packageSources : Option String
  systemSource : Option String

end Configs

section ManagedFiles

/-- The names of a root-relative path, joined again. -/
def validateManagedFilePath (path : String) : Except String String :=
  (Activate.validateManagedRelativePath path).map fun names =>
    String.ofList (List.intercalate ['/'] names)

/-- `{:04o}`. -/
def octal (value : Nat) : String :=
  let digits := Nat.toDigits 8 value
  String.ofList (List.replicate (4 - digits.length) '0' ++ digits)

/-- The mode as `parse_mode_string` of `activate.rs` reads it, in four digits. -/
def normalizeManagedFileMode (mode : String) : Except String String :=
  (Activate.parseModeString mode).map octal

/-- The entries of a `BTreeMap` in order. -/
def sortedEntries {β : Type} (map : AList fun _ : String => β) : List (String × β) :=
  (map.entries.map fun entry => (entry.1, entry.2)).insertionSort (·.1 ≤ ·.1)

/-- Insert declared files under their normalised paths, up to the first that is refused. -/
def insertFiles {β : Type} (value : ManagedFileInput → String → β) :
    List (String × ManagedFileInput) → (AList fun _ : String => β) →
      Except String (AList fun _ : String => β)
  | [], files => .ok files
  | (path, file) :: rest, files =>
      match validateManagedFilePath path with
      | .error reason => .error reason
      | .ok normalizedPath =>
          match normalizeManagedFileMode (file.mode.getD "0644") with
          | .error reason => .error reason
          | .ok normalizedMode =>
              insertFiles value rest (files.insert normalizedPath (value file normalizedMode))

def validateManagedFiles (config : RebuildConfig) : Except String RebuildConfig :=
  match config.files with
  | none => .ok config
  | some files =>
      (insertFiles (fun file mode => { file with mode := some mode }) (sortedEntries files) ∅).map
        fun files => { config with files := some files }

/-- `parse_config_json` accepts the configuration. -/
def Accepted (config : RebuildConfig) : Prop := ∃ raw, validateManagedFiles raw = .ok config

/-- The entry of a managed file in a manifest. -/
def managedInfo (blake3 : ByteArray → String) (file : ManagedFileInput) (mode : String) :
    FileInfo where
  blake3 := blake3 file.text.toUTF8
  size := file.text.utf8ByteSize
  mode := mode
  text := some file.text

/-- The prior inline files give way to the declared ones. -/
def mergeFiles (blake3 : ByteArray → String) (current : Files) :
    Option (AList fun _ : String => ManagedFileInput) → Except String Files
  | none => .ok current
  | some files =>
      insertFiles (managedInfo blake3) (sortedEntries files)
        (retain (fun _ info => info.text.isNone) current)

end ManagedFiles

section Merge

def bootEssential : List String :=
  ["ion", "ion-shell", "base", "redox-base", "init", "logd", "ramfs", "zerod", "nulld", "randd",
    "snix", "snix-redox", "uutils"]

def isBootEssential (name : String) : Bool := name ∈ bootEssential

/-- The packages whose name has not been seen yet. -/
def dedupByName : List String → List Package → List Package
  | _, [] => []
  | seen, package :: rest =>
      if package.name ∈ seen then dedupByName seen rest
      else package :: dedupByName (package.name :: seen) rest

/-- The boot-essential packages of the current list, then the resolved ones. -/
def mergePackages (current resolved : List Package) : List Package :=
  dedupByName [] (current.filter (fun package => isBootEssential package.name) ++ resolved)

/-- One group for each user, with the user as its member. -/
def userGroups (users : AList fun _ : String => User) : AList fun _ : String => Group :=
  mapValues (fun name user => { gid := user.gid, members := [name] }) users

def mergeNetworking (config : Option NetworkConfig) (current : NetworkingConfig) :
    NetworkingConfig :=
  match config with
  | none => current
  | some net =>
      { enabled := net.enable.getD current.enabled
        mode := net.mode.getD current.mode
        dns := net.dns.getD current.dns }

def mergeGraphics (config : Option GraphicsConfigInput) (current : SysGraphicsConfig) :
    SysGraphicsConfig :=
  match config with
  | none => current
  | some gfx =>
      { enabled := gfx.enable.getD current.enabled
        resolution := gfx.resolution.getD current.resolution }

def mergeSecurity (config : Option SecurityConfig) (current : SysSecurityConfig) :
    SysSecurityConfig :=
  match config with
  | none => current
  | some sec =>
      { protectKernelSchemes := sec.protectKernelSchemes.getD current.protectKernelSchemes
        requirePasswords := sec.requirePasswords.getD current.requirePasswords
        allowRemoteRoot := sec.allowRemoteRoot.getD current.allowRemoteRoot }

def mergeLogging (config : Option LoggingConfig) (current : SysLoggingConfig) :
    SysLoggingConfig :=
  match config with
  | none => current
  | some log =>
      { current with
        logLevel := log.level.getD current.logLevel
        kernelLogLevel := log.kernelLevel.getD current.kernelLogLevel
        logToFile := log.logToFile.getD current.logToFile }

def mergePower (config : Option PowerConfig) (current : SysPowerConfig) : SysPowerConfig :=
  match config with
  | none => current
  | some pwr =>
      { acpiEnabled := pwr.acpiEnabled.getD current.acpiEnabled
        powerAction := pwr.powerAction.getD current.powerAction
        rebootOnPanic := pwr.rebootOnPanic.getD current.rebootOnPanic }

/-- `merge_config`. -/
def mergeConfig (blake3 : ByteArray → String) (current : Manifest) (config : RebuildConfig)
    (resolvedPackages : List Package) : Except String Manifest :=
  match mergeFiles blake3 current.files config.files with
  | .error reason => .error reason
  | .ok files =>
      .ok { current with
        system :=
          { current.system with
            hostname := config.hostname.getD current.system.hostname
            timezone := config.timezone.getD current.system.timezone }
        configuration :=
          { current.configuration with
            networking := mergeNetworking config.networking current.configuration.networking
            graphics := mergeGraphics config.graphics current.configuration.graphics
            security := mergeSecurity config.security current.configuration.security
            logging := mergeLogging config.logging current.configuration.logging
            power := mergePower config.power current.configuration.power }
        users := config.users.getD current.users
        groups := (config.users.map userGroups).getD current.groups
        files
        packages :=
          if config.packages.isSome ∧ resolvedPackages ≠ [] then
            mergePackages current.packages resolvedPackages
          else
            current.packages }

/-- What the packages of two manifests are compared by. -/
def packageKeys (packages : List Package) : List (String × String) :=
  packages.map fun package => (package.name, package.storePath)

/-- Equality of `Services`. -/
def SameServices (one two : Services) : Prop :=
  SameMap one.declared two.declared ∧ one.initScripts = two.initScripts ∧
    one.startupScript = two.startupScript

instance (one two : Services) : Decidable (SameServices one two) :=
  inferInstanceAs (Decidable (_ ∧ _ ∧ _))

/-- `has_manifest_changes`. -/
def hasManifestChanges (current merged : Manifest) : Bool :=
  current.system.hostname ≠ merged.system.hostname ∨
  current.system.timezone ≠ merged.system.timezone ∨
  current.configuration.networking ≠ merged.configuration.networking ∨
  current.configuration.security ≠ merged.configuration.security ∨
  current.configuration.logging ≠ merged.configuration.logging ∨
  current.configuration.power ≠ merged.configuration.power ∨
  current.configuration.hardware ≠ merged.configuration.hardware ∨
  packageKeys current.packages ≠ packageKeys merged.packages ∨
  ¬ SameMap current.users merged.users ∨
  ¬ SameServices current.services merged.services ∨
  ¬ SameMap current.files merged.files ∨
  current.boot ≠ merged.boot ∨
  current.drivers ≠ merged.drivers

end Merge

end NixRedox.Rebuild
