import NixRedox.Attempts
import NixRedox.DeclaredServices

set_option autoImplicit false

/- The options an image is configured with, as far as its manifest and the build assertions
read them (`modules/*.nix`, `build/config.nix`, `build/assertions.nix`). -/
namespace NixRedox.Image

open InitScripts (ServiceSet allDeclaredServices)

section Options

/-- The value of an enumeration option. -/
abbrev OneOf (elems : List String) := { text : String // text ∈ elems }

/-- A derivation, which is what its output path is. -/
structure Pkg where
  name : String
  pname : Option String
  version : Option String
  outPath : String

abbrev Pkgs := AList fun _ : String => Pkg

structure SystemOptions where
  name : String
  version : String
  target : String

structure TimeOptions where
  hostname : String
  timezone : String
  ntpEnable : Bool

/-- The kernel and the bootloader are attribute sets, which are coerced to a store path if
they have one. -/
structure BootOptions where
  kernel : Option String
  bootloader : Option String
  bootProof : Bool
  initfsExtraDrivers : List String
  initfsEnableGraphics : Bool
  diskSizeMB : Int64
  espSizeMB : Int64
  essentialPackages : List Pkg
  kernelSyscallDebug : Bool
  kernelSyscallDebugProcesses : List String
  liveMode : Bool
  initDebug : Bool

def storageDrivers : List String := ["ahcid", "nvmed", "ided", "virtio-blkd", "virtio-fsd"]

def networkDrivers : List String := ["e1000d", "igcd", "virtio-netd", "rtl8168d"]

def graphicsDrivers : List String := ["virtio-gpud"]

def audioDrivers : List String := ["ihdad", "ac97d", "sb16d"]

structure HardwareOptions where
  storageDrivers : List (OneOf storageDrivers)
  networkDrivers : List (OneOf networkDrivers)
  graphicsDrivers : List (OneOf graphicsDrivers)
  audioEnable : Bool
  audioDrivers : List (OneOf audioDrivers)
  usbEnable : Bool

def networkModes : List String := ["auto", "dhcp", "static", "none"]

/-- The interfaces are only counted. -/
structure NetworkingOptions where
  enable : Bool
  mode : OneOf networkModes
  dns : List String
  interfaces : List String
  services : ServiceSet

structure GraphicsOptions where
  enable : Bool
  resolution : String
  services : ServiceSet

structure SecurityOptions where
  protectKernelSchemes : Bool
  requirePasswords : Bool
  allowRemoteRoot : Bool

def logLevels : List String := ["debug", "info", "warn", "error", "off"]

structure LoggingOptions where
  level : OneOf logLevels
  kernelLogLevel : OneOf logLevels
  logToFile : Bool
  maxLogSizeMB : Int64

def powerActions : List String := ["shutdown", "reboot", "suspend", "none"]

structure PowerOptions where
  acpiEnable : Bool
  powerAction : OneOf powerActions
  idleTimeoutMinutes : Int64
  rebootOnPanic : Bool

structure UserOptions where
  uid : Int64
  gid : Int64
  home : String
  shell : String
  password : String

structure GroupOptions where
  gid : Int64
  members : List String

def gettyEnables : List String := ["auto", "true", "false"]

structure ServicesOptions where
  generatedServices : ServiceSet
  services : ServiceSet
  sshEnable : Bool
  httpdEnable : Bool
  gettyEnable : OneOf gettyEnables
  exampledEnable : Bool

/-- The scripts by name, each with what it depends on. -/
abbrev ActivationScripts := AList fun _ : String => List String

/-- The options of all modules, and the packages there are. -/
structure Inputs where
  pkgs : Pkgs
  system : SystemOptions
  time : TimeOptions
  boot : BootOptions
  hardware : HardwareOptions
  networking : NetworkingOptions
  graphics : GraphicsOptions
  security : SecurityOptions
  logging : LoggingOptions
  power : PowerOptions
  systemPackages : List Pkg
  users : AList fun _ : String => UserOptions
  groups : AList fun _ : String => GroupOptions
  services : ServicesOptions
  audioEnable : Bool
  audioServices : ServiceSet
  storedEnable : Bool
  snixServices : ServiceSet
  irohEnable : Bool
  irohServices : ServiceSet
  activationScripts : ActivationScripts

end Options

section Config

variable (inputs : Inputs)

/-- `lib.unique`: the first of each. -/
def unique {α : Type} (same : α → α → Bool) (values : List α) : List α :=
  values.foldl (fun kept value => if kept.any (same value) then kept else kept ++ [value]) []

def optional {α : Type} (condition : Bool) (value : α) : List α := if condition then [value] else []

def optionals {α : Type} (condition : Bool) (values : List α) : List α :=
  if condition then values else []

def declaredServices : ServiceSet := allDeclaredServices {
  generatedServices := inputs.services.generatedServices
  networking := inputs.networking.services
  graphics := inputs.graphics.services
  audio := inputs.audioServices
  snix := inputs.snixServices
  iroh := inputs.irohServices
  services := inputs.services.services }

def usbEnabled : Bool := inputs.hardware.usbEnable || inputs.graphics.enable

def audioEnabled : Bool := inputs.hardware.audioEnable

def initfsEnableGraphics : Bool := inputs.boot.initfsEnableGraphics || inputs.graphics.enable

def texts {elems : List String} (values : List (OneOf elems)) : List String := values.map (·.1)

def allDrivers : List String :=
  unique (· == ·) (
    (if inputs.boot.liveMode then [] else texts inputs.hardware.storageDrivers) ++
    texts inputs.hardware.networkDrivers ++
    optionals inputs.graphics.enable (texts inputs.hardware.graphicsDrivers) ++
    optionals (audioEnabled inputs) (texts inputs.hardware.audioDrivers) ++
    optional (usbEnabled inputs) "xhcid" ++
    inputs.boot.initfsExtraDrivers)

def coreDaemons : List String :=
  ["init", "getty", "logd", "ramfs", "randd", "zerod", "pcid", "pcid-spawner", "lived", "acpid",
    "hwd", "rtcd", "ptyd", "ipcd", "udsd"] ++
  optional (initfsEnableGraphics inputs) "ps2d" ++
  optional inputs.networking.enable "netstack"

def initfsDaemons : List String :=
  optionals (initfsEnableGraphics inputs) ["vesad", "inputd", "fbbootlogd", "fbcond"] ++
  optionals (usbEnabled inputs) ["xhcid", "usbhubd", "usbhidd", "inputd"]

/-- Two derivations with the same output path are the same package. -/
def samePackage (one two : Pkg) : Bool := one.outPath == two.outPath

def inSystemPackages (pkg : Pkg) : Bool := inputs.systemPackages.any (samePackage pkg)

/-- `lib.optional (pkgs ? name && condition pkgs.name) pkgs.name`. -/
def optionalPkg (name : String) (condition : Pkg → Bool) : List Pkg :=
  ((inputs.pkgs.lookup name).filter condition).toList

def bootPackages : List Pkg :=
  unique samePackage (
    optionalPkg inputs "base" (fun _ => true) ++
    optionalPkg inputs "ion" (fun _ => true) ++
    optionalPkg inputs "uutils" (fun _ => true) ++
    optionalPkg inputs "userutils" (inSystemPackages inputs) ++
    optionalPkg inputs "openssh" (fun pkg =>
      inputs.services.sshEnable && inSystemPackages inputs pkg) ++
    optionalPkg inputs "netutils" (fun _ => inputs.networking.enable) ++
    optionalPkg inputs "netcfg-setup" (fun _ => inputs.networking.enable) ++
    optionalPkg inputs "boot-log-sink" (fun _ => inputs.boot.initDebug) ++
    optionalPkg inputs "snix" (fun _ => true) ++
    optionalPkg inputs "irohd" (fun _ => inputs.irohEnable) ++
    optionals inputs.graphics.enable (
      optionalPkg inputs "orbital" (fun _ => true) ++
      optionalPkg inputs "orbdata" (fun _ => true) ++
      optionalPkg inputs "orbterm" (fun _ => true) ++
      optionalPkg inputs "orbutils" (fun _ => true)) ++
    inputs.boot.essentialPackages)

def isBootPkg (pkg : Pkg) : Bool := (bootPackages inputs).any (samePackage · pkg)

def managedPackages : List Pkg := inputs.systemPackages.filter fun pkg => !isBootPkg inputs pkg

/-- Boot-essential packages, then the managed ones. -/
def allPackages : List Pkg := unique samePackage (bootPackages inputs ++ managedPackages inputs)

def sshPackageInstalled : Bool := (inputs.pkgs.lookup "openssh").any (inSystemPackages inputs)

end Config

section Assertions

structure Assertion where
  assertion : Bool
  message : String

/-- `-` of two integers, which fails if it does not fit. -/
def sub (one two : Int64) : Except String Int :=
  let difference := one.toInt - two.toInt
  if -2 ^ 63 ≤ difference ∧ difference < 2 ^ 63 then
    .ok difference
  else
    .error ("integer overflow in subtracting " ++ toString one.toInt ++ " - " ++
      toString two.toInt)

variable (inputs : Inputs)

def hasPkg (name : String) : Bool := (inputs.pkgs.lookup name).isSome

/-- The users, whatever their names. -/
def allUsers (test : UserOptions → Bool) : Bool := inputs.users.entries.all fun entry => test entry.2

/-- The cross-module checks, told how much of the disk the ESP leaves. -/
def assertions (left : Int) : List Assertion := [
  { assertion := !inputs.graphics.enable || hasPkg inputs "orbital"
    message := "graphics.enable requires the 'orbital' package. " ++
      "Add it to pkgs or disable graphics." },
  { assertion := !(inputs.networking.enable && inputs.networking.mode.1 == "static") ||
      !inputs.networking.interfaces.isEmpty
    message := "networking.mode = 'static' requires at least one interface in " ++
      "networking.interfaces." },
  { assertion := !inputs.graphics.enable || inputs.hardware.graphicsDrivers.isEmpty ||
      inputs.hardware.graphicsDrivers.any fun driver => driver.1 == "virtio-gpud"
    message := "graphics.enable is set but graphicsDrivers contains unrecognized drivers. " ++
      "Use [] for vesad-only (bare metal) or include virtio-gpud for VMs." },
  { assertion := inputs.boot.diskSizeMB.toInt > inputs.boot.espSizeMB.toInt
    message := "boot.diskSizeMB (" ++ toString inputs.boot.diskSizeMB.toInt ++
      ") must be greater than boot.espSizeMB (" ++ toString inputs.boot.espSizeMB.toInt ++ ")." },
  { assertion := left ≥ 16
    message := "RedoxFS partition must be at least 16MB. " ++
      "Increase diskSizeMB or decrease espSizeMB." },
  { assertion := allUsers inputs fun user => user.uid.toInt ≥ 0
    message := "All user UIDs must be non-negative." },
  { assertion := !(inputs.time.ntpEnable && !inputs.networking.enable)
    message := "time.ntpEnable requires networking.enable = true." },
  { assertion := !inputs.security.requirePasswords ||
      allUsers inputs fun user => user.uid.toInt == 0 || user.password != ""
    message := "security.requirePasswords is set but some non-root users have empty passwords." },
  { assertion := inputs.logging.maxLogSizeMB.toInt > 0
    message := "logging.maxLogSizeMB must be positive." },
  { assertion := inputs.power.idleTimeoutMinutes.toInt > 0
    message := "power.idleTimeoutMinutes must be positive." },
  { assertion := hasPkg inputs "base"
    message := "pkgs.base is missing. " ++
      "Init daemons (init, logd, ipcd, ptyd) would be absent from /bin/." },
  { assertion := !inputs.services.sshEnable || sshPackageInstalled inputs
    message := "services.ssh.enable requires the 'openssh' package in " ++
      "environment.systemPackages." },
  { assertion := !inputs.services.sshEnable || inputs.networking.enable
    message := "services.ssh.enable requires networking.enable = true." },
  { assertion := !inputs.services.httpdEnable || inputs.networking.enable
    message := "services.httpd.enable requires networking.enable = true." },
  { assertion := inputs.services.gettyEnable.1 == "auto" ||
      inputs.services.gettyEnable.1 == "false" || hasPkg inputs "userutils"
    message := "services.getty.enable = 'true' requires the 'userutils' package in pkgs." },
  { assertion := !inputs.services.exampledEnable || hasPkg inputs "exampled"
    message := "services.exampled.enable requires the 'exampled' package in pkgs." },
  { assertion := !inputs.storedEnable || hasPkg inputs "stored"
    message := "snix.stored.enable requires the 'stored' package in pkgs." },
  -- a missing package is an evaluation error here, and the assertion before this one fails
  { assertion := !inputs.storedEnable ||
      (inputs.pkgs.lookup "stored").any (inSystemPackages inputs)
    message := "snix.stored.enable requires the 'stored' package in " ++
      "environment.systemPackages." },
  { assertion := !inputs.audioEnable || audioEnabled inputs
    message := "audio.enable requires hardware.audioEnable = true for audio drivers " ++
      "(ihdad, ac97d, sb16d)." },
  { assertion := inputs.boot.kernelSyscallDebugProcesses.isEmpty || inputs.boot.kernelSyscallDebug
    message := "boot.kernelSyscallDebugProcesses is set but " ++
      "boot.kernelSyscallDebug is not enabled." }]

/-- Every assertion is evaluated before those that fail are reported. -/
def assertionCheck : Except String Unit := do
  let left ← sub inputs.boot.diskSizeMB inputs.boot.espSizeMB
  let failedAssertions := (assertions inputs left).filter fun own => !own.assertion
  if failedAssertions.isEmpty then
    .ok ()
  else
    .error ("\nFailed assertions:\n" ++
      "\n".intercalate (failedAssertions.map fun own => "- " ++ own.message))

end Assertions

section Checked

variable {inputs : Inputs}

theorem assertionCheck_ok_iff :
    assertionCheck inputs = .ok () ↔
      ∃ left, sub inputs.boot.diskSizeMB inputs.boot.espSizeMB = .ok left ∧
        ∀ own ∈ assertions inputs left, own.assertion = true := by
  unfold assertionCheck
  rw [Attempts.bind_eq_ok]
  apply exists_congr
  intro left
  apply and_congr_right
  intro _
  rw [← List.all_eq_true]
  dsimp only
  split
  · rename_i none_
    rw [List.isEmpty_iff, List.filter_eq_nil_iff] at none_
    simpa using none_
  · rename_i some_
    rw [List.isEmpty_iff, List.filter_eq_nil_iff] at some_
    simpa using some_

theorem sub_eq_ok {one two : Int64} {left : Int} (fits : sub one two = .ok left) :
    left = one.toInt - two.toInt := by
  unfold sub at fits
  dsimp only at fits
  split at fits
  · cases fits
    rfl
  · cases fits

/-- What the assertions say about the numbers of the manifest. -/
structure Checked (inputs : Inputs) : Prop where
  left : 16 ≤ inputs.boot.diskSizeMB.toInt - inputs.boot.espSizeMB.toInt
  logs : 0 < inputs.logging.maxLogSizeMB.toInt
  uids : ∀ name user, inputs.users.lookup name = some user → 0 ≤ user.uid.toInt

theorem checked_of_assertionCheck (accepted : assertionCheck inputs = .ok ()) :
    Checked inputs := by
  obtain ⟨left, fits, all⟩ := assertionCheck_ok_iff.mp accepted
  have difference := sub_eq_ok fits
  simp only [assertions, List.forall_mem_cons] at all
  obtain ⟨_, _, _, _, enough, uids, _, _, logs, _⟩ := all
  rw [decide_eq_true_eq] at enough logs
  refine ⟨difference ▸ enough, logs, ?_⟩
  intro name user present
  have member := AList.mem_lookup_iff.mp (Option.mem_def.mpr present)
  have own := List.all_eq_true.mp uids _ member
  exact of_decide_eq_true own

end Checked

end NixRedox.Image
