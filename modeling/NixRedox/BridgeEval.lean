import NixRedox.AttrSets
import NixRedox.Rebuild

set_option autoImplicit false

/- A configuration sent over the bridge, and the options the host builds from it. -/
namespace NixRedox.BridgeEval

open AttrSets
open KeyedMap (SameMap)
open NixRedox.Rebuild (RebuildConfig NetworkConfig GraphicsConfigInput SecurityConfig LoggingConfig
  PowerConfig ProgramsConfig HardwareConfigInput ManagedFileInput User Manifest sortedEntries)

section Route

inductive AutoRebuildRoute where
  | native
  | bridge
  | local
  deriving DecidableEq, Repr

/-- An empty list of packages is no change. -/
def hasPackageChanges (config : RebuildConfig) : Bool :=
  match config.packages with
  | some packages => !packages.isEmpty
  | none => false

def hasBootAffectingChanges (config : RebuildConfig) (currentManifest : Option Manifest) : Bool :=
  let hwChanged := match config.hardware with
    | some hw => hw.storageDrivers.isSome || hw.networkDrivers.isSome || hw.graphicsDrivers.isSome
        || hw.audioDrivers.isSome || hw.usbEnabled.isSome
    | none => false
  let servicesChanged := match config.services with
    | some names => match currentManifest with
        | some manifest => manifest.services.declared.keys.insertionSort (· ≤ ·) !=
            names.insertionSort (· ≤ ·)
        | none => true
    | none => false
  hwChanged || servicesChanged

def needsBridgeText : String :=
  "boot-affecting changes require a native system source or the build bridge\n\n" ++
    "Set systemSource to a native system build expression, for example:\n\n" ++
    "systemSource = \"/usr/src/nix-redox/build.nix\";\n\n" ++
    "Or start the shared VM and host build bridge."

def selectAutoRebuildRoute (config : RebuildConfig) (currentManifest : Option Manifest)
    (bridgeIsAvailable : Bool) : Except String AutoRebuildRoute :=
  if config.systemSource.isSome then .ok .native
  else if hasBootAffectingChanges config currentManifest then
    if bridgeIsAvailable then .ok .bridge else .error needsBridgeText
  else if hasPackageChanges config && bridgeIsAvailable then .ok .bridge
  else .ok .local

end Route

section Serialised

variable {α : Type}

/-- An unset field is written as null. -/
def optional (value : α → Value) : Option α → Value
  | none => .null
  | some field => value field

def networkingJson (net : NetworkConfig) : List (String × Value) :=
  [("dns", optional strings net.dns), ("enable", optional .bool net.enable),
    ("mode", optional .string net.mode)]

def graphicsJson (gfx : GraphicsConfigInput) : List (String × Value) :=
  [("enable", optional .bool gfx.enable), ("resolution", optional .string gfx.resolution)]

def securityJson (sec : SecurityConfig) : List (String × Value) :=
  [("allowRemoteRoot", optional .bool sec.allowRemoteRoot),
    ("protectKernelSchemes", optional .bool sec.protectKernelSchemes),
    ("requirePasswords", optional .bool sec.requirePasswords)]

def loggingJson (log : LoggingConfig) : List (String × Value) :=
  [("kernelLevel", optional .string log.kernelLevel), ("level", optional .string log.level),
    ("logToFile", optional .bool log.logToFile)]

def powerJson (pwr : PowerConfig) : List (String × Value) :=
  [("acpiEnabled", optional .bool pwr.acpiEnabled),
    ("powerAction", optional .string pwr.powerAction),
    ("rebootOnPanic", optional .bool pwr.rebootOnPanic)]

def programsJson (prg : ProgramsConfig) : List (String × Value) :=
  [("editor", optional .string prg.editor)]

def hardwareJson (hw : HardwareConfigInput) : List (String × Value) :=
  [("audioDrivers", optional strings hw.audioDrivers),
    ("graphicsDrivers", optional strings hw.graphicsDrivers),
    ("networkDrivers", optional strings hw.networkDrivers),
    ("storageDrivers", optional strings hw.storageDrivers),
    ("usbEnabled", optional .bool hw.usbEnabled)]

def userJson (user : User) : Value :=
  .attrs [("gid", .int user.gid.toNat), ("home", .string user.home), ("shell", .string user.shell),
    ("uid", .int user.uid.toNat)]

def usersJson (users : AList fun _ : String => User) : Value :=
  .attrs ((sortedEntries users).map fun entry => (entry.1, userJson entry.2))

def fileJson (file : ManagedFileInput) : Value :=
  .attrs [("mode", optional .string file.mode), ("text", .string file.text)]

def filesJson (files : AList fun _ : String => ManagedFileInput) : Value :=
  .attrs ((sortedEntries files).map fun entry => (entry.1, fileJson entry.2))

/-- `serde_json::to_value(&config)`, as `builtins.fromJSON` reads it. -/
def configJson (config : RebuildConfig) : Attrs := ofEntries
  [("hostname", optional .string config.hostname),
    ("timezone", optional .string config.timezone),
    ("packages", optional strings config.packages),
    ("networking", optional (fun net => .attrs (networkingJson net)) config.networking),
    ("graphics", optional (fun gfx => .attrs (graphicsJson gfx)) config.graphics),
    ("security", optional (fun sec => .attrs (securityJson sec)) config.security),
    ("logging", optional (fun log => .attrs (loggingJson log)) config.logging),
    ("power", optional (fun pwr => .attrs (powerJson pwr)) config.power),
    ("users", optional usersJson config.users),
    ("programs", optional (fun prg => .attrs (programsJson prg)) config.programs),
    ("files", optional filesJson config.files),
    ("hardware", optional (fun hw => .attrs (hardwareJson hw)) config.hardware),
    ("services", optional strings config.services),
    ("packageSources", optional .string config.packageSources),
    ("systemSource", optional .string config.systemSource)]

end Serialised

section Overrides

/-- The field where `hasNonNull` holds of it. -/
def nonNull (config : Attrs) (field : String) : Option Value :=
  (config.lookup field).filter (· ≠ .null)

/-- `builtins.attrNames`, comma separated. -/
def available (systemPkgs : Attrs) : String :=
  ", ".intercalate ((sortedEntries systemPkgs).map Prod.fst)

def resolvePackage (systemPkgs : Attrs) : Value → Except String Value
  | .string name => match systemPkgs.lookup name with
      | some package => .ok package
      | none => .error s!"unknown package: {name} (available: {available systemPkgs})"
  | _ => .error "expected a string"

/-- The packages of the profile, then those of the requested that are not among them. -/
def combinedPkgs (existingPkgs requestedPkgs : List Value) : List Value :=
  existingPkgs ++ requestedPkgs.filter fun requested => !existingPkgs.any (· == requested)

def envOverride (systemPkgs : Attrs) (profileOptions : Options) (config : Attrs) :
    Except String Options :=
  match nonNull config "packages" with
  | some (.list names) => do
      let requestedPkgs ← names.mapM (resolvePackage systemPkgs)
      let existingEnv := existing profileOptions "/environment"
      match (existingEnv.lookup "systemPackages").getD (.list []) with
      | .list existingPkgs => .ok (ofEntries [("/environment", update existingEnv
          (ofEntries [("systemPackages", .list (combinedPkgs existingPkgs requestedPkgs))]))])
      | _ => .error "expected a list"
  | _ => .ok ∅

/-- `if hasNonNull field then { field = config.field; } else { }`. -/
def present (config : Attrs) (field : String) : Attrs :=
  match nonNull config field with
  | some value => ofEntries [(field, value)]
  | none => ∅

def timeOverride (profileOptions : Options) (config : Attrs) : Options :=
  let existingTime := existing profileOptions "/time"
  let timeFields := update (update existingTime (present config "hostname"))
    (present config "timezone")
  if SameMap timeFields existingTime then ∅ else ofEntries [("/time", timeFields)]

/-- `existing // config.field`. -/
def groupOverride (path field : String) (profileOptions : Options) (config : Attrs) :
    Except String Options :=
  match nonNull config field with
  | some (.attrs entries) =>
      .ok (ofEntries [(path, update (existing profileOptions path) (ofEntries entries))])
  | some _ => .error "expected a set"
  | none => .ok ∅

def netOverride := groupOverride "/networking" "networking"

def gfxOverride := groupOverride "/graphics" "graphics"

def secOverride := groupOverride "/security" "security"

def logOverride := groupOverride "/logging" "logging"

def pwrOverride := groupOverride "/power" "power"

def prgOverride := groupOverride "/programs" "programs"

def usrOverride (profileOptions : Options) (config : Attrs) : Options :=
  match nonNull config "users" with
  | some users => ofEntries
      [("/users", update (existing profileOptions "/users") (ofEntries [("users", users)]))]
  | none => ∅

def overrides (systemPkgs : Attrs) (profileOptions : Options) (config : Attrs) :
    Except String Options := do
  let env ← envOverride systemPkgs profileOptions config
  let net ← netOverride profileOptions config
  let gfx ← gfxOverride profileOptions config
  let sec ← secOverride profileOptions config
  let log ← logOverride profileOptions config
  let pwr ← pwrOverride profileOptions config
  let prg ← prgOverride profileOptions config
  .ok (update (update (update (update (update (update (update (update env
    (timeOverride profileOptions config)) net) gfx) sec) log) pwr)
    (usrOverride profileOptions config)) prg)

end Overrides

end NixRedox.BridgeEval
