import NixRedox.OptionTypes

set_option autoImplicit false

/- Primitive plans of the public substrate surface: what `normalizePrimitivePlan` accepts
and what it makes of it. -/
namespace NixRedox.Substrate

open AttrSets (Value)

section Values

/-- Attributes in the order of their names. -/
abbrev Entries := List (String × Value)

/-- The attributes of an attribute set. Of those of a derivation only some are here, of
which one is no string. -/
def attrsOf? : Value → Option Entries
  | .attrs entries => some entries
  | .derivation outPath => some [("outPath", .string outPath),
      ("outputs", .list [.string "out"]), ("type", .string "derivation")]
  | _ => none

/-- `value.name`. -/
def select (entries : Entries) (name : String) : Except String Value :=
  match entries.lookup name with
  | some value => .ok value
  | none => .error ("attribute '" ++ name ++ "' missing")

/-- `if value ? name then check value.name else absent`. -/
def selectWith {α : Type} (entries : Entries) (name : String) (check : Value → Except String α)
    (absent : α) : Except String α :=
  match entries.lookup name with
  | some value => check value
  | none => .ok absent

/-- `lib.optionalAttrs (value ? name) { name = check value.name; }`. -/
def selectOptional {α : Type} (entries : Entries) (name : String)
    (check : Value → Except String α) : Except String (Option α) :=
  match entries.lookup name with
  | some value => (check value).map some
  | none => .ok none

/-- `builtins.mapAttrs`. -/
def mapAttrs {α : Type} (make : String → Value → Except String α) (value : Value) :
    Except String (List (String × α)) :=
  match attrsOf? value with
  | some entries => entries.mapM fun entry => (make entry.1 entry.2).map (Prod.mk entry.1)
  | none => .error "value is not a set"

end Values

section Checks

def serviceDefaultType : String := "nowait"

def serviceDefaultTarget : String := "rootfs"

def serviceDefaultPriority : Int := 50

def serviceDefaultEnable : Bool := true

def fileDefaultMode : String := "0644"

def minPrefixLength : Int := 0

def maxPrefixLength : Int := 128

def singleAddressPerInterfaceLimit : Nat := 1

def supportedServiceTypes : List String := ["oneshot", "daemon", "nowait", "scheme"]

def supportedTargets : List String := ["initfs", "rootfs"]

def supportedNetworkModes : List String := ["auto", "dhcp", "static", "none"]

def primitiveFamilyNames : List String :=
  ["services", "users", "networking", "filesystem", "status", "image"]

def runnerFamilies : List String := ["qemu", "cloud-hypervisor"]

def reservedGeneratedFilePaths : List String :=
  ["etc/hostname", "etc/passwd", "etc/group", "etc/shadow", "etc/profile", "etc/init.toml",
    "etc/redox-system/manifest.json", "startup.sh"]

def fail {α : Type} (field message : String) : Except String α :=
  .error ("redox substrate " ++ field ++ ": " ++ message)

abbrev NonEmptyString := { text : String // text ≠ "" }

abbrev OneOf (allowedValues : List String) := { text : String // text ∈ allowedValues }

abbrev PrefixLength :=
  { length : Int // minPrefixLength ≤ length ∧ length ≤ maxPrefixLength }

def ensureAttrs (field : String) (value : Value) : Except String Entries :=
  match attrsOf? value with
  | some entries => .ok entries
  | none => fail field "expected an attribute set"

def ensureString (field : String) : Value → Except String String
  | .string text => .ok text
  | _ => fail field "expected a string"

def ensureNonEmptyString (field : String) (value : Value) : Except String NonEmptyString := do
  let checked ← ensureString field value
  if nonEmpty : checked ≠ "" then
    .ok ⟨checked, nonEmpty⟩
  else
    fail field "expected a non-empty string"

def ensureBool (field : String) : Value → Except String Bool
  | .bool value => .ok value
  | _ => fail field "expected a boolean"

def ensureInt (field : String) : Value → Except String Int
  | .int value => .ok value
  | _ => fail field "expected an integer"

def ensureList (field message : String) : Value → Except String (List Value)
  | .list values => .ok values
  | _ => fail field message

def asString : Value → Option String
  | .string text => some text
  | _ => none

def ensureStringList (field : String) (value : Value) : Except String (List String) :=
  match value with
  | .list values =>
      match values.mapM asString with
      | some texts => .ok texts
      | none => fail field "expected a list of strings"
  | _ => fail field "expected a list of strings"

def ensureNoUnknownKeys (field : String) (allowedKeys : List String) (value : Value) :
    Except String Entries := do
  let checked ← ensureAttrs field value
  let unknownKeys := (checked.map Prod.fst).filter fun key => !allowedKeys.contains key
  if unknownKeys = [] then
    .ok checked
  else
    fail field ("unsupported field(s): " ++ String.intercalate ", " unknownKeys)

def ensureOneOf (field : String) (allowedValues : List String) (value : Value) :
    Except String (OneOf allowedValues) := do
  let checked ← ensureString field value
  if inside : checked ∈ allowedValues then
    .ok ⟨checked, inside⟩
  else
    fail field ("expected one of: " ++ String.intercalate ", " allowedValues)

def ensureStringValues (field : String) (value : Value) :
    Except String (List (String × String)) := do
  let checked ← ensureAttrs field value
  match checked.mapM fun entry => (asString entry.2).map (Prod.mk entry.1) with
  | some texts => .ok texts
  | none =>
      let badKeys := (checked.filter fun entry => (asString entry.2).isNone).map Prod.fst
      fail field ("expected string values for: " ++ String.intercalate ", " badKeys)

def splitPath (path : String) : List String := path.splitOn "/"

def normalizeAbsolutePath (field : String) (value : Value) : Except String String := do
  let checked ← ensureNonEmptyString field value
  if checked.val.toList.head? ≠ some '/' then
    fail field "expected an absolute path"
  else if (splitPath checked.val).contains ".." then
    fail field "must not contain parent-directory traversal"
  else
    .ok checked.val

def removeRoot (path : String) : String :=
  if path.toList.head? = some '/' then String.ofList path.toList.tail else path

def normalizeRelativePath (field : String) (value : Value) : Except String String := do
  let checked ← ensureNonEmptyString field value
  let withoutRoot := removeRoot checked.val
  if withoutRoot = "" then
    fail field "must not target the filesystem root"
  else if (splitPath withoutRoot).contains ".." then
    fail field "must not contain parent-directory traversal"
  else
    .ok withoutRoot

def ensurePrefixLength (field : String) (value : Value) : Except String PrefixLength := do
  let checked ← ensureInt field value
  if within : minPrefixLength ≤ checked ∧ checked ≤ maxPrefixLength then
    .ok ⟨checked, within⟩
  else
    fail field ("expected an integer between " ++ toString minPrefixLength ++ " and " ++
      toString maxPrefixLength)

end Checks

section Services

structure Service where
  description : String
  command : NonEmptyString
  type : OneOf supportedServiceTypes
  args : String
  argv : List String
  wantedBy : OneOf supportedTargets
  enable : Bool
  after : List String
  environment : List (String × String)
  priority : Int

def normalizeService (name : String) (rawService : Value) : Except String Service := do
  let field := "services." ++ name
  let service ← ensureNoUnknownKeys field ["description", "command", "argv", "args", "type",
    "wantedBy", "enable", "after", "environment", "priority"] rawService
  let serviceType ← ensureOneOf (field ++ ".type") supportedServiceTypes
    ((service.lookup "type").getD (.string serviceDefaultType))
  let argv ← selectWith service "argv" (ensureStringList (field ++ ".argv")) []
  let args ← selectWith service "args" (ensureString (field ++ ".args"))
    (if serviceType.val = "scheme" then argv.headD "" else "")
  let environment ←
    selectWith service "environment" (ensureStringValues (field ++ ".environment")) []
  let description ← ensureString (field ++ ".description")
    ((service.lookup "description").getD (.string name))
  let command ← ensureNonEmptyString (field ++ ".command") (← select service "command")
  let wantedBy ← ensureOneOf (field ++ ".wantedBy") supportedTargets
    ((service.lookup "wantedBy").getD (.string serviceDefaultTarget))
  let enable ← selectWith service "enable" (ensureBool (field ++ ".enable")) serviceDefaultEnable
  let after ← selectWith service "after" (ensureStringList (field ++ ".after")) []
  let priority ←
    selectWith service "priority" (ensureInt (field ++ ".priority")) serviceDefaultPriority
  return ⟨description, command, serviceType, args, argv, wantedBy, enable, after, environment,
    priority⟩

end Services

section Networking

structure Address where
  address : NonEmptyString
  prefixLength : Option PrefixLength
  gateway : Option NonEmptyString

/-- A prefix length of null is none. -/
def addressPrefixLength (field : String) (address : Entries) :
    Except String (Option PrefixLength) :=
  match (address.lookup "prefixLength").getD .null with
  | .null => .ok none
  | value => (ensurePrefixLength (field ++ ".prefixLength") value).map some

def normalizeAddress (field : String) (rawAddress : Value) : Except String Address :=
  match rawAddress with
  | .string _ => do
      let address ← ensureNonEmptyString (field ++ ".address") rawAddress
      return ⟨address, none, none⟩
  | _ => do
      let address ← ensureNoUnknownKeys field ["address", "prefixLength", "gateway"] rawAddress
      let text ← ensureNonEmptyString (field ++ ".address") (← select address "address")
      let prefixLength ← addressPrefixLength field address
      let gateway ← selectOptional address "gateway" (ensureNonEmptyString (field ++ ".gateway"))
      return ⟨text, prefixLength, gateway⟩

structure Interface where
  addresses : List Address
  netmask : Option NonEmptyString

/-- `{ inherit (value) name; }` when there is one. -/
def inheritOptional (entries : Entries) (name : String) : Entries :=
  match entries.lookup name with
  | some value => [(name, value)]
  | none => []

/-- The addresses of an interface; a list of them hides a single one beside it. -/
def interfaceAddresses (field : String) (iface : Entries) : Except String (List Address) :=
  match iface.lookup "addresses", iface.lookup "address" with
  | some given, _ => do
      let checkedAddresses ← ensureList field "addresses must be a list" given
      checkedAddresses.mapM (normalizeAddress (field ++ ".addresses"))
  | none, some address => do
      let one ← normalizeAddress field (.attrs ([("address", address)] ++
        inheritOptional iface "gateway" ++ inheritOptional iface "prefixLength"))
      return [one]
  | none, none => return []

def normalizeInterface (name : String) (rawInterface : Value) : Except String Interface := do
  let field := "networking.interfaces." ++ name
  let iface ← ensureNoUnknownKeys field ["address", "addresses", "prefixLength", "gateway",
    "netmask"] rawInterface
  let addresses ← interfaceAddresses field iface
  let netmask ← selectOptional iface "netmask" (ensureNonEmptyString (field ++ ".netmask"))
  return ⟨addresses, netmask⟩

structure Networking where
  enable : Bool
  mode : OneOf supportedNetworkModes
  dns : List String
  searchDomains : List String
  interfaces : List (String × Interface)
  hostname : Option NonEmptyString
  defaultRouter : Option NonEmptyString

def normalizeNetworking (rawNetworking : Value) : Except String Networking := do
  let networking ← ensureNoUnknownKeys "networking" ["enable", "mode", "dns", "searchDomains",
    "hostname", "defaultRouter", "interfaces"] rawNetworking
  let interfaces ← selectWith networking "interfaces" (mapAttrs normalizeInterface) []
  let enable ← selectWith networking "enable" (ensureBool "networking.enable") true
  let mode ← ensureOneOf "networking.mode" supportedNetworkModes
    ((networking.lookup "mode").getD (.string "auto"))
  let dns ← selectWith networking "dns" (ensureStringList "networking.dns") []
  let searchDomains ←
    selectWith networking "searchDomains" (ensureStringList "networking.searchDomains") []
  let hostname ←
    selectOptional networking "hostname" (ensureNonEmptyString "networking.hostname")
  let defaultRouter ←
    selectOptional networking "defaultRouter" (ensureNonEmptyString "networking.defaultRouter")
  return { enable, mode, dns, searchDomains, interfaces, hostname, defaultRouter }

end Networking

section Others

/-- Accounts are not looked into. -/
structure Users where
  users : Value
  groups : Value

def normalizeUsers (rawUsers : Value) : Except String Users := do
  let users ← ensureNoUnknownKeys "users" ["users", "groups"] rawUsers
  let checked (name : String) : Except String Value :=
    selectWith users name
      (fun value => (ensureAttrs ("users." ++ name) value).map fun _ => value) (.attrs [])
  return ⟨← checked "users", ← checked "groups"⟩

structure File where
  text : String
  mode : String

def normalizeFilesystemFile (field : String) (rawFile : Value) : Except String File :=
  match rawFile with
  | .string text => return ⟨text, fileDefaultMode⟩
  | _ => do
      let file ← ensureNoUnknownKeys field ["text", "mode"] rawFile
      let text ← ensureString (field ++ ".text") (← select file "text")
      let mode ← ensureString (field ++ ".mode")
        ((file.lookup "mode").getD (.string fileDefaultMode))
      return ⟨text, mode⟩

def byName {α : Type} (one two : String × α) : Bool := one.1 ≤ two.1

def normalizeFilesystemFiles (rawFiles : Value) : Except String (List (String × File)) := do
  let checked ← ensureAttrs "filesystem.files" rawFiles
  let entries ← checked.mapM fun entry => do
    let name ← normalizeRelativePath ("filesystem.files." ++ entry.1) (.string entry.1)
    let file ← normalizeFilesystemFile ("filesystem.files." ++ entry.1) entry.2
    return (name, file)
  let normalizedNames := entries.map Prod.fst
  let conflictingGenerated := normalizedNames.filter reservedGeneratedFilePaths.contains
  if normalizedNames.eraseDups.length ≠ normalizedNames.length then
    fail "filesystem.files" "multiple entries normalize to the same path"
  else if conflictingGenerated ≠ [] then
    fail "filesystem.files" ("conflicts with generated file(s): " ++
      String.intercalate ", " conflictingGenerated)
  else
    return entries.mergeSort byName

structure Filesystem where
  directories : List String
  files : List (String × File)
  devSymlinks : List (String × String)
  symlinks : List (String × String)
  extraPaths : List Value

def normalizeFilesystem (rawFilesystem : Value) : Except String Filesystem := do
  let filesystem ← ensureNoUnknownKeys "filesystem" ["directories", "files", "devSymlinks",
    "symlinks", "extraPaths"] rawFilesystem
  let directories ← selectWith filesystem "directories" (fun value => do
    let given ← ensureList "filesystem.directories" "expected a list" value
    given.mapM (normalizeAbsolutePath "filesystem.directories")) []
  let files ← selectWith filesystem "files" normalizeFilesystemFiles []
  let devSymlinks ←
    selectWith filesystem "devSymlinks" (ensureStringValues "filesystem.devSymlinks") []
  let symlinks ← selectWith filesystem "symlinks" (ensureStringValues "filesystem.symlinks") []
  let extraPaths ← selectWith filesystem "extraPaths"
    (ensureList "filesystem.extraPaths" "expected a list") []
  return { directories, files, devSymlinks, symlinks, extraPaths }

def normalizeStatus (rawStatus : Value) : Except String Value := do
  let status ← ensureNoUnknownKeys "status" ["hooks"] rawStatus
  return (status.lookup "hooks").getD (.list [])

structure Image where
  diskImage : Bool
  initfs : Bool
  vmRunner : Option (OneOf runnerFamilies)

def normalizeImage (rawImage : Value) : Except String Image := do
  let image ← ensureNoUnknownKeys "image" ["diskImage", "initfs", "vmRunner"] rawImage
  let diskImage ← selectWith image "diskImage" (ensureBool "image.diskImage") true
  let initfs ← selectWith image "initfs" (ensureBool "image.initfs") true
  let vmRunner ←
    selectOptional image "vmRunner" (ensureOneOf "image.vmRunner" runnerFamilies)
  return { diskImage, initfs, vmRunner }

end Others

section Plan

/-- Without networking in the plan there is none. -/
structure Normalized where
  services : List (String × Service)
  users : Users
  networking : Option Networking
  filesystem : Filesystem
  hooks : Value
  image : Image

/-- All of the plan, as a deep evaluation of the normalized plan forces it. -/
def normalizePrimitivePlan (rawPlan : Value) : Except String Normalized := do
  let plan ← ensureNoUnknownKeys "plan" primitiveFamilyNames rawPlan
  let services ← selectWith plan "services" (fun value => do
    let checked ← ensureAttrs "services" value
    mapAttrs normalizeService (.attrs checked)) []
  let users ← selectWith plan "users" normalizeUsers ⟨.attrs [], .attrs []⟩
  let networking ← selectOptional plan "networking" normalizeNetworking
  let filesystem ← selectWith plan "filesystem" normalizeFilesystem ⟨[], [], [], [], []⟩
  let hooks ← selectWith plan "status" normalizeStatus (.list [])
  let image ← selectWith plan "image" normalizeImage ⟨true, true, none⟩
  return { services, users, networking, filesystem, hooks, image }

def validatePlan (plan : Value) : Bool := (normalizePrimitivePlan plan).isOk

end Plan

end NixRedox.Substrate
