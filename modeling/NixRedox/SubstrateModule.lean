import NixRedox.SubstratePlan

set_option autoImplicit false

/- The Redox module that a primitive plan becomes, and the types its options are declared
with. -/
namespace NixRedox.Substrate

open AttrSets (Attrs Options Value ofEntries option strings update)
open OptionTypes (OptionType attrsOf enum listOf optionalAttr required struct)

section Module

def stringValues (texts : List (String × String)) : Value :=
  .attrs (texts.map fun entry => (entry.1, .string entry.2))

/-- `lib.optionalAttrs condition { name = value; }`. -/
def optionalEntry (condition : Bool) (name : String) (value : Value) : Entries :=
  if condition then [(name, value)] else []

def Service.value (service : Service) : Value :=
  .attrs [("after", strings service.after), ("args", .string service.args),
    ("argv", strings service.argv), ("command", .string service.command.val),
    ("description", .string service.description), ("enable", .bool service.enable),
    ("environment", stringValues service.environment), ("priority", .int service.priority),
    ("type", .string service.type.val), ("wantedBy", .string service.wantedBy.val)]

def ensureBuildableInterface (name : String) (iface : Interface) : Except String Interface :=
  if iface.addresses.length ≤ singleAddressPerInterfaceLimit then
    .ok iface
  else
    fail ("networking.interfaces." ++ name ++ ".addresses")
      ("current Redox builder supports at most " ++ toString singleAddressPerInterfaceLimit ++
        " static address per interface")

def someString (name : String) (text : Option NonEmptyString) : Entries :=
  (text.map fun checked => (name, Value.string checked.val)).toList

def adiosInterfaceFromPrimitive (networking : Networking) (name : String)
    (rawIface : Interface) : Except String Value := do
  let iface ← ensureBuildableInterface name rawIface
  match iface.addresses with
  | [] => return .attrs []
  | primary :: _ =>
      let gateway := match primary.gateway, networking.defaultRouter with
        | some gateway, _ => gateway.val
        | none, some router => router.val
        | none, none => ""
      return .attrs ([("address", .string primary.address.val), ("gateway", .string gateway)] ++
        someString "netmask" iface.netmask ++
        (primary.prefixLength.map fun length => ("prefixLength", .int length.val)).toList)

def networkingSettings (networking : Networking) (interfaces : Entries) : Entries :=
  [("enable", .bool networking.enable), ("mode", .string networking.mode.val)] ++
    optionalEntry (networking.dns ≠ []) "dns" (strings networking.dns) ++
    optionalEntry (networking.searchDomains ≠ []) "searchDomains"
      (strings networking.searchDomains) ++
    someString "defaultRouter" networking.defaultRouter ++
    optionalEntry (!networking.interfaces.isEmpty) "interfaces" (.attrs interfaces)

def timeModule : Option NonEmptyString → Options
  | some hostname => ofEntries [("/time", ofEntries [("hostname", .string hostname.val)])]
  | none => ∅

def networkingModule (networking : Networking) : Except String Options := do
  let interfaces ← networking.interfaces.mapM fun entry =>
    (adiosInterfaceFromPrimitive networking entry.1 entry.2).map (Prod.mk entry.1)
  return update (ofEntries [("/networking", ofEntries (networkingSettings networking interfaces))])
    (timeModule networking.hostname)

def networkingOptions : Option Networking → Except String Options
  | some networking => networkingModule networking
  | none => .ok ∅

def isEmptySet (value : Value) : Bool := value = .attrs []

/-- `lib.optionalAttrs condition { ${path} = …; }`. -/
def optionalModule (condition : Bool) (path : String) (entries : Entries) : Options :=
  if condition then ofEntries [(path, ofEntries entries)] else ∅

def File.value (file : File) : Value :=
  .attrs [("mode", .string file.mode), ("text", .string file.text)]

def usersEntries (users : Users) : Entries :=
  optionalEntry (!isEmptySet users.users) "users" users.users ++
    optionalEntry (!isEmptySet users.groups) "groups" users.groups

def filesystemEntries (filesystem : Filesystem) : Entries :=
  optionalEntry (filesystem.directories ≠ []) "substrateDirectories"
      (strings filesystem.directories) ++
    optionalEntry (!filesystem.files.isEmpty) "extraFiles"
      (.attrs (filesystem.files.map fun entry => (entry.1, entry.2.value))) ++
    optionalEntry (filesystem.devSymlinks ≠ []) "extraDevSymlinks"
      (stringValues filesystem.devSymlinks) ++
    optionalEntry (filesystem.symlinks ≠ []) "extraSpecialSymlinks"
      (stringValues filesystem.symlinks) ++
    optionalEntry (filesystem.extraPaths ≠ []) "extraPaths" (.list filesystem.extraPaths)

def moduleFromNormalized (normalized : Normalized) : Except String Options := do
  let networking ← networkingOptions normalized.networking
  let services := normalized.services.map fun entry => (entry.1, entry.2.value)
  return update (update (update networking
    (optionalModule (!normalized.services.isEmpty) "/services" [("services", .attrs services)]))
    (optionalModule (!isEmptySet normalized.users.users || !isEmptySet normalized.users.groups)
      "/users" (usersEntries normalized.users)))
    (optionalModule (!(filesystemEntries normalized.filesystem).isEmpty) "/filesystem"
      (filesystemEntries normalized.filesystem))

def primitivePlanToModule (rawPlan : Value) : Except String Options := do
  let normalized ← normalizePrimitivePlan rawPlan
  moduleFromNormalized normalized

end Module

section Types

def serviceType : OptionType := struct [
  required "description" OptionTypes.string,
  required "command" OptionTypes.string,
  required "type" (enum ["oneshot", "daemon", "nowait", "scheme"]),
  required "args" OptionTypes.string,
  optionalAttr "argv" (listOf OptionTypes.string),
  required "wantedBy" (enum ["initfs", "rootfs"]),
  required "enable" OptionTypes.bool,
  required "after" (listOf OptionTypes.string),
  required "environment" (attrsOf OptionTypes.string),
  required "priority" OptionTypes.int]

def interfaceType : OptionType := struct [
  required "address" OptionTypes.string,
  optionalAttr "netmask" OptionTypes.string,
  required "gateway" OptionTypes.string,
  optionalAttr "prefixLength" OptionTypes.int]

def userType : OptionType := struct [
  required "uid" OptionTypes.int,
  required "gid" OptionTypes.int,
  required "home" OptionTypes.string,
  required "shell" OptionTypes.string,
  required "password" OptionTypes.string,
  optionalAttr "realname" OptionTypes.string,
  optionalAttr "createHome" OptionTypes.bool,
  optionalAttr "schemes" (listOf OptionTypes.string)]

def groupType : OptionType := struct [
  required "gid" OptionTypes.int,
  required "members" (listOf OptionTypes.string)]

def extraFileType : OptionType := struct [
  required "text" OptionTypes.string,
  optionalAttr "mode" OptionTypes.string]

def extraPathType : OptionType := struct [
  required "source" OptionTypes.derivation,
  required "target" OptionTypes.string]

/-- The types of the options that a primitive plan can set. -/
def declaredType (path name : String) : Option OptionType :=
  List.lookup (path, name) [
    (("/networking", "enable"), OptionTypes.bool),
    (("/networking", "mode"), enum ["auto", "dhcp", "static", "none"]),
    (("/networking", "dns"), listOf OptionTypes.string),
    (("/networking", "searchDomains"), listOf OptionTypes.string),
    (("/networking", "defaultRouter"), OptionTypes.string),
    (("/networking", "interfaces"), attrsOf interfaceType),
    (("/time", "hostname"), OptionTypes.string),
    (("/services", "services"), attrsOf serviceType),
    (("/users", "users"), attrsOf userType),
    (("/users", "groups"), attrsOf groupType),
    (("/filesystem", "substrateDirectories"), listOf OptionTypes.string),
    (("/filesystem", "extraFiles"), attrsOf extraFileType),
    (("/filesystem", "extraDevSymlinks"), attrsOf OptionTypes.string),
    (("/filesystem", "extraSpecialSymlinks"), attrsOf OptionTypes.string),
    (("/filesystem", "extraPaths"), listOf extraPathType)]

end Types

end NixRedox.Substrate
