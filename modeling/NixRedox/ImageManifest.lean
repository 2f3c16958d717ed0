import NixRedox.ImageConfig
import NixRedox.ManifestSchema

set_option autoImplicit false

/- How the manifest of an image is made: `build/manifest.nix`, the merge of `hash-manifest`,
and the last step of `build/root-tree.nix`. What is printed as JSON and parsed again in between
is the same value. -/
namespace NixRedox.Image

open AttrSets (Value strings)
open InitScripts (Service validateAfterRefs)
open Serde (Json sortedMembers)

section Printing

mutual

/-- `builtins.toJSON`. A set with an `outPath` is printed as that. -/
def toJSON : Value → Except String Json
  | .null => .ok .null
  | .bool value => .ok (.bool value)
  | .int value => .ok (.number value)
  | .string text => .ok (.string text)
  | .derivation outPath => .ok (.string outPath)
  | .list values => do return .array (← listToJSON values)
  | .attrs entries =>
      -- data is no function that could be called on the set
      if (entries.map Prod.fst).contains "__toString" then
        .error "attempt to call something which is not a function"
      else
        match outPathToJSON entries with
        | some printed => printed
        | none => do return .object (← entriesToJSON entries)

def listToJSON : List Value → Except String (List Json)
  | [] => .ok []
  | value :: rest => do return (← toJSON value) :: (← listToJSON rest)

def outPathToJSON : List (String × Value) → Option (Except String Json)
  | [] => none
  | (name, value) :: rest => if name = "outPath" then some (toJSON value) else outPathToJSON rest

def entriesToJSON : List (String × Value) → Except String (List (String × Json))
  | [] => .ok []
  | (name, value) :: rest => do return (name, ← toJSON value) :: (← entriesToJSON rest)

end

end Printing

section Names

/-- `builtins.parseDrvName`: the version starts after the first dash that no letter follows. -/
def parseDrvName : List Char → List Char × List Char
  | [] => ([], [])
  | '-' :: next :: rest =>
      if next.isAlpha then
        let (name, version) := parseDrvName (next :: rest)
        ('-' :: name, version)
      else
        ([], next :: rest)
  | char :: rest =>
      let (name, version) := parseDrvName rest
      (char :: name, version)

/-- The last name of a path, of which a slash at the end is no part. -/
def baseNameOf (path : String) : String :=
  let chars := path.toList
  let named := if 1 < chars.length ∧ chars.getLast? = some '/' then chars.dropLast else chars
  String.ofList (named.reverse.takeWhile (· ≠ '/')).reverse

def pkgStoreName (pkg : Pkg) : String := baseNameOf pkg.outPath

end Names

section Manifest

/-- A file of the root tree, as it is recorded. -/
structure TrackedFile where
  blake3 : String
  size : UInt64
  mode : String

/-- What the build makes beside the manifest: the store paths of the initfs and of the etc
derivation, the names of the init scripts, and the files of the root tree. -/
structure Artifacts where
  initfs : String
  etcDerivation : String
  initScripts : List String
  files : AList fun _ : String => TrackedFile

variable (inputs : Inputs) (artifacts : Artifacts)

/-- `builtins.mapAttrs`. -/
def mapAttrs {β : Type} (make : β → Value) (map : AList fun _ : String => β) : Value :=
  .attrs ((sortedMembers map).map fun member => (member.1, make member.2))

def packageValue (pkg : Pkg) : Value := .attrs [
  ("name", .string (pkg.pname.getD (String.ofList (parseDrvName pkg.name.toList).1))),
  ("storePath", .string ("/nix/store/" ++ pkgStoreName pkg)),
  ("version", .string (pkg.version.getD (String.ofList (parseDrvName pkg.name.toList).2)))]

def userValue (user : UserOptions) : Value := .attrs [
  ("gid", .int user.gid.toInt),
  ("home", .string user.home),
  ("shell", .string user.shell),
  ("uid", .int user.uid.toInt)]

def groupValue (group : GroupOptions) : Value := .attrs [
  ("gid", .int group.gid.toInt),
  ("members", strings group.members)]

/-- `declaredServicesForManifest`, for one service. -/
def serviceValue (service : Service) : Value := .attrs [
  ("after", strings service.after),
  ("args", .string service.args),
  ("command", .string service.command),
  ("description", .string service.description),
  ("environment", mapAttrs .string service.environment),
  ("type", .string service.type.text),
  ("wantedBy", .string service.wantedBy.text)]

def activationScriptValue (script : String × List String) : Value := .attrs [
  ("deps", strings script.2),
  ("name", .string script.1)]

def configurationValue : Value := .attrs [
  ("boot", .attrs [
    ("bootProof", .bool inputs.boot.bootProof),
    ("diskSizeMB", .int inputs.boot.diskSizeMB.toInt),
    ("espSizeMB", .int inputs.boot.espSizeMB.toInt)]),
  ("graphics", .attrs [
    ("enabled", .bool inputs.graphics.enable),
    ("resolution", .string inputs.graphics.resolution)]),
  ("hardware", .attrs [
    ("audioDrivers", strings (optionals (audioEnabled inputs) (texts inputs.hardware.audioDrivers))),
    ("graphicsDrivers",
      strings (optionals inputs.graphics.enable (texts inputs.hardware.graphicsDrivers))),
    ("networkDrivers", strings (texts inputs.hardware.networkDrivers)),
    ("storageDrivers", strings (texts inputs.hardware.storageDrivers)),
    ("usbEnabled", .bool (usbEnabled inputs))]),
  ("logging", .attrs [
    ("kernelLogLevel", .string inputs.logging.kernelLogLevel.1),
    ("logLevel", .string inputs.logging.level.1),
    ("logToFile", .bool inputs.logging.logToFile),
    ("maxLogSizeMB", .int inputs.logging.maxLogSizeMB.toInt)]),
  ("networking", .attrs [
    ("dns", strings inputs.networking.dns),
    ("enabled", .bool inputs.networking.enable),
    ("mode", .string inputs.networking.mode.1)]),
  ("power", .attrs [
    ("acpiEnabled", .bool inputs.power.acpiEnable),
    ("powerAction", .string inputs.power.powerAction.1),
    ("rebootOnPanic", .bool inputs.power.rebootOnPanic)]),
  ("security", .attrs [
    ("allowRemoteRoot", .bool inputs.security.allowRemoteRoot),
    ("protectKernelSchemes", .bool inputs.security.protectKernelSchemes),
    ("requirePasswords", .bool inputs.security.requirePasswords)])]

/-- `"${package}"`, where the package is there. -/
def coerced : Option String → Except String String
  | some outPath => .ok outPath
  | none => .error "cannot coerce a set to a string"

def manifestData : Except String Value := do
  validateAfterRefs (declaredServices inputs)
  let kernel ← coerced inputs.boot.kernel
  let bootloader ← coerced inputs.boot.bootloader
  return .attrs [
    ("activationScripts",
      .list ((sortedMembers inputs.activationScripts).map activationScriptValue)),
    ("boot", .attrs [
      ("bootloader", .string (bootloader ++ "/boot/EFI/BOOT/BOOTX64.EFI")),
      ("initfs", .string (artifacts.initfs ++ "/boot/initfs")),
      ("kernel", .string (kernel ++ "/boot/kernel"))]),
    ("configuration", configurationValue inputs),
    ("drivers", .attrs [
      ("all", strings (allDrivers inputs)),
      ("core", strings (coreDaemons inputs)),
      ("initfs", strings (initfsDaemons inputs))]),
    ("generation", .attrs [
      ("buildHash", .string ""),
      ("description", .string "initial build"),
      ("id", .int 1),
      ("timestamp", .string "")]),
    ("groups", mapAttrs groupValue inputs.groups),
    ("manifestVersion", .int 3),
    ("packages", .list ((allPackages inputs).map packageValue)),
    ("services", .attrs [
      ("declared", mapAttrs serviceValue (declaredServices inputs)),
      ("initScripts", strings artifacts.initScripts),
      ("startupScript", .string "/startup.sh")]),
    ("system", .attrs [
      ("hostname", .string inputs.time.hostname),
      ("profile", .string inputs.system.name),
      ("redoxSystemVersion", .string inputs.system.version),
      ("target", .string inputs.system.target),
      ("timezone", .string inputs.time.timezone)]),
    ("systemProfile", .string "/nix/system/profile"),
    ("users", mapAttrs userValue inputs.users)]

end Manifest

section Merging

/-- `manifest["name"] = value`. -/
def insertMember (name : String) (value : Json) : List (String × Json) → List (String × Json)
  | [] => [(name, value)]
  | (own, found) :: rest =>
      if own = name then (name, value) :: rest else (own, found) :: insertMember name value rest

def trackedFile (file : TrackedFile) : Json := .object [
  ("blake3", .string file.blake3),
  ("mode", .string file.mode),
  ("size", .number file.size.toNat)]

def inventory (files : AList fun _ : String => TrackedFile) : Json :=
  .object ((sortedMembers files).map fun member => (member.1, trackedFile member.2))

/-- `hash-manifest`, which records the files and the hash of their inventory. -/
def hashRootTree (blake3 : Json → String) (files : AList fun _ : String => TrackedFile) :
    Json → Except String Json
  | .object members =>
      let members := insertMember "files" (inventory files) members
      match members.lookup "generation" with
      | none => .ok (.object members)
      | some (.object generation) => .ok (.object (insertMember "generation" (.object
          (insertMember "buildHash" (.string (blake3 (inventory files))) generation)) members))
      | some _ => .error "cannot access key \"buildHash\""
  | _ => .error "cannot access key \"files\""

/-- The etc derivation is recorded last. -/
def injectEtcSource (etcDerivation : String) : Json → Except String Json
  | .object members => .ok (.object
      (insertMember "etcSource" (.string ("/nix/store/" ++ baseNameOf etcDerivation)) members))
  | _ => .error "item assignment is not supported"

/-- The manifest of an image whose assertions hold. -/
def buildManifest (blake3 : Json → String) (inputs : Inputs) (artifacts : Artifacts) :
    Except String Json := do
  assertionCheck inputs
  let data ← manifestData inputs artifacts
  let base ← toJSON data
  let hashed ← hashRootTree blake3 artifacts.files base
  injectEtcSource artifacts.etcDerivation hashed

end Merging

section Printed

variable {β : Type} {entries : List (String × Value)} {make : β → Value} {shown : β → Json}

theorem toJSON_attrs (plain : "__toString" ∉ entries.map Prod.fst)
    (own : "outPath" ∉ entries.map Prod.fst) :
    toJSON (.attrs entries) = (do return .object (← entriesToJSON entries)) := by
  have none_ : outPathToJSON entries = none := by
    clear plain
    induction entries with
    | nil => rfl
    | cons entry rest ih =>
        obtain ⟨name, value⟩ := entry
        rw [List.map_cons, List.mem_cons, not_or] at own
        rw [outPathToJSON, if_neg (Ne.symm own.1), ih own.2]
  rw [toJSON, if_neg (by simpa using plain), none_]

@[simp] theorem toJSON_bool (value : Bool) : toJSON (.bool value) = .ok (.bool value) := by
  rw [toJSON]

@[simp] theorem toJSON_int (value : Int) : toJSON (.int value) = .ok (.number value) := by
  rw [toJSON]

@[simp] theorem toJSON_string (text : String) : toJSON (.string text) = .ok (.string text) := by
  rw [toJSON]

theorem toJSON_list {values : List β}
    (each : ∀ value ∈ values, toJSON (make value) = .ok (shown value)) :
    toJSON (.list (values.map make)) = .ok (.array (values.map shown)) := by
  have listed : listToJSON (values.map make) = .ok (values.map shown) := by
    induction values with
    | nil => rfl
    | cons value rest ih =>
        rw [List.map_cons, listToJSON, each value List.mem_cons_self,
          ih fun other member => each other (List.mem_cons_of_mem _ member)]
        rfl
  rw [toJSON, listed]
  rfl

@[simp] theorem toJSON_strings (texts : List String) :
    toJSON (strings texts) = .ok (.array (texts.map .string)) :=
  toJSON_list fun text _ => toJSON_string text

/-- What a set of named values is printed as. -/
def mapJSON (shown : β → Json) (map : AList fun _ : String => β) : Json :=
  match map.lookup "outPath" with
  | some value => shown value
  | none => .object ((sortedMembers map).map fun member => (member.1, shown member.2))

theorem outPathToJSON_members (make : β → Value) (members : List (String × β)) :
    (∃ value, ("outPath", value) ∈ members ∧
      outPathToJSON (members.map fun member => (member.1, make member.2)) =
        some (toJSON (make value))) ∨
    ((∀ value, ("outPath", value) ∉ members) ∧
      outPathToJSON (members.map fun member => (member.1, make member.2)) = none) := by
  induction members with
  | nil => exact .inr ⟨fun _ => List.not_mem_nil, rfl⟩
  | cons member rest ih =>
      obtain ⟨name, value⟩ := member
      rw [List.map_cons, outPathToJSON]
      by_cases same : name = "outPath"
      · subst same
        exact .inl ⟨value, List.mem_cons_self, if_pos rfl⟩
      · rw [if_neg same]
        rcases ih with ⟨found, inside, printed⟩ | ⟨absent, printed⟩
        · exact .inl ⟨found, List.mem_cons_of_mem _ inside, printed⟩
        · refine .inr ⟨fun found inside => ?_, printed⟩
          rcases List.mem_cons.mp inside with head | later
          · exact same (Prod.mk.inj head).1.symm
          · exact absent found later

theorem entriesToJSON_members (each : ∀ value printed, toJSON (make value) = .ok printed →
      printed = shown value) {members : List (String × β)} {printed : List (String × Json)}
    (listed : entriesToJSON (members.map fun member => (member.1, make member.2)) = .ok printed) :
    printed = members.map fun member => (member.1, shown member.2) := by
  induction members generalizing printed with
  | nil =>
      cases listed
      rfl
  | cons member rest ih =>
      rw [List.map_cons, entriesToJSON] at listed
      obtain ⟨first, head, later⟩ := Attempts.bind_eq_ok.mp listed
      obtain ⟨others, tail, same⟩ := Attempts.bind_eq_ok.mp later
      cases same
      rw [each _ _ head, ih tail, List.map_cons]

theorem toJSON_mapAttrs {map : AList fun _ : String => β} {printed : Json}
    (each : ∀ value printed, toJSON (make value) = .ok printed → printed = shown value)
    (written : toJSON (mapAttrs make map) = .ok printed) : printed = mapJSON shown map := by
  unfold mapAttrs at written
  rw [toJSON] at written
  split at written
  · cases written
  · rcases outPathToJSON_members make (sortedMembers map) with
      ⟨value, inside, own⟩ | ⟨absent, own⟩
    · rw [own] at written
      rw [each _ _ written, mapJSON, Serde.mem_sortedMembers.mp inside]
    · rw [own] at written
      obtain ⟨members, listed, same⟩ := Attempts.bind_eq_ok.mp written
      cases same
      have none_ : map.lookup "outPath" = none := by
        rw [Option.eq_none_iff_forall_ne_some]
        intro value present
        exact absent value (Serde.mem_sortedMembers.mpr present)
      rw [entriesToJSON_members each listed, mapJSON, none_]

theorem entriesToJSON_succeeds {entries : List (String × Value)}
    (each : ∀ entry ∈ entries, ∃ printed, toJSON entry.2 = .ok printed) :
    ∃ printed, entriesToJSON entries = .ok printed := by
  induction entries with
  | nil => exact ⟨[], rfl⟩
  | cons entry rest ih =>
      obtain ⟨first, head⟩ := each entry List.mem_cons_self
      obtain ⟨others, tail⟩ := ih fun other member => each other (List.mem_cons_of_mem _ member)
      refine ⟨(entry.1, first) :: others, ?_⟩
      rw [entriesToJSON, head, tail]
      rfl

/-- A set without a function to call is printed if its values are. -/
theorem toJSON_mapAttrs_succeeds {map : AList fun _ : String => β}
    (plain : map.lookup "__toString" = none)
    (each : ∀ name value, map.lookup name = some value →
      ∃ printed, toJSON (make value) = .ok printed) :
    ∃ printed, toJSON (mapAttrs make map) = .ok printed := by
  have absent : "__toString" ∉ ((sortedMembers map).map fun member =>
      (member.1, make member.2)).map Prod.fst := by
    intro inside
    simp only [List.map_map, List.mem_map, Function.comp_apply] at inside
    obtain ⟨⟨name, value⟩, member, same⟩ := inside
    have present := Serde.mem_sortedMembers.mp member
    rw [show name = "__toString" from same, plain] at present
    cases present
  unfold mapAttrs
  rw [toJSON, if_neg (by simpa using absent)]
  rcases outPathToJSON_members make (sortedMembers map) with ⟨value, inside, own⟩ | ⟨_, own⟩
  · rw [own]
    exact each _ _ (Serde.mem_sortedMembers.mp inside)
  · rw [own]
    obtain ⟨printed, listed⟩ : ∃ printed, entriesToJSON ((sortedMembers map).map fun member =>
        (member.1, make member.2)) = .ok printed := by
      apply entriesToJSON_succeeds
      intro entry member
      obtain ⟨⟨name, value⟩, inside, rfl⟩ := List.mem_map.mp member
      exact each name value (Serde.mem_sortedMembers.mp inside)
    dsimp only
    rw [listed]
    exact ⟨_, rfl⟩

end Printed

section Base

variable {inputs : Inputs} {artifacts : Artifacts} {printed : Json}

def stringsJSON (texts : List String) : Json := .array (texts.map .string)

def userJSON (user : UserOptions) : Json := .object [
  ("gid", .number user.gid.toInt),
  ("home", .string user.home),
  ("shell", .string user.shell),
  ("uid", .number user.uid.toInt)]

def groupJSON (group : GroupOptions) : Json := .object [
  ("gid", .number group.gid.toInt),
  ("members", stringsJSON group.members)]

def serviceJSON (service : Service) : Json := .object [
  ("after", stringsJSON service.after),
  ("args", .string service.args),
  ("command", .string service.command),
  ("description", .string service.description),
  ("environment", mapJSON .string service.environment),
  ("type", .string service.type.text),
  ("wantedBy", .string service.wantedBy.text)]

def activationScriptJSON (script : String × List String) : Json := .object [
  ("deps", stringsJSON script.2),
  ("name", .string script.1)]

def packageJSON (pkg : Pkg) : Json := .object [
  ("name", .string (pkg.pname.getD (String.ofList (parseDrvName pkg.name.toList).1))),
  ("storePath", .string ("/nix/store/" ++ pkgStoreName pkg)),
  ("version", .string (pkg.version.getD (String.ofList (parseDrvName pkg.name.toList).2)))]

theorem toJSON_userValue (user : UserOptions) : toJSON (userValue user) = .ok (userJSON user) := by
  simp [userValue, userJSON, toJSON_attrs, entriesToJSON]

theorem toJSON_groupValue (group : GroupOptions) :
    toJSON (groupValue group) = .ok (groupJSON group) := by
  simp [groupValue, groupJSON, stringsJSON, toJSON_attrs, entriesToJSON]

theorem toJSON_activationScriptValue (script : String × List String) :
    toJSON (activationScriptValue script) = .ok (activationScriptJSON script) := by
  simp [activationScriptValue, activationScriptJSON, stringsJSON, toJSON_attrs, entriesToJSON]

theorem toJSON_packageValue (pkg : Pkg) : toJSON (packageValue pkg) = .ok (packageJSON pkg) := by
  simp [packageValue, packageJSON, toJSON_attrs, entriesToJSON]

theorem toJSON_activationScripts (scripts : List (String × List String)) :
    toJSON (.list (scripts.map activationScriptValue)) =
      .ok (.array (scripts.map activationScriptJSON)) :=
  toJSON_list fun script _ => toJSON_activationScriptValue script

theorem toJSON_packages (pkgs : List Pkg) :
    toJSON (.list (pkgs.map packageValue)) = .ok (.array (pkgs.map packageJSON)) :=
  toJSON_list fun pkg _ => toJSON_packageValue pkg

theorem toJSON_serviceValue {service : Service}
    (written : toJSON (serviceValue service) = .ok printed) : printed = serviceJSON service := by
  cases own : toJSON (mapAttrs .string service.environment) with
  | error reason =>
      simp [serviceValue, toJSON_attrs, entriesToJSON, own, Attempts.bind_eq_ok] at written
  | ok environment =>
      have same : environment = mapJSON .string service.environment := by
        apply toJSON_mapAttrs _ own
        intro text printed written
        rw [toJSON_string] at written
        exact (Except.ok.inj written).symm
      simp [serviceValue, toJSON_attrs, entriesToJSON, own, same] at written
      exact written.symm

def configurationJSON (inputs : Inputs) : Json := .object [
  ("boot", .object [
    ("bootProof", .bool inputs.boot.bootProof),
    ("diskSizeMB", .number inputs.boot.diskSizeMB.toInt),
    ("espSizeMB", .number inputs.boot.espSizeMB.toInt)]),
  ("graphics", .object [
    ("enabled", .bool inputs.graphics.enable),
    ("resolution", .string inputs.graphics.resolution)]),
  ("hardware", .object [
    ("audioDrivers",
      stringsJSON (optionals (audioEnabled inputs) (texts inputs.hardware.audioDrivers))),
    ("graphicsDrivers",
      stringsJSON (optionals inputs.graphics.enable (texts inputs.hardware.graphicsDrivers))),
    ("networkDrivers", stringsJSON (texts inputs.hardware.networkDrivers)),
    ("storageDrivers", stringsJSON (texts inputs.hardware.storageDrivers)),
    ("usbEnabled", .bool (usbEnabled inputs))]),
  ("logging", .object [
    ("kernelLogLevel", .string inputs.logging.kernelLogLevel.1),
    ("logLevel", .string inputs.logging.level.1),
    ("logToFile", .bool inputs.logging.logToFile),
    ("maxLogSizeMB", .number inputs.logging.maxLogSizeMB.toInt)]),
  ("networking", .object [
    ("dns", stringsJSON inputs.networking.dns),
    ("enabled", .bool inputs.networking.enable),
    ("mode", .string inputs.networking.mode.1)]),
  ("power", .object [
    ("acpiEnabled", .bool inputs.power.acpiEnable),
    ("powerAction", .string inputs.power.powerAction.1),
    ("rebootOnPanic", .bool inputs.power.rebootOnPanic)]),
  ("security", .object [
    ("allowRemoteRoot", .bool inputs.security.allowRemoteRoot),
    ("protectKernelSchemes", .bool inputs.security.protectKernelSchemes),
    ("requirePasswords", .bool inputs.security.requirePasswords)])]

theorem toJSON_configurationValue (inputs : Inputs) :
    toJSON (configurationValue inputs) = .ok (configurationJSON inputs) := by
  simp [configurationValue, configurationJSON, stringsJSON, toJSON_attrs, entriesToJSON]

/-- The manifest of an image with a kernel and a bootloader. -/
def imageJSON (blake3 : Json → String) (inputs : Inputs) (artifacts : Artifacts)
    (kernel bootloader : String) : Json := .object [
  ("activationScripts",
    .array ((sortedMembers inputs.activationScripts).map activationScriptJSON)),
  ("boot", .object [
    ("bootloader", .string (bootloader ++ "/boot/EFI/BOOT/BOOTX64.EFI")),
    ("initfs", .string (artifacts.initfs ++ "/boot/initfs")),
    ("kernel", .string (kernel ++ "/boot/kernel"))]),
  ("configuration", configurationJSON inputs),
  ("drivers", .object [
    ("all", stringsJSON (allDrivers inputs)),
    ("core", stringsJSON (coreDaemons inputs)),
    ("initfs", stringsJSON (initfsDaemons inputs))]),
  ("generation", .object [
    ("buildHash", .string (blake3 (inventory artifacts.files))),
    ("description", .string "initial build"),
    ("id", .number 1),
    ("timestamp", .string "")]),
  ("groups", mapJSON groupJSON inputs.groups),
  ("manifestVersion", .number 3),
  ("packages", .array ((allPackages inputs).map packageJSON)),
  ("services", .object [
    ("declared", mapJSON serviceJSON (declaredServices inputs)),
    ("initScripts", stringsJSON artifacts.initScripts),
    ("startupScript", .string "/startup.sh")]),
  ("system", .object [
    ("hostname", .string inputs.time.hostname),
    ("profile", .string inputs.system.name),
    ("redoxSystemVersion", .string inputs.system.version),
    ("target", .string inputs.system.target),
    ("timezone", .string inputs.time.timezone)]),
  ("systemProfile", .string "/nix/system/profile"),
  ("users", mapJSON userJSON inputs.users),
  ("files", inventory artifacts.files),
  ("etcSource", .string ("/nix/store/" ++ baseNameOf artifacts.etcDerivation))]

/-- What a manifest that has been made looks like. -/
theorem buildManifest_ok {blake3 : Json → String}
    (made : buildManifest blake3 inputs artifacts = .ok printed) :
    assertionCheck inputs = .ok () ∧ ∃ kernel bootloader,
      inputs.boot.kernel = some kernel ∧ inputs.boot.bootloader = some bootloader ∧
      printed = imageJSON blake3 inputs artifacts kernel bootloader := by
  simp only [buildManifest, manifestData, Attempts.bind_eq_ok] at made
  obtain ⟨_, accepted, data, ⟨_, refs, kernel, ownKernel, bootloader, ownBootloader, same⟩, base,
    written, hashed, merged, injected⟩ := made
  cases same
  refine ⟨accepted, kernel, bootloader, ?_, ?_, ?_⟩
  · cases there : inputs.boot.kernel with
    | none => rw [there] at ownKernel; cases ownKernel
    | some path => rw [there] at ownKernel; cases ownKernel; rfl
  · cases there : inputs.boot.bootloader with
    | none => rw [there] at ownBootloader; cases ownBootloader
    | some path => rw [there] at ownBootloader; cases ownBootloader; rfl
  · simp [toJSON_attrs, entriesToJSON, toJSON_activationScripts, toJSON_packages,
      toJSON_configurationValue,
      Attempts.bind_eq_ok] at written
    obtain ⟨groups, writtenGroups, declared, writtenDeclared, users, writtenUsers, rfl⟩ := written
    have sameGroups : groups = mapJSON groupJSON inputs.groups := by
      apply toJSON_mapAttrs _ writtenGroups
      intro group printed written
      rw [toJSON_groupValue] at written
      exact (Except.ok.inj written).symm
    have sameUsers : users = mapJSON userJSON inputs.users := by
      apply toJSON_mapAttrs _ writtenUsers
      intro user printed written
      rw [toJSON_userValue] at written
      exact (Except.ok.inj written).symm
    have sameDeclared : declared = mapJSON serviceJSON (declaredServices inputs) :=
      toJSON_mapAttrs (fun _ _ written => toJSON_serviceValue written) writtenDeclared
    subst sameGroups sameUsers sameDeclared
    simp [hashRootTree, insertMember, List.lookup_cons] at merged
    subst merged
    simp [injectEtcSource, insertMember] at injected
    rw [← injected]
    rfl

theorem toJSON_serviceValue_succeeds {service : Service}
    (plain : service.environment.lookup "__toString" = none) :
    ∃ printed, toJSON (serviceValue service) = .ok printed := by
  obtain ⟨environment, own⟩ := toJSON_mapAttrs_succeeds plain
    fun name text (_ : service.environment.lookup name = some text) => ⟨_, toJSON_string text⟩
  simp [serviceValue, toJSON_attrs, entriesToJSON, own]

/-- The manifest of an image is made when the assertions hold, every service that another
one waits for is declared, the kernel and the bootloader are there, and no set looks like one
with a function to call. -/
theorem buildManifest_succeeds (blake3 : Json → String)
    (accepted : assertionCheck inputs = .ok ())
    (refs : validateAfterRefs (declaredServices inputs) = .ok ())
    {kernel bootloader : String} (ownKernel : inputs.boot.kernel = some kernel)
    (ownBootloader : inputs.boot.bootloader = some bootloader)
    (users : inputs.users.lookup "__toString" = none)
    (groups : inputs.groups.lookup "__toString" = none)
    (services : (declaredServices inputs).lookup "__toString" = none)
    (environments : ∀ name service, (declaredServices inputs).lookup name = some service →
      service.environment.lookup "__toString" = none) :
    ∃ json, buildManifest blake3 inputs artifacts = .ok json := by
  obtain ⟨usersJSON, writtenUsers⟩ := toJSON_mapAttrs_succeeds users
    fun name user (_ : inputs.users.lookup name = some user) => ⟨_, toJSON_userValue user⟩
  obtain ⟨groupsJSON, writtenGroups⟩ := toJSON_mapAttrs_succeeds groups
    fun name group (_ : inputs.groups.lookup name = some group) => ⟨_, toJSON_groupValue group⟩
  obtain ⟨declaredJSON, writtenDeclared⟩ := toJSON_mapAttrs_succeeds services
    fun name service present => toJSON_serviceValue_succeeds (environments name service present)
  simp [buildManifest, manifestData, accepted, refs, ownKernel, ownBootloader, coerced,
    toJSON_attrs, entriesToJSON, toJSON_activationScripts, toJSON_packages,
    toJSON_configurationValue, writtenUsers, writtenGroups, writtenDeclared, hashRootTree,
    insertMember, List.lookup_cons, injectEtcSource]

end Base

end NixRedox.Image
