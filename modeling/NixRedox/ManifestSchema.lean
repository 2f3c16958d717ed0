import NixRedox.RebuildChanges
import NixRedox.Serde

set_option autoImplicit false

/- How `system.rs` writes and reads a manifest. Which of several errors a manifest is refused
with is not modelled: that of the first field stands for them. -/
namespace NixRedox.Schema

open NixRedox.System (BootComponents FileInfo GenerationInfo Package)
open Rebuild (ActivationScript BootConfig Configuration Drivers Group HardwareConfig Manifest
  NetworkingConfig ServiceInfo Services SysGraphicsConfig SysLoggingConfig SysPowerConfig
  SysSecurityConfig SystemInfo User)
open Serde

section Defaults

def defaultGeneration : GenerationInfo := ⟨1, "", "initial build", ""⟩

def defaultSystem : SystemInfo := ⟨"", "", "", "", ""⟩

def defaultConfiguration : Configuration where
  boot := ⟨0, 0, false⟩
  hardware := ⟨[], [], [], [], false⟩
  networking := ⟨false, "", []⟩
  graphics := ⟨false, ""⟩
  security := ⟨false, false, false⟩
  logging := ⟨"", "", false, 0⟩
  power := ⟨false, "", false⟩

end Defaults

section Codecs

variable (serde : Serde)

def generationInfo : Codec serde.Error GenerationInfo where
  serialize generation := .object [
    ("id", serde.u32.serialize generation.id),
    ("buildHash", serde.string.serialize generation.buildHash),
    ("description", serde.string.serialize generation.description),
    ("timestamp", serde.string.serialize generation.timestamp)]
  deserialize json := do
    let fields ← serde.fieldsOf "struct GenerationInfo" json
    return {
      id := ← serde.required serde.u32 fields "id"
      buildHash := ← serde.defaulted serde.string "" fields "buildHash"
      description := ← serde.defaulted serde.string "" fields "description"
      timestamp := ← serde.defaulted serde.string "" fields "timestamp" }

def systemInfo : Codec serde.Error SystemInfo where
  serialize system := .object [
    ("redoxSystemVersion", serde.string.serialize system.redoxSystemVersion),
    ("target", serde.string.serialize system.target),
    ("profile", serde.string.serialize system.profile),
    ("hostname", serde.string.serialize system.hostname),
    ("timezone", serde.string.serialize system.timezone)]
  deserialize json := do
    let fields ← serde.fieldsOf "struct SystemInfo" json
    return {
      redoxSystemVersion := ← serde.required serde.string fields "redoxSystemVersion"
      target := ← serde.required serde.string fields "target"
      profile := ← serde.required serde.string fields "profile"
      hostname := ← serde.required serde.string fields "hostname"
      timezone := ← serde.required serde.string fields "timezone" }

def bootConfig : Codec serde.Error BootConfig where
  serialize boot := .object [
    ("diskSizeMB", serde.u32.serialize boot.diskSizeMb),
    ("espSizeMB", serde.u32.serialize boot.espSizeMb),
    ("bootProof", serde.bool.serialize boot.bootProof)]
  deserialize json := do
    let fields ← serde.fieldsOf "struct BootConfig" json
    return {
      diskSizeMb := ← serde.defaulted serde.u32 0 fields "diskSizeMB"
      espSizeMb := ← serde.defaulted serde.u32 0 fields "espSizeMB"
      bootProof := ← serde.defaulted serde.bool false fields "bootProof" }

def bootComponents : Codec serde.Error BootComponents where
  serialize boot := .object (
    skipNone serde.string "kernel" boot.kernel ++ skipNone serde.string "initfs" boot.initfs ++
    skipNone serde.string "bootloader" boot.bootloader)
  deserialize json := do
    let fields ← serde.fieldsOf "struct BootComponents" json
    return {
      kernel := ← serde.defaulted (serde.option serde.string) none fields "kernel"
      initfs := ← serde.defaulted (serde.option serde.string) none fields "initfs"
      bootloader := ← serde.defaulted (serde.option serde.string) none fields "bootloader" }

def hardwareConfig : Codec serde.Error HardwareConfig where
  serialize hardware := .object [
    ("storageDrivers", (serde.vec serde.string).serialize hardware.storageDrivers),
    ("networkDrivers", (serde.vec serde.string).serialize hardware.networkDrivers),
    ("graphicsDrivers", (serde.vec serde.string).serialize hardware.graphicsDrivers),
    ("audioDrivers", (serde.vec serde.string).serialize hardware.audioDrivers),
    ("usbEnabled", serde.bool.serialize hardware.usbEnabled)]
  deserialize json := do
    let fields ← serde.fieldsOf "struct HardwareConfig" json
    return {
      storageDrivers := ← serde.defaulted (serde.vec serde.string) [] fields "storageDrivers"
      networkDrivers := ← serde.defaulted (serde.vec serde.string) [] fields "networkDrivers"
      graphicsDrivers := ← serde.defaulted (serde.vec serde.string) [] fields "graphicsDrivers"
      audioDrivers := ← serde.defaulted (serde.vec serde.string) [] fields "audioDrivers"
      usbEnabled := ← serde.defaulted serde.bool false fields "usbEnabled" }

def networkingConfig : Codec serde.Error NetworkingConfig where
  serialize networking := .object [
    ("enabled", serde.bool.serialize networking.enabled),
    ("mode", serde.string.serialize networking.mode),
    ("dns", (serde.vec serde.string).serialize networking.dns)]
  deserialize json := do
    let fields ← serde.fieldsOf "struct NetworkingConfig" json
    return {
      enabled := ← serde.defaulted serde.bool false fields "enabled"
      mode := ← serde.defaulted serde.string "" fields "mode"
      dns := ← serde.defaulted (serde.vec serde.string) [] fields "dns" }

def graphicsConfig : Codec serde.Error SysGraphicsConfig where
  serialize graphics := .object [
    ("enabled", serde.bool.serialize graphics.enabled),
    ("resolution", serde.string.serialize graphics.resolution)]
  deserialize json := do
    let fields ← serde.fieldsOf "struct GraphicsConfig" json
    return {
      enabled := ← serde.defaulted serde.bool false fields "enabled"
      resolution := ← serde.defaulted serde.string "" fields "resolution" }

def securityConfig : Codec serde.Error SysSecurityConfig where
  serialize security := .object [
    ("protectKernelSchemes", serde.bool.serialize security.protectKernelSchemes),
    ("requirePasswords", serde.bool.serialize security.requirePasswords),
    ("allowRemoteRoot", serde.bool.serialize security.allowRemoteRoot)]
  deserialize json := do
    let fields ← serde.fieldsOf "struct SecurityConfig" json
    return {
      protectKernelSchemes := ← serde.defaulted serde.bool false fields "protectKernelSchemes"
      requirePasswords := ← serde.defaulted serde.bool false fields "requirePasswords"
      allowRemoteRoot := ← serde.defaulted serde.bool false fields "allowRemoteRoot" }

def loggingConfig : Codec serde.Error SysLoggingConfig where
  serialize logging := .object [
    ("logLevel", serde.string.serialize logging.logLevel),
    ("kernelLogLevel", serde.string.serialize logging.kernelLogLevel),
    ("logToFile", serde.bool.serialize logging.logToFile),
    ("maxLogSizeMB", serde.u32.serialize logging.maxLogSizeMb)]
  deserialize json := do
    let fields ← serde.fieldsOf "struct LoggingConfig" json
    return {
      logLevel := ← serde.defaulted serde.string "" fields "logLevel"
      kernelLogLevel := ← serde.defaulted serde.string "" fields "kernelLogLevel"
      logToFile := ← serde.defaulted serde.bool false fields "logToFile"
      maxLogSizeMb := ← serde.defaulted serde.u32 0 fields "maxLogSizeMB" }

def powerConfig : Codec serde.Error SysPowerConfig where
  serialize power := .object [
    ("acpiEnabled", serde.bool.serialize power.acpiEnabled),
    ("powerAction", serde.string.serialize power.powerAction),
    ("rebootOnPanic", serde.bool.serialize power.rebootOnPanic)]
  deserialize json := do
    let fields ← serde.fieldsOf "struct PowerConfig" json
    return {
      acpiEnabled := ← serde.defaulted serde.bool false fields "acpiEnabled"
      powerAction := ← serde.defaulted serde.string "" fields "powerAction"
      rebootOnPanic := ← serde.defaulted serde.bool false fields "rebootOnPanic" }

def configuration : Codec serde.Error Configuration where
  serialize config := .object [
    ("boot", (bootConfig serde).serialize config.boot),
    ("hardware", (hardwareConfig serde).serialize config.hardware),
    ("networking", (networkingConfig serde).serialize config.networking),
    ("graphics", (graphicsConfig serde).serialize config.graphics),
    ("security", (securityConfig serde).serialize config.security),
    ("logging", (loggingConfig serde).serialize config.logging),
    ("power", (powerConfig serde).serialize config.power)]
  deserialize json := do
    let fields ← serde.fieldsOf "struct Configuration" json
    return {
      boot := ← serde.required (bootConfig serde) fields "boot"
      hardware := ← serde.required (hardwareConfig serde) fields "hardware"
      networking := ← serde.required (networkingConfig serde) fields "networking"
      graphics := ← serde.required (graphicsConfig serde) fields "graphics"
      security := ← serde.required (securityConfig serde) fields "security"
      logging := ← serde.required (loggingConfig serde) fields "logging"
      power := ← serde.required (powerConfig serde) fields "power" }

def package : Codec serde.Error Package where
  serialize package := .object [
    ("name", serde.string.serialize package.name),
    ("version", serde.string.serialize package.version),
    ("storePath", serde.string.serialize package.storePath)]
  deserialize json := do
    let fields ← serde.fieldsOf "struct Package" json
    return {
      name := ← serde.required serde.string fields "name"
      version := ← serde.required serde.string fields "version"
      storePath := ← serde.defaulted serde.string "" fields "storePath" }

def drivers : Codec serde.Error Drivers where
  serialize drivers := .object [
    ("all", (serde.vec serde.string).serialize drivers.all),
    ("initfs", (serde.vec serde.string).serialize drivers.initfs),
    ("core", (serde.vec serde.string).serialize drivers.core)]
  deserialize json := do
    let fields ← serde.fieldsOf "struct Drivers" json
    return {
      all := ← serde.defaulted (serde.vec serde.string) [] fields "all"
      initfs := ← serde.defaulted (serde.vec serde.string) [] fields "initfs"
      core := ← serde.defaulted (serde.vec serde.string) [] fields "core" }

def user : Codec serde.Error User where
  serialize user := .object [
    ("uid", serde.u32.serialize user.uid),
    ("gid", serde.u32.serialize user.gid),
    ("home", serde.string.serialize user.home),
    ("shell", serde.string.serialize user.shell)]
  deserialize json := do
    let fields ← serde.fieldsOf "struct User" json
    return {
      uid := ← serde.required serde.u32 fields "uid"
      gid := ← serde.required serde.u32 fields "gid"
      home := ← serde.required serde.string fields "home"
      shell := ← serde.required serde.string fields "shell" }

def group : Codec serde.Error Group where
  serialize group := .object [
    ("gid", serde.u32.serialize group.gid),
    ("members", (serde.vec serde.string).serialize group.members)]
  deserialize json := do
    let fields ← serde.fieldsOf "struct Group" json
    return {
      gid := ← serde.required serde.u32 fields "gid"
      members := ← serde.required (serde.vec serde.string) fields "members" }

def serviceInfo : Codec serde.Error ServiceInfo where
  serialize service := .object [
    ("description", serde.string.serialize service.description),
    ("command", serde.string.serialize service.command),
    ("type", serde.string.serialize service.svcType),
    ("args", serde.string.serialize service.args),
    ("wantedBy", serde.string.serialize service.wantedBy),
    ("environment", (serde.btreeMembers serde.string).serialize service.environment),
    ("after", (serde.vec serde.string).serialize service.after)]
  deserialize json := do
    let fields ← serde.fieldsOf "struct ServiceInfo" json
    return {
      description := ← serde.required serde.string fields "description"
      command := ← serde.required serde.string fields "command"
      svcType := ← serde.required serde.string fields "type"
      args := ← serde.defaulted serde.string "" fields "args"
      wantedBy := ← serde.required serde.string fields "wantedBy"
      environment := ← serde.defaulted (serde.btreeMembers serde.string) [] fields "environment"
      after := ← serde.defaulted (serde.vec serde.string) [] fields "after" }

def services : Codec serde.Error Services where
  serialize services := .object [
    ("declared", (serde.btreeMap (serviceInfo serde)).serialize services.declared),
    ("initScripts", (serde.vec serde.string).serialize services.initScripts),
    ("startupScript", serde.string.serialize services.startupScript)]
  deserialize json := do
    let fields ← serde.fieldsOf "struct Services" json
    return {
      declared := ← serde.defaulted (serde.btreeMap (serviceInfo serde)) ∅ fields "declared"
      initScripts := ← serde.defaulted (serde.vec serde.string) [] fields "initScripts"
      startupScript := ← serde.defaulted serde.string "" fields "startupScript" }

def activationScript : Codec serde.Error ActivationScript where
  serialize script := .object [
    ("name", serde.string.serialize script.name),
    ("deps", (serde.vec serde.string).serialize script.deps)]
  deserialize json := do
    let fields ← serde.fieldsOf "struct ActivationScript" json
    return {
      name := ← serde.required serde.string fields "name"
      deps := ← serde.defaulted (serde.vec serde.string) [] fields "deps" }

def fileInfo : Codec serde.Error FileInfo where
  serialize file := .object ([
    ("blake3", serde.string.serialize file.blake3),
    ("size", serde.u64.serialize file.size),
    ("mode", serde.string.serialize file.mode)] ++
    skipNone serde.string "text" file.text)
  deserialize json := do
    let fields ← serde.fieldsOf "struct FileInfo" json
    return {
      blake3 := ← serde.required serde.string fields "blake3"
      size := ← serde.required serde.u64 fields "size"
      mode := ← serde.required serde.string fields "mode"
      text := ← serde.defaulted (serde.option serde.string) none fields "text" }

def manifest : Codec serde.Error Manifest where
  serialize manifest := .object (
    [("manifestVersion", serde.u32.serialize manifest.manifestVersion),
      ("system", (systemInfo serde).serialize manifest.system),
      ("generation", (generationInfo serde).serialize manifest.generation)] ++
    skipNone (bootComponents serde) "boot" manifest.boot ++
    [("configuration", (configuration serde).serialize manifest.configuration),
      ("packages", (serde.vec (package serde)).serialize manifest.packages),
      ("drivers", (drivers serde).serialize manifest.drivers),
      ("users", (serde.btreeMap (user serde)).serialize manifest.users),
      ("groups", (serde.btreeMap (group serde)).serialize manifest.groups),
      ("services", (services serde).serialize manifest.services),
      ("activationScripts",
        (serde.vec (activationScript serde)).serialize manifest.activationScripts),
      ("files", (serde.btreeMap (fileInfo serde)).serialize manifest.files),
      ("systemProfile", serde.string.serialize manifest.systemProfile)] ++
    skipNone serde.string "toplevel" manifest.toplevel ++
    skipNone serde.string "etcSource" manifest.etcSource)
  deserialize json := do
    let fields ← serde.fieldsOf "struct Manifest" json
    return {
      manifestVersion := ← serde.defaulted serde.u32 0 fields "manifestVersion"
      system := ← serde.defaulted (systemInfo serde) defaultSystem fields "system"
      generation := ← serde.defaulted (generationInfo serde) defaultGeneration fields "generation"
      boot := ← serde.defaulted (serde.option (bootComponents serde)) none fields "boot"
      configuration := ←
        serde.defaulted (configuration serde) defaultConfiguration fields "configuration"
      packages := ← serde.defaulted (serde.vec (package serde)) [] fields "packages"
      drivers := ← serde.defaulted (drivers serde) ⟨[], [], []⟩ fields "drivers"
      users := ← serde.defaulted (serde.btreeMap (user serde)) ∅ fields "users"
      groups := ← serde.defaulted (serde.btreeMap (group serde)) ∅ fields "groups"
      services := ← serde.defaulted (services serde) ⟨∅, [], ""⟩ fields "services"
      activationScripts := ←
        serde.defaulted (serde.vec (activationScript serde)) [] fields "activationScripts"
      files := ← serde.defaulted (serde.btreeMap (fileInfo serde)) ∅ fields "files"
      systemProfile := ← serde.defaulted serde.string "" fields "systemProfile"
      toplevel := ← serde.defaulted (serde.option serde.string) none fields "toplevel"
      etcSource := ← serde.defaulted (serde.option serde.string) none fields "etcSource" }

end Codecs

section RoundTrips

variable {serde : Serde}

@[simp] theorem generationInfo_serialize (generation : GenerationInfo) :
    (generationInfo serde).deserialize ((generationInfo serde).serialize generation) =
      .ok generation := by
  simp [generationInfo]

@[simp] theorem systemInfo_serialize (system : SystemInfo) :
    (systemInfo serde).deserialize ((systemInfo serde).serialize system) = .ok system := by
  simp [systemInfo]

@[simp] theorem bootConfig_serialize (boot : BootConfig) :
    (bootConfig serde).deserialize ((bootConfig serde).serialize boot) = .ok boot := by
  simp [bootConfig]

theorem bootComponents_serialize (boot : BootComponents) :
    (bootComponents serde).deserialize ((bootComponents serde).serialize boot) = .ok boot := by
  simp [bootComponents]

@[simp] theorem defaulted_boot {boot : Option BootComponents} {name : String}
    {rest : List (String × Json)} (fresh : name ∉ rest.map Prod.fst) :
    serde.defaulted (serde.option (bootComponents serde)) none
      (skipNone (bootComponents serde) name boot ++ rest) name = .ok boot := by
  apply defaulted_skipNone_self fresh
  intro own _
  have object : (serde.option (bootComponents serde)).deserialize
      ((bootComponents serde).serialize own) = _ := option_deserialize_object _
  rw [object]
  exact congrArg (Except.map some) (bootComponents_serialize own)

@[simp] theorem hardwareConfig_serialize (hardware : HardwareConfig) :
    (hardwareConfig serde).deserialize ((hardwareConfig serde).serialize hardware) =
      .ok hardware := by
  simp [hardwareConfig]

@[simp] theorem networkingConfig_serialize (networking : NetworkingConfig) :
    (networkingConfig serde).deserialize ((networkingConfig serde).serialize networking) =
      .ok networking := by
  simp [networkingConfig]

@[simp] theorem graphicsConfig_serialize (graphics : SysGraphicsConfig) :
    (graphicsConfig serde).deserialize ((graphicsConfig serde).serialize graphics) =
      .ok graphics := by
  simp [graphicsConfig]

@[simp] theorem securityConfig_serialize (security : SysSecurityConfig) :
    (securityConfig serde).deserialize ((securityConfig serde).serialize security) =
      .ok security := by
  simp [securityConfig]

@[simp] theorem loggingConfig_serialize (logging : SysLoggingConfig) :
    (loggingConfig serde).deserialize ((loggingConfig serde).serialize logging) = .ok logging := by
  simp [loggingConfig]

@[simp] theorem powerConfig_serialize (power : SysPowerConfig) :
    (powerConfig serde).deserialize ((powerConfig serde).serialize power) = .ok power := by
  simp [powerConfig]

@[simp] theorem configuration_serialize (config : Configuration) :
    (configuration serde).deserialize ((configuration serde).serialize config) = .ok config := by
  simp [configuration]

theorem package_serialize (own : Package) :
    (package serde).deserialize ((package serde).serialize own) = .ok own := by
  simp [package]

@[simp] theorem drivers_serialize (own : Drivers) :
    (drivers serde).deserialize ((drivers serde).serialize own) = .ok own := by
  simp [drivers]

theorem user_serialize (own : User) :
    (user serde).deserialize ((user serde).serialize own) = .ok own := by
  simp [user]

theorem group_serialize (own : Group) :
    (group serde).deserialize ((group serde).serialize own) = .ok own := by
  simp [group]

theorem activationScript_serialize (script : ActivationScript) :
    (activationScript serde).deserialize ((activationScript serde).serialize script) =
      .ok script := by
  simp [activationScript]

theorem fileInfo_serialize {file : FileInfo} (small : file.size < 2 ^ 64) :
    (fileInfo serde).deserialize ((fileInfo serde).serialize file) = .ok file := by
  simp [fileInfo, serde.u64_back small]

theorem serviceInfo_serialize {service : ServiceInfo} {map : AList fun _ : String => String}
    (ordered : service.environment = sortedMembers map) :
    (serviceInfo serde).deserialize ((serviceInfo serde).serialize service) = .ok service := by
  have environment : (serde.btreeMembers serde.string).deserialize
      ((serde.btreeMembers serde.string).serialize service.environment) =
        .ok service.environment := by
    rw [ordered]
    exact btreeMembers_back map fun _ text _ => serde.string_back text
  simp [serviceInfo, environment]

/-- What holds of every manifest that has been read. -/
structure Kept (own : Manifest) : Prop where
  sizes : ∀ path file, own.files.lookup path = some file → file.size < 2 ^ 64
  environments : ∀ name service, own.services.declared.lookup name = some service →
    ∃ map, service.environment = sortedMembers map

/-- A manifest that is written and read back is the same manifest. -/
theorem manifest_serialize {own : Manifest} (kept : Kept own) :
    ∃ again, (manifest serde).deserialize ((manifest serde).serialize own) = .ok again ∧
      Rebuild.Equal again own := by
  obtain ⟨users, readUsers, sameUsers⟩ := btreeMap_back
    fun name value (_ : own.users.lookup name = some value) => @user_serialize serde value
  obtain ⟨groups, readGroups, sameGroups⟩ := btreeMap_back
    fun name value (_ : own.groups.lookup name = some value) => @group_serialize serde value
  obtain ⟨files, readFiles, sameFiles⟩ := btreeMap_back
    fun path file (present : own.files.lookup path = some file) =>
      @fileInfo_serialize serde file (kept.sizes path file present)
  have services_ : ∀ name service, own.services.declared.lookup name = some service →
      (serviceInfo serde).deserialize ((serviceInfo serde).serialize service) = .ok service := by
    intro name service present
    obtain ⟨map, ordered⟩ := kept.environments name service present
    exact serviceInfo_serialize ordered
  obtain ⟨declared, readDeclared, sameDeclared⟩ := btreeMap_back services_
  have readServices : (services serde).deserialize ((services serde).serialize own.services) =
      .ok { own.services with declared } := by
    simp [services, readDeclared]
  have packages : (serde.vec (package serde)).deserialize
      ((serde.vec (package serde)).serialize own.packages) = .ok own.packages :=
    vec_back fun value _ => package_serialize value
  have scripts : (serde.vec (activationScript serde)).deserialize
      ((serde.vec (activationScript serde)).serialize own.activationScripts) =
        .ok own.activationScripts :=
    vec_back fun value _ => activationScript_serialize value
  refine ⟨{ own with users, groups, files, services := { own.services with declared } }, ?_, ?_⟩
  · simp [manifest, readUsers, readGroups, readFiles, readServices, packages, scripts]
  · exact ⟨rfl, rfl, rfl, sameFiles, rfl, rfl, rfl, rfl, rfl, rfl, sameUsers, sameGroups,
      ⟨sameDeclared, rfl, rfl⟩, rfl, rfl⟩

theorem environment_reads {fields : List (String × Json)} {environment : List (String × String)}
    (read : serde.defaulted (serde.btreeMembers serde.string) [] fields "environment" =
      .ok environment) :
    ∃ map, environment = sortedMembers map := by
  rcases defaulted_reads read with rfl | ⟨json, read⟩
  · exact ⟨∅, rfl⟩
  · obtain ⟨members, _, rfl⟩ := Attempts.map_eq_ok.mp read
    exact ⟨ofMembers members, rfl⟩

theorem serviceInfo_reads {json : Json} {service : ServiceInfo}
    (read : (serviceInfo serde).deserialize json = .ok service) :
    ∃ map, service.environment = sortedMembers map := by
  simp only [serviceInfo, Attempts.bind_eq_ok] at read
  obtain ⟨fields, _, description, _, command, _, svcType, _, args, _, wantedBy, _, environment,
    ordered, after, _, same⟩ := read
  cases same
  exact environment_reads ordered

theorem services_reads {json : Json} {own : Services}
    (read : (services serde).deserialize json = .ok own) {name : String} {service : ServiceInfo}
    (present : own.declared.lookup name = some service) :
    ∃ map, service.environment = sortedMembers map := by
  simp only [services, Attempts.bind_eq_ok] at read
  obtain ⟨fields, _, declared, readDeclared, initScripts, _, startup, _, same⟩ := read
  cases same
  rcases defaulted_reads readDeclared with rfl | ⟨json, read⟩
  · cases present
  · obtain ⟨one, read⟩ := btreeMap_reads read present
    exact serviceInfo_reads read

theorem fileInfo_reads {json : Json} {file : FileInfo}
    (read : (fileInfo serde).deserialize json = .ok file) : file.size < 2 ^ 64 := by
  simp only [fileInfo, Attempts.bind_eq_ok] at read
  obtain ⟨fields, _, blake3, _, size, found, mode, _, text, _, same⟩ := read
  cases same
  obtain ⟨own, read⟩ := required_reads found
  exact serde.u64_lt read

theorem kept_of_read {json : Json} {own : Manifest}
    (read : (manifest serde).deserialize json = .ok own) : Kept own := by
  simp only [manifest, Attempts.bind_eq_ok] at read
  obtain ⟨fields, _, version, _, system, _, generation, _, boot, _, configuration, _, packages, _,
    drivers, _, users, _, groups, _, services_, readServices, scripts, _, files, readFiles,
    profile, _, toplevel, _, etcSource, _, same⟩ := read
  cases same
  constructor
  · intro path file present
    rcases defaulted_reads readFiles with rfl | ⟨own, read⟩
    · cases present
    · obtain ⟨one, read⟩ := btreeMap_reads read present
      exact fileInfo_reads read
  · intro name service present
    rcases defaulted_reads readServices with rfl | ⟨own, read⟩
    · cases present
    · exact services_reads read present

end RoundTrips

end NixRedox.Schema
