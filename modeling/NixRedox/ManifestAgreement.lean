import NixRedox.ImageManifest

set_option autoImplicit false

/- When the manifest of an image is read by `system.rs` as it was configured. -/
namespace NixRedox.Image

open InitScripts (Service)
open NixRedox.System (FileInfo Package)
open Rebuild (Configuration Group Manifest ServiceInfo User)
open Serde

section Reflecting

/-- The user of a manifest is the configured one. -/
structure UserReflects (option : UserOptions) (own : User) : Prop where
  uid : option.uid.toInt = own.uid.toNat
  gid : option.gid.toInt = own.gid.toNat
  home : own.home = option.home
  shell : own.shell = option.shell

structure GroupReflects (option : GroupOptions) (own : Group) : Prop where
  gid : option.gid.toInt = own.gid.toNat
  members : own.members = option.members

/-- The configuration of a manifest has every setting that was made. -/
structure ConfigurationReflects (inputs : Inputs) (own : Configuration) : Prop where
  diskSize : inputs.boot.diskSizeMB.toInt = own.boot.diskSizeMb.toNat
  espSize : inputs.boot.espSizeMB.toInt = own.boot.espSizeMb.toNat
  bootProof : own.boot.bootProof = inputs.boot.bootProof
  hardware : own.hardware = {
    storageDrivers := texts inputs.hardware.storageDrivers
    networkDrivers := texts inputs.hardware.networkDrivers
    graphicsDrivers := optionals inputs.graphics.enable (texts inputs.hardware.graphicsDrivers)
    audioDrivers := optionals (audioEnabled inputs) (texts inputs.hardware.audioDrivers)
    usbEnabled := usbEnabled inputs }
  networking : own.networking =
    ⟨inputs.networking.enable, inputs.networking.mode.1, inputs.networking.dns⟩
  graphics : own.graphics = ⟨inputs.graphics.enable, inputs.graphics.resolution⟩
  security : own.security = {
    protectKernelSchemes := inputs.security.protectKernelSchemes
    requirePasswords := inputs.security.requirePasswords
    allowRemoteRoot := inputs.security.allowRemoteRoot }
  logLevel : own.logging.logLevel = inputs.logging.level.1
  kernelLogLevel : own.logging.kernelLogLevel = inputs.logging.kernelLogLevel.1
  logToFile : own.logging.logToFile = inputs.logging.logToFile
  maxLogSize : inputs.logging.maxLogSizeMB.toInt = own.logging.maxLogSizeMb.toNat
  power : own.power =
    ⟨inputs.power.acpiEnable, inputs.power.powerAction.1, inputs.power.rebootOnPanic⟩

/-- A service as it is declared. -/
def declaredService (service : Service) : ServiceInfo where
  description := service.description
  command := service.command
  svcType := service.type.text
  args := service.args
  wantedBy := service.wantedBy.text
  environment := sortedMembers service.environment
  after := service.after

def recordedFile (file : TrackedFile) : FileInfo :=
  ⟨file.blake3, file.size.toNat, file.mode, none⟩

def recordedPackage (pkg : Pkg) : Package where
  name := pkg.pname.getD (String.ofList (parseDrvName pkg.name.toList).1)
  version := pkg.version.getD (String.ofList (parseDrvName pkg.name.toList).2)
  storePath := "/nix/store/" ++ pkgStoreName pkg

end Reflecting

section Reading

variable {serde : Serde}

theorem user_eq_ok {option : UserOptions} {own : User} :
    (Schema.user serde).deserialize (userJSON option) = .ok own ↔ UserReflects option own := by
  simp [Schema.user, userJSON, Attempts.bind_eq_ok, serde.u32_eq_ok]
  constructor
  · rintro ⟨uid, sameUid, gid, sameGid, rfl⟩
    exact ⟨sameUid, sameGid, rfl, rfl⟩
  · rintro ⟨uid, gid, home, shell⟩
    exact ⟨own.uid, uid, own.gid, gid, by rw [← home, ← shell]⟩

theorem group_eq_ok {option : GroupOptions} {own : Group} :
    (Schema.group serde).deserialize (groupJSON option) = .ok own ↔ GroupReflects option own := by
  simp [Schema.group, groupJSON, stringsJSON, Attempts.bind_eq_ok, serde.u32_eq_ok]
  constructor
  · rintro ⟨gid, same, rfl⟩
    exact ⟨same, rfl⟩
  · rintro ⟨gid, members⟩
    exact ⟨own.gid, gid, by rw [← members]⟩

theorem package_ok (pkg : Pkg) :
    (Schema.package serde).deserialize (packageJSON pkg) = .ok (recordedPackage pkg) := by
  simp [Schema.package, packageJSON, recordedPackage]

theorem activationScript_ok (script : String × List String) :
    (Schema.activationScript serde).deserialize (activationScriptJSON script) =
      .ok ⟨script.1, script.2⟩ := by
  simp [Schema.activationScript, activationScriptJSON, stringsJSON]

theorem trackedFile_ok (file : TrackedFile) :
    (Schema.fileInfo serde).deserialize (trackedFile file) = .ok (recordedFile file) := by
  have size : serde.u64.deserialize (.number file.size.toNat) = .ok file.size.toNat :=
    serde.u64_eq_ok.mpr ⟨rfl, file.size.toNat_lt⟩
  simp [Schema.fileInfo, trackedFile, recordedFile, size]

section Sets

variable {α β : Type} {codec : Codec serde.Error α} {shown : β → Json}
  {map : AList fun _ : String => β}

/-- A set with an `outPath` is not read as a map if its values are not. -/
theorem mapJSON_succeeds
    (plain : ∀ value result, (serde.btreeMap codec).deserialize (shown value) ≠ .ok result) :
    (∃ result, (serde.btreeMap codec).deserialize (mapJSON shown map) = .ok result) ↔
      map.lookup "outPath" = none ∧ ∀ name value, map.lookup name = some value →
        ∃ found, codec.deserialize (shown value) = .ok found := by
  unfold mapJSON
  cases map.lookup "outPath" with
  | some value => simp [plain value]
  | none =>
      rw [btreeMap_succeeds]
      simp

theorem mapJSON_related
    (plain : ∀ value result, (serde.btreeMap codec).deserialize (shown value) ≠ .ok result)
    {result : AList fun _ : String => α}
    (read : (serde.btreeMap codec).deserialize (mapJSON shown map) = .ok result) (name : String) :
    Option.Rel (fun value found => codec.deserialize (shown value) = .ok found)
      (map.lookup name) (result.lookup name) := by
  unfold mapJSON at read
  cases own : map.lookup "outPath" with
  | some value =>
      rw [own] at read
      exact absurd read (plain value result)
  | none =>
      rw [own] at read
      exact btreeMap_related read name

end Sets

theorem userJSON_plain (option : UserOptions) (result : AList fun _ : String => User) :
    (serde.btreeMap (Schema.user serde)).deserialize (userJSON option) ≠ .ok result := by
  apply btreeMap_refused List.mem_cons_self
  intro value read
  obtain ⟨fields, read, _⟩ := Attempts.bind_eq_ok.mp read
  refine serde.fieldsOf_scalar _ _ _ ?_ read
  trivial

theorem groupJSON_plain (option : GroupOptions) (result : AList fun _ : String => Group) :
    (serde.btreeMap (Schema.group serde)).deserialize (groupJSON option) ≠ .ok result := by
  apply btreeMap_refused List.mem_cons_self
  intro value read
  obtain ⟨fields, read, _⟩ := Attempts.bind_eq_ok.mp read
  refine serde.fieldsOf_scalar _ _ _ ?_ read
  trivial

-- a list of strings could be read as a service, the arguments behind it cannot
theorem serviceJSON_plain (service : Service) (result : AList fun _ : String => ServiceInfo) :
    (serde.btreeMap (Schema.serviceInfo serde)).deserialize (serviceJSON service) ≠
      .ok result := by
  apply btreeMap_refused (List.mem_cons_of_mem _ List.mem_cons_self)
  intro value read
  obtain ⟨fields, read, _⟩ := Attempts.bind_eq_ok.mp read
  refine serde.fieldsOf_scalar _ _ _ ?_ read
  trivial

theorem environment_eq_ok {environment : AList fun _ : String => String}
    {result : List (String × String)} :
    (serde.btreeMembers serde.string).deserialize (mapJSON .string environment) = .ok result ↔
      environment.lookup "outPath" = none ∧ result = sortedMembers environment := by
  unfold mapJSON
  cases environment.lookup "outPath" with
  | some text =>
      simp only [reduceCtorEq, false_and, iff_false]
      intro read
      obtain ⟨members, listed, _⟩ := Attempts.map_eq_ok.mp read
      obtain ⟨_, same, _⟩ := (serde.readMembers_eq_ok _).mp listed
      cases same
  | none =>
      have read : (serde.btreeMembers serde.string).deserialize
          ((serde.btreeMembers serde.string).serialize (sortedMembers environment)) =
            .ok (sortedMembers environment) :=
        btreeMembers_back environment fun _ text _ => serde.string_back text
      have same : (serde.btreeMembers serde.string).serialize (sortedMembers environment) =
          .object ((sortedMembers environment).map fun member => (member.1, .string member.2)) := by
        show writeMembers serde.string (sortedMembers environment) = _
        simp only [writeMembers, serde.string_serialize]
      rw [same] at read
      dsimp only
      rw [read]
      simp [eq_comm]

theorem service_eq_ok {service : Service} {own : ServiceInfo} :
    (Schema.serviceInfo serde).deserialize (serviceJSON service) = .ok own ↔
      service.environment.lookup "outPath" = none ∧ own = declaredService service := by
  simp [Schema.serviceInfo, serviceJSON, stringsJSON, Attempts.bind_eq_ok, environment_eq_ok]
  intro _
  exact eq_comm

theorem configuration_eq_ok {inputs : Inputs} {own : Configuration} :
    (Schema.configuration serde).deserialize (configurationJSON inputs) = .ok own ↔
      ConfigurationReflects inputs own := by
  simp [Schema.configuration, configurationJSON, Schema.bootConfig, Schema.hardwareConfig,
    Schema.networkingConfig, Schema.graphicsConfig, Schema.securityConfig, Schema.loggingConfig,
    Schema.powerConfig, stringsJSON, Attempts.bind_eq_ok, serde.u32_eq_ok]
  constructor
  · rintro ⟨disk, sameDisk, esp, sameEsp, logs, sameLogs, rfl⟩
    exact ⟨sameDisk, sameEsp, rfl, rfl, rfl, rfl, rfl, rfl, rfl, rfl, sameLogs, rfl⟩
  · intro reflects
    refine ⟨own.boot.diskSizeMb, reflects.diskSize, own.boot.espSizeMb, reflects.espSize,
      own.logging.maxLogSizeMb, reflects.maxLogSize, ?_⟩
    rw [← reflects.bootProof, ← reflects.hardware, ← reflects.networking, ← reflects.graphics,
      ← reflects.security, ← reflects.logLevel, ← reflects.kernelLogLevel, ← reflects.logToFile,
      ← reflects.power]

/-- The parts of a manifest that are no numbers or maps. -/
def expected (blake3 : Json → String) (inputs : Inputs) (artifacts : Artifacts)
    (kernel bootloader : String) (config : Configuration)
    (users : AList fun _ : String => User) (groups : AList fun _ : String => Group)
    (declared : AList fun _ : String => ServiceInfo) (files : AList fun _ : String => FileInfo) :
    Manifest where
  manifestVersion := 3
  system := {
    redoxSystemVersion := inputs.system.version
    target := inputs.system.target
    profile := inputs.system.name
    hostname := inputs.time.hostname
    timezone := inputs.time.timezone }
  generation := ⟨1, blake3 (inventory artifacts.files), "initial build", ""⟩
  boot := some {
    kernel := some (kernel ++ "/boot/kernel")
    initfs := some (artifacts.initfs ++ "/boot/initfs")
    bootloader := some (bootloader ++ "/boot/EFI/BOOT/BOOTX64.EFI") }
  configuration := config
  packages := (allPackages inputs).map recordedPackage
  drivers := ⟨allDrivers inputs, initfsDaemons inputs, coreDaemons inputs⟩
  users := users
  groups := groups
  services := ⟨declared, artifacts.initScripts, "/startup.sh"⟩
  activationScripts :=
    (sortedMembers inputs.activationScripts).map fun script => ⟨script.1, script.2⟩
  files := files
  systemProfile := "/nix/system/profile"
  toplevel := none
  etcSource := some ("/nix/store/" ++ baseNameOf artifacts.etcDerivation)

theorem image_eq_ok {blake3 : Json → String} {inputs : Inputs} {artifacts : Artifacts}
    {kernel bootloader : String} {own : Manifest} :
    (Schema.manifest serde).deserialize (imageJSON blake3 inputs artifacts kernel bootloader) =
        .ok own ↔
      ∃ config users groups declared files,
        (Schema.configuration serde).deserialize (configurationJSON inputs) = .ok config ∧
        (serde.btreeMap (Schema.user serde)).deserialize (mapJSON userJSON inputs.users) =
          .ok users ∧
        (serde.btreeMap (Schema.group serde)).deserialize (mapJSON groupJSON inputs.groups) =
          .ok groups ∧
        (serde.btreeMap (Schema.serviceInfo serde)).deserialize
          (mapJSON serviceJSON (declaredServices inputs)) = .ok declared ∧
        (serde.btreeMap (Schema.fileInfo serde)).deserialize (inventory artifacts.files) =
          .ok files ∧
        own = expected blake3 inputs artifacts kernel bootloader config users groups declared
          files := by
  have packages : (serde.vec (Schema.package serde)).deserialize
      (.array ((allPackages inputs).map packageJSON)) =
        .ok ((allPackages inputs).map recordedPackage) := vec_map fun pkg _ => package_ok pkg
  have scripts : (serde.vec (Schema.activationScript serde)).deserialize
      (.array ((sortedMembers inputs.activationScripts).map activationScriptJSON)) =
        .ok ((sortedMembers inputs.activationScripts).map fun script => ⟨script.1, script.2⟩) :=
    vec_map fun script _ => activationScript_ok script
  have version : serde.u32.deserialize (.number 3) = .ok 3 := serde.u32_eq_ok.mpr rfl
  have first : serde.u32.deserialize (.number 1) = .ok 1 := serde.u32_eq_ok.mpr rfl
  have boot : (serde.option (Schema.bootComponents serde)).deserialize (.object [
      ("bootloader", .string (bootloader ++ "/boot/EFI/BOOT/BOOTX64.EFI")),
      ("initfs", .string (artifacts.initfs ++ "/boot/initfs")),
      ("kernel", .string (kernel ++ "/boot/kernel"))]) =
        .ok (some ⟨some (kernel ++ "/boot/kernel"), some (artifacts.initfs ++ "/boot/initfs"),
          some (bootloader ++ "/boot/EFI/BOOT/BOOTX64.EFI")⟩) := by
    rw [option_deserialize_object, Attempts.map_eq_ok]
    exact ⟨_, by simp [Schema.bootComponents], rfl⟩
  simp [Schema.manifest, imageJSON, packages, scripts, version, first, boot, Schema.systemInfo,
    Schema.generationInfo, Schema.drivers, Schema.services, stringsJSON, Attempts.bind_eq_ok,
    expected, eq_comm (a := own)]

end Reading

section Agreement

/-- Every field of the manifest is the configured one. -/
structure Reflects (blake3 : Json → String) (inputs : Inputs) (artifacts : Artifacts)
    (own : Manifest) : Prop where
  manifestVersion : own.manifestVersion = 3
  system : own.system = {
    redoxSystemVersion := inputs.system.version
    target := inputs.system.target
    profile := inputs.system.name
    hostname := inputs.time.hostname
    timezone := inputs.time.timezone }
  generation : own.generation = ⟨1, blake3 (inventory artifacts.files), "initial build", ""⟩
  boot : own.boot = some {
    kernel := inputs.boot.kernel.map (· ++ "/boot/kernel")
    initfs := some (artifacts.initfs ++ "/boot/initfs")
    bootloader := inputs.boot.bootloader.map (· ++ "/boot/EFI/BOOT/BOOTX64.EFI") }
  configuration : ConfigurationReflects inputs own.configuration
  packages : own.packages = (allPackages inputs).map recordedPackage
  drivers : own.drivers = ⟨allDrivers inputs, initfsDaemons inputs, coreDaemons inputs⟩
  users : ∀ name, Option.Rel UserReflects (inputs.users.lookup name) (own.users.lookup name)
  groups : ∀ name, Option.Rel GroupReflects (inputs.groups.lookup name) (own.groups.lookup name)
  declared : ∀ name, Option.Rel (fun service found => found = declaredService service)
    ((declaredServices inputs).lookup name) (own.services.declared.lookup name)
  initScripts : own.services.initScripts = artifacts.initScripts
  startupScript : own.services.startupScript = "/startup.sh"
  activationScripts : own.activationScripts =
    (sortedMembers inputs.activationScripts).map fun script => ⟨script.1, script.2⟩
  files : ∀ path, Option.Rel (fun file found => found = recordedFile file)
    (artifacts.files.lookup path) (own.files.lookup path)
  systemProfile : own.systemProfile = "/nix/system/profile"
  toplevel : own.toplevel = none
  etcSource : own.etcSource = some ("/nix/store/" ++ baseNameOf artifacts.etcDerivation)

/-- A manifest is read with every field as it was configured, and as the same manifest when
it has been written again. -/
def Agrees (serde : Serde) (blake3 : Json → String) (inputs : Inputs) (artifacts : Artifacts)
    (json : Json) : Prop :=
  ∃ own, (Schema.manifest serde).deserialize json = .ok own ∧
    Reflects blake3 inputs artifacts own ∧
    ∃ again, (Schema.manifest serde).deserialize ((Schema.manifest serde).serialize own) =
        .ok again ∧
      Rebuild.Equal again own

/-- A number is a `u32`. -/
def InU32 (value : Int64) : Prop := 0 ≤ value.toInt ∧ value.toInt < 2 ^ 32

/-- The numbers are those of the schema, and no set is printed as something else. -/
structure Fits (inputs : Inputs) : Prop where
  diskSize : inputs.boot.diskSizeMB.toInt < 2 ^ 32
  espSize : 0 ≤ inputs.boot.espSizeMB.toInt
  maxLogSize : inputs.logging.maxLogSizeMB.toInt < 2 ^ 32
  users : ∀ name user, inputs.users.lookup name = some user →
    user.uid.toInt < 2 ^ 32 ∧ InU32 user.gid
  groups : ∀ name group, inputs.groups.lookup name = some group → InU32 group.gid
  userNames : inputs.users.lookup "outPath" = none
  groupNames : inputs.groups.lookup "outPath" = none
  serviceNames : (declaredServices inputs).lookup "outPath" = none
  environments : ∀ name service, (declaredServices inputs).lookup name = some service →
    service.environment.lookup "outPath" = none

theorem exists_u32 {value : Int} :
    (∃ own : UInt32, value = own.toNat) ↔ 0 ≤ value ∧ value < 2 ^ 32 := by
  constructor
  · rintro ⟨own, rfl⟩
    have small := own.toNat_lt
    omega
  · intro ⟨lower, upper⟩
    refine ⟨UInt32.ofNat value.toNat, ?_⟩
    have small : value.toNat < 2 ^ 32 := by omega
    rw [UInt32.toNat_ofNat_of_lt' small]
    omega

variable {serde : Serde} {blake3 : Json → String} {inputs : Inputs} {artifacts : Artifacts}

theorem users_succeed :
    (∃ users, (serde.btreeMap (Schema.user serde)).deserialize (mapJSON userJSON inputs.users) =
        .ok users) ↔
      inputs.users.lookup "outPath" = none ∧ ∀ name user, inputs.users.lookup name = some user →
        InU32 user.uid ∧ InU32 user.gid := by
  rw [mapJSON_succeeds userJSON_plain]
  apply and_congr_right
  intro _
  apply forall₃_congr
  intro name option _
  constructor
  · intro ⟨own, read⟩
    obtain ⟨uid, gid, _, _⟩ := user_eq_ok.mp read
    exact ⟨exists_u32.mp ⟨own.uid, uid⟩, exists_u32.mp ⟨own.gid, gid⟩⟩
  · intro ⟨first, second⟩
    obtain ⟨uid, sameUid⟩ := exists_u32.mpr first
    obtain ⟨gid, sameGid⟩ := exists_u32.mpr second
    exact ⟨⟨uid, gid, option.home, option.shell⟩, user_eq_ok.mpr ⟨sameUid, sameGid, rfl, rfl⟩⟩

theorem groups_succeed :
    (∃ groups, (serde.btreeMap (Schema.group serde)).deserialize (mapJSON groupJSON inputs.groups) =
        .ok groups) ↔
      inputs.groups.lookup "outPath" = none ∧ ∀ name group,
        inputs.groups.lookup name = some group → InU32 group.gid := by
  rw [mapJSON_succeeds groupJSON_plain]
  apply and_congr_right
  intro _
  apply forall₃_congr
  intro name option _
  constructor
  · intro ⟨own, read⟩
    exact exists_u32.mp ⟨own.gid, (group_eq_ok.mp read).gid⟩
  · intro inside
    obtain ⟨gid, same⟩ := exists_u32.mpr inside
    exact ⟨⟨gid, option.members⟩, group_eq_ok.mpr ⟨same, rfl⟩⟩

theorem declared_succeed :
    (∃ declared, (serde.btreeMap (Schema.serviceInfo serde)).deserialize
        (mapJSON serviceJSON (declaredServices inputs)) = .ok declared) ↔
      (declaredServices inputs).lookup "outPath" = none ∧ ∀ name service,
        (declaredServices inputs).lookup name = some service →
          service.environment.lookup "outPath" = none := by
  rw [mapJSON_succeeds serviceJSON_plain]
  apply and_congr_right
  intro _
  apply forall₃_congr
  intro name service _
  constructor
  · intro ⟨own, read⟩
    exact (service_eq_ok.mp read).1
  · intro plain
    exact ⟨declaredService service, service_eq_ok.mpr ⟨plain, rfl⟩⟩

/-- The configuration with its sizes as they are read. -/
def configured (inputs : Inputs) (diskSize espSize maxLogSize : UInt32) : Configuration where
  boot := ⟨diskSize, espSize, inputs.boot.bootProof⟩
  hardware := {
    storageDrivers := texts inputs.hardware.storageDrivers
    networkDrivers := texts inputs.hardware.networkDrivers
    graphicsDrivers := optionals inputs.graphics.enable (texts inputs.hardware.graphicsDrivers)
    audioDrivers := optionals (audioEnabled inputs) (texts inputs.hardware.audioDrivers)
    usbEnabled := usbEnabled inputs }
  networking := ⟨inputs.networking.enable, inputs.networking.mode.1, inputs.networking.dns⟩
  graphics := ⟨inputs.graphics.enable, inputs.graphics.resolution⟩
  security := {
    protectKernelSchemes := inputs.security.protectKernelSchemes
    requirePasswords := inputs.security.requirePasswords
    allowRemoteRoot := inputs.security.allowRemoteRoot }
  logging := {
    logLevel := inputs.logging.level.1
    kernelLogLevel := inputs.logging.kernelLogLevel.1
    logToFile := inputs.logging.logToFile
    maxLogSizeMb := maxLogSize }
  power := ⟨inputs.power.acpiEnable, inputs.power.powerAction.1, inputs.power.rebootOnPanic⟩

theorem configuration_succeeds (checked : Checked inputs) :
    (∃ config, (Schema.configuration serde).deserialize (configurationJSON inputs) = .ok config) ↔
      inputs.boot.diskSizeMB.toInt < 2 ^ 32 ∧ 0 ≤ inputs.boot.espSizeMB.toInt ∧
        inputs.logging.maxLogSizeMB.toInt < 2 ^ 32 := by
  have left := checked.left
  have logs := checked.logs
  constructor
  · intro ⟨config, read⟩
    have reflects := configuration_eq_ok.mp read
    exact ⟨(exists_u32.mp ⟨_, reflects.diskSize⟩).2, (exists_u32.mp ⟨_, reflects.espSize⟩).1,
      (exists_u32.mp ⟨_, reflects.maxLogSize⟩).2⟩
  · intro ⟨disk, esp, log⟩
    obtain ⟨diskSize, sameDisk⟩ := exists_u32.mpr (show 0 ≤ _ ∧ _ from ⟨by omega, disk⟩)
    obtain ⟨espSize, sameEsp⟩ := exists_u32.mpr (show _ ∧ _ < _ from ⟨esp, by omega⟩)
    obtain ⟨maxLogSize, sameLog⟩ := exists_u32.mpr (show 0 ≤ _ ∧ _ from ⟨logs.le, log⟩)
    exact ⟨configured inputs diskSize espSize maxLogSize, configuration_eq_ok.mpr
      ⟨sameDisk, sameEsp, rfl, rfl, rfl, rfl, rfl, rfl, rfl, rfl, sameLog, rfl⟩⟩

theorem files_succeed (files : AList fun _ : String => TrackedFile) :
    ∃ found,
      (serde.btreeMap (Schema.fileInfo serde)).deserialize (inventory files) = .ok found := by
  apply btreeMap_succeeds.mpr
  intro path file _
  exact ⟨recordedFile file, trackedFile_ok file⟩

theorem fits_of_read {kernel bootloader : String} {own : Manifest} (checked : Checked inputs)
    (read : (Schema.manifest serde).deserialize
      (imageJSON blake3 inputs artifacts kernel bootloader) = .ok own) : Fits inputs := by
  obtain ⟨config, users, groups, declared, files, readConfig, readUsers, readGroups,
    readDeclared, _, _⟩ := image_eq_ok.mp read
  obtain ⟨diskSize, espSize, maxLogSize⟩ := (configuration_succeeds checked).mp ⟨_, readConfig⟩
  obtain ⟨userNames, inside⟩ := users_succeed.mp ⟨_, readUsers⟩
  obtain ⟨groupNames, groupIds⟩ := groups_succeed.mp ⟨_, readGroups⟩
  obtain ⟨serviceNames, environments⟩ := declared_succeed.mp ⟨_, readDeclared⟩
  exact { diskSize, espSize, maxLogSize, userNames, groupNames, serviceNames, environments
          users := fun name user present =>
            ⟨(inside name user present).1.2, (inside name user present).2⟩
          groups := groupIds }

/-- The manifest of an image is read as configured when the numbers are those of the schema
and no set is printed as something else. -/
theorem manifest_agrees_iff (serde : Serde) (blake3 : Json → String) (inputs : Inputs)
    (artifacts : Artifacts) (json : Json)
    (made : buildManifest blake3 inputs artifacts = .ok json) :
    Agrees serde blake3 inputs artifacts json ↔ Fits inputs := by
  obtain ⟨accepted, kernel, bootloader, ownKernel, ownBootloader, rfl⟩ := buildManifest_ok made
  have checked := checked_of_assertionCheck accepted
  constructor
  · intro ⟨own, read, _, _⟩
    exact fits_of_read checked read
  · intro fits
    obtain ⟨config, readConfig⟩ := (configuration_succeeds checked).mpr
      ⟨fits.diskSize, fits.espSize, fits.maxLogSize⟩
    obtain ⟨users, readUsers⟩ := users_succeed.mpr ⟨fits.userNames, fun name user present =>
      ⟨⟨checked.uids name user present, (fits.users name user present).1⟩,
        (fits.users name user present).2⟩⟩
    obtain ⟨groups, readGroups⟩ := groups_succeed.mpr ⟨fits.groupNames, fits.groups⟩
    obtain ⟨declared, readDeclared⟩ :=
      declared_succeed.mpr ⟨fits.serviceNames, fits.environments⟩
    obtain ⟨files, readFiles⟩ := files_succeed artifacts.files
    have read : (Schema.manifest serde).deserialize
        (imageJSON blake3 inputs artifacts kernel bootloader) = .ok (expected blake3 inputs
          artifacts kernel bootloader config users groups declared files) :=
      image_eq_ok.mpr ⟨config, users, groups, declared, files, readConfig, readUsers, readGroups,
        readDeclared, readFiles, rfl⟩
    refine ⟨_, read, ?_, Schema.manifest_serialize (Schema.kept_of_read read)⟩
    exact {
      manifestVersion := rfl
      system := rfl
      generation := rfl
      boot := by rw [ownKernel, ownBootloader]; rfl
      configuration := configuration_eq_ok.mp readConfig
      packages := rfl
      drivers := rfl
      users := fun name => related_mono (mapJSON_related userJSON_plain readUsers name)
        fun _ _ => user_eq_ok.mp
      groups := fun name => related_mono (mapJSON_related groupJSON_plain readGroups name)
        fun _ _ => group_eq_ok.mp
      declared := fun name => related_mono (mapJSON_related serviceJSON_plain readDeclared name)
        fun _ _ own => (service_eq_ok.mp own).2
      initScripts := rfl
      startupScript := rfl
      activationScripts := rfl
      files := fun path => related_mono (btreeMap_related readFiles path) fun file found own =>
        (Except.ok.inj ((trackedFile_ok file).symm.trans own)).symm
      systemProfile := rfl
      toplevel := rfl
      etcSource := rfl }

/-- A small image, with a group of the given number. -/
def smallInputs (gid : Int64) : Inputs where
  pkgs := AList.singleton "base" ⟨"base-0.1", none, none, "/nix/store/b-base-0.1"⟩
  system := ⟨"redox", "0.5.0", "x86_64-unknown-redox"⟩
  time := ⟨"redox", "UTC", false⟩
  boot := {
    kernel := some "/nix/store/k-kernel"
    bootloader := some "/nix/store/l-bootloader"
    bootProof := false
    initfsExtraDrivers := []
    initfsEnableGraphics := false
    diskSizeMB := 896
    espSizeMB := 200
    essentialPackages := []
    kernelSyscallDebug := false
    kernelSyscallDebugProcesses := []
    liveMode := false
    initDebug := false }
  hardware := {
    storageDrivers := [⟨"ahcid", by decide⟩]
    networkDrivers := []
    graphicsDrivers := []
    audioEnable := false
    audioDrivers := []
    usbEnable := false }
  networking := ⟨true, ⟨"auto", by decide⟩, ["1.1.1.1"], [], ∅⟩
  graphics := ⟨false, "1024x768", ∅⟩
  security := ⟨true, false, false⟩
  logging := ⟨⟨"info", by decide⟩, ⟨"warn", by decide⟩, true, 10⟩
  power := ⟨true, ⟨"shutdown", by decide⟩, 30, false⟩
  systemPackages := []
  users := AList.singleton "root" ⟨0, 0, "/root", "/bin/ion", ""⟩
  groups := AList.singleton "staff" ⟨gid, []⟩
  services := ⟨∅, ∅, false, false, ⟨"auto", by decide⟩, false⟩
  audioEnable := false
  audioServices := ∅
  storedEnable := false
  snixServices := ∅
  irohEnable := false
  irohServices := ∅
  activationScripts := ∅

def smallArtifacts : Artifacts := ⟨"/nix/store/i-initfs", "/nix/store/e-etc", [], ∅⟩

theorem small_accepted : assertionCheck (smallInputs 0) = .ok () ∧
    assertionCheck (smallInputs (-1)) = .ok () := ⟨rfl, rfl⟩

theorem small_made (gid : Int64) (accepted : assertionCheck (smallInputs gid) = .ok ()) :
    ∃ json, buildManifest (fun _ => "") (smallInputs gid) smallArtifacts = .ok json :=
  buildManifest_succeeds _ accepted rfl rfl rfl rfl rfl rfl (by
    intro name service present
    cases present)

theorem small_agrees :
    ∃ json, buildManifest (fun _ => "") (smallInputs 0) smallArtifacts = .ok json ∧
      Agrees plain (fun _ => "") (smallInputs 0) smallArtifacts json := by
  obtain ⟨json, made⟩ := small_made 0 small_accepted.1
  refine ⟨json, made, (manifest_agrees_iff _ _ _ _ json made).mpr ?_⟩
  have root : ∀ name user, (smallInputs 0).users.lookup name = some user →
      user = ⟨0, 0, "/root", "/bin/ion", ""⟩ := by
    intro name user present
    have member := AList.mem_lookup_iff.mp (Option.mem_def.mpr present)
    cases List.mem_singleton.mp member
    rfl
  have staff : ∀ name group, (smallInputs 0).groups.lookup name = some group →
      group = ⟨0, []⟩ := by
    intro name group present
    have member := AList.mem_lookup_iff.mp (Option.mem_def.mpr present)
    cases List.mem_singleton.mp member
    rfl
  refine ⟨by decide, by decide, by decide, ?_, ?_, rfl, rfl, rfl, ?_⟩
  · intro name user present
    rw [root name user present]
    exact ⟨by decide, by decide, by decide⟩
  · intro name group present
    rw [staff name group present]
    exact ⟨by decide, by decide⟩
  · intro name service present
    cases present

/-- The assertions do not look at the number of a group. -/
theorem negative_gid_unreadable :
    ∃ json, buildManifest (fun _ => "") (smallInputs (-1)) smallArtifacts = .ok json ∧
      ¬ Agrees plain (fun _ => "") (smallInputs (-1)) smallArtifacts json := by
  obtain ⟨json, made⟩ := small_made (-1) small_accepted.2
  obtain ⟨accepted, kernel, bootloader, _, _, rfl⟩ := buildManifest_ok made
  refine ⟨_, made, ?_⟩
  intro ⟨own, read, _, _⟩
  have fits := fits_of_read (checked_of_assertionCheck accepted) read
  have inside := (fits.groups "staff" ⟨-1, []⟩ rfl).1
  exact absurd inside (by decide)

end Agreement

end NixRedox.Image
