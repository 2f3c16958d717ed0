import NixRedox.Rebuild

set_option autoImplicit false

/- Which requested changes a rebuild notices. -/
namespace NixRedox.Rebuild

open KeyedMap (SameMap retain)
open NixRedox.System (FileInfo Package)

/-- The manifests are equal in every field. -/
structure Equal (one two : Manifest) : Prop where
  generation : one.generation = two.generation
  boot : one.boot = two.boot
  packages : one.packages = two.packages
  files : SameMap one.files two.files
  toplevel : one.toplevel = two.toplevel
  etcSource : one.etcSource = two.etcSource
  manifestVersion : one.manifestVersion = two.manifestVersion
  system : one.system = two.system
  configuration : one.configuration = two.configuration
  drivers : one.drivers = two.drivers
  users : SameMap one.users two.users
  groups : SameMap one.groups two.groups
  services : SameServices one.services two.services
  activationScripts : one.activationScripts = two.activationScripts
  systemProfile : one.systemProfile = two.systemProfile

section Settings

variable {α : Type}

/-- A setting is present and differs from the current value. -/
def Asks (wanted : Option α) (current : α) : Prop := ∃ value, wanted = some value ∧ value ≠ current

theorem getD_eq_iff {wanted : Option α} {current : α} :
    current = wanted.getD current ↔ ¬ Asks wanted current := by
  cases wanted with
  | none => simp [Asks]
  | some value => simp [Asks, eq_comm]

end Settings

section Groups

theorem networking_iff {config : Option NetworkConfig} {current : NetworkingConfig} :
    current ≠ mergeNetworking config current ↔ ∃ net, config = some net ∧
      (Asks net.enable current.enabled ∨ Asks net.mode current.mode ∨
        Asks net.dns current.dns) := by
  cases config with
  | none => simp [mergeNetworking]
  | some net =>
      obtain ⟨enabled, mode, dns⟩ := current
      simp only [mergeNetworking, ne_eq, NetworkingConfig.mk.injEq, getD_eq_iff,
        Option.some.injEq, exists_eq_left']
      tauto

theorem graphics_iff {config : Option GraphicsConfigInput} {current : SysGraphicsConfig} :
    current = mergeGraphics config current ↔ ∀ gfx, config = some gfx →
      ¬ Asks gfx.enable current.enabled ∧ ¬ Asks gfx.resolution current.resolution := by
  cases config with
  | none => simp [mergeGraphics]
  | some gfx =>
      obtain ⟨enabled, resolution⟩ := current
      simp only [mergeGraphics, SysGraphicsConfig.mk.injEq, getD_eq_iff, Option.some.injEq,
        forall_eq']

theorem security_iff {config : Option SecurityConfig} {current : SysSecurityConfig} :
    current ≠ mergeSecurity config current ↔ ∃ sec, config = some sec ∧
      (Asks sec.protectKernelSchemes current.protectKernelSchemes ∨
        Asks sec.requirePasswords current.requirePasswords ∨
        Asks sec.allowRemoteRoot current.allowRemoteRoot) := by
  cases config with
  | none => simp [mergeSecurity]
  | some sec =>
      obtain ⟨protect, passwords, root⟩ := current
      simp only [mergeSecurity, ne_eq, SysSecurityConfig.mk.injEq, getD_eq_iff,
        Option.some.injEq, exists_eq_left']
      tauto

theorem logging_iff {config : Option LoggingConfig} {current : SysLoggingConfig} :
    current ≠ mergeLogging config current ↔ ∃ log, config = some log ∧
      (Asks log.level current.logLevel ∨ Asks log.kernelLevel current.kernelLogLevel ∨
        Asks log.logToFile current.logToFile) := by
  cases config with
  | none => simp [mergeLogging]
  | some log =>
      obtain ⟨level, kernelLevel, toFile, size⟩ := current
      simp only [mergeLogging, ne_eq, SysLoggingConfig.mk.injEq, getD_eq_iff,
        Option.some.injEq, exists_eq_left', and_true]
      tauto

theorem power_iff {config : Option PowerConfig} {current : SysPowerConfig} :
    current ≠ mergePower config current ↔ ∃ pwr, config = some pwr ∧
      (Asks pwr.acpiEnabled current.acpiEnabled ∨ Asks pwr.powerAction current.powerAction ∨
        Asks pwr.rebootOnPanic current.rebootOnPanic) := by
  cases config with
  | none => simp [mergePower]
  | some pwr =>
      obtain ⟨acpi, action, reboot⟩ := current
      simp only [mergePower, ne_eq, SysPowerConfig.mk.injEq, getD_eq_iff,
        Option.some.injEq, exists_eq_left']
      tauto

end Groups

section Files

variable {β : Type} {value : ManagedFileInput → String → β}

/-- Whether files can be inserted does not depend on what is there, and a path is either
written or left alone. -/
theorem insertFiles_transfer {files : List (String × ManagedFileInput)}
    {start result : AList fun _ : String => β} (inserted : insertFiles value files start = .ok result)
    (other : AList fun _ : String => β) :
    ∃ after, insertFiles value files other = .ok after ∧ ∀ path,
      (result.lookup path = start.lookup path ∧ after.lookup path = other.lookup path) ∨
      ∃ written, result.lookup path = some written ∧ after.lookup path = some written := by
  induction files generalizing start other with
  | nil =>
      cases inserted
      exact ⟨other, rfl, fun _ => .inl ⟨rfl, rfl⟩⟩
  | cons entry rest ih =>
      obtain ⟨path, file⟩ := entry
      unfold insertFiles at inserted ⊢
      split at inserted
      · cases inserted
      · rename_i normalizedPath valid
        split at inserted
        · cases inserted
        · rename_i normalizedMode mode
          obtain ⟨after, done, same⟩ := ih inserted (other.insert normalizedPath
            (value file normalizedMode))
          refine ⟨after, done, ?_⟩
          intro key
          rcases same key with ⟨kept, keptToo⟩ | written
          · by_cases own : key = normalizedPath
            · subst own
              rw [AList.lookup_insert] at kept keptToo
              exact .inr ⟨_, kept, keptToo⟩
            · rw [AList.lookup_insert_ne own] at kept keptToo
              exact .inl ⟨kept, keptToo⟩
          · exact .inr written

/-- The declared files, in the form they have in a manifest. -/
def declaredFiles (blake3 : ByteArray → String)
    (files : AList fun _ : String => ManagedFileInput) : Except String Activate.Files :=
  insertFiles (managedInfo blake3) (sortedEntries files) ∅

theorem mergeFiles_lookup {blake3 : ByteArray → String} {current merged : Activate.Files}
    {files : AList fun _ : String => ManagedFileInput}
    (success : mergeFiles blake3 current (some files) = .ok merged) :
    ∃ declared, declaredFiles blake3 files = .ok declared ∧ ∀ path,
      merged.lookup path = (declared.lookup path).or
        ((current.lookup path).filter fun info => info.text.isNone) := by
  obtain ⟨declared, found, same⟩ := insertFiles_transfer success ∅
  refine ⟨declared, found, ?_⟩
  intro path
  rcases same path with ⟨kept, absent⟩ | ⟨written, both, also⟩
  · rw [kept, absent, AList.lookup_empty, Option.none_or, KeyedMap.lookup_retain]
  · rw [both, also, Option.some_or]

end Files

/-- A compared field changes: hostname, timezone, one of the groups networking, security,
logging and power, the names and store paths of the packages, the users, or the files. -/
def Noticed (blake3 : ByteArray → String) (current : Manifest) (config : RebuildConfig)
    (resolved : List Package) : Prop :=
  Asks config.hostname current.system.hostname ∨
  Asks config.timezone current.system.timezone ∨
  (∃ net, config.networking = some net ∧
    (Asks net.enable current.configuration.networking.enabled ∨
      Asks net.mode current.configuration.networking.mode ∨
      Asks net.dns current.configuration.networking.dns)) ∨
  (∃ sec, config.security = some sec ∧
    (Asks sec.protectKernelSchemes current.configuration.security.protectKernelSchemes ∨
      Asks sec.requirePasswords current.configuration.security.requirePasswords ∨
      Asks sec.allowRemoteRoot current.configuration.security.allowRemoteRoot)) ∨
  (∃ log, config.logging = some log ∧
    (Asks log.level current.configuration.logging.logLevel ∨
      Asks log.kernelLevel current.configuration.logging.kernelLogLevel ∨
      Asks log.logToFile current.configuration.logging.logToFile)) ∨
  (∃ pwr, config.power = some pwr ∧
    (Asks pwr.acpiEnabled current.configuration.power.acpiEnabled ∨
      Asks pwr.powerAction current.configuration.power.powerAction ∨
      Asks pwr.rebootOnPanic current.configuration.power.rebootOnPanic)) ∨
  (config.packages.isSome = true ∧ resolved ≠ [] ∧
    packageKeys current.packages ≠ packageKeys (dedupByName []
      (current.packages.filter (fun package => isBootEssential package.name) ++ resolved))) ∨
  (∃ users, config.users = some users ∧ ¬ SameMap current.users users) ∨
  (∃ files declared path, config.files = some files ∧
    declaredFiles blake3 files = .ok declared ∧
    current.files.lookup path ≠ (declared.lookup path).or
      ((current.files.lookup path).filter fun info => info.text.isNone))

/-- The fields that are not compared stay: graphics, the groups, and the versions of the
packages. -/
structure Unasked (current : Manifest) (config : RebuildConfig) (resolved : List Package) :
    Prop where
  graphics : ∀ gfx, config.graphics = some gfx →
    ¬ Asks gfx.enable current.configuration.graphics.enabled ∧
      ¬ Asks gfx.resolution current.configuration.graphics.resolution
  groups : ∀ users, config.users = some users → SameMap current.groups (userGroups users)
  versions : config.packages.isSome = true → ∀ package ∈ current.packages,
    isBootEssential package.name = false → ∀ found ∈ resolved.find? (·.name = package.name),
      package.version = found.version

section Packages

/-- What stays of a name is its first occurrence. -/
theorem mem_dedupByName {package : Package} {packages : List Package} (seen : List String) :
    package ∈ dedupByName seen packages ↔
      package.name ∉ seen ∧ packages.find? (·.name = package.name) = some package := by
  induction packages generalizing seen with
  | nil => simp [dedupByName]
  | cons first rest ih =>
      unfold dedupByName
      split
      · rename_i known
        rw [ih]
        apply and_congr_right
        intro fresh
        have other : first.name ≠ package.name := by
          intro same
          rw [same] at known
          exact fresh known
        simp [other]
      · rename_i unknown
        rw [List.mem_cons, ih]
        by_cases same : first.name = package.name
        · simp only [List.mem_cons, same, true_or, not_true_eq_false, false_and, or_false,
            List.find?_cons, decide_true, Option.some.injEq]
          rw [← same, eq_comm (a := package)]
          exact ⟨fun equal => ⟨unknown, equal⟩, fun both => both.2⟩
        · have other : package ≠ first := by
            rintro rfl
            exact same rfl
          simp [other, same, Ne.symm same]

theorem dedupByName_names_nodup (packages : List Package) (seen : List String) :
    ((dedupByName seen packages).map (·.name)).Nodup := by
  induction packages generalizing seen with
  | nil => simp [dedupByName]
  | cons first rest ih =>
      unfold dedupByName
      split
      · exact ih seen
      · rw [List.map_cons, List.nodup_cons]
        refine ⟨?_, ih _⟩
        intro again
        obtain ⟨package, member, same⟩ := List.mem_map.mp again
        exact ((mem_dedupByName _).mp member).1 (by simp [same])

theorem essential_find?_none {packages : List Package} {name : String}
    (managed : isBootEssential name = false) :
    (packages.filter fun package => isBootEssential package.name).find? (·.name = name) = none := by
  rw [List.find?_eq_none]
  intro package kept named
  rw [List.mem_filter] at kept
  rw [decide_eq_true_eq] at named
  rw [named, managed] at kept
  exact absurd kept.2 Bool.false_ne_true

theorem essential_find?_some {packages : List Package} {package : Package}
    (member : package ∈ packages) (essential : isBootEssential package.name = true) :
    ∃ first ∈ packages, first.name = package.name ∧ (packages.filter fun package =>
      isBootEssential package.name).find? (·.name = package.name) = some first := by
  obtain ⟨first, found⟩ : ∃ first, (packages.filter fun package =>
      isBootEssential package.name).find? (·.name = package.name) = some first := by
    rw [← Option.isSome_iff_exists, List.find?_isSome]
    exact ⟨package, List.mem_filter.mpr ⟨member, essential⟩, by simp⟩
  have named := List.find?_some found
  rw [decide_eq_true_eq] at named
  exact ⟨first, (List.mem_filter.mp (List.mem_of_find?_eq_some found)).1, named, found⟩

/-- Packages that agree in name and store path are the same if those of one name agree in
their version. -/
theorem eq_of_packageKeys {one two : List Package} (keys : packageKeys one = packageKeys two)
    (versions : ∀ package ∈ one, ∀ other ∈ two, package.name = other.name →
      package.version = other.version) : one = two := by
  induction one generalizing two with
  | nil =>
      have empty : two = [] := by
        rw [← List.map_eq_nil_iff]
        exact keys.symm
      rw [empty]
  | cons first rest ih =>
      cases two with
      | nil => simp [packageKeys] at keys
      | cons other others =>
          simp only [packageKeys, List.map_cons, List.cons.injEq, Prod.mk.injEq] at keys
          obtain ⟨⟨name, storePath⟩, keys⟩ := keys
          have version := versions first (by simp) other (by simp) name
          have same : first = other := by
            cases first
            cases other
            simp_all
          rw [same, ih keys]
          intro package member another also
          exact versions package (by simp [member]) another (by simp [also])

end Packages

section Detection

variable {blake3 : ByteArray → String} {current merged : Manifest} {config : RebuildConfig}
  {resolved : List Package}

theorem files_iff {files : Activate.Files}
    (success : mergeFiles blake3 current.files config.files = .ok files) :
    ¬ SameMap current.files files ↔ ∃ files declared path, config.files = some files ∧
      declaredFiles blake3 files = .ok declared ∧
      current.files.lookup path ≠ (declared.lookup path).or
        ((current.files.lookup path).filter fun info => info.text.isNone) := by
  cases given : config.files with
  | none =>
      rw [given] at success
      cases success
      simp [SameMap.refl]
  | some inputs =>
      rw [given] at success
      obtain ⟨declared, found, same⟩ := mergeFiles_lookup success
      constructor
      · intro differs
        obtain ⟨path, differs⟩ := not_forall.mp differs
        rw [same path] at differs
        exact ⟨inputs, declared, path, rfl, found, differs⟩
      · rintro ⟨others, declaredToo, path, ⟨⟩, again, differs⟩ equal
        rw [found] at again
        cases again
        apply differs
        rw [← same path]
        exact equal path

theorem users_iff :
    ¬ SameMap current.users (config.users.getD current.users) ↔
      ∃ users, config.users = some users ∧ ¬ SameMap current.users users := by
  cases config.users with
  | none => simp [SameMap.refl]
  | some users => simp

theorem packages_iff {keys : List Package → List (String × String)} :
    keys current.packages ≠ keys (if config.packages.isSome ∧ resolved ≠ [] then
        mergePackages current.packages resolved else current.packages) ↔
      config.packages.isSome = true ∧ resolved ≠ [] ∧
        keys current.packages ≠ keys (dedupByName []
          (current.packages.filter (fun package => isBootEssential package.name) ++ resolved)) := by
  split
  · rename_i given
    simp [given, mergePackages]
  · rename_i absent
    constructor
    · intro differs
      exact absurd rfl differs
    · rintro ⟨some_, nonempty, -⟩
      exact absurd ⟨some_, nonempty⟩ absent

/-- The test for changes sees exactly the compared fields. -/
theorem hasManifestChanges_iff
    (success : mergeConfig blake3 current config resolved = .ok merged) :
    hasManifestChanges current merged = true ↔ Noticed blake3 current config resolved := by
  unfold mergeConfig at success
  split at success
  · cases success
  · rename_i files found
    cases success
    unfold hasManifestChanges Noticed
    rw [decide_eq_true_eq]
    simp only [ne_eq, not_true_eq_false, false_or, or_false]
    have services : ¬ ¬ SameServices current.services current.services := by
      simp [SameServices, SameMap.refl]
    rw [← networking_iff, ← security_iff, ← logging_iff, ← power_iff, ← users_iff,
      ← files_iff found, ← packages_iff]
    simp only [getD_eq_iff, not_not, ne_eq, services, false_or]

/-- With the same names and store paths, the merged packages are the current ones exactly
if the resolved packages that stand for others have their version. -/
theorem mergePackages_eq_iff
    (keys : packageKeys current.packages = packageKeys (mergePackages current.packages resolved)) :
    current.packages = mergePackages current.packages resolved ↔
      ∀ package ∈ current.packages, isBootEssential package.name = false →
        ∀ found ∈ resolved.find? (·.name = package.name), package.version = found.version := by
  have names : (current.packages.map (·.name)).Nodup := by
    have first : ∀ packages : List Package,
        packages.map (·.name) = (packageKeys packages).map Prod.fst := by
      intro packages
      rw [packageKeys, List.map_map]
      rfl
    rw [first, keys, ← first]
    exact dedupByName_names_nodup _ _
  constructor
  · intro same package member managed found present
    rw [same] at member
    obtain ⟨-, chosen⟩ := (mem_dedupByName _).mp member
    rw [List.find?_append, essential_find?_none managed, Option.none_or, present] at chosen
    rw [Option.some.inj chosen]
  · intro versions
    apply eq_of_packageKeys keys
    intro package member other chosen named
    obtain ⟨-, chosen⟩ := (mem_dedupByName _).mp chosen
    rw [← named, List.find?_append] at chosen
    cases essential : isBootEssential package.name with
    | true =>
        obtain ⟨first, inside, same, present⟩ := essential_find?_some member essential
        rw [present, Option.some_or] at chosen
        rw [← Option.some.inj chosen, List.inj_on_of_nodup_map names inside member same]
    | false =>
        rw [essential_find?_none essential, Option.none_or] at chosen
        exact versions package member essential other chosen

/-- Without a change that is noticed, nothing has changed exactly if the other fields
stay. -/
theorem equal_iff_of_unnoticed
    (success : mergeConfig blake3 current config resolved = .ok merged)
    (quiet : hasManifestChanges current merged = false) :
    Equal current merged ↔ Unasked current config resolved := by
  unfold mergeConfig at success
  split at success
  · cases success
  · rename_i files found
    cases success
    unfold hasManifestChanges at quiet
    rw [decide_eq_false_iff_not] at quiet
    simp only [ne_eq, not_or, not_not] at quiet
    obtain ⟨hostname, timezone, networking, security, logging, power, -, keys, users, services,
      sameFiles, -, -⟩ := quiet
    have packages : current.packages = (if config.packages.isSome ∧ resolved ≠ [] then
          mergePackages current.packages resolved else current.packages) ↔
        (config.packages.isSome = true → ∀ package ∈ current.packages,
          isBootEssential package.name = false →
            ∀ found ∈ resolved.find? (·.name = package.name),
              package.version = found.version) := by
      split at keys
      · rename_i given
        rw [if_pos given, mergePackages_eq_iff keys]
        simp [given.1]
      · rename_i absent
        rw [if_neg absent]
        constructor
        · intro _ given package _ _ found present
          rw [not_and, not_not] at absent
          rw [absent given] at present
          cases present
        · intro _
          rfl
    constructor
    · intro equal
      constructor
      · exact graphics_iff.mp (congrArg Configuration.graphics equal.configuration)
      · intro given supplied
        simpa [supplied] using equal.groups
      · exact packages.mp equal.packages
    · intro unasked
      constructor <;> try rfl
      · exact packages.mpr unasked.versions
      · exact sameFiles
      · simp only [← hostname, ← timezone]
      · have graphics := graphics_iff.mpr unasked.graphics
        simp only [← networking, ← graphics, ← security, ← logging, ← power]
      · exact users
      · cases supplied : config.users with
        | none =>
            exact SameMap.refl _
        | some given => exact unasked.groups given supplied
      · exact services

/-- A rebuild that reports no changes leaves everything as it is, exactly if a compared
field changes or no other field does. -/
theorem unnoticed_changes_iff
    (success : mergeConfig blake3 current config resolved = .ok merged) :
    (hasManifestChanges current merged = false → Equal current merged) ↔
      Noticed blake3 current config resolved ∨ Unasked current config resolved := by
  cases changes : hasManifestChanges current merged with
  | true =>
      have noticed := (hasManifestChanges_iff success).mp changes
      simp [noticed]
  | false =>
      have unnoticed : ¬ Noticed blake3 current config resolved := by
        rw [← hasManifestChanges_iff success, changes]
        simp
      rw [equal_iff_of_unnoticed success changes]
      simp [unnoticed]

end Detection

section Headless

/-- `RebuildConfig::default()`. -/
def unset : RebuildConfig where
  hostname := none
  timezone := none
  packages := none
  networking := none
  graphics := none
  security := none
  logging := none
  power := none
  users := none
  programs := none
  files := none
  hardware := none
  services := none
  packageSources := none
  systemSource := none

/-- A system without users, services and managed files. -/
def headless (packages : List Package) (files : Activate.Files) : Manifest where
  generation := { id := 1, buildHash := "", description := "initial", timestamp := "" }
  boot := none
  packages
  files
  toplevel := none
  etcSource := none
  manifestVersion := 1
  system :=
    { redoxSystemVersion := "0.9.0", target := "x86_64-unknown-redox", profile := "minimal",
      hostname := "redox", timezone := "UTC" }
  configuration :=
    { boot := { diskSizeMb := 512, espSizeMb := 200, bootProof := false }
      hardware :=
        { storageDrivers := [], networkDrivers := [], graphicsDrivers := [], audioDrivers := []
          usbEnabled := false }
      networking := { enabled := true, mode := "auto", dns := [] }
      graphics := { enabled := false, resolution := "1024x768" }
      security :=
        { protectKernelSchemes := true, requirePasswords := false, allowRemoteRoot := false }
      logging := { logLevel := "info", kernelLogLevel := "warn", logToFile := true, maxLogSizeMb := 10 }
      power := { acpiEnabled := true, powerAction := "shutdown", rebootOnPanic := false } }
  drivers := { all := [], initfs := [], core := [] }
  users := ∅
  groups := ∅
  services := { declared := ∅, initScripts := [], startupScript := "" }
  activationScripts := []
  systemProfile := ""

def graphical : RebuildConfig :=
  { unset with graphics := some { enable := some true, resolution := none } }

/-- A configuration that only turns graphics on is reported as no change. -/
theorem graphics_unnoticed :
    ¬ ∀ (blake3 : ByteArray → String) (current merged : Manifest) (config : RebuildConfig)
      (resolved : List Package), Accepted config →
        mergeConfig blake3 current config resolved = .ok merged →
        hasManifestChanges current merged = false → Equal current merged := by
  intro always
  have equal := always (fun _ => "") (headless [] ∅) _ graphical [] ⟨graphical, rfl⟩ rfl
    (by decide)
  have same := congrArg (fun configuration => configuration.graphics.enabled) equal.configuration
  exact absurd same (by decide)

theorem headless_unasked :
    Unasked (headless [] ∅)
      { unset with graphics := some { enable := some false, resolution := none } } [] where
  graphics gfx given := by
    cases given
    simp [Asks, headless]
  groups users given := by cases given
  versions given := by cases given

theorem unnoticed_changes_headless :
    mergeConfig (fun _ => "") (headless [] ∅)
        { unset with graphics := some { enable := some false, resolution := none } } [] =
      .ok (headless [] ∅) ∧
    (hasManifestChanges (headless [] ∅) (headless [] ∅) = false →
      Equal (headless [] ∅) (headless [] ∅)) := by
  have merged : mergeConfig (fun _ => "") (headless [] ∅)
      { unset with graphics := some { enable := some false, resolution := none } } [] =
        .ok (headless [] ∅) := rfl
  exact ⟨merged, (unnoticed_changes_iff merged).mpr (.inr headless_unasked)⟩

end Headless

end NixRedox.Rebuild
