import NixRedox.RebuildChanges

set_option autoImplicit false

/- When the same rebuild, run again, changes nothing more. -/
namespace NixRedox.Rebuild

open KeyedMap (SameMap)
open NixRedox.System (FileInfo Package)

/-- Every resolved boot-essential package that comes after another kind of package has the
name of a current package, or of one of the boot-essential packages that lead the list. -/
def EssentialsLead (current resolved : List Package) : Prop :=
  ∀ late ∈ resolved.dropWhile (fun package => isBootEssential package.name),
    isBootEssential late.name = true →
      ∃ early ∈ current ++ resolved.takeWhile (fun package => isBootEssential package.name),
        early.name = late.name

/-- Boot-essential packages of one name have one store path. -/
def EssentialsAgree (packages : List Package) : Prop :=
  ∀ package ∈ packages, isBootEssential package.name = true → ∀ other ∈ packages,
    other.name = package.name → other.storePath = package.storePath

section Dedup

theorem mem_dedupByName_names {packages : List Package} {seen : List String} {name : String} :
    name ∈ (dedupByName seen packages).map (·.name) ↔
      name ∉ seen ∧ name ∈ packages.map (·.name) := by
  simp only [List.mem_map]
  constructor
  · rintro ⟨package, member, rfl⟩
    obtain ⟨fresh, found⟩ := (mem_dedupByName _).mp member
    exact ⟨fresh, package, List.mem_of_find?_eq_some found, rfl⟩
  · rintro ⟨fresh, package, member, rfl⟩
    obtain ⟨first, found⟩ : ∃ first, packages.find? (·.name = package.name) = some first := by
      rw [← Option.isSome_iff_exists, List.find?_isSome]
      exact ⟨package, member, by simp⟩
    have named := List.find?_some found
    rw [decide_eq_true_eq] at named
    refine ⟨first, (mem_dedupByName _).mpr ?_, named⟩
    rw [named]
    exact ⟨fresh, found⟩

theorem dedupByName_congr {one two : List String} (same : ∀ name, name ∈ one ↔ name ∈ two)
    (packages : List Package) : dedupByName one packages = dedupByName two packages := by
  induction packages generalizing one two with
  | nil => rfl
  | cons first rest ih =>
      have extended : ∀ name, name ∈ first.name :: one ↔ name ∈ first.name :: two := by
        intro name
        simp [same name]
      simp only [dedupByName, same first.name, ih same, ih extended]

theorem dedupByName_append (front back : List Package) (seen : List String) :
    dedupByName seen (front ++ back) =
      dedupByName seen front ++ dedupByName (front.map (·.name) ++ seen) back := by
  induction front generalizing seen with
  | nil => rfl
  | cons first rest ih =>
      simp only [List.cons_append, dedupByName]
      split
      · rename_i known
        rw [ih]
        congr 1
        apply dedupByName_congr
        intro name
        simp only [List.map_cons, List.cons_append, List.mem_cons, List.mem_append]
        constructor
        · exact .inr
        · rintro (rfl | member)
          · exact .inr known
          · exact member
      · rw [ih, List.cons_append]
        congr 2
        apply dedupByName_congr
        intro name
        simp only [List.map_cons, List.cons_append, List.mem_cons, List.mem_append]
        tauto

theorem dedupByName_of_nodup {packages : List Package} {seen : List String}
    (names : (packages.map (·.name)).Nodup) (fresh : ∀ package ∈ packages, package.name ∉ seen) :
    dedupByName seen packages = packages := by
  induction packages generalizing seen with
  | nil => rfl
  | cons first rest ih =>
      rw [List.map_cons, List.nodup_cons] at names
      rw [dedupByName, if_neg (fresh first (by simp)), ih names.2]
      intro package member known
      rcases List.mem_cons.mp known with same | known
      · exact names.1 (same ▸ List.mem_map_of_mem member)
      · exact fresh package (by simp [member]) known

/-- Seeing more names first only takes the packages of these names away. -/
theorem dedupByName_seen_append (packages : List Package) (extra seen : List String) :
    dedupByName (extra ++ seen) packages =
      (dedupByName seen packages).filter fun package => package.name ∉ extra := by
  induction packages generalizing seen with
  | nil => rfl
  | cons first rest ih =>
      have moved : dedupByName (first.name :: (extra ++ seen)) rest =
          dedupByName (extra ++ first.name :: seen) rest := by
        apply dedupByName_congr
        intro name
        simp only [List.mem_cons, List.mem_append]
        tauto
      by_cases known : first.name ∈ seen
      · simp [dedupByName, known, ih]
      · by_cases among : first.name ∈ extra
        · have covered : dedupByName (extra ++ seen) rest =
              dedupByName (extra ++ first.name :: seen) rest := by
            apply dedupByName_congr
            intro name
            simp only [List.mem_cons, List.mem_append]
            constructor
            · tauto
            · rintro (member | rfl | member) <;> tauto
          simp [dedupByName, known, among, covered, ih]
        · simp [dedupByName, known, among, moved, ih]

end Dedup

section Again

variable {current resolved : List Package}

/-- Merging again moves the boot-essential packages to the front. -/
theorem mergePackages_again :
    mergePackages (mergePackages current resolved) resolved =
      (mergePackages current resolved).filter (fun package => isBootEssential package.name) ++
      (mergePackages current resolved).filter (fun package => ¬ isBootEssential package.name) := by
  let essential := current.filter fun package => isBootEssential package.name
  let added := dedupByName (essential.map (·.name)) resolved
  have split : mergePackages current resolved = dedupByName [] essential ++ added := by
    simp [mergePackages, dedupByName_append, essential, added]
  have kept : ∀ package ∈ dedupByName [] essential, isBootEssential package.name = true := by
    intro package member
    have found := List.mem_of_find?_eq_some ((mem_dedupByName _).mp member).2
    exact (List.mem_filter.mp found).2
  let front := (mergePackages current resolved).filter fun package => isBootEssential package.name
  have distinct : (front.map (·.name)).Nodup := by
    apply List.Nodup.sublist (List.filter_sublist.map _)
    exact dedupByName_names_nodup _ _
  have fronts : ∀ name, name ∈ front.map (·.name) ↔ isBootEssential name = true ∧
      name ∈ (mergePackages current resolved).map (·.name) := by
    intro name
    simp only [front, List.mem_map, List.mem_filter]
    constructor
    · rintro ⟨package, ⟨member, essential⟩, rfl⟩
      exact ⟨essential, package, member, rfl⟩
    · rintro ⟨essential, package, member, rfl⟩
      exact ⟨package, ⟨member, essential⟩, rfl⟩
  have covered : ∀ name, name ∈ front.map (·.name) ↔
      name ∈ front.map (·.name) ++ essential.map (·.name) := by
    intro name
    rw [List.mem_append, iff_self_or]
    intro member
    rw [fronts, mergePackages, mem_dedupByName_names, List.map_append, List.mem_append]
    obtain ⟨package, present, rfl⟩ := List.mem_map.mp member
    exact ⟨(List.mem_filter.mp present).2, by simp, .inl member⟩
  have others : ∀ package ∈ added, decide (package.name ∉ front.map (·.name)) =
      decide (¬ isBootEssential package.name = true) := by
    intro package member
    have present : package.name ∈ (mergePackages current resolved).map (·.name) := by
      rw [split, List.map_append, List.mem_append]
      exact .inr (List.mem_map_of_mem member)
    simp only [fronts, present, and_true]
  calc mergePackages (mergePackages current resolved) resolved
      = front ++ dedupByName (front.map (·.name)) resolved := by
        rw [mergePackages, dedupByName_append,
          dedupByName_of_nodup distinct (by simp), List.append_nil]
    _ = front ++ added.filter (fun package => ¬ isBootEssential package.name) := by
        rw [dedupByName_congr covered, dedupByName_seen_append, List.filter_congr others]
    _ = _ := by
        congr 1
        have none_left : (dedupByName [] essential).filter
            (fun package => ¬ isBootEssential package.name) = [] := by
          rw [List.filter_eq_nil_iff]
          intro package member
          simp [kept package member]
        rw [split, List.filter_append, none_left, List.nil_append]

/-- Moving them changes nothing exactly if none comes after another kind of package. -/
theorem essentials_first_iff {front rest : List Package} {other : Package}
    (leading : ∀ package ∈ front, isBootEssential package.name = true)
    (managed : isBootEssential other.name = false) :
    packageKeys (front ++ other :: rest) = packageKeys
        ((front ++ other :: rest).filter (fun package => isBootEssential package.name) ++
        (front ++ other :: rest).filter (fun package => ¬ isBootEssential package.name)) ↔
      ∀ package ∈ rest, isBootEssential package.name = false := by
  have all : front.filter (fun package => isBootEssential package.name) = front :=
    List.filter_eq_self.mpr leading
  have noneOthers : front.filter (fun package => ¬ isBootEssential package.name) = [] := by
    rw [List.filter_eq_nil_iff]
    intro package member
    simp [leading package member]
  simp only [List.filter_append, List.filter_cons, managed, all, noneOthers]
  simp only [Bool.false_eq_true, not_false_eq_true, decide_true, if_true, if_false, List.nil_append,
    List.append_assoc, packageKeys, List.map_append, List.append_cancel_left_eq, List.map_cons]
  constructor
  · intro same package member
    by_contra essential
    rw [Bool.not_eq_false] at essential
    cases moved : rest.filter fun package => isBootEssential package.name with
    | nil =>
        rw [List.filter_eq_nil_iff] at moved
        exact moved package member essential
    | cons first others =>
        have inside : first ∈ rest.filter fun package => isBootEssential package.name := by
          rw [moved]
          simp
        rw [moved, List.map_cons, List.cons_append, List.cons.injEq, Prod.mk.injEq] at same
        have essential := (List.mem_filter.mp inside).2
        rw [← same.1.1, managed] at essential
        exact absurd essential Bool.false_ne_true
  · intro behind
    rw [List.filter_eq_nil_iff.mpr, List.filter_eq_self.mpr]
    · rfl
    · intro package member
      simp [behind package member]
    · intro package member
      simp [behind package member]

/-- The names of the boot-essential packages in front. -/
theorem mem_front_names {lead : List Package} {name : String}
    (essentialName : isBootEssential name = true) :
    name ∈ ((current.filter fun package => isBootEssential package.name) ++ lead).map (·.name) ↔
      ∃ early ∈ current ++ lead, early.name = name := by
  simp only [List.mem_map, List.mem_append, List.mem_filter]
  constructor
  · rintro ⟨package, ⟨kept, -⟩ | first, named⟩
    · exact ⟨package, .inl kept, named⟩
    · exact ⟨package, .inr first, named⟩
  · rintro ⟨package, kept | first, named⟩
    · rw [← named] at essentialName
      exact ⟨package, .inl ⟨kept, essentialName⟩, named⟩
    · exact ⟨package, .inr first, named⟩

/-- No boot-essential package is left behind another package if all are known in front. -/
theorem plain_behind_iff {other : Package} {rest : List Package} {names : List String}
    (managed : isBootEssential other.name = false) :
    (∀ package ∈ dedupByName (other.name :: names) rest, isBootEssential package.name = false) ↔
      ∀ late ∈ other :: rest, isBootEssential late.name = true → late.name ∈ names := by
  constructor
  · intro behind late member essentialName
    by_contra unknown
    have different : late.name ≠ other.name := by
      intro same
      rw [same, managed] at essentialName
      exact absurd essentialName Bool.false_ne_true
    have listed : late.name ∈ rest.map (·.name) := by
      rcases List.mem_cons.mp member with same | member
      · exact absurd (congrArg Package.name same) different
      · exact List.mem_map_of_mem member
    have added : late.name ∈ (dedupByName (other.name :: names) rest).map (·.name) := by
      rw [mem_dedupByName_names, List.mem_cons, not_or]
      exact ⟨⟨different, unknown⟩, listed⟩
    obtain ⟨package, present, named⟩ := List.mem_map.mp added
    have plain := behind package present
    rw [named, essentialName] at plain
    exact absurd plain.symm Bool.false_ne_true
  · intro covered package member
    by_contra essentialName
    rw [Bool.not_eq_false] at essentialName
    obtain ⟨unknown, found⟩ := (mem_dedupByName _).mp member
    have listed := covered package (List.mem_cons_of_mem _ (List.mem_of_find?_eq_some found))
      essentialName
    exact unknown (List.mem_cons_of_mem _ listed)

theorem mergePackages_stable_iff :
    packageKeys (mergePackages current resolved) =
        packageKeys (mergePackages (mergePackages current resolved) resolved) ↔
      EssentialsLead current resolved := by
  rw [mergePackages_again]
  let essential := current.filter fun package => isBootEssential package.name
  let lead := resolved.takeWhile fun package => isBootEssential package.name
  have leading : ∀ package ∈ essential ++ lead, isBootEssential package.name = true := by
    intro package member
    rcases List.mem_append.mp member with kept | first
    · exact (List.mem_filter.mp kept).2
    · exact List.mem_takeWhile_imp (p := fun package : Package => isBootEssential package.name) first
  have front : ∀ package ∈ dedupByName [] (essential ++ lead),
      isBootEssential package.name = true := by
    intro package member
    exact leading package (List.mem_of_find?_eq_some ((mem_dedupByName _).mp member).2)
  have split : mergePackages current resolved = dedupByName [] (essential ++ lead) ++
      dedupByName ((essential ++ lead).map (·.name))
        (resolved.dropWhile fun package => isBootEssential package.name) := by
    rw [mergePackages, ← List.takeWhile_append_dropWhile (p := fun package =>
      isBootEssential package.name) (l := resolved), ← List.append_assoc, dedupByName_append,
      List.append_nil]
    simp only [List.takeWhile_append_dropWhile]
    rfl
  unfold EssentialsLead
  cases tail : resolved.dropWhile (fun package => isBootEssential package.name) with
  | nil =>
      rw [split, tail, dedupByName, List.append_nil, List.filter_eq_self.mpr front,
        List.filter_eq_nil_iff.mpr, List.append_nil]
      · simp
      · intro package member
        simp [front package member]
  | cons other rest =>
      have managed : isBootEssential other.name = false := by
        have first := List.head?_dropWhile_not (fun package : Package =>
          isBootEssential package.name) resolved
        rw [tail] at first
        simpa using first
      have fresh : other.name ∉ (essential ++ lead).map (·.name) := by
        intro known
        obtain ⟨package, member, named⟩ := List.mem_map.mp known
        have essential := leading package member
        rw [named, managed] at essential
        exact absurd essential Bool.false_ne_true
      rw [split, tail, dedupByName, if_neg fresh, essentials_first_iff front managed]
      rw [plain_behind_iff managed]
      constructor
      · intro known late member essentialName
        exact (mem_front_names essentialName).mp (known late member essentialName)
      · intro covered late member essentialName
        exact (mem_front_names essentialName).mpr (covered late member essentialName)

end Again

section Groups

theorem getD_getD {α : Type} (wanted : Option α) (current : α) :
    wanted.getD (wanted.getD current) = wanted.getD current := by
  cases wanted <;> rfl

theorem mergeNetworking_again (config : Option NetworkConfig) (current : NetworkingConfig) :
    mergeNetworking config (mergeNetworking config current) = mergeNetworking config current := by
  cases config with
  | none => rfl
  | some net => simp only [mergeNetworking, getD_getD]

theorem mergeSecurity_again (config : Option SecurityConfig) (current : SysSecurityConfig) :
    mergeSecurity config (mergeSecurity config current) = mergeSecurity config current := by
  cases config with
  | none => rfl
  | some sec => simp only [mergeSecurity, getD_getD]

theorem mergeLogging_again (config : Option LoggingConfig) (current : SysLoggingConfig) :
    mergeLogging config (mergeLogging config current) = mergeLogging config current := by
  cases config with
  | none => rfl
  | some log => simp only [mergeLogging, getD_getD]

theorem mergePower_again (config : Option PowerConfig) (current : SysPowerConfig) :
    mergePower config (mergePower config current) = mergePower config current := by
  cases config with
  | none => rfl
  | some pwr => simp only [mergePower, getD_getD]

end Groups

section Converge

variable {blake3 : ByteArray → String} {current merged : Manifest} {config : RebuildConfig}
  {resolved : List Package}

/-- The declared files replace themselves. -/
theorem mergeFiles_again {files : Activate.Files}
    (success : mergeFiles blake3 current.files config.files = .ok files) :
    ∃ again, mergeFiles blake3 files config.files = .ok again ∧ SameMap files again := by
  cases given : config.files with
  | none => exact ⟨files, rfl, SameMap.refl files⟩
  | some inputs =>
      rw [given] at success
      obtain ⟨again, done, -⟩ := insertFiles_transfer success
        (KeyedMap.retain (fun _ info => info.text.isNone) files)
      refine ⟨again, done, ?_⟩
      obtain ⟨declared, found, first⟩ := mergeFiles_lookup success
      have merged : mergeFiles blake3 files (some inputs) = .ok again := done
      obtain ⟨declaredToo, foundToo, second⟩ := mergeFiles_lookup merged
      rw [found] at foundToo
      cases foundToo
      intro path
      rw [second path, first path]
      cases declared.lookup path with
      | some written => rfl
      | none =>
          cases current.files.lookup path with
          | none => rfl
          | some info => simp

/-- A second merge succeeds, and only the order of the packages can change. -/
theorem mergeConfig_again (success : mergeConfig blake3 current config resolved = .ok merged) :
    ∃ again, mergeConfig blake3 merged config resolved = .ok again ∧
      (hasManifestChanges merged again = false ↔
        (config.packages.isSome = true → resolved ≠ [] →
          EssentialsLead current.packages resolved)) := by
  unfold mergeConfig at success
  split at success
  · cases success
  · rename_i files found
    cases success
    obtain ⟨filesAgain, done, sameFiles⟩ := mergeFiles_again found
    unfold mergeConfig
    rw [done]
    refine ⟨_, rfl, ?_⟩
    have services : SameServices current.services current.services := by
      simp [SameServices, SameMap.refl]
    unfold hasManifestChanges
    rw [decide_eq_false_iff_not]
    simp only [getD_getD, mergeNetworking_again, mergeSecurity_again, mergeLogging_again,
      mergePower_again, sameFiles, services, SameMap.refl, ne_eq, not_true_eq_false, false_or,
      or_false, not_not]
    by_cases given : config.packages.isSome = true ∧ resolved ≠ []
    · rw [if_pos given, if_pos given, mergePackages_stable_iff]
      simp [given.1, given.2]
    · rw [if_neg given]
      simp only [if_neg given, true_iff]
      intro present nonempty
      exact absurd ⟨present, nonempty⟩ given

theorem mergeConfig_packages (success : mergeConfig blake3 current config resolved = .ok merged) :
    merged.packages = if config.packages.isSome ∧ resolved ≠ [] then
      mergePackages current.packages resolved else current.packages := by
  unfold mergeConfig at success
  split at success
  · cases success
  · cases success
    rfl

/-- The boot-essential packages keep their store paths. -/
theorem mergePackages_keeps_iff {current resolved : List Package} :
    (∀ package ∈ current, isBootEssential package.name = true →
      ∃ kept ∈ mergePackages current resolved, kept.name = package.name ∧
        kept.storePath = package.storePath) ↔ EssentialsAgree current := by
  constructor
  · intro keeps package member essential other memberToo named
    obtain ⟨kept, present, keptName, keptPath⟩ := keeps package member essential
    rw [← named] at essential
    obtain ⟨keptToo, presentToo, keptNameToo, keptPathToo⟩ := keeps other memberToo essential
    obtain ⟨-, found⟩ := (mem_dedupByName _).mp present
    obtain ⟨-, foundToo⟩ := (mem_dedupByName _).mp presentToo
    rw [keptNameToo, named, ← keptName, found] at foundToo
    rw [← keptPathToo, ← keptPath, Option.some.inj foundToo]
  · intro agree package member essential
    have named : package.name ∈ (mergePackages current resolved).map (·.name) := by
      rw [mergePackages, mem_dedupByName_names, List.map_append, List.mem_append]
      exact ⟨by simp, .inl (List.mem_map_of_mem (List.mem_filter.mpr ⟨member, essential⟩))⟩
    obtain ⟨kept, present, keptName⟩ := List.mem_map.mp named
    refine ⟨kept, present, keptName, ?_⟩
    obtain ⟨-, found⟩ := (mem_dedupByName _).mp present
    obtain ⟨first, inside, same, own⟩ := essential_find?_some member essential
    rw [keptName, List.find?_append, own, Option.some_or] at found
    rw [← Option.some.inj found]
    exact agree package member essential first inside same

/-- The same rebuild, run again, changes nothing and the boot-essential packages stay, exactly
if the resolved boot-essential packages lead and the current ones of one name agree, or no
packages are set. -/
theorem rebuild_converges_iff (success : mergeConfig blake3 current config resolved = .ok merged) :
    ((∃ again, mergeConfig blake3 merged config resolved = .ok again ∧
        hasManifestChanges merged again = false) ∧
      ∀ package ∈ current.packages, isBootEssential package.name = true →
        ∃ kept ∈ merged.packages, kept.name = package.name ∧
          kept.storePath = package.storePath) ↔
      (config.packages.isSome = true → resolved ≠ [] →
        EssentialsLead current.packages resolved ∧ EssentialsAgree current.packages) := by
  obtain ⟨again, done, changes⟩ := mergeConfig_again success
  have second : (∃ again, mergeConfig blake3 merged config resolved = .ok again ∧
      hasManifestChanges merged again = false) ↔ hasManifestChanges merged again = false := by
    rw [done]
    simp
  rw [second, changes]
  by_cases given : config.packages.isSome = true ∧ resolved ≠ []
  · rw [mergeConfig_packages success, if_pos given, mergePackages_keeps_iff]
    simp [given.1, given.2]
  · rw [mergeConfig_packages success, if_neg given]
    constructor
    · intro _ present nonempty
      exact absurd ⟨present, nonempty⟩ given
    · intro _
      constructor
      · intro present nonempty
        exact absurd ⟨present, nonempty⟩ given
      · intro package member _
        exact ⟨package, member, rfl, rfl⟩

end Converge

section Shells

def shellPackage : Package where
  name := "ion"
  version := "1.0.0"
  storePath := "/nix/store/11111111111111111111111111111111-ion"

def searchPackage : Package where
  name := "ripgrep"
  version := "14.1.0"
  storePath := "/nix/store/22222222222222222222222222222222-ripgrep"

def searchThenShell : RebuildConfig := { unset with packages := some ["ripgrep", "ion"] }

/-- A boot-essential package that is added after another one moves to the front when the
same rebuild is run again. -/
theorem late_shell_moves :
    ¬ ∀ (blake3 : ByteArray → String) (current merged : Manifest) (config : RebuildConfig)
      (resolved : List Package), Accepted config →
        config.packages = some (resolved.map (·.name)) →
        mergeConfig blake3 current config resolved = .ok merged →
        (∃ again, mergeConfig blake3 merged config resolved = .ok again ∧
          hasManifestChanges merged again = false) ∧
        ∀ package ∈ current.packages, isBootEssential package.name = true →
          ∃ kept ∈ merged.packages, kept.name = package.name ∧
            kept.storePath = package.storePath := by
  intro always
  obtain ⟨⟨again, done, unchanged⟩, -⟩ := always (fun _ => "") (headless [] ∅)
    (headless [searchPackage, shellPackage] ∅) searchThenShell [searchPackage, shellPackage]
    ⟨searchThenShell, rfl⟩ rfl rfl
  have reordered : mergeConfig (fun _ => "") (headless [searchPackage, shellPackage] ∅)
      searchThenShell [searchPackage, shellPackage] =
        .ok (headless [shellPackage, searchPackage] ∅) := rfl
  rw [reordered] at done
  cases done
  exact absurd unchanged (by decide)

def shellThenSearch : RebuildConfig := { unset with packages := some ["ion", "ripgrep"] }

theorem rebuild_converges_shells :
    mergeConfig (fun _ => "") (headless [] ∅) shellThenSearch [shellPackage, searchPackage] =
      .ok (headless [shellPackage, searchPackage] ∅) ∧
    ∃ again, mergeConfig (fun _ => "") (headless [shellPackage, searchPackage] ∅) shellThenSearch
        [shellPackage, searchPackage] = .ok again ∧
      hasManifestChanges (headless [shellPackage, searchPackage] ∅) again = false := by
  have merged : mergeConfig (fun _ => "") (headless [] ∅) shellThenSearch
      [shellPackage, searchPackage] = .ok (headless [shellPackage, searchPackage] ∅) := rfl
  refine ⟨merged, ((rebuild_converges_iff merged).mpr ?_).1⟩
  intro _ _
  constructor
  · intro late member essential
    have only : late = searchPackage := by
      simpa [isBootEssential, bootEssential, shellPackage, searchPackage] using member
    rw [only] at essential
    exact absurd essential (by decide)
  · intro package member
    cases member

end Shells

end NixRedox.Rebuild
