import NixRedox.ConfigConverge
import NixRedox.NativeRebuild
import NixRedox.RebuildChanges
import NixRedox.SystemAgreement

set_option autoImplicit false

/- Which boot units a local rebuild keeps: the files under `usr/lib/init.d/` and
`startup.sh` that its configuration does not name. -/
namespace NixRedox.Rebuild

open Activate (Files diffConfigFiles mem_removed)
open KeyedMap (retain)
open NixRedox.System (Env FileInfo Operation Outcome Package State isSnapshotPath perform publishNew
  rollbackTarget scanGenerations snapshotRootFiles)
open StepRuns (EachMeets runAll throughout_of_eachMeets)

/-- The configuration has the path among its files. -/
def Named (config : RebuildConfig) (path : String) : Prop :=
  ∃ files, config.files = some files ∧ ∃ key ∈ files, validateManagedFilePath key = .ok path

/-- Every boot unit that the configuration does not name stays as it is, and the activation
of the merged manifest, from the current one with its snapshots, does not remove it. -/
def UnitsSurvive (current merged : Manifest) (config : RebuildConfig) : Prop :=
  ∀ path info, isSnapshotPath path = true → current.files.lookup path = some info →
    ¬ Named config path →
      merged.files.lookup path = some info ∧
      ∀ env filled changed, snapshotRootFiles env current.toManifest = .ok (filled, changed) →
        path ∉ (diffConfigFiles filled.files merged.files).2.1

/-- No boot unit has its text in the manifest. -/
def Textless (files : Files) : Prop :=
  ∀ path info, isSnapshotPath path = true → files.lookup path = some info → info.text = none

/-- The paths the regular files of a built system are managed under. -/
def rootPaths : String → RootFiles → List String
  | _, .done => []
  | _, .failed _ => []
  | lead, .file name _ _ rest =>
      (validateManagedFilePath (lead ++ name)).toOption.toList ++ rootPaths lead rest
  | lead, .dir name entries rest => rootPaths (lead ++ name ++ "/") entries ++ rootPaths lead rest
  | lead, .other _ rest => rootPaths lead rest

/-- A move makes no manifest current that has the text of a boot unit. -/
def Plain (state : State) : Env × Move → Prop
  | (_, .operation (.switch _ newFile _ _)) =>
      ∀ manifest, newFile = .readable manifest → Textless manifest.files
  | (_, .operation (.switchGeneration target)) =>
      ∀ found ∈ scanGenerations state.generations, found.id = target →
        Textless found.manifest.files
  | (_, .operation (.rollback target)) =>
      ∀ current found, state.manifest = .readable current →
        rollbackTarget (scanGenerations state.generations) current target = .ok found →
          Textless found.manifest.files
  | (_, .operation (.activateBoot target)) =>
      ∀ found ∈ scanGenerations state.generations, found.id = target →
        Textless found.manifest.files
  | (_, .operation (.deleteGenerations ..)) => True
  | (_, .nativeRebuild _ config output _) =>
      (∀ manifest, output.manifest = .ok manifest → Textless manifest.files) ∧
      (∀ path, Named config path → isSnapshotPath path = false) ∧
      ∀ entries, output.rootFiles = some entries →
        ∀ path ∈ rootPaths "" entries, isSnapshotPath path = false

section Merge

variable {blake3 : ByteArray → String} {current merged : Manifest} {config : RebuildConfig}
  {resolved : List Package}

theorem mem_sortedEntries {β : Type} {map : AList fun _ : String => β} {entry : String × β} :
    entry ∈ sortedEntries map ↔ map.lookup entry.1 = some entry.2 := by
  rw [sortedEntries, List.mem_insertionSort, List.mem_map, ← Option.mem_def, AList.mem_lookup_iff]
  constructor
  · rintro ⟨⟨key, value⟩, member, rfl⟩
    exact member
  · intro member
    exact ⟨⟨entry.1, entry.2⟩, member, rfl⟩

theorem insertFiles_lookup {β : Type} {value : ManagedFileInput → String → β}
    {files : List (String × ManagedFileInput)} {start result : AList fun _ : String => β}
    (inserted : insertFiles value files start = .ok result) {path : String} :
    (result.lookup path).isSome = true ↔ (start.lookup path).isSome = true ∨
      ∃ entry ∈ files, validateManagedFilePath entry.1 = .ok path := by
  induction files generalizing start with
  | nil =>
      cases inserted
      simp
  | cons entry rest ih =>
      obtain ⟨key, file⟩ := entry
      unfold insertFiles at inserted
      split at inserted
      · cases inserted
      · rename_i normalizedPath valid
        split at inserted
        · cases inserted
        · rw [ih inserted]
          by_cases own : path = normalizedPath
          · subst own
            simp [AList.lookup_insert, valid]
          · have other : normalizedPath ≠ path := Ne.symm own
            simp [AList.lookup_insert_ne own, valid, other]

theorem declared_isSome_iff {files : AList fun _ : String => ManagedFileInput} {declared : Files}
    (given : config.files = some files) (found : declaredFiles blake3 files = .ok declared)
    {path : String} : (declared.lookup path).isSome = true ↔ Named config path := by
  rw [insertFiles_lookup found, AList.lookup_empty]
  constructor
  · rintro (absurd | ⟨⟨key, file⟩, member, valid⟩)
    · cases absurd
    · refine ⟨files, given, key, ?_, valid⟩
      rw [← AList.lookup_isSome, mem_sortedEntries.mp member]
      rfl
  · rintro ⟨_, also, key, member, valid⟩
    rw [given] at also
    cases also
    rw [← AList.lookup_isSome, Option.isSome_iff_exists] at member
    obtain ⟨file, present⟩ := member
    exact .inr ⟨(key, file), mem_sortedEntries.mpr present, valid⟩

theorem mergeConfig_files (success : mergeConfig blake3 current config resolved = .ok merged) :
    mergeFiles blake3 current.files config.files = .ok merged.files := by
  unfold mergeConfig at success
  split at success
  · cases success
  · rename_i files found
    cases success
    exact found

/-- A file the configuration does not name stays if the configuration has no files or the
file has no text. -/
theorem mergeConfig_lookup_unnamed
    (success : mergeConfig blake3 current config resolved = .ok merged) {path : String}
    (unnamed : ¬ Named config path) :
    merged.files.lookup path = if config.files.isSome then
      (current.files.lookup path).filter (fun info => info.text.isNone)
      else current.files.lookup path := by
  have files := mergeConfig_files success
  cases given : config.files with
  | none =>
      rw [given, mergeFiles, Except.ok.injEq] at files
      rw [← files]
      rfl
  | some inputs =>
      rw [given] at files
      obtain ⟨declared, found, same⟩ := mergeFiles_lookup files
      have absent : declared.lookup path = none := by
        rw [← declared_isSome_iff given found, Option.not_isSome_iff_eq_none] at unnamed
        exact unnamed
      rw [same path, absent, Option.none_or]
      rfl

/-- What a local rebuild keeps of the boot units. -/
theorem unitsSurvive_iff (success : mergeConfig blake3 current config resolved = .ok merged) :
    UnitsSurvive current merged config ↔ config.files = none ∨
      ∀ path info, isSnapshotPath path = true → current.files.lookup path = some info →
        ¬ Named config path → info.text = none := by
  constructor
  · intro survive
    rw [or_iff_not_imp_left]
    intro given path info boot present unnamed
    have kept := (survive path info boot present unnamed).1
    rw [mergeConfig_lookup_unnamed success unnamed,
      if_pos (Option.isSome_iff_ne_none.mpr given), present, Option.filter_eq_some_iff] at kept
    simpa using kept.2
  · intro stays path info boot present unnamed
    have kept : merged.files.lookup path = some info := by
      rw [mergeConfig_lookup_unnamed success unnamed]
      rcases stays with absent | textless
      · rw [absent]
        exact present
      · split
        · rw [present, Option.filter_eq_some_iff]
          exact ⟨rfl, by simp [textless path info boot present unnamed]⟩
        · exact present
    refine ⟨kept, ?_⟩
    intro env filled changed _ removed
    apply (mem_removed.mp removed).2
    rw [← AList.lookup_isSome, kept]
    rfl

end Merge

section Histories

variable {blake3 : ByteArray → String}

/-- The boot units of the current manifest have no text. -/
def CurrentTextless (state : State) : Prop :=
  ∀ current, state.manifest = .readable current → Textless current.files

theorem mergeConfig_textless {current merged : Manifest} {config : RebuildConfig}
    (success : mergeConfig blake3 current config [] = .ok merged)
    (unnamed : ∀ path, Named config path → isSnapshotPath path = false)
    (textless : Textless current.files) : Textless merged.files := by
  intro path info boot present
  have apart : ¬ Named config path := by
    intro named
    rw [unnamed path named] at boot
    cases boot
  rw [mergeConfig_lookup_unnamed success apart] at present
  split at present
  · exact textless path info boot (Option.filter_eq_some_iff.mp present).1
  · exact textless path info boot present

theorem collectNativeRootFiles_lookup {root lead : String} {entries : RootFiles}
    {files result : Files}
    (collected : collectNativeRootFiles blake3 root lead entries files = .ok result)
    {path : String} (apart : path ∉ rootPaths lead entries) :
    result.lookup path = files.lookup path := by
  induction entries generalizing lead files result with
  | done =>
      cases collected
      rfl
  | failed reason => cases collected
  | file name text mode rest ih =>
      rw [rootPaths, List.mem_append, not_or] at apart
      unfold collectNativeRootFiles at collected
      split at collected
      · cases collected
      · rename_i relative valid
        split at collected
        · cases collected
        · rw [ih collected apart.2]
          apply AList.lookup_insert_ne
          rintro rfl
          exact apart.1 (by simp [valid, Except.toOption])
  | dir name inner rest inside ih =>
      rw [rootPaths, List.mem_append, not_or] at apart
      unfold collectNativeRootFiles at collected
      split at collected
      · cases collected
      · rename_i between done
        rw [ih collected apart.2, inside done apart.1]
  | other name rest ih => cases collected

/-- The files of a native rebuild: those of the built manifest after the merge, with the
root files in place of its units. -/
theorem loadNativeSystemManifest_files {config : RebuildConfig} {output : NativeOutput}
    {current new : Manifest}
    (loaded : loadNativeSystemManifest blake3 config output current = .ok new) :
    ∃ built start merged, output.manifest = .ok built ∧
      mergeConfig blake3 start config [] = .ok merged ∧ start.files = built.files ∧
      ((output.rootFiles = none ∧ new = merged) ∨
        ∃ entries, output.rootFiles = some entries ∧
          collectNativeRootFiles blake3 (output.path ++ "/root-files") "" entries
            (retain (fun path _ => !"usr/lib/init.d/".toList.isPrefixOf path.toList)
              merged.files) = .ok new.files) := by
  unfold loadNativeSystemManifest at loaded
  simp only [bind, Except.bind] at loaded
  split at loaded
  · cases loaded
  rename_i built found
  -- The checks of the target, the boot artifacts and `etcSource` change no files.
  split at loaded
  · cases loaded
  split at loaded
  · cases loaded
  split at loaded
  · cases loaded
  split at loaded
  · cases loaded
  split at loaded
  · cases loaded
  rename_i merged success
  refine ⟨built, _, merged, found, success, rfl, ?_⟩
  split at loaded
  · rename_i none_there
    cases loaded
    exact .inl ⟨none_there, rfl⟩
  · rename_i entries listed
    split at loaded
    · cases loaded
    · rename_i files collected
      cases loaded
      exact .inr ⟨entries, listed, collected⟩

theorem loadNativeSystemManifest_textless {config : RebuildConfig} {output : NativeOutput}
    {current new : Manifest}
    (loaded : loadNativeSystemManifest blake3 config output current = .ok new)
    (textless : ∀ manifest, output.manifest = .ok manifest → Textless manifest.files)
    (unnamed : ∀ path, Named config path → isSnapshotPath path = false)
    (apart : ∀ entries, output.rootFiles = some entries →
      ∀ path ∈ rootPaths "" entries, isSnapshotPath path = false) :
    Textless new.files := by
  obtain ⟨built, start, merged, found, success, files, rest⟩ :=
    loadNativeSystemManifest_files loaded
  have startTextless : Textless start.files := by
    rw [files]
    exact textless built found
  have mergedTextless := mergeConfig_textless success unnamed startTextless
  rcases rest with ⟨_, rfl⟩ | ⟨entries, listed, collected⟩
  · exact mergedTextless
  · intro path info boot present
    have outside : path ∉ rootPaths "" entries := by
      intro inside
      rw [apart entries listed path inside] at boot
      cases boot
    rw [collectNativeRootFiles_lookup collected outside, KeyedMap.lookup_retain] at present
    exact mergedTextless path info boot (Option.filter_eq_some_iff.mp present).1

theorem publishNew_currentTextless {env : Env} {state : State} {current new : System.Manifest}
    (before : CurrentTextless state) (textless : Textless new.files) :
    CurrentTextless (publishNew env state current new).state := by
  unfold publishNew
  cases env.activate current new false with
  | error reason => exact before
  | ok _ =>
      intro published same
      cases same
      exact textless

theorem perform_currentTextless {env : Env} {state : State} {op : Operation}
    (before : CurrentTextless state) (plain : Plain state (env, .operation op)) :
    CurrentTextless (perform env state op).state := by
  cases loaded : System.loadManifestFrom System.manifestPath state.manifest with
  | error reason =>
      rw [System.perform_unloaded loaded]
      exact before
  | ok current =>
      cases op with
      | switch newPath newFile description dryRun =>
          simp only [perform, System.switch, loaded]
          split
          · exact before
          · rename_i new read
            have textless : Textless new.files := plain new (System.loadManifestFrom_ok read)
            split
            · exact before
            · split
              · exact before
              · exact publishNew_currentTextless before textless
      | switchGeneration target =>
          simp only [perform, System.switchGeneration, loaded]
          split
          · exact before
          · rename_i found selected
            split
            · exact before
            · split
              · exact before
              · intro published same
                cases same
                exact plain found (List.mem_of_find?_eq_some selected)
                  (by simpa using List.find?_some selected)
      | rollback target =>
          simp only [perform, System.rollback, loaded]
          split
          · exact before
          · split
            · exact before
            · rename_i found selected
              split
              · exact before
              · apply publishNew_currentTextless
                · exact before
                · exact plain current found (System.loadManifestFrom_ok loaded) selected
      | activateBoot target =>
          simp only [perform, System.activateBoot, loaded]
          split
          · exact before
          · split
            · exact before
            · rename_i found selected
              split
              · exact before
              · intro published same
                cases same
                exact plain found (List.mem_of_find?_eq_some selected)
                  (by simpa using List.find?_some selected)
      | deleteGenerations roots selector dryRun =>
          simp only [perform]
          split
          · exact before
          · rename_i deleted
            obtain ⟨_, ids, stats, _, _, same⟩ := System.deleteGenerationsWith_ok deleted
            dsimp only at same
            subst same
            exact before

/-- A plain move keeps the text of boot units out of the current manifest. -/
theorem advance_currentTextless (state : State) (move : Env × Move) (next : State)
    (before : CurrentTextless state) (plain : Plain state move)
    (moved : advance blake3 state move = some next) : CurrentTextless next := by
  obtain ⟨env, move⟩ := move
  cases move with
  | operation op =>
      cases moved
      exact perform_currentTextless before plain
  | nativeRebuild pid config output current =>
      simp only [advance] at moved
      split at moved
      · cases moved
        unfold rebuildNativeSystem
        split
        · exact before
        · rename_i new loaded
          apply perform_currentTextless before
          intro manifest same
          cases same
          exact loadNativeSystemManifest_textless loaded plain.1 plain.2.1 plain.2.2
      · cases moved

/-- After every history, a local rebuild keeps the boot units exactly if it sets no files or
none of those it does not name has its text in the manifest; and none has in a history of
plain moves. -/
theorem local_rebuild_keeps_units {start state : State} {moves : List (Env × Move)}
    {current merged : Manifest} {config : RebuildConfig} {resolved : List Package}
    (run : runAll (advance blake3) start moves = some state)
    (readable : state.manifest = .readable current.toManifest)
    (success : mergeConfig blake3 current config resolved = .ok merged) :
    (UnitsSurvive current merged config ↔ config.files = none ∨
      ∀ path info, isSnapshotPath path = true → current.files.lookup path = some info →
        ¬ Named config path → info.text = none) ∧
    (CurrentTextless start → EachMeets (advance blake3) Plain start moves →
      UnitsSurvive current merged config) := by
  refine ⟨unitsSurvive_iff success, ?_⟩
  intro textless plain
  have always := throughout_of_eachMeets advance_currentTextless textless plain
  rw [unitsSurvive_iff success]
  right
  intro path info boot present _
  exact always moves [] state (List.append_nil _) run current.toManifest readable path info boot
    present

end Histories

section StartupScript

/-- BLAKE3 of `init`. -/
def initHash : String := "b690dd4b190c86e4b4a62928d4094a94af756e9f2998dcc31d9a2ea819274613"

/-- A machine whose files all read `init`, and on which every activation succeeds. -/
def startupEnv : Env where
  rootFile := fun _ => .ok "init"
  blake3 := fun _ => initHash
  activate := fun _ _ _ => .ok ()
  timestamp := ""
  now := 0
  epoch := fun _ => 0
  bootWritable := true

def startupFiles (text : Option String) : Files :=
  AList.singleton "startup.sh" { blake3 := initHash, size := 4, mode := "0755", text }

/-- The image as it is first booted. -/
def startupState : State where
  generations := ∅
  manifest := .readable (headless [] (startupFiles none)).toManifest
  link := none
  bootDefault := none

/-- A switch, and a rollback from it. -/
def switchAndBack : List (Env × Move) :=
  [(startupEnv, .operation (.switch "/tmp/new.json"
      (.readable (headless [] (startupFiles none)).toManifest) none false)),
    (startupEnv, .operation (.rollback none))]

/-- The manifest after the rollback has the text that the switch stored. -/
def rolledBack : Manifest :=
  { headless [] (startupFiles (some "init")) with
    generation :=
      { id := 3, buildHash := "", description := "rollback to generation 1", timestamp := "" } }

theorem switchAndBack_manifest :
    ∃ state, runAll (advance fun _ => initHash) startupState switchAndBack = some state ∧
      state.manifest = .readable rolledBack.toManifest := by
  rw [← Option.map_eq_some_iff]
  rfl

theorem startupState_textless : CurrentTextless startupState := by
  intro current same path info boot present
  cases same
  have entry := List.mem_singleton.mp (AList.mem_lookup_iff.mp present)
  cases entry
  rfl

/-- A local rebuild that sets no file then drops `startup.sh`. -/
theorem startup_script_dropped :
    ¬ ∀ (blake3 : ByteArray → String) (start state : State) (moves : List (Env × Move))
      (current merged : Manifest) (config : RebuildConfig) (resolved : List Package),
        start.generations = ∅ → CurrentTextless start →
        runAll (advance blake3) start moves = some state →
        state.manifest = .readable current.toManifest →
        Accepted config → config.systemSource = none →
        mergeConfig blake3 current config resolved = .ok merged →
        UnitsSurvive current merged config := by
  intro always
  obtain ⟨state, run, readable⟩ := switchAndBack_manifest
  have survive := always _ startupState state switchAndBack rolledBack
    { rolledBack with files := ∅ } { unset with files := some ∅ } [] rfl startupState_textless run
    readable ⟨{ unset with files := some ∅ }, rfl⟩ rfl rfl
  have unnamed : ¬ Named { unset with files := some ∅ } "startup.sh" := by
    rintro ⟨files, given, key, member, -⟩
    cases given
    exact absurd member (AList.notMem_empty key)
  have kept := (survive "startup.sh" _ (by decide) rfl unnamed).1
  cases kept

/-- The manifest after the switch alone. -/
def switched : Manifest :=
  { headless [] (startupFiles none) with
    generation := { id := 2, buildHash := "", description := "initial", timestamp := "" } }

theorem local_rebuild_keeps_units_switched :
    UnitsSurvive switched switched { unset with files := some ∅ } := by
  obtain ⟨state, run, readable⟩ : ∃ state,
      runAll (advance fun _ => initHash) startupState (switchAndBack.take 1) = some state ∧
        state.manifest = .readable switched.toManifest := by
    rw [← Option.map_eq_some_iff]
    rfl
  have merged : mergeConfig (fun _ => initHash) switched { unset with files := some ∅ } [] =
      .ok switched := rfl
  have plain : EachMeets (advance fun _ => initHash) Plain startupState
      (switchAndBack.take 1) := by
    rw [switchAndBack, List.take_succ_cons, StepRuns.eachMeets_cons]
    refine ⟨?_, fun _ _ => StepRuns.eachMeets_nil⟩
    intro manifest same
    cases same
    exact startupState_textless _ rfl
  exact (local_rebuild_keeps_units run readable merged).2 startupState_textless plain

end StartupScript

end NixRedox.Rebuild
