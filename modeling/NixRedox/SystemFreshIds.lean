import NixRedox.SystemGenerations

set_option autoImplicit false

/- New generation ids, and what storing a new generation leaves alone. -/
namespace NixRedox.System

instance instLawfulOrderMaxUInt32 : Std.LawfulOrderMax UInt32 where
  max_le_iff a b c := by
    simp only [max, UInt32.le_iff_toNat_le]
    split <;> omega
  max_eq_or a b := by
    simp only [max]
    split
    · exact .inr rfl
    · exact .inl rfl

theorem toList_dirName (id : UInt32) : (dirName id).toList = Nat.toDigits 10 id.toNat := by
  rw [dirName, Nat.toString_eq_repr, Nat.toList_repr]

theorem decimalValue_toDigits (value : Nat) :
    Text.decimalValue (Nat.toDigits 10 value) = some value := by
  have digits : (Nat.toDigits 10 value).all Char.isDigit = true := by
    rw [List.all_eq_true]
    intro digit member
    exact Nat.isDigit_of_mem_toDigits (by omega) (by omega) member
  rw [Text.decimalValue, if_pos ⟨Nat.toDigits_ne_nil, digits⟩, Option.some.injEq]
  exact Nat.ofDigitChars_ten_toDigits

/-- A generation's directory is numbered by its id. -/
theorem parseU32_dirName (id : UInt32) : parseU32 (dirName id).toList = some id := by
  have small : id.toNat < 2 ^ 32 := id.toNat_lt
  have unsigned : ∀ rest, Nat.toDigits 10 id.toNat ≠ '+' :: rest := by
    intro rest same
    have digit := @Nat.isDigit_of_mem_toDigits 10 id.toNat '+' (by omega) (by omega)
      (by rw [same]; exact List.mem_cons_self)
    exact absurd digit (by decide)
  simp only [toList_dirName, parseU32, decimalValue_toDigits, small, ↓reduceIte,
    UInt32.ofNat_toNat]

theorem dirName_injective {a b : UInt32} (same : dirName a = dirName b) : a = b := by
  have parsed := parseU32_dirName a
  rw [same, parseU32_dirName b, Option.some.injEq] at parsed
  exact parsed.symm

theorem mem_scanGenerations {dir : GenerationsDir} {generation : Generation} :
    generation ∈ scanGenerations dir ↔
      ∃ name, dir.lookup name = some (.readable generation.manifest) ∧
        parseU32 name.toList = some generation.id := by
  rw [scanGenerations, List.mem_insertionSort, List.mem_filterMap]
  constructor
  · intro ⟨⟨name, file⟩, member, scanned⟩
    cases file with
    | missing => cases scanned
    | unreadable reason => cases scanned
    | readable manifest =>
        obtain ⟨id, parsed, same⟩ := Option.map_eq_some_iff.mp scanned
        subst same
        exact ⟨name, AList.mem_lookup_iff.mpr member, parsed⟩
  · intro ⟨name, found, parsed⟩
    refine ⟨⟨name, .readable generation.manifest⟩, AList.mem_lookup_iff.mp found, ?_⟩
    simp only [generationOfEntry, parsed, Option.map_some]

section Highest

variable {dir : GenerationsDir} {current : Manifest}

theorem le_highestId {generation : Generation} (member : generation ∈ scanGenerations dir) :
    generation.id ≤ highestId dir current := by
  have listed : generation.id ∈ (scanGenerations dir).map (·.id) := List.mem_map_of_mem member
  cases highest : ((scanGenerations dir).map (·.id)).max? with
  | none =>
      rw [List.max?_eq_none_iff.mp highest] at listed
      cases listed
  | some id =>
      have bound : generation.id ≤ id := (List.max?_eq_some_iff.mp highest).2 _ listed
      rw [highestId, highest]
      exact Std.le_trans bound Std.left_le_max

theorem current_le_highestId : current.generation.id ≤ highestId dir current :=
  Std.right_le_max

theorem highestId_cases :
    highestId dir current = current.generation.id ∨
      ∃ generation ∈ scanGenerations dir, generation.id = highestId dir current := by
  cases highest : ((scanGenerations dir).map (·.id)).max? with
  | none =>
      left
      have least : (0 : UInt32) ≤ current.generation.id := UInt32.zero_le
      rw [highestId, highest, Option.getD_none]
      apply Std.le_antisymm
      · exact Std.max_le_iff.mpr ⟨least, Std.le_refl _⟩
      · exact Std.right_le_max
  | some id =>
      obtain ⟨generation, member, same⟩ := List.mem_map.mp (List.max?_mem highest)
      rcases Std.MaxEqOr.max_eq_or id current.generation.id with stored | own
      · right
        refine ⟨generation, member, ?_⟩
        rw [highestId, highest, Option.getD_some, stored, same]
      · left
        rw [highestId, highest, Option.getD_some, own]

theorem highestId_le_iff {bound : UInt32} :
    highestId dir current ≤ bound ↔ current.generation.id ≤ bound ∧
      ∀ generation ∈ scanGenerations dir, generation.id ≤ bound := by
  constructor
  · intro below
    exact ⟨Std.le_trans current_le_highestId below,
      fun generation member => Std.le_trans (le_highestId member) below⟩
  · intro ⟨own, stored⟩
    rcases highestId_cases with same | ⟨generation, member, same⟩
    · exact same ▸ own
    · exact same ▸ stored generation member

end Highest

theorem mem_scan_save {dir : GenerationsDir} {manifest : Manifest} {generation : Generation}
    (member : generation ∈ scanGenerations (saveGeneration dir manifest)) :
    generation ∈ scanGenerations dir ∨ generation.id = manifest.generation.id := by
  obtain ⟨name, found, parsed⟩ := mem_scanGenerations.mp member
  by_cases same : name = dirName manifest.generation.id
  · right
    rw [same, parseU32_dirName, Option.some.injEq] at parsed
    exact parsed.symm
  · left
    rw [saveGeneration, AList.lookup_insert_ne same] at found
    exact mem_scanGenerations.mpr ⟨name, found, parsed⟩

/-- Storing the current generation first does not change the next id. -/
theorem nextGenerationId_save {dir : GenerationsDir} {current : Manifest}
    (absent : dirName current.generation.id ∉ dir) :
    nextGenerationId (saveGeneration dir current) current = nextGenerationId dir current := by
  have kept : ∀ generation ∈ scanGenerations dir,
      generation ∈ scanGenerations (saveGeneration dir current) := by
    intro generation member
    obtain ⟨name, found, parsed⟩ := mem_scanGenerations.mp member
    have apart : name ≠ dirName current.generation.id := by
      intro same
      subst same
      exact absent (AList.lookup_isSome.mp (by rw [found]; rfl))
    refine mem_scanGenerations.mpr ⟨name, ?_, parsed⟩
    rw [saveGeneration, AList.lookup_insert_ne apart]
    exact found
  have same : highestId (saveGeneration dir current) current = highestId dir current := by
    apply Std.le_antisymm
    · refine highestId_le_iff.mpr ⟨current_le_highestId, ?_⟩
      intro generation member
      rcases mem_scan_save member with stored | own
      · exact le_highestId stored
      · exact own ▸ current_le_highestId
    · refine highestId_le_iff.mpr ⟨current_le_highestId, ?_⟩
      intro generation member
      exact le_highestId (kept generation member)
  rw [nextGenerationId, nextGenerationId, same]

/-- A switch that is not a dry run, or a rollback. -/
def Operation.renews : Operation → Bool
  | .switch _ _ _ dryRun => !dryRun
  | .rollback _ => true
  | _ => false

/-- The operation gets as far as storing a new generation. -/
def Stores (env : Env) (generations : GenerationsDir) (current : Manifest) : Operation → Prop
  | .switch _ newFile _ dryRun =>
      dryRun = false ∧ (∃ loaded, newFile = .readable loaded) ∧
        ∃ snapshot, snapshotRootFiles env current = .ok snapshot
  | .rollback target =>
      ∃ found, rollbackTarget (scanGenerations generations) current target = .ok found ∧
        found.id ≠ current.generation.id
  | _ => False

theorem snapshotRootFiles_generation {env : Env} {manifest filled : Manifest} {changed : Bool}
    (taken : snapshotRootFiles env manifest = .ok (filled, changed)) :
    filled.generation = manifest.generation := by
  unfold snapshotRootFiles at taken
  split at taken
  · cases taken
  · cases taken
    rfl

theorem publishNew_created (env : Env) (state : State) (current new : Manifest) :
    (publishNew env state current new).created = some new.generation.id := by
  unfold publishNew
  cases env.activate current new false <;> rfl

theorem publishNew_generations (env : Env) (state : State) (current new : Manifest) :
    (publishNew env state current new).state.generations =
      saveGeneration state.generations new := by
  unfold publishNew
  cases env.activate current new false <;> rfl

/-- An operation that does not get as far leaves everything as it is. -/
theorem perform_of_not_stores {env : Env} {state : State} {current : Manifest} {op : Operation}
    (readable : state.manifest = .readable current) (renews : op.renews = true)
    (stays : ¬ Stores env state.generations current op) :
    (perform env state op).state = state ∧ (perform env state op).created = none := by
  cases op with
  | switch newPath newFile description dryRun =>
      have real : dryRun = false := by simpa [Operation.renews] using renews
      subst real
      simp only [perform, switch, readable, loadManifestFrom]
      cases newFile with
      | missing => exact ⟨rfl, rfl⟩
      | unreadable reason => exact ⟨rfl, rfl⟩
      | readable loaded =>
          cases taken : snapshotRootFiles env current with
          | error reason => exact ⟨rfl, rfl⟩
          | ok snapshot => exact absurd ⟨rfl, ⟨loaded, rfl⟩, snapshot, taken⟩ stays
  | rollback target =>
      simp only [perform, rollback, readable, loadManifestFrom]
      split
      · exact ⟨rfl, rfl⟩
      · cases chosen : rollbackTarget (scanGenerations state.generations) current target with
        | error reason => exact ⟨rfl, rfl⟩
        | ok found =>
            have same : found.id = current.generation.id := by
              by_contra apart
              exact stays ⟨found, chosen, apart⟩
            simp only [same, ↓reduceIte]
            exact ⟨rfl, rfl⟩
  | switchGeneration target => cases renews
  | activateBoot target => cases renews
  | deleteGenerations roots selector dryRun => cases renews

/-- The directory once the current generation is stored: at most its own entry is new. -/
def Saved (generations saved : GenerationsDir) (current : Manifest) : Prop :=
  saved = generations ∨
    ∃ filled : Manifest, filled.generation = current.generation ∧
      saved = saveGeneration generations filled

/-- An operation that gets as far publishes a manifest under the next id. -/
theorem perform_of_stores {env : Env} {state : State} {current : Manifest} {op : Operation}
    (readable : state.manifest = .readable current)
    (stores : Stores env state.generations current op) :
    ∃ saved filled new, Saved state.generations saved current ∧
      new.generation.id = nextGenerationId state.generations current ∧
      perform env state op = publishNew env { state with generations := saved } filled new := by
  cases op with
  | switch newPath newFile description dryRun =>
      obtain ⟨real, ⟨loaded, given⟩, ⟨filled, enriched⟩, taken⟩ := stores
      have own := snapshotRootFiles_generation taken
      subst real given
      refine ⟨_, filled, _, ?_, ?_, by
        simp only [perform, switch, readable, loadManifestFrom, taken]
        rfl⟩
      · split
        · exact .inr ⟨filled, own, rfl⟩
        · exact .inl rfl
      · rfl
  | rollback target =>
      obtain ⟨found, chosen, apart⟩ := stores
      have listed : scanGenerations state.generations ≠ [] := by
        intro nothing
        rw [nothing] at chosen
        cases target with
        | none => cases chosen
        | some id => cases chosen
      refine ⟨_, current, _, ?_, ?_, by
        simp only [perform, rollback, readable, loadManifestFrom, if_neg listed, chosen,
          if_neg apart]
        rfl⟩
      · split
        · exact .inr ⟨current, rfl, rfl⟩
        · exact .inl rfl
      · show nextGenerationId _ current = nextGenerationId state.generations current
        split
        · rename_i absent
          exact nextGenerationId_save absent
        · rfl
  | switchGeneration target => cases stores
  | activateBoot target => cases stores
  | deleteGenerations roots selector dryRun => cases stores

/-- A numbered entry of the generations directory. -/
def Numbered (dir : GenerationsDir) (name : String) (file : ManifestFile) (id : UInt32) : Prop :=
  dir.lookup name = some file ∧ parseU32 name.toList = some id

/-- Every generation directory but the current one's own keeps its manifest. -/
def KeepsGenerations (before after : GenerationsDir) (current : Manifest) : Prop :=
  ∀ name file id, Numbered before name file id → name ≠ dirName current.generation.id →
    after.lookup name = some file

/-- The id is above those of all generation directories and of the current manifest. -/
def FreshId (dir : GenerationsDir) (current : Manifest) (id : UInt32) : Prop :=
  current.generation.id < id ∧ ∀ name file other, Numbered dir name file other → other < id

/-- No id in use is the last one, and none of a directory without a readable manifest
is above both the current one and those of all readable ones. -/
def HasRoom (dir : GenerationsDir) (current : Manifest) : Prop :=
  current.generation.id.toNat < 2 ^ 32 - 1 ∧
  ∀ name file id, Numbered dir name file id → id.toNat < 2 ^ 32 - 1 ∧
    (id ≤ current.generation.id ∨ ∃ generation ∈ scanGenerations dir, id ≤ generation.id)

theorem nextGenerationId_fresh_iff (dir : GenerationsDir) (current : Manifest) :
    FreshId dir current (nextGenerationId dir current) ↔ HasRoom dir current := by
  have next : (nextGenerationId dir current).toNat =
      ((highestId dir current).toNat + 1) % 2 ^ 32 := by
    rw [nextGenerationId, UInt32.toNat_add]
    rfl
  have top : (highestId dir current).toNat < 2 ^ 32 := (highestId dir current).toNat_lt
  constructor
  · intro ⟨own, others⟩
    have above := UInt32.lt_iff_toNat_lt.mp own
    have atLeast := UInt32.le_iff_toNat_le.mp (@current_le_highestId dir current)
    refine ⟨by omega, ?_⟩
    intro name file id numbered
    have larger := UInt32.lt_iff_toNat_lt.mp (others name file id numbered)
    refine ⟨by omega, ?_⟩
    have below : id ≤ highestId dir current := UInt32.le_iff_toNat_le.mpr (by omega)
    rcases @highestId_cases dir current with same | ⟨generation, member, same⟩
    · exact .inl (same ▸ below)
    · exact .inr ⟨generation, member, same ▸ below⟩
  · intro ⟨own, others⟩
    have room : (highestId dir current).toNat < 2 ^ 32 - 1 := by
      rcases @highestId_cases dir current with same | ⟨generation, member, same⟩
      · rw [same]
        exact own
      · obtain ⟨name, found, parsed⟩ := mem_scanGenerations.mp member
        rw [← same]
        exact (others name _ generation.id ⟨found, parsed⟩).1
    have below : ∀ id : UInt32, id ≤ highestId dir current →
        id < nextGenerationId dir current := by
      intro id bound
      have smaller := UInt32.le_iff_toNat_le.mp bound
      exact UInt32.lt_iff_toNat_lt.mpr (by omega)
    refine ⟨below _ current_le_highestId, ?_⟩
    intro name file id numbered
    apply below
    rcases (others name file id numbered).2 with under | ⟨generation, member, under⟩
    · exact Std.le_trans under current_le_highestId
    · exact Std.le_trans under (le_highestId member)

/-- Storing the current generation and one under a fresh id changes no other entry. -/
theorem keepsGenerations_of_fresh {generations saved : GenerationsDir} {current new : Manifest}
    (stored : Saved generations saved current)
    (fresh : FreshId generations current new.generation.id) :
    KeepsGenerations generations (saveGeneration saved new) current := by
  intro name file id numbered apart
  have unused : name ≠ dirName new.generation.id := by
    intro same
    have parsed := numbered.2
    rw [same, parseU32_dirName, Option.some.injEq] at parsed
    have below := UInt32.lt_iff_toNat_lt.mp (fresh.2 name file id numbered)
    rw [parsed] at below
    omega
  rw [saveGeneration, AList.lookup_insert_ne unused]
  rcases stored with same | ⟨filled, own, same⟩
  · rw [same]
    exact numbered.1
  · rw [same, saveGeneration, own, AList.lookup_insert_ne apart]
    exact numbered.1

/-- A switch or a rollback leaves the stored generations alone and takes an id above
all others exactly when it stores nothing or there is room for such an id. -/
theorem perform_renews_iff (env : Env) (state : State) (current : Manifest) (op : Operation)
    (readable : state.manifest = .readable current) (renews : op.renews = true) :
    (KeepsGenerations state.generations (perform env state op).state.generations current ∧
      ∀ id, (perform env state op).created = some id → FreshId state.generations current id) ↔
      (Stores env state.generations current op → HasRoom state.generations current) := by
  constructor
  · intro ⟨_, fresh⟩ stores
    obtain ⟨saved, filled, new, _, numbered, performed⟩ := perform_of_stores readable stores
    rw [performed] at fresh
    have taken := fresh _ (publishNew_created env _ filled new)
    rw [numbered] at taken
    exact (nextGenerationId_fresh_iff state.generations current).mp taken
  · intro room
    by_cases stores : Stores env state.generations current op
    · obtain ⟨saved, filled, new, stored, numbered, performed⟩ :=
        perform_of_stores readable stores
      have fresh : FreshId state.generations current new.generation.id := by
        rw [numbered]
        exact (nextGenerationId_fresh_iff state.generations current).mpr (room stores)
      rw [performed, publishNew_generations]
      refine ⟨keepsGenerations_of_fresh stored fresh, ?_⟩
      intro id created
      rw [publishNew_created, Option.some.injEq] at created
      rw [← created]
      exact fresh
    · obtain ⟨unchanged, nothing⟩ := perform_of_not_stores readable renews stores
      rw [unchanged, nothing]
      refine ⟨fun name file id numbered _ => numbered.1, ?_⟩
      intro id created
      cases created

/-- A machine on which every activation succeeds. -/
def quietEnv : Env where
  rootFile := fun path => .error ("no file " ++ path)
  blake3 := id
  activate := fun _ _ _ => .ok ()
  timestamp := "2026-02-19T10:00:00Z"
  now := 0
  epoch := fun _ => 0
  bootWritable := true

/-- A generation without packages and files. -/
def emptyGeneration (id : UInt32) : Manifest where
  generation := ⟨id, "", "", ""⟩
  boot := none
  packages := []
  files := ∅
  toplevel := none
  etcSource := none

/-- Running generation 2, with generation 1 in the directory. -/
def twoGenerations : State where
  generations := AList.singleton "1" (.readable (emptyGeneration 1))
  manifest := .readable (emptyGeneration 2)
  link := some "2"
  bootDefault := none

/-- A rollback from generation 2 to generation 1 is stored as generation 3. -/
theorem rollback_renews_two :
    (perform quietEnv twoGenerations (.rollback none)).created = some 3 ∧
      KeepsGenerations twoGenerations.generations
        (perform quietEnv twoGenerations (.rollback none)).state.generations
        (emptyGeneration 2) ∧
      FreshId twoGenerations.generations (emptyGeneration 2) 3 := by
  have created : (perform quietEnv twoGenerations (.rollback none)).created = some 3 := by
    decide +kernel
  have kept := (perform_renews_iff quietEnv twoGenerations (emptyGeneration 2) (.rollback none)
    rfl rfl).mpr (by
      intro _
      refine ⟨by decide, ?_⟩
      intro name file id numbered
      have entry := List.mem_singleton.mp (AList.mem_lookup_iff.mp numbered.1)
      cases entry
      have same : some 1 = some id := numbered.2
      cases same
      exact ⟨by decide, .inl (by decide)⟩)
  exact ⟨created, kept.1, kept.2 3 created⟩

/-- Running generation 2, with a directory for generation 3 that has a damaged manifest. -/
def damagedGeneration : State where
  generations := AList.singleton "3" (.unreadable "expected value at line 1 column 1")
  manifest := .readable (emptyGeneration 2)
  link := some "2"
  bootDefault := none

/-- A switch takes 3 as its new id and overwrites the directory. -/
theorem switch_overwrites_damaged :
    ¬ ∀ (env : Env) (state : State) (current : Manifest) (op : Operation),
        state.manifest = .readable current → op.renews = true →
        KeepsGenerations state.generations (perform env state op).state.generations current ∧
          ∀ id, (perform env state op).created = some id →
            FreshId state.generations current id := by
  intro always
  have fresh := (always quietEnv damagedGeneration (emptyGeneration 2)
    (.switch "/new.json" (.readable (emptyGeneration 0)) none false) rfl rfl).2 3
    (by decide +kernel)
  have above := fresh.2 "3" (.unreadable "expected value at line 1 column 1") 3
    ⟨by decide, by decide +kernel⟩
  exact absurd above (by decide)

end NixRedox.System
