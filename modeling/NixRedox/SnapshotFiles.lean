import NixRedox.SystemGenerations

set_option autoImplicit false

/- `snapshot_root_files` as it changes the manifest in place: the entries it has filled in
stay filled in when a later one fails. -/
namespace NixRedox.System

/-- The loop of `snapshot_root_files` with the files as it leaves them, also when it fails. -/
def snapshotFilesInPlace (env : Env) :
    List String → (AList fun _ : String => FileInfo) → Bool →
      (AList fun _ : String => FileInfo) × Except String Bool
  | [], files, changed => (files, .ok changed)
  | path :: rest, files, changed =>
      match files.lookup path with
      | none => snapshotFilesInPlace env rest files changed
      | some info =>
          if info.text.isSome || !isSnapshotPath path then
            snapshotFilesInPlace env rest files changed
          else
            match env.rootFile path with
            | .error reason => (files, .error reason)
            | .ok text =>
                if env.blake3 text ≠ info.blake3 then
                  (files, .error ("cannot snapshot modified generation file: /" ++ path))
                else
                  snapshotFilesInPlace env rest
                    (files.insert path { info with text := some text }) true

def snapshotRootFilesInPlace (env : Env) (manifest : Manifest) :
    Manifest × Except String Bool :=
  let done := snapshotFilesInPlace env (manifest.files.keys.insertionSort (· ≤ ·))
    manifest.files false
  ({ manifest with files := done.1 }, done.2)

/-- The callers go on with the manifest only where the snapshot succeeds. -/
theorem snapshotFiles_inPlace (env : Env) (paths : List String)
    (files : AList fun _ : String => FileInfo) (changed : Bool) :
    snapshotFiles env paths files changed =
      (snapshotFilesInPlace env paths files changed).2.map
        ((snapshotFilesInPlace env paths files changed).1, ·) := by
  induction paths generalizing files changed with
  | nil =>
      rfl
  | cons path rest ih =>
      rw [snapshotFiles, snapshotFilesInPlace]
      cases files.lookup path with
      | none => exact ih files changed
      | some info =>
          dsimp only
          by_cases skipped : (info.text.isSome || !isSnapshotPath path) = true
          · rw [if_pos skipped, if_pos skipped]
            exact ih files changed
          · rw [if_neg skipped, if_neg skipped]
            cases env.rootFile path with
            | error reason => rfl
            | ok text =>
                dsimp only
                by_cases modified : env.blake3 text ≠ info.blake3
                · rw [if_pos modified, if_pos modified]
                  rfl
                · rw [if_neg modified, if_neg modified]
                  exact ih _ true

theorem snapshotRootFiles_inPlace (env : Env) (manifest : Manifest) :
    snapshotRootFiles env manifest =
      (snapshotRootFilesInPlace env manifest).2.map
        ((snapshotRootFilesInPlace env manifest).1, ·) := by
  unfold snapshotRootFiles snapshotRootFilesInPlace
  rw [snapshotFiles_inPlace]
  cases (snapshotFilesInPlace env (manifest.files.keys.insertionSort (· ≤ ·)) manifest.files
    false).2 <;> rfl

section Loop

variable {env : Env} {files after : AList fun _ : String => FileInfo} {path : String}
  {paths rest : List String} {info : FileInfo} (changed : Bool)

/-- An entry that the snapshot is to fill in. -/
def needsText (files : AList fun _ : String => FileInfo) (path : String) : Bool :=
  match files.lookup path with
  | some info => info.text.isNone && isSnapshotPath path
  | none => false

/-- The file of an entry is on disk as the manifest records it. -/
def Intact (env : Env) (files : AList fun _ : String => FileInfo) (path : String) : Prop :=
  ∃ info text, files.lookup path = some info ∧ env.rootFile path = .ok text ∧
    env.blake3 text = info.blake3

theorem needsText_eq_true :
    needsText files path = true ↔
      ∃ info, files.lookup path = some info ∧ info.text = none ∧ isSnapshotPath path := by
  unfold needsText
  cases files.lookup path with
  | none => simp
  | some info => simp

theorem needsText_insert {other : String} (different : other ≠ path) :
    needsText (files.insert path info) other = needsText files other := by
  unfold needsText
  rw [AList.lookup_insert_ne different]

theorem needsText_filled {text : String} :
    needsText (files.insert path { info with text := some text }) path = false := by
  unfold needsText
  rw [AList.lookup_insert]
  rfl

theorem intact_insert {other : String} (different : other ≠ path) :
    Intact env (files.insert path info) other ↔ Intact env files other := by
  unfold Intact
  rw [AList.lookup_insert_ne different]

theorem snapshotFilesInPlace_skip (idle : needsText files path = false) :
    snapshotFilesInPlace env (path :: rest) files changed =
      snapshotFilesInPlace env rest files changed := by
  rw [snapshotFilesInPlace]
  unfold needsText at idle
  split
  · rfl
  · rename_i info found
    rw [found] at idle
    have passed : (info.text.isSome || !isSnapshotPath path) = true := by
      cases text : info.text with
      | none => simpa [text] using idle
      | some text => rfl
    rw [if_pos passed]

theorem snapshotFilesInPlace_fail (needs : needsText files path = true)
    (broken : ¬ Intact env files path) :
    ∃ reason, snapshotFilesInPlace env (path :: rest) files changed =
      (files, .error reason) := by
  obtain ⟨info, found, empty, kept⟩ := needsText_eq_true.mp needs
  have fills : ¬ (info.text.isSome || !isSnapshotPath path) = true := by simp [empty, kept]
  rw [snapshotFilesInPlace, found]
  dsimp only
  rw [if_neg fills]
  cases read : env.rootFile path with
  | error reason => exact ⟨reason, rfl⟩
  | ok text =>
      have modified : env.blake3 text ≠ info.blake3 :=
        fun same => broken ⟨info, text, found, read, same⟩
      dsimp only
      rw [if_pos modified]
      exact ⟨_, rfl⟩

theorem snapshotFilesInPlace_fill {text : String} (found : files.lookup path = some info)
    (needs : needsText files path = true) (read : env.rootFile path = .ok text)
    (same : env.blake3 text = info.blake3) :
    snapshotFilesInPlace env (path :: rest) files changed =
      snapshotFilesInPlace env rest (files.insert path { info with text := some text })
        true := by
  obtain ⟨own, looked, empty, kept⟩ := needsText_eq_true.mp needs
  rw [found, Option.some.injEq] at looked
  subst looked
  have fills : ¬ (info.text.isSome || !isSnapshotPath path) = true := by simp [empty, kept]
  rw [snapshotFilesInPlace, found]
  dsimp only
  rw [if_neg fills, read]
  dsimp only
  rw [if_neg (not_not.mpr same)]

/-- After the loop the entries of the paths that had no text carry the file's text. -/
structure Filled (env : Env) (paths : List String)
    (files after : AList fun _ : String => FileInfo) : Prop where
  filled : ∀ path ∈ paths, needsText files path = true →
    ∃ info text, files.lookup path = some info ∧ env.rootFile path = .ok text ∧
      env.blake3 text = info.blake3 ∧
      after.lookup path = some { info with text := some text }
  others : ∀ path, (path ∈ paths → needsText files path = false) →
    after.lookup path = files.lookup path

theorem Filled.skip (idle : needsText files path = false) (later : Filled env rest files after) :
    Filled env (path :: rest) files after where
  filled := by
    intro other member lacks
    rcases List.mem_cons.mp member with rfl | member
    · rw [idle] at lacks
      cases lacks
    · exact later.filled other member lacks
  others := fun other kept => later.others other fun member => kept (List.mem_cons_of_mem path member)

theorem Filled.fill {text : String} (found : files.lookup path = some info)
    (needs : needsText files path = true) (read : env.rootFile path = .ok text)
    (same : env.blake3 text = info.blake3)
    (later : Filled env rest (files.insert path { info with text := some text }) after) :
    Filled env (path :: rest) files after where
  filled := by
    intro other member lacks
    by_cases own : other = path
    · refine ⟨info, text, own ▸ found, own ▸ read, same, ?_⟩
      rw [later.others other fun _ => own ▸ needsText_filled, own, AList.lookup_insert]
    · have entry := later.filled other ((List.mem_cons.mp member).resolve_left own)
        (by rwa [needsText_insert own])
      rwa [AList.lookup_insert_ne own] at entry
  others := by
    intro other idle
    have own : other ≠ path := by
      intro same
      rw [same, needs] at idle
      cases idle List.mem_cons_self
    rw [later.others other fun member => by
      rw [needsText_insert own]
      exact idle (List.mem_cons_of_mem path member), AList.lookup_insert_ne own]

theorem snapshotFilesInPlace_intact
    (intact : ∀ path ∈ paths, needsText files path = true → Intact env files path) :
    ∃ after, snapshotFilesInPlace env paths files changed =
        (after, .ok (changed || paths.any (needsText files))) ∧
      Filled env paths files after := by
  induction paths generalizing files changed with
  | nil =>
      refine ⟨files, ?_, ?_, fun _ _ => rfl⟩
      · rw [List.any_nil, Bool.or_false]
        rfl
      · intro path member
        cases member
  | cons path rest ih =>
      have intactRest : ∀ other ∈ rest, needsText files other = true → Intact env files other :=
        fun other member => intact other (List.mem_cons_of_mem path member)
      cases needs : needsText files path with
      | false =>
          obtain ⟨after, run, filled⟩ := ih changed intactRest
          refine ⟨after, ?_, filled.skip needs⟩
          rw [snapshotFilesInPlace_skip changed needs, run, List.any_cons, needs, Bool.false_or]
      | true =>
          obtain ⟨info, text, found, read, same⟩ := intact path List.mem_cons_self needs
          have intactNext : ∀ other ∈ rest,
              needsText (files.insert path { info with text := some text }) other = true →
                Intact env (files.insert path { info with text := some text }) other := by
            intro other member lacks
            by_cases own : other = path
            · rw [own, needsText_filled] at lacks
              cases lacks
            · rw [needsText_insert own] at lacks
              exact (intact_insert own).mpr (intactRest other member lacks)
          obtain ⟨after, run, filled⟩ := ih true intactNext
          refine ⟨after, ?_, filled.fill found needs read same⟩
          rw [snapshotFilesInPlace_fill changed found needs read same, run, List.any_cons, needs,
            Bool.true_or, Bool.true_or, Bool.or_true]

theorem broken_skip (idle : needsText files path = false)
    (broken : ∃ other ∈ path :: rest, needsText files other = true ∧ ¬ Intact env files other) :
    ∃ other ∈ rest, needsText files other = true ∧ ¬ Intact env files other := by
  obtain ⟨other, member, lacks, fails⟩ := broken
  rcases List.mem_cons.mp member with rfl | member
  · rw [idle] at lacks
    cases lacks
  · exact ⟨other, member, lacks, fails⟩

/-- Filling in an entry mends none of those behind it. -/
theorem broken_insert (intact : Intact env files path)
    (broken : ∃ other ∈ path :: rest, needsText files other = true ∧ ¬ Intact env files other) :
    ∃ other ∈ rest, needsText (files.insert path info) other = true ∧
      ¬ Intact env (files.insert path info) other := by
  obtain ⟨other, member, lacks, fails⟩ := broken
  have own : other ≠ path := by
    rintro rfl
    exact fails intact
  refine ⟨other, (List.mem_cons.mp member).resolve_left own, ?_, ?_⟩
  · rwa [needsText_insert own]
  · rwa [intact_insert own]

/-- A loop that fails has kept every text there was. It has changed nothing exactly where the
first entry to fill in is the one that fails. -/
theorem snapshotFilesInPlace_broken
    (broken : ∃ path ∈ paths, needsText files path = true ∧ ¬ Intact env files path) :
    ∃ after reason, snapshotFilesInPlace env paths files changed = (after, .error reason) ∧
      (∀ path info, files.lookup path = some info → info.text ≠ none →
        after.lookup path = some info) ∧
      ∀ first ∈ (paths.filter (needsText files)).head?,
        (after = files ↔ ¬ Intact env files first) := by
  induction paths generalizing files changed with
  | nil =>
      obtain ⟨path, member, _⟩ := broken
      cases member
  | cons path rest ih =>
      cases needs : needsText files path with
      | false =>
          obtain ⟨after, reason, run, keeps, first⟩ := ih changed (broken_skip needs broken)
          refine ⟨after, reason, ?_, keeps, ?_⟩
          · rw [snapshotFilesInPlace_skip changed needs, run]
          · rw [List.filter_cons_of_neg (by rw [needs]; decide)]
            exact first
      | true =>
          obtain ⟨own, looked, none, _⟩ := needsText_eq_true.mp needs
          have head : ((path :: rest).filter (needsText files)).head? = some path := by
            rw [List.filter_cons_of_pos needs, List.head?_cons]
          rw [head]
          by_cases intact : Intact env files path
          · obtain ⟨info, text, found, read, same⟩ := id intact
            obtain ⟨after, reason, run, keeps, _⟩ := ih true (broken_insert intact broken)
            refine ⟨after, reason, ?_, ?_, ?_⟩
            · rw [snapshotFilesInPlace_fill changed found needs read same, run]
            · intro other kept present full
              apply keeps other kept _ full
              have apart : other ≠ path := by
                rintro rfl
                rw [looked, Option.some.injEq] at present
                exact full (present ▸ none)
              rw [AList.lookup_insert_ne apart, present]
            · rintro first ⟨⟩
              have full := keeps path { info with text := some text }
                (AList.lookup_insert files) (by simp)
              refine iff_of_false ?_ (not_not.mpr intact)
              rintro rfl
              rw [looked, Option.some.injEq] at full
              rw [full] at none
              cases none
          · obtain ⟨reason, run⟩ := snapshotFilesInPlace_fail changed needs intact
            refine ⟨files, reason, run, fun _ _ looked _ => looked, ?_⟩
            rintro first ⟨⟩
            exact iff_of_true rfl intact

end Loop

/-- The entries a snapshot is to fill in, in the order it goes through them. -/
def pendingFiles (manifest : Manifest) : List String :=
  (manifest.files.keys.insertionSort (· ≤ ·)).filter (needsText manifest.files)

theorem mem_pendingFiles {manifest : Manifest} {path : String} :
    path ∈ pendingFiles manifest ↔ needsText manifest.files path = true := by
  rw [pendingFiles, List.mem_filter, List.mem_insertionSort, and_iff_right_iff_imp]
  intro needs
  obtain ⟨info, found, _⟩ := needsText_eq_true.mp needs
  exact AList.mem_keys.mp (AList.lookup_isSome.mp (by rw [found]; rfl))

/-- The entries without text under `usr/lib/init.d/` and `startup.sh` have the text on disk,
and nothing else is different. -/
structure Snapshotted (env : Env) (before after : Manifest) : Prop where
  filled : ∀ path info, before.files.lookup path = some info → info.text = none →
    isSnapshotPath path = true → ∃ text, env.rootFile path = .ok text ∧
      env.blake3 text = info.blake3 ∧
      after.files.lookup path = some { info with text := some text }
  others : ∀ path, (∀ info, before.files.lookup path = some info → info.text = none →
    isSnapshotPath path = false) → after.files.lookup path = before.files.lookup path
  rest : { after with files := before.files } = before

/-- A snapshot that fails leaves the manifest as it is; one that succeeds fills in all its
entries, and leaves a second one nothing to do. -/
def AllOrNothing (env : Env) (manifest : Manifest) : Prop :=
  match snapshotRootFilesInPlace env manifest with
  | (after, .error _) => after = manifest
  | (after, .ok changed) =>
      Snapshotted env manifest after ∧ (changed = true ↔ pendingFiles manifest ≠ []) ∧
        snapshotRootFilesInPlace env after = (after, .ok false)

theorem snapshotRootFilesInPlace_idle {env : Env} {manifest : Manifest}
    (idle : ∀ path, needsText manifest.files path = false) :
    snapshotRootFilesInPlace env manifest = (manifest, .ok false) := by
  have loop : ∀ paths, snapshotFilesInPlace env paths manifest.files false =
      (manifest.files, .ok false) := by
    intro paths
    induction paths with
    | nil =>
        rfl
    | cons path rest ih =>
        rw [snapshotFilesInPlace_skip false (idle path), ih]
  rw [snapshotRootFilesInPlace, loop]

theorem Filled.needsText_eq_false {env : Env} {manifest : Manifest}
    {after : AList fun _ : String => FileInfo}
    (done : Filled env (manifest.files.keys.insertionSort (· ≤ ·)) manifest.files after)
    (path : String) : needsText after path = false := by
  cases needs : needsText manifest.files path with
  | false =>
      have kept := done.others path fun _ => needs
      rw [needsText, kept]
      exact needs
  | true =>
      have member := List.mem_of_mem_filter (mem_pendingFiles.mpr needs)
      obtain ⟨info, text, _, _, _, full⟩ := done.filled path member needs
      rw [needsText, full]
      rfl

theorem Filled.snapshotted {env : Env} {manifest : Manifest}
    {after : AList fun _ : String => FileInfo}
    (done : Filled env (manifest.files.keys.insertionSort (· ≤ ·)) manifest.files after) :
    Snapshotted env manifest { manifest with files := after } := by
  refine ⟨?_, ?_, rfl⟩
  · intro path info found empty kept
    have needs := needsText_eq_true.mpr ⟨info, found, empty, kept⟩
    have member := List.mem_of_mem_filter (mem_pendingFiles.mpr needs)
    obtain ⟨own, text, looked, read, same, full⟩ := done.filled path member needs
    rw [found, Option.some.injEq] at looked
    subst looked
    exact ⟨text, read, same, full⟩
  · intro path passed
    apply done.others path
    intro _
    rw [Bool.eq_false_iff]
    intro needs
    obtain ⟨info, found, empty, kept⟩ := needsText_eq_true.mp needs
    rw [passed info found empty] at kept
    cases kept

/-- The snapshot is all or nothing exactly where all its entries are on disk as recorded, or
the first of them is not. -/
theorem snapshotRootFiles_allOrNothing_iff (env : Env) (manifest : Manifest) :
    AllOrNothing env manifest ↔
      (∀ path ∈ pendingFiles manifest, Intact env manifest.files path) ∨
        ∃ first ∈ (pendingFiles manifest).head?, ¬ Intact env manifest.files first := by
  by_cases intact : ∀ path ∈ pendingFiles manifest, Intact env manifest.files path
  · refine iff_of_true ?_ (.inl intact)
    have onDisk : ∀ path ∈ manifest.files.keys.insertionSort (· ≤ ·),
        needsText manifest.files path = true → Intact env manifest.files path :=
      fun path _ needs => intact path (mem_pendingFiles.mpr needs)
    obtain ⟨after, run, done⟩ := snapshotFilesInPlace_intact false onDisk
    have again : snapshotRootFilesInPlace env { manifest with files := after } =
        ({ manifest with files := after }, .ok false) :=
      snapshotRootFilesInPlace_idle done.needsText_eq_false
    rw [AllOrNothing, snapshotRootFilesInPlace, run]
    refine ⟨done.snapshotted, ?_, again⟩
    rw [Bool.false_or, List.any_eq_true, pendingFiles, ne_eq, List.filter_eq_nil_iff]
    simp only [not_forall, not_not, exists_prop]
  · have broken : ∃ path ∈ manifest.files.keys.insertionSort (· ≤ ·),
        needsText manifest.files path = true ∧ ¬ Intact env manifest.files path := by
      simp only [not_forall] at intact
      obtain ⟨path, member, fails⟩ := intact
      exact ⟨path, List.mem_of_mem_filter member, mem_pendingFiles.mp member, fails⟩
    obtain ⟨after, reason, run, _, first⟩ := snapshotFilesInPlace_broken false broken
    have unchanged : AllOrNothing env manifest ↔ after = manifest.files := by
      rw [AllOrNothing, snapshotRootFilesInPlace, run]
      constructor
      · intro same
        exact congrArg Manifest.files same
      · rintro rfl
        rfl
    rw [unchanged, or_iff_right intact]
    cases head : (pendingFiles manifest).head? with
    | none =>
        rw [List.head?_eq_none_iff] at head
        rw [head] at intact
        exact absurd (fun _ member => absurd member List.not_mem_nil) intact
    | some path =>
        rw [first path head]
        simp

/-- Two units, of which the second is missing from the disk. -/
def halfMissing : Manifest where
  generation := ⟨1, "", "", ""⟩
  boot := none
  packages := []
  files := ((∅ : AList fun _ : String => FileInfo).insert "usr/lib/init.d/10_a.service"
    ⟨"hash", 1, "644", none⟩).insert "usr/lib/init.d/20_b.service" ⟨"hash", 1, "644", none⟩
  toplevel := none
  etcSource := none

/-- A file system with the first unit only, where every text has the hash `hash`. -/
def firstOnly : Env where
  rootFile path := if path = "usr/lib/init.d/10_a.service" then .ok "a" else .error "not found"
  blake3 _ := "hash"
  activate _ _ _ := .ok ()
  timestamp := ""
  now := 0
  epoch _ := 0
  bootWritable := true

/-- The snapshot fails with the first unit filled in. -/
theorem halfMissing_changed : ¬ AllOrNothing firstOnly halfMissing := by
  have failed : (snapshotRootFilesInPlace firstOnly halfMissing).2 = .error "not found" := rfl
  have filled : ((snapshotRootFilesInPlace firstOnly halfMissing).1.files.lookup
      "usr/lib/init.d/10_a.service").bind (·.text) = some "a" := by decide +kernel
  intro whole
  unfold AllOrNothing at whole
  split at whole
  · rename_i after reason run
    rw [run, whole] at filled
    cases filled
  · rename_i after changed run
    rw [run] at failed
    cases failed

end NixRedox.System
