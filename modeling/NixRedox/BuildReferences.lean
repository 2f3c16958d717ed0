import NixRedox.AsciiRuns
import NixRedox.BuildClosure

set_option autoImplicit false

/- The references that a build records: the candidates of `needles_to_candidates`, the scan
of an output's tree, and what is registered of it for every output. -/
namespace NixRedox.LocalBuild

open Bytes (utf8 fromUtf8Lossy)
open Redox (Table)

mutual

/-- What a builder leaves at an output path. Devices, pipes and sockets are not read. -/
inductive OutputTree where
  | file (content : List UInt8)
  | symlink (target : List UInt8)
  | dir (entries : OutputEntries)
  | special

inductive OutputEntries where
  | done
  | entry (name : List UInt8) (tree : OutputTree) (rest : OutputEntries)

end

/-- Code outside the repository: the needles of `derivation_into_build_request`, and the
hashes `ReferenceScanner` finds in one piece of data. -/
structure Scanning where
  refscanNeedles : Derivation → List StorePath → List (List Char)
  finds : List (List Char) → List UInt8 → List (List Char)

/-- The needles are the hashes of the outputs and of the inputs supplied, and the scanner
finds exactly the patterns that occur. -/
structure Scanning.Exact (scanning : Scanning) : Prop where
  needles : ∀ drv inputs hash, hash ∈ scanning.refscanNeedles drv inputs ↔
    ∃ path ∈ outputPlaces drv ++ inputs, path.digest = hash
  finds : ∀ hashes bytes hash, hash ∈ scanning.finds hashes bytes ↔
    hash ∈ hashes ∧ utf8 hash <:+: bytes

section Candidates

variable (scanning : Scanning) (knownPaths : KnownPaths)

/-- The keys of `direct_inputs`. -/
def directInputs (drv : Derivation) : List StorePath :=
  (drv.inputSources ++ knownPaths.inputOutputs drv).dedup

/-- `HashMap::retain` by the key. -/
def retain (keep : List Char → Bool) (table : Table StorePath) : Table StorePath where
  entries := table.entries.filter fun entry => keep entry.1
  nodupKeys := table.nodupKeys.sublist List.filter_sublist

/-- Paths by their hashes, the last one of a hash, as far as they are needles. -/
def candidateTable (needles : List (List Char)) (paths : List StorePath) : Table StorePath :=
  retain (· ∈ needles) (paths.foldl (fun table path => table.insert path.digest path) ∅)

def needlesToCandidates (drv : Derivation) : Table StorePath :=
  candidateTable (scanning.refscanNeedles drv (directInputs knownPaths drv))
    (candidates knownPaths drv)

end Candidates

section Scan

mutual

/-- `scan_path_with_scanner`, with the matches of each piece of data. -/
def scanPathWithScanner (scan : List UInt8 → List (List Char)) : OutputTree → List (List Char)
  | .file content => scan content
  | .symlink target => scan (utf8 (fromUtf8Lossy target))
  | .dir entries => scanEntries scan entries
  | .special => []

def scanEntries (scan : List UInt8 → List (List Char)) : OutputEntries → List (List Char)
  | .done => []
  | .entry _ tree rest => scanPathWithScanner scan tree ++ scanEntries scan rest

end

/-- The paths whose hashes the scanner has matched below an output. -/
def scanTree (scanning : Scanning) (table : Table StorePath) (tree : OutputTree) :
    List StorePath :=
  (scanPathWithScanner (scanning.finds table.keys) tree).filterMap table.lookup

/-- The tools of the build of a derivation, with this scan. -/
def referenceTools (scanning : Scanning) (knownPaths : KnownPaths) (drv : Derivation)
    (tools : Tools OutputTree) : Tools OutputTree :=
  { tools with
    scan := fun tree paths =>
      scanTree scanning
        (candidateTable (scanning.refscanNeedles drv (directInputs knownPaths drv)) paths) tree }

mutual

/-- The contents of the regular files of a tree and the targets of its symlinks. -/
def OutputTree.texts : OutputTree → List (List UInt8)
  | .file content => [content]
  | .symlink target => [target]
  | .dir entries => entries.texts
  | .special => []

def OutputEntries.texts : OutputEntries → List (List UInt8)
  | .done => []
  | .entry _ tree rest => tree.texts ++ rest.texts

end

/-- A hash occurs in a tree. -/
def OutputTree.Mentions (tree : OutputTree) (hash : List Char) : Prop :=
  ∃ text ∈ tree.texts, utf8 hash <:+: text

theorem isNixbase32_le {letter : Char} (digit : Stored.isNixbase32 letter = true) :
    letter.val.toNat ≤ 122 := by
  simp only [Stored.isNixbase32, Bool.decide_or, Bool.or_eq_true, decide_eq_true_eq, Char.le_def,
    UInt32.le_iff_toNat_le] at digit
  rcases digit with ⟨_, high⟩ | ⟨_, high⟩ | ⟨_, high⟩ | ⟨_, high⟩ | ⟨_, high⟩ <;>
    exact high.trans (by decide)

theorem digest_ascii (path : StorePath) : ∀ byte ∈ utf8 path.digest, byte < 128 := by
  intro byte member
  obtain ⟨letter, listed, own⟩ := List.mem_flatMap.mp member
  have low := isNixbase32_le (List.all_eq_true.mp path.digestChars letter listed)
  have single : String.utf8EncodeChar letter = [UInt8.ofNat letter.val.toNat] :=
    if_pos (low.trans (by decide))
  rw [single, List.mem_singleton] at own
  rw [own, UInt8.lt_iff_toNat_lt, UInt8.toNat_ofNat']
  exact (Nat.mod_le _ _).trans_lt (Nat.lt_of_le_of_lt low (by decide))

theorem digest_nonempty (path : StorePath) : utf8 path.digest ≠ [] := by
  intro empty
  have none : path.digest = [] := by
    rw [← Bytes.fromUtf8Lossy_utf8 path.digest, empty]
    rfl
  have length := path.digestLength
  rw [none] at length
  cases length

mutual

/-- The scan matches the hashes that occur in the tree. -/
theorem mem_scanPathWithScanner {scan : List UInt8 → List (List Char)} {hash : List Char}
    {hashes : List (List Char)}
    (exact : ∀ bytes, hash ∈ scan bytes ↔ hash ∈ hashes ∧ utf8 hash <:+: bytes)
    (ascii : ∀ byte ∈ utf8 hash, byte < 128) (nonempty : utf8 hash ≠ []) (tree : OutputTree) :
    hash ∈ scanPathWithScanner scan tree ↔ hash ∈ hashes ∧ tree.Mentions hash := by
  cases tree with
  | file content => simp [scanPathWithScanner, exact, OutputTree.Mentions, OutputTree.texts]
  | symlink target =>
      rw [scanPathWithScanner, exact, Bytes.infix_fromUtf8Lossy ascii nonempty]
      simp [OutputTree.Mentions, OutputTree.texts]
  | dir entries => exact mem_scanEntries exact ascii nonempty entries
  | special => simp [scanPathWithScanner, OutputTree.Mentions, OutputTree.texts]

theorem mem_scanEntries {scan : List UInt8 → List (List Char)} {hash : List Char}
    {hashes : List (List Char)}
    (exact : ∀ bytes, hash ∈ scan bytes ↔ hash ∈ hashes ∧ utf8 hash <:+: bytes)
    (ascii : ∀ byte ∈ utf8 hash, byte < 128) (nonempty : utf8 hash ≠ [])
    (entries : OutputEntries) :
    hash ∈ scanEntries scan entries ↔
      hash ∈ hashes ∧ ∃ text ∈ entries.texts, utf8 hash <:+: text := by
  cases entries with
  | done => simp [scanEntries, OutputEntries.texts]
  | entry name tree rest =>
      rw [scanEntries, List.mem_append, mem_scanPathWithScanner exact ascii nonempty tree,
        mem_scanEntries exact ascii nonempty rest, ← and_or_left, OutputTree.Mentions,
        OutputEntries.texts]
      simp only [List.mem_append, or_and_right, exists_or]

end

end Scan

section Tables

variable {scanning : Scanning} {knownPaths : KnownPaths} {drv : Derivation}
  {paths : List StorePath} {needles : List (List Char)}

/-- The table of the paths by their hashes: a path under its own hash, and one for each. -/
theorem lookup_byDigest {path : StorePath} {hash : List Char} {table : Table StorePath}
    (found : (paths.foldl (fun table path => table.insert path.digest path) table).lookup hash =
      some path) :
    table.lookup hash = some path ∨ path ∈ paths ∧ path.digest = hash := by
  induction paths generalizing table with
  | nil =>
      exact .inl found
  | cons first rest ih =>
      rcases ih found with earlier | ⟨member, own⟩
      · by_cases same : hash = first.digest
        · subst same
          rw [AList.lookup_insert, Option.some.injEq] at earlier
          subst earlier
          exact .inr ⟨List.mem_cons_self, rfl⟩
        · rw [AList.lookup_insert_ne same] at earlier
          exact .inl earlier
      · exact .inr ⟨List.mem_cons_of_mem first member, own⟩

theorem byDigest_covers {table : Table StorePath} {hash : List Char}
    (there : (∃ path, table.lookup hash = some path) ∨ ∃ path ∈ paths, path.digest = hash) :
    ∃ path, (paths.foldl (fun table path => table.insert path.digest path) table).lookup hash =
      some path := by
  induction paths generalizing table with
  | nil =>
      rcases there with here | ⟨path, member, _⟩
      · exact here
      · cases member
  | cons first rest ih =>
      apply ih
      by_cases same : hash = first.digest
      · exact .inl ⟨first, by rw [same, AList.lookup_insert]⟩
      · rcases there with ⟨path, here⟩ | ⟨path, member, own⟩
        · exact .inl ⟨path, by rw [AList.lookup_insert_ne same, here]⟩
        · rcases List.mem_cons.mp member with rfl | later
          · exact absurd own.symm same
          · exact .inr ⟨path, later, own⟩

theorem lookup_retain {keep : List Char → Bool} {table : Table StorePath} {hash : List Char}
    (kept : keep hash = true) : (retain keep table).lookup hash = table.lookup hash := by
  apply Option.ext
  intro path
  rw [← Option.mem_def, ← Option.mem_def, AList.mem_lookup_iff, AList.mem_lookup_iff]
  exact List.mem_filter.trans (and_iff_left kept)

/-- The needles are all hashes of candidates, so that none is left out. -/
theorem mem_needles (exact : scanning.Exact) {hash : List Char} :
    hash ∈ scanning.refscanNeedles drv (directInputs knownPaths drv) ↔
      ∃ path ∈ candidates knownPaths drv, path.digest = hash := by
  rw [exact.needles]
  simp only [directInputs, candidates, List.mem_append, List.mem_dedup, or_assoc]

/-- The candidates of a hash: one of them stands for all. -/
theorem needlesToCandidates_lookup (exact : scanning.Exact) {path : StorePath}
    (candidate : path ∈ candidates knownPaths drv) :
    ∃ chosen ∈ candidates knownPaths drv, chosen.digest = path.digest ∧
      (needlesToCandidates scanning knownPaths drv).lookup path.digest = some chosen := by
  have kept : decide (path.digest ∈ scanning.refscanNeedles drv (directInputs knownPaths drv)) =
      true := decide_eq_true ((mem_needles exact).mpr ⟨path, candidate, rfl⟩)
  have covered : ∃ chosen, ((candidates knownPaths drv).foldl
      (fun table path => table.insert path.digest path) (∅ : Table StorePath)).lookup
        path.digest = some chosen := byDigest_covers (.inr ⟨path, candidate, rfl⟩)
  obtain ⟨chosen, found⟩ := covered
  rcases lookup_byDigest found with none | ⟨member, own⟩
  · cases none
  · exact ⟨chosen, member, own, (lookup_retain kept).trans found⟩

theorem lookup_needlesToCandidates {path : StorePath} {hash : List Char}
    (found : (needlesToCandidates scanning knownPaths drv).lookup hash = some path) :
    path ∈ candidates knownPaths drv ∧ path.digest = hash := by
  have entry := AList.mem_lookup_iff.mp (Option.mem_def.mpr found)
  have listed := (List.mem_filter.mp entry).1
  rcases lookup_byDigest (AList.mem_lookup_iff.mpr listed) with none | ⟨member, own⟩
  · cases none
  · exact ⟨member, own⟩

/-- The scan records, of the candidates whose hash occurs, the one that stands for the hash. -/
theorem mem_scanTree (exact : scanning.Exact) {tree : OutputTree} {path : StorePath} :
    path ∈ scanTree scanning (needlesToCandidates scanning knownPaths drv) tree ↔
      (needlesToCandidates scanning knownPaths drv).lookup path.digest = some path ∧
        tree.Mentions path.digest := by
  let table := needlesToCandidates scanning knownPaths drv
  have matched : ∀ path : StorePath,
      path.digest ∈ scanPathWithScanner (scanning.finds table.keys) tree ↔
        path.digest ∈ table.keys ∧ tree.Mentions path.digest := fun path =>
    mem_scanPathWithScanner (fun bytes => exact.finds table.keys bytes path.digest)
      (digest_ascii path) (digest_nonempty path) tree
  rw [scanTree, List.mem_filterMap]
  constructor
  · rintro ⟨hash, listed, found⟩
    obtain ⟨_, rfl⟩ := lookup_needlesToCandidates found
    exact ⟨found, ((matched path).mp listed).2⟩
  · rintro ⟨found, mentions⟩
    have key : path.digest ∈ table.keys :=
      AList.mem_keys.mp (AList.lookup_isSome.mp (by rw [found]; rfl))
    exact ⟨path.digest, (matched path).mpr ⟨key, mentions⟩, found⟩

end Tables

section Registered

variable {hash : StorePathHash} {tools : Tools OutputTree} {knownPaths : KnownPaths}
  {world after : World OutputTree hash} {drvPath : StorePath} {drv : Derivation}
  {attempt : Attempt OutputTree} {built : BuildResult}

/-- The references under a path in the database. -/
def HasReferences (db : PathInfoDb hash) (path : String) (references : List String) : Prop :=
  ∃ info, db.get path = .ok (some info) ∧ info.references = references

theorem HasReferences.writeFile {db : PathInfoDb hash} {path stem : String}
    {references : List String} {written : PathInfo} (own : hash written.storePath = .ok stem)
    (same : written.references = references) (has : HasReferences db path references) :
    HasReferences (db.writeFile stem written own) path references := by
  obtain ⟨info, found, listed⟩ := has
  obtain ⟨digest, hashed, stored⟩ := PathInfoDb.get_eq_some.mp found
  by_cases here : digest = stem
  · subst here
    exact ⟨written, PathInfoDb.get_eq_some.mpr ⟨digest, hashed, AList.lookup_insert _⟩, same⟩
  · have kept : (db.writeFile stem written own).files.lookup digest = some (.info info) :=
      (AList.lookup_insert_ne here).trans stored
    exact ⟨info, PathInfoDb.get_eq_some.mpr ⟨digest, hashed, kept⟩, listed⟩

theorem HasReferences.tearFile {db : PathInfoDb hash} {path torn reason : String}
    {references : List String} (apart : hash path ≠ .ok torn)
    (has : HasReferences db path references) :
    HasReferences (db.tearFile torn reason) path references := by
  obtain ⟨info, found, listed⟩ := has
  obtain ⟨digest, hashed, stored⟩ := PathInfoDb.get_eq_some.mp found
  have differs : digest ≠ torn := by
    rintro rfl
    exact apart hashed
  have kept : (db.tearFile torn reason).files.lookup digest = some (.info info) :=
    (AList.lookup_insert_ne differs).trans stored
  exact ⟨info, PathInfoDb.get_eq_some.mpr ⟨digest, hashed, kept⟩, listed⟩

/-- No write that fails is to the file of the path. -/
def Spared (hash : StorePathHash) (attempt : Attempt OutputTree)
    (outputs : List (List Char × StorePath)) (path : String) : Prop :=
  ∀ output ∈ outputs, attempt.infoFault output.2 ≠ none →
    ¬ SameFile hash (display output.2) path

/-- A registration leaves the references of the call, of whatever path. -/
theorem register_references {db next : PathInfoDb hash} {place : StorePath} {path : String}
    {references : List String} {hashed : String × UInt64} {result : Except PathInfoError Unit}
    (registered : db.register (outputInfo drvPath place references hashed)
      (attempt.infoFault place) = (next, result))
    (spared : attempt.infoFault place ≠ none → ¬ SameFile hash (display place) path)
    (has : HasReferences db path references) : HasReferences next path references := by
  cases result with
  | ok done =>
      obtain ⟨-, stem, own, rfl⟩ := PathInfoDb.register_ok registered
      exact has.writeFile own rfl
  | error reason =>
      cases own : hash (outputInfo drvPath place references hashed).storePath with
      | error invalid =>
          have same : next = db := by
            unfold PathInfoDb.register at registered
            split at registered
            · cases registered
              rfl
            · rename_i stem valid
              rw [own] at valid
              cases valid
          rw [same]
          exact has
      | ok stem =>
          obtain ⟨write, fault, rfl⟩ := PathInfoDb.register_error own registered
          split
          · apply has.tearFile
            intro shared
            exact spared (by simp [fault]) ⟨stem, own, shared⟩
          · exact has

/-- Every output that is registered has the references of the call. -/
theorem registerOutputs_references {strict : Bool} {hashing : String} {references : List String}
    {primary : StorePath} {primaryHash : String × UInt64}
    {outputs : List (List Char × StorePath)}
    (registered : registerOutputs tools strict hashing drvPath attempt references primary
      primaryHash outputs world = (after, .ok ())) :
    (∀ path, strict = true ∨ Spared hash attempt outputs path →
      HasReferences world.db path references → HasReferences after.db path references) ∧
    ∀ output ∈ outputs, strict = true ∨
        (∃ stem, hash (display output.2) = .ok stem) ∧
          Spared hash attempt outputs (display output.2) →
      HasReferences after.db (display output.2) references := by
  induction outputs generalizing world with
  | nil =>
      cases registered
      exact ⟨fun _ _ has => has, fun _ member => absurd member List.not_mem_nil⟩
  | cons output rest ih =>
      obtain ⟨name, place⟩ := output
      have tail {path : String}
          (spared : strict = true ∨ Spared hash attempt ((name, place) :: rest) path) :
          strict = true ∨ Spared hash attempt rest path :=
        spared.imp_right fun free output member => free output (List.mem_cons_of_mem _ member)
      unfold registerOutputs at registered
      split at registered
      · cases registered
      · rename_i hashed _
        split at registered
        · rename_i db reason failed
          split at registered
          · cases registered
          · -- the error is passed over
            rename_i soft
            obtain ⟨kept, later⟩ := ih registered
            refine ⟨?_, ?_⟩
            · intro path spared has
              apply kept path (tail spared)
              apply register_references failed _ has
              exact (spared.resolve_left soft) (name, place) List.mem_cons_self
            · intro output member spared
              rcases List.mem_cons.mp member with rfl | below
              · obtain ⟨⟨stem, own⟩, free⟩ := spared.resolve_left soft
                obtain ⟨write, fault, -⟩ := PathInfoDb.register_error own failed
                have faulty : attempt.infoFault place ≠ none := by simp [fault]
                exact absurd ⟨stem, own, own⟩ (free (name, place) List.mem_cons_self faulty)
              · exact later output below (spared.imp_right (And.imp_right fun free output member =>
                  free output (List.mem_cons_of_mem _ member)))
        · rename_i db written
          obtain ⟨kept, later⟩ := ih registered
          obtain ⟨free, stem, own, rfl⟩ := PathInfoDb.register_ok written
          refine ⟨?_, ?_⟩
          · intro path spared has
            exact kept path (tail spared) (has.writeFile own rfl)
          · intro output member spared
            rcases List.mem_cons.mp member with rfl | below
            · apply kept _ (tail (spared.imp_right And.right))
              exact ⟨_, PathInfoDb.get_eq_some.mpr ⟨stem, own, AList.lookup_insert _⟩, rfl⟩
            · exact later output below (spared.imp_right (And.imp_right fun free output member =>
                free output (List.mem_cons_of_mem _ member)))

/-- One scan, of one output, gives the references of all outputs. -/
theorem finishBuild_references {strict : Bool} {hashing : String}
    {outputs : List (List Char × StorePath)} {primary : StorePath}
    (finished : finishBuild tools knownPaths strict hashing world drvPath drv attempt outputs
      primary = (after, .ok built)) :
    ∃ found references,
      scanReferences tools world.store attempt primary (candidates knownPaths drv) = .ok found ∧
      (∀ text, text ∈ references ↔ text ∈ found) ∧
      ∀ output ∈ outputs, strict = true ∨
          (∃ stem, hash (display output.2) = .ok stem) ∧
            Spared hash attempt outputs (display output.2) →
        HasReferences after.db (display output.2) references := by
  unfold finishBuild at finished
  split at finished
  · cases finished
  · rename_i found scanned
    dsimp only at finished
    split at finished
    · cases finished
    · split at finished
      · cases finished
      · rename_i registered
        cases finished
        refine ⟨found, _, scanned, ?_, (registerOutputs_references registered).2⟩
        intro text
        rw [List.mem_insertionSort, List.mem_dedup]

/-- The output that is scanned is not registered, nor does the `.drv` file take its entry. -/
def Unregistered (world : World OutputTree hash) (drvPath : StorePath) (drv : Derivation) : Prop :=
  ∀ primary, primaryOut (placedOutputs drv) = some primary →
    ¬ world.db.Recorded (display primary) ∧ ¬ SameFile hash (display primary) (display drvPath)

theorem Unregistered.derivationFile (fresh : Unregistered world drvPath drv)
    (registered : registerDerivationFile tools world drvPath drv attempt = (after, .ok ())) :
    Unregistered after drvPath drv := by
  intro primary first
  obtain ⟨absent, apart⟩ := fresh primary first
  refine ⟨?_, apart⟩
  rcases registerDerivationFile_ok registered with same | ⟨stem, info, own, named, -, written⟩
  · rw [same]
    exact absent
  · rw [written]
    rintro ⟨found, read⟩
    rcases get_writeFile own read with older | ⟨-, shared⟩
    · exact absent ⟨found, older⟩
    · rw [named] at shared
      exact apart shared

/-- Outputs that are there are taken in where the first one is not registered. -/
theorem buildResultFromExisting_finishes (fresh : Unregistered world drvPath drv)
    (existing : buildResultFromExisting tools knownPaths world drvPath drv attempt =
      (after, .ok built)) :
    ∃ strict hashing middle primary, finishBuild tools knownPaths strict hashing middle drvPath
        drv attempt built.outputs primary = (after, .ok built) ∧
      primaryOut built.outputs = some primary := by
  have outputs := (buildResultFromExisting_same existing).2 built rfl
  unfold buildResultFromExisting at existing
  split at existing
  · cases existing
  · rename_i registered
    have still := fresh.derivationFile registered
    dsimp only at existing
    split at existing
    · cases existing
    · rename_i primary first
      split at existing
      · rename_i info found
        exact absurd ⟨info, found⟩ (still primary first).1
      · rw [outputs]
        exact ⟨_, _, _, primary, existing, first⟩

/-- A build that runs, or finds its outputs unregistered, ends by taking in what is in the
store. -/
theorem buildDerivationInner_finishes
    (ended : buildDerivationInner tools knownPaths world drvPath drv attempt = (after, .ok built))
    (taken : after.history ≠ world.history ∨ Unregistered world drvPath drv) :
    ∃ strict hashing middle primary, finishBuild tools knownPaths strict hashing middle drvPath
        drv attempt built.outputs primary = (after, .ok built) ∧
      primaryOut built.outputs = some primary ∧
      (after.history ≠ world.history → strict = true) := by
  -- without a run the outputs were there
  have idle {middle : World OutputTree hash}
      (registered : registerDerivationFile tools world drvPath drv attempt = (middle, .ok ()))
      (existing : buildResultFromExisting tools knownPaths middle drvPath drv attempt =
        (after, .ok built)) :
      ∃ strict hashing middle primary, finishBuild tools knownPaths strict hashing middle drvPath
          drv attempt built.outputs primary = (after, .ok built) ∧
        primaryOut built.outputs = some primary ∧
        (after.history ≠ world.history → strict = true) := by
    have same := (registerDerivationFile_same registered).trans
      (buildResultFromExisting_same existing).1
    have fresh := taken.resolve_left (not_not.mpr same.history)
    obtain ⟨strict, hashing, last, primary, finished, first⟩ :=
      buildResultFromExisting_finishes (fresh.derivationFile registered) existing
    exact ⟨strict, hashing, last, primary, finished, first, fun ran => absurd same.history ran⟩
  unfold buildDerivationInner at ended
  split at ended
  · cases ended
  · rename_i registered
    split at ended
    · exact idle registered ended
    · split at ended
      · cases ended
      · split at ended
        · -- the builtin fetchers take in a single output
          unfold buildBuiltinFetcher at ended
          split at ended
          · cases ended
          · split at ended
            · exact idle registered ended
            · split at ended
              · cases ended
              · dsimp only at ended
                split at ended
                · cases ended
                · split at ended
                  · cases ended
                  · split at ended
                    · cases ended
                    · have outputs := (finishBuild_same ended).2 built rfl
                      rw [outputs]
                      exact ⟨true, _, _, _, ended, rfl, fun _ => rfl⟩
        · unfold runBuilder at ended
          dsimp only at ended
          split at ended
          · cases ended
          · split at ended
            · cases ended
            · split at ended
              · cases ended
              · split at ended
                · cases ended
                · rename_i primary chosen
                  have outputs := (finishBuild_same ended).2 built rfl
                  rw [outputs]
                  exact ⟨true, _, _, primary, ended, chosen, fun _ => rfl⟩

end Registered

section Exactness

/-- A hash occurs in what is at a path of the store. -/
def MentionedAt (store : Store OutputTree) (place : StorePath) (hash : List Char) : Prop :=
  ∃ entry, store place = some entry ∧ entry.content.Mentions hash

/-- The references are the candidates whose hashes occur at the place. -/
def ExactReferences (knownPaths : KnownPaths) (drv : Derivation) (store : Store OutputTree)
    (place : StorePath) (references : List String) : Prop :=
  ∀ text, text ∈ references ↔ ∃ path ∈ candidates knownPaths drv,
    text = display path ∧ MentionedAt store place path.digest

variable {hash : StorePathHash} {scanning : Scanning} {tools : Tools OutputTree}
  {knownPaths : KnownPaths} {world after : World OutputTree hash} {drvPath : StorePath}
  {drv : Derivation} {attempt : Attempt OutputTree} {built : BuildResult}

theorem display_injective : Function.Injective display := by
  intro first second same
  exact StorePath.toAbsolutePath_injective (String.ofList_injective same)

/-- What a scan of the primary output finds. -/
theorem mem_scanReferences (exact : scanning.Exact) {store : Store OutputTree}
    {primary : StorePath} {found : List String}
    (scanned : scanReferences (referenceTools scanning knownPaths drv tools) store attempt primary
      (candidates knownPaths drv) = .ok found) (text : String) :
    text ∈ found ↔ ∃ path, text = display path ∧
      (needlesToCandidates scanning knownPaths drv).lookup path.digest = some path ∧
        MentionedAt store primary path.digest := by
  unfold scanReferences at scanned
  split at scanned
  · rename_i none
    cases scanned
    refine iff_of_false List.not_mem_nil ?_
    rintro ⟨path, _, chosen, _⟩
    have candidate := (lookup_needlesToCandidates chosen).1
    rw [none] at candidate
    cases candidate
  · split at scanned
    · cases scanned
    · split at scanned
      · cases scanned
      · rename_i entry present
        cases scanned
        have here : ∀ path : StorePath, MentionedAt store primary path.digest ↔
            entry.content.Mentions path.digest := by
          simp [MentionedAt, present]
        have listed : ∀ path, path ∈ (referenceTools scanning knownPaths drv tools).scan
            entry.content (candidates knownPaths drv) ↔ _ := fun path => mem_scanTree exact
        simp only [List.mem_map, listed, here]
        constructor
        · rintro ⟨path, chosen, rfl⟩
          exact ⟨path, rfl, chosen⟩
        · rintro ⟨path, rfl, chosen⟩
          exact ⟨path, chosen, rfl⟩

/-- References that are those of the primary output are exact for another output where the
same candidates occur in it, and none of them share a hash. -/
theorem exactReferences_iff (exact : scanning.Exact) {store : Store OutputTree}
    {primary place : StorePath} {references : List String}
    (recorded : ∀ text, text ∈ references ↔ ∃ path, text = display path ∧
      (needlesToCandidates scanning knownPaths drv).lookup path.digest = some path ∧
        MentionedAt store primary path.digest) :
    ExactReferences knownPaths drv store place references ↔
      (∀ path ∈ candidates knownPaths drv,
        (MentionedAt store place path.digest ↔ MentionedAt store primary path.digest)) ∧
      ∀ path ∈ candidates knownPaths drv, ∀ other ∈ candidates knownPaths drv,
        path.digest = other.digest → MentionedAt store place path.digest → path = other := by
  constructor
  · intro exactly
    -- a candidate that occurs is recorded, and then stands for its hash
    have chosen : ∀ path ∈ candidates knownPaths drv, MentionedAt store place path.digest →
        (needlesToCandidates scanning knownPaths drv).lookup path.digest = some path ∧
          MentionedAt store primary path.digest := by
      intro path candidate occurs
      have listed := (exactly (display path)).mpr ⟨path, candidate, rfl, occurs⟩
      obtain ⟨own, same, rest⟩ := (recorded _).mp listed
      rw [display_injective same]
      exact rest
    refine ⟨?_, ?_⟩
    · intro path candidate
      refine ⟨fun occurs => (chosen path candidate occurs).2, ?_⟩
      intro occurs
      obtain ⟨own, member, same, found⟩ := needlesToCandidates_lookup exact candidate
      rw [← same] at found occurs ⊢
      have listed := (recorded (display own)).mpr ⟨own, rfl, found, occurs⟩
      obtain ⟨other, _, equal, here⟩ := (exactly _).mp listed
      rw [display_injective equal]
      exact here
    · intro path candidate other second same occurs
      have first := (chosen path candidate occurs).1
      have last := (chosen other second (same ▸ occurs)).1
      rw [same, last, Option.some.injEq] at first
      exact first.symm
  · rintro ⟨same, single⟩ text
    rw [recorded]
    constructor
    · rintro ⟨path, rfl, found, occurs⟩
      have candidate := (lookup_needlesToCandidates found).1
      exact ⟨path, candidate, rfl, (same path candidate).mpr occurs⟩
    · rintro ⟨path, candidate, rfl, occurs⟩
      obtain ⟨own, member, hashed, found⟩ := needlesToCandidates_lookup exact candidate
      have standing := single path candidate own member hashed.symm occurs
      rw [← standing] at found
      exact ⟨path, rfl, found, (same path candidate).mp occurs⟩

/-- What a build records for an output is exact where the candidates that occur in the output
are those that occur in the one that is scanned, each alone with its hash. A build without a
run records only what was not registered, and passes over writes that fail. -/
theorem recordedReferences_iff (exact : scanning.Exact)
    (ended : buildDerivationInner (referenceTools scanning knownPaths drv tools) knownPaths world
      drvPath drv attempt = (after, .ok built))
    (taken : after.history ≠ world.history ∨ Unregistered world drvPath drv) :
    ∃ primary, primaryOut built.outputs = some primary ∧ ∀ output ∈ built.outputs,
      after.history ≠ world.history ∨ (∃ stem, hash (display output.2) = .ok stem) ∧
        Spared hash attempt built.outputs (display output.2) →
      ∃ info, after.db.get (display output.2) = .ok (some info) ∧
        (ExactReferences knownPaths drv after.store output.2 info.references ↔
          (∀ path ∈ candidates knownPaths drv,
            (MentionedAt after.store output.2 path.digest ↔
              MentionedAt after.store primary path.digest)) ∧
          ∀ path ∈ candidates knownPaths drv, ∀ other ∈ candidates knownPaths drv,
            path.digest = other.digest → MentionedAt after.store output.2 path.digest →
              path = other) := by
  obtain ⟨strict, hashing, middle, primary, finished, chosen, firm⟩ :=
    buildDerivationInner_finishes ended taken
  have store := (finishBuild_same finished).1.store
  obtain ⟨found, references, scanned, listed, recorded⟩ := finishBuild_references finished
  refine ⟨primary, chosen, ?_⟩
  intro output member written
  obtain ⟨info, got, rfl⟩ := recorded output member (written.imp_left firm)
  refine ⟨info, got, exactReferences_iff exact ?_⟩
  intro text
  rw [listed, store]
  exact mem_scanReferences exact scanned text

end Exactness

section Split

open Nar (asciiBytes fileNar)

/-- Outputs that are single files, with the hashes that the runs below meet. -/
def treeTools : Tools OutputTree where
  sha256 := textTools.sha256
  hex := textTools.hex
  symlink := fun
    | .symlink target => some target
    | _ => none
  read := fun
    | .file content => .ok content
    | _ => .error "not a file"
  nar := fun
    | .file content => fileNar content
    | _ => []
  scan := fun _ _ => []
  drvNar := textTools.drvNar
  fetchurlDerivationToFetch := textTools.fetchurlDerivationToFetch

def plainScanning : Scanning where
  refscanNeedles := fun drv inputs => (outputPlaces drv ++ inputs).map StorePath.digest
  finds := fun hashes bytes => hashes.filter fun hash => decide (utf8 hash <:+: bytes)

theorem plainScanning_exact : plainScanning.Exact where
  needles := fun _ _ _ => List.mem_map
  finds := by
    intro hashes bytes hash
    simp [plainScanning]

def devPath : StorePath where
  digest := "55555555555555555555555555555555".toList
  name := "wrapper-dev".toList
  digestLength := by decide
  digestChars := by decide
  named := by decide
  nameChars := by decide

/-- A derivation with two outputs and a source. -/
def splitDerivation : Derivation where
  arguments := []
  builder := "/bin/sh".toList
  environment := ∅
  inputDerivations := []
  inputSources := [helloPath]
  outputs := AList.insert "out".toList { path := some wrapperPath, caHash := none }
    (AList.insert "dev".toList { path := some devPath, caHash := none } ∅)

def splitStart : World OutputTree literalHash where
  store := fun _ => none
  elsewhere := fun _ _ => none
  drvFiles := [wrapperDrv]
  db := wrapperDb
  history := []

/-- A builder that leaves a file at every output, which names the source at some of them. -/
def splitAttempt (naming : StorePath → Bool) : Attempt OutputTree :=
  { touchAndExit 0 with
    elsewhere := fun _ _ => none
    cleanUp := .gone
    writes := fun path =>
      some (.file (if naming path then asciiBytes helloPath.toAbsolutePath else [])) }

def splitRun (naming : StorePath → Bool) :
    World OutputTree literalHash × Except Stop BuildResult :=
  buildDerivationInner (referenceTools plainScanning ∅ splitDerivation treeTools) ∅ splitStart
    wrapperDrv splitDerivation (splitAttempt naming)

theorem splitRun_completed (naming : StorePath → Bool)
    (outputs : (splitRun naming).2.toOption.map BuildResult.outputs =
      some [("dev".toList, devPath), ("out".toList, wrapperPath)])
    (ran : (splitRun naming).1.history.length = 1) :
    ∃ after built, splitRun naming = (after, .ok built) ∧
      built.outputs = [("dev".toList, devPath), ("out".toList, wrapperPath)] ∧
      after.history ≠ splitStart.history := by
  generalize splitRun naming = outcome at outputs ran ⊢
  obtain ⟨after, result⟩ := outcome
  cases result with
  | error reason => cases outputs
  | ok built =>
      refine ⟨after, built, rfl, by simpa [Except.toOption] using outputs, ?_⟩
      intro same
      rw [same] at ran
      cases ran

/-- Both outputs name the source, and the references of both are exact. -/
theorem recordedReferences_split :
    ∃ info, (splitRun fun _ => true).1.db.get (display devPath) = .ok (some info) ∧
      ExactReferences ∅ splitDerivation (splitRun fun _ => true).1.store devPath
        info.references := by
  have texts : ∀ place ∈ [devPath, wrapperPath],
      ((splitRun fun _ => true).1.store place).map (fun entry => entry.content.texts) =
        some [asciiBytes helloPath.toAbsolutePath] := by
    decide +kernel
  obtain ⟨after, built, ended, only, changed⟩ :=
    splitRun_completed (fun _ => true) (by decide +kernel) (by decide +kernel)
  rw [ended] at texts ⊢
  obtain ⟨primary, chosen, recorded⟩ :=
    recordedReferences_iff plainScanning_exact ended (.inl changed)
  have primaryOwn : primary = wrapperPath := by
    rw [only] at chosen
    exact (Option.some.inj chosen).symm
  obtain ⟨info, got, exactly⟩ := recorded ("dev".toList, devPath) (by simp [only]) (.inl changed)
  have mentions : ∀ place ∈ [devPath, wrapperPath], ∀ hash,
      MentionedAt after.store place hash ↔
        utf8 hash <:+: asciiBytes helloPath.toAbsolutePath := by
    intro place listed hash
    obtain ⟨entry, present, own⟩ := Option.map_eq_some_iff.mp (texts place listed)
    have there : after.store place = some entry := present
    simp [MentionedAt, OutputTree.Mentions, there, own]
  have apart : ∀ path ∈ candidates ∅ splitDerivation,
      ∀ other ∈ candidates ∅ splitDerivation, path.digest = other.digest → path = other := by
    decide +kernel
  refine ⟨info, got, exactly.mpr ⟨?_, ?_⟩⟩
  · intro path _
    rw [primaryOwn, mentions devPath (by simp), mentions wrapperPath (by simp)]
  · intro path first other second same _
    exact apart path first other second same

/-- Only the second output names the source, which is then recorded for neither. -/
theorem second_output_unscanned :
    ¬ ∀ (scanning : Scanning) (tools : Tools OutputTree) (knownPaths : KnownPaths)
      (world after : World OutputTree literalHash) (drvPath : StorePath) (drv : Derivation)
      (attempt : Attempt OutputTree) (built : BuildResult), scanning.Exact →
      buildDerivationInner (referenceTools scanning knownPaths drv tools) knownPaths world drvPath
        drv attempt = (after, .ok built) →
      after.history ≠ world.history → ∀ output ∈ built.outputs,
        ∃ info, after.db.get (display output.2) = .ok (some info) ∧
          ExactReferences knownPaths drv after.store output.2 info.references := by
  intro always
  let naming : StorePath → Bool := fun path => path = devPath
  have texts : ((splitRun naming).1.store devPath).map (fun entry => entry.content.texts) =
      some [asciiBytes helloPath.toAbsolutePath] := by
    decide +kernel
  have none : ((splitRun naming).1.db.get (display devPath)).toOption.join.map
      PathInfo.references = some [] := by
    decide +kernel
  obtain ⟨after, built, ended, only, changed⟩ :=
    splitRun_completed naming (by decide +kernel) (by decide +kernel)
  rw [ended] at texts none
  obtain ⟨info, got, exactly⟩ := always plainScanning treeTools ∅ splitStart after wrapperDrv
    splitDerivation (splitAttempt naming) built plainScanning_exact ended changed
    ("dev".toList, devPath) (by simp [only])
  have empty : info.references = [] := by
    simpa [got, Except.toOption] using none
  have candidate : helloPath ∈ candidates ∅ splitDerivation := by
    decide +kernel
  have occurs : MentionedAt after.store devPath helloPath.digest := by
    obtain ⟨entry, present, own⟩ := Option.map_eq_some_iff.mp texts
    refine ⟨entry, present, asciiBytes helloPath.toAbsolutePath, ?_, ?_⟩
    · rw [own]
      exact List.mem_singleton_self _
    · decide +kernel
  have listed := (exactly (display helloPath)).mpr ⟨helloPath, candidate, rfl, occurs⟩
  rw [empty] at listed
  cases listed

end Split

end NixRedox.LocalBuild
