import Mathlib

set_option autoImplicit false

/- The path metadata database of `pathinfo.rs`: one JSON file per store path,
named by the digest part of the path. -/
namespace NixRedox

/-- Metadata of one store path. The registration time and the file manifest are
not read by anything modelled here. -/
structure PathInfo where
  storePath : String
  narHash : String
  narSize : UInt64
  references : List String
  deriver : Option String
  signatures : List String
  deriving DecidableEq, Repr

inductive PathInfoError where
  | invalidPath (text : String)
  | io (text : String)
  | corrupt (text : String)
  deriving DecidableEq, Repr

/-- The `Display` of an error. -/
def PathInfoError.toText : PathInfoError → String
  | .invalidPath text => s!"invalid store path: {text}"
  | .io text => s!"I/O error: {text}"
  | .corrupt text => s!"corrupt pathinfo: {text}"

/-- What `read_to_string` and `serde_json::from_str` make of a metadata file. -/
inductive InfoFile where
  | info (info : PathInfo)
  | malformed (reason : String)
  | unreadable (reason : String)
  deriving DecidableEq, Repr

/-- `store_path_hash`: the nixbase32 digest of an absolute store path, or the
text of the parse error. Parsing belongs to the `nix_compat` crate. -/
abbrev StorePathHash := String → Except String String

/-- What `store_path_hash` answers for `/nix/store/{32 characters}-{name}`. -/
def literalHash : StorePathHash := fun path =>
  let text := path.toList
  if "/nix/store/".toList.isPrefixOf text ∧ (text.drop 43).head? = some '-' ∧
      '/' ∉ text.drop 43 then
    .ok (String.ofList ((text.drop 11).take 32))
  else
    .error "invalid store path"

/-- The database directory. A file that parses was written by `register`, so it
carries the digest of its own path as its name. -/
structure PathInfoDb (hash : StorePathHash) where
  pathinfoDir : String
  files : AList (fun _ : String => InfoFile)
  keyed : ∀ stem info, files.lookup stem = some (.info info) → hash info.storePath = .ok stem

namespace PathInfoDb

variable {hash : StorePathHash}

/-- A freshly created database. -/
def openAt (hash : StorePathHash) (pathinfoDir : String) : PathInfoDb hash where
  pathinfoDir := pathinfoDir
  files := ∅
  keyed := by
    intro stem info found
    rw [AList.lookup_empty] at found
    cases found

/-- Display form of `info_file` for a digest. -/
def infoFile (db : PathInfoDb hash) (stem : String) : String :=
  s!"{db.pathinfoDir}/{stem}.json"

def get (db : PathInfoDb hash) (path : String) : Except PathInfoError (Option PathInfo) :=
  match hash path with
  | .error reason => .error (.invalidPath s!"{path}: {reason}")
  | .ok stem =>
      match db.files.lookup stem with
      | none => .ok none
      | some (.unreadable reason) => .error (.io s!"reading {db.infoFile stem}: {reason}")
      | some (.malformed reason) => .error (.corrupt s!"{db.infoFile stem}: {reason}")
      | some (.info info) => .ok (some info)

def isRegistered (db : PathInfoDb hash) (path : String) : Bool :=
  match hash path with
  | .error _ => false
  | .ok stem => (db.files.lookup stem).isSome

/-- The loop of `list_paths`: a file that cannot be read ends the listing with
an error, one that does not parse is left out. -/
def collectPaths : List (Sigma fun _ : String => InfoFile) →
    Except PathInfoError (List String)
  | [] => .ok []
  | ⟨stem, file⟩ :: rest =>
      match file with
      | .unreadable reason => .error (.io s!"reading {stem}.json: {reason}")
      | .malformed _ => collectPaths rest
      | .info info =>
          match collectPaths rest with
          | .error reason => .error reason
          | .ok paths => .ok (info.storePath :: paths)

def listPaths (db : PathInfoDb hash) : Except PathInfoError (List String) :=
  (collectPaths db.files.entries).map (·.insertionSort (· ≤ ·))

/-- The sorted set of registered store paths. -/
def allPathsSet (db : PathInfoDb hash) : Except PathInfoError (List String) :=
  db.listPaths.map List.dedup

private theorem keyed_erase (db : PathInfoDb hash) (stem : String) :
    ∀ other info, (db.files.erase stem).lookup other = some (.info info) →
      hash info.storePath = .ok other := by
  intro other info found
  by_cases same : other = stem
  · subst same
    rw [AList.lookup_erase] at found
    cases found
  · rw [AList.lookup_erase_ne same] at found
    exact db.keyed other info found

private theorem keyed_insert (db : PathInfoDb hash) (stem : String) (file : InfoFile)
    (own : ∀ info, file = .info info → hash info.storePath = .ok stem) :
    ∀ other info, (db.files.insert stem file).lookup other = some (.info info) →
      hash info.storePath = .ok other := by
  intro other info found
  by_cases same : other = stem
  · subst same
    rw [AList.lookup_insert, Option.some.injEq] at found
    exact own info found
  · rw [AList.lookup_insert_ne same] at found
    exact db.keyed other info found

/-- Remove the file of a digest. -/
def eraseFile (db : PathInfoDb hash) (stem : String) : PathInfoDb hash where
  pathinfoDir := db.pathinfoDir
  files := db.files.erase stem
  keyed := keyed_erase db stem

/-- A complete write of the metadata file. -/
def writeFile (db : PathInfoDb hash) (stem : String) (info : PathInfo)
    (own : hash info.storePath = .ok stem) : PathInfoDb hash where
  pathinfoDir := db.pathinfoDir
  files := db.files.insert stem (.info info)
  keyed := keyed_insert db stem _ (by rintro _ ⟨⟩; exact own)

/-- A write that stopped halfway leaves a file that does not parse. -/
def tearFile (db : PathInfoDb hash) (stem reason : String) : PathInfoDb hash where
  pathinfoDir := db.pathinfoDir
  files := db.files.insert stem (.malformed reason)
  keyed := keyed_insert db stem _ (by rintro _ ⟨⟩)

/-- `delete`; `fault` is the error `remove_file` reports, if any. -/
def delete (db : PathInfoDb hash) (path : String) (fault : Option String) :
    Except PathInfoError (PathInfoDb hash) :=
  match hash path with
  | .error reason => .error (.invalidPath s!"{path}: {reason}")
  | .ok stem =>
      if (db.files.lookup stem).isSome then
        match fault with
        | some reason => .error (.io s!"deleting {db.infoFile stem}: {reason}")
        | none => .ok (db.eraseFile stem)
      else
        .ok db

/-- How `fs::write` of a metadata file can fail: with the old file still there,
or with a torn one in its place. -/
structure WriteFault where
  reason : String
  torn : Bool
  deriving DecidableEq, Repr

/-- `register` returns the database it leaves behind with its result. -/
def register (db : PathInfoDb hash) (info : PathInfo) (fault : Option WriteFault) :
    PathInfoDb hash × Except PathInfoError Unit :=
  match own : hash info.storePath with
  | .error reason => (db, .error (.invalidPath s!"{info.storePath}: {reason}"))
  | .ok stem =>
      match fault with
      | some fault =>
          (if fault.torn then db.tearFile stem fault.reason else db,
            .error (.io s!"writing {db.infoFile stem}: {fault.reason}"))
      | none => (db.writeFile stem info own, .ok ())

@[simp] theorem eraseFile_lookup (db : PathInfoDb hash) (stem : String) :
    (db.eraseFile stem).files.lookup stem = none := AList.lookup_erase _ _

theorem eraseFile_lookup_ne (db : PathInfoDb hash) {stem other : String}
    (different : other ≠ stem) :
    (db.eraseFile stem).files.lookup other = db.files.lookup other :=
  AList.lookup_erase_ne different

theorem register_ok {db after : PathInfoDb hash} {info : PathInfo} {fault : Option WriteFault}
    (registered : db.register info fault = (after, .ok ())) :
    fault = none ∧ ∃ stem own, after = db.writeFile stem info own := by
  unfold register at registered
  split at registered
  · cases registered
  · rename_i stem own
    split at registered
    · cases registered
    · cases registered
      exact ⟨rfl, stem, own, rfl⟩

theorem register_error {db after : PathInfoDb hash} {info : PathInfo}
    {fault : Option WriteFault} {reason : PathInfoError} {stem : String}
    (own : hash info.storePath = .ok stem)
    (failed : db.register info fault = (after, .error reason)) :
    ∃ write, fault = some write ∧
      after = if write.torn then db.tearFile stem write.reason else db := by
  unfold register at failed
  split at failed
  · rename_i text invalid
    rw [own] at invalid
    cases invalid
  · rename_i digest hashed
    rw [own] at hashed
    cases hashed
    split at failed
    · rename_i write
      cases failed
      exact ⟨write, rfl, rfl⟩
    · cases failed

/-- `p` has a metadata file of its own: the file of its digest parses and names it. -/
def Registered (db : PathInfoDb hash) (path : String) : Prop :=
  ∃ info, db.get path = .ok (some info) ∧ info.storePath = path

/-- The file of the path's digest parses. -/
def Recorded (db : PathInfoDb hash) (path : String) : Prop :=
  ∃ info, db.get path = .ok (some info)

/-- Every reference of every recorded path is recorded. -/
def ReferenceClosed (db : PathInfoDb hash) : Prop :=
  ∀ path info, db.get path = .ok (some info) → ∀ reference ∈ info.references,
    db.Recorded reference

theorem get_eq_some {db : PathInfoDb hash} {path : String} {info : PathInfo} :
    db.get path = .ok (some info) ↔
      ∃ stem, hash path = .ok stem ∧ db.files.lookup stem = some (.info info) := by
  constructor
  · intro found
    unfold get at found
    split at found
    · cases found
    · rename_i stem hashed
      split at found
      · cases found
      · cases found
      · cases found
      · rename_i stored present
        cases found
        exact ⟨stem, hashed, present⟩
  · rintro ⟨stem, hashed, present⟩
    simp only [get, hashed, present]

theorem recorded_iff {db : PathInfoDb hash} {path : String} :
    db.Recorded path ↔
      ∃ stem info, hash path = .ok stem ∧ db.files.lookup stem = some (.info info) := by
  constructor
  · intro ⟨info, found⟩
    obtain ⟨stem, hashed, stored⟩ := get_eq_some.mp found
    exact ⟨stem, info, hashed, stored⟩
  · intro ⟨stem, info, hashed, stored⟩
    exact ⟨info, get_eq_some.mpr ⟨stem, hashed, stored⟩⟩

/-- Closure, file by file. -/
theorem referenceClosed_iff {db : PathInfoDb hash} :
    db.ReferenceClosed ↔ ∀ stem info, db.files.lookup stem = some (.info info) →
      ∀ reference ∈ info.references, db.Recorded reference := by
  constructor
  · intro closed stem info stored
    exact closed info.storePath info
      (get_eq_some.mpr ⟨stem, db.keyed stem info stored, stored⟩)
  · intro closed path info found
    obtain ⟨stem, _, stored⟩ := get_eq_some.mp found
    exact closed stem info stored

theorem get_of_isRegistered {db : PathInfoDb hash} {path : String}
    (registered : db.isRegistered path = true) : db.get path ≠ .ok none := by
  intro absent
  unfold isRegistered at registered
  split at registered
  · cases registered
  · rename_i stem hashed
    obtain ⟨file, found⟩ := Option.isSome_iff_exists.mp registered
    cases file with
    | info info => simp only [get, hashed, found, Except.ok.injEq, reduceCtorEq] at absent
    | malformed reason => simp only [get, hashed, found, reduceCtorEq] at absent
    | unreadable reason => simp only [get, hashed, found, reduceCtorEq] at absent

theorem Recorded.isRegistered {db : PathInfoDb hash} {path : String}
    (recorded : db.Recorded path) : db.isRegistered path = true := by
  obtain ⟨stem, info, hashed, stored⟩ := recorded_iff.mp recorded
  rw [PathInfoDb.isRegistered, hashed]
  simp [stored]

theorem writeFile_recorded {db : PathInfoDb hash} {stem path : String} {info : PathInfo}
    (own : hash info.storePath = .ok stem) (recorded : db.Recorded path) :
    (db.writeFile stem info own).Recorded path := by
  obtain ⟨digest, found, hashed, stored⟩ := recorded_iff.mp recorded
  apply recorded_iff.mpr
  by_cases same : digest = stem
  · exact ⟨digest, info, hashed, same ▸ AList.lookup_insert _⟩
  · exact ⟨digest, found, hashed, (AList.lookup_insert_ne same).trans stored⟩

theorem writeFile_self_recorded {db : PathInfoDb hash} {stem : String} {info : PathInfo}
    (own : hash info.storePath = .ok stem) :
    (db.writeFile stem info own).Recorded info.storePath :=
  recorded_iff.mpr ⟨stem, info, own, AList.lookup_insert _⟩

/-- Without a fault a valid path is registered. -/
theorem register_valid (db : PathInfoDb hash) {info : PathInfo} {stem : String}
    (own : hash info.storePath = .ok stem) :
    db.register info none = (db.writeFile stem info own, .ok ()) := by
  unfold register
  split
  · rename_i reason invalid
    rw [own] at invalid
    cases invalid
  · rename_i digest hashed
    have same : digest = stem := Except.ok.inj (hashed.symm.trans own)
    subst same
    rfl

theorem tearFile_lookup {db : PathInfoDb hash} {torn text stem : String} {info : PathInfo} :
    (db.tearFile torn text).files.lookup stem = some (.info info) ↔
      stem ≠ torn ∧ db.files.lookup stem = some (.info info) := by
  by_cases same : stem = torn
  · subst same
    have malformed : (db.tearFile stem text).files.lookup stem = some (.malformed text) :=
      AList.lookup_insert _
    simp [malformed]
  · have kept : (db.tearFile torn text).files.lookup stem = db.files.lookup stem :=
      AList.lookup_insert_ne same
    simp [kept, same]

theorem tearFile_recorded {db : PathInfoDb hash} {torn text path : String} :
    (db.tearFile torn text).Recorded path ↔ db.Recorded path ∧ hash path ≠ .ok torn := by
  simp only [recorded_iff, tearFile_lookup]
  constructor
  · intro ⟨stem, info, hashed, apart, stored⟩
    refine ⟨⟨stem, info, hashed, stored⟩, ?_⟩
    rw [hashed]
    intro same
    exact apart (Except.ok.inj same)
  · intro ⟨⟨stem, info, hashed, stored⟩, apart⟩
    refine ⟨stem, info, hashed, ?_, stored⟩
    intro same
    rw [hashed, same] at apart
    exact apart rfl

/-- The listing holds exactly the registered paths, unless a file cannot be read. -/
theorem mem_collectPaths {entries : List (Sigma fun _ : String => InfoFile)}
    {paths : List String} (success : collectPaths entries = .ok paths) (path : String) :
    path ∈ paths ↔ ∃ stem info, ⟨stem, .info info⟩ ∈ entries ∧ info.storePath = path := by
  induction entries generalizing paths with
  | nil =>
      cases success
      simp
  | cons entry rest ih =>
      obtain ⟨stem, file⟩ := entry
      cases file with
      | unreadable reason => cases success
      | malformed reason =>
          rw [ih success]
          simp
      | info info =>
          cases collected : collectPaths rest with
          | error reason =>
              simp only [collectPaths, collected] at success
              cases success
          | ok tail =>
              simp only [collectPaths, collected, Except.ok.injEq] at success
              subst success
              rw [List.mem_cons, ih collected]
              constructor
              · rintro (same | ⟨other, found, member, named⟩)
                · exact ⟨stem, info, by simp, same.symm⟩
                · exact ⟨other, found, by simp [member], named⟩
              · rintro ⟨other, found, member, named⟩
                rcases List.mem_cons.mp member with same | later
                · cases same
                  exact .inl named.symm
                · exact .inr ⟨other, found, later, named⟩

theorem collectPaths_error_iff {entries : List (Sigma fun _ : String => InfoFile)} :
    (∃ reason, collectPaths entries = .error reason) ↔
      ∃ stem reason, (⟨stem, .unreadable reason⟩ : Sigma fun _ : String => InfoFile) ∈ entries := by
  induction entries with
  | nil => simp [collectPaths]
  | cons entry rest ih =>
      obtain ⟨stem, file⟩ := entry
      cases file with
      | unreadable reason =>
          constructor
          · intro _
            exact ⟨stem, reason, by simp⟩
          · intro _
            exact ⟨_, rfl⟩
      | malformed reason =>
          rw [show collectPaths (⟨stem, .malformed reason⟩ :: rest) = collectPaths rest from rfl, ih]
          simp
      | info info =>
          have narrowed : (∃ reason, collectPaths (⟨stem, .info info⟩ :: rest) = .error reason) ↔
              ∃ reason, collectPaths rest = .error reason := by
            cases collected : collectPaths rest <;> simp [collectPaths, collected]
          rw [narrowed, ih]
          simp

/-- Some metadata file cannot be read, so no listing of the database succeeds. -/
def Unlistable (db : PathInfoDb hash) : Prop :=
  ∃ stem reason, db.files.lookup stem = some (.unreadable reason)

theorem allPathsSet_error_iff (db : PathInfoDb hash) :
    (∃ reason, db.allPathsSet = .error reason) ↔ db.Unlistable := by
  have unwrapped : (∃ reason, db.allPathsSet = .error reason) ↔
      ∃ reason, collectPaths db.files.entries = .error reason := by
    unfold allPathsSet listPaths
    cases collectPaths db.files.entries <;> simp [Except.map]
  rw [unwrapped, collectPaths_error_iff]
  unfold Unlistable
  simp only [← AList.mem_lookup_iff, Option.mem_def]

theorem mem_allPathsSet {db : PathInfoDb hash} {paths : List String}
    (success : db.allPathsSet = .ok paths) (path : String) :
    path ∈ paths ↔ db.Registered path := by
  obtain ⟨listed, collected, rfl⟩ : ∃ listed, collectPaths db.files.entries = .ok listed ∧
      (listed.insertionSort (· ≤ ·)).dedup = paths := by
    unfold allPathsSet listPaths at success
    cases collected : collectPaths db.files.entries with
    | error reason => simp [collected, Except.map] at success
    | ok listed =>
        simp only [collected, Except.map, Except.ok.injEq] at success
        exact ⟨listed, rfl, success⟩
  rw [List.mem_dedup, List.mem_insertionSort, mem_collectPaths collected]
  simp only [← AList.mem_lookup_iff, Option.mem_def]
  constructor
  · rintro ⟨stem, info, present, rfl⟩
    exact ⟨info, get_eq_some.mpr ⟨stem, db.keyed stem info present, present⟩, rfl⟩
  · rintro ⟨info, found, named⟩
    obtain ⟨stem, -, present⟩ := get_eq_some.mp found
    exact ⟨stem, info, present, named⟩

end PathInfoDb

end NixRedox
