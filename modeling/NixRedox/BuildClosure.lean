import NixRedox.BuildProvenance
import NixRedox.NarExtract
import NixRedox.StoreClosure

set_option autoImplicit false

/- Whether a build leaves its outputs registered, together with everything that can be
reached from them by references. -/
namespace NixRedox.LocalBuild

variable {Content : Type} {hash : StorePathHash}

/-- `compute_closure` succeeds. -/
def Closed (db : PathInfoDb hash) (path : String) : Prop :=
  ∃ closure, Store.computeClosure db path = .ok closure

/-- Two paths have the same metadata file. -/
def SameFile (hash : StorePathHash) (first second : String) : Prop :=
  ∃ stem, hash first = .ok stem ∧ hash second = .ok stem

theorem closed_iff {db : PathInfoDb hash} {path : String} :
    Closed db path ↔ GraphSearch.Complete (Store.references db) path := by
  have described := Store.computeClosure_describes db path
  unfold Closed
  cases computed : Store.computeClosure db path with
  | error reason =>
      rw [computed] at described
      simpa using described
  | ok closure =>
      rw [computed] at described
      simpa using described.2

theorem Closed.references {db : PathInfoDb hash} {path : String} {info : PathInfo}
    (closed : Closed db path) (found : db.get path = .ok (some info)) {reference : String}
    (member : reference ∈ info.references) : db.Recorded reference := by
  have edge := Store.references_eq_some.mpr ⟨info, found, rfl⟩
  have expanded := closed_iff.mp closed reference (.step .refl edge member)
  obtain ⟨children, listed⟩ := Option.isSome_iff_exists.mp expanded
  obtain ⟨own, present, -⟩ := Store.references_eq_some.mp listed
  exact ⟨own, present⟩

section Condition

variable (knownPaths : KnownPaths)

/-- The path is an output of a derivation that the target needs. -/
def Makes (target drvPath path : StorePath) : Prop :=
  Needed knownPaths target drvPath ∧
    ∃ drv, knownPaths.getDrvByDrvpath drvPath = some drv ∧ path ∈ outputPlaces drv

/-- No builder runs for the derivation when these paths are there. -/
def Skippable (there : StorePath → Prop) (drv : Derivation) : Prop :=
  (∀ name output, drv.outputs.lookup name = some output →
    ∃ place, output.path = some place ∧ there place) ∨
  (isBuiltin drv = true ∧ ∃ place, drv.outputPath "out".toList = some place ∧ there place)

/-- The outputs of the target are registered although nothing is built: its first output
is not registered, nor will be by another derivation, and no registration fails. -/
structure TakenIn (world : World Content hash) (call : Call Content) (drv : Derivation) :
    Prop where
  fresh : ∀ primary, primaryOut (placedOutputs drv) = some primary →
    ¬ world.db.Recorded (display primary) ∧
      ∀ other place, Makes knownPaths call.target other place → other ≠ call.target →
        ¬ SameFile hash (display place) (display primary)
  writable : ∀ place ∈ outputPlaces drv, (call.attempts call.target).infoFault place = none ∧
    ∃ stem, hash (display place) = .ok stem

/-- Database and store agree about the derivations of a call. A symlink in the store may
come to lead somewhere, so that it counts as being there. -/
structure Aligned (world : World Content hash) (call : Call Content) : Prop where
  recorded : ∀ drvPath drv, Needed knownPaths call.target drvPath →
    knownPaths.getDrvByDrvpath drvPath = some drv →
    Skippable (fun place => inPlace world.store place = true ∨
      ∃ other, other ≠ drvPath ∧ Makes knownPaths call.target other place) drv →
    (∀ place ∈ outputPlaces drv, inPlace world.store place = true →
      world.db.Recorded (display place)) ∨
    (drvPath = call.target ∧ TakenIn knownPaths world call drv)
  single : ∀ drvPath drv, Needed knownPaths call.target drvPath →
    knownPaths.getDrvByDrvpath drvPath = some drv → isBuiltin drv = true →
    (∃ place ∈ outputPlaces drv, ¬ world.db.Recorded (display place)) →
    ∀ place ∈ outputPlaces drv, drv.outputPath "out".toList = some place
  apart : ∀ drvPath other place, Needed knownPaths call.target drvPath →
    Makes knownPaths call.target other place →
    ¬ SameFile hash (display drvPath) (display place)

/-- Every recorded path is closed, and every input source is recorded. -/
structure SoundStart (db : PathInfoDb hash) : Prop where
  closed : ∀ path, db.Recorded path → Closed db path
  sources : ∀ drvPath drv, knownPaths.getDrvByDrvpath drvPath = some drv →
    ∀ source ∈ drv.inputSources, db.Recorded (display source)

end Condition

section Registration

variable {tools : Tools Content} {knownPaths : KnownPaths} {world after : World Content hash}
  {drvPath : StorePath} {drv : Derivation} {attempt : Attempt Content}

/-- What registering places with the same references does to the database. -/
structure Registers (references : List String) (places : List StorePath)
    (db after : PathInfoDb hash) : Prop where
  kept : ∀ path, db.Recorded path → after.Recorded path
  recorded : ∀ place ∈ places, after.Recorded (display place)
  origin : ∀ path info, after.get path = .ok (some info) → db.get path = .ok (some info) ∨
    (info.references = references ∧ ∃ place ∈ places, SameFile hash path (display place))

theorem get_writeFile {db : PathInfoDb hash} {stem path : String} {written info : PathInfo}
    (own : hash written.storePath = .ok stem)
    (found : (db.writeFile stem written own).get path = .ok (some info)) :
    db.get path = .ok (some info) ∨ (info = written ∧ SameFile hash path written.storePath) := by
  obtain ⟨digest, hashed, stored⟩ := PathInfoDb.get_eq_some.mp found
  by_cases same : digest = stem
  · subst same
    have latest : some (InfoFile.info written) = some (.info info) :=
      (AList.lookup_insert _).symm.trans stored
    cases latest
    exact .inr ⟨rfl, digest, hashed, own⟩
  · left
    have older : db.files.lookup digest = some (.info info) :=
      (AList.lookup_insert_ne same).symm.trans stored
    exact PathInfoDb.get_eq_some.mpr ⟨digest, hashed, older⟩

/-- The `.drv` file is registered only where its digest has no metadata. -/
theorem registerDerivationFile_ok
    (registered : registerDerivationFile tools world drvPath drv attempt = (after, .ok ())) :
    after.db = world.db ∨ ∃ stem info, ∃ own : hash info.storePath = .ok stem,
      info.storePath = display drvPath ∧ world.db.get (display drvPath) = .ok none ∧
        after.db = world.db.writeFile stem info own := by
  unfold registerDerivationFile at registered
  dsimp only at registered
  split at registered
  · cases registered
  · split at registered
    · cases registered
    · cases registered
      exact .inl rfl
    · rename_i absent
      split at registered
      · cases registered
      · split at registered
        · cases registered
        · rename_i db written
          cases registered
          obtain ⟨-, stem, own, rfl⟩ := PathInfoDb.register_ok written
          exact .inr ⟨stem, _, own, rfl, absent, rfl⟩

end Registration

section Loop

variable {tools : Tools Content} {knownPaths : KnownPaths} {start world after : World Content hash}
  {call : Call Content} {drvPath : StorePath} {drv : Derivation} {done : List StorePath}

/-- A path that may be referred to: recorded from the start, or an output of a needed
derivation. -/
def Good (knownPaths : KnownPaths) (target : StorePath) (start : PathInfoDb hash)
    (path : String) : Prop :=
  start.Recorded path ∨
    ∃ drvPath place, Makes knownPaths target drvPath place ∧ path = display place

/-- The database in the middle of a call, when some derivations are done. -/
structure DbInv (knownPaths : KnownPaths) (target : StorePath) (start : PathInfoDb hash)
    (done : List StorePath) (db : PathInfoDb hash) : Prop where
  kept : ∀ path, start.Recorded path → db.Recorded path
  references : ∀ path info, Good knownPaths target start path → db.get path = .ok (some info) →
    ∀ reference ∈ info.references, Good knownPaths target start reference
  built : ∀ drvPath ∈ done, ∀ place, Makes knownPaths target drvPath place →
    db.Recorded (display place)
  origin : ∀ path, db.Recorded path → start.Recorded path ∨
    (∃ drvPath ∈ done, ∃ place, Makes knownPaths target drvPath place ∧
      SameFile hash path (display place)) ∨
    ∃ drvPath, Needed knownPaths target drvPath ∧ SameFile hash path (display drvPath)

/-- The store in the middle of a call: what has appeared is of derivations that are done. -/
def StoreInv (knownPaths : KnownPaths) (target : StorePath) (start : Store Content)
    (done : List StorePath) (store : Store Content) : Prop :=
  ∀ place, inPlace store place = true → inPlace start place = true ∨
    ∃ drvPath ∈ done, Makes knownPaths target drvPath place

theorem DbInv.init {db : PathInfoDb hash} (sound : SoundStart knownPaths db) (target : StorePath) :
    DbInv knownPaths target db [] db where
  kept := fun _ recorded => recorded
  references := by
    intro path info _ found reference member
    exact .inl ((sound.closed path ⟨info, found⟩).references found member)
  built := by simp
  origin := fun _ recorded => .inl recorded

theorem recorded_of_sameFile {db : PathInfoDb hash} {first second : String}
    (same : SameFile hash first second) (recorded : db.Recorded first) : db.Recorded second := by
  obtain ⟨stem, hashed, other⟩ := same
  obtain ⟨digest, info, own, stored⟩ := PathInfoDb.recorded_iff.mp recorded
  rw [hashed] at own
  cases own
  exact PathInfoDb.recorded_iff.mpr ⟨stem, info, other, stored⟩

theorem SameFile.symm {first second : String} (same : SameFile hash first second) :
    SameFile hash second first := by
  obtain ⟨stem, front, back⟩ := same
  exact ⟨stem, back, front⟩

/-- The `.drv` file shares no digest with a path that may be referred to, unless that
digest is in use already. -/
theorem DbInv.derivationFile (aligned : Aligned knownPaths start call)
    (needed : Needed knownPaths call.target drvPath) {attempt : Attempt Content}
    (inv : DbInv knownPaths call.target start.db done world.db)
    (registered : registerDerivationFile tools world drvPath drv attempt = (after, .ok ())) :
    DbInv knownPaths call.target start.db done after.db := by
  rcases registerDerivationFile_ok registered with same | ⟨stem, info, own, named, absent, written⟩
  · rw [same]
    exact inv
  · rw [written]
    refine ⟨?_, ?_, ?_, ?_⟩
    · intro path recorded
      exact PathInfoDb.writeFile_recorded own (inv.kept path recorded)
    · intro path found good read reference member
      rcases get_writeFile own read with older | ⟨rfl, same⟩
      · exact inv.references path found good older reference member
      · rw [named] at same
        rcases good with early | ⟨other, place, made, rfl⟩
        · obtain ⟨taken, there⟩ := recorded_of_sameFile same (inv.kept path early)
          rw [absent] at there
          cases there
        · exact absurd same.symm (aligned.apart drvPath other place needed made)
    · intro other member place made
      exact PathInfoDb.writeFile_recorded own (inv.built other member place made)
    · intro path ⟨found, read⟩
      rcases get_writeFile own read with older | ⟨-, same⟩
      · exact inv.origin path ⟨found, older⟩
      · rw [named] at same
        exact .inr (.inr ⟨drvPath, needed, same⟩)

/-- The inputs of a needed derivation are needed. -/
theorem Needed.input {target : StorePath} (needed : Needed knownPaths target drvPath)
    (known : knownPaths.getDrvByDrvpath drvPath = some drv) {inputDrvPath : StorePath}
    (member : inputDrvPath ∈ drv.inputDerivations.map Prod.fst) :
    Needed knownPaths target inputDrvPath := by
  apply GraphSearch.Reach.step needed _ member
  rw [DepthFirst.edges, inputs, known]
  rfl

theorem good_of_candidate (sound : SoundStart knownPaths start.db) {target : StorePath}
    (needed : Needed knownPaths target drvPath)
    (known : knownPaths.getDrvByDrvpath drvPath = some drv) {place : StorePath}
    (wanted : place ∈ candidates knownPaths drv) :
    Good knownPaths target start.db (display place) := by
  unfold candidates at wanted
  rw [List.mem_append, List.mem_append] at wanted
  rcases wanted with (own | source) | input
  · exact .inr ⟨drvPath, place, ⟨needed, drv, known, own⟩, rfl⟩
  · exact .inl (sound.sources drvPath drv known place source)
  · unfold KnownPaths.inputOutputs at input
    obtain ⟨⟨inputDrvPath, names⟩, listed, found⟩ := List.mem_flatMap.mp input
    dsimp only at found
    split at found
    · cases found
    · rename_i inputDrv inputKnown
      obtain ⟨name, -, placed⟩ := List.mem_filterMap.mp found
      have inputNeeded := needed.input known (List.mem_map.mpr ⟨_, listed, rfl⟩)
      exact .inr ⟨inputDrvPath, place,
        ⟨inputNeeded, inputDrv, inputKnown, mem_outputPlaces.mpr ⟨name, placed⟩⟩, rfl⟩

/-- A derivation is done when all its outputs have been registered. -/
theorem DbInv.registers (sound : SoundStart knownPaths start.db)
    (needed : Needed knownPaths call.target drvPath)
    (known : knownPaths.getDrvByDrvpath drvPath = some drv)
    {db next : PathInfoDb hash} (inv : DbInv knownPaths call.target start.db done db)
    {references : List String} {places : List StorePath}
    (written : Registers references places db next)
    (inside : ∀ place ∈ places, place ∈ outputPlaces drv)
    (all : ∀ place ∈ outputPlaces drv, place ∈ places ∨ db.Recorded (display place))
    (wanted : ∀ reference ∈ references, ∃ place ∈ candidates knownPaths drv,
      reference = display place) :
    DbInv knownPaths call.target start.db (drvPath :: done) next := by
  refine ⟨?_, ?_, ?_, ?_⟩
  · intro path recorded
    exact written.kept path (inv.kept path recorded)
  · intro path info good found reference member
    rcases written.origin path info found with older | ⟨rfl, -⟩
    · exact inv.references path info good older reference member
    · obtain ⟨place, candidate, rfl⟩ := wanted reference member
      exact good_of_candidate sound needed known candidate
  · intro other member place made
    rcases List.mem_cons.mp member with rfl | early
    · obtain ⟨-, own, found, listed⟩ := made
      obtain rfl := Option.some.inj (known.symm.trans found)
      rcases all place listed with fresh | early
      · exact written.recorded place fresh
      · exact written.kept _ early
    · exact written.kept _ (inv.built other early place made)
  · intro path ⟨info, found⟩
    rcases written.origin path info found with older | ⟨-, place, member, same⟩
    · rcases inv.origin path ⟨info, older⟩ with early | ⟨other, listed, rest⟩ | file
      · exact .inl early
      · exact .inr (.inl ⟨other, List.mem_cons_of_mem _ listed, rest⟩)
      · exact .inr (.inr file)
    · exact .inr (.inl ⟨drvPath, List.mem_cons_self, place,
        ⟨needed, drv, known, inside place member⟩, same⟩)

/-- A derivation is done when all its outputs are recorded already. -/
theorem DbInv.skip (known : knownPaths.getDrvByDrvpath drvPath = some drv)
    {db : PathInfoDb hash} (inv : DbInv knownPaths call.target start.db done db)
    (recorded : ∀ place ∈ outputPlaces drv, db.Recorded (display place)) :
    DbInv knownPaths call.target start.db (drvPath :: done) db where
  kept := inv.kept
  references := inv.references
  built := by
    intro other member place made
    rcases List.mem_cons.mp member with rfl | early
    · obtain ⟨-, own, found, listed⟩ := made
      obtain rfl := Option.some.inj (known.symm.trans found)
      exact recorded place listed
    · exact inv.built other early place made
  origin := by
    intro path there
    rcases inv.origin path there with early | ⟨other, listed, rest⟩ | file
    · exact .inl early
    · exact .inr (.inl ⟨other, List.mem_cons_of_mem _ listed, rest⟩)
    · exact .inr (.inr file)

theorem StoreInv.weaken {store : Store Content}
    (inv : StoreInv knownPaths call.target start.store done store) (drvPath : StorePath) :
    StoreInv knownPaths call.target start.store (drvPath :: done) store := by
  intro place there
  rcases inv place there with early | ⟨other, member, made⟩
  · exact .inl early
  · exact .inr ⟨other, List.mem_cons_of_mem _ member, made⟩

/-- What a run of the derivation leaves belongs to it. -/
theorem StoreInv.leave {store : Store Content} {attempt : Attempt Content} {succeeded : Bool}
    (needed : Needed knownPaths call.target drvPath)
    (known : knownPaths.getDrvByDrvpath drvPath = some drv)
    (inv : StoreInv knownPaths call.target start.store done store) :
    StoreInv knownPaths call.target start.store (drvPath :: done)
      (LocalBuild.leave store drvPath drv attempt succeeded) := by
  intro place there
  rw [inPlace_leave, Bool.or_eq_true, Bool.and_eq_true, decide_eq_true_eq] at there
  rcases there with early | ⟨own, -⟩
  · exact inv.weaken drvPath place early
  · exact .inr ⟨drvPath, List.mem_cons_self, needed, drv, known, own⟩

/-- With the paths that let a derivation be skipped, all its outputs are there. -/
theorem Skippable.all (single : isBuiltin drv = true →
      ∀ place ∈ outputPlaces drv, drv.outputPath "out".toList = some place)
    {there : StorePath → Prop} (skippable : Skippable there drv) :
    ∀ place ∈ outputPlaces drv, there place := by
  intro place own
  rcases skippable with every | ⟨builtin, out, placed, found⟩
  · obtain ⟨name, named⟩ := mem_outputPlaces.mp own
    obtain ⟨output, listed, at_⟩ := Option.bind_eq_some_iff.mp named
    obtain ⟨other, same, found⟩ := every name output listed
    rw [at_] at same
    cases same
    exact found
  · have only := single builtin place own
    rw [placed] at only
    cases only
    exact found

end Loop

section Wrapper

open Nar (asciiBytes fileNar)

/-- Files whose references are found by their digests. Only one text is hashed below. -/
def textTools : Tools (List UInt8) :=
  { fileTools with
    nar := fileNar
    sha256 := fun bytes =>
      if bytes = fileNar (asciiBytes helloPath.toAbsolutePath) then
        [212, 23, 13, 117, 204, 178, 219, 250, 119, 193, 115, 18, 22, 206, 198, 139, 106, 9, 42,
          37, 108, 130, 19, 179, 79, 41, 196, 113, 154, 208, 173, 80]
      else
        knownDigest bytes
    scan := fun content wanted =>
      wanted.filter fun path => decide (asciiBytes path.digest <:+: content) }

def wrapperPath : StorePath where
  digest := "33333333333333333333333333333333".toList
  name := "wrapper".toList
  digestLength := by decide
  digestChars := by decide
  named := by decide
  nameChars := by decide

def wrapperDrv : StorePath where
  digest := "44444444444444444444444444444444".toList
  name := "wrapper.drv".toList
  digestLength := by decide
  digestChars := by decide
  named := by decide
  nameChars := by decide

/-- A derivation that uses the output of another. -/
def wrapperDerivation : Derivation where
  arguments := []
  builder := "/bin/sh".toList
  environment := ∅
  inputDerivations := [(helloDrv, ["out".toList])]
  inputSources := []
  outputs := AList.insert "out".toList { path := some wrapperPath, caHash := none } ∅

def wrapperKnown : KnownPaths := AList.insert wrapperDrv wrapperDerivation helloKnown

/-- The metadata of a path with these references. -/
def plainInfo (path : StorePath) (references : List StorePath) : PathInfo where
  storePath := display path
  narHash := ""
  narSize := 0
  references := references.map display
  deriver := none
  signatures := []

/-- The derivations are registered. -/
def wrapperDb : PathInfoDb literalHash :=
  ((helloStart.db).register (plainInfo wrapperDrv [helloDrv]) none).1

theorem wrapperKnown_cases {drvPath : StorePath} {drv : Derivation}
    (known : wrapperKnown.getDrvByDrvpath drvPath = some drv) :
    (drvPath = wrapperDrv ∧ drv = wrapperDerivation) ∨
      (drvPath = helloDrv ∧ drv = helloDerivation "out".toList) := by
  unfold KnownPaths.getDrvByDrvpath wrapperKnown at known
  by_cases same : drvPath = wrapperDrv
  · subst same
    rw [AList.lookup_insert] at known
    exact .inl ⟨rfl, (Option.some.inj known).symm⟩
  · rw [AList.lookup_insert_ne same] at known
    exact .inr (known_of_insert known)

end Wrapper

end NixRedox.LocalBuild
