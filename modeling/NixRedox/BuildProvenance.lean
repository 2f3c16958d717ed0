import NixRedox.BuildRuns

set_option autoImplicit false

/- Whose outputs a build returns: what counts as built, and which runs made it. -/
namespace NixRedox.LocalBuild

variable {Content : Type} {hash : StorePathHash} {tools : Tools Content}
  {knownPaths : KnownPaths}

/-- The path was left by a run of the derivation that succeeded. -/
def MadeBy (store : Store Content) (drvPath path : StorePath) : Prop :=
  ∃ entry, store path = some entry ∧ entry.maker = drvPath ∧ entry.succeeded = true

/-- Every derivation that may count as built has its outputs from runs of its own that
succeeded. -/
def Sound (knownPaths : KnownPaths) (store : Store Content) : Prop :=
  ∀ drvPath drv, knownPaths.getDrvByDrvpath drvPath = some drv →
    complete (inPlace store) drv = true →
    ∀ path ∈ outputPlaces drv, MadeBy store drvPath path

/-- The run has changed what is at an output path: it wrote there or cleaned up. -/
def Run.touches (tools : Tools Content) (run : Run Content) (path : StorePath) : Prop :=
  run.attempt.writes path ≠ none ∨
    run.cleansUp tools path = true ∧ run.attempt.cleanUp ≠ .kept

/-- A run is careful if it completes a derivation only as it should. Where its own
derivation may count as built afterwards, it has succeeded if it changed anything, and what
it left alone was left by an earlier run that succeeded. Another derivation that has an
output it changed does not count as built afterwards. -/
structure Careful (tools : Tools Content) (knownPaths : KnownPaths) (run : Run Content) :
    Prop where
  own : complete (inPlace (run.after tools)) run.drv = true →
    ∀ path ∈ outputPlaces run.drv,
      (run.touches tools path → run.succeeded tools = true) ∧
        (¬ run.touches tools path → MadeBy run.before run.drvPath path)
  apart : ∀ other drv, knownPaths.getDrvByDrvpath other = some drv → other ≠ run.drvPath →
    (∃ path ∈ outputPlaces run.drv, path ∈ outputPlaces drv ∧ run.touches tools path) →
    complete (inPlace (run.after tools)) drv = false

section Step

variable {run : Run Content}

theorem leave_of_unwritten {store : Store Content} {drvPath path : StorePath} {drv : Derivation}
    {attempt : Attempt Content} (unwritten : path ∈ outputPlaces drv → attempt.writes path = none)
    (succeeded : Bool) : leave store drvPath drv attempt succeeded path = store path := by
  unfold leave
  split
  · rename_i own
    rw [unwritten own]
  · rfl

theorem Run.own_of_cleansUp {path : StorePath} (cleaned : run.cleansUp tools path = true) :
    path ∈ outputPlaces run.drv := by
  obtain ⟨-, -, placed, -⟩ := of_decide_eq_true cleaned
  exact mem_outputPlaces.mpr ⟨_, placed⟩

/-- What a run has not changed is as before. -/
theorem Run.after_of_untouched {path : StorePath}
    (untouched : path ∈ outputPlaces run.drv → ¬ run.touches tools path) :
    run.after tools path = run.before path := by
  have unwritten : path ∈ outputPlaces run.drv → run.attempt.writes path = none := by
    intro own
    by_contra written
    exact untouched own (.inl written)
  unfold Run.after
  split
  · rename_i cleaned
    have kept : run.attempt.cleanUp = .kept := by
      by_contra changed
      exact untouched (Run.own_of_cleansUp cleaned) (.inr ⟨cleaned, changed⟩)
    rw [kept]
    exact leave_of_unwritten unwritten false
  · exact leave_of_unwritten unwritten _

/-- A clean-up belongs to a run that has not succeeded. -/
theorem Run.failed_of_cleansUp {path : StorePath} (cleaned : run.cleansUp tools path = true) :
    run.succeeded tools = false := by
  by_contra success
  have idle := Run.not_cleansUp_of_succeeded ((Bool.not_eq_false _).mp success) path
  rw [cleaned] at idle
  cases idle

/-- What is left of what a run has changed bears its mark. -/
theorem Run.after_of_touched {path : StorePath} {entry : Entry Content}
    (own : path ∈ outputPlaces run.drv) (touched : run.touches tools path)
    (there : run.after tools path = some entry) :
    entry.maker = run.drvPath ∧ entry.succeeded = run.succeeded tools := by
  unfold Run.after at there
  split at there
  · rename_i cleaned
    rw [Run.failed_of_cleansUp cleaned]
    cases left : run.attempt.cleanUp with
    | gone =>
        rw [left, cleanedUp, Function.update_self] at there
        cases there
    | partly rest =>
        rw [left, cleanedUp, Function.update_self] at there
        cases there
        exact ⟨rfl, rfl⟩
    | kept =>
        have written : run.attempt.writes path ≠ none := by
          rcases touched with written | ⟨-, changed⟩
          · exact written
          · exact absurd left changed
        obtain ⟨content, writes⟩ := Option.ne_none_iff_exists'.mp written
        rw [left, cleanedUp, Run.left, leave, if_pos own, writes] at there
        cases there
        exact ⟨rfl, rfl⟩
  · rename_i idle
    have written : run.attempt.writes path ≠ none := by
      rcases touched with written | ⟨cleaned, -⟩
      · exact written
      · exact absurd cleaned idle
    obtain ⟨content, writes⟩ := Option.ne_none_iff_exists'.mp written
    rw [leave, if_pos own, writes] at there
    cases there
    exact ⟨rfl, rfl⟩

/-- What the clean-up has taken away leaves its derivation incomplete. -/
theorem Run.inPlace_of_complete (all : complete (inPlace (run.after tools)) run.drv = true)
    {path : StorePath} (own : path ∈ outputPlaces run.drv) (touched : run.touches tools path) :
    ∃ entry, run.after tools path = some entry := by
  by_cases cleaned : run.cleansUp tools path = true
  · obtain ⟨-, -, placed, -⟩ := of_decide_eq_true cleaned
    apply Option.isSome_iff_exists.mp
    rw [complete, Bool.or_eq_true, Bool.and_eq_true] at all
    rcases all with every | ⟨-, out⟩
    · exact List.all_eq_true.mp every path own
    · rwa [placed, Option.any_some] at out
  · have written : run.attempt.writes path ≠ none := by
      rcases touched with written | ⟨removed, -⟩
      · exact written
      · exact absurd removed cleaned
    obtain ⟨content, writes⟩ := Option.ne_none_iff_exists'.mp written
    exact ⟨_, by rw [Run.after, if_neg cleaned, leave, if_pos own, writes]⟩

/-- The own derivation of a run. -/
theorem sound_own_iff (all : complete (inPlace (run.after tools)) run.drv = true)
    {path : StorePath} (own : path ∈ outputPlaces run.drv) :
    MadeBy (run.after tools) run.drvPath path ↔
      (run.touches tools path → run.succeeded tools = true) ∧
        (¬ run.touches tools path → MadeBy run.before run.drvPath path) := by
  by_cases touched : run.touches tools path
  · obtain ⟨entry, there⟩ := Run.inPlace_of_complete all own touched
    obtain ⟨maker, success⟩ := Run.after_of_touched own touched there
    simp [MadeBy, there, touched, maker, success]
  · rw [MadeBy, Run.after_of_untouched fun _ => touched]
    simp [touched, MadeBy]

/-- A derivation with no output that the run changed is as complete and as sound as
before. -/
theorem sound_other {drv : Derivation} (sound : Sound knownPaths run.before) {other : StorePath}
    (known : knownPaths.getDrvByDrvpath other = some drv)
    (untouched : ∀ path ∈ outputPlaces drv, path ∈ outputPlaces run.drv →
      ¬ run.touches tools path)
    (all : complete (inPlace (run.after tools)) drv = true) :
    ∀ path ∈ outputPlaces drv, MadeBy (run.after tools) other path := by
  have same : ∀ path ∈ outputPlaces drv, run.after tools path = run.before path := by
    intro path member
    exact Run.after_of_untouched (untouched path member)
  have before : complete (inPlace run.before) drv = true := by
    rw [complete, Bool.or_eq_true, Bool.and_eq_true] at all ⊢
    rcases all with every | ⟨builtin, out⟩
    · left
      rw [List.all_eq_true] at every ⊢
      intro path member
      have there := every path member
      rwa [inPlace, same path member] at there
    · refine .inr ⟨builtin, ?_⟩
      rw [Option.any_eq_true] at out ⊢
      obtain ⟨path, placed, there⟩ := out
      rw [inPlace, same path (mem_outputPlaces.mpr ⟨_, placed⟩)] at there
      exact ⟨path, placed, there⟩
  intro path member
  rw [MadeBy, same path member]
  exact sound other drv known before path member

/-- A run keeps the store sound exactly if it is careful. -/
theorem sound_after_iff (known : run.Known knownPaths) (sound : Sound knownPaths run.before) :
    Sound knownPaths (run.after tools) ↔ Careful tools knownPaths run := by
  constructor
  · intro afterwards
    refine ⟨?_, ?_⟩
    · intro all path own
      exact (sound_own_iff all own).mp (afterwards run.drvPath run.drv known all path own)
    · intro other drv listed different ⟨path, own, theirs, touched⟩
      by_contra counts
      have all := (Bool.not_eq_false _).mp counts
      obtain ⟨entry, there, maker, -⟩ := afterwards other drv listed all path theirs
      have mine := (Run.after_of_touched own touched there).1
      exact different (maker.symm.trans mine)
  · intro careful other drv listed all
    by_cases same : other = run.drvPath
    · subst same
      obtain rfl := Option.some.inj (listed.symm.trans known)
      intro path own
      exact (sound_own_iff all own).mpr (careful.own all path own)
    · apply sound_other sound listed _ all
      intro path theirs own touched
      have incomplete := careful.apart other drv listed same ⟨path, own, theirs, touched⟩
      rw [all] at incomplete
      cases incomplete

end Step

/-- No derivation has an output in the store. -/
def NoOutputs (knownPaths : KnownPaths) (store : Store Content) : Prop :=
  ∀ drvPath drv, knownPaths.getDrvByDrvpath drvPath = some drv →
    ∀ path ∈ outputPlaces drv, store path = none

theorem sound_of_noOutputs {store : Store Content} (empty : NoOutputs knownPaths store) :
    Sound knownPaths store := by
  intro drvPath drv known all path own
  have absent := empty drvPath drv known
  exfalso
  rw [complete, Bool.or_eq_true, Bool.and_eq_true] at all
  rcases all with every | ⟨-, out⟩
  · have there := List.all_eq_true.mp every path own
    rw [inPlace, absent path own] at there
    cases there
  · obtain ⟨place, placed, there⟩ := (Option.any_eq_true _ _).mp out
    rw [inPlace, absent place (mem_outputPlaces.mpr ⟨_, placed⟩)] at there
    cases there

/-- A store stays sound through every run of a history exactly if all of them are
careful. -/
theorem sound_throughout_iff {start store : Store Content} {history : List (Run Content)}
    (traced : Traced tools knownPaths start history store) (sound : Sound knownPaths start) :
    (∀ run ∈ history, Sound knownPaths (run.after tools)) ↔
      ∀ run ∈ history, Careful tools knownPaths run :=
  traced.throughout_iff (fun _ known before => sound_after_iff known before) sound

/-- If all runs so far are careful, a call returns only outputs that runs of its target
which succeeded have left. -/
theorem buildNeeded_outputs_made {start : World Content hash}
    (empty : NoOutputs knownPaths start.store) (unbuilt : start.history = [])
    (calls : List (Call Content)) (call : Call Content) {after : World Content hash}
    {built : BuildResult}
    (ended : buildNeeded tools knownPaths (afterCalls tools knownPaths start calls) call =
      (after, .ok built))
    (careful : ∀ run ∈ after.history, Careful tools knownPaths run) :
    ∀ output ∈ built.outputs, MadeBy after.store call.target output.2 := by
  have begun : Traced tools knownPaths start.store start.history start.store := by
    rw [unbuilt]
    exact .start
  have traced := buildNeeded_traced ended (afterCalls_traced calls begun)
  have sound : Sound knownPaths after.store := by
    apply traced.keeps _ (sound_of_noOutputs empty) careful
    intro run known before good
    exact (sound_after_iff known before).mpr good
  obtain ⟨needed, outputs⟩ := buildNeeded_ok ended
  obtain ⟨drv, known, all⟩ := needed call.target .refl
  intro output member
  apply sound call.target drv known all
  exact List.mem_map_of_mem (outputs drv known output member)

section Files

/-- The archive of an empty regular file. -/
def emptyFileNar : List UInt8 :=
  [13, 0, 0, 0, 0, 0, 0, 0, 110, 105, 120, 45, 97, 114, 99, 104, 105, 118, 101, 45, 49, 0, 0, 0,
    1, 0, 0, 0, 0, 0, 0, 0, 40, 0, 0, 0, 0, 0, 0, 0, 4, 0, 0, 0, 0, 0, 0, 0, 116, 121, 112, 101,
    0, 0, 0, 0, 7, 0, 0, 0, 0, 0, 0, 0, 114, 101, 103, 117, 108, 97, 114, 0, 8, 0, 0, 0, 0, 0, 0,
    0, 99, 111, 110, 116, 101, 110, 116, 115, 0, 0, 0, 0, 0, 0, 0, 0, 1, 0, 0, 0, 0, 0, 0, 0, 41,
    0, 0, 0, 0, 0, 0, 0]

/-- The SHA-256 digests of the empty text and of the archive of an empty file. -/
def knownDigest (bytes : List UInt8) : List UInt8 :=
  if bytes = [] then
    [227, 176, 196, 66, 152, 252, 28, 20, 154, 251, 244, 200, 153, 111, 185, 36, 39, 174, 65, 228,
      100, 155, 147, 76, 164, 149, 153, 27, 120, 82, 184, 85]
  else if bytes = emptyFileNar then
    [119, 172, 98, 226, 98, 157, 142, 69, 246, 36, 88, 156, 12, 139, 249, 158, 36, 179, 167, 34,
      52, 155, 241, 231, 155, 193, 134, 0, 133, 52, 226, 70]
  else
    []

/-- Outputs that are regular files, given by their bytes. Only empty ones are hashed
below. -/
def fileTools : Tools (List UInt8) where
  sha256 := knownDigest
  hex := Hex.hexLower
  symlink := fun _ => none
  read := .ok
  nar := fun bytes => if bytes = [] then emptyFileNar else []
  scan := fun _ _ => []
  drvNar := fun _ => []
  fetchurlDerivationToFetch := fun drv =>
    if drv.builder ≠ "builtin:fetchurl".toList then
      .error "Invalid builder"
    else
      match drv.fixedOutput with
      | some (_, .flat hash) => .ok (.url (some hash))
      | some (_, .nar hash) => .ok (.nar hash)
      | _ => .error "Derivation isn't a Fixed-Output Derivation as expected"

def helloDrv : StorePath where
  digest := "11111111111111111111111111111111".toList
  name := "hello.drv".toList
  digestLength := by decide
  digestChars := by decide
  named := by decide
  nameChars := by decide

def helloKnown : KnownPaths := AList.insert helloDrv (helloDerivation "out".toList) ∅

/-- A store with nothing but the derivation, which is registered. -/
def helloStart : World (List UInt8) literalHash where
  store := fun _ => none
  elsewhere := fun _ _ => none
  drvFiles := [helloDrv]
  db := ((PathInfoDb.openAt literalHash "/nix/var/snix/pathinfo").register
    { storePath := display helloDrv
      narHash := ""
      narSize := 0
      references := []
      deriver := none
      signatures := [] } none).1
  history := []

/-- A builder that creates an empty file and exits with a code. -/
def touchAndExit (code : Int) : Attempt (List UInt8) where
  drvFault := none
  drvInfoFault := none
  setupFault := none
  writes := fun _ => some []
  status := .ok (some code)
  stdoutBytes := 0
  stderr := ""
  fetchFault := none
  elsewhere := fun _ _ => none
  cleanUp := .gone
  scanFault := none
  narFault := fun _ => none
  infoFault := fun _ => none

def helloCall (code : Int) : Call (List UInt8) where
  target := helloDrv
  elsewhere := fun _ _ => none
  attempts := fun _ => touchAndExit code

theorem known_of_insert {only drv : Derivation} {drvPath : StorePath}
    (known : KnownPaths.getDrvByDrvpath (AList.insert helloDrv only ∅) drvPath = some drv) :
    drvPath = helloDrv ∧ drv = only := by
  unfold KnownPaths.getDrvByDrvpath at known
  by_cases same : drvPath = helloDrv
  · subst same
    rw [AList.lookup_insert] at known
    exact ⟨rfl, (Option.some.inj known).symm⟩
  · rw [AList.lookup_insert_ne same, AList.lookup_empty] at known
    cases known

theorem helloStart_empty : NoOutputs helloKnown helloStart.store := by
  intro drvPath drv known path own
  rfl

theorem buildNeeded_outputs_made_hello :
    MadeBy (buildNeeded fileTools helloKnown helloStart (helloCall 0)).1.store helloDrv
      helloPath := by
  have outputs : (buildNeeded fileTools helloKnown helloStart (helloCall 0)).2.toOption.map
      BuildResult.outputs = some [("out".toList, helloPath)] := by
    decide +kernel
  obtain ⟨built, returned, only⟩ := Option.map_eq_some_iff.mp outputs
  have ended : (buildNeeded fileTools helloKnown helloStart (helloCall 0)).2 = .ok built := by
    cases result : (buildNeeded fileTools helloKnown helloStart (helloCall 0)).2 with
    | error reason => simp [result, Except.toOption] at returned
    | ok value => simpa [result, Except.toOption] using returned
  have runs : (buildNeeded fileTools helloKnown helloStart (helloCall 0)).1.history =
      [⟨helloStart.store, helloDrv, helloDerivation "out".toList, touchAndExit 0⟩] := by
    rfl
  apply buildNeeded_outputs_made helloStart_empty rfl [] (helloCall 0) (Prod.ext rfl ended) _
    ("out".toList, helloPath)
  · rw [only]
    exact List.mem_singleton_self _
  · intro run member
    obtain rfl := List.mem_singleton.mp (runs ▸ member)
    refine ⟨?_, ?_⟩
    · intro _ path own
      refine ⟨fun _ => by decide, ?_⟩
      intro untouched
      exact absurd (.inl (by simp [touchAndExit])) untouched
    · intro other drv known different
      exact False.elim (different (known_of_insert known).1)

/-- A builder creates its output and fails. The next call takes the output for built. -/
theorem failed_run_counts_as_built :
    ¬ ∀ (tools : Tools (List UInt8)) (knownPaths : KnownPaths)
      (start : World (List UInt8) literalHash) (calls : List (Call (List UInt8)))
      (call : Call (List UInt8)) (after : World (List UInt8) literalHash) (built : BuildResult),
      NoOutputs knownPaths start.store → start.history = [] →
      buildNeeded tools knownPaths (afterCalls tools knownPaths start calls) call =
        (after, .ok built) →
      ∀ output ∈ built.outputs, MadeBy after.store call.target output.2 := by
  intro always
  have outputs : (buildNeeded fileTools helloKnown
      (afterCalls fileTools helloKnown helloStart [helloCall 1]) (helloCall 1)).2.toOption.map
      BuildResult.outputs = some [("out".toList, helloPath)] := by
    decide +kernel
  have entry : (buildNeeded fileTools helloKnown
      (afterCalls fileTools helloKnown helloStart [helloCall 1]) (helloCall 1)).1.store helloPath =
      some { content := [], maker := helloDrv, succeeded := false } := by
    decide +kernel
  generalize ended : buildNeeded fileTools helloKnown
    (afterCalls fileTools helloKnown helloStart [helloCall 1]) (helloCall 1) = outcome
    at outputs entry
  obtain ⟨after, result⟩ := outcome
  cases result with
  | error reason => cases outputs
  | ok built =>
      have only : built.outputs = [("out".toList, helloPath)] := by
        simpa [Except.toOption] using outputs
      obtain ⟨found, there, -, success⟩ := always fileTools helloKnown helloStart [helloCall 1]
        (helloCall 1) after built helloStart_empty rfl ended ("out".toList, helloPath)
        (by rw [only]; exact List.mem_singleton_self _)
      obtain rfl := Option.some.inj (entry.symm.trans there)
      cases success

end Files

end NixRedox.LocalBuild
