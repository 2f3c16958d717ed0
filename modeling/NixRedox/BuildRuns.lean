import NixRedox.LocalBuild

set_option autoImplicit false

/- What a call of `build_needed` does to the store: nothing but the runs of builders and
downloads, one after the other. -/
namespace NixRedox.LocalBuild

variable {Content : Type} {hash : StorePathHash}

/-- Something is at the path, be it a symlink that leads nowhere. -/
def inPlace (store : Store Content) (path : StorePath) : Bool := (store path).isSome

/-- All output paths are there; for a download, `out` is. Nothing is built unless a symlink
among them leads nowhere. -/
def complete (there : StorePath → Bool) (drv : Derivation) : Bool :=
  (outputPlaces drv).all there || (isBuiltin drv && (drv.outputPath "out".toList).any there)

namespace Run

variable (tools : Tools Content) (run : Run Content)

/-- The store when the builder or the download has ended. -/
def left : Store Content := leave run.before run.drvPath run.drv run.attempt false

/-- The run has come to a content for `out` that fails its check and is cleaned up. -/
def cleansUp (path : StorePath) : Bool :=
  isBuiltin run.drv ∧ run.attempt.fetchFault = none ∧
    run.drv.outputPath "out".toList = some path ∧
    existsIn tools run.attempt.elsewhere run.left path = true ∧
    (verifyFetchHash tools run.left run.attempt run.drv path).toOption = none

/-- A builder succeeds by its exit status, a download by its content. -/
def succeeded : Bool :=
  if isBuiltin run.drv then
    run.attempt.fetchFault = none ∧ (run.drv.outputPath "out".toList).any fun path =>
      existsIn tools run.attempt.elsewhere run.left path &&
        (verifyFetchHash tools run.left run.attempt run.drv path).isOk
  else
    run.attempt.status.toOption = some (some 0)

/-- The store after the run. -/
def after : Store Content := fun path =>
  if run.cleansUp tools path then
    cleanedUp run.left run.drvPath path run.attempt.cleanUp path
  else
    leave run.before run.drvPath run.drv run.attempt (run.succeeded tools) path

/-- A run of a known derivation. -/
def Known (knownPaths : KnownPaths) : Prop :=
  knownPaths.getDrvByDrvpath run.drvPath = some run.drv

end Run

/-- Neither the outputs nor the runs differ. -/
structure SameStore (world after : World Content hash) : Prop where
  store : after.store = world.store
  history : after.history = world.history

theorem SameStore.trans {first second third : World Content hash}
    (front : SameStore first second) (back : SameStore second third) : SameStore first third where
  store := back.store.trans front.store
  history := back.history.trans front.history

section Frames

variable {tools : Tools Content} {knownPaths : KnownPaths} {world after : World Content hash}
  {drvPath : StorePath} {drv : Derivation} {attempt : Attempt Content}

theorem registerDerivationFile_same {result : Except Stop Unit}
    (registered : registerDerivationFile tools world drvPath drv attempt = (after, result)) :
    SameStore world after := by
  unfold registerDerivationFile at registered
  dsimp only at registered
  split at registered
  · cases registered
    exact ⟨rfl, rfl⟩
  · split at registered
    · cases registered
      exact ⟨rfl, rfl⟩
    · cases registered
      exact ⟨rfl, rfl⟩
    · split at registered
      · cases registered
        exact ⟨rfl, rfl⟩
      · split at registered
        · cases registered
          exact ⟨rfl, rfl⟩
        · cases registered
          exact ⟨rfl, rfl⟩

theorem registerOutputs_same {strict : Bool} {hashing : String} {references : List String}
    {primary : StorePath} {primaryHash : String × UInt64}
    {outputs : List (List Char × StorePath)} {result : Except Stop Unit}
    (registered : registerOutputs tools strict hashing drvPath attempt references primary
      primaryHash outputs world = (after, result)) : SameStore world after := by
  induction outputs generalizing world with
  | nil =>
      cases registered
      exact ⟨rfl, rfl⟩
  | cons output rest ih =>
      obtain ⟨name, path⟩ := output
      unfold registerOutputs at registered
      split at registered
      · cases registered
        exact ⟨rfl, rfl⟩
      · split at registered
        · split at registered
          · cases registered
            exact ⟨rfl, rfl⟩
          · have same := ih registered
            exact ⟨same.store, same.history⟩
        · have same := ih registered
          exact ⟨same.store, same.history⟩

theorem finishBuild_same {strict : Bool} {hashing : String}
    {outputs : List (List Char × StorePath)} {primary : StorePath}
    {result : Except Stop BuildResult}
    (finished : finishBuild tools knownPaths strict hashing world drvPath drv attempt outputs
      primary = (after, result)) :
    SameStore world after ∧ ∀ built, result = .ok built → built.outputs = outputs := by
  unfold finishBuild at finished
  split at finished
  · cases finished
    exact ⟨⟨rfl, rfl⟩, nofun⟩
  · dsimp only at finished
    split at finished
    · cases finished
      exact ⟨⟨rfl, rfl⟩, nofun⟩
    · split at finished
      · rename_i registered
        cases finished
        exact ⟨registerOutputs_same registered, nofun⟩
      · rename_i registered
        cases finished
        refine ⟨registerOutputs_same registered, ?_⟩
        intro built success
        cases success
        rfl

theorem buildResultFromExisting_same {result : Except Stop BuildResult}
    (existing : buildResultFromExisting tools knownPaths world drvPath drv attempt =
      (after, result)) :
    SameStore world after ∧ ∀ built, result = .ok built → built.outputs = placedOutputs drv := by
  unfold buildResultFromExisting at existing
  split at existing
  · rename_i registered
    cases existing
    exact ⟨registerDerivationFile_same registered, nofun⟩
  · rename_i registered
    have same := registerDerivationFile_same registered
    dsimp only at existing
    split at existing
    · cases existing
      exact ⟨same, nofun⟩
    · split at existing
      · cases existing
        refine ⟨same, ?_⟩
        intro built success
        cases success
        rfl
      · obtain ⟨finished, outputs⟩ := finishBuild_same existing
        exact ⟨same.trans finished, outputs⟩

end Frames

section Outcomes

/-- How a derivation gets its result: from outputs that are there, or by one run. -/
inductive Outcome (tools : Tools Content) (knownPaths : KnownPaths)
    (world after : World Content hash) (drvPath : StorePath) (drv : Derivation)
    (attempt : Attempt Content) (result : Except Stop BuildResult) : Prop where
  | idle (same : SameStore world after)
      (taken : ∀ built, result = .ok built →
        complete (inPlace world.store) drv = true ∧ built.outputs = placedOutputs drv)
  | ran (run : Run Content)
      (start : run = { before := world.store, drvPath, drv, attempt })
      (store : after.store = run.after tools)
      (history : after.history = world.history ++ [run])
      (made : ∀ built, result = .ok built →
        run.succeeded tools = true ∧ complete (inPlace after.store) drv = true ∧
          ∀ output ∈ built.outputs, output ∈ placedOutputs drv)

variable {tools : Tools Content} {knownPaths : KnownPaths} {world after : World Content hash}
  {drvPath : StorePath} {drv : Derivation} {attempt : Attempt Content}
  {result : Except Stop BuildResult}

theorem mem_placedOutputs {output : List Char × StorePath} :
    output ∈ placedOutputs drv ↔ drv.outputPath output.1 = some output.2 := by
  unfold placedOutputs Derivation.outputPath
  rw [List.mem_filterMap]
  constructor
  · rintro ⟨entry, member, placed⟩
    obtain ⟨place, there, rfl⟩ := Option.map_eq_some_iff.mp placed
    rw [Redox.Table.mem_sorted.mp member]
    exact there
  · intro placed
    obtain ⟨found, listed, there⟩ := Option.bind_eq_some_iff.mp placed
    exact ⟨⟨output.1, found⟩, Redox.Table.mem_sorted.mpr listed, by rw [there]; rfl⟩

theorem mem_outputPlaces {place : StorePath} :
    place ∈ outputPlaces drv ↔ ∃ name, drv.outputPath name = some place := by
  simp [outputPlaces, mem_placedOutputs]

/-- The code's test for all outputs covers those with a path. -/
theorem complete_of_allExist {there : StorePath → Bool} (all : allExist there drv = true) :
    complete there drv = true := by
  rw [complete, Bool.or_eq_true]
  left
  rw [List.all_eq_true]
  intro place member
  obtain ⟨name, placed⟩ := mem_outputPlaces.mp member
  obtain ⟨output, found, there_⟩ := Option.bind_eq_some_iff.mp placed
  have tested := List.all_eq_true.mp all output (Redox.Table.mem_sortedValues.mpr ⟨name, found⟩)
  rw [there_] at tested
  exact tested

theorem complete_mono {fewer more : StorePath → Bool}
    (kept : ∀ path, fewer path = true → more path = true) (all : complete fewer drv = true) :
    complete more drv = true := by
  rw [complete, Bool.or_eq_true, Bool.and_eq_true] at all ⊢
  rcases all with every | ⟨builtin, out⟩
  · left
    rw [List.all_eq_true] at every ⊢
    intro place member
    exact kept place (every place member)
  · refine .inr ⟨builtin, ?_⟩
    rw [Option.any_eq_true] at out ⊢
    obtain ⟨path, placed, there⟩ := out
    exact ⟨path, placed, kept path there⟩

/-- What is followed to a file is in place. -/
theorem inPlace_of_existsIn {elsewhere : Elsewhere Content} {store : Store Content}
    {path : StorePath} (there : existsIn tools elsewhere store path = true) :
    inPlace store path = true := by
  unfold existsIn at there
  split at there
  · cases there
  · rename_i entry found
    rw [inPlace, found]
    rfl

theorem inPlace_leave {store : Store Content} {path : StorePath} (succeeded : Bool) :
    inPlace (leave store drvPath drv attempt succeeded) path =
      (inPlace store path || (decide (path ∈ outputPlaces drv) && (attempt.writes path).isSome)) := by
  unfold inPlace leave
  by_cases own : path ∈ outputPlaces drv
  · cases written : attempt.writes path with
    | none => simp [own]
    | some content => simp [own]
  · simp [own]

theorem inPlace_leave_mono {store : Store Content} {path : StorePath} (succeeded : Bool)
    (there : inPlace store path = true) :
    inPlace (leave store drvPath drv attempt succeeded) path = true := by
  rw [inPlace_leave, there, Bool.true_or]

/-- A clean-up leaves the other paths alone. -/
theorem cleanedUp_of_ne {store : Store Content} {path other : StorePath} (differs : other ≠ path)
    (cleanUp : CleanUp Content) : cleanedUp store drvPath path cleanUp other = store other := by
  cases cleanUp with
  | gone => exact Function.update_of_ne differs _ _
  | kept => rfl
  | partly rest => exact Function.update_of_ne differs _ _

/-- Without a clean-up the store after a run is what the run leaves. -/
theorem Run.after_of_kept {run : Run Content} (kept : ∀ path, run.cleansUp tools path = false) :
    run.after tools =
      leave run.before run.drvPath run.drv run.attempt (run.succeeded tools) := by
  funext path
  rw [Run.after, kept path]
  rfl

theorem Run.not_cleansUp_of_builder {run : Run Content} (builder : isBuiltin run.drv = false)
    (path : StorePath) : run.cleansUp tools path = false := by
  simp [Run.cleansUp, builder]

/-- What a run that succeeded leaves, it does not clean up. -/
theorem Run.not_cleansUp_of_succeeded {run : Run Content} (success : run.succeeded tools = true)
    (path : StorePath) : run.cleansUp tools path = false := by
  by_cases builtin : isBuiltin run.drv = true
  · rw [Run.succeeded, if_pos builtin] at success
    obtain ⟨-, checked⟩ := of_decide_eq_true success
    obtain ⟨outPath, placed, verified⟩ := (Option.any_eq_true _ _).mp checked
    rw [Bool.and_eq_true] at verified
    by_contra removed
    obtain ⟨-, -, same, -, failed⟩ := of_decide_eq_true ((Bool.not_eq_false _).mp removed)
    obtain rfl := Option.some.inj (placed.symm.trans same)
    have passed := verified.2
    cases check : verifyFetchHash tools run.left run.attempt run.drv outPath with
    | ok value =>
        rw [check] at failed
        cases failed
    | error reason =>
        rw [check] at passed
        cases passed
  · exact Run.not_cleansUp_of_builder (by simpa using builtin) path

theorem Run.after_of_accepted {run : Run Content} (success : run.succeeded tools = true) :
    run.after tools = leave run.before run.drvPath run.drv run.attempt true := by
  rw [Run.after_of_kept (Run.not_cleansUp_of_succeeded success), success]

theorem runBuilder_outcome (builder : isBuiltin drv = false)
    (ended : runBuilder tools knownPaths world drvPath drv attempt = (after, result)) :
    Outcome tools knownPaths world after drvPath drv attempt result := by
  have store : ({ before := world.store, drvPath, drv, attempt } : Run Content).after tools =
      leave world.store drvPath drv attempt (decide (attempt.status.toOption = some (some 0))) := by
    rw [Run.after_of_kept (Run.not_cleansUp_of_builder builder), Run.succeeded]
    simp only [builder, Bool.false_eq_true, ↓reduceIte]
  unfold runBuilder at ended
  dsimp only at ended
  split at ended
  · cases ended
    exact .ran _ rfl store.symm rfl nofun
  · rename_i code status
    split at ended
    · cases ended
      exact .ran _ rfl store.symm rfl nofun
    · rename_i zero
      have success : ({ before := world.store, drvPath, drv, attempt } : Run Content).succeeded
          tools = true := by
        rw [Run.succeeded]
        simp only [builder, Bool.false_eq_true, ↓reduceIte, status]
        simpa [Except.toOption] using zero
      split at ended
      · cases ended
        exact .ran _ rfl store.symm rfl nofun
      · rename_i nothing
        split at ended
        · cases ended
          exact .ran _ rfl store.symm rfl nofun
        · obtain ⟨same, outputs⟩ := finishBuild_same ended
          refine .ran _ rfl (same.store.trans store.symm) same.history ?_
          intro built returned
          refine ⟨success, ?_, ?_⟩
          · rw [complete, Bool.or_eq_true]
            left
            rw [List.all_eq_true]
            intro place member
            obtain ⟨output, listed, rfl⟩ := List.mem_map.mp member
            have found := List.find?_eq_none.mp nothing output listed
            rw [same.store]
            exact inPlace_of_existsIn (by simpa using found)
          · intro output member
            rw [outputs built returned] at member
            exact member

section Download

variable {run : Run Content} {outPath : StorePath} (builtin : isBuiltin run.drv = true)
  (placed : run.drv.outputPath "out".toList = some outPath)
include builtin placed

theorem Run.succeeded_of_download : run.succeeded tools = true ↔
    run.attempt.fetchFault = none ∧
      existsIn tools run.attempt.elsewhere run.left outPath = true ∧
      (verifyFetchHash tools run.left run.attempt run.drv outPath).isOk = true := by
  rw [Run.succeeded, if_pos builtin, placed]
  simp

theorem Run.cleansUp_of_download (path : StorePath) : run.cleansUp tools path = true ↔
    run.attempt.fetchFault = none ∧
      existsIn tools run.attempt.elsewhere run.left outPath = true ∧
      (verifyFetchHash tools run.left run.attempt run.drv outPath).isOk = false ∧
      path = outPath := by
  rw [Run.cleansUp, placed, decide_eq_true_eq]
  constructor
  · rintro ⟨-, whole, same, there, rejected⟩
    obtain rfl := Option.some.inj same
    refine ⟨whole, there, ?_, rfl⟩
    cases check : verifyFetchHash tools run.left run.attempt run.drv outPath with
    | ok value => simp [check, Except.toOption] at rejected
    | error reason => rfl
  · rintro ⟨whole, there, rejected, rfl⟩
    refine ⟨builtin, whole, rfl, there, ?_⟩
    cases check : verifyFetchHash tools run.left run.attempt run.drv path with
    | ok value => simp [check, Except.isOk, Except.toBool] at rejected
    | error reason => rfl

/-- A download that stops early, or leaves no `out`, leaves what it has written. -/
theorem Run.after_of_broken
    (broken : run.attempt.fetchFault ≠ none ∨
      existsIn tools run.attempt.elsewhere run.left outPath = false) :
    run.after tools = run.left := by
  have keeps : ∀ path, run.cleansUp tools path = false := by
    intro path
    rw [← Bool.not_eq_true, Run.cleansUp_of_download builtin placed]
    rintro ⟨whole, there, -⟩
    rcases broken with fault | absent
    · exact fault whole
    · rw [absent] at there
      cases there
  have fails : run.succeeded tools = false := by
    rw [← Bool.not_eq_true, Run.succeeded_of_download builtin placed]
    rintro ⟨whole, there, -⟩
    rcases broken with fault | absent
    · exact fault whole
    · rw [absent] at there
      cases there
  rw [Run.after_of_kept keeps, fails]
  rfl

/-- A content that fails its check is cleaned up. -/
theorem Run.after_of_rejected (whole : run.attempt.fetchFault = none)
    (there : existsIn tools run.attempt.elsewhere run.left outPath = true)
    (rejected : (verifyFetchHash tools run.left run.attempt run.drv outPath).isOk = false) :
    run.after tools = cleanedUp run.left run.drvPath outPath run.attempt.cleanUp := by
  have fails : run.succeeded tools = false := by
    rw [← Bool.not_eq_true, Run.succeeded_of_download builtin placed, rejected]
    simp
  funext path
  by_cases same : path = outPath
  · subst same
    have removed := (Run.cleansUp_of_download builtin placed path).mpr ⟨whole, there, rejected, rfl⟩
    rw [Run.after, if_pos removed]
  · have kept : ¬ run.cleansUp tools path = true := by
      rw [Run.cleansUp_of_download builtin placed]
      rintro ⟨-, -, -, equal⟩
      exact same equal
    rw [Run.after, if_neg kept, cleanedUp_of_ne same, fails]
    rfl

end Download

theorem buildBuiltinFetcher_outcome (builtin : isBuiltin drv = true)
    (ended : buildBuiltinFetcher tools knownPaths world drvPath drv attempt = (after, result)) :
    Outcome tools knownPaths world after drvPath drv attempt result := by
  unfold buildBuiltinFetcher at ended
  split at ended
  · cases ended
    exact .idle ⟨rfl, rfl⟩ nofun
  · rename_i outPath placed
    split at ended
    · rename_i there
      obtain ⟨same, outputs⟩ := buildResultFromExisting_same ended
      refine .idle same ?_
      intro built returned
      refine ⟨?_, outputs built returned⟩
      rw [complete, builtin, placed, Option.any_some, inPlace_of_existsIn there]
      simp
    · split at ended
      · cases ended
        exact .idle ⟨rfl, rfl⟩ nofun
      · dsimp only at ended
        split at ended
        · rename_i fault
          cases ended
          refine .ran _ rfl (Eq.symm ?_) rfl nofun
          exact Run.after_of_broken builtin placed (.inl (by simp [fault]))
        · rename_i whole
          split at ended
          · rename_i absent
            cases ended
            refine .ran _ rfl (Eq.symm ?_) rfl nofun
            exact Run.after_of_broken builtin placed (.inr absent)
          · rename_i there
            have present : existsIn tools attempt.elsewhere
                (Run.left ⟨world.store, drvPath, drv, attempt⟩) outPath = true :=
              (Bool.not_eq_false _).mp there
            split at ended
            · rename_i reason rejected
              cases ended
              refine .ran _ rfl (Eq.symm ?_) rfl nofun
              have failed : (verifyFetchHash tools (Run.left ⟨world.store, drvPath, drv, attempt⟩)
                  attempt drv outPath).isOk = false := by
                rw [Run.left, rejected]
                rfl
              exact Run.after_of_rejected builtin placed whole present failed
            · rename_i accepted
              obtain ⟨same, outputs⟩ := finishBuild_same ended
              have success : ({ before := world.store, drvPath, drv, attempt } :
                  Run Content).succeeded tools = true := by
                rw [Run.succeeded_of_download builtin placed]
                refine ⟨whole, present, ?_⟩
                rw [Run.left, accepted]
                rfl
              refine .ran _ rfl ?_ same.history ?_
              · rw [Run.after_of_accepted success]
                exact same.store
              · intro built returned
                refine ⟨success, ?_, ?_⟩
                · have left : inPlace after.store outPath = true := by
                    have written := inPlace_of_existsIn present
                    rw [same.store]
                    rw [Run.left, inPlace_leave] at written
                    rw [inPlace_leave]
                    exact written
                  rw [complete, builtin, placed, Option.any_some, left]
                  simp
                · intro output member
                  rw [outputs built returned, List.mem_singleton] at member
                  rw [member]
                  exact mem_placedOutputs.mpr placed

theorem buildDerivationInner_outcome
    (ended : buildDerivationInner tools knownPaths world drvPath drv attempt = (after, result)) :
    Outcome tools knownPaths world after drvPath drv attempt result := by
  unfold buildDerivationInner at ended
  split at ended
  · rename_i registered
    cases ended
    exact .idle (registerDerivationFile_same registered) nofun
  · rename_i middle registered
    have same := registerDerivationFile_same registered
    have onward : Outcome tools knownPaths middle after drvPath drv attempt result := by
      split at ended
      · rename_i all
        obtain ⟨still, outputs⟩ := buildResultFromExisting_same ended
        refine .idle still ?_
        intro built returned
        exact ⟨complete_mono (fun _ => inPlace_of_existsIn) (complete_of_allExist all),
          outputs built returned⟩
      · split at ended
        · cases ended
          exact .idle ⟨rfl, rfl⟩ nofun
        · split at ended
          · rename_i builtin
            exact buildBuiltinFetcher_outcome builtin ended
          · rename_i builder
            exact runBuilder_outcome (by simpa using builder) ended
    cases onward with
    | idle still taken =>
        rw [same.store] at taken
        exact .idle (same.trans still) taken
    | ran run start store history made =>
        rw [same.store] at start
        rw [same.history] at history
        exact .ran run start store history made

end Outcomes

section Histories

variable {tools : Tools Content} {knownPaths : KnownPaths}

/-- The store that a history of runs makes of a start: each run begins in the store the
one before it has left. -/
inductive Traced (tools : Tools Content) (knownPaths : KnownPaths) (start : Store Content) :
    List (Run Content) → Store Content → Prop where
  | start : Traced tools knownPaths start [] start
  | ran {history : List (Run Content)} {run : Run Content}
      (front : Traced tools knownPaths start history run.before) (known : run.Known knownPaths) :
      Traced tools knownPaths start (history ++ [run]) (run.after tools)

/-- The invariant rule: what every run that meets a condition keeps, a history of such
runs keeps. -/
theorem Traced.keeps {property : Store Content → Prop} {condition : Run Content → Prop}
    (step : ∀ run : Run Content, run.Known knownPaths → property run.before → condition run →
      property (run.after tools))
    {start store : Store Content} {history : List (Run Content)}
    (traced : Traced tools knownPaths start history store) (holds : property start)
    (meets : ∀ run ∈ history, condition run) : property store := by
  induction traced with
  | start => exact holds
  | ran front known ih =>
      have before := ih fun run member => meets run (List.mem_append_left _ member)
      exact step _ known before (meets _ (by simp))

/-- The exact form: if a run keeps the property exactly when it meets the condition, the
property holds after every run exactly if all of them meet it. -/
theorem Traced.throughout_iff {property : Store Content → Prop}
    {condition : Run Content → Prop}
    (step : ∀ run : Run Content, run.Known knownPaths → property run.before →
      (property (run.after tools) ↔ condition run))
    {start store : Store Content} {history : List (Run Content)}
    (traced : Traced tools knownPaths start history store) (holds : property start) :
    (∀ run ∈ history, property (run.after tools)) ↔ ∀ run ∈ history, condition run := by
  induction traced with
  | start => simp
  | @ran history run front known ih =>
      have before : (∀ run ∈ history, condition run) → property run.before :=
        front.keeps (fun run known before met => (step run known before).mpr met) holds
      simp only [List.mem_append, List.mem_singleton, or_imp, forall_and, forall_eq, ih]
      constructor
      · rintro ⟨early, last⟩
        exact ⟨early, (step run known (before early)).mp last⟩
      · rintro ⟨early, last⟩
        exact ⟨early, (step run known (before early)).mpr last⟩

variable {world after : World Content hash} {drvPath : StorePath} {drv : Derivation}
  {attempt : Attempt Content} {result : Except Stop BuildResult} {start : Store Content}

theorem SameStore.traced (same : SameStore world after)
    (traced : Traced tools knownPaths start world.history world.store) :
    Traced tools knownPaths start after.history after.store := by
  rw [same.store, same.history]
  exact traced

theorem Outcome.traced (known : knownPaths.getDrvByDrvpath drvPath = some drv)
    (outcome : Outcome tools knownPaths world after drvPath drv attempt result)
    (traced : Traced tools knownPaths start world.history world.store) :
    Traced tools knownPaths start after.history after.store := by
  cases outcome with
  | idle same taken => exact same.traced traced
  | ran run begun store history made =>
      rw [store, history]
      subst begun
      exact .ran traced known

/-- A build that returns a result has lost nothing and is complete. -/
theorem Outcome.of_ok {built : BuildResult}
    (outcome : Outcome tools knownPaths world after drvPath drv attempt (.ok built)) :
    (∀ path, inPlace world.store path = true → inPlace after.store path = true) ∧
      complete (inPlace after.store) drv = true ∧
      ∀ output ∈ built.outputs, output ∈ placedOutputs drv := by
  cases outcome with
  | idle same taken =>
      obtain ⟨all, outputs⟩ := taken built rfl
      rw [same.store]
      refine ⟨fun _ there => there, all, ?_⟩
      intro output member
      rwa [outputs] at member
  | ran run begun store history made =>
      obtain ⟨success, all, outputs⟩ := made built rfl
      refine ⟨?_, all, outputs⟩
      intro path there
      rw [store, Run.after_of_accepted success]
      apply inPlace_leave_mono
      rw [begun]
      exact there

theorem buildEach_traced {target : StorePath} {attempts : StorePath → Attempt Content}
    {order : List StorePath} {last : Option BuildResult}
    {ended : Except Stop (Option BuildResult)}
    (looped : buildEach tools knownPaths target attempts order last world = (after, ended))
    (traced : Traced tools knownPaths start world.history world.store) :
    Traced tools knownPaths start after.history after.store := by
  induction order generalizing last world with
  | nil =>
      cases looped
      exact traced
  | cons drvPath rest ih =>
      unfold buildEach at looped
      split at looped
      · cases looped
        exact traced
      · rename_i drv known
        split at looped
        · split at looped
          · split at looped
            · rename_i existing
              cases looped
              exact (buildResultFromExisting_same existing).1.traced traced
            · rename_i existing
              exact ih looped ((buildResultFromExisting_same existing).1.traced traced)
          · exact ih looped traced
        · split at looped
          · rename_i inner
            cases looped
            exact (buildDerivationInner_outcome inner).traced known traced
          · rename_i inner
            exact ih looped ((buildDerivationInner_outcome inner).traced known traced)

/-- What holds after a loop that has come to its end. -/
structure LoopDone (knownPaths : KnownPaths) (target : StorePath) (order : List StorePath)
    (world after : World Content hash) (last ended : Option BuildResult) : Prop where
  kept : ∀ path, inPlace world.store path = true → inPlace after.store path = true
  complete : ∀ drvPath ∈ order, ∃ drv, knownPaths.getDrvByDrvpath drvPath = some drv ∧
    LocalBuild.complete (inPlace after.store) drv = true
  outputs : ∀ built, ended = some built → last = some built ∨
    (target ∈ order ∧ ∀ drv, knownPaths.getDrvByDrvpath target = some drv →
      ∀ output ∈ built.outputs, output ∈ placedOutputs drv)

/-- The loop goes on after a derivation that is complete. -/
theorem LoopDone.cons {target : StorePath} {rest : List StorePath}
    {middle : World Content hash} {last next ended : Option BuildResult}
    (known : knownPaths.getDrvByDrvpath drvPath = some drv)
    (kept : ∀ path, inPlace world.store path = true → inPlace middle.store path = true)
    (all : LocalBuild.complete (inPlace middle.store) drv = true)
    (made : ∀ built, next = some built → last = some built ∨
      (drvPath = target ∧ ∀ output ∈ built.outputs, output ∈ placedOutputs drv))
    (done : LoopDone knownPaths target rest middle after next ended) :
    LoopDone knownPaths target (drvPath :: rest) world after last ended where
  kept := fun path there => done.kept path (kept path there)
  complete := by
    intro other member
    rcases List.mem_cons.mp member with rfl | later
    · exact ⟨drv, known, complete_mono done.kept all⟩
    · exact done.complete other later
  outputs := by
    intro built returned
    rcases done.outputs built returned with own | ⟨listed, inside⟩
    · rcases made built own with earlier | ⟨rfl, outputs⟩
      · exact .inl earlier
      · refine .inr ⟨List.mem_cons_self, ?_⟩
        intro other found
        obtain rfl := Option.some.inj (known.symm.trans found)
        exact outputs
    · exact .inr ⟨List.mem_cons_of_mem _ listed, inside⟩

theorem buildEach_ok {target : StorePath} {attempts : StorePath → Attempt Content}
    {order : List StorePath} {last ended : Option BuildResult}
    (looped : buildEach tools knownPaths target attempts order last world = (after, .ok ended)) :
    LoopDone knownPaths target order world after last ended := by
  induction order generalizing last world with
  | nil =>
      cases looped
      exact ⟨fun _ there => there, by simp, fun _ returned => .inl returned⟩
  | cons drvPath rest ih =>
      unfold buildEach at looped
      split at looped
      · cases looped
      · rename_i drv known
        split at looped
        · rename_i all
          have placed := complete_mono (fun _ => inPlace_of_existsIn) (complete_of_allExist all)
          split at looped
          · rename_i own
            split at looped
            · cases looped
            · rename_i existing
              obtain ⟨same, outputs⟩ := buildResultFromExisting_same existing
              refine (ih looped).cons known ?_ ?_ ?_
              · rw [same.store]
                exact fun _ there => there
              · rw [same.store]
                exact placed
              · intro built returned
                cases returned
                refine .inr ⟨own, ?_⟩
                intro output member
                rwa [outputs _ rfl] at member
          · exact (ih looped).cons known (fun _ there => there) placed
              fun _ returned => .inl returned
        · split at looped
          · cases looped
          · rename_i inner
            obtain ⟨kept, all, outputs⟩ := (buildDerivationInner_outcome inner).of_ok
            refine (ih looped).cons known kept all ?_
            intro built returned
            split at returned
            · rename_i own
              cases returned
              exact .inr ⟨own, outputs⟩
            · exact .inl returned

theorem buildNeeded_traced {call : Call Content}
    (ended : buildNeeded tools knownPaths world call = (after, result))
    (traced : Traced tools knownPaths start world.history world.store) :
    Traced tools knownPaths start after.history after.store := by
  unfold buildNeeded at ended
  split at ended
  · cases ended
    exact traced
  · split at ended
    · rename_i looped
      cases ended
      exact buildEach_traced looped traced
    · rename_i looped
      cases ended
      exact buildEach_traced looped traced
    · rename_i looped
      cases ended
      exact buildEach_traced looped traced

theorem afterCalls_traced (calls : List (Call Content))
    (traced : Traced tools knownPaths start world.history world.store) :
    Traced tools knownPaths start (afterCalls tools knownPaths world calls).history
      (afterCalls tools knownPaths world calls).store := by
  induction calls generalizing world with
  | nil => exact traced
  | cons call rest ih => exact ih (buildNeeded_traced rfl traced)

/-- A derivation that building the target needs: the target and its inputs, theirs, and
so on. -/
def Needed (knownPaths : KnownPaths) : StorePath → StorePath → Prop :=
  GraphSearch.Reach (DepthFirst.edges (inputs knownPaths))

/-- A call that returns a result leaves every needed derivation complete, and returns
outputs of its target. -/
theorem buildNeeded_ok {call : Call Content} {built : BuildResult}
    (ended : buildNeeded tools knownPaths world call = (after, .ok built)) :
    (∀ drvPath, Needed knownPaths call.target drvPath →
      ∃ drv, knownPaths.getDrvByDrvpath drvPath = some drv ∧
        complete (inPlace after.store) drv = true) ∧
    ∀ drv, knownPaths.getDrvByDrvpath call.target = some drv →
      ∀ output ∈ built.outputs, output ∈ placedOutputs drv := by
  unfold buildNeeded at ended
  split at ended
  · cases ended
  · rename_i order sorted
    split at ended
    · cases ended
    · cases ended
    · rename_i looped
      cases ended
      have done := buildEach_ok looped
      unfold topologicalSort at sorted
      split at sorted
      · cases sorted
      · cases sorted
      · rename_i search
        cases sorted
        refine ⟨?_, ?_⟩
        · intro drvPath needed
          exact done.complete drvPath (DepthFirst.mem_order_of_reach search needed)
        · rcases done.outputs _ rfl with impossible | ⟨-, outputs⟩
          · cases impossible
          · exact outputs

end Histories

end NixRedox.LocalBuild
