import NixRedox.BuildProvenance

set_option autoImplicit false

/- Fixed-output derivations: which contents have the hash that is declared for them. -/
namespace NixRedox.LocalBuild

variable {Content : Type} {hash : StorePathHash} {tools : Tools Content}
  {knownPaths : KnownPaths}

/-- The content has the declared hash, where that is a SHA-256. The flat hash is that of a
file, not of what a symlink leads to. -/
def HasHash (tools : Tools Content) (content : Content) : CAHash → Prop
  | .flat ⟨.sha256, digest⟩ => tools.symlink content = none ∧
      ∃ bytes, tools.read content = .ok bytes ∧ tools.sha256 bytes = digest
  | .nar ⟨.sha256, digest⟩ => tools.sha256 (tools.nar content) = digest
  | _ => True

/-- The hash a fetch is to have. -/
def Fetch.expected : Fetch → Option CAHash
  | .url expHash => expHash.map .flat
  | .tarball expNarSha256 => expNarSha256.map fun digest => .nar ⟨.sha256, digest⟩
  | .nar hash => some (.nar hash)
  | .executable hash => some (.nar hash)
  | .git => none

/-- `fetchurl_derivation_to_fetch` returns the declared hash. -/
def Declares (tools : Tools Content) : Prop :=
  ∀ drv fetch place declared, tools.fetchurlDerivationToFetch drv = .ok fetch →
    drv.fixedOutput = some (place, declared) → fetch.expected = some declared

section Verification

theorem hasHash_of_verifyFlatHash {elsewhere : Elsewhere Content} {store : Store Content}
    {path : StorePath} {expected : NixHash}
    (passed : verifyFlatHash tools elsewhere store path expected = .ok ())
    {entry : Entry Content} (there : store path = some entry)
    (plain : tools.symlink entry.content = none) :
    HasHash tools entry.content (.flat expected) := by
  unfold verifyFlatHash at passed
  split at passed
  · cases passed
  · rename_i bytes read
    rw [readFile, there] at read
    simp only [plain] at read
    dsimp only at passed
    split at passed
    · cases passed
    · rename_i algo
      split at passed
      · cases passed
      · rename_i equal
        obtain ⟨kind, digest⟩ := expected
        obtain rfl := not_not.mp algo
        exact ⟨plain, bytes, read, not_not.mp equal⟩

theorem hasHash_of_verifyNarHash {store : Store Content} {attempt : Attempt Content}
    {path : StorePath} {expected : NixHash}
    (passed : verifyNarHash tools store attempt path expected = .ok ())
    {entry : Entry Content} (there : store path = some entry) :
    HasHash tools entry.content (.nar expected) := by
  unfold verifyNarHash at passed
  split at passed
  · cases passed
  · rename_i text size hashed
    split at passed
    · cases passed
    · rename_i algo
      split at passed
      · cases passed
      · rename_i equal
        obtain ⟨kind, digest⟩ := expected
        obtain rfl := not_not.mp algo
        unfold narHashPath at hashed
        rw [there] at hashed
        split at hashed
        · cases hashed
        · have texts := (Prod.mk.inj (Except.ok.inj hashed)).1
          have hex := texts.trans (not_not.mp equal)
          apply tools.hex.encode_injective
          exact String.append_right_inj _ |>.mp hex

/-- A download that passes its check has the hash its derivation declares. -/
theorem hasHash_of_verifyFetchHash (declares : Declares tools) {store : Store Content}
    {attempt : Attempt Content} {drv : Derivation} {place path : StorePath} {declared : CAHash}
    (fixed : drv.fixedOutput = some (place, declared))
    (passed : verifyFetchHash tools store attempt drv path = .ok ())
    {entry : Entry Content} (there : store path = some entry)
    (plain : (∃ expected, declared = .flat expected) → tools.symlink entry.content = none) :
    HasHash tools entry.content declared := by
  unfold verifyFetchHash at passed
  have known := declares drv
  split at passed
  · cases passed
  · rename_i expected parsed
    obtain rfl := Option.some.inj (known _ place declared parsed fixed)
    exact hasHash_of_verifyFlatHash passed there (plain ⟨expected, rfl⟩)
  · rename_i parsed
    cases known _ place declared parsed fixed
  · rename_i expected parsed
    obtain rfl := Option.some.inj (known _ place declared parsed fixed)
    exact hasHash_of_verifyNarHash passed there
  · rename_i parsed
    cases known _ place declared parsed fixed
  · rename_i expected parsed
    obtain rfl := Option.some.inj (known _ place declared parsed fixed)
    exact hasHash_of_verifyNarHash passed there
  · rename_i expected parsed
    obtain rfl := Option.some.inj (known _ place declared parsed fixed)
    exact hasHash_of_verifyNarHash passed there
  · rename_i parsed
    cases known _ place declared parsed fixed

end Verification

/-- What a download leaves at its fixed output is checked, and gone if it fails. A flat hash
is checked by reading, which follows symlinks. -/
structure Checked (tools : Tools Content) (run : Run Content) (place : StorePath)
    (declared : CAHash) (content : Content) : Prop where
  builtin : isBuiltin run.drv = true
  whole : run.attempt.fetchFault = none
  fixed : run.drv.fixedOutput = some (place, declared)
  found : existsIn tools run.attempt.elsewhere run.left place = true
  plain : (∃ expected, declared = .flat expected) → tools.symlink content = none
  removable : run.attempt.cleanUp = .gone

/-- A run is honest if what it leaves at a fixed output has the declared hash, unless it is
a download of just this output that is checked. -/
structure Honest (tools : Tools Content) (knownPaths : KnownPaths) (run : Run Content) :
    Prop where
  writes : ∀ other drv place declared, knownPaths.getDrvByDrvpath other = some drv →
    drv.fixedOutput = some (place, declared) → place ∈ outputPlaces run.drv →
    ∀ content, run.attempt.writes place = some content →
      Checked tools run place declared content ∨ HasHash tools content declared
  rest : ∀ other drv place declared, knownPaths.getDrvByDrvpath other = some drv →
    drv.fixedOutput = some (place, declared) → run.cleansUp tools place = true →
    ∀ content, run.attempt.cleanUp = .partly content → HasHash tools content declared

/-- Whatever is at a fixed output has the declared hash. -/
def FixedSound (tools : Tools Content) (knownPaths : KnownPaths) (store : Store Content) : Prop :=
  ∀ other drv place declared, knownPaths.getDrvByDrvpath other = some drv →
    drv.fixedOutput = some (place, declared) →
    ∀ entry, store place = some entry → HasHash tools entry.content declared

/-- A download of a fixed output that is kept after it came to its end was checked. -/
theorem Checked.hasHash_of_kept (declares : Declares tools) {run : Run Content}
    {place : StorePath} {declared : CAHash} {content : Content} {maker : StorePath}
    {succeeded : Bool} (checked : Checked tools run place declared content)
    (left : run.left place = some { content, maker, succeeded })
    (kept : run.cleansUp tools place = false) : HasHash tools content declared := by
  have placed := Derivation.outputPath_of_fixedOutput checked.fixed
  have passed : verifyFetchHash tools run.left run.attempt run.drv place = .ok () := by
    cases check : verifyFetchHash tools run.left run.attempt run.drv place with
    | ok value => rfl
    | error reason =>
        have cleaned := (@Run.cleansUp_of_download Content tools run place checked.builtin placed
          place).mpr ⟨checked.whole, checked.found, by rw [check]; rfl, rfl⟩
        rw [kept] at cleaned
        cases cleaned
  exact hasHash_of_verifyFetchHash declares checked.fixed passed left checked.plain

/-- What an honest run has changed at a fixed output has the declared hash. -/
theorem Honest.hasHash (declares : Declares tools) {run : Run Content}
    (honest : Honest tools knownPaths run) {other place : StorePath} {drv : Derivation}
    {declared : CAHash} (known : knownPaths.getDrvByDrvpath other = some drv)
    (fixed : drv.fixedOutput = some (place, declared)) (own : place ∈ outputPlaces run.drv)
    (touched : run.touches tools place) {entry : Entry Content}
    (there : run.after tools place = some entry) : HasHash tools entry.content declared := by
  have left : ∀ content, run.attempt.writes place = some content →
      run.left place = some { content, maker := run.drvPath, succeeded := false } := by
    intro content writes
    rw [Run.left, leave, if_pos own, writes]
  by_cases cleaned : run.cleansUp tools place = true
  · rw [Run.after, if_pos cleaned] at there
    cases ended : run.attempt.cleanUp with
    | gone =>
        rw [ended, cleanedUp, Function.update_self] at there
        cases there
    | partly rest =>
        rw [ended, cleanedUp, Function.update_self] at there
        cases there
        exact honest.rest other drv place declared known fixed cleaned rest ended
    | kept =>
        have written : run.attempt.writes place ≠ none := by
          rcases touched with written | ⟨-, changed⟩
          · exact written
          · exact absurd ended changed
        obtain ⟨content, writes⟩ := Option.ne_none_iff_exists'.mp written
        rw [ended, cleanedUp, left content writes] at there
        cases there
        rcases honest.writes other drv place declared known fixed own content writes with
          checked | right
        · rw [checked.removable] at ended
          cases ended
        · exact right
  · have written : run.attempt.writes place ≠ none := by
      rcases touched with written | ⟨removed, -⟩
      · exact written
      · exact absurd removed cleaned
    obtain ⟨content, writes⟩ := Option.ne_none_iff_exists'.mp written
    rw [Run.after, if_neg cleaned, leave, if_pos own, writes] at there
    cases there
    rcases honest.writes other drv place declared known fixed own content writes with
      checked | right
    · exact checked.hasHash_of_kept declares (left content writes) (by simpa using cleaned)
    · exact right

theorem fixedSound_after (declares : Declares tools) {run : Run Content}
    (sound : FixedSound tools knownPaths run.before) (honest : Honest tools knownPaths run) :
    FixedSound tools knownPaths (run.after tools) := by
  intro other drv place declared known fixed entry there
  by_cases untouched : place ∈ outputPlaces run.drv → ¬ run.touches tools place
  · rw [Run.after_of_untouched untouched] at there
    exact sound other drv place declared known fixed entry there
  · obtain ⟨own, touched⟩ := Classical.not_imp.mp untouched
    exact honest.hasHash declares known fixed own (not_not.mp touched) there

/-- If all runs so far are honest, a call that returns leaves the declared content at the
output of every fixed-output derivation its target needs. -/
theorem buildNeeded_fixed_outputs (declares : Declares tools) {start : World Content hash}
    (empty : ∀ path, start.store path = none) (unbuilt : start.history = [])
    (calls : List (Call Content)) (call : Call Content) {after : World Content hash}
    {built : BuildResult}
    (ended : buildNeeded tools knownPaths (afterCalls tools knownPaths start calls) call =
      (after, .ok built))
    (honest : ∀ run ∈ after.history, Honest tools knownPaths run) {drvPath : StorePath}
    {drv : Derivation} (needed : Needed knownPaths call.target drvPath)
    (known : knownPaths.getDrvByDrvpath drvPath = some drv) {place : StorePath}
    {declared : CAHash} (fixed : drv.fixedOutput = some (place, declared)) :
    ∃ entry, after.store place = some entry ∧ HasHash tools entry.content declared := by
  have begun : Traced tools knownPaths start.store start.history start.store := by
    rw [unbuilt]
    exact .start
  have traced := buildNeeded_traced ended (afterCalls_traced calls begun)
  have sound : FixedSound tools knownPaths after.store := by
    apply traced.keeps _ _ honest
    · intro run _ before good
      exact fixedSound_after declares before good
    · intro other drv place declared known fixed entry there
      rw [empty] at there
      cases there
  obtain ⟨own, found, all⟩ := (buildNeeded_ok ended).1 drvPath needed
  obtain rfl := Option.some.inj (known.symm.trans found)
  have placed := Derivation.outputPath_of_fixedOutput fixed
  have there : inPlace after.store place = true := by
    rw [complete, Bool.or_eq_true, Bool.and_eq_true] at all
    rcases all with every | ⟨-, out⟩
    · exact List.all_eq_true.mp every place (mem_outputPlaces.mpr ⟨_, placed⟩)
    · rwa [placed, Option.any_some] at out
  obtain ⟨entry, found⟩ := Option.isSome_iff_exists.mp there
  exact ⟨entry, found, sound drvPath drv place declared known fixed entry found⟩

section Files

/-- A fixed-output derivation, by its builder and the digest of its bytes. -/
def fixedHello (builder : List Char) (digest : List UInt8) : Derivation where
  arguments := []
  builder := builder
  environment := AList.insert "out".toList (display helloPath).toUTF8 ∅
  inputDerivations := []
  inputSources := []
  outputs := AList.insert "out".toList
    { path := some helloPath, caHash := some (.flat ⟨.sha256, digest⟩) } ∅

def fixedKnown (builder : List Char) (digest : List UInt8) : KnownPaths :=
  AList.insert helloDrv (fixedHello builder digest) ∅

theorem fileTools_declares : Declares fileTools := by
  intro drv fetch place declared parsed fixed
  simp only [fileTools, fixed] at parsed
  split at parsed
  · cases parsed
  · split at parsed
    · rename_i same
      cases same
      cases parsed
      rfl
    · rename_i same
      cases same
      cases parsed
      rfl
    · cases parsed

theorem buildNeeded_fixed_outputs_hello :
    ∃ entry, (buildNeeded fileTools (fixedKnown "builtin:fetchurl".toList (knownDigest []))
        helloStart (helloCall 0)).1.store helloPath = some entry ∧
      HasHash fileTools entry.content (.flat ⟨.sha256, knownDigest []⟩) := by
  have outputs : (buildNeeded fileTools (fixedKnown "builtin:fetchurl".toList (knownDigest []))
      helloStart (helloCall 0)).2.toOption.map BuildResult.outputs =
      some [("out".toList, helloPath)] := by
    decide +kernel
  have runs : (buildNeeded fileTools (fixedKnown "builtin:fetchurl".toList (knownDigest []))
      helloStart (helloCall 0)).1.history = [⟨helloStart.store, helloDrv,
        fixedHello "builtin:fetchurl".toList (knownDigest []), touchAndExit 0⟩] := by
    rfl
  generalize ended : buildNeeded fileTools (fixedKnown "builtin:fetchurl".toList (knownDigest []))
    helloStart (helloCall 0) = outcome at outputs runs
  obtain ⟨after, result⟩ := outcome
  cases result with
  | error reason => cases outputs
  | ok built =>
      apply buildNeeded_fixed_outputs fileTools_declares (fun _ => rfl) rfl [] (helloCall 0) ended
        _ .refl (AList.lookup_insert _) rfl
      intro run member
      obtain rfl := List.mem_singleton.mp (runs ▸ member)
      refine ⟨?_, fun _ _ _ _ _ _ _ content impossible => by cases impossible⟩
      intro other drv place declared known fixed own content writes
      obtain ⟨-, rfl⟩ := known_of_insert known
      have only : place = helloPath := by
        cases fixed
        rfl
      rw [only] at fixed ⊢
      exact .inl ⟨by decide, rfl, fixed, by decide, fun _ => rfl, rfl⟩

/-- A builder creates a file with another hash than the declared one, and the build
returns it. -/
theorem builder_output_unverified :
    ¬ ∀ (tools : Tools (List UInt8)) (knownPaths : KnownPaths)
      (start : World (List UInt8) literalHash) (calls : List (Call (List UInt8)))
      (call : Call (List UInt8)) (after : World (List UInt8) literalHash) (built : BuildResult),
      Declares tools → (∀ path, start.store path = none) → start.history = [] →
      buildNeeded tools knownPaths (afterCalls tools knownPaths start calls) call =
        (after, .ok built) →
      ∀ drvPath drv place declared, Needed knownPaths call.target drvPath →
        knownPaths.getDrvByDrvpath drvPath = some drv → drv.fixedOutput = some (place, declared) →
        ∃ entry, after.store place = some entry ∧ HasHash tools entry.content declared := by
  intro always
  have outputs : (buildNeeded fileTools (fixedKnown "/bin/sh".toList (List.replicate 32 0))
      helloStart (helloCall 0)).2.toOption.map BuildResult.outputs =
      some [("out".toList, helloPath)] := by
    decide +kernel
  have left : (buildNeeded fileTools (fixedKnown "/bin/sh".toList (List.replicate 32 0))
      helloStart (helloCall 0)).1.store helloPath =
      some { content := [], maker := helloDrv, succeeded := true } := by
    decide +kernel
  generalize ended : buildNeeded fileTools (fixedKnown "/bin/sh".toList (List.replicate 32 0))
    helloStart (helloCall 0) = outcome at outputs left
  obtain ⟨after, result⟩ := outcome
  cases result with
  | error reason => cases outputs
  | ok built =>
      obtain ⟨entry, there, -, bytes, read, wrong⟩ := always fileTools _ helloStart [] (helloCall 0)
        after built fileTools_declares (fun _ => rfl) rfl ended helloDrv _ helloPath _ .refl
        (AList.lookup_insert _) rfl
      obtain rfl := Option.some.inj (left.symm.trans there)
      cases read
      revert wrong
      decide

end Files

end NixRedox.LocalBuild
