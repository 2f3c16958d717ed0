import NixRedox.NarExtract
import NixRedox.UnixPath

set_option autoImplicit false

/- Lazy extraction of store paths (`stored/lazy.rs`): any number of
`ensure_extracted` calls for one store path, interleaved at every point where
another call can look at the destination. -/
namespace NixRedox.Stored

open Nar (Fs FsAction FsNode ManifestEntry NarNode RelPath RunsFresh Sink execAll extractNode)

inductive ExtractError where
  | notRegistered (path : List Char)
  | narNotFound (path : List Char)
  | hashMismatch (storePath expected actual : List Char)
  | io (message : List Char)
  deriving DecidableEq, Repr

structure ExtractionOutcome where
  extractedNow : Bool
  manifest : Option (List ManifestEntry)
  deriving DecidableEq, Repr

/-- `ExtractionOutcome::default()`. -/
def ExtractionOutcome.present : ExtractionOutcome := { extractedNow := false, manifest := none }

/-- The NAR reader and the digest. `decode` is what the reader makes of the bytes it
pulled from the decompressed stream, and these are the bytes that were hashed; `none`
when it does not recognise an archive. -/
structure ArchiveReader where
  decode : List UInt8 → Option NarNode
  wellFormed : ∀ bytes node, decode bytes = some node → node.WellFormed
  sha256Hex : List UInt8 → List Char

/-- The arguments all the calls share. -/
structure Target where
  storePathName : List Char
  storeDir : List Char
  expectedNarHash : List Char

namespace Target

def destination (target : Target) : List Char :=
  UnixPath.join target.storeDir target.storePathName

def absStorePath (target : Target) : List Char := target.storeDir ++ '/' :: target.storePathName

end Target

def normalizeHash (hash : List Char) : List Char :=
  let tag := "sha256:".toList
  if tag.isPrefixOf hash then hash.drop tag.length else hash

/-- Where a call of `ensure_extracted` stands. -/
inductive Phase where
  | idle
  /-- The fast path found nothing. -/
  | checked
  /-- Another call has claimed the extraction. -/
  | waiting (polls : Nat)
  /-- In the `extracting` set, nothing written yet. -/
  | claimed
  | running (remaining : List FsAction) (delivered : List UInt8) (node : NarNode)
  /-- The hash differed, and the tree is being removed. -/
  | cleaning (actual : List Char)
  | releasing (result : Except ExtractError (List ManifestEntry))
  | returned (result : Except ExtractError ExtractionOutcome)

/-- The call's name is in the `extracting` set on its behalf. -/
def Phase.holds : Phase → Bool
  | .claimed | .running .. | .cleaning _ | .releasing _ => true
  | .idle | .checked | .waiting _ | .returned _ => false

/-- The call is changing the destination. -/
def Phase.writing : Phase → Bool
  | .running .. | .cleaning _ => true
  | _ => false

structure State where
  fs : Fs
  extracting : Bool
  calls : Nat → Phase

namespace State

def initial : State := { fs := Fs.empty, extracting := false, calls := fun _ => .idle }

def setCall (state : State) (call : Nat) (phase : Phase) : State :=
  { state with calls := Function.update state.calls call phase }

end State

/-- `Path::exists` follows a symlink, wherever it leads. -/
def Sees (fs : Fs) (present : Bool) : Prop :=
  match fs [] with
  | none => present = false
  | some (.symlink _) => True
  | some _ => present = true

/-- What a step of the extraction can do to the destination. An action that meets
something it did not expect (a file it truncates, a symlink it follows) is left open. -/
def Effect (action : FsAction) (before after : Fs) : Prop :=
  action.Applicable before → after = action.exec before

/-- `remove_dir_all` and `unlinkat` take away a node with nothing below it. The
standard library does not remove a destination that is a plain file. -/
def Removable (sink : Sink) (fs : Fs) (path : RelPath) : Prop :=
  (∀ below, below ≠ [] → fs (path ++ below) = none) ∧
    (sink = .stdFs → ∀ content mode, fs [] ≠ some (.file content mode))

inductive Event where
  | check (present : Bool)
  | claim
  | poll (present : Bool)
  | timeout
  | setupFails (error : ExtractError)
  | opens (delivered : List UInt8)
  | act
  | fails (message : List Char)
  | verify
  | remove (path : RelPath)
  | cleanupEnds
  | release

def MAX_POLLS : Nat := 6000

section Protocol

variable (reader : ArchiveReader) (sink : Sink) (target : Target)

/-- One step of one call. -/
inductive Step : State → Nat → Event → State → Prop where
  | check {state : State} {call : Nat} {present : Bool} (at_ : state.calls call = .idle)
      (sees : Sees state.fs present) :
      Step state call (.check present)
        (state.setCall call (if present then .returned (.ok .present) else .checked))
  | claimTaken {state : State} {call : Nat} (at_ : state.calls call = .checked)
      (taken : state.extracting = true) :
      Step state call .claim (state.setCall call (.waiting 0))
  | claim {state : State} {call : Nat} (at_ : state.calls call = .checked)
      (free : state.extracting = false) :
      Step state call .claim { state.setCall call .claimed with extracting := true }
  | poll {state : State} {call polls : Nat} {present : Bool}
      (at_ : state.calls call = .waiting polls) (again : polls < MAX_POLLS)
      (sees : Sees state.fs present) :
      Step state call (.poll present)
        (state.setCall call
          (if present then .returned (.ok .present) else .waiting (polls + 1)))
  | timeout {state : State} {call : Nat} (at_ : state.calls call = .waiting MAX_POLLS) :
      Step state call .timeout
        (state.setCall call (.returned
          (.error (.io ("timed out waiting for extraction: ".toList ++ target.destination)))))
  | setupFails {state : State} {call : Nat} {error : ExtractError}
      (at_ : state.calls call = .claimed) :
      Step state call (.setupFails error) (state.setCall call (.releasing (.error error)))
  | opens {state : State} {call : Nat} {delivered : List UInt8} {node : NarNode}
      (at_ : state.calls call = .claimed) (decoded : reader.decode delivered = some node) :
      Step state call (.opens delivered)
        (state.setCall call
          (.running ((extractNode [] [] node).actions sink) delivered node))
  | act {state : State} {call : Nat} {action : FsAction} {rest : List FsAction}
      {delivered : List UInt8} {node : NarNode} {after : Fs}
      (at_ : state.calls call = .running (action :: rest) delivered node)
      (effect : Effect action state.fs after) :
      Step state call .act
        { state.setCall call (.running rest delivered node) with fs := after }
  | fails {state : State} {call : Nat} {message : List Char} {rest : List FsAction}
      {delivered : List UInt8} {node : NarNode}
      (at_ : state.calls call = .running rest delivered node) :
      Step state call (.fails message)
        (state.setCall call
          (.releasing (.error (.io ("NAR extraction: ".toList ++ message)))))
  | verify {state : State} {call : Nat} {delivered : List UInt8} {node : NarNode}
      (at_ : state.calls call = .running [] delivered node) (complete : node.complete = true) :
      Step state call .verify
        (state.setCall call
          (if reader.sha256Hex delivered = normalizeHash target.expectedNarHash then
            .releasing (.ok (extractNode [] [] node).manifest)
          else
            .cleaning (reader.sha256Hex delivered)))
  | remove {state : State} {call : Nat} {actual : List Char} {path : RelPath}
      (at_ : state.calls call = .cleaning actual) (removable : Removable sink state.fs path) :
      Step state call (.remove path)
        { state with fs := Function.update state.fs path none }
  | cleanupEnds {state : State} {call : Nat} {actual : List Char}
      (at_ : state.calls call = .cleaning actual) :
      Step state call .cleanupEnds
        (state.setCall call (.releasing (.error (.hashMismatch target.absStorePath
          (normalizeHash target.expectedNarHash) actual))))
  | release {state : State} {call : Nat}
      {result : Except ExtractError (List ManifestEntry)}
      (at_ : state.calls call = .releasing result) :
      Step state call .release
        { state.setCall call (.returned (result.map fun manifest =>
            { extractedNow := true, manifest := some manifest })) with
          extracting := false }

/-- The states that runs of admitted steps reach. -/
inductive Reached (admits : State → Event → Prop) : State → Prop where
  | initial : Reached admits State.initial
  | step {state next : State} {call : Nat} {event : Event} (reached : Reached admits state)
      (admitted : admits state event) (step : Step reader sink target state call event next) :
      Reached admits next

/-- The destination holds the whole tree of an archive with the expected hash. -/
def Verified (fs : Fs) : Prop :=
  ∃ bytes node, reader.decode bytes = some node ∧ node.complete = true ∧
    reader.sha256Hex bytes = normalizeHash target.expectedNarHash ∧ fs = node.tree

end Protocol

/-- The steps that keep a destination that exists apart from one that is being
written: nobody finds it while a call is writing it, an extraction starts from nothing
and leaves nothing behind when it fails. -/
def Quiet (state : State) : Event → Prop
  | .check true | .poll true => ∀ call, (state.calls call).writing = false
  | .claim => state.extracting = false → state.fs = Fs.empty
  | .fails _ | .cleanupEnds => state.fs = Fs.empty
  | _ => True

section Safety

variable {reader : ArchiveReader} {sink : Sink} {target : Target}

/-- What the destination looks like while a call is in a phase. -/
def PhaseInv (reader : ArchiveReader) (target : Target) (fs : Fs) : Phase → Prop
  | .claimed => fs = Fs.empty
  | .running remaining delivered node =>
      reader.decode delivered = some node ∧ RunsFresh remaining fs ∧
        (node.complete = true → execAll remaining fs = node.tree)
  | .releasing (.ok _) => Verified reader target fs
  | .releasing (.error _) => fs = Fs.empty
  | _ => True

/-- One call at most holds the extraction; between extractions the destination is
absent or verified. -/
structure Inv (reader : ArchiveReader) (target : Target) (state : State) : Prop where
  held : state.extracting = true ↔ ∃ call, (state.calls call).holds = true
  alone : ∀ one two, (state.calls one).holds = true → (state.calls two).holds = true → one = two
  settled : state.extracting = false → state.fs = Fs.empty ∨ Verified reader target state.fs
  phase : ∀ call, PhaseInv reader target state.fs (state.calls call)

theorem phaseInv_of_not_holds {fs : Fs} {phase : Phase} (free : phase.holds = false) :
    PhaseInv reader target fs phase := by
  cases phase with
  | claimed => cases free
  | running => cases free
  | releasing => cases free
  | idle => trivial
  | checked => trivial
  | waiting => trivial
  | cleaning => trivial
  | returned => trivial

theorem Inv.initial : Inv reader target State.initial where
  held := by simp [State.initial, Phase.holds]
  alone := by simp [State.initial, Phase.holds]
  settled _ := .inl rfl
  phase _ := trivial

/-- A call that holds nothing moves to another phase that holds nothing. -/
theorem Inv.observe {state : State} (inv : Inv reader target state) {call : Nat}
    {phase : Phase} (before : (state.calls call).holds = false) (after : phase.holds = false) :
    Inv reader target (state.setCall call phase) := by
  have same : ∀ other, ((state.setCall call phase).calls other).holds =
      (state.calls other).holds := by
    intro other
    by_cases mine : other = call
    · subst mine
      simp [State.setCall, before, after]
    · simp [State.setCall, mine]
  refine ⟨?_, ?_, inv.settled, ?_⟩
  · simp only [same]
    exact inv.held
  · simp only [same]
    exact inv.alone
  · intro other
    by_cases mine : other = call
    · subst mine
      exact phaseInv_of_not_holds (by simpa [State.setCall] using after)
    · have kept := inv.phase other
      simpa [State.setCall, mine] using kept

/-- The call that holds the extraction goes on with it; the others do not look. -/
theorem Inv.own {state : State} (inv : Inv reader target state) {call : Nat} {phase : Phase}
    {fs : Fs} (before : (state.calls call).holds = true) (after : phase.holds = true)
    (reached : PhaseInv reader target fs phase) :
    Inv reader target { state.setCall call phase with fs } := by
  have busy : state.extracting = true := inv.held.mpr ⟨call, before⟩
  have others : ∀ other, other ≠ call → (state.calls other).holds = false := by
    intro other differs
    by_contra holding
    exact differs (inv.alone other call (by simpa using holding) before)
  have only : ∀ other, ((state.setCall call phase).calls other).holds = true → other = call := by
    intro other holding
    by_contra differs
    have free : (state.calls other).holds = true := by
      simpa [State.setCall, differs] using holding
    rw [others other differs] at free
    cases free
  refine ⟨⟨fun _ => ⟨call, by simpa [State.setCall] using after⟩, fun _ => busy⟩, ?_, ?_, ?_⟩
  · intro one two first second
    exact (only one first).trans (only two second).symm
  · intro free
    have idle : state.extracting = false := free
    rw [busy] at idle
    cases idle
  · intro other
    by_cases mine : other = call
    · subst mine
      simpa [State.setCall] using reached
    · apply phaseInv_of_not_holds
      simpa [State.setCall, mine] using others other mine

theorem Inv.claim {state : State} (inv : Inv reader target state) {call : Nat}
    (free : state.extracting = false) (absent : state.fs = Fs.empty) :
    Inv reader target { state.setCall call .claimed with extracting := true } := by
  have nobody : ∀ other, (state.calls other).holds = false := by
    intro other
    by_contra holding
    have busy := inv.held.mpr ⟨other, by simpa using holding⟩
    rw [free] at busy
    cases busy
  have only : ∀ other, ((state.setCall call .claimed).calls other).holds = true →
      other = call := by
    intro other holding
    by_contra differs
    have impossible : (state.calls other).holds = true := by
      simpa [State.setCall, differs] using holding
    rw [nobody other] at impossible
    cases impossible
  refine ⟨⟨fun _ => ⟨call, by simp [State.setCall, Phase.holds]⟩, fun _ => rfl⟩, ?_, nofun, ?_⟩
  · intro one two first second
    exact (only one first).trans (only two second).symm
  · intro other
    by_cases mine : other = call
    · subst mine
      simpa [State.setCall, PhaseInv] using absent
    · apply phaseInv_of_not_holds
      simpa [State.setCall, mine] using nobody other

theorem Inv.release {state : State} (inv : Inv reader target state) {call : Nat}
    {result : Except ExtractError (List ManifestEntry)}
    {answer : Except ExtractError ExtractionOutcome}
    (holding : state.calls call = .releasing result) :
    Inv reader target
      { state.setCall call (.returned answer) with extracting := false } := by
  have before : (state.calls call).holds = true := by simp [holding, Phase.holds]
  have nobody : ∀ other, ((state.setCall call (.returned answer)).calls other).holds = false := by
    intro other
    by_cases mine : other = call
    · subst mine
      simp [State.setCall, Phase.holds]
    · by_contra still
      have held : (state.calls other).holds = true := by
        simpa [State.setCall, mine] using still
      exact mine (inv.alone other call held before)
  have settled : state.fs = Fs.empty ∨ Verified reader target state.fs := by
    have reached := inv.phase call
    rw [holding] at reached
    cases result with
    | ok manifest => exact .inr reached
    | error error => exact .inl reached
  refine ⟨⟨nofun, ?_⟩, ?_, fun _ => settled, fun other => phaseInv_of_not_holds (nobody other)⟩
  · rintro ⟨other, held⟩
    have free : ((state.setCall call (.returned answer)).calls other).holds = true := held
    rw [nobody other] at free
    cases free
  · intro one two first
    have free : ((state.setCall call (.returned answer)).calls one).holds = true := first
    rw [nobody one] at free
    cases free

/-- One step, under the discipline, keeps the invariant. -/
theorem Inv.step {state next : State} {call : Nat} {event : Event}
    (inv : Inv reader target state) (quiet : Quiet state event)
    (step : Step reader sink target state call event next) : Inv reader target next := by
  cases step with
  | @check present at_ sees =>
      exact inv.observe (by simp [at_, Phase.holds]) (by cases present <;> rfl)
  | claimTaken at_ taken => exact inv.observe (by simp [at_, Phase.holds]) rfl
  | claim at_ free => exact inv.claim free (quiet free)
  | @poll polls present at_ again sees =>
      exact inv.observe (by simp [at_, Phase.holds]) (by cases present <;> rfl)
  | timeout at_ => exact inv.observe (by simp [at_, Phase.holds]) rfl
  | setupFails at_ =>
      have absent := inv.phase call
      rw [at_] at absent
      exact inv.own (by simp [at_, Phase.holds]) rfl absent
  | @opens delivered node at_ decoded =>
      have absent : state.fs = Fs.empty := by
        have reached := inv.phase call
        rwa [at_] at reached
      have plan := Nar.extract_builds_tree sink node (reader.wellFormed _ _ decoded)
      refine inv.own (by simp [at_, Phase.holds]) rfl ⟨decoded, ?_, ?_⟩
      · rw [absent]
        exact plan.1
      · rw [absent]
        exact plan.2
  | @act action rest delivered node after at_ effect =>
      have reached := inv.phase call
      rw [at_] at reached
      obtain ⟨decoded, ⟨applicable, fresh⟩, built⟩ := reached
      have done := effect applicable
      subst done
      exact inv.own (by simp [at_, Phase.holds]) rfl ⟨decoded, fresh, built⟩
  | fails at_ => exact inv.own (by simp [at_, Phase.holds]) rfl quiet
  | @verify delivered node at_ complete =>
      have reached := inv.phase call
      rw [at_] at reached
      obtain ⟨decoded, _, built⟩ := reached
      split
      · rename_i matching
        exact inv.own (by simp [at_, Phase.holds]) rfl
          ⟨delivered, node, decoded, complete, matching, built complete⟩
      · exact inv.own (by simp [at_, Phase.holds]) rfl trivial
  | @remove actual path at_ removable =>
      have unchanged : state.setCall call (.cleaning actual) = state := by
        simp [State.setCall, ← at_]
      have kept : Inv reader target { state.setCall call (.cleaning actual) with
          fs := Function.update state.fs path none } :=
        inv.own (by simp [at_, Phase.holds]) rfl trivial
      rwa [unchanged] at kept
  | cleanupEnds at_ => exact inv.own (by simp [at_, Phase.holds]) rfl quiet
  | release at_ => exact inv.release at_

theorem Reached.inv {state : State} (reached : Reached reader sink target Quiet state) :
    Inv reader target state := by
  induction reached with
  | initial => exact Inv.initial
  | step _ admitted step ih => exact ih.step admitted step

/-- Whoever finds the destination while nobody is writing it finds it verified. -/
theorem Inv.found {state : State} (inv : Inv reader target state)
    (quiet : ∀ call, (state.calls call).writing = false) (sees : Sees state.fs true) :
    Verified reader target state.fs := by
  have there : state.fs ≠ Fs.empty := by
    intro absent
    rw [absent] at sees
    cases sees
  cases busy : state.extracting with
  | false => exact (inv.settled busy).resolve_left there
  | true =>
      obtain ⟨call, holding⟩ := inv.held.mp busy
      have reached := inv.phase call
      have still := quiet call
      cases phase : state.calls call with
      | idle => rw [phase] at holding; cases holding
      | checked => rw [phase] at holding; cases holding
      | waiting => rw [phase] at holding; cases holding
      | returned => rw [phase] at holding; cases holding
      | claimed => rw [phase] at reached; exact False.elim (there reached)
      | running => rw [phase] at still; cases still
      | cleaning => rw [phase] at still; cases still
      | releasing result =>
          rw [phase] at reached
          cases result with
          | ok manifest => exact reached
          | error error => exact False.elim (there reached)

/-- A call returns successfully only over a complete, verified destination. -/
theorem returns_ok_verified {state next : State} {call : Nat} {event : Event}
    {outcome : ExtractionOutcome} (reached : Reached reader sink target Quiet state)
    (quiet : Quiet state event) (step : Step reader sink target state call event next)
    (returned : next.calls call = .returned (.ok outcome)) :
    Verified reader target next.fs := by
  have inv := reached.inv
  have now : ∀ phase, (state.setCall call phase).calls call = phase := by
    intro phase
    simp [State.setCall]
  cases step with
  | @check present at_ sees =>
      cases present with
      | false => cases (now _).symm.trans returned
      | true => exact inv.found quiet sees
  | claimTaken => cases (now _).symm.trans returned
  | claim => cases (now _).symm.trans returned
  | @poll polls present at_ again sees =>
      cases present with
      | false => cases (now _).symm.trans returned
      | true => exact inv.found quiet sees
  | timeout => cases (now _).symm.trans returned
  | setupFails => cases (now _).symm.trans returned
  | opens => cases (now _).symm.trans returned
  | act => cases (now _).symm.trans returned
  | fails => cases (now _).symm.trans returned
  | verify =>
      have phase := (now _).symm.trans returned
      split at phase
      · cases phase
      · cases phase
  | remove at_ => cases at_.symm.trans returned
  | cleanupEnds => cases (now _).symm.trans returned
  | @release result at_ =>
      have settled := inv.phase call
      rw [at_] at settled
      cases result with
      | ok manifest => exact settled
      | error error => cases (now _).symm.trans returned

end Safety

/-- A string of the NAR wire format: its length as a 64-bit word, then its bytes,
padded to a multiple of eight. -/
def narString (text : String) : List UInt8 :=
  let bytes := text.toUTF8.toList
  (UInt8.ofNat bytes.length :: List.replicate 7 0) ++ bytes ++
    List.replicate ((8 - bytes.length % 8) % 8) 0

/-- The archive of a file that says `hi`. -/
def greeting : List UInt8 :=
  ["nix-archive-1", "(", "type", "regular", "contents", "hi", ")"].flatMap narString

def greetingNode : NarNode := .file false [[104, 105]] true

/-- A reader that knows this archive. -/
def greetingReader : ArchiveReader where
  decode bytes := if bytes = greeting then some greetingNode else none
  wellFormed := by
    intro bytes node decoded
    split at decoded
    · cases decoded
      trivial
    · cases decoded
  sha256Hex bytes :=
    if bytes = greeting then
      "2252d4b78c94e8c7ace4e3317b78bdfe64bc8e3970a64eb6d2f7c2a443c0c3fc".toList
    else
      []

def greetingTarget : Target where
  storePathName := "1b9jydsiygi6jhlz2dxbrxi6b4m1rn4r-hi".toList
  storeDir := "/nix/store".toList
  expectedNarHash :=
    "sha256:2252d4b78c94e8c7ace4e3317b78bdfe64bc8e3970a64eb6d2f7c2a443c0c3fc".toList

theorem greeting_decodes : greetingReader.decode greeting = some greetingNode := if_pos rfl

theorem greeting_matches :
    greetingReader.sha256Hex greeting = normalizeHash greetingTarget.expectedNarHash :=
  (if_pos rfl).trans (by decide)

theorem verify_matching {reader : ArchiveReader} {sink : Sink} {target : Target} {state : State}
    {call : Nat} {delivered : List UInt8} {node : NarNode}
    (matching : reader.sha256Hex delivered = normalizeHash target.expectedNarHash)
    (at_ : state.calls call = .running [] delivered node) (complete : node.complete = true) :
    Step reader sink target state call .verify
      (state.setCall call (.releasing (.ok (extractNode [] [] node).manifest))) := by
  have step := @Step.verify reader sink target _ _ _ _ at_ complete
  rwa [if_pos matching] at step

abbrev GreetingStep := Step greetingReader .stdFs greetingTarget

abbrev GreetingReached := Reached greetingReader .stdFs greetingTarget

/-- A single call extracts the archive and returns. -/
theorem returns_ok_verified_greeting :
    ∃ state next outcome, GreetingReached Quiet state ∧ GreetingStep state 0 .release next ∧
      next.calls 0 = .returned (.ok outcome) ∧ Verified greetingReader greetingTarget next.fs := by
  have start : GreetingReached Quiet State.initial := .initial
  have checked := start.step (by exact trivial)
    (Step.check rfl (by exact rfl) : GreetingStep _ 0 (.check false) _)
  have claimed := checked.step (by exact fun _ => rfl) (Step.claim rfl rfl : GreetingStep _ 0 _ _)
  have opened := claimed.step (by exact trivial)
    (Step.opens rfl greeting_decodes : GreetingStep _ 0 _ _)
  have created := opened.step (by exact trivial)
    (Step.act rfl (fun _ => rfl) : GreetingStep _ 0 _ _)
  have appended := created.step (by exact trivial)
    (Step.act rfl (fun _ => rfl) : GreetingStep _ 0 _ _)
  have finished := appended.step (by exact trivial)
    (Step.act rfl (fun _ => rfl) : GreetingStep _ 0 _ _)
  have verified := finished.step (by exact trivial)
    (verify_matching greeting_matches rfl rfl : GreetingStep _ 0 _ _)
  exact ⟨_, _, _, verified, Step.release rfl, rfl,
    returns_ok_verified verified (by exact trivial)
      (Step.release rfl : GreetingStep _ 0 .release _) rfl⟩

/-- The write of the archive fails after the file was created. The next call finds
the empty file and reports success. -/
theorem ok_after_failed_extraction :
    ¬ ∀ (reader : ArchiveReader) (sink : Sink) (target : Target) (state next : State)
        (call : Nat) (event : Event) (outcome : ExtractionOutcome),
      Reached reader sink target (fun _ _ => True) state →
      Step reader sink target state call event next →
      next.calls call = .returned (.ok outcome) → Verified reader target next.fs := by
  intro always
  have start : GreetingReached (fun _ _ => True) State.initial := .initial
  have checked := start.step trivial
    (Step.check rfl (by exact rfl) : GreetingStep _ 0 (.check false) _)
  have claimed := checked.step trivial (Step.claim rfl rfl : GreetingStep _ 0 _ _)
  have opened := claimed.step trivial (Step.opens rfl greeting_decodes : GreetingStep _ 0 _ _)
  have created := opened.step trivial (Step.act rfl (fun _ => rfl) : GreetingStep _ 0 _ _)
  have failed := created.step trivial (Step.fails rfl : GreetingStep _ 0 (.fails []) _)
  have released := failed.step trivial (Step.release rfl : GreetingStep _ 0 _ _)
  obtain ⟨bytes, node, decoded, -, -, holds⟩ := always _ _ _ _ _ _ _ _ released
    (Step.check rfl (by exact rfl) : GreetingStep _ 1 (.check true) _) rfl
  have known : node = greetingNode := by
    have branch : (if bytes = greeting then some greetingNode else none) = some node := decoded
    split at branch
    · exact (Option.some.inj branch).symm
    · cases branch
  subst known
  have content := congrFun holds []
  exact absurd content (by decide)

end NixRedox.Stored
