import NixRedox.SystemFreshIds

set_option autoImplicit false

/- The current manifest, the current link and the generations directory over runs of
generation operations. -/
namespace NixRedox.System

/-- The directory named by a manifest's own id holds the manifest. -/
def StoredAsOwn (dir : GenerationsDir) (manifest : Manifest) : Prop :=
  dir.lookup (dirName manifest.generation.id) = some (.readable manifest)

/-- The link points at the directory of the current generation, which holds the
current manifest. -/
def Agrees (state : State) : Prop :=
  ∃ current, state.manifest = .readable current ∧
    state.link = some (dirName current.generation.id) ∧ StoredAsOwn state.generations current

/-- A stored generation that is not the current one is found for an id. -/
def Selects (state : State) (target : UInt32) (found : Generation) : Prop :=
  (∃ current, state.manifest = .readable current ∧ current.generation.id ≠ target) ∧
    (scanGenerations state.generations).find? (·.id = target) = some found

/-- What the two operations that reuse a stored generation rely on: it is stored under
its own id and, where the link is not set, the link is there already. -/
def Proper (state : State) : Operation → Prop
  | .switchGeneration target => ∀ found, Selects state target found →
      found.manifest.generation.id = target ∧ StoredAsOwn state.generations found.manifest
  | .activateBoot target => ∀ found, Selects state target found →
      state.link = some (dirName found.manifest.generation.id) ∧
        StoredAsOwn state.generations found.manifest
  | _ => True

/-- Successful operations one after the other, all of them allowed where they start,
and whether any has changed the current manifest. -/
inductive Run (Allowed : State → Operation → Prop) (start : State) : Bool → State → Prop where
  | start : Run Allowed start false start
  | step {changed : Bool} {state : State} (env : Env) (op : Operation)
      (before : Run Allowed start changed state) (allowed : Allowed state op)
      (succeeds : (perform env state op).result = .ok ()) :
      Run Allowed start
        (changed || decide ((perform env state op).state.manifest ≠ state.manifest))
        (perform env state op).state

/-- The manifest and the link are as before, and so is the current generation's entry. -/
def Unharmed (before after : State) : Prop :=
  after.manifest = before.manifest ∧ after.link = before.link ∧
  ∀ current, before.manifest = .readable current →
    after.generations.lookup (dirName current.generation.id) =
      before.generations.lookup (dirName current.generation.id)

theorem unharmed_refl (state : State) : Unharmed state state := ⟨rfl, rfl, fun _ _ => rfl⟩

theorem agrees_of_unharmed {before after : State} (agrees : Agrees before)
    (unharmed : Unharmed before after) : Agrees after := by
  obtain ⟨current, readable, linked, stored⟩ := agrees
  obtain ⟨manifest, link, entry⟩ := unharmed
  refine ⟨current, manifest.trans readable, link.trans linked, ?_⟩
  rw [StoredAsOwn, entry current readable]
  exact stored

theorem loadManifestFrom_ok {path : String} {file : ManifestFile} {manifest : Manifest}
    (loaded : loadManifestFrom path file = .ok manifest) : file = .readable manifest := by
  cases file with
  | missing => cases loaded
  | unreadable reason => cases loaded
  | readable found =>
      cases loaded
      rfl

theorem publishNew_agrees {env : Env} {state : State} {current new : Manifest}
    (succeeds : (publishNew env state current new).result = .ok ()) :
    Agrees (publishNew env state current new).state := by
  unfold publishNew at succeeds ⊢
  cases activated : env.activate current new false with
  | error reason =>
      rw [activated] at succeeds
      cases succeeds
  | ok done => exact ⟨new, rfl, rfl, AList.lookup_insert _⟩

/-- Without a current manifest nothing succeeds. -/
theorem perform_unloaded {env : Env} {state : State} {op : Operation} {reason : String}
    (failed : loadManifestFrom manifestPath state.manifest = .error reason) :
    perform env state op = .failed state reason := by
  cases op with
  | switch newPath newFile description dryRun => simp only [perform, switch, failed]
  | switchGeneration target => simp only [perform, switchGeneration, failed]
  | rollback target => simp only [perform, rollback, failed]
  | activateBoot target => simp only [perform, activateBoot, failed]
  | deleteGenerations roots selector dryRun =>
      simp only [perform, deleteGenerationsWith, failed]

/-- A dry run changes nothing. -/
theorem switch_dryRun_state (env : Env) (newPath : String) (newFile : ManifestFile)
    (description : Option String) (state : State) :
    (switch env newPath newFile description true state).state = state := by
  unfold switch
  cases loadManifestFrom manifestPath state.manifest with
  | error reason => rfl
  | ok current => cases loadManifestFrom newPath newFile <;> rfl

section Deletion

variable {env : Env}

theorem selectedIds_unguarded {guarded : List UInt32} {generations : List Generation}
    {selector : GenerationSelector} {id : UInt32}
    (selected : id ∈ selectedIds env guarded generations selector) : id ∉ guarded := by
  cases selector with
  | ids ids => simpa using (List.mem_filter.mp selected).2
  | keepLast count => simpa using (List.mem_filter.mp selected).2
  | olderThanDays days =>
      obtain ⟨generation, member, same⟩ := List.mem_map.mp selected
      subst same
      have kept := (List.mem_filter.mp member).2
      exact (of_decide_eq_true kept).1
  | old => simpa using (List.mem_filter.mp selected).2

/-- A deletion removes directories of the given ids only. -/
theorem deleteEach_lookup {dryRun : Bool} {ids : List UInt32} {dir : GenerationsDir}
    {roots : GcRoots} {stats : DeleteGenerationsStats} {name : String}
    (apart : ∀ id ∈ ids, name ≠ dirName id) :
    (deleteEach dryRun ids dir roots stats).1.lookup name = dir.lookup name := by
  induction ids generalizing dir roots stats with
  | nil => rfl
  | cons id ids ih =>
      have head : name ≠ dirName id := apart id List.mem_cons_self
      have tail : ∀ other ∈ ids, name ≠ dirName other := fun other member =>
        apart other (List.mem_cons_of_mem id member)
      unfold deleteEach at ih ⊢
      rw [List.foldl_cons]
      cases dryRun with
      | true => exact ih tail
      | false =>
          have erased := @AList.lookup_erase_ne _ _ _ _ _ dir head
          rw [← erased]
          exact ih tail

/-- A successful deletion removes directories, but never the current generation's. -/
theorem deleteGenerationsWith_ok {roots : GcRoots} {selector : String} {dryRun : Bool}
    {state : State} {after : State × GcRoots × DeleteGenerationsStats}
    (deleted : deleteGenerationsWith env roots selector dryRun state = .ok after) :
    ∃ current ids stats, state.manifest = .readable current ∧ current.generation.id ∉ ids ∧
      after.1 = { state with
        generations := (deleteEach dryRun ids state.generations roots stats).1 } := by
  unfold deleteGenerationsWith at deleted
  split at deleted
  · cases deleted
  · rename_i current loaded
    split at deleted
    · cases deleted
    · rename_i bootDefault read
      split at deleted
      · cases deleted
      · rename_i parsed selection
        cases deleted
        refine ⟨current, _, _, loadManifestFrom_ok loaded, ?_, rfl⟩
        intro selected
        exact selectedIds_unguarded selected List.mem_cons_self

theorem deleteGenerationsWith_unharmed {roots : GcRoots} {selector : String} {dryRun : Bool}
    {state : State} {after : State × GcRoots × DeleteGenerationsStats}
    (deleted : deleteGenerationsWith env roots selector dryRun state = .ok after) :
    Unharmed state after.1 := by
  obtain ⟨current, ids, stats, readable, spared, same⟩ := deleteGenerationsWith_ok deleted
  rw [same]
  refine ⟨rfl, rfl, ?_⟩
  intro other otherReadable
  rw [readable] at otherReadable
  cases otherReadable
  apply deleteEach_lookup
  intro id member name
  rw [dirName_injective name] at spared
  exact spared member

end Deletion

/-- A switch or rollback publishes a new generation or changes nothing. -/
theorem renewed_agrees {env : Env} {state : State} {op : Operation} (renews : op.renews = true)
    (succeeds : (perform env state op).result = .ok ()) :
    Agrees (perform env state op).state ∨ Unharmed state (perform env state op).state := by
  cases loaded : loadManifestFrom manifestPath state.manifest with
  | error reason =>
      rw [perform_unloaded loaded] at succeeds
      cases succeeds
  | ok current =>
      have readable := loadManifestFrom_ok loaded
      by_cases stores : Stores env state.generations current op
      · left
        obtain ⟨saved, filled, new, _, _, performed⟩ := perform_of_stores readable stores
        rw [performed] at succeeds ⊢
        exact publishNew_agrees succeeds
      · right
        rw [(perform_of_not_stores readable renews stores).1]
        exact unharmed_refl state

/-- A successful `switch_generation` changes nothing, or the manifest and the link. -/
theorem switchGeneration_ok {env : Env} {target : UInt32} {state : State}
    (succeeds : (switchGeneration env target state).result = .ok ()) :
    (switchGeneration env target state).state = state ∨
      ∃ found, Selects state target found ∧
        (switchGeneration env target state).state = { state with
          manifest := .readable found.manifest
          link := some (dirName target) } := by
  unfold switchGeneration at succeeds ⊢
  cases loaded : loadManifestFrom manifestPath state.manifest with
  | error reason =>
      rw [loaded] at succeeds
      cases succeeds
  | ok current =>
      simp only [loaded] at succeeds ⊢
      cases selected : (scanGenerations state.generations).find? (·.id = target) with
      | none =>
          simp only [selected] at succeeds
          cases succeeds
      | some found =>
          have numbered : found.id = target := by simpa using List.find?_some selected
          simp only [selected, numbered] at succeeds ⊢
          by_cases same : target = current.generation.id
          · left
            simp only [same, ↓reduceIte]
            rfl
          · right
            simp only [if_neg same] at succeeds ⊢
            have chosen : Selects state target found :=
              ⟨⟨current, loadManifestFrom_ok loaded, Ne.symm same⟩, selected⟩
            cases activated : env.activate current found.manifest false with
            | error reason =>
                rw [activated] at succeeds
                cases succeeds
            | ok done => exact ⟨found, chosen, rfl⟩

/-- A successful `activate_boot` changes nothing, or the manifest. -/
theorem activateBoot_ok {env : Env} {target : UInt32} {state : State}
    (succeeds : (activateBoot env target state).result = .ok ()) :
    (activateBoot env target state).state = state ∨
      ∃ found, Selects state target found ∧
        (activateBoot env target state).state =
          { state with manifest := .readable found.manifest } := by
  unfold activateBoot at succeeds ⊢
  cases loaded : loadManifestFrom manifestPath state.manifest with
  | error reason =>
      rw [loaded] at succeeds
      cases succeeds
  | ok current =>
      simp only [loaded] at succeeds ⊢
      by_cases same : current.generation.id = target
      · left
        simp only [same, ↓reduceIte]
        rfl
      · right
        simp only [if_neg same] at succeeds ⊢
        cases selected : (scanGenerations state.generations).find? (·.id = target) with
        | none =>
            simp only [selected] at succeeds
            cases succeeds
        | some found =>
            simp only [selected] at succeeds ⊢
            have chosen : Selects state target found :=
              ⟨⟨current, loadManifestFrom_ok loaded, same⟩, selected⟩
            cases activated : env.activate current found.manifest false with
            | error reason =>
                rw [activated] at succeeds
                cases succeeds
            | ok done => exact ⟨found, chosen, rfl⟩

/-- A successful operation that is proper where it starts ends in agreement or leaves
what there is of it. -/
theorem perform_agrees_or_unharmed {env : Env} {state : State} {op : Operation}
    (proper : Proper state op) (succeeds : (perform env state op).result = .ok ()) :
    Agrees (perform env state op).state ∨ Unharmed state (perform env state op).state := by
  cases op with
  | switch newPath newFile description dryRun =>
      cases dryRun with
      | true =>
          right
          rw [perform, switch_dryRun_state]
          exact unharmed_refl state
      | false => exact renewed_agrees rfl succeeds
  | rollback target => exact renewed_agrees rfl succeeds
  | switchGeneration target =>
      rcases switchGeneration_ok succeeds with same | ⟨found, selected, published⟩
      · right
        rw [perform, same]
        exact unharmed_refl state
      · left
        obtain ⟨own, stored⟩ := proper found selected
        rw [perform, published]
        exact ⟨found.manifest, rfl, by rw [own], stored⟩
  | activateBoot target =>
      rcases activateBoot_ok succeeds with same | ⟨found, selected, published⟩
      · right
        rw [perform, same]
        exact unharmed_refl state
      · left
        obtain ⟨linked, stored⟩ := proper found selected
        rw [perform, published]
        exact ⟨found.manifest, rfl, linked, stored⟩
  | deleteGenerations roots selector dryRun =>
      right
      simp only [perform] at succeeds ⊢
      cases deleted : deleteGenerationsWith env roots selector dryRun state with
      | error reason =>
          rw [deleted] at succeeds
          cases succeeds
      | ok after => exact deleteGenerationsWith_unharmed deleted

theorem agrees_of_run {start state : State} {changed : Bool}
    (run : Run Proper start changed state) (someChange : changed = true) : Agrees state := by
  induction run with
  | start => cases someChange
  | step env op before proper succeeds ih =>
      rename_i earlier state
      rcases perform_agrees_or_unharmed proper succeeds with agrees | unharmed
      · exact agrees
      · have changedBefore : earlier = true := by simpa [unharmed.1] using someChange
        exact agrees_of_unharmed (ih changedBefore) unharmed

/-- In a run of proper operations the three agree from the first change of the current
manifest on. -/
theorem run_proper_agrees (start state : State) (run : Run Proper start true state) :
    Agrees state :=
  agrees_of_run run rfl

section Canonical

/-- Every generation that can be read is in the directory named by its own id. -/
def Canonical (dir : GenerationsDir) : Prop :=
  ∀ name manifest id, Numbered dir name (.readable manifest) id →
    name = dirName manifest.generation.id

/-- A generation is booted only where the link is there already. -/
def BootLinked (state : State) : Operation → Prop
  | .activateBoot target => ∀ found, Selects state target found →
      state.link = some (dirName target)
  | _ => True

variable {env : Env} {state : State} {op : Operation}

theorem canonical_save {dir : GenerationsDir} {manifest : Manifest} (canonical : Canonical dir) :
    Canonical (saveGeneration dir manifest) := by
  intro name found id numbered
  obtain ⟨entry, parsed⟩ := numbered
  by_cases same : name = dirName manifest.generation.id
  · subst same
    rw [saveGeneration, AList.lookup_insert] at entry
    cases entry
    rfl
  · rw [saveGeneration, AList.lookup_insert_ne same] at entry
    exact canonical name found id ⟨entry, parsed⟩

theorem canonical_deleteEach {dryRun : Bool} {ids : List UInt32} {dir : GenerationsDir}
    {roots : GcRoots} {stats : DeleteGenerationsStats} (canonical : Canonical dir) :
    Canonical (deleteEach dryRun ids dir roots stats).1 := by
  induction ids generalizing dir roots stats with
  | nil => exact canonical
  | cons id ids ih =>
      have erased : Canonical (dir.erase (dirName id)) := by
        intro name manifest number numbered
        obtain ⟨entry, parsed⟩ := numbered
        by_cases same : name = dirName id
        · subst same
          rw [AList.lookup_erase] at entry
          cases entry
        · rw [AList.lookup_erase_ne same] at entry
          exact canonical name manifest number ⟨entry, parsed⟩
      unfold deleteEach at ih ⊢
      rw [List.foldl_cons]
      cases dryRun with
      | true => exact ih canonical
      | false => exact ih erased

/-- A switch or rollback, also one that fails, stores generations under their own ids. -/
theorem canonical_renewed {current : Manifest} (canonical : Canonical state.generations)
    (readable : state.manifest = .readable current) (renews : op.renews = true) :
    Canonical (perform env state op).state.generations := by
  by_cases stores : Stores env state.generations current op
  · obtain ⟨saved, filled, new, stored, _, performed⟩ := perform_of_stores readable stores
    rw [performed, publishNew_generations]
    rcases stored with same | ⟨filled, _, same⟩
    · rw [same]
      exact canonical_save canonical
    · rw [same]
      exact canonical_save (canonical_save canonical)
  · rw [(perform_of_not_stores readable renews stores).1]
    exact canonical

theorem perform_canonical (canonical : Canonical state.generations)
    (succeeds : (perform env state op).result = .ok ()) :
    Canonical (perform env state op).state.generations := by
  cases loaded : loadManifestFrom manifestPath state.manifest with
  | error reason =>
      rw [perform_unloaded loaded] at succeeds
      cases succeeds
  | ok current =>
      have readable := loadManifestFrom_ok loaded
      cases op with
      | switch newPath newFile description dryRun =>
          cases dryRun with
          | true =>
              rw [perform, switch_dryRun_state]
              exact canonical
          | false => exact canonical_renewed canonical readable rfl
      | rollback target => exact canonical_renewed canonical readable rfl
      | switchGeneration target =>
          rcases switchGeneration_ok succeeds with same | ⟨found, _, published⟩
          · rw [perform, same]
            exact canonical
          · rw [perform, published]
            exact canonical
      | activateBoot target =>
          rcases activateBoot_ok succeeds with same | ⟨found, _, published⟩
          · rw [perform, same]
            exact canonical
          · rw [perform, published]
            exact canonical
      | deleteGenerations roots selector dryRun =>
          simp only [perform]
          cases deleted : deleteGenerationsWith env roots selector dryRun state with
          | error reason => exact canonical
          | ok after =>
              obtain ⟨_, ids, stats, _, _, same⟩ := deleteGenerationsWith_ok deleted
              show Canonical after.1.generations
              rw [same]
              exact canonical_deleteEach canonical

theorem canonical_proper (canonical : Canonical state.generations)
    (linked : BootLinked state op) : Proper state op := by
  have own : ∀ target found, Selects state target found →
      found.manifest.generation.id = target ∧ StoredAsOwn state.generations found.manifest := by
    intro target found selected
    obtain ⟨name, entry, parsed⟩ := mem_scanGenerations.mp (List.mem_of_find?_eq_some selected.2)
    have named := canonical name found.manifest found.id ⟨entry, parsed⟩
    have numbered : found.id = target := by simpa using List.find?_some selected.2
    rw [named, parseU32_dirName, Option.some.injEq, numbered] at parsed
    refine ⟨parsed, ?_⟩
    rw [StoredAsOwn, ← named]
    exact entry
  cases op with
  | switchGeneration target => exact own target
  | activateBoot target =>
      intro found selected
      obtain ⟨same, stored⟩ := own target found selected
      rw [same]
      exact ⟨linked found selected, stored⟩
  | switch newPath newFile description dryRun => trivial
  | rollback target => trivial
  | deleteGenerations roots selector dryRun => trivial

/-- Where the generations start under their own ids, only booting a generation that the
link does not point at can break the agreement. -/
theorem run_canonical_agrees {start state : State} (canonical : Canonical start.generations)
    (run : Run BootLinked start true state) : Agrees state := by
  have proper : ∀ changed state, Run BootLinked start changed state →
      Canonical state.generations ∧ Run Proper start changed state := by
    intro changed state run
    induction run with
    | start => exact ⟨canonical, .start⟩
    | step env op before linked succeeds ih =>
        obtain ⟨named, earlier⟩ := ih
        exact ⟨perform_canonical named succeeds,
          .step env op earlier (canonical_proper named linked) succeeds⟩
  exact agrees_of_run (proper true state run).2 rfl

end Canonical

/-- Generations 1 and 2 are stored, and 2 is the current one. -/
def runningTwo : State where
  generations := (AList.singleton "1" (.readable (emptyGeneration 1))).insert "2"
    (.readable (emptyGeneration 2))
  manifest := .readable (emptyGeneration 2)
  link := some "2"
  bootDefault := none

/-- Switching to generation 1 and then deleting the others. -/
theorem run_proper_agrees_one :
    ∃ state, Run Proper runningTwo true state ∧ Agrees state := by
  have proper : Proper runningTwo (.switchGeneration 1) := by
    intro found selected
    have first : found = ⟨1, emptyGeneration 1⟩ := by
      have chosen : (scanGenerations runningTwo.generations).find? (·.id = 1) =
          some ⟨1, emptyGeneration 1⟩ := rfl
      exact Option.some.inj (selected.2.symm.trans chosen)
    subst first
    exact ⟨rfl, rfl⟩
  have switched := Run.step quietEnv (.switchGeneration 1) Run.start proper rfl
  have deleted := Run.step quietEnv (.deleteGenerations ⟨∅⟩ "old" false) switched trivial rfl
  have changed : Run Proper runningTwo true _ := deleted
  exact ⟨_, changed, run_proper_agrees runningTwo _ changed⟩

/-- Booting generation 1 leaves the link at generation 2. -/
theorem activateBoot_leaves_link :
    ¬ ∀ start state : State, Run (fun _ _ => True) start true state → Agrees state := by
  intro always
  have run := Run.step quietEnv (.activateBoot 1)
    (@Run.start (fun _ _ => True) runningTwo) trivial rfl
  obtain ⟨current, readable, linked, _⟩ := always runningTwo _ run
  cases readable
  exact absurd linked (by decide +kernel)

end NixRedox.System
