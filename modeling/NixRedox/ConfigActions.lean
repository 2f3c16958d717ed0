import NixRedox.ConfigFiles
import NixRedox.FileFrames

set_option autoImplicit false

/- The update of managed files as a run of writes and removals. -/
namespace NixRedox.Activate

open NixRedox.System (FileInfo)
open FileTree (Clear Covers Done Evolved Frames Framing Ran Touched)

/-- Where a key of a manifest is, through symlinked directories. -/
def denotes (root : Location) (tree : FileTree) (key : String) : Option Location :=
  match managedFilePathAt root key with
  | .ok path => (tree.way path).map Prod.snd
  | .error _ => none

/-- The directories that the write of an inline entry makes. -/
def house (root : Location) (new : Files) (frame : FileTree) (key : String) : FileTree :=
  match inlineInfo new key, managedFilePathAt root key with
  | some _, .ok path => (frame.createDirAll path.dropLast).1
  | _, _ => frame

/-- The directories and symlinks that the keys of two manifests lead through: those of the
tree, and the directories that the update makes. -/
def housing (root : Location) (old new : Files) (tree : FileTree) : FileTree :=
  let (added, _, changed) := diffConfigFiles old new
  changed.foldl (fun frame change => house root new frame change.path)
    (added.foldl (house root new) tree.skeleton)

/-- The files once those added are written. -/
def addedState (root : Location) (old new : Files) (tree : FileTree) : Progress :=
  (diffConfigFiles old new).1.foldl (addConfigFile root new) ⟨tree, [], 0⟩

/-- A key leads to something on disk. -/
def leads (root : Location) (tree : FileTree) (key : String) : Bool :=
  match managedFilePathAt root key with
  | .ok path => tree.existsAt path
  | .error _ => false

/-- The keys that lead to something when it is their turn to be removed. -/
def foundKeys (root : Location) : Progress → List String → List String
  | _, [] => []
  | state, key :: keys =>
      let rest := foundKeys root (removeConfigFile root state key) keys
      if leads root state.tree key then key :: rest else rest

/-- The removals of an update that find something. -/
def removals (root : Location) (old new : Files) (tree : FileTree) : List String :=
  foundKeys root (addedState root old new tree) (diffConfigFiles old new).2.1

def writeDeed (root : Location) (new : Files) (frame : FileTree) (key : String) : Option Deed :=
  match inlineInfo new key, denotes root frame key with
  | some info, some location => (parseModeString info.mode).toOption.map fun mode =>
      ⟨location, some ((info.text.getD "").toUTF8, some mode)⟩
  | _, _ => none

def removeDeed (root : Location) (frame : FileTree) (key : String) : Option Deed :=
  (denotes root frame key).map fun location => ⟨location, none⟩

/-- What the update does to the files, in order. -/
def deeds (root : Location) (old new : Files) (tree : FileTree) : List Deed :=
  let frame := housing root old new tree
  let (added, _, changed) := diffConfigFiles old new
  added.filterMap (writeDeed root new frame) ++
    (removals root old new tree).filterMap (removeDeed root frame) ++
    changed.filterMap fun change => writeDeed root new frame change.path

/-- Some key that is to be removed is at the location. -/
def Removed (root : Location) (old new : Files) (tree : FileTree) (location : Location) : Prop :=
  ∃ key ∈ (diffConfigFiles old new).2.1,
    denotes root (housing root old new tree) key = some location

/-- No symlink that is to be removed is on the way to a changed inline file. -/
def Steady (root : Location) (old new : Files) (tree : FileTree) : Prop :=
  ∀ change ∈ (diffConfigFiles old new).2.2, (inlineInfo new change.path).isSome →
    ∀ path, managedFilePathAt root change.path = .ok path →
      ∃ passed location, (housing root old new tree).way path = some (passed, location) ∧
        ∀ link ∈ passed, ¬ Removed root old new tree link

section Diff

variable {old new : Files} {key : String}

theorem mem_sortedKeys {files : Files} : key ∈ sortedKeys files ↔ key ∈ files := by
  rw [sortedKeys, List.mem_insertionSort]
  exact AList.mem_keys

theorem mem_added : key ∈ (diffConfigFiles old new).1 ↔ key ∈ new ∧ old.lookup key = none := by
  simp only [diffConfigFiles, List.mem_filter, mem_sortedKeys, decide_eq_true_eq]

theorem mem_removed : key ∈ (diffConfigFiles old new).2.1 ↔ key ∈ old ∧ key ∉ new := by
  simp only [diffConfigFiles, List.mem_filter, mem_sortedKeys, decide_eq_true_eq]

/-- A change is of a key that both inventories have, with different hashes. -/
theorem mem_changed {change : ConfigChange} (member : change ∈ (diffConfigFiles old new).2.2) :
    ∃ before after, old.lookup change.path = some before ∧ new.lookup change.path = some after ∧
      before.blake3 ≠ after.blake3 := by
  obtain ⟨path, _, changed⟩ := List.mem_filterMap.mp member
  unfold changeOf at changed
  split at changed
  · rename_i after before found had
    split at changed
    · rename_i differs
      cases changed
      exact ⟨before, after, had, found, differs⟩
    · cases changed
  · cases changed

theorem mem_of_lookup {files : Files} {info : FileInfo} (found : files.lookup key = some info) :
    key ∈ files :=
  AList.lookup_isSome.mp (by rw [found]; rfl)

theorem inlineInfo_some {info : FileInfo} (found : inlineInfo new key = some info) :
    new.lookup key = some info ∧ ∃ text, info.text = some text := by
  obtain ⟨present, inline⟩ := Option.filter_eq_some_iff.mp found
  exact ⟨present, Option.isSome_iff_exists.mp inline⟩

end Diff

section Frame

variable {root : Location} {old new : Files} {key : String} {frame stage tree after : FileTree}
  {path location : Location} {passed : List Location} {gone : Location → Prop}

theorem valid_of_denotes (named : denotes root frame key = some location) :
    ∃ path passed, managedFilePathAt root key = .ok path ∧
      frame.way path = some (passed, location) := by
  unfold denotes at named
  split at named
  · rename_i path valid
    obtain ⟨⟨passed, own⟩, found, same⟩ := Option.map_eq_some_iff.mp named
    cases same
    exact ⟨path, passed, valid, found⟩
  · cases named

theorem denotes_of_way (valid : managedFilePathAt root key = .ok path)
    (found : frame.way path = some (passed, location)) : denotes root frame key = some location := by
  rw [denotes, valid]
  simp only [found]
  rfl

theorem house_evolved : Evolved gone stage (house root new stage key) := by
  unfold house
  split
  · exact FileTree.createDirAll_evolved _
  · exact .refl _ _

theorem houses_evolved {α : Type} {name : α → String} (items : List α) :
    Evolved gone stage (items.foldl (fun frame item => house root new frame (name item)) stage) := by
  induction items generalizing stage with
  | nil => exact .refl _ _
  | cons item rest ih => exact house_evolved.trans ih

theorem housing_evolved (gone : Location → Prop) :
    Evolved gone tree.skeleton (housing root old new tree) :=
  Evolved.trans (@houses_evolved root new _ _ _ id (diffConfigFiles old new).1)
    (houses_evolved (diffConfigFiles old new).2.2)

end Frame

section Steps

variable {root : Location} {old new : Files} {key : String} {frame stage tree after : FileTree}
  {gone : Location → Prop}

/-- What a step without a warning has done. -/
def StepRan (root : Location) (new : Files) (stage : FileTree) (gone : Location → Prop)
    (state next : Progress) (key : String) (act : Option Deed) : Prop :=
  state.warnings = [] ∧ (Frames gone stage state.tree →
    Ran state.tree act.toList next.tree ∧ Frames gone (house root new stage key) next.tree ∧
      ((inlineInfo new key).isSome → act.isSome))

/-- A file that was written, with its mode. -/
theorem writeInline_done {info : FileInfo} (frames : Frames gone stage tree)
    (inline : inlineInfo new key = some info)
    (later : Evolved (fun _ => False) (house root new stage key) frame)
    (clear : ∀ path, managedFilePathAt root key = .ok path → Clear gone stage path)
    (written : writeInlineConfigFileAt root key info tree = (after, .ok ())) :
    Ran tree (writeDeed root new frame key).toList after ∧
      Frames gone (house root new stage key) after ∧
      ((inlineInfo new key).isSome → (writeDeed root new frame key).isSome) := by
  unfold writeInlineConfigFileAt at written
  split at written
  · cases written
  · rename_i full valid
    have housed : house root new stage key = (stage.createDirAll full.dropLast).1 := by
      rw [house, inline, valid]
    rw [housed] at later ⊢
    split at written
    · cases written
    · rename_i made directories
      dsimp only at written
      split at written
      · cases written
      · rename_i cleared clearing
        split at written
        · cases written
        · rename_i filled filling
          split at written
          · cases written
          · rename_i mode parsed
            split at written
            · cases written
            · rename_i final setting
              cases written
              have emptied : cleared = made ∨ made.removeFile full = .ok cleared := by
                split at clearing
                · exact .inr clearing
                · exact .inl (Except.ok.inj clearing).symm
              obtain ⟨passed, location, old, found, contents, done, grown⟩ :=
                frames.put (clear full valid) directories emptied filling
              obtain ⟨own, bytes, _, placed, present, changed⟩ :=
                FileTree.setPermissions_changed setting
              obtain ⟨_, again, _⟩ := grown.toCovers.place placed
              rw [found] at again
              cases again
              rw [contents] at present
              cases present
              have named := denotes_of_way valid (later.way found fun _ _ => not_false)
              have deed : writeDeed root new frame key =
                  some ⟨location, some ((info.text.getD "").toUTF8, some mode)⟩ := by
                rw [writeDeed, inline, named]
                simp only [parsed]
                rfl
              rw [deed]
              refine ⟨.cons (done.chmod changed) (.nil _), ?_, fun _ => rfl⟩
              exact grown.written changed (FileTree.notDir_of_file contents)

/-- A step without a warning has had none before it. -/
theorem warn_ne_nil {state : Progress} {warning : String} :
    (state.warn warning).warnings ≠ [] :=
  List.append_ne_nil_of_right_ne_nil _ (List.cons_ne_nil _ _)

theorem writeManaged_quiet {failure : String} {info : FileInfo} {state : Progress}
    (quiet : (writeManaged failure root key info state).warnings = []) :
    state.warnings = [] ∧ writeInlineConfigFileAt root key info state.tree =
      ((writeManaged failure root key info state).tree, .ok ()) := by
  unfold writeManaged at quiet ⊢
  split at quiet
  · rename_i made result
    exact ⟨quiet, by rw [result]⟩
  · exact absurd quiet warn_ne_nil

theorem writeManaged_ran {failure : String} {info : FileInfo} {state : Progress}
    (inline : inlineInfo new key = some info)
    (later : Evolved (fun _ => False) (house root new stage key) frame)
    (clear : ∀ path, managedFilePathAt root key = .ok path → Clear gone stage path)
    (quiet : (writeManaged failure root key info state).warnings = []) :
    StepRan root new stage gone state (writeManaged failure root key info state) key
      (writeDeed root new frame key) := by
  obtain ⟨before, written⟩ := writeManaged_quiet quiet
  exact ⟨before, fun frames => writeInline_done frames inline later clear written⟩

/-- Nothing is done about an entry without its contents. -/
theorem stepRan_of_none {state next : Progress} (plain : inlineInfo new key = none)
    (before : state.warnings = []) (same : next.tree = state.tree) :
    StepRan root new stage gone state next key (writeDeed root new frame key) := by
  refine ⟨before, fun frames => ?_⟩
  have nothing : writeDeed root new frame key = none := by rw [writeDeed, plain]
  have unhoused : house root new stage key = stage := by rw [house, plain]
  rw [nothing, unhoused, same]
  refine ⟨.nil _, frames, ?_⟩
  rw [plain]
  exact id

theorem addConfigFile_ran {state : Progress}
    (later : Evolved (fun _ => False) (house root new stage key) frame)
    (clear : ∀ path, managedFilePathAt root key = .ok path → Clear gone stage path)
    (quiet : (addConfigFile root new state key).warnings = []) :
    StepRan root new stage gone state (addConfigFile root new state key) key
      (writeDeed root new frame key) := by
  unfold addConfigFile at quiet ⊢
  split at quiet
  · exact absurd quiet warn_ne_nil
  · split at quiet
    · rename_i info inline
      exact writeManaged_ran inline later clear quiet
    · rename_i plain
      split at quiet
      · rename_i there
        rw [if_pos there]
        exact stepRan_of_none plain quiet rfl
      · exact absurd quiet warn_ne_nil

theorem changeConfigFile_ran {blake3 : ByteArray → String} {state : Progress}
    {change : ConfigChange}
    (later : Evolved (fun _ => False) (house root new stage change.path) frame)
    (clear : (inlineInfo new change.path).isSome →
      ∀ path, managedFilePathAt root change.path = .ok path → Clear gone stage path)
    (quiet : (changeConfigFile blake3 root new state change).warnings = []) :
    StepRan root new stage gone state (changeConfigFile blake3 root new state change)
      change.path (writeDeed root new frame change.path) := by
  unfold changeConfigFile at quiet ⊢
  split at quiet
  · exact absurd quiet warn_ne_nil
  · split at quiet
    · rename_i info inline
      exact writeManaged_ran inline later (clear (by rw [inline]; rfl)) quiet
    · rename_i plain
      split at quiet
      · rename_i there
        rw [if_pos there]
        dsimp only at quiet ⊢
        split at quiet
        · rename_i matching
          rw [if_pos matching]
          exact stepRan_of_none plain quiet rfl
        · exact absurd quiet warn_ne_nil
      · rename_i absent
        rw [if_neg absent]
        exact stepRan_of_none plain quiet rfl

/-- A pass of writes without a warning. -/
theorem pass_ran {α : Type} {step : Progress → α → Progress} {name : α → String}
    (items : List α) (state : Progress) (stage : FileTree)
    (each : ∀ item ∈ items, ∀ state stage,
      Evolved (fun _ => False) (house root new stage (name item)) frame →
      (step state item).warnings = [] → StepRan root new stage gone state (step state item)
        (name item) (writeDeed root new frame (name item)))
    (later : Evolved (fun _ => False)
      (items.foldl (fun frame item => house root new frame (name item)) stage) frame)
    (quiet : (items.foldl step state).warnings = []) :
    state.warnings = [] ∧ (Frames gone stage state.tree →
      Ran state.tree (items.filterMap fun item => writeDeed root new frame (name item))
          (items.foldl step state).tree ∧
        Frames gone (items.foldl (fun frame item => house root new frame (name item)) stage)
          (items.foldl step state).tree ∧
        ∀ item ∈ items, (inlineInfo new (name item)).isSome →
          (writeDeed root new frame (name item)).isSome) := by
  induction items generalizing state stage with
  | nil => exact ⟨quiet, fun frames => ⟨.nil _, frames, nofun⟩⟩
  | cons item items ih =>
      obtain ⟨between, rest⟩ := ih (step state item) (house root new stage (name item))
        (fun other member => each other (List.mem_cons_of_mem item member)) later quiet
      obtain ⟨before, first⟩ := each item List.mem_cons_self state stage
        ((houses_evolved items).trans later) between
      refine ⟨before, fun frames => ?_⟩
      obtain ⟨done, framed, own⟩ := first frames
      obtain ⟨ran, final, others⟩ := rest framed
      refine ⟨?_, final, List.forall_mem_cons.mpr ⟨own, others⟩⟩
      have whole := done.append ran
      cases chosen : writeDeed root new frame (name item) with
      | none =>
          rw [chosen, Option.toList_none, List.nil_append] at whole
          rw [List.filterMap_cons, chosen]
          exact whole
      | some deed =>
          rw [chosen, Option.toList_some, List.singleton_append] at whole
          rw [List.filterMap_cons, chosen]
          exact whole

/-- The pass of removals without a warning. -/
theorem removals_ran (keys : List String) (state : Progress)
    (own : ∀ key ∈ keys, ∀ location, denotes root frame key = some location → gone location)
    (later : Evolved (fun _ => False) stage frame)
    (quiet : (keys.foldl (removeConfigFile root) state).warnings = []) :
    state.warnings = [] ∧ (Frames gone stage state.tree →
      Ran state.tree ((foundKeys root state keys).filterMap (removeDeed root frame))
          (keys.foldl (removeConfigFile root) state).tree ∧
        Frames gone stage (keys.foldl (removeConfigFile root) state).tree) := by
  induction keys generalizing state with
  | nil => exact ⟨quiet, fun frames => ⟨.nil _, frames⟩⟩
  | cons key keys ih =>
      obtain ⟨between, rest⟩ := ih (removeConfigFile root state key)
        (fun other member => own other (List.mem_cons_of_mem key member)) quiet
      rw [List.foldl_cons, foundKeys]
      unfold removeConfigFile at between
      split at between
      · exact absurd between warn_ne_nil
      · rename_i full valid
        have turn : leads root state.tree key = state.tree.existsAt full := by rw [leads, valid]
        rw [turn]
        split at between
        · rename_i there
          rw [if_pos there]
          split at between
          · rename_i made removed
            have next : (removeConfigFile root state key).tree = made := by
              simp only [removeConfigFile, valid, there, removed, if_true]
            refine ⟨between, fun frames => ?_⟩
            obtain ⟨passed, location, found, done, framed⟩ := frames.take (by
              intro passed location found
              exact own key List.mem_cons_self location
                (denotes_of_way valid (later.way found fun _ _ => not_false))) removed
            have deed : removeDeed root frame key = some ⟨location, none⟩ := by
              rw [removeDeed, denotes_of_way valid (later.way found fun _ _ => not_false)]
              rfl
            rw [next] at rest
            obtain ⟨ran, final⟩ := rest framed
            rw [List.filterMap_cons_some deed]
            exact ⟨.cons done ran, final⟩
          · exact absurd between warn_ne_nil
        · rename_i absent
          rw [if_neg absent]
          have next : removeConfigFile root state key = state := by
            simp only [removeConfigFile, valid, absent, if_false, Bool.false_eq_true]
          rw [next] at rest ⊢
          exact ⟨between, rest⟩

end Steps

section Update

variable {blake3 : ByteArray → String} {root : Location} {old new : Files} {tree : FileTree}

/-- What an update without a warning was. -/
structure Updated (root : Location) (old new : Files) (tree after : FileTree) : Prop where
  ran : Ran tree (deeds root old new tree) after
  frames : Frames (Removed root old new tree) (housing root old new tree) after
  added : ∃ between, Ran tree ((diffConfigFiles old new).1.filterMap
    (writeDeed root new (housing root old new tree))) between
  written : ∀ key, key ∈ (diffConfigFiles old new).1 ∨
      (∃ change ∈ (diffConfigFiles old new).2.2, change.path = key) →
    (inlineInfo new key).isSome → (writeDeed root new (housing root old new tree) key).isSome

/-- **An update without a warning is its deeds**, and its keys lead where they do in the
directories and symlinks of the tree and the directories it makes. -/
theorem activateFiles_updated (steady : Steady root old new tree)
    (quiet : (activateFiles blake3 root old new tree).warnings = []) :
    Updated root old new tree (activateFiles blake3 root old new tree).tree := by
  obtain ⟨removedQuiet, changing⟩ := @pass_ran root new (housing root old new tree)
    (Removed root old new tree) _ (changeConfigFile blake3 root new) ConfigChange.path
    (diffConfigFiles old new).2.2
    ((diffConfigFiles old new).2.1.foldl (removeConfigFile root) (addedState root old new tree))
    ((diffConfigFiles old new).1.foldl (house root new) tree.skeleton)
    (by
      intro change member state stage later quiet
      refine changeConfigFile_ran later ?_ quiet
      intro inline path valid
      obtain ⟨passed, location, found, kept⟩ := steady change member inline path valid
      exact FileTree.clear_of_way (house_evolved.trans later) found kept)
    (.refl _ _) quiet
  obtain ⟨addedQuiet, removing⟩ := @removals_ran root (housing root old new tree) _
    (Removed root old new tree) (diffConfigFiles old new).2.1 (addedState root old new tree)
    (fun key member location named => ⟨key, member, named⟩)
    (houses_evolved (diffConfigFiles old new).2.2) removedQuiet
  obtain ⟨_, adding⟩ := @pass_ran root new (housing root old new tree) (fun _ => False) _
    (addConfigFile root new) id (diffConfigFiles old new).1 ⟨tree, [], 0⟩ tree.skeleton
    (fun key _ state stage later quiet =>
      addConfigFile_ran later (fun path _ => FileTree.clear_of_none stage path) quiet)
    (houses_evolved (diffConfigFiles old new).2.2) addedQuiet
  obtain ⟨added, first, addedWritten⟩ := adding FileTree.frames_skeleton
  obtain ⟨removed, second⟩ := removing (first.mono fun _ => False.elim)
  obtain ⟨changed, final, changedWritten⟩ := changing second
  refine ⟨(added.append removed).append changed, final, ⟨_, added⟩, ?_⟩
  rintro key (listed | ⟨change, listed, rfl⟩)
  · exact addedWritten key listed
  · exact changedWritten change listed

/-- The symlinks of the frame are those of the tree. -/
theorem housing_links {location : Location} {target : List Char} :
    (housing root old new tree).nodeAt location = some (.symlink target) ↔
      tree.nodeAt location = some (.symlink target) := by
  have evolved : Evolved (fun _ => False) tree.skeleton (housing root old new tree) :=
    housing_evolved _
  constructor
  · intro found
    exact (FileTree.skeleton_nodeAt.mp (evolved.fresh location target found)).1
  · intro found
    exact evolved.links location target not_false (FileTree.skeleton_nodeAt.mpr ⟨found, rfl⟩)

/-- Only keys of the new manifest are written, and only keys of the old one removed. -/
theorem mem_deeds {deed : Deed} (member : deed ∈ deeds root old new tree) :
    (∃ key info mode, inlineInfo new key = some info ∧ parseModeString info.mode = .ok mode ∧
        denotes root (housing root old new tree) key = some deed.location ∧
        deed.put = some ((info.text.getD "").toUTF8, some mode)) ∨
      (deed.put = none ∧ ∃ key ∈ removals root old new tree,
        denotes root (housing root old new tree) key = some deed.location) := by
  have writes : ∀ key, writeDeed root new (housing root old new tree) key = some deed →
      ∃ key info mode, inlineInfo new key = some info ∧ parseModeString info.mode = .ok mode ∧
        denotes root (housing root old new tree) key = some deed.location ∧
        deed.put = some ((info.text.getD "").toUTF8, some mode) := by
    intro key written
    unfold writeDeed at written
    split at written
    · rename_i info location inline named
      cases parsed : parseModeString info.mode with
      | error reason => simp [parsed, Except.toOption] at written
      | ok mode =>
          rw [parsed] at written
          cases written
          exact ⟨key, info, mode, inline, parsed, named, rfl⟩
    · cases written
  rcases List.mem_append.mp member with early | changed
  · rcases List.mem_append.mp early with added | removed
    · obtain ⟨key, _, written⟩ := List.mem_filterMap.mp added
      exact .inl (writes key written)
    · obtain ⟨key, listed, taken⟩ := List.mem_filterMap.mp removed
      obtain ⟨location, named, same⟩ := Option.map_eq_some_iff.mp taken
      cases same
      exact .inr ⟨rfl, key, listed, named⟩
  · obtain ⟨change, _, written⟩ := List.mem_filterMap.mp changed
    exact .inl (writes change.path written)

theorem foundKeys_sublist (keys : List String) (state : Progress) :
    (foundKeys root state keys).Sublist keys := by
  induction keys generalizing state with
  | nil => exact .slnil
  | cons key keys ih =>
      rw [foundKeys]
      split
      · exact (ih _).cons_cons key
      · exact (ih _).cons key

theorem mem_removals {key : String} (member : key ∈ removals root old new tree) :
    key ∈ old ∧ key ∉ new :=
  mem_removed.mp ((foundKeys_sublist _ _).subset member)

/-- An inline file that was not there, or had another hash, is written. -/
theorem touched_of_new {key : String} {info : FileInfo} {location : Location} {mode : Nat}
    (inline : inlineInfo new key = some info) (parsed : parseModeString info.mode = .ok mode)
    (named : denotes root (housing root old new tree) key = some location)
    (differs : ∀ before, old.lookup key = some before → before.blake3 ≠ info.blake3) :
    Touched (deeds root old new tree) location := by
  obtain ⟨listed, _⟩ := inlineInfo_some inline
  have deed : writeDeed root new (housing root old new tree) key =
      some ⟨location, some ((info.text.getD "").toUTF8, some mode)⟩ := by
    rw [writeDeed, inline, named]
    simp only [parsed]
    rfl
  apply FileTree.touched_iff.mpr
  refine ⟨⟨location, some ((info.text.getD "").toUTF8, some mode)⟩, ?_, rfl⟩
  cases before : old.lookup key with
  | none =>
      apply List.mem_append_left
      apply List.mem_append_left
      exact List.mem_filterMap.mpr ⟨key, mem_added.mpr ⟨mem_of_lookup listed, before⟩, deed⟩
  | some was =>
      apply List.mem_append_right
      refine List.mem_filterMap.mpr ⟨⟨key, was.blake3, info.blake3⟩, ?_, deed⟩
      refine List.mem_filterMap.mpr ⟨key, mem_sortedKeys.mpr (mem_of_lookup listed), ?_⟩
      rw [changeOf, listed, before]
      exact if_pos (differs was before)

end Update

end NixRedox.Activate
