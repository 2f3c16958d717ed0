import NixRedox.ConfigFiles
import NixRedox.EtcSetup
import NixRedox.StepRuns

set_option autoImplicit false

/- Files in `/etc` whose contents are fields of the manifest (`activate.rs`, steps 3b and
3c): the symlink farm is set up first, then the files of the fields that changed are
written. -/
namespace NixRedox.Activate

open FileTree (Changed Spared maxLinks)

/-- The parts of a manifest that these steps read. -/
structure EtcManifest where
  hostname : String
  timezone : String
  dns : List String
  etcSource : Option (List Char)
  deriving DecidableEq

def writeManifestDerivedFileAt (root path : Location) (contents : ByteArray) (tree : FileTree) :
    Attempt :=
  match tree.createDirAll (root ++ path).dropLast with
  | (tree, .error reason) => (tree, .error reason)
  | (tree, .ok ()) =>
      let cleared :=
        match tree.symlinkMetadata (root ++ path) with
        | some (.symlink _) => tree.removeFile (root ++ path)
        | _ => .ok tree
      match cleared with
      | .error reason => (tree, .error reason)
      | .ok tree =>
          match tree.write (root ++ path) contents with
          | .error reason => (tree, .error reason)
          | .ok tree => (tree, .ok ())

/-- The file of one field, written when the field has changed. -/
def writeChangedField (root path : Location) (shown : String) (changed : Bool) (contents : String)
    (state : Progress) : Progress :=
  if changed then
    match writeManifestDerivedFileAt root path contents.toUTF8 state.tree with
    | (tree, .ok ()) => { state with tree, updated := state.updated + 1 }
    | (tree, .error reason) =>
        Progress.warn { state with tree } ("failed to write " ++ shown ++ ": " ++ reason)
  else
    state

def hostnamePath : Location := ["etc".toList, "hostname".toList]

def timezonePath : Location := ["etc".toList, "timezone".toList]

def dnsPath : Location := ["etc".toList, "net".toList, "dns".toList]

def writeManifestDerivedFilesAt (root : Location) (old new : EtcManifest) (state : Progress) :
    Progress :=
  let state := writeChangedField root hostnamePath "/etc/hostname"
    (old.hostname ≠ new.hostname) new.hostname state
  let state := writeChangedField root timezonePath "/etc/timezone"
    (old.timezone ≠ new.timezone) new.timezone state
  writeChangedField root dnsPath "/etc/net/dns"
    (old.dns ≠ new.dns) (String.intercalate "\n" new.dns) state

/-- Step 3b. -/
def setupEtcSource (etcSource : Option (List Char)) (tree : FileTree) : Progress :=
  match etcSource with
  | none => ⟨tree, [], 0⟩
  | some source =>
      match setupEtcStatic source tree with
      | (tree, .ok ()) => ⟨tree, [], 0⟩
      | (tree, .error reason) => ⟨tree, ["/etc/static setup failed: " ++ reason], 0⟩

/-- Steps 3b and 3c of an activation. -/
def activateEtc (old new : EtcManifest) (tree : FileTree) : Progress :=
  writeManifestDerivedFilesAt [] old new (setupEtcSource new.etcSource tree)

/-- One activation, if it reports no warning. -/
def activateQuietly (state : FileTree × EtcManifest) (new : EtcManifest) :
    Option (FileTree × EtcManifest) :=
  let done := activateEtc state.2 new state.1
  if done.warnings = [] then some (done.tree, new) else none

inductive Field where
  | hostname
  | timezone
  | dns
  deriving DecidableEq

namespace Field

/-- Where the file of a field is below `/etc`. -/
def names : Field → Location
  | hostname => ["hostname".toList]
  | timezone => ["timezone".toList]
  | dns => ["net".toList, "dns".toList]

def path (field : Field) : Location := etcPath ++ field.names

def shown : Field → String
  | hostname => "/etc/hostname"
  | timezone => "/etc/timezone"
  | dns => "/etc/net/dns"

def text (manifest : EtcManifest) : Field → String
  | hostname => manifest.hostname
  | timezone => manifest.timezone
  | dns => String.intercalate "\n" manifest.dns

def changed (old new : EtcManifest) : Field → Bool
  | hostname => old.hostname ≠ new.hostname
  | timezone => old.timezone ≠ new.timezone
  | dns => old.dns ≠ new.dns

theorem path_injective {one two : Field} (same : one.path = two.path) : one = two := by
  revert same
  cases one <;> cases two <;> decide

theorem text_eq {old new : EtcManifest} {field : Field} (kept : field.changed old new = false) :
    field.text old = field.text new := by
  cases field with
  | hostname => simpa [changed, text] using kept
  | timezone => simpa [changed, text] using kept
  | dns =>
      have same : old.dns = new.dns := by simpa [changed] using kept
      rw [text, text, same]

end Field

/-- The three files have the texts of the manifest. -/
def Reads (state : FileTree × EtcManifest) : Prop :=
  ∀ field : Field, state.1.read field.path = some (field.text state.2).toUTF8

/-- The directories of the three files are directories, not symlinks. -/
structure DirsInPlace (tree : FileTree) : Prop where
  etc : tree.nodeAt etcPath = some .dir
  net : tree.nodeAt (etcPath ++ ["net".toList]) = some .dir

/-- A path is read without passing or ending in some locations. -/
def Undisturbed (touched : Location → Prop) (tree : FileTree) (path : Location) : Prop :=
  ∃ passed last, tree.resolve maxLinks [] (path.map .normal) = some (passed, last) ∧
    ∀ location ∈ last :: passed, ¬ touched location

/-- The files of the fields that change. -/
def Rewritten (old new : EtcManifest) (location : Location) : Prop :=
  ∃ field : Field, field.changed old new = true ∧ location = field.path

/-- What the setup of the farm replaces or takes away. -/
def Refarmed (source : StorePath) (tree : FileTree) (location : Location) : Prop :=
  etcStaticPath <+: location ∨ ∃ names, location = etcPath ++ names ∧
    (IsFile (sourceNode source tree names) ∨ Loose source tree location)

/-- The file of a field is left as it is by an activation, or is linked to a file with
the same text. -/
def Lasting (state : FileTree × EtcManifest) (new : EtcManifest) (field : Field) : Prop :=
  match new.etcSource with
  | none => Undisturbed (Rewritten state.2 new) state.1 field.path
  | some text => ∃ source : StorePath, text = source.toAbsolutePath ∧ Stored source state.1 ∧
      Straight source state.1 ∧
      ((∃ mode, sourceNode source state.1 field.names =
          some (.file (field.text new).toUTF8 mode)) ∨
        state.1.nodeAt etcStaticPath ≠ some .dir ∧
          Undisturbed (fun location => Refarmed source state.1 location ∨
            Rewritten state.2 new location) state.1 field.path)

/-- The condition on an activation: it is about the fields that do not change. -/
def Careful (state : FileTree × EtcManifest) (new : EtcManifest) : Prop :=
  ∀ field : Field, field.changed state.2 new = false → Lasting state new field

section Writes

variable {tree after : FileTree} {directory : Location} {name : List Char} {contents : ByteArray}
  {old new : EtcManifest} {field other : Field}

/-- The file takes the place of what was there, a symlink included. -/
theorem writeManifestDerivedFileAt_changed (inside : tree.nodeAt directory = some .dir)
    (ran : writeManifestDerivedFileAt [] (directory ++ [name]) contents tree = (after, .ok ())) :
    tree.nodeAt (directory ++ [name]) ≠ some .dir ∧
      ∃ mode, Changed tree after (directory ++ [name]) (some (.file contents mode)) := by
  have way := @FileTree.way_dir tree directory name inside
  unfold writeManifestDerivedFileAt at ran
  rw [List.nil_append, List.dropLast_concat, FileTree.createDirAll_dir inside] at ran
  dsimp only at ran
  rw [FileTree.symlinkMetadata_dir inside] at ran
  split at ran
  · cases ran
  · rename_i cleared clearing
    split at ran
    · cases ran
    · rename_i final written
      cases ran
      split at clearing
      · -- the symlink goes first
        obtain ⟨leaf, gone⟩ := FileTree.removeFile_ok way clearing
        have still : cleared.nodeAt directory = some .dir := by
          rw [gone, if_neg (by simp)]
          exact inside
        obtain ⟨_, mode, changed⟩ := FileTree.write_ok (FileTree.way_dir still) written
        refine ⟨leaf, mode, ?_⟩
        intro location
        rw [changed location, gone location]
        split
        · rfl
        · rfl
      · cases clearing
        exact FileTree.write_ok way written

/-- A path is read, without some locations, with the given contents. -/
def Reading (touched : Location → Prop) (tree : FileTree) (path : Location)
    (contents : ByteArray) : Prop :=
  ∃ passed last mode, tree.resolve maxLinks [] (path.map .normal) = some (passed, last) ∧
    tree.nodeAt last = some (.file contents mode) ∧
    ∀ location ∈ last :: passed, ¬ touched location

theorem Reading.read {touched : Location → Prop} {path : Location}
    (reading : Reading touched tree path contents) : tree.read path = some contents := by
  obtain ⟨passed, last, mode, resolved, file, _⟩ := reading
  rw [FileTree.read, FileTree.follow, resolved, Option.map_some, Option.bind_some, file]

theorem Undisturbed.reading {touched : Location → Prop} {path : Location}
    (undisturbed : Undisturbed touched tree path) (read : tree.read path = some contents) :
    Reading touched tree path contents := by
  obtain ⟨passed, last, resolved, spared⟩ := undisturbed
  rw [FileTree.read, FileTree.follow, resolved, Option.map_some, Option.bind_some] at read
  split at read
  · rename_i mode file
    cases read
    exact ⟨passed, last, mode, resolved, file, spared⟩
  · cases read

theorem Reading.mono {touched fewer : Location → Prop} {path : Location}
    (reading : Reading touched tree path contents) (less : ∀ location, fewer location →
      touched location) : Reading fewer tree path contents := by
  obtain ⟨passed, last, mode, resolved, file, spared⟩ := reading
  exact ⟨passed, last, mode, resolved, file,
    fun location member own => spared location member (less location own)⟩

theorem Reading.spared {touched : Location → Prop} {path : Location}
    (reading : Reading touched tree path contents) (spared : Spared touched tree after) :
    Reading touched after path contents := by
  obtain ⟨passed, last, mode, resolved, file, clear⟩ := reading
  have end_ := clear last List.mem_cons_self
  refine ⟨passed, last, mode, ?_, ?_, clear⟩
  · apply spared.resolve resolved end_
    intro link member
    exact clear link (List.mem_cons_of_mem last member)
  · rw [spared.others last end_ (by rw [file]; simp)]
    exact file

/-- The files of the other fields that change. -/
def RewrittenFor (old new : EtcManifest) (field : Field) (location : Location) : Prop :=
  ∃ other : Field, other ≠ field ∧ other.changed old new = true ∧ location = other.path

theorem DirsInPlace.parent (inPlace : DirsInPlace tree) (field : Field) :
    ∃ directory name, field.path = directory ++ [name] ∧ tree.nodeAt directory = some .dir := by
  cases field with
  | hostname => exact ⟨etcPath, "hostname".toList, rfl, inPlace.etc⟩
  | timezone => exact ⟨etcPath, "timezone".toList, rfl, inPlace.etc⟩
  | dns => exact ⟨etcPath ++ ["net".toList], "dns".toList, rfl, inPlace.net⟩

theorem DirsInPlace.spared {touched : Location → Prop} (inPlace : DirsInPlace tree)
    (spared : Spared touched tree after) : DirsInPlace after :=
  ⟨spared.dirs _ inPlace.etc, spared.dirs _ inPlace.net⟩

/-- Writing the file of a field: it can be read, and the others as before. -/
theorem writeField_reading (inPlace : DirsInPlace tree)
    (ran : writeManifestDerivedFileAt [] field.path contents tree = (after, .ok ())) :
    Spared (· = field.path) tree after ∧
      Reading (RewrittenFor old new field) after field.path contents := by
  obtain ⟨directory, name, path, inside⟩ := inPlace.parent field
  rw [path] at ran
  obtain ⟨leaf, mode, changed⟩ := writeManifestDerivedFileAt_changed inside ran
  rw [← path] at leaf changed
  refine ⟨changed.spared leaf, [], field.path, mode, ?_, by rw [changed, if_pos rfl], ?_⟩
  · have still : after.nodeAt directory = some .dir := (changed.spared leaf).dirs _ inside
    have found : after.nodeAt (directory ++ [name]) = some (.file contents mode) := by
      rw [← path, changed, if_pos rfl]
    have unlinked := (FileTree.unlinked_of_dir (show after.nodeAt ([] ++ directory) = _ from
      still)).concat (show ∀ target, after.nodeAt ([] ++ (directory ++ [name])) ≠ _ by simp [found])
    rw [path, FileTree.resolve_unlinked (FileTree.nodeAt_nil after) unlinked, List.nil_append,
      found, if_neg (Option.some_ne_none _)]
  · intro location member
    rw [List.mem_singleton.mp member]
    rintro ⟨other, differs, _, same⟩
    exact differs (Field.path_injective same).symm

theorem writeChangedField_quiet {root path : Location} {shown text : String} {changed : Bool}
    {state : Progress}
    (quiet : (writeChangedField root path shown changed text state).warnings = []) :
    state.warnings = [] ∧
      (changed = false ∧ writeChangedField root path shown changed text state = state ∨
        changed = true ∧ writeManifestDerivedFileAt root path text.toUTF8 state.tree =
          ((writeChangedField root path shown changed text state).tree, .ok ())) := by
  unfold writeChangedField at quiet ⊢
  cases changed with
  | false => exact ⟨quiet, .inl ⟨rfl, rfl⟩⟩
  | true =>
      simp only [if_true] at quiet ⊢
      split at quiet
      · rename_i tree written
        exact ⟨quiet, .inr ⟨trivial, written⟩⟩
      · simp [Progress.warn] at quiet

def writeFields (old new : EtcManifest) (fields : List Field) (state : Progress) : Progress :=
  fields.foldl (fun state field => writeChangedField [] field.path field.shown
    (field.changed old new) (field.text new) state) state

theorem writeFields_quiet {fields : List Field} {state : Progress}
    (quiet : (writeFields old new fields state).warnings = []) : state.warnings = [] := by
  induction fields generalizing state with
  | nil => exact quiet
  | cons first rest ih => exact (writeChangedField_quiet (ih quiet)).1

/-- One field: its file can be read if it is written, and the others as before. -/
theorem writeChangedField_reading {state next : Progress} (inPlace : DirsInPlace state.tree)
    (ran : writeChangedField [] field.path field.shown (field.changed old new) (field.text new)
      state = next) (quiet : next.warnings = []) :
    DirsInPlace next.tree ∧
      (Reading (RewrittenFor old new field) state.tree field.path (field.text new).toUTF8 ∨
        field.changed old new = true →
          Reading (RewrittenFor old new field) next.tree field.path (field.text new).toUTF8) ∧
      ∀ other : Field, other ≠ field →
        Reading (RewrittenFor old new other) state.tree other.path (other.text new).toUTF8 →
          Reading (RewrittenFor old new other) next.tree other.path (other.text new).toUTF8 := by
  subst ran
  rcases (writeChangedField_quiet quiet).2 with ⟨unchanged, same⟩ | ⟨changed, written⟩
  · rw [same, unchanged]
    exact ⟨inPlace, fun reading => reading.resolve_right (by simp), fun _ _ reading => reading⟩
  · obtain ⟨spared, reading⟩ := @writeField_reading _ _ _ old new _ inPlace written
    refine ⟨inPlace.spared spared, fun _ => reading, ?_⟩
    intro other differs before
    apply before.spared
    apply spared.mono
    intro location own
    exact ⟨field, differs.symm, changed, own⟩

/-- The files that are left as they are and those that are written can be read at the
end. -/
theorem writeFields_reading {fields : List Field} {state : Progress}
    (inPlace : DirsInPlace state.tree) (quiet : (writeFields old new fields state).warnings = [])
    (ready : ∀ field : Field, field.changed old new = false ∨ field ∉ fields →
      Reading (RewrittenFor old new field) state.tree field.path (field.text new).toUTF8) :
    DirsInPlace (writeFields old new fields state).tree ∧
      ∀ field : Field, Reading (RewrittenFor old new field) (writeFields old new fields state).tree
        field.path (field.text new).toUTF8 := by
  induction fields generalizing state with
  | nil => exact ⟨inPlace, fun field => ready field (.inr List.not_mem_nil)⟩
  | cons first rest ih =>
      obtain ⟨nextInPlace, own, others⟩ :=
        writeChangedField_reading inPlace rfl (writeFields_quiet quiet)
      apply ih nextInPlace quiet
      intro field waiting
      by_cases same : field = first
      · subst same
        apply own
        by_cases changed : field.changed old new = true
        · exact .inr changed
        · exact .inl (ready field (.inl (by simpa using changed)))
      · apply others field same
        apply ready field
        rcases waiting with unchanged | later
        · exact .inl unchanged
        · exact .inr (by simpa [same] using later)

end Writes

section Setup

variable {source : StorePath} {tree start linked after : FileTree}

/-- What the setup leaves alone. -/
theorem Stages.spared (stages : Stages source tree start linked after)
    (leaf : tree.nodeAt etcStaticPath ≠ some .dir) : Spared (Refarmed source tree) tree after where
  dirs := by
    intro location inside
    have apart : ¬ etcStaticPath <+: location := by
      intro front
      by_cases same : location = etcStaticPath
      · rw [same] at inside
        exact leaf inside
      · rw [nodeAt_below leaf front same] at inside
        cases inside
    apply stages.swept.dirs
    apply stages.made.dirs
    rw [stages.repointed.outside apart]
    exact inside
  others := by
    intro location outside there
    have apart : ¬ etcStaticPath <+: location := fun front => outside (.inl front)
    have same := stages.repointed.outside apart
    have early : linked.nodeAt location = tree.nodeAt location := by
      rcases stages.made location with kept | ⟨names, rfl, ⟨_, free, _⟩ | ⟨file, _, _⟩⟩
      · exact kept.trans same
      · exact absurd (same.symm.trans free) there
      · rw [sourceNode, stages.repointed.store] at file
        exact absurd (.inr ⟨names, rfl, .inl file⟩) outside
    rcases stages.swept location with kept | ⟨names, rfl, _, ⟨target, found, lead, nothing⟩, _⟩
    · exact kept.trans early
    · refine absurd (.inr ⟨names, rfl, .inr ⟨target, early.symm.trans found, lead, ?_⟩⟩) outside
      intro own farmed
      rw [← stages.sourceNode_eq]
      exact nothing own farmed

/-- A file of the derivation is read through its link and `/etc/static`. -/
theorem Stages.reading (stages : Stages source tree start linked after) {old new : EtcManifest}
    {field : Field} {contents : ByteArray} {mode : Nat}
    (file : sourceNode source tree field.names = some (.file contents mode)) :
    Reading (RewrittenFor old new field) after field.path contents := by
  have below : field.names ≠ [] := by cases field <;> decide
  have proper : ∀ name ∈ field.names, UnixPath.Proper name := by cases field <;> decide
  have isFile : IsFile (sourceNode source tree field.names) := ⟨contents, mode, file⟩
  obtain ⟨target, found, leads⟩ := stages.files field.names below isFile
  have farmed : Farmed field.names target := leads.trans (farmed_absoluteText proper)
  have sourceEq : sourceNode source after field.names = sourceNode source tree field.names :=
    (stages.swept.sourceNode_eq _).trans (stages.sourceNode_eq _)
  have resolved := (stages.swept.standing stages.standing).resolve_link below
    (stages.link found farmed isFile) farmed (by rw [sourceEq]; exact isFile)
  refine ⟨_, _, mode, resolved, sourceEq.trans file, ?_⟩
  rintro location member ⟨other, differs, _, same⟩
  simp only [List.mem_cons, List.not_mem_nil, or_false] at member
  rcases member with rfl | rfl | rfl
  · exact storeLocation_apart source _ ⟨_, same.symm⟩
  · exact differs (Field.path_injective same).symm
  · revert same
    cases other <;> decide

end Setup

/-- The files of the fields that do not change are read after the setup. -/
theorem setup_reading {state : FileTree × EtcManifest} {new : EtcManifest} {field : Field}
    (inPlace : DirsInPlace state.1) (reads : Reads state)
    (unchanged : field.changed state.2 new = false) (lasting : Lasting state new field)
    (quiet : (setupEtcSource new.etcSource state.1).warnings = []) :
    Reading (RewrittenFor state.2 new field) (setupEtcSource new.etcSource state.1).tree
      field.path (field.text new).toUTF8 := by
  have before := reads field
  rw [Field.text_eq unchanged] at before
  have others : ∀ location, RewrittenFor state.2 new field location →
      Rewritten state.2 new location := by
    rintro location ⟨other, _, changed, same⟩
    exact ⟨other, changed, same⟩
  unfold Lasting at lasting
  cases origin : new.etcSource with
  | none =>
      rw [origin] at lasting
      exact (lasting.reading before).mono others
  | some text =>
      rw [origin] at lasting quiet
      obtain ⟨source, rfl, stored, straight, settled⟩ := lasting
      unfold setupEtcSource at quiet ⊢
      dsimp only at quiet ⊢
      split at quiet
      · rename_i after ran
        obtain ⟨start, linked, stages⟩ := setupEtcStatic_stages inPlace.etc stored straight ran
        rcases settled with ⟨mode, file⟩ | ⟨leaf, undisturbed⟩
        · exact stages.reading file
        · have reading := undisturbed.reading before
          have later : Reading (fun location => Refarmed source state.1 location ∨
              Rewritten state.2 new location) after field.path (field.text new).toUTF8 :=
            reading.spared ((stages.spared leaf).mono fun location own => .inl own)
          exact later.mono fun location own => .inr (others location own)
      · cases quiet

theorem setup_inPlace {tree : FileTree} (etcSource : Option (List Char))
    (inPlace : DirsInPlace tree) : DirsInPlace (setupEtcSource etcSource tree).tree := by
  cases etcSource with
  | none => exact inPlace
  | some source =>
      have etc := @setupEtcStatic_dirs source tree inPlace.etc etcPath inPlace.etc (by decide)
      have net := @setupEtcStatic_dirs source tree inPlace.etc _ inPlace.net (by decide)
      unfold setupEtcSource
      dsimp only
      split
      · rename_i after ran
        rw [ran] at etc net
        exact ⟨etc, net⟩
      · rename_i after reason ran
        rw [ran] at etc net
        exact ⟨etc, net⟩

/-- One activation keeps the files. -/
theorem activateQuietly_keeps {state next : FileTree × EtcManifest} {new : EtcManifest}
    (inPlace : DirsInPlace state.1) (reads : Reads state) (careful : Careful state new)
    (ran : activateQuietly state new = some next) : DirsInPlace next.1 ∧ Reads next := by
  unfold activateQuietly at ran
  dsimp only at ran
  split at ran
  · rename_i quiet
    cases ran
    have written : (writeFields state.2 new [.hostname, .timezone, .dns]
        (setupEtcSource new.etcSource state.1)).warnings = [] := quiet
    obtain ⟨still, reading⟩ := writeFields_reading (setup_inPlace new.etcSource inPlace) written (by
      intro field waiting
      have unchanged : field.changed state.2 new = false := by
        rcases waiting with unchanged | absent
        · exact unchanged
        · exact absurd (by cases field <;> decide) absent
      exact setup_reading inPlace reads unchanged (careful field unchanged)
        (writeFields_quiet written))
    exact ⟨still, fun field => (reading field).read⟩
  · cases ran

/-- The files of the manifest survive every run of activations without warnings in which
no file of an unchanged field is disturbed. -/
theorem manifest_files_survive {start : FileTree × EtcManifest} {manifests : List EtcManifest}
    (inPlace : DirsInPlace start.1) (reads : Reads start)
    (careful : StepRuns.EachMeets activateQuietly Careful start manifests) :
    StepRuns.Throughout activateQuietly Reads start manifests := by
  have always := @StepRuns.throughout_of_eachMeets _ _ activateQuietly
    (fun state => DirsInPlace state.1 ∧ Reads state) Careful
    (fun state new next holds condition ran =>
      activateQuietly_keeps holds.1 holds.2 condition ran) start manifests ⟨inPlace, reads⟩ careful
  intro done rest reached split run
  exact (always done rest reached split run).2

theorem activateQuietly_quiet {state : FileTree × EtcManifest} {new : EtcManifest}
    (quiet : (activateEtc state.2 new state.1).warnings = []) :
    activateQuietly state new = some ((activateEtc state.2 new state.1).tree, new) :=
  if_pos quiet

/-- The three files, and an etc derivation with one file. -/
def hostEntries (name : List Char) : List (Location × Node) :=
  [(etcPath, .dir), (hostnamePath, .file "a".toUTF8 0o644), (timezonePath, .file "UTC".toUTF8 0o644),
    (etcPath ++ ["net".toList], .dir), (dnsPath, .file "".toUTF8 0o644),
    (["nix".toList], .dir), (["nix".toList, "store".toList], .dir),
    (storeLocation newEtc, .dir), (storeLocation newEtc ++ etcPath, .dir),
    (storeLocation newEtc ++ (etcPath ++ [name]), .file "c".toUTF8 0o444)]

def hostTree (name : List Char) (distinct : ((hostEntries name).map Prod.fst).Nodup)
    (closed : ∀ entry ∈ hostEntries name, entry.1 ≠ [] ∧
      (entry.1.dropLast = [] ∨ (entry.1.dropLast, .dir) ∈ hostEntries name)) : FileTree :=
  FileTree.ofEntries (hostEntries name) distinct closed

/-- The derivation has `etc/q`. -/
def strangerTree : FileTree := hostTree ['q'] (by decide +kernel) (by decide +kernel)

/-- The derivation has `etc/hostname`. -/
def rivalTree : FileTree := hostTree "hostname".toList (by decide +kernel) (by decide +kernel)

def hostManifest (hostname timezone : String) (etcSource : Option (List Char)) : EtcManifest where
  hostname := hostname
  timezone := timezone
  dns := []
  etcSource := etcSource

/-- The hostname `b`, and the derivation that has another one. -/
def rivalManifest : EtcManifest := hostManifest "b" "UTC" (some newEtc.toAbsolutePath)

theorem rivalTree_reads : Reads (rivalTree, hostManifest "a" "UTC" none) := by
  intro field
  cases field <;> decide +kernel

/-- The farm takes the place of the hostname that was written, and the writer sees no
change: the second activation after a change goes wrong. -/
theorem hostname_replaced_by_link : ¬ ∀ (start : FileTree × EtcManifest)
    (manifests : List EtcManifest), Reads start →
      StepRuns.Throughout activateQuietly Reads start manifests := by
  intro always
  have first : (activateEtc (hostManifest "a" "UTC" none) rivalManifest rivalTree).warnings = [] := by
    decide +kernel
  have second : (activateEtc rivalManifest rivalManifest (activateEtc (hostManifest "a" "UTC" none)
      rivalManifest rivalTree).tree).warnings = [] := by
    decide +kernel
  have run : StepRuns.runAll activateQuietly (rivalTree, hostManifest "a" "UTC" none)
      [rivalManifest, rivalManifest] = some ((activateEtc rivalManifest rivalManifest
        (activateEtc (hostManifest "a" "UTC" none) rivalManifest rivalTree).tree).tree,
          rivalManifest) := by
    simp only [StepRuns.runAll]
    rw [activateQuietly_quiet first, Option.bind_some, activateQuietly_quiet second,
      Option.bind_some]
  have reads := always _ _ rivalTree_reads _ [] _ (List.append_nil _) run
  have read := reads .hostname
  revert read
  decide +kernel

/-- What the nodes of the tree are, and what is not in the derivation. -/
theorem strangerTree_facts :
    (∀ entry ∈ strangerTree.nodes.entries,
      entry.2.isSymlink = false ∧ (storeLocation newEtc ++ etcPath <+: entry.1 → entry.2 = .dir →
        entry.1 = storeLocation newEtc ++ etcPath)) ∧
    sourceNode newEtc strangerTree ["static".toList] = none ∧
    ∀ field ∈ [Field.hostname, .timezone, .dns],
      strangerTree.resolve maxLinks [] (field.path.map .normal) = some ([], field.path) ∧
      sourceNode newEtc strangerTree field.names = none := by
  decide +kernel

theorem strangerTree_nodes {location : Location} {node : Node}
    (found : strangerTree.nodeAt location = some node) :
    node.isSymlink = false ∧ (storeLocation newEtc ++ etcPath <+: location → node = .dir →
      location = storeLocation newEtc ++ etcPath) := by
  obtain ⟨listed, -⟩ := strangerTree_facts
  rcases FileTree.nodeAt_eq_some.mp found with ⟨rfl, rfl⟩ | member
  · decide
  · exact listed _ member

theorem strangerTree_straight : Straight newEtc strangerTree := by
  obtain ⟨-, static, -⟩ := strangerTree_facts
  apply Straight.of_flat static
  intro location directory below
  exact (strangerTree_nodes directory).2 below rfl

theorem strangerTree_undisturbed {field : Field} (kept : field ≠ .timezone) :
    Undisturbed (fun location => Refarmed newEtc strangerTree location ∨
      Rewritten (hostManifest "a" "UTC" none)
        (hostManifest "a" "CET" (some newEtc.toAbsolutePath)) location) strangerTree field.path := by
  obtain ⟨-, -, each⟩ := strangerTree_facts
  obtain ⟨direct, absent⟩ := each field (by cases field <;> decide)
  refine ⟨[], field.path, direct, ?_⟩
  intro location member
  rw [List.mem_singleton.mp member]
  rintro ((front | ⟨names, same, file | ⟨target, found, _⟩⟩) | ⟨other, changed, same⟩)
  · revert front
    cases field <;> decide
  · have own := List.append_cancel_left same
    rw [← own] at file
    exact file.ne_none absent
  · exact absurd (strangerTree_nodes found).1 (by simp [Node.isSymlink])
  · rw [Field.path_injective same] at kept
    cases other with
    | hostname => simp [Field.changed, hostManifest] at changed
    | timezone => exact kept rfl
    | dns => simp [Field.changed, hostManifest] at changed

/-- A change of the timezone with a derivation that has none of the files. -/
theorem manifest_files_survive_stranger :
    StepRuns.Throughout activateQuietly Reads (strangerTree, hostManifest "a" "UTC" none)
      [hostManifest "a" "CET" (some newEtc.toAbsolutePath)] := by
  have inPlace : DirsInPlace strangerTree := ⟨by decide +kernel, by decide +kernel⟩
  have reads : Reads (strangerTree, hostManifest "a" "UTC" none) := by
    intro field
    cases field <;> decide +kernel
  have stored : Stored newEtc strangerTree :=
    stored_of_entries (by decide +kernel) (by decide +kernel)
  refine manifest_files_survive inPlace reads
    (StepRuns.eachMeets_cons.mpr ⟨?_, fun next _ => StepRuns.eachMeets_nil⟩)
  intro field unchanged
  refine ⟨newEtc, rfl, stored, strangerTree_straight, .inr ⟨by decide +kernel, ?_⟩⟩
  apply strangerTree_undisturbed
  rintro rfl
  revert unchanged
  decide

end NixRedox.Activate
