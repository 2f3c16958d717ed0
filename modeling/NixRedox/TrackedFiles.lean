import NixRedox.ConfigConverge
import NixRedox.DerivedFiles
import NixRedox.FileTrails
import NixRedox.BootUnits

set_option autoImplicit false

/- `snix system verify`, and the inventory of a manifest through a rebuild on the spot. -/
namespace NixRedox.Tracked

open Activate
open FileTree (Done Evolved Frames Ran Rests Touched lastDeed maxLinks)
open NixRedox.System (FileInfo)
open NixRedox.Rebuild (RebuildConfig mem_sortedEntries mergeConfig sortedEntries)

section Verify

variable (blake3 : ByteArray → String) (tree : FileTree)

inductive FileCheck where
  | ok
  | missing
  | changed (expected got : String)
  | error (reason : String)
  deriving DecidableEq, Repr

/-- `Path::new("/").join(path)`. -/
def fullPath (path : String) : UnixPath.PathBuf :=
  UnixPath.components (UnixPath.join ['/'] path.toList)

def checkFile (path : String) (expected : FileInfo) : FileCheck :=
  match tree.followPath (fullPath path) with
  | none => .missing
  | some location =>
      match tree.nodeAt location with
      | some (.file contents _) =>
          if blake3 contents = expected.blake3 then .ok
          else .changed expected.blake3 (blake3 contents)
      | _ => .error "Is a directory (os error 21)"

def firstTwelve (hash : String) : String := String.ofList (hash.toList.take 12)

def FileCheck.issue (path : String) : FileCheck → Option String
  | .ok => none
  | .missing => some ("  MISSING  " ++ path)
  | .changed expected got => some ("  CHANGED  " ++ path ++ "  (expected " ++
      firstTwelve expected ++ "…, got " ++ firstTwelve got ++ "…)")
  | .error reason => some ("  ERROR    " ++ path ++ ": " ++ reason)

/-- The paths with what is found there, in the order of the paths. -/
def checks (files : Files) : List (String × FileCheck) :=
  (sortedEntries files).map fun entry => (entry.1, checkFile blake3 tree entry.1 entry.2)

/-- `verify`: the number of files that are as recorded, if all are. -/
def verify (files : Files) : Except String Nat :=
  let checked := checks blake3 tree files
  let modified := (checked.filter fun check => match check.2 with
    | .changed _ _ => true
    | _ => false).length
  let missing := (checked.filter fun check => check.2 = .missing).length
  if (checked.filterMap fun check => check.2.issue check.1) = [] then
    .ok checked.length
  else
    .error (toString (modified + missing) ++ " file(s) failed verification (" ++
      toString modified ++ " modified, " ++ toString missing ++ " missing)")

/-- A path leads to a file with the recorded hash. -/
def Intact (path : String) (info : FileInfo) : Prop :=
  ∃ location contents mode, tree.followPath (fullPath path) = some location ∧
    tree.nodeAt location = some (.file contents mode) ∧ blake3 contents = info.blake3

theorem checkFile_ok_iff {path : String} {info : FileInfo} :
    checkFile blake3 tree path info = .ok ↔ Intact blake3 tree path info := by
  unfold checkFile Intact
  cases tree.followPath (fullPath path) with
  | none => simp
  | some location =>
      simp only [Option.some.injEq]
      cases found : tree.nodeAt location with
      | none => simp [found]
      | some node =>
          cases node with
          | dir => simp [found]
          | symlink target => simp [found]
          | file contents mode =>
              by_cases same : blake3 contents = info.blake3
              · simp [found, same]
              · simp [found, same]

/-- `verify` succeeds when every tracked file is intact. -/
theorem verify_ok_iff {files : Files} :
    (∃ verified, verify blake3 tree files = .ok verified) ↔
      ∀ path info, files.lookup path = some info → Intact blake3 tree path info := by
  have quiet : ((checks blake3 tree files).filterMap fun check => check.2.issue check.1) = [] ↔
      ∀ path info, files.lookup path = some info → Intact blake3 tree path info := by
    rw [List.filterMap_eq_nil_iff]
    constructor
    · intro silent path info found
      have listed : (path, info) ∈ sortedEntries files := mem_sortedEntries.mpr found
      have none_ := silent _ (List.mem_map_of_mem listed)
      rw [← checkFile_ok_iff]
      revert none_
      cases checkFile blake3 tree path info <;> simp [FileCheck.issue]
    · intro intact check member
      obtain ⟨⟨path, info⟩, listed, rfl⟩ := List.mem_map.mp member
      have ok := (checkFile_ok_iff blake3 tree).mpr (intact path info (mem_sortedEntries.mp listed))
      simp [ok, FileCheck.issue]
  rw [← quiet]
  unfold verify
  dsimp only
  split
  · rename_i silent
    exact ⟨fun _ => silent, fun _ => ⟨_, rfl⟩⟩
  · rename_i loud
    constructor
    · intro ⟨verified, impossible⟩
      cases impossible
    · intro silent
      exact absurd silent loud

end Verify

section Derived

variable {old new : EtcManifest} {frame stage tree : FileTree} {path location : Location}

/-- The fields whose files are derived, in the order in which they are written. -/
def derivedFields : List Field := [.hostname, .timezone, .dns]

/-- The directories that the file of a field needs, when it is written. -/
def houseField (old new : EtcManifest) (frame : FileTree) (field : Field) : FileTree :=
  if field.changed old new then (frame.createDirAll field.path.dropLast).1 else frame

def fieldDeed (old new : EtcManifest) (frame : FileTree) (field : Field) : Option Deed :=
  if field.changed old new then
    (frame.way field.path).map fun found => ⟨found.2, some ((field.text new).toUTF8, none)⟩
  else
    none

theorem houseFields_evolved (fields : List Field) {free : Location → Prop} :
    Evolved free stage (fields.foldl (houseField old new) stage) := by
  induction fields generalizing stage with
  | nil => exact .refl _ _
  | cons field rest ih =>
      refine Evolved.trans ?_ ih
      unfold houseField
      split
      · exact FileTree.createDirAll_evolved _
      · exact .refl _ _

/-- A derived file takes the place of a symlink, and its directories are made. -/
theorem writeManifestDerivedFileAt_done {contents : ByteArray} {after : FileTree}
    (frames : Frames (fun _ => False) stage tree)
    (ran : writeManifestDerivedFileAt [] path contents tree = (after, .ok ())) :
    ∃ passed location, (stage.createDirAll path.dropLast).1.way path = some (passed, location) ∧
      Done tree after ⟨location, some (contents, none)⟩ ∧
      Frames (fun _ => False) (stage.createDirAll path.dropLast).1 after := by
  unfold writeManifestDerivedFileAt at ran
  rw [List.nil_append] at ran
  split at ran
  · cases ran
  · rename_i made directories
    dsimp only at ran
    split at ran
    · cases ran
    · rename_i cleared clearing
      split at ran
      · cases ran
      · rename_i filled filling
        cases ran
        have emptied : cleared = made ∨ made.removeFile path = .ok cleared := by
          split at clearing
          · exact .inr clearing
          · exact .inl (Except.ok.inj clearing).symm
        obtain ⟨passed, location, _, found, _, done, grown⟩ :=
          frames.put (FileTree.clear_of_none stage path) directories emptied filling
        exact ⟨passed, location, found, done, grown⟩

/-- The derived files without a warning are written where their paths lead. -/
theorem writeFields_ran (fields : List Field) (state : Progress)
    (later : Evolved (fun _ => False) (fields.foldl (houseField old new) stage) frame)
    (frames : Frames (fun _ => False) stage state.tree)
    (quiet : (writeFields old new fields state).warnings = []) :
    Ran state.tree (fields.filterMap (fieldDeed old new frame))
      (writeFields old new fields state).tree := by
  induction fields generalizing stage state with
  | nil => exact .nil _
  | cons field rest ih =>
      rcases (writeChangedField_quiet (writeFields_quiet quiet)).2 with
        ⟨unchanged, same⟩ | ⟨changed, ran⟩
      · have unhoused : houseField old new stage field = stage := by simp [houseField, unchanged]
        have nothing : fieldDeed old new frame field = none := by simp [fieldDeed, unchanged]
        rw [List.foldl_cons, unhoused] at later
        rw [List.filterMap_cons, nothing]
        unfold writeFields at quiet ⊢
        rw [List.foldl_cons, same] at quiet ⊢
        exact ih state later frames quiet
      · obtain ⟨passed, location, found, done, grown⟩ := writeManifestDerivedFileAt_done frames ran
        have housed : houseField old new stage field =
            (stage.createDirAll field.path.dropLast).1 := if_pos changed
        rw [List.foldl_cons, housed] at later
        have there := ((houseFields_evolved rest).trans later).way found fun _ _ => not_false
        have deed : fieldDeed old new frame field =
            some ⟨location, some ((field.text new).toUTF8, none)⟩ := by
          rw [fieldDeed, if_pos changed, there]
          rfl
        rw [List.filterMap_cons, deed]
        exact .cons done (ih _ later grown quiet)

end Derived

section Update

/-- What the derived files are written from; there is no etc tree. -/
def etcOf (manifest : Rebuild.Manifest) : EtcManifest where
  hostname := manifest.system.hostname
  timezone := manifest.system.timezone
  dns := manifest.configuration.networking.dns
  etcSource := none

/-- `update_config_files` and then `write_manifest_derived_files`. -/
def updateFiles (blake3 : ByteArray → String) (old new : Rebuild.Manifest) (tree : FileTree) :
    Progress :=
  writeManifestDerivedFilesAt [] (etcOf old) (etcOf new)
    (activateFiles blake3 [] old.files new.files tree)

/-- The directories and symlinks that the keys of the two inventories lead through. -/
def frameOf (old new : Rebuild.Manifest) (tree : FileTree) : FileTree :=
  housing [] old.files new.files tree

/-- What the update of the tracked files does. -/
def trackedDeeds (old new : Rebuild.Manifest) (tree : FileTree) : List Deed :=
  deeds [] old.files new.files tree

/-- The directories and symlinks that the derived files meet: what the update of the
tracked files has written or removed is none any more. -/
def derivedStage (old new : Rebuild.Manifest) (tree : FileTree) : FileTree :=
  (frameOf old new tree).without ((trackedDeeds old new tree).map Deed.location)

def derivedFrame (old new : Rebuild.Manifest) (tree : FileTree) : FileTree :=
  derivedFields.foldl (houseField (etcOf old) (etcOf new)) (derivedStage old new tree)

/-- What the whole update does to the files, in order. -/
def updateDeeds (old new : Rebuild.Manifest) (tree : FileTree) : List Deed :=
  trackedDeeds old new tree ++
    derivedFields.filterMap (fieldDeed (etcOf old) (etcOf new) (derivedFrame old new tree))

/-- The places that the path of a tracked file passes: of one that was tracked before, from
the files as they are then; of a new one, with the directories that the update makes. -/
def route (old new : Rebuild.Manifest) (tree : FileTree) (key : String) : List (Location × Bool) :=
  if key ∈ old.files then
    (tree.trail maxLinks [] (fullPath key)).getD []
  else
    match managedFilePathAt [] key with
    | .error _ => []
    | .ok path =>
        match (frameOf old new tree).way path with
        | none => []
        | some (passed, location) => passed.map (·, false) ++ [(location, true)]

/-- On the way of each tracked path the first place at which the update does something is its
end, and the last that is done there is to write a text with the recorded hash. -/
def InStep (blake3 : ByteArray → String) (old new : Rebuild.Manifest) (tree : FileTree) : Prop :=
  ∀ key info, new.files.lookup key = some info →
    Rests (updateDeeds old new tree) (fun contents => blake3 contents = info.blake3)
      (route old new tree key)

variable {blake3 : ByteArray → String} {old new : Rebuild.Manifest} {tree between after : FileTree}
  {key : String} {info : FileInfo} {path location : Location} {passed : List Location}

theorem mapM_normalName {components : UnixPath.PathBuf} {names : Location}
    (normal : components.mapM normalName = some names) : components = names.map .normal := by
  induction components generalizing names with
  | nil =>
      cases normal
      rfl
  | cons component rest ih =>
      rw [List.mapM_cons] at normal
      cases component with
      | normal name =>
          cases others : rest.mapM normalName with
          | none => simp [normalName, others] at normal
          | some more =>
              simp only [normalName, others, Option.bind_eq_bind, Option.bind_some,
                Option.pure_def, Option.some.injEq] at normal
              subst normal
              rw [List.map_cons, ← ih others]
      | rootDir => simp [normalName] at normal
      | curDir => simp [normalName] at normal
      | parentDir => simp [normalName] at normal

/-- The path of a managed file from the root. -/
theorem fullPath_valid (valid : managedFilePathAt [] key = .ok path) :
    fullPath key = .rootDir :: path.map .normal ∧ path ≠ [] := by
  unfold managedFilePathAt validateManagedRelativePath at valid
  split at valid
  · cases valid
  · rename_i names normal
    split at valid
    · cases valid
    · rename_i nonempty
      cases valid
      have split := mapM_normalName normal
      refine ⟨?_, nonempty⟩
      rw [fullPath, UnixPath.components_join, split]
      cases names with
      | nil => exact absurd rfl nonempty
      | cons name rest => rfl

theorem resolve_root (path : UnixPath.PathBuf) (links : Nat) :
    tree.resolve links [] (.rootDir :: path) = tree.resolve links [] path :=
  FileTree.resolve_of_walk_eq (by rw [FileTree.walk])

/-- A path is intact when it leads to a file with the recorded hash. -/
theorem intact_iff : Intact blake3 tree key info ↔
    FileTree.LeadsTo tree maxLinks [] (fullPath key)
      (fun contents => blake3 contents = info.blake3) := by
  unfold Intact FileTree.LeadsTo FileTree.followPath
  constructor
  · rintro ⟨location, contents, mode, leads, there, same⟩
    obtain ⟨⟨passed, own⟩, resolved, rfl⟩ := Option.map_eq_some_iff.mp leads
    exact ⟨passed, own, contents, mode, resolved, there, same⟩
  · rintro ⟨passed, location, contents, mode, resolved, there, same⟩
    exact ⟨location, contents, mode, by rw [resolved]; rfl, there, same⟩

/-- Where a tracked file is: the directory it is in is there, and so it is in the frame. -/
theorem tracked_place (old new : Rebuild.Manifest) (intact : Intact blake3 tree key info)
    (valid : managedFilePathAt [] key = .ok path) :
    ∃ above name passed mid, path = above ++ [name] ∧
      tree.resolve maxLinks [] (above.map .normal) = some (passed, mid) ∧
      tree.nodeAt mid = some .dir ∧
      (frameOf old new tree).way path = some (passed, mid ++ [name]) ∧
      FileTree.LeadsTo tree (maxLinks - passed.length) mid [.normal name]
        (fun contents => blake3 contents = info.blake3) := by
  obtain ⟨whole, last, contents, mode, resolved, file, same⟩ := intact_iff.mp intact
  obtain ⟨full, nonempty⟩ := fullPath_valid valid
  rw [full, resolve_root] at resolved
  rcases List.eq_nil_or_concat' path with empty | ⟨above, name, rfl⟩
  · exact absurd empty nonempty
  · rw [List.map_append, List.map_singleton] at resolved
    have inside : ∃ passed mid, tree.resolve maxLinks [] (above.map .normal) = some (passed, mid) ∧
        tree.nodeAt mid = some .dir := by
      by_contra blocked
      rw [FileTree.resolve_append_none] at resolved
      · cases resolved
      · exact fun passed mid reached there => blocked ⟨passed, mid, reached, there⟩
    obtain ⟨passed, mid, reached, there⟩ := inside
    refine ⟨above, name, passed, mid, rfl, reached, there, ?_, ?_⟩
    · have frames : Frames (fun _ => False) tree.skeleton tree := FileTree.frames_skeleton
      have early := frames.toCovers.carried.resolve reached there fun _ _ => not_false
      have bones := (frames.toCovers.dirs mid).mp there
      have aimed := FileTree.aim_of_resolve above (FileTree.nodeAt_nil _) early bones
      have found : tree.skeleton.way (above ++ [name]) = some (passed, mid ++ [name]) :=
        FileTree.way_eq_some.mpr ⟨above, name, mid, rfl, aimed, rfl⟩
      have evolved : Evolved (fun _ => False) tree.skeleton (frameOf old new tree) :=
        housing_evolved _
      exact evolved.way found fun _ _ => not_false
    · rw [FileTree.resolve_append reached there] at resolved
      obtain ⟨⟨more, own⟩, further, split⟩ := Option.map_eq_some_iff.mp resolved
      cases split
      exact ⟨more, last, contents, mode, further, file, same⟩

/-- A symlink that is tracked leads to a file. -/
theorem tracked_link {target : List Char} (new : Rebuild.Manifest)
    (intact : Intact blake3 tree key info)
    (named : denotes [] (frameOf old new tree) key = some location)
    (next : tree.nodeAt location = some (.symlink target)) :
    ∃ fewer more last contents mode,
      tree.resolve fewer location.dropLast (UnixPath.components target) = some (more, last) ∧
        tree.nodeAt last = some (.file contents mode) := by
  obtain ⟨path, _, valid, found⟩ := valid_of_denotes named
  obtain ⟨above, name, passed, mid, _, _, _, way, leads⟩ := tracked_place old new intact valid
  rw [found] at way
  cases way
  obtain ⟨more, last, contents, mode, resolved, file, _⟩ := leads
  rw [FileTree.resolve, FileTree.walk_normal_symlink next] at resolved
  dsimp only at resolved
  split at resolved
  · cases resolved
  · rename_i fewer _
    obtain ⟨⟨others, own⟩, inner, same⟩ := Option.map_eq_some_iff.mp resolved
    cases same
    rw [List.append_nil] at inner
    exact ⟨fewer, others, own, contents, mode, inner, file⟩

/-- What is removed is no symlink on the way to anything else. -/
theorem tracked_steady
    (intact : ∀ key info, old.files.lookup key = some info → Intact blake3 tree key info) :
    Steady [] old.files new.files tree := by
  intro change member _ path valid
  obtain ⟨before, _, had, _⟩ := mem_changed member
  obtain ⟨above, name, passed, mid, rfl, reached, there, way, _⟩ :=
    tracked_place old new (intact _ before had) valid
  refine ⟨passed, mid ++ [name], way, ?_⟩
  rintro link listed ⟨key, removed, named⟩
  obtain ⟨info, known⟩ := Option.isSome_iff_exists.mp
    (AList.lookup_isSome.mpr (mem_removed.mp removed).1)
  obtain ⟨_, target, rest, _, next, goes⟩ := FileTree.resolve_member reached listed
  obtain ⟨_, _, last, contents, mode, leads, file⟩ :=
    tracked_link new (intact key info known) named next
  obtain ⟨_, same⟩ :=
    FileTree.resolve_link_file next goes leads (FileTree.notDir_of_file file)
  rw [← same, there] at file
  cases file

/-- What the derived files meet after the tracked files are updated. -/
theorem derivedStage_frames (updated : Updated [] old.files new.files tree between) :
    Frames (fun _ => False) (derivedStage old new tree) between := by
  have stage : ∀ location, (derivedStage old new tree).nodeAt location =
      if Touched (trackedDeeds old new tree) location ∧
          (frameOf old new tree).nodeAt location ≠ some .dir then none
      else (frameOf old new tree).nodeAt location := by
    intro location
    rw [derivedStage, FileTree.without_nodeAt]
    simp only [List.mem_map, FileTree.touched_iff]
  have links : ∀ location target,
      (derivedStage old new tree).nodeAt location = some (.symlink target) →
        ¬ Touched (trackedDeeds old new tree) location ∧
          (frameOf old new tree).nodeAt location = some (.symlink target) := by
    intro location target found
    rw [stage] at found
    split at found
    · cases found
    · rename_i kept
      have linked : (frameOf old new tree).nodeAt location ≠ some .dir := by
        intro inside
        rw [found] at inside
        cases inside
      exact ⟨fun touched => kept ⟨touched, linked⟩, found⟩
  refine ⟨⟨?_, ?_⟩, ?_, ?_⟩
  · intro location
    rw [updated.frames.dirs location, stage]
    change (frameOf old new tree).nodeAt location = _ ↔ _
    split
    · rename_i touched
      simp [touched.2]
    · rfl
  · intro location target found
    have untouched : ¬ Touched (trackedDeeds old new tree) location :=
      fun touched => updated.ran.unlinked touched target found
    rw [stage, if_neg fun touched => untouched touched.1]
    exact updated.frames.links location target found
  · intro location target found absent
    obtain ⟨untouched, framed⟩ := links location target found
    have still := updated.ran.evolved.links location target untouched (housing_links.mp framed)
    rw [absent] at still
    cases still
  · intro location contents mode found
    rw [stage] at found
    split at found
    · cases found
    · exact updated.frames.fileless location contents mode found

/-- **An update without a warning is its deeds.** -/
theorem updateFiles_ran (steady : Steady [] old.files new.files tree)
    (quiet : (updateFiles blake3 old new tree).warnings = []) :
    Updated [] old.files new.files tree (activateFiles blake3 [] old.files new.files tree).tree ∧
      Ran tree (updateDeeds old new tree) (updateFiles blake3 old new tree).tree ∧
      Evolved (Touched (updateDeeds old new tree)) (frameOf old new tree)
        (updateFiles blake3 old new tree).tree := by
  have writes : updateFiles blake3 old new tree =
      writeFields (etcOf old) (etcOf new) derivedFields
        (activateFiles blake3 [] old.files new.files tree) := rfl
  rw [writes] at quiet ⊢
  have updated := activateFiles_updated steady (writeFields_quiet quiet)
  have derived := writeFields_ran derivedFields _ (.refl _ _) (derivedStage_frames updated) quiet
  have whole := updated.ran.append derived
  refine ⟨updated, whole, ⟨⟨?_, ?_⟩, ?_⟩⟩
  · intro location inside
    exact derived.evolved.dirs location ((updated.frames.dirs location).mpr inside)
  · intro location target untouched found
    exact whole.evolved.links location target untouched (housing_links.mp found)
  · intro location target found
    exact housing_links.mpr (whole.evolved.fresh location target found)

/-- Only what was tracked is taken away. -/
theorem taken_key (member : ⟨location, none⟩ ∈ updateDeeds old new tree) :
    ∃ key ∈ old.files, denotes [] (frameOf old new tree) key = some location := by
  rcases List.mem_append.mp member with tracked | derived
  · rcases mem_deeds tracked with ⟨_, _, _, _, _, _, puts⟩ | ⟨_, key, listed, named⟩
    · cases puts
    · exact ⟨key, (mem_removals listed).1, named⟩
  · obtain ⟨field, _, chosen⟩ := List.mem_filterMap.mp derived
    unfold fieldDeed at chosen
    split at chosen
    · obtain ⟨_, _, same⟩ := Option.map_eq_some_iff.mp chosen
      cases same
    · cases chosen

theorem last_added {wrote : Option (ByteArray × Option Nat)} {keys : List String} {frame : FileTree}
    {files : Files}
    (last : lastDeed (keys.filterMap (writeDeed [] files frame)) location = some wrote) :
    wrote ≠ none := by
  rintro rfl
  obtain ⟨key, _, chosen⟩ := List.mem_filterMap.mp (FileTree.lastDeed_mem last)
  unfold writeDeed at chosen
  split at chosen
  · obtain ⟨_, _, same⟩ := Option.map_eq_some_iff.mp chosen
    cases same
  · cases chosen

/-- No directory is made in the place of a file. -/
theorem file_unhoused {contents : ByteArray} {mode : Nat}
    (intact : ∀ key info, old.files.lookup key = some info → Intact blake3 tree key info)
    (updated : Updated [] old.files new.files tree between)
    (file : tree.nodeAt location = some (.file contents mode)) :
    (frameOf old new tree).nodeAt location ≠ some .dir := by
  intro housed
  have made := (updated.frames.dirs location).mpr housed
  cases last : lastDeed (deeds [] old.files new.files tree) location with
  | none =>
      rw [updated.ran.keeps last file] at made
      cases made
  | some put =>
      cases put with
      | some wrote =>
          obtain ⟨_, _, there⟩ := updated.ran.put last
          rw [there] at made
          cases made
      | none =>
          rcases updated.ran.taken last with absent | ⟨_, deed, member, puts, below, apart⟩
          · rw [absent] at made
            cases made
          · rcases List.mem_append.mp member with early | changed
            · rcases List.mem_append.mp early with added | removed
              · -- the file is still there when the new files are written
                obtain ⟨first, ran⟩ := updated.added
                have inside := ran.dir_above added puts below apart.symm
                cases wrote : lastDeed ((diffConfigFiles old.files new.files).1.filterMap
                    (writeDeed [] new.files (housing [] old.files new.files tree))) location with
                | none =>
                    rw [ran.keeps wrote file] at inside
                    cases inside
                | some put =>
                    cases put with
                    | none => exact last_added wrote rfl
                    | some text =>
                        obtain ⟨_, _, there⟩ := ran.put wrote
                        rw [there] at inside
                        cases inside
              · obtain ⟨key, _, taken⟩ := List.mem_filterMap.mp removed
                obtain ⟨_, _, same⟩ := Option.map_eq_some_iff.mp taken
                cases same
                cases puts
            · -- a changed file is in a directory that was there before
              obtain ⟨change, listed, chosen⟩ := List.mem_filterMap.mp changed
              obtain ⟨before, _, had, _⟩ := mem_changed listed
              unfold writeDeed at chosen
              split at chosen
              · rename_i info own _ named
                obtain ⟨_, _, rfl⟩ := Option.map_eq_some_iff.mp chosen
                obtain ⟨path, _, valid, found⟩ := valid_of_denotes named
                obtain ⟨_, name, passed, mid, _, _, inside, way, _⟩ :=
                  tracked_place old new (intact _ before had) valid
                have same := found.symm.trans way
                cases same
                rcases List.prefix_concat_iff.mp below with whole | ⟨rest, rfl⟩
                · exact apart whole.symm
                · by_cases empty : rest = []
                  · rw [empty, List.append_nil, file] at inside
                    cases inside
                  · rw [FileTree.nodeAt_append (by rw [inside]; nofun) empty] at file
                    cases file
              · cases chosen

/-- Where something is done on the way to a new file there is a file in the end, or
nothing. -/
theorem cut_solid {names : Location} {links : Nat} {mid : Location}
    (intact : ∀ key info, old.files.lookup key = some info → Intact blake3 tree key info)
    (updated : Updated [] old.files new.files tree between)
    (run : Ran tree (updateDeeds old new tree) after)
    (reached : (frameOf old new tree).resolve links [] (names.map .normal) = some (passed, mid)) :
    ∀ link ∈ passed, Touched (updateDeeds old new tree) link →
      after.nodeAt link ≠ some .dir ∧ ∀ target, after.nodeAt link ≠ some (.symlink target) := by
  intro link member touched
  refine ⟨?_, run.unlinked touched⟩
  intro made
  obtain ⟨put, last⟩ := Option.ne_none_iff_exists'.mp touched
  cases put with
  | some wrote =>
      obtain ⟨_, _, there⟩ := run.put last
      rw [there] at made
      cases made
  | none =>
      obtain ⟨key, listed, named⟩ := taken_key (FileTree.lastDeed_mem last)
      obtain ⟨info, known⟩ := Option.isSome_iff_exists.mp (AList.lookup_isSome.mpr listed)
      obtain ⟨fewer, target, rest, more, next, goes⟩ := FileTree.resolve_member reached member
      have link := housing_links.mp next
      obtain ⟨enough, _, file, contents, mode, leads, there⟩ :=
        tracked_link new (intact key info known) named link
      have frames : Frames (fun _ => False) tree.skeleton tree := FileTree.frames_skeleton
      have evolved : Evolved (fun _ => False) tree.skeleton (frameOf old new tree) :=
        housing_evolved _
      have carried : FileTree.Carried (fun _ => False) tree (frameOf old new tree) :=
        ⟨fun location dir => evolved.dirs location ((frames.dirs location).mp dir),
          fun location target _ next => housing_links.mpr next⟩
      have gone : (frameOf old new tree).nodeAt file = none := by
        cases here : (frameOf old new tree).nodeAt file with
        | none => rfl
        | some node =>
            cases node with
            | dir => exact absurd here (file_unhoused intact updated there)
            | file contents mode => exact absurd here (updated.frames.fileless file contents mode)
            | symlink other =>
                rw [housing_links.mp here] at there
                cases there
      have stuck := carried.resolve_gone (FileTree.dir_of_link link)
        (FileTree.resolve_mono leads (Nat.le_max_left enough fewer)) there gone
        (fun _ _ => not_false) rest
      rw [FileTree.resolve_mono goes (Nat.le_max_right enough fewer)] at stuck
      cases stuck

open Rebuild (insertFiles mergeFiles managedInfo ManagedFileInput) in
theorem insertFiles_entry {value : ManagedFileInput → String → FileInfo}
    {inputs : List (String × ManagedFileInput)} {start result : Files}
    (inserted : insertFiles value inputs start = .ok result)
    (found : result.lookup key = some info) :
    start.lookup key = some info ∨ ∃ file mode, info = value file mode := by
  induction inputs generalizing start with
  | nil =>
      cases inserted
      exact .inl found
  | cons entry rest ih =>
      obtain ⟨path, file⟩ := entry
      unfold insertFiles at inserted
      split at inserted
      · cases inserted
      · rename_i normalizedPath _
        split at inserted
        · cases inserted
        · rename_i normalizedMode _
          rcases ih inserted with before | written
          · by_cases same : key = normalizedPath
            · subst same
              rw [AList.lookup_insert, Option.some.injEq] at before
              exact .inr ⟨file, normalizedMode, before.symm⟩
            · rw [AList.lookup_insert_ne same] at before
              exact .inl before
          · exact .inr written

/-- An entry of the merged manifest is an old one, or has its contents inline. -/
theorem merged_entry {config : RebuildConfig} {resolved : List System.Package}
    (merged : mergeConfig blake3 old config resolved = .ok new)
    (found : new.files.lookup key = some info) :
    old.files.lookup key = some info ∨ info.text.isSome = true := by
  have files := Rebuild.mergeConfig_files merged
  cases given : config.files with
  | none =>
      rw [given, Rebuild.mergeFiles, Except.ok.injEq] at files
      rw [files]
      exact .inl found
  | some inputs =>
      rw [given, Rebuild.mergeFiles] at files
      rcases insertFiles_entry files found with kept | ⟨file, mode, same⟩
      · rw [KeyedMap.lookup_retain, Option.filter_eq_some_iff] at kept
        exact .inl kept.1
      · rw [same]
        exact .inr rfl

/-- An inline file that is new or has another hash is written where its path leads. -/
theorem entry_written (updated : Updated [] old.files new.files tree between)
    (found : new.files.lookup key = some info) (inline : info.text.isSome = true)
    (differs : ∀ before, old.files.lookup key = some before → before.blake3 ≠ info.blake3) :
    ∃ path passed location, managedFilePathAt [] key = .ok path ∧
      (frameOf old new tree).way path = some (passed, location) ∧
      Touched (updateDeeds old new tree) location := by
  have inlined : inlineInfo new.files key = some info := by
    rw [inlineInfo, found, Option.filter_some, if_pos inline]
  have written := updated.written key (by
    cases before : old.files.lookup key with
    | none => exact .inl (mem_added.mpr ⟨mem_of_lookup found, before⟩)
    | some was =>
        refine .inr ⟨⟨key, was.blake3, info.blake3⟩, ?_, rfl⟩
        refine List.mem_filterMap.mpr ⟨key, mem_sortedKeys.mpr (mem_of_lookup found), ?_⟩
        rw [changeOf, found, before]
        exact if_pos (differs was before)) (by rw [inlined]; rfl)
  obtain ⟨deed, chosen⟩ := Option.isSome_iff_exists.mp written
  unfold writeDeed at chosen
  split at chosen
  · rename_i known location own named
    rw [inlined] at own
    cases own
    obtain ⟨path, passed, valid, way⟩ := valid_of_denotes named
    obtain ⟨mode, parsed, _⟩ := Option.map_eq_some_iff.mp chosen
    have good : parseModeString info.mode = .ok mode := by
      cases given : parseModeString info.mode with
      | error reason => simp [given, Except.toOption] at parsed
      | ok other =>
          rw [given] at parsed
          cases parsed
          rfl
    exact ⟨path, passed, location, valid, way,
      FileTree.touched_append.mpr (.inl (touched_of_new inlined good named differs))⟩
  · cases chosen

/-- A path that was tracked before. -/
theorem old_intact_iff {before : FileInfo}
    (intact : ∀ key info, old.files.lookup key = some info → Intact blake3 tree key info)
    (updated : Updated [] old.files new.files tree between)
    (run : Ran tree (updateDeeds old new tree) after)
    (had : old.files.lookup key = some before) (found : new.files.lookup key = some info)
    (known : old.files.lookup key = some info ∨ info.text.isSome = true) :
    Intact blake3 after key info ↔ Rests (updateDeeds old new tree)
      (fun contents => blake3 contents = info.blake3) (route old new tree key) := by
  obtain ⟨passed, last, contents, mode, resolved, file, hashed⟩ :=
    intact_iff.mp (intact key before had)
  obtain ⟨stops, trail⟩ := FileTree.trail_isSome resolved
  have own : route old new tree key = stops := by
    rw [route, if_pos (mem_of_lookup had), trail]
    rfl
  rw [own, intact_iff]
  refine run.leadsTo_iff (FileTree.nodeAt_nil tree) trail resolved file ?_ ?_
  · intro untouched
    by_cases same : before.blake3 = info.blake3
    · rw [hashed, same]
    · -- an entry with another hash was written at its end
      exfalso
      have inline : info.text.isSome = true := by
        refine known.resolve_left fun kept => same ?_
        rw [had] at kept
        rw [Option.some.inj kept]
      obtain ⟨path, links, location, valid, way, touched⟩ := entry_written updated found inline (by
        intro was listed
        rw [had] at listed
        rw [← Option.some.inj listed]
        exact same)
      obtain ⟨above, name, early, mid, rfl, reached, inside, framed, leads⟩ :=
        tracked_place old new (intact key before had) valid
      rw [way] at framed
      cases framed
      have member : mid ++ [name] ∈ stops.map Prod.fst := by
        rw [FileTree.trail_fst trail resolved]
        obtain ⟨full, _⟩ := fullPath_valid valid
        rw [full, resolve_root] at resolved
        exact FileTree.resolve_last reached inside resolved file
      obtain ⟨stop, listed, same⟩ := List.mem_map.mp member
      exact untouched stop listed (same ▸ touched)
  · intro place member touched made
    obtain ⟨put, lastly⟩ := Option.ne_none_iff_exists'.mp touched
    cases put with
    | some wrote =>
        obtain ⟨_, _, there⟩ := run.put lastly
        rw [there] at made
        cases made
    | none =>
        obtain ⟨other, listed, named⟩ := taken_key (FileTree.lastDeed_mem lastly)
        obtain ⟨entry, tracked⟩ := Option.isSome_iff_exists.mp (AList.lookup_isSome.mpr listed)
        obtain ⟨_, target, rest, _, left, next, goes⟩ :=
          FileTree.trail_goes_on trail resolved member
        obtain ⟨_, _, own, _, _, leads, there⟩ :=
          tracked_link new (intact other entry tracked) named next
        have leaf := FileTree.notDir_of_file there
        exact left (FileTree.resolve_link_file next goes leads leaf).1

/-- A path that was not tracked before. -/
theorem new_intact_iff
    (intact : ∀ key info, old.files.lookup key = some info → Intact blake3 tree key info)
    (updated : Updated [] old.files new.files tree between)
    (run : Ran tree (updateDeeds old new tree) after)
    (evolved : Evolved (Touched (updateDeeds old new tree)) (frameOf old new tree) after)
    (fresh : old.files.lookup key = none) (found : new.files.lookup key = some info)
    (inline : info.text.isSome = true) :
    Intact blake3 after key info ↔ Rests (updateDeeds old new tree)
      (fun contents => blake3 contents = info.blake3) (route old new tree key) := by
  obtain ⟨path, passed, location, valid, way, touched⟩ := entry_written updated found inline (by
    intro before had
    rw [fresh] at had
    cases had)
  have own : route old new tree key = passed.map (·, false) ++ [(location, true)] := by
    have absent : key ∉ old.files := AList.lookup_eq_none.mp fresh
    rw [route, if_neg absent, valid]
    simp only [way]
  obtain ⟨full, _⟩ := fullPath_valid valid
  rw [own, intact_iff, full]
  unfold FileTree.LeadsTo
  rw [resolve_root]
  by_cases cut : ∃ link ∈ passed, Touched (updateDeeds old new tree) link
  · refine iff_of_false ?_ (FileTree.not_rests_of_cut cut)
    rintro ⟨others, last, contents, mode, again, file, _⟩
    obtain ⟨above, name, directory, rfl, aimed, rfl⟩ := FileTree.way_eq_some.mp way
    obtain ⟨front, back, mid, rfl, reached, _⟩ :=
      FileTree.aim_split above (FileTree.nodeAt_nil _) aimed
    have solid := cut_solid intact updated run reached
    have blocked := evolved.toCarried.resolve_cut (FileTree.nodeAt_nil _) reached cut solid
    rw [List.append_assoc, List.map_append] at again
    cases back with
    | nil =>
        rw [List.nil_append, List.map_singleton, FileTree.resolve_append_none blocked] at again
        cases again
    | cons head back =>
        rw [List.cons_append, List.map_cons, FileTree.resolve_append_none blocked] at again
        cases again
  · have kept : ∀ link ∈ passed, ¬ Touched (updateDeeds old new tree) link :=
      fun link member done => cut ⟨link, member, done⟩
    have there := evolved.way way kept
    have solid := run.unlinked touched
    have leads := FileTree.follow_of_way there solid
    rw [FileTree.rests_iff_lastDeed kept touched]
    unfold FileTree.follow at leads
    constructor
    · rintro ⟨others, last, contents, mode, resolved, file, hashed⟩
      rw [resolved] at leads
      split at leads
      · cases leads
      · cases leads
        obtain ⟨put, lastly⟩ := Option.ne_none_iff_exists'.mp touched
        cases put with
        | some wrote =>
            obtain ⟨mode, _, same⟩ := run.put lastly
            rw [file] at same
            cases same
            exact ⟨_, _, lastly, hashed⟩
        | none =>
            rcases run.taken lastly with absent | ⟨made, _⟩
            · rw [absent] at file
              cases file
            · rw [made] at file
              cases file
    · rintro ⟨contents, set, lastly, hashed⟩
      obtain ⟨mode, _, file⟩ := run.put lastly
      rw [if_neg (by rw [file]; nofun)] at leads
      obtain ⟨⟨others, end_⟩, resolved, same⟩ := Option.map_eq_some_iff.mp leads
      cases same
      exact ⟨others, _, contents, mode, resolved, file, hashed⟩

/-- Tracked files stay verifiable exactly if, on the way of each tracked path, the first
place at which the update does something is its end, and what is written there last has the
recorded hash. -/
theorem verify_kept_iff {config : RebuildConfig} {resolved : List System.Package}
    (merged : mergeConfig blake3 old config resolved = .ok new)
    (verified : ∃ count, verify blake3 tree old.files = .ok count)
    (quiet : (updateFiles blake3 old new tree).warnings = []) :
    (∃ count, verify blake3 (updateFiles blake3 old new tree).tree new.files = .ok count) ↔
      InStep blake3 old new tree := by
  rw [verify_ok_iff] at verified ⊢
  have steady : Steady [] old.files new.files tree := tracked_steady verified
  obtain ⟨updated, run, evolved⟩ := updateFiles_ran steady quiet
  have each : ∀ key info, new.files.lookup key = some info →
      (Intact blake3 (updateFiles blake3 old new tree).tree key info ↔
        Rests (updateDeeds old new tree) (fun contents => blake3 contents = info.blake3)
          (route old new tree key)) := by
    intro key info found
    have known := merged_entry merged found
    cases before : old.files.lookup key with
    | some was => exact old_intact_iff verified updated run before found known
    | none =>
        refine new_intact_iff verified updated run evolved before found (known.resolve_left ?_)
        rw [before]
        nofun
  constructor
  · intro intact key info found
    exact (each key info found).mp (intact key info found)
  · intro inStep key info found
    exact (each key info found).mpr (inStep key info found)

end Update

section Hostname

open Rebuild (headless unset)

/-- The hashes of two texts. -/
def twoHashes (bytes : ByteArray) : String :=
  if bytes = "redox".toUTF8 then "a31ef5b48bc2df140a8dbf51842c88813425dee91dcd9c1aa740f3df0e6a944d"
  else "2f16cf640fe39abfad274e65537fe801be2f412b84000c3e3fa2b104db805f59"

/-- An image whose inventory has the file of the hostname. -/
def hostInventory : Files :=
  AList.singleton "etc/hostname" ⟨twoHashes "redox".toUTF8, 5, "644", none⟩

def hostImage : FileTree :=
  etcTree.insertNode hostnamePath (.file "redox".toUTF8 0o644) (by nofun) (by decide) (by nofun)

def motdConfig : RebuildConfig :=
  { unset with files := some (AList.singleton "etc/motd" ⟨"blue", some "0644"⟩) }

/-- The image with a message of the day. -/
def withMotd : Rebuild.Manifest :=
  headless [] (hostInventory.insert "etc/motd" ⟨twoHashes "blue".toUTF8, 4, "0644", some "blue"⟩)

theorem withMotd_mem {key : String} (member : key ∈ withMotd.files) :
    key = "etc/motd" ∨ key = "etc/hostname" := by
  have listed : key ∈ ["etc/motd", "etc/hostname"] := AList.mem_keys.mpr member
  simpa using listed

def motdPath : Location := ["etc".toList, "motd".toList]

/-- The new file is written, and nothing is done to the other. -/
theorem withMotd_stops :
    ((route (headless [] hostInventory) withMotd hostImage "etc/motd").find? fun stop =>
        Touched (updateDeeds (headless [] hostInventory) withMotd hostImage) stop.1) =
          some (motdPath, true) ∧
      lastDeed (updateDeeds (headless [] hostInventory) withMotd hostImage) motdPath =
        some (some ("blue".toUTF8, some 0o644)) ∧
      ((route (headless [] hostInventory) withMotd hostImage "etc/hostname").find? fun stop =>
        Touched (updateDeeds (headless [] hostInventory) withMotd hostImage) stop.1) = none := by
  decide +kernel

/-- A new inline file is tracked with its hash. -/
theorem motd_stays_verified :
    ∃ count, verify twoHashes (updateFiles twoHashes (headless [] hostInventory) withMotd
      hostImage).tree withMotd.files = .ok count := by
  have merged : mergeConfig twoHashes (headless [] hostInventory) motdConfig [] = .ok withMotd := rfl
  obtain ⟨written, last, kept⟩ := withMotd_stops
  have inStep : InStep twoHashes (headless [] hostInventory) withMotd hostImage := by
    intro key info found place ended stopped
    have member : key ∈ withMotd.files := AList.lookup_isSome.mp (by rw [found]; rfl)
    rcases withMotd_mem member with rfl | rfl
    · rw [written] at stopped
      cases stopped
      cases found
      exact ⟨rfl, _, _, last, rfl⟩
    · rw [kept] at stopped
      cases stopped
  exact (verify_kept_iff merged ⟨1, by decide +kernel⟩ (by decide +kernel)).mpr inStep

/-- A new hostname is written and its recorded hash stays the old one. -/
theorem hostname_fails_verification :
    ¬ ∀ (blake3 : ByteArray → String) (old new : Rebuild.Manifest) (tree : FileTree)
      (config : RebuildConfig) (resolved : List System.Package),
        config.systemSource = none → mergeConfig blake3 old config resolved = .ok new →
        (∃ count, verify blake3 tree old.files = .ok count) →
        (updateFiles blake3 old new tree).warnings = [] →
        ∃ count, verify blake3 (updateFiles blake3 old new tree).tree new.files = .ok count := by
  intro always
  obtain ⟨count, verified⟩ := always twoHashes (headless [] hostInventory) _ hostImage
    { unset with hostname := some "blue" } [] rfl rfl ⟨1, by decide +kernel⟩ (by decide +kernel)
  have failed : (verify twoHashes (updateFiles twoHashes (headless [] hostInventory)
      { headless [] hostInventory with
        system := { (headless [] hostInventory).system with hostname := "blue" } }
      hostImage).tree hostInventory).isOk = false := by decide +kernel
  have impossible : false = true := failed.symm.trans (congrArg Except.isOk verified)
  cases impossible

end Hostname

end NixRedox.Tracked
