import NixRedox.Bytes
import NixRedox.KeyedMap
import NixRedox.ProfileOpen
import NixRedox.ProfileStore

set_option autoImplicit false

/- The `.control` files of `profiled/scheme.rs`: a command is written to a handle, and
carried out when the handle is closed. -/
namespace NixRedox.Profiled

open Redox (Errno)
open UnixPath (Component PathBuf)

/-- An open handle, with what has been written to it. -/
structure OpenHandle where
  opened : Opened
  buffer : List UInt8
  named : ∀ profileName schemePath, opened = .control profileName schemePath →
    IsProfileName profileName

structure ProfileDaemon where
  handles : AList fun _ : Nat => OpenHandle
  store : ProfileStore
  manifests : Manifest.Manifests

/-- What closing a handle leaves behind. -/
structure Closed where
  daemon : ProfileDaemon
  disk : Disk
  made : List Made

/-- A control file lies directly below a profile, named by a single component. -/
theorem ProfileSchemeHandler.openPath_control {handler : ProfileSchemeHandler} {path : List Char}
    {flags : UInt64} {opened : Opened} (opens : handler.openPath path flags = .ok opened) :
    ∀ profileName schemePath, opened = .control profileName schemePath →
      IsProfileName profileName := by
  rintro profileName schemePath rfl
  unfold openPath at opens
  dsimp only at opens
  split at opens
  · cases opens
  · rename_i name subpath parsed
    split at opens
    · rename_i control
      cases opens
      have deeper : subpath ≠ [] := by
        rw [control]
        decide
      exact (parsePath_some parsed deeper).1
    · split at opens
      · cases opens
      · split at opens
        · cases opens
        · split at opens
          · cases opens
          · split at opens
            · cases opens
            · cases opens

namespace ProfileDaemon

/-- The daemon as `openat` and `getdents` look at it. -/
def handler (daemon : ProfileDaemon) : ProfileSchemeHandler where
  handles := KeyedMap.mapValues (fun _ handle => handle.opened.handle) daemon.handles
  profiles := KeyedMap.mapValues
    (fun _ mapping => ⟨mapping.packages.map fun package => ⟨package.name, package.storePath⟩⟩)
    daemon.store.profiles
  manifests := daemon.manifests

def openat (daemon : ProfileDaemon) (id : Nat) (path : List Char) (flags : UInt64) :
    Except Errno ProfileDaemon :=
  match opens : daemon.handler.openPath path flags with
  | .error code => .error code
  | .ok opened =>
      .ok { daemon with
        handles := daemon.handles.insert id
          ⟨opened, [], ProfileSchemeHandler.openPath_control opens⟩ }

/-- Data for a control file is kept until the file is closed. -/
def write (daemon : ProfileDaemon) (id : Nat) (data : List UInt8) :
    Except Errno ProfileDaemon :=
  match daemon.handles.lookup id with
  | none => .error .eacces
  | some handle =>
      match handle.opened with
      | .control _ _ =>
          .ok { daemon with
            handles := daemon.handles.insert id
              { handle with buffer := handle.buffer ++ data } }
      | .dir _ _ _ | .file _ _ _ _ => .error .eacces

def writeAll (daemon : ProfileDaemon) (id : Nat) (chunks : List (List UInt8)) :
    Except Errno ProfileDaemon :=
  chunks.foldlM (fun daemon chunk => daemon.write id chunk) daemon

/-- The files an added package came with are kept for its listing. -/
def answered (daemon : ProfileDaemon) : Except (List Char) Answer → ProfileDaemon
  | .ok (_, some (storePath, manifest)) =>
      { daemon with manifests := daemon.manifests.insert storePath manifest }
  | .ok (_, none) | .error _ => daemon

/-- Closing a control file carries out what has been written to it. -/
def onClose (json : Json) (daemon : ProfileDaemon) (disk : Disk) (id : Nat) (calls : FsCalls)
    (now : UInt64) : Closed :=
  match daemon.handles.lookup id with
  | none => ⟨daemon, disk, []⟩
  | some handle =>
      let closed := { daemon with handles := daemon.handles.erase id }
      match target : handle.opened with
      | .control profileName schemePath =>
          if handle.buffer = [] then
            ⟨closed, disk, []⟩
          else
            let run := closed.store.processControl json disk profileName
              (handle.named profileName schemePath target) (Bytes.fromUtf8Lossy handle.buffer)
              calls now
            ⟨{ closed with store := run.store }.answered run.result, run.disk, run.made⟩
      | .dir _ _ _ | .file _ _ _ _ => ⟨closed, disk, []⟩

end ProfileDaemon

/-- One component below a directory. -/
def IsNormal (name : List Char) : Prop :=
  IsProfileName name ∧ name ≠ ['.'] ∧ name ≠ ['.', '.']

/-- All that has been made is the directory of one profile and files inside it. -/
def Confined (profilesDir : List Char) (made : List Made) : Prop :=
  ∃ name, IsNormal name ∧ ∀ entry ∈ made,
    match entry with
    | .dir path => path = UnixPath.components profilesDir ++ [.normal name]
    | .file path => ∃ inside file,
        path = UnixPath.components profilesDir ++ .normal name :: inside ++ [.normal file]

theorem confined_nil {profilesDir : List Char} : Confined profilesDir [] :=
  ⟨['x'], ⟨⟨by decide, by decide⟩, by decide, by decide⟩, fun _ member => by cases member⟩

theorem IsProfileName.special {profile : List Char} (proper : IsProfileName profile)
    (unusual : ¬ IsNormal profile) : profile = ['.'] ∨ profile = ['.', '.'] := by
  by_contra ordinary
  rw [not_or] at ordinary
  exact unusual ⟨proper, ordinary.1, ordinary.2⟩

/-- The command changes the profile, and so writes its mapping. -/
def Writes (store : ProfileStore) (profile : List Char) (cmd : ControlCommand) : Prop :=
  cmd.action = "add".toList ∧ cmd.storePath ≠ none ∨
    cmd.action = "remove".toList ∧ cmd.name ∈ (store.getOrCreate profile).names

/-- Something is created or replaced: the directory, or the temporary file. -/
def FsCalls.Touch (calls : FsCalls) : Prop :=
  ∃ created, calls.createDirAll = .ok created ∧
    (created = true ∨ ∀ reason, calls.write ≠ .refused reason)

namespace ProfileStore

variable {store : ProfileStore} {profile : List Char}

/-- What `persist` makes on its way. -/
def madeBy (store : ProfileStore) (profile : List Char) (calls : FsCalls) : List Made :=
  match calls.createDirAll, calls.write, calls.rename with
  | .error _, _, _ => []
  | .ok created, .refused _, _ => if created then [.dir (store.profileDir profile)] else []
  | .ok created, .written, .ok () =>
      (if created then [.dir (store.profileDir profile)] else []) ++
        [.file (store.tmpPath profile), .file (store.finalPath profile)]
  | .ok created, _, _ =>
      (if created then [.dir (store.profileDir profile)] else []) ++
        [.file (store.tmpPath profile)]

theorem persist_made {mapping : StoredMapping}
    (found : store.profiles.lookup profile = some mapping) (disk : Disk) (calls : FsCalls) :
    (store.persist disk profile calls).made = store.madeBy profile calls := by
  simp only [persist, found, madeBy]
  cases calls.createDirAll with
  | error reason => rfl
  | ok created =>
      cases calls.write with
      | refused reason => rfl
      | torn reason => rfl
      | written =>
          cases calls.rename with
          | error reason => rfl
          | ok => rfl

theorem mem_madeBy {calls : FsCalls} {entry : Made} (member : entry ∈ store.madeBy profile calls) :
    entry = .dir (store.profileDir profile) ∨ entry = .file (store.tmpPath profile) ∨
      entry = .file (store.finalPath profile) := by
  unfold madeBy at member
  split at member
  · cases member
  all_goals
    split at member <;> simp at member <;> tauto

/-- Nothing is made exactly if no call touches the disk. -/
theorem madeBy_untouched {calls : FsCalls} (still : ¬ calls.Touch) :
    store.madeBy profile calls = [] := by
  unfold madeBy
  cases made : calls.createDirAll with
  | error reason => rfl
  | ok created =>
      have quiet := mt (fun touched => (⟨created, made, touched⟩ : calls.Touch)) still
      rw [not_or] at quiet
      cases wrote : calls.write with
      | refused reason => simp [quiet.1]
      | torn reason => exact absurd (fun reason same => by rw [wrote] at same; cases same) quiet.2
      | written => exact absurd (fun reason same => by rw [wrote] at same; cases same) quiet.2

theorem madeBy_touched {calls : FsCalls} (touched : calls.Touch) :
    .dir (store.profileDir profile) ∈ store.madeBy profile calls ∨
      .file (store.tmpPath profile) ∈ store.madeBy profile calls := by
  obtain ⟨created, made, touched⟩ := touched
  unfold madeBy
  cases wrote : calls.write with
  | refused reason =>
      have new : created = true := touched.resolve_right fun open_ => open_ reason wrote
      simp [made, new]
  | torn reason => simp [made]
  | written => cases calls.rename <;> simp [made]

/-- A profile's directory is one normal component below the profiles directory, unless the
profile is named after a special directory. -/
theorem made_confined {calls : FsCalls} (normal : IsNormal profile) :
    Confined store.profilesDir (store.madeBy profile calls) := by
  obtain ⟨proper, ordinary, climbing⟩ := normal
  have dir : store.profileDir profile =
      UnixPath.components store.profilesDir ++ [.normal profile] := by
    rw [profileDir_eq proper ordinary, UnixPath.toComponent, if_neg climbing]
  refine ⟨profile, ⟨proper, ordinary, climbing⟩, ?_⟩
  intro entry member
  rcases mem_madeBy member with rfl | rfl | rfl
  · exact dir
  · refine ⟨[], "mapping.json.tmp".toList, ?_⟩
    rw [tmpPath, dir]
  · refine ⟨[], "mapping.json".toList, ?_⟩
    rw [finalPath, dir]

/-- The directory of a profile named after a special directory is no profile's directory. -/
theorem profileDir_special {profile name : List Char} (special : profile = ['.'] ∨ profile = ['.', '.']) :
    store.profileDir profile ≠ UnixPath.components store.profilesDir ++ [.normal name] := by
  rcases special with rfl | rfl
  · rw [profileDir_dot]
    split
    · rename_i empty
      rw [empty]
      simp
    · intro same
      exact absurd (congrArg List.length same) (by simp)
  · rw [profileDir_eq ⟨by decide, by decide⟩ (by decide)]
    simp [UnixPath.toComponent]

theorem tmpPath_special {profile name file : List Char} {inside : PathBuf}
    (special : profile = ['.'] ∨ profile = ['.', '.']) :
    store.tmpPath profile ≠
      UnixPath.components store.profilesDir ++ .normal name :: inside ++ [.normal file] := by
  intro same
  rw [tmpPath] at same
  have front := (List.append_inj' same rfl).1
  rcases special with rfl | rfl
  · rw [profileDir_dot] at front
    split at front
    · rename_i empty
      rw [empty] at front
      cases front
    · exact absurd (congrArg List.length front) (by simp)
  · rw [profileDir_eq ⟨by decide, by decide⟩ (by decide)] at front
    have last := List.append_cancel_left front
    cases last

theorem made_unconfined {calls : FsCalls} (special : profile = ['.'] ∨ profile = ['.', '.'])
    (touched : calls.Touch) : ¬ Confined store.profilesDir (store.madeBy profile calls) := by
  intro ⟨name, _, inside⟩
  have first : .dir (store.profileDir profile) ∈ store.madeBy profile calls ∨
      .file (store.tmpPath profile) ∈ store.madeBy profile calls := madeBy_touched touched
  rcases first with member | member
  · exact profileDir_special special (inside _ member)
  · obtain ⟨between, file, same⟩ := inside _ member
    exact tmpPath_special special same

end ProfileStore

section Control

variable {json : Json} {store : ProfileStore} {profile command : List Char} {cmd : ControlCommand}

theorem processControl_writes (parsed : json.fromStr command = .ok cmd)
    (writes : Writes store profile cmd) (disk : Disk) (proper : IsProfileName profile)
    (calls : FsCalls) (now : UInt64) :
    (store.processControl json disk profile proper command calls now).made =
      store.madeBy profile calls := by
  have written : ∀ mapping : StoredMapping,
      ((store.put profile proper mapping).persist disk profile calls).made =
        store.madeBy profile calls := by
    intro mapping
    apply ProfileStore.persist_made
    rw [ProfileStore.lookup_put, if_pos rfl]
  simp only [ProfileStore.processControl, parsed]
  rcases writes with ⟨add, given⟩ | ⟨remove, member⟩
  · obtain ⟨storePath, path⟩ := Option.ne_none_iff_exists'.mp given
    rw [if_pos add, path]
    exact written _
  · have other : ¬ cmd.action = "add".toList := by
      rw [remove]
      decide
    rw [if_neg other, if_pos remove]
    cases found : store.profiles.lookup profile with
    | none =>
        rw [ProfileStore.getOrCreate, found] at member
        cases member
    | some mapping =>
        rw [ProfileStore.getOrCreate_found found] at member
        have removed := StoredMapping.remove_found.mpr member
        simp only [ProfileStore.removePackage, found, removed, ↓reduceIte]
        exact written _

theorem processControl_idle
    (idle : ∀ cmd, json.fromStr command = .ok cmd → ¬ Writes store profile cmd) (disk : Disk)
    (proper : IsProfileName profile) (calls : FsCalls) (now : UInt64) :
    (store.processControl json disk profile proper command calls now).made = [] := by
  cases parsed : json.fromStr command with
  | error reason =>
      rw [ProfileStore.processControl, parsed]
  | ok cmd =>
      have quiet := idle cmd parsed
      simp only [ProfileStore.processControl, parsed]
      by_cases add : cmd.action = "add".toList
      · rw [if_pos add]
        cases given : cmd.storePath with
        | none => rfl
        | some storePath =>
            exact absurd (.inl ⟨add, by rw [given]; exact Option.some_ne_none _⟩) quiet
      · rw [if_neg add]
        by_cases remove : cmd.action = "remove".toList
        · rw [if_pos remove]
          cases found : store.profiles.lookup profile with
          | none =>
              rw [ProfileStore.removePackage, found]
              rfl
          | some mapping =>
              have held := ProfileStore.getOrCreate_found found
              have absent : (mapping.remove cmd.name).2 = false := by
                apply Bool.eq_false_iff.mpr
                intro removed
                have member := StoredMapping.remove_found.mp removed
                exact quiet (.inr ⟨remove, by rw [held]; exact member⟩)
              simp only [ProfileStore.removePackage, found, absent, Bool.false_eq_true, ↓reduceIte]
              rfl
        · rw [if_neg remove]
          split <;> rfl

theorem processControl_confined_iff (json : Json) (store : ProfileStore) (disk : Disk)
    (proper : IsProfileName profile) (command : List Char) (calls : FsCalls) (now : UInt64) :
    Confined store.profilesDir
        (store.processControl json disk profile proper command calls now).made ↔
      IsNormal profile ∨
        (∀ cmd, json.fromStr command = .ok cmd → ¬ Writes store profile cmd) ∨ ¬ calls.Touch := by
  by_cases idle : ∀ cmd, json.fromStr command = .ok cmd → ¬ Writes store profile cmd
  · rw [processControl_idle idle]
    exact iff_of_true confined_nil (.inr (.inl idle))
  · obtain ⟨cmd, parsed, writes⟩ :
        ∃ cmd, json.fromStr command = .ok cmd ∧ Writes store profile cmd := by
      by_contra none_
      exact idle fun cmd parsed writes => none_ ⟨cmd, parsed, writes⟩
    rw [processControl_writes parsed writes]
    constructor
    · intro confined
      by_cases normal : IsNormal profile
      · exact .inl normal
      · refine .inr (.inr fun touched => ?_)
        exact ProfileStore.made_unconfined (proper.special normal) touched confined
    · rintro (normal | idle | still)
      · exact ProfileStore.made_confined normal
      · exact absurd writes (idle cmd parsed)
      · rw [ProfileStore.madeBy_untouched still]
        exact confined_nil

end Control

namespace ProfileDaemon

variable {daemon opened : ProfileDaemon} {id : Nat} {path : List Char} {flags : UInt64}
  {profileName schemePath : List Char}

/-- What is written to a control file is there when it is closed. -/
theorem writeAll_control {handle : OpenHandle} (chunks : List (List UInt8))
    (found : opened.handles.lookup id = some handle)
    (control : handle.opened = .control profileName schemePath) :
    ∃ written, opened.writeAll id chunks = .ok written ∧ written.store = opened.store ∧
      ∃ later, written.handles.lookup id = some later ∧
        later.opened = .control profileName schemePath ∧
        later.buffer = handle.buffer ++ chunks.flatten := by
  induction chunks generalizing opened handle with
  | nil =>
      exact ⟨opened, rfl, rfl, handle, found, control, (List.append_nil _).symm⟩
  | cons chunk rest ih =>
      obtain ⟨target, buffer, named⟩ := handle
      obtain rfl : target = .control profileName schemePath := control
      let grown : OpenHandle := ⟨.control profileName schemePath, buffer ++ chunk, named⟩
      let next : ProfileDaemon :=
        { opened with handles := opened.handles.insert id grown }
      have step : opened.write id chunk = .ok next := by
        rw [write, found]
      have there : next.handles.lookup id = some grown := AList.lookup_insert _
      obtain ⟨written, wrote, same, later, kept, still, buffered⟩ := ih there rfl
      refine ⟨written, ?_, same, later, kept, still, ?_⟩
      · rw [writeAll, List.foldlM_cons, step]
        exact wrote
      · rw [buffered, List.flatten_cons, List.append_assoc]

/-- Opening a control file starts with an empty buffer. -/
theorem openat_control {handle : OpenHandle} (opens : daemon.openat id path flags = .ok opened)
    (found : opened.handles.lookup id = some handle) :
    opened.store = daemon.store ∧ handle.buffer = [] := by
  unfold openat at opens
  split at opens
  · cases opens
  · cases opens
    rw [AList.lookup_insert, Option.some.injEq] at found
    exact ⟨rfl, by rw [← found]⟩

theorem onClose_made (json : Json) {handle : OpenHandle} (disk : Disk) (calls : FsCalls)
    (now : UInt64) (found : daemon.handles.lookup id = some handle)
    (control : handle.opened = .control profileName schemePath) :
    (daemon.onClose json disk id calls now).made =
      if handle.buffer = [] then []
      else (daemon.store.processControl json disk profileName
        (handle.named profileName schemePath control) (Bytes.fromUtf8Lossy handle.buffer)
        calls now).made := by
  obtain ⟨target, buffer, named⟩ := handle
  obtain rfl : target = .control profileName schemePath := control
  simp only [onClose, found]
  split <;> rfl

/-- Whatever is written to a control file and carried out when it is closed, what is made on
disk is inside the directory of one profile, unless the profile is called `.` or `..`. -/
theorem control_confined_iff (json : Json) (disk : Disk) {handle : OpenHandle}
    (opens : daemon.openat id path flags = .ok opened)
    (found : opened.handles.lookup id = some handle)
    (control : handle.opened = .control profileName schemePath)
    (chunks : List (List UInt8)) (calls : FsCalls) (now : UInt64) :
    ∃ written, opened.writeAll id chunks = .ok written ∧
      (Confined daemon.store.profilesDir (written.onClose json disk id calls now).made ↔
        profileName ∉ [['.'], ['.', '.']] ∨ chunks.flatten = [] ∨
        (∀ cmd, json.fromStr (Bytes.fromUtf8Lossy chunks.flatten) = .ok cmd →
          ¬ Writes daemon.store profileName cmd) ∨
        ¬ calls.Touch) := by
  obtain ⟨same, empty⟩ := openat_control opens found
  obtain ⟨written, wrote, stored, later, kept, still, buffered⟩ :=
    writeAll_control chunks found control
  have proper : IsProfileName profileName := handle.named profileName schemePath control
  have normal : IsNormal profileName ↔ profileName ∉ [['.'], ['.', '.']] := by
    simp [IsNormal, proper]
  rw [empty, List.nil_append] at buffered
  refine ⟨written, wrote, ?_⟩
  rw [onClose_made json disk calls now kept still, buffered, ← normal]
  by_cases nothing : chunks.flatten = []
  · rw [if_pos nothing]
    exact iff_of_true confined_nil (.inr (.inl nothing))
  · rw [if_neg nothing, stored, same]
    have confined := processControl_confined_iff json daemon.store disk proper
      (Bytes.fromUtf8Lossy chunks.flatten) calls now
    rw [confined]
    simp only [nothing, false_or]

end ProfileDaemon

def emptyDaemon : ProfileDaemon := ⟨∅, emptyStore, ∅⟩

/-- The empty daemon with the control file of a profile open. -/
def controlOpen (profile : List Char) (proper : IsProfileName profile) : ProfileDaemon where
  handles := (∅ : AList fun _ : Nat => OpenHandle).insert 0
    ⟨.control profile (profile ++ "/.control".toList), [], by
      rintro name schemePath same
      cases same
      exact proper⟩
  store := emptyStore
  manifests := ∅

theorem openat_dev : emptyDaemon.openat 0 "dev/.control".toList 0 =
    .ok (controlOpen "dev".toList dev_named) := rfl

theorem dev_confined :
    ∃ written, (controlOpen "dev".toList dev_named).writeAll 0 [Bytes.utf8 ripgrepText] =
        .ok written ∧
      Confined emptyStore.profilesDir
        (written.onClose ripgrepJson ∅ 0 ⟨.ok true, .written, .ok ()⟩ 1771495200).made := by
  obtain ⟨written, wrote, confined⟩ := ProfileDaemon.control_confined_iff ripgrepJson ∅
    openat_dev (AList.lookup_insert _) rfl [Bytes.utf8 ripgrepText] ⟨.ok true, .written, .ok ()⟩
    1771495200
  exact ⟨written, wrote, confined.mpr (.inl (by decide))⟩

theorem parent_named : IsProfileName "..".toList := ⟨by decide, by decide⟩

theorem openat_parent : emptyDaemon.openat 0 "../.control".toList 0 =
    .ok (controlOpen "..".toList parent_named) := rfl

/-- A command for the profile `..` is written beside the profiles directory. -/
theorem parent_unconfined :
    ¬ ∀ (json : Json) (daemon opened : ProfileDaemon) (disk : Disk) (id : Nat)
        (path : List Char) (flags : UInt64) (handle : OpenHandle)
        (profileName schemePath : List Char) (chunks : List (List UInt8)) (calls : FsCalls)
        (now : UInt64) (written : ProfileDaemon),
      daemon.openat id path flags = .ok opened → opened.handles.lookup id = some handle →
      handle.opened = .control profileName schemePath →
      opened.writeAll id chunks = .ok written →
      Confined daemon.store.profilesDir (written.onClose json disk id calls now).made := by
  intro every
  let handle : OpenHandle := ⟨.control "..".toList "../.control".toList, [], by
    rintro name schemePath same
    cases same
    exact parent_named⟩
  have found : (controlOpen "..".toList parent_named).handles.lookup 0 = some handle :=
    AList.lookup_insert _
  have control : handle.opened = .control "..".toList "../.control".toList := rfl
  obtain ⟨written, wrote, stored, later, kept, still, buffered⟩ :=
    ProfileDaemon.writeAll_control [Bytes.utf8 ripgrepText] found control
  have confined := every ripgrepJson emptyDaemon (controlOpen "..".toList parent_named) ∅ 0
    "../.control".toList 0 handle "..".toList "../.control".toList [Bytes.utf8 ripgrepText]
    ⟨.ok false, .written, .ok ()⟩ 1771495200 written openat_parent found control wrote
  have text : later.buffer = Bytes.utf8 ripgrepText := by
    rw [buffered, List.flatten_singleton]
    rfl
  have command : Bytes.fromUtf8Lossy later.buffer = ripgrepText := by
    rw [text, Bytes.fromUtf8Lossy_utf8]
  have filled : later.buffer ≠ [] := by
    intro empty
    rw [empty] at command
    exact absurd command (by decide)
  have writes : Writes emptyStore "..".toList addRipgrep := .inl ⟨rfl, by decide⟩
  have store : written.store = emptyStore := stored
  rw [ProfileDaemon.onClose_made ripgrepJson ∅ _ _ kept still, if_neg filled, command, store,
    processControl_writes ripgrepText_parsed writes] at confined
  have touched : FsCalls.Touch ⟨.ok false, .written, .ok ()⟩ := by
    refine ⟨false, rfl, .inr ?_⟩
    intro reason refused
    cases refused
  exact ProfileStore.made_unconfined (.inr rfl) touched confined

end NixRedox.Profiled
