import NixRedox.NarExtract
import NixRedox.Redox
import NixRedox.UnixPath

set_option autoImplicit false

/- The mapping table of `profiled/mapping.rs`: profiles in memory, their `mapping.json`
on disk, and the control commands that change both. -/
namespace NixRedox.Profiled

open Redox (Table)
open UnixPath (Component PathBuf)

structure StoredEntry where
  name : List Char
  storePath : List Char
  installedAt : UInt64
  deriving DecidableEq, Repr

structure StoredMapping where
  version : UInt32
  packages : List StoredEntry
  deriving DecidableEq, Repr

namespace StoredMapping

def names (mapping : StoredMapping) : List (List Char) := mapping.packages.map (·.name)

/-- The packages of other names. -/
def others (mapping : StoredMapping) (name : List Char) : List StoredEntry :=
  mapping.packages.filter (·.name ≠ name)

def add (mapping : StoredMapping) (name storePath : List Char) (now : UInt64) : StoredMapping :=
  { mapping with packages := mapping.others name ++ [⟨name, storePath, now⟩] }

/-- The mapping without the package, and whether it had it. -/
def remove (mapping : StoredMapping) (name : List Char) : StoredMapping × Bool :=
  ({ mapping with packages := mapping.others name },
    (mapping.others name).length < mapping.packages.length)

end StoredMapping

/-- Profiles are named by the part of a path before its first slash, or by a directory
entry. -/
def IsProfileName (name : List Char) : Prop := name ≠ [] ∧ '/' ∉ name

structure ProfileStore where
  profiles : Table StoredMapping
  named : ∀ name ∈ profiles, IsProfileName name
  profilesDir : List Char

/-- A file of a profile's directory: the JSON text of a mapping, or part of it. -/
inductive MappingFile where
  | json (mapping : StoredMapping)
  | torn
  deriving DecidableEq, Repr

/-- Files by their paths. No two of the paths lead to one file by a symlink. -/
abbrev Disk := AList fun _ : PathBuf => MappingFile

inductive WriteEnd where
  | written
  | refused (reason : List Char)
  /-- The file has been opened, and has some of the text. -/
  | torn (reason : List Char)
  deriving DecidableEq, Repr

/-- How the calls of `persist` end. `create_dir_all` says whether it has made the
directory. -/
structure FsCalls where
  createDirAll : Except (List Char) Bool
  write : WriteEnd
  rename : Except (List Char) Unit

inductive Made where
  | dir (path : PathBuf)
  | file (path : PathBuf)
  deriving DecidableEq, Repr

/-- What an operation leaves behind: the store, the disk, what has been created or
replaced there, and the result. -/
structure StoreRun (β : Type) where
  store : ProfileStore
  disk : Disk
  made : List Made
  result : Except (List Char) β

def StoreRun.map {β γ : Type} (change : β → γ) (run : StoreRun β) : StoreRun γ :=
  ⟨run.store, run.disk, run.made, run.result.map change⟩

structure ControlCommand where
  action : List Char
  name : List Char
  storePath : Option (List Char)
  files : List Nar.ManifestEntry
  deriving DecidableEq, Repr

/-- `serde_json` on commands and mappings. -/
structure Json where
  fromStr : List Char → Except (List Char) ControlCommand
  toStringPretty : Option StoredMapping → List Char

/-- What a control command answers: a message, and the files of an added package. -/
abbrev Answer := List Char × Option (List Char × List Nar.ManifestEntry)

namespace ProfileStore

def profileDir (store : ProfileStore) (profile : List Char) : PathBuf :=
  UnixPath.components (UnixPath.join store.profilesDir profile)

def tmpPath (store : ProfileStore) (profile : List Char) : PathBuf :=
  store.profileDir profile ++ [.normal "mapping.json.tmp".toList]

def finalPath (store : ProfileStore) (profile : List Char) : PathBuf :=
  store.profileDir profile ++ [.normal "mapping.json".toList]

/-- Write a profile's mapping to a temporary file and rename it. -/
def persist (store : ProfileStore) (disk : Disk) (profile : List Char) (calls : FsCalls) :
    StoreRun Unit :=
  match store.profiles.lookup profile with
  | none => ⟨store, disk, [], .error ("profile not found: ".toList ++ profile)⟩
  | some mapping =>
      match calls.createDirAll with
      | .error reason => ⟨store, disk, [], .error reason⟩
      | .ok created =>
          let made := if created then [.dir (store.profileDir profile)] else []
          match calls.write with
          | .refused reason => ⟨store, disk, made, .error reason⟩
          | .torn reason =>
              ⟨store, disk.insert (store.tmpPath profile) .torn,
                made ++ [.file (store.tmpPath profile)], .error reason⟩
          | .written =>
              match calls.rename with
              | .error reason =>
                  ⟨store, disk.insert (store.tmpPath profile) (.json mapping),
                    made ++ [.file (store.tmpPath profile)], .error reason⟩
              | .ok () =>
                  ⟨store,
                    (disk.erase (store.tmpPath profile)).insert (store.finalPath profile)
                      (.json mapping),
                    made ++ [.file (store.tmpPath profile), .file (store.finalPath profile)],
                    .ok ()⟩

/-- `self.profiles.insert`. -/
def put (store : ProfileStore) (profile : List Char) (proper : IsProfileName profile)
    (mapping : StoredMapping) : ProfileStore where
  profiles := store.profiles.insert profile mapping
  named := by
    intro name member
    rcases AList.mem_insert _ |>.mp member with rfl | old
    · exact proper
    · exact store.named name old
  profilesDir := store.profilesDir

/-- The mapping of a profile, new and empty if there is none. -/
def getOrCreate (store : ProfileStore) (profile : List Char) : StoredMapping :=
  (store.profiles.lookup profile).getD ⟨1, []⟩

/-- The mapping changes in memory before it is written. -/
def addPackage (store : ProfileStore) (disk : Disk) (profile : List Char)
    (proper : IsProfileName profile) (name storePath : List Char) (calls : FsCalls)
    (now : UInt64) : StoreRun Unit :=
  (store.put profile proper ((store.getOrCreate profile).add name storePath now)).persist
    disk profile calls

def removePackage (store : ProfileStore) (disk : Disk) (profile : List Char)
    (proper : IsProfileName profile) (name : List Char) (calls : FsCalls) : StoreRun Bool :=
  match store.profiles.lookup profile with
  | none => ⟨store, disk, [], .ok false⟩
  | some mapping =>
      let (mapping, removed) := mapping.remove name
      let store := store.put profile proper mapping
      if removed then
        (store.persist disk profile calls).map fun _ => true
      else
        ⟨store, disk, [], .ok false⟩

def processControl (json : Json) (store : ProfileStore) (disk : Disk) (profile : List Char)
    (proper : IsProfileName profile) (command : List Char) (calls : FsCalls) (now : UInt64) :
    StoreRun Answer :=
  match json.fromStr command with
  | .error reason => ⟨store, disk, [], .error reason⟩
  | .ok cmd =>
      if cmd.action = "add".toList then
        match cmd.storePath with
        | none => ⟨store, disk, [], .error "'add' command requires 'storePath' field".toList⟩
        | some storePath =>
            (store.addPackage disk profile proper cmd.name storePath calls now).map fun _ =>
              ("added ".toList ++ cmd.name ++ " to profile ".toList ++ profile,
                if cmd.files = [] then none else some (storePath, cmd.files))
      else if cmd.action = "remove".toList then
        (store.removePackage disk profile proper cmd.name calls).map fun removed =>
          if removed then
            ("removed ".toList ++ cmd.name ++ " from profile ".toList ++ profile, none)
          else
            (cmd.name ++ " not found in profile ".toList ++ profile, none)
      else if cmd.action = "list".toList then
        ⟨store, disk, [], .ok (json.toStringPretty (store.profiles.lookup profile), none)⟩
      else
        ⟨store, disk, [], .error ("unknown control action: ".toList ++ cmd.action)⟩

end ProfileStore

/-- Every mapping in memory is the one on disk. -/
def InStep (store : ProfileStore) (disk : Disk) : Prop :=
  ∀ profile mapping, store.profiles.lookup profile = some mapping →
    disk.lookup (store.finalPath profile) = some (.json mapping)


theorem toComponent_injective {a b : List Char}
    (same : UnixPath.toComponent a = UnixPath.toComponent b) : a = b := by
  unfold UnixPath.toComponent at same
  split at same
  · rename_i first
    split at same
    · rename_i second
      rw [first, second]
    · cases same
  · split at same
    · cases same
    · exact Component.normal.inj same

theorem toComponent_ne_curDir (name : List Char) : UnixPath.toComponent name ≠ .curDir := by
  unfold UnixPath.toComponent
  split <;> simp

namespace IsProfileName

variable {name : List Char}

theorem relative (proper : IsProfileName name) : UnixPath.isAbsolute name = false := by
  unfold UnixPath.isAbsolute
  split
  · exact absurd List.mem_cons_self proper.2
  · rfl

theorem components (proper : IsProfileName name) (ordinary : name ≠ ['.']) :
    UnixPath.components name = [UnixPath.toComponent name] := by
  rw [UnixPath.components_relative name proper.relative, List.splitOn_eq_singleton proper.2]
  split
  · rename_i same
    exact absurd (List.cons.inj same).1 ordinary
  · rw [UnixPath.body_segment_cons [] proper.1 ordinary, UnixPath.body_nil]

end IsProfileName

namespace ProfileStore

variable {store : ProfileStore}

theorem profileDir_eq {name : List Char} (proper : IsProfileName name) (ordinary : name ≠ ['.']) :
    store.profileDir name =
      UnixPath.components store.profilesDir ++ [UnixPath.toComponent name] := by
  rw [profileDir, UnixPath.components_join, proper.components ordinary]
  unfold UnixPath.toComponent
  split <;> rfl

theorem profileDir_dot :
    store.profileDir ['.'] =
      if UnixPath.components store.profilesDir = [] then [.curDir]
      else UnixPath.components store.profilesDir := by
  rw [profileDir, UnixPath.components_join]
  show (if UnixPath.components store.profilesDir = [] then [.curDir]
    else UnixPath.components store.profilesDir ++ []) = _
  rw [List.append_nil]

theorem profileDir_ne_dot {name : List Char} (proper : IsProfileName name)
    (ordinary : name ≠ ['.']) : store.profileDir name ≠ store.profileDir ['.'] := by
  rw [profileDir_eq proper ordinary, profileDir_dot]
  split
  · rename_i empty
    rw [empty, List.nil_append]
    intro same
    exact toComponent_ne_curDir name (List.cons.inj same).1
  · intro same
    exact absurd (congrArg List.length same) (by simp)

/-- Each profile has its own directory. -/
theorem profileDir_injective {a b : List Char} (first : IsProfileName a) (second : IsProfileName b)
    (same : store.profileDir a = store.profileDir b) : a = b := by
  by_cases dot : a = ['.']
  · subst dot
    by_cases other : b = ['.']
    · exact other.symm
    · exact absurd same.symm (profileDir_ne_dot second other)
  · by_cases other : b = ['.']
    · subst other
      exact absurd same (profileDir_ne_dot first dot)
    · rw [profileDir_eq first dot, profileDir_eq second other] at same
      have last := List.append_cancel_left same
      exact toComponent_injective (List.cons.inj last).1

theorem finalPath_eq_iff {a b : List Char} (first : IsProfileName a) (second : IsProfileName b) :
    store.finalPath a = store.finalPath b ↔ a = b := by
  constructor
  · intro same
    exact profileDir_injective first second (List.append_cancel_right same)
  · intro same
    rw [same]

theorem finalPath_ne_tmpPath (a b : List Char) : store.finalPath a ≠ store.tmpPath b := by
  intro same
  have last := congrArg List.getLast? same
  rw [finalPath, tmpPath, List.getLast?_concat, List.getLast?_concat] at last
  exact absurd last (by decide)

theorem lookup_put (profile : List Char) (proper : IsProfileName profile)
    (mapping : StoredMapping) (name : List Char) :
    (store.put profile proper mapping).profiles.lookup name =
      if name = profile then some mapping else store.profiles.lookup name := by
  by_cases same : name = profile
  · rw [if_pos same, same]
    exact AList.lookup_insert _
  · rw [if_neg same]
    exact AList.lookup_insert_ne same

end ProfileStore

theorem ProfileStore.getOrCreate_found {store : ProfileStore} {profile : List Char}
    {mapping : StoredMapping} (found : store.profiles.lookup profile = some mapping) :
    store.getOrCreate profile = mapping := by
  rw [getOrCreate, found, Option.getD_some]

/-- No call of `persist` fails. -/
def FsCalls.Succeed (calls : FsCalls) : Prop :=
  (∃ created, calls.createDirAll = .ok created) ∧ calls.write = .written ∧ calls.rename = .ok ()

/-- `persist` replaces the one `mapping.json` if no call fails, and none otherwise. -/
theorem ProfileStore.persist_spec {store : ProfileStore} {profile : List Char}
    {mapping : StoredMapping} (found : store.profiles.lookup profile = some mapping) (disk : Disk)
    (calls : FsCalls) :
    (store.persist disk profile calls).store = store ∧
      (calls.Succeed ∧ (store.persist disk profile calls).result = .ok () ∧
          (∀ other, IsProfileName other →
            (store.persist disk profile calls).disk.lookup (store.finalPath other) =
              if other = profile then some (.json mapping)
              else disk.lookup (store.finalPath other)) ∨
        ¬ calls.Succeed ∧ (∃ reason, (store.persist disk profile calls).result = .error reason) ∧
          ∀ other, (store.persist disk profile calls).disk.lookup (store.finalPath other) =
            disk.lookup (store.finalPath other)) := by
  have apart : ∀ a b, store.finalPath a ≠ store.tmpPath b := ProfileStore.finalPath_ne_tmpPath
  have proper : IsProfileName profile :=
    store.named profile (AList.lookup_isSome.mp (by rw [found]; rfl))
  simp only [persist, found]
  cases made : calls.createDirAll with
  | error reason =>
      refine ⟨rfl, .inr ⟨?_, ⟨reason, rfl⟩, fun _ => rfl⟩⟩
      rintro ⟨⟨created, fine⟩, _⟩
      rw [made] at fine
      cases fine
  | ok created =>
      cases wrote : calls.write with
      | refused reason =>
          refine ⟨rfl, .inr ⟨?_, ⟨reason, rfl⟩, fun _ => rfl⟩⟩
          rintro ⟨_, fine, _⟩
          rw [wrote] at fine
          cases fine
      | torn reason =>
          refine ⟨rfl, .inr ⟨?_, ⟨reason, rfl⟩, ?_⟩⟩
          · rintro ⟨_, fine, _⟩
            rw [wrote] at fine
            cases fine
          · intro other
            exact AList.lookup_insert_ne (apart other profile)
      | written =>
          cases renamed : calls.rename with
          | error reason =>
              refine ⟨rfl, .inr ⟨?_, ⟨reason, rfl⟩, ?_⟩⟩
              · rintro ⟨_, _, fine⟩
                rw [renamed] at fine
                cases fine
              · intro other
                exact AList.lookup_insert_ne (apart other profile)
          | ok =>
              refine ⟨rfl, .inl ⟨⟨⟨created, made⟩, wrote, renamed⟩, rfl, ?_⟩⟩
              intro other named
              by_cases same : other = profile
              · rw [if_pos same, same]
                exact AList.lookup_insert _
              · have differs : store.finalPath other ≠ store.finalPath profile :=
                  mt (ProfileStore.finalPath_eq_iff named proper).mp same
                rw [if_neg same, AList.lookup_insert_ne differs,
                  AList.lookup_erase_ne (apart other profile)]


namespace StoredMapping

variable {mapping : StoredMapping} {name : List Char}

theorem not_mem_others : name ∉ (mapping.others name).map (·.name) := by
  intro member
  obtain ⟨package, kept, same⟩ := List.mem_map.mp member
  have differs := (List.mem_filter.mp kept).2
  simp [same] at differs

theorem others_eq_packages (absent : name ∉ mapping.names) :
    mapping.others name = mapping.packages := by
  apply List.filter_eq_self.mpr
  intro package member
  apply decide_eq_true
  intro same
  exact absent (List.mem_map.mpr ⟨package, member, same⟩)

theorem remove_found : (mapping.remove name).2 = true ↔ name ∈ mapping.names := by
  have found : (mapping.others name).length < mapping.packages.length ↔
      ∃ package ∈ mapping.packages, ¬ decide (package.name ≠ name) = true :=
    List.length_filter_lt_length_iff_exists
  rw [remove, decide_eq_true_iff, found]
  simp [names]

theorem names_add_nodup (storePath : List Char) (now : UInt64) :
    (mapping.add name storePath now).names.Nodup ↔
      ((mapping.others name).map (·.name)).Nodup := by
  show ((mapping.others name ++ [(⟨name, storePath, now⟩ : StoredEntry)]).map (·.name)).Nodup ↔ _
  rw [List.map_append, List.map_cons, List.map_nil, List.nodup_append]
  constructor
  · intro distinct
    exact distinct.1
  · intro distinct
    refine ⟨distinct, List.nodup_singleton _, ?_⟩
    rintro other member _ last rfl
    rw [List.mem_singleton.mp last] at member
    exact not_mem_others member

end StoredMapping

section Control

variable (json : Json) (store : ProfileStore) (disk : Disk) (profile command : List Char)
  (now : UInt64)

/-- Memory and disk agree, the packages have distinct names, and an added one is the last. -/
structure StepDone (run : StoreRun Answer) : Prop where
  inStep : InStep run.store run.disk
  distinct : ∀ mapping, run.store.profiles.lookup profile = some mapping → mapping.names.Nodup
  last : ∀ cmd storePath, json.fromStr command = .ok cmd → cmd.action = "add".toList →
    cmd.storePath = some storePath →
    ∃ mapping, run.store.profiles.lookup profile = some mapping ∧
      mapping.packages.getLast? = some ⟨cmd.name, storePath, now⟩

/-- Memory and every `mapping.json` are as before. -/
structure StepUndone (run : StoreRun Answer) : Prop where
  memory : ∀ other, run.store.profiles.lookup other = store.profiles.lookup other
  files : ∀ other, IsProfileName other →
    run.disk.lookup (store.finalPath other) = disk.lookup (store.finalPath other)

/-- What a control command owes with success and with an error. -/
def KeepsStep (run : StoreRun Answer) : Prop :=
  match run.result with
  | .ok _ => StepDone json profile command now run
  | .error _ => StepUndone store disk run

/-- The commands that do so: no call fails, or nothing is to be written, or the mapping to be
written is the one in memory; and no other package is in the profile twice. -/
def StepKept (calls : FsCalls) (cmd : ControlCommand) : Prop :=
  let mapping := store.getOrCreate profile
  let distinct := ((mapping.others cmd.name).map (·.name)).Nodup
  if cmd.action = "add".toList then
    ∀ storePath, cmd.storePath = some storePath →
      (calls.Succeed → distinct) ∧
      (¬ calls.Succeed →
        store.profiles.lookup profile = some (mapping.add cmd.name storePath now))
  else if cmd.action = "remove".toList then
    (calls.Succeed ∨ cmd.name ∉ mapping.names) ∧ distinct
  else if cmd.action = "list".toList then
    mapping.names.Nodup
  else
    True

end Control

namespace ProfileStore

variable {store : ProfileStore} {disk : Disk} {profile : List Char}

theorem put_unchanged_iff (proper : IsProfileName profile) (mapping : StoredMapping) :
    (∀ other, (store.put profile proper mapping).profiles.lookup other =
      store.profiles.lookup other) ↔ store.profiles.lookup profile = some mapping := by
  constructor
  · intro same
    rw [← same profile, lookup_put, if_pos rfl]
  · intro found other
    rw [lookup_put]
    split
    · rename_i same
      rw [same, found]
    · rfl

/-- Writing a changed mapping brings the disk in step with it, or changes only memory. -/
theorem persist_put (inStep : InStep store disk) (proper : IsProfileName profile)
    (mapping : StoredMapping) (calls : FsCalls) :
    let run := (store.put profile proper mapping).persist disk profile calls
    run.store = store.put profile proper mapping ∧
      (calls.Succeed ∧ run.result = .ok () ∧ InStep run.store run.disk ∨
        ¬ calls.Succeed ∧ (∃ reason, run.result = .error reason) ∧
          ∀ other, run.disk.lookup (store.finalPath other) =
            disk.lookup (store.finalPath other)) := by
  have found : (store.put profile proper mapping).profiles.lookup profile = some mapping := by
    rw [lookup_put, if_pos rfl]
  obtain ⟨kept, ⟨succeed, fine, written⟩ | ⟨failed, wrong, same⟩⟩ := persist_spec found disk calls
  · refine ⟨kept, .inl ⟨succeed, fine, ?_⟩⟩
    intro other held present
    rw [kept] at present ⊢
    have named : IsProfileName other :=
      (store.put profile proper mapping).named other (AList.lookup_isSome.mp (by rw [present]; rfl))
    rw [written other named]
    rw [lookup_put] at present
    split at present
    · rename_i here
      cases present
      rw [if_pos here]
    · rename_i elsewhere
      rw [if_neg elsewhere]
      exact inStep other held present
  · exact ⟨kept, .inr ⟨failed, wrong, same⟩⟩

end ProfileStore

section Control

variable {json : Json} {store : ProfileStore} {disk : Disk} {profile command : List Char}
  {cmd : ControlCommand}

theorem keepsStep_of_ok {now : UInt64} {run : StoreRun Answer} {answer : Answer}
    (fine : run.result = .ok answer) :
    KeepsStep json store disk profile command now run ↔
      StepDone json profile command now run := by
  rw [KeepsStep, fine]

theorem keepsStep_of_error {now : UInt64} {run : StoreRun Answer} {reason : List Char}
    (wrong : run.result = .error reason) :
    KeepsStep json store disk profile command now run ↔ StepUndone store disk run := by
  rw [KeepsStep, wrong]

theorem refused_keepsStep (now : UInt64) (reason : List Char) :
    KeepsStep json store disk profile command now ⟨store, disk, [], .error reason⟩ :=
  (keepsStep_of_error rfl).mpr ⟨fun _ => rfl, fun _ _ => rfl⟩

/-- Adding a package keeps step unless a call fails after the mapping has changed. -/
theorem add_keepsStep_iff (parsed : json.fromStr command = .ok cmd) {storePath : List Char}
    (given : cmd.storePath = some storePath) (inStep : InStep store disk)
    (proper : IsProfileName profile) (calls : FsCalls) (now : UInt64) (answer : Answer) :
    KeepsStep json store disk profile command now
        ((store.addPackage disk profile proper cmd.name storePath calls now).map fun _ => answer) ↔
      (calls.Succeed → (((store.getOrCreate profile).others cmd.name).map (·.name)).Nodup) ∧
      (¬ calls.Succeed → store.profiles.lookup profile =
        some ((store.getOrCreate profile).add cmd.name storePath now)) := by
  have added : (store.put profile proper
      ((store.getOrCreate profile).add cmd.name storePath now)).profiles.lookup profile =
      some ((store.getOrCreate profile).add cmd.name storePath now) := by
    rw [ProfileStore.lookup_put, if_pos rfl]
  obtain ⟨kept, ⟨succeed, fine, written⟩ | ⟨failed, ⟨reason, wrong⟩, same⟩⟩ :=
    ProfileStore.persist_put inStep proper
      ((store.getOrCreate profile).add cmd.name storePath now) calls
  · have done : ((store.addPackage disk profile proper cmd.name storePath calls now).map
        fun _ => answer).result = .ok answer := by
      rw [StoreRun.map, ProfileStore.addPackage, fine, Except.map]
    rw [keepsStep_of_ok done]
    constructor
    · intro step
      refine ⟨fun _ => ?_, fun failed => absurd succeed failed⟩
      have distinct := step.distinct
      simp only [StoreRun.map, ProfileStore.addPackage, kept] at distinct
      exact (StoredMapping.names_add_nodup storePath now).mp (distinct _ added)
    · intro ⟨distinct, _⟩
      refine ⟨written, ?_, ?_⟩
      · intro held present
        simp only [StoreRun.map, ProfileStore.addPackage, kept, added, Option.some.injEq] at present
        rw [← present]
        exact (StoredMapping.names_add_nodup storePath now).mpr (distinct succeed)
      · intro other path again _ path_
        rw [parsed, Except.ok.injEq] at again
        rw [← again, given, Option.some.injEq] at path_
        simp only [StoreRun.map, ProfileStore.addPackage, kept]
        rw [← again, ← path_]
        exact ⟨_, added, List.getLast?_concat⟩
  · have undone : ((store.addPackage disk profile proper cmd.name storePath calls now).map
        fun _ => answer).result = .error reason := by
      rw [StoreRun.map, ProfileStore.addPackage, wrong, Except.map]
    rw [keepsStep_of_error undone]
    constructor
    · intro step
      have memory := step.memory
      simp only [StoreRun.map, ProfileStore.addPackage, kept] at memory
      exact ⟨fun succeed => absurd succeed failed,
        fun _ => (ProfileStore.put_unchanged_iff proper _).mp memory⟩
    · intro ⟨_, unchanged⟩
      refine ⟨?_, fun other _ => same other⟩
      simp only [StoreRun.map, ProfileStore.addPackage, kept]
      exact (ProfileStore.put_unchanged_iff proper _).mpr (unchanged failed)

/-- A command that succeeds without a change keeps step if the packages are distinct. -/
theorem untouched_keepsStep_iff (parsed : json.fromStr command = .ok cmd)
    (action : cmd.action ≠ "add".toList) {run : StoreRun Answer} {answer : Answer}
    (fine : run.result = .ok answer)
    (memory : ∀ other, run.store.profiles.lookup other = store.profiles.lookup other)
    (inStep : InStep run.store run.disk) (now : UInt64) :
    KeepsStep json store disk profile command now run ↔
      (store.getOrCreate profile).names.Nodup := by
  rw [keepsStep_of_ok fine, ProfileStore.getOrCreate]
  constructor
  · intro step
    have distinct := step.distinct
    rw [memory] at distinct
    cases found : store.profiles.lookup profile with
    | none => exact List.nodup_nil
    | some mapping => exact distinct mapping found
  · intro distinct
    refine ⟨inStep, ?_, ?_⟩
    · intro mapping found
      rw [memory] at found
      rw [found] at distinct
      exact distinct
    · intro other path again adds _
      rw [parsed, Except.ok.injEq] at again
      exact absurd (again ▸ adds) action

/-- Removing a package the profile has keeps step unless a call fails. -/
theorem removed_keepsStep_iff (parsed : json.fromStr command = .ok cmd)
    (action : cmd.action ≠ "add".toList) {mapping : StoredMapping}
    (found : store.profiles.lookup profile = some mapping) (member : cmd.name ∈ mapping.names)
    (inStep : InStep store disk) (proper : IsProfileName profile) (calls : FsCalls)
    (now : UInt64) (answer : Bool → Answer) :
    KeepsStep json store disk profile command now
        ((store.removePackage disk profile proper cmd.name calls).map answer) ↔
      (calls.Succeed ∨ cmd.name ∉ mapping.names) ∧
      ((mapping.others cmd.name).map (·.name)).Nodup := by
  have removed : (mapping.remove cmd.name).2 = true := StoredMapping.remove_found.mpr member
  have run : store.removePackage disk profile proper cmd.name calls =
      ((store.put profile proper (mapping.remove cmd.name).1).persist disk profile calls).map
        fun _ => true := by
    simp only [ProfileStore.removePackage, found, removed, ↓reduceIte]
  have left : (store.put profile proper (mapping.remove cmd.name).1).profiles.lookup profile =
      some (mapping.remove cmd.name).1 := by
    rw [ProfileStore.lookup_put, if_pos rfl]
  rw [run]
  obtain ⟨kept, ⟨succeed, fine, written⟩ | ⟨failed, ⟨reason, wrong⟩, same⟩⟩ :=
    ProfileStore.persist_put inStep proper (mapping.remove cmd.name).1 calls
  · have done : ((((store.put profile proper (mapping.remove cmd.name).1).persist disk profile
        calls).map fun _ => true).map answer).result = .ok (answer true) := by
      rw [StoreRun.map, StoreRun.map, fine, Except.map, Except.map]
    rw [keepsStep_of_ok done]
    constructor
    · intro step
      have distinct := step.distinct
      simp only [StoreRun.map, kept] at distinct
      exact ⟨.inl succeed, distinct _ left⟩
    · intro ⟨_, distinct⟩
      refine ⟨written, ?_, ?_⟩
      · intro held present
        simp only [StoreRun.map, kept, left, Option.some.injEq] at present
        rw [← present]
        exact distinct
      · intro other path again adds _
        rw [parsed, Except.ok.injEq] at again
        exact absurd (again ▸ adds) action
  · have undone : ((((store.put profile proper (mapping.remove cmd.name).1).persist disk profile
        calls).map fun _ => true).map answer).result = .error reason := by
      rw [StoreRun.map, StoreRun.map, wrong, Except.map, Except.map]
    rw [keepsStep_of_error undone]
    constructor
    · intro step
      have memory := step.memory
      simp only [StoreRun.map, kept] at memory
      have unchanged := (ProfileStore.put_unchanged_iff proper _).mp memory
      rw [found, Option.some.injEq] at unchanged
      -- the removed package would still be there
      have gone : cmd.name ∉ (mapping.remove cmd.name).1.names := StoredMapping.not_mem_others
      rw [← unchanged] at gone
      exact absurd member gone
    · intro ⟨fine, _⟩
      rcases fine with succeed | absent
      · exact absurd succeed failed
      · exact absurd member absent

/-- Removing a package keeps step unless a call fails after the mapping has changed. -/
theorem remove_keepsStep_iff (parsed : json.fromStr command = .ok cmd)
    (action : cmd.action ≠ "add".toList) (inStep : InStep store disk)
    (proper : IsProfileName profile) (calls : FsCalls) (now : UInt64) (answer : Bool → Answer) :
    KeepsStep json store disk profile command now
        ((store.removePackage disk profile proper cmd.name calls).map answer) ↔
      (calls.Succeed ∨ cmd.name ∉ (store.getOrCreate profile).names) ∧
      (((store.getOrCreate profile).others cmd.name).map (·.name)).Nodup := by
  cases found : store.profiles.lookup profile with
  | none =>
      have run : store.removePackage disk profile proper cmd.name calls =
          ⟨store, disk, [], .ok false⟩ := by
        rw [ProfileStore.removePackage, found]
      have empty : store.getOrCreate profile = ⟨1, []⟩ := by
        rw [ProfileStore.getOrCreate, found, Option.getD_none]
      have answered : ((⟨store, disk, [], .ok false⟩ : StoreRun Bool).map answer).result =
          .ok (answer false) := rfl
      have same : ∀ other, store.profiles.lookup other = store.profiles.lookup other :=
        fun _ => rfl
      rw [run, untouched_keepsStep_iff parsed action answered same inStep, empty]
      simp [StoredMapping.names, StoredMapping.others]
  | some mapping =>
      have held := ProfileStore.getOrCreate_found found
      rw [held]
      by_cases member : cmd.name ∈ mapping.names
      · exact removed_keepsStep_iff parsed action found member inStep proper calls now answer
      · have kept : (mapping.remove cmd.name).1 = mapping := by
          rw [StoredMapping.remove, StoredMapping.others_eq_packages member]
        have absent : (mapping.remove cmd.name).2 = false :=
          Bool.eq_false_iff.mpr (mt StoredMapping.remove_found.mp member)
        have run : store.removePackage disk profile proper cmd.name calls =
            ⟨store.put profile proper mapping, disk, [], .ok false⟩ := by
          simp only [ProfileStore.removePackage, found, kept, absent, Bool.false_eq_true, ↓reduceIte]
        have memory := (ProfileStore.put_unchanged_iff proper mapping).mpr found
        have answered : ((⟨store.put profile proper mapping, disk, [], .ok false⟩ :
            StoreRun Bool).map answer).result = .ok (answer false) := rfl
        have stays : InStep (store.put profile proper mapping) disk := by
          intro other present there
          rw [memory] at there
          exact inStep other present there
        rw [run, untouched_keepsStep_iff parsed action answered memory stays, held,
          StoredMapping.others_eq_packages member, StoredMapping.names]
        exact ⟨fun distinct => ⟨.inr member, distinct⟩, fun kept => kept.2⟩

/-- A control command keeps memory and disk in step exactly if it is none of those that
change memory and then fail to write, and leaves no package in the profile twice. -/
theorem processControl_keepsStep_iff (json : Json) (inStep : InStep store disk)
    (proper : IsProfileName profile) (command : List Char) (calls : FsCalls) (now : UInt64) :
    KeepsStep json store disk profile command now
        (store.processControl json disk profile proper command calls now) ↔
      ∀ cmd, json.fromStr command = .ok cmd → StepKept store profile now calls cmd := by
  cases parsed : json.fromStr command with
  | error reason =>
      simp only [ProfileStore.processControl, parsed]
      apply iff_of_true (refused_keepsStep now reason)
      intro cmd impossible
      cases impossible
  | ok cmd =>
      have one : (∀ other, Except.ok cmd = (.ok other : Except (List Char) ControlCommand) →
          StepKept store profile now calls other) ↔ StepKept store profile now calls cmd := by
        simp
      simp only [ProfileStore.processControl, parsed]
      rw [one, StepKept]
      by_cases add : cmd.action = "add".toList
      · rw [if_pos add, if_pos add]
        cases given : cmd.storePath with
        | none =>
            apply iff_of_true (refused_keepsStep now _)
            intro storePath impossible
            cases impossible
        | some storePath =>
            simp only [add_keepsStep_iff parsed given inStep, Option.some.injEq, forall_eq']
      · rw [if_neg add, if_neg add]
        by_cases remove : cmd.action = "remove".toList
        · rw [if_pos remove, if_pos remove]
          exact remove_keepsStep_iff parsed add inStep proper calls now _
        · rw [if_neg remove, if_neg remove]
          by_cases list : cmd.action = "list".toList
          · rw [if_pos list, if_pos list]
            have same : ∀ other, store.profiles.lookup other = store.profiles.lookup other :=
              fun _ => rfl
            let run : StoreRun Answer :=
              ⟨store, disk, [], .ok (json.toStringPretty (store.profiles.lookup profile), none)⟩
            have answered : run.result =
                .ok (json.toStringPretty (store.profiles.lookup profile), none) := rfl
            exact untouched_keepsStep_iff parsed add answered same inStep now
          · rw [if_neg list, if_neg list]
            exact iff_of_true (refused_keepsStep now _) trivial

end Control

def addRipgrep : ControlCommand :=
  ⟨"add".toList, "ripgrep".toList, some "/nix/store/abc-ripgrep-14.1.0".toList, []⟩

def ripgrepText : List Char :=
  ("\x7b\"action\":\"add\",\"name\":\"ripgrep\"," ++
    "\"storePath\":\"/nix/store/abc-ripgrep-14.1.0\"\x7d").toList

def ripgrepJson : Json where
  fromStr text := if text = ripgrepText then .ok addRipgrep else .error "expected value".toList
  toStringPretty _ := "null".toList

theorem ripgrepText_parsed : ripgrepJson.fromStr ripgrepText = .ok addRipgrep := by
  simp only [ripgrepJson, ↓reduceIte]

def emptyStore : ProfileStore where
  profiles := ∅
  named := fun _ member => absurd member (AList.notMem_empty _)
  profilesDir := "/nix/var/snix/profiles".toList

theorem emptyStore_inStep : InStep emptyStore ∅ := by
  intro profile mapping found
  cases found

theorem dev_named : IsProfileName "dev".toList := ⟨by decide, by decide⟩

theorem ripgrep_added :
    KeepsStep ripgrepJson emptyStore ∅ "dev".toList ripgrepText 1771495200
      (emptyStore.processControl ripgrepJson ∅ "dev".toList dev_named ripgrepText
        ⟨.ok true, .written, .ok ()⟩ 1771495200) := by
  have empty : emptyStore.getOrCreate "dev".toList = ⟨1, []⟩ := rfl
  apply (processControl_keepsStep_iff ripgrepJson emptyStore_inStep dev_named ripgrepText
    ⟨.ok true, .written, .ok ()⟩ 1771495200).mpr
  intro cmd parsed
  rw [ripgrepText_parsed, Except.ok.injEq] at parsed
  have action : addRipgrep.action = "add".toList := rfl
  rw [← parsed, StepKept, if_pos action, empty]
  intro storePath _
  exact ⟨fun _ => List.nodup_nil, fun failed => absurd ⟨⟨true, rfl⟩, rfl, rfl⟩ failed⟩

/-- A package whose mapping cannot be written stays in memory. -/
theorem unwritten_package_kept :
    ¬ ∀ (json : Json) (store : ProfileStore) (disk : Disk) (profile : List Char)
        (proper : IsProfileName profile) (command : List Char) (calls : FsCalls) (now : UInt64),
      InStep store disk → KeepsStep json store disk profile command now
        (store.processControl json disk profile proper command calls now) := by
  intro every
  let calls : FsCalls := ⟨.error "Permission denied (os error 13)".toList, .written, .ok ()⟩
  have keeps := every ripgrepJson emptyStore ∅ "dev".toList dev_named ripgrepText calls
    1771495200 emptyStore_inStep
  have run : emptyStore.processControl ripgrepJson ∅ "dev".toList dev_named ripgrepText calls
      1771495200 =
      ⟨emptyStore.put "dev".toList dev_named
        ⟨1, [⟨addRipgrep.name, "/nix/store/abc-ripgrep-14.1.0".toList, 1771495200⟩]⟩, ∅, [],
        .error "Permission denied (os error 13)".toList⟩ := by
    rw [ProfileStore.processControl, ripgrepText_parsed]
    rfl
  rw [run] at keeps
  have memory := keeps.memory "dev".toList
  rw [ProfileStore.lookup_put, if_pos rfl] at memory
  cases memory

end NixRedox.Profiled
