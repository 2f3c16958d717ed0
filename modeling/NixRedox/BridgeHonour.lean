import NixRedox.Attempts
import NixRedox.BridgeEval
import NixRedox.RebuildChanges

set_option autoImplicit false

/- When a system built over the bridge is the one the configuration asks for. -/
namespace NixRedox.BridgeEval

open AttrSets
open KeyedMap (lookup_of_mem mem_of_lookup)
open NixRedox.Rebuild (RebuildConfig unset)

section Settings

variable {α : Type}

/-- The fields of a group, none where the group is not there. -/
def members (json : α → List (String × Value)) : Option α → List (String × Value)
  | none => []
  | some group => json group

/-- The fields of a configuration, packages and services apart, by the module they belong to. -/
def fields (config : RebuildConfig) : List (String × List (String × Value)) :=
  [("/time", [("hostname", optional .string config.hostname),
      ("timezone", optional .string config.timezone)]),
    ("/networking", members networkingJson config.networking),
    ("/graphics", members graphicsJson config.graphics),
    ("/security", members securityJson config.security),
    ("/logging", members loggingJson config.logging),
    ("/power", members powerJson config.power),
    ("/users", [("users", optional usersJson config.users)]),
    ("/programs", members programsJson config.programs),
    ("/environment", [("files", optional filesJson config.files)]),
    ("/hardware", members hardwareJson config.hardware)]

/-- What the option that a field configures is called in its module. -/
def optionName (path field : String) : String :=
  if path = "/logging" ∧ field = "kernelLevel" then "kernelLogLevel"
  else if path = "/power" ∧ field = "acpiEnabled" then "acpiEnable"
  else if path = "/hardware" ∧ field = "usbEnabled" then "usbEnable"
  else if path = "/environment" ∧ field = "files" then "etc"
  else field

/-- The configuration sets an option of a module to a value. -/
def IsSetting (config : RebuildConfig) (path name : String) (value : Value) : Prop :=
  ∃ entries field, (path, entries) ∈ fields config ∧ (field, value) ∈ entries ∧
    value ≠ .null ∧ optionName path field = name

/-- The configuration has a setting for the option. -/
def Configured (config : RebuildConfig) (path name : String) : Prop :=
  (∃ value, IsSetting config path name value) ∨
    (config.packages.isSome ∧ path = "/environment" ∧ name = "systemPackages") ∨
    (config.services.isSome ∧ path = "/services" ∧ name = "services")

/-- The value of an option, where it is not set its default. -/
def valueOf (defaults options : Options) (path name : String) : Option Value :=
  (option options path name).or (option defaults path name)

/-- The services that a module declares are those named. -/
def Declares (services : Option Value) (names : List String) : Prop :=
  ∃ entries, services = some (.attrs entries) ∧ ∀ name, name ∈ names ↔ name ∈ entries.map Prod.fst

/-- The options after a rebuild are those the configuration asks for, the others as before. -/
structure Honours (systemPkgs : Attrs) (defaults before : Options) (config : RebuildConfig)
    (after : Options) : Prop where
  packages : ∀ names, config.packages = some names → ∀ name ∈ names, ∃ package installed,
    systemPkgs.lookup name = some package ∧
    valueOf defaults after "/environment" "systemPackages" = some (.list installed) ∧
    package ∈ installed
  services : ∀ names, config.services = some names →
    Declares (valueOf defaults after "/services" "services") names
  settings : ∀ path name value, IsSetting config path name value →
    valueOf defaults after path name = some value
  kept : ∀ path name, ¬ Configured config path name → ∀ value,
    valueOf defaults before path name = some value →
    valueOf defaults after path name = some value

end Settings

section Writes

/-- The modules that the host translates a group for, with the fields it writes there. -/
def groups (config : RebuildConfig) : List (String × List (String × Value)) :=
  [("/networking", members networkingJson config.networking),
    ("/graphics", members graphicsJson config.graphics),
    ("/security", members securityJson config.security),
    ("/logging", members loggingJson config.logging),
    ("/power", members powerJson config.power),
    ("/programs", members programsJson config.programs)]

/-- A set group is written whole, so what it leaves unset or calls by another name than the
module takes the place of what the profile has there. -/
def Undisturbed (defaults options : Options) (config : RebuildConfig) : Prop :=
  ∀ path entries, (path, entries) ∈ groups config → ∀ field written, (field, written) ∈ entries →
    ¬ Configured config path field → ∀ value, valueOf defaults options path field = some value →
    value = written

/-- What the host has no translation for is what the profile has already. -/
structure Untranslated (defaults options : Options) (config : RebuildConfig) : Prop where
  files : ∀ files, config.files = some files →
    valueOf defaults options "/environment" "etc" = some (filesJson files)
  services : ∀ names, config.services = some names →
    Declares (valueOf defaults options "/services" "services") names
  hardware : ∀ field value, (field, value) ∈ members hardwareJson config.hardware →
    value ≠ .null → valueOf defaults options "/hardware" (optionName "/hardware" field) = some value
  kernelLevel : ∀ log level, config.logging = some log → log.kernelLevel = some level →
    valueOf defaults options "/logging" "kernelLogLevel" = some (.string level)
  acpiEnabled : ∀ pwr enabled, config.power = some pwr → pwr.acpiEnabled = some enabled →
    valueOf defaults options "/power" "acpiEnable" = some (.bool enabled)

/-- An override set changes one module. -/
structure Covers (options overrides : Options) (path : String)
    (changes : List (String × Value)) : Prop where
  elsewhere : ∀ other, other ≠ path → overrides.lookup other = none
  here : ∀ name, ((overrides.lookup path).getD (existing options path)).lookup name =
    (changes.lookup name).or (option options path name)

theorem covers_empty (options : Options) (path : String) : Covers options ∅ path [] where
  elsewhere := by
    intro other _
    exact AList.lookup_empty other
  here := by
    intro name
    rw [AList.lookup_empty, Option.getD_none, lookup_existing]
    rfl

theorem covers_update (options : Options) (path : String) (changes : List (String × Value)) :
    Covers options (ofEntries [(path, update (existing options path) (ofEntries changes))]) path
      changes where
  elsewhere := by
    intro other differ
    have unequal : (other == path) = false := beq_false_of_ne differ
    rw [lookup_ofEntries, List.lookup_cons, unequal]
    rfl
  here := by
    intro name
    rw [lookup_ofEntries, List.lookup_cons_self, Option.getD_some, lookup_update,
      lookup_ofEntries, lookup_existing]

theorem nonNull_optional {α : Type} {config : RebuildConfig} {field : String} {json : α → Value}
    {set : Option α} (found : (configJson config).lookup field = some (optional json set))
    (solid : ∀ value, json value ≠ .null) :
    nonNull (configJson config) field = set.map json := by
  unfold nonNull
  rw [found]
  cases set with
  | none => rfl
  | some value => simp [optional, solid value]

/-- The host writes every field of a group that is there. -/
theorem groupOverride_covers {α : Type} {config : RebuildConfig} {path field : String}
    {json : α → List (String × Value)} {group : Option α} {options result : Options}
    (found : (configJson config).lookup field = some (optional (fun g => .attrs (json g)) group))
    (computed : groupOverride path field options (configJson config) = .ok result) :
    Covers options result path (members json group) := by
  unfold groupOverride at computed
  rw [nonNull_optional found (by simp)] at computed
  cases group with
  | none =>
      cases computed
      exact covers_empty options path
  | some g =>
      cases computed
      exact covers_update options path (json g)

/-- The entry of a field that is set. -/
def given {α : Type} (field : String) (json : α → Value) : Option α → List (String × Value)
  | none => []
  | some value => [(field, json value)]

theorem present_lookup {α : Type} {config : RebuildConfig} {field : String} {json : α → Value}
    {set : Option α} (found : (configJson config).lookup field = some (optional json set))
    (solid : ∀ value, json value ≠ .null) (name : String) :
    (present (configJson config) field).lookup name = (given field json set).lookup name := by
  unfold present
  rw [nonNull_optional found solid]
  cases set with
  | none => exact AList.lookup_empty name
  | some value => exact lookup_ofEntries [(field, json value)] name

theorem timeOverride_covers (config : RebuildConfig) (options : Options) :
    Covers options (timeOverride options (configJson config)) "/time"
      (given "timezone" .string config.timezone ++ given "hostname" .string config.hostname) := by
  have fieldsLookup : ∀ name, (update (update (existing options "/time")
      (present (configJson config) "hostname")) (present (configJson config) "timezone")).lookup
        name = ((given "timezone" .string config.timezone ++
          given "hostname" .string config.hostname).lookup name).or (option options "/time" name) := by
    intro name
    rw [lookup_update, lookup_update, lookup_existing,
      present_lookup (lookup_ofEntries _ "hostname") (by simp),
      present_lookup (lookup_ofEntries _ "timezone") (by simp), List.lookup_append, Option.or_assoc]
  unfold timeOverride
  dsimp only
  split
  · rename_i same
    refine ⟨fun other _ => AList.lookup_empty other, ?_⟩
    intro name
    rw [AList.lookup_empty, Option.getD_none, ← fieldsLookup name]
    exact (same name).symm
  · refine ⟨?_, ?_⟩
    · intro other differ
      have unequal : (other == "/time") = false := beq_false_of_ne differ
      rw [lookup_ofEntries, List.lookup_cons, unequal]
      rfl
    · intro name
      rw [lookup_ofEntries, List.lookup_cons_self, Option.getD_some]
      exact fieldsLookup name

theorem usrOverride_covers (config : RebuildConfig) (options : Options) :
    Covers options (usrOverride options (configJson config)) "/users"
      (given "users" usersJson config.users) := by
  unfold usrOverride
  rw [nonNull_optional (lookup_ofEntries _ "users") (by simp [usersJson])]
  cases config.users with
  | none => exact covers_empty options "/users"
  | some users => exact covers_update options "/users" [("users", usersJson users)]

theorem resolvePackage_mapM {systemPkgs : Attrs} {names : List String} {requested : List Value}
    (resolved : (names.map Value.string).mapM (resolvePackage systemPkgs) = .ok requested) :
    ∀ name ∈ names, ∃ package ∈ requested, systemPkgs.lookup name = some package := by
  induction names generalizing requested with
  | nil => simp
  | cons first rest ih =>
      rw [List.map_cons, List.mapM_cons] at resolved
      cases found : systemPkgs.lookup first with
      | none => simp [resolvePackage, found, bind, Except.bind] at resolved
      | some package =>
          cases others : (rest.map Value.string).mapM (resolvePackage systemPkgs) with
          | error reason =>
              simp [resolvePackage, found, others, bind, Except.bind] at resolved
          | ok more =>
              simp only [resolvePackage, found, others, bind, Except.bind, pure, Except.pure,
                Except.ok.injEq] at resolved
              subst resolved
              intro name member
              rcases List.mem_cons.mp member with same | later
              · subst same
                exact ⟨package, List.mem_cons_self, found⟩
              · obtain ⟨other, inside, known⟩ := ih others name later
                exact ⟨other, List.mem_cons_of_mem package inside, known⟩

theorem mem_combinedPkgs {existingPkgs requestedPkgs : List Value} {package : Value}
    (member : package ∈ requestedPkgs) : package ∈ combinedPkgs existingPkgs requestedPkgs := by
  unfold combinedPkgs
  rw [List.mem_append]
  by_cases inside : package ∈ existingPkgs
  · exact .inl inside
  · apply Or.inr
    rw [List.mem_filter]
    refine ⟨member, ?_⟩
    simp only [Bool.not_eq_true', List.any_eq_false, beq_iff_eq]
    intro other there same
    exact inside (same ▸ there)

theorem envOverride_covers {systemPkgs : Attrs} {config : RebuildConfig} {options result : Options}
    (computed : envOverride systemPkgs options (configJson config) = .ok result) :
    ∃ installed, Covers options result "/environment"
        (given "systemPackages" (fun _ => .list installed) config.packages) ∧
      ∀ names, config.packages = some names → ∀ name ∈ names, ∃ package ∈ installed,
        systemPkgs.lookup name = some package := by
  unfold envOverride at computed
  rw [nonNull_optional (lookup_ofEntries _ "packages") (by simp [strings])] at computed
  cases packages : config.packages with
  | none =>
      rw [packages] at computed
      cases computed
      exact ⟨[], covers_empty options "/environment", by simp⟩
  | some names =>
      rw [packages] at computed
      simp only [Option.map_some, strings] at computed
      cases resolved : (names.map Value.string).mapM (resolvePackage systemPkgs) with
      | error reason => simp [resolved, bind, Except.bind] at computed
      | ok requested =>
          simp only [resolved, bind, Except.bind] at computed
          split at computed
          · rename_i existingPkgs _
            cases computed
            refine ⟨combinedPkgs existingPkgs requested, covers_update options "/environment"
              [("systemPackages", .list (combinedPkgs existingPkgs requested))], ?_⟩
            intro all same name member
            cases same
            obtain ⟨package, inside, known⟩ := resolvePackage_mapM resolved name member
            exact ⟨package, mem_combinedPkgs inside, known⟩
          · cases computed

/-- What an override set writes, module by module. -/
structure Writes (options overrides : Options) (table : List (String × List (String × Value))) :
    Prop where
  elsewhere : ∀ path, path ∉ table.map Prod.fst → overrides.lookup path = none
  here : ∀ path name, ((overrides.lookup path).getD (existing options path)).lookup name =
    ((table.lookup path).bind fun changes => changes.lookup name).or (option options path name)

theorem Covers.writes {options overrides : Options} {path : String}
    {changes : List (String × Value)} (covers : Covers options overrides path changes) :
    Writes options overrides [(path, changes)] where
  elsewhere := by
    intro other outside
    apply covers.elsewhere
    simpa using outside
  here := by
    intro other name
    by_cases same : other = path
    · subst same
      rw [List.lookup_cons_self, Option.bind_some]
      exact covers.here name
    · have unequal : (other == path) = false := beq_false_of_ne same
      rw [covers.elsewhere other same, Option.getD_none, lookup_existing, List.lookup_cons, unequal]
      rfl

/-- One more module, that the overrides so far leave alone. -/
theorem Writes.update {options one two : Options} {path : String}
    {table : List (String × List (String × Value))} {changes : List (String × Value)}
    (writes : Writes options one table) (covers : Covers options two path changes)
    (fresh : path ∉ table.map Prod.fst) :
    Writes options (update one two) ((path, changes) :: table) where
  elsewhere := by
    intro other outside
    rw [List.map_cons, List.mem_cons, not_or] at outside
    rw [lookup_update, covers.elsewhere other outside.1, writes.elsewhere other outside.2,
      Option.none_or]
  here := by
    intro other name
    rw [lookup_update]
    by_cases same : other = path
    · subst same
      rw [writes.elsewhere other fresh, Option.or_none, List.lookup_cons_self, Option.bind_some]
      exact covers.here name
    · have unequal : (other == path) = false := beq_false_of_ne same
      rw [covers.elsewhere other same, Option.none_or, List.lookup_cons, unequal]
      exact writes.here other name

/-- All that the overrides write, the last first. -/
def written (installed : List Value) (config : RebuildConfig) :
    List (String × List (String × Value)) :=
  [("/programs", members programsJson config.programs),
    ("/users", given "users" usersJson config.users),
    ("/power", members powerJson config.power),
    ("/logging", members loggingJson config.logging),
    ("/security", members securityJson config.security),
    ("/graphics", members graphicsJson config.graphics),
    ("/networking", members networkingJson config.networking),
    ("/time", given "timezone" .string config.timezone ++ given "hostname" .string config.hostname),
    ("/environment", given "systemPackages" (fun _ => .list installed) config.packages)]

/-- After a rebuild an option is what the overrides write, and else what the profile sets. -/
theorem option_overrides {systemPkgs : Attrs} {config : RebuildConfig} {options result : Options}
    (computed : overrides systemPkgs options (configJson config) = .ok result) :
    ∃ installed, (∀ names, config.packages = some names → ∀ name ∈ names,
        ∃ package ∈ installed, systemPkgs.lookup name = some package) ∧
      ∀ path name, option (extend options result) path name =
        (((written installed config).lookup path).bind fun changes => changes.lookup name).or
          (option options path name) := by
  unfold overrides at computed
  obtain ⟨env, envDone, computed⟩ := Attempts.bind_eq_ok.mp computed
  obtain ⟨net, netDone, computed⟩ := Attempts.bind_eq_ok.mp computed
  obtain ⟨gfx, gfxDone, computed⟩ := Attempts.bind_eq_ok.mp computed
  obtain ⟨sec, secDone, computed⟩ := Attempts.bind_eq_ok.mp computed
  obtain ⟨log, logDone, computed⟩ := Attempts.bind_eq_ok.mp computed
  obtain ⟨pwr, pwrDone, computed⟩ := Attempts.bind_eq_ok.mp computed
  obtain ⟨prg, prgDone, computed⟩ := Attempts.bind_eq_ok.mp computed
  cases computed
  obtain ⟨installed, envCovers, resolved⟩ := envOverride_covers envDone
  have writes := envCovers.writes.update (timeOverride_covers config options) (by simp)
    |>.update (groupOverride_covers (lookup_ofEntries _ "networking") netDone) (by simp)
    |>.update (groupOverride_covers (lookup_ofEntries _ "graphics") gfxDone) (by simp)
    |>.update (groupOverride_covers (lookup_ofEntries _ "security") secDone) (by simp)
    |>.update (groupOverride_covers (lookup_ofEntries _ "logging") logDone) (by simp)
    |>.update (groupOverride_covers (lookup_ofEntries _ "power") pwrDone) (by simp)
    |>.update (usrOverride_covers config options) (by simp)
    |>.update (groupOverride_covers (lookup_ofEntries _ "programs") prgDone) (by simp)
  refine ⟨installed, resolved, ?_⟩
  intro path name
  rw [option_extend]
  exact writes.here path name

end Writes

section Honoured

variable {systemPkgs : Attrs} {defaults options result : Options} {config : RebuildConfig}
  {installed : List Value}

theorem written_group {path : String} {entries : List (String × Value)}
    (member : (path, entries) ∈ groups config) :
    (written installed config).lookup path = some entries := by
  simp only [groups, List.mem_cons, Prod.mk.injEq, List.not_mem_nil, or_false] at member
  rcases member with ⟨rfl, rfl⟩ | ⟨rfl, rfl⟩ | ⟨rfl, rfl⟩ | ⟨rfl, rfl⟩ | ⟨rfl, rfl⟩ | ⟨rfl, rfl⟩ <;>
    rfl

/-- No group has two fields of one name. -/
theorem groups_distinct {path : String} {entries : List (String × Value)}
    (member : (path, entries) ∈ groups config) : (entries.map Prod.fst).Nodup := by
  simp only [groups, List.mem_cons, Prod.mk.injEq, List.not_mem_nil, or_false] at member
  rcases member with ⟨rfl, rfl⟩ | ⟨rfl, rfl⟩ | ⟨rfl, rfl⟩ | ⟨rfl, rfl⟩ | ⟨rfl, rfl⟩ | ⟨rfl, rfl⟩
  · cases config.networking <;> simp [members, networkingJson]
  · cases config.graphics <;> simp [members, graphicsJson]
  · cases config.security <;> simp [members, securityJson]
  · cases config.logging <;> simp [members, loggingJson]
  · cases config.power <;> simp [members, powerJson]
  · cases config.programs <;> simp [members, programsJson]

/-- What the overrides write to an option. -/
def writtenTo (installed : List Value) (config : RebuildConfig) (path name : String) :
    Option Value :=
  ((written installed config).lookup path).bind fun changes => changes.lookup name

theorem valueOf_extend
    (after : ∀ path name, option (extend options result) path name =
      (writtenTo installed config path name).or (option options path name))
    (path name : String) :
    valueOf defaults (extend options result) path name =
      (writtenTo installed config path name).or (valueOf defaults options path name) := by
  rw [valueOf, after, Option.or_assoc]
  rfl

theorem writtenTo_group {path field : String} {value : Value} {entries : List (String × Value)}
    (member : (path, entries) ∈ groups config) (inside : (field, value) ∈ entries) :
    writtenTo installed config path field = some value := by
  rw [writtenTo, written_group member, Option.bind_some,
    lookup_of_mem (groups_distinct member) inside]

theorem mem_given {α : Type} {field name : String} {json : α → Value} {set : Option α}
    {value : Value} :
    (name, value) ∈ given field json set ↔
      name = field ∧ ∃ setting, set = some setting ∧ value = json setting := by
  cases set with
  | none => simp [given]
  | some setting => simp [given]

theorem hostname_setting {hostname : String} (set : config.hostname = some hostname) :
    IsSetting config "/time" "hostname" (.string hostname) :=
  ⟨[("hostname", optional .string config.hostname), ("timezone", optional .string config.timezone)],
    "hostname", by simp [fields], by simp [set, optional], by simp, rfl⟩

theorem timezone_setting {timezone : String} (set : config.timezone = some timezone) :
    IsSetting config "/time" "timezone" (.string timezone) :=
  ⟨[("hostname", optional .string config.hostname), ("timezone", optional .string config.timezone)],
    "timezone", by simp [fields], by simp [set, optional], by simp, rfl⟩

theorem users_setting {users : AList fun _ : String => Rebuild.User}
    (set : config.users = some users) :
    IsSetting config "/users" "users" (usersJson users) :=
  ⟨[("users", optional usersJson config.users)], "users", by simp [fields],
    by simp [set, optional], by simp [usersJson], rfl⟩

theorem files_setting {files : AList fun _ : String => Rebuild.ManagedFileInput}
    (set : config.files = some files) :
    IsSetting config "/environment" "etc" (filesJson files) :=
  ⟨[("files", optional filesJson config.files)], "files", by simp [fields],
    by simp [set, optional], by simp [filesJson], rfl⟩

/-- What is written outside the groups belongs to a setting. -/
theorem writtenTo_cases {path name : String} {value : Value}
    (found : writtenTo installed config path name = some value) :
    (∃ entries, (path, entries) ∈ groups config ∧ (name, value) ∈ entries) ∨
      Configured config path name := by
  unfold writtenTo at found
  obtain ⟨entries, here, inside⟩ := Option.bind_eq_some_iff.mp found
  have member := mem_of_lookup inside
  have there := mem_of_lookup here
  simp only [written, List.mem_cons, List.not_mem_nil, or_false] at there
  by_cases group : (path, entries) ∈ groups config
  · exact .inl ⟨entries, group, member⟩
  · apply Or.inr
    simp only [groups, List.mem_cons, List.not_mem_nil, or_false, not_or] at group
    have others : (path, entries) = ("/users", given "users" usersJson config.users) ∨
        (path, entries) = ("/time", given "timezone" .string config.timezone ++
          given "hostname" .string config.hostname) ∨
        (path, entries) = ("/environment",
          given "systemPackages" (fun _ => .list installed) config.packages) := by tauto
    rcases others with users | time | environment
    · cases users
      obtain ⟨rfl, setting, set, -⟩ := mem_given.mp member
      exact .inl ⟨_, users_setting set⟩
    · cases time
      rcases List.mem_append.mp member with zone | host
      · obtain ⟨rfl, setting, set, -⟩ := mem_given.mp zone
        exact .inl ⟨_, timezone_setting set⟩
      · obtain ⟨rfl, setting, set, -⟩ := mem_given.mp host
        exact .inl ⟨_, hostname_setting set⟩
    · cases environment
      obtain ⟨rfl, setting, set, -⟩ := mem_given.mp member
      exact .inr (.inl ⟨by simp [set], rfl, rfl⟩)

/-- A field of a group has its name in the module, two apart. -/
theorem optionName_eq {path field : String} (kernelLevel : ¬ (path = "/logging" ∧ field = "kernelLevel"))
    (acpiEnabled : ¬ (path = "/power" ∧ field = "acpiEnabled")) (hardware : path ≠ "/hardware")
    (environment : path ≠ "/environment") : optionName path field = field := by
  simp [optionName, kernelLevel, acpiEnabled, hardware, environment]

theorem kernelLevel_mem {value : Value}
    (member : ("kernelLevel", value) ∈ members loggingJson config.logging) (set : value ≠ .null) :
    ∃ log level, config.logging = some log ∧ log.kernelLevel = some level ∧
      value = .string level := by
  cases logging : config.logging with
  | none => simp [logging, members] at member
  | some log =>
      rw [logging] at member
      simp only [members, loggingJson, List.mem_cons, Prod.mk.injEq, true_and, List.not_mem_nil,
        or_false] at member
      cases level : log.kernelLevel with
      | none => simp_all [optional]
      | some text => exact ⟨log, text, rfl, level, by simpa [level, optional] using member⟩

theorem acpiEnabled_mem {value : Value}
    (member : ("acpiEnabled", value) ∈ members powerJson config.power) (set : value ≠ .null) :
    ∃ pwr enabled, config.power = some pwr ∧ pwr.acpiEnabled = some enabled ∧
      value = .bool enabled := by
  cases power : config.power with
  | none => simp [power, members] at member
  | some pwr =>
      rw [power] at member
      simp only [members, powerJson, List.mem_cons, Prod.mk.injEq, true_and, List.not_mem_nil,
        or_false] at member
      cases enabled : pwr.acpiEnabled with
      | none => simp_all [optional]
      | some flag => exact ⟨pwr, flag, rfl, enabled, by simpa [enabled, optional] using member⟩

theorem mem_singleton_optional {α : Type} {key field : String} {json : α → Value} {set : Option α}
    {value : Value} (member : (field, value) ∈ [(key, optional json set)]) (solid : value ≠ .null) :
    field = key ∧ ∃ setting, set = some setting ∧ value = json setting := by
  rw [List.mem_singleton] at member
  cases member
  cases set with
  | none => exact absurd rfl solid
  | some setting => exact ⟨rfl, setting, rfl, rfl⟩

theorem writtenTo_hostname {hostname : String} (set : config.hostname = some hostname) :
    writtenTo installed config "/time" "hostname" = some (.string hostname) := by
  unfold writtenTo written
  cases zone : config.timezone <;> simp [set, given, List.lookup_cons]

theorem writtenTo_timezone {timezone : String} (set : config.timezone = some timezone) :
    writtenTo installed config "/time" "timezone" = some (.string timezone) := by
  unfold writtenTo written
  simp [set, given, List.lookup_cons]

theorem writtenTo_users {users : AList fun _ : String => Rebuild.User}
    (set : config.users = some users) :
    writtenTo installed config "/users" "users" = some (usersJson users) := by
  unfold writtenTo written
  simp [set, given, List.lookup_cons]

theorem writtenTo_etc : writtenTo installed config "/environment" "etc" = none := by
  unfold writtenTo written
  cases config.packages <;> simp [given, List.lookup_cons]

theorem writtenTo_kernelLogLevel :
    writtenTo installed config "/logging" "kernelLogLevel" = none := by
  unfold writtenTo written
  cases config.logging <;> simp [members, loggingJson, List.lookup_cons]

theorem writtenTo_acpiEnable : writtenTo installed config "/power" "acpiEnable" = none := by
  unfold writtenTo written
  cases config.power <;> simp [members, powerJson, List.lookup_cons]

/-- A setting is written, unless the host has no translation for it. -/
theorem setting_cases (untranslated : Untranslated defaults options config) {path name : String}
    {value : Value} (setting : IsSetting config path name value) :
    writtenTo installed config path name = some value ∨
      writtenTo installed config path name = none ∧
        valueOf defaults options path name = some value := by
  obtain ⟨entries, field, there, member, solid, rfl⟩ := setting
  by_cases group : (path, entries) ∈ groups config
  · by_cases kernelLevel : path = "/logging" ∧ field = "kernelLevel"
    · obtain ⟨rfl, rfl⟩ := kernelLevel
      have own : entries = members loggingJson config.logging := by simpa [groups] using group
      rw [own] at member
      obtain ⟨log, level, logging, set, rfl⟩ := kernelLevel_mem member solid
      exact .inr ⟨writtenTo_kernelLogLevel, untranslated.kernelLevel log level logging set⟩
    · by_cases acpiEnabled : path = "/power" ∧ field = "acpiEnabled"
      · obtain ⟨rfl, rfl⟩ := acpiEnabled
        have own : entries = members powerJson config.power := by simpa [groups] using group
        rw [own] at member
        obtain ⟨pwr, enabled, power, set, rfl⟩ := acpiEnabled_mem member solid
        exact .inr ⟨writtenTo_acpiEnable, untranslated.acpiEnabled pwr enabled power set⟩
      · have hardware : path ≠ "/hardware" := by
          rintro rfl
          simp [groups] at group
        have environment : path ≠ "/environment" := by
          rintro rfl
          simp [groups] at group
        rw [optionName_eq kernelLevel acpiEnabled hardware environment]
        exact .inl (writtenTo_group group member)
  · have others : (path, entries) = ("/time", [("hostname", optional .string config.hostname),
          ("timezone", optional .string config.timezone)]) ∨
        (path, entries) = ("/users", [("users", optional usersJson config.users)]) ∨
        (path, entries) = ("/environment", [("files", optional filesJson config.files)]) ∨
        (path, entries) = ("/hardware", members hardwareJson config.hardware) := by
      simp only [groups, fields, List.mem_cons, List.not_mem_nil, or_false] at group there ⊢
      tauto
    rcases others with time | users | environment | hardware
    · cases time
      rcases List.mem_cons.mp member with host | zone
      · obtain ⟨rfl, setting, set, rfl⟩ := mem_singleton_optional
          (List.mem_singleton.mpr host) solid
        exact .inl (writtenTo_hostname set)
      · obtain ⟨rfl, setting, set, rfl⟩ := mem_singleton_optional zone solid
        exact .inl (writtenTo_timezone set)
    · cases users
      obtain ⟨rfl, setting, set, rfl⟩ := mem_singleton_optional member solid
      exact .inl (writtenTo_users set)
    · cases environment
      obtain ⟨rfl, setting, set, rfl⟩ := mem_singleton_optional member solid
      exact .inr ⟨writtenTo_etc, untranslated.files setting set⟩
    · cases hardware
      exact .inr ⟨rfl, untranslated.hardware field value member solid⟩

/-- **The bridge honours a configuration** exactly if the profile already has what the host does
not translate, and nothing of its own where a set group leaves a field unset. -/
theorem overrides_honour_iff
    (computed : overrides systemPkgs options (configJson config) = .ok result) :
    Honours systemPkgs defaults options config (extend options result) ↔
      Untranslated defaults options config ∧ Undisturbed defaults options config := by
  obtain ⟨installed, resolved, changed⟩ := option_overrides computed
  have after := @valueOf_extend defaults options result config installed changed
  have unwritten : ∀ path name, writtenTo installed config path name = none →
      valueOf defaults (extend options result) path name = valueOf defaults options path name := by
    intro path name nothing
    rw [after, nothing, Option.none_or]
  constructor
  · intro honours
    refine ⟨⟨?_, ?_, ?_, ?_, ?_⟩, ?_⟩
    · intro files set
      rw [← unwritten "/environment" "etc" writtenTo_etc]
      exact honours.settings _ _ _ (files_setting set)
    · intro names set
      rw [← unwritten "/services" "services" rfl]
      exact honours.services names set
    · intro field value member solid
      rw [← unwritten "/hardware" _ rfl]
      exact honours.settings _ _ _ ⟨_, field, by simp [fields], member, solid, rfl⟩
    · intro log level logging set
      rw [← unwritten "/logging" _ writtenTo_kernelLogLevel]
      apply honours.settings
      exact ⟨members loggingJson config.logging, "kernelLevel", by simp [fields],
        by simp [logging, members, loggingJson, set, optional], by simp, rfl⟩
    · intro pwr enabled power set
      rw [← unwritten "/power" _ writtenTo_acpiEnable]
      apply honours.settings
      exact ⟨members powerJson config.power, "acpiEnabled", by simp [fields],
        by simp [power, members, powerJson, set, optional], by simp, rfl⟩
    · intro path entries group field written member free value before
      have kept := honours.kept path field free value before
      rw [after, writtenTo_group group member] at kept
      exact (Option.some.inj kept).symm
  · rintro ⟨untranslated, undisturbed⟩
    refine ⟨?_, ?_, ?_, ?_⟩
    · intro names set name member
      obtain ⟨package, inside, known⟩ := resolved names set name member
      refine ⟨package, installed, known, ?_, inside⟩
      rw [after]
      simp [writtenTo, written, set, given, List.lookup_cons]
    · intro names set
      rw [unwritten "/services" "services" rfl]
      exact untranslated.services names set
    · intro path name value setting
      rcases setting_cases untranslated setting with written | ⟨nothing, already⟩
      · rw [after, written, Option.some_or]
      · rw [unwritten path name nothing]
        exact already
    · intro path name free value before
      cases found : writtenTo installed config path name with
      | none =>
          rw [unwritten path name found]
          exact before
      | some written =>
          rcases writtenTo_cases found with ⟨entries, group, member⟩ | configured
          · rw [after, found, Option.some_or, undisturbed path entries group name written member
              free value before]
          · exact absurd configured free

/-- The packages of a host that has a single one. -/
def ripgrepPkgs : Attrs := ofEntries [("ripgrep", .derivation "/nix/store/rg-ripgrep-14.1.0")]

/-- A profile with a quiet kernel. -/
def quietProfile : Options :=
  ofEntries [("/logging", ofEntries [("kernelLogLevel", .string "warn")]),
    ("/networking", ofEntries [("mode", .string "auto")])]

/-- Ripgrep, a static network and nothing else. -/
def staticConfig : RebuildConfig :=
  { unset with
    packages := some ["ripgrep"]
    networking := some { enable := some true, mode := some "static", dns := some ["9.9.9.9"] } }

/-- Ripgrep, and a kernel that says more. -/
def debugConfig : RebuildConfig :=
  { unset with
    packages := some ["ripgrep"]
    logging := some { level := some "info", kernelLevel := some "debug", logToFile := some true } }

def rebuilt (systemPkgs : Attrs) (options : Options) (config : RebuildConfig) : Options :=
  match overrides systemPkgs options (configJson config) with
  | .ok result => extend options result
  | .error _ => options

theorem static_network_honoured : Honours ripgrepPkgs ∅ quietProfile staticConfig
    (rebuilt ripgrepPkgs quietProfile staticConfig) := by
  have untranslated : Untranslated ∅ quietProfile staticConfig := by
    refine ⟨?_, ?_, ?_, ?_, ?_⟩ <;> simp [staticConfig, unset, members]
  have undisturbed : Undisturbed ∅ quietProfile staticConfig := by
    intro path entries group field written member free
    simp only [groups, staticConfig, unset, members, List.mem_cons, Prod.mk.injEq,
      List.not_mem_nil, or_false] at group
    rcases group with ⟨rfl, rfl⟩ | ⟨rfl, rfl⟩ | ⟨rfl, rfl⟩ | ⟨rfl, rfl⟩ | ⟨rfl, rfl⟩ | ⟨rfl, rfl⟩
    · apply absurd _ free
      refine .inl ⟨written, _, field, by simp [fields, staticConfig, unset, members], member, ?_, ?_⟩
      · simp only [networkingJson, optional, List.mem_cons, Prod.mk.injEq, List.not_mem_nil,
          or_false] at member
        rcases member with ⟨rfl, rfl⟩ | ⟨rfl, rfl⟩ | ⟨rfl, rfl⟩ <;> simp [strings]
      · exact optionName_eq (by simp) (by simp) (by simp) (by simp)
    all_goals cases member
  have built : (overrides ripgrepPkgs quietProfile (configJson staticConfig)).isOk = true := rfl
  cases computed : overrides ripgrepPkgs quietProfile (configJson staticConfig) with
  | error reason =>
      rw [computed] at built
      cases built
  | ok result =>
      rw [rebuilt, computed]
      exact (overrides_honour_iff computed).mpr ⟨untranslated, undisturbed⟩

/-- A kernel log level is written where no module reads it. -/
theorem kernel_level_lost : selectAutoRebuildRoute debugConfig none true = .ok .bridge ∧
    (overrides ripgrepPkgs quietProfile (configJson debugConfig)).isOk ∧
    ¬ Honours ripgrepPkgs ∅ quietProfile debugConfig
      (rebuilt ripgrepPkgs quietProfile debugConfig) := by
  refine ⟨rfl, rfl, ?_⟩
  intro honours
  have asked : IsSetting debugConfig "/logging" "kernelLogLevel" (.string "debug") :=
    ⟨members loggingJson debugConfig.logging, "kernelLevel", by simp [fields], by decide,
      by decide, rfl⟩
  have quiet : valueOf ∅ (rebuilt ripgrepPkgs quietProfile debugConfig) "/logging"
      "kernelLogLevel" = some (.string "warn") := rfl
  have loud := honours.settings "/logging" "kernelLogLevel" (.string "debug") asked
  rw [quiet] at loud
  simp at loud

end Honoured

end NixRedox.BridgeEval
