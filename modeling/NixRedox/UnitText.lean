import NixRedox.Toml
import NixRedox.UnitStrings

set_option autoImplicit false

/- When a unit file, read as TOML, says what the service declares. -/
namespace NixRedox.InitScripts

open AttrSets (ofEntries)
open KeyedMap (lookup_of_mem mem_of_lookup)
open Serde (mem_sortedMembers sortedMembers sortedMembers_nodup)
open Toml (Bare Keyed Line Table Value Written linesText plainChar readDocument)

section Meaning

def strings (texts : List String) : Value := .array (texts.map .string)

/-- What the `type` of a unit says. -/
def typeValue (svc : Service) : Value :=
  match svc.type with
  | .scheme => .inline [("scheme", .string svc.args)]
  | .daemon => .string "notify"
  | .oneshot => .string "oneshot"
  | .nowait => .string "oneshot_async"

def unitTable (svc : Service) (defaultDependencies : Bool) (requiresWeak : List String) : Table :=
  [("description", .string svc.description)] ++
    (if defaultDependencies then [] else [("default_dependencies", .bool false)]) ++
    (if requiresWeak = [] then [] else [("requires_weak", strings requiresWeak)])

def serviceTable (svc : Service) (environment : Table) : Table :=
  [("cmd", .string (cmdName svc)), ("args", strings (argsList svc)), ("type", typeValue svc)] ++
    (if svc.environment.entries = [] then [] else [("envs", .inline environment)])

/-- The document says what the service declares, its environment as a flat table. -/
def Tells (svc : Service) (defaultDependencies : Bool) (requiresWeak : List String)
    (document : Table) : Prop :=
  ∃ environment : Table,
    (∀ name, environment.lookup name = (svc.environment.lookup name).map .string) ∧
    document = [("unit", .table (unitTable svc defaultDependencies requiresWeak)),
      ("service", .table (serviceTable svc environment))]

/-- The strings of a unit apart from its environment. -/
def unitStrings (svc : Service) (requiresWeak : List String) : List String :=
  svc.description :: cmdName svc :: argsList svc ++ requiresWeak ++
    if svc.type = .scheme then [svc.args] else []

/-- Names need no quotes, and there is no DEL, which JSON does not escape. -/
structure Writable (svc : Service) (requiresWeak : List String) : Prop where
  names : ∀ name value, svc.environment.lookup name = some value → Bare name
  values : ∀ name value, svc.environment.lookup name = some value → '\x7F' ∉ value.toList
  strings : ∀ text ∈ unitStrings svc requiresWeak, '\x7F' ∉ text.toList

end Meaning

section Reading

theorem plainChar_of_ne {c : Char} (printed : 0x20 ≤ c.toNat) (other : c ≠ '\x7F') :
    plainChar c := by
  have code : c.toNat ≠ 0x7F := fun same => other (Char.toNat_inj.mp same)
  simp [plainChar, printed, code]

theorem written_tomlString {value : String} (plain : '\x7F' ∉ value.toList) :
    Written (tomlString value) (.string value) := by
  have read : ∀ rest, BasicStrings.readString plainChar (tomlString value ++ rest) =
      some (value.toList, rest) := by
    intro rest
    apply readString_tomlString
    intro c inside printed
    exact plainChar_of_ne printed fun same => plain (same ▸ inside)
  rw [← String.ofList_toList (s := value)]
  exact Toml.written_string (by simpa [tomlString] using read)

theorem written_jsonStrings {values : List String} (plain : ∀ value ∈ values, '\x7F' ∉ value.toList) :
    Written (jsonStrings values) (strings values) := by
  apply Toml.written_array
  rw [List.forall₂_map_left_iff, List.forall₂_map_right_iff, List.forall₂_same]
  intro value inside
  exact written_tomlString (plain value inside)

end Reading

section Lines

variable {svc : Service} {defaultDependencies : Bool} {requiresWeak : List String}

theorem labelled {label name : String} (split : label.toList = name.toList ++ [' ', '=', ' '])
    (text : List Char) (value : Value) : label.toList ++ text = (Line.mk name text value).written := by
  rw [split, List.append_assoc]
  rfl

/-- The value of the `type` as a unit has it. -/
theorem written_tomlType (plain : svc.type = .scheme → '\x7F' ∉ svc.args.toList) :
    Written (tomlType svc) (typeValue svc) := by
  have word : ∀ text : String, text.toList.all (· ≠ '\x7F') → Written (tomlString text) (.string text) := by
    intro text all
    exact written_tomlString fun inside => by simpa using List.all_eq_true.mp all _ inside
  unfold tomlType typeValue
  cases kind : svc.type with
  | scheme =>
      have name : Bare "scheme" := by decide
      have line : (Line.mk "scheme" (tomlString svc.args) (.string svc.args)).Valid :=
        ⟨name, written_tomlString (plain kind)⟩
      have written := @Toml.written_inline _ [] (by simpa using line) (by simp)
      simpa [Line.written, Line.entry] using written
  | daemon => exact word "notify" (by decide)
  | oneshot => exact word "oneshot" (by decide)
  | nowait => exact word "oneshot_async" (by decide)

def environmentLines (environment : Environment) : List Line :=
  (sortedMembers environment).map fun entry => ⟨entry.1, tomlString entry.2, .string entry.2⟩

theorem environmentLines_names (environment : Environment) :
    ((environmentLines environment).map Line.name).Nodup := by
  rw [environmentLines, List.map_map]
  exact sortedMembers_nodup environment

theorem environmentLines_valid {environment : Environment}
    (names : ∀ name value, environment.lookup name = some value → Bare name)
    (values : ∀ name value, environment.lookup name = some value → '\x7F' ∉ value.toList) :
    ∀ line ∈ environmentLines environment, line.Valid := by
  intro line inside
  obtain ⟨⟨name, value⟩, there, rfl⟩ := List.mem_map.mp inside
  have found := mem_sortedMembers.mp there
  exact ⟨names name value found, written_tomlString (values name value found)⟩

/-- What the environment is read as. -/
def environmentTable (environment : Environment) : Table :=
  (environmentLines environment).map Line.entry

theorem lookup_environmentTable (environment : Environment) (name : String) :
    (environmentTable environment).lookup name = (environment.lookup name).map .string := by
  have distinct : ((environmentTable environment).map Prod.fst).Nodup := by
    rw [environmentTable, List.map_map]
    exact environmentLines_names environment
  have members : ∀ value, (name, value) ∈ environmentTable environment ↔
      ∃ text, environment.lookup name = some text ∧ Value.string text = value := by
    simp [environmentTable, environmentLines, Line.entry, mem_sortedMembers]
  apply Option.ext
  intro value
  rw [Option.map_eq_some_iff, ← members]
  exact ⟨mem_of_lookup, lookup_of_mem distinct⟩

def environmentText (environment : Environment) : List Char :=
  '\x7b' :: ' ' :: (List.intercalate [',', ' '] ((environmentLines environment).map Line.written) ++
    [' ', '\x7d'])

theorem envLine_eq (environment : Environment) :
    envLine environment = (Line.mk "envs" (environmentText environment)
      (.inline (environmentTable environment))).written := by
  have same : (environmentLines environment).map Line.written =
      (sortedMembers environment).map fun entry =>
        entry.1.toList ++ " = ".toList ++ tomlString entry.2 := by
    simp [environmentLines, Line.written]
  have label : "envs = \x7b ".toList = "envs".toList ++ [' ', '=', ' ', '\x7b', ' '] := by decide
  have close : " \x7d".toList = [' ', '\x7d'] := by decide
  have comma : ", ".toList = [',', ' '] := by decide
  unfold envLine Line.written environmentText
  simp only [same, label, close, comma, List.append_assoc, List.cons_append, List.nil_append]

theorem written_environment {environment : Environment} (some_ : environment.entries ≠ [])
    (valid : ∀ line ∈ environmentLines environment, line.Valid) :
    Written (environmentText environment) (.inline (environmentTable environment)) := by
  have distinct := environmentLines_names environment
  have nonempty : environmentLines environment ≠ [] := by
    intro empty
    have none_ := List.map_eq_nil_iff.mp empty
    apply some_
    have perm := List.perm_insertionSort (fun one two : String × String => one.1 ≤ two.1)
      (environment.entries.map fun entry => (entry.1, entry.2))
    rw [sortedMembers] at none_
    rw [none_] at perm
    exact List.map_eq_nil_iff.mp perm.nil_eq.symm
  unfold environmentText environmentTable
  obtain ⟨line, lines, same⟩ := List.exists_cons_of_ne_nil nonempty
  rw [same] at valid distinct ⊢
  exact Toml.written_inline valid distinct

def unitFileLines (svc : Service) (defaultDependencies : Bool) (requiresWeak : List String) :
    List Line :=
  [⟨"description", tomlString svc.description, .string svc.description⟩] ++
    (if defaultDependencies then []
      else [⟨"default_dependencies", "false".toList, .bool false⟩]) ++
    (if requiresWeak = [] then []
      else [⟨"requires_weak", jsonStrings requiresWeak, strings requiresWeak⟩])

def serviceFileLines (svc : Service) : List Line :=
  [⟨"cmd", tomlString (cmdName svc), .string (cmdName svc)⟩,
    ⟨"args", jsonStrings (argsList svc), strings (argsList svc)⟩,
    ⟨"type", tomlType svc, typeValue svc⟩] ++
    (if svc.environment.entries = [] then []
      else [⟨"envs", environmentText svc.environment, .inline (environmentTable svc.environment)⟩])

theorem unitLines_eq :
    unitLines svc defaultDependencies requiresWeak =
      (unitFileLines svc defaultDependencies requiresWeak).map Line.written := by
  unfold unitLines unitFileLines
  rw [List.map_append, List.map_append]
  congr 1
  · congr 1
    · exact congrArg (· :: []) (@labelled "description = " "description" (by decide) _ _)
    · split
      · rfl
      · exact congrArg (· :: []) (by decide)
  · split
    · rfl
    · exact congrArg (· :: []) (@labelled "requires_weak = " "requires_weak" (by decide) _ _)

theorem serviceLines_eq : serviceLines svc = (serviceFileLines svc).map Line.written := by
  unfold serviceLines serviceFileLines
  rw [List.map_append]
  congr 1
  · unfold argsLine
    simp only [@labelled "cmd = " "cmd" (by decide) _ (.string (cmdName svc)),
      @labelled "args = " "args" (by decide) _ (strings (argsList svc)),
      @labelled "type = " "type" (by decide) _ (typeValue svc)]
    rfl
  · split
    · rfl
    · rw [envLine_eq]
      rfl

end Lines

section Documents

variable {svc : Service} {defaultDependencies : Bool} {requiresWeak : List String}

theorem intercalate_newline (first : List Char) (others : List (List Char)) :
    List.intercalate ['\n'] (first :: others) = first ++ others.flatMap ('\n' :: ·) := by
  induction others generalizing first with
  | nil => simp
  | cons next others ih =>
      rw [List.intercalate_cons_cons, ih next, List.flatMap_cons, List.append_assoc]
      rfl

theorem renderServiceToml_eq :
    renderServiceToml svc defaultDependencies requiresWeak =
      '[' :: ("unit".toList ++ ']' ::
        (linesText (unitFileLines svc defaultDependencies requiresWeak) ++
          '\n' :: '\n' :: '[' :: ("service".toList ++ ']' :: linesText (serviceFileLines svc)))) := by
  have header : "[unit]".toList = '[' :: ("unit".toList ++ [']']) := by decide
  have headerToo : "[service]".toList = '[' :: ("service".toList ++ [']']) := by decide
  unfold renderServiceToml linesText
  simp only [unitLines_eq, serviceLines_eq, header, headerToo, List.cons_append, List.append_assoc,
    List.nil_append, intercalate_newline, List.flatMap_append, List.flatMap_map, List.flatMap_cons]

theorem unitFileLines_names :
    ((unitFileLines svc defaultDependencies requiresWeak).map Line.name).Nodup := by
  unfold unitFileLines
  cases defaultDependencies <;> by_cases none_ : requiresWeak = [] <;> simp [none_]

theorem serviceFileLines_names : ((serviceFileLines svc).map Line.name).Nodup := by
  unfold serviceFileLines
  split <;> simp

theorem fileLines_valid (writable : Writable svc requiresWeak) :
    ∀ line ∈ unitFileLines svc defaultDependencies requiresWeak ++ serviceFileLines svc,
      line.Valid := by
  have plain : ∀ text ∈ unitStrings svc requiresWeak, '\x7F' ∉ text.toList := writable.strings
  have environment := environmentLines_valid writable.names writable.values
  have false_ : Written "false".toList (.bool false) := by
    refine ⟨⟨'f', _, rfl, by decide, by decide, by decide⟩, ?_⟩
    intro fuel rest below
    cases fuel with
    | zero => exact absurd below (Nat.not_lt_zero _)
    | succ fuel => rfl
  have named : Bare "description" ∧ Bare "default_dependencies" ∧ Bare "requires_weak" ∧
      Bare "cmd" ∧ Bare "args" ∧ Bare "type" ∧ Bare "envs" := by decide
  have args : ∀ text ∈ argsList svc, '\x7F' ∉ text.toList := fun text inside =>
    plain text (by simp [unitStrings, inside])
  have files : ∀ text ∈ requiresWeak, '\x7F' ∉ text.toList := fun text inside =>
    plain text (by simp [unitStrings, inside])
  have scheme : svc.type = .scheme → '\x7F' ∉ svc.args.toList := fun kind =>
    plain svc.args (by simp [unitStrings, kind])
  intro line inside
  rcases List.mem_append.mp inside with unit | service
  · simp only [unitFileLines, List.mem_append, List.mem_singleton] at unit
    rcases unit with (rfl | dependencies) | requires
    · exact ⟨named.1, written_tomlString (plain _ (by simp [unitStrings]))⟩
    · split at dependencies
      · cases dependencies
      · rw [List.mem_singleton.mp dependencies]
        exact ⟨named.2.1, false_⟩
    · split at requires
      · cases requires
      · rw [List.mem_singleton.mp requires]
        exact ⟨named.2.2.1, written_jsonStrings files⟩
  · simp only [serviceFileLines, List.mem_append, List.mem_cons, List.not_mem_nil, or_false]
      at service
    rcases service with (rfl | rfl | rfl) | envs
    · exact ⟨named.2.2.2.1, written_tomlString (plain _ (by simp [unitStrings]))⟩
    · exact ⟨named.2.2.2.2.1, written_jsonStrings args⟩
    · exact ⟨named.2.2.2.2.2.1, written_tomlType scheme⟩
    · split at envs
      · cases envs
      · rename_i some_
        rw [List.mem_singleton.mp envs]
        exact ⟨named.2.2.2.2.2.2, written_environment some_ environment⟩

theorem unitFileLines_entries :
    (unitFileLines svc defaultDependencies requiresWeak).map Line.entry =
      unitTable svc defaultDependencies requiresWeak := by
  unfold unitFileLines unitTable
  rw [List.map_append, List.map_append]
  split <;> split <;> rfl

theorem serviceFileLines_entries :
    (serviceFileLines svc).map Line.entry = serviceTable svc (environmentTable svc.environment) := by
  unfold serviceFileLines serviceTable
  rw [List.map_append]
  split <;> rfl

theorem readDocument_renderServiceToml (writable : Writable svc requiresWeak) :
    readDocument (renderServiceToml svc defaultDependencies requiresWeak) =
      some [("unit", .table (unitTable svc defaultDependencies requiresWeak)),
        ("service", .table (serviceTable svc (environmentTable svc.environment)))] := by
  have written := Toml.readDocument_written (by decide : Bare "unit") (by decide : Bare "service")
    (by decide) (@fileLines_valid svc defaultDependencies requiresWeak writable)
    unitFileLines_names serviceFileLines_names
  rwa [unitFileLines_entries, serviceFileLines_entries, ← renderServiceToml_eq] at written

end Documents

section Refused

variable {svc : Service} {defaultDependencies : Bool} {requiresWeak : List String}

theorem mem_intercalate_of_mem {c : Char} {separator part : List Char} {parts : List (List Char)}
    (there : part ∈ parts) (inside : c ∈ part) : c ∈ List.intercalate separator parts := by
  induction parts with
  | nil => cases there
  | cons first parts ih =>
      cases parts with
      | nil =>
          rw [List.intercalate_singleton, ← List.mem_singleton.mp there]
          exact inside
      | cons next parts =>
          rw [List.intercalate_cons_cons, List.append_assoc]
          rcases List.mem_cons.mp there with rfl | later
          · exact List.mem_append_left _ inside
          · exact List.mem_append_right _ (List.mem_append_right _ (ih later))

/-- DEL is not escaped. -/
theorem del_mem_tomlString {text : String} (inside : '\x7F' ∈ text.toList) :
    '\x7F' ∈ tomlString text := by
  apply List.mem_cons_of_mem
  apply List.mem_append_left
  exact List.mem_flatMap.mpr ⟨'\x7F', inside, by decide⟩

theorem del_mem_jsonStrings {texts : List String} {text : String} (there : text ∈ texts)
    (inside : '\x7F' ∈ text.toList) : '\x7F' ∈ jsonStrings texts := by
  apply List.mem_cons_of_mem
  apply List.mem_append_left
  exact mem_intercalate_of_mem (List.mem_map_of_mem there) (del_mem_tomlString inside)

theorem mem_render_of_line {c : Char} {line : Line}
    (there : line ∈ unitFileLines svc defaultDependencies requiresWeak ++ serviceFileLines svc)
    (inside : c ∈ line.text) : c ∈ renderServiceToml svc defaultDependencies requiresWeak := by
  have written : c ∈ line.written := by simp [Line.written, inside]
  have listed : ∀ lines, line ∈ lines → c ∈ linesText lines := fun lines member =>
    List.mem_flatMap.mpr ⟨line, member, List.mem_cons_of_mem _ written⟩
  rw [renderServiceToml_eq]
  rcases List.mem_append.mp there with unit | service
  · simp [listed _ unit]
  · simp [listed _ service]

theorem del_mem_render {text : String} (there : text ∈ unitStrings svc requiresWeak)
    (inside : '\x7F' ∈ text.toList) :
    '\x7F' ∈ renderServiceToml svc defaultDependencies requiresWeak := by
  have texts : ∀ line : Line, line ∈ unitFileLines svc defaultDependencies requiresWeak ++
      serviceFileLines svc → '\x7F' ∈ line.text →
        '\x7F' ∈ renderServiceToml svc defaultDependencies requiresWeak :=
    fun line => mem_render_of_line
  simp only [unitStrings, List.mem_append, List.mem_cons] at there
  rcases there with ((rfl | rfl | args) | files) | scheme
  · exact texts ⟨"description", tomlString svc.description, .string svc.description⟩ (by simp [unitFileLines])
      (del_mem_tomlString inside)
  · exact texts ⟨"cmd", tomlString (cmdName svc), .string (cmdName svc)⟩ (by simp [serviceFileLines])
      (del_mem_tomlString inside)
  · exact texts ⟨"args", jsonStrings (argsList svc), strings (argsList svc)⟩ (by simp [serviceFileLines])
      (del_mem_jsonStrings args inside)
  · have some_ : requiresWeak ≠ [] := List.ne_nil_of_mem files
    exact texts ⟨"requires_weak", jsonStrings requiresWeak, strings requiresWeak⟩ (by simp [unitFileLines, some_])
      (del_mem_jsonStrings files inside)
  · split at scheme
    · rename_i kind
      refine texts ⟨"type", tomlType svc, typeValue svc⟩ (by simp [serviceFileLines]) ?_
      rw [List.mem_singleton.mp scheme] at inside
      simp [tomlType, kind, del_mem_tomlString inside]
    · cases scheme

theorem writable_of_tells {document : Table}
    (read : readDocument (renderServiceToml svc defaultDependencies requiresWeak) = some document)
    (told : Tells svc defaultDependencies requiresWeak document) : Writable svc requiresWeak := by
  obtain ⟨environment, same, rfl⟩ := told
  have plain := Toml.readDocument_plain read
  have envs : ∀ name value, svc.environment.lookup name = some value →
      svc.environment.entries ≠ [] := by
    intro name value found empty
    have member := AList.mem_lookup_iff.mp (Option.mem_def.mpr found)
    rw [empty] at member
    cases member
  refine ⟨?_, ?_, ?_⟩
  · intro name value found
    have entry : ("envs", Value.inline environment) ∈ serviceTable svc environment := by
      simp [serviceTable, envs name value found]
    have service := Toml.readDocument_keyed read ("service", .table (serviceTable svc environment))
      (by simp)
    cases service with
    | table each =>
        cases each _ entry with
        | inline bare =>
            have own := same name
            rw [found] at own
            exact bare _ (mem_of_lookup own)
  · intro name value found inside
    apply plain
    have listed : Line.mk "envs" (environmentText svc.environment)
        (.inline (environmentTable svc.environment)) ∈ serviceFileLines svc := by
      simp [serviceFileLines, envs name value found]
    apply mem_render_of_line (List.mem_append_right _ listed)
    · apply List.mem_cons_of_mem
      apply List.mem_cons_of_mem
      apply List.mem_append_left
      have line : Line.mk name (tomlString value) (.string value) ∈
          environmentLines svc.environment :=
        List.mem_map.mpr ⟨(name, value), mem_sortedMembers.mpr found, rfl⟩
      refine mem_intercalate_of_mem (List.mem_map_of_mem line) ?_
      simp [Line.written, del_mem_tomlString inside]
  · intro text there inside
    exact plain (del_mem_render there inside)

end Refused

section Exact

theorem tells_environment {one two : Service} {defaultDependencies other : Bool}
    {requiresWeak others : List String} {document : Table}
    (first : Tells one defaultDependencies requiresWeak document)
    (second : Tells two other others document) (name : String) :
    one.environment.lookup name = two.environment.lookup name := by
  obtain ⟨environment, own, rfl⟩ := first
  obtain ⟨environment', own', same⟩ := second
  have tables : serviceTable one environment = serviceTable two environment' := by
    have last := (List.cons.inj (List.cons.inj same).2).1
    exact Value.table.inj (Prod.mk.inj last).2
  have ends := (List.append_inj tables rfl).2
  have injective : Function.Injective Value.string := fun _ _ equal => Value.string.inj equal
  have empty : ∀ svc : Service, svc.environment.entries = [] → svc.environment.lookup name = none := by
    intro svc none_
    rw [AList.lookup, none_, List.dlookup_nil]
  split at ends
  · split at ends
    · rw [empty one ‹_›, empty two ‹_›]
    · cases ends
  · split at ends
    · cases ends
    · cases ends
      exact Option.map_injective injective ((own name).symm.trans (own' name))

/-- A unit tells what the service declares if and only if the names in its environment need
no quotes and no string has a DEL in it; then no other environment has the same unit. -/
theorem renderServiceToml_tells (svc : Service) (defaultDependencies : Bool)
    (requiresWeak : List String) :
    ((∃ document,
        readDocument (renderServiceToml svc defaultDependencies requiresWeak) = some document ∧
          Tells svc defaultDependencies requiresWeak document) ↔ Writable svc requiresWeak) ∧
    ∀ other others, Writable svc requiresWeak → Writable other others →
      renderServiceToml svc defaultDependencies requiresWeak =
        renderServiceToml other defaultDependencies others →
      ∀ name, svc.environment.lookup name = other.environment.lookup name := by
  have tells : ∀ svc requiresWeak, Writable svc requiresWeak → ∃ document,
      readDocument (renderServiceToml svc defaultDependencies requiresWeak) = some document ∧
        Tells svc defaultDependencies requiresWeak document := by
    intro svc requiresWeak writable
    exact ⟨_, readDocument_renderServiceToml writable, _, lookup_environmentTable _, rfl⟩
  refine ⟨⟨?_, tells svc requiresWeak⟩, ?_⟩
  · rintro ⟨document, read, told⟩
    exact writable_of_tells read told
  · intro other others writable writableToo same
    obtain ⟨document, read, told⟩ := tells svc requiresWeak writable
    obtain ⟨document', read', told'⟩ := tells other others writableToo
    rw [same, read', Option.some.injEq] at read
    exact tells_environment told (read ▸ told')

/-- A service that is given an environment and nothing else. -/
def exporting (environment : Environment) : Service :=
  ⟨"", "daemon", .daemon, "", none, .rootfs, true, [], environment, 50⟩

/-- A dot in a name makes a table of it, and the text of an entry in a name makes two. -/
theorem exporting_not_told :
    (¬ ∀ svc defaultDependencies requiresWeak, ∃ document,
      readDocument (renderServiceToml svc defaultDependencies requiresWeak) = some document ∧
        Tells svc defaultDependencies requiresWeak document) ∧
    renderServiceToml (exporting (ofEntries [("A = \"1\", B", "2")])) true [] =
      renderServiceToml (exporting (ofEntries [("A", "1"), ("B", "2")])) true [] := by
  constructor
  · intro always
    obtain ⟨document, read, told⟩ := always (exporting (ofEntries [("A.B", "1")])) true []
    have bare := (writable_of_tells read told).names "A.B" "1" (by decide)
    exact absurd bare (by decide)
  · decide

end Exact

end NixRedox.InitScripts
