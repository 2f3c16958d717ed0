import NixRedox.StringSplits
import NixRedox.SubstrateBuild
import NixRedox.UnitStrings

set_option autoImplicit false

/- The services of a primitive plan as their units are rendered. -/
namespace NixRedox.Substrate

open AttrSets (Options Value lookup_ofEntries lookup_update option ofEntries strings)
open Attempts (bind_eq_ok exists_right)
open InitScripts (ServiceType Target argsLine argsList jsonStrings jsonStrings_injective)

section Reading

def asBool : Value → Option Bool
  | .bool value => some value
  | _ => none

def asInt : Value → Option Int
  | .int value => some value
  | _ => none

def asStrings : Value → Option (List String)
  | .list values => values.mapM asString
  | _ => none

def asEnvironment (value : Value) : Option InitScripts.Environment :=
  (attrsOf? value).bind fun entries =>
    (entries.mapM fun entry => (asString entry.2).map (Prod.mk entry.1)).map ofEntries

def serviceTypeOf : String → ServiceType
  | "oneshot" => .oneshot
  | "daemon" => .daemon
  | "scheme" => .scheme
  | _ => .nowait

def targetOf : String → Target
  | "initfs" => .initfs
  | _ => .rootfs

/-- The attributes a unit is rendered from. -/
def readService (value : Value) : Option InitScripts.Service := do
  let attrs := entriesOf value
  let description ← (attrs.lookup "description").bind asString
  let command ← (attrs.lookup "command").bind asString
  let type ← ((attrs.lookup "type").bind asString).filter supportedServiceTypes.contains
  let args ← (attrs.lookup "args").bind asString
  let argv ← match attrs.lookup "argv" with
    | some given => (asStrings given).map some
    | none => some none
  let wantedBy ← ((attrs.lookup "wantedBy").bind asString).filter supportedTargets.contains
  let enable ← (attrs.lookup "enable").bind asBool
  let after ← (attrs.lookup "after").bind asStrings
  let environment ← (attrs.lookup "environment").bind asEnvironment
  let priority ← (attrs.lookup "priority").bind asInt
  return ⟨description, command, serviceTypeOf type, args, argv, targetOf wantedBy, enable, after,
    environment, priority⟩

/-- The service a normalized one is declared as: it always has an `argv`. -/
def Service.rendered (service : Service) : InitScripts.Service where
  description := service.description
  command := service.command.val
  type := serviceTypeOf service.type.val
  args := service.args
  argv := some service.argv
  wantedBy := targetOf service.wantedBy.val
  enable := service.enable
  after := service.after
  environment := ofEntries service.environment
  priority := service.priority

theorem mapM_asString (texts : List String) : (texts.map Value.string).mapM asString = some texts := by
  induction texts with
  | nil => rfl
  | cons text rest ih =>
      rw [List.map_cons, List.mapM_cons, ih]
      rfl

theorem asStrings_strings (texts : List String) : asStrings (strings texts) = some texts :=
  mapM_asString texts

theorem mapM_asString_values (texts : List (String × String)) :
    (texts.map fun entry => (entry.1, Value.string entry.2)).mapM
      (fun entry => (asString entry.2).map (Prod.mk entry.1)) = some texts := by
  induction texts with
  | nil => rfl
  | cons text rest ih =>
      rw [List.map_cons, List.mapM_cons, ih]
      rfl

theorem asEnvironment_stringValues (texts : List (String × String)) :
    asEnvironment (stringValues texts) = some (ofEntries texts) := by
  rw [asEnvironment, stringValues, attrsOf?, Option.bind_some, mapM_asString_values,
    Option.map_some]

theorem readService_value (service : Service) :
    readService service.value = some service.rendered := by
  simp [readService, Service.value, entriesOf, attrsOf?, List.lookup, asString, asBool, asInt,
    asStrings_strings, asEnvironment_stringValues, Option.filter, service.type.property,
    service.wantedBy.property, Service.rendered]

end Reading

section Arguments

/-- The services a plan declares. -/
def planServices (plan : Value) : Entries :=
  (((entriesOf plan).lookup "services").map entriesOf).getD []

/-- A service of a module. -/
def moduleService (module : Options) (name : String) : Option Value :=
  (option module "/services" "services").bind fun services => (entriesOf services).lookup name

def declaredServiceType (raw : Value) : ServiceType :=
  serviceTypeOf ((((entriesOf raw).lookup "type").bind asString).getD serviceDefaultType)

def declaredArgv (raw : Value) : Option (List String) :=
  ((entriesOf raw).lookup "argv").bind asStrings

/-- A service without legacy args has the empty string. -/
def legacyArgs (raw : Value) : String :=
  (((entriesOf raw).lookup "args").bind asString).getD ""

/-- The same service, declared with the legacy string only. -/
def direct (raw : Value) (svc : InitScripts.Service) : InitScripts.Service :=
  { svc with type := declaredServiceType raw, args := legacyArgs raw, argv := none }

def expectedArgs (raw : Value) (svc : InitScripts.Service) : List String :=
  (declaredArgv raw).getD (argsList (direct raw svc))

/-- There is no legacy string that an empty `argv` could hide, and a scheme service has an
`argv`. -/
def KeepsArgs (raw : Value) : Prop :=
  (declaredArgv raw).isSome ∨ (declaredServiceType raw ≠ .scheme ∧ legacyArgs raw = "")

theorem argsList_direct_eq_nil {raw : Value} {svc : InitScripts.Service} :
    argsList (direct raw svc) = [] ↔ declaredServiceType raw ≠ .scheme ∧ legacyArgs raw = "" := by
  unfold argsList direct
  dsimp only
  split
  · rename_i scheme
    simp [scheme]
  · rename_i other
    split
    · rename_i empty
      simp [other, empty]
    · rename_i given
      have fields : (legacyArgs raw).splitOn " " ≠ [] := by
        have split := StringSplits.splitOn_char (legacyArgs raw) ' '
        rw [show String.ofList [' '] = " " from rfl] at split
        rw [split, ne_eq, List.map_eq_nil_iff]
        exact List.splitOn_ne_nil _ _
      simp [given, fields]

theorem ensureStringList_ok {field : String} {value : Value} {texts : List String}
    (ok : ensureStringList field value = .ok texts) : asStrings value = some texts := by
  unfold ensureStringList at ok
  split at ok
  · rename_i values
    split at ok
    · rename_i found each
      cases ok
      exact each
    · cases ok
  · cases ok

/-- The `argv` of a normalized service is the declared one, or empty. -/
theorem normalizeService_argv {name : String} {raw : Value} {service : Service}
    (ok : normalizeService name raw = .ok service) :
    (declaredArgv raw = none ∧ service.argv = []) ∨ declaredArgv raw = some service.argv := by
  obtain ⟨own, known, rest⟩ := bind_eq_ok.mp ok
  obtain ⟨type, _, rest⟩ := bind_eq_ok.mp rest
  obtain ⟨argv, listed, rest⟩ := bind_eq_ok.mp rest
  obtain ⟨args, _, rest⟩ := bind_eq_ok.mp rest
  obtain ⟨environment, _, rest⟩ := bind_eq_ok.mp rest
  obtain ⟨description, _, rest⟩ := bind_eq_ok.mp rest
  obtain ⟨selected, _, rest⟩ := bind_eq_ok.mp rest
  obtain ⟨command, _, rest⟩ := bind_eq_ok.mp rest
  obtain ⟨wantedBy, _, rest⟩ := bind_eq_ok.mp rest
  obtain ⟨enable, _, rest⟩ := bind_eq_ok.mp rest
  obtain ⟨after, _, rest⟩ := bind_eq_ok.mp rest
  obtain ⟨priority, _, same⟩ := bind_eq_ok.mp rest
  cases same
  unfold declaredArgv
  rw [entriesOf_ok known]
  rcases selectWith_ok listed with ⟨absent, same⟩ | ⟨given, present, checked⟩
  · rw [absent]
    exact .inl ⟨rfl, same⟩
  · rw [present]
    exact .inr (ensureStringList_ok checked)

theorem argsLine_rendered {name : String} {raw : Value} {service : Service}
    (ok : normalizeService name raw = .ok service) :
    argsLine service.rendered =
        "args = ".toList ++ jsonStrings (expectedArgs raw service.rendered) ↔ KeepsArgs raw := by
  have shown : argsLine service.rendered = "args = ".toList ++ jsonStrings service.argv := rfl
  rw [shown, List.append_cancel_left_eq, jsonStrings_injective.eq_iff, expectedArgs, KeepsArgs]
  rcases normalizeService_argv ok with ⟨undeclared, none_⟩ | declared
  · rw [undeclared, none_, Option.getD_none, eq_comm, argsList_direct_eq_nil]
    simp
  · simp [declared]

end Arguments

section Modules

variable {plan : Value} {module : Options} {name : String} {raw : Value} {service : Service}

theorem lookup_mapped {α : Type} {make : String → Value → Except String α} {entries : Entries}
    {made : List (String × α)}
    (each : List.Forall₂ (fun entry result => entry.1 = result.1 ∧
      make entry.1 entry.2 = .ok result.2) entries made) (declared : entries.lookup name = some raw) :
    ∃ result, made.lookup name = some result ∧ make name raw = .ok result := by
  induction each with
  | nil => cases declared
  | @cons entry result entries made own _ ih =>
      obtain ⟨key, value⟩ := entry
      obtain ⟨key', value'⟩ := result
      obtain ⟨rfl, made_⟩ := own
      by_cases here : name = key
      · subst here
        rw [List.lookup_cons_self, Option.some.injEq] at declared
        subst declared
        exact ⟨value', List.lookup_cons_self, made_⟩
      · rw [List.lookup_cons, beq_false_of_ne here] at declared ⊢
        exact ih declared

theorem lookup_map_value (services : List (String × Service)) :
    (services.map fun entry => (entry.1, entry.2.value)).lookup name =
      (services.lookup name).map Service.value := by
  induction services with
  | nil => rfl
  | cons entry rest ih =>
      rw [List.map_cons, List.lookup_cons, List.lookup_cons, ih]
      split <;> rfl

theorem module_services {normalized : Normalized}
    (ok : moduleFromNormalized normalized = .ok module)
    (declared : normalized.services.lookup name = some service) :
    moduleService module name = some service.value := by
  obtain ⟨network, _, same⟩ := bind_eq_ok.mp ok
  cases same
  have some_ : (!normalized.services.isEmpty) = true := by
    cases services : normalized.services with
    | nil =>
        rw [services] at declared
        cases declared
    | cons first rest => rfl
  unfold moduleService option
  rw [lookup_update, lookup_update, lookup_update, lookup_optionalModule _ _ _ _ (by decide),
    lookup_optionalModule _ _ _ _ (by decide), some_]
  simp [optionalModule, List.lookup, entriesOf, attrsOf?, lookup_map_value, declared]

/-- A service of a plan is the one of its module that was made of it. -/
theorem primitivePlanToModule_services (ok : primitivePlanToModule plan = .ok module)
    (declared : (planServices plan).lookup name = some raw)
    (accepted : normalizeService name raw = .ok service) :
    moduleService module name = some service.value := by
  obtain ⟨normalized, normal, made⟩ := bind_eq_ok.mp ok
  obtain ⟨own, known, rest⟩ := bind_eq_ok.mp normal
  obtain ⟨services, selected, rest⟩ := bind_eq_ok.mp rest
  obtain ⟨users, _, rest⟩ := bind_eq_ok.mp rest
  obtain ⟨networking, _, rest⟩ := bind_eq_ok.mp rest
  obtain ⟨filesystem, _, rest⟩ := bind_eq_ok.mp rest
  obtain ⟨hooks, _, rest⟩ := bind_eq_ok.mp rest
  obtain ⟨image, _, same⟩ := bind_eq_ok.mp rest
  cases same
  refine module_services made ?_
  unfold planServices at declared
  rw [entriesOf_ok known] at declared
  rcases selectWith_ok selected with ⟨absent, rfl⟩ | ⟨given, present, checked⟩
  · rw [absent] at declared
    cases declared
  · rw [present, Option.map_some, Option.getD_some] at declared
    obtain ⟨entries, attrs, mapped⟩ := bind_eq_ok.mp checked
    rw [entriesOf_of_ensureAttrs attrs] at declared
    obtain ⟨result, there, same⟩ := lookup_mapped (mapAttrs_ok mapped) declared
    rw [accepted, Except.ok.injEq] at same
    rw [there, same]

/-- The unit of a service that is normalized has the declared `argv`, or what the legacy
string alone is rendered as, exactly where no legacy string is hidden by the empty `argv`
that normalizing fills in. -/
theorem normalizeService_args (name : String) (raw : Value) (service : Service)
    (accepted : normalizeService name raw = .ok service) :
    (∀ plan module, primitivePlanToModule plan = .ok module →
      (planServices plan).lookup name = some raw →
        moduleService module name = some service.value) ∧
    ∃ svc, readService service.value = some svc ∧
      (argsLine svc = "args = ".toList ++ jsonStrings (expectedArgs raw svc) ↔ KeepsArgs raw) := by
  refine ⟨?_, service.rendered, readService_value service, argsLine_rendered accepted⟩
  intro plan module ok declared
  exact primitivePlanToModule_services ok declared accepted

end Modules

section Samples

/-- An argument with a space in it. -/
def greeter : Value := .attrs [("argv", .list [.string "hello world"]),
  ("command", .string "/bin/echo")]

def greeterService : Service where
  description := "greeter"
  command := ⟨"/bin/echo", by decide⟩
  type := ⟨"nowait", by decide⟩
  args := ""
  argv := ["hello world"]
  wantedBy := ⟨"rootfs", by decide⟩
  enable := true
  after := []
  environment := []
  priority := 50

theorem greeter_accepted : normalizeService "greeter" greeter = .ok greeterService := by
  rfl

/-- An argument that is declared in a list keeps its space. -/
theorem greeter_keeps_args :
    ∃ svc, readService greeterService.value = some svc ∧
      argsLine svc = "args = ".toList ++ jsonStrings ["hello world"] := by
  obtain ⟨svc, read, kept⟩ :=
    (normalizeService_args "greeter" greeter greeterService greeter_accepted).2
  exact ⟨svc, read, kept.mpr (.inl rfl)⟩

/-- A scheme service that gives the name of its scheme in the legacy string. -/
def logScheme : Value := .attrs [("args", .string "log"), ("command", .string "logd"),
  ("type", .string "scheme")]

def logSchemePlan : Value := .attrs [("services", .attrs [("log", logScheme)])]

/-- The unit of such a service has no arguments. -/
theorem logScheme_loses_args :
    ∃ module value svc, primitivePlanToModule logSchemePlan = .ok module ∧
      moduleService module "log" = some value ∧ readService value = some svc ∧
      expectedArgs logScheme svc = ["log"] ∧
      argsLine svc ≠ "args = ".toList ++ jsonStrings ["log"] := by
  refine ⟨_, _, _, rfl, rfl, rfl, rfl, ?_⟩
  decide

end Samples

end NixRedox.Substrate
