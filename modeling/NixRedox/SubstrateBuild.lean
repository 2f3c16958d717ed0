import NixRedox.Attempts
import NixRedox.SubstrateModule

set_option autoImplicit false

/- Which validated plans can be built, and what their modules hold. -/
namespace NixRedox.Substrate

open AttrSets (Attrs Options Value lookup_ofEntries lookup_update ofEntries option strings update)
open Attempts (bind_eq_ok exists_left exists_right mapM_cases mapM_eq_ok mapM_succeeds map_eq_ok)
open OptionTypes (OptionType attrsOf)

section Declarations

def entriesOf (value : Value) : Entries := (attrsOf? value).getD []

/-- What a plan says of its networking. -/
def planNetworking (plan : Value) : Entries :=
  (((entriesOf plan).lookup "networking").map entriesOf).getD []

def planInterfaces (plan : Value) : Entries :=
  (((planNetworking plan).lookup "interfaces").map entriesOf).getD []

def declaredAddress : Value → Entries
  | .string text => [("address", .string text)]
  | rawAddress => entriesOf rawAddress

/-- The addresses an interface declares: those of its list, or else its own. -/
def declaredAddresses (iface : Entries) : List Entries :=
  match iface.lookup "addresses", iface.lookup "address" with
  | some (.list given), _ => given.map declaredAddress
  | some _, _ => []
  | none, some address => [[("address", address)] ++ inheritOptional iface "gateway" ++
      inheritOptional iface "prefixLength"]
  | none, none => []

/-- The address, the gateway, the prefix length and the netmask of an interface are those
declared; a missing gateway is the default router. -/
structure Shows (networking iface declared made : Entries) : Prop where
  address : made.lookup "address" = declared.lookup "address"
  gateway : made.lookup "gateway" = some
    (((declared.lookup "gateway").or (networking.lookup "defaultRouter")).getD (.string ""))
  prefixLength : made.lookup "prefixLength" = (declared.lookup "prefixLength").filter (· ≠ .null)
  netmask : made.lookup "netmask" = iface.lookup "netmask"

/-- What a plan passes on as it is. -/
def passedOn (plan : Value) (path name : String) : Option Value :=
  if path = "/users" ∧ name ∈ ["users", "groups"] then
    ((entriesOf plan).lookup "users").bind fun users => (entriesOf users).lookup name
  else if (path, name) = ("/filesystem", "extraPaths") then
    ((entriesOf plan).lookup "filesystem").bind fun files => (entriesOf files).lookup name
  else
    none

/-- The options of the module are declared and of their types, as far as the plan's own
accounts and extra paths are, and the declared addresses are in them. -/
structure Built (plan : Value) (module : Options) : Prop where
  declared : ∀ path name value, option module path name = some value →
    ∃ type, declaredType path name = some type ∧
      ((path, name) ≠ ("/networking", "interfaces") →
        (∀ own, passedOn plan path name = some own → type own = true) → type value = true)
  addressed : ∀ name iface declared, (name, iface) ∈ planInterfaces plan →
    declaredAddresses (entriesOf iface) = [declared] →
    ∃ interfaces made, option module "/networking" "interfaces" = some (.attrs interfaces) ∧
      (name, .attrs made) ∈ interfaces ∧ interfaceType (.attrs made) = true ∧
      Shows (planNetworking plan) (entriesOf iface) declared made
  allAddressed : (∀ entry ∈ planInterfaces plan, declaredAddresses (entriesOf entry.2) ≠ []) →
    ∀ value, option module "/networking" "interfaces" = some value →
      attrsOf interfaceType value = true

end Declarations

section Selections

variable {α : Type} {entries : Entries} {name field : String} {value : Value}

theorem ensureAttrs_ok {entries : Entries} (ok : ensureAttrs field value = .ok entries) :
    attrsOf? value = some entries := by
  unfold ensureAttrs at ok
  split at ok
  · rename_i found attrs
    cases ok
    exact attrs
  · cases ok

theorem ensureNoUnknownKeys_ok {allowedKeys : List String} {checked : Entries}
    (ok : ensureNoUnknownKeys field allowedKeys value = .ok checked) :
    attrsOf? value = some checked := by
  obtain ⟨found, attrs, kept⟩ := bind_eq_ok.mp ok
  rw [ensureAttrs_ok attrs]
  dsimp only at kept
  split at kept
  · exact congrArg some (Except.ok.inj kept)
  · cases kept

theorem entriesOf_of_ensureAttrs {entries : Entries} (ok : ensureAttrs field value = .ok entries) :
    entriesOf value = entries := by
  rw [entriesOf, ensureAttrs_ok ok, Option.getD_some]

theorem entriesOf_ok {allowedKeys : List String} {checked : Entries}
    (ok : ensureNoUnknownKeys field allowedKeys value = .ok checked) :
    entriesOf value = checked := by
  rw [entriesOf, ensureNoUnknownKeys_ok ok, Option.getD_some]

theorem ensureNonEmptyString_ok {text : NonEmptyString}
    (ok : ensureNonEmptyString field value = .ok text) : value = .string text.val := by
  obtain ⟨checked, given, kept⟩ := bind_eq_ok.mp ok
  unfold ensureString at given
  split at given
  · cases given
    split at kept
    · cases kept
      rfl
    · cases kept
  · cases given

theorem ensurePrefixLength_ok {length : PrefixLength}
    (ok : ensurePrefixLength field value = .ok length) : value = .int length.val := by
  obtain ⟨checked, given, kept⟩ := bind_eq_ok.mp ok
  unfold ensureInt at given
  split at given
  · cases given
    split at kept
    · cases kept
      rfl
    · cases kept
  · cases given

theorem selectOptional_ok {check : Value → Except String α} {found : Option α}
    (ok : selectOptional entries name check = .ok found) :
    (entries.lookup name = none ∧ found = none) ∨
      ∃ value result, entries.lookup name = some value ∧ check value = .ok result ∧
        found = some result := by
  unfold selectOptional at ok
  split at ok
  · rename_i value present
    obtain ⟨result, checked, same⟩ := map_eq_ok.mp ok
    exact .inr ⟨value, result, present, checked, same.symm⟩
  · rename_i absent
    exact .inl ⟨absent, (Except.ok.inj ok).symm⟩

/-- A text that was checked is the text that was given. -/
theorem selectOptional_string {found : Option NonEmptyString}
    (ok : selectOptional entries name (ensureNonEmptyString field) = .ok found) :
    entries.lookup name = found.map fun text => .string text.val := by
  rcases selectOptional_ok ok with ⟨absent, rfl⟩ | ⟨value, text, present, checked, rfl⟩
  · exact absent
  · rw [present, ensureNonEmptyString_ok checked]
    rfl

theorem select_ok (ok : select entries name = .ok value) : entries.lookup name = some value := by
  unfold select at ok
  split at ok
  · rename_i found present
    rw [present, Except.ok.inj ok]
  · cases ok

end Selections

section Addresses

variable {field name : String} {value : Value} {iface declared : Entries} {address : Address}

/-- The normalized address is the one declared; a prefix length of null is none. -/
structure Declares (declared : Entries) (one : Address) : Prop where
  address : declared.lookup "address" = some (.string one.address.val)
  prefixLength : (declared.lookup "prefixLength").filter (· ≠ .null) =
    one.prefixLength.map fun length => .int length.val
  gateway : declared.lookup "gateway" = one.gateway.map fun text => .string text.val

theorem addressPrefixLength_ok {prefixLength : Option PrefixLength}
    (ok : addressPrefixLength field declared = .ok prefixLength) :
    (declared.lookup "prefixLength").filter (· ≠ .null) =
      prefixLength.map fun length => .int length.val := by
  unfold addressPrefixLength at ok
  cases given : declared.lookup "prefixLength" with
  | none =>
      rw [given] at ok
      cases ok
      rfl
  | some value =>
      rw [given, Option.getD_some] at ok
      split at ok
      · cases ok
        rfl
      · rename_i measured
        obtain ⟨length, checked, same⟩ := map_eq_ok.mp ok
        rw [Option.filter_some_pos (by simpa using measured), ensurePrefixLength_ok checked,
          ← same]
        rfl

theorem normalizeAddress_declares (ok : normalizeAddress field value = .ok address) :
    Declares (declaredAddress value) address := by
  unfold normalizeAddress at ok
  split at ok
  · rename_i text
    obtain ⟨checked, given, same⟩ := bind_eq_ok.mp ok
    cases same
    refine ⟨?_, rfl, rfl⟩
    show some (Value.string text) = _
    rw [ensureNonEmptyString_ok given]
  · rename_i other
    obtain ⟨own, known, rest⟩ := bind_eq_ok.mp ok
    obtain ⟨raw, selected, rest⟩ := bind_eq_ok.mp rest
    obtain ⟨text, given, rest⟩ := bind_eq_ok.mp rest
    obtain ⟨prefixLength, measured, rest⟩ := bind_eq_ok.mp rest
    obtain ⟨gateway, routed, same⟩ := bind_eq_ok.mp rest
    cases same
    have entries : declaredAddress value = own := by
      cases value with
      | string text => exact absurd rfl (other text)
      | _ => simp [declaredAddress, entriesOf, ensureNoUnknownKeys_ok known]
    rw [entries]
    refine ⟨?_, ?_, selectOptional_string routed⟩
    · rw [select_ok selected, ensureNonEmptyString_ok given]
    · exact addressPrefixLength_ok measured

theorem interfaceAddresses_declares {addresses : List Address}
    (ok : interfaceAddresses field iface = .ok addresses) :
    List.Forall₂ Declares (declaredAddresses iface) addresses := by
  unfold interfaceAddresses at ok
  unfold declaredAddresses
  split at ok
  · rename_i given _ listed
    obtain ⟨values, isList, all⟩ := bind_eq_ok.mp ok
    unfold ensureList at isList
    split at isList
    · cases isList
      rw [listed]
      apply List.forall₂_map_left_iff.mpr
      exact (mapM_eq_ok.mp all).imp fun _ _ made => normalizeAddress_declares made
    · cases isList
  · rename_i given none own
    obtain ⟨one, made, same⟩ := bind_eq_ok.mp ok
    cases same
    rw [none, own]
    exact .cons (normalizeAddress_declares made) .nil
  · rename_i none noOwn
    cases ok
    rw [none, noOwn]
    exact .nil

/-- What an interface declares and what is made of it in the normalized plan. -/
structure Normalizes (raw : Entries) (iface : Interface) : Prop where
  addresses : List.Forall₂ Declares (declaredAddresses raw) iface.addresses
  netmask : raw.lookup "netmask" = iface.netmask.map fun text => .string text.val

theorem normalizeInterface_normalizes {iface : Interface}
    (ok : normalizeInterface name value = .ok iface) : Normalizes (entriesOf value) iface := by
  obtain ⟨raw, known, rest⟩ := bind_eq_ok.mp ok
  obtain ⟨addresses, declared, rest⟩ := bind_eq_ok.mp rest
  obtain ⟨netmask, masked, same⟩ := bind_eq_ok.mp rest
  cases same
  rw [entriesOf_ok known]
  exact ⟨interfaceAddresses_declares declared, selectOptional_string masked⟩

theorem mapAttrs_ok {α : Type} {make : String → Value → Except String α} {made : List (String × α)}
    (ok : mapAttrs make value = .ok made) :
    List.Forall₂ (fun entry result => entry.1 = result.1 ∧ make entry.1 entry.2 = .ok result.2)
      (entriesOf value) made := by
  unfold mapAttrs at ok
  unfold entriesOf
  split at ok
  · rename_i entries attrs
    rw [attrs]
    refine (mapM_eq_ok.mp ok).imp fun entry result one => ?_
    obtain ⟨value, made, same⟩ := map_eq_ok.mp one
    rw [← same]
    exact ⟨rfl, made⟩
  · cases ok

end Addresses

section Normalizing

variable {α : Type} {entries : Entries} {name : String} {value : Value}

theorem selectWith_ok {check : Value → Except String α} {absent found : α}
    (ok : selectWith entries name check absent = .ok found) :
    (entries.lookup name = none ∧ found = absent) ∨
      ∃ value, entries.lookup name = some value ∧ check value = .ok found := by
  unfold selectWith at ok
  split at ok
  · rename_i value present
    exact .inr ⟨value, present, ok⟩
  · rename_i missing
    exact .inl ⟨missing, (Except.ok.inj ok).symm⟩

/-- What a normalized networking says of the interfaces and the default router of a plan. -/
structure Networked (raw : Entries) (networking : Networking) : Prop where
  interfaces : List.Forall₂ (fun entry made => entry.1 = made.1 ∧
    Normalizes (entriesOf entry.2) made.2) (((raw.lookup "interfaces").map entriesOf).getD [])
    networking.interfaces
  router : raw.lookup "defaultRouter" = networking.defaultRouter.map fun text => .string text.val

theorem normalizeNetworking_networked {networking : Networking}
    (ok : normalizeNetworking value = .ok networking) :
    Networked (entriesOf value) networking := by
  obtain ⟨raw, known, rest⟩ := bind_eq_ok.mp ok
  obtain ⟨interfaces, mapped, rest⟩ := bind_eq_ok.mp rest
  obtain ⟨enable, _, rest⟩ := bind_eq_ok.mp rest
  obtain ⟨mode, _, rest⟩ := bind_eq_ok.mp rest
  obtain ⟨dns, _, rest⟩ := bind_eq_ok.mp rest
  obtain ⟨searchDomains, _, rest⟩ := bind_eq_ok.mp rest
  obtain ⟨hostname, _, rest⟩ := bind_eq_ok.mp rest
  obtain ⟨defaultRouter, routed, same⟩ := bind_eq_ok.mp rest
  cases same
  rw [entriesOf_ok known]
  refine ⟨?_, selectOptional_string routed⟩
  rcases selectWith_ok mapped with ⟨absent, rfl⟩ | ⟨given, present, made⟩
  · rw [absent]
    exact .nil
  · rw [present]
    exact (mapAttrs_ok made).imp fun _ _ one => ⟨one.1, normalizeInterface_normalizes one.2⟩

/-- The parts of a normalized plan that a module takes from the plan as they are, and its
interfaces. -/
structure NormalizedFrom (plan : Value) (normalized : Normalized) : Prop where
  networking : match normalized.networking with
    | some networking => Networked (planNetworking plan) networking
    | none => planInterfaces plan = []
  users : passedOn plan "/users" "users" = some normalized.users.users ∨
    normalized.users.users = .attrs []
  groups : passedOn plan "/users" "groups" = some normalized.users.groups ∨
    normalized.users.groups = .attrs []
  extraPaths : passedOn plan "/filesystem" "extraPaths" =
    some (.list normalized.filesystem.extraPaths) ∨ normalized.filesystem.extraPaths = []

theorem normalizeUsers_ok {users : Users} (ok : normalizeUsers value = .ok users) :
    ((entriesOf value).lookup "users" = some users.users ∨ users.users = .attrs []) ∧
      ((entriesOf value).lookup "groups" = some users.groups ∨ users.groups = .attrs []) := by
  obtain ⟨raw, known, rest⟩ := bind_eq_ok.mp ok
  obtain ⟨accounts, one, rest⟩ := bind_eq_ok.mp rest
  obtain ⟨groups, two, same⟩ := bind_eq_ok.mp rest
  cases same
  have passed : ∀ {name field : String} {found : Value},
      selectWith raw name (fun value => (ensureAttrs field value).map fun _ => value)
        (.attrs []) = .ok found → raw.lookup name = some found ∨ found = .attrs [] := by
    intro name field found selected
    rcases selectWith_ok selected with ⟨_, same⟩ | ⟨given, present, checked⟩
    · exact .inr same
    · obtain ⟨_, _, same⟩ := map_eq_ok.mp checked
      exact .inl (same ▸ present)
  rw [entriesOf_ok known]
  exact ⟨passed one, passed two⟩

theorem normalizeFilesystem_ok {filesystem : Filesystem}
    (ok : normalizeFilesystem value = .ok filesystem) :
    (entriesOf value).lookup "extraPaths" = some (.list filesystem.extraPaths) ∨
      filesystem.extraPaths = [] := by
  obtain ⟨raw, known, rest⟩ := bind_eq_ok.mp ok
  obtain ⟨directories, _, rest⟩ := bind_eq_ok.mp rest
  obtain ⟨files, _, rest⟩ := bind_eq_ok.mp rest
  obtain ⟨devSymlinks, _, rest⟩ := bind_eq_ok.mp rest
  obtain ⟨symlinks, _, rest⟩ := bind_eq_ok.mp rest
  obtain ⟨extraPaths, selected, same⟩ := bind_eq_ok.mp rest
  cases same
  rw [entriesOf_ok known]
  rcases selectWith_ok selected with ⟨_, same⟩ | ⟨given, present, checked⟩
  · exact .inr same
  · left
    unfold ensureList at checked
    split at checked
    · cases checked
      exact present
    · cases checked

theorem normalizePrimitivePlan_from {plan : Value} {normalized : Normalized}
    (ok : normalizePrimitivePlan plan = .ok normalized) : NormalizedFrom plan normalized := by
  obtain ⟨raw, known, rest⟩ := bind_eq_ok.mp ok
  obtain ⟨services, _, rest⟩ := bind_eq_ok.mp rest
  obtain ⟨users, accounts, rest⟩ := bind_eq_ok.mp rest
  obtain ⟨networking, networked, rest⟩ := bind_eq_ok.mp rest
  obtain ⟨filesystem, files, rest⟩ := bind_eq_ok.mp rest
  obtain ⟨hooks, _, rest⟩ := bind_eq_ok.mp rest
  obtain ⟨image, _, same⟩ := bind_eq_ok.mp rest
  cases same
  have own : entriesOf plan = raw := entriesOf_ok known
  have passedUsers : ∀ name ∈ ["users", "groups"], passedOn plan "/users" name =
      (raw.lookup "users").bind fun users => (entriesOf users).lookup name := by
    intro name inside
    rw [passedOn, if_pos ⟨rfl, inside⟩, own]
  have passedPaths : passedOn plan "/filesystem" "extraPaths" =
      (raw.lookup "filesystem").bind fun files => (entriesOf files).lookup "extraPaths" := by
    rw [passedOn, if_neg (by simp), if_pos rfl, own]
  constructor
  · unfold planInterfaces planNetworking
    rw [own]
    rcases selectOptional_ok networked with ⟨absent, rfl⟩ | ⟨given, result, present, made, rfl⟩
    · rw [absent]
      rfl
    · rw [present]
      exact normalizeNetworking_networked made
  · rw [passedUsers "users" (by simp)]
    rcases selectWith_ok accounts with ⟨_, rfl⟩ | ⟨given, present, made⟩
    · exact .inr rfl
    · rw [present]
      exact (normalizeUsers_ok made).1
  · rw [passedUsers "groups" (by simp)]
    rcases selectWith_ok accounts with ⟨_, rfl⟩ | ⟨given, present, made⟩
    · exact .inr rfl
    · rw [present]
      exact (normalizeUsers_ok made).2
  · rw [passedPaths]
    rcases selectWith_ok files with ⟨_, rfl⟩ | ⟨given, present, made⟩
    · exact .inr rfl
    · rw [present]
      exact normalizeFilesystem_ok made

end Normalizing

section Interfaces

variable {raw entries declared : Entries} {networking : Networking} {iface : Interface}
  {name : String}

/-- An interface can be built exactly when it declares at most one address. -/
theorem interface_builds (normal : Normalizes entries iface) :
    (∃ made, adiosInterfaceFromPrimitive networking name iface = .ok made) ↔
      (declaredAddresses entries).length ≤ 1 := by
  rw [normal.addresses.length_eq]
  unfold adiosInterfaceFromPrimitive ensureBuildableInterface
  constructor
  · rintro ⟨made, ok⟩
    obtain ⟨checked, buildable, _⟩ := bind_eq_ok.mp ok
    split at buildable
    · assumption
    · cases buildable
  · intro single
    rw [if_pos (show _ ≤ singleAddressPerInterfaceLimit from single)]
    cases addresses : iface.addresses with
    | nil => exact ⟨.attrs [], by simp [bind, Except.bind, addresses]; rfl⟩
    | cons primary rest => exact ⟨_, by simp [bind, Except.bind, addresses]; rfl⟩

theorem interface_shows (name : String) (networked : Networked raw networking)
    (normal : Normalizes entries iface) (single : declaredAddresses entries = [declared]) :
    ∃ made, adiosInterfaceFromPrimitive networking name iface = .ok (.attrs made) ∧
      interfaceType (.attrs made) = true ∧ Shows raw entries declared made := by
  have addresses := normal.addresses
  rw [single] at addresses
  obtain ⟨primary, rest, declares, none, same⟩ := List.forall₂_cons_left_iff.mp addresses
  cases none
  obtain ⟨address, prefixLength, gateway⟩ := declares
  have netmask := normal.netmask
  have router := networked.router
  obtain ⟨addresses, mask⟩ := iface
  obtain ⟨text, length, own⟩ := primary
  dsimp only at same address prefixLength gateway netmask
  subst same
  refine ⟨_, rfl, ?_, ?_⟩
  · cases mask <;> cases length <;> rfl
  · constructor
    · rw [address]
      rfl
    · rw [gateway, router]
      cases own <;> cases networking.defaultRouter <;> rfl
    · rw [prefixLength]
      cases mask <;> cases length <;> rfl
    · rw [netmask]
      cases mask <;> cases length <;> rfl

end Interfaces

section Typing

variable {plan : Value} {path : String}

/-- The option is declared, and the value of its type. -/
def Fits (plan : Value) (path : String) (entry : String × Value) : Prop :=
  ∃ type, declaredType path entry.1 = some type ∧
    ((path, entry.1) ≠ ("/networking", "interfaces") →
      (∀ own, passedOn plan path entry.1 = some own → type own = true) → type entry.2 = true)

theorem fits_of_type {name : String} {value : Value} {type : OptionType}
    (known : declaredType path name = some type) (accepted : type value = true) :
    Fits plan path (name, value) := ⟨type, known, fun _ _ => accepted⟩

theorem fits_optionalEntry {condition : Bool} {name : String} {value : Value}
    (fits : Fits plan path (name, value)) :
    ∀ entry ∈ optionalEntry condition name value, Fits plan path entry := by
  intro entry inside
  unfold optionalEntry at inside
  split at inside
  · rw [List.mem_singleton.mp inside]
    exact fits
  · cases inside

theorem fits_someString {name : String} {text : Option NonEmptyString}
    (known : declaredType path name = some OptionTypes.string) :
    ∀ entry ∈ someString name text, Fits plan path entry := by
  intro entry inside
  cases text with
  | none => cases inside
  | some checked =>
      rw [List.mem_singleton.mp inside]
      exact fits_of_type known rfl

theorem strings_typed (texts : List String) :
    OptionTypes.listOf OptionTypes.string (strings texts) = true :=
  OptionTypes.strings_accepted texts

theorem stringValues_typed (texts : List (String × String)) :
    attrsOf OptionTypes.string (stringValues texts) = true :=
  OptionTypes.attrsOf_map fun _ _ => rfl

theorem service_typed (service : Service) : serviceType service.value = true := by
  have type := OptionTypes.enum_accepts service.type.property
  have wantedBy := OptionTypes.enum_accepts service.wantedBy.property
  unfold supportedServiceTypes at type
  unfold supportedTargets at wantedBy
  simp [serviceType, Service.value, OptionTypes.struct, OptionTypes.required,
    OptionTypes.optionalAttr, OptionTypes.Member.accepts, List.lookup, strings_typed,
    stringValues_typed, type, wantedBy, OptionTypes.string, OptionTypes.bool, OptionTypes.int]

theorem file_typed (file : File) : extraFileType file.value = true := rfl

def ModuleFits (plan : Value) (module : Options) : Prop :=
  ∀ path attrs, module.lookup path = some attrs →
    ∀ name value, attrs.lookup name = some value → Fits plan path (name, value)

theorem moduleFits_empty : ModuleFits plan ∅ := by
  intro path attrs found
  rw [AList.lookup_empty] at found
  cases found

theorem moduleFits_update {one two : Options} (first : ModuleFits plan one)
    (second : ModuleFits plan two) : ModuleFits plan (update one two) := by
  intro path attrs found
  rw [lookup_update, Option.or_eq_some_iff] at found
  cases found with
  | inl own => exact second path attrs own
  | inr other => exact first path attrs other.2

theorem moduleFits_ofEntries {entries : Entries} (fits : ∀ entry ∈ entries, Fits plan path entry) :
    ModuleFits plan (ofEntries [(path, ofEntries entries)]) := by
  intro other attrs found name value set
  rw [lookup_ofEntries, List.lookup_cons] at found
  split at found
  · rename_i same
    cases found
    rw [beq_iff_eq] at same
    rw [lookup_ofEntries] at set
    obtain ⟨before, behind, split, _⟩ := List.lookup_eq_some_iff.mp set
    rw [same]
    apply fits
    rw [split]
    simp
  · cases found

theorem moduleFits_optional {condition : Bool} {entries : Entries}
    (fits : ∀ entry ∈ entries, Fits plan path entry) :
    ModuleFits plan (optionalModule condition path entries) := by
  unfold optionalModule
  split
  · exact moduleFits_ofEntries fits
  · exact moduleFits_empty

/-- What is passed on is of its type when the plan's own value is. -/
theorem fits_of_passedOn {name : String} {value : Value} {type : OptionType}
    (known : declaredType path name = some type)
    (given : passedOn plan path name = some value ∨ type value = true) :
    Fits plan path (name, value) := by
  refine ⟨type, known, fun _ own => ?_⟩
  cases given with
  | inl passed => exact own value passed
  | inr accepted => exact accepted

theorem usersEntries_fit {normalized : Normalized} (given : NormalizedFrom plan normalized) :
    ∀ entry ∈ usersEntries normalized.users, Fits plan "/users" entry := by
  unfold usersEntries
  rw [List.forall_mem_append]
  constructor
  · apply fits_optionalEntry
    apply fits_of_passedOn rfl
    exact given.users.imp id fun none => by rw [none]; rfl
  · apply fits_optionalEntry
    apply fits_of_passedOn rfl
    exact given.groups.imp id fun none => by rw [none]; rfl

theorem filesystemEntries_fit {normalized : Normalized} (given : NormalizedFrom plan normalized) :
    ∀ entry ∈ filesystemEntries normalized.filesystem, Fits plan "/filesystem" entry := by
  unfold filesystemEntries
  simp only [List.forall_mem_append]
  refine ⟨⟨⟨⟨?_, ?_⟩, ?_⟩, ?_⟩, ?_⟩
  · exact fits_optionalEntry (fits_of_type rfl (strings_typed _))
  · apply fits_optionalEntry
    apply fits_of_type rfl
    exact OptionTypes.attrsOf_map fun entry _ => file_typed entry.2
  · exact fits_optionalEntry (fits_of_type rfl (stringValues_typed _))
  · exact fits_optionalEntry (fits_of_type rfl (stringValues_typed _))
  · apply fits_optionalEntry
    apply fits_of_passedOn rfl
    exact given.extraPaths.imp id fun none => by rw [none]; rfl

theorem networkingModule_fits {networking : Networking} {module : Options}
    (ok : networkingModule networking = .ok module) : ModuleFits plan module := by
  obtain ⟨interfaces, _, same⟩ := bind_eq_ok.mp ok
  cases same
  apply moduleFits_update
  · apply moduleFits_ofEntries
    simp only [networkingSettings, List.forall_mem_append]
    refine ⟨⟨⟨⟨?_, ?_⟩, ?_⟩, ?_⟩, ?_⟩
    · intro entry inside
      rcases List.mem_cons.mp inside with rfl | inside
      · exact fits_of_type rfl rfl
      · rw [List.mem_singleton.mp inside]
        exact fits_of_type rfl (OptionTypes.enum_accepts networking.mode.property)
    · exact fits_optionalEntry (fits_of_type rfl (strings_typed _))
    · exact fits_optionalEntry (fits_of_type rfl (strings_typed _))
    · exact fits_someString rfl
    · apply fits_optionalEntry
      exact ⟨_, rfl, fun other _ => absurd rfl other⟩
  · cases networking.hostname with
    | none => exact moduleFits_empty
    | some hostname =>
        apply moduleFits_ofEntries
        intro entry inside
        rw [List.mem_singleton.mp inside]
        exact fits_of_type rfl rfl

theorem moduleFromNormalized_fits {normalized : Normalized} {module : Options}
    (given : NormalizedFrom plan normalized)
    (ok : moduleFromNormalized normalized = .ok module) : ModuleFits plan module := by
  obtain ⟨networking, made, same⟩ := bind_eq_ok.mp ok
  cases same
  apply moduleFits_update
  · apply moduleFits_update
    · apply moduleFits_update
      · unfold networkingOptions at made
        split at made
        · exact networkingModule_fits made
        · cases made
          exact moduleFits_empty
      · apply moduleFits_optional
        intro entry inside
        rw [List.mem_singleton.mp inside]
        apply fits_of_type rfl
        exact OptionTypes.attrsOf_map fun entry _ => service_typed entry.2
    · exact moduleFits_optional (usersEntries_fit given)
  · exact moduleFits_optional (filesystemEntries_fit given)

end Typing

section Building

variable {plan : Value} {normalized : Normalized} {networking : Networking} {module : Options}

theorem lookup_optionalEntry (condition : Bool) (name other : String) (value : Value) :
    (optionalEntry condition name value).lookup other =
      if condition ∧ other = name then some value else none := by
  unfold optionalEntry
  cases condition with
  | false => rfl
  | true =>
      by_cases same : other = name
      · simp [same]
      · simp [same, List.lookup_cons, beq_false_of_ne same]

theorem lookup_someString (name other : String) (text : Option NonEmptyString)
    (apart : other ≠ name) : (someString name text).lookup other = none := by
  cases text with
  | none => rfl
  | some checked => simp [someString, List.lookup_cons, beq_false_of_ne apart]

theorem lookup_optionalModule (condition : Bool) (path other : String) (entries : Entries)
    (apart : other ≠ path) : (optionalModule condition path entries).lookup other = none := by
  unfold optionalModule
  split
  · rw [lookup_ofEntries, List.lookup_cons, beq_false_of_ne apart]
    rfl
  · exact AList.lookup_empty other

theorem lookup_interfaces (networking : Networking) (interfaces : Entries) :
    (networkingSettings networking interfaces).lookup "interfaces" =
      if networking.interfaces = [] then none else some (.attrs interfaces) := by
  simp only [networkingSettings, List.lookup_append, lookup_optionalEntry,
    lookup_someString "defaultRouter" "interfaces" _ (by decide)]
  cases networking.interfaces <;> simp [List.lookup]

/-- The interfaces of a networking module, unless there are none. -/
theorem networkingModule_interfaces (ok : networkingModule networking = .ok module) :
    ∃ interfaces, networking.interfaces.mapM (fun entry =>
        (adiosInterfaceFromPrimitive networking entry.1 entry.2).map (Prod.mk entry.1)) =
          .ok interfaces ∧
      option module "/networking" "interfaces" =
        if networking.interfaces = [] then none else some (.attrs interfaces) := by
  obtain ⟨interfaces, made, same⟩ := bind_eq_ok.mp ok
  cases same
  refine ⟨interfaces, made, ?_⟩
  have time : (timeModule networking.hostname).lookup "/networking" = none := by
    cases networking.hostname <;> rfl
  rw [option, lookup_update, time, Option.none_or, lookup_ofEntries, List.lookup_cons_self,
    Option.bind_some, lookup_ofEntries, lookup_interfaces]

theorem module_networking (ok : moduleFromNormalized normalized = .ok module) :
    ∃ network, networkingOptions normalized.networking = .ok network ∧
      ∀ name, option module "/networking" name = option network "/networking" name := by
  obtain ⟨network, made, same⟩ := bind_eq_ok.mp ok
  cases same
  refine ⟨network, made, fun name => ?_⟩
  unfold option
  rw [lookup_update, lookup_update, lookup_update, lookup_optionalModule _ _ _ _ (by decide),
    lookup_optionalModule _ _ _ _ (by decide), lookup_optionalModule _ _ _ _ (by decide)]
  rfl

/-- The refusal of an interface with several addresses. -/
def severalAddresses (name : String) : String :=
  "redox substrate " ++ ("networking.interfaces." ++ name ++ ".addresses") ++ ": " ++
    ("current Redox builder supports at most " ++ toString singleAddressPerInterfaceLimit ++
      " static address per interface")

theorem interface_refused {iface : Interface} {name reason : String}
    (refused : adiosInterfaceFromPrimitive networking name iface = .error reason) :
    reason = severalAddresses name := by
  unfold adiosInterfaceFromPrimitive ensureBuildableInterface at refused
  split at refused
  · simp only [bind, Except.bind] at refused
    split at refused <;> cases refused
  · cases refused
    rfl

theorem networkingModule_builds {raw : Entries} (networked : Networked raw networking) :
    (∃ module, networkingModule networking = .ok module) ↔
      ∀ entry ∈ ((raw.lookup "interfaces").map entriesOf).getD [],
        (declaredAddresses (entriesOf entry.2)).length ≤ 1 := by
  have mapped : (∃ module, networkingModule networking = .ok module) ↔
      ∃ interfaces, networking.interfaces.mapM (fun entry =>
        (adiosInterfaceFromPrimitive networking entry.1 entry.2).map (Prod.mk entry.1)) =
          .ok interfaces := by
    constructor
    · rintro ⟨module, ok⟩
      obtain ⟨interfaces, made, _⟩ := bind_eq_ok.mp ok
      exact ⟨interfaces, made⟩
    · rintro ⟨interfaces, made⟩
      exact ⟨_, bind_eq_ok.mpr ⟨interfaces, made, rfl⟩⟩
  rw [mapped, mapM_succeeds]
  constructor
  · intro each entry declared
    obtain ⟨normal, there, _, normal_of⟩ := exists_right networked.interfaces declared
    obtain ⟨result, made⟩ := each normal there
    obtain ⟨value, built, _⟩ := map_eq_ok.mp made
    exact (interface_builds normal_of).mp ⟨value, built⟩
  · intro each normal there
    obtain ⟨entry, declared, _, normal_of⟩ := exists_left networked.interfaces there
    obtain ⟨value, built⟩ := (interface_builds normal_of).mpr (each entry declared)
    exact ⟨_, map_eq_ok.mpr ⟨value, built, rfl⟩⟩

theorem networkingModule_refused {raw : Entries} {reason : String}
    (networked : Networked raw networking)
    (refused : networkingModule networking = .error reason) :
    ∃ entry ∈ ((raw.lookup "interfaces").map entriesOf).getD [],
      reason = severalAddresses entry.1 ∧
        1 < (declaredAddresses (entriesOf entry.2)).length := by
  rcases mapM_cases (fun entry : String × Interface =>
      (adiosInterfaceFromPrimitive networking entry.1 entry.2).map (Prod.mk entry.1))
      networking.interfaces with ⟨interfaces, all⟩ | ⟨normal, there, e, failed, all⟩
  · unfold networkingModule at refused
    rw [all] at refused
    cases refused
  · unfold networkingModule at refused
    rw [all] at refused
    cases refused
    obtain ⟨entry, declared, same, normal_of⟩ := exists_left networked.interfaces there
    cases built : adiosInterfaceFromPrimitive networking normal.1 normal.2 with
    | ok value =>
        rw [built] at failed
        cases failed
    | error reason =>
        rw [built] at failed
        cases failed
        refine ⟨entry, declared, ?_, ?_⟩
        · rw [same]
          exact interface_refused built
        · by_contra few
          obtain ⟨made, ok⟩ := (interface_builds normal_of).mpr (Nat.le_of_not_lt few)
          rw [built] at ok
          cases ok

end Building

section Plans

variable {plan : Value} {normalized : Normalized} {module : Options}

theorem moduleFromNormalized_builds :
    (∃ module, moduleFromNormalized normalized = .ok module) ↔
      ∃ network, networkingOptions normalized.networking = .ok network := by
  constructor
  · rintro ⟨module, ok⟩
    obtain ⟨network, made, _⟩ := bind_eq_ok.mp ok
    exact ⟨network, made⟩
  · rintro ⟨network, made⟩
    exact ⟨_, bind_eq_ok.mpr ⟨network, made, rfl⟩⟩

theorem module_addressed (given : NormalizedFrom plan normalized)
    (ok : moduleFromNormalized normalized = .ok module) {name : String} {iface : Value}
    {declared : Entries} (inside : (name, iface) ∈ planInterfaces plan)
    (single : declaredAddresses (entriesOf iface) = [declared]) :
    ∃ interfaces made, option module "/networking" "interfaces" = some (.attrs interfaces) ∧
      (name, .attrs made) ∈ interfaces ∧ interfaceType (.attrs made) = true ∧
      Shows (planNetworking plan) (entriesOf iface) declared made := by
  have networked := given.networking
  obtain ⟨network, made, same⟩ := module_networking ok
  cases networking : normalized.networking with
  | none =>
      rw [networking] at networked
      rw [networked] at inside
      cases inside
  | some settings =>
      rw [networking] at networked made
      obtain ⟨interfaces, all, shown⟩ := networkingModule_interfaces made
      obtain ⟨normal, there, named, normal_of⟩ := exists_right networked.interfaces inside
      obtain ⟨entry, built, one⟩ := exists_right (mapM_eq_ok.mp all) there
      obtain ⟨own, produced, typed, shown_in⟩ := interface_shows normal.1 networked normal_of single
      have some_interface : settings.interfaces ≠ [] := List.ne_nil_of_mem there
      rw [if_neg some_interface] at shown
      rw [produced] at one
      cases one
      refine ⟨interfaces, own, (same "interfaces").trans shown, ?_, typed, shown_in⟩
      have name_of : name = normal.1 := named
      rw [name_of]
      exact built

theorem module_allAddressed (given : NormalizedFrom plan normalized)
    (ok : moduleFromNormalized normalized = .ok module)
    (each : ∀ entry ∈ planInterfaces plan, declaredAddresses (entriesOf entry.2) ≠ [])
    {value : Value} (set : option module "/networking" "interfaces" = some value) :
    attrsOf interfaceType value = true := by
  have networked := given.networking
  obtain ⟨network, made, same⟩ := module_networking ok
  rw [same] at set
  cases networking : normalized.networking with
  | none =>
      rw [networking] at made
      cases made
      cases set
  | some settings =>
      rw [networking] at networked made
      obtain ⟨interfaces, all, shown⟩ := networkingModule_interfaces made
      rw [shown] at set
      split at set
      · cases set
      cases set
      rw [attrsOf, List.all_eq_true]
      intro entry inside
      obtain ⟨normal, there, one⟩ := exists_left (mapM_eq_ok.mp all) inside
      obtain ⟨raw, declared_in, _, normal_of⟩ := exists_left networked.interfaces there
      obtain ⟨own, produced, rfl⟩ := map_eq_ok.mp one
      have few := (interface_builds normal_of).mp ⟨own, produced⟩
      have some_address := each raw declared_in
      obtain ⟨declared, single⟩ : ∃ declared, declaredAddresses (entriesOf raw.2) = [declared] := by
        apply List.length_eq_one_iff.mp
        have positive := List.length_pos_iff.mpr some_address
        omega
      obtain ⟨_, same_made, typed, _⟩ := interface_shows normal.1 networked normal_of single
      rw [produced] at same_made
      cases same_made
      exact typed

/-- A validated plan is built exactly when no interface declares several addresses, and is
refused with a message that names such an interface otherwise. What is built is typed, and the
declared addresses are in it. -/
theorem validated_plan_built (plan : Value) (valid : validatePlan plan = true) :
    ((∃ module, primitivePlanToModule plan = .ok module) ↔
        ∀ entry ∈ planInterfaces plan, (declaredAddresses (entriesOf entry.2)).length ≤ 1) ∧
      (∀ reason, primitivePlanToModule plan = .error reason →
        ∃ entry ∈ planInterfaces plan, reason = severalAddresses entry.1 ∧
          1 < (declaredAddresses (entriesOf entry.2)).length) ∧
      ∀ module, primitivePlanToModule plan = .ok module → Built plan module := by
  obtain ⟨normalized, ok⟩ : ∃ normalized, normalizePrimitivePlan plan = .ok normalized := by
    unfold validatePlan at valid
    cases result : normalizePrimitivePlan plan with
    | ok normalized => exact ⟨normalized, rfl⟩
    | error reason =>
        rw [result] at valid
        cases valid
  have given := normalizePrimitivePlan_from ok
  have networked := given.networking
  have built : primitivePlanToModule plan = moduleFromNormalized normalized := by
    rw [primitivePlanToModule, ok]
    rfl
  rw [built]
  refine ⟨?_, ?_, ?_⟩
  · rw [moduleFromNormalized_builds]
    cases networking : normalized.networking with
    | none =>
        rw [networking] at networked
        rw [networked]
        constructor
        · intro _ entry inside
          cases inside
        · intro _
          exact ⟨∅, rfl⟩
    | some settings =>
        rw [networking] at networked
        exact networkingModule_builds networked
  · intro reason refused
    cases networking : normalized.networking with
    | none =>
        unfold moduleFromNormalized at refused
        rw [networking] at refused
        cases refused
    | some settings =>
        rw [networking] at networked
        cases made : networkingModule settings with
        | ok network =>
            unfold moduleFromNormalized at refused
            rw [networking, networkingOptions, made] at refused
            cases refused
        | error other =>
            unfold moduleFromNormalized at refused
            rw [networking, networkingOptions, made] at refused
            cases refused
            exact networkingModule_refused networked made
  · intro module ok
    constructor
    · intro path name value set
      obtain ⟨attrs, found, own⟩ := Option.bind_eq_some_iff.mp set
      exact moduleFromNormalized_fits given ok path attrs found name value own
    · intro name iface declared inside single
      exact module_addressed given ok inside single
    · intro each value set
      exact module_allAddressed given ok each set

def planWith (addresses : List Value) : Value :=
  .attrs [("networking", .attrs [("defaultRouter", .string "2001:db8::1"),
      ("interfaces", .attrs [("eth0", .attrs [("addresses", .list addresses)])]),
      ("mode", .string "static")]),
    ("services", .attrs [("exampled", .attrs [("command", .string "/bin/exampled")])])]

def firstAddress : Value :=
  .attrs [("address", .string "2001:db8::10"), ("prefixLength", .int 64)]

theorem example_plan_built :
    ∃ module, primitivePlanToModule (planWith [firstAddress]) = .ok module ∧
      Built (planWith [firstAddress]) module := by
  obtain ⟨builds, _, built⟩ := validated_plan_built (planWith [firstAddress]) rfl
  obtain ⟨module, ok⟩ := builds.mpr (by decide)
  exact ⟨module, ok, built module ok⟩

/-- A plan with two addresses for one interface is validated and refused. -/
theorem several_addresses_refused :
    ¬ ∀ plan, validatePlan plan = true →
      ∃ module, primitivePlanToModule plan = .ok module ∧ Built plan module := by
  intro always
  obtain ⟨module, ok, _⟩ := always (planWith [firstAddress, .string "2001:db8::11"]) rfl
  cases ok

end Plans

end NixRedox.Substrate
