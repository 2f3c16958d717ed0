import NixRedox.SubstrateFiles
import NixRedox.SubstrateServices

set_option autoImplicit false

/- Normalized plans as the attribute sets that are published, normalized once more. -/
namespace NixRedox.Substrate

open AttrSets (Attrs Options Value lookup_ofEntries lookup_update ofEntries strings update)
open Attempts (bind_eq_ok exists_left mapM_eq_ok map_eq_ok mapM_eq_some)

section Published

def somePrefixLength (length : Option PrefixLength) : Entries :=
  (length.map fun checked => ("prefixLength", Value.int checked.val)).toList

def Address.value (address : Address) : Value :=
  .attrs ([("address", .string address.address.val)] ++ someString "gateway" address.gateway ++
    somePrefixLength address.prefixLength)

def Interface.value (iface : Interface) : Value :=
  .attrs ([("addresses", .list (iface.addresses.map Address.value))] ++
    someString "netmask" iface.netmask)

/-- Named things as the attributes that hold them. -/
def named {α : Type} (make : α → Value) (entries : List (String × α)) : Entries :=
  entries.map fun entry => (entry.1, make entry.2)

def Networking.value (networking : Networking) : Value :=
  .attrs (someString "defaultRouter" networking.defaultRouter ++
    [("dns", strings networking.dns), ("enable", .bool networking.enable)] ++
    someString "hostname" networking.hostname ++
    [("interfaces", .attrs (named Interface.value networking.interfaces)),
      ("mode", .string networking.mode.val),
      ("searchDomains", strings networking.searchDomains)])

def Users.value (users : Users) : Value :=
  .attrs [("groups", users.groups), ("users", users.users)]

def Filesystem.value (filesystem : Filesystem) : Value :=
  .attrs [("devSymlinks", stringValues filesystem.devSymlinks),
    ("directories", strings filesystem.directories),
    ("extraPaths", .list filesystem.extraPaths),
    ("files", .attrs (named File.value filesystem.files)),
    ("symlinks", stringValues filesystem.symlinks)]

def Image.value (image : Image) : Value :=
  .attrs ([("diskImage", .bool image.diskImage), ("initfs", .bool image.initfs)] ++
    (image.vmRunner.map fun runner => ("vmRunner", Value.string runner.val)).toList)

/-- The attribute set that `normalizePrimitivePlan` makes: without networking in the plan its
attribute is the empty set. -/
def Normalized.value (normalized : Normalized) : Value :=
  .attrs [("filesystem", normalized.filesystem.value), ("image", normalized.image.value),
    ("networking", (normalized.networking.map Networking.value).getD (.attrs [])),
    ("services", .attrs (named Service.value normalized.services)),
    ("status", .attrs [("hooks", normalized.hooks)]), ("users", normalized.users.value)]

end Published

section Checks

variable {field : String}

theorem ensureNonEmptyString_string (text : NonEmptyString) :
    ensureNonEmptyString field (.string text.val) = .ok text :=
  bind_eq_ok.mpr ⟨text.val, rfl, dif_pos text.property⟩

theorem ensureOneOf_string {allowedValues : List String} (text : OneOf allowedValues) :
    ensureOneOf field allowedValues (.string text.val) = .ok text :=
  bind_eq_ok.mpr ⟨text.val, rfl, dif_pos text.property⟩

theorem ensurePrefixLength_int (length : PrefixLength) :
    ensurePrefixLength field (.int length.val) = .ok length :=
  bind_eq_ok.mpr ⟨length.val, rfl, dif_pos length.property⟩

theorem ensureStringList_strings (texts : List String) :
    ensureStringList field (strings texts) = .ok texts := by
  unfold ensureStringList strings
  dsimp only
  rw [mapM_asString]

theorem ensureStringValues_stringValues (texts : List (String × String)) :
    ensureStringValues field (stringValues texts) = .ok texts := by
  refine bind_eq_ok.mpr ⟨_, rfl, ?_⟩
  rw [mapM_asString_values]

theorem ensureNoUnknownKeys_attrs {allowedKeys : List String} {entries : Entries}
    (known : ∀ entry ∈ entries, entry.1 ∈ allowedKeys) :
    ensureNoUnknownKeys field allowedKeys (.attrs entries) = .ok entries := by
  refine bind_eq_ok.mpr ⟨entries, rfl, ?_⟩
  have none_unknown : (entries.map Prod.fst).filter (fun key => !allowedKeys.contains key) = [] := by
    rw [List.filter_eq_nil_iff]
    intro key inside
    obtain ⟨entry, among, rfl⟩ := List.mem_map.mp inside
    simp [known entry among]
  dsimp only
  rw [if_pos none_unknown]

theorem selectWith_lookup {α : Type} {entries : Entries} {name : String} {value : Value}
    {check : Value → Except String α} {absent found : α} (given : entries.lookup name = some value)
    (checked : check value = .ok found) : selectWith entries name check absent = .ok found := by
  unfold selectWith
  rw [given]
  exact checked

theorem selectOptional_lookup {entries : Entries} {name : String} {text : Option NonEmptyString}
    (given : entries.lookup name = text.map fun checked => .string checked.val) :
    selectOptional entries name (ensureNonEmptyString field) = .ok text := by
  unfold selectOptional
  rw [given]
  cases text with
  | none => rfl
  | some checked => exact map_eq_ok.mpr ⟨checked, ensureNonEmptyString_string checked, rfl⟩

theorem addressPrefixLength_lookup {entries : Entries} {length : Option PrefixLength}
    (given : entries.lookup "prefixLength" = length.map fun checked => .int checked.val) :
    addressPrefixLength field entries = .ok length := by
  unfold addressPrefixLength
  rw [given]
  cases length with
  | none => rfl
  | some checked => exact map_eq_ok.mpr ⟨checked, ensurePrefixLength_int checked, rfl⟩

theorem mapAttrs_named {α : Type} {make : String → Value → Except String α} {print : α → Value}
    {entries : List (String × α)}
    (printed : ∀ entry ∈ entries, make entry.1 (print entry.2) = .ok entry.2) :
    mapAttrs make (.attrs (named print entries)) = .ok entries := by
  apply mapM_eq_ok.mpr
  rw [named, List.forall₂_map_left_iff]
  apply List.forall₂_same.mpr
  intro entry inside
  rw [printed entry inside]
  rfl

end Checks

section Families

theorem normalizeService_value (name : String) (service : Service) :
    normalizeService name service.value = .ok service := by
  refine bind_eq_ok.mpr ⟨_, ensureNoUnknownKeys_attrs (by simp), ?_⟩
  refine bind_eq_ok.mpr ⟨service.type, ensureOneOf_string _, ?_⟩
  refine bind_eq_ok.mpr ⟨service.argv, ensureStringList_strings _, ?_⟩
  refine bind_eq_ok.mpr ⟨service.args, rfl, ?_⟩
  refine bind_eq_ok.mpr ⟨service.environment, ensureStringValues_stringValues _, ?_⟩
  refine bind_eq_ok.mpr ⟨service.description, rfl, ?_⟩
  refine bind_eq_ok.mpr ⟨_, rfl, ?_⟩
  refine bind_eq_ok.mpr ⟨service.command, ensureNonEmptyString_string _, ?_⟩
  refine bind_eq_ok.mpr ⟨service.wantedBy, ensureOneOf_string _, ?_⟩
  refine bind_eq_ok.mpr ⟨service.enable, rfl, ?_⟩
  refine bind_eq_ok.mpr ⟨service.after, ensureStringList_strings _, ?_⟩
  exact bind_eq_ok.mpr ⟨service.priority, rfl, rfl⟩

theorem normalizeAddress_value (field : String) (address : Address) :
    normalizeAddress field address.value = .ok address := by
  obtain ⟨text, prefixLength, gateway⟩ := address
  refine bind_eq_ok.mpr ⟨_, ensureNoUnknownKeys_attrs ?_, ?_⟩
  · cases prefixLength <;> cases gateway <;> simp [someString, somePrefixLength]
  refine bind_eq_ok.mpr ⟨_, rfl, ?_⟩
  refine bind_eq_ok.mpr ⟨text, ensureNonEmptyString_string _, ?_⟩
  refine bind_eq_ok.mpr ⟨prefixLength, addressPrefixLength_lookup ?_, ?_⟩
  · cases prefixLength <;> cases gateway <;> rfl
  refine bind_eq_ok.mpr ⟨gateway, selectOptional_lookup ?_, rfl⟩
  cases prefixLength <;> cases gateway <;> rfl

theorem normalizeInterface_value (name : String) (iface : Interface) :
    normalizeInterface name iface.value = .ok iface := by
  obtain ⟨addresses, netmask⟩ := iface
  refine bind_eq_ok.mpr ⟨_, ensureNoUnknownKeys_attrs ?_, ?_⟩
  · cases netmask <;> simp [someString]
  refine bind_eq_ok.mpr ⟨addresses, ?_, ?_⟩
  · refine bind_eq_ok.mpr ⟨_, rfl, ?_⟩
    rw [mapM_eq_ok, List.forall₂_map_left_iff]
    apply List.forall₂_same.mpr
    intro address _
    exact normalizeAddress_value _ address
  · refine bind_eq_ok.mpr ⟨netmask, selectOptional_lookup ?_, rfl⟩
    cases netmask <;> rfl

theorem normalizeNetworking_value (networking : Networking) :
    normalizeNetworking networking.value = .ok networking := by
  obtain ⟨enable, mode, dns, searchDomains, interfaces, hostname, defaultRouter⟩ := networking
  refine bind_eq_ok.mpr ⟨_, ensureNoUnknownKeys_attrs ?_, ?_⟩
  · cases hostname <;> cases defaultRouter <;> simp [someString]
  have interfaces_again : mapAttrs normalizeInterface (.attrs (named Interface.value interfaces)) =
      .ok interfaces := mapAttrs_named fun entry _ => normalizeInterface_value entry.1 entry.2
  have enable_again : ensureBool "networking.enable" (.bool enable) = .ok enable := rfl
  refine bind_eq_ok.mpr ⟨interfaces, selectWith_lookup ?_ interfaces_again, ?_⟩
  · cases hostname <;> cases defaultRouter <;> rfl
  refine bind_eq_ok.mpr ⟨enable, selectWith_lookup ?_ enable_again, ?_⟩
  · cases hostname <;> cases defaultRouter <;> rfl
  refine bind_eq_ok.mpr ⟨mode, ?_, ?_⟩
  · cases hostname <;> cases defaultRouter <;> exact ensureOneOf_string mode
  refine bind_eq_ok.mpr ⟨dns, selectWith_lookup ?_ (ensureStringList_strings dns), ?_⟩
  · cases hostname <;> cases defaultRouter <;> rfl
  refine bind_eq_ok.mpr
    ⟨searchDomains, selectWith_lookup ?_ (ensureStringList_strings searchDomains), ?_⟩
  · cases hostname <;> cases defaultRouter <;> rfl
  refine bind_eq_ok.mpr ⟨hostname, selectOptional_lookup ?_, ?_⟩
  · cases hostname <;> cases defaultRouter <;> rfl
  refine bind_eq_ok.mpr ⟨defaultRouter, selectOptional_lookup ?_, rfl⟩
  cases hostname <;> cases defaultRouter <;> rfl

theorem normalizeImage_value (image : Image) : normalizeImage image.value = .ok image := by
  obtain ⟨diskImage, initfs, vmRunner⟩ := image
  refine bind_eq_ok.mpr ⟨_, ensureNoUnknownKeys_attrs ?_, ?_⟩
  · cases vmRunner <;> simp
  refine bind_eq_ok.mpr ⟨diskImage, rfl, ?_⟩
  refine bind_eq_ok.mpr ⟨initfs, rfl, ?_⟩
  refine bind_eq_ok.mpr ⟨vmRunner, ?_, rfl⟩
  cases vmRunner with
  | none => rfl
  | some runner => exact map_eq_ok.mpr ⟨runner, ensureOneOf_string runner, rfl⟩

theorem normalizeUsers_value {users : Users} {accounts groups : Entries}
    (accounts_set : attrsOf? users.users = some accounts)
    (groups_set : attrsOf? users.groups = some groups) :
    normalizeUsers users.value = .ok users := by
  have checked {name : String} {value : Value} {entries : Entries}
      (set : attrsOf? value = some entries) :
      ((ensureAttrs ("users." ++ name) value).map fun _ => value) = .ok value := by
    unfold ensureAttrs
    rw [set]
    rfl
  refine bind_eq_ok.mpr ⟨_, ensureNoUnknownKeys_attrs (by simp), ?_⟩
  refine bind_eq_ok.mpr ⟨users.users, selectWith_lookup rfl (checked accounts_set), ?_⟩
  exact bind_eq_ok.mpr ⟨users.groups, selectWith_lookup rfl (checked groups_set), rfl⟩

end Families

section Files

variable {field path : String}

/-- No second slash follows a leading one. -/
def SingleRoot (path : String) : Prop := ¬ ['/', '/'] <+: path.toList

theorem removeRoot_removeRoot (single : SingleRoot path) :
    removeRoot (removeRoot path) = removeRoot path := by
  unfold SingleRoot at single
  have unrooted : (removeRoot path).toList.head? ≠ some '/' := by
    intro rooted
    unfold removeRoot at rooted
    split at rooted
    · rename_i first
      obtain ⟨rest, letters⟩ := List.head?_eq_some_iff.mp first
      rw [String.toList_ofList, letters, List.tail_cons] at rooted
      obtain ⟨more, same⟩ := List.head?_eq_some_iff.mp rooted
      rw [letters, same] at single
      exact single ⟨more, rfl⟩
    · rename_i other
      exact other rooted
  rw [removeRoot, if_neg unrooted]

theorem normalizeRelativePath_again {name : String}
    (accepted : normalizeRelativePath field (.string path) = .ok name) (single : SingleRoot path)
    (again : String) : normalizeRelativePath again (.string name) = .ok name := by
  obtain ⟨rfl, straight⟩ := normalizeRelativePath_ok accepted
  have below : removeRoot path ≠ "" := by
    obtain ⟨checked, given, rest⟩ := bind_eq_ok.mp accepted
    have same := ensureNonEmptyString_ok given
    rw [Value.string.injEq] at same
    subst same
    dsimp only at rest
    split at rest
    · cases rest
    · assumption
  have nonempty := @ensureNonEmptyString_string again ⟨removeRoot path, below⟩
  refine bind_eq_ok.mpr ⟨_, nonempty, ?_⟩
  dsimp only
  rw [removeRoot_removeRoot single, if_neg below,
    if_neg fun inside => straight (List.contains_iff_mem.mp inside)]

theorem normalizeFilesystemFile_value (file : File) :
    normalizeFilesystemFile field file.value = .ok file := by
  refine bind_eq_ok.mpr ⟨_, ensureNoUnknownKeys_attrs (by simp), ?_⟩
  refine bind_eq_ok.mpr ⟨_, rfl, ?_⟩
  refine bind_eq_ok.mpr ⟨file.text, rfl, ?_⟩
  exact bind_eq_ok.mpr ⟨file.mode, rfl, rfl⟩

theorem eraseDups_of_nodup {names : List String} (distinct : names.Nodup) :
    names.eraseDups = names := by
  induction names with
  | nil => rfl
  | cons name rest ih =>
      obtain ⟨fresh, later⟩ := List.nodup_cons.mp distinct
      have whole : rest.filter (fun other => !other == name) = rest := by
        rw [List.filter_eq_self]
        intro other inside
        have differ : other ≠ name := fun same => fresh (same ▸ inside)
        simp [differ]
      rw [List.eraseDups_cons, whole, ih later]

theorem mergeSort_byName (files : List (String × File)) :
    (files.mergeSort byName).mergeSort byName = files.mergeSort byName := by
  apply List.mergeSort_of_pairwise
  apply List.pairwise_mergeSort
  · intro one two three
    simp only [byName, decide_eq_true_eq]
    exact le_trans
  · intro one two
    simp only [byName, Bool.or_eq_true, decide_eq_true_eq]
    exact le_total one.1 two.1

theorem normalizeFilesystemFiles_none : normalizeFilesystemFiles (.attrs []) = .ok [] := by
  simp [normalizeFilesystemFiles, ensureAttrs, attrsOf?, bind, Except.bind, pure, Except.pure]

/-- Accepted files are accepted under the names they have got. -/
theorem normalizeFilesystemFiles_again {rawFiles : Value} {files : List (String × File)}
    (accepted : normalizeFilesystemFiles rawFiles = .ok files)
    (single : ∀ entry ∈ entriesOf rawFiles, SingleRoot entry.1) :
    normalizeFilesystemFiles (.attrs (named File.value files)) = .ok files := by
  have known := normalizeFilesystemFiles_accepted accepted
  obtain ⟨declared, given, rest⟩ := bind_eq_ok.mp accepted
  obtain ⟨made, all, rest⟩ := bind_eq_ok.mp rest
  rw [entriesOf_of_ensureAttrs given] at single
  have sorted : files = made.mergeSort byName := by
    dsimp only at rest
    split at rest
    · cases rest
    · split at rest
      · cases rest
      · cases rest
        rfl
  have each : ∀ file ∈ files, ∀ again,
      normalizeRelativePath again (.string file.1) = .ok file.1 := by
    intro file inside
    rw [sorted, List.mem_mergeSort] at inside
    obtain ⟨entry, among, one⟩ := exists_left (mapM_eq_ok.mp all) inside
    obtain ⟨name, spelled, more⟩ := bind_eq_ok.mp one
    obtain ⟨content, _, same⟩ := bind_eq_ok.mp more
    cases same
    exact normalizeRelativePath_again spelled (single entry among)
  refine bind_eq_ok.mpr ⟨_, rfl, bind_eq_ok.mpr ⟨files, ?_, ?_⟩⟩
  · rw [mapM_eq_ok, named, List.forall₂_map_left_iff]
    apply List.forall₂_same.mpr
    intro file inside
    refine bind_eq_ok.mpr ⟨file.1, each file inside _, ?_⟩
    exact bind_eq_ok.mpr ⟨file.2, normalizeFilesystemFile_value file.2, rfl⟩
  · have free : (files.map Prod.fst).filter reservedGeneratedFilePaths.contains = [] := by
      rw [List.filter_eq_nil_iff]
      intro name inside listed
      obtain ⟨file, among, rfl⟩ := List.mem_map.mp inside
      exact known.unreserved file among (List.contains_iff_mem.mp listed)
    dsimp only
    rw [eraseDups_of_nodup known.names, if_neg (not_not_intro rfl), if_neg (not_not_intro free),
      sorted, mergeSort_byName]
    rfl

end Files

section Plans

variable {plan : Value} {normalized : Normalized}

/-- What a plan says of its files. -/
def planFilesystem (plan : Value) : Entries :=
  (((entriesOf plan).lookup "filesystem").map entriesOf).getD []

def planFiles (plan : Value) : Entries :=
  (((planFilesystem plan).lookup "files").map entriesOf).getD []

/-- What the published plan has to be for it to be accepted as it is. -/
structure Settled (normalized : Normalized) : Prop where
  users : ∃ accounts, attrsOf? normalized.users.users = some accounts
  groups : ∃ groups, attrsOf? normalized.users.groups = some groups
  directories : ∀ path ∈ normalized.filesystem.directories,
    normalizeAbsolutePath "filesystem.directories" (.string path) = .ok path
  files : normalizeFilesystemFiles (.attrs (named File.value normalized.filesystem.files)) =
    .ok normalized.filesystem.files

/-- What a plan that declares nothing of its networking declares. -/
def defaultNetworking : Networking where
  enable := true
  mode := ⟨"auto", by decide⟩
  dns := []
  searchDomains := []
  interfaces := []
  hostname := none
  defaultRouter := none

def Normalized.filled (normalized : Normalized) : Normalized :=
  { normalized with networking := some (normalized.networking.getD defaultNetworking) }

theorem normalizeFilesystem_value (settled : Settled normalized) :
    normalizeFilesystem normalized.filesystem.value = .ok normalized.filesystem := by
  refine bind_eq_ok.mpr ⟨_, ensureNoUnknownKeys_attrs (by simp), ?_⟩
  refine bind_eq_ok.mpr ⟨normalized.filesystem.directories, selectWith_lookup rfl ?_, ?_⟩
  · refine bind_eq_ok.mpr ⟨_, rfl, ?_⟩
    rw [mapM_eq_ok, List.forall₂_map_left_iff]
    exact List.forall₂_same.mpr settled.directories
  refine bind_eq_ok.mpr
    ⟨normalized.filesystem.files, selectWith_lookup rfl settled.files, ?_⟩
  refine bind_eq_ok.mpr ⟨_, selectWith_lookup rfl (ensureStringValues_stringValues _), ?_⟩
  refine bind_eq_ok.mpr ⟨_, selectWith_lookup rfl (ensureStringValues_stringValues _), ?_⟩
  exact bind_eq_ok.mpr ⟨normalized.filesystem.extraPaths, rfl, rfl⟩

theorem networking_again (networking : Option Networking) :
    normalizeNetworking ((networking.map Networking.value).getD (.attrs [])) =
      .ok (networking.getD defaultNetworking) := by
  cases networking with
  | none => rfl
  | some declared => exact normalizeNetworking_value declared

/-- The published plan is accepted, and nothing but its networking can change. -/
theorem normalizePrimitivePlan_value (settled : Settled normalized) :
    normalizePrimitivePlan normalized.value = .ok normalized.filled := by
  obtain ⟨accounts, users⟩ := settled.users
  obtain ⟨members, groups⟩ := settled.groups
  have services : mapAttrs normalizeService (.attrs (named Service.value normalized.services)) =
      .ok normalized.services := mapAttrs_named fun entry _ => normalizeService_value entry.1 entry.2
  have networking := map_eq_ok.mpr
    ⟨_, networking_again normalized.networking, Eq.refl (some (normalized.networking.getD _))⟩
  refine bind_eq_ok.mpr ⟨_, ensureNoUnknownKeys_attrs (by simp [primitiveFamilyNames]), ?_⟩
  refine bind_eq_ok.mpr ⟨_, selectWith_lookup rfl (bind_eq_ok.mpr ⟨_, rfl, services⟩), ?_⟩
  refine bind_eq_ok.mpr ⟨_, selectWith_lookup rfl (normalizeUsers_value users groups), ?_⟩
  refine bind_eq_ok.mpr ⟨_, networking, ?_⟩
  refine bind_eq_ok.mpr ⟨_, selectWith_lookup rfl (normalizeFilesystem_value settled), ?_⟩
  refine bind_eq_ok.mpr ⟨normalized.hooks, rfl, ?_⟩
  exact bind_eq_ok.mpr ⟨_, selectWith_lookup rfl (normalizeImage_value normalized.image), rfl⟩

theorem normalizeUsers_sets {value : Value} {users : Users}
    (ok : normalizeUsers value = .ok users) :
    (∃ accounts, attrsOf? users.users = some accounts) ∧
      ∃ groups, attrsOf? users.groups = some groups := by
  obtain ⟨raw, _, rest⟩ := bind_eq_ok.mp ok
  obtain ⟨accounts, one, rest⟩ := bind_eq_ok.mp rest
  obtain ⟨groups, two, same⟩ := bind_eq_ok.mp rest
  cases same
  have set : ∀ {name field : String} {found : Value},
      selectWith raw name (fun value => (ensureAttrs field value).map fun _ => value)
        (.attrs []) = .ok found → ∃ entries, attrsOf? found = some entries := by
    intro name field found selected
    rcases selectWith_ok selected with ⟨_, rfl⟩ | ⟨given, _, checked⟩
    · exact ⟨[], rfl⟩
    · obtain ⟨entries, attrs, rfl⟩ := map_eq_ok.mp checked
      exact ⟨entries, ensureAttrs_ok attrs⟩
  exact ⟨set one, set two⟩

theorem normalizeAbsolutePath_ok {field path : String} {value : Value}
    (ok : normalizeAbsolutePath field value = .ok path) : value = .string path := by
  obtain ⟨checked, given, rest⟩ := bind_eq_ok.mp ok
  split at rest
  · cases rest
  · split at rest
    · cases rest
    · cases rest
      exact ensureNonEmptyString_ok given

theorem normalizeFilesystem_settled {value : Value} {filesystem : Filesystem}
    (ok : normalizeFilesystem value = .ok filesystem)
    (single : ∀ entry ∈ (((entriesOf value).lookup "files").map entriesOf).getD [],
      SingleRoot entry.1) :
    (∀ path ∈ filesystem.directories,
      normalizeAbsolutePath "filesystem.directories" (.string path) = .ok path) ∧
      normalizeFilesystemFiles (.attrs (named File.value filesystem.files)) =
        .ok filesystem.files := by
  obtain ⟨raw, known, rest⟩ := bind_eq_ok.mp ok
  obtain ⟨directories, listed, rest⟩ := bind_eq_ok.mp rest
  obtain ⟨files, made, rest⟩ := bind_eq_ok.mp rest
  obtain ⟨devSymlinks, _, rest⟩ := bind_eq_ok.mp rest
  obtain ⟨symlinks, _, rest⟩ := bind_eq_ok.mp rest
  obtain ⟨extraPaths, _, same⟩ := bind_eq_ok.mp rest
  cases same
  rw [entriesOf_ok known] at single
  constructor
  · rcases selectWith_ok listed with ⟨_, rfl⟩ | ⟨given, _, checked⟩
    · intro path inside
      cases inside
    · obtain ⟨values, _, all⟩ := bind_eq_ok.mp checked
      intro path inside
      obtain ⟨value, _, one⟩ := exists_left (mapM_eq_ok.mp all) inside
      rw [normalizeAbsolutePath_ok one] at one
      exact one
  · rcases selectWith_ok made with ⟨_, rfl⟩ | ⟨given, present, accepted⟩
    · exact normalizeFilesystemFiles_none
    · rw [present] at single
      exact normalizeFilesystemFiles_again accepted single

theorem normalizePrimitivePlan_settled (ok : normalizePrimitivePlan plan = .ok normalized)
    (single : ∀ entry ∈ planFiles plan, SingleRoot entry.1) : Settled normalized := by
  obtain ⟨raw, known, rest⟩ := bind_eq_ok.mp ok
  obtain ⟨services, _, rest⟩ := bind_eq_ok.mp rest
  obtain ⟨users, accounts, rest⟩ := bind_eq_ok.mp rest
  obtain ⟨networking, _, rest⟩ := bind_eq_ok.mp rest
  obtain ⟨filesystem, files, rest⟩ := bind_eq_ok.mp rest
  obtain ⟨hooks, _, rest⟩ := bind_eq_ok.mp rest
  obtain ⟨image, _, same⟩ := bind_eq_ok.mp rest
  cases same
  unfold planFiles planFilesystem at single
  rw [entriesOf_ok known] at single
  have sets : (∃ accounts, attrsOf? users.users = some accounts) ∧
      ∃ groups, attrsOf? users.groups = some groups := by
    rcases selectWith_ok accounts with ⟨_, rfl⟩ | ⟨given, _, made⟩
    · exact ⟨⟨[], rfl⟩, ⟨[], rfl⟩⟩
    · exact normalizeUsers_sets made
  rcases selectWith_ok files with ⟨_, rfl⟩ | ⟨given, present, made⟩
  · refine ⟨sets.1, sets.2, ?_, normalizeFilesystemFiles_none⟩
    intro path inside
    cases inside
  · rw [present] at single
    have kept := normalizeFilesystem_settled made single
    exact ⟨sets.1, sets.2, kept.1, kept.2⟩

/-- The files of a normalized plan have the declared names less a leading slash. -/
theorem normalizePrimitivePlan_spelled (ok : normalizePrimitivePlan plan = .ok normalized) :
    (normalized.filesystem.files.map Prod.fst).Perm
      ((planFiles plan).map fun entry => removeRoot entry.1) := by
  obtain ⟨raw, known, rest⟩ := bind_eq_ok.mp ok
  obtain ⟨services, _, rest⟩ := bind_eq_ok.mp rest
  obtain ⟨users, _, rest⟩ := bind_eq_ok.mp rest
  obtain ⟨networking, _, rest⟩ := bind_eq_ok.mp rest
  obtain ⟨filesystem, selected, rest⟩ := bind_eq_ok.mp rest
  obtain ⟨hooks, _, rest⟩ := bind_eq_ok.mp rest
  obtain ⟨image, _, same⟩ := bind_eq_ok.mp rest
  cases same
  unfold planFiles planFilesystem
  rw [entriesOf_ok known]
  rcases selectWith_ok selected with ⟨absent, rfl⟩ | ⟨given, present, made⟩
  · rw [absent]
    exact .nil
  rw [present, Option.map_some, Option.getD_some]
  obtain ⟨raw, known, rest⟩ := bind_eq_ok.mp made
  obtain ⟨directories, _, rest⟩ := bind_eq_ok.mp rest
  obtain ⟨files, chosen, rest⟩ := bind_eq_ok.mp rest
  obtain ⟨devSymlinks, _, rest⟩ := bind_eq_ok.mp rest
  obtain ⟨symlinks, _, rest⟩ := bind_eq_ok.mp rest
  obtain ⟨extraPaths, _, same⟩ := bind_eq_ok.mp rest
  cases same
  rw [entriesOf_ok known]
  rcases selectWith_ok chosen with ⟨absent, rfl⟩ | ⟨given, present, accepted⟩
  · rw [absent]
    exact .nil
  · rw [present]
    exact (normalizeFilesystemFiles_accepted accepted).spelled

/-- There is networking in the normalized plan exactly when there is in the plan. -/
theorem normalizePrimitivePlan_networking (ok : normalizePrimitivePlan plan = .ok normalized) :
    normalized.networking.isSome = ((entriesOf plan).lookup "networking").isSome := by
  obtain ⟨raw, known, rest⟩ := bind_eq_ok.mp ok
  obtain ⟨services, _, rest⟩ := bind_eq_ok.mp rest
  obtain ⟨users, _, rest⟩ := bind_eq_ok.mp rest
  obtain ⟨networking, networked, rest⟩ := bind_eq_ok.mp rest
  obtain ⟨filesystem, _, rest⟩ := bind_eq_ok.mp rest
  obtain ⟨hooks, _, rest⟩ := bind_eq_ok.mp rest
  obtain ⟨image, _, same⟩ := bind_eq_ok.mp rest
  cases same
  rw [entriesOf_ok known]
  rcases selectOptional_ok networked with ⟨absent, rfl⟩ | ⟨given, result, present, _, rfl⟩
  · rw [absent]
    rfl
  · rw [present]
    rfl

end Plans

section Modules

variable {plan : Value} {normalized : Normalized}

/-- The modules that a plan sets besides those of its networking. -/
def withOthers (normalized : Normalized) (networking : Options) : Options :=
  update (update (update networking
    (optionalModule (!normalized.services.isEmpty) "/services"
      [("services", .attrs (named Service.value normalized.services))]))
    (optionalModule (!isEmptySet normalized.users.users || !isEmptySet normalized.users.groups)
      "/users" (usersEntries normalized.users)))
    (optionalModule (!(filesystemEntries normalized.filesystem).isEmpty) "/filesystem"
      (filesystemEntries normalized.filesystem))

theorem moduleFromNormalized_eq : moduleFromNormalized normalized =
    (networkingOptions normalized.networking).map (withOthers normalized) := by
  unfold moduleFromNormalized
  cases networkingOptions normalized.networking <;> rfl

theorem lookup_withOthers (networking : Options) (path : String) :
    (withOthers normalized networking).lookup path =
      ((withOthers normalized ∅).lookup path).or (networking.lookup path) := by
  simp only [withOthers, lookup_update, AList.lookup_empty, Option.or_none, Option.or_assoc]

theorem lookup_withOthers_networking :
    (withOthers normalized ∅).lookup "/networking" = none := by
  unfold withOthers
  rw [lookup_update, lookup_update, lookup_update, lookup_optionalModule _ _ _ _ (by decide),
    lookup_optionalModule _ _ _ _ (by decide), lookup_optionalModule _ _ _ _ (by decide)]
  rfl

/-- What the module of a plan without networking leaves to the system. -/
def defaultNetworkingModule : Options :=
  ofEntries [("/networking", ofEntries [("enable", .bool true), ("mode", .string "auto")])]

theorem networkingModule_default :
    networkingModule defaultNetworking = .ok (update defaultNetworkingModule ∅) := rfl

theorem moduleFromNormalized_filled (undeclared : normalized.networking = none) :
    ∃ module filled, moduleFromNormalized normalized = .ok module ∧
      moduleFromNormalized normalized.filled = .ok filled ∧
      module.lookup "/networking" = none ∧
      ∀ path, filled.lookup path =
        (module.lookup path).or (defaultNetworkingModule.lookup path) := by
  refine ⟨withOthers normalized ∅, withOthers normalized (update defaultNetworkingModule ∅),
    ?_, ?_, lookup_withOthers_networking, ?_⟩
  · rw [moduleFromNormalized_eq, undeclared]
    rfl
  · rw [moduleFromNormalized_eq, Normalized.filled, undeclared]
    dsimp only
    rw [Option.getD_none, networkingOptions, networkingModule_default]
    rfl
  · intro path
    rw [lookup_withOthers]
    simp

/-- The published plan is accepted and settled, and describes the system that was built. The
networking that a plan leaves to the system is filled in when it is normalized again, and set
by the module then. -/
structure Republished (plan : Value) (normalized : Normalized) : Prop where
  accepted : normalizePrimitivePlan normalized.value = .ok normalized.filled
  settled : normalizePrimitivePlan normalized.filled.value = .ok normalized.filled
  same : ((entriesOf plan).lookup "networking").isSome = true →
    normalized.filled = normalized ∧
      primitivePlanToModule normalized.value = primitivePlanToModule plan
  added : (entriesOf plan).lookup "networking" = none →
    ∃ module filled, primitivePlanToModule plan = .ok module ∧
      primitivePlanToModule normalized.value = .ok filled ∧
      module.lookup "/networking" = none ∧
      ∀ path, filled.lookup path = (module.lookup path).or (defaultNetworkingModule.lookup path)

/-- Plans with every combination of families and fields, whose file paths have no second slash
behind a leading one. -/
theorem normalizePrimitivePlan_again (plan : Value) (normalized : Normalized)
    (accepted : normalizePrimitivePlan plan = .ok normalized)
    (single : ∀ entry ∈ planFiles plan, SingleRoot entry.1) : Republished plan normalized := by
  have settled := normalizePrimitivePlan_settled accepted single
  have filled_settled : Settled normalized.filled :=
    ⟨settled.users, settled.groups, settled.directories, settled.files⟩
  have declared := normalizePrimitivePlan_networking accepted
  have again := normalizePrimitivePlan_value settled
  have first : primitivePlanToModule plan = moduleFromNormalized normalized := by
    rw [primitivePlanToModule, accepted]
    rfl
  have second : primitivePlanToModule normalized.value =
      moduleFromNormalized normalized.filled := by
    rw [primitivePlanToModule, again]
    rfl
  refine ⟨again, normalizePrimitivePlan_value filled_settled, ?_, ?_⟩
  · intro given
    rw [given] at declared
    obtain ⟨networking, kept⟩ := Option.isSome_iff_exists.mp declared
    have unchanged : normalized.filled = normalized := by
      unfold Normalized.filled
      rw [kept, Option.getD_some, ← kept]
    rw [first, second, unchanged]
    exact ⟨rfl, rfl⟩
  · intro absent
    rw [absent] at declared
    rw [first, second]
    exact moduleFromNormalized_filled (Option.not_isSome_iff_eq_none.mp (by simp [declared]))

/-- A plan with these files and with the default networking. -/
def planOfFiles (files : Value) : Value :=
  .attrs [("filesystem", .attrs [("files", files)]), ("networking", .attrs [])]

def normalizedOfFiles (files : List (String × File)) : Normalized where
  services := []
  users := ⟨.attrs [], .attrs []⟩
  networking := some defaultNetworking
  filesystem := ⟨[], files, [], [], []⟩
  hooks := .list []
  image := ⟨true, true, none⟩

theorem planOfFiles_accepted {rawFiles : Value} {files : List (String × File)}
    (accepted : normalizeFilesystemFiles rawFiles = .ok files) :
    normalizePrimitivePlan (planOfFiles rawFiles) = .ok (normalizedOfFiles files) := by
  have filesystem : normalizeFilesystem (.attrs [("files", rawFiles)]) =
      .ok ⟨[], files, [], [], []⟩ := by
    refine bind_eq_ok.mpr ⟨_, rfl, bind_eq_ok.mpr ⟨[], rfl, ?_⟩⟩
    exact bind_eq_ok.mpr ⟨_, selectWith_lookup rfl accepted, rfl⟩
  refine bind_eq_ok.mpr ⟨_, rfl, bind_eq_ok.mpr ⟨[], rfl, bind_eq_ok.mpr ⟨_, rfl, ?_⟩⟩⟩
  refine bind_eq_ok.mpr ⟨some defaultNetworking, rfl, ?_⟩
  exact bind_eq_ok.mpr ⟨_, selectWith_lookup rfl filesystem, rfl⟩

theorem motd_again :
    Republished (planOfFiles motd)
      (normalizedOfFiles [("etc/motd", ⟨"welcome\n", fileDefaultMode⟩)]) := by
  apply normalizePrimitivePlan_again _ _ (planOfFiles_accepted motd_accepted)
  intro entry inside
  cases List.mem_singleton.mp inside
  unfold SingleRoot
  decide

/-- The published plan of the empty plan has networking once it is normalized, and the one of a
plan whose file has two leading slashes is not normalized to itself. -/
theorem published_differs :
    (¬ ∀ plan normalized, normalizePrimitivePlan plan = .ok normalized →
      normalizePrimitivePlan normalized.value = .ok normalized) ∧
      ¬ ∀ plan normalized, ((entriesOf plan).lookup "networking").isSome = true →
        normalizePrimitivePlan plan = .ok normalized →
          normalizePrimitivePlan normalized.value = .ok normalized := by
  constructor
  · intro always
    have accepted : normalizePrimitivePlan (.attrs []) = .ok ⟨[], ⟨.attrs [], .attrs []⟩, none,
        ⟨[], [], [], [], []⟩, .list [], ⟨true, true, none⟩⟩ := rfl
    have again := always (.attrs []) _ accepted
    have declared := normalizePrimitivePlan_networking again
    cases declared
  · intro always
    have again := always (planOfFiles respelledPasswords) _ rfl
      (planOfFiles_accepted respelledPasswords_accepted)
    have spelled := List.perm_singleton.mp (normalizePrimitivePlan_spelled again)
    exact absurd spelled (by decide)

end Modules

end NixRedox.Substrate
