import NixRedox.Attempts
import NixRedox.KeyedMap

set_option autoImplicit false

/- JSON values, and data types written to them and read back as serde derives it: fields by
name, defaults for missing ones, numbers in range. Nothing here knows which types there are. -/
namespace NixRedox

namespace Serde

inductive Json where
  | null
  | bool (value : Bool)
  | number (value : Int)
  | string (text : String)
  | array (values : List Json)
  | object (members : List (String × Json))

/-- A value without parts. -/
def Json.Scalar : Json → Prop
  | .array _ | .object _ => False
  | _ => True

/-- `Serialize` and `Deserialize` of a type. -/
structure Codec (ε α : Type) where
  serialize : α → Json
  deserialize : Json → Except ε α

end Serde

open Serde (Codec Json)

/-- `serde` with `serde_json`: the codecs of the standard types, the members of a map, and what
`derive` reads the fields of a struct with. A `u64` is kept as a natural number. -/
structure Serde where
  Error : Type
  string : Codec Error String
  bool : Codec Error Bool
  u32 : Codec Error UInt32
  u64 : Codec Error Nat
  vec : {α : Type} → Codec Error α → Codec Error (List α)
  option : {α : Type} → Codec Error α → Codec Error (Option α)
  readMembers : {α : Type} → Codec Error α → Json → Except Error (List (String × α))
  fieldsOf : String → Json → Except Error (List (String × Json))
  find : List (String × Json) → String → Except Error (Option Json)
  missingField : String → Error
  -- what is documented of them
  string_serialize : ∀ text, string.serialize text = .string text
  string_deserialize : ∀ text, string.deserialize (.string text) = .ok text
  bool_serialize : ∀ value, bool.serialize value = .bool value
  bool_deserialize : ∀ value, bool.deserialize (.bool value) = .ok value
  u32_serialize : ∀ value, u32.serialize value = .number value.toNat
  u32_eq_ok : ∀ {value : Int} {result : UInt32},
    u32.deserialize (.number value) = .ok result ↔ value = result.toNat
  u64_serialize : ∀ value, u64.serialize value = .number value
  u64_eq_ok : ∀ {value : Int} {result : Nat},
    u64.deserialize (.number value) = .ok result ↔ value = result ∧ result < 2 ^ 64
  u64_lt : ∀ {json : Json} {result : Nat}, u64.deserialize json = .ok result → result < 2 ^ 64
  vec_serialize : ∀ {α : Type} (codec : Codec Error α) (values : List α),
    (vec codec).serialize values = .array (values.map codec.serialize)
  vec_eq_ok : ∀ {α : Type} (codec : Codec Error α) {values : List Json} {results : List α},
    (vec codec).deserialize (.array values) = .ok results ↔
      List.Forall₂ (fun value result => codec.deserialize value = .ok result) values results
  option_some : ∀ {α : Type} (codec : Codec Error α) {json : Json}, json ≠ .null →
    (option codec).deserialize json = (codec.deserialize json).map some
  readMembers_eq_ok : ∀ {α : Type} (codec : Codec Error α) {json : Json}
    {results : List (String × α)}, readMembers codec json = .ok results ↔
      ∃ members, json = .object members ∧ List.Forall₂ (fun member result =>
        member.1 = result.1 ∧ codec.deserialize member.2 = .ok result.2) members results
  fieldsOf_object : ∀ expected members, fieldsOf expected (.object members) = .ok members
  fieldsOf_scalar : ∀ expected json fields, json.Scalar → fieldsOf expected json ≠ .ok fields
  find_nil : ∀ name, find [] name = .ok none
  find_other : ∀ {other name : String} {json : Json} {rest : List (String × Json)},
    other ≠ name → find ((other, json) :: rest) name = find rest name
  find_once : ∀ {name : String} {json : Json} {rest : List (String × Json)},
    name ∉ rest.map Prod.fst → find ((name, json) :: rest) name = .ok (some json)

namespace Serde

open KeyedMap (SameMap)

section Containers

variable {ε α : Type}

/-- The members of a map in the order of their names. -/
def sortedMembers (map : AList fun _ : String => α) : List (String × α) :=
  (map.entries.map fun entry => (entry.1, entry.2)).insertionSort (·.1 ≤ ·.1)

/-- The map of some members, where a later one replaces an earlier one of its name. -/
def ofMembers (members : List (String × α)) : AList fun _ : String => α :=
  members.foldl (fun map member => map.insert member.1 member.2) ∅

def writeMembers (codec : Codec ε α) (members : List (String × α)) : Json :=
  .object (members.map fun member => (member.1, codec.serialize member.2))

variable (serde : Serde)

def btreeMap (codec : Codec serde.Error α) : Codec serde.Error (AList fun _ : String => α) where
  serialize map := writeMembers codec (sortedMembers map)
  deserialize json := (serde.readMembers codec json).map ofMembers

/-- A map that is kept as its members in order. -/
def btreeMembers (codec : Codec serde.Error α) : Codec serde.Error (List (String × α)) where
  serialize := writeMembers codec
  deserialize json :=
    (serde.readMembers codec json).map fun members => sortedMembers (ofMembers members)

end Containers

section Fields

variable {ε α : Type} (serde : Serde)

/-- A field without a default. -/
def required (codec : Codec serde.Error α) (members : List (String × Json)) (name : String) :
    Except serde.Error α := do
  match ← serde.find members name with
  | none => .error (serde.missingField name)
  | some json => codec.deserialize json

/-- `#[serde(default)]`. -/
def defaulted (codec : Codec serde.Error α) (default : α) (members : List (String × Json))
    (name : String) : Except serde.Error α := do
  match ← serde.find members name with
  | none => .ok default
  | some json => codec.deserialize json

/-- `#[serde(skip_serializing_if = "Option::is_none")]`. -/
def skipNone (codec : Codec ε α) (name : String) (value : Option α) : List (String × Json) :=
  value.toList.map fun value => (name, codec.serialize value)

end Fields

section Scalars

variable (serde : Serde)

@[simp] theorem u32_back (value : UInt32) :
    serde.u32.deserialize (serde.u32.serialize value) = .ok value := by
  rw [serde.u32_serialize]
  exact serde.u32_eq_ok.mpr rfl

@[simp] theorem string_back (text : String) :
    serde.string.deserialize (serde.string.serialize text) = .ok text := by
  rw [serde.string_serialize, serde.string_deserialize]

@[simp] theorem bool_back (value : Bool) :
    serde.bool.deserialize (serde.bool.serialize value) = .ok value := by
  rw [serde.bool_serialize, serde.bool_deserialize]

@[simp] theorem option_string_deserialize (text : String) :
    (serde.option serde.string).deserialize (.string text) = .ok (some text) := by
  have some_ : Json.string text ≠ .null := nofun
  rw [serde.option_some _ some_, serde.string_deserialize]
  rfl

theorem u64_back {value : Nat} (small : value < 2 ^ 64) :
    serde.u64.deserialize (serde.u64.serialize value) = .ok value := by
  rw [serde.u64_serialize]
  exact serde.u64_eq_ok.mpr ⟨rfl, small⟩

attribute [simp] string_deserialize bool_deserialize fieldsOf_object

end Scalars

section Containers

variable {α γ : Type} {serde : Serde} {codec : Codec serde.Error α}

@[simp] theorem vec_map {values : List γ} {make : γ → Json} {read : γ → α}
    (each : ∀ value ∈ values, codec.deserialize (make value) = .ok (read value)) :
    (serde.vec codec).deserialize (.array (values.map make)) = .ok (values.map read) := by
  rw [serde.vec_eq_ok, List.forall₂_map_left_iff, List.forall₂_map_right_iff, List.forall₂_same]
  exact each

theorem vec_back {values : List α}
    (each : ∀ value ∈ values, codec.deserialize (codec.serialize value) = .ok value) :
    (serde.vec codec).deserialize ((serde.vec codec).serialize values) = .ok values := by
  have same := vec_map each
  rwa [List.map_id', ← serde.vec_serialize] at same

@[simp] theorem vec_strings_back (texts : List String) :
    (serde.vec serde.string).deserialize ((serde.vec serde.string).serialize texts) = .ok texts :=
  vec_back fun text _ => serde.string_back text

theorem option_deserialize_object (members : List (String × Json)) :
    (serde.option codec).deserialize (.object members) =
      (codec.deserialize (.object members)).map some := serde.option_some codec nofun

theorem mem_sortedMembers {map : AList fun _ : String => α} {name : String} {value : α} :
    (name, value) ∈ sortedMembers map ↔ map.lookup name = some value := by
  rw [sortedMembers, List.mem_insertionSort, List.mem_map, ← Option.mem_def, AList.mem_lookup_iff]
  constructor
  · rintro ⟨⟨key, found⟩, member, same⟩
    cases same
    exact member
  · intro member
    exact ⟨⟨name, value⟩, member, rfl⟩

theorem sortedMembers_nodup (map : AList fun _ : String => α) :
    ((sortedMembers map).map Prod.fst).Nodup := by
  have perm := (List.perm_insertionSort (fun one two : String × α => one.1 ≤ two.1)
    (map.entries.map fun entry => (entry.1, entry.2))).map Prod.fst
  rw [sortedMembers, perm.nodup_iff, List.map_map]
  exact map.nodupKeys

theorem lookup_foldl_members {members : List (String × α)}
    (distinct : (members.map Prod.fst).Nodup) (map : AList fun _ : String => α)
    (name : String) (value : α) :
    (members.foldl (fun map member => map.insert member.1 member.2) map).lookup name =
        some value ↔
      (name, value) ∈ members ∨ name ∉ members.map Prod.fst ∧ map.lookup name = some value := by
  induction members generalizing map with
  | nil => simp
  | cons member rest ih =>
      obtain ⟨own, found⟩ := member
      obtain ⟨fresh, distinct⟩ := List.nodup_cons.mp distinct
      rw [List.foldl_cons, ih distinct]
      by_cases same : name = own
      · subst same
        have absent : (name, value) ∉ rest := by
          intro inside
          exact fresh (List.mem_map.mpr ⟨_, inside, rfl⟩)
        simp [absent, fresh, eq_comm]
      · simp [same, AList.lookup_insert_ne same]

theorem mem_of_lookup_foldl {members : List (String × α)} {map : AList fun _ : String => α}
    {name : String} {value : α}
    (present : (members.foldl (fun map member => map.insert member.1 member.2) map).lookup name =
      some value) : (name, value) ∈ members ∨ map.lookup name = some value := by
  induction members generalizing map with
  | nil => exact .inr present
  | cons member rest ih =>
      rcases ih present with later | earlier
      · exact .inl (List.mem_cons_of_mem _ later)
      · by_cases same : name = member.1
        · subst same
          rw [AList.lookup_insert, Option.some.injEq] at earlier
          exact .inl (earlier ▸ List.mem_cons_self)
        · rw [AList.lookup_insert_ne same] at earlier
          exact .inr earlier

theorem mem_of_lookup_ofMembers {members : List (String × α)} {name : String} {value : α}
    (present : (ofMembers members).lookup name = some value) : (name, value) ∈ members := by
  rcases mem_of_lookup_foldl present with inside | empty
  · exact inside
  · rw [AList.lookup_empty] at empty
    cases empty

theorem lookup_ofMembers {members : List (String × α)} (distinct : (members.map Prod.fst).Nodup)
    {name : String} {value : α} :
    (ofMembers members).lookup name = some value ↔ (name, value) ∈ members := by
  rw [ofMembers, lookup_foldl_members distinct]
  simp

theorem related_mono {one two : γ → α → Prop} {first : Option γ} {second : Option α}
    (related : Option.Rel one first second) (weaker : ∀ value found, one value found →
      two value found) : Option.Rel two first second := by
  cases related with
  | some own => exact .some (weaker _ _ own)
  | none => exact .none

/-- Members read one by one are the members of a map with related values. -/
theorem ofMembers_related {relation : γ → α → Prop} {map : AList fun _ : String => γ}
    {results : List (String × α)}
    (paired : List.Forall₂ (fun member result => member.1 = result.1 ∧
      relation member.2 result.2) (sortedMembers map) results) (name : String) :
    Option.Rel relation (map.lookup name) ((ofMembers results).lookup name) := by
  have names : (sortedMembers map).map Prod.fst = results.map Prod.fst := by
    have each := paired.imp fun _ _ both => both.1
    rw [← List.forall₂_eq_eq_eq, List.forall₂_map_left_iff, List.forall₂_map_right_iff]
    exact each
  have distinct : (results.map Prod.fst).Nodup := names ▸ sortedMembers_nodup map
  cases found : map.lookup name with
  | some value =>
      obtain ⟨result, there, same, related⟩ :=
        Attempts.exists_right paired (mem_sortedMembers.mpr found)
      have present : (ofMembers results).lookup name = some result.2 :=
        (lookup_ofMembers distinct).mpr (by rw [show name = result.1 from same]; exact there)
      rw [present]
      exact .some related
  | none =>
      cases also : (ofMembers results).lookup name with
      | none => exact .none
      | some result =>
          obtain ⟨member, there, same, _⟩ :=
            Attempts.exists_left paired ((lookup_ofMembers distinct).mp also)
          have present := mem_sortedMembers.mp there
          rw [same, found] at present
          cases present

theorem readMembers_map_eq_ok {members : List (String × γ)} {make : γ → Json}
    {results : List (String × α)} :
    serde.readMembers codec (.object (members.map fun member => (member.1, make member.2))) =
        .ok results ↔
      List.Forall₂ (fun member result => member.1 = result.1 ∧
        codec.deserialize (make member.2) = .ok result.2) members results := by
  rw [serde.readMembers_eq_ok]
  constructor
  · rintro ⟨listed, same, paired⟩
    cases same
    exact List.forall₂_map_left_iff.mp paired
  · intro paired
    exact ⟨_, rfl, List.forall₂_map_left_iff.mpr paired⟩

theorem readMembers_succeeds {members : List (String × γ)} {make : γ → Json} :
    (∃ results, serde.readMembers codec
        (.object (members.map fun member => (member.1, make member.2))) = .ok results) ↔
      ∀ member ∈ members, ∃ result, codec.deserialize (make member.2) = .ok result := by
  constructor
  · rintro ⟨results, read⟩ member inside
    obtain ⟨result, _, _, own⟩ := Attempts.exists_right (readMembers_map_eq_ok.mp read) inside
    exact ⟨result.2, own⟩
  · intro each
    induction members with
    | nil => exact ⟨[], readMembers_map_eq_ok.mpr .nil⟩
    | cons member rest ih =>
        obtain ⟨result, own⟩ := each member List.mem_cons_self
        obtain ⟨results, read⟩ := ih fun other inside => each other (List.mem_cons_of_mem _ inside)
        exact ⟨(member.1, result) :: results,
          readMembers_map_eq_ok.mpr (.cons ⟨rfl, own⟩ (readMembers_map_eq_ok.mp read))⟩

/-- An object is no map if one of its members is not read. -/
theorem btreeMap_refused {members : List (String × Json)} {member : String × Json}
    (inside : member ∈ members) (refused : ∀ value, codec.deserialize member.2 ≠ .ok value)
    (map : AList fun _ : String => α) :
    (serde.btreeMap codec).deserialize (.object members) ≠ .ok map := by
  intro read
  obtain ⟨results, listed, _⟩ := Attempts.map_eq_ok.mp read
  obtain ⟨_, same, paired⟩ := (serde.readMembers_eq_ok codec).mp listed
  cases same
  obtain ⟨result, _, _, own⟩ := Attempts.exists_right paired inside
  exact refused _ own

/-- What is read from the members of a map, one by one. -/
theorem btreeMap_related {map : AList fun _ : String => γ} {make : γ → Json}
    {result : AList fun _ : String => α}
    (read : (serde.btreeMap codec).deserialize
      (.object ((sortedMembers map).map fun member => (member.1, make member.2))) = .ok result)
    (name : String) :
    Option.Rel (fun value found => codec.deserialize (make value) = .ok found)
      (map.lookup name) (result.lookup name) := by
  obtain ⟨results, listed, rfl⟩ := Attempts.map_eq_ok.mp read
  exact ofMembers_related (readMembers_map_eq_ok.mp listed) name

theorem btreeMap_succeeds {map : AList fun _ : String => γ} {make : γ → Json} :
    (∃ result, (serde.btreeMap codec).deserialize
        (.object ((sortedMembers map).map fun member => (member.1, make member.2))) =
          .ok result) ↔
      ∀ name value, map.lookup name = some value →
        ∃ found, codec.deserialize (make value) = .ok found := by
  have each : (∃ results, serde.readMembers codec (.object
      ((sortedMembers map).map fun member => (member.1, make member.2))) = .ok results) ↔ _ :=
    readMembers_succeeds
  constructor
  · rintro ⟨result, read⟩ name value present
    obtain ⟨results, listed, _⟩ := Attempts.map_eq_ok.mp read
    exact each.mp ⟨results, listed⟩ (name, value) (mem_sortedMembers.mpr present)
  · intro values
    obtain ⟨results, read⟩ := each.mpr fun member inside =>
      values member.1 member.2 (mem_sortedMembers.mp inside)
    exact ⟨ofMembers results, Attempts.map_eq_ok.mpr ⟨results, read, rfl⟩⟩

/-- A map that is written and read back is the same map. -/
theorem btreeMap_back {map : AList fun _ : String => α}
    (each : ∀ name value, map.lookup name = some value →
      codec.deserialize (codec.serialize value) = .ok value) :
    ∃ again, (serde.btreeMap codec).deserialize ((serde.btreeMap codec).serialize map) = .ok again ∧
      SameMap again map := by
  obtain ⟨again, read⟩ := btreeMap_succeeds.mpr fun name value present =>
    ⟨value, each name value present⟩
  refine ⟨again, read, fun name => ?_⟩
  have related := btreeMap_related read name
  cases present : map.lookup name with
  | none =>
      rw [present] at related
      generalize again.lookup name = back at related ⊢
      cases related
      rfl
  | some value =>
      rw [present] at related
      generalize again.lookup name = back at related ⊢
      obtain ⟨same⟩ := related
      rw [each name value present] at same
      cases same
      rfl

/-- The order of the members only depends on what is in the map. -/
theorem sortedMembers_congr {one two : AList fun _ : String => α} (same : SameMap one two) :
    sortedMembers one = sortedMembers two := by
  have pairwise : ∀ map : AList fun _ : String => α,
      (sortedMembers map).Pairwise fun first second => first.1 < second.1 := by
    intro map
    have ordered : (sortedMembers map).Pairwise fun first second => first.1 ≤ second.1 :=
      List.pairwise_insertionSort _ _
    have distinct : (sortedMembers map).Pairwise fun first second => first.1 ≠ second.1 :=
      List.pairwise_map.mp (sortedMembers_nodup map)
    exact (ordered.and distinct).imp fun both => lt_of_le_of_ne both.1 both.2
  have nodup : ∀ map : AList fun _ : String => α, (sortedMembers map).Nodup := fun map =>
    List.Nodup.of_map Prod.fst (sortedMembers_nodup map)
  have perm : (sortedMembers one).Perm (sortedMembers two) := by
    rw [List.perm_ext_iff_of_nodup (nodup one) (nodup two)]
    intro ⟨name, value⟩
    rw [mem_sortedMembers, mem_sortedMembers, same name]
  apply perm.eq_of_pairwise _ (pairwise one) (pairwise two)
  intro first second _ _ less greater
  exact False.elim (lt_asymm less greater)

/-- Whatever is in a map that has been read has been read. -/
theorem btreeMap_reads {json : Json} {map : AList fun _ : String => α}
    (read : (serde.btreeMap codec).deserialize json = .ok map) {name : String} {value : α}
    (present : map.lookup name = some value) : ∃ own, codec.deserialize own = .ok value := by
  obtain ⟨results, listed, rfl⟩ := Attempts.map_eq_ok.mp read
  have inside : (name, value) ∈ results := mem_of_lookup_ofMembers present
  obtain ⟨members, rfl, paired⟩ := (serde.readMembers_eq_ok codec).mp listed
  obtain ⟨member, _, _, own⟩ := Attempts.exists_left paired inside
  exact ⟨member.2, own⟩

theorem sameMap_ofMembers (map : AList fun _ : String => α) :
    SameMap (ofMembers (sortedMembers map)) map := by
  intro name
  apply Option.ext
  intro value
  rw [lookup_ofMembers (sortedMembers_nodup map), mem_sortedMembers]

/-- Members in order are read back as they were written. -/
theorem btreeMembers_back (map : AList fun _ : String => α)
    (each : ∀ name value, map.lookup name = some value →
      codec.deserialize (codec.serialize value) = .ok value) :
    (serde.btreeMembers codec).deserialize
      ((serde.btreeMembers codec).serialize (sortedMembers map)) = .ok (sortedMembers map) := by
  have read : serde.readMembers codec (writeMembers codec (sortedMembers map)) =
      .ok (sortedMembers map) := by
    apply readMembers_map_eq_ok.mpr
    rw [List.forall₂_same]
    intro member inside
    exact ⟨rfl, each member.1 member.2 (mem_sortedMembers.mp inside)⟩
  show (serde.readMembers codec (writeMembers codec (sortedMembers map))).map _ = _
  rw [read, Except.map, sortedMembers_congr (sameMap_ofMembers map)]

end Containers

section Fields

variable {ε α β : Type} {serde : Serde} {codec : Codec serde.Error α}
  {members rest : List (String × Json)} {name other : String} {json : Json}

-- in parentheses, so that no defeq check evaluates the computation that comes next
@[simp] theorem ok_bind (value : α) (next : α → Except ε β) : (.ok value >>= next) = next value :=
  (rfl)

theorem find_absent (absent : name ∉ members.map Prod.fst) :
    serde.find members name = .ok none := by
  induction members with
  | nil => exact serde.find_nil name
  | cons member rest ih =>
      rw [List.map_cons, List.mem_cons, not_or] at absent
      obtain ⟨differ, absent⟩ := absent
      rw [serde.find_other (Ne.symm differ), ih absent]

theorem required_reads {value : α} (read : serde.required codec members name = .ok value) :
    ∃ own, codec.deserialize own = .ok value := by
  obtain ⟨found, _, read⟩ := Attempts.bind_eq_ok.mp read
  cases found with
  | none => cases read
  | some json => exact ⟨json, read⟩

theorem defaulted_reads {default value : α}
    (read : serde.defaulted codec default members name = .ok value) :
    value = default ∨ ∃ own, codec.deserialize own = .ok value := by
  obtain ⟨found, _, read⟩ := Attempts.bind_eq_ok.mp read
  cases found with
  | none =>
      cases read
      exact .inl rfl
  | some json => exact .inr ⟨json, read⟩

@[simp] theorem required_cons_other (differ : other ≠ name) :
    serde.required codec ((other, json) :: rest) name = serde.required codec rest name := by
  rw [required, required, serde.find_other differ]

@[simp] theorem required_cons_self (fresh : name ∉ rest.map Prod.fst) :
    serde.required codec ((name, json) :: rest) name = codec.deserialize json := by
  rw [required, serde.find_once fresh, ok_bind]

@[simp] theorem defaulted_nil {default : α} :
    serde.defaulted codec default [] name = .ok default := by
  rw [defaulted, serde.find_nil, ok_bind]

@[simp] theorem defaulted_cons_other {default : α} (differ : other ≠ name) :
    serde.defaulted codec default ((other, json) :: rest) name =
      serde.defaulted codec default rest name := by
  rw [defaulted, defaulted, serde.find_other differ]

@[simp] theorem defaulted_cons_self {default : α} (fresh : name ∉ rest.map Prod.fst) :
    serde.defaulted codec default ((name, json) :: rest) name = codec.deserialize json := by
  rw [defaulted, serde.find_once fresh, ok_bind]

@[simp] theorem map_fst_skipNone (value : Option α) :
    (skipNone codec name value).map Prod.fst = value.toList.map fun _ => name := by
  rw [skipNone, List.map_map]
  rfl

@[simp] theorem defaulted_skipNone_other {default : α} {value : Option β} {own : Codec ε β}
    (differ : other ≠ name) :
    serde.defaulted codec default (skipNone own other value ++ rest) name =
      serde.defaulted codec default rest name := by
  cases value with
  | none => rfl
  | some value => exact defaulted_cons_other differ

/-- A field that is left out when it is empty is read as empty. -/
theorem defaulted_skipNone_self {value : Option α} (fresh : name ∉ rest.map Prod.fst)
    (reads : ∀ own, value = some own →
      (serde.option codec).deserialize (codec.serialize own) = .ok (some own)) :
    serde.defaulted (serde.option codec) none (skipNone codec name value ++ rest) name =
      .ok value := by
  cases value with
  | some own =>
      have first : serde.defaulted (serde.option codec) none
          ((name, codec.serialize own) :: rest) name =
            (serde.option codec).deserialize (codec.serialize own) := defaulted_cons_self fresh
      exact first.trans (reads own rfl)
  | none =>
      show serde.defaulted (serde.option codec) none rest name = .ok none
      rw [defaulted, find_absent fresh, ok_bind]

@[simp] theorem defaulted_skipNone_string {value : Option String}
    (fresh : name ∉ rest.map Prod.fst) :
    serde.defaulted (serde.option serde.string) none
      (skipNone serde.string name value ++ rest) name = .ok value :=
  defaulted_skipNone_self fresh fun own _ => by
    rw [serde.string_serialize, option_string_deserialize]

/-- The same for the last field. -/
@[simp] theorem defaulted_skipNone_last {value : Option String} :
    serde.defaulted (serde.option serde.string) none (skipNone serde.string name value) name =
      .ok value := by
  have last : serde.defaulted (serde.option serde.string) none
      (skipNone serde.string name value ++ []) name = .ok value :=
    defaulted_skipNone_string (by simp)
  rwa [List.append_nil] at last

end Fields

section Plain

/-- A number below a bound. -/
def bounded (bound : Nat) : Json → Except String Nat
  | .number value =>
      if 0 ≤ value ∧ value < bound then .ok value.toNat else .error "invalid value"
  | _ => .error "invalid type: expected an unsigned integer"

theorem bounded_eq_ok {bound : Nat} {value : Int} {result : Nat} :
    bounded bound (.number value) = .ok result ↔ value = result ∧ result < bound := by
  rw [bounded]
  split
  · rename_i inside
    rw [Except.ok.injEq]
    omega
  · rename_i outside
    simp only [reduceCtorEq, false_iff]
    omega

theorem bounded_lt {bound : Nat} {json : Json} {result : Nat}
    (read : bounded bound json = .ok result) : result < bound := by
  cases json with
  | number value => exact (bounded_eq_ok.mp read).2
  | null | bool | string | array | object => cases read

def plainMembers {α : Type} (codec : Codec String α) : Json → Except String (List (String × α))
  | .object members => members.mapM fun member =>
      (codec.deserialize member.2).map (Prod.mk member.1)
  | _ => .error "invalid type: expected a map"

theorem plainMembers_eq_ok {α : Type} (codec : Codec String α) {json : Json}
    {results : List (String × α)} : plainMembers codec json = .ok results ↔
      ∃ members, json = .object members ∧ List.Forall₂ (fun member result =>
        member.1 = result.1 ∧ codec.deserialize member.2 = .ok result.2) members results := by
  have each (member : String × Json) (result : String × α) :
      (codec.deserialize member.2).map (Prod.mk member.1) = .ok result ↔
        member.1 = result.1 ∧ codec.deserialize member.2 = .ok result.2 := by
    rw [Attempts.map_eq_ok]
    constructor
    · rintro ⟨value, read, rfl⟩
      exact ⟨rfl, read⟩
    · rintro ⟨same, read⟩
      exact ⟨result.2, read, Prod.ext same rfl⟩
  cases json with
  | object members =>
      simp only [plainMembers, Attempts.mapM_eq_ok, each, Json.object.injEq, exists_eq_left']
  | null | bool | number | string | array => simp [plainMembers]

def plainFind (members : List (String × Json)) (name : String) : Except String (Option Json) :=
  match members.filter fun member => member.1 = name with
  | [] => .ok none
  | [member] => .ok (some member.2)
  | _ :: _ :: _ => .error s!"duplicate field \x60{name}\x60"

theorem plainFind_once {name : String} {json : Json} {rest : List (String × Json)}
    (fresh : name ∉ rest.map Prod.fst) :
    plainFind ((name, json) :: rest) name = .ok (some json) := by
  have others : rest.filter (fun member => member.1 = name) = [] := by
    rw [List.filter_eq_nil_iff]
    intro member inside same
    exact fresh (List.mem_map.mpr ⟨member, inside, of_decide_eq_true same⟩)
  simp [plainFind, others]

/-- What they do on values of the data model. -/
def plain : Serde where
  Error := String
  string := ⟨.string, fun | .string text => .ok text | _ => .error "expected a string"⟩
  bool := ⟨.bool, fun | .bool value => .ok value | _ => .error "expected a boolean"⟩
  u32 := ⟨fun value => .number value.toNat, fun json =>
    (bounded (2 ^ 32) json).map UInt32.ofNat⟩
  u64 := ⟨fun value => .number value, bounded (2 ^ 64)⟩
  vec codec := ⟨fun values => .array (values.map codec.serialize), fun
    | .array values => values.mapM codec.deserialize
    | _ => .error "expected a sequence"⟩
  option codec := ⟨fun value => (value.map codec.serialize).getD .null, fun
    | .null => .ok none
    | json => (codec.deserialize json).map some⟩
  readMembers := plainMembers
  fieldsOf expected
    | .object members => .ok members
    | _ => .error ("expected " ++ expected)
  find := plainFind
  missingField name := s!"missing field \x60{name}\x60"
  string_serialize _ := rfl
  string_deserialize _ := rfl
  bool_serialize _ := rfl
  bool_deserialize _ := rfl
  u32_serialize _ := rfl
  u32_eq_ok {value result} := by
    rw [Attempts.map_eq_ok]
    constructor
    · rintro ⟨read, inside, rfl⟩
      obtain ⟨rfl, small⟩ := bounded_eq_ok.mp inside
      rw [UInt32.toNat_ofNat_of_lt' small]
    · rintro rfl
      exact ⟨result.toNat, bounded_eq_ok.mpr ⟨rfl, result.toNat_lt⟩, UInt32.ofNat_toNat⟩
  u64_serialize _ := rfl
  u64_eq_ok := bounded_eq_ok
  u64_lt := bounded_lt
  vec_serialize _ _ := rfl
  vec_eq_ok _ := Attempts.mapM_eq_ok
  option_some codec json some_ := by
    cases json with
    | null => exact absurd rfl some_
    | bool | number | string | array | object => rfl
  readMembers_eq_ok := plainMembers_eq_ok
  fieldsOf_object _ _ := rfl
  fieldsOf_scalar expected json fields scalar := by
    cases json with
    | object members => exact scalar.elim
    | null | bool | number | string | array => nofun
  find_nil _ := rfl
  find_other differ := by simp [plainFind, differ]
  find_once := plainFind_once

end Plain

end Serde

end NixRedox
