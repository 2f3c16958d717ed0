import NixRedox.AttrSets

set_option autoImplicit false

/- The types of module options, as checks of a value: what the type library accepts.
Nothing here knows which options there are. -/
namespace NixRedox.OptionTypes

open AttrSets (Value)

abbrev OptionType := Value → Bool

def string : OptionType
  | .string _ => true
  | _ => false

def int : OptionType
  | .int _ => true
  | _ => false

def bool : OptionType
  | .bool _ => true
  | _ => false

def derivation : OptionType
  | .derivation _ => true
  | _ => false

def listOf (type : OptionType) : OptionType
  | .list values => values.all type
  | _ => false

def attrsOf (type : OptionType) : OptionType
  | .attrs entries => entries.all fun entry => type entry.2
  | _ => false

def enum (elems : List String) : OptionType
  | .string text => elems.contains text
  | _ => false

/-- A member of a struct. Only a member marked `optionalAttr` may be missing. -/
structure Member where
  name : String
  type : OptionType
  optionalAttr : Bool

def required (name : String) (type : OptionType) : Member := ⟨name, type, false⟩

def optionalAttr (name : String) (type : OptionType) : Member := ⟨name, type, true⟩

def Member.accepts (entries : List (String × Value)) (member : Member) : Bool :=
  match entries.lookup member.name with
  | some value => member.type value
  | none => member.optionalAttr

/-- Other members than those named are allowed. -/
def struct (members : List Member) : OptionType
  | .attrs entries => members.all (Member.accepts entries)
  | _ => false

section Rules

variable {type : OptionType}

@[simp] theorem listOf_map {α : Type} {values : List α} {make : α → Value}
    (accepted : ∀ value ∈ values, type (make value) = true) :
    listOf type (.list (values.map make)) = true := by
  rw [listOf, List.all_map, List.all_eq_true]
  exact accepted

theorem attrsOf_map {α : Type} {entries : List (String × α)} {make : α → Value}
    (accepted : ∀ entry ∈ entries, type (make entry.2) = true) :
    attrsOf type (.attrs (entries.map fun entry => (entry.1, make entry.2))) = true := by
  rw [attrsOf, List.all_map, List.all_eq_true]
  exact accepted

@[simp] theorem strings_accepted (texts : List String) :
    listOf string (.list (texts.map Value.string)) = true :=
  listOf_map fun _ _ => rfl

@[simp] theorem enum_accepts {elems : List String} {text : String} (inside : text ∈ elems) :
    enum elems (.string text) = true :=
  List.contains_iff_mem.mpr inside

end Rules

end NixRedox.OptionTypes
