import NixRedox.KeyedMap

set_option autoImplicit false

/- Nix values as far as data goes, attribute sets and their update, and options kept by
module path. Nothing here knows which options there are. -/
namespace NixRedox.AttrSets

/-- The members of a nested set are listed in the order of their names. A derivation is
what its output path is. -/
inductive Value where
  | null
  | bool (value : Bool)
  | int (value : Int)
  | string (text : String)
  | derivation (outPath : String)
  | list (values : List Value)
  | attrs (entries : List (String × Value))
  deriving Repr

def strings (texts : List String) : Value := .list (texts.map .string)

section Equality

mutual

/-- `==` of two values. -/
def Value.decEq : (one two : Value) → Decidable (one = two)
  | .null, .null => isTrue rfl
  | .bool one, .bool two => decidable_of_iff (one = two) (by simp)
  | .int one, .int two => decidable_of_iff (one = two) (by simp)
  | .string one, .string two => decidable_of_iff (one = two) (by simp)
  | .derivation one, .derivation two => decidable_of_iff (one = two) (by simp)
  | .list one, .list two =>
      have := Value.decEqList one two
      decidable_of_iff (one = two) (by simp)
  | .attrs one, .attrs two =>
      have := Value.decEqEntries one two
      decidable_of_iff (one = two) (by simp)
  | .null, .bool _ | .null, .int _ | .null, .string _ | .null, .derivation _
  | .null, .list _ | .null, .attrs _ => isFalse (by simp)
  | .bool _, .null | .bool _, .int _ | .bool _, .string _ | .bool _, .derivation _
  | .bool _, .list _ | .bool _, .attrs _ => isFalse (by simp)
  | .int _, .null | .int _, .bool _ | .int _, .string _ | .int _, .derivation _
  | .int _, .list _ | .int _, .attrs _ => isFalse (by simp)
  | .string _, .null | .string _, .bool _ | .string _, .int _ | .string _, .derivation _
  | .string _, .list _ | .string _, .attrs _ => isFalse (by simp)
  | .derivation _, .null | .derivation _, .bool _ | .derivation _, .int _
  | .derivation _, .string _ | .derivation _, .list _ | .derivation _, .attrs _ =>
      isFalse (by simp)
  | .list _, .null | .list _, .bool _ | .list _, .int _ | .list _, .string _
  | .list _, .derivation _ | .list _, .attrs _ => isFalse (by simp)
  | .attrs _, .null | .attrs _, .bool _ | .attrs _, .int _ | .attrs _, .string _
  | .attrs _, .derivation _ | .attrs _, .list _ => isFalse (by simp)

def Value.decEqList : (one two : List Value) → Decidable (one = two)
  | [], [] => isTrue rfl
  | [], _ :: _ | _ :: _, [] => isFalse (by simp)
  | first :: rest, other :: more =>
      have := Value.decEq first other
      have := Value.decEqList rest more
      decidable_of_iff (first = other ∧ rest = more) (by simp)

def Value.decEqEntries : (one two : List (String × Value)) → Decidable (one = two)
  | [], [] => isTrue rfl
  | [], _ :: _ | _ :: _, [] => isFalse (by simp)
  | (name, first) :: rest, (key, other) :: more =>
      have := Value.decEq first other
      have := Value.decEqEntries rest more
      decidable_of_iff (name = key ∧ first = other ∧ rest = more) (by simp [and_assoc])

end

instance : DecidableEq Value := Value.decEq

end Equality

section Update

/-- An attribute set. -/
abbrev Attrs := AList fun _ : String => Value

variable {β : Type}

/-- `one // two`. -/
def update (one two : AList fun _ : String => β) : AList fun _ : String => β := two ∪ one

@[simp] theorem lookup_update (one two : AList fun _ : String => β) (name : String) :
    (update one two).lookup name = (two.lookup name).or (one.lookup name) := by
  by_cases inside : name ∈ two
  · rw [update, AList.lookup_union_left inside]
    have present := AList.lookup_isSome.mpr inside
    exact (Option.or_of_isSome present).symm
  · rw [update, AList.lookup_union_right inside, AList.lookup_eq_none.mpr inside, Option.none_or]

/-- `{ a = …; b = …; }`. -/
def ofEntries : List (String × β) → AList fun _ : String => β
  | [] => ∅
  | (name, value) :: rest => (ofEntries rest).insert name value

@[simp] theorem lookup_ofEntries (entries : List (String × β)) (name : String) :
    (ofEntries entries).lookup name = List.lookup name entries := by
  induction entries with
  | nil => simp [ofEntries]
  | cons entry rest ih =>
      obtain ⟨key, value⟩ := entry
      by_cases same : name = key
      · subst same
        simp [ofEntries]
      · have differ : (name == key) = false := beq_false_of_ne same
        rw [ofEntries, AList.lookup_insert_ne same, ih, List.lookup_cons, differ]

end Update

section Options

/-- The options that are set, by the path of their module. -/
abbrev Options := AList fun _ : String => Attrs

/-- The value an option is set to. -/
def option (options : Options) (path name : String) : Option Value :=
  (options.lookup path).bind fun attrs => attrs.lookup name

/-- `options.${path} or { }`. -/
def existing (options : Options) (path : String) : Attrs := (options.lookup path).getD ∅

@[simp] theorem lookup_existing (options : Options) (path name : String) :
    (existing options path).lookup name = option options path name := by
  unfold existing option
  cases options.lookup path with
  | none => simp
  | some attrs => rfl

/-- `extend`: a module that is overridden is overridden whole. -/
def extend (options overrides : Options) : Options := update options overrides

theorem option_extend (options overrides : Options) (path name : String) :
    option (extend options overrides) path name =
      ((overrides.lookup path).getD (existing options path)).lookup name := by
  unfold extend
  rw [option, lookup_update]
  cases overrides.lookup path with
  | some attrs => rfl
  | none =>
      rw [Option.none_or, Option.getD_none, lookup_existing]
      rfl

end Options

end NixRedox.AttrSets
