import NixRedox.StoredResolve

set_option autoImplicit false

/- When the parser of store scheme paths returns, and what it then says about the name. -/
namespace NixRedox.Stored

open Text

/-- 32 nixbase32 characters, a dash and something after it. -/
def StorePathName (name : List Char) : Prop :=
  ∃ hashPart rest, name = hashPart ++ '-' :: rest ∧ hashPart.length = 32 ∧
    hashPart.all isNixbase32 = true ∧ rest ≠ []

/-- The parser returns, and a name it accepts has the form of a store path name. -/
def Total (path : List Char) : Prop :=
  ∃ result, parseSchemePath path = some result ∧ ∀ resolved, result = .ok resolved →
    match resolved with
    | .root => True
    | .storePathRoot name | .subPath name _ => StorePathName name

section Validation

variable {name : List Char}

theorem isNixbase32_size {c : Char} (digit : isNixbase32 c = true) : c.utf8Size = 1 := by
  have small : c.val ≤ 0x7f := by
    have last : c ≤ 'z' := by
      simp only [isNixbase32, decide_eq_true_eq] at digit
      rcases digit with ⟨-, high⟩ | ⟨-, high⟩ | ⟨-, high⟩ | ⟨-, high⟩ | ⟨-, high⟩
      · exact le_trans high (show '9' ≤ 'z' by decide)
      · exact le_trans high (show 'd' ≤ 'z' by decide)
      · exact le_trans high (show 'n' ≤ 'z' by decide)
      · exact le_trans high (show 's' ≤ 'z' by decide)
      · exact high
    have value : c.val ≤ 'z'.val := last
    exact UInt32.le_trans value (by decide)
  unfold Char.utf8Size
  exact if_pos small

theorem nixbase32_length {digits : List Char} (all : digits.all isNixbase32 = true) :
    byteLength digits = digits.length := by
  induction digits with
  | nil => rfl
  | cons head rest ih =>
      rw [List.all_cons, Bool.and_eq_true] at all
      rw [byteLength_cons, isNixbase32_size all.1, ih all.2, List.length_cons, add_comm]

/-- The slice at byte 32 is the only one that can panic. -/
theorem validateStorePathName_eq_none :
    validateStorePathName name = none ↔ 34 ≤ byteLength name ∧ ¬ IsCharBoundary name 32 := by
  unfold validateStorePathName
  by_cases short : byteLength name < 34
  · simp [short]
  · rw [if_neg short]
    have long : 34 ≤ byteLength name := by omega
    cases split : splitAtByte name 32 with
    | none =>
        simp only [long, true_and, true_iff]
        rintro ⟨front, back, whole, length⟩
        rw [splitAtByte_eq_some.mpr ⟨whole, length⟩] at split
        cases split
    | some halves =>
        obtain ⟨hashPart, rest⟩ := halves
        have boundary : IsCharBoundary name 32 :=
          ⟨hashPart, rest, (splitAtByte_eq_some.mp split)⟩
        simp only [boundary, not_true_eq_false, and_false, iff_false]
        split
        · simp
        · split <;> simp

theorem validateStorePathName_ok (valid : validateStorePathName name = some (.ok ())) :
    StorePathName name := by
  have long := validateStorePathName_long valid
  unfold validateStorePathName at valid
  rw [if_neg (by omega)] at valid
  cases split : splitAtByte name 32 with
  | none =>
      rw [split] at valid
      cases valid
  | some halves =>
      obtain ⟨hashPart, rest⟩ := halves
      rw [split] at valid
      obtain ⟨whole, length⟩ := splitAtByte_eq_some.mp split
      dsimp only at valid
      split at valid
      · cases valid
      · rename_i dash
        split at valid
        · rename_i digits
          obtain ⟨tail, rfl⟩ := List.head?_eq_some_iff.mp (not_not.mp dash)
          have few : hashPart.length = 32 := by
            rw [← nixbase32_length digits]
            exact length
          refine ⟨hashPart, tail, whole, few, digits, ?_⟩
          rintro rfl
          rw [whole, byteLength_append, length, byteLength_cons] at long
          exact absurd long (by decide)
        · cases valid

end Validation

/-- The parse comes to an end before the slice at byte 32, or that byte of the name starts
a character. -/
def Sliceable (path : List Char) : Prop :=
  trimMatches path = [] ∨ contains ['.', '.'] (trimMatches path) = true ∨
    byteLength (nameOf path) < 34 ∨ IsCharBoundary (nameOf path) 32

/-- A path that passes the first two tests is judged by its name. -/
theorem parseSchemePath_eq {path : List Char} (named : trimMatches path ≠ [])
    (straight : contains ['.', '.'] (trimMatches path) = false) :
    parseSchemePath path = (validateStorePathName (nameOf path)).map fun valid =>
      valid.map fun _ =>
        if afterName path = [] then .storePathRoot (nameOf path)
        else .subPath (nameOf path) (afterName path) := by
  have parts : splitFirstSlash (trimMatches path) =
      (nameOf path, if (trimMatches path).dropWhile (· ≠ '/') = [] then none
        else some (afterName path)) := splitFirstSlash_eq (trimMatches path)
  simp only [parseSchemePath, named, straight, parts, ↓reduceIte, Bool.false_eq_true]
  rcases validateStorePathName (nameOf path) with _ | reason | valid
  · rfl
  · rfl
  · by_cases exhausted : (trimMatches path).dropWhile (· ≠ '/') = []
    · have nothing : afterName path = [] := by
        rw [afterName, exhausted]
        rfl
      simp only [exhausted, ↓reduceIte, nothing]
      rfl
    · simp only [exhausted, ↓reduceIte, Option.map_some, Except.map]
      split
      · rename_i missing
        cases missing
      · rename_i empty
        rw [if_pos (Option.some.inj empty)]
      · rename_i sub filled same
        obtain rfl := Option.some.inj same
        rw [if_neg filled]

/-- The parser returns exactly when byte 32 of a name that is long enough does not lie
inside a character; a name it accepts has the form of a store path name. -/
theorem parseSchemePath_total_iff (path : List Char) : Total path ↔ Sliceable path := by
  by_cases named : trimMatches path = []
  · have root : parseSchemePath path = some (.ok .root) := by
      simp only [parseSchemePath, named, ↓reduceIte]
    refine ⟨fun _ => .inl named, fun _ => ⟨_, root, ?_⟩⟩
    rintro resolved same
    cases same
    trivial
  · by_cases climbs : contains ['.', '.'] (trimMatches path) = true
    · have refused : parseSchemePath path = some (.error (.pathTraversal (trimMatches path))) := by
        simp only [parseSchemePath, named, climbs, ↓reduceIte]
      refine ⟨fun _ => .inr (.inl climbs), fun _ => ⟨_, refused, ?_⟩⟩
      rintro resolved same
      cases same
    · have parsed := parseSchemePath_eq named (Bool.eq_false_iff.mpr climbs)
      constructor
      · rintro ⟨result, returned, -⟩
        right; right
        by_contra outside
        obtain ⟨long, inside⟩ := not_or.mp outside
        rw [parsed, validateStorePathName_eq_none.mpr ⟨not_lt.mp long, inside⟩] at returned
        cases returned
      · intro sliceable
        have returns : validateStorePathName (nameOf path) ≠ none := by
          intro panics
          obtain ⟨long, inside⟩ := validateStorePathName_eq_none.mp panics
          rcases sliceable with empty | dots | short | boundary
          · exact named empty
          · exact climbs dots
          · omega
          · exact inside boundary
        obtain ⟨valid, validated⟩ := Option.ne_none_iff_exists'.mp returns
        rw [validated] at parsed
        refine ⟨_, parsed, ?_⟩
        rintro resolved same
        cases valid with
        | error reason => cases same
        | ok _ =>
            have form := validateStorePathName_ok validated
            cases same
            split
            · trivial
            · rename_i name accepted
              split at accepted
              · cases accepted
                exact form
              · cases accepted
            · rename_i name sub accepted
              split at accepted
              · cases accepted
              · cases accepted
                exact form

/-- Byte 32 of the name lies inside the last character. -/
theorem parseSchemePath_panics :
    parseSchemePath "1b9jydsiygi6jhlz2dxbrxi6b4m1rn4é-ripgrep".toList = none ∧
      ¬ ∀ path, Total path := by
  have panics : parseSchemePath "1b9jydsiygi6jhlz2dxbrxi6b4m1rn4é-ripgrep".toList = none := by
    decide +kernel
  refine ⟨panics, ?_⟩
  intro total
  obtain ⟨result, returned, -⟩ := total "1b9jydsiygi6jhlz2dxbrxi6b4m1rn4é-ripgrep".toList
  rw [panics] at returned
  cases returned

end NixRedox.Stored
