import Mathlib

set_option autoImplicit false

/- Operations of `str` on texts as lists of characters, with lengths and offsets
counted in UTF-8 bytes. -/
namespace NixRedox.Text

/-- `str::trim_start_matches('/')`. -/
def trimStart (path : List Char) : List Char := path.dropWhile (· = '/')

/-- `str::trim_end_matches('/')`. -/
def trimEnd (path : List Char) : List Char := path.rdropWhile (· = '/')

/-- `str::trim_matches('/')`. -/
def trimMatches (path : List Char) : List Char := trimEnd (trimStart path)

/-- `str::contains` for a pattern string. -/
def contains (pattern : List Char) (text : List Char) : Bool :=
  text.tails.any pattern.isPrefixOf

/-- Length of a string in bytes. -/
def byteLength (text : List Char) : Nat := (text.map Char.utf8Size).sum

/-- Split a string at a byte offset; `none` when the offset is not a character
boundary, where slicing panics. -/
def splitAtByte : List Char → Nat → Option (List Char × List Char)
  | text, 0 => some ([], text)
  | [], _ + 1 => none
  | head :: rest, offset + 1 =>
      if head.utf8Size ≤ offset + 1 then
        (splitAtByte rest (offset + 1 - head.utf8Size)).map fun halves =>
          (head :: halves.1, halves.2)
      else
        none

/-- `str::is_char_boundary`: some characters from the start take up so many bytes. -/
def IsCharBoundary (text : List Char) (offset : Nat) : Prop :=
  ∃ front back, text = front ++ back ∧ byteLength front = offset

/-- Split at the first slash: the part before it, and the part after it if there
is one. -/
def splitFirstSlash (path : List Char) : List Char × Option (List Char) :=
  match path.dropWhile (· ≠ '/') with
  | [] => (path, none)
  | _ :: subpath => (path.takeWhile (· ≠ '/'), some subpath)

/-- The value of a non-empty string of ASCII digits. -/
def decimalValue (digits : List Char) : Option Nat :=
  if digits ≠ [] ∧ digits.all Char.isDigit then
    some (digits.foldl (fun value digit => 10 * value + (digit.toNat - '0'.toNat)) 0)
  else
    none

/-- `char::is_whitespace`. -/
def isWhitespace (c : Char) : Bool :=
  let code := c.toNat
  9 ≤ code && code ≤ 13 || code = 0x20 || code = 0x85 || code = 0xA0 || code = 0x1680 ||
    0x2000 ≤ code && code ≤ 0x200A || code = 0x2028 || code = 0x2029 || code = 0x202F ||
    code = 0x205F || code = 0x3000

/-- `str::trim`. -/
def trim (text : List Char) : List Char := (text.dropWhile isWhitespace).rdropWhile isWhitespace

/-- `str::split_whitespace`. -/
def splitWhitespace (text : List Char) : List (List Char) :=
  (text.splitOnP isWhitespace).filter (· ≠ [])

@[simp] theorem byteLength_cons (head : Char) (rest : List Char) :
    byteLength (head :: rest) = head.utf8Size + byteLength rest := by
  simp [byteLength]

theorem byteLength_append (front back : List Char) :
    byteLength (front ++ back) = byteLength front + byteLength back := by
  simp [byteLength]

/-- A character takes up at least one byte. -/
theorem length_le_byteLength (text : List Char) : text.length ≤ byteLength text := by
  induction text with
  | nil =>
      rfl
  | cons head rest ih =>
      have positive := head.utf8Size_pos
      rw [List.length_cons, byteLength_cons]
      omega

theorem byteLength_eq_zero {text : List Char} (empty : byteLength text = 0) : text = [] := by
  cases text with
  | nil => rfl
  | cons head rest =>
      have positive := head.utf8Size_pos
      rw [byteLength_cons] at empty
      omega

/-- A split gives the characters before the offset and those after it. -/
theorem splitAtByte_eq_some {text front back : List Char} {offset : Nat} :
    splitAtByte text offset = some (front, back) ↔
      text = front ++ back ∧ byteLength front = offset := by
  induction text generalizing front offset with
  | nil =>
      cases offset with
      | zero =>
          constructor
          · intro split
            cases split
            exact ⟨rfl, rfl⟩
          · rintro ⟨whole, empty⟩
            obtain ⟨rfl, rfl⟩ := List.append_eq_nil_iff.mp whole.symm
            rfl
      | succ offset =>
          constructor
          · intro split
            cases split
          · rintro ⟨whole, long⟩
            obtain ⟨rfl, rfl⟩ := List.append_eq_nil_iff.mp whole.symm
            cases long
  | cons head rest ih =>
      have positive := head.utf8Size_pos
      cases offset with
      | zero =>
          constructor
          · intro split
            cases split
            exact ⟨rfl, rfl⟩
          · rintro ⟨whole, empty⟩
            obtain rfl := byteLength_eq_zero empty
            rw [whole, List.nil_append, splitAtByte]
      | succ offset =>
          rw [splitAtByte]
          constructor
          · intro split
            split at split
            · obtain ⟨⟨before, after⟩, inner, same⟩ := Option.map_eq_some_iff.mp split
              cases same
              obtain ⟨whole, length⟩ := ih.mp inner
              refine ⟨by rw [whole, List.cons_append], ?_⟩
              simp only [byteLength_cons]
              omega
            · cases split
          · rintro ⟨whole, length⟩
            cases front with
            | nil => cases length
            | cons first front =>
                obtain ⟨rfl, later⟩ := List.cons.inj whole
                rw [byteLength_cons] at length
                have inner : splitAtByte rest (offset + 1 - head.utf8Size) = some (front, back) :=
                  ih.mpr ⟨later, by omega⟩
                rw [if_pos (by omega), inner]
                rfl

theorem contains_eq_false {pattern text : List Char} (absent : contains pattern text = false) :
    ¬ pattern <:+: text := by
  intro ⟨front, back, same⟩
  have present : contains pattern text = true := by
    rw [contains, List.any_eq_true]
    refine ⟨pattern ++ back, ?_, by simp⟩
    rw [List.mem_tails, ← same, List.append_assoc]
    exact List.suffix_append front (pattern ++ back)
  rw [absent] at present
  cases present

theorem trimStart_head (path : List Char) : (trimStart path).head? ≠ some '/' := by
  intro slash
  have stopped := List.head?_dropWhile_not (fun letter : Char => decide (letter = '/')) path
  unfold trimStart at slash
  rw [slash] at stopped
  simp at stopped

/-- A trimmed path does not start with a slash. -/
theorem trimMatches_head (path : List Char) : (trimMatches path).head? ≠ some '/' := by
  intro slash
  obtain ⟨rest, same⟩ := List.rdropWhile_prefix (fun letter : Char => decide (letter = '/'))
    (l := trimStart path)
  apply trimStart_head path
  rw [← same]
  have front : (List.rdropWhile (fun letter => decide (letter = '/')) (trimStart path)).head? =
      some '/' := slash
  rw [List.head?_append, front]
  rfl

theorem trimMatches_idempotent (path : List Char) :
    trimMatches (trimMatches path) = trimMatches path := by
  have start : trimStart (trimMatches path) = trimMatches path := by
    have head := trimMatches_head path
    cases trimmed : trimMatches path with
    | nil => rfl
    | cons first rest =>
        rw [trimmed] at head
        have ordinary : first ≠ '/' := fun same => head (by rw [same]; rfl)
        simp [trimStart, ordinary]
  rw [trimMatches, start]
  exact List.rdropWhile_idempotent _ _

theorem splitFirstSlash_eq (path : List Char) :
    splitFirstSlash path =
      (path.takeWhile (· ≠ '/'),
        if path.dropWhile (· ≠ '/') = [] then none
        else some (path.dropWhile (· ≠ '/')).tail) := by
  unfold splitFirstSlash
  split
  · rename_i exhausted
    have whole : path.takeWhile (· ≠ '/') ++ path.dropWhile (· ≠ '/') = path :=
      List.takeWhile_append_dropWhile
    rw [exhausted, List.append_nil] at whole
    simp only [whole, exhausted, ↓reduceIte]
  · rename_i slash subpath rest
    simp only [rest, List.tail_cons, reduceCtorEq, ↓reduceIte]

end NixRedox.Text
