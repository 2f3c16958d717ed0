import Mathlib

set_option autoImplicit false

/- Strings between double quotes: how their escapes are read, given which characters may
stand for themselves. Nothing here knows what is in them. -/
namespace NixRedox.BasicStrings

section Reading

/-- The character a mark behind a backslash stands for. -/
def unescape : Char → Option Char
  | '"' => some '"'
  | '\\' => some '\\'
  | 'b' => some '\x08'
  | 'f' => some '\x0C'
  | 'n' => some '\n'
  | 'r' => some '\r'
  | 't' => some '\t'
  | _ => none

def hexValue (c : Char) : Option Nat :=
  if '0' ≤ c ∧ c ≤ '9' then some (c.toNat - 48)
  else if 'a' ≤ c ∧ c ≤ 'f' then some (c.toNat - 87)
  else if 'A' ≤ c ∧ c ≤ 'F' then some (c.toNat - 55)
  else none

def hexNumber (digits : List Char) : Option Nat :=
  digits.foldlM (fun value c => (hexValue c).map fun digit => 16 * value + digit) 0

/-- The character of a code point that has one. -/
def codeChar (digits : List Char) : Option Char :=
  (hexNumber digits).bind fun code => if code.isValidChar then some (Char.ofNat code) else none

def prepend (c : Char) (read : List Char × List Char) : List Char × List Char :=
  (c :: read.1, read.2)

variable (plain : Char → Bool)

/-- The text up to the closing quote and what is behind it. -/
def readBody : List Char → Option (List Char × List Char)
  | [] => none
  | '"' :: rest => some ([], rest)
  | '\\' :: 'u' :: a :: b :: c :: d :: rest =>
      (codeChar [a, b, c, d]).bind fun own => (readBody rest).map (prepend own)
  | '\\' :: 'U' :: a :: b :: c :: d :: e :: f :: g :: h :: rest =>
      (codeChar [a, b, c, d, e, f, g, h]).bind fun own => (readBody rest).map (prepend own)
  | '\\' :: mark :: rest => (unescape mark).bind fun own => (readBody rest).map (prepend own)
  | own :: rest => if plain own then (readBody rest).map (prepend own) else none

def readString : List Char → Option (List Char × List Char)
  | '"' :: rest => readBody plain rest
  | _ => none

end Reading

section Written

variable {plain : Char → Bool}

/-- The ways to write a character. -/
inductive Escaped (plain : Char → Bool) : Char → List Char → Prop where
  | plain {own : Char} (unmarked : plain own) (quote : own ≠ '"') (backslash : own ≠ '\\') :
      Escaped plain own [own]
  | marked {mark own : Char} (known : unescape mark = some own) : Escaped plain own ['\\', mark]
  | coded {a b c d own : Char} (known : codeChar [a, b, c, d] = some own) :
      Escaped plain own ['\\', 'u', a, b, c, d]

theorem readBody_escaped {own : Char} {written rest : List Char}
    (escaped : Escaped plain own written) :
    readBody plain (written ++ rest) = (readBody plain rest).map (prepend own) := by
  cases escaped with
  | plain unmarked quote backslash =>
      rw [List.singleton_append, readBody, if_pos unmarked]
      · exact fun same => quote same
      all_goals
        intros
        contradiction
  | marked known =>
      have unfolded : ∀ mark, unescape mark ≠ none → mark ≠ 'u' ∧ mark ≠ 'U' := by
        rintro mark some_
        constructor <;> rintro rfl <;> exact some_ rfl
      have other := unfolded _ (known ▸ Option.some_ne_none own)
      rw [List.cons_append, List.singleton_append, readBody, known, Option.bind_some]
      · exact fun _ _ _ _ _ same => absurd same (by simp [other.1])
      · exact fun _ _ _ _ _ _ _ _ _ same => absurd same (by simp [other.2])
  | coded known =>
      simp only [List.cons_append, List.nil_append]
      rw [readBody, known, Option.bind_some]

/-- A text that is written character by character is read back. -/
theorem readString_written {write : Char → List Char} (text rest : List Char)
    (each : ∀ own ∈ text, Escaped plain own (write own)) :
    readString plain ('"' :: text.flatMap write ++ '"' :: rest) = some (text, rest) := by
  rw [List.cons_append, readString]
  induction text with
  | nil => rfl
  | cons own text ih =>
      rw [List.flatMap_cons, List.append_assoc, readBody_escaped (each own List.mem_cons_self),
        ih fun other later => each other (List.mem_cons_of_mem _ later)]
      rfl

end Written

end NixRedox.BasicStrings
