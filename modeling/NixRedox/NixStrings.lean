import NixRedox.BasicStrings

set_option autoImplicit false

/- Texts as double-quoted Nix strings: how they are written, by `nix_string_literal` and by
the display of a value, and how such strings are read. -/
namespace NixRedox.NixStrings

open BasicStrings (prepend)

section Writing

/-- What a character becomes before the next one. -/
def escapeChar (next : Option Char) : Char → List Char
  | '\\' => ['\\', '\\']
  | '"' => ['\\', '"']
  | '\n' => ['\\', 'n']
  | '\r' => ['\\', 'r']
  | '\t' => ['\\', 't']
  | '$' => if next = some '{' then ['\\', '$'] else ['$']
  | other => [other]

def escape : List Char → List Char
  | [] => []
  | c :: rest => escapeChar rest.head? c ++ escape rest

def quoted (value : List Char) : List Char := '"' :: escape value ++ ['"']

/-- `nix_string_literal` of the rebuild. -/
def nixStringLiteral (value : List Char) : List Char := quoted value

/-- The display of a Nix string by the evaluator. -/
def displayString (value : List Char) : List Char := quoted value

/-- The expression that the rebuild evaluates. -/
def nativeExpression (source configJson manifestJson : List Char) : List Char :=
  "((import (builtins.toPath ".toList ++ nixStringLiteral source ++
    ")) \x7b config = builtins.fromJSON ".toList ++ nixStringLiteral configJson ++
    "; currentManifest = builtins.fromJSON ".toList ++ nixStringLiteral manifestJson ++
    "; \x7d).drvPath".toList

end Writing

section Reading

inductive ReadFault where
  | notLiteral
  | unterminated
  | interpolation
  deriving DecidableEq

/-- The character that stands behind a backslash. -/
def unescape : Char → Char
  | 'n' => '\n'
  | 'r' => '\r'
  | 't' => '\t'
  | other => other

/-- A string up to its closing quote, and the text behind it. -/
def readBody : List Char → Except ReadFault (List Char × List Char)
  | [] => .error .unterminated
  | '"' :: rest => .ok ([], rest)
  | '\\' :: c :: rest => (readBody rest).map (prepend (unescape c))
  | '$' :: '{' :: _ => .error .interpolation
  | c :: rest => (readBody rest).map (prepend c)

def readLiteral : List Char → Except ReadFault (List Char × List Char)
  | '"' :: rest => readBody rest
  | _ => .error .notLiteral

end Reading

/-- A character is written behind a backslash that gives it back, or as it is. -/
theorem escapeChar_cases (next : Option Char) (c : Char) :
    (∃ mark, escapeChar next c = ['\\', mark] ∧ unescape mark = c) ∨
      (escapeChar next c = [c] ∧ c ≠ '"' ∧ c ≠ '\\' ∧ ¬ (c = '$' ∧ next = some '{')) := by
  unfold escapeChar
  split
  · exact .inl ⟨'\\', rfl, rfl⟩
  · exact .inl ⟨'"', rfl, rfl⟩
  · exact .inl ⟨'n', rfl, rfl⟩
  · exact .inl ⟨'r', rfl, rfl⟩
  · exact .inl ⟨'t', rfl, rfl⟩
  · split
    · exact .inl ⟨'$', rfl, rfl⟩
    · rename_i closed
      exact .inr ⟨rfl, by decide, by decide, fun opens => closed opens.2⟩
  · rename_i backslash quote _ _ _ dollar
    exact .inr ⟨rfl, quote, backslash, fun opens => dollar opens.1⟩

theorem readBody_mark (mark : Char) (rest : List Char) :
    readBody ('\\' :: mark :: rest) = (readBody rest).map (prepend (unescape mark)) := by
  rw [readBody]

theorem readBody_plain {c : Char} {rest : List Char} (quote : c ≠ '"') (backslash : c ≠ '\\')
    (closed : ¬ (c = '$' ∧ rest.head? = some '{')) :
    readBody (c :: rest) = (readBody rest).map (prepend c) := by
  rw [readBody]
  · exact quote
  · rintro other tail rfl
    exact absurd rfl backslash
  · rintro tail rfl rfl
    exact closed ⟨rfl, rfl⟩

/-- What is written next starts with a brace only if the text does. -/
theorem head_escape (value rest : List Char) :
    (escape value ++ '"' :: rest).head? = some '{' ↔ value.head? = some '{' := by
  cases value with
  | nil => simp [escape]
  | cons c tail =>
      rcases escapeChar_cases tail.head? c with ⟨mark, written, own⟩ | ⟨written, _⟩
      · have other : c ≠ '{' := by
          rintro rfl
          simp [escapeChar] at written
        simp [escape, written, other]
      · simp [escape, written]

/-- Every text is read back from its literal, whatever stands behind it. -/
theorem readBody_escape (value rest : List Char) :
    readBody (escape value ++ '"' :: rest) = .ok (value, rest) := by
  induction value with
  | nil => rfl
  | cons c tail ih =>
      rw [escape, List.append_assoc]
      rcases escapeChar_cases tail.head? c with ⟨mark, written, own⟩ | ⟨written, quote, slash, closed⟩
      · rw [written, List.cons_append, List.cons_append, List.nil_append, readBody_mark, ih, own]
        rfl
      · rw [written, List.singleton_append, readBody_plain quote slash, ih]
        · rfl
        · rw [head_escape]
          exact closed

theorem readLiteral_quoted (value rest : List Char) :
    readLiteral (quoted value ++ rest) = .ok (value, rest) := by
  have whole : quoted value ++ rest = '"' :: (escape value ++ '"' :: rest) := by
    simp [quoted]
  rw [whole]
  exact readBody_escape value rest

/-- A literal in any text is read as one literal without interpolation, for the value it has
been written for. -/
theorem readLiteral_nixStringLiteral (value rest : List Char) :
    readLiteral (nixStringLiteral value ++ rest) = .ok (value, rest) :=
  readLiteral_quoted value rest

/-- Three texts between others are read at their places. -/
theorem splice_literals (front middle further back one two three : List Char) :
    ∃ first second third,
      front ++ quoted one ++ middle ++ quoted two ++ further ++ quoted three ++ back =
        front ++ first ∧
      readLiteral first = .ok (one, middle ++ second) ∧
      readLiteral second = .ok (two, further ++ third) ∧
      readLiteral third = .ok (three, back) := by
  refine ⟨quoted one ++ (middle ++ (quoted two ++ (further ++ (quoted three ++ back)))),
    quoted two ++ (further ++ (quoted three ++ back)), quoted three ++ back, ?_,
    readLiteral_quoted one _, readLiteral_quoted two _, readLiteral_quoted three _⟩
  simp only [List.append_assoc]

/-- The expression of the rebuild has its three texts as literals at their places. -/
theorem nativeExpression_literals (source configJson manifestJson : List Char) :
    ∃ first second third,
      nativeExpression source configJson manifestJson =
        "((import (builtins.toPath ".toList ++ first ∧
      readLiteral first = .ok (source, ")) \x7b config = builtins.fromJSON ".toList ++ second) ∧
      readLiteral second =
        .ok (configJson, "; currentManifest = builtins.fromJSON ".toList ++ third) ∧
      readLiteral third = .ok (manifestJson, "; \x7d).drvPath".toList) :=
  splice_literals _ _ _ _ source configJson manifestJson

end NixRedox.NixStrings
