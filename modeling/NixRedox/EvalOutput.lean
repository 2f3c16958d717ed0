import NixRedox.JsonStrings
import NixRedox.NixStrings

set_option autoImplicit false

/- `decode_eval_json_string`: the display of a Nix string, read as a JSON string. -/
namespace NixRedox.EvalOutput

open JsonStrings (Chars StringReader chars_marked chars_plain denotes_quoted unescape)
open NixStrings (displayString escape escapeChar)

def decodeEvalJsonString (json : StringReader) (repr : List Char) : Except String (List Char) :=
  if repr.head? = some '"' ∧ repr.getLast? = some '"' then json.fromStr repr else .ok repr

section Display

/-- A text whose display is a JSON string for it. -/
def Decodable (value : List Char) : Prop :=
  ¬ ['$', '{'] <:+: value ∧ ∀ c ∈ value, c < ' ' → c = '\n' ∨ c = '\r' ∨ c = '\t'

theorem decodable_cons {c : Char} {rest : List Char} :
    Decodable (c :: rest) ↔ ¬ (c = '$' ∧ rest.head? = some '{') ∧
      (c < ' ' → c = '\n' ∨ c = '\r' ∨ c = '\t') ∧ Decodable rest := by
  have opens : ['$', '{'] <+: c :: rest ↔ c = '$' ∧ rest.head? = some '{' := by
    cases rest with
    | nil => simp
    | cons next tail => simp [List.cons_prefix_cons, eq_comm]
  unfold Decodable
  rw [List.infix_cons_iff, opens, List.forall_mem_cons]
  tauto

/-- A character becomes an escape that JSON has, or one it does not have, or stays. -/
theorem escapeChar_json (next : Option Char) (c : Char) :
    (∃ mark, escapeChar next c = ['\\', mark] ∧ mark ≠ 'u' ∧ unescape mark = some c ∧ c ≠ '$' ∧
      (c < ' ' → c = '\n' ∨ c = '\r' ∨ c = '\t')) ∨
    (escapeChar next c = ['\\', '$'] ∧ c = '$' ∧ next = some '{') ∨
    (escapeChar next c = [c] ∧ c ≠ '"' ∧ c ≠ '\\' ∧ ¬ (c = '$' ∧ next = some '{') ∧
      ¬ (c = '\n' ∨ c = '\r' ∨ c = '\t')) := by
  unfold escapeChar
  split
  · exact .inl ⟨'\\', rfl, by decide, rfl, by decide, by decide⟩
  · exact .inl ⟨'"', rfl, by decide, rfl, by decide, by decide⟩
  · exact .inl ⟨'n', rfl, by decide, rfl, by decide, fun _ => .inl rfl⟩
  · exact .inl ⟨'r', rfl, by decide, rfl, by decide, fun _ => .inr (.inl rfl)⟩
  · exact .inl ⟨'t', rfl, by decide, rfl, by decide, fun _ => .inr (.inr rfl)⟩
  · split
    · rename_i opens
      exact .inr (.inl ⟨rfl, rfl, opens⟩)
    · rename_i closed
      exact .inr (.inr ⟨rfl, by decide, by decide, fun opens => closed opens.2, by decide⟩)
  · rename_i backslash quote newline return_ tab dollar
    refine .inr (.inr ⟨rfl, quote, backslash, fun opens => dollar opens.1, ?_⟩)
    rintro (same | same | same)
    · exact newline same
    · exact return_ same
    · exact tab same

/-- The escaped text is one that denotes the text, or denotes nothing. -/
theorem chars_escape (value other : List Char) :
    Chars (escape value) other ↔ Decodable value ∧ other = value := by
  induction value generalizing other with
  | nil =>
      constructor
      · intro chars
        generalize whole : escape [] = body at chars
        cases chars with
        | nil => exact ⟨by simp [Decodable], rfl⟩
        | cons spelled rest => cases spelled <;> cases whole
      · rintro ⟨_, rfl⟩
        exact .nil
  | cons c tail ih =>
      rw [escape, decodable_cons]
      rcases escapeChar_json tail.head? c with ⟨mark, written, named, known, plain, control⟩ |
        ⟨written, rfl, opens⟩ | ⟨written, quote, backslash, closed, escaped⟩
      · rw [written, List.cons_append, List.singleton_append, chars_marked named]
        constructor
        · rintro ⟨own, others, found, rfl, rest⟩
          obtain rfl := Option.some.inj (known.symm.trans found)
          obtain ⟨decodable, rfl⟩ := (ih others).mp rest
          exact ⟨⟨fun opens => plain opens.1, control, decodable⟩, rfl⟩
        · rintro ⟨⟨_, _, decodable⟩, rfl⟩
          exact ⟨c, tail, known, rfl, (ih tail).mpr ⟨decodable, rfl⟩⟩
      · rw [written, List.cons_append, List.singleton_append, chars_marked (by decide)]
        constructor
        · rintro ⟨own, others, found, _⟩
          cases found
        · rintro ⟨⟨plain, _⟩, _⟩
          exact absurd ⟨rfl, opens⟩ plain
      · rw [written, List.singleton_append, chars_plain backslash]
        constructor
        · rintro ⟨_, printable, others, rfl, rest⟩
          obtain ⟨decodable, rfl⟩ := (ih others).mp rest
          exact ⟨⟨closed, fun low => absurd low printable, decodable⟩, rfl⟩
        · rintro ⟨⟨_, control, decodable⟩, rfl⟩
          exact ⟨quote, fun low => escaped (control low), tail, rfl,
            (ih tail).mpr ⟨decodable, rfl⟩⟩

/-- The display of a text is decoded to the text if and only if there is no `${` in the
text, and of the control characters only those that the display escapes. -/
theorem decodeEvalJsonString_displayString_iff (json : StringReader) (value : List Char) :
    decodeEvalJsonString json (displayString value) = .ok value ↔
      ¬ ['$', '{'] <:+: value ∧ ∀ c ∈ value, c < ' ' → c = '\n' ∨ c = '\r' ∨ c = '\t' := by
  have text : displayString value = '"' :: (escape value ++ ['"']) := rfl
  have quotes : (displayString value).head? = some '"' ∧
      (displayString value).getLast? = some '"' := by
    rw [text, ← List.cons_append]
    exact ⟨rfl, List.getLast?_concat⟩
  rw [decodeEvalJsonString, if_pos quotes, json.reads, text, denotes_quoted, chars_escape]
  exact and_iff_left rfl

/-- The JSON text of a string with an interpolation in it is refused. -/
theorem dollar_brace_refused :
    ¬ ∀ (json : StringReader) (value : List Char), (∀ c ∈ value, ¬ c < ' ') →
      decodeEvalJsonString json (displayString value) = .ok value := by
  intro always
  have plain : ∀ c ∈ ['"', '$', '{', '"'], ¬ c < ' ' := by
    intro c member
    fin_cases member
    · decide
    · decide
    · decide
    · decide
  have refused : decodeEvalJsonString JsonStrings.reader
      (displayString ['"', '$', '{', '"']) = .error "not a string" := by
    decide
  rw [always _ _ plain] at refused
  cases refused

end Display

end NixRedox.EvalOutput
