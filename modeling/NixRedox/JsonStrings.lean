import NixRedox.BasicStrings

set_option autoImplicit false

/- The strings of JSON: which texts denote which strings, and a reader. Nothing here knows what
is in them. -/
namespace NixRedox.JsonStrings

open BasicStrings (codeChar hexNumber prepend)

section Grammar

/-- The character a mark behind a backslash stands for. -/
def unescape : Char → Option Char
  | '/' => some '/'
  | mark => BasicStrings.unescape mark

/-- The character of two surrogates. -/
def pairChar (high low : List Char) : Option Char :=
  (hexNumber high).bind fun first => (hexNumber low).bind fun second =>
    if 0xD800 ≤ first ∧ first ≤ 0xDBFF ∧ 0xDC00 ≤ second ∧ second ≤ 0xDFFF then
      some (Char.ofNat ((first - 0xD800) * 0x400 + (second - 0xDC00) + 0x10000))
    else
      none

/-- The ways to write a character. -/
inductive Spelled : Char → List Char → Prop where
  | plain {own : Char} (quote : own ≠ '"') (backslash : own ≠ '\\') (printable : ¬ own < ' ') :
      Spelled own [own]
  | marked {mark own : Char} (known : unescape mark = some own) : Spelled own ['\\', mark]
  | coded {a b c d own : Char} (known : codeChar [a, b, c, d] = some own) :
      Spelled own ['\\', 'u', a, b, c, d]
  | paired {a b c d e f g h own : Char} (known : pairChar [a, b, c, d] [e, f, g, h] = some own) :
      Spelled own ['\\', 'u', a, b, c, d, '\\', 'u', e, f, g, h]

/-- What stands between the quotes, and the string. -/
inductive Chars : List Char → List Char → Prop where
  | nil : Chars [] []
  | cons {own : Char} {written text value : List Char} (spelled : Spelled own written)
      (rest : Chars text value) : Chars (written ++ text) (own :: value)

theorem chars_marked {mark : Char} (other : mark ≠ 'u') {text value : List Char} :
    Chars ('\\' :: mark :: text) value ↔
      ∃ own others, unescape mark = some own ∧ value = own :: others ∧ Chars text others := by
  constructor
  · intro chars
    generalize whole : '\\' :: mark :: text = body at chars
    cases chars with
    | nil => cases whole
    | cons spelled rest =>
        cases spelled with
        | plain _ backslash _ => exact absurd (List.cons.inj whole).1.symm backslash
        | marked known =>
            cases whole
            exact ⟨_, _, known, rfl, rest⟩
        | coded known => exact absurd (List.cons.inj (List.cons.inj whole).2).1 other
        | paired known => exact absurd (List.cons.inj (List.cons.inj whole).2).1 other
  · rintro ⟨own, others, known, rfl, rest⟩
    exact .cons (.marked known) rest

theorem chars_plain {c : Char} (backslash : c ≠ '\\') {text value : List Char} :
    Chars (c :: text) value ↔
      c ≠ '"' ∧ ¬ c < ' ' ∧ ∃ others, value = c :: others ∧ Chars text others := by
  constructor
  · intro chars
    generalize whole : c :: text = body at chars
    cases chars with
    | nil => cases whole
    | cons spelled rest =>
        cases spelled with
        | plain quote _ printable =>
            cases whole
            exact ⟨quote, printable, _, rfl, rest⟩
        | marked => exact absurd (List.cons.inj whole).1 backslash
        | coded => exact absurd (List.cons.inj whole).1 backslash
        | paired => exact absurd (List.cons.inj whole).1 backslash
  · rintro ⟨quote, printable, others, rfl, rest⟩
    exact .cons (.plain quote backslash printable) rest

def isSpace (c : Char) : Bool := c = ' ' ∨ c = '\n' ∨ c = '\t' ∨ c = '\r'

/-- A text is a string with nothing but space around it. -/
def Denotes (text value : List Char) : Prop :=
  ∃ before body after, text = before ++ '"' :: (body ++ '"' :: after) ∧
    before.all isSpace ∧ after.all isSpace ∧ Chars body value

/-- Between its quotes, a text is what stands there. -/
theorem denotes_quoted {body value : List Char} :
    Denotes ('"' :: (body ++ ['"'])) value ↔ Chars body value := by
  constructor
  · rintro ⟨before, own, after, whole, front, back, chars⟩
    have noFront : before = [] := by
      cases before with
      | nil => rfl
      | cons c rest =>
          have space : isSpace c := (List.all_eq_true.mp front) c List.mem_cons_self
          rw [← (List.cons.inj whole).1] at space
          exact absurd space (by decide)
    subst noFront
    have bodies := (List.cons.inj whole).2
    rcases List.eq_nil_or_concat after with rfl | ⟨rest, last, rfl⟩
    · rwa [(List.append_inj_left' bodies rfl)]
    · have lasts : body ++ ['"'] = (own ++ '"' :: rest) ++ [last] := by
        rw [bodies, List.concat_eq_append, List.append_assoc, List.cons_append]
      have ends : '"' = last := List.singleton_injective (List.append_inj_right' lasts rfl)
      have space : isSpace last := (List.all_eq_true.mp back) last (by simp)
      rw [← ends] at space
      exact absurd space (by decide)
  · intro chars
    exact ⟨[], body, [], rfl, rfl, rfl, chars⟩

/-- `serde_json::from_str::<String>`, with its errors as they are displayed. -/
structure StringReader where
  fromStr : List Char → Except String (List Char)
  reads : ∀ text value, fromStr text = .ok value ↔ Denotes text value

end Grammar

section Reading

/-- The string up to the closing quote and what is behind it. -/
def readChars : List Char → Option (List Char × List Char)
  | [] => none
  | '"' :: rest => some ([], rest)
  | '\\' :: 'u' :: a :: b :: c :: d :: rest =>
      match codeChar [a, b, c, d] with
      | some own => (readChars rest).map (prepend own)
      | none =>
          match rest with
          | '\\' :: 'u' :: e :: f :: g :: h :: rest =>
              (pairChar [a, b, c, d] [e, f, g, h]).bind fun own =>
                (readChars rest).map (prepend own)
          | _ => none
  | '\\' :: mark :: rest => (unescape mark).bind fun own => (readChars rest).map (prepend own)
  | own :: rest => if own < ' ' then none else (readChars rest).map (prepend own)

theorem codeChar_of_pairChar {high low : List Char} {own : Char}
    (known : pairChar high low = some own) : codeChar high = none := by
  obtain ⟨first, number, known⟩ := Option.bind_eq_some_iff.mp known
  obtain ⟨second, _, known⟩ := Option.bind_eq_some_iff.mp known
  split at known
  · rename_i surrogates
    have invalid : ¬ first.isValidChar := by
      unfold Nat.isValidChar
      omega
    rw [codeChar, number, Option.bind_some, if_neg invalid]
  · cases known

theorem readChars_coded {a b c d own : Char} (known : codeChar [a, b, c, d] = some own)
    (rest : List Char) :
    readChars ('\\' :: 'u' :: a :: b :: c :: d :: rest) = (readChars rest).map (prepend own) := by
  rw [readChars.eq_def]
  simp only [known]

theorem readChars_spelled {own : Char} {written rest : List Char}
    (spelled : Spelled own written) :
    readChars (written ++ rest) = (readChars rest).map (prepend own) := by
  cases spelled with
  | plain quote backslash printable =>
      rw [List.singleton_append, readChars, if_neg printable]
      · exact fun same => quote same
      all_goals
        intros
        contradiction
  | @marked mark _ known =>
      have other : mark ≠ 'u' := by
        rintro rfl
        cases known
      rw [List.cons_append, List.singleton_append, readChars, known, Option.bind_some]
      exact fun _ _ _ _ _ same => absurd same other
  | coded known =>
      simp only [List.cons_append, List.nil_append]
      exact readChars_coded known rest
  | paired known =>
      simp only [List.cons_append, List.nil_append]
      rw [readChars, codeChar_of_pairChar known]
      dsimp only
      rw [known, Option.bind_some]

theorem readChars_of_chars {body value : List Char} (chars : Chars body value)
    (rest : List Char) : readChars (body ++ '"' :: rest) = some (value, rest) := by
  induction chars with
  | nil => rw [List.nil_append, readChars]
  | cons spelled _ ih =>
      rw [List.append_assoc, readChars_spelled spelled, ih]
      rfl

theorem of_prepend {own : Char} {text value rest : List Char}
    (done : (readChars text).map (prepend own) = some (value, rest)) :
    ∃ others, value = own :: others ∧ readChars text = some (others, rest) := by
  obtain ⟨⟨others, behind⟩, later, same⟩ := Option.map_eq_some_iff.mp done
  cases same
  exact ⟨others, rfl, later⟩

/-- What is read stands before a quote. -/
def Closed (text value rest : List Char) : Prop :=
  ∃ body, text = body ++ '"' :: rest ∧ Chars body value

theorem Closed.cons {own : Char} {written text value rest : List Char}
    (spelled : Spelled own written) (closed : Closed text value rest) :
    Closed (written ++ text) (own :: value) rest := by
  obtain ⟨body, rfl, chars⟩ := closed
  exact ⟨written ++ body, by rw [List.append_assoc], .cons spelled chars⟩

theorem closed_of_readChars {text value rest : List Char}
    (done : readChars text = some (value, rest)) : Closed text value rest := by
  induction text using readChars.induct generalizing value with
  | case1 => cases done
  | case2 behind =>
      cases done
      exact ⟨[], rfl, .nil⟩
  | case3 a b c d behind own known ih =>
      rw [readChars_coded known] at done
      obtain ⟨others, rfl, later⟩ := of_prepend done
      exact (ih later).cons (.coded known)
  | case4 a b c d unknown e f g h behind ih =>
      rw [readChars, unknown] at done
      obtain ⟨own, known, read⟩ := Option.bind_eq_some_iff.mp done
      obtain ⟨others, rfl, later⟩ := of_prepend read
      exact (ih later).cons (.paired known)
  | case5 a b c d behind unknown single =>
      rw [readChars.eq_def] at done
      simp only [unknown] at done
      cases done
  | case6 mark behind other ih =>
      rw [readChars] at done
      · obtain ⟨own, known, read⟩ := Option.bind_eq_some_iff.mp done
        obtain ⟨others, rfl, later⟩ := of_prepend read
        exact (ih later).cons (.marked known)
      · exact other
  | case7 own behind quote coded marked control =>
      rw [readChars, if_pos control] at done
      · cases done
      · exact quote
      · exact coded
      · exact marked
  | case8 own behind quote coded marked printable ih =>
      rw [readChars, if_neg printable] at done
      · obtain ⟨others, rfl, later⟩ := of_prepend done
        -- nothing is read behind a backslash at the end
        have backslash : own ≠ '\\' := by
          intro same
          cases behind with
          | nil => cases later
          | cons mark rest => exact marked mark rest same rfl
        exact (ih later).cons (.plain quote backslash printable)
      · exact quote
      · exact coded
      · exact marked

def fromStr (text : List Char) : Option (List Char) :=
  match text.dropWhile isSpace with
  | '"' :: rest =>
      (readChars rest).bind fun read => if read.2.all isSpace then some read.1 else none
  | _ => none

theorem fromStr_eq_some {text value : List Char} :
    fromStr text = some value ↔ Denotes text value := by
  constructor
  · intro read
    unfold fromStr at read
    split at read
    · rename_i rest opened
      obtain ⟨⟨own, after⟩, chars, read⟩ := Option.bind_eq_some_iff.mp read
      split at read
      · rename_i space
        cases read
        obtain ⟨body, same, chars⟩ := closed_of_readChars chars
        refine ⟨text.takeWhile isSpace, body, after, ?_, List.all_takeWhile, space, chars⟩
        rw [← same, ← opened, List.takeWhile_append_dropWhile]
      · cases read
    · cases read
  · rintro ⟨before, body, after, rfl, space, behind, chars⟩
    have opened : (before ++ '"' :: (body ++ '"' :: after)).dropWhile isSpace =
        '"' :: (body ++ '"' :: after) := by
      rw [List.dropWhile_append_of_pos (by simpa using space),
        List.dropWhile_cons_of_neg (by decide)]
    rw [fromStr, opened]
    show (readChars (body ++ '"' :: after)).bind _ = some value
    rw [readChars_of_chars chars, Option.bind_some, if_pos behind]

/-- The reader itself. -/
def reader : StringReader where
  fromStr text :=
    match fromStr text with
    | some value => .ok value
    | none => .error "not a string"
  reads text value := by
    rw [← fromStr_eq_some]
    cases fromStr text with
    | none => simp
    | some own => simp

end Reading

end NixRedox.JsonStrings
