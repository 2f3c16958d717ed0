import NixRedox.NixStrings

set_option autoImplicit false

/- What `snix eval` prints of a value, in the raw form and in the other. -/
namespace NixRedox.EvalOutput

open NixStrings (displayString escape escapeChar escapeChar_cases quoted)

section Printing

/-- `str::replace` of a pattern of two characters. -/
def replacePair (first second replacement : Char) : List Char → List Char
  | c :: next :: rest =>
      if c = first ∧ next = second then
        replacement :: replacePair first second replacement rest
      else
        c :: replacePair first second replacement (next :: rest)
  | short => short

/-- The text between the quotes of a display, with its escapes taken back one after the
other. -/
def unescapeInner (inner : List Char) : List Char :=
  replacePair '\\' 't' '\t' (replacePair '\\' 'n' '\n' (replacePair '\\' '\\' '\\'
    (replacePair '\\' '"' '"' inner)))

/-- What `run` prints of the display of a value. -/
def printed (raw : Bool) (shown : List Char) : List Char :=
  if raw then
    if shown.head? = some '"' ∧ shown.getLast? = some '"' ∧ 2 ≤ shown.length then
      unescapeInner shown.tail.dropLast
    else
      shown
  else
    shown ++ ['\n']

/-- What the raw form of a text shows instead of it: a backslash with a letter behind it has
become the character of that escape, two other escapes have stayed. -/
def rawText : List Char → List Char
  | [] => []
  | '\r' :: rest => '\\' :: 'r' :: rawText rest
  | '$' :: '{' :: rest => '\\' :: '$' :: '{' :: rawText rest
  | '\\' :: 'n' :: rest => '\n' :: rawText rest
  | '\\' :: 't' :: rest => '\t' :: rawText rest
  | c :: rest => c :: rawText rest

end Printing

section Stages

variable {second replacement : Char}

theorem replacePair_pair (rest : List Char) :
    replacePair '\\' second replacement ('\\' :: second :: rest) =
      replacement :: replacePair '\\' second replacement rest := by
  rw [replacePair, if_pos ⟨rfl, rfl⟩]

theorem replacePair_cons {c : Char} {rest : List Char}
    (apart : ¬ (c = '\\' ∧ rest.head? = some second)) :
    replacePair '\\' second replacement (c :: rest) =
      c :: replacePair '\\' second replacement rest := by
  cases rest with
  | nil => rfl
  | cons next tail =>
      rw [replacePair, if_neg]
      rintro ⟨rfl, rfl⟩
      exact apart ⟨rfl, rfl⟩

theorem replacePair_plain {c : Char} (plain : c ≠ '\\') (rest : List Char) :
    replacePair '\\' second replacement (c :: rest) =
      c :: replacePair '\\' second replacement rest :=
  replacePair_cons (fun both => plain both.1)

theorem replacePair_slash {rest : List Char} (apart : rest.head? ≠ some second) :
    replacePair '\\' second replacement ('\\' :: rest) =
      '\\' :: replacePair '\\' second replacement rest :=
  replacePair_cons (fun both => apart both.2)

/-- A letter stands at the head after a replacement if and only if it did before. -/
theorem head_replacePair {letter : Char} (plain : letter ≠ '\\') (other : letter ≠ replacement)
    (text : List Char) :
    (replacePair '\\' second replacement text).head? = some letter ↔
      text.head? = some letter := by
  cases text with
  | nil => rfl
  | cons c rest =>
      by_cases pair : c = '\\' ∧ rest.head? = some second
      · obtain ⟨rfl, starts⟩ := pair
        obtain ⟨tail, rfl⟩ := List.head?_eq_some_iff.mp starts
        rw [replacePair_pair]
        simp [Ne.symm plain, Ne.symm other]
      · rw [replacePair_cons pair]
        rfl

/-- No quote stands at the head of what has been written for a text. -/
theorem escape_head_quote (text : List Char) : (escape text).head? ≠ some '"' := by
  cases text with
  | nil => simp [escape]
  | cons c rest =>
      rw [escape]
      rcases escapeChar_cases rest.head? c with ⟨mark, written, _⟩ | ⟨written, quote, _⟩
      · simp [written]
      · simpa [written] using quote

theorem escape_head_letter {letter : Char} (plain : ∀ next, escapeChar next letter = [letter])
    (other : letter ≠ '\\') (text : List Char) :
    (escape text).head? = some letter ↔ text.head? = some letter := by
  cases text with
  | nil => rfl
  | cons c rest =>
      rw [escape]
      rcases escapeChar_cases rest.head? c with ⟨mark, written, _⟩ | ⟨written, _⟩
      · have differs : c ≠ letter := by
          rintro rfl
          simp [plain] at written
        simp [written, differs, Ne.symm other]
      · simp [written]

end Stages

section Inner

/-- The text before the replacement of `\n`. -/
def afterTwo (inner : List Char) : List Char :=
  replacePair '\\' '\\' '\\' (replacePair '\\' '"' '"' inner)

theorem afterTwo_plain {c : Char} (plain : c ≠ '\\') (rest : List Char) :
    afterTwo (c :: rest) = c :: afterTwo rest := by
  rw [afterTwo, replacePair_plain plain, replacePair_plain plain, ← afterTwo]

theorem afterTwo_mark {mark : Char} (quote : mark ≠ '"') (slash : mark ≠ '\\')
    (rest : List Char) : afterTwo ('\\' :: mark :: rest) = '\\' :: mark :: afterTwo rest := by
  have head : (mark :: rest).head? ≠ some '"' := by simpa using quote
  rw [afterTwo, replacePair_slash head, replacePair_plain slash, replacePair_slash (by simpa),
    replacePair_plain slash, ← afterTwo]

theorem afterTwo_quote (rest : List Char) :
    afterTwo ('\\' :: '"' :: rest) = '"' :: afterTwo rest := by
  rw [afterTwo, replacePair_pair, replacePair_plain (by decide), ← afterTwo]

theorem afterTwo_slash {rest : List Char} (quote : rest.head? ≠ some '"') :
    afterTwo ('\\' :: '\\' :: rest) = '\\' :: afterTwo rest := by
  rw [afterTwo, replacePair_slash (by simp), replacePair_slash quote, replacePair_pair,
    ← afterTwo]

theorem head_afterTwo {letter : Char} (slash : letter ≠ '\\') (quote : letter ≠ '"')
    (text : List Char) : (afterTwo text).head? = some letter ↔ text.head? = some letter := by
  rw [afterTwo, head_replacePair slash slash, head_replacePair slash quote]

/-- What the last two replacements leave of a text of which the first two are done. -/
def lastTwo (text : List Char) : List Char :=
  replacePair '\\' 't' '\t' (replacePair '\\' 'n' '\n' text)

theorem lastTwo_plain {c : Char} (plain : c ≠ '\\') (rest : List Char) :
    lastTwo (c :: rest) = c :: lastTwo rest := by
  rw [lastTwo, replacePair_plain plain, replacePair_plain plain, ← lastTwo]

theorem lastTwo_newline (rest : List Char) :
    lastTwo ('\\' :: 'n' :: rest) = '\n' :: lastTwo rest := by
  rw [lastTwo, replacePair_pair, replacePair_plain (by decide), ← lastTwo]

theorem lastTwo_tab (rest : List Char) :
    lastTwo ('\\' :: 't' :: rest) = '\t' :: lastTwo rest := by
  have other : ('t' :: rest).head? ≠ some 'n' := by simp
  have letter : replacePair '\\' 'n' '\n' ('t' :: rest) =
      't' :: replacePair '\\' 'n' '\n' rest := replacePair_plain (by decide) rest
  rw [lastTwo, replacePair_slash other, letter, replacePair_pair, ← lastTwo]

theorem lastTwo_slash {rest : List Char} (newline : rest.head? ≠ some 'n')
    (tab : rest.head? ≠ some 't') : lastTwo ('\\' :: rest) = '\\' :: lastTwo rest := by
  rw [lastTwo, replacePair_slash newline, replacePair_slash, ← lastTwo]
  rwa [Ne, head_replacePair (by decide) (by decide)]

end Inner

section Raw

theorem unescapeInner_eq (inner : List Char) :
    unescapeInner inner = lastTwo (afterTwo inner) := rfl

/-- The replacements reach a character that is written as it is only together with a backslash
in front of it. -/
theorem unescapeInner_plain {c : Char} (plain : c ≠ '\\') (rest : List Char) :
    unescapeInner (c :: rest) = c :: unescapeInner rest := by
  rw [unescapeInner_eq, afterTwo_plain plain, lastTwo_plain plain, ← unescapeInner_eq]

theorem unescapeInner_kept {mark : Char} (quote : mark ≠ '"') (slash : mark ≠ '\\')
    (newline : mark ≠ 'n') (tab : mark ≠ 't') (rest : List Char) :
    unescapeInner ('\\' :: mark :: rest) = '\\' :: mark :: unescapeInner rest := by
  rw [unescapeInner_eq, afterTwo_mark quote slash, lastTwo_slash (by simpa) (by simpa),
    lastTwo_plain slash, ← unescapeInner_eq]

theorem unescapeInner_escapedSlash {rest : List Char} (quote : rest.head? ≠ some '"')
    (newline : rest.head? ≠ some 'n') (tab : rest.head? ≠ some 't') :
    unescapeInner ('\\' :: '\\' :: rest) = '\\' :: unescapeInner rest := by
  rw [unescapeInner_eq, afterTwo_slash quote, lastTwo_slash, ← unescapeInner_eq]
  · rwa [Ne, head_afterTwo (by decide) (by decide)]
  · rwa [Ne, head_afterTwo (by decide) (by decide)]

/-- The two letters that the last replacements look for, behind an escaped backslash. -/
theorem unescapeInner_letter {letter : Char} (plain : letter ≠ '\\') (quote : letter ≠ '"')
    (rest : List Char) :
    unescapeInner ('\\' :: '\\' :: letter :: rest) =
      lastTwo ('\\' :: letter :: afterTwo rest) := by
  rw [unescapeInner_eq, afterTwo_slash (by simpa), afterTwo_plain plain]

/-- The four replacements, on the text between the quotes of a display. -/
theorem unescapeInner_escape (value : List Char) :
    unescapeInner (escape value) = rawText value := by
  fun_induction rawText value with
  | case1 => rfl
  | case2 rest ih =>
      change unescapeInner ('\\' :: 'r' :: escape rest) = _
      rw [unescapeInner_kept (by decide) (by decide) (by decide) (by decide), ih]
  | case3 rest ih =>
      change unescapeInner ('\\' :: '$' :: '{' :: escape rest) = _
      rw [unescapeInner_kept (by decide) (by decide) (by decide) (by decide),
        unescapeInner_plain (by decide), ih]
  | case4 rest ih =>
      change unescapeInner ('\\' :: '\\' :: 'n' :: escape rest) = _
      rw [unescapeInner_letter (by decide) (by decide), lastTwo_newline, ← unescapeInner_eq, ih]
  | case5 rest ih =>
      change unescapeInner ('\\' :: '\\' :: 't' :: escape rest) = _
      rw [unescapeInner_letter (by decide) (by decide), lastTwo_tab, ← unescapeInner_eq, ih]
  | case6 c rest carriage dollar newline tab ih =>
      have quote : (escape rest).head? ≠ some '"' := escape_head_quote rest
      have before {letter : Char} (plain : ∀ next, escapeChar next letter = [letter])
          (other : letter ≠ '\\') (absent : ∀ tail, rest ≠ letter :: tail) :
          (escape rest).head? ≠ some letter := by
        rw [Ne, escape_head_letter plain other, List.head?_eq_some_iff]
        rintro ⟨tail, starts⟩
        exact absent tail starts
      rw [escape]
      unfold escapeChar
      split
      · have noNewline := before (fun _ => rfl) (by decide) (newline · rfl)
        have noTab := before (fun _ => rfl) (by decide) (tab · rfl)
        exact (unescapeInner_escapedSlash quote noNewline noTab).trans (congrArg _ ih)
      · rw [List.cons_append, List.singleton_append, unescapeInner_eq, afterTwo_quote,
          lastTwo_plain (by decide), ← unescapeInner_eq, ih]
      · rw [List.cons_append, List.singleton_append, unescapeInner_eq,
          afterTwo_mark (by decide) (by decide), lastTwo_newline, ← unescapeInner_eq, ih]
      · exact absurd rfl carriage
      · rw [List.cons_append, List.singleton_append, unescapeInner_eq,
          afterTwo_mark (by decide) (by decide), lastTwo_tab, ← unescapeInner_eq, ih]
      · split
        · rename_i opens
          obtain ⟨tail, starts⟩ := List.head?_eq_some_iff.mp opens
          exact absurd starts (dollar tail rfl)
        · rw [List.singleton_append, unescapeInner_plain (by decide), ih]
      · rename_i slash _ _ _ _ _
        rw [List.singleton_append, unescapeInner_plain slash, ih]

/-- Between its quotes a display is cut and taken back; nothing else of it is looked at. -/
theorem printed_raw (value : List Char) : printed true (displayString value) = rawText value := by
  have shape : displayString value = '"' :: escape value ++ ['"'] := rfl
  have closes : (displayString value).getLast? = some '"' := by
    rw [shape, List.getLast?_concat]
  have long : 2 ≤ (displayString value).length := by simp [shape]
  rw [printed, if_pos rfl, if_pos ⟨rfl, closes, long⟩, shape, List.cons_append, List.tail_cons,
    List.dropLast_concat, unescapeInner_escape]

theorem rawText_eq_iff (value : List Char) :
    rawText value = value ↔
      '\r' ∉ value ∧ ¬ ['$', '{'] <:+: value ∧ ¬ ['\\', 'n'] <:+: value ∧
        ¬ ['\\', 't'] <:+: value := by
  fun_induction rawText value with
  | case1 => simp
  | case2 rest ih => simp
  | case3 rest ih => simp [List.infix_cons_iff]
  | case4 rest ih => simp [List.infix_cons_iff]
  | case5 rest ih => simp [List.infix_cons_iff]
  | case6 c rest carriage dollar newline tab ih =>
      have apart {first second : Char}
          (absent : ∀ tail, c = first → rest = second :: tail → False) :
          ¬ [first, second] <+: c :: rest := by
        rintro ⟨tail, whole⟩
        obtain ⟨same, behind⟩ := List.cons.inj whole
        exact absent tail same.symm behind.symm
      have other : '\r' ≠ c := fun same => carriage same.symm
      rw [List.cons.injEq, ih]
      simp only [List.mem_cons, List.infix_cons_iff, apart dollar, apart newline, apart tab, other,
        false_or, true_and]

/-- `snix eval --raw` prints a string as it is if and only if there is no carriage return and
no `${` in it, and no backslash stands directly before an `n` or a `t`. -/
theorem printed_displayString_iff (value : List Char) :
    printed true (displayString value) = value ↔
      '\r' ∉ value ∧ ¬ ['$', '{'] <:+: value ∧ ¬ ['\\', 'n'] <:+: value ∧
        ¬ ['\\', 't'] <:+: value := by
  rw [printed_raw, rawText_eq_iff]

/-- The text `C:\new`, in which the raw form has a line break. -/
theorem windows_path_broken :
    printed true (displayString "C:\\new".toList) = "C:\new".toList ∧
      "C:\new".toList ≠ "C:\\new".toList := by
  decide

end Raw

end NixRedox.EvalOutput
