import NixRedox.Bytes

set_option autoImplicit false

/- The order of texts by their bytes is the order by their code points. Nothing here knows
whose texts they are. -/
namespace NixRedox.Utf8Order

open Bytes (utf8)

/-- Two byte strings differ at some place, and there the first one is lower. -/
def Below (one two : List UInt8) : Prop :=
  ∃ front low high rest more, one = front ++ low :: rest ∧ two = front ++ high :: more ∧ low < high

theorem Below.append {one two : List UInt8} (below : Below one two) (left right : List UInt8) :
    one ++ left < two ++ right := by
  obtain ⟨front, low, high, rest, more, rfl, rfl, less⟩ := below
  rw [List.append_assoc, List.append_assoc]
  apply List.append_left_lt
  exact List.cons_lt_cons_iff.mpr (.inl less)

theorem below_first {low high : UInt8} (less : low < high) (rest more : List UInt8) :
    Below (low :: rest) (high :: more) :=
  ⟨[], low, high, rest, more, rfl, rfl, less⟩

theorem below_cons {one two : List UInt8} (byte : UInt8) (below : Below one two) :
    Below (byte :: one) (byte :: two) := by
  obtain ⟨front, low, high, rest, more, rfl, rfl, less⟩ := below
  exact ⟨byte :: front, low, high, rest, more, rfl, rfl, less⟩

/-- The same of numbers. -/
def Lower : List Nat → List Nat → Prop
  | low :: rest, high :: more => low < high ∨ (low = high ∧ Lower rest more)
  | _, _ => False

theorem ofNat_lt {low high : Nat} (less : low < high) (byte : high < 256) :
    UInt8.ofNat low < UInt8.ofNat high := by
  apply UInt8.lt_iff_toNat_lt.mpr
  rw [UInt8.toNat_ofNat', UInt8.toNat_ofNat']
  omega

theorem below_map {one two : List Nat} (bytes : ∀ number ∈ two, number < 256)
    (lower : Lower one two) : Below (one.map UInt8.ofNat) (two.map UInt8.ofNat) := by
  induction one generalizing two with
  | nil => exact lower.elim
  | cons low rest ih =>
      cases two with
      | nil => exact lower.elim
      | cons high more =>
          rcases lower with less | ⟨rfl, later⟩
          · exact below_first (ofNat_lt less (bytes high List.mem_cons_self)) _ _
          · exact below_cons _ (ih (fun number inside =>
              bytes number (List.mem_cons_of_mem _ inside)) later)

/-- The bytes of a character with such a code point. -/
def charBytes (code : Nat) : List Nat :=
  if code ≤ 0x7F then
    [code]
  else if code ≤ 0x7FF then
    [code / 64 % 0x20 + 0xC0, code % 0x40 + 0x80]
  else if code ≤ 0xFFFF then
    [code / 4096 % 0x10 + 0xE0, code / 64 % 0x40 + 0x80, code % 0x40 + 0x80]
  else
    [code / 262144 % 0x08 + 0xF0, code / 4096 % 0x40 + 0x80, code / 64 % 0x40 + 0x80,
      code % 0x40 + 0x80]

theorem utf8EncodeChar_eq (c : Char) :
    String.utf8EncodeChar c = (charBytes c.toNat).map UInt8.ofNat := by
  unfold String.utf8EncodeChar charBytes
  dsimp only [Char.toNat]
  split
  · rfl
  · split
    · rfl
    · split <;> rfl

theorem charBytes_lt {code : Nat} : ∀ number ∈ charBytes code, number < 256 := by
  unfold charBytes
  split
  · simp only [List.mem_singleton, forall_eq]
    omega
  · split
    · simp only [List.mem_cons, List.not_mem_nil, or_false, forall_eq_or_imp, forall_eq]
      omega
    · split <;>
        (simp only [List.mem_cons, List.not_mem_nil, or_false, forall_eq_or_imp, forall_eq]
         omega)

/-- Longer encodings start with higher bytes, and those of one length are compared number by
number. -/
theorem charBytes_lower {one two : Nat} (less : one < two) (code : two < 0x110000) :
    Lower (charBytes one) (charBytes two) := by
  have middle (value : Nat) : value / 4096 = value / 64 / 64 := by
    rw [Nat.div_div_eq_div_mul]
  have upper (value : Nat) : value / 262144 = value / 64 / 64 / 64 := by
    rw [Nat.div_div_eq_div_mul, Nat.div_div_eq_div_mul]
  unfold charBytes
  simp only [middle, upper]
  split
  · split
    · exact .inl less
    · split
      · simp only [Lower]
        omega
      · split <;>
          (simp only [Lower]
           omega)
  · split
    · split
      · omega
      · split
        · simp only [Lower]
          omega
        · split <;>
            (simp only [Lower]
             omega)
    · split
      · split
        · omega
        · split
          · omega
          · split <;>
              (simp only [Lower]
               omega)
      · split
        · omega
        · split
          · omega
          · split
            · omega
            · simp only [Lower]
              omega

theorem toNat_lt (c : Char) : c.toNat < 0x110000 := by
  rcases c.valid with low | high
  · exact Nat.lt_trans low (by decide)
  · exact high.2

theorem below_utf8EncodeChar {one two : Char} (less : one < two) :
    Below (String.utf8EncodeChar one) (String.utf8EncodeChar two) := by
  rw [utf8EncodeChar_eq, utf8EncodeChar_eq]
  apply below_map charBytes_lt
  exact charBytes_lower less (toNat_lt two)

theorem utf8_cons (c : Char) (text : List Char) :
    utf8 (c :: text) = String.utf8EncodeChar c ++ utf8 text := rfl

theorem utf8_lt_of_lt {one two : List Char} (less : one < two) : utf8 one < utf8 two := by
  induction one generalizing two with
  | nil =>
      cases two with
      | nil => exact absurd less (List.lt_irrefl [])
      | cons c text =>
          rw [utf8_cons]
          cases bytes : String.utf8EncodeChar c with
          | nil => exact absurd bytes String.utf8EncodeChar_ne_nil
          | cons byte rest => exact List.nil_lt_cons byte _
  | cons c text ih =>
      cases two with
      | nil => exact absurd less (List.not_lt_nil _)
      | cons d other =>
          rw [utf8_cons, utf8_cons]
          rcases List.cons_lt_cons_iff.mp less with first | ⟨rfl, later⟩
          · exact (below_utf8EncodeChar first).append _ _
          · exact List.append_left_lt (ih later)

/-- Texts are ordered by their bytes as by their code points. -/
theorem utf8_lt_iff {one two : List Char} : utf8 one < utf8 two ↔ one < two := by
  constructor
  · intro less
    rcases lt_trichotomy one two with below | same | above
    · exact below
    · subst same
      exact absurd less (List.lt_irrefl _)
    · exact absurd less (List.lt_asymm (utf8_lt_of_lt above))
  · exact utf8_lt_of_lt

end NixRedox.Utf8Order
