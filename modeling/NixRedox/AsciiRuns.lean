import NixRedox.Bytes

set_option autoImplicit false

/- ASCII patterns in byte strings: a lossy reading of the bytes as text changes where they
are not ASCII, and an ASCII pattern occurs in the text exactly if it occurs in the bytes. -/
namespace NixRedox.Bytes

section Patterns

variable {pattern bytes others : List UInt8}

/-- Equal in the ASCII bytes, and with something that is not ASCII at the same places. -/
inductive AsciiAlike : List UInt8 → List UInt8 → Prop where
  | nil : AsciiAlike [] []
  | ascii {byte : UInt8} {bytes others : List UInt8} (low : byte < 128)
      (rest : AsciiAlike bytes others) : AsciiAlike (byte :: bytes) (byte :: others)
  | other {front back bytes others : List UInt8} (some_ : front ≠ []) (any : back ≠ [])
      (high : ∀ byte ∈ front, 128 ≤ byte) (large : ∀ byte ∈ back, 128 ≤ byte)
      (rest : AsciiAlike bytes others) : AsciiAlike (front ++ bytes) (back ++ others)

theorem AsciiAlike.symm (alike : AsciiAlike bytes others) : AsciiAlike others bytes := by
  induction alike with
  | nil => exact .nil
  | ascii low _ ih => exact .ascii low ih
  | other some_ any high large _ ih => exact .other any some_ large high ih

theorem prefix_high (ascii : ∀ byte ∈ pattern, byte < 128) {front : List UInt8}
    (some_ : front ≠ []) (high : ∀ byte ∈ front, 128 ≤ byte) (found : pattern <+: front ++ bytes) :
    pattern = [] := by
  cases pattern with
  | nil => rfl
  | cons first rest =>
      obtain ⟨byte, tail, rfl⟩ := List.exists_cons_of_ne_nil some_
      have same := (List.cons_prefix_cons.mp found).1
      have low := ascii first List.mem_cons_self
      have large := high byte List.mem_cons_self
      rw [same] at low
      exact absurd large (UInt8.not_le.mpr low)

/-- A pattern is not found across bytes that are not ASCII. -/
theorem infix_high (ascii : ∀ byte ∈ pattern, byte < 128) (nonempty : pattern ≠ [])
    {front : List UInt8} (high : ∀ byte ∈ front, 128 ≤ byte)
    (found : pattern <:+: front ++ bytes) : pattern <:+: bytes := by
  induction front with
  | nil =>
      exact found
  | cons byte rest ih =>
      rcases List.infix_cons_iff.mp found with atFront | later
      · have above : ∀ other ∈ [byte], 128 ≤ other := by
          intro other member
          rw [List.mem_singleton.mp member]
          exact high byte List.mem_cons_self
        exact absurd (prefix_high ascii (List.cons_ne_nil byte []) above atFront) nonempty
      · exact ih (fun other member => high other (List.mem_cons_of_mem byte member)) later

theorem AsciiAlike.startsWith (alike : AsciiAlike bytes others)
    (ascii : ∀ byte ∈ pattern, byte < 128) (found : pattern <+: bytes) : pattern <+: others := by
  induction alike generalizing pattern with
  | nil => exact found
  | ascii _ _ ih =>
      cases pattern with
      | nil => exact List.nil_prefix
      | cons first rest =>
          obtain ⟨rfl, tail⟩ := List.cons_prefix_cons.mp found
          have inner := ih (fun byte member => ascii byte (List.mem_cons_of_mem first member)) tail
          exact List.cons_prefix_cons.mpr ⟨rfl, inner⟩
  | other some_ _ high _ _ _ =>
      rw [prefix_high ascii some_ high found]
      exact List.nil_prefix

theorem AsciiAlike.contains (alike : AsciiAlike bytes others)
    (ascii : ∀ byte ∈ pattern, byte < 128) (nonempty : pattern ≠ [])
    (found : pattern <:+: bytes) : pattern <:+: others := by
  induction alike with
  | nil => exact found
  | ascii low rest ih =>
      rcases List.infix_cons_iff.mp found with atFront | later
      · exact ((AsciiAlike.ascii low rest).startsWith ascii atFront).isInfix
      · exact List.infix_cons_iff.mpr (.inr (ih later))
  | other _ _ high _ _ ih =>
      exact List.infix_append_of_infix_right (ih (infix_high ascii nonempty high found))

theorem AsciiAlike.contains_iff (alike : AsciiAlike bytes others)
    (ascii : ∀ byte ∈ pattern, byte < 128) (nonempty : pattern ≠ []) :
    pattern <:+: bytes ↔ pattern <:+: others :=
  ⟨alike.contains ascii nonempty, alike.symm.contains ascii nonempty⟩

end Patterns

section Lossy

theorem high_ofNat {value : Nat} (large : 128 ≤ value) (small : value < 256) :
    128 ≤ UInt8.ofNat value := by
  rw [UInt8.le_iff_toNat_le, UInt8.toNat_ofNat', Nat.mod_eq_of_lt small]
  exact large

/-- The bytes of a character are one ASCII byte or none. -/
theorem utf8EncodeChar_ascii (letter : Char) :
    (∃ byte < 128, String.utf8EncodeChar letter = [byte]) ∨
      ∀ byte ∈ String.utf8EncodeChar letter, 128 ≤ byte := by
  unfold String.utf8EncodeChar
  dsimp only
  split
  · rename_i low
    refine .inl ⟨_, ?_, rfl⟩
    rw [UInt8.lt_iff_toNat_lt, UInt8.toNat_ofNat']
    change _ < 128
    omega
  · right
    split
    · simp only [List.mem_cons, List.not_mem_nil, or_false]
      rintro byte (rfl | rfl)
      · exact high_ofNat (by omega) (by omega)
      · exact high_ofNat (by omega) (by omega)
    · split
      · simp only [List.mem_cons, List.not_mem_nil, or_false]
        rintro byte (rfl | rfl | rfl)
        · exact high_ofNat (by omega) (by omega)
        · exact high_ofNat (by omega) (by omega)
        · exact high_ofNat (by omega) (by omega)
      · simp only [List.mem_cons, List.not_mem_nil, or_false]
        rintro byte (rfl | rfl | rfl | rfl)
        · exact high_ofNat (by omega) (by omega)
        · exact high_ofNat (by omega) (by omega)
        · exact high_ofNat (by omega) (by omega)
        · exact high_ofNat (by omega) (by omega)

theorem utf8EncodeChar_low {byte : UInt8} (low : byte < 128) :
    String.utf8EncodeChar (Char.ofNat byte.toNat) = [byte] := by
  have all : ∀ value < 128, String.utf8EncodeChar (Char.ofNat value) = [UInt8.ofNat value] := by
    decide
  rw [all byte.toNat (UInt8.lt_iff_toNat_lt.mp low), UInt8.ofNat_toNat]

/-- A character that is read stands at the front. -/
theorem split_of_decoded {bytes : List UInt8} {letter : Char}
    (decoded : bytes.toByteArray.utf8DecodeChar? 0 = some letter) :
    bytes = String.utf8EncodeChar letter ++ bytes.drop letter.utf8Size := by
  obtain ⟨rest, split⟩ := ByteArray.exists_of_utf8DecodeChar?_eq_some decoded
  have lists := congrArg (fun array => array.data.toList) split
  simp only [ByteArray.data_append, Array.toList_append, List.data_toByteArray] at lists
  rw [lists, ← String.length_utf8EncodeChar letter, List.drop_left]

theorem high_of_not_decoded {first : UInt8} {rest : List UInt8}
    (bad : (first :: rest).toByteArray.utf8DecodeChar? 0 = none) : 128 ≤ first := by
  by_contra low
  have encoded := utf8EncodeChar_low (UInt8.not_le.mp low)
  have front : (first :: rest) =
      String.utf8EncodeChar (Char.ofNat first.toNat) ++ rest := by rw [encoded]; rfl
  rw [front, List.toByteArray_append, ByteArray.utf8DecodeChar?_utf8EncodeChar_append] at bad
  cases bad

/-- What a replacement character stands for is not ASCII. -/
theorem badLength_high {first : UInt8} {rest : List UInt8} (high : 128 ≤ first) :
    0 < badLength (first :: rest) ∧
      ∀ byte ∈ (first :: rest).take (badLength (first :: rest)), 128 ≤ byte := by
  have own : ∀ byte ∈ [first], 128 ≤ byte := by
    intro byte member
    rw [List.mem_singleton.mp member]
    exact high
  cases rest with
  | nil => exact ⟨Nat.one_pos, own⟩
  | cons second more =>
      have two : 128 ≤ second → ∀ byte ∈ [first, second], 128 ≤ byte := by
        intro next byte member
        rcases List.mem_cons.mp member with rfl | member
        · exact high
        · rw [List.mem_singleton.mp member]
          exact next
      unfold badLength
      dsimp only
      split
      · rename_i three
        refine ⟨Nat.two_pos, two ?_⟩
        rcases three with ⟨_, low, _⟩ | ⟨_, _, low, _⟩ | ⟨_, low, _⟩ | ⟨_, _, low, _⟩
        · exact UInt8.le_trans (by decide) low
        · exact low
        · exact low
        · exact low
      · split
        · rename_i four
          have next : 128 ≤ second := by
            rcases four with ⟨_, low, _⟩ | ⟨_, _, low, _⟩ | ⟨_, low, _⟩
            · exact UInt8.le_trans (by decide) low
            · exact low
            · exact low
          split
          · rename_i third others
            split
            · rename_i continues
              refine ⟨by decide, ?_⟩
              intro byte member
              rcases List.mem_cons.mp member with rfl | member
              · exact high
              · rcases List.mem_cons.mp member with rfl | member
                · exact next
                · rw [List.mem_singleton.mp member]
                  exact continues.1
            · exact ⟨Nat.two_pos, two next⟩
          · exact ⟨Nat.two_pos, two next⟩
        · exact ⟨Nat.one_pos, own⟩

theorem AsciiAlike.letter (letter : Char) {bytes others : List UInt8}
    (alike : AsciiAlike bytes others) :
    AsciiAlike (String.utf8EncodeChar letter ++ bytes)
      (String.utf8EncodeChar letter ++ others) := by
  rcases utf8EncodeChar_ascii letter with ⟨byte, low, single⟩ | high
  · rw [single]
    exact .ascii low alike
  · have some_ : String.utf8EncodeChar letter ≠ [] := by
      rw [← List.length_pos_iff, String.length_utf8EncodeChar]
      exact letter.utf8Size_pos
    exact .other some_ some_ high high alike

theorem asciiAlike_lossy (fuel : Nat) (bytes : List UInt8) (enough : bytes.length ≤ fuel) :
    AsciiAlike bytes (utf8 (fromUtf8LossyUpTo fuel bytes)) := by
  induction fuel generalizing bytes with
  | zero =>
      rw [List.length_eq_zero_iff.mp (Nat.le_zero.mp enough)]
      exact .nil
  | succ fuel ih =>
      cases bytes with
      | nil => exact .nil
      | cons first rest =>
          have short : ∀ skipped, 0 < skipped →
              ((first :: rest).drop skipped).length ≤ fuel := by
            intro skipped positive
            rw [List.length_drop]
            omega
          rw [fromUtf8LossyUpTo]
          · cases decoded : (first :: rest).toByteArray.utf8DecodeChar? 0 with
            | some letter =>
                have alike := (ih _ (short letter.utf8Size letter.utf8Size_pos)).letter letter
                rw [← split_of_decoded decoded] at alike
                exact alike
            | none =>
                obtain ⟨positive, high⟩ := badLength_high (high_of_not_decoded decoded)
                have some_ : (first :: rest).take (badLength (first :: rest)) ≠ [] := by
                  rw [← List.length_pos_iff, List.length_take]
                  exact Nat.lt_min.mpr ⟨positive, Nat.succ_pos _⟩
                have replaced : String.utf8EncodeChar (Char.ofNat 0xFFFD) ≠ [] ∧
                    ∀ byte ∈ String.utf8EncodeChar (Char.ofNat 0xFFFD), 128 ≤ byte := by decide +kernel
                have alike := AsciiAlike.other some_ replaced.1 high replaced.2
                  (ih _ (short _ positive))
                rw [List.take_append_drop] at alike
                exact alike
          · exact List.cons_ne_nil first rest

/-- An ASCII pattern is in the lossy text of bytes exactly if it is in the bytes. -/
theorem infix_fromUtf8Lossy {pattern bytes : List UInt8}
    (ascii : ∀ byte ∈ pattern, byte < 128) (nonempty : pattern ≠ []) :
    pattern <:+: utf8 (fromUtf8Lossy bytes) ↔ pattern <:+: bytes :=
  ((asciiAlike_lossy bytes.length bytes (Nat.le_refl _)).contains_iff ascii nonempty).symm

end Lossy

end NixRedox.Bytes
