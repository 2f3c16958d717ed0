import Mathlib

set_option autoImplicit false

/- Byte strings: little-endian numbers and UTF-8. Nothing here knows a format. -/
namespace NixRedox.Bytes

/-- The number with the given bytes, the lowest one first. -/
def littleEndian (bytes : List UInt8) : Nat :=
  bytes.foldr (fun byte value => byte.toNat + 256 * value) 0

def toLittleEndian : Nat → Nat → List UInt8
  | 0, _ => []
  | width + 1, value => UInt8.ofNat value :: toLittleEndian width (value / 256)

@[simp] theorem length_toLittleEndian (width value : Nat) :
    (toLittleEndian width value).length = width := by
  induction width generalizing value with
  | zero => rfl
  | succ width ih => simp [toLittleEndian, ih]

theorem littleEndian_toLittleEndian (width value : Nat) (small : value < 256 ^ width) :
    littleEndian (toLittleEndian width value) = value := by
  induction width generalizing value with
  | zero =>
      have zero : value = 0 := by simpa using small
      subst zero
      rfl
  | succ width ih =>
      have rest : value / 256 < 256 ^ width := by
        apply Nat.div_lt_of_lt_mul
        rwa [← Nat.pow_succ']
      have tail := ih (value / 256) rest
      have head : (UInt8.ofNat value).toNat = value % 256 := rfl
      unfold littleEndian at tail ⊢
      rw [toLittleEndian, List.foldr_cons, tail, head]
      omega

theorem littleEndian_cons (byte : UInt8) (bytes : List UInt8) :
    littleEndian (byte :: bytes) = byte.toNat + 256 * littleEndian bytes := rfl

theorem littleEndian_lt (bytes : List UInt8) : littleEndian bytes < 256 ^ bytes.length := by
  induction bytes with
  | nil => decide
  | cons byte bytes ih =>
      have small := byte.toNat_lt
      rw [littleEndian_cons, List.length_cons, Nat.pow_succ']
      omega

theorem littleEndian_div (bytes : List UInt8) (count : Nat) :
    littleEndian bytes / 256 ^ count = littleEndian (bytes.drop count) := by
  induction count generalizing bytes with
  | zero => rw [Nat.pow_zero, Nat.div_one, List.drop_zero]
  | succ count ih =>
      cases bytes with
      | nil => exact Nat.zero_div _
      | cons byte bytes =>
          have small := byte.toNat_lt
          have rest : (byte.toNat + 256 * littleEndian bytes) / 256 = littleEndian bytes := by
            omega
          rw [littleEndian_cons, Nat.pow_succ', ← Nat.div_div_eq_div_mul, rest, ih,
            List.drop_succ_cons]

theorem toLittleEndian_littleEndian (bytes : List UInt8) :
    toLittleEndian bytes.length (littleEndian bytes) = bytes := by
  induction bytes with
  | nil => rfl
  | cons byte bytes ih =>
      have small := byte.toNat_lt
      have head : UInt8.ofNat (littleEndian (byte :: bytes)) = byte := by
        apply UInt8.toNat_inj.mp
        rw [UInt8.toNat_ofNat', littleEndian_cons]
        omega
      have rest : littleEndian (byte :: bytes) / 256 = littleEndian bytes := by
        rw [littleEndian_cons]
        omega
      rw [List.length_cons, toLittleEndian, head, rest, ih]

theorem littleEndian_inj {one two : List UInt8} (long : one.length = two.length)
    (same : littleEndian one = littleEndian two) : one = two := by
  rw [← toLittleEndian_littleEndian one, ← toLittleEndian_littleEndian two, long, same]

/-- The bytes of a text. -/
def utf8 (text : List Char) : List UInt8 := text.flatMap String.utf8EncodeChar

theorem utf8_injective : Function.Injective utf8 := by
  intro one two same
  have bytes : one.utf8Encode = two.utf8Encode := by
    unfold List.utf8Encode
    exact congrArg _ same
  rw [← String.toByteArray_ofList, ← String.toByteArray_ofList] at bytes
  exact String.ofList_injective (String.toByteArray_inj.mp bytes)

/-- How many bytes at the front one replacement character stands for: the longest
start of a character, or one byte. -/
def badLength : List UInt8 → Nat
  | first :: second :: rest =>
      let continues (byte : UInt8) := 0x80 ≤ byte ∧ byte ≤ 0xBF
      let three := first = 0xE0 ∧ 0xA0 ≤ second ∧ second ≤ 0xBF ∨
        0xE1 ≤ first ∧ first ≤ 0xEC ∧ continues second ∨
        first = 0xED ∧ 0x80 ≤ second ∧ second ≤ 0x9F ∨
        0xEE ≤ first ∧ first ≤ 0xEF ∧ continues second
      let four := first = 0xF0 ∧ 0x90 ≤ second ∧ second ≤ 0xBF ∨
        0xF1 ≤ first ∧ first ≤ 0xF3 ∧ continues second ∨
        first = 0xF4 ∧ 0x80 ≤ second ∧ second ≤ 0x8F
      if three then
        2
      else if four then
        match rest with
        | third :: _ => if continues third then 3 else 2
        | [] => 2
      else
        1
  | _ => 1

/-- `String::from_utf8_lossy`, for at most as many characters as there is fuel. -/
def fromUtf8LossyUpTo : Nat → List UInt8 → List Char
  | 0, _ | _, [] => []
  | fuel + 1, bytes =>
      match bytes.toByteArray.utf8DecodeChar? 0 with
      | some letter => letter :: fromUtf8LossyUpTo fuel (bytes.drop letter.utf8Size)
      | none => Char.ofNat 0xFFFD :: fromUtf8LossyUpTo fuel (bytes.drop (badLength bytes))

def fromUtf8Lossy (bytes : List UInt8) : List Char := fromUtf8LossyUpTo bytes.length bytes

theorem fromUtf8LossyUpTo_utf8 (text : List Char) (fuel : Nat)
    (enough : (utf8 text).length ≤ fuel) : fromUtf8LossyUpTo fuel (utf8 text) = text := by
  induction text generalizing fuel with
  | nil => cases fuel <;> rfl
  | cons letter text ih =>
      have size : (String.utf8EncodeChar letter).length = letter.utf8Size :=
        String.length_utf8EncodeChar letter
      have positive := letter.utf8Size_pos
      have split : utf8 (letter :: text) = String.utf8EncodeChar letter ++ utf8 text := rfl
      rw [split, List.length_append] at enough
      obtain ⟨less, rfl⟩ : ∃ less, fuel = less + 1 := ⟨fuel - 1, by omega⟩
      have decoded : (utf8 (letter :: text)).toByteArray.utf8DecodeChar? 0 = some letter := by
        rw [split, List.toByteArray_append]
        exact ByteArray.utf8DecodeChar?_utf8EncodeChar_append
      have rest : (utf8 (letter :: text)).drop letter.utf8Size = utf8 text := by
        rw [split, ← size, List.drop_left]
      have nonempty : utf8 (letter :: text) ≠ [] := by
        intro empty
        have none := congrArg List.length empty
        rw [split, List.length_append, List.length_nil] at none
        omega
      rw [fromUtf8LossyUpTo]
      · rw [decoded]
        simp only
        rw [rest, ih less (by omega)]
      · exact nonempty

/-- Text survives being encoded. -/
theorem fromUtf8Lossy_utf8 (text : List Char) : fromUtf8Lossy (utf8 text) = text :=
  fromUtf8LossyUpTo_utf8 text _ (Nat.le_refl _)

end NixRedox.Bytes
