import NixRedox.Text
import Mathlib

set_option autoImplicit false

/- Bytes as hexadecimal text. Nothing here knows what the bytes are. -/
namespace NixRedox.Hex

/-- The two digits of a byte. -/
def hexPair (byte : UInt8) : List Char :=
  [Nat.digitChar (byte.toNat / 16), Nat.digitChar (byte.toNat % 16)]

/-- A digit of lowercase hexadecimal text. -/
def IsDigit (letter : Char) : Prop := '0' ≤ letter ∧ letter ≤ '9' ∨ 'a' ≤ letter ∧ letter ≤ 'f'

/-- `data_encoding::HEXLOWER`, which also writes what `{:x}` writes of a digest. A text that is
refused is refused with the text of the error. -/
structure HexLower where
  encode : List UInt8 → String
  decode : List Char → Except String (List UInt8)
  decode_encode : ∀ bytes, decode (encode bytes).toList = .ok bytes
  digits : ∀ bytes, ∀ letter ∈ (encode bytes).toList, IsDigit letter

namespace HexLower

variable (hex : HexLower)

theorem encode_injective : Function.Injective hex.encode := by
  intro one two same
  have read := hex.decode_encode one
  rw [same, hex.decode_encode] at read
  exact (Except.ok.inj read).symm

/-- A text that starts with no digit is not at the front. -/
theorem not_prefix {letter : Char} (other : ¬ IsDigit letter) (tail : List Char)
    (bytes : List UInt8) : ¬ letter :: tail <+: (hex.encode bytes).toList := by
  intro starts
  exact other (hex.digits bytes letter (starts.subset List.mem_cons_self))

end HexLower

section Lowercase

/-- The value of a lowercase digit. -/
def hexValue (letter : Char) : Option Nat :=
  if '0' ≤ letter ∧ letter ≤ '9' then some (letter.toNat - '0'.toNat)
  else if 'a' ≤ letter ∧ letter ≤ 'f' then some (letter.toNat - 'a'.toNat + 10)
  else none

def decodePairs (position : Nat) : List Char → Except String (List UInt8)
  | [] => .ok []
  | [_] => .error s!"invalid symbol at {position}"
  | high :: low :: rest =>
      match hexValue high, hexValue low with
      | none, _ => .error s!"invalid symbol at {position}"
      | some _, none => .error s!"invalid symbol at {position + 1}"
      | some first, some second => do
          let bytes ← decodePairs (position + 2) rest
          .ok (UInt8.ofNat (16 * first + second) :: bytes)

theorem digitChar_plain : ∀ value < 16, hexValue (Nat.digitChar value) = some value ∧
    (Nat.digitChar value).utf8Size = 1 ∧
      ('0' ≤ Nat.digitChar value ∧ Nat.digitChar value ≤ '9' ∨
        'a' ≤ Nat.digitChar value ∧ Nat.digitChar value ≤ 'f') := by
  decide

theorem decodePairs_hexPairs (position : Nat) (bytes : List UInt8) :
    decodePairs position (bytes.flatMap hexPair) = .ok bytes := by
  induction bytes generalizing position with
  | nil =>
      rfl
  | cons byte rest ih =>
      have bound := byte.toNat_lt
      have whole : 16 * (byte.toNat / 16) + byte.toNat % 16 = byte.toNat := by omega
      have high := (digitChar_plain (byte.toNat / 16) (by omega)).1
      have low := (digitChar_plain (byte.toNat % 16) (by omega)).1
      rw [List.flatMap_cons, hexPair, List.cons_append, List.cons_append, List.nil_append,
        decodePairs, high, low]
      dsimp only
      rw [ih, whole, UInt8.ofNat_toNat]
      rfl

theorem byteLength_hexPairs (bytes : List UInt8) :
    Text.byteLength (bytes.flatMap hexPair) = 2 * bytes.length := by
  induction bytes with
  | nil =>
      rfl
  | cons byte rest ih =>
      have bound := byte.toNat_lt
      have pair : Text.byteLength (hexPair byte) = 2 := by
        have high := (digitChar_plain (byte.toNat / 16) (by omega)).2.1
        have low := (digitChar_plain (byte.toNat % 16) (by omega)).2.1
        simp only [Text.byteLength, hexPair, List.map_cons, List.map_nil, List.sum_cons,
          List.sum_nil]
        omega
      rw [List.flatMap_cons, Text.byteLength_append, pair, ih, List.length_cons]
      omega

/-- The encoding itself. A text of an odd number of bytes is refused first. -/
def hexLower : HexLower where
  encode bytes := String.ofList (bytes.flatMap hexPair)
  decode text :=
    if Text.byteLength text % 2 = 1 then
      .error s!"invalid length at {Text.byteLength text - 1}"
    else
      decodePairs 0 text
  decode_encode bytes := by
    have even : ¬ 2 * bytes.length % 2 = 1 := by omega
    rw [String.toList_ofList, byteLength_hexPairs, if_neg even, decodePairs_hexPairs]
  digits bytes letter inside := by
    rw [String.toList_ofList, List.mem_flatMap] at inside
    obtain ⟨byte, _, digit⟩ := inside
    have bound := byte.toNat_lt
    simp only [hexPair, List.mem_cons, List.not_mem_nil, or_false] at digit
    rcases digit with rfl | rfl
    · exact (digitChar_plain (byte.toNat / 16) (by omega)).2.2
    · exact (digitChar_plain (byte.toNat % 16) (by omega)).2.2

end Lowercase

end NixRedox.Hex
