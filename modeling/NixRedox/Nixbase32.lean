import NixRedox.Bytes

set_option autoImplicit false

/- The hashes in a binary cache: `nixbase32_encode` of `build-binary-cache.py`. -/
namespace NixRedox.Nixbase32

open Bytes (length_toLittleEndian littleEndian littleEndian_cons littleEndian_div littleEndian_inj
  littleEndian_lt littleEndian_toLittleEndian toLittleEndian toLittleEndian_littleEndian)

section Encoding

def nixChars : List Char := "0123456789abcdfghijklmnpqrsvwxyz".toList

/-- The five bits at an offset; they may go on in the next byte. -/
def digitAt (data : List UInt8) (i : Nat) : Option Nat := do
  let bitOffset := i * 5
  let byteIdx := bitOffset / 8
  let bitIdx := bitOffset % 8
  let val := ((← data[byteIdx]?).toNat >>> bitIdx) &&& 0x1F
  if bitIdx > 3 ∧ byteIdx + 1 < data.length then
    return val ||| (((← data[byteIdx + 1]?).toNat <<< (8 - bitIdx)) &&& 0x1F)
  else
    return val

/-- `none` is an index out of range. -/
def nixbase32Encode (data : List UInt8) : Option (List Char) :=
  let nChars := (data.length * 8 + 4) / 5
  (List.range nChars).reverse.mapM fun i => do nixChars[← digitAt data i]?

end Encoding

section Values

/-- The number that so many digits denote, the most significant one first. -/
def base32Value (text : List Char) : Option Nat :=
  (text.mapM nixChars.idxOf?).map fun digits =>
    digits.foldl (fun value digit => 32 * value + digit) 0

end Values

section Digits

theorem and_digit (value : Nat) : value &&& 0x1F = value % 2 ^ 5 :=
  Nat.and_two_pow_sub_one_eq_mod value 5

/-- Bits beside each other are added. -/
theorem or_shifted {low high width : Nat} (small : low < 2 ^ width) (within : width ≤ 5) :
    (low &&& 0x1F) ||| ((high <<< width) &&& 0x1F) = (low + 2 ^ width * high) % 2 ^ 5 := by
  have parts : 2 ^ 5 = 2 ^ width * 2 ^ (5 - width) := by
    rw [← Nat.pow_add, Nat.add_sub_cancel' within]
  have bound : low < 2 ^ 5 := Nat.lt_of_lt_of_le small (Nat.pow_le_pow_right (by decide) within)
  have upper : high <<< width % 2 ^ 5 = 2 ^ width * (high % 2 ^ (5 - width)) := by
    rw [Nat.shiftLeft_eq, Nat.mul_comm, parts, Nat.mul_mod_mul_left]
  have lower : (low + 2 ^ width * high) % 2 ^ width = low := by
    rw [Nat.add_mul_mod_self_left, Nat.mod_eq_of_lt small]
  have above : (low + 2 ^ width * high) / 2 ^ width = high := by
    rw [Nat.add_mul_div_left _ _ (Nat.two_pow_pos width), Nat.div_eq_of_lt small, Nat.zero_add]
  rw [and_digit, and_digit, Nat.mod_eq_of_lt bound, upper, Nat.or_comm,
    ← Nat.two_pow_add_eq_or_of_lt small, parts, Nat.mod_mul, lower, above, Nat.add_comm]

/-- The bits of a digit that lie in two bytes. -/
theorem straddling {low high bitIdx : Nat} (phase : 3 < bitIdx) (inside : bitIdx < 8)
    (byte : low < 256) :
    ((low >>> bitIdx) &&& 0x1F) ||| ((high <<< (8 - bitIdx)) &&& 0x1F) =
      (low + 256 * high) / 2 ^ bitIdx % 2 ^ 5 := by
  have parts : 256 = 2 ^ bitIdx * 2 ^ (8 - bitIdx) := by
    rw [← Nat.pow_add, Nat.add_sub_cancel' inside.le]
  have small : low >>> bitIdx < 2 ^ (8 - bitIdx) := by
    rw [Nat.shiftRight_eq_div_pow]
    apply Nat.div_lt_of_lt_mul
    rwa [← parts]
  rw [or_shifted small (by omega), Nat.shiftRight_eq_div_pow]
  congr 1
  rw [parts, Nat.mul_assoc, Nat.add_mul_div_left _ _ (Nat.two_pow_pos bitIdx)]

/-- Above the bytes that a digit lies in, nothing changes it. -/
theorem mod_above {low high above bitIdx : Nat} (inside : bitIdx < 8) :
    (low + 256 * (high + 256 * above)) / 2 ^ bitIdx % 2 ^ 5 =
      (low + 256 * high) / 2 ^ bitIdx % 2 ^ 5 := by
  have parts : 256 * 256 = 2 ^ bitIdx * (2 ^ 5 * 2 ^ (11 - bitIdx)) := by
    rw [← Nat.pow_add, ← Nat.pow_add]
    have total : bitIdx + (5 + (11 - bitIdx)) = 16 := by omega
    rw [total]
  have sum : low + 256 * (high + 256 * above) =
      low + 256 * high + 2 ^ bitIdx * (2 ^ 5 * (2 ^ (11 - bitIdx) * above)) := by
    rw [Nat.mul_add, ← Nat.mul_assoc 256 256, parts]
    ring
  rw [sum, Nat.add_mul_div_left _ _ (Nat.two_pow_pos bitIdx), Nat.add_mul_mod_self_left]

theorem mod_single {low above bitIdx : Nat} (phase : bitIdx ≤ 3) :
    (low + 256 * above) / 2 ^ bitIdx % 2 ^ 5 = (low >>> bitIdx) &&& 0x1F := by
  have parts : 256 = 2 ^ bitIdx * (2 ^ 5 * 2 ^ (3 - bitIdx)) := by
    rw [← Nat.pow_add, ← Nat.pow_add]
    have total : bitIdx + (5 + (3 - bitIdx)) = 8 := by omega
    rw [total]
  rw [parts, Nat.mul_assoc, Nat.mul_assoc, Nat.add_mul_div_left _ _ (Nat.two_pow_pos bitIdx),
    Nat.add_mul_mod_self_left, and_digit, Nat.shiftRight_eq_div_pow]

/-- Every digit is the digit of the number at its place. -/
theorem digitAt_eq {data : List UInt8} {i : Nat} (inside : i * 5 < data.length * 8) :
    digitAt data i = some (littleEndian data / 32 ^ i % 32) := by
  have byteIdx : i * 5 / 8 < data.length := by omega
  have phase : i * 5 % 8 < 8 := Nat.mod_lt _ (by decide)
  have place : littleEndian data / 32 ^ i =
      littleEndian (data.drop (i * 5 / 8)) / 2 ^ (i * 5 % 8) := by
    rw [← littleEndian_div, Nat.div_div_eq_div_mul, show 256 = 2 ^ 8 from rfl,
      show 32 = 2 ^ 5 from rfl, ← Nat.pow_mul, ← Nat.pow_mul, ← Nat.pow_add, Nat.div_add_mod,
      Nat.mul_comm]
  have digits : 32 = 2 ^ 5 := rfl
  have bound := data[i * 5 / 8].toNat_lt
  rw [place, List.drop_eq_getElem_cons byteIdx, littleEndian_cons, digits]
  unfold digitAt
  simp only [List.getElem?_eq_getElem byteIdx, bind, Option.bind, pure]
  split
  · rename_i both
    rw [List.getElem?_eq_getElem both.2, List.drop_eq_getElem_cons both.2, littleEndian_cons,
      mod_above phase]
    exact congrArg some (straddling both.1 phase bound)
  · rename_i one
    by_cases low : i * 5 % 8 ≤ 3
    · rw [mod_single low]
    · have last : data.length ≤ i * 5 / 8 + 1 := by omega
      rw [List.drop_of_length_le last]
      have alone : littleEndian [] = 0 := rfl
      rw [alone, Nat.mul_zero, Nat.add_zero, and_digit, Nat.shiftRight_eq_div_pow]

/-- The digits of a number, from the most significant one on. -/
def digitsOf (count value : Nat) : List Nat :=
  (List.range count).reverse.map fun i => value / 32 ^ i % 32

theorem foldl_digitsOf (count value start : Nat) :
    (digitsOf count value).foldl (fun value digit => 32 * value + digit) start =
      start * 32 ^ count + value % 32 ^ count := by
  unfold digitsOf
  induction count generalizing start with
  | zero => simp [Nat.mod_one]
  | succ count ih =>
      rw [List.range_succ, List.reverse_append, List.reverse_singleton, List.singleton_append,
        List.map_cons, List.foldl_cons, ih, Nat.mod_pow_succ]
      ring

/-- There is room for all bits. -/
theorem littleEndian_lt_digits (data : List UInt8) :
    littleEndian data < 32 ^ ((data.length * 8 + 4) / 5) := by
  apply Nat.lt_of_lt_of_le (littleEndian_lt data)
  rw [show 256 = 2 ^ 8 from rfl, show 32 = 2 ^ 5 from rfl, ← Nat.pow_mul, ← Nat.pow_mul]
  apply Nat.pow_le_pow_right (by decide)
  omega

end Digits

section Positional

theorem nixChars_idxOf : ∀ digit < 32, (nixChars[digit]?).bind nixChars.idxOf? = some digit := by
  decide

/-- The characters of digits. -/
theorem written_digits {digits : List Nat} (small : ∀ digit ∈ digits, digit < 32) :
    ∃ text, digits.mapM (nixChars[·]?) = some text ∧ text.length = digits.length ∧
      (∀ c ∈ text, c ∈ nixChars) ∧ text.mapM nixChars.idxOf? = some digits := by
  induction digits with
  | nil => exact ⟨[], rfl, rfl, by simp, rfl⟩
  | cons digit digits ih =>
      obtain ⟨text, written, long, inside, read⟩ :=
        ih fun other later => small other (List.mem_cons_of_mem _ later)
      obtain ⟨own, there, back⟩ :=
        Option.bind_eq_some_iff.mp (nixChars_idxOf digit (small digit List.mem_cons_self))
      refine ⟨own :: text, ?_, ?_, ?_, ?_⟩
      · rw [List.mapM_cons, there, written]
        rfl
      · rw [List.length_cons, List.length_cons, long]
      · intro c member
        rcases List.mem_cons.mp member with rfl | later
        · exact List.mem_of_getElem? there
        · exact inside c later
      · rw [List.mapM_cons, back, read]
        rfl

theorem mapM_bind {α β γ : Type} {first : α → Option β} {make : α → β} {second : β → Option γ}
    {values : List α} (each : ∀ value ∈ values, first value = some (make value)) :
    values.mapM (fun value => first value >>= second) = (values.map make).mapM second := by
  induction values with
  | nil => rfl
  | cons value values ih =>
      rw [List.map_cons, List.mapM_cons, List.mapM_cons, each value List.mem_cons_self,
        ih fun other later => each other (List.mem_cons_of_mem _ later)]
      rfl

theorem nixbase32Encode_digits (data : List UInt8) :
    nixbase32Encode data =
      (digitsOf ((data.length * 8 + 4) / 5) (littleEndian data)).mapM (nixChars[·]?) := by
  refine mapM_bind fun i inside => digitAt_eq ?_
  have below := List.mem_range.mp (List.mem_reverse.mp inside)
  omega

theorem digitsOf_lt {count value : Nat} : ∀ digit ∈ digitsOf count value, digit < 32 := by
  intro digit inside
  obtain ⟨i, _, rfl⟩ := List.mem_map.mp inside
  exact Nat.mod_lt _ (by decide)

/-- Five bits a character, the number of the bytes read from the lowest one on. -/
theorem nixbase32Encode_value (data : List UInt8) :
    ∃ text, nixbase32Encode data = some text ∧ text.length = (data.length * 8 + 4) / 5 ∧
      (∀ c ∈ text, c ∈ nixChars) ∧ base32Value text = some (littleEndian data) := by
  obtain ⟨text, written, long, inside, read⟩ :=
    written_digits (@digitsOf_lt ((data.length * 8 + 4) / 5) (littleEndian data))
  refine ⟨text, (nixbase32Encode_digits data).trans written, ?_, inside, ?_⟩
  · rw [long, digitsOf, List.length_map, List.length_reverse, List.length_range]
  · rw [base32Value, read, Option.map_some, foldl_digitsOf, Nat.zero_mul, Nat.zero_add,
      Nat.mod_eq_of_lt (littleEndian_lt_digits data)]

/-- A decoder of digests that reads a text as the number it denotes. -/
def Positional (decode : List Char → Option (List UInt8)) : Prop :=
  ∀ text digest, text.length = 52 → digest.length = 32 →
    base32Value text = some (littleEndian digest) → decode text = some digest

/-- The text of a byte string denotes its number, so that strings of one length are told
apart, and a digest is read back by a positional decoder. -/
theorem nixbase32Encode_positional (decode : List Char → Option (List UInt8))
    (positional : Positional decode) :
    (∀ data, ∃ text, nixbase32Encode data = some text ∧
      text.length = (data.length * 8 + 4) / 5 ∧ (∀ c ∈ text, c ∈ nixChars) ∧
      base32Value text = some (littleEndian data)) ∧
    (∀ one two, one.length = two.length → nixbase32Encode one = nixbase32Encode two → one = two) ∧
    ∀ digest, digest.length = 32 → (nixbase32Encode digest).bind decode = some digest := by
  refine ⟨nixbase32Encode_value, ?_, ?_⟩
  · intro one two long same
    obtain ⟨text, written, _, _, value⟩ := nixbase32Encode_value one
    obtain ⟨text', written', _, _, value'⟩ := nixbase32Encode_value two
    rw [written, written', Option.some.injEq] at same
    rw [same, value', Option.some.injEq] at value
    exact littleEndian_inj long value.symm
  · intro digest size
    obtain ⟨text, written, long, _, value⟩ := nixbase32Encode_value digest
    rw [written, Option.bind_some]
    exact positional text digest (by rw [long, size]) size value

/-- The decoder that writes the number of the text as a digest. -/
def decodeDigest (text : List Char) : Option (List UInt8) :=
  (base32Value text).map (toLittleEndian 32)

theorem decodeDigest_positional : Positional decodeDigest := by
  intro text digest _ size value
  rw [decodeDigest, value, Option.map_some, ← size, toLittleEndian_littleEndian]

/-- The digest whose bytes count up. -/
def counting : List UInt8 := (List.range 32).map UInt8.ofNat

theorem counting_read_back : (nixbase32Encode counting).bind decodeDigest = some counting :=
  (nixbase32Encode_positional decodeDigest decodeDigest_positional).2.2 counting (by decide)

end Positional

end NixRedox.Nixbase32
