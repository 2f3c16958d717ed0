import NixRedox.Attempts
import NixRedox.Gdbstub

set_option autoImplicit false

/- The hexadecimal codecs of the debugging stub: `hex_decode` of `main.rs` and the register
file of `regs.rs`. -/
namespace NixRedox.Gdbstub

open Attempts (mapM_cons_eq_some)
open Hex (hexPair)

section Decoding

/-- `hex_decode_slice`: the loop of `hex_decode`, once more. -/
def hexDecodeSlice (hex : List UInt8) : Option (List UInt8) := hexDecode hex

/-- The text is made of the hexadecimal digits, of either case, of the bytes. -/
def Denotes (text bytes : List UInt8) : Prop :=
  text.mapM hexDigit = some (bytes.flatMap fun byte => [byte.toNat / 16, byte.toNat % 16])

/-- Pairs of a digit, or a plus sign, and a digit. -/
def Lenient : List UInt8 → Prop
  | [] => True
  | [_] => False
  | high :: low :: rest =>
      (high = ascii '+' ∨ (hexDigit high).isSome) ∧ (hexDigit low).isSome ∧ Lenient rest

/-- Some pair is a plus sign and a digit. -/
def Signed (text : List UInt8) : Prop := Lenient text ∧ ascii '+' ∈ text

theorem hexDigit_plus : hexDigit (ascii '+') = none := by decide

theorem hexDigit_lt {byte : UInt8} {value : Nat} (digit : hexDigit byte = some value) :
    value < 16 := by
  unfold hexDigit at digit
  split at digit
  · rename_i range
    have upper : byte.toNat ≤ 57 := range.2
    cases digit
    omega
  · split at digit
    · rename_i range
      have upper : byte.toNat ≤ 102 := range.2
      cases digit
      omega
    · split at digit
      · rename_i range
        have upper : byte.toNat ≤ 70 := range.2
        cases digit
        omega
      · cases digit

/-- Two digits are a byte. -/
theorem fromRadix16_digits {high low : UInt8} {first second : Nat}
    (one : hexDigit high = some first) (two : hexDigit low = some second) :
    fromRadix16 256 [high, low] = some (16 * first + second) := by
  have unsigned : high ≠ ascii '+' := by
    rintro rfl
    rw [hexDigit_plus] at one
    cases one
  have left := hexDigit_lt one
  have right := hexDigit_lt two
  have digits : [high, low].mapM hexDigit = some [first, second] := by
    simp [one, two]
  have below : 16 * (16 * 0 + first) + second < 256 := by omega
  unfold fromRadix16
  simp only [List.head?_cons, Option.some.injEq, unsigned, if_false, List.cons_ne_nil, digits,
    List.foldl_cons, List.foldl_nil, below, if_true]
  rw [Nat.mul_zero, Nat.zero_add]

theorem fromRadix16_plus {low : UInt8} {value : Nat} (digit : hexDigit low = some value) :
    fromRadix16 256 [ascii '+', low] = some value := by
  have bound := hexDigit_lt digit
  have digits : [low].mapM hexDigit = some [value] := by
    simp [digit]
  have below : 16 * 0 + value < 256 := by omega
  unfold fromRadix16
  simp only [List.head?_cons, if_true, List.tail_cons, List.cons_ne_nil, if_false, digits,
    List.foldl_cons, List.foldl_nil, below]
  rw [Nat.mul_zero, Nat.zero_add]

theorem fromRadix16_isSome {high low : UInt8} :
    (fromRadix16 256 [high, low]).isSome ↔
      (high = ascii '+' ∨ (hexDigit high).isSome) ∧ (hexDigit low).isSome := by
  by_cases sign : high = ascii '+'
  · subst sign
    cases digit : hexDigit low with
    | none => simp [fromRadix16, digit]
    | some value => simp [fromRadix16_plus digit]
  · cases one : hexDigit high with
    | none => simp [fromRadix16, one, sign]
    | some first =>
        cases two : hexDigit low with
        | none => simp [fromRadix16, one, two, sign]
        | some second => simp [fromRadix16_digits one two]

theorem hexDecode_cons_cons {high low : UInt8} {rest bytes : List UInt8} :
    hexDecode (high :: low :: rest) = some bytes ↔
      ∃ byte others, fromRadix16 256 [high, low] = some byte ∧ hexDecode rest = some others ∧
        bytes = UInt8.ofNat byte :: others := by
  rw [hexDecode]
  cases fromRadix16 256 [high, low] with
  | none => simp
  | some byte =>
      cases hexDecode rest with
      | none => simp
      | some others => simp [eq_comm]

theorem hexDecode_isSome (text : List UInt8) : (hexDecode text).isSome ↔ Lenient text := by
  induction text using Lenient.induct with
  | case1 => simp [hexDecode, Lenient]
  | case2 byte => simp [hexDecode, Lenient]
  | case3 high low rest ih =>
      rw [Lenient, ← ih, ← and_assoc, ← fromRadix16_isSome, hexDecode]
      cases fromRadix16 256 [high, low] with
      | none => simp
      | some byte =>
          cases hexDecode rest with
          | none => simp
          | some others => simp

theorem denotes_cons_cons {high low byte : UInt8} {rest bytes : List UInt8} :
    Denotes (high :: low :: rest) (byte :: bytes) ↔
      hexDigit high = some (byte.toNat / 16) ∧ hexDigit low = some (byte.toNat % 16) ∧
        Denotes rest bytes := by
  unfold Denotes
  rw [mapM_cons_eq_some, List.flatMap_cons]
  constructor
  · rintro ⟨first, others, one, more, same⟩
    obtain ⟨second, later, two, remaining, rfl⟩ := mapM_cons_eq_some.mp more
    cases same
    exact ⟨one, two, remaining⟩
  · rintro ⟨one, two, remaining⟩
    exact ⟨_, _, one, mapM_cons_eq_some.mpr ⟨_, _, two, remaining, rfl⟩, rfl⟩

/-- The digits of a text are decoded to what they denote. -/
theorem hexDecode_of_denotes {text bytes : List UInt8} (denotes : Denotes text bytes) :
    hexDecode text = some bytes := by
  induction bytes generalizing text with
  | nil =>
      cases text with
      | nil => rfl
      | cons first rest =>
          obtain ⟨_, _, _, _, same⟩ := mapM_cons_eq_some.mp denotes
          cases same
  | cons byte bytes ih =>
      rcases text with _ | ⟨high, _ | ⟨low, rest⟩⟩
      · cases denotes
      · obtain ⟨_, _, _, none_, same⟩ := mapM_cons_eq_some.mp denotes
        cases none_
        cases same
      · obtain ⟨one, two, remaining⟩ := denotes_cons_cons.mp denotes
        refine hexDecode_cons_cons.mpr ⟨_, bytes, fromRadix16_digits one two, ih remaining, ?_⟩
        rw [Nat.div_add_mod, UInt8.ofNat_toNat]

/-- Without a plus sign, nothing but digits is decoded. -/
theorem denotes_of_hexDecode {text bytes : List UInt8} (decoded : hexDecode text = some bytes)
    (unsigned : ascii '+' ∉ text) : Denotes text bytes := by
  induction text using Lenient.induct generalizing bytes with
  | case1 =>
      cases decoded
      rfl
  | case2 byte => cases decoded
  | case3 high low rest ih =>
      rw [List.mem_cons, List.mem_cons, not_or, not_or] at unsigned
      obtain ⟨byte, others, pair, later, rfl⟩ := hexDecode_cons_cons.mp decoded
      obtain ⟨one, two⟩ := fromRadix16_isSome.mp (Option.isSome_of_eq_some pair)
      obtain ⟨first, one⟩ := Option.isSome_iff_exists.mp
        (one.resolve_left fun sign => unsigned.1 sign.symm)
      obtain ⟨second, two⟩ := Option.isSome_iff_exists.mp two
      rw [fromRadix16_digits one two, Option.some.injEq] at pair
      subst pair
      have left := hexDigit_lt one
      have right := hexDigit_lt two
      have value : (UInt8.ofNat (16 * first + second)).toNat = 16 * first + second := by
        rw [UInt8.toNat_ofNat']
        omega
      refine denotes_cons_cons.mpr ⟨?_, ?_, ih later unsigned.2.2⟩
      · rw [one, value]
        congr 1
        omega
      · rw [two, value]
        congr 1
        omega

theorem digits_of_denotes {text bytes : List UInt8} (denotes : Denotes text bytes) :
    ∀ byte ∈ text, (hexDigit byte).isSome := by
  intro byte inside
  obtain ⟨front, back, rfl⟩ := List.append_of_mem inside
  by_contra none_
  rw [Option.not_isSome_iff_eq_none] at none_
  simp [Denotes, List.mapM_append, List.mapM_cons, none_] at denotes

theorem hexDecode_exact (text : List UInt8) :
    (∀ bytes, hexDecode text = some bytes ↔ Denotes text bytes) ↔ ¬Signed text := by
  constructor
  · rintro exact_ ⟨lenient, sign⟩
    obtain ⟨bytes, decoded⟩ := Option.isSome_iff_exists.mp ((hexDecode_isSome text).mpr lenient)
    have digit := digits_of_denotes ((exact_ bytes).mp decoded) _ sign
    rw [hexDigit_plus] at digit
    cases digit
  · intro unsigned bytes
    constructor
    · intro decoded
      apply denotes_of_hexDecode decoded
      intro sign
      exact unsigned ⟨(hexDecode_isSome text).mp (Option.isSome_of_eq_some decoded), sign⟩
    · exact hexDecode_of_denotes

end Decoding

section Registers

/-- A register of the debugger's register file: its width in bytes and where it is kept. The
last four are not kept. -/
abbrev Field := Nat × (IntRegisters → UInt64 → IntRegisters)

def registerFile : List Field := [
  (8, fun regs value => { regs with rax := value }),
  (8, fun regs value => { regs with rbx := value }),
  (8, fun regs value => { regs with rcx := value }),
  (8, fun regs value => { regs with rdx := value }),
  (8, fun regs value => { regs with rsi := value }),
  (8, fun regs value => { regs with rdi := value }),
  (8, fun regs value => { regs with rbp := value }),
  (8, fun regs value => { regs with rsp := value }),
  (8, fun regs value => { regs with r8 := value }),
  (8, fun regs value => { regs with r9 := value }),
  (8, fun regs value => { regs with r10 := value }),
  (8, fun regs value => { regs with r11 := value }),
  (8, fun regs value => { regs with r12 := value }),
  (8, fun regs value => { regs with r13 := value }),
  (8, fun regs value => { regs with r14 := value }),
  (8, fun regs value => { regs with r15 := value }),
  (8, fun regs value => { regs with rip := value }),
  (4, fun regs value => { regs with rflags := value }),
  (4, fun regs value => { regs with cs := value }),
  (4, fun regs value => { regs with ss := value }),
  (4, fun regs _ => regs), (4, fun regs _ => regs), (4, fun regs _ => regs),
  (4, fun regs _ => regs)]

/-- The registers are assigned one by one until a text is no number. -/
def readFields : List Field → List UInt8 → IntRegisters → Bool × IntRegisters
  | [], _, regs => (true, regs)
  | (width, assign) :: fields, hex, regs =>
      match readLe width hex with
      | some (value, rest) => readFields fields rest (assign regs value)
      | none => (false, regs)

/-- `gdb_hex_to_int_regs` with the registers it changes. -/
def gdbHexIntoIntRegs (hex : List UInt8) (regs : IntRegisters) : Bool × IntRegisters :=
  readFields registerFile hex regs

def completed (result : Bool × IntRegisters) : Option IntRegisters :=
  if result.1 then some result.2 else none

theorem completed_cons (width : Nat) (assign : IntRegisters → UInt64 → IntRegisters)
    (fields : List Field) (hex : List UInt8) (regs : IntRegisters) :
    completed (readFields ((width, assign) :: fields) hex regs) =
      readLe width hex >>= fun read => completed (readFields fields read.2 (assign regs read.1)) := by
  rw [readFields]
  cases readLe width hex <;> rfl

/-- What was in the registers before does not matter to a caller who looks at them only
when all have been assigned. -/
theorem gdbHexToIntRegs_eq (hex : List UInt8) (regs : IntRegisters) :
    gdbHexToIntRegs hex = completed (gdbHexIntoIntRegs hex regs) := by
  unfold gdbHexIntoIntRegs registerFile
  simp only [completed_cons]
  rfl

theorem hexDigit_digitChar : ∀ value < 16, hexDigit (ascii (Nat.digitChar value)) = some value := by
  decide

theorem denotes_hexPair (bytes : List UInt8) :
    Denotes ((bytes.flatMap hexPair).map ascii) bytes := by
  induction bytes with
  | nil => rfl
  | cons byte bytes ih =>
      have small := byte.toNat_lt
      refine denotes_cons_cons.mpr ⟨hexDigit_digitChar _ ?_, hexDigit_digitChar _ ?_, ih⟩
      · omega
      · omega

/-- A register as it is sent. -/
def fieldHex (width : Nat) (value : UInt64) : List UInt8 :=
  ((Bytes.toLittleEndian width value.toNat).flatMap hexPair).map ascii

theorem length_fieldHex (width : Nat) (value : UInt64) :
    (fieldHex width value).length = 2 * width := by
  unfold fieldHex
  rw [List.length_map, List.length_flatMap]
  have pairs : (Bytes.toLittleEndian width value.toNat).map (fun byte => (hexPair byte).length) =
      List.replicate width 2 := by
    rw [List.eq_replicate_iff]
    simp [hexPair]
  rw [pairs, List.sum_replicate, smul_eq_mul, Nat.mul_comm]

theorem readLe_fieldHex {width : Nat} {value : UInt64} (fits : value.toNat < 256 ^ width)
    (rest : List UInt8) : readLe width (fieldHex width value ++ rest) = some (value, rest) := by
  have long := length_fieldHex width value
  have own := hexDecode_of_denotes (denotes_hexPair (Bytes.toLittleEndian width value.toNat))
  unfold readLe
  rw [if_pos (by rw [List.length_append]; omega), List.take_left' long, List.drop_left' long]
  unfold fieldHex
  rw [own, Option.map_some, Bytes.littleEndian_toLittleEndian width _ fits, UInt64.ofNat_toNat]

/-- Registers that are sent field by field are assigned their own values. -/
theorem readFields_fieldHex (fields : List (Field × UInt64)) (regs : IntRegisters)
    (fits : ∀ field ∈ fields, field.2.toNat < 256 ^ field.1.1) :
    readFields (fields.map Prod.fst) (fields.flatMap fun field => fieldHex field.1.1 field.2) regs =
      (true, fields.foldl (fun regs field => field.1.2 regs field.2) regs) := by
  induction fields generalizing regs with
  | nil => rfl
  | cons field fields ih =>
      rw [List.flatMap_cons, List.map_cons, readFields,
        readLe_fieldHex (fits field List.mem_cons_self)]
      exact ih _ fun other later => fits other (List.mem_cons_of_mem _ later)

/-- The values of the register file. -/
def registerValues (regs : IntRegisters) : List UInt64 :=
  [regs.rax, regs.rbx, regs.rcx, regs.rdx, regs.rsi, regs.rdi, regs.rbp, regs.rsp, regs.r8, regs.r9,
    regs.r10, regs.r11, regs.r12, regs.r13, regs.r14, regs.r15, regs.rip, regs.rflags, regs.cs,
    regs.ss, 0, 0, 0, 0]

theorem intRegsToGdbHex_fields (regs : IntRegisters) :
    (intRegsToGdbHex regs).toList.map ascii =
      (registerFile.zip (registerValues regs)).flatMap fun field =>
        fieldHex field.1.1 field.2 := by
  simp [intRegsToGdbHex, registerFile, registerValues, reg64Hex, reg32Hex, hexEncode, fieldHex,
    String.join]

/-- What is kept of the flags and the segment registers. -/
def Fits (regs : IntRegisters) : Prop :=
  regs.rflags.toNat < 2 ^ 32 ∧ regs.cs.toNat < 2 ^ 32 ∧ regs.ss.toNat < 2 ^ 32

theorem gdbHexIntoIntRegs_encoded {regs : IntRegisters} (fits : Fits regs) (before : IntRegisters) :
    gdbHexIntoIntRegs ((intRegsToGdbHex regs).toList.map ascii) before = (true, regs) := by
  rw [intRegsToGdbHex_fields]
  have each : ∀ field ∈ registerFile.zip (registerValues regs),
      field.2.toNat < 256 ^ field.1.1 := by
    have wide : ∀ value : UInt64, value.toNat < 18446744073709551616 := UInt64.toNat_lt
    simpa [registerFile, registerValues, wide, Fits] using fits
  exact readFields_fieldHex _ before each

/-- So many digits the register file is read from. -/
def registerDigits : Nat := 328

theorem lenient_append {front back : List UInt8} (even : front.length % 2 = 0) :
    Lenient (front ++ back) ↔ Lenient front ∧ Lenient back := by
  induction front using Lenient.induct with
  | case1 => simp [Lenient]
  | case2 byte => simp at even
  | case3 high low rest ih =>
      simp only [List.length_cons] at even
      simp only [List.cons_append, Lenient, ih (by omega), and_assoc]

theorem readFields_accepts (fields : List Field) (hex : List UInt8) (regs : IntRegisters) :
    (readFields fields hex regs).1 = true ↔
      2 * (fields.map Prod.fst).sum ≤ hex.length ∧
        Lenient (hex.take (2 * (fields.map Prod.fst).sum)) := by
  induction fields generalizing hex regs with
  | nil => simp [readFields, Lenient]
  | cons field fields ih =>
      obtain ⟨width, assign⟩ := field
      rw [List.map_cons, List.sum_cons, readFields, Nat.mul_add, List.take_add]
      dsimp only
      unfold readLe
      by_cases long : 2 * width ≤ hex.length
      · have own : (hex.take (2 * width)).length = 2 * width := by
          rw [List.length_take]
          omega
        rw [if_pos long, lenient_append (by omega), ← hexDecode_isSome (hex.take (2 * width))]
        cases hexDecode (hex.take (2 * width)) with
        | none => simp
        | some bytes =>
            have behind := ih (hex.drop (2 * width)) (assign regs (UInt64.ofNat
              (Bytes.littleEndian bytes)))
            rw [List.length_drop] at behind
            simp only [Option.map_some, behind, Option.isSome_some, true_and]
            constructor
            · rintro ⟨enough, lenient⟩
              exact ⟨by omega, lenient⟩
            · rintro ⟨enough, lenient⟩
              exact ⟨by omega, lenient⟩
      · rw [if_neg long]
        constructor
        · intro accepted
          cases accepted
        · rintro ⟨enough, _⟩
          omega

theorem gdbHexIntoIntRegs_accepts (hex : List UInt8) (regs : IntRegisters) :
    (gdbHexIntoIntRegs hex regs).1 = true ↔
      registerDigits ≤ hex.length ∧ Lenient (hex.take registerDigits) :=
  readFields_accepts registerFile hex regs

end Registers

section Exactness

/-- The registers of a packet are written although some of it is no digit: behind the
register file, or a plus sign in it. -/
def Trailed (hex : List UInt8) : Prop :=
  registerDigits ≤ hex.length ∧ Lenient (hex.take registerDigits) ∧
    ∃ byte ∈ hex, hexDigit byte = none

/-- Registers are read back as they are sent. A text is decoded exactly as its digits, and
written to the registers only if it has no other characters, unless a plus sign stands for
a digit or something stands behind the register file. -/
theorem hexCodecs_exact (text : List UInt8) :
    (∀ regs before, Fits regs →
      gdbHexIntoIntRegs ((intRegsToGdbHex regs).toList.map ascii) before = (true, regs)) ∧
    (((∀ bytes, hexDecode text = some bytes ↔ Denotes text bytes) ∧
        (∀ bytes, hexDecodeSlice text = some bytes ↔ Denotes text bytes) ∧
        ∀ before, (gdbHexIntoIntRegs text before).1 = true →
          ∀ byte ∈ text, (hexDigit byte).isSome) ↔
      ¬Signed text ∧ ¬Trailed text) := by
  refine ⟨fun regs before fits => gdbHexIntoIntRegs_encoded fits before, ?_⟩
  have exact_ := hexDecode_exact text
  constructor
  · rintro ⟨decoded, _, digits⟩
    refine ⟨exact_.mp decoded, ?_⟩
    rintro ⟨long, lenient, byte, inside, other⟩
    have digit := digits default ((gdbHexIntoIntRegs_accepts text _).mpr ⟨long, lenient⟩) byte
      inside
    rw [other] at digit
    cases digit
  · rintro ⟨unsigned, complete⟩
    refine ⟨exact_.mpr unsigned, exact_.mpr unsigned, ?_⟩
    intro before accepted byte inside
    by_contra other
    rw [Option.not_isSome_iff_eq_none] at other
    obtain ⟨long, lenient⟩ := (gdbHexIntoIntRegs_accepts text before).mp accepted
    exact complete ⟨long, lenient, byte, inside, other⟩

/-- All registers are 1. -/
def ones : IntRegisters := ⟨1, 1, 1, 1, 1, 1, 1, 1, 1, 1, 1, 1, 1, 1, 1, 1, 1, 1, 1, 1⟩

theorem ones_read_back :
    gdbHexIntoIntRegs ((intRegsToGdbHex ones).toList.map ascii) default = (true, ones) :=
  (hexCodecs_exact []).1 ones default ⟨by decide, by decide, by decide⟩

/-- A plus sign is taken for a digit. -/
theorem plus_decoded :
    hexDecode [ascii '+', ascii 'f'] = some [15] ∧ ¬Denotes [ascii '+', ascii 'f'] [15] := by
  constructor
  · decide
  · simp [Denotes, hexDigit_plus]

end Exactness

end NixRedox.Gdbstub
