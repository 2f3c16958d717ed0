import NixRedox.FileRanges
import Mathlib

set_option autoImplicit false

/- A file that is read and overwritten at a position. Nothing here knows what is in it. -/
namespace NixRedox.SeekableFile

open FileRanges (overwrite range)

structure File where
  bytes : List UInt8
  pos : Nat

/-- Why an attempt stops: two errors of a file, and an addition that overflows. -/
inductive Failure where
  | invalidInput
  | unexpectedEof
  | overflow
  deriving DecidableEq

abbrev Attempt := EStateM Failure File

section Operations

/-- `Seek::seek` from the start; the system takes a signed offset. -/
def seek (offset : Nat) : Attempt Unit := do
  if offset < 2 ^ 63 then
    modify fun file => { file with pos := offset }
  else
    throw .invalidInput

/-- `Read::read_exact`. -/
def readExact (count : Nat) : Attempt (List UInt8) := do
  let file ← get
  let read := range file.bytes file.pos count
  set { file with pos := file.pos + read.length }
  if read.length = count then return read else throw .unexpectedEof

/-- `Write::write_all`. -/
def writeAll (data : List UInt8) : Attempt Unit :=
  modify fun file =>
    { bytes := overwrite file.bytes file.pos data, pos := file.pos + data.length }

/-- A value of so many bits. -/
def checked (bits value : Nat) : Attempt Nat :=
  if value < 2 ^ bits then return value else throw .overflow

end Operations

section Runs

variable {β : Type} {file : File}

theorem run_checked {bits value : Nat} (small : value < 2 ^ bits) (next : Nat → Attempt β) :
    (checked bits value >>= next).run file = (next value).run file := by
  rw [EStateM.run_bind, checked, if_pos small]
  rfl

theorem run_checked_overflow {bits value : Nat} (large : ¬ value < 2 ^ bits)
    (next : Nat → Attempt β) :
    (checked bits value >>= next).run file = .error .overflow file := by
  rw [EStateM.run_bind, checked, if_neg large]
  rfl

/-- So many bytes are there from an offset that can be sought. -/
def Inside (bytes : List UInt8) (offset count : Nat) : Prop :=
  offset < 2 ^ 63 ∧ offset + count ≤ bytes.length

instance (bytes : List UInt8) (offset count : Nat) : Decidable (Inside bytes offset count) :=
  inferInstanceAs (Decidable (_ ∧ _))

theorem length_inside {bytes : List UInt8} {offset count : Nat}
    (there : offset + count ≤ bytes.length) : (range bytes offset count).length = count := by
  rw [FileRanges.length_range]
  omega

theorem run_readExact {count : Nat} (there : file.pos + count ≤ file.bytes.length)
    (next : List UInt8 → Attempt β) :
    (readExact count >>= next).run file =
      (next (range file.bytes file.pos count)).run ⟨file.bytes, file.pos + count⟩ := by
  have size := length_inside there
  rw [EStateM.run_bind]
  simp [readExact, EStateM.run_bind, size, -FileRanges.length_range]

theorem run_readExact_short {count : Nat} (short : file.bytes.length < file.pos + count)
    (some_ : 0 < count) (next : List UInt8 → Attempt β) :
    ∃ pos, (readExact count >>= next).run file = .error .unexpectedEof ⟨file.bytes, pos⟩ := by
  have size : (range file.bytes file.pos count).length ≠ count := by
    rw [FileRanges.length_range]
    omega
  refine ⟨file.pos + (range file.bytes file.pos count).length, ?_⟩
  rw [EStateM.run_bind]
  simp [readExact, EStateM.run_bind, size, -FileRanges.length_range]
  rfl

theorem run_seek {offset : Nat} (signed : offset < 2 ^ 63) (next : Attempt β) :
    (seek offset >>= fun _ => next).run file = next.run ⟨file.bytes, offset⟩ := by
  rw [EStateM.run_bind, seek, if_pos signed]
  rfl

theorem run_seek_readExact {offset count : Nat} (inside : Inside file.bytes offset count)
    (next : List UInt8 → Attempt β) :
    (seek offset >>= fun _ => readExact count >>= next).run file =
      (next (range file.bytes offset count)).run ⟨file.bytes, offset + count⟩ := by
  rw [run_seek inside.1]
  exact run_readExact inside.2 next

/-- Reading where nothing is fails and leaves the file as it is. -/
theorem run_seek_readExact_outside {offset count : Nat} (outside : ¬ Inside file.bytes offset count)
    (some_ : 0 < count) (next : List UInt8 → Attempt β) :
    ∃ failure pos, failure ≠ .overflow ∧
      (seek offset >>= fun _ => readExact count >>= next).run file =
        .error failure ⟨file.bytes, pos⟩ := by
  by_cases signed : offset < 2 ^ 63
  · have short : file.bytes.length < offset + count := by
      by_contra long
      exact outside ⟨signed, Nat.le_of_not_lt long⟩
    obtain ⟨pos, failed⟩ := @run_readExact_short _ ⟨file.bytes, offset⟩ count short some_ next
    exact ⟨_, pos, by decide, (run_seek signed _).trans failed⟩
  · refine ⟨.invalidInput, file.pos, by decide, ?_⟩
    rw [EStateM.run_bind, seek, if_neg signed]
    rfl

theorem run_writeAll (data : List UInt8) (next : Attempt β) :
    (writeAll data >>= fun _ => next).run file =
      next.run ⟨overwrite file.bytes file.pos data, file.pos + data.length⟩ := by
  rw [EStateM.run_bind]
  rfl

end Runs

end NixRedox.SeekableFile
