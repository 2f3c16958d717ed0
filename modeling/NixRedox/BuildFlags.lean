import Mathlib

set_option autoImplicit false

/- Open and mapping flags of the build proxy (`build_proxy/handler.rs`), with the
values `redox_syscall` gives them. -/
namespace NixRedox.BuildProxy

def O_RDONLY : UInt64 := 0x00010000
def O_WRONLY : UInt64 := 0x00020000
def O_RDWR : UInt64 := 0x00030000
def O_ACCMODE : UInt64 := O_RDONLY ||| O_WRONLY ||| O_RDWR
def O_APPEND : UInt64 := 0x00080000
def O_CREAT : UInt64 := 0x02000000
def O_TRUNC : UInt64 := 0x04000000
def O_EXCL : UInt64 := 0x08000000
def O_DIRECTORY : UInt64 := 0x10000000
def O_SYMLINK : UInt64 := 0x40000000
def MODE_PERM : UInt64 := 0x0FFF
def AT_REMOVEDIR : UInt64 := 0x200

/-- The mapping flags the proxy tests. -/
structure MapFlags where
  protExec : Bool
  protWrite : Bool
  mapShared : Bool
  deriving DecidableEq, Repr

structure OpenFlags where
  read : Bool
  write : Bool
  create : Bool
  truncate : Bool
  exclusive : Bool
  append : Bool
  directory : Bool
  symlink : Bool
  modePerm : UInt64
  deriving DecidableEq, Repr

def translateOpenFlags (raw : UInt64) : OpenFlags :=
  let mode := raw &&& O_ACCMODE
  { read := mode = O_RDONLY ∨ mode = O_RDWR
    write := mode = O_WRONLY ∨ mode = O_RDWR
    create := raw &&& O_CREAT ≠ 0
    truncate := raw &&& O_TRUNC ≠ 0
    exclusive := raw &&& O_EXCL ≠ 0
    append := raw &&& O_APPEND ≠ 0
    directory := raw &&& O_DIRECTORY ≠ 0
    symlink := raw &&& O_SYMLINK ≠ 0
    modePerm := raw &&& MODE_PERM }

namespace OpenFlags

/-- The operation needs write permission on the allow-list. -/
def wantsWrite (flags : OpenFlags) : Bool := flags.write || flags.create || flags.truncate

/-- The access mode of the real open. A symlink is written through `O_WRONLY`, so
that the write lands on the link itself. -/
def accessMode (flags : OpenFlags) : UInt64 :=
  if flags.write then (if flags.symlink then O_WRONLY else O_RDWR) else O_RDONLY

def toRealFlags (flags : OpenFlags) : UInt64 :=
  flags.accessMode
    ||| (if flags.create then O_CREAT else 0)
    ||| (if flags.truncate then O_TRUNC else 0)
    ||| (if flags.exclusive then O_EXCL else 0)
    ||| (if flags.append then O_APPEND else 0)
    ||| (if flags.directory then O_DIRECTORY else 0)
    ||| (if flags.symlink then O_SYMLINK else 0)
    ||| flags.modePerm

end OpenFlags

/-- An open with these flags can create or truncate the file. -/
def changesFile (flags : UInt64) : Bool := flags &&& (O_CREAT ||| O_TRUNC) ≠ 0

theorem or_and_eq_zero {left right mask : UInt64} (first : left &&& mask = 0)
    (second : right &&& mask = 0) : (left ||| right) &&& mask = 0 := by
  apply UInt64.toBitVec_inj.mp
  have one := UInt64.toBitVec_inj.mpr first
  have two := UInt64.toBitVec_inj.mpr second
  simp only [UInt64.toBitVec_and, UInt64.toBitVec_or] at one two ⊢
  rw [BitVec.and_comm, BitVec.and_or_distrib_left, BitVec.and_comm _ left.toBitVec,
    BitVec.and_comm _ right.toBitVec, one, two]
  rfl

/-- The real open creates or truncates only when the builder asked for it. -/
theorem changesFile_toRealFlags (raw : UInt64)
    (changes : changesFile (translateOpenFlags raw).toRealFlags = true) :
    (translateOpenFlags raw).wantsWrite = true := by
  by_contra readOnly
  have parts : (translateOpenFlags raw).write = false ∧
      (translateOpenFlags raw).create = false ∧ (translateOpenFlags raw).truncate = false := by
    simpa [OpenFlags.wantsWrite, and_assoc] using readOnly
  have noPerm : raw &&& MODE_PERM &&& (O_CREAT ||| O_TRUNC) = 0 := by
    rw [UInt64.and_assoc]
    have apart : MODE_PERM &&& (O_CREAT ||| O_TRUNC) = 0 := by decide
    rw [apart, UInt64.and_zero]
  have none : (translateOpenFlags raw).toRealFlags &&& (O_CREAT ||| O_TRUNC) = 0 := by
    unfold OpenFlags.toRealFlags OpenFlags.accessMode
    simp only [parts.1, parts.2.1, parts.2.2, Bool.false_eq_true, ↓reduceIte]
    refine or_and_eq_zero (or_and_eq_zero (or_and_eq_zero (or_and_eq_zero (or_and_eq_zero
      (or_and_eq_zero (or_and_eq_zero ?_ ?_) ?_) ?_) ?_) ?_) ?_) noPerm
    all_goals first | decide | (split <;> decide)
  simp [changesFile, none] at changes

theorem or_and_eq_zero_iff {left right mask : UInt64} :
    (left ||| right) &&& mask = 0 ↔ left &&& mask = 0 ∧ right &&& mask = 0 := by
  constructor
  · intro none
    have cleared := UInt64.toBitVec_inj.mpr none
    simp only [UInt64.toBitVec_and, UInt64.toBitVec_or] at cleared
    rw [BitVec.and_comm, BitVec.and_or_distrib_left] at cleared
    have both := BitVec.or_eq_zero_iff.mp cleared
    constructor
    · apply UInt64.toBitVec_inj.mp
      rw [UInt64.toBitVec_and, BitVec.and_comm]
      exact both.1
    · apply UInt64.toBitVec_inj.mp
      rw [UInt64.toBitVec_and, BitVec.and_comm]
      exact both.2
  · rintro ⟨first, second⟩
    exact or_and_eq_zero first second

/-- The real open truncates exactly when the builder asked for it. -/
theorem toRealFlags_truncate (raw : UInt64) :
    (translateOpenFlags raw).toRealFlags &&& O_TRUNC ≠ 0 ↔
      (translateOpenFlags raw).truncate = true := by
  have noPerm : raw &&& MODE_PERM &&& O_TRUNC = 0 := by
    rw [UInt64.and_assoc]
    have apart : MODE_PERM &&& O_TRUNC = 0 := by decide
    rw [apart, UInt64.and_zero]
  have others : ∀ (flag : Bool) (value : UInt64), value &&& O_TRUNC = 0 →
      (if flag then value else 0) &&& O_TRUNC = 0 := by
    intro flag value apart
    cases flag
    · simp
    · exact apart
  have access : (translateOpenFlags raw).accessMode &&& O_TRUNC = 0 := by
    unfold OpenFlags.accessMode
    split
    · split <;> decide
    · decide
  have asked : (if (translateOpenFlags raw).truncate then O_TRUNC else 0) &&& O_TRUNC ≠ 0 ↔
      (translateOpenFlags raw).truncate = true := by
    cases (translateOpenFlags raw).truncate <;> decide
  have permissions : (translateOpenFlags raw).modePerm &&& O_TRUNC = 0 := noPerm
  rw [← asked, not_iff_not]
  unfold OpenFlags.toRealFlags
  simp only [or_and_eq_zero_iff, access, permissions, others _ O_CREAT (by decide),
    others _ O_EXCL (by decide), others _ O_APPEND (by decide), others _ O_DIRECTORY (by decide),
    others _ O_SYMLINK (by decide), true_and, and_true]

end NixRedox.BuildProxy
