import Mathlib

set_option autoImplicit false

/- A memory of bytes: reading and writing ranges of it. Nothing here knows a program. -/
namespace NixRedox.ByteMemory

abbrev Memory := Nat → UInt8

def read (memory : Memory) (addr len : Nat) : List UInt8 :=
  (List.range len).map fun index => memory (addr + index)

def write (memory : Memory) (addr : Nat) (data : List UInt8) : Memory := fun cell =>
  if addr ≤ cell then data.getD (cell - addr) (memory cell) else memory cell

variable {memory : Memory} {addr : Nat} {data : List UInt8}

theorem write_inside {index : Nat} {byte : UInt8} (inside : data[index]? = some byte) :
    write memory addr data (addr + index) = byte := by
  have lower : addr ≤ addr + index := Nat.le_add_right addr index
  rw [write, if_pos lower, Nat.add_sub_cancel_left, List.getD_eq_getElem?_getD, inside]
  rfl

theorem write_outside {cell : Nat}
    (outside : ∀ index byte, data[index]? = some byte → cell ≠ addr + index) :
    write memory addr data cell = memory cell := by
  unfold write
  split
  · rename_i lower
    rw [List.getD_eq_getElem?_getD]
    cases found : data[cell - addr]? with
    | none => rfl
    | some byte =>
        have apart := outside (cell - addr) byte found
        omega
  · rfl

/-- A cell keeps its content or gets a byte of the data. -/
theorem write_cases (addr : Nat) (data : List UInt8) (cell : Nat) :
    (∃ index byte, data[index]? = some byte ∧ cell = addr + index) ∨
      ∀ memory : Memory, write memory addr data cell = memory cell := by
  by_cases inside : ∃ index byte, data[index]? = some byte ∧ cell = addr + index
  · exact .inl inside
  · right
    intro memory
    apply write_outside
    intro index byte found same
    exact inside ⟨index, byte, found, same⟩

theorem write_single {byte : UInt8} {cell : Nat} (other : cell ≠ addr) :
    write memory addr [byte] cell = memory cell := by
  apply write_outside
  intro index single found
  cases index with
  | zero => exact other
  | succ index => cases found

theorem read_write : read (write memory addr data) addr data.length = data := by
  apply List.ext_getElem
  · simp [read]
  · intro index _ inside
    simp only [read, List.getElem_map, List.getElem_range]
    exact write_inside (List.getElem?_eq_getElem inside)

/-- What is written elsewhere is not read. -/
theorem read_write_apart {from_ len : Nat}
    (apart : addr + data.length ≤ from_ ∨ from_ + len ≤ addr) :
    read (write memory addr data) from_ len = read memory from_ len := by
  apply List.map_congr_left
  intro offset inside
  rw [List.mem_range] at inside
  apply write_outside
  intro index byte found
  have short : index < data.length := (List.getElem?_eq_some_iff.mp found).1
  omega

end NixRedox.ByteMemory
