import Mathlib.Data.List.Basic

set_option autoImplicit false

/- Reading and writing at an offset of a file: a range of bytes, and a file with a range written
over. What lies between the end of a file and a write behind it reads as zeros. -/
namespace NixRedox.FileRanges

/-- The bytes of a file from an offset on, as many as there are. -/
def range (bytes : List UInt8) (offset size : Nat) : List UInt8 := (bytes.drop offset).take size

def overwrite (bytes : List UInt8) (offset : Nat) (written : List UInt8) : List UInt8 :=
  if written = [] then bytes
  else
    (bytes ++ List.replicate (offset - bytes.length) 0).take offset ++ written ++
      bytes.drop (offset + written.length)

variable (bytes : List UInt8) (offset : Nat)

@[simp] theorem length_range (size : Nat) :
    (range bytes offset size).length = min size (bytes.length - offset) := by
  rw [range, List.length_take, List.length_drop]

/-- Two ranges one behind the other are one range. -/
theorem range_append (first second : Nat) :
    range bytes offset first ++ range bytes (offset + first) second =
      range bytes offset (first + second) := by
  rw [range, range, range, ← List.drop_drop, List.take_add]

/-- Past the end of the file there is nothing more to read. -/
theorem range_of_ends {size more : Nat} (ends : bytes.length - offset ≤ size)
    (larger : size ≤ more) :
    range bytes offset size = range bytes offset more := by
  have few : (bytes.drop offset).length ≤ size := by
    rw [List.length_drop]
    exact ends
  rw [range, range, List.take_of_length_le few, List.take_of_length_le (Nat.le_trans few larger)]

@[simp] theorem overwrite_nil : overwrite bytes offset [] = bytes := if_pos rfl

/-- A byte inside the range is the written one, a byte outside is the old one. -/
theorem getElem?_overwrite {written : List UInt8} (something : written ≠ []) (i : Nat) :
    (overwrite bytes offset written)[i]? =
      if i < offset then some (bytes[i]?.getD 0)
      else if i < offset + written.length then written[i - offset]?
      else bytes[i]? := by
  have front : ((bytes ++ List.replicate (offset - bytes.length) 0).take offset).length =
      offset := by
    rw [List.length_take, List.length_append, List.length_replicate]
    omega
  rw [overwrite, if_neg something, List.append_assoc]
  by_cases before : i < offset
  · rw [if_pos before, List.getElem?_append_left (by omega), List.getElem?_take_of_lt before]
    by_cases inside : i < bytes.length
    · rw [List.getElem?_append_left inside, List.getElem?_eq_getElem inside]
      rfl
    · rw [List.getElem?_append_right (by omega), List.getElem?_replicate, if_pos (by omega),
        List.getElem?_eq_none (by omega)]
      rfl
  · rw [if_neg before, List.getElem?_append_right (by omega), front]
    by_cases inside : i < offset + written.length
    · rw [if_pos inside, List.getElem?_append_left (by omega)]
    · rw [if_neg inside, List.getElem?_append_right (by omega), List.getElem?_drop]
      congr 1
      omega

theorem length_overwrite_le (written : List UInt8) :
    (overwrite bytes offset written).length ≤ max bytes.length (offset + written.length) := by
  unfold overwrite
  split
  · exact Nat.le_max_left _ _
  · rw [List.length_append, List.length_append, List.length_take, List.length_append,
      List.length_replicate, List.length_drop]
    omega

/-- A write and another behind it are one write. -/
theorem overwrite_append (front back : List UInt8) :
    overwrite (overwrite bytes offset front) (offset + front.length) back =
      overwrite bytes offset (front ++ back) := by
  by_cases noFront : front = []
  · rw [noFront, overwrite_nil, List.length_nil, Nat.add_zero, List.nil_append]
  · by_cases noBack : back = []
    · rw [noBack, overwrite_nil, List.append_nil]
    · apply List.ext_getElem?
      intro i
      have both : front ++ back ≠ [] := List.append_ne_nil_of_left_ne_nil noFront back
      rw [getElem?_overwrite _ _ noBack, getElem?_overwrite _ _ noFront,
        getElem?_overwrite _ _ both, List.length_append]
      by_cases before : i < offset
      · rw [if_pos before, if_pos before, if_pos (by omega)]
        rfl
      · rw [if_neg before, if_neg before]
        by_cases first : i < offset + front.length
        · rw [if_pos first, if_pos first, if_pos (by omega),
            List.getElem?_append_left (by omega), List.getElem?_eq_getElem (by omega)]
          rfl
        · rw [if_neg first, if_neg first]
          by_cases second : i < offset + front.length + back.length
          · rw [if_pos second, if_pos (by omega), List.getElem?_append_right (by omega)]
            congr 1
            omega
          · rw [if_neg second, if_neg (by omega)]

end NixRedox.FileRanges
