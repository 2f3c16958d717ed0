import NixRedox.Bytes
import NixRedox.SeekableFile

set_option autoImplicit false

/- `fix_elf_palign`: the program headers of a file whose alignment is zero get 1. -/
namespace NixRedox.ElfPalign

open Bytes (littleEndian littleEndian_cons littleEndian_inj toLittleEndian)
open FileRanges (overwrite range)
open SeekableFile

def elfMagic : List UInt8 := [0x7F, 0x45, 0x4C, 0x46]
def elfclass64 : UInt8 := 2

def ePhoffOffset : Nat := 32
def ePhentsizeOffset : Nat := 54
def ePhnumOffset : Nat := 56
def pAlignOffset : Nat := 48

/-- Where the program headers are. -/
structure Header where
  ePhoff : Nat
  ePhentsize : Nat
  ePhnum : Nat

/-- The part before the loop: none where the file is returned from as it is. -/
def readHeader : Attempt (Option Header) := do
  let magic ← readExact 4
  if magic ≠ elfMagic then
    return none
  let eiClass ← readExact 1
  if eiClass ≠ [elfclass64] then
    return none
  seek ePhoffOffset
  let ePhoff ← readExact 8
  seek ePhentsizeOffset
  let ePhentsize ← readExact 2
  seek ePhnumOffset
  let ePhnum ← readExact 2
  return some ⟨littleEndian ePhoff, littleEndian ePhentsize, littleEndian ePhnum⟩

/-- A turn of the loop, with the number of headers that have been fixed. -/
def fixEntry (header : Header) (fixed i : Nat) : Attempt Nat := do
  let entry ← checked 64 (i * header.ePhentsize)
  let phdrOffset ← checked 64 (header.ePhoff + entry)
  let alignOffset ← checked 64 (phdrOffset + pAlignOffset)
  seek alignOffset
  let pAlign ← readExact 8
  if littleEndian pAlign = 0 then
    seek alignOffset
    writeAll (toLittleEndian 8 1)
    checked 32 (fixed + 1)
  else
    return fixed

/-- The loop. -/
def fixEntries (header : Header) (count : Nat) : Attempt Nat :=
  (List.range count).foldlM (fixEntry header) 0

def fixElfPalign : Attempt Bool := do
  match ← readHeader with
  | none => return false
  | some header =>
      let fixed ← fixEntries header header.ePhnum
      return decide (0 < fixed)

/-- What is returned for the bytes of a file, and its bytes then. -/
def runOn (bytes : List UInt8) : Except Failure Bool × List UInt8 :=
  match fixElfPalign.run ⟨bytes, 0⟩ with
  | .ok changed file => (.ok changed, file.bytes)
  | .error failure file => (.error failure, file.bytes)

section Headers

variable {bytes : List UInt8}

/-- The alignment of a header, or what there is of it. -/
def field (bytes : List UInt8) (offset : Nat) : Nat := littleEndian (range bytes offset 8)

def headerOf (bytes : List UInt8) : Header :=
  ⟨littleEndian (range bytes ePhoffOffset 8), littleEndian (range bytes ePhentsizeOffset 2),
    littleEndian (range bytes ePhnumOffset 2)⟩

/-- The offset of an alignment. -/
def Header.alignOffset (header : Header) (i : Nat) : Nat :=
  header.ePhoff + i * header.ePhentsize + pAlignOffset

/-- A file whose table is looked at: the byte order is not. -/
def Accepted (bytes : List UInt8) : Prop :=
  range bytes 0 5 = elfMagic ++ [elfclass64] ∧ ePhnumOffset + 2 ≤ bytes.length

theorem range_zero_five (bytes : List UInt8) :
    range bytes 0 5 = range bytes 0 4 ++ range bytes 4 1 := by
  unfold range
  rw [List.drop_zero]
  exact @List.take_add _ bytes 4 1

/-- The first bytes, as they are read. -/
theorem ident_iff (long : 5 ≤ bytes.length) :
    range bytes 0 5 = elfMagic ++ [elfclass64] ↔
      range bytes 0 4 = elfMagic ∧ range bytes 4 1 = [elfclass64] := by
  rw [range_zero_five]
  constructor
  · intro same
    exact List.append_inj same (length_inside (by omega))
  · rintro ⟨magic, eiClass⟩
    rw [magic, eiClass]

theorem readHeader_accepted (accepted : Accepted bytes) :
    ∃ pos, readHeader.run ⟨bytes, 0⟩ = .ok (some (headerOf bytes)) ⟨bytes, pos⟩ := by
  obtain ⟨ident, long⟩ := accepted
  have long : 58 ≤ bytes.length := long
  obtain ⟨magic, eiClass⟩ := (ident_iff (by omega)).mp ident
  refine ⟨58, ?_⟩
  have inside : ∀ offset count, offset + count ≤ 58 → Inside bytes offset count :=
    fun offset count below => ⟨by omega, by omega⟩
  unfold readHeader
  rw [run_readExact (by show 0 + 4 ≤ bytes.length; omega)]
  simp only [magic, ne_eq, not_true_eq_false, if_false]
  rw [run_readExact (by show 0 + 4 + 1 ≤ bytes.length; omega)]
  simp only [Nat.zero_add, eiClass, not_true_eq_false, if_false]
  rw [run_seek_readExact (inside 32 8 (by omega)), run_seek_readExact (inside 54 2 (by omega)),
    run_seek_readExact (inside 56 2 (by omega))]
  rfl

/-- A file that is not accepted is left as it is; one with the magic and the class is too
short. -/
theorem readHeader_refused (refused : ¬ Accepted bytes) :
    (∃ failure pos, failure ≠ .overflow ∧
      readHeader.run ⟨bytes, 0⟩ = .error failure ⟨bytes, pos⟩) ∨
    (range bytes 0 5 ≠ elfMagic ++ [elfclass64] ∧
      ∃ pos, readHeader.run ⟨bytes, 0⟩ = .ok none ⟨bytes, pos⟩) := by
  unfold readHeader
  by_cases four : 4 ≤ bytes.length
  case neg =>
    obtain ⟨pos, failed⟩ := @run_readExact_short _ ⟨bytes, 0⟩ 4 (Nat.lt_of_not_le four) (by decide) _
    exact .inl ⟨_, pos, by decide, failed⟩
  rw [run_readExact four]
  by_cases magic : range bytes 0 4 = elfMagic
  case neg =>
    refine .inr ⟨?_, 4, ?_⟩
    · intro same
      rw [range_zero_five] at same
      exact magic (List.append_inj same (length_inside (by omega))).1
    · simp only [magic, ne_eq, not_false_eq_true, if_true]
      rfl
  simp only [magic, ne_eq, not_true_eq_false, if_false, Nat.zero_add]
  by_cases five : 5 ≤ bytes.length
  case neg =>
    obtain ⟨pos, failed⟩ := @run_readExact_short _ ⟨bytes, 4⟩ 1 (Nat.lt_of_not_le five) (by decide) _
    exact .inl ⟨_, pos, by decide, failed⟩
  rw [run_readExact five]
  by_cases eiClass : range bytes 4 1 = [elfclass64]
  case neg =>
    refine .inr ⟨fun same => eiClass ((ident_iff five).mp same).2, 5, ?_⟩
    simp only [eiClass, not_false_eq_true, if_true]
    rfl
  have short : bytes.length < 58 := by
    by_contra long
    exact refused ⟨(ident_iff five).mpr ⟨magic, eiClass⟩, Nat.le_of_not_lt long⟩
  simp only [eiClass, not_true_eq_false, if_false]
  left
  by_cases phoff : Inside bytes ePhoffOffset 8
  case neg => exact run_seek_readExact_outside phoff (by decide) _
  rw [run_seek_readExact phoff]
  by_cases phentsize : Inside bytes ePhentsizeOffset 2
  case neg => exact run_seek_readExact_outside phentsize (by decide) _
  rw [run_seek_readExact phentsize]
  have phnum : ¬ Inside bytes ePhnumOffset 2 := fun inside => by
    have long : 58 ≤ bytes.length := inside.2
    omega
  exact run_seek_readExact_outside phnum (by decide) _

end Headers

section Fields

variable {bytes other : List UInt8} {offset count p : Nat}

theorem getElem?_range (bytes : List UInt8) (offset count k : Nat) :
    (range bytes offset count)[k]? = if k < count then bytes[offset + k]? else none := by
  rw [range, List.getElem?_take, List.getElem?_drop]

theorem range_congr
    (same : ∀ p, offset ≤ p → p < offset + count → bytes[p]? = other[p]?) :
    range bytes offset count = range other offset count := by
  apply List.ext_getElem?
  intro k
  rw [getElem?_range, getElem?_range]
  split
  · exact same _ (by omega) (by omega)
  · rfl

/-- An alignment that is the same has the same bytes. -/
theorem of_field_eq (there : offset + 8 ≤ bytes.length) (long : other.length = bytes.length)
    (same : field bytes offset = field other offset) (after : offset ≤ p) (below : p < offset + 8) :
    bytes[p]? = other[p]? := by
  have sizes : (range bytes offset 8).length = (range other offset 8).length := by
    rw [length_inside there, length_inside (by omega)]
  have slices := littleEndian_inj sizes same
  have here := congrArg (fun bytes => bytes[p - offset]?) slices
  simp only [getElem?_range, if_pos (by omega : p - offset < 8)] at here
  rwa [show offset + (p - offset) = p by omega] at here

theorem littleEndian_eq_zero {bytes : List UInt8} :
    littleEndian bytes = 0 ↔ bytes = List.replicate bytes.length 0 := by
  induction bytes with
  | nil => simp [littleEndian]
  | cons byte bytes ih =>
      rw [littleEndian_cons, List.length_cons, List.replicate_succ, List.cons.injEq, ← ih,
        ← UInt8.toNat_inj]
      show _ ↔ byte.toNat = 0 ∧ _
      omega

/-- Where an alignment is zero, all of its bytes are. -/
theorem field_eq_zero (there : offset + 8 ≤ bytes.length) :
    field bytes offset = 0 ↔ ∀ p, offset ≤ p → p < offset + 8 → bytes[p]? = some 0 := by
  unfold field
  rw [littleEndian_eq_zero, length_inside there]
  constructor
  · intro zeros p after below
    have here := congrArg (fun bytes => bytes[p - offset]?) zeros
    simp only [getElem?_range, if_pos (by omega : p - offset < 8), List.getElem?_replicate] at here
    rwa [show offset + (p - offset) = p by omega] at here
  · intro zeros
    apply List.ext_getElem?
    intro k
    rw [getElem?_range, List.getElem?_replicate]
    split
    · exact zeros _ (by omega) (by omega)
    · rfl

/-- The number 1 over a zero alignment changes one byte. -/
theorem overwrite_one (there : offset + 8 ≤ bytes.length) (zero : field bytes offset = 0) :
    overwrite bytes offset (toLittleEndian 8 1) = bytes.set offset 1 := by
  have one : toLittleEndian 8 1 = 1 :: List.replicate 7 0 := by decide
  have zeros : range bytes offset 8 = 0 :: List.replicate 7 0 := by
    have slices := littleEndian_eq_zero.mp zero
    rwa [length_inside there] at slices
  have front : (bytes.take offset).length = offset := by
    rw [List.length_take]
    omega
  have split : bytes = bytes.take offset ++ (0 :: List.replicate 7 0 ++ bytes.drop (offset + 8)) := by
    rw [← zeros, range, ← List.drop_drop, List.take_append_drop, List.take_append_drop]
  have whole : overwrite bytes offset (toLittleEndian 8 1) =
      bytes.take offset ++ (1 :: List.replicate 7 0 ++ bytes.drop (offset + 8)) := by
    rw [overwrite, one, Nat.sub_eq_zero_of_le (by omega)]
    simp
  rw [whole]
  conv_rhs => rw [split]
  rw [List.set_append_right _ _ (Nat.le_of_eq front), front, Nat.sub_self]
  rfl

end Fields

section Marks

variable {bytes : List UInt8} {header : Header} {count i p : Nat}

/-- The first byte of a zero alignment, of so many headers. -/
def Marked (bytes : List UInt8) (header : Header) (count p : Nat) : Prop :=
  ∃ i < count, header.alignOffset i = p ∧ field bytes p = 0

instance (bytes : List UInt8) (header : Header) (count : Nat) :
    DecidablePred (Marked bytes header count) := fun _ => Nat.decidableExistsLT _

/-- The bytes with all marks set. -/
def marked (bytes : List UInt8) (header : Header) (count : Nat) : List UInt8 :=
  bytes.mapIdx fun p byte => if Marked bytes header count p then 1 else byte

theorem length_marked : (marked bytes header count).length = bytes.length := List.length_mapIdx

theorem getElem?_marked :
    (marked bytes header count)[p]? =
      (bytes[p]?).map fun byte => if Marked bytes header count p then 1 else byte := by
  rw [marked, List.getElem?_mapIdx]

theorem marked_zero : marked bytes header 0 = bytes := by
  apply List.ext_getElem?
  intro p
  have none_ : ¬ Marked bytes header 0 p := by
    rintro ⟨i, below, _⟩
    exact absurd below (Nat.not_lt_zero i)
  rw [getElem?_marked]
  simp [none_]

theorem marked_eq_self (none_ : ∀ p, ¬ Marked bytes header count p) :
    marked bytes header count = bytes := by
  apply List.ext_getElem?
  intro p
  rw [getElem?_marked]
  simp [none_ p]

theorem alignOffset_mono {j : Nat} (before : j ≤ i) : header.alignOffset j ≤ header.alignOffset i := by
  have less := Nat.mul_le_mul_right header.ePhentsize before
  unfold Header.alignOffset
  omega

/-- A mark is not before the offset of an earlier header. -/
theorem Marked.le_alignOffset (mark : Marked bytes header count p) (later : count ≤ i + 1) :
    p ≤ header.alignOffset i := by
  obtain ⟨j, below, rfl, _⟩ := mark
  exact alignOffset_mono (by omega)

/-- An alignment that is zero beside the marks was zero and has none of them. -/
theorem of_field_marked_eq_zero {offset : Nat} (there : offset + 8 ≤ bytes.length)
    (zero : field (marked bytes header count) offset = 0) :
    field bytes offset = 0 ∧
      ∀ p, offset ≤ p → p < offset + 8 → ¬ Marked bytes header count p := by
  have thereToo : offset + 8 ≤ (marked bytes header count).length := by rwa [length_marked]
  have zeros := (field_eq_zero thereToo).mp zero
  have each : ∀ p, offset ≤ p → p < offset + 8 →
      bytes[p]? = some 0 ∧ ¬ Marked bytes header count p := by
    intro p after below
    have here := zeros p after below
    rw [getElem?_marked, Option.map_eq_some_iff] at here
    obtain ⟨byte, found, value⟩ := here
    split at value
    · cases value
    · exact ⟨value ▸ found, ‹_›⟩
  refine ⟨(field_eq_zero there).mpr fun p after below => (each p after below).1, ?_⟩
  exact fun p after below => (each p after below).2

theorem range_marked_of_unmarked {offset size : Nat}
    (unmarked : ∀ p, offset ≤ p → p < offset + size → ¬ Marked bytes header count p) :
    range (marked bytes header count) offset size = range bytes offset size := by
  apply range_congr
  intro p after below
  rw [getElem?_marked]
  simp [unmarked p after below]

theorem field_marked_of_unmarked {offset : Nat}
    (unmarked : ∀ p, offset ≤ p → p < offset + 8 → ¬ Marked bytes header count p) :
    field (marked bytes header count) offset = field bytes offset :=
  congrArg littleEndian (range_marked_of_unmarked unmarked)

/-- The alignment that a turn reads is zero if it was, and has not been marked already. -/
theorem field_marked_eq_zero (there : header.alignOffset count + 8 ≤ bytes.length) :
    field (marked bytes header count) (header.alignOffset count) = 0 ↔
      field bytes (header.alignOffset count) = 0 ∧
        ¬ Marked bytes header count (header.alignOffset count) := by
  constructor
  · intro zero
    obtain ⟨own, unmarked⟩ := of_field_marked_eq_zero there zero
    exact ⟨own, unmarked _ (Nat.le_refl _) (by omega)⟩
  · rintro ⟨zero, unmarked⟩
    rw [field_marked_of_unmarked, zero]
    intro p after below mark
    have least := mark.le_alignOffset (Nat.le_succ count)
    have same : p = header.alignOffset count := by omega
    exact unmarked (same ▸ mark)

theorem marked_iff_succ :
    Marked bytes header (count + 1) p ↔
      Marked bytes header count p ∨ header.alignOffset count = p ∧ field bytes p = 0 := by
  constructor
  · rintro ⟨i, below, same, zero⟩
    rcases Nat.lt_succ_iff_lt_or_eq.mp below with early | rfl
    · exact .inl ⟨i, early, same, zero⟩
    · exact .inr ⟨same, zero⟩
  · rintro (⟨i, below, same, zero⟩ | ⟨same, zero⟩)
    · exact ⟨i, Nat.lt_succ_of_lt below, same, zero⟩
    · exact ⟨count, Nat.lt_succ_self count, same, zero⟩

theorem marked_succ (there : header.alignOffset count + 8 ≤ bytes.length) :
    marked bytes header (count + 1) =
      if field (marked bytes header count) (header.alignOffset count) = 0 then
        (marked bytes header count).set (header.alignOffset count) 1
      else
        marked bytes header count := by
  apply List.ext_getElem?
  intro p
  have reads := @field_marked_eq_zero bytes header count there
  split
  · rename_i read
    rw [List.getElem?_set, getElem?_marked, getElem?_marked, length_marked]
    by_cases here : header.alignOffset count = p
    · subst here
      have mark : Marked bytes header (count + 1) (header.alignOffset count) :=
        marked_iff_succ.mpr (.inr ⟨rfl, (reads.mp read).1⟩)
      rw [if_pos rfl, if_pos (by omega), List.getElem?_eq_getElem (by omega)]
      simp [mark]
    · rw [if_neg here]
      simp [marked_iff_succ, here]
  · rename_i read
    have same : Marked bytes header (count + 1) p ↔ Marked bytes header count p := by
      rw [marked_iff_succ]
      constructor
      · rintro (mark | ⟨rfl, zero⟩)
        · exact mark
        · by_contra unmarked
          exact read (reads.mpr ⟨zero, unmarked⟩)
      · exact .inl
    rw [getElem?_marked, getElem?_marked]
    simp [same]

end Marks

section Turns

variable {bytes out : List UInt8} {header : Header} {count fixed i pos : Nat}

theorem fixEntry_inside (small : header.ePhentsize < 2 ^ 16) (turn : i < 2 ^ 16)
    (few : fixed < 2 ^ 16) (inside : Inside out (header.alignOffset i) 8) :
    ∃ after, (fixEntry header fixed i).run ⟨out, pos⟩ =
      if field out (header.alignOffset i) = 0 then
        .ok (fixed + 1) ⟨out.set (header.alignOffset i) 1, after⟩
      else
        .ok fixed ⟨out, after⟩ := by
  have product : i * header.ePhentsize < 2 ^ 16 * 2 ^ 16 :=
    Nat.mul_lt_mul'' turn small
  have signed : header.ePhoff + i * header.ePhentsize + pAlignOffset < 2 ^ 63 := inside.1
  refine ⟨header.alignOffset i + 8, ?_⟩
  unfold fixEntry
  rw [run_checked (by omega), run_checked (by omega), run_checked (by omega),
    run_seek_readExact inside]
  show EStateM.run (if field out (header.alignOffset i) = 0 then _ else _) _ = _
  split
  · rename_i zero
    rw [run_seek signed, run_writeAll]
    show EStateM.run (checked 32 (fixed + 1)) ⟨overwrite out (header.alignOffset i) _, _⟩ = _
    rw [overwrite_one inside.2 zero, checked, if_pos (by omega)]
    rfl
  · rfl

theorem fixEntry_outside (small : header.ePhentsize < 2 ^ 16) (turn : i < 2 ^ 16)
    (outside : ¬ Inside out (header.alignOffset i) 8) :
    ∃ failure after, (fixEntry header fixed i).run ⟨out, pos⟩ = .error failure ⟨out, after⟩ ∧
      (failure = .overflow ↔ 2 ^ 64 ≤ header.alignOffset i) := by
  have product : i * header.ePhentsize < 2 ^ 16 * 2 ^ 16 := Nat.mul_lt_mul'' turn small
  have offset : header.alignOffset i = header.ePhoff + i * header.ePhentsize + 48 := rfl
  unfold fixEntry
  rw [run_checked (by omega)]
  by_cases start : header.ePhoff + i * header.ePhentsize < 2 ^ 64
  case neg =>
    refine ⟨.overflow, pos, run_checked_overflow start _, by simp; omega⟩
  rw [run_checked start]
  by_cases behind : header.ePhoff + i * header.ePhentsize + pAlignOffset < 2 ^ 64
  case neg =>
    refine ⟨.overflow, pos, run_checked_overflow behind _, by simp [pAlignOffset] at behind ⊢; omega⟩
  rw [run_checked behind]
  obtain ⟨failure, after, other, failed⟩ := @run_seek_readExact_outside _ ⟨out, pos⟩
    (header.ePhoff + i * header.ePhentsize + pAlignOffset) 8 outside (by decide) _
  refine ⟨failure, after, failed, ?_⟩
  have below : ¬ 2 ^ 64 ≤ header.alignOffset i := Nat.not_le_of_lt behind
  exact ⟨fun same => absurd same other, fun above => absurd above below⟩

theorem fixEntries_succ :
    fixEntries header (count + 1) = fixEntries header count >>= fun fixed =>
      fixEntry header fixed count := by
  rw [fixEntries, fixEntries, List.range_succ, List.foldlM_append]
  simp

/-- The loop comes to its end, or fails at the first header that is not there. -/
theorem fixEntries_run (small : header.ePhentsize < 2 ^ 16) (turns : count < 2 ^ 16) :
    ((∀ i < count, Inside bytes (header.alignOffset i) 8) ∧
      ∃ fixed after, (fixEntries header count).run ⟨bytes, pos⟩ =
          .ok fixed ⟨marked bytes header count, after⟩ ∧ fixed ≤ count ∧
        (0 < fixed ↔ ∃ i < count, field bytes (header.alignOffset i) = 0)) ∨
    ∃ stop < count, (∀ i < stop, Inside bytes (header.alignOffset i) 8) ∧
      ¬ Inside bytes (header.alignOffset stop) 8 ∧
      ∃ failure after, (fixEntries header count).run ⟨bytes, pos⟩ =
          .error failure ⟨marked bytes header stop, after⟩ ∧
        (failure = .overflow ↔ 2 ^ 64 ≤ header.alignOffset stop) := by
  induction count with
  | zero =>
      refine .inl ⟨by simp, 0, pos, ?_, Nat.le_refl 0, by simp⟩
      rw [marked_zero]
      rfl
  | succ count ih =>
      rw [fixEntries_succ, EStateM.run_bind]
      rcases ih (by omega) with ⟨inside, fixed, after, ran, few, some_⟩ |
        ⟨stop, below, inside, outside, failure, after, ran, why⟩
      · rw [ran]
        by_cases there : Inside bytes (header.alignOffset count) 8
        · left
          have thereToo : Inside (marked bytes header count) (header.alignOffset count) 8 := by
            rwa [Inside, length_marked]
          obtain ⟨last, turn⟩ := @fixEntry_inside _ header fixed count after small (by omega)
            (by omega) thereToo
          have inside' : ∀ i < count + 1, Inside bytes (header.alignOffset i) 8 := by
            intro i below
            rcases Nat.lt_succ_iff_lt_or_eq.mp below with early | rfl
            · exact inside i early
            · exact there
          have next := @marked_succ bytes header count there.2
          have reads := @field_marked_eq_zero bytes header count there.2
          refine ⟨inside', ?_⟩
          by_cases zero : field (marked bytes header count) (header.alignOffset count) = 0
          · rw [if_pos zero] at turn next
            refine ⟨fixed + 1, last, next ▸ turn, Nat.succ_le_succ few, ?_⟩
            exact ⟨fun _ => ⟨count, Nat.lt_succ_self count, (reads.mp zero).1⟩,
              fun _ => Nat.succ_pos fixed⟩
          · rw [if_neg zero] at turn next
            refine ⟨fixed, last, next ▸ turn, Nat.le_succ_of_le few, some_.trans ?_⟩
            constructor
            · rintro ⟨i, below, own⟩
              exact ⟨i, Nat.lt_succ_of_lt below, own⟩
            · rintro ⟨i, below, own⟩
              rcases Nat.lt_succ_iff_lt_or_eq.mp below with early | rfl
              · exact ⟨i, early, own⟩
              · by_contra none_
                apply zero
                refine reads.mpr ⟨own, ?_⟩
                rintro ⟨j, early, same, zeroToo⟩
                exact none_ ⟨j, early, same ▸ zeroToo⟩
        · right
          have outside : ¬ Inside (marked bytes header count) (header.alignOffset count) 8 := by
            rwa [Inside, length_marked]
          obtain ⟨failure, last, turn, why⟩ :=
            @fixEntry_outside _ header fixed count after small (by omega) outside
          exact ⟨count, Nat.lt_succ_self count, inside, there, failure, last, turn, why⟩
      · rw [ran]
        exact .inr ⟨stop, Nat.lt_succ_of_lt below, inside, outside, failure, after, rfl, why⟩

end Turns

end NixRedox.ElfPalign
