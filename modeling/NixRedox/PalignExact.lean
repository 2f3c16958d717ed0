import NixRedox.ElfPalign

set_option autoImplicit false

/- Which files `fix_elf_palign` changes nothing else in than zero alignments. -/
namespace NixRedox.ElfPalign

open Bytes (littleEndian littleEndian_lt toLittleEndian)
open FileRanges (overwrite range)
open SeekableFile

section Runs

variable {bytes : List UInt8}

theorem runOn_refused (refused : ¬ Accepted bytes) :
    (range bytes 0 5 ≠ elfMagic ++ [elfclass64] ∧ runOn bytes = (.ok false, bytes)) ∨
      ∃ failure, failure ≠ .overflow ∧ runOn bytes = (.error failure, bytes) := by
  unfold runOn fixElfPalign
  rw [EStateM.run_bind]
  rcases readHeader_refused refused with ⟨failure, pos, other, failed⟩ | ⟨foreign, pos, read⟩
  · rw [failed]
    exact .inr ⟨failure, other, rfl⟩
  · rw [read]
    exact .inl ⟨foreign, rfl⟩

theorem littleEndian_range_lt (bytes : List UInt8) (offset count : Nat) :
    littleEndian (range bytes offset count) < 256 ^ count := by
  have short : (range bytes offset count).length ≤ count := by
    rw [range, List.length_take]
    exact Nat.min_le_left _ _
  exact Nat.lt_of_lt_of_le (littleEndian_lt _) (Nat.pow_le_pow_right (by decide) short)

theorem ePhentsize_lt (bytes : List UInt8) : (headerOf bytes).ePhentsize < 2 ^ 16 :=
  littleEndian_range_lt bytes ePhentsizeOffset 2

theorem ePhnum_lt (bytes : List UInt8) : (headerOf bytes).ePhnum < 2 ^ 16 :=
  littleEndian_range_lt bytes ePhnumOffset 2

/-- Every header is there. -/
def Whole (bytes : List UInt8) (header : Header) : Prop :=
  ∀ i < header.ePhnum, Inside bytes (header.alignOffset i) 8

theorem runOn_accepted (accepted : Accepted bytes) {header : Header}
    (own : headerOf bytes = header) :
    (Whole bytes header ∧ runOn bytes =
      (.ok (decide (∃ i < header.ePhnum, field bytes (header.alignOffset i) = 0)),
        marked bytes header header.ePhnum)) ∨
    ∃ stop < header.ePhnum, (∀ i < stop, Inside bytes (header.alignOffset i) 8) ∧
      ¬ Inside bytes (header.alignOffset stop) 8 ∧
      ∃ failure, runOn bytes = (.error failure, marked bytes header stop) ∧
        (failure = .overflow ↔ 2 ^ 64 ≤ header.alignOffset stop) := by
  subst own
  obtain ⟨pos, read⟩ := readHeader_accepted accepted
  have run : fixElfPalign.run ⟨bytes, 0⟩ =
      (fixEntries (headerOf bytes) (headerOf bytes).ePhnum >>= fun fixed =>
        pure (decide (0 < fixed))).run ⟨bytes, pos⟩ := by
    unfold fixElfPalign
    rw [EStateM.run_bind, read]
  rcases @fixEntries_run bytes (headerOf bytes) (headerOf bytes).ePhnum pos (ePhentsize_lt bytes)
      (ePhnum_lt bytes) with ⟨whole, fixed, after, ran, _, some_⟩ |
      ⟨stop, below, inside, outside, failure, after, ran, why⟩
  · refine .inl ⟨whole, ?_⟩
    unfold runOn
    rw [run, EStateM.run_bind, ran, ← decide_eq_decide.mpr some_]
    rfl
  · refine .inr ⟨stop, below, inside, outside, failure, ?_, why⟩
    unfold runOn
    rw [run, EStateM.run_bind, ran]

end Runs

section Statement

def IsElf64Le (bytes : List UInt8) : Prop := range bytes 0 6 = elfMagic ++ [elfclass64, 1]

instance : DecidablePred IsElf64Le := fun _ => inferInstanceAs (Decidable (_ = _))

/-- Nothing overflows, and only zero alignments are changed, all or none of them. -/
structure OnlyZeroAligns (bytes : List UInt8) (header : Header) : Prop where
  noOverflow : (runOn bytes).1 ≠ .error .overflow
  foreign : ¬ IsElf64Le bytes → (runOn bytes).2 = bytes
  outside : IsElf64Le bytes → ∀ p,
    (∀ i < header.ePhnum, ¬ (header.alignOffset i ≤ p ∧ p < header.alignOffset i + 8)) →
      (runOn bytes).2[p]? = bytes[p]?
  kept : IsElf64Le bytes → ∀ i < header.ePhnum, field bytes (header.alignOffset i) ≠ 0 →
    field (runOn bytes).2 (header.alignOffset i) = field bytes (header.alignOffset i)
  nonzero : IsElf64Le bytes → ∀ changed, (runOn bytes).1 = .ok changed →
    ∀ i < header.ePhnum, field (runOn bytes).2 (header.alignOffset i) ≠ 0
  again : ∀ changed, (runOn bytes).1 = .ok changed →
    runOn (runOn bytes).2 = (.ok false, (runOn bytes).2)
  failed : ∀ failure, (runOn bytes).1 = .error failure → (runOn bytes).2 = bytes

/-- No alignment that is there is zero. -/
def Untouched (bytes : List UInt8) (header : Header) : Prop :=
  ∀ i < header.ePhnum, Inside bytes (header.alignOffset i) 8 →
    field bytes (header.alignOffset i) ≠ 0

/-- No zero alignment begins in an earlier one that is not zero. -/
def Apart (bytes : List UInt8) (header : Header) : Prop :=
  ∀ i < header.ePhnum, ∀ j < i, header.ePhentsize ≠ 0 → (i - j) * header.ePhentsize < 8 →
    field bytes (header.alignOffset j) ≠ 0 → field bytes (header.alignOffset i) ≠ 0

/-- If a zero alignment begins at the high byte of the number of headers, the headers that
come to be counted are there and have alignments. -/
def Settled (bytes : List UInt8) (header : Header) : Prop :=
  header.ePhentsize ≠ 0 → Marked bytes header header.ePhnum 57 →
    ∀ i, header.ePhnum ≤ i → i < header.ePhnum + 256 →
      Inside bytes (header.alignOffset i) 8 ∧ field bytes (header.alignOffset i) ≠ 0

/-- What must hold of a file whose table is looked at. -/
structure Harmless (bytes : List UInt8) (header : Header) : Prop where
  start : 0 < header.ePhnum → header.ePhoff + pAlignOffset < 2 ^ 64
  untouched : ¬ (IsElf64Le bytes ∧ Whole bytes header) → Untouched bytes header
  apart : IsElf64Le bytes → Whole bytes header → Apart bytes header
  settled : IsElf64Le bytes → Whole bytes header → Settled bytes header

end Statement

section Unchanged

variable {bytes : List UInt8} {header : Header}

/-- A run that changes nothing keeps to the rules unless something overflows. -/
theorem onlyZeroAligns_of_same (same : (runOn bytes).2 = bytes)
    (noOverflow : (runOn bytes).1 ≠ .error .overflow)
    (zeros : ∀ changed, (runOn bytes).1 = .ok changed → changed = false ∧
      (IsElf64Le bytes → ∀ i < header.ePhnum, field bytes (header.alignOffset i) ≠ 0)) :
    OnlyZeroAligns bytes header where
  noOverflow := noOverflow
  foreign := fun _ => same
  outside := fun _ p _ => by rw [same]
  kept := fun _ i _ _ => by rw [same]
  nonzero := fun elf changed ok => by
    rw [same]
    exact (zeros changed ok).2 elf
  again := fun changed ok => by
    rw [same]
    have false_ := (zeros changed ok).1
    subst false_
    exact Prod.ext ok same
  failed := fun _ _ => same

theorem ident_of_isElf64Le (elf : IsElf64Le bytes) :
    range bytes 0 5 = elfMagic ++ [elfclass64] := by
  have first : range bytes 0 5 = (range bytes 0 6).take 5 := by
    simp [range, List.take_take]
  rw [first, elf]
  rfl

theorem not_marked_of_untouched {count : Nat}
    (untouched : ∀ i < count, field bytes (header.alignOffset i) ≠ 0) (p : Nat) :
    ¬ Marked bytes header count p := by
  rintro ⟨i, below, rfl, zero⟩
  exact untouched i below zero

/-- A zero alignment that is marked is changed. -/
theorem getElem?_of_zero {count i : Nat} (below : i < count)
    (inside : Inside bytes (header.alignOffset i) 8)
    (zero : field bytes (header.alignOffset i) = 0) :
    bytes[header.alignOffset i]? = some 0 ∧
      (marked bytes header count)[header.alignOffset i]? = some 1 := by
  have own := (field_eq_zero inside.2).mp zero _ (Nat.le_refl _) (by omega)
  have mark : Marked bytes header count (header.alignOffset i) := ⟨i, below, rfl, zero⟩
  refine ⟨own, ?_⟩
  rw [getElem?_marked, own]
  simp [mark]

theorem untouched_of_same {count : Nat} (inside : ∀ i < count, Inside bytes (header.alignOffset i) 8)
    (same : marked bytes header count = bytes) :
    ∀ i < count, field bytes (header.alignOffset i) ≠ 0 := by
  intro i below zero
  obtain ⟨own, changed⟩ := getElem?_of_zero below (inside i below) zero
  rw [same, own] at changed
  exact absurd changed (by decide)

end Unchanged

section Cut

variable {bytes : List UInt8} {header : Header} {stop : Nat}

/-- Behind a header that is not there, no header is. -/
theorem not_inside_of_le (outside : ¬ Inside bytes (header.alignOffset stop) 8) {i : Nat}
    (later : stop ≤ i) : ¬ Inside bytes (header.alignOffset i) 8 := by
  intro inside
  have before := @alignOffset_mono header i stop later
  exact outside ⟨by have := inside.1; omega, by have := inside.2; omega⟩

theorem alignOffset_zero : header.alignOffset 0 = header.ePhoff + pAlignOffset := by
  rw [Header.alignOffset, Nat.zero_mul, Nat.add_zero]

theorem alignOffset_succ (i : Nat) :
    header.alignOffset (i + 1) = header.alignOffset i + header.ePhentsize := by
  unfold Header.alignOffset
  rw [Nat.succ_mul]
  omega

/-- Only the offset of the first header can overflow. -/
theorem overflows_iff (small : header.ePhentsize < 2 ^ 16)
    (inside : ∀ i < stop, Inside bytes (header.alignOffset i) 8) :
    2 ^ 64 ≤ header.alignOffset stop ↔ ¬ header.ePhoff + pAlignOffset < 2 ^ 64 := by
  rw [← alignOffset_zero]
  cases stop with
  | zero => omega
  | succ stop =>
      have before := (inside stop (Nat.lt_succ_self stop)).1
      have least := @alignOffset_mono header stop 0 (Nat.zero_le stop)
      rw [alignOffset_succ]
      omega

/-- A table that is cut short: nothing may be changed before the cut. -/
theorem onlyZeroAligns_cut (small : header.ePhentsize < 2 ^ 16) (below : stop < header.ePhnum)
    (inside : ∀ i < stop, Inside bytes (header.alignOffset i) 8)
    (outside : ¬ Inside bytes (header.alignOffset stop) 8) {failure : Failure}
    (run : runOn bytes = (.error failure, marked bytes header stop))
    (why : failure = .overflow ↔ 2 ^ 64 ≤ header.alignOffset stop) :
    OnlyZeroAligns bytes header ↔ Harmless bytes header := by
  have cut : ¬ Whole bytes header := fun whole => outside (whole stop below)
  have start := why.trans (overflows_iff small inside)
  constructor
  · intro only
    have same := only.failed failure (by rw [run])
    rw [run] at same
    refine ⟨fun _ => ?_, fun _ => ?_, fun _ whole => absurd whole cut,
      fun _ whole => absurd whole cut⟩
    · by_contra large
      apply only.noOverflow
      rw [run, start.mpr large]
    · intro i turn there
      have early : i < stop := by
        by_contra later
        exact not_inside_of_le outside (Nat.le_of_not_lt later) there
      exact untouched_of_same inside same i early
  · intro harmless
    have untouched := harmless.untouched fun both => cut both.2
    have same : marked bytes header stop = bytes := by
      apply marked_eq_self
      apply not_marked_of_untouched
      intro i early
      exact untouched i (Nat.lt_trans early below) (inside i early)
    refine onlyZeroAligns_of_same (by rw [run, same]) ?_ ?_
    · rw [run]
      intro overflow
      exact start.mp (Except.error.inj overflow) (harmless.start (by omega))
    · intro changed ok
      rw [run] at ok
      cases ok

end Cut

section Complete

variable {bytes : List UInt8} {header : Header}

/-- A mark in the bytes of an alignment that is not zero is a later zero alignment. -/
theorem Apart.unmarked (apart : Apart bytes header) {j : Nat}
    (own : field bytes (header.alignOffset j) ≠ 0) {p : Nat} (after : header.alignOffset j ≤ p)
    (below : p < header.alignOffset j + 8) : ¬ Marked bytes header header.ePhnum p := by
  rintro ⟨i, other, rfl, zero⟩
  have distinct : header.alignOffset i ≠ header.alignOffset j := fun same => own (same ▸ zero)
  have later : j < i := by
    by_contra early
    have before := @alignOffset_mono header j i (Nat.le_of_not_lt early)
    omega
  obtain ⟨distance, rfl⟩ := Nat.exists_eq_add_of_lt later
  have apartness : header.alignOffset (j + distance + 1) =
      header.alignOffset j + (distance + 1) * header.ePhentsize := by
    unfold Header.alignOffset
    ring
  refine apart _ other j later ?_ ?_ own zero
  · intro none_
    rw [none_, Nat.mul_zero] at apartness
    exact distinct apartness
  · rw [show j + distance + 1 - j = distance + 1 by omega]
    omega

/-- An alignment is not zero any more where it was marked if it was. -/
theorem field_marked_ne_zero {count i : Nat} (inside : Inside bytes (header.alignOffset i) 8)
    (marks : field bytes (header.alignOffset i) = 0 →
      Marked bytes header count (header.alignOffset i)) :
    field (marked bytes header count) (header.alignOffset i) ≠ 0 := by
  intro zero
  obtain ⟨own, unmarked⟩ := of_field_marked_eq_zero inside.2 zero
  exact unmarked _ (Nat.le_refl _) (by omega) (marks own)

theorem apart_of_kept (whole : Whole bytes header)
    (kept : ∀ i < header.ePhnum, field bytes (header.alignOffset i) ≠ 0 →
      field (marked bytes header header.ePhnum) (header.alignOffset i) =
        field bytes (header.alignOffset i)) : Apart bytes header := by
  intro i turn j earlier some_ near own zero
  have turnToo := Nat.lt_trans earlier turn
  obtain ⟨before, after⟩ := getElem?_of_zero turn (whole i turn) zero
  have distance : header.alignOffset i =
      header.alignOffset j + (i - j) * header.ePhentsize := by
    obtain ⟨distance, rfl⟩ := Nat.exists_eq_add_of_lt earlier
    rw [show j + distance + 1 - j = distance + 1 by omega]
    unfold Header.alignOffset
    ring
  have same := of_field_eq (whole j turnToo).2 length_marked (kept j turnToo own).symm
    (p := header.alignOffset i) (by omega) (by omega)
  rw [before, after] at same
  exact absurd same (by decide)

end Complete

section Again

variable {bytes : List UInt8}

/-- No mark is in what comes before the alignment of a header at the start of the file. -/
theorem Marked.low {header : Header} {count p : Nat} (mark : Marked bytes header count p) :
    48 ≤ p := by
  obtain ⟨i, _, rfl, _⟩ := mark
  exact Nat.le_add_left _ _

theorem range_two {bytes : List UInt8} {offset : Nat} {low high : UInt8}
    (first : bytes[offset]? = some low) (second : bytes[offset + 1]? = some high) :
    range bytes offset 2 = [low, high] := by
  apply List.ext_getElem?
  intro k
  rw [getElem?_range]
  rcases k with _ | _ | k
  · simpa using first
  · simpa using second
  · simp

theorem littleEndian_two (low high : UInt8) :
    littleEndian [low, high] = low.toNat + 256 * high.toNat := by
  simp [littleEndian]

theorem accepted_marked {header : Header} {count : Nat} (accepted : Accepted bytes) :
    Accepted (marked bytes header count) := by
  constructor
  · rw [range_marked_of_unmarked]
    · exact accepted.1
    · intro p _ below mark
      have low := mark.low
      omega
  · rw [length_marked]
    exact accepted.2

variable (whole : Whole bytes (headerOf bytes))
include whole

/-- A zero alignment over the number of headers would make it zero. -/
theorem Marked.unread {p : Nat}
    (mark : Marked bytes (headerOf bytes) (headerOf bytes).ePhnum p) : p ≤ 53 ∨ 57 ≤ p := by
  by_contra between
  obtain ⟨i, turn, rfl, zero⟩ := mark
  have zeros := (field_eq_zero (whole i turn).2).mp zero
  have none_ : (headerOf bytes).ePhnum = 0 := by
    show littleEndian (range bytes 56 2) = 0
    rw [range_two (zeros 56 (by omega) (by omega)) (zeros 57 (by omega) (by omega)),
      littleEndian_two]
    rfl
  omega

/-- What a second run reads: only the high byte of the number of headers may have changed. -/
theorem headerOf_marked :
    headerOf (marked bytes (headerOf bytes) (headerOf bytes).ePhnum) =
      if Marked bytes (headerOf bytes) (headerOf bytes).ePhnum 57 then
        { headerOf bytes with ePhnum := (headerOf bytes).ePhnum + 256 }
      else
        headerOf bytes := by
  have ePhoff : range (marked bytes (headerOf bytes) (headerOf bytes).ePhnum) 32 8 =
      range bytes 32 8 := by
    apply range_marked_of_unmarked
    intro p _ below mark
    have low := mark.low
    omega
  have ePhentsize : range (marked bytes (headerOf bytes) (headerOf bytes).ePhnum) 54 2 =
      range bytes 54 2 := by
    apply range_marked_of_unmarked
    intro p after below mark
    have apart := mark.unread whole
    omega
  have unmarked : ¬ Marked bytes (headerOf bytes) (headerOf bytes).ePhnum 56 := by
    intro mark
    have apart := mark.unread whole
    omega
  have ePhnum : littleEndian (range (marked bytes (headerOf bytes) (headerOf bytes).ePhnum) 56 2) =
      if Marked bytes (headerOf bytes) (headerOf bytes).ePhnum 57 then
        (headerOf bytes).ePhnum + 256
      else
        (headerOf bytes).ePhnum := by
    split
    · rename_i mark
      obtain ⟨i, turn, offset, zero⟩ := mark
      have there := (whole i turn).2
      rw [offset] at there
      have high := (field_eq_zero there).mp zero 57 (Nat.le_refl _) (by omega)
      have low : bytes[56]? = some bytes[56] := List.getElem?_eq_getElem (by omega)
      have mark : Marked bytes (headerOf bytes) (headerOf bytes).ePhnum 57 := ⟨i, turn, offset, zero⟩
      have number : (headerOf bytes).ePhnum = bytes[56].toNat := by
        show littleEndian (range bytes 56 2) = _
        rw [range_two low high, littleEndian_two]
        rfl
      have lowToo : (marked bytes (headerOf bytes) (headerOf bytes).ePhnum)[56]? = some bytes[56] := by
        rw [getElem?_marked, low]
        simp [unmarked]
      have highToo : (marked bytes (headerOf bytes) (headerOf bytes).ePhnum)[56 + 1]? = some 1 := by
        rw [getElem?_marked, high]
        simp [mark]
      rw [range_two lowToo highToo, littleEndian_two, number]
      rfl
    · rename_i still
      have same : range (marked bytes (headerOf bytes) (headerOf bytes).ePhnum) 56 2 =
          range bytes 56 2 := by
        apply range_marked_of_unmarked
        intro p after below mark
        have apart := mark.unread whole
        have here : p = 57 := by omega
        exact still (here ▸ mark)
      rw [same]
      rfl
  unfold headerOf ePhoffOffset ePhentsizeOffset ePhnumOffset at *
  rw [ePhoff, ePhentsize, ePhnum]
  split <;> rfl

/-- The headers that are counted from the start stay as the first run leaves them. -/
theorem marked_settled (i : Nat) (turn : i < (headerOf bytes).ePhnum) :
    Inside bytes ((headerOf bytes).alignOffset i) 8 ∧
      field (marked bytes (headerOf bytes) (headerOf bytes).ePhnum)
        ((headerOf bytes).alignOffset i) ≠ 0 :=
  ⟨whole i turn, field_marked_ne_zero (whole i turn) fun zero => ⟨i, turn, rfl, zero⟩⟩

omit whole

/-- A run changes nothing and finds nothing where all alignments are there and not zero. -/
theorem runOn_same_iff (accepted : Accepted bytes) {header : Header}
    (own : headerOf bytes = header) :
    runOn bytes = (.ok false, bytes) ↔ ∀ i < header.ePhnum,
      Inside bytes (header.alignOffset i) 8 ∧ field bytes (header.alignOffset i) ≠ 0 := by
  rcases runOn_accepted accepted own with ⟨whole, run⟩ |
    ⟨stop, below, _, outside, failure, run, _⟩
  · rw [run, Prod.mk.injEq, Except.ok.injEq, decide_eq_false_iff_not]
    constructor
    · rintro ⟨none_, _⟩ i turn
      exact ⟨whole i turn, fun zero => none_ ⟨i, turn, zero⟩⟩
    · intro all
      refine ⟨?_, marked_eq_self (not_marked_of_untouched fun i turn => (all i turn).2)⟩
      rintro ⟨i, turn, zero⟩
      exact (all i turn).2 zero
  · rw [run]
    constructor
    · intro same
      cases congrArg Prod.fst same
    · intro all
      exact absurd (all stop below).1 outside

/-- The headers behind the last one have no marks, unless all have one offset. -/
theorem field_marked_behind {header : Header} (some_ : header.ePhentsize ≠ 0) {i : Nat}
    (behind : header.ePhnum ≤ i) :
    field (marked bytes header header.ePhnum) (header.alignOffset i) =
      field bytes (header.alignOffset i) := by
  apply field_marked_of_unmarked
  intro p after _ mark
  obtain ⟨j, turn, rfl, _⟩ := mark
  have next := @alignOffset_mono header i (j + 1) (by omega)
  rw [alignOffset_succ] at next
  omega

theorem alignOffset_of_ePhentsize_eq_zero {header : Header} (none_ : header.ePhentsize = 0)
    (i : Nat) : header.alignOffset i = header.alignOffset 0 := by
  unfold Header.alignOffset
  rw [none_, Nat.mul_zero, Nat.mul_zero]

/-- When a second run finds nothing. -/
theorem runOn_marked_iff (accepted : Accepted bytes) (whole : Whole bytes (headerOf bytes)) :
    runOn (marked bytes (headerOf bytes) (headerOf bytes).ePhnum) =
        (.ok false, marked bytes (headerOf bytes) (headerOf bytes).ePhnum) ↔
      Settled bytes (headerOf bytes) := by
  have first := marked_settled whole
  have size : (marked bytes (headerOf bytes) (headerOf bytes).ePhnum).length = bytes.length :=
    length_marked
  rw [runOn_same_iff (accepted_marked accepted) (headerOf_marked whole)]
  unfold Settled
  by_cases mark : Marked bytes (headerOf bytes) (headerOf bytes).ePhnum 57
  case neg =>
    rw [if_neg mark]
    simp only [Inside, size] at first ⊢
    exact ⟨fun _ _ other => absurd other mark, fun _ => first⟩
  rw [if_pos mark]
  show (∀ i < (headerOf bytes).ePhnum + 256, Inside _ ((headerOf bytes).alignOffset i) 8 ∧
    field _ ((headerOf bytes).alignOffset i) ≠ 0) ↔ _
  by_cases some_ : (headerOf bytes).ePhentsize = 0
  · -- all headers are the first one
    obtain ⟨j, turn, _⟩ := mark
    have one := first 0 (by omega)
    simp only [Inside, size] at one ⊢
    refine ⟨fun _ different => absurd some_ different, fun _ i _ => ?_⟩
    rw [alignOffset_of_ePhentsize_eq_zero some_ i]
    exact one
  · constructor
    · intro all _ _ i behind below
      have here := all i below
      rw [field_marked_behind some_ behind, Inside, size] at here
      exact here
    · intro settled i below
      rw [Inside, size]
      by_cases turn : i < (headerOf bytes).ePhnum
      · exact first i turn
      · have behind := Nat.le_of_not_lt turn
        rw [field_marked_behind some_ behind]
        exact settled some_ mark i behind below

end Again

section Patch

variable {bytes : List UInt8}

theorem harmless_of_whole (whole : Whole bytes (headerOf bytes))
    (untouched : ¬ IsElf64Le bytes → Untouched bytes (headerOf bytes))
    (apart : IsElf64Le bytes → Apart bytes (headerOf bytes))
    (settled : IsElf64Le bytes → Settled bytes (headerOf bytes)) :
    Harmless bytes (headerOf bytes) where
  start := fun some_ => by
    have first := (whole 0 some_).1
    rw [alignOffset_zero] at first
    omega
  untouched := fun other => untouched fun elf => other ⟨elf, whole⟩
  apart := fun elf _ => apart elf
  settled := fun elf _ => settled elf

/-- A table that is there: in a file of the other byte order nothing may be changed. -/
theorem onlyZeroAligns_foreign (whole : Whole bytes (headerOf bytes))
    (foreign : ¬ IsElf64Le bytes)
    (run : runOn bytes =
      (.ok (decide (∃ i < (headerOf bytes).ePhnum,
          field bytes ((headerOf bytes).alignOffset i) = 0)),
        marked bytes (headerOf bytes) (headerOf bytes).ePhnum)) :
    OnlyZeroAligns bytes (headerOf bytes) ↔ Harmless bytes (headerOf bytes) := by
  constructor
  · intro only
    have same := only.foreign foreign
    rw [run] at same
    refine harmless_of_whole whole (fun _ i turn _ => ?_) (fun elf => absurd elf foreign)
      (fun elf => absurd elf foreign)
    exact untouched_of_same whole same i turn
  · intro harmless
    have untouched := harmless.untouched fun both => foreign both.1
    have none_ : ∀ i < (headerOf bytes).ePhnum,
        field bytes ((headerOf bytes).alignOffset i) ≠ 0 :=
      fun i turn => untouched i turn (whole i turn)
    have same := marked_eq_self (not_marked_of_untouched none_)
    refine onlyZeroAligns_of_same (by rw [run, same]) (by rw [run]; intro error; cases error) ?_
    intro changed ok
    rw [run, Except.ok.injEq] at ok
    refine ⟨?_, fun elf => absurd elf foreign⟩
    rw [← ok, decide_eq_false_iff_not]
    rintro ⟨i, turn, zero⟩
    exact none_ i turn zero

theorem onlyZeroAligns_elf (accepted : Accepted bytes) (whole : Whole bytes (headerOf bytes))
    (elf : IsElf64Le bytes)
    (run : runOn bytes =
      (.ok (decide (∃ i < (headerOf bytes).ePhnum,
          field bytes ((headerOf bytes).alignOffset i) = 0)),
        marked bytes (headerOf bytes) (headerOf bytes).ePhnum)) :
    OnlyZeroAligns bytes (headerOf bytes) ↔ Harmless bytes (headerOf bytes) := by
  constructor
  · intro only
    refine harmless_of_whole whole (fun foreign => absurd elf foreign) (fun _ => ?_) (fun _ => ?_)
    · have kept := only.kept elf
      rw [run] at kept
      exact apart_of_kept whole kept
    · have again := only.again _ (by rw [run])
      rw [run] at again
      exact (runOn_marked_iff accepted whole).mp again
  · intro harmless
    have apart := harmless.apart elf whole
    constructor
    · rw [run]
      intro error
      cases error
    · exact fun foreign => absurd elf foreign
    · intro _ p outside
      have unmarked : ¬ Marked bytes (headerOf bytes) (headerOf bytes).ePhnum p := by
        rintro ⟨i, turn, offset, _⟩
        exact outside i turn ⟨Nat.le_of_eq offset, by omega⟩
      rw [run, getElem?_marked]
      simp [unmarked]
    · intro _ i turn own
      rw [run]
      exact field_marked_of_unmarked fun p after below => apart.unmarked own after below
    · intro _ changed _ i turn
      rw [run]
      exact (marked_settled whole i turn).2
    · intro changed ok
      rw [run] at ok ⊢
      exact (runOn_marked_iff accepted whole).mpr (harmless.settled elf whole)
    · intro failure error
      rw [run] at error
      cases error

/-- A file that is not looked at is left as it is. -/
theorem onlyZeroAligns_refused (refused : ¬ Accepted bytes) :
    OnlyZeroAligns bytes (headerOf bytes) := by
  rcases runOn_refused refused with ⟨foreign, run⟩ | ⟨failure, other, run⟩
  · refine onlyZeroAligns_of_same (by rw [run]) (by rw [run]; intro error; cases error) ?_
    intro changed ok
    rw [run, Except.ok.injEq] at ok
    exact ⟨ok.symm, fun elf => absurd (ident_of_isElf64Le elf) foreign⟩
  · refine onlyZeroAligns_of_same (by rw [run]) ?_ ?_
    · rw [run]
      intro error
      exact other (Except.error.inj error)
    · intro changed ok
      rw [run] at ok
      cases ok

/-- Only zero alignments are changed, all or none of them, exactly if the file is refused or
harmless. -/
theorem fixElfPalign_onlyZeroAligns (bytes : List UInt8) :
    OnlyZeroAligns bytes (headerOf bytes) ↔
      (Accepted bytes → Harmless bytes (headerOf bytes)) := by
  by_cases accepted : Accepted bytes
  case neg => exact ⟨fun _ other => absurd other accepted, fun _ => onlyZeroAligns_refused accepted⟩
  rw [imp_iff_right accepted]
  rcases runOn_accepted accepted rfl with ⟨whole, run⟩ |
    ⟨stop, below, inside, outside, failure, run, why⟩
  · by_cases elf : IsElf64Le bytes
    · exact onlyZeroAligns_elf accepted whole elf run
    · exact onlyZeroAligns_foreign whole elf run
  · exact onlyZeroAligns_cut (ePhentsize_lt bytes) below inside outside run why

/-- A little-endian file with two program headers of 56 bytes, cut after the first one. -/
def cutTable : List UInt8 :=
  elfMagic ++ [elfclass64, 1] ++ List.replicate 26 0 ++ toLittleEndian 8 64 ++
    List.replicate 14 0 ++ toLittleEndian 2 56 ++ toLittleEndian 2 2 ++ List.replicate 62 0

theorem runOn_cutTable :
    runOn cutTable = (.error .unexpectedEof, overwrite cutTable 112 (toLittleEndian 8 1)) := by
  decide +kernel

theorem cutTable_changed : ¬ ∀ bytes : List UInt8, OnlyZeroAligns bytes (headerOf bytes) := by
  intro only
  have same := (only cutTable).failed .unexpectedEof (by rw [runOn_cutTable])
  rw [runOn_cutTable] at same
  exact absurd same (by decide +kernel)

end Patch

end NixRedox.ElfPalign
