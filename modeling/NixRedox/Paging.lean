import Mathlib

set_option autoImplicit false

/- Reading a directory page by page: a client asks again from the offset of the
last entry it got until a call returns nothing. -/
namespace NixRedox.Paging

variable {α : Type}

/-- A listing call: from a buffer capacity and an offset to the entries returned,
each with the offset after it. -/
abbrev Pager (α : Type) := Nat → Nat → List (α × Nat)

/-- What a listing relies on of its reply buffer: the room that an entry takes, and what is
left of the room after an entry that does not fit. -/
structure ReplyBuffer (α : Type) where
  size : α → Nat
  sized : ∀ entry, 0 < size entry
  refused : Nat → α → Nat

/-- An entry that does not fit empties the buffer. -/
def ReplyBuffer.Emptied (buffer : ReplyBuffer α) : Prop :=
  ∀ room entry, buffer.refused room entry = 0

/-- Put numbered entries into a buffer until one does not fit; the entries taken
and the room left. -/
def fill (buffer : ReplyBuffer α) : Nat → List (α × Nat) → List (α × Nat) × Nat
  | room, [] => ([], room)
  | room, (entry, index) :: rest =>
      if buffer.size entry ≤ room then
        let filled := fill buffer (room - buffer.size entry) rest
        ((entry, index + 1) :: filled.1, filled.2)
      else
        ([], buffer.refused room entry)

/-- The loop over `entries.iter().enumerate().skip(offset)`. -/
def pageOf (buffer : ReplyBuffer α) (entries : List α) : Pager α := fun capacity offset =>
  (fill buffer capacity (entries.zipIdx.drop offset)).1

/-- The loop followed by one more entry, which is put into whatever room is left. -/
def pageThen (buffer : ReplyBuffer α) (entries : List α) (extra : α) : Pager α :=
  fun capacity offset =>
    let filled := fill buffer capacity (entries.zipIdx.drop offset)
    if offset ≤ entries.length ∧ buffer.size extra ≤ filled.2 then
      filled.1 ++ [(extra, entries.length + 1)]
    else
      filled.1

/-- What a client has after some calls. -/
structure Session (α : Type) where
  offset : Nat
  received : List α

def session (pager : Pager α) (capacity : Nat → Nat) : Nat → Session α
  | 0 => { offset := 0, received := [] }
  | calls + 1 =>
      let before := session pager capacity calls
      let page := pager (capacity calls) before.offset
      { offset := (page.getLast?.map Prod.snd).getD before.offset
        received := before.received ++ page.map Prod.fst }

def Ended (pager : Pager α) (capacity : Nat → Nat) (calls : Nat) : Prop :=
  pager (capacity calls) (session pager capacity calls).offset = []

/-- Every buffer has room for the next entry. -/
def Adequate (size : α → Nat) (directory : List α) (pager : Pager α)
    (capacity : Nat → Nat) : Prop :=
  ∀ calls entry, directory[(session pager capacity calls).offset]? = some entry →
    size entry ≤ capacity calls

/-- Whatever the buffers, the client stops with every entry exactly once. -/
def Lossless (size : α → Nat) (directory : List α) (pager : Pager α) : Prop :=
  ∀ capacity, Adequate size directory pager capacity →
    ∃ calls, Ended pager capacity calls ∧ (∀ earlier < calls, ¬ Ended pager capacity earlier) ∧
      (session pager capacity calls).received.Perm directory

/-- Every call with room for the next entry returns a stretch of the directory that
starts at the offset, and at least one entry of it while there is one. -/
def Contiguous (size : α → Nat) (directory : List α) (pager : Pager α) : Prop :=
  ∀ capacity offset, offset ≤ directory.length →
    (∀ entry, directory[offset]? = some entry → size entry ≤ capacity) →
    ∃ count, offset + count ≤ directory.length ∧
      pager capacity offset = ((directory.drop offset).take count).zipIdx (offset + 1) ∧
      (offset < directory.length → 0 < count)

section Filling

variable (buffer : ReplyBuffer α)

/-- What the loop does: the longest run of entries that fits. What is left then is the room
itself, or what a refused entry leaves of it. -/
theorem fill_zipIdx (entries : List α) (start room : Nat) :
    ∃ count left, count ≤ entries.length ∧
      left + ((entries.take count).map buffer.size).sum = room ∧
      (∀ entry, entries[count]? = some entry → left < buffer.size entry) ∧
      fill buffer room (entries.zipIdx start) = ((entries.take count).zipIdx (start + 1),
        (entries[count]?.map (buffer.refused left)).getD left) := by
  induction entries generalizing start room with
  | nil => exact ⟨0, room, Nat.le_refl 0, by simp, by simp, rfl⟩
  | cons entry entries ih =>
      by_cases fits : buffer.size entry ≤ room
      · obtain ⟨count, left, bound, total, next, filled⟩ := ih (start + 1) (room - buffer.size entry)
        refine ⟨count + 1, left, by simpa using bound, ?_, by simpa using next, ?_⟩
        · simp only [List.take_succ_cons, List.map_cons, List.sum_cons]
          omega
        · simp [fill, fits, filled]
      · refine ⟨0, room, Nat.zero_le _, by simp, ?_, by simp [fill, fits]⟩
        intro later found
        have same : entry = later := by simpa using found
        subst same
        omega

variable {buffer}

theorem mem_of_mem_fill {room : Nat} {numbered : List (α × Nat)} {entry : α} {next : Nat}
    (taken : (entry, next) ∈ (fill buffer room numbered).1) :
    ∃ index, (entry, index) ∈ numbered := by
  induction numbered generalizing room with
  | nil => simp [fill] at taken
  | cons first rest ih =>
      obtain ⟨head, index⟩ := first
      unfold fill at taken
      split at taken
      · rcases List.mem_cons.mp taken with same | later
        · cases same
          exact ⟨index, by simp⟩
        · obtain ⟨place, member⟩ := ih later
          exact ⟨place, List.mem_cons_of_mem _ member⟩
      · cases taken

theorem zipIdx_drop (entries : List α) (offset start : Nat) :
    (entries.zipIdx start).drop offset = (entries.drop offset).zipIdx (start + offset) := by
  induction offset generalizing entries start with
  | zero => simp
  | succ offset ih =>
      cases entries with
      | nil => simp
      | cons entry entries =>
          rw [List.zipIdx_cons, List.drop_succ_cons, ih, List.drop_succ_cons]
          congr 1
          omega

variable (buffer)

/-- With room for it, the entry at the offset is the first one taken. -/
theorem mem_fill_drop {entries : List α} {entry : α} (member : entry ∈ entries) :
    ∃ offset next, (entry, next) ∈
      (fill buffer (buffer.size entry) (entries.zipIdx.drop offset)).1 := by
  obtain ⟨front, back, rfl⟩ := List.append_of_mem member
  refine ⟨front.length, front.length + 1, ?_⟩
  rw [zipIdx_drop, List.drop_left, List.zipIdx_cons, fill]
  simp

variable {buffer}

theorem mem_of_mem_fill_drop {entries : List α} {capacity offset next : Nat} {entry : α}
    (taken : (entry, next) ∈ (fill buffer capacity (entries.zipIdx.drop offset)).1) :
    entry ∈ entries := by
  obtain ⟨index, numbered⟩ := mem_of_mem_fill taken
  exact List.fst_mem_of_mem_zipIdx (List.mem_of_mem_drop numbered)

variable (buffer)

/-- The entries some call returns are those of the directory. -/
theorem mem_pageOf {entries : List α} {entry : α} :
    (∃ capacity offset next, (entry, next) ∈ pageOf buffer entries capacity offset) ↔
      entry ∈ entries := by
  constructor
  · rintro ⟨capacity, offset, next, taken⟩
    exact mem_of_mem_fill_drop taken
  · intro member
    obtain ⟨offset, next, taken⟩ := mem_fill_drop buffer member
    exact ⟨buffer.size entry, offset, next, taken⟩

theorem mem_pageThen {entries : List α} {extra entry : α} :
    (∃ capacity offset next, (entry, next) ∈ pageThen buffer entries extra capacity offset) ↔
      entry ∈ entries ++ [extra] := by
  constructor
  · rintro ⟨capacity, offset, next, taken⟩
    unfold pageThen at taken
    dsimp only at taken
    split at taken
    · rcases List.mem_append.mp taken with taken | last
      · exact List.mem_append_left _ (mem_of_mem_fill_drop taken)
      · rw [List.mem_singleton] at last
        cases last
        simp
    · exact List.mem_append_left _ (mem_of_mem_fill_drop taken)
  · intro member
    rcases List.mem_append.mp member with member | last
    · obtain ⟨offset, next, taken⟩ := mem_fill_drop buffer member
      refine ⟨buffer.size entry, offset, next, ?_⟩
      unfold pageThen
      dsimp only
      split
      · exact List.mem_append_left _ taken
      · exact taken
    · rw [List.mem_singleton] at last
      subst last
      refine ⟨buffer.size entry, entries.length, entries.length + 1, ?_⟩
      have past : entries.zipIdx.drop entries.length = [] := by simp
      simp [pageThen, past, fill]

end Filling

theorem last_offset (stretch : List α) (offset : Nat) :
    ((stretch.zipIdx (offset + 1)).getLast?.map Prod.snd).getD offset =
      offset + stretch.length := by
  rw [List.getLast?_zipIdx]
  cases last : stretch.getLast? with
  | none =>
      rw [List.getLast?_eq_none_iff] at last
      subst last
      rfl
  | some entry =>
      have nonempty : stretch ≠ [] := by
        intro empty
        subst empty
        cases last
      have positive : 0 < stretch.length := List.length_pos_iff.mpr nonempty
      simp only [Option.map_some, Option.getD_some]
      omega

section Sessions

variable {size : α → Nat} {directory : List α} {pager : Pager α} {capacity : Nat → Nat}

/-- One call moves the client on by the length of the stretch it got. -/
theorem session_step (calls : Nat) {stretch : List α}
    (page : pager (capacity calls) (session pager capacity calls).offset =
      stretch.zipIdx ((session pager capacity calls).offset + 1)) :
    (session pager capacity (calls + 1)).offset =
        (session pager capacity calls).offset + stretch.length ∧
      (session pager capacity (calls + 1)).received =
        (session pager capacity calls).received ++ stretch := by
  refine ⟨?_, ?_⟩
  · rw [session, page]
    exact last_offset stretch _
  · rw [session, page, List.zipIdx_map_fst]

/-- The offset counts what was received, which is the front of the directory, and
every call moves it on until the directory is exhausted. -/
theorem session_front (contiguous : Contiguous size directory pager)
    (adequate : Adequate size directory pager capacity) (calls : Nat) :
    (session pager capacity calls).offset ≤ directory.length ∧
      (session pager capacity calls).received =
        directory.take (session pager capacity calls).offset ∧
      (¬ Ended pager capacity calls → (session pager capacity calls).offset <
        (session pager capacity (calls + 1)).offset) ∧
      (Ended pager capacity calls →
        (session pager capacity calls).offset = directory.length) := by
  -- the bounds of one call, from those before it
  have moves : ∀ calls, (session pager capacity calls).offset ≤ directory.length →
      ∃ count, (session pager capacity calls).offset + count ≤ directory.length ∧
        (session pager capacity (calls + 1)).offset =
          (session pager capacity calls).offset + count ∧
        (session pager capacity (calls + 1)).received =
          (session pager capacity calls).received ++
            (directory.drop (session pager capacity calls).offset).take count ∧
        (Ended pager capacity calls ↔ count = 0) ∧
        ((session pager capacity calls).offset < directory.length → 0 < count) := by
    intro calls bound
    obtain ⟨count, inside, page, progress⟩ := contiguous (capacity calls) _ bound (adequate calls)
    obtain ⟨offset, received⟩ := session_step calls page
    have length : ((directory.drop (session pager capacity calls).offset).take count).length =
        count := by
      rw [List.length_take, List.length_drop]
      omega
    refine ⟨count, inside, by rw [offset, length], received, ?_, progress⟩
    unfold Ended
    rw [page]
    constructor
    · intro empty
      have none := congrArg List.length empty
      simpa [length] using none
    · intro empty
      simp [empty]
  have front : (session pager capacity calls).offset ≤ directory.length ∧
      (session pager capacity calls).received =
        directory.take (session pager capacity calls).offset := by
    induction calls with
    | zero => exact ⟨Nat.zero_le _, rfl⟩
    | succ calls ih =>
        obtain ⟨count, inside, offset, received, _⟩ := moves calls ih.1
        refine ⟨by omega, ?_⟩
        rw [received, ih.2, offset, ← List.take_add]
  obtain ⟨count, inside, offset, _, ended, progress⟩ := moves calls front.1
  refine ⟨front.1, front.2, ?_, ?_⟩
  · intro going
    have positive : count ≠ 0 := fun zero => going (ended.mpr zero)
    omega
  · intro done
    have zero := ended.mp done
    by_contra short
    have positive := progress (by omega)
    omega

/-- A client of a contiguous listing gets the whole directory. -/
theorem lossless_of_contiguous (contiguous : Contiguous size directory pager) :
    Lossless size directory pager := by
  intro capacity adequate
  have front := session_front contiguous adequate
  have ends : ∃ calls, Ended pager capacity calls := by
    by_contra never
    have going : ∀ calls, ¬ Ended pager capacity calls := fun calls ended => never ⟨calls, ended⟩
    have grows : ∀ calls, calls ≤ (session pager capacity calls).offset := by
      intro calls
      induction calls with
      | zero => exact Nat.zero_le _
      | succ calls ih =>
          have step := (front calls).2.2.1 (going calls)
          omega
    have beyond := grows (directory.length + 1)
    have bound := (front (directory.length + 1)).1
    omega
  classical
  refine ⟨Nat.find ends, Nat.find_spec ends, fun earlier before => Nat.find_min ends before, ?_⟩
  obtain ⟨_, received, _, finished⟩ := front (Nat.find ends)
  rw [received, finished (Nat.find_spec ends), List.take_length]

/-- The plain loop lists its entries without loss. -/
theorem pageOf_contiguous (buffer : ReplyBuffer α) (entries : List α) :
    Contiguous buffer.size entries (pageOf buffer entries) := by
  intro capacity offset bound room
  obtain ⟨count, left, inside, total, next, filled⟩ :=
    fill_zipIdx buffer (entries.drop offset) offset capacity
  rw [List.length_drop] at inside
  refine ⟨count, by omega, ?_, ?_⟩
  · unfold pageOf
    rw [zipIdx_drop, Nat.zero_add, filled]
  · intro more
    by_contra none
    have zero : count = 0 := by omega
    subst zero
    have first : (entries.drop offset)[0]? = some (entries.get ⟨offset, more⟩) := by
      simp [more]
    have large := next _ first
    have small := room (entries.get ⟨offset, more⟩) (by simp [more])
    simp only [List.take_zero, List.map_nil, List.sum_nil, Nat.add_zero] at total
    omega

end Sessions

section Extra

variable {buffer : ReplyBuffer α} {entries : List α} {extra : α} {capacity offset : Nat}

theorem pageThen_past (past : entries.length < offset) :
    pageThen buffer entries extra capacity offset = [] := by
  have exhausted : entries.zipIdx.drop offset = [] := by
    rw [List.drop_eq_nil_iff, List.length_zipIdx]
    omega
  simp only [pageThen, exhausted, fill]
  rw [if_neg fun both => by omega]

/-- In a buffer that a refused entry empties, the extra entry comes after all others or not
at all. -/
theorem pageThen_page (extra : α) (capacity : Nat) (emptied : buffer.Emptied)
    (bound : offset ≤ entries.length) :
    ∃ count left, offset + count ≤ entries.length ∧
      left + (((entries.drop offset).take count).map buffer.size).sum = capacity ∧
      (∀ entry, entries[offset + count]? = some entry → left < buffer.size entry) ∧
      pageThen buffer entries extra capacity offset =
        ((entries.drop offset).take count).zipIdx (offset + 1) ++
          if offset + count = entries.length ∧ buffer.size extra ≤ left then
            [(extra, entries.length + 1)] else [] := by
  obtain ⟨count, left, inside, total, next, filled⟩ :=
    fill_zipIdx buffer (entries.drop offset) offset capacity
  rw [List.length_drop] at inside
  refine ⟨count, left, by omega, total, ?_, ?_⟩
  · intro entry found
    exact next entry (by rwa [List.getElem?_drop])
  · unfold pageThen
    rw [zipIdx_drop, Nat.zero_add, filled, List.getElem?_drop]
    dsimp only
    by_cases all : offset + count = entries.length
    · have none_ : entries[offset + count]? = none := by simp [all]
      rw [none_, Option.map_none, Option.getD_none]
      by_cases fits : buffer.size extra ≤ left
      · rw [if_pos ⟨bound, fits⟩, if_pos ⟨all, fits⟩]
      · rw [if_neg fun both => fits both.2, if_neg fun both => fits both.2, List.append_nil]
    · have inRange : offset + count < entries.length := by omega
      rw [List.getElem?_eq_getElem inRange, Option.map_some, Option.getD_some, emptied]
      have positive := buffer.sized extra
      rw [if_neg (by omega), if_neg (by omega), List.append_nil]

/-- The listing with an extra entry at the end loses nothing, if a refused entry empties
the buffer. -/
theorem pageThen_contiguous (emptied : buffer.Emptied) :
    Contiguous buffer.size (entries ++ [extra]) (pageThen buffer entries extra) := by
  intro capacity offset bound room
  rw [List.length_append, List.length_singleton] at bound ⊢
  by_cases past : entries.length < offset
  · refine ⟨0, by omega, ?_, by omega⟩
    rw [pageThen_past past]
    rfl
  · obtain ⟨count, left, inside, total, next, page⟩ :=
      pageThen_page extra capacity emptied (Nat.le_of_not_lt past)
    have dropped : (entries ++ [extra]).drop offset = entries.drop offset ++ [extra] :=
      List.drop_append_of_le_length (by omega)
    by_cases last : offset + count = entries.length ∧ buffer.size extra ≤ left
    · have whole : (entries.drop offset).length = count := by
        rw [List.length_drop]
        omega
      refine ⟨count + 1, by omega, ?_, fun _ => Nat.succ_pos count⟩
      rw [page, if_pos last, dropped, List.take_of_length_le (by omega),
        List.take_of_length_le (by simp; omega), List.zipIdx_append, whole]
      simp only [List.zipIdx_cons, List.zipIdx_nil]
      congr 3
      omega
    · refine ⟨count, by omega, ?_, ?_⟩
      · rw [page, if_neg last, List.append_nil, dropped,
          List.take_append_of_le_length (by rw [List.length_drop]; omega)]
      · intro more
        by_contra none_
        have zero : count = 0 := by omega
        subst zero
        simp only [List.take_zero, List.map_nil, List.sum_nil, Nat.add_zero] at total inside next
        by_cases here : offset < entries.length
        · have found : entries[offset]? = some (entries.get ⟨offset, here⟩) := by simp [here]
          have small := room (entries.get ⟨offset, here⟩) (by
            rw [List.getElem?_append_left here, found])
          have large := next _ found
          omega
        · have small := room extra (by
            have same : offset = entries.length := by omega
            simp [same])
          exact last ⟨by omega, by omega⟩

end Extra

end NixRedox.Paging
