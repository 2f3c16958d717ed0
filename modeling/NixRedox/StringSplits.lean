import Mathlib

set_option autoImplicit false

/- Splitting a string at a character is splitting the list of its characters. Nothing here
knows what is split. -/
namespace NixRedox.StringSplits

open String

/-- `left` is behind the field that is read, `read` is what was read of it. -/
theorem splitOnAux_of_valid (separator : Char) (left read rest : List Char)
    (fields : List String) :
    splitOnAux (ofList (left ++ read ++ rest)) (ofList [separator]) ⟨utf8Len left⟩
        ⟨utf8Len left + utf8Len read⟩ 0 fields =
      fields.reverse ++
        (List.splitOnPPrepend (· == separator) rest read.reverse).map ofList := by
  unfold splitOnAux
  have ended : utf8Len read + utf8Len rest ≤ utf8Len read ↔ utf8Len rest = 0 := by omega
  simp only [List.append_assoc, atEnd_iff, rawEndPos_ofList, utf8Len_append, Pos.Raw.mk_le_mk,
    Nat.add_le_add_iff_left, ended, utf8Len_eq_zero, List.reverse_cons]
  split
  · subst rest
    simpa using extract_of_valid left read []
  · obtain ⟨next, rest, rfl⟩ := rest.exists_cons_of_ne_nil ‹_›
    have here : Pos.Raw.get (ofList (left ++ (read ++ next :: rest)))
        ⟨utf8Len left + utf8Len read⟩ = next := by
      simpa [-ofList_append] using get_of_valid (left ++ read) (next :: rest)
    have behind : Pos.Raw.next (ofList (left ++ (read ++ next :: rest)))
        ⟨utf8Len left + utf8Len read⟩ = ⟨utf8Len left + utf8Len read + next.utf8Size⟩ := by
      simpa [-ofList_append] using next_of_valid (left ++ read) next rest
    have first : Pos.Raw.get (ofList [separator]) 0 = separator := by
      simpa using get_of_valid [] [separator]
    have last : Pos.Raw.next (ofList [separator]) 0 = ⟨separator.utf8Size⟩ := by
      simpa using next_of_valid [] separator []
    have field : Pos.Raw.extract (ofList (left ++ (read ++ next :: rest))) ⟨utf8Len left⟩
        ⟨utf8Len left + utf8Len read⟩ = ofList read := by
      simpa [-ofList_append] using extract_of_valid left read (next :: rest)
    rw [here, first, behind, last]
    by_cases same : next = separator
    · subst same
      have ends : (⟨utf8Len [next]⟩ : Pos.Raw) ≤ ⟨next.utf8Size⟩ := by simp
      have back : Pos.Raw.unoffsetBy ⟨utf8Len left + utf8Len read + next.utf8Size⟩
          ⟨next.utf8Size⟩ = ⟨utf8Len left + utf8Len read⟩ := by
        simp [Pos.Raw.unoffsetBy]
      rw [if_pos (beq_self_eq_true next), if_pos (by simp), back, field,
        List.splitOnPPrepend_cons_pos (by simp)]
      have later := splitOnAux_of_valid next (left ++ read ++ [next]) [] rest
        (ofList read :: fields)
      simpa [Nat.add_assoc] using later
    · rw [if_neg (by simpa using same), List.splitOnPPrepend_cons_neg (by simpa using same)]
      have later := splitOnAux_of_valid separator left (read ++ [next]) rest fields
      have unmoved : Pos.Raw.unoffsetBy ⟨utf8Len left + utf8Len read⟩ 0 =
          ⟨utf8Len left + utf8Len read⟩ := by
        simp [Pos.Raw.unoffsetBy]
      rw [unmoved, behind]
      simpa [Nat.add_assoc] using later
termination_by rest.length

theorem splitOn_char (text : String) (separator : Char) :
    text.splitOn (ofList [separator]) = (text.toList.splitOn separator).map ofList := by
  have some_ : (ofList [separator] == "") = false := by simp
  have whole := splitOnAux_of_valid separator [] [] text.toList []
  simpa [splitOn, some_, List.splitOn] using whole

/-- Nothing is lost by splitting. -/
theorem splitOn_char_injective (separator : Char) {one two : String}
    (same : one.splitOn (ofList [separator]) = two.splitOn (ofList [separator])) : one = two := by
  rw [splitOn_char, splitOn_char] at same
  have fields := List.map_injective_iff.mpr (fun _ _ => ofList_injective) same
  have texts := congrArg (List.intercalate [separator]) fields
  rw [List.intercalate_splitOn, List.intercalate_splitOn] at texts
  exact toList_injective texts

/-- The first separator tells what is before it from what is after it. -/
theorem first_segment {α : Type} {separator : α} {front other rest more : List α}
    (plain : separator ∉ front) (plainToo : separator ∉ other)
    (same : front ++ separator :: rest = other ++ separator :: more) :
    front = other ∧ rest = more := by
  induction front generalizing other with
  | nil =>
      cases other with
      | nil => exact ⟨rfl, (List.cons.inj same).2⟩
      | cons head tail =>
          have here := (List.cons.inj same).1
          exact absurd (here ▸ List.mem_cons_self) plainToo
  | cons first later ih =>
      cases other with
      | nil =>
          have here := (List.cons.inj same).1
          exact absurd (here ▸ List.mem_cons_self) plain
      | cons head tail =>
          obtain ⟨rfl, remain⟩ := List.cons.inj same
          have both := ih (fun inside => plain (List.mem_cons_of_mem _ inside))
            (fun inside => plainToo (List.mem_cons_of_mem _ inside)) remain
          exact ⟨congrArg _ both.1, both.2⟩

/-- The last separator tells what is behind it from what is before it. -/
theorem last_segment {α : Type} {separator : α} {front other rest more : List α}
    (plain : separator ∉ rest) (plainToo : separator ∉ more)
    (same : front ++ separator :: rest = other ++ separator :: more) :
    front = other ∧ rest = more := by
  have reversed := congrArg List.reverse same
  simp only [List.reverse_append, List.reverse_cons, List.append_assoc, List.singleton_append]
    at reversed
  have both := first_segment (fun inside => plain (List.mem_reverse.mp inside))
    (fun inside => plainToo (List.mem_reverse.mp inside)) reversed
  exact ⟨List.reverse_inj.mp both.2, List.reverse_inj.mp both.1⟩

end NixRedox.StringSplits
