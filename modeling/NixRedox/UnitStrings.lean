import NixRedox.BasicStrings
import NixRedox.InitScripts

set_option autoImplicit false

/- The strings of unit files, which are JSON, as basic strings. -/
namespace NixRedox.InitScripts

open BasicStrings (Escaped codeChar readString readString_written)

section Strings

variable {plain : Char → Bool}

theorem codeChar_control : ∀ n < 32,
    codeChar ['0', '0', Nat.digitChar (n / 16), Nat.digitChar (n % 16)] =
      some (Char.ofNat n) := by
  decide

/-- Only characters from the space on stand for themselves. -/
theorem jsonChar_escaped (c : Char) (unmarked : 0x20 ≤ c.toNat → plain c) :
    Escaped plain c (jsonChar c) := by
  unfold jsonChar
  split
  · exact .marked rfl
  · exact .marked rfl
  · exact .marked rfl
  · exact .marked rfl
  · exact .marked rfl
  · exact .marked rfl
  · exact .marked rfl
  · rename_i quote backslash _ _ _ _ _
    split
    · rename_i control
      have code := codeChar_control c.toNat control
      rw [Char.ofNat_toNat] at code
      exact .coded code
    · rename_i printed
      exact .plain (unmarked (Nat.le_of_not_lt printed)) quote backslash

theorem readString_tomlString (value : String) (rest : List Char)
    (unmarked : ∀ c ∈ value.toList, 0x20 ≤ c.toNat → plain c) :
    readString plain (tomlString value ++ rest) = some (value.toList, rest) := by
  have written := @readString_written plain jsonChar value.toList rest
    fun c inside => jsonChar_escaped c (unmarked c inside)
  rw [← written, tomlString, List.append_assoc]
  rfl

/-- Where a string ends is told by its own text. -/
theorem tomlString_append_inj {one two : String} {left right : List Char}
    (same : tomlString one ++ left = tomlString two ++ right) : one = two ∧ left = right := by
  have first := @readString_tomlString (fun _ => true) one left fun _ _ _ => rfl
  have second := @readString_tomlString (fun _ => true) two right fun _ _ _ => rfl
  rw [same, second, Option.some.injEq, Prod.mk.injEq] at first
  exact ⟨String.toList_injective first.1.symm, first.2.symm⟩

end Strings

section Lists

/-- The list behind one of its values. -/
def listedTail : List String → List Char
  | [] => [']']
  | value :: values => ',' :: (tomlString value ++ listedTail values)

theorem jsonStrings_nil : jsonStrings [] = ['[', ']'] := rfl

theorem jsonStrings_cons (value : String) (values : List String) :
    jsonStrings (value :: values) = '[' :: (tomlString value ++ listedTail values) := by
  unfold jsonStrings
  rw [List.cons_append]
  congr 1
  induction values generalizing value with
  | nil => simp [List.intercalate, listedTail]
  | cons next values ih =>
      have behind := ih next
      simp only [List.map_cons, List.intercalate, List.intersperse_cons_cons, List.flatten_cons,
        List.append_assoc] at behind ⊢
      rw [behind]
      rfl

theorem listedTail_injective : Function.Injective listedTail := by
  intro one
  induction one with
  | nil =>
      intro two same
      cases two with
      | nil => rfl
      | cons value values => simp [listedTail] at same
  | cons value values ih =>
      intro two same
      cases two with
      | nil => simp [listedTail] at same
      | cons other others =>
          obtain ⟨values_, rest⟩ := tomlString_append_inj (List.cons.inj same).2
          rw [values_, ih rest]

theorem jsonStrings_injective : Function.Injective jsonStrings := by
  intro one two same
  cases one with
  | nil =>
      cases two with
      | nil => rfl
      | cons value values => simp [jsonStrings_nil, jsonStrings_cons, tomlString] at same
  | cons value values =>
      cases two with
      | nil => simp [jsonStrings_nil, jsonStrings_cons, tomlString] at same
      | cons other others =>
          rw [jsonStrings_cons, jsonStrings_cons] at same
          obtain ⟨values_, rest⟩ := tomlString_append_inj (List.cons.inj same).2
          rw [values_, listedTail_injective rest]

end Lists

end NixRedox.InitScripts
