import NixRedox.TrackedFiles

set_option autoImplicit false

/- Managed files on their way from a configuration to activation: normalised when the
configuration is read, normalised again when the manifest is made, and read once more when it
is activated. -/
namespace NixRedox.Rebuild

open Activate (normalName parseModeString stripPrefixOr validateManagedRelativePath)
open Tracked (mapM_normalName)
open UnixPath (Component Proper body body_segment_cons components components_relative isAbsolute
  mem_body toComponent)

section Paths

/-- The pieces between the slashes have none. -/
theorem slash_not_mem_splitOn {text piece : List Char} (member : piece ∈ text.splitOn '/') :
    '/' ∉ piece := by
  induction text generalizing piece with
  | nil =>
      rw [List.splitOn_nil, List.mem_singleton] at member
      simp [member]
  | cons head rest ih =>
      rw [List.splitOn_cons_eq_if_modifyHead] at member
      split at member
      · rcases List.mem_cons.mp member with rfl | behind
        · simp
        · exact ih behind
      · rename_i other
        have apart : '/' ≠ head := fun same => other (beq_iff_eq.mpr same.symm)
        cases split : rest.splitOn '/' with
        | nil => simp [split] at member
        | cons first others =>
            rw [split, List.modifyHead_cons, List.mem_cons] at member
            rcases member with rfl | behind
            · have free := ih (split ▸ List.mem_cons_self)
              simp [apart, free]
            · exact ih (split ▸ List.mem_cons_of_mem first behind)

/-- A name among the components of a path can be one in a directory. -/
theorem proper_of_mem_components {path name : List Char}
    (member : Component.normal name ∈ components path) : Proper name := by
  have among : Component.normal name ∈ body (path.splitOn '/') := by
    unfold components at member
    split at member
    · simpa using member
    · split at member
      · rename_i dot
        rw [dot]
        simpa using member
      · exact member
  obtain ⟨segment, inside, named, dot, same⟩ := mem_body.mp among
  unfold toComponent at same
  split at same
  · cases same
  · rename_i dots
    cases same
    refine ⟨named, dot, dots, ?_⟩
    exact slash_not_mem_splitOn inside

theorem body_names {names : List (List Char)} (proper : ∀ name ∈ names, Proper name) :
    body names = names.map .normal := by
  induction names with
  | nil => rfl
  | cons name rest ih =>
      obtain ⟨named, dot, dots, _⟩ := proper name List.mem_cons_self
      rw [body_segment_cons rest named dot, toComponent, if_neg dots, List.map_cons,
        ih (fun other inside => proper other (List.mem_cons_of_mem name inside))]

/-- Names that are joined by slashes are the components of the text. -/
theorem components_intercalate {names : List (List Char)} (nonempty : names ≠ [])
    (proper : ∀ name ∈ names, Proper name) :
    components (List.intercalate ['/'] names) = names.map .normal := by
  have split : (List.intercalate ['/'] names).splitOn '/' = names :=
    List.splitOn_intercalate '/' (fun name inside => (proper name inside).2.2.2) nonempty
  have relative : isAbsolute (List.intercalate ['/'] names) = false := by
    unfold isAbsolute
    split
    · rename_i tail starts
      rw [starts, List.splitOn_cons_eq_if_modifyHead, if_pos (by rfl)] at split
      exact absurd rfl (proper [] (split ▸ List.mem_cons_self)).1
    · rfl
  rw [components_relative _ relative, split]
  split
  · rename_i dot
    exact absurd rfl (proper ['.'] (by simp)).2.1
  · exact body_names proper

variable {key path : String}

theorem mapM_normalName_names (names : List (List Char)) :
    (names.map Component.normal).mapM normalName = some names := by
  induction names with
  | nil => rfl
  | cons name rest ih =>
      rw [List.map_cons, List.mapM_cons, ih]
      rfl

/-- The names of a path that is accepted are its components. -/
theorem validateManagedRelativePath_eq_ok {names : List (List Char)} :
    validateManagedRelativePath key = .ok names ↔
      components key.toList = names.map .normal ∧ names ≠ [] := by
  unfold validateManagedRelativePath
  constructor
  · intro valid
    split at valid
    · cases valid
    · rename_i relative normal
      split at valid
      · cases valid
      · rename_i nonempty
        cases valid
        exact ⟨mapM_normalName normal, nonempty⟩
  · rintro ⟨shape, nonempty⟩
    rw [shape, mapM_normalName_names]
    exact if_neg nonempty

theorem validateManagedFilePath_eq_ok :
    validateManagedFilePath key = .ok path ↔ ∃ names, validateManagedRelativePath key = .ok names ∧
      path = String.ofList (List.intercalate ['/'] names) := by
  unfold validateManagedFilePath
  cases validateManagedRelativePath key with
  | error reason => simp [Except.map]
  | ok names => simp [Except.map, eq_comm]

/-- The path under which a file is kept is accepted again, as the same relative path. -/
theorem validateManagedFilePath_again (valid : validateManagedFilePath key = .ok path) :
    validateManagedRelativePath path = validateManagedRelativePath key ∧
      validateManagedFilePath path = .ok path := by
  obtain ⟨names, relative, rfl⟩ := validateManagedFilePath_eq_ok.mp valid
  obtain ⟨shape, nonempty⟩ := validateManagedRelativePath_eq_ok.mp relative
  have proper : ∀ name ∈ names, Proper name := by
    intro name inside
    exact proper_of_mem_components (shape ▸ List.mem_map_of_mem inside)
  have again : validateManagedRelativePath (String.ofList (List.intercalate ['/'] names)) =
      .ok names := by
    rw [validateManagedRelativePath_eq_ok, String.toList_ofList]
    exact ⟨components_intercalate nonempty proper, nonempty⟩
  exact ⟨again.trans relative.symm, validateManagedFilePath_eq_ok.mpr ⟨names, again, rfl⟩⟩

/-- Two accepted paths are kept under one name if and only if they have the same components. -/
theorem validateManagedFilePath_eq_iff {other : String}
    (valid : validateManagedFilePath key = .ok path) {otherPath : String}
    (otherValid : validateManagedFilePath other = .ok otherPath) :
    path = otherPath ↔ components key.toList = components other.toList := by
  have relative := (validateManagedFilePath_again valid).1
  have otherRelative := (validateManagedFilePath_again otherValid).1
  obtain ⟨names, read, spelled⟩ := validateManagedFilePath_eq_ok.mp valid
  obtain ⟨others, otherRead, otherSpelled⟩ := validateManagedFilePath_eq_ok.mp otherValid
  rw [(validateManagedRelativePath_eq_ok.mp read).1,
    (validateManagedRelativePath_eq_ok.mp otherRead).1]
  constructor
  · rintro rfl
    rw [relative, read, otherRead, Except.ok.injEq] at otherRelative
    rw [otherRelative]
  · intro same
    have joined : names = others :=
      List.map_injective_iff.mpr (fun _ _ => Component.normal.inj) same
    rw [spelled, otherSpelled, joined]

end Paths

section Modes

/-- The number that a mode text gives in octal. -/
def modeValue (mode : String) : Nat :=
  Nat.ofDigitChars 8 (stripPrefixOr "0o".toList (Text.trim mode.toList)) 0

/-- The digits of a mode: one zero in front of others is passed over. -/
def modeDigits (trimmed : List Char) : List Char :=
  match trimmed with
  | '0' :: rest => if rest ≠ [] then rest else trimmed
  | _ => trimmed

def OctalText (text : List Char) : Prop := ∀ digit ∈ text, '0' ≤ digit ∧ digit ≤ '7'

variable {mode : String} {value : Nat} {text : List Char}

theorem ofDigitChars_modeDigits (trimmed : List Char) :
    Nat.ofDigitChars 8 (modeDigits trimmed) 0 = Nat.ofDigitChars 8 trimmed 0 := by
  unfold modeDigits
  split
  · split
    · rw [Nat.ofDigitChars_cons]
      rfl
    · rfl
  · rfl

theorem parseModeString_eq_ok :
    parseModeString mode = .ok value ↔
      (let digits := modeDigits (stripPrefixOr "0o".toList (Text.trim mode.toList))
       digits ≠ [] ∧ Text.byteLength digits ≤ 4 ∧ OctalText digits) ∧
      value = modeValue mode ∧ value ≤ 0o7777 := by
  have shape : parseModeString mode =
      (let digits := modeDigits (stripPrefixOr "0o".toList (Text.trim mode.toList))
       if digits = [] ∨ 4 < Text.byteLength digits ∨
           ¬ digits.all fun digit => '0' ≤ digit ∧ digit ≤ '7' then
         .error ("invalid file mode '" ++ mode ++ "' (expected octal like 0644)")
       else if 0o7777 < Nat.ofDigitChars 8 digits 0 then
         .error ("invalid file mode '" ++ mode ++ "' (must be <= 07777)")
       else
         .ok (Nat.ofDigitChars 8 digits 0)) := rfl
  rw [shape, modeValue, ← ofDigitChars_modeDigits]
  generalize modeDigits (stripPrefixOr "0o".toList (Text.trim mode.toList)) = digits
  dsimp only
  have octal : (digits.all fun digit => '0' ≤ digit ∧ digit ≤ '7') = true ↔ OctalText digits := by
    simp [OctalText]
  split
  · rename_i refused
    simp only [reduceCtorEq, false_iff]
    rintro ⟨⟨some_, short, plain⟩, _⟩
    rcases refused with none | long | odd
    · exact some_ none
    · omega
    · exact odd (octal.mpr plain)
  · rename_i taken
    push Not at taken
    rw [octal] at taken
    split
    · simp only [reduceCtorEq, false_iff]
      omega
    · rw [Except.ok.injEq]
      constructor
      · rintro rfl
        exact ⟨taken, rfl, by omega⟩
      · rintro ⟨_, same, _⟩
        exact same.symm

theorem octalText_toDigits (value : Nat) : OctalText (Nat.toDigits 8 value) := by
  induction value using Nat.strongRecOn with
  | ind value ih =>
      have last : ∀ digit < 8, '0' ≤ Nat.digitChar digit ∧ Nat.digitChar digit ≤ '7' := by decide
      rw [Nat.toDigits_eq_if (by omega)]
      split
      · rename_i small
        simpa [OctalText] using last value small
      · intro digit inside
        rcases List.mem_append.mp inside with front | final
        · exact ih (value / 8) (by omega) digit front
        · rw [List.mem_singleton] at final
          exact final ▸ last (value % 8) (Nat.mod_lt value (by omega))

theorem octalText_octal (value : Nat) : OctalText (octal value).toList := by
  intro digit inside
  rw [octal, String.toList_ofList, List.mem_append, List.mem_replicate] at inside
  rcases inside with ⟨_, rfl⟩ | inside
  · decide
  · exact octalText_toDigits value digit inside

theorem length_octal (small : value ≤ 0o7777) : (octal value).toList.length = 4 := by
  have short : (Nat.toDigits 8 value).length ≤ 4 :=
    (Nat.length_toDigits_le_iff (by omega) (by omega)).mpr (by omega)
  rw [octal, String.toList_ofList, List.length_append, List.length_replicate]
  omega

theorem ofDigitChars_octal (value : Nat) :
    Nat.ofDigitChars 8 (octal value).toList 0 = value := by
  rw [octal, String.toList_ofList, Nat.ofDigitChars_append, Nat.ofDigitChars_replicate_zero,
    Nat.mul_zero, Nat.ofDigitChars_toDigits (by omega) (by omega)]

theorem OctalText.toNat_bounds (plain : OctalText text) {digit : Char} (inside : digit ∈ text) :
    48 ≤ digit.toNat ∧ digit.toNat ≤ 55 := by
  obtain ⟨low, high⟩ := plain digit inside
  exact ⟨UInt32.le_iff_toNat_le.mp low, UInt32.le_iff_toNat_le.mp high⟩

/-- Nothing is cut off from a text of octal digits. -/
theorem OctalText.whole (plain : OctalText text) :
    stripPrefixOr "0o".toList (Text.trim text) = text := by
  have solid : ∀ digit ∈ text, ¬ Text.isWhitespace digit = true := by
    intro digit inside
    obtain ⟨low, high⟩ := plain.toNat_bounds inside
    simp only [Text.isWhitespace, Bool.or_eq_true, Bool.and_eq_true, decide_eq_true_eq]
    omega
  have front : text.dropWhile Text.isWhitespace = text :=
    List.dropWhile_eq_self_iff.mpr (fun some_ => solid _ (List.getElem_mem some_))
  have back : text.rdropWhile Text.isWhitespace = text :=
    List.rdropWhile_eq_self_iff.mpr (fun some_ => solid _ (List.getLast_mem some_))
  have noMark : ¬ "0o".toList.isPrefixOf text = true := by
    intro starts
    obtain ⟨tail, rfl⟩ := List.isPrefixOf_iff_prefix.mp starts
    have bounds := plain.toNat_bounds (List.mem_append_left tail (show 'o' ∈ "0o".toList by decide))
    exact absurd bounds.2 (by decide)
  rw [Text.trim, front, back, stripPrefixOr, if_neg noMark]

theorem OctalText.byteLength (plain : OctalText text) : Text.byteLength text = text.length := by
  have single : ∀ size ∈ text.map Char.utf8Size, size = 1 := by
    intro size member
    obtain ⟨digit, inside, rfl⟩ := List.mem_map.mp member
    obtain ⟨_, high⟩ := plain.toNat_bounds inside
    exact Char.utf8Size_eq_one_iff.mpr (UInt32.le_iff_toNat_le.mpr (by simp; omega))
  rw [Text.byteLength, List.sum_eq_card_nsmul _ 1 single]
  simp

theorem OctalText.modeDigits (plain : OctalText text) (some_ : text ≠ []) :
    modeDigits text ≠ [] ∧ (modeDigits text).length ≤ text.length ∧
      OctalText (modeDigits text) := by
  unfold Rebuild.modeDigits
  split
  · rename_i rest
    split
    · rename_i more
      exact ⟨more, by simp, fun digit inside => plain digit (List.mem_cons_of_mem _ inside)⟩
    · exact ⟨some_, le_rfl, plain⟩
  · exact ⟨some_, le_rfl, plain⟩

/-- Four octal digits are read back. -/
theorem parseModeString_octal (small : value ≤ 0o7777) :
    parseModeString (octal value) = .ok value := by
  have plain := octalText_octal value
  have four := length_octal small
  have some_ : (octal value).toList ≠ [] := by
    intro none
    rw [none] at four
    cases four
  obtain ⟨digits, short, octals⟩ := plain.modeDigits some_
  rw [parseModeString_eq_ok, modeValue, plain.whole, ofDigitChars_octal]
  refine ⟨⟨digits, ?_, octals⟩, rfl, small⟩
  rw [octals.byteLength]
  omega

/-- A mode is kept in a form that means the same number and is its own form. -/
theorem normalizeManagedFileMode_again {normalized : String}
    (valid : normalizeManagedFileMode mode = .ok normalized) :
    parseModeString normalized = .ok (modeValue mode) ∧
      normalizeManagedFileMode normalized = .ok normalized := by
  unfold normalizeManagedFileMode at valid ⊢
  cases parsed : parseModeString mode with
  | error reason => simp [parsed, Except.map] at valid
  | ok value =>
      rw [parsed] at valid
      cases valid
      obtain ⟨_, same, small⟩ := parseModeString_eq_ok.mp parsed
      rw [parseModeString_octal small, ← same]
      exact ⟨rfl, rfl⟩

end Modes

section Insertion

variable {β : Type} {value : ManagedFileInput → String → β}
  {files : List (String × ManagedFileInput)} {start result : AList fun _ : String => β}

/-- What is inserted under a path is one of the files with it; another path is left alone. -/
theorem insertFiles_cases (inserted : insertFiles value files start = .ok result) (path : String) :
    (∃ winner ∈ files, ∃ mode, validateManagedFilePath winner.1 = .ok path ∧
      normalizeManagedFileMode (winner.2.mode.getD "0644") = .ok mode ∧
      result.lookup path = some (value winner.2 mode)) ∨
    ((∀ entry ∈ files, validateManagedFilePath entry.1 ≠ .ok path) ∧
      result.lookup path = start.lookup path) := by
  induction files generalizing start with
  | nil =>
      cases inserted
      exact .inr ⟨by simp, rfl⟩
  | cons entry rest ih =>
      unfold insertFiles at inserted
      split at inserted
      · cases inserted
      · rename_i normalizedPath valid
        split at inserted
        · cases inserted
        · rename_i normalizedMode normal
          rcases ih inserted with ⟨winner, behind, written⟩ | ⟨others, kept⟩
          · exact .inl ⟨winner, List.mem_cons_of_mem _ behind, written⟩
          · by_cases own : path = normalizedPath
            · subst own
              rw [AList.lookup_insert] at kept
              exact .inl ⟨_, List.mem_cons_self, normalizedMode, valid, normal, kept⟩
            · rw [AList.lookup_insert_ne own] at kept
              refine .inr ⟨?_, kept⟩
              intro entry inside
              rcases List.mem_cons.mp inside with rfl | behind
              · rw [valid]
                simpa using Ne.symm own
              · exact others entry behind

/-- Files are inserted if and only if the path and the mode of each are accepted. -/
theorem insertFiles_succeeds_iff :
    (∃ result, insertFiles value files start = .ok result) ↔ ∀ entry ∈ files,
      (∃ path, validateManagedFilePath entry.1 = .ok path) ∧
        ∃ mode, normalizeManagedFileMode (entry.2.mode.getD "0644") = .ok mode := by
  induction files generalizing start with
  | nil => simp [insertFiles]
  | cons entry rest ih =>
      unfold insertFiles
      rw [List.forall_mem_cons]
      split
      · rename_i reason refused
        simp [refused]
      · rename_i path valid
        split
        · rename_i reason refused
          simp [refused]
        · rename_i mode normal
          rw [ih]
          simp [valid, normal]

end Insertion

section Passage

variable {blake3 : ByteArray → String} {current : Manifest} {raw config : RebuildConfig}
  {resolved : List System.Package} {files kept : AList fun _ : String => ManagedFileInput}

/-- What a configuration keeps of its files: each under a normal path, with a normal mode. -/
theorem kept_normal
    (normalized : insertFiles (fun file mode => { file with mode := some mode })
      (sortedEntries files) ∅ = .ok kept)
    {path : String} {file : ManagedFileInput} (there : kept.lookup path = some file) :
    ∃ key own, files.lookup key = some own ∧ validateManagedFilePath key = .ok path ∧
      ∃ mode, normalizeManagedFileMode (own.mode.getD "0644") = .ok mode ∧
        file = { own with mode := some mode } := by
  rcases insertFiles_cases normalized path with
    ⟨winner, member, mode, valid, normal, own⟩ | ⟨_, none⟩
  · rw [there, Option.some.injEq] at own
    exact ⟨winner.1, winner.2, mem_sortedEntries.mp member, valid, mode, normal, own⟩
  · rw [there, AList.lookup_empty] at none
    cases none

/-- The manifest gets, under the path of each declared file, the contents of a declared file
with that path. -/
theorem mergeFiles_kept
    (normalized : insertFiles (fun file mode => { file with mode := some mode })
      (sortedEntries files) ∅ = .ok kept) (before : Activate.Files) :
    ∃ merged, mergeFiles blake3 before (some kept) = .ok merged ∧
      ∀ key file path, files.lookup key = some file → validateManagedFilePath key = .ok path →
        ∃ winner own, files.lookup winner = some own ∧ validateManagedFilePath winner = .ok path ∧
          ∃ mode, normalizeManagedFileMode (own.mode.getD "0644") = .ok mode ∧
            merged.lookup path = some (managedInfo blake3 own mode) := by
  have again : ∀ entry ∈ sortedEntries kept, validateManagedFilePath entry.1 = .ok entry.1 ∧
      normalizeManagedFileMode (entry.2.mode.getD "0644") = .ok (entry.2.mode.getD "0644") := by
    intro entry member
    obtain ⟨key, own, _, valid, mode, normal, same⟩ :=
      kept_normal normalized (mem_sortedEntries.mp member)
    refine ⟨(validateManagedFilePath_again valid).2, ?_⟩
    rw [same]
    exact (normalizeManagedFileMode_again normal).2
  obtain ⟨merged, inserted⟩ := insertFiles_succeeds_iff.mpr
    (fun entry member => ⟨⟨_, (again entry member).1⟩, ⟨_, (again entry member).2⟩⟩)
  refine ⟨merged, inserted, ?_⟩
  intro key file path declared valid
  have present : (kept.lookup path).isSome = true :=
    (insertFiles_lookup normalized).mpr (.inr ⟨(key, file), mem_sortedEntries.mpr declared, valid⟩)
  obtain ⟨chosen, there⟩ := Option.isSome_iff_exists.mp present
  rcases insertFiles_cases inserted path with
    ⟨⟨place, last⟩, member, mode, own, normal, written⟩ | ⟨absent, _⟩
  · have same : place = path := by
      rw [(again _ member).1, Except.ok.injEq] at own
      exact own
    subst same
    obtain ⟨winner, origin, found, first, firstMode, firstNormal, rfl⟩ :=
      kept_normal normalized (mem_sortedEntries.mp member)
    refine ⟨winner, origin, found, first, firstMode, firstNormal, ?_⟩
    rw [(again _ member).2, Except.ok.injEq] at normal
    rw [written, ← normal]
    rfl
  · have refused := absent (path, chosen) (mem_sortedEntries.mpr there)
    exact absurd (again (path, chosen) (mem_sortedEntries.mpr there)).1 refused

/-- A declared file reaches activation: the entry under its normal path has its text, and path
and mode are read there as they were written, and are normal already. -/
def Reaches (merged : Activate.Files) (key : String) (file : ManagedFileInput) : Prop :=
  ∃ path info relative, validateManagedFilePath key = .ok path ∧
    merged.lookup path = some info ∧ info.text = some file.text ∧
    validateManagedRelativePath path = .ok relative ∧
    components key.toList = relative.map .normal ∧
    parseModeString info.mode = .ok (modeValue (file.mode.getD "0644")) ∧
    validateManagedFilePath path = .ok path ∧ normalizeManagedFileMode info.mode = .ok info.mode

/-- Keys that are one path declare the same text and the same mode. -/
def Agree (files : AList fun _ : String => ManagedFileInput) : Prop :=
  ∀ key file other otherFile, files.lookup key = some file →
    files.lookup other = some otherFile → components key.toList = components other.toList →
    file.text = otherFile.text ∧
      modeValue (file.mode.getD "0644") = modeValue (otherFile.mode.getD "0644")

/-- The manifest of an accepted configuration. -/
theorem mergeConfig_accepted (accepted : validateManagedFiles raw = .ok config)
    (declared : raw.files = some files) :
    ∃ merged, mergeConfig blake3 current config resolved = .ok merged ∧
      (∀ key file, files.lookup key = some file →
        ∃ path, validateManagedFilePath key = .ok path) ∧
      ∀ key file path, files.lookup key = some file → validateManagedFilePath key = .ok path →
        ∃ winner own, files.lookup winner = some own ∧ validateManagedFilePath winner = .ok path ∧
          ∃ mode, normalizeManagedFileMode (own.mode.getD "0644") = .ok mode ∧
            merged.files.lookup path = some (managedInfo blake3 own mode) := by
  rw [validateManagedFiles, declared] at accepted
  cases normalized : insertFiles (fun file mode => { file with mode := some mode })
      (sortedEntries files) ∅ with
  | error reason => simp [normalized, Except.map] at accepted
  | ok kept =>
      simp only [normalized, Except.map, Except.ok.injEq] at accepted
      subst accepted
      have valid := insertFiles_succeeds_iff.mp ⟨kept, normalized⟩
      obtain ⟨merged, inserted, winners⟩ := @mergeFiles_kept blake3 _ _ normalized
        current.files
      refine ⟨_, by rw [mergeConfig, inserted], ?_, winners⟩
      intro key file there
      exact (valid (key, file) (mem_sortedEntries.mpr there)).1

theorem agree_of_reaches {merged : Activate.Files}
    (reach : ∀ key file, files.lookup key = some file → Reaches merged key file) :
    Agree files := by
  intro key file other otherFile there otherThere same
  obtain ⟨path, info, _, valid, found, text, _, _, mode, _⟩ := reach key file there
  obtain ⟨otherPath, otherInfo, _, otherValid, otherFound, otherText, _, _, otherMode, _⟩ :=
    reach other otherFile otherThere
  have one := (validateManagedFilePath_eq_iff valid otherValid).mpr same
  subst one
  rw [found, Option.some.injEq] at otherFound
  subst otherFound
  constructor
  · exact Option.some.inj (text.symm.trans otherText)
  · exact Except.ok.inj (mode.symm.trans otherMode)

/-- The files of an accepted configuration can be merged into any manifest, and all of them
reach activation if and only if keys that are one path agree. -/
theorem managedFiles_reach_iff (accepted : validateManagedFiles raw = .ok config)
    (declared : raw.files = some files) :
    ∃ merged, mergeConfig blake3 current config resolved = .ok merged ∧
      ((∀ key file, files.lookup key = some file → Reaches merged.files key file) ↔
        Agree files) := by
  obtain ⟨merged, done, valid, winners⟩ := @mergeConfig_accepted blake3 current _ _
    resolved _ accepted declared
  refine ⟨merged, done, agree_of_reaches, ?_⟩
  intro agree key file there
  obtain ⟨path, own⟩ := valid key file there
  obtain ⟨winner, winnerFile, winnerThere, winnerOwn, mode, normal, found⟩ :=
    winners key file path there own
  have same := (validateManagedFilePath_eq_iff own winnerOwn).mp rfl
  obtain ⟨text, value⟩ := agree key file winner winnerFile there winnerThere same
  obtain ⟨relative, again⟩ := validateManagedFilePath_again own
  obtain ⟨names, read, _⟩ := validateManagedFilePath_eq_ok.mp own
  obtain ⟨number, normalAgain⟩ := normalizeManagedFileMode_again normal
  refine ⟨path, _, names, own, found, ?_, relative.trans read,
    (validateManagedRelativePath_eq_ok.mp read).1, ?_, again, normalAgain⟩
  · rw [text]
    rfl
  · rw [value]
    exact number

theorem validateManagedFiles_succeeds
    (valid : ∀ key file, files.lookup key = some file →
      (∃ path, validateManagedFilePath key = .ok path) ∧
        ∃ mode, normalizeManagedFileMode (file.mode.getD "0644") = .ok mode) :
    ∃ config, validateManagedFiles { unset with files := some files } = .ok config := by
  obtain ⟨kept, normalized⟩ := (@insertFiles_succeeds_iff _
    (fun file mode => { file with mode := some mode }) (sortedEntries files) ∅).mpr
      (fun entry member => valid entry.1 entry.2 (mem_sortedEntries.mp member))
  exact ⟨{ unset with files := some kept }, by simp [validateManagedFiles, normalized, Except.map]⟩

end Passage

section Examples

def motd : AList fun _ : String => ManagedFileInput :=
  AList.singleton "etc/motd" ⟨"welcome", some "0o644"⟩

/-- The message of the day under two spellings of its path. -/
def motdTwice : AList fun _ : String => ManagedFileInput :=
  motd.insert "etc//motd" ⟨"goodbye", none⟩

theorem motd_lookup {key : String} {file : ManagedFileInput} (there : motd.lookup key = some file) :
    key = "etc/motd" ∧ file = ⟨"welcome", some "0o644"⟩ := by
  have member : (key, file) ∈ [("etc/motd", ⟨"welcome", some "0o644"⟩)] := by
    simpa [motd, AList.singleton, AList.mem_lookup_iff] using AList.mem_lookup_iff.mp there
  simpa using member

theorem motdTwice_lookup {key : String} {file : ManagedFileInput}
    (there : motdTwice.lookup key = some file) :
    key = "etc//motd" ∧ file = ⟨"goodbye", none⟩ ∨
      key = "etc/motd" ∧ file = ⟨"welcome", some "0o644"⟩ := by
  by_cases second : key = "etc//motd"
  · subst second
    rw [motdTwice, AList.lookup_insert, Option.some.injEq] at there
    exact .inl ⟨rfl, there.symm⟩
  · rw [motdTwice, AList.lookup_insert_ne second] at there
    exact .inr (motd_lookup there)

theorem motdTwice_valid {key : String} {file : ManagedFileInput}
    (there : motdTwice.lookup key = some file) :
    (∃ path, validateManagedFilePath key = .ok path) ∧
      ∃ mode, normalizeManagedFileMode (file.mode.getD "0644") = .ok mode := by
  rcases motdTwice_lookup there with ⟨rfl, rfl⟩ | ⟨rfl, rfl⟩
  · exact ⟨⟨"etc/motd", rfl⟩, ⟨"0644", rfl⟩⟩
  · exact ⟨⟨"etc/motd", rfl⟩, ⟨"0644", rfl⟩⟩

theorem motd_valid {key : String} {file : ManagedFileInput} (there : motd.lookup key = some file) :
    (∃ path, validateManagedFilePath key = .ok path) ∧
      ∃ mode, normalizeManagedFileMode (file.mode.getD "0644") = .ok mode := by
  obtain ⟨rfl, rfl⟩ := motd_lookup there
  exact ⟨⟨"etc/motd", rfl⟩, ⟨"0644", rfl⟩⟩

/-- A single declaration reaches activation. -/
theorem motd_reaches :
    ∃ config merged, validateManagedFiles { unset with files := some motd } = .ok config ∧
      mergeConfig (fun _ => "") (headless [] ∅) config [] = .ok merged ∧
      ∀ key file, motd.lookup key = some file → Reaches merged.files key file := by
  obtain ⟨config, accepted⟩ := @validateManagedFiles_succeeds motd
    (fun _ _ there => motd_valid there)
  obtain ⟨merged, done, reach⟩ := @managedFiles_reach_iff (fun _ => "") (headless [] ∅) _ _
    [] motd accepted rfl
  refine ⟨config, merged, accepted, done, reach.mpr ?_⟩
  intro key file other otherFile there otherThere _
  rw [(motd_lookup there).2, (motd_lookup otherThere).2]
  exact ⟨rfl, rfl⟩

/-- Two spellings of one path with different texts are accepted, and one of the texts is lost. -/
theorem motdTwice_lost :
    ∃ config merged, validateManagedFiles { unset with files := some motdTwice } = .ok config ∧
      mergeConfig (fun _ => "") (headless [] ∅) config [] = .ok merged ∧
      ¬ ∀ key file, motdTwice.lookup key = some file → Reaches merged.files key file := by
  obtain ⟨config, accepted⟩ := @validateManagedFiles_succeeds motdTwice
    (fun _ _ there => motdTwice_valid there)
  obtain ⟨merged, done, _⟩ := @mergeConfig_accepted (fun _ => "") (headless [] ∅) _ _
    [] motdTwice accepted rfl
  refine ⟨config, merged, accepted, done, ?_⟩
  intro reach
  have second : motdTwice.lookup "etc//motd" = some ⟨"goodbye", none⟩ := AList.lookup_insert _
  have first : motdTwice.lookup "etc/motd" = some ⟨"welcome", some "0o644"⟩ := by decide
  have agree := agree_of_reaches reach _ _ _ _ first second rfl
  exact absurd agree.1 (by decide)

end Examples

end NixRedox.Rebuild
