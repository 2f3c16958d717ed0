import NixRedox.StringSplits
import NixRedox.SubstrateBuild

set_option autoImplicit false

/- The generated files a primitive plan declares, as the tree they are copied into resolves
their names. -/
namespace NixRedox.Substrate

open AttrSets (Value)
open Attempts (bind_eq_ok exists_left exists_right mapM_eq_ok)

section Denotations

/-- The names that are followed from the root of the tree. -/
def denoted (path : String) : List String :=
  (splitPath path).filter fun component => component ≠ "" ∧ component ≠ "."

/-- Every component leads somewhere. -/
def Plain (path : String) : Prop :=
  ∀ component ∈ splitPath path, component ≠ "" ∧ component ≠ "."

theorem splitPath_eq (path : String) :
    splitPath path = (path.toList.splitOn '/').map String.ofList :=
  StringSplits.splitOn_char path '/'

theorem denoted_of_plain {path : String} (plain : Plain path) :
    denoted path = splitPath path := by
  unfold denoted
  rw [List.filter_eq_self]
  intro component inside
  exact decide_eq_true (plain component inside)

theorem eq_of_plain {one two : String} (first : Plain one) (second : Plain two)
    (same : denoted one = denoted two) : one = two := by
  rw [denoted_of_plain first, denoted_of_plain second] at same
  exact StringSplits.splitOn_char_injective '/' same

/-- A leading slash leads nowhere. -/
theorem denoted_removeRoot (path : String) : denoted (removeRoot path) = denoted path := by
  unfold removeRoot
  split
  · rename_i rooted
    unfold denoted
    rw [splitPath_eq, splitPath_eq path, String.toList_ofList]
    cases letters : path.toList with
    | nil => rfl
    | cons head rest =>
        rw [letters, List.head?_cons, Option.some.injEq] at rooted
        subst rooted
        rw [List.tail_cons, List.splitOn_cons_eq_if_modifyHead, if_pos (by rfl), List.map_cons,
          List.filter_cons_of_neg (by simp)]
  · rfl

theorem plain_reserved : ∀ reserved ∈ reservedGeneratedFilePaths, Plain reserved := by
  simp only [Plain, splitPath_eq]
  decide

theorem ne_nil_of_plain {path : String} (plain : Plain path) : denoted path ≠ [] := by
  rw [denoted_of_plain plain, splitPath_eq, ne_eq, List.map_eq_nil_iff]
  exact List.splitOn_ne_nil _ _

end Denotations

section Declared

def declaredText : Value → Option String
  | .string text => some text
  | rawFile => ((entriesOf rawFile).lookup "text").bind asString

def declaredMode : Value → Option String
  | .string _ => some fileDefaultMode
  | rawFile => asString (((entriesOf rawFile).lookup "mode").getD (.string fileDefaultMode))

/-- The file that a declaration of a file set makes. -/
structure OwnFile (entry : String × Value) (file : String × File) : Prop where
  name : file.1 = removeRoot entry.1
  text : declaredText entry.2 = some file.2.text
  mode : declaredMode entry.2 = some file.2.mode

/-- No file is written where another one or a file of the system is, nor outside of the
tree. -/
structure Separate (files : List (String × File)) : Prop where
  inside : ∀ file ∈ files, denoted file.1 ≠ [] ∧ ".." ∉ denoted file.1
  unreserved : ∀ file ∈ files, ∀ reserved ∈ reservedGeneratedFilePaths,
    denoted file.1 ≠ denoted reserved
  distinct : (files.map fun file => denoted file.1).Nodup

/-- Every declaration makes its file, and there are no others. -/
structure Kept (declared : Entries) (files : List (String × File)) : Prop where
  made : ∀ entry ∈ declared, ∃ file ∈ files, OwnFile entry file
  own : ∀ file ∈ files, ∃ entry ∈ declared, OwnFile entry file

/-- A name that is spelled with a component that leads nowhere, the root apart, denotes
neither the root of the tree nor a file of the system nor what another name denotes. -/
def NoRespelling (declared : Entries) : Prop :=
  ∀ entry ∈ declared, ¬Plain (removeRoot entry.1) →
    denoted entry.1 ≠ [] ∧
      (∀ reserved ∈ reservedGeneratedFilePaths, denoted entry.1 ≠ denoted reserved) ∧
      ∀ other ∈ declared, other.1 ≠ entry.1 → denoted other.1 ≠ denoted entry.1

end Declared

section Accepted

variable {field path name : String} {value : Value}

/-- One leading slash is removed. -/
theorem normalizeRelativePath_ok
    (accepted : normalizeRelativePath field (.string path) = .ok name) :
    name = removeRoot path ∧ ".." ∉ splitPath name := by
  obtain ⟨checked, given, rest⟩ := bind_eq_ok.mp accepted
  have same := ensureNonEmptyString_ok given
  rw [Value.string.injEq] at same
  subst same
  dsimp only at rest
  split at rest
  · cases rest
  · split at rest
    · cases rest
    · rename_i straight
      cases rest
      exact ⟨rfl, fun inside => straight (List.contains_iff_mem.mpr inside)⟩

theorem ensureString_ok {text : String} (ok : ensureString field value = .ok text) :
    value = .string text := by
  unfold ensureString at ok
  split at ok
  · cases ok
    rfl
  · cases ok

theorem normalizeFilesystemFile_ok {file : File}
    (ok : normalizeFilesystemFile field value = .ok file) :
    declaredText value = some file.text ∧ declaredMode value = some file.mode := by
  unfold normalizeFilesystemFile at ok
  split at ok
  · cases ok
    exact ⟨rfl, rfl⟩
  · rename_i other
    obtain ⟨own, known, rest⟩ := bind_eq_ok.mp ok
    obtain ⟨raw, selected, rest⟩ := bind_eq_ok.mp rest
    obtain ⟨text, given, rest⟩ := bind_eq_ok.mp rest
    obtain ⟨mode, moded, same⟩ := bind_eq_ok.mp rest
    cases same
    have entries := entriesOf_ok known
    have texts : declaredText value = ((entriesOf value).lookup "text").bind asString := by
      cases value with
      | string text => exact absurd rfl (other text)
      | _ => rfl
    have modes : declaredMode value =
        asString (((entriesOf value).lookup "mode").getD (.string fileDefaultMode)) := by
      cases value with
      | string text => exact absurd rfl (other text)
      | _ => rfl
    rw [texts, modes, entries, select_ok selected, ensureString_ok given, ensureString_ok moded]
    exact ⟨rfl, rfl⟩

/-- What an accepted file set is: the files of the declarations, no name twice and none of
the system. -/
structure Accepted (declared : Entries) (files : List (String × File)) : Prop where
  each : ∃ made, List.Forall₂ OwnFile declared made ∧ files.Perm made
  straight : ∀ file ∈ files, ".." ∉ splitPath file.1
  names : (files.map Prod.fst).Nodup
  unreserved : ∀ file ∈ files, file.1 ∉ reservedGeneratedFilePaths

theorem length_eraseDups_le (names : List String) : names.eraseDups.length ≤ names.length := by
  induction size : names.length using Nat.strong_induction_on generalizing names with
  | _ size ih =>
      cases names with
      | nil => simp
      | cons name rest =>
          have fewer := List.length_filter_le (fun other => !other == name) rest
          subst size
          have shorter : (rest.filter fun other => !other == name).length <
              (name :: rest).length := by
            rw [List.length_cons]
            omega
          have later := ih _ shorter _ rfl
          rw [List.eraseDups_cons, List.length_cons, List.length_cons]
          omega

/-- `lib.unique names` is as long as the names only where it is the names. -/
theorem nodup_of_length_eraseDups {names : List String}
    (full : names.eraseDups.length = names.length) : names.Nodup := by
  induction names with
  | nil => exact List.nodup_nil
  | cons name rest ih =>
      rw [List.eraseDups_cons, List.length_cons, List.length_cons, Nat.succ_inj] at full
      have shorter := length_eraseDups_le (rest.filter fun other => !other == name)
      have whole : rest.filter (fun other => !other == name) = rest := by
        apply List.Sublist.eq_of_length_le List.filter_sublist
        omega
      rw [whole] at full
      refine List.nodup_cons.mpr ⟨fun inside => ?_, ih full⟩
      have kept := List.filter_eq_self.mp whole name inside
      simp at kept

theorem normalizeFilesystemFiles_accepted {rawFiles : Value} {files : List (String × File)}
    (ok : normalizeFilesystemFiles rawFiles = .ok files) :
    Accepted (entriesOf rawFiles) files := by
  obtain ⟨declared, given, rest⟩ := bind_eq_ok.mp ok
  obtain ⟨made, all, rest⟩ := bind_eq_ok.mp rest
  have entries := entriesOf_of_ensureAttrs given
  have each : List.Forall₂ (fun entry file => OwnFile entry file ∧ ".." ∉ splitPath file.1)
      declared made := by
    refine (mapM_eq_ok.mp all).imp fun entry file one => ?_
    obtain ⟨name, path, more⟩ := bind_eq_ok.mp one
    obtain ⟨content, checked, same⟩ := bind_eq_ok.mp more
    cases same
    have own := normalizeFilesystemFile_ok checked
    have spelled := normalizeRelativePath_ok path
    exact ⟨⟨spelled.1, own.1, own.2⟩, spelled.2⟩
  dsimp only at rest
  split at rest
  · cases rest
  · rename_i distinct
    split at rest
    · cases rest
    · rename_i free
      cases rest
      have sorted := List.mergeSort_perm made byName
      refine ⟨⟨made, ?_, sorted⟩, ?_, ?_, ?_⟩
      · rw [entries]
        exact each.imp fun _ _ one => one.1
      · intro file inside
        obtain ⟨entry, _, own⟩ := exists_left each (sorted.mem_iff.mp inside)
        exact own.2
      · have names := nodup_of_length_eraseDups (not_ne_iff.mp distinct)
        exact (sorted.map Prod.fst).nodup_iff.mpr names
      · intro file inside listed
        have named := List.mem_map_of_mem (f := Prod.fst) (sorted.mem_iff.mp inside)
        have conflicting := List.mem_filter.mpr ⟨named, List.contains_iff_mem.mpr listed⟩
        rw [not_ne_iff.mp free] at conflicting
        cases conflicting

theorem Accepted.kept {declared : Entries} {files : List (String × File)}
    (accepted : Accepted declared files) : Kept declared files := by
  obtain ⟨made, each, same⟩ := accepted.each
  constructor
  · intro entry inside
    obtain ⟨file, there, own⟩ := exists_right each inside
    exact ⟨file, same.mem_iff.mpr there, own⟩
  · intro file inside
    obtain ⟨entry, there, own⟩ := exists_left each (same.mem_iff.mp inside)
    exact ⟨entry, there, own⟩

theorem names_of_ownFile {declared : Entries} {made : List (String × File)}
    (each : List.Forall₂ OwnFile declared made) :
    made.map Prod.fst = declared.map fun entry => removeRoot entry.1 := by
  induction each with
  | nil => rfl
  | cons own _ ih => rw [List.map_cons, List.map_cons, ih, own.name]

/-- The names of the files are the declared ones without their leading slashes. -/
theorem Accepted.spelled {declared : Entries} {files : List (String × File)}
    (accepted : Accepted declared files) :
    (files.map Prod.fst).Perm (declared.map fun entry => removeRoot entry.1) := by
  obtain ⟨made, each, same⟩ := accepted.each
  rw [← names_of_ownFile each]
  exact same.map Prod.fst

/-- No two declarations have one name but for the leading slash. -/
theorem Accepted.eq_of_removeRoot {declared : Entries} {files : List (String × File)}
    (accepted : Accepted declared files) {one two : String × Value} (first : one ∈ declared)
    (second : two ∈ declared) (same : removeRoot one.1 = removeRoot two.1) : one = two :=
  List.inj_on_of_nodup_map (accepted.spelled.nodup_iff.mp accepted.names) first second same

theorem Accepted.denotedPaths {declared : Entries} {files : List (String × File)}
    (accepted : Accepted declared files) :
    (files.map fun file => denoted file.1).Nodup ↔
      ∀ one ∈ declared, ∀ two ∈ declared, denoted one.1 = denoted two.1 → one = two := by
  have distinct := (accepted.spelled.nodup_iff.mp accepted.names).of_map
  have same := accepted.spelled.map denoted
  simp only [List.map_map, Function.comp_def, denoted_removeRoot] at same
  rw [same.nodup_iff, List.nodup_map_iff_inj_on distinct]

end Accepted

section Separation

variable {declared : Entries} {files : List (String × File)}

theorem Accepted.noRespelling (accepted : Accepted declared files) (separate : Separate files) :
    NoRespelling declared := by
  intro entry inside _
  obtain ⟨file, there, own⟩ := accepted.kept.made entry inside
  have same : denoted file.1 = denoted entry.1 := by
    rw [own.name, denoted_removeRoot]
  rw [← same]
  refine ⟨(separate.inside file there).1, separate.unreserved file there, ?_⟩
  intro other among differ alike
  rw [same] at alike
  exact differ (congrArg Prod.fst
    (accepted.denotedPaths.mp separate.distinct other among entry inside alike))

theorem Accepted.separate (accepted : Accepted declared files) (spelled : NoRespelling declared) :
    Separate files := by
  constructor
  · intro file inside
    obtain ⟨entry, among, own⟩ := accepted.kept.own file inside
    constructor
    · by_cases plain : Plain file.1
      · exact ne_nil_of_plain plain
      · rw [own.name, denoted_removeRoot]
        exact (spelled entry among (own.name ▸ plain)).1
    · intro above
      exact accepted.straight file inside (List.mem_filter.mp above).1
  · intro file inside reserved listed same
    obtain ⟨entry, among, own⟩ := accepted.kept.own file inside
    by_cases plain : Plain file.1
    · have named := eq_of_plain plain (plain_reserved reserved listed) same
      exact accepted.unreserved file inside (named ▸ listed)
    · rw [own.name, denoted_removeRoot] at same
      exact (spelled entry among (own.name ▸ plain)).2.1 reserved listed same
  · rw [accepted.denotedPaths]
    intro one first two second same
    apply accepted.eq_of_removeRoot first second
    by_cases plain : Plain (removeRoot one.1) ∧ Plain (removeRoot two.1)
    · apply eq_of_plain plain.1 plain.2
      rw [denoted_removeRoot, denoted_removeRoot, same]
    · by_contra differ
      have names : one.1 ≠ two.1 := fun equal => differ (congrArg removeRoot equal)
      rcases not_and_or.mp plain with one' | two'
      · exact (spelled one first one').2.2 two second names.symm same.symm
      · exact (spelled two second two').2.2 one first names same

/-- The files of an accepted set are written apart from each other and from those of the
system exactly where no declared name is another spelling of such a path. -/
theorem normalizeFilesystemFiles_separate (rawFiles : Value) (files : List (String × File))
    (accepted : normalizeFilesystemFiles rawFiles = .ok files) :
    Separate files ∧ Kept (entriesOf rawFiles) files ↔ NoRespelling (entriesOf rawFiles) := by
  have declared := normalizeFilesystemFiles_accepted accepted
  constructor
  · rintro ⟨separate, _⟩
    exact declared.noRespelling separate
  · intro spelled
    exact ⟨declared.separate spelled, declared.kept⟩

end Separation

section Samples

/-- A message of the day, spelled with its leading slash. -/
def motd : Value := .attrs [("/etc/motd", .string "welcome\n")]

/-- A second slash in front of the password file. -/
def respelledPasswords : Value := .attrs [("//etc/passwd", .string "root;;0;0;root;/root\n")]

/-- A file that is declared by its text alone. -/
theorem normalizeFilesystemFiles_single {path text : String} (nonempty : path ≠ "")
    (below : removeRoot path ≠ "") (straight : ".." ∉ splitPath (removeRoot path))
    (free : removeRoot path ∉ reservedGeneratedFilePaths) :
    normalizeFilesystemFiles (.attrs [(path, .string text)]) =
      .ok [(removeRoot path, ⟨text, fileDefaultMode⟩)] := by
  have spelled (field : String) :
      normalizeRelativePath field (.string path) = .ok (removeRoot path) := by
    unfold normalizeRelativePath ensureNonEmptyString
    simp [ensureString, nonempty, below, straight, bind, Except.bind]
  simp [normalizeFilesystemFiles, ensureAttrs, attrsOf?, spelled, normalizeFilesystemFile, free,
    List.eraseDups_cons,
    bind, Except.bind, pure, Except.pure]

theorem motd_accepted :
    normalizeFilesystemFiles motd = .ok [("etc/motd", ⟨"welcome\n", fileDefaultMode⟩)] := by
  apply normalizeFilesystemFiles_single (by decide) (by decide)
  · rw [splitPath_eq]
    decide
  · decide

theorem respelledPasswords_accepted :
    normalizeFilesystemFiles respelledPasswords =
      .ok [("/etc/passwd", ⟨"root;;0;0;root;/root\n", fileDefaultMode⟩)] := by
  apply normalizeFilesystemFiles_single (by decide) (by decide)
  · rw [splitPath_eq]
    decide
  · decide

/-- A leading slash alone is no other spelling. -/
theorem motd_separate :
    Separate [("etc/motd", ⟨"welcome\n", fileDefaultMode⟩)] ∧
      Kept (entriesOf motd) [("etc/motd", ⟨"welcome\n", fileDefaultMode⟩)] := by
  refine (normalizeFilesystemFiles_separate motd _ motd_accepted).mpr ?_
  intro entry inside respelled
  cases List.mem_singleton.mp inside
  refine absurd ?_ respelled
  simp only [Plain, splitPath_eq]
  decide

/-- Two slashes in front of a reserved path denote the reserved file. -/
theorem respelledPasswords_replace_passwords :
    ∃ files, normalizeFilesystemFiles respelledPasswords = .ok files ∧ ¬Separate files := by
  refine ⟨_, respelledPasswords_accepted, fun separate => ?_⟩
  refine separate.unreserved _ List.mem_cons_self "etc/passwd" (by decide) ?_
  simp only [denoted, splitPath_eq]
  decide

end Samples

end NixRedox.Substrate
