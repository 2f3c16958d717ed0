import NixRedox.BuildContainment
import NixRedox.LexicalForm

set_option autoImplicit false

/- What the access checks of the build proxy mean: prefixes of lexical normal forms, and
listings that show what can be opened. -/
namespace NixRedox.BuildProxy

open Redox (Dirent)
open UnixPath (PathBuf Component components joinComponents stripPrefix cleanPath Proper)

section Checks

variable {list : AllowList} {path : PathBuf}

theorem check_eq_readOnly (list : AllowList) (path : PathBuf) :
    list.check path = .readOnly ↔ (¬ ∃ entry ∈ list.readWrite, entry <+: cleanPath path) ∧
      ∃ entry ∈ list.readOnly, entry <+: cleanPath path := by
  have writable := list.check_eq_readWrite path
  have matched : list.readOnly.any (pathMatchesPrefix path) = true ↔
      ∃ entry ∈ list.readOnly, entry <+: cleanPath path := by
    simp only [List.any_eq_true, pathMatchesPrefix, List.isPrefixOf_iff_prefix]
  rw [← writable, ← matched]
  unfold AllowList.check
  split
  · simp
  · split <;> simp [*]

theorem check_congr {other : PathBuf} (same : cleanPath path = cleanPath other) :
    list.check path = list.check other := by
  unfold AllowList.check pathMatchesPrefix
  rw [same]

theorem canRead_iff (list : AllowList) (path : PathBuf) :
    list.canRead path = true ↔ ∃ entry ∈ list.allPrefixes, entry <+: cleanPath path := by
  have writable := list.check_eq_readWrite path
  have readable := check_eq_readOnly list path
  have allowed : list.canRead path = true ↔
      list.check path = .readWrite ∨ list.check path = .readOnly := by
    unfold AllowList.canRead
    cases list.check path <;> simp
  rw [allowed, writable, readable, AllowList.allPrefixes]
  simp only [List.mem_append, or_and_right, exists_or]
  by_cases writes : ∃ entry ∈ list.readWrite, entry <+: cleanPath path
  · simp only [writes, not_true_eq_false, false_and, or_false, or_true]
  · simp only [writes, not_false_eq_true, true_and, false_or, or_false]

/-- The answer to an absolute path depends on its lexical normal form alone, and that is
what cleaning gives: prefixes of it are looked for, the writable ones first. -/
theorem check_lexical (list : AllowList) (path : List Char)
    (absolute : UnixPath.isAbsolute path = true) :
    ∃ form, UnixPath.NormalForm (components path) form ∧
      (∀ other, UnixPath.NormalForm (components path) other → other = form) ∧
      (list.check (components path) = .readWrite ↔
        ∃ entry ∈ list.readWrite, entry <+: form) ∧
      (list.check (components path) = .readOnly ↔
        (¬ ∃ entry ∈ list.readWrite, entry <+: form) ∧
          ∃ entry ∈ list.readOnly, entry <+: form) ∧
      (∀ second, UnixPath.isAbsolute second = true →
        UnixPath.NormalForm (components second) form →
          list.check (components second) = list.check (components path)) ∧
      ∀ any, cleanPath (cleanPath any) = cleanPath any := by
  have rooted := UnixPath.absolute_components absolute
  refine ⟨cleanPath (components path), UnixPath.normalForm_cleanPath rooted, ?_,
    list.check_eq_readWrite _, check_eq_readOnly list _, ?_, UnixPath.cleanPath_idempotent⟩
  · intro other normal
    exact normal.eq_cleanPath rooted
  · intro second secondAbsolute normal
    have secondRooted := UnixPath.absolute_components secondAbsolute
    exact check_congr (normal.eq_cleanPath secondRooted).symm

/-- `..` above the root changes nothing. -/
theorem climbing_path_checked :
    ∃ form, UnixPath.NormalForm (components "/nix/./store/../../../out/a".toList) form ∧
      (AllowList.check ⟨[], [components "/out".toList]⟩
          (components "/nix/./store/../../../out/a".toList) = .readWrite ↔
        ∃ entry ∈ [components "/out".toList], entry <+: form) := by
  obtain ⟨form, normal, -, writable, -⟩ := check_lexical ⟨[], [components "/out".toList]⟩
    "/nix/./store/../../../out/a".toList rfl
  exact ⟨form, normal, writable⟩

end Checks

section Listing

variable {handler : BuildFsHandler} {dir : PathBuf} {name : List Char}

theorem mem_sortedSet {names : List (List Char)} {name : List Char} :
    name ∈ Redox.sortedSet names ↔ name ∈ names := by
  rw [Redox.sortedSet, List.mem_insertionSort, List.mem_dedup]

theorem components_proper (proper : Proper name) : components name = [.normal name] := by
  have relative : UnixPath.isAbsolute name = false := by
    unfold UnixPath.isAbsolute
    split
    · exact absurd List.mem_cons_self proper.2.2.2
    · rfl
  have single := proper.body
  rw [List.splitOn_eq_singleton proper.2.2.2] at single
  rw [UnixPath.components_relative name relative, List.splitOn_eq_singleton proper.2.2.2]
  split
  · rename_i same
    exact absurd (List.cons.inj same).1 proper.2.1
  · exact single

/-- An entry shows the name in a directory when it lies at or below that child. -/
theorem mem_allowed_children (proper : Proper name) {prefixes : List PathBuf} :
    name ∈ prefixes.filterMap (fun entry =>
        ((stripPrefix entry dir).bind List.head?).map Component.text) ↔
      ∃ entry ∈ prefixes, dir ++ [.normal name] <+: entry := by
  rw [List.mem_filterMap]
  apply exists_congr
  intro entry
  apply and_congr_right
  intro _
  rw [Option.map_eq_some_iff]
  constructor
  · rintro ⟨component, first, text⟩
    obtain ⟨rest, stripped, head⟩ := Option.bind_eq_some_iff.mp first
    obtain ⟨tail, rfl⟩ := List.head?_eq_some_iff.mp head
    have shape := UnixPath.stripPrefix_eq_some.mp stripped
    have normal : component = .normal name := by
      obtain ⟨-, dot, dots, flat⟩ := proper
      cases component with
      | rootDir => exact absurd (text ▸ List.mem_cons_self) flat
      | curDir => exact absurd text.symm dot
      | parentDir => exact absurd text.symm dots
      | normal other => exact congrArg Component.normal text
    rw [shape, normal]
    exact ⟨tail, by simp⟩
  · rintro ⟨tail, rfl⟩
    refine ⟨.normal name, ?_, rfl⟩
    have stripped : stripPrefix (dir ++ [.normal name] ++ tail) dir =
        some (.normal name :: tail) :=
      UnixPath.stripPrefix_eq_some.mpr (by simp)
    rw [stripped]
    rfl

theorem mem_listVisibleChildren (worker : BuildFsIoWorker) (proper : Proper name) :
    name ∈ (handler.listVisibleChildren worker dir).map Prod.fst ↔
      (∃ entry ∈ handler.allowList.allPrefixes, dir ++ [.normal name] <+: entry) ∨
        name ∈ ((worker.readDir dir).toOption.getD []).map Prod.fst ∧
          handler.isEntryVisible (dir ++ [.normal name]) = true := by
  have joined : joinComponents dir (components name) = dir ++ [.normal name] := by
    rw [components_proper proper]
    rfl
  unfold BuildFsHandler.listVisibleChildren
  rw [List.map_map]
  change name ∈ List.map id (Redox.sortedSet _) ↔ _
  rw [List.map_id, mem_sortedSet, List.mem_append, mem_allowed_children proper,
    List.mem_filter, joined]

theorem isEntryVisible_iff {child : PathBuf} :
    handler.isEntryVisible child = true ↔ handler.allowList.canRead child = true ∨
      ∃ entry ∈ handler.allowList.allPrefixes, child <+: entry := by
  simp only [BuildFsHandler.isEntryVisible, Bool.or_eq_true, List.any_eq_true,
    List.isPrefixOf_iff_prefix]

/-- The permission checks let an open that does not ask for writing through exactly when
the path can be read or lies above an allowed one. -/
theorem effectivePermission_reading {flags : OpenFlags} {path : PathBuf}
    (reads : flags.wantsWrite = false) :
    handler.effectivePermission flags path ≠ .denied ↔
      handler.allowList.canRead path = true ∨ handler.isAncestorOfAllowed path = true := by
  unfold BuildFsHandler.effectivePermission AllowList.canRead
  cases handler.allowList.check path with
  | denied =>
      cases handler.isAncestorOfAllowed path <;> simp [reads]
  | readOnly => simp
  | readWrite => simp

theorem isAncestorOfAllowed_iff {path : PathBuf} :
    handler.isAncestorOfAllowed path = true ↔
      ∃ entry ∈ handler.allowList.allPrefixes, path <+: entry ∧ entry ≠ path := by
  simp [BuildFsHandler.isAncestorOfAllowed, List.isPrefixOf_iff_prefix]

theorem openReal_forwarded (worker : BuildFsIoWorker) (handler : BuildFsHandler) (id : Nat)
    (flags : OpenFlags) (path schemePath : PathBuf) (before : List IoRequest) :
    (BuildFsHandler.openReal worker handler id flags path schemePath before).forwarded ≠ [] := by
  unfold BuildFsHandler.openReal
  extract_lets realFlags forwarded
  split <;> simp [forwarded]

/-- A refusal by the permission checks forwards nothing; an admitted open asks the worker. -/
theorem openat_admitted_iff {worker : BuildFsIoWorker} {dirfd : Nat} {path : List Char}
    {raw : UInt64} {absPath schemePath : PathBuf}
    (resolved : handler.resolveOpenPath dirfd path = .ok (absPath, schemePath))
    (reads : (translateOpenFlags raw).wantsWrite = false) :
    handler.openat worker dirfd path raw ≠ some (handler.fail .eacces) ↔
      handler.allowList.canRead absPath = true ∨ handler.isAncestorOfAllowed absPath = true := by
  rw [← effectivePermission_reading reads]
  simp only [BuildFsHandler.openat, resolved]
  by_cases refused : handler.effectivePermission (translateOpenFlags raw) absPath = .denied
  · simp [refused]
  · simp only [refused, ↓reduceIte, reads, Bool.false_eq_true, false_and, ne_eq,
      not_false_eq_true, iff_true]
    intro failed
    obtain ⟨⟨id, next⟩, -, outcome⟩ := Option.map_eq_some_iff.mp failed
    have silent := congrArg Outcome.forwarded outcome
    dsimp only [BuildFsHandler.fail] at silent
    split at silent
    · exact openReal_forwarded _ _ _ _ _ _ _ silent
    · split at silent
      · cases silent
      · exact openReal_forwarded _ _ _ _ _ _ _ silent

/-- In a directory that cannot be read itself, a listing shows exactly the names that can
be opened for reading. -/
theorem visible_iff_openable (worker : BuildFsIoWorker) (handler : BuildFsHandler)
    (normal : ∀ entry ∈ handler.allowList.allPrefixes, cleanPath entry = entry)
    (dir : PathBuf) (unreadable : handler.allowList.canRead dir = false)
    (name : List Char) (proper : Proper name)
    (place : cleanPath dir = dir ∨ name ∈ ((worker.readDir dir).toOption.getD []).map Prod.fst ∨
      ∃ entry ∈ handler.allowList.allPrefixes, dir ++ [.normal name] <+: entry)
    (dirfd : Nat) (path : List Char) (raw : UInt64) (schemePath : PathBuf)
    (resolved : handler.resolveOpenPath dirfd path = .ok (dir ++ [.normal name], schemePath))
    (reads : (translateOpenFlags raw).wantsWrite = false) :
    name ∈ (handler.listVisibleChildren worker dir).map Prod.fst ↔
      handler.openat worker dirfd path raw ≠ some (handler.fail .eacces) := by
  have child : cleanPath (dir ++ [.normal name]) = cleanPath dir ++ [.normal name] := by
    simp [cleanPath, UnixPath.cleanStep_normal]
  have outside : ∀ entry ∈ handler.allowList.allPrefixes, ¬ entry <+: cleanPath dir := by
    intro entry member front
    rw [(canRead_iff handler.allowList dir).mpr ⟨entry, member, front⟩] at unreadable
    cases unreadable
  -- the listing tests prefixes without strictness, but an entry that is met can be read
  have opens : ∀ entry ∈ handler.allowList.allPrefixes, dir ++ [.normal name] <+: entry →
      handler.allowList.canRead (dir ++ [.normal name]) = true ∨
        handler.isAncestorOfAllowed (dir ++ [.normal name]) = true := by
    intro entry member below
    by_cases met : entry = dir ++ [.normal name]
    · left
      apply (canRead_iff _ _).mpr
      refine ⟨entry, member, ?_⟩
      rw [← met, normal entry member]
    · exact .inr (isAncestorOfAllowed_iff.mpr ⟨entry, member, below, met⟩)
  rw [openat_admitted_iff resolved reads, mem_listVisibleChildren worker proper,
    isEntryVisible_iff]
  constructor
  · rintro (⟨entry, member, below⟩ | ⟨-, readable | ⟨entry, member, below⟩⟩)
    · exact opens entry member below
    · exact .inl readable
    · exact opens entry member below
  · rintro (readable | above)
    · obtain ⟨entry, member, front⟩ := (canRead_iff _ _).mp readable
      rw [child] at front
      have whole : entry = cleanPath dir ++ [.normal name] := by
        rcases List.prefix_concat_iff.mp front with same | within
        · exact same
        · exact absurd within (outside entry member)
      rcases place with lexical | listed | below
      · left
        refine ⟨entry, member, ?_⟩
        rw [whole, lexical]
      · exact .inr ⟨listed, .inl readable⟩
      · exact .inl below
    · obtain ⟨entry, member, below, -⟩ := isAncestorOfAllowed_iff.mp above
      exact .inl ⟨entry, member, below⟩

theorem output_visible :
    "out".toList ∈ ((BuildFsHandler.new ⟨[], [components "/nix/out".toList]⟩).listVisibleChildren
        BuildFsHandler.plainWorker (components "/nix".toList)).map Prod.fst ↔
      (BuildFsHandler.new ⟨[], [components "/nix/out".toList]⟩).openat BuildFsHandler.plainWorker
          0 "nix/out".toList 0 ≠
        some ((BuildFsHandler.new ⟨[], [components "/nix/out".toList]⟩).fail .eacces) := by
  apply visible_iff_openable BuildFsHandler.plainWorker _ _ (components "/nix".toList)
  · decide +kernel
  · decide
  · exact .inl (by decide +kernel)
  · rfl
  · decide
  · intro entry member
    rw [List.mem_singleton.mp member]
    decide +kernel

end Listing

end NixRedox.BuildProxy
