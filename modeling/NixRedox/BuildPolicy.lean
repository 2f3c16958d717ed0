import NixRedox.BuildAllowList
import NixRedox.Derivation

set_option autoImplicit false

/- The allow-list of a build (`build_allow_list` in `build_proxy/allow_list.rs`, set up in
`build_derivation_inner` of `local_build.rs`). -/
namespace NixRedox.BuildProxy

open UnixPath (PathBuf cleanPath components)

def normalizePath (path : List Char) : PathBuf :=
  let trimmed := Text.trimEnd path
  if trimmed = [] then [.rootDir] else components trimmed

def systemReadOnlyPaths : List (List Char) :=
  ["/nix/system/profile".toList, "/nix/store".toList, "/usr/lib".toList, "/usr/src".toList,
    "/lib".toList, "/etc".toList, "/bin".toList, "/usr/bin".toList]

/-- Diagnostic files of the compiler wrapper. -/
def wrapperPaths : List (List Char) :=
  ["/tmp/.cc-wrapper-raw-args".toList, "/tmp/.cc-wrapper-stderr".toList,
    "/tmp/.cc-wrapper-shared-cmd".toList, "/tmp/.cc-wrapper-last-err".toList]

def devicePaths : List (List Char) :=
  ["/dev/null".toList, "/dev/zero".toList, "/dev/tty".toList]

def randomPaths : List (List Char) := ["/dev/urandom".toList, "/dev/random".toList]

namespace AllowList

def allowRead (list : AllowList) (path : PathBuf) : AllowList :=
  { list with readOnly := path :: list.readOnly }

def allowWrite (list : AllowList) (path : PathBuf) : AllowList :=
  { list with readWrite := path :: list.readWrite }

end AllowList

/-- Quotes and brackets a shell word may be wrapped in. -/
def isWrapping (c : Char) : Bool :=
  c ∈ ['\x27', '\x22', ';', '(', ')', '[', ']', '\x7b', '\x7d', ',']

/-- An absolute path in an argument; below the sources a file brings its directory. -/
def addToken (list : AllowList) (token : List Char) : AllowList :=
  let trimmed := (token.dropWhile isWrapping).rdropWhile isWrapping
  if trimmed.head? ≠ some '/' then
    list
  else
    let list := list.allowRead (normalizePath trimmed)
    if "/usr/src/".toList.isPrefixOf trimmed then
      let path := components trimmed
      let looksLikeFile := (UnixPath.fileName path).any fun name => '.' ∈ name
      if looksLikeFile then
        match UnixPath.parent path with
        | none => list
        | some parent => list.allowRead parent
      else
        list
    else
      list

def addArgPaths (list : AllowList) (arg : List Char) : AllowList :=
  (Text.splitWhitespace arg).foldl addToken list

/-- An environment value that looks like an absolute path. -/
def addVariable (list : AllowList) (variable_ : (_ : List Char) × ByteArray) : AllowList :=
  if variable_.1 = "out".toList then
    list
  else
    match String.fromUTF8? variable_.2 with
    | none => list
    | some value =>
        if value.toList.head? = some '/' ∧ ' ' ∉ value.toList then
          list.allowRead (normalizePath value.toList)
        else
          list

def buildAllowList (drv : Derivation) (knownPaths : KnownPaths) (outputDir tmpDir : List Char) :
    AllowList :=
  let list : AllowList := { readOnly := [], readWrite := [] }
  let list := list.allowWrite (normalizePath outputDir)
  let list := list.allowWrite (normalizePath tmpDir)
  let list := wrapperPaths.foldl (fun list path => list.allowWrite (normalizePath path)) list
  let list := devicePaths.foldl (fun list path => list.allowWrite (normalizePath path)) list
  let list := randomPaths.foldl (fun list path => list.allowRead (normalizePath path)) list
  let list := systemReadOnlyPaths.foldl (fun list path => list.allowRead (normalizePath path)) list
  let list := if drv.builder = [] then list else list.allowRead (normalizePath drv.builder)
  let list := drv.arguments.foldl addArgPaths list
  let list := drv.environment.sorted.foldl addVariable list
  let list := drv.inputSources.foldl
    (fun list source => list.allowRead (normalizePath source.toAbsolutePath)) list
  (knownPaths.inputOutputs drv).foldl
    (fun list path => list.allowRead (normalizePath path.toAbsolutePath)) list

/-- The output the builder may write to: that of the output `out`, the empty text if
there is none. -/
def primaryOutPath (drv : Derivation) : List Char :=
  ((drv.outputPath "out".toList).map StorePath.toAbsolutePath).getD []

/-- The allow-list `build_derivation_inner` sets up. -/
def sandboxPolicy (drv : Derivation) (knownPaths : KnownPaths) (buildDir : List Char) : AllowList :=
  buildAllowList drv knownPaths (primaryOutPath drv) buildDir

section Entries

variable {index : Type}

/-- Steps that only add to what can be read leave the writable entries alone. -/
theorem foldl_readWrite {add : AllowList → index → AllowList}
    (kept : ∀ list item, (add list item).readWrite = list.readWrite)
    (items : List index) (list : AllowList) :
    (items.foldl add list).readWrite = list.readWrite := by
  induction items generalizing list with
  | nil => rfl
  | cons item rest ih => rw [List.foldl_cons, ih, kept]

theorem foldl_allowRead (place : index → PathBuf) (items : List index) (list : AllowList) :
    (items.foldl (fun list item => list.allowRead (place item)) list).readWrite =
      list.readWrite := by
  apply foldl_readWrite
  intro list item
  rfl

end Entries

theorem addToken_readWrite (list : AllowList) (token : List Char) :
    (addToken list token).readWrite = list.readWrite := by
  unfold addToken
  dsimp only
  split
  · rfl
  · split
    · split
      · split <;> rfl
      · rfl
    · rfl

theorem addArgPaths_readWrite (list : AllowList) (arg : List Char) :
    (addArgPaths list arg).readWrite = list.readWrite :=
  foldl_readWrite addToken_readWrite _ list

theorem addVariable_readWrite (list : AllowList) (variable_ : (_ : List Char) × ByteArray) :
    (addVariable list variable_).readWrite = list.readWrite := by
  unfold addVariable
  split
  · rfl
  · split
    · rfl
    · split <;> rfl

/-- The entries for devices and the compiler wrapper. -/
def fixedPaths : List (List Char) := devicePaths.reverse ++ wrapperPaths.reverse

/-- Only the output, the build directory and the fixed paths are writable. -/
theorem buildAllowList_readWrite (drv : Derivation) (knownPaths : KnownPaths)
    (outputDir tmpDir : List Char) :
    (buildAllowList drv knownPaths outputDir tmpDir).readWrite =
      fixedPaths.map normalizePath ++ [normalizePath tmpDir, normalizePath outputDir] := by
  unfold buildAllowList
  dsimp only
  rw [foldl_allowRead, foldl_allowRead, foldl_readWrite addVariable_readWrite,
    foldl_readWrite addArgPaths_readWrite]
  split
  · rw [foldl_allowRead, foldl_allowRead]
    rfl
  · rw [AllowList.allowRead, foldl_allowRead, foldl_allowRead]
    rfl

section Normalised

theorem body_slashes {slashes : List Char} (only : ∀ letter ∈ slashes, letter = '/') :
    UnixPath.body (slashes.splitOn '/') = [] := by
  induction slashes with
  | nil => simp
  | cons letter rest ih =>
      obtain rfl := only letter List.mem_cons_self
      rw [List.splitOn_cons_eq_if_modifyHead]
      simp only [beq_self_eq_true, ↓reduceIte, UnixPath.body_empty_cons]
      exact ih fun other member => only other (List.mem_cons_of_mem _ member)

/-- Slashes at the end do not matter. -/
theorem components_append_slashes {base slashes : List Char} (nonempty : base ≠ [])
    (only : ∀ letter ∈ slashes, letter = '/') :
    components (base ++ slashes) = components base := by
  cases slashes with
  | nil => rw [List.append_nil]
  | cons letter rest =>
      obtain rfl := only letter List.mem_cons_self
      rw [UnixPath.components_append rest nonempty,
        body_slashes fun other member => only other (List.mem_cons_of_mem _ member),
        List.append_nil]

/-- For an absolute path, normalising is reading it. -/
theorem normalizePath_absolute {path : List Char} (absolute : UnixPath.isAbsolute path = true) :
    normalizePath path = components path := by
  have whole : Text.trimEnd path ++ path.rtakeWhile (· = '/') = path :=
    List.rdropWhile_append_rtakeWhile
  have only : ∀ letter ∈ path.rtakeWhile (· = '/'), letter = '/' := by
    intro letter member
    have slash := List.mem_rtakeWhile_imp member
    exact of_decide_eq_true slash
  unfold normalizePath
  dsimp only
  split
  · rename_i empty
    rw [empty, List.nil_append] at whole
    rw [whole] at only
    rw [UnixPath.components_absolute _ absolute, body_slashes only]
  · rename_i nonempty
    rw [← components_append_slashes nonempty only, whole]

end Normalised

/-- Lexically below, or the same. -/
def Below (path base : PathBuf) : Prop := cleanPath base <+: cleanPath path

/-- What an allow-list should be for a derivation: it lets the builder write nowhere but
below the outputs, the build directory and the fixed paths, and to every output. -/
structure MatchesDerivation (drv : Derivation) (buildDir : List Char) (list : AllowList) :
    Prop where
  confined : ∀ path, list.check (components path) = .readWrite →
    (∃ name place, drv.outputPath name = some place ∧
      Below (components path) (components place.toAbsolutePath)) ∨
    Below (components path) (components buildDir) ∨
    ∃ fixed ∈ fixedPaths, Below (components path) (components fixed)
  granted : ∀ name place, drv.outputPath name = some place →
    list.check (components place.toAbsolutePath) = .readWrite

/-- There is an output `out`, and the other outputs are the same path or lie below the
build directory. Without `out`, only the root as build directory will do. -/
def Coverable (drv : Derivation) (buildDir : List Char) : Prop :=
  match drv.outputPath "out".toList with
  | some out => ∀ name place, drv.outputPath name = some place →
      place = out ∨ components buildDir <+: components place.toAbsolutePath
  | none => cleanPath (components buildDir) = [.rootDir]

section Policy

variable {drv : Derivation} {knownPaths : KnownPaths} {buildDir : List Char}
  (absolute : UnixPath.isAbsolute buildDir = true)

theorem isAbsolute_toAbsolutePath (place : StorePath) :
    UnixPath.isAbsolute place.toAbsolutePath = true := rfl

theorem isAbsolute_fixed {fixed : List Char} (member : fixed ∈ fixedPaths) :
    UnixPath.isAbsolute fixed = true := by
  revert fixed
  decide

theorem cleanPath_store (place : StorePath) :
    cleanPath (components place.toAbsolutePath) = components place.toAbsolutePath := by
  apply UnixPath.Cleaned.cleanPath_eq
  rw [place.components_toAbsolutePath]
  exact ⟨["nix".toList, "store".toList, place.toText], .inr rfl⟩

theorem fixed_apart {fixed : List Char} (member : fixed ∈ fixedPaths) (place : StorePath) :
    ¬ components fixed <+: components place.toAbsolutePath := by
  rw [place.components_toAbsolutePath]
  have second : (components fixed)[1]? ≠ some (.normal "nix".toList) ∧
      1 < (components fixed).length := by
    revert fixed
    decide
  rintro ⟨rest, same⟩
  apply second.1
  rw [← List.getElem?_append_left second.2, same]
  rfl

include absolute in
/-- The paths the builder may write to. -/
theorem check_sandboxPolicy (path : PathBuf) :
    (sandboxPolicy drv knownPaths buildDir).check path = .readWrite ↔
      (∃ fixed ∈ fixedPaths, components fixed <+: cleanPath path) ∨
        components buildDir <+: cleanPath path ∨
        normalizePath (primaryOutPath drv) <+: cleanPath path := by
  rw [AllowList.check_eq_readWrite, sandboxPolicy, buildAllowList_readWrite,
    normalizePath_absolute absolute]
  simp only [List.mem_append, List.mem_map, List.mem_cons, List.not_mem_nil, or_false]
  constructor
  · rintro ⟨entry, ⟨fixed, member, rfl⟩ | rfl | rfl, front⟩
    · rw [normalizePath_absolute (isAbsolute_fixed member)] at front
      exact .inl ⟨fixed, member, front⟩
    · exact .inr (.inl front)
    · exact .inr (.inr front)
  · rintro (⟨fixed, member, front⟩ | front | front)
    · refine ⟨components fixed, .inl ⟨fixed, member, ?_⟩, front⟩
      exact normalizePath_absolute (isAbsolute_fixed member)
    · exact ⟨_, .inr (.inl rfl), front⟩
    · exact ⟨_, .inr (.inr rfl), front⟩

theorem below_of_front {base path : PathBuf} (front : base <+: cleanPath path) :
    Below path base := by
  unfold Below
  rw [((UnixPath.cleaned_cleanPath path).of_front front).cleanPath_eq]
  exact front

include absolute in
/-- The policy of a derivation with an output `out`. -/
theorem matches_of_out {out : StorePath} (primary : drv.outputPath "out".toList = some out) :
    MatchesDerivation drv buildDir (sandboxPolicy drv knownPaths buildDir) ↔
      ∀ name place, drv.outputPath name = some place →
        place = out ∨ components buildDir <+: components place.toAbsolutePath := by
  have entry : normalizePath (primaryOutPath drv) = components out.toAbsolutePath := by
    have named : primaryOutPath drv = out.toAbsolutePath := by
      rw [primaryOutPath, primary]
      rfl
    rw [named, normalizePath_absolute (isAbsolute_toAbsolutePath out)]
  constructor
  · intro policy name place present
    have writable := (check_sandboxPolicy absolute _).mp (policy.granted name place present)
    rw [cleanPath_store, entry] at writable
    rcases writable with ⟨fixed, member, front⟩ | front | front
    · exact False.elim (fixed_apart member place front)
    · exact .inr front
    · left
      rw [place.components_toAbsolutePath, out.components_toAbsolutePath] at front
      apply StorePath.toText_injective
      have last : out.toText = place.toText := by simpa using front
      exact last.symm
  · intro covered
    refine ⟨?_, ?_⟩
    · intro path writable
      have fronts := (check_sandboxPolicy absolute _).mp writable
      rw [entry] at fronts
      rcases fronts with ⟨fixed, member, front⟩ | front | front
      · exact .inr (.inr ⟨fixed, member, below_of_front front⟩)
      · exact .inr (.inl (below_of_front front))
      · exact .inl ⟨_, out, primary, below_of_front front⟩
    · intro name place present
      apply (check_sandboxPolicy absolute _).mpr
      rw [cleanPath_store, entry]
      rcases covered name place present with rfl | front
      · exact .inr (.inr List.prefix_rfl)
      · exact .inr (.inl front)

include absolute in
/-- Without an output `out`, everything can be written to. -/
theorem matches_of_no_out (missing : drv.outputPath "out".toList = none) :
    MatchesDerivation drv buildDir (sandboxPolicy drv knownPaths buildDir) ↔
      cleanPath (components buildDir) = [.rootDir] := by
  have entry : normalizePath (primaryOutPath drv) = [.rootDir] := by
    rw [primaryOutPath, missing]
    rfl
  have root : cleanPath (components ['/']) = [.rootDir] := rfl
  have rooted : [.rootDir] <+: cleanPath (components buildDir) := by
    rw [UnixPath.components_absolute _ absolute]
    exact UnixPath.cleanPath_absolute _
  constructor
  · intro policy
    have writable : (sandboxPolicy drv knownPaths buildDir).check (components ['/']) =
        .readWrite := by
      apply (check_sandboxPolicy absolute _).mpr
      rw [root, entry]
      exact .inr (.inr List.prefix_rfl)
    rcases policy.confined ['/'] writable with ⟨name, place, -, below⟩ | below | below
    · rw [Below, root, cleanPath_store, place.components_toAbsolutePath] at below
      exact absurd below.length_le (by simp)
    · rw [Below, root] at below
      exact below.eq_of_length_le rooted.length_le
    · obtain ⟨fixed, member, below⟩ := below
      rw [Below, root] at below
      have deep : 1 < (cleanPath (components fixed)).length := by
        clear below
        revert fixed
        decide
      exact absurd below.length_le (not_le.mpr deep)
  · intro whole
    refine ⟨?_, ?_⟩
    · intro path writable
      have fronts := (check_sandboxPolicy absolute _).mp writable
      rw [entry] at fronts
      rcases fronts with ⟨fixed, member, front⟩ | front | front
      · exact .inr (.inr ⟨fixed, member, below_of_front front⟩)
      · exact .inr (.inl (below_of_front front))
      · refine .inr (.inl ?_)
        rw [Below, whole]
        exact front
    · intro name place present
      apply (check_sandboxPolicy absolute _).mpr
      rw [cleanPath_store, entry, place.components_toAbsolutePath]
      exact .inr (.inr (List.prefix_append _ _))

end Policy

/-- The allow-list fits the derivation exactly if the outputs can be covered by `out` and
the build directory. -/
theorem sandboxPolicy_matches_iff (drv : Derivation) (knownPaths : KnownPaths)
    {buildDir : List Char} (absolute : UnixPath.isAbsolute buildDir = true) :
    MatchesDerivation drv buildDir (sandboxPolicy drv knownPaths buildDir) ↔
      Coverable drv buildDir := by
  unfold Coverable
  cases primary : drv.outputPath "out".toList with
  | some out => exact matches_of_out absolute primary
  | none => exact matches_of_no_out absolute primary

theorem sandboxPolicy_matches_hello :
    MatchesDerivation (helloDerivation "out".toList) "/tmp/snix-build-1-0".toList
      (sandboxPolicy (helloDerivation "out".toList) ∅ "/tmp/snix-build-1-0".toList) := by
  apply (sandboxPolicy_matches_iff _ ∅ (by decide)).mpr
  have primary : (helloDerivation "out".toList).outputPath "out".toList = some helloPath := by
    decide
  unfold Coverable
  rw [primary]
  intro name place present
  obtain ⟨output, found, placed⟩ := Option.bind_eq_some_iff.mp present
  left
  exact Option.some.inj (placed.symm.trans (helloDerivation_output found).2)

/-- A derivation whose only output is called `dev` may write to every file. -/
theorem sandboxPolicy_open_without_out :
    ¬ ∀ (drv : Derivation) (knownPaths : KnownPaths) (buildDir : List Char),
      (∃ name, drv.outputs.lookup name ≠ none) →
      (∀ name output, drv.outputs.lookup name = some output → output.path ≠ none) →
      UnixPath.isAbsolute buildDir = true →
      MatchesDerivation drv buildDir (sandboxPolicy drv knownPaths buildDir) := by
  intro always
  have placed : ∀ name output, (helloDerivation "dev".toList).outputs.lookup name = some output →
      output.path ≠ none := by
    intro name output present
    rw [(helloDerivation_output present).2]
    simp
  have policy := always (helloDerivation "dev".toList) ∅ "/tmp/snix-build-1-0".toList
    ⟨"dev".toList, by decide⟩ placed (by decide)
  have root := (matches_of_no_out (by decide) (by decide)).mp policy
  revert root
  decide

end NixRedox.BuildProxy
