import NixRedox.Text
import NixRedox.UnixPath

set_option autoImplicit false

/- Scheme paths of the store daemon (`stored/resolve.rs`). -/
namespace NixRedox.Stored

open Text
open UnixPath (Component components join isAbsolute body)

/-- A parsed store scheme path. -/
inductive ResolvedPath where
  | root
  | storePathRoot (storePathName : List Char)
  | subPath (storePathName subpath : List Char)
  deriving DecidableEq, Repr

inductive ResolveError where
  | invalidHash (name : List Char)
  | notRegistered (path : List Char)
  | notFound (path : List Char)
  | pathTraversal (path : List Char)
  deriving DecidableEq, Repr

def isNixbase32 (c : Char) : Bool :=
  ('0' ≤ c ∧ c ≤ '9') ∨ ('a' ≤ c ∧ c ≤ 'd') ∨ ('f' ≤ c ∧ c ≤ 'n') ∨ ('p' ≤ c ∧ c ≤ 's') ∨
    ('v' ≤ c ∧ c ≤ 'z')

/-- `{32-char-hash}-{name}`. `none` is the panic of `&name[..32]` inside a
multi-byte character. -/
def validateStorePathName (name : List Char) : Option (Except ResolveError Unit) :=
  if byteLength name < 34 then
    some (.error (.invalidHash name))
  else
    match splitAtByte name 32 with
    | none => none
    | some (hashPart, rest) =>
        if rest.head? ≠ some '-' then
          some (.error (.invalidHash name))
        else if hashPart.all isNixbase32 then
          some (.ok ())
        else
          some (.error (.invalidHash name))

/-- Parse a scheme-relative path. `none` is a panic. -/
def parseSchemePath (path : List Char) : Option (Except ResolveError ResolvedPath) :=
  let path := trimMatches path
  if path = [] then
    some (.ok .root)
  else if contains ['.', '.'] path then
    some (.error (.pathTraversal path))
  else
    let (storePathName, subpath) := splitFirstSlash path
    match validateStorePathName storePathName with
    | none => none
    | some (.error reason) => some (.error reason)
    | some (.ok ()) =>
        match subpath with
        | none | some [] => some (.ok (.storePathRoot storePathName))
        | some sub => some (.ok (.subPath storePathName sub))

def toFilesystemPath (resolved : ResolvedPath) (storeDir : List Char) : List Char :=
  match resolved with
  | .root => storeDir
  | .storePathRoot storePathName => join storeDir storePathName
  | .subPath storePathName subpath => join (join storeDir storePathName) subpath

/-- The path lies lexically at or below `storeDir/name` and never climbs again. -/
def Inside (storeDir name path : List Char) : Prop :=
  ∃ rest, components path = components storeDir ++ .normal name :: rest ∧
    Component.parentDir ∉ rest

/-- Where the filesystem path of a parsed scheme path has to lie. -/
def Contained (storeDir : List Char) (resolved : ResolvedPath) : Prop :=
  match resolved with
  | .root => toFilesystemPath resolved storeDir = storeDir
  | .storePathRoot name => Inside storeDir name (toFilesystemPath resolved storeDir)
  | .subPath name _ => Inside storeDir name (toFilesystemPath resolved storeDir)

/-- The store path name of a scheme path, without any check. -/
def nameOf (path : List Char) : List Char := (trimMatches path).takeWhile (· ≠ '/')

/-- What follows the slash after the store path name. -/
def afterName (path : List Char) : List Char := ((trimMatches path).dropWhile (· ≠ '/')).tail

/-- The slash that ends the store path name is followed by another one. -/
def doubledSlash (path : List Char) : Bool := isAbsolute (afterName path)

theorem validateStorePathName_long {name : List Char}
    (valid : validateStorePathName name = some (.ok ())) : 34 ≤ byteLength name := by
  unfold validateStorePathName at valid
  split at valid
  · cases valid
  · omega

/-- A validated name without slashes is one ordinary component. -/
theorem components_join_name {storeDir name : List Char} (absolute : isAbsolute storeDir = true)
    (flat : '/' ∉ name) (long : 34 ≤ byteLength name) :
    components (join storeDir name) = components storeDir ++ [.normal name] := by
  have named : name ≠ [] := by
    rintro rfl
    simp [byteLength] at long
  have proper : name ≠ ['.'] := by
    rintro rfl
    exact absurd long (by decide)
  have ordinary : name ≠ ['.', '.'] := by
    rintro rfl
    exact absurd long (by decide)
  have relative : isAbsolute name = false := by
    unfold isAbsolute
    split
    · exact False.elim (flat (by simp))
    · rfl
  have started : components storeDir ≠ [] := by
    rw [UnixPath.components_absolute storeDir absolute]
    simp
  rw [UnixPath.components_join, UnixPath.joinComponents_relative started relative,
    List.splitOn_eq_singleton flat, UnixPath.body_segment_cons [] named proper]
  simp only [UnixPath.toComponent, ordinary, ↓reduceIte, UnixPath.body_nil]

/-- Below the store path a relative subpath stays below it. -/
theorem inside_subPath {storeDir name subpath : List Char}
    (absolute : isAbsolute storeDir = true) (flat : '/' ∉ name) (long : 34 ≤ byteLength name)
    (relative : isAbsolute subpath = false) (straight : ¬ ['.', '.'] <:+: subpath) :
    Inside storeDir name (join (join storeDir name) subpath) := by
  have base := components_join_name absolute flat long
  refine ⟨body (subpath.splitOn '/'), ?_, ?_⟩
  · rw [UnixPath.components_join, base, UnixPath.joinComponents_relative (by simp) relative]
    simp only [List.append_assoc, List.singleton_append]
  · intro climbing
    obtain ⟨segment, member, -, -, same⟩ := UnixPath.mem_body.mp climbing
    have dots : segment = ['.', '.'] := by
      unfold UnixPath.toComponent at same
      split at same
      · assumption
      · cases same
    exact straight (dots ▸ UnixPath.infix_of_mem_splitOn subpath member)

/-- What a successful parse has established. -/
theorem parseSchemePath_ok {path : List Char} {resolved : ResolvedPath}
    (parsed : parseSchemePath path = some (.ok resolved)) :
    (resolved = .root ∧ afterName path = []) ∨
      ('/' ∉ nameOf path ∧ 34 ≤ byteLength (nameOf path) ∧ ¬ ['.', '.'] <:+: afterName path ∧
        ((resolved = .storePathRoot (nameOf path) ∧ afterName path = []) ∨
          resolved = .subPath (nameOf path) (afterName path))) := by
  unfold parseSchemePath at parsed
  dsimp only at parsed
  split at parsed
  · rename_i empty
    cases parsed
    exact .inl ⟨rfl, by simp [afterName, empty]⟩
  · right
    split at parsed
    · cases parsed
    · rename_i safe
      have straight : ¬ ['.', '.'] <:+: trimMatches path :=
        contains_eq_false (by simpa using safe)
      have tailInfix : afterName path <:+: trimMatches path :=
        (List.tail_suffix _).isInfix.trans (List.dropWhile_suffix _).isInfix
      have flat : '/' ∉ nameOf path := by
        intro member
        exact absurd (List.mem_takeWhile_imp member) (by simp)
      have split_ : splitFirstSlash (trimMatches path) =
          (nameOf path, if (trimMatches path).dropWhile (· ≠ '/') = [] then none
            else some (afterName path)) := splitFirstSlash_eq (trimMatches path)
      rw [split_] at parsed
      dsimp only at parsed
      split at parsed
      · cases parsed
      · cases parsed
      · rename_i valid
        refine ⟨flat, validateStorePathName_long valid, fun dots => straight (dots.trans tailInfix), ?_⟩
        split at parsed
        · rename_i missing
          cases parsed
          left
          refine ⟨rfl, ?_⟩
          split at missing
          · rename_i exhausted
            rw [afterName, exhausted]
            rfl
          · cases missing
        · rename_i emptySub
          cases parsed
          left
          refine ⟨rfl, ?_⟩
          split at emptySub
          · cases emptySub
          · simpa using emptySub
        · rename_i sub _ found
          cases parsed
          right
          split at found
          · cases found
          · rw [Option.some.injEq] at found
            rw [found]

/-- A parsed scheme path resolves to a place inside its store path exactly when
the slash after the name is not doubled, or the absolute text that then replaces
the whole path happens to lie there. -/
theorem toFilesystemPath_contained_iff (path storeDir : List Char) (resolved : ResolvedPath)
    (absolute : isAbsolute storeDir = true)
    (parsed : parseSchemePath path = some (.ok resolved)) :
    Contained storeDir resolved ↔
      doubledSlash path = false ∨ Inside storeDir (nameOf path) (afterName path) := by
  have single : afterName path = [] → doubledSlash path = false := by
    intro empty
    rw [doubledSlash, empty]
    rfl
  rcases parseSchemePath_ok parsed with ⟨rfl, empty⟩ | ⟨flat, long, straight, shape⟩
  · simp only [Contained, toFilesystemPath, single empty, true_or]
  · rcases shape with ⟨rfl, empty⟩ | rfl
    · have inside : Inside storeDir (nameOf path) (join storeDir (nameOf path)) :=
        ⟨[], components_join_name absolute flat long, by simp⟩
      simp only [Contained, toFilesystemPath, single empty, true_or, iff_true]
      exact inside
    · by_cases doubled : isAbsolute (afterName path) = true
      · -- the absolute subpath replaces everything joined before it
        have replaced : join (join storeDir (nameOf path)) (afterName path) = afterName path := by
          rw [join, if_pos doubled]
        simp only [Contained, toFilesystemPath, replaced, doubledSlash, doubled,
          Bool.true_eq_false, false_or]
      · have relative : isAbsolute (afterName path) = false := by simpa using doubled
        have inside := inside_subPath absolute flat long relative straight
        simp only [Contained, toFilesystemPath, doubledSlash, relative, true_or, iff_true]
        exact inside

/-- The scheme path of a file in a package stays in that package. -/
theorem toFilesystemPath_contained_ripgrep :
    Contained "/nix/store".toList
      (.subPath "1b9jydsiygi6jhlz2dxbrxi6b4m1rn4r-ripgrep-14.1.0".toList "bin/rg".toList) :=
  (toFilesystemPath_contained_iff "1b9jydsiygi6jhlz2dxbrxi6b4m1rn4r-ripgrep-14.1.0/bin/rg".toList
    "/nix/store".toList _ (by decide) (by decide +kernel)).mpr (.inl (by decide))

/-- A doubled slash after the name leads out of the store. -/
theorem toFilesystemPath_escapes :
    parseSchemePath "1b9jydsiygi6jhlz2dxbrxi6b4m1rn4r-ripgrep-14.1.0//etc/passwd".toList =
        some (.ok (.subPath "1b9jydsiygi6jhlz2dxbrxi6b4m1rn4r-ripgrep-14.1.0".toList
          "/etc/passwd".toList)) ∧
      toFilesystemPath (.subPath "1b9jydsiygi6jhlz2dxbrxi6b4m1rn4r-ripgrep-14.1.0".toList
          "/etc/passwd".toList) "/nix/store".toList = "/etc/passwd".toList ∧
      ¬ Contained "/nix/store".toList
        (.subPath "1b9jydsiygi6jhlz2dxbrxi6b4m1rn4r-ripgrep-14.1.0".toList
          "/etc/passwd".toList) := by
  refine ⟨by decide +kernel, by decide, ?_⟩
  intro ⟨rest, same, _⟩
  have first := congrArg (·[1]?) same
  rw [List.getElem?_append_left (by decide)] at first
  exact absurd first (by decide)

end NixRedox.Stored
