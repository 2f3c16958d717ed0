import Mathlib

set_option autoImplicit false

/- Paths as `std::path` reads them on Unix: the text, its components, and what
joining, prefix tests and lexical cleaning do to the components. Two paths are
equal for `std::path` when their components are. -/
namespace NixRedox.UnixPath

inductive Component where
  | rootDir
  | curDir
  | parentDir
  | normal (name : List Char)
  deriving DecidableEq, Repr

/-- `Component::as_os_str`. -/
def Component.text : Component → List Char
  | .rootDir => ['/']
  | .curDir => ['.']
  | .parentDir => ['.', '.']
  | .normal name => name

/-- A path up to `Path` equality. -/
abbrev PathBuf := List Component

def isAbsolute : List Char → Bool
  | '/' :: _ => true
  | _ => false

def toComponent (segment : List Char) : Component :=
  if segment = ['.', '.'] then .parentDir else .normal segment

/-- Components of the segments after the first place where `.` is kept: empty
segments and `.` are dropped. -/
def body (segments : List (List Char)) : PathBuf :=
  (segments.filter fun segment => segment ≠ [] ∧ segment ≠ ['.']).map toComponent

/-- `Path::components`. A `.` survives only at the start of a relative path. -/
def components (path : List Char) : PathBuf :=
  if isAbsolute path then
    .rootDir :: body (path.splitOn '/')
  else
    match path.splitOn '/' with
    | ['.'] :: rest => .curDir :: body rest
    | segments => body segments

/-- `Path::join`: an absolute argument replaces the base. -/
def join (base path : List Char) : List Char :=
  if isAbsolute path then
    path
  else if base = [] ∨ base.getLast? = some '/' then
    base ++ path
  else
    base ++ '/' :: path

/-- Joining seen on components. -/
def joinComponents (base path : PathBuf) : PathBuf :=
  match path with
  | .rootDir :: _ => path
  | .curDir :: rest => if base = [] then path else base ++ rest
  | _ => base ++ path

@[simp] theorem body_nil : body [] = [] := rfl

theorem body_append (front back : List (List Char)) :
    body (front ++ back) = body front ++ body back := by
  simp only [body, List.filter_append, List.map_append]

@[simp] theorem body_empty_cons (rest : List (List Char)) : body ([] :: rest) = body rest := by
  simp [body]

@[simp] theorem body_dot_cons (rest : List (List Char)) : body (['.'] :: rest) = body rest := by
  simp [body]

theorem body_segment_cons {segment : List Char} (rest : List (List Char))
    (named : segment ≠ []) (proper : segment ≠ ['.']) :
    body (segment :: rest) = toComponent segment :: body rest := by
  simp [body, named, proper]

theorem mem_body {segments : List (List Char)} {component : Component} :
    component ∈ body segments ↔
      ∃ segment ∈ segments, segment ≠ [] ∧ segment ≠ ['.'] ∧ toComponent segment = component := by
  simp [body, and_assoc]

/-- Only the leading slash or dot is special: the rest of a path is its body. -/
theorem components_absolute (path : List Char) (absolute : isAbsolute path = true) :
    components path = .rootDir :: body (path.splitOn '/') := by
  simp only [components, absolute, ↓reduceIte]

theorem components_relative (path : List Char) (relative : isAbsolute path = false) :
    components path = match path.splitOn '/' with
      | ['.'] :: rest => .curDir :: body rest
      | segments => body segments := by
  simp only [components, relative, Bool.false_eq_true, ↓reduceIte]

theorem splitOn_cons_ne {head : Char} (rest : List Char) (ordinary : head ≠ '/') :
    ∃ first others, (head :: rest).splitOn '/' = (head :: first) :: others := by
  rw [List.splitOn_cons_eq_if_modifyHead]
  have differs : (head == '/') = false := by simpa using ordinary
  simp only [differs, Bool.false_eq_true, ↓reduceIte]
  cases split : rest.splitOn '/' with
  | nil => exact False.elim (List.splitOn_ne_nil _ _ split)
  | cons first others => exact ⟨first, others, rfl⟩

/-- The first character decides the first component. -/
theorem components_append {base : List Char} (path : List Char) (nonempty : base ≠ []) :
    components (base ++ '/' :: path) = components base ++ body (path.splitOn '/') := by
  cases base with
  | nil => exact False.elim (nonempty rfl)
  | cons head rest =>
      by_cases slash : head = '/'
      · subst slash
        rw [components_absolute ('/' :: rest) rfl,
          components_absolute ('/' :: rest ++ '/' :: path) rfl,
          List.splitOn_append_cons_self, body_append, List.cons_append]
      · have relative : ∀ tail, isAbsolute (head :: tail) = false := by
          intro tail
          unfold isAbsolute
          split
          · rename_i same
            exact False.elim (slash (List.cons.inj same).1)
          · rfl
        obtain ⟨first, others, split⟩ := splitOn_cons_ne rest slash
        rw [components_relative _ (relative rest),
          components_relative (head :: rest ++ '/' :: path) (relative _),
          List.splitOn_append_cons_self, split]
        by_cases dot : head :: first = ['.']
        · rw [dot]
          simp only [List.cons_append, body_append]
        · have plain : ∀ tail : List (List Char), (match (head :: first) :: tail with
              | ['.'] :: rest => Component.curDir :: body rest
              | segments => body segments) = body ((head :: first) :: tail) := by
            intro tail
            split
            · rename_i same
              exact False.elim (dot (List.cons.inj same).1)
            · rfl
          rw [plain, List.cons_append, plain, ← List.cons_append, body_append]

/-- A relative path adds its body to whatever it is joined to. -/
theorem joinComponents_relative {base : PathBuf} {path : List Char} (nonempty : base ≠ [])
    (relative : isAbsolute path = false) :
    joinComponents base (components path) = base ++ body (path.splitOn '/') := by
  rw [components_relative path relative]
  split
  · rename_i rest split
    simp only [joinComponents, nonempty, ↓reduceIte, split, body_dot_cons]
  · rename_i segments _
    have proper : ∀ component ∈ body (path.splitOn '/'),
        component ≠ .rootDir ∧ component ≠ .curDir := by
      intro component member
      obtain ⟨segment, -, -, -, rfl⟩ := mem_body.mp member
      unfold toComponent
      split <;> simp
    unfold joinComponents
    split
    · rename_i rest same
      exact False.elim ((proper .rootDir (by rw [same]; simp)).1 rfl)
    · rename_i rest same
      exact False.elim ((proper .curDir (by rw [same]; simp)).2 rfl)
    · rfl

theorem components_ne_nil {path : List Char} (nonempty : path ≠ []) : components path ≠ [] := by
  cases path with
  | nil => exact False.elim (nonempty rfl)
  | cons head rest =>
      by_cases slash : head = '/'
      · subst slash
        rw [components_absolute _ rfl]
        simp
      · obtain ⟨first, others, split⟩ := splitOn_cons_ne rest slash
        unfold components
        split
        · simp
        · rw [split]
          split
          · simp
          · rename_i plain
            have proper : head :: first ≠ ['.'] := by
              intro same
              exact plain others (by rw [same])
            rw [body_segment_cons others (by simp) proper]
            simp

/-- `Path::join` is `joinComponents` on the components. -/
theorem components_join (base path : List Char) :
    components (join base path) = joinComponents (components base) (components path) := by
  by_cases absolute : isAbsolute path = true
  · simp only [join, absolute, ↓reduceIte, components_absolute path absolute, joinComponents]
  · have relative : isAbsolute path = false := by simpa using absolute
    by_cases empty : base = []
    · subst empty
      simp only [join, relative, Bool.false_eq_true, ↓reduceIte, true_or, List.nil_append]
      have none_ : components [] = [] := rfl
      rw [none_]
      unfold joinComponents
      split <;> simp_all
    · rw [joinComponents_relative (components_ne_nil empty) relative]
      by_cases closed : base.getLast? = some '/'
      · obtain ⟨front, rfl⟩ := List.getLast?_eq_some_iff.mp closed
        simp only [join, relative, Bool.false_eq_true, ↓reduceIte, closed, or_true,
          List.append_assoc, List.singleton_append]
        by_cases bare : front = []
        · subst bare
          have root : components ([] ++ ['/']) = [.rootDir] := rfl
          rw [root, components_absolute ([] ++ '/' :: path) rfl,
            List.splitOn_append_cons_self, List.splitOn_nil]
          rfl
        · rw [components_append path bare, components_append [] bare]
          simp
      · simp only [join, relative, Bool.false_eq_true, ↓reduceIte, empty, closed, or_self]
        exact components_append path empty

/-- A segment is a contiguous part of the text. -/
theorem infix_of_mem_splitOn {segment : List Char} (path : List Char)
    (member : segment ∈ path.splitOn '/') : segment <:+: path := by
  -- the first segment is even a prefix, which is what the induction needs
  suffices strong : ∀ first rest, path.splitOn '/' = first :: rest →
      first <+: path ∧ ∀ other ∈ rest, other <:+: path by
    cases split : path.splitOn '/' with
    | nil => exact False.elim (List.splitOn_ne_nil _ _ split)
    | cons first rest =>
        obtain ⟨start, others⟩ := strong first rest split
        rw [split] at member
        rcases List.mem_cons.mp member with same | later
        · exact same ▸ start.isInfix
        · exact others segment later
  clear member
  induction path with
  | nil =>
      intro first rest split
      rw [List.splitOn_nil] at split
      cases split
      exact ⟨List.prefix_rfl, by simp⟩
  | cons head tail ih =>
      intro first rest split
      rw [List.splitOn_cons_eq_if_modifyHead] at split
      cases inner : tail.splitOn '/' with
      | nil => exact False.elim (List.splitOn_ne_nil _ _ inner)
      | cons front back =>
          obtain ⟨start, others⟩ := ih front back inner
          rw [inner] at split
          split at split
          · cases split
            refine ⟨List.nil_prefix, ?_⟩
            intro other later
            rcases List.mem_cons.mp later with same | further
            · exact (same ▸ start.isInfix).trans (List.suffix_cons head tail).isInfix
            · exact (others other further).trans (List.suffix_cons head tail).isInfix
          · cases split
            refine ⟨?_, fun other later =>
              (others other later).trans (List.suffix_cons head tail).isInfix⟩
            exact (List.prefix_cons_inj head).mpr start

/-- `Path::parent`: the root and the empty path have none. -/
def parent (path : PathBuf) : Option PathBuf :=
  match path.getLast? with
  | none | some .rootDir => none
  | some _ => some path.dropLast

/-- `Path::file_name`. -/
def fileName (path : PathBuf) : Option (List Char) :=
  match path.getLast? with
  | some (.normal name) => some name
  | _ => none

/-- `PathBuf::pop`. -/
def pop (path : PathBuf) : PathBuf := (parent path).getD path

/-- One step of lexical cleaning. -/
def cleanStep (clean : PathBuf) : Component → PathBuf
  | .parentDir => pop clean
  | .curDir => clean
  | component => joinComponents clean [component]

/-- Resolve `.` and `..` without looking at the filesystem. -/
def cleanPath (path : PathBuf) : PathBuf := path.foldl cleanStep []

/-- A sequence of components that, read from any directory, leaves that
directory through `..` at some point. -/
def climbs : Nat → PathBuf → Bool
  | _, [] => false
  | depth, .parentDir :: rest => if depth = 0 then true else climbs (depth - 1) rest
  | depth, .curDir :: rest => climbs depth rest
  | depth, .normal _ :: rest => climbs (depth + 1) rest
  | _, .rootDir :: _ => true

@[simp] theorem pop_append_normal (path : PathBuf) (name : List Char) :
    pop (path ++ [.normal name]) = path := by
  simp [pop, parent]

theorem cleanStep_normal (clean : PathBuf) (name : List Char) :
    cleanStep clean (.normal name) = clean ++ [.normal name] := rfl

/-- What lies below a directory does not change it as long as it does not climb
out: the cleaned directory stays in front. -/
theorem foldl_cleanStep_prefix (rest : PathBuf) (base : PathBuf) (below : List (List Char))
    (stays : climbs below.length rest = false) :
    base <+: rest.foldl cleanStep (base ++ below.map .normal) := by
  induction rest generalizing below with
  | nil => exact List.prefix_append _ _
  | cons component rest ih =>
      cases component with
      | rootDir => cases stays
      | curDir => exact ih below stays
      | parentDir =>
          rcases List.eq_nil_or_concat' below with empty | ⟨front, last, rfl⟩
          · subst empty
            cases stays
          · have shallower : climbs front.length rest = false := by
              simpa [climbs] using stays
            have popped : cleanStep (base ++ (front ++ [last]).map .normal) .parentDir =
                base ++ front.map .normal := by
              simp only [List.map_append, List.map_cons, List.map_nil, ← List.append_assoc]
              exact pop_append_normal _ last
            rw [List.foldl_cons, popped]
            exact ih front shallower
      | normal name =>
          have deeper : climbs (below ++ [name]).length rest = false := by
            simpa [climbs] using stays
          have pushed : cleanStep (base ++ below.map .normal) (.normal name) =
              base ++ (below ++ [name]).map .normal := by
            simp [cleanStep_normal]
          rw [List.foldl_cons, pushed]
          exact ih (below ++ [name]) deeper

/-- A descendant reached without climbing out cleans to a descendant. -/
theorem cleanPath_append_prefix (base rest : PathBuf) (stays : climbs 0 rest = false) :
    cleanPath base <+: cleanPath (base ++ rest) := by
  have below := foldl_cleanStep_prefix rest (cleanPath base) [] stays
  simpa only [cleanPath, List.foldl_append, List.map_nil, List.append_nil] using below

/-- No `.`, no `..`, and the root only in front. -/
def Cleaned (path : PathBuf) : Prop :=
  ∃ names : List (List Char), path = names.map .normal ∨ path = .rootDir :: names.map .normal

theorem Cleaned.of_front {front path : PathBuf} (cleaned : Cleaned path)
    (initial : front <+: path) : Cleaned front := by
  obtain ⟨names, shape⟩ := cleaned
  have taken := List.prefix_iff_eq_take.mp initial
  rcases shape with rfl | rfl
  · refine ⟨names.take front.length, .inl ?_⟩
    rw [List.map_take]
    exact taken
  · cases front with
    | nil => exact ⟨[], .inl rfl⟩
    | cons first rest =>
        refine ⟨names.take rest.length, .inr ?_⟩
        rw [List.map_take]
        simpa using taken

theorem cleaned_cleanPath (path : PathBuf) : Cleaned (cleanPath path) := by
  induction path using List.reverseRecOn with
  | nil => exact ⟨[], .inl rfl⟩
  | append_singleton front last ih =>
      have stepped : cleanPath (front ++ [last]) = cleanStep (cleanPath front) last := by
        simp [cleanPath]
      rw [stepped]
      cases last with
      | rootDir => exact ⟨[], .inr rfl⟩
      | curDir => exact ih
      | parentDir =>
          show Cleaned (pop (cleanPath front))
          unfold pop parent
          split
          · exact ih
          · exact ih
          · exact ih.of_front (List.dropLast_prefix _)
      | normal name =>
          obtain ⟨names, relative | absolute⟩ := ih
          · exact ⟨names ++ [name], .inl (by rw [cleanStep_normal, relative]; simp)⟩
          · exact ⟨names ++ [name], .inr (by rw [cleanStep_normal, absolute]; simp)⟩

theorem foldl_cleanStep_normal (base : PathBuf) (names : List (List Char)) :
    (names.map Component.normal).foldl cleanStep base = base ++ names.map .normal := by
  induction names generalizing base with
  | nil => simp
  | cons name rest ih =>
      rw [List.map_cons, List.foldl_cons, ih, cleanStep_normal, List.append_assoc,
        List.singleton_append]

/-- Cleaning leaves a clean path as it is. -/
theorem Cleaned.cleanPath_eq {path : PathBuf} (cleaned : Cleaned path) : cleanPath path = path := by
  obtain ⟨names, rfl | rfl⟩ := cleaned
  · exact foldl_cleanStep_normal [] names
  · exact foldl_cleanStep_normal [.rootDir] names

theorem pop_absolute {path : PathBuf} (absolute : [.rootDir] <+: path) :
    [.rootDir] <+: pop path := by
  obtain ⟨tail, rfl⟩ := absolute
  cases tail with
  | nil => exact List.prefix_rfl
  | cons first rest =>
      unfold pop parent
      split
      · exact List.prefix_append _ _
      · exact List.prefix_append _ _
      · exact ⟨(first :: rest).dropLast, rfl⟩

/-- An absolute path stays one. -/
theorem cleanPath_absolute (rest : PathBuf) : [.rootDir] <+: cleanPath (.rootDir :: rest) := by
  induction rest using List.reverseRecOn with
  | nil => exact List.prefix_rfl
  | append_singleton front last ih =>
      have stepped : cleanPath (.rootDir :: (front ++ [last])) =
          cleanStep (cleanPath (.rootDir :: front)) last := by
        simp [cleanPath]
      rw [stepped]
      cases last with
      | rootDir => exact List.prefix_rfl
      | curDir => exact ih
      | parentDir => exact pop_absolute ih
      | normal name => exact ih.trans (List.prefix_append _ _)

/-- `Path::strip_prefix`. -/
def stripPrefix (path base : PathBuf) : Option PathBuf :=
  if base.isPrefixOf path then some (path.drop base.length) else none

theorem stripPrefix_eq_some {path base rest : PathBuf} :
    stripPrefix path base = some rest ↔ path = base ++ rest := by
  unfold stripPrefix
  split
  · rename_i front
    obtain ⟨tail, rfl⟩ := List.isPrefixOf_iff_prefix.mp front
    simp
  · rename_i apart
    constructor
    · intro impossible
      cases impossible
    · rintro rfl
      exact False.elim (apart (List.isPrefixOf_iff_prefix.mpr (List.prefix_append _ _)))

/-- What an entry of a directory can be called. -/
def Proper (name : List Char) : Prop :=
  name ≠ [] ∧ name ≠ ['.'] ∧ name ≠ ['.', '.'] ∧ '/' ∉ name

instance (name : List Char) : Decidable (Proper name) :=
  inferInstanceAs (Decidable (_ ∧ _ ∧ _ ∧ _))

theorem Proper.body {name : List Char} (proper : Proper name) :
    UnixPath.body (name.splitOn '/') = [.normal name] := by
  obtain ⟨named, dot, dots, flat⟩ := proper
  rw [List.splitOn_eq_singleton flat, body_segment_cons [] named dot, toComponent, if_neg dots]
  rfl

/-- The text of the absolute path of some names. -/
def absoluteText (names : List (List Char)) : List Char := names.flatMap ('/' :: ·)

theorem components_absoluteText {names : List (List Char)} (nonempty : names ≠ [])
    (proper : ∀ name ∈ names, Proper name) :
    components (absoluteText names) = .rootDir :: names.map .normal := by
  induction names using List.reverseRecOn with
  | nil => exact absurd rfl nonempty
  | append_singleton front last ih =>
      have whole : absoluteText (front ++ [last]) = absoluteText front ++ '/' :: last := by
        simp [absoluteText]
      have lastBody := (proper last (by simp)).body
      rw [whole]
      cases front with
      | nil =>
          show components ('/' :: last) = _
          rw [components_absolute _ rfl, ← List.nil_append ('/' :: last),
            List.splitOn_append_cons_self, body_append, lastBody]
          rfl
      | cons first rest =>
          have text : absoluteText (first :: rest) ≠ [] := List.cons_ne_nil _ _
          rw [components_append last text, lastBody,
            ih (List.cons_ne_nil _ _) fun name member => proper name (List.mem_append_left _ member)]
          simp

end NixRedox.UnixPath
