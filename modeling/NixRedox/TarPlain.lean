import NixRedox.TarExtract

set_option autoImplicit false

/- Tarballs of plain paths without symlinks: they are extracted below the output directory. -/
namespace NixRedox.Fetchers

open FileTree (Calls KeepsDirs Evolved maxLinks)
open UnixPath (PathBuf components joinComponents parent)

/-- No symlink is at a location or below it. -/
def Unbent (tree : FileTree) (base : Location) : Prop :=
  ∀ location target, base <+: location → tree.nodeAt location ≠ some (.symlink target)

section Names

variable {tree after : FileTree} {here cwd base location : Location} {links : Nat}
  {name : List Char} {passed : List Location} {front : PathBuf} {names : Location}

theorem Unbent.evolved {free : Location → Prop} (unbent : Unbent tree base)
    (evolved : Evolved free tree after) : Unbent after base :=
  fun location target below found => unbent location target below (evolved.fresh _ _ found)

theorem Unbent.deeper (unbent : Unbent tree here) (name : List Char) :
    Unbent tree (here ++ [name]) :=
  fun location target below => unbent location target ((List.prefix_append _ _).trans below)

/-- Names below a place without symlinks are passed downwards. -/
theorem passComponent_name (start : tree.nodeAt here = some .dir) (unbent : Unbent tree here)
    (links : Nat) (name : List Char) :
    (∀ directory ∈ (tree.passComponent links here (.normal name)).made, here <+: directory) ∧
      ∀ left next, (tree.passComponent links here (.normal name)).last = some (left, next) →
        left = links ∧ next = here ++ [name] := by
  cases found : tree.nodeAt (here ++ [name]) with
  | none =>
      rw [FileTree.passComponent_made start found]
      refine ⟨?_, ?_⟩
      · intro directory made
        rw [List.mem_singleton.mp made]
        exact List.prefix_append _ _
      · intro left next same
        cases same
        exact ⟨rfl, rfl⟩
  | some node =>
      cases node with
      | dir =>
          have resolved : tree.resolve links here [.normal name] = some ([], here ++ [name]) :=
            FileTree.resolve_found (FileTree.walk_normal_dir found)
          rw [FileTree.passComponent_there resolved found]
          refine ⟨by simp, ?_⟩
          intro left next same
          cases same
          exact ⟨rfl, rfl⟩
      | file contents mode =>
          have resolved : tree.resolve links here [.normal name] = some ([], here ++ [name]) :=
            FileTree.resolve_found (by simp [FileTree.walk, found])
          rw [FileTree.passComponent_blocked resolved (by simp [found])]
          exact ⟨by simp, by simp⟩
      | symlink target => exact absurd found (unbent _ target (List.prefix_append _ _))

theorem passage_names (start : tree.nodeAt here = some .dir) (unbent : Unbent tree here)
    (links : Nat) (names : Location) :
    ∀ directory ∈ (tree.passage links here (names.map .normal)).made, here <+: directory := by
  induction names generalizing tree here links with
  | nil => exact fun _ made => nomatch made
  | cons name rest ih =>
      obtain ⟨own, goes⟩ := passComponent_name start unbent links name
      have evolved := FileTree.passComponent_evolved tree links here (.normal name)
      rw [List.map_cons, FileTree.passage]
      dsimp only
      split
      · exact own
      · rename_i left next ended
        obtain ⟨rfl, rfl⟩ := goes left next ended
        obtain ⟨_, _, inside, _⟩ := FileTree.passComponent_resolve ended
        have later := ih inside ((unbent.deeper name).evolved evolved) left
        intro directory made
        rcases List.mem_append.mp made with first | below
        · exact own directory first
        · exact (List.prefix_append _ _).trans (later directory below)

/-- What is opened below a place without symlinks is there. -/
theorem walkNew_names (unbent : Unbent tree here) (names : Location) :
    tree.walkNew here (names.map .normal) = .found (here ++ names) ∨
      tree.walkNew here (names.map .normal) = .missing := by
  induction names generalizing here with
  | nil => exact .inl (by rw [List.append_nil]; rfl)
  | cons name rest ih =>
      rw [List.map_cons, FileTree.walkNew]
      split
      · have deeper := ih (unbent.deeper name)
        rwa [List.append_assoc, List.singleton_append] at deeper
      · rename_i target found
        exact absurd found (unbent _ target (List.prefix_append _ _))
      · split
        · rename_i last
          rw [List.map_eq_nil_iff.mp last]
          exact .inl rfl
        · exact .inr rfl

theorem resolveNew_names (unbent : Unbent tree here)
    (resolved : tree.resolveNew links here (names.map .normal) = some location) :
    here <+: location := by
  unfold FileTree.resolveNew at resolved
  rcases walkNew_names unbent names with walked | walked
  · rw [walked] at resolved
    cases resolved
    exact List.prefix_append _ _
  · rw [walked] at resolved
    cases resolved

end Names

section Entries

variable {tree : FileTree} {cwd base : Location} {outPath : PathBuf} {pfx : Option PathBuf}
  {entry : TarEntry} {archive : List (Except String TarEntry)} {symlinks : List Location}

/-- No symlink, and only names in the path behind the prefix. -/
def PlainEntry (pfx : Option PathBuf) (entry : TarEntry) : Prop :=
  entry.entryType ≠ .symlink ∧ ∃ names : Location, strip pfx entry.path = names.map .normal

def PlainArchive : Option PathBuf → List (Except String TarEntry) → Prop
  | _, [] => True
  | _, .error _ :: _ => True
  | known, .ok entry :: rest =>
      PlainEntry (prefixToStrip known entry) entry ∧ PlainArchive (prefixToStrip known entry) rest

/-- The output directory is where it was, and nothing in it leads elsewhere. -/
structure Straight (tree : FileTree) (cwd : Location) (outPath : PathBuf) (base : Location) :
    Prop where
  working : tree.nodeAt cwd = some .dir
  resolved : ∃ symlinks, tree.resolve maxLinks cwd outPath = some (symlinks, base)
  inside : tree.nodeAt base = some .dir
  unbent : Unbent tree base

theorem Straight.evolved {after : FileTree} (straight : Straight tree cwd outPath base)
    (evolved : Evolved (fun _ => False) tree after) : Straight after cwd outPath base where
  working := evolved.dirs _ straight.working
  resolved := by
    obtain ⟨symlinks, resolved⟩ := straight.resolved
    exact ⟨symlinks, evolved.resolve resolved straight.inside fun _ _ => id⟩
  inside := evolved.dirs _ straight.inside
  unbent := straight.unbent.evolved evolved

/-- The directories made on the way to names below the output directory are there. -/
theorem Straight.made (straight : Straight tree cwd outPath base) (names : Location) :
    ∀ directory ∈ (tree.passage maxLinks cwd (outPath ++ names.map .normal)).made,
      base <+: directory := by
  obtain ⟨symlinks, resolved⟩ := straight.resolved
  rw [FileTree.passage_append,
    FileTree.passage_of_resolve straight.working resolved straight.inside]
  exact passage_names straight.inside straight.unbent _ names

theorem Straight.opened (straight : Straight tree cwd outPath base) {names location : Location}
    (opened : tree.fileAt cwd (outPath ++ names.map .normal) = some location) :
    base <+: location := by
  obtain ⟨symlinks, resolved⟩ := straight.resolved
  have found := (Option.filter_eq_some_iff.mp opened).1
  rw [FileTree.resolveNew_append resolved straight.inside] at found
  exact resolveNew_names straight.unbent found

theorem destination_plain {names : Location} {dest : PathBuf}
    (plain : strip pfx entry.path = names.map .normal)
    (goes : destination outPath pfx entry = some dest) :
    names ≠ [] ∧ dest = outPath ++ names.map .normal := by
  simp only [destination, plain] at goes
  split at goes
  · cases goes
  · rename_i kept
    have below : names ≠ [] := by
      rintro rfl
      exact kept (.inl rfl)
    refine ⟨below, ?_⟩
    cases names with
    | nil => exact absurd rfl below
    | cons name rest => exact (Option.some.inj goes).symm

theorem parent_names {names : Location} (below : names ≠ []) (outPath : PathBuf) :
    parent (outPath ++ names.map .normal) = some (outPath ++ names.dropLast.map .normal) := by
  induction names using List.reverseRecOn with
  | nil => exact absurd rfl below
  | append_singleton front last _ =>
      simp [parent, ← List.append_assoc]

theorem Straight.stays (straight : Straight tree cwd outPath base)
    (plain : PlainEntry pfx entry) : (Visit.mk pfx entry tree).Stays cwd outPath base := by
  obtain ⟨kind, names, text⟩ := plain
  have ways : ∀ dest, destination outPath pfx entry = some dest →
      ∃ front : Location, entry.way dest = outPath ++ front.map .normal ∨ entry.way dest = [] := by
    intro dest goes
    obtain ⟨below, rfl⟩ := destination_plain text goes
    unfold TarEntry.way
    split
    · exact ⟨names, .inl rfl⟩
    · exact ⟨[], .inr rfl⟩
    · rw [parent_names below]
      exact ⟨names.dropLast, .inl rfl⟩
  refine ⟨?_, ?_⟩
  · intro dest goes
    obtain ⟨front, way | way⟩ := ways dest goes
    · dsimp only
      rw [way]
      exact straight.made front
    · dsimp only
      rw [way]
      exact fun _ made => nomatch made
  · intro dest goes _ location placed
    have later := straight.evolved
      (FileTree.passage_evolved tree maxLinks cwd (entry.way dest))
    obtain ⟨below, rfl⟩ := destination_plain text goes
    unfold TarEntry.place at placed
    split at placed
    · exact later.opened placed
    · exact later.opened placed
    · rename_i symlink
      exact absurd symlink kind
    · split at placed
      · exact later.opened placed
      · cases placed
    · cases placed
    · cases placed

/-- Tarballs without symlinks whose paths behind the prefix are names only stay below an
output directory that has no symlinks in it. -/
theorem plainArchive_stays (straight : Straight tree cwd outPath base) {known : Option PathBuf}
    (plain : PlainArchive known archive) :
    ∀ visit ∈ visits cwd outPath known archive tree, visit.Stays cwd outPath base := by
  induction archive generalizing known tree with
  | nil => exact fun _ member => nomatch member
  | cons read rest ih =>
      cases read with
      | error reason => exact fun _ member => nomatch member
      | ok entry =>
          obtain ⟨own, later⟩ := plain
          have evolved := (evolved_kept own.1 cwd).extractEntry straight.working outPath
            (prefixToStrip known entry)
          intro visit member
          rcases List.mem_cons.mp member with rfl | further
          · exact straight.stays own
          · split at further
            · exact ih (straight.evolved evolved) later visit further
            · cases further

theorem plainArchive_contained (straight : Straight tree cwd outPath base)
    (plain : PlainArchive none archive) :
    ∀ location ∈ (extractEntries cwd outPath none archive tree).touched, base <+: location :=
  (extractEntries_stays_iff straight.working archive).mpr (plainArchive_stays straight plain)

end Entries

end NixRedox.Fetchers
