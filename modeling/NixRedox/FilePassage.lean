import NixRedox.FileWays

set_option autoImplicit false

/- Calls on paths given by their components, from a working directory: what they create or
overwrite, and the passage that `create_dir_all` makes through what is missing. -/
namespace NixRedox.FileTree

open UnixPath (PathBuf Component)

/-- What some calls leave, the locations they have created or overwritten, and how they end. -/
structure Calls where
  tree : FileTree
  touched : List Location
  result : Except String Unit

namespace Calls

def done (tree : FileTree) : Calls := ⟨tree, [], .ok ()⟩

def failed (tree : FileTree) (reason : String) : Calls := ⟨tree, [], .error reason⟩

def andThen (first : Calls) (next : FileTree → Calls) : Calls :=
  match first.result with
  | .error _ => first
  | .ok () =>
      let later := next first.tree
      { later with touched := first.touched ++ later.touched }

theorem andThen_of_ok {first : Calls} {next : FileTree → Calls} (ended : first.result = .ok ()) :
    first.andThen next =
      ⟨(next first.tree).tree, first.touched ++ (next first.tree).touched,
        (next first.tree).result⟩ := by
  simp only [andThen, ended]

theorem andThen_of_error {first : Calls} {next : FileTree → Calls} {reason : String}
    (ended : first.result = .error reason) : first.andThen next = first := by
  simp only [andThen, ended]

end Calls

section Paths

variable (tree : FileTree) (cwd : Location) (path : PathBuf)

/-- Where a path leads. -/
def leads : Option Location := (tree.resolve maxLinks cwd path).map Prod.snd

def directoryAt : Option Location :=
  (tree.leads cwd path).filter fun location => tree.nodeAt location = some .dir

/-- `Path::is_dir`. -/
def isDirAt : Bool := (tree.directoryAt cwd path).isSome

/-- Where the last name of a path is or would be. -/
def placeAt : Option Location :=
  match path.getLast? with
  | some (.normal name) => (tree.directoryAt cwd path.dropLast).map (· ++ [name])
  | _ => none

/-- As `walk`, but the last name may be missing. -/
def walkNew (tree : FileTree) : Location → PathBuf → Walk
  | here, [] => .found here
  | _, .rootDir :: rest => walkNew tree [] rest
  | here, .curDir :: rest => walkNew tree here rest
  | here, .parentDir :: rest => walkNew tree here.dropLast rest
  | here, .normal name :: rest =>
      match tree.nodeAt (here ++ [name]) with
      | some .dir => walkNew tree (here ++ [name]) rest
      | some (.symlink target) => .link (here ++ [name]) target rest
      | _ => if rest = [] then .found (here ++ [name]) else .missing

theorem walkNew_normal_dir {tree : FileTree} {here : Location} {back : PathBuf}
    {name : List Char} (next : tree.nodeAt (here ++ [name]) = some .dir) :
    tree.walkNew here (.normal name :: back) = tree.walkNew (here ++ [name]) back := by
  rw [walkNew, next]

theorem walkNew_normal_symlink {tree : FileTree} {here : Location} {back : PathBuf}
    {name target : List Char} (next : tree.nodeAt (here ++ [name]) = some (.symlink target)) :
    tree.walkNew here (.normal name :: back) = .link (here ++ [name]) target back := by
  rw [walkNew, next]

/-- Where a file is that is opened and created if it is missing. -/
def resolveNew (tree : FileTree) : Nat → Location → PathBuf → Option Location
  | links, here, path =>
      match walkNew tree here path with
      | .found location => some location
      | .missing => none
      | .link link target rest =>
          match links with
          | 0 => none
          | links + 1 => resolveNew tree links link.dropLast (UnixPath.components target ++ rest)

/-- A file can be written at a location. -/
def Writable (location : Location) : Prop :=
  location ≠ [] ∧ tree.nodeAt location.dropLast = some .dir ∧ tree.nodeAt location ≠ some .dir

instance (location : Location) : Decidable (tree.Writable location) :=
  inferInstanceAs (Decidable (_ ∧ _ ∧ _))

/-- The place of a file that is opened for writing. -/
def fileAt : Option Location :=
  (tree.resolveNew maxLinks cwd path).filter fun location => tree.Writable location

end Paths

theorem directoryAt_eq_some {tree : FileTree} {cwd directory : Location} {path : PathBuf} :
    tree.directoryAt cwd path = some directory ↔
      (∃ passed, tree.resolve maxLinks cwd path = some (passed, directory)) ∧
        tree.nodeAt directory = some .dir := by
  simp [directoryAt, leads, Option.filter_eq_some_iff]

theorem placeAt_inside {tree : FileTree} {cwd location : Location} {path : PathBuf}
    (placed : tree.placeAt cwd path = some location) :
    location ≠ [] ∧ tree.nodeAt location.dropLast = some .dir := by
  unfold placeAt at placed
  split at placed
  · obtain ⟨directory, found, rfl⟩ := Option.map_eq_some_iff.mp placed
    rw [List.dropLast_concat]
    exact ⟨by simp, (directoryAt_eq_some.mp found).2⟩
  · cases placed

theorem notDir_of_absent {tree : FileTree} {location : Location}
    (free : tree.nodeAt location = none) : tree.nodeAt location ≠ some .dir := by
  simp [free]

section Operations

/-- `mkdir` and `symlink`: a new node at a path. -/
def addNode (node : Node) (cwd : Location) (path : PathBuf) (tree : FileTree) : Calls :=
  match placed : tree.placeAt cwd path with
  | none => .failed tree "No such file or directory"
  | some location =>
      if free : tree.nodeAt location = none then
        ⟨tree.insertNode location node (placeAt_inside placed).1 (placeAt_inside placed).2
          (notDir_of_absent free), [location], .ok ()⟩
      else
        .failed tree "File exists"

/-- `mkdir`, unless the directory is there. -/
def makeDir (cwd : Location) (path : PathBuf) (tree : FileTree) : Calls :=
  let tried := tree.addNode .dir cwd path
  match tried.result with
  | .ok () => tried
  | .error _ => if tree.isDirAt cwd path then .done tree else tried

/-- `fs::create_dir_all` on a path read from its end. -/
def createDirAllAtRev (cwd : Location) : PathBuf → FileTree → Calls
  | [], tree => .done tree
  | last :: above, tree =>
      if tree.isDirAt cwd (last :: above).reverse then
        .done tree
      else
        (createDirAllAtRev cwd above tree).andThen (makeDir cwd (last :: above).reverse)

def createDirAllAt (cwd : Location) (path : PathBuf) (tree : FileTree) : Calls :=
  createDirAllAtRev cwd path.reverse tree

/-- A file with these contents at a location. -/
def putFile (location : Location) (contents : ByteArray) (mode : Nat) (tree : FileTree) : Calls :=
  if there : tree.Writable location then
    ⟨tree.insertNode location (.file contents mode) there.1 there.2.1 there.2.2, [location], .ok ()⟩
  else
    .failed tree "Is a directory"

end Operations

/-- How far a path leads when what is missing is made: the tree then, the directories made,
and the end with the symlinks that may still be followed, or none if something is in the
way. -/
structure Passage where
  tree : FileTree
  made : List Location
  last : Option (Nat × Location)

def passComponent (tree : FileTree) (links : Nat) (here : Location) (component : Component) :
    Passage :=
  match tree.resolve links here [component] with
  | some (passed, next) =>
      if tree.nodeAt next = some .dir then ⟨tree, [], some (links - passed.length, next)⟩
      else ⟨tree, [], none⟩
  | none =>
      match component with
      | .normal name =>
          if free : tree.nodeAt here = some .dir ∧ tree.nodeAt (here ++ [name]) = none then
            ⟨tree.insertNode (here ++ [name]) .dir (by simp) (by simpa using free.1)
              (notDir_of_absent free.2), [here ++ [name]], some (links, here ++ [name])⟩
          else
            ⟨tree, [], none⟩
      | _ => ⟨tree, [], none⟩

def passage (tree : FileTree) (links : Nat) (here : Location) : PathBuf → Passage
  | [] => ⟨tree, [], some (links, here)⟩
  | component :: rest =>
      let first := tree.passComponent links here component
      match first.last with
      | none => first
      | some (left, next) =>
          let later := first.tree.passage left next rest
          { later with made := first.made ++ later.made }

theorem passage_single (tree : FileTree) (links : Nat) (here : Location) (component : Component) :
    tree.passage links here [component] = tree.passComponent links here component := by
  simp only [passage]
  split
  · rfl
  · rename_i left next ended
    rw [List.append_nil, ← ended]

section Splits

variable {tree : FileTree} {here mid last : Location} {links : Nat} {passed : List Location}
  {front back : PathBuf}

/-- A path that goes on leads to a directory on the way. -/
theorem resolve_append_inv (start : tree.nodeAt here = some .dir) (more : back ≠ [])
    (resolved : tree.resolve links here (front ++ back) = some (passed, last)) :
    ∃ first mid rest, tree.resolve links here front = some (first, mid) ∧
      tree.nodeAt mid = some .dir ∧
      tree.resolve (links - first.length) mid back = some (rest, last) ∧
      passed = first ++ rest := by
  have open_ : ∃ first mid, tree.resolve links here front = some (first, mid) ∧
      tree.nodeAt mid = some .dir := by
    induction links generalizing here front passed with
    | zero =>
        cases walked : tree.walk here front with
        | found mid =>
            refine ⟨[], mid, resolve_found walked, ?_⟩
            by_contra blocked
            rw [resolve_missing (walk_append_file start walked blocked more)] at resolved
            cases resolved
        | missing =>
            rw [resolve_missing (walk_append_missing walked)] at resolved
            cases resolved
        | link link target rest =>
            rw [resolve, walk_append_link walked] at resolved
            cases resolved
    | succ links ih =>
        cases walked : tree.walk here front with
        | found mid =>
            refine ⟨[], mid, resolve_found walked, ?_⟩
            by_contra blocked
            rw [resolve_missing (walk_append_file start walked blocked more)] at resolved
            cases resolved
        | missing =>
            rw [resolve_missing (walk_append_missing walked)] at resolved
            cases resolved
        | link link target rest =>
            rw [resolve_link (walk_append_link walked), ← List.append_assoc] at resolved
            obtain ⟨⟨others, final⟩, inner, same⟩ := Option.map_eq_some_iff.mp resolved
            cases same
            have above : tree.nodeAt link.dropLast = some .dir :=
              nodeAt_dropLast (by rw [nodeAt_of_walk_link walked]; exact Option.some_ne_none _)
            obtain ⟨first, mid, early, inside⟩ := ih above inner
            exact ⟨link :: first, mid, by rw [resolve_link walked, early]; rfl, inside⟩
  obtain ⟨first, mid, early, inside⟩ := open_
  rw [resolve_append early inside] at resolved
  obtain ⟨⟨rest, final⟩, later, same⟩ := Option.map_eq_some_iff.mp resolved
  cases same
  exact ⟨first, mid, rest, early, inside, later, rfl⟩

end Splits

section Opening

variable {tree : FileTree} {cwd here mid location : Location} {links : Nat}
  {passed : List Location} {front back path : PathBuf}

/-- What a path is opened at is not a symlink itself. -/
theorem walkNew_found (start : tree.nodeAt here = some .dir)
    (walked : tree.walkNew here path = .found location) (target : List Char) :
    tree.nodeAt location ≠ some (.symlink target) := by
  induction path generalizing here with
  | nil =>
      cases walked
      rw [start]
      nofun
  | cons component rest ih =>
      cases component with
      | rootDir => exact ih (nodeAt_nil tree) walked
      | curDir => exact ih start walked
      | parentDir => exact ih (nodeAt_dropLast (by rw [start]; nofun)) walked
      | normal name =>
          rw [walkNew] at walked
          split at walked
          · rename_i next
            exact ih next walked
          · cases walked
          · rename_i plain
            split at walked
            · cases walked
              exact plain target
            · cases walked

theorem nodeAt_of_walkNew_link {link : Location} {target : List Char} {rest : PathBuf}
    (walked : tree.walkNew here path = .link link target rest) :
    tree.nodeAt link = some (.symlink target) := by
  induction path generalizing here with
  | nil => cases walked
  | cons component rest ih =>
      cases component with
      | rootDir => exact ih walked
      | curDir => exact ih walked
      | parentDir => exact ih walked
      | normal name =>
          rw [walkNew] at walked
          split at walked
          · exact ih walked
          · rename_i next
            cases walked
            exact next
          · split at walked
            · cases walked
            · cases walked

theorem resolveNew_plain (start : tree.nodeAt here = some .dir)
    (resolved : tree.resolveNew links here path = some location) (target : List Char) :
    tree.nodeAt location ≠ some (.symlink target) := by
  induction links generalizing here path with
  | zero =>
      unfold resolveNew at resolved
      split at resolved
      · rename_i walked
        cases resolved
        exact walkNew_found start walked target
      · cases resolved
      · cases resolved
  | succ links ih =>
      unfold resolveNew at resolved
      split at resolved
      · rename_i walked
        cases resolved
        exact walkNew_found start walked target
      · cases resolved
      · rename_i walked
        have above := nodeAt_dropLast (by rw [nodeAt_of_walkNew_link walked]; nofun)
        exact ih above resolved

theorem fileAt_plain (start : tree.nodeAt cwd = some .dir)
    (opened : tree.fileAt cwd path = some location) (target : List Char) :
    tree.nodeAt location ≠ some (.symlink target) :=
  resolveNew_plain start (Option.filter_eq_some_iff.mp opened).1 target

/-- A path that leads to a directory can be continued there for opening, too. -/
theorem walkNew_append (walked : tree.walk here front = .found mid)
    (directory : tree.nodeAt mid = some .dir) :
    tree.walkNew here (front ++ back) = tree.walkNew mid back := by
  induction front generalizing here with
  | nil =>
      cases walked
      rfl
  | cons component front ih =>
      cases component with
      | rootDir => exact ih walked
      | curDir => exact ih walked
      | parentDir => exact ih walked
      | normal name =>
          obtain ⟨next, further⟩ := walk_normal_found walked directory
          rw [List.cons_append, walkNew_normal_dir next]
          exact ih further

theorem walkNew_append_link {target : List Char} {link : Location} {rest : PathBuf}
    (walked : tree.walk here front = .link link target rest) :
    tree.walkNew here (front ++ back) = .link link target (rest ++ back) := by
  induction front generalizing here with
  | nil => cases walked
  | cons component front ih =>
      cases component with
      | rootDir => exact ih walked
      | curDir => exact ih walked
      | parentDir => exact ih walked
      | normal name =>
          rw [List.cons_append]
          rcases walk_normal_link walked with ⟨next, further⟩ | ⟨next, own, left⟩
          · rw [walkNew_normal_dir next]
            exact ih further
          · rw [walkNew_normal_symlink next, own, left]

theorem resolveNew_append (resolved : tree.resolve links here front = some (passed, mid))
    (directory : tree.nodeAt mid = some .dir) :
    tree.resolveNew links here (front ++ back) =
      tree.resolveNew (links - passed.length) mid back := by
  induction passed generalizing links here front with
  | nil =>
      have walked : tree.walkNew here (front ++ back) = tree.walkNew mid back :=
        walkNew_append (walk_of_resolve_nil resolved) directory
      unfold resolveNew
      rw [walked]
      rfl
  | cons link more ih =>
      obtain ⟨fewer, target, rest, same, walked, inner⟩ := walk_of_resolve_cons resolved
      subst same
      rw [resolveNew, walkNew_append_link walked]
      simp only [← List.append_assoc, ih inner, List.length_cons, Nat.add_sub_add_right]

end Opening

section Passages

variable {tree after : FileTree} {here last next : Location} {links left : Nat}
  {path : PathBuf} {component : Component}

/-- The passage only makes directories. -/
theorem passComponent_evolved (tree : FileTree) (links : Nat) (here : Location)
    (component : Component) :
    Evolved (fun _ => False) tree (tree.passComponent links here component).tree := by
  unfold passComponent
  split
  · split
    · exact Evolved.refl _ tree
    · exact Evolved.refl _ tree
  · split
    · rename_i name _
      split
      · rename_i free
        refine Grown.evolved (?_ : Grown _ _ (here ++ [name]))
        intro other
        rw [insertNode_nodeAt]
        by_cases own : other = here ++ [name]
        · rw [own, if_pos rfl]
          exact .inr ⟨free.2, rfl, List.prefix_rfl⟩
        · rw [if_neg own]
          exact .inl rfl
      · exact Evolved.refl _ tree
    · exact Evolved.refl _ tree

theorem passage_evolved (tree : FileTree) (links : Nat) (here : Location) (path : PathBuf) :
    Evolved (fun _ => False) tree (tree.passage links here path).tree := by
  induction path generalizing tree links here with
  | nil => exact Evolved.refl _ tree
  | cons component rest ih =>
      have first := passComponent_evolved tree links here component
      unfold passage
      dsimp only
      split
      · exact first
      · exact first.trans (ih _ _ _)

theorem passage_append (tree : FileTree) (links : Nat) (here : Location) (front back : PathBuf) :
    tree.passage links here (front ++ back) =
      match (tree.passage links here front).last with
      | none => tree.passage links here front
      | some (left, next) =>
          let later := (tree.passage links here front).tree.passage left next back
          { later with made := (tree.passage links here front).made ++ later.made } := by
  induction front generalizing tree links here with
  | nil => rfl
  | cons component front ih =>
      simp only [List.cons_append, passage]
      split
      · rename_i ended
        rw [ended]
      · rename_i left next ended
        simp only [ih]
        split
        · rfl
        · simp only [List.append_assoc]

theorem passComponent_there {symlinks : List Location}
    (resolved : tree.resolve links here [component] = some (symlinks, next))
    (inside : tree.nodeAt next = some .dir) :
    tree.passComponent links here component =
      ⟨tree, [], some (links - symlinks.length, next)⟩ := by
  simp only [passComponent, resolved, inside, if_true]

theorem passComponent_blocked {symlinks : List Location}
    (resolved : tree.resolve links here [component] = some (symlinks, next))
    (blocked : tree.nodeAt next ≠ some .dir) :
    tree.passComponent links here component = ⟨tree, [], none⟩ := by
  simp only [passComponent, resolved, blocked, if_false]

theorem passComponent_made {name : List Char} (inside : tree.nodeAt here = some .dir)
    (free : tree.nodeAt (here ++ [name]) = none) :
    tree.passComponent links here (.normal name) =
      ⟨tree.insertNode (here ++ [name]) .dir (by simp) (by simpa using inside)
        (notDir_of_absent free), [here ++ [name]], some (links, here ++ [name])⟩ := by
  have missing : tree.resolve links here [.normal name] = none :=
    resolve_missing (by rw [walk, free])
  simp only [passComponent, missing, inside, free, and_self, dif_pos]

/-- Where a component leads once it has been passed. -/
theorem passComponent_resolve
    (passed : (tree.passComponent links here component).last = some (left, next)) :
    ∃ symlinks, (tree.passComponent links here component).tree.resolve links here [component] =
        some (symlinks, next) ∧
      (tree.passComponent links here component).tree.nodeAt next = some .dir ∧
      left = links - symlinks.length := by
  cases resolved : tree.resolve links here [component] with
  | some found =>
      obtain ⟨symlinks, place⟩ := found
      by_cases inside : tree.nodeAt place = some .dir
      · rw [passComponent_there resolved inside] at passed ⊢
        cases passed
        exact ⟨symlinks, resolved, inside, rfl⟩
      · rw [passComponent_blocked resolved inside] at passed
        cases passed
  | none =>
      have made : ∃ name, component = .normal name ∧ tree.nodeAt here = some .dir ∧
          tree.nodeAt (here ++ [name]) = none := by
        simp only [passComponent, resolved] at passed
        split at passed
        · rename_i name
          split at passed
          · rename_i free
            exact ⟨name, rfl, free⟩
          · cases passed
        · cases passed
      obtain ⟨name, rfl, inside, free⟩ := made
      rw [passComponent_made inside free] at passed ⊢
      cases passed
      have own : ∀ other, (tree.insertNode (here ++ [name]) .dir (by simp) (by simpa using inside)
          (notDir_of_absent free)).nodeAt other =
          if other = here ++ [name] then some .dir else tree.nodeAt other := insertNode_nodeAt
      have directory := (own (here ++ [name])).trans (if_pos rfl)
      exact ⟨[], resolve_found (walk_normal_dir directory), directory, rfl⟩

/-- After a passage its path leads to its end, however many directories are made later. -/
theorem passage_resolve (start : tree.nodeAt here = some .dir)
    (passed : (tree.passage links here path).last = some (left, last))
    (evolved : Evolved (fun _ => False) (tree.passage links here path).tree after) :
    (∃ symlinks, after.resolve links here path = some (symlinks, last) ∧
      left = links - symlinks.length) ∧ after.nodeAt last = some .dir := by
  induction path generalizing tree links here with
  | nil =>
      cases passed
      exact ⟨⟨[], resolve_found rfl, rfl⟩, evolved.dirs _ start⟩
  | cons component rest ih =>
      unfold passage at passed evolved
      dsimp only at passed evolved
      split at passed
      · rename_i ended
        rw [ended] at passed
        cases passed
      · rename_i middle next ended
        rw [ended] at evolved
        obtain ⟨symlinks, early, inside, rfl⟩ := passComponent_resolve ended
        obtain ⟨⟨more, later, rfl⟩, final⟩ := ih inside passed evolved
        have whole := (passage_evolved _ (links - symlinks.length) next rest).trans evolved
        have still := whole.resolve early inside fun _ _ => id
        refine ⟨⟨symlinks ++ more, ?_, ?_⟩, final⟩
        · rw [← List.singleton_append, resolve_append still (whole.dirs _ inside), later]
          rfl
        · rw [List.length_append, Nat.sub_add_eq]

/-- A path that leads to a directory is passed as it is. -/
theorem passage_of_resolve {symlinks : List Location} (start : tree.nodeAt here = some .dir)
    (resolved : tree.resolve links here path = some (symlinks, last))
    (inside : tree.nodeAt last = some .dir) :
    tree.passage links here path = ⟨tree, [], some (links - symlinks.length, last)⟩ := by
  induction path generalizing links here symlinks with
  | nil =>
      rw [resolve_found rfl] at resolved
      cases resolved
      rfl
  | cons component rest ih =>
      have split_ : ∃ first mid more, tree.resolve links here [component] = some (first, mid) ∧
          tree.nodeAt mid = some .dir ∧
          tree.resolve (links - first.length) mid rest = some (more, last) ∧
          symlinks = first ++ more := by
        by_cases single : rest = []
        · subst single
          exact ⟨symlinks, last, [], resolved, inside, resolve_found rfl, (List.append_nil _).symm⟩
        · exact resolve_append_inv start single resolved
      obtain ⟨first, mid, more, early, below, later, rfl⟩ := split_
      simp only [passage, passComponent_there early below, ih below later, List.nil_append,
        List.length_append, Nat.sub_add_eq]

end Passages

section CreateDirAll

variable {tree : FileTree} {cwd directory location : Location} {front path : PathBuf}
  {component : Component} {node : Node} {symlinks : List Location}

theorem addNode_free (placed : tree.placeAt cwd path = some location)
    (free : tree.nodeAt location = none) :
    tree.addNode node cwd path =
      ⟨tree.insertNode location node (placeAt_inside placed).1 (placeAt_inside placed).2
        (notDir_of_absent free), [location], .ok ()⟩ := by
  unfold addNode
  split
  · rename_i unplaced
    rw [unplaced] at placed
    cases placed
  · rename_i other found
    obtain rfl : other = location := Option.some.inj (found.symm.trans placed)
    rw [dif_pos free]

theorem addNode_taken (tree : FileTree) (node : Node) (cwd : Location) (path : PathBuf)
    (taken : ∀ location, tree.placeAt cwd path = some location → tree.nodeAt location ≠ none) :
    ∃ reason, tree.addNode node cwd path = .failed tree reason := by
  unfold addNode
  split
  · exact ⟨_, rfl⟩
  · rename_i location placed
    rw [dif_neg (taken location placed)]
    exact ⟨_, rfl⟩

theorem placeAt_concat (name : List Char)
    (found : tree.directoryAt cwd front = some directory) :
    tree.placeAt cwd (front ++ [.normal name]) = some (directory ++ [name]) := by
  simp [placeAt, found]

/-- What the last name of a path leads to is there. -/
theorem placeAt_there {links : Nat} {found : List Location × Location}
    (there : tree.directoryAt cwd front = some directory)
    (resolved : tree.resolve links directory [component] = some found)
    (placed : tree.placeAt cwd (front ++ [component]) = some location) :
    tree.nodeAt location ≠ none := by
  cases component with
  | normal name =>
      rw [placeAt_concat name there, Option.some.injEq] at placed
      rw [← placed]
      intro free
      rw [resolve_missing (by rw [walk, free])] at resolved
      cases resolved
  | rootDir => simp [placeAt] at placed
  | curDir => simp [placeAt] at placed
  | parentDir => simp [placeAt] at placed

theorem isDirAt_concat (component : Component)
    (resolved : tree.resolve maxLinks cwd front = some (symlinks, directory))
    (inside : tree.nodeAt directory = some .dir) :
    tree.isDirAt cwd (front ++ [component]) = true ↔ ∃ more next,
      tree.resolve (maxLinks - symlinks.length) directory [component] = some (more, next) ∧
        tree.nodeAt next = some .dir := by
  rw [isDirAt, Option.isSome_iff_exists]
  simp only [directoryAt_eq_some, resolve_append resolved inside, Option.map_eq_some_iff]
  constructor
  · rintro ⟨next, ⟨passed, ⟨more, last⟩, found, same⟩, there⟩
    cases same
    exact ⟨more, last, found, there⟩
  · rintro ⟨more, next, found, there⟩
    exact ⟨next, ⟨_, (more, next), found, rfl⟩, there⟩

/-- The last call at a path makes what is missing of its last component. -/
theorem makeDir_passComponent (component : Component)
    (resolved : tree.resolve maxLinks cwd front = some (symlinks, directory))
    (inside : tree.nodeAt directory = some .dir) :
    let passed := tree.passComponent (maxLinks - symlinks.length) directory component
    let made := tree.makeDir cwd (front ++ [component])
    made.tree = passed.tree ∧ made.touched = passed.made ∧
      (made.result = .ok () ↔ passed.last ≠ none) := by
  have there : tree.directoryAt cwd front = some directory :=
    directoryAt_eq_some.mpr ⟨⟨symlinks, resolved⟩, inside⟩
  have isDir := isDirAt_concat component resolved inside
  dsimp only
  cases last : tree.resolve (maxLinks - symlinks.length) directory [component] with
  | some found =>
      obtain ⟨more, next⟩ := found
      obtain ⟨reason, refused⟩ := addNode_taken tree .dir cwd (front ++ [component])
        fun location placed => placeAt_there there last placed
      by_cases below : tree.nodeAt next = some .dir
      · have directory_ := isDir.mpr ⟨more, next, last, below⟩
        simp [makeDir, refused, Calls.failed, Calls.done, directory_,
          passComponent_there last below]
      · have other : tree.isDirAt cwd (front ++ [component]) = false := by
          rw [← Bool.not_eq_true, isDir, last]
          simp [below]
        simp [makeDir, refused, Calls.failed, other, passComponent_blocked last below]
  | none =>
      have other : tree.isDirAt cwd (front ++ [component]) = false := by
        rw [← Bool.not_eq_true, isDir, last]
        simp
      cases component with
      | normal name =>
          have placed := placeAt_concat name there
          by_cases free : tree.nodeAt (directory ++ [name]) = none
          · simp [makeDir, addNode_free placed free, passComponent_made inside free]
          · obtain ⟨reason, refused⟩ := addNode_taken tree .dir cwd
              (front ++ [.normal name]) fun location own => by
                rw [placed, Option.some.injEq] at own
                rw [← own]
                exact free
            simp [makeDir, refused, Calls.failed, other, passComponent, last, free]
      | rootDir => exact absurd last (by rw [resolve_found rfl]; exact Option.some_ne_none _)
      | curDir => exact absurd last (by rw [resolve_found rfl]; exact Option.some_ne_none _)
      | parentDir => exact absurd last (by rw [resolve_found rfl]; exact Option.some_ne_none _)

/-- Going up from the end of a path, `create_dir_all` makes what the passage makes. -/
theorem createDirAllAtRev_passage (start : tree.nodeAt cwd = some .dir) (path : PathBuf) :
    let passed := tree.passage maxLinks cwd path.reverse
    let made := createDirAllAtRev cwd path tree
    made.tree = passed.tree ∧ made.touched = passed.made ∧
      (made.result = .ok () ↔ passed.last ≠ none) := by
  induction path with
  | nil => exact ⟨rfl, rfl, iff_of_true rfl nofun⟩
  | cons last above ih =>
      obtain ⟨sameTree, sameMade, succeeds⟩ := ih
      dsimp only
      rw [createDirAllAtRev]
      split
      · rename_i there
        obtain ⟨directory, found⟩ := Option.isSome_iff_exists.mp there
        obtain ⟨⟨symlinks, resolved⟩, inside⟩ := directoryAt_eq_some.mp found
        rw [passage_of_resolve start resolved inside]
        exact ⟨rfl, rfl, iff_of_true rfl nofun⟩
      · rw [List.reverse_cons, passage_append]
        cases ended : (tree.passage maxLinks cwd above.reverse).last with
        | none =>
            cases result : (createDirAllAtRev cwd above tree).result with
            | ok done => exact absurd ended (succeeds.mp result)
            | error reason =>
                rw [Calls.andThen_of_error result]
                exact ⟨sameTree, sameMade, by simp [result, ended]⟩
        | some further =>
            obtain ⟨left, directory⟩ := further
            have result := succeeds.mpr (by rw [ended]; nofun)
            obtain ⟨⟨symlinks, resolved, rfl⟩, inside⟩ := passage_resolve start ended
              (Evolved.refl _ _)
            rw [Calls.andThen_of_ok result, sameTree, sameMade]
            have own := makeDir_passComponent last resolved inside
            obtain ⟨ownTree, ownMade, ownResult⟩ := own
            simp only [passage_single]
            exact ⟨ownTree, by rw [ownMade], ownResult⟩

theorem createDirAllAt_passage (start : tree.nodeAt cwd = some .dir) (path : PathBuf) :
    let passed := tree.passage maxLinks cwd path
    let made := createDirAllAt cwd path tree
    made.tree = passed.tree ∧ made.touched = passed.made ∧
      (made.result = .ok () ↔ passed.last ≠ none) := by
  have whole := createDirAllAtRev_passage start path.reverse
  rwa [List.reverse_reverse] at whole

end CreateDirAll

/-- No directory goes. -/
def KeepsDirs (tree after : FileTree) : Prop :=
  ∀ location, tree.nodeAt location = some .dir → after.nodeAt location = some .dir

section KeepsDirs

variable {tree between after : FileTree} {cwd location : Location} {path : PathBuf}

theorem KeepsDirs.refl (tree : FileTree) : KeepsDirs tree tree := fun _ found => found

theorem KeepsDirs.trans (first : KeepsDirs tree between) (second : KeepsDirs between after) :
    KeepsDirs tree after :=
  fun location found => second location (first location found)

theorem Changed.keepsDirs {node : Option Node} (changed : Changed tree after location node)
    (kept : tree.nodeAt location ≠ some .dir) : KeepsDirs tree after := by
  intro other found
  have differs : other ≠ location := fun same => kept (same ▸ found)
  rw [changed other, if_neg differs]
  exact found

theorem addNode_keepsDirs (tree : FileTree) (node : Node) (cwd : Location) (path : PathBuf) :
    KeepsDirs tree (tree.addNode node cwd path).tree := by
  unfold addNode
  split
  · exact KeepsDirs.refl tree
  · split
    · rename_i free
      dsimp only
      exact Changed.keepsDirs insertNode_nodeAt (notDir_of_absent free)
    · exact KeepsDirs.refl tree

theorem putFile_keepsDirs (tree : FileTree) (location : Location) (contents : ByteArray)
    (mode : Nat) : KeepsDirs tree (tree.putFile location contents mode).tree := by
  unfold putFile
  split
  · rename_i there
    dsimp only
    exact Changed.keepsDirs insertNode_nodeAt there.2.2
  · exact KeepsDirs.refl tree

theorem createDirAllAt_keepsDirs (start : tree.nodeAt cwd = some .dir) (path : PathBuf) :
    KeepsDirs tree (tree.createDirAllAt cwd path).tree := by
  rw [(createDirAllAt_passage start path).1]
  exact (passage_evolved tree maxLinks cwd path).dirs

/-- A node that is neither a directory nor a symlink gives way to another one. -/
theorem Changed.evolved_plain {free : Location → Prop} {node : Option Node}
    (changed : Changed tree after location node) (leaf : tree.nodeAt location ≠ some .dir)
    (before : ∀ target, tree.nodeAt location ≠ some (.symlink target))
    (plain : ∀ target, node ≠ some (.symlink target)) : Evolved free tree after where
  dirs := changed.keepsDirs leaf
  links := by
    intro other target _ found
    have differs : other ≠ location := fun same => before target (same ▸ found)
    rw [changed other, if_neg differs]
    exact found
  fresh := by
    intro other target found
    rw [changed other] at found
    split at found
    · exact absurd found (plain target)
    · exact found

theorem putFile_evolved {free : Location → Prop} {contents : ByteArray} {mode : Nat}
    (before : ∀ target, tree.nodeAt location ≠ some (.symlink target)) :
    Evolved free tree (tree.putFile location contents mode).tree := by
  unfold putFile
  split
  · rename_i there
    dsimp only
    exact Changed.evolved_plain insertNode_nodeAt there.2.2 before (by simp)
  · exact Evolved.refl free tree

/-- What the first calls and then the later ones do to a tree. -/
theorem Calls.andThen_relates {related : FileTree → FileTree → Prop} {first : Calls}
    {next : FileTree → Calls}
    (trans : ∀ one two three, related one two → related two three → related one three)
    (front : related tree first.tree) (back : related first.tree (next first.tree).tree) :
    related tree (first.andThen next).tree := by
  cases ended : first.result with
  | error reason =>
      rw [Calls.andThen_of_error ended]
      exact front
  | ok done =>
      rw [Calls.andThen_of_ok ended]
      exact trans _ _ _ front back

end KeepsDirs

end NixRedox.FileTree
