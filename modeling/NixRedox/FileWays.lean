import NixRedox.FileTree

set_option autoImplicit false

/- Where paths lead through symlinked directories, and why that stays the same while
files are written and removed. -/
namespace NixRedox.FileTree

/-- Where names lead from a directory once the missing directories are made, and the
symlinks passed. Each of these has to lead to a directory. -/
def aim (tree : FileTree) : Nat → Location → Location → Option (List Location × Location)
  | _, here, [] => some ([], here)
  | links, here, name :: rest =>
      match tree.nodeAt (here ++ [name]) with
      | some (.symlink _) =>
          match tree.resolve links here [.normal name] with
          | none => none
          | some (passed, directory) =>
              if tree.nodeAt directory = some .dir then
                (tree.aim (links - passed.length) directory rest).map
                  fun (more, last) => (passed ++ more, last)
              else
                none
      | _ => tree.aim links (here ++ [name]) rest

/-- The symlinks on the way to a path, and where its last name is once the missing
directories are made. The last name itself may be a symlink. -/
def way (tree : FileTree) (path : Location) : Option (List Location × Location) :=
  match path.getLast?, tree.aim maxLinks [] path.dropLast with
  | some name, some (passed, directory) => some (passed, directory ++ [name])
  | _, _ => none

section Follow

variable {tree : FileTree} {here mid last : Location} {links : Nat} {passed : List Location}
  {front back : UnixPath.PathBuf}

/-- A name on the way to a directory is one itself. -/
theorem walk_normal_found {name : List Char}
    (walked : tree.walk here (.normal name :: front) = .found last)
    (directory : tree.nodeAt last = some .dir) :
    tree.nodeAt (here ++ [name]) = some .dir ∧ tree.walk (here ++ [name]) front = .found last := by
  rw [walk] at walked
  split at walked
  · cases walked
  · rename_i next
    exact ⟨next, walked⟩
  · rename_i next
    split at walked
    · cases walked
      rw [next] at directory
      cases directory
    · cases walked
  · cases walked

/-- A name on the way to a symlink is a directory or the symlink. -/
theorem walk_normal_link {name target : List Char} {link : Location} {rest : UnixPath.PathBuf}
    (walked : tree.walk here (.normal name :: front) = .link link target rest) :
    (tree.nodeAt (here ++ [name]) = some .dir ∧
        tree.walk (here ++ [name]) front = .link link target rest) ∨
      (tree.nodeAt (here ++ [name]) = some (.symlink target) ∧ link = here ++ [name] ∧
        rest = front) := by
  rw [walk] at walked
  split at walked
  · cases walked
  · rename_i next
    exact .inl ⟨next, walked⟩
  · split at walked
    · cases walked
    · cases walked
  · rename_i next
    cases walked
    exact .inr ⟨next, rfl, rfl⟩

theorem walk_normal_symlink {name target : List Char}
    (next : tree.nodeAt (here ++ [name]) = some (.symlink target)) :
    tree.walk here (.normal name :: back) = .link (here ++ [name]) target back := by
  rw [walk, next]

/-- A path that leads to a directory can be continued there. -/
theorem walk_append (walked : tree.walk here front = .found mid)
    (directory : tree.nodeAt mid = some .dir) :
    tree.walk here (front ++ back) = tree.walk mid back := by
  induction front generalizing here with
  | nil =>
      cases walked
      rfl
  | cons component front ih =>
      cases component with
      | rootDir => exact ih walked
      | curDir => exact ih walked
      | parentDir => exact ih walked
      | normal name =>
          obtain ⟨next, further⟩ := walk_normal_found walked directory
          rw [List.cons_append, walk_normal_dir next]
          exact ih further

theorem walk_append_link {target : List Char} {link : Location} {rest : UnixPath.PathBuf}
    (walked : tree.walk here front = .link link target rest) :
    tree.walk here (front ++ back) = .link link target (rest ++ back) := by
  induction front generalizing here with
  | nil => cases walked
  | cons component front ih =>
      cases component with
      | rootDir => exact ih walked
      | curDir => exact ih walked
      | parentDir => exact ih walked
      | normal name =>
          rw [List.cons_append]
          rcases walk_normal_link walked with ⟨next, further⟩ | ⟨next, own, left⟩
          · rw [walk_normal_dir next]
            exact ih further
          · rw [walk_normal_symlink next, own, left]

theorem resolve_missing (walked : tree.walk here front = .missing) :
    tree.resolve links here front = none := by
  unfold resolve
  rw [walked]

theorem resolve_of_walk_eq (same : tree.walk here front = tree.walk mid back) :
    tree.resolve links here front = tree.resolve links mid back := by
  unfold resolve
  rw [same]

theorem walk_of_resolve_nil (resolved : tree.resolve links here front = some ([], last)) :
    tree.walk here front = .found last := by
  unfold resolve at resolved
  split at resolved
  · rename_i walked
    cases resolved
    exact walked
  · cases resolved
  · split at resolved
    · cases resolved
    · obtain ⟨other, _, same⟩ := Option.map_eq_some_iff.mp resolved
      cases same

/-- A path that passes a symlink starts with a part that ends in it. -/
theorem walk_of_resolve_cons {link : Location} {more : List Location}
    (resolved : tree.resolve links here front = some (link :: more, last)) :
    ∃ fewer target rest, links = fewer + 1 ∧ tree.walk here front = .link link target rest ∧
      tree.resolve fewer link.dropLast (UnixPath.components target ++ rest) =
        some (more, last) := by
  unfold resolve at resolved
  split at resolved
  · cases resolved
  · cases resolved
  · rename_i first target rest walked
    split at resolved
    · cases resolved
    · rename_i fewer
      obtain ⟨⟨others, location⟩, inner, same⟩ := Option.map_eq_some_iff.mp resolved
      cases same
      exact ⟨fewer, target, rest, rfl, walked, inner⟩

theorem resolve_link {link : Location} {target : List Char} {rest : UnixPath.PathBuf}
    (walked : tree.walk here front = .link link target rest) :
    tree.resolve (links + 1) here front =
      (tree.resolve links link.dropLast (UnixPath.components target ++ rest)).map
        fun (passed, location) => (link :: passed, location) := by
  rw [resolve, walked]

theorem resolve_append (resolved : tree.resolve links here front = some (passed, mid))
    (directory : tree.nodeAt mid = some .dir) :
    tree.resolve links here (front ++ back) =
      (tree.resolve (links - passed.length) mid back).map
        fun (more, last) => (passed ++ more, last) := by
  induction passed generalizing links here front with
  | nil =>
      rw [resolve_of_walk_eq (walk_append (walk_of_resolve_nil resolved) directory)]
      simp
  | cons link more ih =>
      obtain ⟨fewer, target, rest, same, walked, inner⟩ := walk_of_resolve_cons resolved
      subst same
      rw [resolve_link (walk_append_link walked), ← List.append_assoc, ih inner]
      simp [Function.comp_def]

/-- Below what is not a directory a path goes nowhere. -/
theorem walk_append_blocked {name : List Char} (walked : tree.walk here front = .found mid)
    (blocked : tree.nodeAt mid ≠ some .dir) :
    tree.walk here (front ++ .normal name :: back) = .missing := by
  induction front generalizing here with
  | nil =>
      cases walked
      have absent : tree.nodeAt (mid ++ [name]) = none := by
        by_contra there
        exact blocked (nodeAt_append there (List.cons_ne_nil _ _))
      rw [List.nil_append, walk, absent]
  | cons component front ih =>
      cases component with
      | rootDir => exact ih walked
      | curDir => exact ih walked
      | parentDir => exact ih walked
      | normal own =>
          rw [List.cons_append]
          rw [walk] at walked ⊢
          split at walked
          · cases walked
          · exact ih walked
          · simp
          · cases walked

theorem walk_append_missing (walked : tree.walk here front = .missing) :
    tree.walk here (front ++ back) = .missing := by
  induction front generalizing here with
  | nil => cases walked
  | cons component front ih =>
      cases component with
      | rootDir => exact ih walked
      | curDir => exact ih walked
      | parentDir => exact ih walked
      | normal name =>
          rw [List.cons_append]
          rw [walk] at walked ⊢
          split at walked
          · rfl
          · exact ih walked
          · split at walked
            · cases walked
            · rename_i more
              simp [more]
          · cases walked

/-- A path goes on below its front only if the front leads to a directory. -/
theorem resolve_append_none {name : List Char}
    (blocked : ∀ passed mid, tree.resolve links here front = some (passed, mid) →
      tree.nodeAt mid ≠ some .dir) :
    tree.resolve links here (front ++ .normal name :: back) = none := by
  induction links generalizing here front with
  | zero =>
      cases walked : tree.walk here front with
      | found mid =>
          exact resolve_missing (walk_append_blocked walked (blocked _ _ (resolve_found walked)))
      | missing => exact resolve_missing (walk_append_missing walked)
      | link link target rest =>
          rw [resolve, walk_append_link walked]
  | succ links ih =>
      cases walked : tree.walk here front with
      | found mid =>
          exact resolve_missing (walk_append_blocked walked (blocked _ _ (resolve_found walked)))
      | missing => exact resolve_missing (walk_append_missing walked)
      | link link target rest =>
          rw [resolve_link (walk_append_link walked), ← List.append_assoc, ih]
          · rfl
          · intro passed mid resolved
            apply blocked (link :: passed) mid
            rw [resolve_link walked, resolved]
            rfl

/-- A path that runs into a symlink does so at one. -/
theorem nodeAt_of_walk_link {target : List Char} {link : Location} {rest : UnixPath.PathBuf}
    (walked : tree.walk here front = .link link target rest) :
    tree.nodeAt link = some (.symlink target) := by
  induction front generalizing here with
  | nil => cases walked
  | cons component front ih =>
      cases component with
      | rootDir => exact ih walked
      | curDir => exact ih walked
      | parentDir => exact ih walked
      | normal name =>
          rcases walk_normal_link walked with ⟨_, further⟩ | ⟨next, own, _⟩
          · exact ih further
          · rw [own]
            exact next

/-- What a path passes is a symlink, and the path goes on from where that leads. -/
theorem resolve_member {link : Location}
    (resolved : tree.resolve links here front = some (passed, last)) (member : link ∈ passed) :
    ∃ fewer target rest more, tree.nodeAt link = some (.symlink target) ∧
      tree.resolve fewer link.dropLast (UnixPath.components target ++ rest) = some (more, last) := by
  induction passed generalizing links here front with
  | nil => cases member
  | cons first passed ih =>
      obtain ⟨fewer, target, rest, _, walked, inner⟩ := walk_of_resolve_cons resolved
      rcases List.mem_cons.mp member with same | further
      · subst same
        exact ⟨fewer, target, rest, passed, nodeAt_of_walk_link walked, inner⟩
      · exact ih inner further

/-- More symlinks allowed change nothing for a path that leads somewhere. -/
theorem resolve_mono {more : Nat} (resolved : tree.resolve links here front = some (passed, last))
    (less : links ≤ more) : tree.resolve more here front = some (passed, last) := by
  induction passed generalizing links more here front with
  | nil => exact resolve_found (walk_of_resolve_nil resolved)
  | cons link passed ih =>
      obtain ⟨fewer, target, rest, same, walked, inner⟩ := walk_of_resolve_cons resolved
      obtain ⟨extra, rfl⟩ : ∃ extra, more = extra + 1 := ⟨more - 1, by omega⟩
      rw [resolve_link walked, ih inner (by omega)]
      rfl

/-- Behind a file a path goes nowhere, upwards either. -/
theorem walk_append_file (start : tree.nodeAt here = some .dir)
    (walked : tree.walk here front = .found mid) (leaf : tree.nodeAt mid ≠ some .dir)
    (further : back ≠ []) : tree.walk here (front ++ back) = .missing := by
  induction front generalizing here with
  | nil =>
      cases walked
      exact absurd start leaf
  | cons component front ih =>
      cases component with
      | rootDir => exact ih (nodeAt_nil tree) walked
      | curDir => exact ih start walked
      | parentDir =>
          refine ih ?_ walked
          by_cases top : here = []
          · rw [top]
            rfl
          · exact nodeAt_dropLast (by rw [start]; nofun)
      | normal name =>
          rw [List.cons_append]
          rw [walk] at walked ⊢
          split at walked
          · rfl
          · rename_i next
            exact ih next walked
          · simp [further]
          · cases walked

theorem dir_of_link {link : Location} {target : List Char}
    (next : tree.nodeAt link = some (.symlink target)) : tree.nodeAt link.dropLast = some .dir :=
  nodeAt_dropLast (by rw [next]; nofun)

theorem resolve_append_file (start : tree.nodeAt here = some .dir)
    (resolved : tree.resolve links here front = some (passed, mid))
    (leaf : tree.nodeAt mid ≠ some .dir) (further : back ≠ []) :
    tree.resolve links here (front ++ back) = none := by
  induction passed generalizing links here front with
  | nil =>
      exact resolve_missing
        (walk_append_file start (walk_of_resolve_nil resolved) leaf further)
  | cons link passed ih =>
      obtain ⟨fewer, target, rest, same, walked, inner⟩ := walk_of_resolve_cons resolved
      subst same
      rw [resolve_link (walk_append_link walked), ← List.append_assoc,
        ih (dir_of_link (nodeAt_of_walk_link walked)) inner]
      rfl

/-- A symlink that leads to a file is the end of any path that it is on. -/
theorem resolve_link_file {link file : Location} {target : List Char} {rest : UnixPath.PathBuf}
    {fewer : Nat} {more : List Location} (next : tree.nodeAt link = some (.symlink target))
    (goes : tree.resolve links link.dropLast (UnixPath.components target ++ rest) =
      some (passed, last))
    (leads : tree.resolve fewer link.dropLast (UnixPath.components target) = some (more, file))
    (leaf : tree.nodeAt file ≠ some .dir) : rest = [] ∧ last = file := by
  have one := resolve_mono goes (Nat.le_max_left links fewer)
  have other := resolve_mono leads (Nat.le_max_right links fewer)
  by_cases whole : rest = []
  · rw [whole, List.append_nil, other] at one
    cases one
    exact ⟨whole, rfl⟩
  · rw [resolve_append_file (dir_of_link next) other leaf whole] at one
    cases one

end Follow

section Aim

variable {tree : FileTree} {here directory location path : Location} {name : List Char}
  {links : Nat} {passed : List Location}

theorem link_or_plain (tree : FileTree) (location : Location) :
    (∃ target, tree.nodeAt location = some (.symlink target)) ∨
      ∀ target, tree.nodeAt location ≠ some (.symlink target) := by
  by_cases linked : ∃ target, tree.nodeAt location = some (.symlink target)
  · exact .inl linked
  · exact .inr fun target next => linked ⟨target, next⟩

theorem noLink_of_absent (absent : tree.nodeAt location = none) (target : List Char) :
    tree.nodeAt location ≠ some (.symlink target) := by
  rw [absent]
  exact (Option.some_ne_none _).symm

theorem noLink_of_dir (inside : tree.nodeAt location = some .dir) (target : List Char) :
    tree.nodeAt location ≠ some (.symlink target) := by
  intro next
  rw [inside] at next
  cases next

theorem notDir_of_file {contents : ByteArray} {mode : Nat}
    (file : tree.nodeAt location = some (.file contents mode)) :
    tree.nodeAt location ≠ some .dir := by
  intro inside
  rw [file] at inside
  cases inside

theorem aim_plain {rest : Location}
    (plain : ∀ target, tree.nodeAt (here ++ [name]) ≠ some (.symlink target)) :
    tree.aim links here (name :: rest) = tree.aim links (here ++ [name]) rest := by
  rw [aim]
  split
  · rename_i target next
    exact absurd next (plain target)
  · rfl

theorem aim_link {rest : Location} {target : List Char}
    (next : tree.nodeAt (here ++ [name]) = some (.symlink target))
    (aimed : tree.aim links here (name :: rest) = some (passed, directory)) :
    ∃ first mid more, tree.resolve links here [.normal name] = some (first, mid) ∧
      tree.nodeAt mid = some .dir ∧ here ++ [name] ∈ first ∧
      tree.aim (links - first.length) mid rest = some (more, directory) ∧
      passed = first ++ more := by
  simp only [aim, next] at aimed
  split at aimed
  · cases aimed
  · rename_i first mid resolved
    split at aimed
    · rename_i inside
      obtain ⟨⟨more, last⟩, inner, same⟩ := Option.map_eq_some_iff.mp aimed
      cases same
      have own : here ++ [name] ∈ first := by
        cases first with
        | nil =>
            have walked := walk_of_resolve_nil resolved
            rw [walk_normal_symlink next] at walked
            cases walked
        | cons link others =>
            obtain ⟨_, _, _, _, walked, _⟩ := walk_of_resolve_cons resolved
            rw [walk_normal_symlink next] at walked
            cases walked
            exact List.mem_cons_self
      exact ⟨first, mid, more, resolved, inside, own, inner, rfl⟩
    · cases aimed

/-- Below what is not a directory nothing is in the way. -/
theorem aim_below (rest : Location) (blocked : tree.nodeAt here ≠ some .dir) :
    tree.aim links here rest = some ([], here ++ rest) := by
  induction rest generalizing here with
  | nil => rw [aim, List.append_nil]
  | cons name rest ih =>
      have absent : tree.nodeAt (here ++ [name]) = none := by
        by_contra there
        exact blocked (nodeAt_append there (List.cons_ne_nil _ _))
      rw [aim_plain (by simp [absent]), ih (by simp [absent]), List.append_assoc]
      rfl

/-- A file is the end of a path, and what is missing leads nowhere. -/
theorem resolve_blocked {rest : Location} (blocked : tree.nodeAt (here ++ [name]) ≠ some .dir)
    (plain : ∀ target, tree.nodeAt (here ++ [name]) ≠ some (.symlink target)) :
    tree.resolve links here ((name :: rest).map .normal) =
      if tree.nodeAt (here ++ [name] ++ rest) = none then none
      else some ([], here ++ [name] ++ rest) := by
  have below : rest ≠ [] → tree.nodeAt (here ++ [name] ++ rest) = none := by
    intro deeper
    by_contra there
    exact blocked (nodeAt_append there deeper)
  by_cases whole : rest = []
  · subst whole
    rw [List.append_nil]
    cases next : tree.nodeAt (here ++ [name]) with
    | none =>
        rw [if_pos rfl]
        apply resolve_missing
        simp [walk, next]
    | some node =>
        rw [if_neg (Option.some_ne_none node)]
        apply resolve_found
        cases node with
        | dir => exact absurd next blocked
        | file contents mode => simp [walk, next]
        | symlink target => exact absurd next (plain target)
  · rw [if_pos (below whole)]
    apply resolve_missing
    cases next : tree.nodeAt (here ++ [name]) with
    | none => simp [walk, next]
    | some node =>
        cases node with
        | dir => exact absurd next blocked
        | file contents mode => simp [walk, next, whole]
        | symlink target => exact absurd next (plain target)

/-- A path leads where it aims, if that is there. -/
theorem resolve_of_aim (names : Location) (start : tree.nodeAt here = some .dir)
    (aimed : tree.aim links here names = some (passed, directory)) :
    tree.resolve links here (names.map .normal) =
      if tree.nodeAt directory = none then none else some (passed, directory) := by
  induction names generalizing links here passed with
  | nil =>
      cases aimed
      rw [start, if_neg (by nofun)]
      exact resolve_found rfl
  | cons name rest ih =>
      rcases link_or_plain tree (here ++ [name]) with ⟨target, next⟩ | plain
      · obtain ⟨first, mid, more, resolved, inside, _, inner, same⟩ := aim_link next aimed
        have whole := @resolve_append _ _ _ _ _ _ (rest.map .normal) resolved inside
        rw [List.singleton_append, ih inside inner] at whole
        rw [List.map_cons, whole, same]
        split
        · rfl
        · rfl
      · rw [aim_plain plain] at aimed
        by_cases next : tree.nodeAt (here ++ [name]) = some .dir
        · rw [← ih next aimed, List.map_cons]
          exact resolve_of_walk_eq (walk_normal_dir next)
        · rw [aim_below rest next] at aimed
          cases aimed
          exact resolve_blocked next plain

theorem follow_of_aim (aimed : tree.aim maxLinks [] path = some (passed, directory)) :
    tree.follow path = if tree.nodeAt directory = none then none else some directory := by
  rw [follow, resolve_of_aim path (nodeAt_nil tree) aimed]
  split
  · rfl
  · rfl

theorem way_eq_some :
    tree.way path = some (passed, location) ↔ ∃ above name directory, path = above ++ [name] ∧
      tree.aim maxLinks [] above = some (passed, directory) ∧ location = directory ++ [name] := by
  constructor
  · intro found
    unfold way at found
    split at found
    · rename_i name passed directory last aimed
      cases found
      refine ⟨path.dropLast, name, directory, ?_, aimed, rfl⟩
      exact (List.dropLast_append_getLast? name last).symm
    · cases found
  · rintro ⟨above, name, directory, rfl, aimed, rfl⟩
    rw [way, List.getLast?_concat, List.dropLast_concat, aimed]

/-- A path is placed where its way ends, once there is a directory. -/
theorem place_of_way (found : tree.way path = some (passed, location)) :
    tree.place path = if tree.nodeAt location.dropLast = some .dir then some location else none := by
  obtain ⟨above, name, directory, rfl, aimed, rfl⟩ := way_eq_some.mp found
  rw [place, List.getLast?_concat, List.dropLast_concat, List.dropLast_concat, follow_of_aim aimed]
  by_cases missing : tree.nodeAt directory = none
  · rw [if_pos missing, missing]
    rfl
  · rw [if_neg missing]

theorem eq_of_place {other : Location} (found : tree.way path = some (passed, location))
    (placed : tree.place path = some other) : other = location := by
  rw [place_of_way found] at placed
  split at placed
  · exact (Option.some.inj placed).symm
  · cases placed

theorem symlinkMetadata_of_way (found : tree.way path = some (passed, location)) :
    tree.symlinkMetadata path = tree.nodeAt location := by
  rw [symlinkMetadata, place_of_way found]
  split
  · rfl
  · rename_i outside
    by_contra there
    exact outside (nodeAt_dropLast fun absent => there absent.symm)

/-- A path that does not end in a symlink leads to where its way ends. -/
theorem follow_of_way (found : tree.way path = some (passed, location))
    (solid : ∀ target, tree.nodeAt location ≠ some (.symlink target)) :
    tree.follow path = if tree.nodeAt location = none then none else some location := by
  obtain ⟨above, name, directory, rfl, aimed, rfl⟩ := way_eq_some.mp found
  have resolved := resolve_of_aim above (nodeAt_nil tree) aimed
  by_cases inside : tree.nodeAt directory = some .dir
  · rw [inside, if_neg (by simp)] at resolved
    rw [follow, List.map_append, resolve_append resolved inside, List.map_singleton]
    have alone := @resolve_blocked tree directory name (maxLinks - passed.length) []
    by_cases deeper : tree.nodeAt (directory ++ [name]) = some .dir
    · rw [deeper, if_neg (by simp), resolve_found (by rw [walk_normal_dir deeper]; rfl)]
      rfl
    · have ends := alone deeper solid
      rw [List.append_nil] at ends
      rw [List.map_singleton] at ends
      rw [ends]
      split
      · rfl
      · rfl
  · have absent : tree.nodeAt (directory ++ [name]) = none := by
      by_contra there
      exact inside (nodeAt_append there (List.cons_ne_nil _ _))
    rw [absent, if_pos rfl, follow, List.map_append, List.map_singleton, resolve_append_none]
    · rfl
    · intro other mid reached
      rw [resolved] at reached
      split at reached
      · cases reached
      · cases reached
        exact inside

variable {mid : Location} {front back : Location}

theorem aim_append (aimed : tree.aim links here front = some (passed, mid)) :
    tree.aim links here (front ++ back) = (tree.aim (links - passed.length) mid back).map
      fun (more, last) => (passed ++ more, last) := by
  induction front generalizing links here passed with
  | nil =>
      cases aimed
      simp
  | cons name front ih =>
      rw [List.cons_append]
      rcases link_or_plain tree (here ++ [name]) with ⟨target, next⟩ | plain
      · obtain ⟨first, deeper, more, resolved, inside, _, inner, same⟩ := aim_link next aimed
        subst same
        simp only [aim, next, resolved, inside, if_true, ih inner, List.length_append,
          Nat.sub_sub, Option.map_map]
        congr 1
        funext last
        simp
      · rw [aim_plain plain] at aimed ⊢
        exact ih aimed

/-- A path that leads to a directory aims there. -/
theorem aim_of_resolve (names : Location) (start : tree.nodeAt here = some .dir)
    (resolved : tree.resolve links here (names.map .normal) = some (passed, directory))
    (inside : tree.nodeAt directory = some .dir) :
    tree.aim links here names = some (passed, directory) := by
  induction names generalizing links here passed with
  | nil =>
      rw [List.map_nil, resolve_found rfl] at resolved
      cases resolved
      rfl
  | cons name rest ih =>
      rcases link_or_plain tree (here ++ [name]) with ⟨target, next⟩ | plain
      · rw [List.map_cons, ← List.singleton_append] at resolved
        have first : ∃ early mid, tree.resolve links here [.normal name] = some (early, mid) ∧
            tree.nodeAt mid = some .dir := by
          cases rest with
          | nil => exact ⟨passed, directory, resolved, inside⟩
          | cons other rest =>
              by_contra blocked
              rw [List.map_cons, resolve_append_none] at resolved
              · cases resolved
              · exact fun early mid reached there => blocked ⟨early, mid, reached, there⟩
        obtain ⟨early, mid, reached, there⟩ := first
        rw [resolve_append reached there] at resolved
        obtain ⟨⟨more, last⟩, further, same⟩ := Option.map_eq_some_iff.mp resolved
        cases same
        simp only [aim, next, reached, there, if_true, ih there further]
        rfl
      · rw [aim_plain plain]
        by_cases next : tree.nodeAt (here ++ [name]) = some .dir
        · apply ih next
          rw [List.map_cons] at resolved
          exact (resolve_of_walk_eq (walk_normal_dir next)).symm.trans resolved
        · rw [resolve_blocked next plain] at resolved
          split at resolved
          · cases resolved
          · cases resolved
            exact aim_below rest next

/-- Where a name is put its way ends. -/
theorem way_of_place (placed : tree.place path = some location) :
    ∃ passed, tree.way path = some (passed, location) ∧
      tree.resolve maxLinks [] (path.dropLast.map .normal) = some (passed, location.dropLast) ∧
      tree.nodeAt location.dropLast = some .dir := by
  unfold place at placed
  split at placed
  · rename_i name directory last leads
    split at placed
    · rename_i inside
      cases placed
      obtain ⟨⟨passed, own⟩, resolved, same⟩ := Option.map_eq_some_iff.mp leads
      cases same
      rw [List.dropLast_concat]
      refine ⟨passed, ?_, resolved, inside⟩
      rw [way, last, aim_of_resolve path.dropLast (nodeAt_nil tree) resolved inside]
    · cases placed
  · cases placed

end Aim

/-- The second tree has all directories of the first one, and its symlinks that are not
among the given locations. -/
structure Carried (free : Location → Prop) (tree after : FileTree) : Prop where
  dirs : ∀ location, tree.nodeAt location = some .dir → after.nodeAt location = some .dir
  links : ∀ location target, ¬ free location →
    tree.nodeAt location = some (.symlink target) → after.nodeAt location = some (.symlink target)

/-- And it has no symlinks of its own. -/
structure Evolved (free : Location → Prop) (tree after : FileTree) : Prop
    extends Carried free tree after where
  fresh : ∀ location target,
    after.nodeAt location = some (.symlink target) → tree.nodeAt location = some (.symlink target)

section Evolved

variable {free : Location → Prop} {tree between after : FileTree}
  {here directory location path last : Location} {links : Nat} {passed : List Location}
  {front : UnixPath.PathBuf}

theorem Evolved.refl (free : Location → Prop) (tree : FileTree) : Evolved free tree tree :=
  ⟨⟨fun _ found => found, fun _ _ _ found => found⟩, fun _ _ found => found⟩

theorem Evolved.trans (first : Evolved free tree between) (second : Evolved free between after) :
    Evolved free tree after where
  dirs := fun location found => second.dirs location (first.dirs location found)
  links := fun location target kept found =>
    second.links location target kept (first.links location target kept found)
  fresh := fun location target found =>
    first.fresh location target (second.fresh location target found)

theorem Carried.walk_found (carried : Carried free tree after)
    (walked : tree.walk here front = .found last) (inside : tree.nodeAt last = some .dir) :
    after.walk here front = .found last := by
  induction front generalizing here with
  | nil => exact walked
  | cons component front ih =>
      cases component with
      | rootDir => exact ih walked
      | curDir => exact ih walked
      | parentDir => exact ih walked
      | normal name =>
          obtain ⟨next, further⟩ := walk_normal_found walked inside
          rw [walk_normal_dir (carried.dirs _ next)]
          exact ih further

theorem Carried.walk_link {target : List Char} {link : Location} {rest : UnixPath.PathBuf}
    (carried : Carried free tree after) (walked : tree.walk here front = .link link target rest)
    (kept : ¬ free link) : after.walk here front = .link link target rest := by
  induction front generalizing here with
  | nil => cases walked
  | cons component front ih =>
      cases component with
      | rootDir => exact ih walked
      | curDir => exact ih walked
      | parentDir => exact ih walked
      | normal name =>
          rcases walk_normal_link walked with ⟨next, further⟩ | ⟨next, own, left⟩
          · rw [walk_normal_dir (carried.dirs _ next)]
            exact ih further
          · rw [own] at kept
            rw [walk_normal_symlink (carried.links _ _ kept next), own, left]

theorem Carried.resolve (carried : Carried free tree after)
    (resolved : tree.resolve links here front = some (passed, last))
    (inside : tree.nodeAt last = some .dir) (kept : ∀ link ∈ passed, ¬ free link) :
    after.resolve links here front = some (passed, last) := by
  induction passed generalizing links here front with
  | nil => exact resolve_found (carried.walk_found (walk_of_resolve_nil resolved) inside)
  | cons link more ih =>
      obtain ⟨fewer, target, rest, same, walked, inner⟩ := walk_of_resolve_cons resolved
      subst same
      have later := ih inner fun other member => kept other (List.mem_cons_of_mem link member)
      rw [resolve_link (carried.walk_link walked (kept link List.mem_cons_self)), later]
      rfl

/-- The way of names stays the same while its symlinks do. -/
theorem Evolved.aim (evolved : Evolved free tree after) (names : Location)
    (aimed : tree.aim links here names = some (passed, directory))
    (kept : ∀ link ∈ passed, ¬ free link) :
    after.aim links here names = some (passed, directory) := by
  induction names generalizing links here passed with
  | nil => exact aimed
  | cons name rest ih =>
      rcases link_or_plain tree (here ++ [name]) with ⟨target, next⟩ | plain
      · obtain ⟨first, mid, more, resolved, inside, own, inner, same⟩ := aim_link next aimed
        subst same
        have still := evolved.links _ _ (kept _ (List.mem_append_left more own)) next
        have early := evolved.resolve resolved inside fun link member =>
          kept link (List.mem_append_left more member)
        have later := ih inner fun link member => kept link (List.mem_append_right first member)
        simp only [FileTree.aim, still, early, evolved.dirs mid inside, later, if_true]
        rfl
      · rw [aim_plain plain] at aimed
        rw [aim_plain fun target next => plain target (evolved.fresh _ _ next)]
        exact ih aimed kept

theorem Evolved.way (evolved : Evolved free tree after)
    (found : tree.way path = some (passed, location)) (kept : ∀ link ∈ passed, ¬ free link) :
    after.way path = some (passed, location) := by
  obtain ⟨above, name, directory, split, aimed, same⟩ := way_eq_some.mp found
  exact way_eq_some.mpr ⟨above, name, directory, split, evolved.aim above aimed kept, same⟩

end Evolved

/-- The second tree has some more directories on the way to a location, and is the same
elsewhere. -/
def Grown (tree after : FileTree) (location : Location) : Prop :=
  ∀ other, after.nodeAt other = tree.nodeAt other ∨
    (tree.nodeAt other = none ∧ after.nodeAt other = some .dir ∧ other <+: location)

/-- One node has changed. -/
def Changed (tree after : FileTree) (location : Location) (node : Option Node) : Prop :=
  ∀ other, after.nodeAt other = if other = location then node else tree.nodeAt other

section Placed

variable {tree after : FileTree} {location path : Location} {target : List Char}

theorem mkdir_changed (made : tree.mkdir path = .ok after) :
    ∃ location, tree.place path = some location ∧ tree.nodeAt location = none ∧
      Changed tree after location (some .dir) := by
  unfold mkdir at made
  split at made
  · cases made
  · rename_i location placed
    split at made
    · rename_i free
      cases made
      exact ⟨location, placed, free, insertNode_nodeAt⟩
    · cases made

theorem symlink_changed (made : tree.symlink target path = .ok after) :
    ∃ location, tree.place path = some location ∧ tree.nodeAt location = none ∧
      Changed tree after location (some (.symlink target)) := by
  unfold symlink at made
  split at made
  · cases made
  · rename_i location placed
    split at made
    · rename_i free
      cases made
      exact ⟨location, placed, free, insertNode_nodeAt⟩
    · cases made

theorem removeFile_changed (removed : tree.removeFile path = .ok after) :
    ∃ location, tree.place path = some location ∧ tree.nodeAt location ≠ none ∧
      tree.nodeAt location ≠ some .dir ∧ Changed tree after location none := by
  unfold removeFile at removed
  split at removed
  · cases removed
  · rename_i location placed
    split at removed
    · cases removed
    · rename_i there
      split at removed
      · rename_i leaf
        cases removed
        exact ⟨location, placed, there, leaf, eraseNode_nodeAt⟩
      · cases removed

theorem write_changed {contents : ByteArray} (written : tree.write path contents = .ok after) :
    ∃ location mode, tree.place path = some location ∧ tree.nodeAt location ≠ some .dir ∧
      Changed tree after location (some (.file contents mode)) := by
  unfold write at written
  split at written
  · cases written
  · rename_i location placed
    split at written
    · rename_i absent
      cases written
      exact ⟨location, newFileMode, placed, by simp [absent], insertNode_nodeAt⟩
    · rename_i old mode present
      cases written
      exact ⟨location, mode, placed, by simp [present], insertNode_nodeAt⟩
    · cases written
    · cases written

theorem setPermissions_changed {mode : Nat} (set : tree.setPermissions path mode = .ok after) :
    ∃ location contents old, tree.place path = some location ∧
      tree.nodeAt location = some (.file contents old) ∧
      Changed tree after location (some (.file contents mode)) := by
  unfold setPermissions at set
  split at set
  · cases set
  · rename_i location placed
    split at set
    · rename_i contents old present
      cases set
      exact ⟨location, contents, old, placed, present, insertNode_nodeAt⟩
    · cases set

theorem removeFile_error {reason : String} (placed : tree.place path = some location)
    (failed : tree.removeFile path = .error reason) :
    tree.nodeAt location = none ∨ tree.nodeAt location = some .dir := by
  unfold removeFile at failed
  rw [placed] at failed
  dsimp only at failed
  split at failed
  · exact .inl ‹_›
  · split at failed
    · cases failed
    · exact .inr (not_not.mp ‹_›)

theorem removeDirAll_erased (removed : tree.removeDirAll path = .ok after) :
    ∃ location, tree.place path = some location ∧ tree.nodeAt location = some .dir ∧
      ∀ other, after.nodeAt other = if location <+: other then none else tree.nodeAt other := by
  unfold removeDirAll at removed
  split at removed
  · cases removed
  · rename_i location placed
    split at removed
    · rename_i inside
      cases removed
      exact ⟨location, placed, inside, eraseBelow_nodeAt (place_inside placed).1⟩
    · cases removed

end Placed

section Operations

variable {free : Location → Prop} {tree after : FileTree} {path location directory : Location}
  {passed : List Location}

theorem Grown.refl (tree : FileTree) (location : Location) : Grown tree tree location :=
  fun _ => .inl rfl

theorem Grown.evolved (grown : Grown tree after location) : Evolved free tree after where
  dirs := by
    intro other found
    rcases grown other with same | ⟨_, made, _⟩
    · exact same.trans found
    · exact made
  links := by
    intro other target _ found
    rcases grown other with same | ⟨absent, _⟩
    · exact same.trans found
    · rw [absent] at found
      cases found
  fresh := by
    intro other target found
    rcases grown other with same | ⟨_, made, _⟩
    · exact same.symm.trans found
    · rw [made] at found
      cases found

theorem Grown.absent {other : Location} (grown : Grown tree after location)
    (free : after.nodeAt other = none) : tree.nodeAt other = none := by
  rcases grown other with same | ⟨absent, _⟩
  · exact same.symm.trans free
  · exact absent

/-- Directories that are made change nothing about the way to a path. -/
theorem Grown.way {above : Location} {name : List Char} (grown : Grown tree after location)
    (aimed : tree.aim maxLinks [] above = some (passed, directory)) :
    after.way (above ++ [name]) = some (passed, directory ++ [name]) :=
  have evolved : Evolved (fun _ => False) tree after := grown.evolved
  way_eq_some.mpr ⟨above, name, directory, rfl,
    evolved.aim above aimed fun _ _ => not_false, rfl⟩

theorem Changed.evolved {node : Option Node} (changed : Changed tree after location node)
    (allowed : free location) (leaf : tree.nodeAt location ≠ some .dir)
    (plain : ∀ target, node ≠ some (.symlink target)) : Evolved free tree after where
  dirs := by
    intro other found
    have differs : other ≠ location := fun same => leaf (same ▸ found)
    rw [changed other, if_neg differs]
    exact found
  links := by
    intro other target kept found
    have differs : other ≠ location := fun same => kept (same ▸ allowed)
    rw [changed other, if_neg differs]
    exact found
  fresh := by
    intro other target found
    rw [changed other] at found
    split at found
    · exact absurd found (plain target)
    · exact found

theorem mkdir_ok (found : tree.way path = some (passed, location))
    (made : tree.mkdir path = .ok after) :
    tree.nodeAt location = none ∧ Changed tree after location (some .dir) := by
  obtain ⟨other, placed, free, changed⟩ := mkdir_changed made
  have same := eq_of_place found placed
  subst same
  exact ⟨free, changed⟩

theorem aim_concat {links : Nat} {here front : Location} {name : List Char}
    (aimed : tree.aim links here (front ++ [name]) = some (passed, directory)) :
    ∃ first mid more, tree.aim links here front = some (first, mid) ∧
      tree.aim (links - first.length) mid [name] = some (more, directory) := by
  induction front generalizing links here passed with
  | nil => exact ⟨[], here, passed, rfl, aimed⟩
  | cons head front ih =>
      rw [List.cons_append] at aimed
      rcases link_or_plain tree (here ++ [head]) with ⟨target, next⟩ | plain
      · obtain ⟨first, mid, more, resolved, inside, _, inner, _⟩ := aim_link next aimed
        obtain ⟨second, last, rest, early, late⟩ := ih inner
        refine ⟨first ++ second, last, rest, ?_, ?_⟩
        · simp only [aim, next, resolved, inside, if_true, early]
          rfl
        · rw [List.length_append, ← Nat.sub_sub]
          exact late
      · rw [aim_plain plain] at aimed ⊢
        exact ih aimed

theorem createDirAllRev_ok (names : Location) (after : FileTree)
    (aimed : tree.aim maxLinks [] names.reverse = some (passed, directory))
    (made : tree.createDirAllRev names = (after, .ok ())) :
    after.nodeAt directory = some .dir ∧ Grown tree after directory := by
  induction names generalizing after passed directory with
  | nil =>
      cases aimed
      cases made
      exact ⟨rfl, .refl tree []⟩
  | cons name above ih =>
      rw [createDirAllRev] at made
      split at made
      · rename_i there
        cases made
        rw [isDir, follow_of_aim aimed, decide_eq_true_eq] at there
        split at there
        · cases there
        · exact ⟨there, .refl _ _⟩
      · rw [List.reverse_cons] at aimed made
        obtain ⟨first, mid, more, early, late⟩ := aim_concat aimed
        split at made
        · cases made
        · rename_i between step
          obtain ⟨_, grown⟩ := ih between early step
          split at made
          · rename_i final last
            cases made
            obtain ⟨free, nodes⟩ := mkdir_ok (grown.way early) last
            have absent := grown.absent free
            -- a symlink could not have been made a directory
            rw [aim_plain (noLink_of_absent absent)] at late
            cases late
            refine ⟨by rw [nodes, if_pos rfl], ?_⟩
            intro other
            rw [nodes]
            split
            · rename_i same
              subst same
              exact .inr ⟨absent, rfl, List.prefix_rfl⟩
            · rcases grown other with unchanged | ⟨missing, dir, before⟩
              · exact .inl unchanged
              · exact .inr ⟨missing, dir, before.trans (List.prefix_append _ _)⟩
          · cases made

theorem createDirAll_ok (aimed : tree.aim maxLinks [] path = some (passed, directory))
    (made : tree.createDirAll path = (after, .ok ())) :
    after.nodeAt directory = some .dir ∧ Grown tree after directory := by
  rw [← List.reverse_reverse path] at aimed
  exact createDirAllRev_ok path.reverse after aimed made

theorem write_ok {contents : ByteArray} (found : tree.way path = some (passed, location))
    (written : tree.write path contents = .ok after) :
    tree.nodeAt location ≠ some .dir ∧
      ∃ mode, Changed tree after location (some (.file contents mode)) := by
  obtain ⟨other, mode, placed, leaf, changed⟩ := write_changed written
  have same := eq_of_place found placed
  subst same
  exact ⟨leaf, mode, changed⟩

theorem removeFile_ok (found : tree.way path = some (passed, location))
    (removed : tree.removeFile path = .ok after) :
    tree.nodeAt location ≠ some .dir ∧ Changed tree after location none := by
  obtain ⟨other, placed, _, leaf, changed⟩ := removeFile_changed removed
  have same := eq_of_place found placed
  subst same
  exact ⟨leaf, changed⟩

end Operations

/-- All names in a file system are of a kind. -/
def Called (kind : List Char → Prop) (tree : FileTree) : Prop :=
  ∀ location, tree.nodeAt location ≠ none → ∀ name ∈ location, kind name

/-- What every file system promises of the names in it. -/
def Named (tree : FileTree) : Prop := Called UnixPath.Proper tree

/-- No name on the way from a directory is a symlink, the last one included. -/
def Unlinked (tree : FileTree) (here names : Location) : Prop :=
  ∀ front, front ≠ [] → front <+: names →
    ∀ target, tree.nodeAt (here ++ front) ≠ some (.symlink target)

section Unlinked

variable {tree after : FileTree} {here names directory location path : Location}
  {name : List Char} {links : Nat}

theorem Unlinked.tail (unlinked : Unlinked tree here (name :: names)) :
    Unlinked tree (here ++ [name]) names := by
  intro front _ before target
  rw [List.append_assoc]
  apply unlinked (name :: front) (List.cons_ne_nil _ _)
  exact (List.prefix_cons_inj name).mpr before

theorem dir_above (inside : tree.nodeAt directory = some .dir)
    (before : location <+: directory) : tree.nodeAt location = some .dir := by
  obtain ⟨rest, rfl⟩ := before
  by_cases whole : rest = []
  · rw [whole, List.append_nil] at inside
    exact inside
  · exact nodeAt_append (by rw [inside]; exact Option.some_ne_none _) whole

theorem unlinked_of_dir (there : tree.nodeAt (here ++ names) = some .dir) :
    Unlinked tree here names := by
  intro front _ before
  exact noLink_of_dir (dir_above there ((List.prefix_append_right_inj here).mpr before))

theorem Unlinked.concat (unlinked : Unlinked tree here names)
    (plain : ∀ target, tree.nodeAt (here ++ (names ++ [name])) ≠ some (.symlink target)) :
    Unlinked tree here (names ++ [name]) := by
  intro front nonempty before target
  rcases List.prefix_concat_iff.mp before with whole | shorter
  · rw [whole]
    exact plain target
  · exact unlinked front nonempty shorter target

theorem aim_unlinked (unlinked : Unlinked tree here names) :
    tree.aim links here names = some ([], here ++ names) := by
  induction names generalizing here with
  | nil => rw [aim, List.append_nil]
  | cons name rest ih =>
      have plain := unlinked [name] (List.cons_ne_nil _ _) ⟨rest, rfl⟩
      rw [aim_plain plain, ih unlinked.tail, List.append_assoc, List.singleton_append]

theorem resolve_unlinked (start : tree.nodeAt here = some .dir)
    (unlinked : Unlinked tree here names) :
    tree.resolve links here (names.map .normal) =
      if tree.nodeAt (here ++ names) = none then none else some ([], here ++ names) :=
  resolve_of_aim names start (aim_unlinked unlinked)

theorem follow_unlinked (unlinked : Unlinked tree [] path) :
    tree.follow path = if tree.nodeAt path = none then none else some path :=
  follow_of_aim (aim_unlinked unlinked)

theorem follow_dir (inside : tree.nodeAt path = some .dir) : tree.follow path = some path := by
  rw [follow_unlinked (unlinked_of_dir inside), inside, if_neg (by nofun)]

theorem walk_dir (inside : tree.nodeAt (here ++ names) = some .dir) :
    tree.walk here (names.map .normal) = .found (here ++ names) := by
  induction names generalizing here with
  | nil => rw [List.append_nil]; rfl
  | cons name rest ih =>
      have next : tree.nodeAt (here ++ [name]) = some .dir :=
        dir_above inside ⟨rest, by simp⟩
      rw [List.map_cons, walk_normal_dir next, ih (by simpa using inside)]
      simp

theorem place_dir (inside : tree.nodeAt directory = some .dir) :
    tree.place (directory ++ [name]) = some (directory ++ [name]) := by
  rw [place, List.getLast?_concat, List.dropLast_concat, follow_dir inside]
  simp only [inside, if_true]

theorem createDirAll_dir (inside : tree.nodeAt path = some .dir) :
    tree.createDirAll path = (tree, .ok ()) := by
  rcases List.eq_nil_or_concat' path with rfl | ⟨above, name, rfl⟩
  · rfl
  · have there : tree.isDir (above ++ [name]) = true := by
      rw [isDir, follow_dir inside, decide_eq_true_eq]
      exact inside
    simp [createDirAll, createDirAllRev, there]

theorem way_dir (inside : tree.nodeAt directory = some .dir) :
    tree.way (directory ++ [name]) = some ([], directory ++ [name]) :=
  way_eq_some.mpr
    ⟨directory, name, directory, rfl, aim_unlinked (unlinked_of_dir inside), rfl⟩

theorem place_eq_some (placed : tree.place path = some location) :
    ∃ above name directory, path = above ++ [name] ∧ tree.nodeAt directory = some .dir ∧
      location = directory ++ [name] := by
  unfold place at placed
  split at placed
  · rename_i name directory last _
    split at placed
    · rename_i inside
      cases placed
      exact ⟨path.dropLast, name, directory,
        (List.dropLast_append_getLast? name last).symm, inside, rfl⟩
    · cases placed
  · cases placed

theorem Called.place {kind : List Char → Prop} (called : Called kind tree)
    (own : ∀ name ∈ path, kind name) (placed : tree.place path = some location) :
    ∀ name ∈ location, kind name := by
  obtain ⟨above, last, directory, rfl, inside, rfl⟩ := place_eq_some placed
  intro name member
  rcases List.mem_append.mp member with early | late
  · exact called directory (by rw [inside]; nofun) name early
  · exact own name (List.mem_append_right above late)

theorem Called.readDir {kind : List Char → Prop} {names : List (List Char)}
    {path : UnixPath.PathBuf} (called : Called kind tree)
    (listed : tree.readDir path = some names) : ∀ name ∈ names, kind name := by
  obtain ⟨directory, _, listed⟩ := Option.bind_eq_some_iff.mp listed
  split at listed
  · cases listed
    intro name member
    obtain ⟨⟨own, node⟩, child, rfl⟩ := List.mem_map.mp member
    apply called (directory ++ [own])
    · rw [mem_children.mp child]
      nofun
    · simp
  · cases listed

theorem symlinkMetadata_dir (inside : tree.nodeAt directory = some .dir) :
    tree.symlinkMetadata (directory ++ [name]) = tree.nodeAt (directory ++ [name]) := by
  rw [symlinkMetadata, place_dir inside]
  rfl

theorem followPath_root (path : UnixPath.PathBuf) :
    tree.followPath (.rootDir :: path) = tree.followPath path := by
  have same : tree.walk [] (.rootDir :: path) = tree.walk [] path := by rw [walk]
  unfold followPath
  rw [resolve_of_walk_eq same]

end Unlinked

/-- All directories are still there, and all else that is not among the given
locations. -/
structure Spared (touched : Location → Prop) (tree after : FileTree) : Prop where
  dirs : ∀ location, tree.nodeAt location = some .dir → after.nodeAt location = some .dir
  others : ∀ location, ¬ touched location → tree.nodeAt location ≠ none →
    after.nodeAt location = tree.nodeAt location

section Spared

variable {touched : Location → Prop} {tree after : FileTree}
  {here last location : Location} {links : Nat} {passed : List Location}
  {front : UnixPath.PathBuf}

theorem Spared.mono {wider : Location → Prop} (spared : Spared touched tree after)
    (more : ∀ location, touched location → wider location) : Spared wider tree after where
  dirs := spared.dirs
  others := fun location outside => spared.others location fun own => outside (more location own)

theorem Changed.spared {node : Option Node} (changed : Changed tree after location node)
    (leaf : tree.nodeAt location ≠ some .dir) : Spared (· = location) tree after where
  dirs := by
    intro other found
    have differs : other ≠ location := fun same => leaf (same ▸ found)
    rw [changed other, if_neg differs]
    exact found
  others := by
    intro other differs _
    rw [changed other, if_neg differs]

theorem Spared.walk_found (spared : Spared touched tree after)
    (walked : tree.walk here front = .found last) (untouched : ¬ touched last) :
    after.walk here front = .found last := by
  induction front generalizing here with
  | nil => exact walked
  | cons component front ih =>
      cases component with
      | rootDir => exact ih walked
      | curDir => exact ih walked
      | parentDir => exact ih walked
      | normal name =>
          rw [walk] at walked
          split at walked
          · cases walked
          · rename_i next
            rw [walk_normal_dir (spared.dirs _ next)]
            exact ih walked
          · rename_i contents mode next
            split at walked
            · rename_i whole
              cases walked
              have same := spared.others _ untouched (by rw [next]; simp)
              rw [walk, same, next, whole]
              simp
            · cases walked
          · cases walked

theorem Spared.walk_link {target : List Char} {link : Location} {rest : UnixPath.PathBuf}
    (spared : Spared touched tree after) (walked : tree.walk here front = .link link target rest)
    (untouched : ¬ touched link) : after.walk here front = .link link target rest := by
  induction front generalizing here with
  | nil => cases walked
  | cons component front ih =>
      cases component with
      | rootDir => exact ih walked
      | curDir => exact ih walked
      | parentDir => exact ih walked
      | normal name =>
          rcases walk_normal_link walked with ⟨next, further⟩ | ⟨next, own, left⟩
          · rw [walk_normal_dir (spared.dirs _ next)]
            exact ih further
          · rw [own] at untouched
            have same := spared.others _ untouched (by rw [next]; simp)
            rw [walk_normal_symlink (same.trans next), own, left]

/-- A path leads where it did as long as its symlinks and its end are spared. -/
theorem Spared.resolve (spared : Spared touched tree after)
    (resolved : tree.resolve links here front = some (passed, last))
    (end_ : ¬ touched last) (way : ∀ link ∈ passed, ¬ touched link) :
    after.resolve links here front = some (passed, last) := by
  induction passed generalizing links here front with
  | nil => exact resolve_found (spared.walk_found (walk_of_resolve_nil resolved) end_)
  | cons link more ih =>
      obtain ⟨fewer, target, rest, same, walked, inner⟩ := walk_of_resolve_cons resolved
      subst same
      have later := ih inner fun other member => way other (List.mem_cons_of_mem link member)
      rw [resolve_link (spared.walk_link walked (way link List.mem_cons_self)), later]
      rfl

end Spared

end NixRedox.FileTree
