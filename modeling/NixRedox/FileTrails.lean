import NixRedox.FileDeeds

set_option autoImplicit false

/- What a path that led to a file leads to after a run of writes and removals: it depends
on the first place it passes at which something was done. -/
namespace NixRedox.FileTree

/-- The symlinks that a path passes and where it leads, each with whether nothing of the
path is left there. -/
def trail (tree : FileTree) : Nat → Location → UnixPath.PathBuf → Option (List (Location × Bool))
  | links, here, path =>
      match tree.walk here path with
      | .found location => some [(location, true)]
      | .missing => none
      | .link link target rest =>
          match links with
          | 0 => none
          | links + 1 =>
              (trail tree links link.dropLast (UnixPath.components target ++ rest)).map
                ((link, rest.isEmpty) :: ·)

/-- A path leads to a file whose contents are as they should be. -/
def LeadsTo (tree : FileTree) (links : Nat) (here : Location) (path : UnixPath.PathBuf)
    (right : ByteArray → Prop) : Prop :=
  ∃ passed location contents mode, tree.resolve links here path = some (passed, location) ∧
    tree.nodeAt location = some (.file contents mode) ∧ right contents

/-- The first place of a trail at which something is done is the end of the path, and the
last that is done there is to put the right contents. -/
def Rests (deeds : List Deed) (right : ByteArray → Prop) (stops : List (Location × Bool)) : Prop :=
  ∀ place ended, stops.find? (fun stop => Touched deeds stop.1) = some (place, ended) →
    ended = true ∧ ∃ contents set, lastDeed deeds place = some (some (contents, set)) ∧
      right contents

section Trail

variable {tree after : FileTree} {here last link : Location} {links : Nat}
  {path rest : UnixPath.PathBuf} {passed : List Location} {stops : List (Location × Bool)}
  {deeds : List Deed} {right : ByteArray → Prop}

theorem trail_fst (route : tree.trail links here path = some stops)
    (resolved : tree.resolve links here path = some (passed, last)) :
    stops.map Prod.fst = passed ++ [last] := by
  induction passed generalizing links here path stops with
  | nil =>
      rw [trail, walk_of_resolve_nil resolved] at route
      cases route
      rfl
  | cons first passed ih =>
      obtain ⟨fewer, target, rest, same, walked, inner⟩ := walk_of_resolve_cons resolved
      subst same
      rw [trail, walked] at route
      obtain ⟨others, further, same⟩ := Option.map_eq_some_iff.mp route
      subst same
      rw [List.map_cons, ih further inner]
      rfl

/-- A path that is cut at a symlink does not come to rest. -/
theorem not_rests_of_cut {location : Location} (cut : ∃ link ∈ passed, Touched deeds link) :
    ¬ Rests deeds right (passed.map (·, false) ++ [(location, true)]) := by
  intro rests
  obtain ⟨link, member, done⟩ := cut
  have first : ((passed.map (·, false)).find? fun stop => decide (Touched deeds stop.1)).isSome :=
    List.find?_isSome.mpr ⟨(link, false), List.mem_map_of_mem member, by simpa using done⟩
  obtain ⟨⟨place, ended⟩, stopped⟩ := Option.isSome_iff_exists.mp first
  obtain ⟨other, _, same⟩ := List.mem_map.mp (List.mem_of_find?_eq_some stopped)
  cases same
  have whole := rests _ false (by rw [List.find?_append, stopped]; rfl)
  cases whole.1

/-- One whose symlinks stay rests on what was done last at its end. -/
theorem rests_iff_lastDeed {location : Location} (kept : ∀ link ∈ passed, ¬ Touched deeds link)
    (touched : Touched deeds location) :
    Rests deeds right (passed.map (·, false) ++ [(location, true)]) ↔
      ∃ contents set, lastDeed deeds location = some (some (contents, set)) ∧ right contents := by
  have stop : (passed.map (·, false) ++ [(location, true)]).find?
      (fun stop => decide (Touched deeds stop.1)) = some (location, true) := by
    rw [List.find?_append, List.find?_eq_none.mpr]
    · simp [touched]
    · rintro ⟨link, ended⟩ member
      obtain ⟨other, listed, same⟩ := List.mem_map.mp member
      cases same
      simpa using kept link listed
  unfold Rests
  rw [stop]
  constructor
  · intro each
    exact (each location true rfl).2
  · intro last place ended same
    cases same
    exact ⟨rfl, last⟩

theorem trail_isSome (resolved : tree.resolve links here path = some (passed, last)) :
    ∃ stops, tree.trail links here path = some stops := by
  induction passed generalizing links here path with
  | nil =>
      rw [trail, walk_of_resolve_nil resolved]
      exact ⟨_, rfl⟩
  | cons first passed ih =>
      obtain ⟨fewer, target, rest, same, walked, inner⟩ := walk_of_resolve_cons resolved
      subst same
      obtain ⟨others, further⟩ := ih inner
      rw [trail, walked]
      dsimp only
      rw [further]
      exact ⟨_, rfl⟩

/-- Where something of the path is left, the path goes on from a symlink. -/
theorem trail_goes_on (route : tree.trail links here path = some stops)
    (resolved : tree.resolve links here path = some (passed, last))
    (member : (link, false) ∈ stops) :
    ∃ fewer target rest more, rest ≠ [] ∧ tree.nodeAt link = some (.symlink target) ∧
      tree.resolve fewer link.dropLast (UnixPath.components target ++ rest) = some (more, last) := by
  induction passed generalizing links here path stops with
  | nil =>
      rw [trail, walk_of_resolve_nil resolved] at route
      cases route
      simp at member
  | cons first passed ih =>
      obtain ⟨fewer, target, rest, same, walked, inner⟩ := walk_of_resolve_cons resolved
      subst same
      rw [trail, walked] at route
      obtain ⟨others, further, same⟩ := Option.map_eq_some_iff.mp route
      subst same
      rcases List.mem_cons.mp member with own | tail
      · rw [Prod.mk.injEq] at own
        obtain ⟨rfl, ended⟩ := own
        refine ⟨fewer, target, rest, passed, ?_, nodeAt_of_walk_link walked, inner⟩
        rintro rfl
        cases ended
      · exact ih further inner tail

/-- A path runs into a symlink, or a file at its end, from a directory. -/
theorem walk_link_split {target : List Char} (start : tree.nodeAt here = some .dir)
    (walked : tree.walk here path = .link link target rest) :
    ∃ front mid name, path = front ++ .normal name :: rest ∧ tree.walk here front = .found mid ∧
      tree.nodeAt mid = some .dir ∧ link = mid ++ [name] := by
  induction path generalizing here with
  | nil => cases walked
  | cons component path ih =>
      cases component with
      | rootDir =>
          obtain ⟨front, mid, name, rfl, early, inside, own⟩ := ih (nodeAt_nil tree) walked
          exact ⟨.rootDir :: front, mid, name, rfl, early, inside, own⟩
      | curDir =>
          obtain ⟨front, mid, name, rfl, early, inside, own⟩ := ih start walked
          exact ⟨.curDir :: front, mid, name, rfl, early, inside, own⟩
      | parentDir =>
          have above : tree.nodeAt here.dropLast = some .dir :=
            nodeAt_dropLast (by rw [start]; nofun)
          obtain ⟨front, mid, name, rfl, early, inside, own⟩ := ih above walked
          exact ⟨.parentDir :: front, mid, name, rfl, early, inside, own⟩
      | normal name =>
          rcases walk_normal_link walked with ⟨next, further⟩ | ⟨next, own, left⟩
          · obtain ⟨front, mid, other, rfl, early, inside, own⟩ := ih next further
            refine ⟨.normal name :: front, mid, other, rfl, ?_, inside, own⟩
            rw [walk_normal_dir next]
            exact early
          · exact ⟨[], here, name, by rw [left]; rfl, rfl, start, own⟩

theorem walk_file_split {contents : ByteArray} {mode : Nat} (start : tree.nodeAt here = some .dir)
    (walked : tree.walk here path = .found last)
    (file : tree.nodeAt last = some (.file contents mode)) :
    ∃ front mid name, path = front ++ [.normal name] ∧ tree.walk here front = .found mid ∧
      tree.nodeAt mid = some .dir ∧ last = mid ++ [name] := by
  induction path generalizing here with
  | nil =>
      cases walked
      rw [start] at file
      cases file
  | cons component path ih =>
      cases component with
      | rootDir =>
          obtain ⟨front, mid, name, rfl, early, inside, own⟩ := ih (nodeAt_nil tree) walked
          exact ⟨.rootDir :: front, mid, name, rfl, early, inside, own⟩
      | curDir =>
          obtain ⟨front, mid, name, rfl, early, inside, own⟩ := ih start walked
          exact ⟨.curDir :: front, mid, name, rfl, early, inside, own⟩
      | parentDir =>
          have above : tree.nodeAt here.dropLast = some .dir :=
            nodeAt_dropLast (by rw [start]; nofun)
          obtain ⟨front, mid, name, rfl, early, inside, own⟩ := ih above walked
          exact ⟨.parentDir :: front, mid, name, rfl, early, inside, own⟩
      | normal name =>
          rw [walk] at walked
          split at walked
          · cases walked
          · rename_i next
            obtain ⟨front, mid, other, rfl, early, inside, own⟩ := ih next walked
            refine ⟨.normal name :: front, mid, other, rfl, ?_, inside, own⟩
            rw [walk_normal_dir next]
            exact early
          · split at walked
            · rename_i whole
              cases walked
              exact ⟨[], here, name, by rw [whole]; rfl, rfl, start, rfl⟩
            · cases walked
          · cases walked

/-- After a run a path gets as far as the first place at which something was done. -/
theorem Carried.walk_far {free : Location → Prop} {front : UnixPath.PathBuf} {mid : Location}
    {name : List Char} (carried : Carried free tree after) (early : tree.walk here front = .found mid)
    (inside : tree.nodeAt mid = some .dir) :
    after.walk here (front ++ .normal name :: rest) = after.walk mid (.normal name :: rest) :=
  walk_append (carried.walk_found early inside) (carried.dirs mid inside)

/-- What a path finds that runs into a place where something was done. -/
theorem Ran.leadsTo_stop {mid : Location} {name : List Char} (run : Ran tree deeds after)
    (touched : Touched deeds (mid ++ [name]))
    (blocked : rest ≠ [] → after.nodeAt (mid ++ [name]) ≠ some .dir) :
    LeadsTo after links mid (.normal name :: rest) right ↔ rest = [] ∧ ∃ contents set,
      lastDeed deeds (mid ++ [name]) = some (some (contents, set)) ∧ right contents := by
  obtain ⟨put, last⟩ := Option.ne_none_iff_exists'.mp touched
  unfold LeadsTo
  rw [last]
  cases put with
  | some wrote =>
      obtain ⟨contents, set⟩ := wrote
      obtain ⟨mode, _, there⟩ := run.put last
      by_cases whole : rest = []
      · subst whole
        rw [resolve_found (by rw [walk, there]; rfl)]
        simp [there]
      · rw [resolve_missing (by rw [walk, there]; exact if_neg whole)]
        simp [whole]
  | none =>
      rcases run.taken last with absent | ⟨made, _⟩
      · rw [resolve_missing (by rw [walk, absent])]
        simp
      · by_cases whole : rest = []
        · subst whole
          rw [resolve_found (by rw [walk_normal_dir made]; rfl)]
          simp [made]
        · exact absurd made (blocked whole)

/-- **A path that led to a file leads to the right contents after a run** exactly if the
first place it passes at which something was done is its end and was given them last, or
nothing was done on its way and the file has them. -/
theorem Ran.leadsTo_iff {contents : ByteArray} {mode : Nat} (run : Ran tree deeds after)
    (start : tree.nodeAt here = some .dir) (route : tree.trail links here path = some stops)
    (resolved : tree.resolve links here path = some (passed, last))
    (file : tree.nodeAt last = some (.file contents mode))
    (kept : (∀ stop ∈ stops, ¬ Touched deeds stop.1) → right contents)
    (blocked : ∀ place, (place, false) ∈ stops → Touched deeds place →
      after.nodeAt place ≠ some .dir) :
    LeadsTo after links here path right ↔ Rests deeds right stops := by
  have carried := run.evolved.toCarried
  induction passed generalizing links here path stops with
  | nil =>
      have walked := walk_of_resolve_nil resolved
      rw [trail, walked] at route
      cases route
      obtain ⟨front, mid, name, rfl, early, inside, rfl⟩ := walk_file_split start walked file
      have far : LeadsTo after links here (front ++ [.normal name]) right ↔
          LeadsTo after links mid [.normal name] right := by
        unfold LeadsTo
        rw [resolve_of_walk_eq (carried.walk_far early inside)]
      rw [far]
      by_cases touched : Touched deeds (mid ++ [name])
      · rw [run.leadsTo_stop touched (fun impossible => absurd rfl impossible)]
        simp [Rests, touched]
      · have there := run.keeps (untouched_iff.mp touched) file
        have own : right contents := kept (by simpa using touched)
        unfold LeadsTo
        rw [resolve_found (by rw [walk, there]; rfl)]
        simp [Rests, touched, there, own]
  | cons first passed ih =>
      obtain ⟨fewer, target, rest, same, walked, inner⟩ := walk_of_resolve_cons resolved
      subst same
      have next := nodeAt_of_walk_link walked
      rw [trail, walked] at route
      obtain ⟨others, further, same⟩ := Option.map_eq_some_iff.mp route
      subst same
      by_cases touched : Touched deeds first
      · obtain ⟨front, mid, name, rfl, early, inside, rfl⟩ := walk_link_split start walked
        have far : LeadsTo after (fewer + 1) here (front ++ .normal name :: rest) right ↔
            LeadsTo after (fewer + 1) mid (.normal name :: rest) right := by
          unfold LeadsTo
          rw [resolve_of_walk_eq (carried.walk_far early inside)]
        rw [far, run.leadsTo_stop touched]
        · cases rest with
          | nil => simp [Rests, touched]
          | cons component rest => simp [Rests, touched]
        · intro deeper
          refine blocked _ ?_ touched
          cases rest with
          | nil => exact absurd rfl deeper
          | cons component rest => exact List.mem_cons_self
      · have step : LeadsTo after (fewer + 1) here path right ↔
            LeadsTo after fewer first.dropLast (UnixPath.components target ++ rest) right := by
          unfold LeadsTo
          rw [resolve_link (carried.walk_link walked touched)]
          constructor
          · rintro ⟨_, location, bytes, bits, reached, there, own⟩
            obtain ⟨⟨more, end_⟩, deeper, same⟩ := Option.map_eq_some_iff.mp reached
            cases same
            exact ⟨more, location, bytes, bits, deeper, there, own⟩
          · rintro ⟨more, location, bytes, bits, deeper, there, own⟩
            exact ⟨first :: more, location, bytes, bits, by rw [deeper]; rfl, there, own⟩
        refine step.trans ((ih (dir_of_link next) further inner ?_ ?_).trans ?_)
        · intro untouched
          exact kept (List.forall_mem_cons.mpr ⟨touched, untouched⟩)
        · exact fun place member => blocked place (List.mem_cons_of_mem _ member)
        · simp only [Rests, List.find?_cons, touched, decide_false]

/-- A path to a directory is cut where a symlink on it became a file or went. -/
theorem Carried.resolve_cut {free : Location → Prop} {frame : FileTree}
    (carried : Carried free frame after) (start : frame.nodeAt here = some .dir)
    (resolved : frame.resolve links here path = some (passed, last))
    (cut : ∃ link ∈ passed, free link)
    (solid : ∀ link ∈ passed, free link → after.nodeAt link ≠ some .dir ∧
      ∀ target, after.nodeAt link ≠ some (.symlink target))
    (others : List Location) (reached : Location)
    (again : after.resolve links here path = some (others, reached)) :
    after.nodeAt reached ≠ some .dir := by
  induction passed generalizing links here path others with
  | nil =>
      obtain ⟨link, member, _⟩ := cut
      cases member
  | cons first passed ih =>
      obtain ⟨fewer, target, rest, same, walked, inner⟩ := walk_of_resolve_cons resolved
      subst same
      by_cases touched : free first
      · obtain ⟨front, mid, name, rfl, early, inside, rfl⟩ := walk_link_split start walked
        obtain ⟨plain, unlinked⟩ := solid _ List.mem_cons_self touched
        rw [resolve_of_walk_eq (carried.walk_far early inside)] at again
        cases there : after.nodeAt (mid ++ [name]) with
        | none =>
            rw [resolve_missing (by rw [walk, there])] at again
            cases again
        | some node =>
            cases node with
            | dir => exact absurd there plain
            | symlink target => exact absurd there (unlinked target)
            | file contents mode =>
                by_cases whole : rest = []
                · subst whole
                  rw [resolve_found (by rw [walk, there]; rfl)] at again
                  cases again
                  rw [there]
                  intro same
                  cases same
                · rw [resolve_missing (by rw [walk, there]; exact if_neg whole)] at again
                  cases again
      · rw [resolve_link (carried.walk_link walked touched)] at again
        obtain ⟨⟨more, end_⟩, deeper, same⟩ := Option.map_eq_some_iff.mp again
        cases same
        refine ih (dir_of_link (nodeAt_of_walk_link walked)) inner ?_ ?_ more deeper
        · obtain ⟨link, member, own⟩ := cut
          rcases List.mem_cons.mp member with rfl | tail
          · exact absurd own touched
          · exact ⟨link, tail, own⟩
        · exact fun link member => solid link (List.mem_cons_of_mem first member)

/-- A path that leads to a file passes the place of its last name, or ends there. -/
theorem resolve_last {above directory : Location} {name : List Char} {early : List Location}
    {contents : ByteArray} {mode : Nat}
    (reached : tree.resolve links here (above.map .normal) = some (early, directory))
    (inside : tree.nodeAt directory = some .dir)
    (resolved : tree.resolve links here ((above ++ [name]).map .normal) = some (passed, last))
    (file : tree.nodeAt last = some (.file contents mode)) :
    directory ++ [name] ∈ passed ++ [last] := by
  rw [List.map_append, List.map_singleton, resolve_append reached inside] at resolved
  obtain ⟨⟨more, own⟩, further, same⟩ := Option.map_eq_some_iff.mp resolved
  cases same
  rcases link_or_plain tree (directory ++ [name]) with ⟨target, next⟩ | plain
  · cases more with
    | nil =>
        have walked := walk_of_resolve_nil further
        rw [walk_normal_symlink next] at walked
        cases walked
    | cons first more =>
        obtain ⟨_, _, _, _, walked, _⟩ := walk_of_resolve_cons further
        rw [walk_normal_symlink next] at walked
        cases walked
        simp
  · have leaf : tree.nodeAt (directory ++ [name]) ≠ some .dir := by
      intro dir
      rw [resolve_found (by rw [walk_normal_dir dir]; rfl)] at further
      cases further
      rw [dir] at file
      cases file
    have ends := @resolve_blocked tree directory name (links - early.length) [] leaf plain
    rw [List.map_singleton, further] at ends
    split at ends
    · cases ends
    · cases ends
      simp

/-- Where a file is missing a path that led to it goes no further. -/
theorem Carried.resolve_gone {free : Location → Prop} {contents : ByteArray} {mode : Nat}
    (carried : Carried free tree after) (start : tree.nodeAt here = some .dir)
    (resolved : tree.resolve links here path = some (passed, last))
    (file : tree.nodeAt last = some (.file contents mode)) (gone : after.nodeAt last = none)
    (kept : ∀ link ∈ passed, ¬ free link) (rest : UnixPath.PathBuf) :
    after.resolve links here (path ++ rest) = none := by
  induction passed generalizing links here path with
  | nil =>
      obtain ⟨front, mid, name, rfl, early, inside, rfl⟩ :=
        walk_file_split start (walk_of_resolve_nil resolved) file
      rw [List.append_assoc, List.singleton_append]
      rw [resolve_of_walk_eq (carried.walk_far early inside)]
      exact resolve_missing (by rw [walk, gone])
  | cons first passed ih =>
      obtain ⟨fewer, target, left, same, walked, inner⟩ := walk_of_resolve_cons resolved
      subst same
      have still := carried.walk_link walked (kept first List.mem_cons_self)
      rw [resolve_link (walk_append_link still), ← List.append_assoc,
        ih (dir_of_link (nodeAt_of_walk_link walked)) inner
          fun link member => kept link (List.mem_cons_of_mem first member)]
      rfl

/-- A way passes its symlinks before it leaves what is there. -/
theorem aim_split {directory : Location} (names : Location) (start : tree.nodeAt here = some .dir)
    (aimed : tree.aim links here names = some (passed, directory)) :
    ∃ front back mid, names = front ++ back ∧
      tree.resolve links here (front.map .normal) = some (passed, mid) ∧
      tree.nodeAt mid = some .dir := by
  induction names generalizing links here passed with
  | nil =>
      cases aimed
      exact ⟨[], [], _, rfl, resolve_found rfl, start⟩
  | cons name names ih =>
      rcases link_or_plain tree (here ++ [name]) with ⟨target, next⟩ | plain
      · obtain ⟨first, mid, more, reached, inside, _, inner, same⟩ := aim_link next aimed
        obtain ⟨front, back, end_, rfl, further, there⟩ := ih inside inner
        refine ⟨name :: front, back, end_, rfl, ?_, there⟩
        rw [List.map_cons, ← List.singleton_append, resolve_append reached inside, further, same]
        rfl
      · rw [aim_plain plain] at aimed
        by_cases next : tree.nodeAt (here ++ [name]) = some .dir
        · obtain ⟨front, back, end_, rfl, further, there⟩ := ih next aimed
          refine ⟨name :: front, back, end_, rfl, ?_, there⟩
          rw [List.map_cons, resolve_of_walk_eq (walk_normal_dir next)]
          exact further
        · rw [aim_below names next] at aimed
          cases aimed
          exact ⟨[], name :: names, here, rfl, resolve_found rfl, start⟩

end Trail

end NixRedox.FileTree
