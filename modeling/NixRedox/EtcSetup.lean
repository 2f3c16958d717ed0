import NixRedox.EtcSweep

set_option autoImplicit false

/- What `setup_etc_static` as a whole does to `/etc` and to the store, and when the
farm it leaves is right. -/
namespace NixRedox.Activate

open UnixPath (components absoluteText Proper)
open FileTree (Changed Named)

/-- Each directory of the derivation with something in it is a directory in `/etc` as
well, or can be made there, and `/etc/static` is left to the farm. -/
structure Straight (source : StorePath) (tree : FileTree) : Prop where
  static : ¬ IsFile (sourceNode source tree ["static".toList])
  bare : ∀ name, sourceNode source tree ["static".toList, name] = none
  unbent : Unbent source tree

section Stages

variable {source : StorePath} {tree start linked after : FileTree} {names : Location}

theorem Repointed.outside {target : List Char} (repointed : Repointed target tree start)
    {location : Location} (apart : ¬ etcStaticPath <+: location) :
    start.nodeAt location = tree.nodeAt location := by
  have differs : location ≠ etcStaticPath := by
    rintro rfl
    exact apart List.prefix_rfl
  rw [repointed location, if_neg differs, if_neg apart]

theorem Repointed.store (repointed : Repointed source.toAbsolutePath tree start)
    (names : Location) : start.nodeAt (storeLocation source ++ names) =
      tree.nodeAt (storeLocation source ++ names) := by
  apply repointed.outside
  intro front
  exact storeLocation_apart source names ((show etcPath <+: etcStaticPath by decide).trans front)

theorem Repointed.standing (repointed : Repointed source.toAbsolutePath tree start)
    (inside : tree.nodeAt etcPath = some .dir) (stored : Stored source tree) :
    Standing source start where
  etc := (repointed.outside (by decide)).trans inside
  static := by rw [repointed, if_pos rfl]
  stored := stored.congr repointed.store

theorem static_front (front : etcStaticPath <+: etcPath ++ names) :
    ∃ rest, names = "static".toList :: rest := by
  obtain ⟨rest, same⟩ := front
  exact ⟨rest, (List.cons.inj same).2.symm⟩

/-- Without directories below the `etc` of the source there is none to bend. -/
theorem Straight.of_flat (static : sourceNode source tree ["static".toList] = none)
    (flat : ∀ location, tree.nodeAt location = some .dir →
      storeLocation source ++ etcPath <+: location → location = storeLocation source ++ etcPath) :
    Straight source tree where
  static := fun file => file.ne_none static
  bare := by
    intro name
    by_contra there
    exact sourceNode_front (show sourceNode source tree (["static".toList] ++ [name]) ≠ none from
      there) static
  unbent := by
    intro names name below there
    have directory := sourceNode_dir there (List.cons_ne_nil _ _)
    rw [sourceNode, ← List.append_assoc] at directory
    have same := flat _ directory (List.prefix_append _ _)
    exact absurd (List.append_right_eq_self.mp same) below

theorem Straight.repointed (straight : Straight source tree)
    (repointed : Repointed source.toAbsolutePath tree start) : Straight source start where
  static := by
    rw [sourceNode, repointed.store]
    exact straight.static
  bare := fun name => (repointed.store _).trans (straight.bare name)
  unbent := by
    intro names name below there target
    rw [sourceNode, repointed.store] at there
    rw [repointed.outside]
    · exact straight.unbent names name below there target
    · intro front
      obtain ⟨rest, rfl⟩ := static_front front
      -- what is in `static` has a first name in it
      obtain ⟨head, more, split⟩ := List.exists_cons_of_ne_nil (List.concat_ne_nil name rest)
      have inside : sourceNode source tree (["static".toList, head] ++ more) ≠ none := by
        rw [List.cons_append, List.singleton_append, ← split]
        exact there
      exact sourceNode_front inside (straight.bare head)

/-- The walk over the derivation links all its files. -/
theorem Standing.create (standing : Standing source start) (straight : Straight source start)
    (walked : (if start.isDirPath (components source.toAbsolutePath ++ etcPath.map .normal) then
        createEtcSymlinks (depthBound start) (components source.toAbsolutePath ++
          etcPath.map .normal) etcPath (etcStaticPath ++ etcPath) start
      else (start, .ok ())) = (linked, .ok ())) :
    Made source start linked ∧ ∀ names, names ≠ [] → IsFile (sourceNode source start names) →
      Linked names linked := by
  have path : components source.toAbsolutePath ++ etcPath.map .normal =
      .rootDir :: (storeLocation source ++ (etcPath ++ [])).map .normal := by
    rw [components_source, List.map_append]
    rfl
  rw [path] at walked
  split at walked
  · exact createEtcSymlinks_made standing.stored straight.unbent standing.etc walked
  · rename_i noDir
    cases walked
    refine ⟨.refl source start, ?_⟩
    intro names below file
    have root : sourceNode source start [] = some .dir :=
      sourceNode_dir (show sourceNode source start ([] ++ names) ≠ none from file.ne_none) below
    exact absurd ((standing.stored.isDirPath []).mpr root) noDir

theorem Made.standing (made : Made source start linked) (straight : Straight source start)
    (standing : Standing source start) : Standing source linked where
  etc := made.dirs standing.etc
  static := by
    rcases made etcStaticPath with same | ⟨own, equal, ⟨_, free, _⟩ | ⟨file, _⟩⟩
    · exact same.trans standing.static
    · rw [standing.static] at free
      cases free
    · cases equal
      exact absurd file straight.static
  stored := made.stored standing.stored

/-- What a setup does that goes well: `/etc/static` is pointed at the derivation, all
its files are linked, and the links for which it has nothing go. -/
structure Stages (source : StorePath) (tree start linked after : FileTree) : Prop where
  repointed : Repointed source.toAbsolutePath tree start
  made : Made source start linked
  files : ∀ names, names ≠ [] → IsFile (sourceNode source tree names) → Linked names linked
  standing : Standing source linked
  swept : Swept source linked after
  tidy : ∀ name, Tidy source [] name after

theorem setupEtcStatic_stages (inside : tree.nodeAt etcPath = some .dir)
    (stored : Stored source tree) (straight : Straight source tree)
    (ran : setupEtcStatic source.toAbsolutePath tree = (after, .ok ())) :
    ∃ start linked, Stages source tree start linked after := by
  obtain ⟨start, linked, repointed, walked, swept⟩ := setupEtcStatic_ok inside ran
  have standing := repointed.standing inside stored
  obtain ⟨made, files⟩ := standing.create (straight.repointed repointed) walked
  have later := made.standing (straight.repointed repointed) standing
  obtain ⟨swept, tidy⟩ := cleanStaleEtcSymlinks_swept later (List.not_mem_nil) later.etc swept
  refine ⟨start, linked, repointed, made, ?_, later, swept, tidy⟩
  intro names below file
  rw [sourceNode, ← repointed.store] at file
  exact files names below file

namespace Stages

variable (stages : Stages source tree start linked after)

include stages

theorem sourceNode_eq (names : Location) :
    sourceNode source linked names = sourceNode source tree names :=
  (stages.made.sourceNode_eq names).trans (stages.repointed.store _)

/-- The derivation is left alone. -/
theorem store (names : Location) :
    after.nodeAt (storeLocation source ++ names) = tree.nodeAt (storeLocation source ++ names) := by
  have apart := storeLocation_apart source names
  rw [stages.swept.outside apart, stages.made.outside apart, stages.repointed.store]

/-- A file keeps its link. -/
theorem link {target : List Char} (found : linked.nodeAt (etcPath ++ names) = some (.symlink target))
    (farmed : Farmed names target) (file : IsFile (sourceNode source tree names)) :
    after.nodeAt (etcPath ++ names) = some (.symlink target) := by
  rcases stages.swept (etcPath ++ names) with same | ⟨_, _, _, ⟨other, present, _, nothing⟩, _⟩
  · exact same.trans found
  · rw [found] at present
    cases present
    have absent := nothing names farmed
    rw [stages.sourceNode_eq] at absent
    exact absurd absent file.ne_none

/-- A file is read at its place in `/etc`. -/
theorem reachable (proper : ∀ name ∈ names, Proper name) (below : names ≠ [])
    {contents : ByteArray} {mode : Nat}
    (file : sourceNode source tree names = some (.file contents mode)) :
    after.read (etcPath ++ names) = some contents := by
  obtain ⟨target, found, leads⟩ := stages.files names below ⟨contents, mode, file⟩
  have farmed : Farmed names target := leads.trans (farmed_absoluteText proper)
  apply (stages.swept.standing stages.standing).read below
    (stages.link found farmed ⟨contents, mode, file⟩) farmed
  rw [stages.swept.sourceNode_eq, stages.sourceNode_eq]
  exact file

end Stages

end Stages

/-- What the setup is for. -/
structure FarmCorrect (source : StorePath) (tree after : FileTree) : Prop where
  unchanged : ∀ names, after.nodeAt (storeLocation source ++ names) =
    tree.nodeAt (storeLocation source ++ names)
  reachable : ∀ names contents mode, names ≠ [] →
    sourceNode source tree names = some (.file contents mode) →
      after.read (etcPath ++ names) = some contents
  resolves : ∀ names target, after.nodeAt (etcPath ++ names) = some (.symlink target) →
    staticLead <+: target → ∃ own,
      after.followPath (components target) = some (storeLocation source ++ own) ∧
        IsFile (tree.nodeAt (storeLocation source ++ own))

/-- `/etc` is as a setup left it that started without links into `/etc/static`. -/
def Produced (source : StorePath) (tree : FileTree) : Prop :=
  ∃ first, Fresh first ∧ Named first ∧ ∀ names,
    tree.nodeAt (etcPath ++ names) =
      (setupEtcStatic source.toAbsolutePath first).1.nodeAt (etcPath ++ names)

/-- Each link into `/etc/static` is replaced by that of a file, or leads to a file, or
leads to nothing where the sweep comes by. -/
def LinksSettled (source : StorePath) (tree : FileTree) : Prop :=
  ∀ names target own, tree.nodeAt (etcPath ++ names) = some (.symlink target) →
    ¬ ["static".toList] <+: names → staticLead <+: target → Farmed own target →
      IsFile (sourceNode source tree names) ∨ IsFile (sourceNode source tree own) ∨
        sourceNode source tree own = none ∧ "static".toList ∉ names.dropLast

section Correct

variable {earlier source : StorePath} {tree start linked after : FileTree} {names : Location}
  {target : List Char}

theorem Produced.onlyFarmed (produced : Produced earlier tree) : OnlyFarmed tree := by
  obtain ⟨first, fresh, named, same⟩ := produced
  have only := @setupEtcStatic_onlyFarmed earlier first fresh named
  constructor
  · exact (same []).trans only.etc
  · intro names target found
    rw [same] at found
    exact only.links names target found

theorem sourceNode_proper (named : Named tree) (there : sourceNode source tree names ≠ none) :
    ∀ name ∈ names, Proper name := by
  intro name member
  apply named _ there name
  simp [member]

/-- The links into `/etc/static` after the walk: those of the files, and those that were
there before. -/
theorem Stages.linked_cases (stages : Stages source tree start linked after) (named : Named tree)
    (found : linked.nodeAt (etcPath ++ names) = some (.symlink target))
    (lead : staticLead <+: target) :
    IsFile (sourceNode source tree names) ∧ Farmed names target ∨
      ¬ ["static".toList] <+: names ∧
        tree.nodeAt (etcPath ++ names) = some (.symlink target) := by
  rcases stages.made (etcPath ++ names) with same | ⟨own, equal, ⟨_, _, inside⟩ | ⟨file, _, link⟩⟩
  · rw [same, stages.repointed] at found
    split at found
    · cases found
      exact absurd lead (source_not_lead source)
    · split at found
      · cases found
      · rename_i apart
        refine .inr ⟨?_, found⟩
        rintro ⟨rest, rfl⟩
        exact apart ⟨rest, rfl⟩
  · rw [inside] at found
    cases found
  · cases equal
    obtain ⟨other, present, leads⟩ := link
    rw [found] at present
    cases present
    have own : IsFile (sourceNode source tree names) := by
      rw [sourceNode, stages.repointed.store] at file
      exact file
    exact .inl ⟨own, leads.trans (farmed_absoluteText (sourceNode_proper named own.ne_none))⟩

/-- A link that was there before and is not replaced is still there after the walk. -/
theorem Stages.kept (stages : Stages source tree start linked after)
    (found : tree.nodeAt (etcPath ++ names) = some (.symlink target))
    (apart : ¬ ["static".toList] <+: names) (other : ¬ IsFile (sourceNode source tree names)) :
    linked.nodeAt (etcPath ++ names) = some (.symlink target) := by
  have outside : ¬ etcStaticPath <+: etcPath ++ names := by
    intro front
    obtain ⟨rest, rfl⟩ := static_front front
    exact apart ⟨rest, rfl⟩
  have same := stages.repointed.outside outside
  rcases stages.made (etcPath ++ names) with still | ⟨own, equal, ⟨_, free, _⟩ | ⟨file, _, _⟩⟩
  · rw [still, same]
    exact found
  · rw [same, found] at free
    cases free
  · cases equal
    rw [sourceNode, stages.repointed.store] at file
    exact absurd file other

theorem Stages.resolves (stages : Stages source tree start linked after) (named : Named tree)
    (only : OnlyFarmed tree) (settled : LinksSettled source tree)
    (found : after.nodeAt (etcPath ++ names) = some (.symlink target))
    (lead : staticLead <+: target) :
    ∃ own, Farmed own target ∧ IsFile (sourceNode source tree own) := by
  have there : after.nodeAt (etcPath ++ names) ≠ none := by simp [found]
  have before := (stages.swept.nodeAt_eq there).symm.trans found
  have below : names ≠ [] := by
    rintro rfl
    have inside : linked.nodeAt (etcPath ++ []) = some .dir := stages.standing.etc
    rw [inside] at before
    cases before
  rcases stages.linked_cases named before lead with ⟨file, farmed⟩ | ⟨apart, earlier⟩
  · exact ⟨names, farmed, file⟩
  · obtain ⟨own, farmed⟩ := only.links names target earlier lead
    by_cases leads : IsFile (sourceNode source tree own)
    · exact ⟨own, farmed, leads⟩
    · rcases settled names target own earlier apart lead farmed with file | file | ⟨nothing, reached⟩
      · -- the link has been replaced by that of the file
        obtain ⟨other, present, fresh⟩ := stages.files names below file
        rw [before] at present
        cases present
        have proper := sourceNode_proper named file.ne_none
        exact ⟨names, fresh.trans (farmed_absoluteText proper), file⟩
      · exact absurd file leads
      · -- the sweep has come by and would have taken it away
        cases names with
        | nil => exact absurd rfl below
        | cons name rest =>
            have gone := stages.tidy name rest reached
            refine absurd ⟨target, own, found, lead, farmed, ?_⟩ gone
            rw [stages.swept.sourceNode_eq, stages.sourceNode_eq]
            exact nothing

theorem Stages.settled (stages : Stages source tree start linked after)
    (correct : FarmCorrect source tree after) : LinksSettled source tree := by
  intro names target own found apart lead farmed
  by_cases file : IsFile (sourceNode source tree names)
  · exact .inl file
  · have before := stages.kept found apart file
    have later := stages.swept.standing stages.standing
    -- a link that is still there leads to a file
    have kept (still : after.nodeAt (etcPath ++ names) = some (.symlink target)) :
        IsFile (sourceNode source tree own) := by
      obtain ⟨place, followed, isFile⟩ := correct.resolves names target still lead
      rw [later.followPath farmed] at followed
      split at followed
      · cases followed
      · have same := List.append_cancel_left (Option.some.inj followed)
        rw [sourceNode, same]
        exact isFile
    rcases stages.swept (etcPath ++ names) with same | ⟨place, equal, reached, loose, _⟩
    · exact .inr (.inl (kept (same.trans before)))
    · cases equal
      obtain ⟨other, present, _, nothing⟩ := loose
      rw [before] at present
      cases present
      have absent := nothing own farmed
      rw [stages.sourceNode_eq] at absent
      exact .inr (.inr ⟨absent, reached⟩)

end Correct

section Trees

variable {source : StorePath} {tree : FileTree}

theorem plain_of_entries {front : Location} (below : front ≠ [])
    (plain : ∀ entry ∈ tree.nodes.entries, front <+: entry.1 → entry.2.isSymlink = false)
    (names : Location) (target : List Char) :
    tree.nodeAt (front ++ names) ≠ some (.symlink target) := by
  intro found
  rcases FileTree.nodeAt_eq_some.mp found with ⟨root, _⟩ | listed
  · exact below (List.append_eq_nil_iff.mp root).1
  · exact absurd (plain _ listed (List.prefix_append _ _)) (by simp [Node.isSymlink])

theorem stored_of_entries (present : tree.nodeAt (storeLocation source) ≠ none)
    (plain : ∀ entry ∈ tree.nodes.entries,
      storeLocation source <+: entry.1 → entry.2.isSymlink = false) : Stored source tree where
  present := present
  plain := plain_of_entries (List.cons_ne_nil _ _) plain

end Trees

def newEtc : StorePath where
  digest := "22222222222222222222222222222222".toList
  name := "etc".toList
  digestLength := by decide
  digestChars := by decide
  named := by decide
  nameChars := by decide

end NixRedox.Activate
