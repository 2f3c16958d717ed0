import NixRedox.EtcStatic

set_option autoImplicit false

/- What the symlink farm leaves in a file system in any case: directories stay, names
are names, and each new symlink leads to the etc derivation or through `/etc/static`. -/
namespace NixRedox.Activate

open UnixPath (components absoluteText Proper)
open FileTree (Changed Called Named)

theorem forEntries_keeps {related : FileTree → FileTree → Prop}
    {act : List Char → FileTree → Attempt} (same : ∀ tree, related tree tree)
    (chain : ∀ one two three, related one two → related two three → related one three)
    {names : List (List Char)} {tree : FileTree}
    (step : ∀ name ∈ names, ∀ now, related tree now → related now (act name now).1) :
    related tree (forEntries act names tree).1 := by
  induction names generalizing tree with
  | nil => exact same tree
  | cons name rest ih =>
      have first := step name List.mem_cons_self tree (same tree)
      rw [forEntries]
      split
      · rename_i next acted
        rw [acted] at first
        refine chain _ _ _ first (ih ?_)
        intro other member now further
        exact step other (List.mem_cons_of_mem name member) now (chain _ _ _ first further)
      · rename_i next reason acted
        rw [acted] at first
        exact first

/-- What the entries of a finished loop have in common, and what each of them leaves. -/
theorem forEntries_ok {related : FileTree → FileTree → Prop}
    {act : List Char → FileTree → Attempt} {finished : List Char → FileTree → Prop}
    (same : ∀ tree, related tree tree)
    (chain : ∀ one two three, related one two → related two three → related one three)
    (stays : ∀ name now next, related now next → finished name now → finished name next)
    {names : List (List Char)} {tree after : FileTree}
    (step : ∀ name ∈ names, ∀ now next, related tree now → act name now = (next, .ok ()) →
      related now next ∧ finished name next)
    (ran : forEntries act names tree = (after, .ok ())) :
    related tree after ∧ ∀ name ∈ names, finished name after := by
  induction names generalizing tree with
  | nil =>
      cases ran
      exact ⟨same after, by simp⟩
  | cons name rest ih =>
      rw [forEntries] at ran
      split at ran
      · rename_i next acted
        obtain ⟨first, own⟩ := step name List.mem_cons_self tree next (same tree) acted
        have later := ih (fun other member now final further =>
          step other (List.mem_cons_of_mem name member) now final (chain _ _ _ first further)) ran
        refine ⟨chain _ _ _ first later.1, ?_⟩
        intro other member
        rcases List.mem_cons.mp member with rfl | member
        · exact stays other next after later.1 own
        · exact later.2 other member
      · cases ran

/-- One file system after another: directories stay, new names are of a kind, and new
symlinks have allowed targets. -/
structure Tended (kind allowed : List Char → Prop) (tree after : FileTree) : Prop where
  dirs : ∀ location, tree.nodeAt location = some .dir → after.nodeAt location = some .dir
  links : ∀ location target, after.nodeAt location = some (.symlink target) →
    tree.nodeAt location = some (.symlink target) ∨ allowed target
  called : Called kind tree → Called kind after

namespace Tended

variable {kind allowed : List Char → Prop} {tree between after : FileTree} {path location : Location}
  {target : List Char}

theorem refl (kind allowed : List Char → Prop) (tree : FileTree) : Tended kind allowed tree tree where
  dirs := fun _ found => found
  links := fun _ _ found => .inl found
  called := id

theorem trans (first : Tended kind allowed tree between) (second : Tended kind allowed between after) :
    Tended kind allowed tree after where
  dirs := fun location found => second.dirs location (first.dirs location found)
  links := by
    intro location target found
    rcases second.links location target found with earlier | fresh
    · exact first.links location target earlier
    · exact .inr fresh
  called := fun called => second.called (first.called called)

theorem of_changed {node : Option Node} (changed : Changed tree after location node)
    (leaf : tree.nodeAt location ≠ some .dir)
    (placed : node = none ∨ (Called kind tree → ∀ name ∈ location, kind name))
    (leads : ∀ target, node = some (.symlink target) → allowed target) :
    Tended kind allowed tree after where
  dirs := by
    intro other found
    have differs : other ≠ location := fun same => leaf (same ▸ found)
    rw [changed other, if_neg differs]
    exact found
  links := by
    intro other target found
    rw [changed other] at found
    split at found
    · exact .inr (leads target found)
    · exact .inl found
  called := by
    intro called other there
    rw [changed other] at there
    split at there
    · rename_i same
      subst same
      exact placed.resolve_left there called
    · exact called other there

theorem removeFile (removed : tree.removeFile path = .ok after) : Tended kind allowed tree after := by
  obtain ⟨location, _, _, leaf, changed⟩ := FileTree.removeFile_changed removed
  exact of_changed changed leaf (.inl rfl) (by simp)

theorem tryRemoveFile (tree : FileTree) (path : Location) :
    Tended kind allowed tree (tryRemoveFile tree path) := by
  unfold Activate.tryRemoveFile
  cases removed : tree.removeFile path with
  | ok after => exact removeFile removed
  | error reason => exact refl kind allowed tree

theorem mkdir (own : ∀ name ∈ path, kind name) (made : tree.mkdir path = .ok after) :
    Tended kind allowed tree after := by
  obtain ⟨location, placed, free, changed⟩ := FileTree.mkdir_changed made
  exact of_changed changed (by simp [free]) (.inr fun called => called.place own placed) (by simp)

theorem createDirAllRev (names : Location) (own : ∀ name ∈ names, kind name) :
    Tended kind allowed tree (tree.createDirAllRev names).1 := by
  induction names with
  | nil => exact refl kind allowed tree
  | cons name above ih =>
      have higher := ih fun other member => own other (List.mem_cons_of_mem name member)
      rw [FileTree.createDirAllRev]
      split
      · exact refl kind allowed tree
      · split
        · rename_i made reason failed
          rw [failed] at higher
          exact higher
        · rename_i made done
          rw [done] at higher
          split
          · rename_i last created
            refine higher.trans (mkdir ?_ created)
            intro other member
            exact own other (List.mem_reverse.mp member)
          · exact higher

theorem createDirAll (own : ∀ name ∈ path, kind name) :
    Tended kind allowed tree (tree.createDirAll path).1 := by
  apply createDirAllRev
  intro name member
  exact own name (List.mem_reverse.mp member)

theorem placeSymlink (own : ∀ name ∈ path, kind name) (leads : allowed target) :
    Tended kind allowed tree (placeSymlink target path tree).1 := by
  unfold Activate.placeSymlink
  split
  · rename_i after made
    obtain ⟨location, placed, free, changed⟩ := FileTree.symlink_changed made
    refine of_changed changed (by simp [free]) (.inr fun called => called.place own placed) ?_
    intro other same
    cases same
    exact leads
  · exact refl kind allowed tree

theorem linkEtcFile {staticPath : Location} (own : ∀ name ∈ path, kind name)
    (leads : allowed (absoluteText staticPath)) :
    Tended kind allowed tree (linkEtcFile path staticPath tree).1 := by
  unfold Activate.linkEtcFile
  split
  · split
    · exact refl kind allowed tree
    · exact (tryRemoveFile tree path).trans (placeSymlink own leads)
  · split
    · exact (tryRemoveFile tree path).trans (placeSymlink own leads)
    · exact placeSymlink own leads

/-- The walk over a source adds the names of the source to those it starts with. -/
theorem createEtcSymlinks {fuel : Nat} {srcDir : UnixPath.PathBuf} {etcDir staticBase : Location}
    (called : Called kind tree) (own : ∀ name ∈ etcDir, kind name)
    (leads : ∀ names : Location, (∀ name ∈ names, kind name) →
      allowed (absoluteText (staticBase ++ names))) :
    Tended kind allowed tree (createEtcSymlinks fuel srcDir etcDir staticBase tree).1 := by
  induction fuel generalizing srcDir etcDir staticBase tree with
  | zero => exact refl kind allowed tree
  | succ fuel ih =>
      rw [Activate.createEtcSymlinks]
      split
      · exact refl kind allowed tree
      · rename_i names listed
        apply forEntries_keeps (refl kind allowed) fun one two three => trans
        intro name member now tended
        have isKind := called.readDir listed name member
        have deeper : ∀ other ∈ etcDir ++ [name], kind other := by
          intro other inside
          rcases List.mem_append.mp inside with early | last
          · exact own other early
          · rw [List.mem_singleton.mp last]
            exact isKind
        have further : ∀ more : Location, (∀ other ∈ more, kind other) →
            allowed (absoluteText (staticBase ++ [name] ++ more)) := by
          intro more ordinary
          rw [List.append_assoc]
          apply leads
          intro other inside
          rcases List.mem_cons.mp inside with same | inside
          · rw [same]
            exact isKind
          · exact ordinary other inside
        split
        · have made : Tended kind allowed now (now.createDirAll (etcDir ++ [name])).1 :=
            createDirAll deeper
          split
          · rename_i next reason failed
            rw [failed] at made
            exact made
          · rename_i next done
            rw [done] at made
            exact made.trans (ih (made.called (tended.called called)) deeper further)
        · apply linkEtcFile deeper
          have whole := further [] (by simp)
          rw [List.append_nil] at whole
          exact whole

theorem cleanStaleEtcSymlinks {fuel : Nat} {dir : Location} {lead : List Char} :
    Tended kind allowed tree (cleanStaleEtcSymlinks fuel dir lead tree).1 := by
  induction fuel generalizing dir tree with
  | zero => exact refl kind allowed tree
  | succ fuel ih =>
      rw [Activate.cleanStaleEtcSymlinks]
      split
      · exact refl kind allowed tree
      · apply forEntries_keeps (refl kind allowed) fun one two three => trans
        intro name _ now _
        split
        · split
          · exact refl kind allowed now
          · exact ih
        · split
          · unfold cleanStaleLink
            split
            · exact tryRemoveFile now (dir ++ [name])
            · exact refl kind allowed now
          · exact refl kind allowed now

end Tended

/-- Where a store path is. -/
def storeLocation (source : StorePath) : Location :=
  ["nix".toList, "store".toList, source.toText]

theorem components_source (source : StorePath) :
    components source.toAbsolutePath = .rootDir :: (storeLocation source).map .normal :=
  source.components_toAbsolutePath

/-- The target of the link of a file of the etc derivation. -/
def Farmed (names : Location) (target : List Char) : Prop :=
  components target = .rootDir :: (etcStaticPath ++ (etcPath ++ names)).map .normal

theorem Farmed.unique {one two : Location} {target : List Char} (first : Farmed one target)
    (second : Farmed two target) : one = two := by
  have same := first.symm.trans second
  have normal : Function.Injective UnixPath.Component.normal := fun _ _ equal => by cases equal; rfl
  simpa [List.map_inj_right normal] using same

theorem farmed_absoluteText {names : Location} (proper : ∀ name ∈ names, Proper name) :
    Farmed names (absoluteText (etcStaticPath ++ (etcPath ++ names))) := by
  apply UnixPath.components_absoluteText (by simp [etcStaticPath])
  intro name member
  simp only [etcStaticPath, etcPath, List.mem_append, List.mem_cons, List.not_mem_nil,
    or_false] at member
  rcases member with (rfl | rfl) | rfl | member
  · decide
  · decide
  · decide
  · exact proper name member

def staticLead : List Char := "/etc/static/".toList

theorem source_not_lead (source : StorePath) : ¬ staticLead <+: source.toAbsolutePath := by
  rintro ⟨rest, same⟩
  cases same

section Start

variable {tree start after : FileTree} {source : List Char}

/-- Below what is not a directory there is nothing. -/
theorem nodeAt_below {location other : Location} (leaf : tree.nodeAt location ≠ some .dir)
    (front : location <+: other) (differs : other ≠ location) : tree.nodeAt other = none := by
  obtain ⟨rest, rfl⟩ := front
  by_contra there
  apply leaf
  apply FileTree.nodeAt_append there
  rintro rfl
  exact differs (List.append_nil location)

theorem clearEtcStatic_ok (inside : tree.nodeAt etcPath = some .dir)
    (ran : clearEtcStatic tree = .ok after) (location : Location) :
    after.nodeAt location = if etcStaticPath <+: location then none else tree.nodeAt location := by
  have placed : tree.place etcStaticPath = some etcStaticPath := FileTree.place_dir inside
  have metadata : tree.symlinkMetadata etcStaticPath = tree.nodeAt etcStaticPath :=
    FileTree.symlinkMetadata_dir inside
  -- a directory goes with all that is in it, and below anything else there is nothing
  have leaf (plain : tree.nodeAt etcStaticPath ≠ some .dir) (gone : etcStaticPath <+: location)
      (differs : location ≠ etcStaticPath) : tree.nodeAt location = none :=
    nodeAt_below plain gone differs
  unfold clearEtcStatic at ran
  rw [metadata] at ran
  split at ran
  · split at ran
    · rename_i removed
      cases ran
      obtain ⟨own, found, _, plain, changed⟩ := FileTree.removeFile_changed removed
      rw [placed] at found
      cases found
      rw [changed location]
      by_cases same : location = etcStaticPath
      · rw [if_pos same, if_pos (same ▸ List.prefix_rfl)]
      · rw [if_neg same]
        split
        · rename_i front
          exact leaf plain front same
        · rfl
    · obtain ⟨own, found, _, erased⟩ := FileTree.removeDirAll_erased ran
      rw [placed] at found
      cases found
      exact erased location
  · rename_i absent
    cases ran
    rw [Option.isSome_iff_ne_none, not_not] at absent
    split
    · rename_i front
      by_cases same : location = etcStaticPath
      · rw [same]
        exact absent
      · exact leaf (by simp [absent]) front same
    · rfl

/-- The file system in which `/etc/static` leads to the source. -/
def Repointed (source : List Char) (tree start : FileTree) : Prop :=
  ∀ location, start.nodeAt location =
    if location = etcStaticPath then some (.symlink source)
    else if etcStaticPath <+: location then none
    else tree.nodeAt location

theorem placeSymlink_changed {target : List Char} {path : Location}
    (ran : placeSymlink target path tree = (after, .ok ())) :
    ∃ location, tree.place path = some location ∧ tree.nodeAt location = none ∧
      Changed tree after location (some (.symlink target)) := by
  unfold placeSymlink at ran
  split at ran
  · rename_i made
    cases ran
    exact FileTree.symlink_changed made
  · cases ran

theorem repointed {cleared : FileTree} (inside : tree.nodeAt etcPath = some .dir)
    (clearing : clearEtcStatic tree = .ok cleared)
    (linking : placeSymlink source etcStaticPath cleared = (start, .ok ())) :
    Repointed source tree start := by
  have still : cleared.nodeAt etcPath = some .dir := by
    rw [clearEtcStatic_ok inside clearing, if_neg (by decide)]
    exact inside
  have placed : cleared.place etcStaticPath = some etcStaticPath := FileTree.place_dir still
  obtain ⟨own, found, _, changed⟩ := placeSymlink_changed linking
  rw [placed] at found
  cases found
  intro location
  rw [changed location, clearEtcStatic_ok inside clearing]

/-- The three stages of a setup that goes well. -/
theorem setupEtcStatic_ok (inside : tree.nodeAt etcPath = some .dir)
    (ran : setupEtcStatic source tree = (after, .ok ())) :
    ∃ start linked, Repointed source tree start ∧
      (if start.isDirPath (components source ++ etcPath.map .normal) then
          createEtcSymlinks (depthBound start) (components source ++ etcPath.map .normal) etcPath
            (etcStaticPath ++ etcPath) start
        else (start, .ok ())) = (linked, .ok ()) ∧
      cleanStaleEtcSymlinks (depthBound linked) etcPath staticLead linked = (after, .ok ()) := by
  unfold setupEtcStatic at ran
  split at ran
  · cases ran
  · split at ran
    · cases ran
    · rename_i cleared clearing
      split at ran
      · cases ran
      · rename_i start linking
        dsimp only at ran
        split at ran
        · cases ran
        · rename_i linked walked
          exact ⟨start, linked, repointed inside clearing linking, walked, ran⟩

end Start

/-- However a setup ends, it has tended what is left once `/etc/static` is cleared. -/
theorem setupEtcStatic_tended {kind allowed : List Char → Prop} {source : List Char}
    {tree : FileTree} (inside : tree.nodeAt etcPath = some .dir) (called : Called kind tree)
    (own : ∀ name ∈ etcStaticPath, kind name) (points : allowed source)
    (leads : ∀ names : Location, (∀ name ∈ names, kind name) →
      allowed (absoluteText (etcStaticPath ++ (etcPath ++ names)))) :
    (setupEtcStatic source tree).1 = tree ∨ ∃ cleared, clearEtcStatic tree = .ok cleared ∧
      Tended kind allowed cleared (setupEtcStatic source tree).1 := by
  unfold setupEtcStatic
  split
  · exact .inl rfl
  · split
    · exact .inl rfl
    · rename_i cleared clearing
      refine .inr ⟨cleared, clearing, ?_⟩
      have clearedCalled : Called kind cleared := by
        intro location there
        rw [clearEtcStatic_ok inside clearing] at there
        split at there
        · exact absurd rfl there
        · exact called location there
      have linking : Tended kind allowed cleared (placeSymlink source etcStaticPath cleared).1 :=
        .placeSymlink own points
      split
      · rename_i start reason failed
        rw [failed] at linking
        exact linking
      · rename_i start done
        rw [done] at linking
        have walked : Tended kind allowed start (if start.isDirPath (UnixPath.joinComponents
              (components source) (components "etc".toList)) then
            createEtcSymlinks (depthBound start) (UnixPath.joinComponents (components source)
              (components "etc".toList)) etcPath (etcStaticPath ++ etcPath) start
            else (start, .ok ())).1 := by
          split
          · apply Tended.createEtcSymlinks (linking.called clearedCalled)
            · intro name member
              exact own name (List.mem_of_mem_dropLast member)
            · intro names kinds
              rw [List.append_assoc]
              exact leads names kinds
          · exact .refl _ _ start
        dsimp only
        split
        · rename_i linked reason failed
          rw [failed] at walked
          exact linking.trans walked
        · rename_i linked finished
          rw [finished] at walked
          exact (linking.trans walked).trans Tended.cleanStaleEtcSymlinks

/-- An `/etc` without links into `/etc/static`. -/
structure Fresh (tree : FileTree) : Prop where
  etc : tree.nodeAt etcPath = some .dir
  links : ∀ names target, tree.nodeAt (etcPath ++ names) = some (.symlink target) →
    ¬ staticLead <+: target

/-- The links into `/etc/static` are those of some files. -/
structure OnlyFarmed (tree : FileTree) : Prop where
  etc : tree.nodeAt etcPath = some .dir
  links : ∀ names target, tree.nodeAt (etcPath ++ names) = some (.symlink target) →
    staticLead <+: target → ∃ own, Farmed own target

theorem Fresh.onlyFarmed {tree : FileTree} (fresh : Fresh tree) : OnlyFarmed tree where
  etc := fresh.etc
  links := fun names target found lead => absurd lead (fresh.links names target found)

theorem OnlyFarmed.tended {source : StorePath} {tree after : FileTree} (only : OnlyFarmed tree)
    (tended : Tended Proper (fun target => target = source.toAbsolutePath ∨ ∃ own, Farmed own target)
      tree after) : OnlyFarmed after where
  etc := tended.dirs _ only.etc
  links := by
    intro names target found lead
    rcases tended.links _ target found with earlier | rfl | farmed
    · exact only.links names target earlier lead
    · exact absurd lead (source_not_lead source)
    · exact farmed

/-- However a setup ends, it adds no other links into `/etc/static`. -/
theorem setupEtcStatic_onlyFarmed {source : StorePath} {tree : FileTree} (fresh : Fresh tree)
    (named : Named tree) : OnlyFarmed (setupEtcStatic source.toAbsolutePath tree).1 := by
  have only := fresh.onlyFarmed
  have result := @setupEtcStatic_tended Proper
    (fun target => target = source.toAbsolutePath ∨ ∃ own, Farmed own target)
    source.toAbsolutePath tree fresh.etc named (by decide) (.inl rfl)
    fun names proper => .inr ⟨names, farmed_absoluteText proper⟩
  rcases result with same | ⟨cleared, clearing, tended⟩
  · rw [same]
    exact only
  · have nodes := clearEtcStatic_ok fresh.etc clearing
    refine OnlyFarmed.tended ⟨?_, ?_⟩ tended
    · rw [nodes, if_neg (by decide)]
      exact fresh.etc
    · intro names target found
      rw [nodes] at found
      split at found
      · cases found
      · exact only.links names target found

/-- However a setup ends, the other directories stay. -/
theorem setupEtcStatic_dirs {source : List Char} {tree : FileTree}
    (inside : tree.nodeAt etcPath = some .dir) {location : Location}
    (directory : tree.nodeAt location = some .dir) (apart : ¬ etcStaticPath <+: location) :
    (setupEtcStatic source tree).1.nodeAt location = some .dir := by
  have result := @setupEtcStatic_tended (fun _ => True) (fun _ => True) source tree inside
    (fun _ _ _ _ => trivial) (fun _ _ => trivial) trivial (fun _ _ => trivial)
  rcases result with same | ⟨cleared, clearing, tended⟩
  · rw [same]
    exact directory
  · apply tended.dirs
    rw [clearEtcStatic_ok inside clearing, if_neg apart]
    exact directory

end NixRedox.Activate
