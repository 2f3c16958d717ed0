import NixRedox.SourceImport

set_option autoImplicit false

/- Sources appear in the store as a whole: whatever fails and whatever other importers do,
each source that is there is complete, and after a run without failure all are there. -/
namespace NixRedox.SourceImport

open FallibleRuns (Run Holds)
open LocalBuild (display)
open Upstream (fromUpstream)
open Castore (Progress fileNode)

section Importers

variable {Digest Signature : Type} {services : Services Digest Signature}
  {mine taken : List (List Char)} {before mid after : Shared} {source : StorePath}

theorem Permitted.refl (mine : List (List Char)) (shared : Shared) :
    Permitted services mine shared shared where
  kept := fun _ _ _ => rfl
  published := fun _ absent present => absurd present absent
  apart := fun _ _ _ => rfl
  registered := fun _ there => there

theorem Complete.congr (complete : Complete services before source)
    (same : ∀ rest, after.nodeAt (source.toText :: rest) = before.nodeAt (source.toText :: rest)) :
    Complete services after source := by
  intro info known
  simp only [same]
  exact complete info known

theorem Permitted.present (permitted : Permitted services mine before after)
    (present : before.Present source) : after.Present source := by
  rw [Shared.Present, permitted.kept source present []]
  exact present

theorem Permitted.trans (first : Permitted services mine before mid)
    (second : Permitted services mine mid after) : Permitted services mine before after where
  kept := fun source present rest =>
    (second.kept source (first.present present) rest).trans (first.kept source present rest)
  published := by
    intro source absent present
    by_cases between : mid.Present source
    · exact (first.published source absent between).congr (second.kept source between)
    · exact second.published source between present
  apart := fun name own rest => (second.apart name own rest).trans (first.apart name own rest)
  registered := fun path there => second.registered path (first.registered path there)

theorem Permitted.mono {fewer : List (List Char)} (permitted : Permitted services mine before after)
    (subset : fewer ⊆ mine) : Permitted services fewer before after where
  kept := permitted.kept
  published := permitted.published
  apart := fun name own => permitted.apart name (subset own)
  registered := permitted.registered

/-- No importer leaves an incomplete source behind. -/
theorem Permitted.complete (permitted : Permitted services mine before after)
    (complete : SourcesComplete services before) : SourcesComplete services after := by
  intro source present
  by_cases earlier : before.Present source
  · exact (complete source earlier).congr (permitted.kept source earlier)
  · exact permitted.published source earlier present

/-- Names of staging directories, which no store path has. -/
def Hidden (name : List Char) : Prop := name.head? = some '.'

theorem Hidden.ne_source {name : List Char} (hidden : Hidden name) (source : StorePath) :
    source.toText ≠ name := by
  rintro rfl
  cases digits : source.digest with
  | nil =>
      have length := source.digestLength
      rw [digits] at length
      cases length
  | cons first rest =>
      have digit := List.all_eq_true.mp source.digestChars first (by simp [digits])
      rw [Hidden, StorePath.toText, digits, List.cons_append, List.head?_cons,
        Option.some.injEq] at hidden
      rw [hidden] at digit
      exact absurd digit (by decide)

/-- What every importer with other staging names may see happen. -/
def Allowed (services : Services Digest Signature) (taken : List (List Char))
    (before after : Shared) : Prop :=
  ∀ theirs : List (List Char), (∀ name ∈ theirs, Hidden name ∧ name ∉ taken) →
    Permitted services theirs before after

theorem Allowed.refl (taken : List (List Char)) (shared : Shared) :
    Allowed services taken shared shared := fun theirs _ => .refl theirs shared

theorem Allowed.permitted (allowed : Allowed services taken before after) :
    Permitted services [] before after :=
  allowed [] fun _ member => absurd member List.not_mem_nil

theorem Allowed.mono {more : List (List Char)} (allowed : Allowed services taken before after)
    (subset : taken ⊆ more) : Allowed services more before after :=
  fun theirs others => allowed theirs fun name member =>
    ⟨(others name member).1, fun own => (others name member).2 (subset own)⟩

/-- Only what is in one staging directory changes. -/
structure Confined (staging : List Char) (before after : Shared) : Prop where
  db : after.db = before.db
  outside : ∀ location, location ≠ [] → ¬ [staging] <+: location →
    after.nodeAt location = before.nodeAt location

theorem Confined.allowed {staging : List Char} (confined : Confined staging before after)
    (hidden : Hidden staging) (own : staging ∈ taken) : Allowed services taken before after := by
  have other : ∀ name, name ≠ staging → ∀ rest,
      after.nodeAt (name :: rest) = before.nodeAt (name :: rest) := by
    intro name differs rest
    apply confined.outside _ (List.cons_ne_nil _ _)
    rw [List.cons_prefix_cons]
    rintro ⟨same, _⟩
    exact differs same.symm
  intro theirs others
  constructor
  · intro source _ rest
    exact other _ (hidden.ne_source source) rest
  · intro source absent present
    rw [Shared.Present, other _ (hidden.ne_source source)] at present
    exact absurd present absent
  · intro name member rest
    apply other
    rintro rfl
    exact (others name member).2 own
  · intro path there
    rw [confined.db]
    exact there

end Importers

section Guarded

variable {Digest Signature α β : Type} (services : Services Digest Signature)

/-- What is known in the course of a run: the sources are complete, nothing is undone that
was there earlier, and what the run changes is what it may. -/
structure Since (origin world : World) : Prop where
  complete : SourcesComplete services world.shared
  permitted : Permitted services [] origin.shared world.shared
  taken : origin.taken ⊆ world.taken
  changes : ∀ change ∈ world.changes, change ∈ origin.changes ∨
    Allowed services world.taken change.1 change.2

/-- What a run needs of the names it has taken and of the shared state. -/
abbrev Condition := List (List Char) → Shared → Prop

def Condition.Stable (condition : Condition) : Prop :=
  ∀ taken before after, Permitted services taken before after →
    condition taken before → condition taken after

/-- A part of a run keeps to what importers expect of each other, however it ends, and has
its postcondition where it ends well. -/
def Guarded (pre : Condition) (run : Run String World α) (post : α → Condition) : Prop :=
  ∀ origin, Holds (Since services origin)
    (fun world => Since services origin world ∧ pre world.taken world.shared) run
    fun value world => Since services origin world ∧ post value world.taken world.shared

variable {services} {pre : Condition} {run : Run String World α} {post : α → Condition}
  {origin mid world : World}

theorem Since.refl (complete : SourcesComplete services world.shared) :
    Since services world world where
  complete := complete
  permitted := .refl [] world.shared
  taken := List.Subset.refl _
  changes := fun _ member => .inl member

theorem Since.trans (first : Since services origin mid) (second : Since services mid world) :
    Since services origin world where
  complete := second.complete
  permitted := first.permitted.trans second.permitted
  taken := List.Subset.trans first.taken second.taken
  changes := by
    intro change member
    rcases second.changes change member with earlier | allowed
    · exact (first.changes change earlier).imp_right (·.mono second.taken)
    · exact .inr allowed

theorem Guarded.pure {value : α} (holds : ∀ taken shared, pre taken shared →
    post value taken shared) : Guarded services pre (pure value) post :=
  fun _ => .pure fun _ => And.imp_right (holds _ _)

theorem Guarded.throw {reason : String} : Guarded services pre (throw reason) post :=
  fun _ => .throw fun _ => And.left

theorem Guarded.never : Guarded services pre (Run.never : Run String World α) post :=
  fun _ => .never

theorem Guarded.bind {middle : α → Condition} {next : α → Run String World β}
    {last : β → Condition} (first : Guarded services pre run middle)
    (then_ : ∀ value, Guarded services (middle value) (next value) last) :
    Guarded services pre (run >>= next) last :=
  fun origin => (first origin).bind fun value => then_ value origin

theorem Guarded.weaken {stronger : Condition} {weaker : α → Condition}
    (guarded : Guarded services pre run post)
    (first : ∀ taken shared, stronger taken shared → pre taken shared)
    (last : ∀ value taken shared, post value taken shared → weaker value taken shared) :
    Guarded services stronger run weaker :=
  fun origin => (guarded origin).weaken (fun _ => And.imp_right (first _ _))
    fun value _ => And.imp_right (last value _ _)

/-- A fact of the precondition may be taken as given. -/
theorem Guarded.of_imp {fact : Prop} (given : fact → Guarded services pre run post) :
    Guarded services (fun taken shared => fact ∧ pre taken shared) run post := by
  rintro origin start result after ⟨since, holds, rest⟩
  exact given holds origin start result after ⟨since, rest⟩

/-- What no importer undoes holds afterwards if it held before. -/
theorem Guarded.frame {fact : Condition} (guarded : Guarded services pre run post)
    (kept : ∀ before after, Since services before after → fact before.taken before.shared →
      fact after.taken after.shared) :
    Guarded services (fun taken shared => fact taken shared ∧ pre taken shared) run
      fun value taken shared => fact taken shared ∧ post value taken shared := by
  rintro origin start result after ⟨since, held, rest⟩ ran
  have ended := guarded start start result after ⟨.refl since.complete, rest⟩ ran
  cases result with
  | ok value => exact ⟨since.trans ended.1, kept _ _ ended.1 held, ended.2⟩
  | error reason => exact since.trans ended

theorem Guarded.attempt {fact : Condition} (guarded : Guarded services pre run post)
    (kept : ∀ before after, Since services before after → fact before.taken before.shared →
      fact after.taken after.shared) :
    Guarded services (fun taken shared => fact taken shared ∧ pre taken shared) run.attempt
      fun result taken shared => fact taken shared ∧
        ∀ value, result = .ok value → post value taken shared := by
  rintro origin start result after ⟨since, held, rest⟩ ran
  rw [Run.from_attempt] at ran
  obtain ⟨⟨ended, last⟩, inner, same⟩ := Option.map_eq_some_iff.mp ran
  cases same
  have reached := guarded start start ended _ ⟨.refl since.complete, rest⟩ inner
  cases ended with
  | ok value =>
      refine ⟨since.trans reached.1, kept _ _ reached.1 held, ?_⟩
      rintro _ ⟨⟩
      exact reached.2
  | error reason =>
      exact ⟨since.trans reached, kept _ _ reached held, fun _ same => by cases same⟩

theorem Guarded.ofExcept {result : Except String α} (fine : ∀ value, result = .ok value →
    ∀ taken shared, pre taken shared → post value taken shared) :
    Guarded services pre (Run.ofExcept result) post := by
  intro origin
  apply Holds.ofExcept
  · exact fun value _ same => And.imp_right (fine value same _ _)
  · exact fun _ _ _ => And.left

/-- An operation that leaves everything as importers expect it. -/
theorem act_guarded {scenario : Scenario services}
    {effect : Option Fault → Shared → Except String α × Shared} (stable : pre.Stable services)
    (allowed : ∀ taken shared, SourcesComplete services shared → pre taken shared →
      ∀ fault, Allowed services taken shared (effect fault shared).2)
    (good : ∀ taken shared, pre taken shared → ∀ fault value after,
      effect fault shared = (.ok value, after) → post value taken after) :
    Guarded services pre (act scenario effect) post := by
  intro origin
  have next : ∀ before, Since services origin before → pre before.taken before.shared →
      Since services origin { before with
        shared := (effect (scenario.faults before.clock) (scenario.others before)).2
        clock := before.clock + 1
        changes := (scenario.others before,
          (effect (scenario.faults before.clock) (scenario.others before)).2) ::
            before.changes } := by
    intro before since holds
    have moved := scenario.permitted before
    have complete := moved.complete since.complete
    have own := allowed _ _ complete (stable _ _ _ moved holds) (scenario.faults before.clock)
    constructor
    · exact own.permitted.complete complete
    · exact (since.permitted.trans (moved.mono (List.nil_subset _))).trans own.permitted
    · exact since.taken
    · intro change member
      rcases List.mem_cons.mp member with same | earlier
      · rw [same]
        exact .inr own
      · exact since.changes change earlier
  apply Holds.step
  · rintro before value after ⟨since, holds⟩ ended
    obtain ⟨fine, rfl⟩ := Prod.mk.inj ended
    have ready := stable _ _ _ (scenario.permitted before) holds
    exact ⟨next before since holds, good _ _ ready _ value _ (Prod.ext fine rfl)⟩
  · rintro before reason after ⟨since, holds⟩ ended
    obtain ⟨_, rfl⟩ := Prod.mk.inj ended
    exact next before since holds

end Guarded

section Operations

variable {Digest Signature α : Type} {services : Services Digest Signature}
  {scenario : Scenario services} {pre : Condition} {staging : List Char}
  {view next : Location → Option Node} {path : Location}

theorem ask_guarded {answer : Shared → α} (stable : pre.Stable services) :
    Guarded services pre (ask scenario answer) fun value taken shared =>
      value = answer shared ∧ pre taken shared := by
  apply act_guarded stable
  · intro taken shared _ _ fault
    cases fault <;> exact .refl taken shared
  · intro taken shared holds fault value after ended
    cases fault with
    | some fault => cases ended
    | none =>
        cases ended
        exact ⟨rfl, holds⟩

theorem onStore_guarded {left : Fault → FileTree → FileTree}
    {effect : FileTree → Except String FileTree} {post : Condition} (stable : pre.Stable services)
    (failed : ∀ taken shared tree fault, pre taken shared → shared.store = some tree →
      Allowed services taken shared { shared with store := some (left fault tree) })
    (allowed : ∀ taken shared tree after, SourcesComplete services shared → pre taken shared →
      shared.store = some tree → effect tree = .ok after →
        Allowed services taken shared { shared with store := some after })
    (good : ∀ taken shared tree after, pre taken shared → shared.store = some tree →
      effect tree = .ok after → post taken { shared with store := some after }) :
    Guarded services pre (onStore scenario left effect) fun _ => post := by
  apply act_guarded stable
  · intro taken shared complete holds fault
    split
    · exact .refl taken shared
    · rename_i tree there
      split
      · exact failed taken shared tree _ holds there
      · split
        · exact allowed taken shared tree _ complete holds there ‹_›
        · exact .refl taken shared
  · intro taken shared holds fault value last ended
    split at ended
    · cases ended
    · rename_i tree there
      split at ended
      · cases ended
      · split at ended
        · cases ended
          exact good taken shared tree _ holds there ‹_›
        · cases ended

/-- A staging directory is the run's own, and what is in it is known. -/
def Owned (staging : List Char) (view : Location → Option Node) : Condition :=
  fun taken shared => staging ∈ taken ∧
    ∀ location, [staging] <+: location → shared.nodeAt location = view location

theorem Owned.stable : (Owned staging view).Stable services := by
  rintro taken before after permitted ⟨own, known⟩
  refine ⟨own, ?_⟩
  rintro _ ⟨rest, rfl⟩
  exact (permitted.apart staging own rest).trans (known _ ⟨rest, rfl⟩)

theorem mem_stable : Condition.Stable services fun taken _ => staging ∈ taken :=
  fun _ _ _ _ => id

/-- Two trees differ at most in one directory of the root. -/
def Within (staging : List Char) (tree after : FileTree) : Prop :=
  ∀ location, ¬ [staging] <+: location → after.nodeAt location = tree.nodeAt location

theorem Within.confined {shared : Shared} {tree after : FileTree}
    (within : Within staging tree after) (there : shared.store = some tree) :
    Confined staging shared { shared with store := some after } where
  db := rfl
  outside := by
    intro location _ apart
    rw [Shared.nodeAt, Shared.nodeAt, there]
    exact within location apart

/-- A change in a staging directory concerns nobody else. -/
theorem within_guarded {left : Fault → FileTree → FileTree}
    {effect : FileTree → Except String FileTree} {post : Condition} (hidden : Hidden staging)
    (stable : pre.Stable services) (own : ∀ taken shared, pre taken shared → staging ∈ taken)
    (failed : ∀ taken shared tree fault, pre taken shared → shared.store = some tree →
      Within staging tree (left fault tree))
    (done : ∀ taken shared tree after, pre taken shared → shared.store = some tree →
      effect tree = .ok after → Within staging tree after ∧
        post taken { shared with store := some after }) :
    Guarded services pre (onStore scenario left effect) fun _ => post := by
  apply onStore_guarded stable
  · intro taken shared tree fault holds there
    have within := failed taken shared tree fault holds there
    exact (within.confined there).allowed hidden (own taken shared holds)
  · intro taken shared tree after _ holds there ended
    have within := (done taken shared tree after holds there ended).1
    exact (within.confined there).allowed hidden (own taken shared holds)
  · intro taken shared tree after holds there ended
    exact (done taken shared tree after holds there ended).2

theorem Owned.seen {taken : List (List Char)} {shared : Shared} {tree : FileTree}
    (owned : Owned staging view taken shared) (there : shared.store = some tree)
    {location : Location} (below : [staging] <+: location) :
    tree.nodeAt location = view location := by
  rw [← owned.2 location below, Shared.nodeAt, there]
  rfl

theorem place_of_inside {tree : FileTree} (named : path ≠ [])
    (inside : tree.nodeAt path.dropLast = some .dir) : tree.place path = some path := by
  have found := @FileTree.place_dir tree path.dropLast (path.getLast named) inside
  rwa [List.dropLast_append_getLast named] at found

theorem Within.of_changed {tree after : FileTree} {node : Option Node}
    (changed : FileTree.Changed tree after path node) (below : [staging] <+: path) :
    Within staging tree after := by
  intro location apart
  rw [changed location, if_neg]
  rintro rfl
  exact apart below

/-- The operation writes one node in a staging directory. -/
theorem entry_guarded {left : Fault → FileTree → FileTree}
    {effect : FileTree → Except String FileTree} {node : Node} (hidden : Hidden staging)
    (inside : [staging] <+: path.dropLast) (parent : view path.dropLast = some .dir)
    (failed : ∀ tree fault, tree.place path = some path → Within staging tree (left fault tree))
    (writes : ∀ tree after, tree.nodeAt path = view path → tree.place path = some path →
      effect tree = .ok after → FileTree.Changed tree after path (some node)) :
    Guarded services (Owned staging view) (onStore scenario left effect)
      fun _ => Owned staging (Function.update view path (some node)) := by
  have below : [staging] <+: path := inside.trans (List.dropLast_prefix path)
  have named : path ≠ [] := by
    rintro rfl
    exact absurd (List.prefix_nil.mp below) (List.cons_ne_nil _ _)
  have placed : ∀ {taken shared tree}, Owned staging view taken shared →
      shared.store = some tree → tree.place path = some path :=
    fun owned there => place_of_inside named ((owned.seen there inside).trans parent)
  apply within_guarded hidden Owned.stable (fun _ _ => And.left)
  · intro taken shared tree fault owned there
    exact failed tree fault (placed owned there)
  · intro taken shared tree after owned there ended
    have changed := writes tree after (owned.seen there below) (placed owned there) ended
    refine ⟨.of_changed changed below, owned.1, ?_⟩
    intro location under
    rw [Shared.nodeAt, Option.bind_some, changed location]
    by_cases same : location = path
    · rw [if_pos same, same, Function.update_self]
    · rw [if_neg same, Function.update_of_ne same]
      exact owned.seen there under

theorem createDir_guarded (hidden : Hidden staging) (inside : [staging] <+: path.dropLast)
    (parent : view path.dropLast = some .dir) :
    Guarded services (Owned staging view) (createDir scenario path)
      fun _ => Owned staging (Function.update view path (some .dir)) := by
  apply entry_guarded hidden inside parent fun _ _ _ _ _ => rfl
  intro tree after _ placed made
  obtain ⟨location, found, _, changed⟩ := FileTree.mkdir_changed made
  rw [placed, Option.some.injEq] at found
  rwa [found]

theorem symlink_guarded {target : List Char} (hidden : Hidden staging)
    (inside : [staging] <+: path.dropLast) (parent : view path.dropLast = some .dir) :
    Guarded services (Owned staging view) (symlink scenario target path)
      fun _ => Owned staging (Function.update view path (some (.symlink target))) := by
  apply entry_guarded hidden inside parent fun _ _ _ _ _ => rfl
  intro tree after _ placed made
  obtain ⟨location, found, _, changed⟩ := FileTree.symlink_changed made
  rw [placed, Option.some.injEq] at found
  rwa [found]

/-- `fs::write` makes a file with the usual mode, or fills one that is there. -/
theorem write_changed {tree after : FileTree} {contents : ByteArray}
    (placed : tree.place path = some path) (written : tree.write path contents = .ok after) :
    ∃ mode, (tree.nodeAt path = none ∧ mode = FileTree.newFileMode ∨
        ∃ old, tree.nodeAt path = some (.file old mode)) ∧
      FileTree.Changed tree after path (some (.file contents mode)) := by
  unfold FileTree.write at written
  split at written
  · cases written
  · rename_i location found
    rw [placed, Option.some.injEq] at found
    subst found
    split at written
    · rename_i absent
      cases written
      exact ⟨_, .inl ⟨absent, rfl⟩, FileTree.insertNode_nodeAt⟩
    · rename_i old mode present
      cases written
      exact ⟨mode, .inr ⟨old, present⟩, FileTree.insertNode_nodeAt⟩
    · cases written
    · cases written

theorem createFile_guarded (hidden : Hidden staging) (inside : [staging] <+: path.dropLast)
    (parent : view path.dropLast = some .dir) (free : view path = none) :
    Guarded services (Owned staging view) (createFile scenario path) fun _ =>
      Owned staging (Function.update view path (some (.file .empty FileTree.newFileMode))) := by
  apply entry_guarded hidden inside parent fun _ _ _ _ _ => rfl
  intro tree after seen placed written
  obtain ⟨mode, ⟨_, rfl⟩ | ⟨old, there⟩, changed⟩ := write_changed placed written
  · exact changed
  · rw [seen, free] at there
    cases there

theorem copy_guarded {old contents : ByteArray} {mode : Nat} (hidden : Hidden staging)
    (inside : [staging] <+: path.dropLast) (parent : view path.dropLast = some .dir)
    (opened : view path = some (.file old mode)) :
    Guarded services (Owned staging view) (copy scenario contents path) fun written taken shared =>
      written = contents.size ∧
        Owned staging (Function.update view path (some (.file contents mode))) taken shared := by
  have below : [staging] <+: path := inside.trans (List.dropLast_prefix path)
  have filled : Guarded services (Owned staging view)
      (onStore scenario
        (fun fault tree =>
          (tree.write path (contents.extract 0 fault.written)).toOption.getD tree)
        (·.write path contents))
      fun _ => Owned staging (Function.update view path (some (.file contents mode))) := by
    apply entry_guarded hidden inside parent
    · intro tree fault placed
      cases written : tree.write path (contents.extract 0 fault.written) with
      | error reason => exact fun _ _ => rfl
      | ok after =>
          obtain ⟨_, _, changed⟩ := write_changed placed written
          exact .of_changed changed below
    · intro tree after seen placed written
      obtain ⟨other, ⟨absent, _⟩ | ⟨previous, there⟩, changed⟩ := write_changed placed written
      · rw [seen, opened] at absent
        cases absent
      · rw [seen, opened] at there
        cases there
        exact changed
  exact filled.bind fun _ => .pure fun taken shared owned => ⟨rfl, owned⟩

theorem setPermissions_guarded {contents : ByteArray} {old mode : Nat} (hidden : Hidden staging)
    (inside : [staging] <+: path.dropLast) (parent : view path.dropLast = some .dir)
    (written : view path = some (.file contents old)) :
    Guarded services (Owned staging view) (setPermissions scenario path mode) fun _ =>
      Owned staging (Function.update view path (some (.file contents mode))) := by
  apply entry_guarded hidden inside parent fun _ _ _ _ _ => rfl
  intro tree after seen placed ended
  unfold FileTree.setPermissions at ended
  split at ended
  · cases ended
  · rename_i location found
    rw [placed, Option.some.injEq] at found
    subst found
    split at ended
    · rename_i present
      rw [seen, written] at present
      cases present
      cases ended
      exact FileTree.insertNode_nodeAt
    · cases ended

end Operations

section Staging

variable {Digest Signature : Type} {services : Services Digest Signature}
  {scenario : Scenario services} {staging : List Char} {source : StorePath}

/-- What a source has to hold once the run is over. -/
def Done (services : Services Digest Signature) (source : StorePath) (shared : Shared) : Prop :=
  shared.Present source ∧ ((services.pathInfos source.digest).isSome →
    shared.db.isRegistered (display source) = true)

theorem Done.stable {before after : Shared}
    (permitted : Permitted services [] before after) (done : Done services source before) :
    Done services source after :=
  ⟨permitted.present done.1, fun known => permitted.registered _ (done.2 known)⟩

theorem present_stable :
    Condition.Stable services fun _ shared => shared.Present source :=
  fun _ _ _ permitted => permitted.present

theorem any_stable : Condition.Stable services fun _ _ => True := fun _ _ _ _ => id

theorem symlinkMetadata_root {tree : FileTree} {name : List Char} :
    tree.symlinkMetadata [name] = tree.nodeAt [name] :=
  FileTree.symlinkMetadata_unlinked (FileTree.unlinked_of_dir (tree.nodeAt_nil)) name

/-- The worklist is right about what is in a staging directory. -/
def Writing (services : Services Digest Signature) (staging : List Char)
    (root : Castore.Node Digest) (base : Location)
    (pending : List (Location × Castore.Node Digest)) : Condition :=
  fun taken shared => ∃ view, Owned staging view taken shared ∧
    Progress services.castore root base pending view

theorem Writing.stable {root : Castore.Node Digest} {base : Location}
    {pending : List (Location × Castore.Node Digest)} :
    (Writing services staging root base pending).Stable services := by
  rintro taken before after permitted ⟨view, owned, progress⟩
  exact ⟨view, Owned.stable taken before after permitted owned, progress⟩

theorem symlinkMetadata_guarded :
    Guarded services (fun _ _ => True) (symlinkMetadata scenario [source.toText])
      fun value _ shared => value = true → shared.Present source := by
  apply (ask_guarded any_stable).weaken fun _ _ => id
  rintro value taken shared ⟨rfl, _⟩ found
  simp only [symlinkMetadata_root] at found
  exact Option.isSome_iff_ne_none.mp found

theorem isRegistered_guarded :
    Guarded services (fun _ shared => shared.Present source)
      (isRegistered scenario (display source))
      fun value _ shared => shared.Present source ∧
        (value = true → shared.db.isRegistered (display source) = true) := by
  apply act_guarded present_stable
  · exact fun taken shared _ _ _ => .refl taken shared
  · intro taken shared there fault value after ended
    cases ended
    exact ⟨there, id⟩

theorem createStoreRoot_guarded :
    Guarded services (fun _ _ => True) (createStoreRoot scenario) fun _ _ _ => True := by
  apply act_guarded any_stable
  · intro taken shared _ _ fault
    cases fault with
    | some fault => exact .refl taken shared
    | none =>
        have same : ∀ name rest,
            ({ shared with store := some (shared.store.getD emptyStore) } : Shared).nodeAt
              (name :: rest) = shared.nodeAt (name :: rest) := by
          intro name rest
          rw [Shared.nodeAt, Shared.nodeAt]
          cases shared.store <;> rfl
        intro theirs _
        constructor
        · exact fun source _ rest => same _ rest
        · intro source absent present
          rw [Shared.Present, same] at present
          exact absurd present absent
        · exact fun name _ rest => same name rest
        · exact fun _ => id
  · exact fun _ _ _ _ _ _ _ => trivial

theorem takeStaging_guarded :
    Guarded services (fun _ _ => True) (takeStaging scenario)
      fun name taken _ => Hidden name ∧ name ∈ taken := by
  have counted : Guarded services (fun _ _ => True)
      (act scenario fun _ shared =>
        (.ok shared.importCounter, { shared with importCounter := shared.importCounter + 1 }))
      fun _ _ _ => True := by
    apply act_guarded any_stable
    · intro taken shared _ _ _ theirs _
      exact ⟨fun _ _ _ => rfl, fun _ absent present => absurd present absent, fun _ _ _ => rfl,
        fun _ there => there⟩
    · exact fun _ _ _ _ _ _ _ => trivial
  apply counted.bind
  intro id
  have noted : Guarded services (fun _ _ => True)
      (Run.step fun world => (.ok (), { world with
        taken := stagingName scenario.processId id :: world.taken }))
      fun (_ : Unit) taken _ => stagingName scenario.processId id ∈ taken := by
    intro origin
    apply Holds.step
    · rintro before value after ⟨since, _⟩ ended
      cases ended
      have more : before.taken ⊆ stagingName scenario.processId id :: before.taken :=
        List.subset_cons_self _ _
      refine ⟨⟨since.complete, since.permitted, List.Subset.trans since.taken more, ?_⟩,
        List.mem_cons_self⟩
      exact fun change member => (since.changes change member).imp_right (·.mono more)
    · rintro before reason after _ ended
      cases ended
  exact noted.bind fun _ => .pure fun _ _ own => ⟨rfl, own⟩

/-- The directory is the run's alone, and nothing is in it. -/
theorem createStaging_guarded (hidden : Hidden staging) :
    Guarded services (fun taken _ => staging ∈ taken) (createDir scenario [staging])
      fun _ => Owned staging (Function.update (fun _ => none) [staging] (some .dir)) := by
  apply within_guarded hidden mem_stable (fun _ _ => id) fun _ _ _ _ _ _ _ _ => rfl
  intro taken shared tree after own there made
  obtain ⟨location, found, free, changed⟩ := FileTree.mkdir_changed made
  have placed : tree.place [staging] = some [staging] :=
    place_of_inside (List.cons_ne_nil _ _) tree.nodeAt_nil
  rw [placed, Option.some.injEq] at found
  subst found
  refine ⟨.of_changed changed List.prefix_rfl, own, ?_⟩
  intro location below
  rw [Shared.nodeAt, Option.bind_some, changed location]
  by_cases same : location = [staging]
  · rw [if_pos same, same, Function.update_self]
  · rw [if_neg same, Function.update_of_ne same]
    by_contra something
    exact FileTree.nodeAt_of_prefix something below free

theorem eraseAll_within (tree : FileTree) (places : List Location) :
    Within staging tree (places.foldl (fun tree rest => tree.eraseBelow ([staging] ++ rest)) tree) := by
  induction places generalizing tree with
  | nil => exact fun _ _ => rfl
  | cons rest places ih =>
      intro location apart
      have named : [staging] ++ rest ≠ [] := List.cons_ne_nil _ _
      rw [List.foldl_cons, ih _ location apart, FileTree.eraseBelow_nodeAt named, if_neg]
      exact fun below => apart ((List.prefix_append [staging] rest).trans below)

theorem removeStaging_guarded (hidden : Hidden staging) :
    Guarded services (fun taken _ => staging ∈ taken) (removeDirAll scenario [staging])
      fun _ _ _ => True := by
  apply within_guarded hidden mem_stable (fun _ _ => id)
  · exact fun _ _ tree fault _ _ => eraseAll_within tree fault.removed
  · intro taken shared tree after own there removed
    obtain ⟨location, found, _, erased⟩ := FileTree.removeDirAll_erased removed
    have placed : tree.place [staging] = some [staging] :=
      place_of_inside (List.cons_ne_nil _ _) tree.nodeAt_nil
    rw [placed, Option.some.injEq] at found
    subst found
    refine ⟨?_, trivial⟩
    intro location apart
    rw [erased location, if_neg apart]

theorem renamed_moved {tree after : FileTree} {name : List Char}
    (there : tree.nodeAt [staging, name] ≠ none)
    (renamed : tree.rename [staging, name] [source.toText] = .ok after) :
    FileTree.Moved tree after [staging, name] [source.toText] := by
  have directory : tree.nodeAt [staging] = some .dir :=
    @FileTree.nodeAt_append tree [staging] [name] there (List.cons_ne_nil _ _)
  apply @FileTree.rename_unlinked tree after [] name source.toText [staging]
  · exact FileTree.unlinked_of_dir directory
  · exact FileTree.unlinked_of_dir tree.nodeAt_nil
  · simp
  · exact renamed

/-- A complete tree is moved to its place as a whole. -/
theorem rename_guarded {info : SourceInfo Digest Signature} {name : List Char}
    (hidden : Hidden staging) (known : services.pathInfos source.digest = some info) :
    Guarded services (Writing services staging info.node [staging, name] [])
      (rename scenario [staging, name] [source.toText])
      fun _ _ shared => shared.Present source := by
  have moves : ∀ {taken : List (List Char)} {shared tree after},
      Writing services staging info.node [staging, name] [] taken shared →
      shared.store = some tree → tree.rename [staging, name] [source.toText] = .ok after →
      FileTree.Moved tree after [staging, name] [source.toText] ∧
        Castore.Complete services.castore info.node
          fun rest => after.nodeAt (source.toText :: rest) := by
    rintro taken shared tree after ⟨view, owned, progress⟩ there renamed
    have complete := progress.complete
    have seen : ∀ rest, tree.nodeAt ([staging, name] ++ rest) = view ([staging, name] ++ rest) :=
      fun rest => owned.seen there ⟨name :: rest, rfl⟩
    have moved := renamed_moved (by rw [← List.append_nil [staging, name], seen]; exact complete.there)
      renamed
    refine ⟨moved, ?_⟩
    have same : (fun rest => after.nodeAt (source.toText :: rest)) =
        fun rest => view ([staging, name] ++ rest) :=
      funext fun rest => (moved.below rest).trans (seen rest)
    rw [same]
    exact complete
  apply onStore_guarded Writing.stable
  · intro taken shared tree fault _ there
    have same : { shared with store := some (unchanged fault tree) } = shared := by
      rw [unchanged, ← there]
    rw [same]
    exact .refl taken shared
  · intro taken shared tree after sources writing there renamed
    obtain ⟨moved, complete⟩ := moves writing there renamed
    have other : ∀ head, head ≠ source.toText → head ≠ staging → ∀ rest,
        ({ shared with store := some after } : Shared).nodeAt (head :: rest) =
          shared.nodeAt (head :: rest) := by
      intro head differs apart rest
      rw [Shared.nodeAt, Shared.nodeAt, there, Option.bind_some, Option.bind_some,
        moved.elsewhere _ ?_, if_neg]
      · rw [List.cons_prefix_cons]
        rintro ⟨same, _⟩
        exact apart same.symm
      · rw [List.cons_prefix_cons]
        rintro ⟨same, _⟩
        exact differs same.symm
    have elsewhere : ∀ path, path ≠ source → ∀ rest,
        ({ shared with store := some after } : Shared).nodeAt (path.toText :: rest) =
          shared.nodeAt (path.toText :: rest) :=
      fun path differs => other _ (fun same => differs (StorePath.toText_injective same))
        (hidden.ne_source path)
    intro theirs others
    constructor
    · intro path present rest
      by_cases own : path = source
      · rw [own] at present ⊢
        -- what another importer has put there is the same tree
        exact congrFun (complete.eq (sources source present info known)) rest
      · exact elsewhere path own rest
    · intro path absent present
      by_cases own : path = source
      · subst own
        intro found listed
        rw [known, Option.some.injEq] at listed
        rw [← listed]
        exact complete
      · rw [Shared.Present, elsewhere path own] at present
        exact absurd present absent
    · intro theirName member rest
      obtain ⟨dotted, foreign⟩ := others theirName member
      apply other theirName (dotted.ne_source source).symm
      rintro rfl
      obtain ⟨view, owned, _⟩ := writing
      exact foreign owned.1
    · exact fun _ => id
  · intro taken shared tree after writing there renamed
    exact (moves writing there renamed).2.there

/-- Where the rename does not work, the source is there all the same or the import fails. -/
theorem publish_guarded {info : SourceInfo Digest Signature} {name : List Char}
    (hidden : Hidden staging) (known : services.pathInfos source.digest = some info) :
    Guarded services (Writing services staging info.node [staging, name] [])
      (publish scenario [staging, name] [source.toText])
      fun _ _ shared => shared.Present source := by
  have moved : Guarded services (Writing services staging info.node [staging, name] [])
      (rename scenario [staging, name] [source.toText]).attempt
      fun result _ shared => ∀ value, result = .ok value → shared.Present source :=
    ((rename_guarded hidden known).attempt fun _ _ _ => id).weaken
      (fun _ _ writing => ⟨trivial, writing⟩) fun _ _ _ => And.right
  apply moved.bind
  rintro (reason | done)
  · have looked : Guarded services (fun _ _ => True)
        (symlinkMetadata scenario [source.toText]).attempt
        fun result taken shared => ∀ value, result = .ok value → value = true →
          shared.Present source :=
      (symlinkMetadata_guarded.attempt fun _ _ _ => id).weaken
        (fun _ _ _ => ⟨trivial, trivial⟩) fun _ _ _ => And.right
    apply (looked.weaken (fun _ _ _ => trivial) fun _ _ _ => id).bind
    intro found
    split
    · exact .pure fun taken shared there => there true rfl rfl
    · exact .throw
  · exact .pure fun taken shared there => there () rfl

/-- However `register` ends, it takes away no metadata file. -/
theorem register_keeps {hash : StorePathHash} {db : PathInfoDb hash} {info : PathInfo}
    {fault : Option PathInfoDb.WriteFault} {path : String} (there : db.isRegistered path = true) :
    (db.register info fault).1.isRegistered path = true := by
  have kept : ∀ stem file, (db.files.lookup stem).isSome →
      ∀ own, ((db.files.insert own file).lookup stem).isSome := by
    intro stem file listed own
    by_cases same : stem = own
    · rw [same, AList.lookup_insert]
      rfl
    · rwa [AList.lookup_insert_ne same]
  unfold PathInfoDb.isRegistered at there ⊢
  split at there
  · cases there
  · rename_i stem hashed
    unfold PathInfoDb.register
    split
    · exact there
    · split
      · split
        · exact kept stem _ there _
        · exact there
      · exact kept stem _ there _

theorem isRegistered_of_register {hash : StorePathHash} {db after : PathInfoDb hash}
    {info : PathInfo} {fault : Option PathInfoDb.WriteFault} {path : String}
    (registered : db.register info fault = (after, .ok ()))
    (same : hash path = hash info.storePath) : after.isRegistered path = true := by
  obtain ⟨_, stem, own, rfl⟩ := PathInfoDb.register_ok registered
  rw [PathInfoDb.isRegistered, same, own]
  change (AList.lookup stem (db.files.insert stem (.info info))).isSome = true
  rw [AList.lookup_insert]
  rfl

/-- What `literalHash` looks at in a store path. -/
theorem display_parts (front : List Char) (eleven : front.length = 11) (path : StorePath) :
    (front ++ path.toText).drop 43 = '-' :: path.name ∧
      ((front ++ path.toText).drop 11).take 32 = path.digest := by
  have before : (front ++ path.digest).length = 43 := by
    rw [List.length_append, eleven, path.digestLength]
  constructor
  · rw [StorePath.toText, ← List.append_assoc, List.drop_left' before]
  · rw [List.drop_left' eleven, StorePath.toText, List.take_left' path.digestLength]

theorem literalHash_display (path : StorePath) :
    literalHash (display path) = .ok (String.ofList path.digest) := by
  obtain ⟨behind, digest⟩ := display_parts "/nix/store/".toList rfl path
  have flat : '/' ∉ '-' :: path.name :=
    fun member => path.toText_flat (List.mem_append_right _ member)
  have begins : "/nix/store/".toList.isPrefixOf ("/nix/store/".toList ++ path.toText) = true :=
    List.isPrefixOf_iff_prefix.mpr (List.prefix_append _ _)
  have text : (display path).toList = "/nix/store/".toList ++ path.toText := String.toList_ofList
  unfold literalHash
  dsimp only
  rw [text, behind, digest, if_pos ⟨begins, rfl, flat⟩]

theorem register_guarded {info : SourceInfo Digest Signature}
    (known : services.pathInfos source.digest = some info) :
    Guarded services (fun _ _ => True)
      (register scenario (fromUpstream services.nix services.hex info.upstream))
      fun _ _ shared => shared.db.isRegistered (display source) = true := by
  apply act_guarded any_stable
  · intro taken shared _ _ fault theirs _
    exact ⟨fun _ _ _ => rfl, fun _ absent present => absurd present absent, fun _ _ _ => rfl,
      fun _ => register_keeps⟩
  · intro taken shared _ fault value after ended
    obtain ⟨fine, rfl⟩ := Prod.mk.inj ended
    have own : (fromUpstream services.nix services.hex info.upstream).storePath =
        display info.upstream.storePath := congrFun services.paths info.upstream.storePath
    have same : literalHash (display source) =
        literalHash (fromUpstream services.nix services.hex info.upstream).storePath := by
      rw [own, literalHash_display, literalHash_display,
        services.keyed source.digest info known]
    apply isRegistered_of_register (Prod.ext rfl ?_) same
    revert fine
    generalize (shared.db.register _ _).2 = result
    cases result with
    | error reason => exact fun failed => by cases failed
    | ok done => exact fun _ => rfl

end Staging

section Loops

variable {Digest Signature : Type} [ToString Digest] {services : Services Digest Signature}
  {scenario : Scenario services} {staging : List Char} {root node : Castore.Node Digest}
  {view : Location → Option Node} {base path : Location} {source : StorePath}
  {pending : List (Location × Castore.Node Digest)}

/-- One turn of the loop writes the node it has taken, or fails. -/
theorem writeNode_guarded (hidden : Hidden staging) (inside : [staging] <+: base.dropLast)
    (progress : Progress services.castore root base ((path, node) :: pending) view) :
    Guarded services (Owned staging view) (writeNode scenario path node)
      fun children => Writing services staging root base (children ++ pending) := by
  obtain ⟨rest, place, _⟩ := progress.due (path, node) List.mem_cons_self
  obtain ⟨_, parent⟩ := progress.inside (path, node) List.mem_cons_self
  have free := progress.free (path, node) List.mem_cons_self []
  rw [List.append_nil] at free
  dsimp only at place parent free
  have above : [staging] <+: path.dropLast := by
    rw [place]
    by_cases whole : rest = []
    · rw [whole, List.append_nil]
      exact inside
    · rw [List.dropLast_append_of_ne_nil whole]
      exact (inside.trans (List.dropLast_prefix base)).trans (List.prefix_append base _)
  have written : ∀ {entry}, fileNode services.castore node = some entry → ∀ taken shared,
      Owned staging (Function.update view path (some entry)) taken shared →
        Writing services staging root base
          ((Castore.children services.castore path node).reverse ++ pending) taken shared :=
    fun shown taken shared owned => ⟨_, owned, progress.write shown⟩
  cases node with
  | directory digest size =>
      apply (ask_guarded Owned.stable).bind
      rintro (_ | directory)
      · exact .throw
      · apply Guarded.of_imp
        intro found
        have shown : fileNode services.castore (.directory digest size) = some .dir := by
          rw [fileNode, ← found]
          rfl
        apply (createDir_guarded hidden above parent).bind
        intro _
        exact .pure fun taken shared owned => written shown taken shared owned
  | file digest size executable =>
      apply (ask_guarded Owned.stable).bind
      rintro (_ | contents)
      · exact .throw
      · apply Guarded.of_imp
        intro found
        apply (createFile_guarded hidden above parent free).bind
        intro _
        have kept : path.dropLast ≠ path := by
          intro same
          rw [same, free] at parent
          cases parent
        have parent' : ∀ entry, Function.update view path entry path.dropLast = some .dir :=
          fun entry => (Function.update_of_ne kept _ _).trans parent
        apply (copy_guarded hidden above (parent' _) (Function.update_self _ _ _)).bind
        intro count
        apply Guarded.of_imp
        rintro rfl
        rw [Function.update_idem]
        apply (ask_guarded Owned.stable).bind
        intro _
        apply Guarded.of_imp
        intro _
        split
        · exact .throw
        · rename_i exact_
          rw [ne_eq, not_not] at exact_
          have shown : fileNode services.castore (.file digest size executable) =
              some (.file contents (Castore.filePermissions executable)) := by
            rw [fileNode, ← found, Option.bind_some, if_pos exact_]
          apply (setPermissions_guarded hidden above (parent' _) (Function.update_self _ _ _)).bind
          intro _
          rw [Function.update_idem]
          exact .pure fun taken shared owned => written shown taken shared owned
  | symlink target =>
      apply (symlink_guarded hidden above parent).bind
      intro _
      exact .pure fun taken shared owned => written rfl taken shared owned

theorem writePending_guarded (hidden : Hidden staging) (inside : [staging] <+: base.dropLast)
    (turns : Nat) :
    Guarded services (Writing services staging root base pending)
      (writePending scenario turns pending)
      fun _ => Writing services staging root base [] := by
  induction turns generalizing pending with
  | zero =>
      cases pending with
      | nil => exact .pure fun _ _ => id
      | cons entry pending => exact .never
  | succ turns ih =>
      cases pending with
      | nil => exact .pure fun _ _ => id
      | cons entry pending =>
          obtain ⟨path, node⟩ := entry
          have turn : Guarded services (Writing services staging root base ((path, node) :: pending))
              (writeNode scenario path node)
              fun children => Writing services staging root base (children ++ pending) := by
            rintro origin before result after ⟨since, view, owned, progress⟩
            exact writeNode_guarded hidden inside progress origin before result after
              ⟨since, owned⟩
          exact turn.bind fun _ => ih

theorem importSource_guarded {info : SourceInfo Digest Signature} {turns : Nat}
    (known : services.pathInfos source.digest = some info) :
    Guarded services (fun _ _ => True) (importSource scenario turns info.node [source.toText])
      fun _ _ shared => shared.Present source := by
  apply createStoreRoot_guarded.bind
  intro _
  apply takeStaging_guarded.bind
  intro staging
  apply Guarded.of_imp
  intro hidden
  apply (createStaging_guarded hidden).bind
  intro _
  have staged : Guarded services
      (Owned staging (Function.update (fun _ => none) [staging] (some .dir)))
      (do
        writeSourceNode scenario turns info.node [staging, "source".toList]
        publish scenario [staging, "source".toList] [source.toText])
      fun _ _ shared => shared.Present source := by
    have progress : Progress services.castore info.node [staging, "source".toList]
        [([staging, "source".toList], info.node)]
        (Function.update (fun _ => none) [staging] (some .dir)) := by
      apply Castore.Progress.start (List.cons_ne_nil _ _)
      · exact Function.update_self _ _ _
      · exact fun rest => Function.update_of_ne (by simp) _ _
    have written := @writePending_guarded Digest Signature _ services scenario staging info.node
      [staging, "source".toList] [([staging, "source".toList], info.node)] hidden
      List.prefix_rfl turns
    apply (written.weaken (fun _ _ owned => ⟨_, owned, progress⟩) fun _ _ _ => id).bind
    exact fun _ => publish_guarded hidden known
  have attempted := @Guarded.attempt Digest Signature Unit services _ _ _
    (fun taken _ => staging ∈ taken) staged fun _ _ since own => since.taken own
  apply (attempted.weaken (fun _ _ owned => ⟨owned.1, owned⟩) fun _ _ _ => id).bind
  intro result
  -- what was published is there whether the staging directory goes away or not
  have removed := @Guarded.attempt Digest Signature Unit services _ _ _
    (fun _ shared => ∀ value, result = .ok value → shared.Present source)
    (@removeStaging_guarded Digest Signature services scenario staging hidden)
    fun _ _ since there value same => since.permitted.present (there value same)
  apply (removed.weaken (fun _ _ => And.symm) fun _ _ _ => id).bind
  intro cleanup
  have ended : Guarded services
      (fun _ shared => ∀ value, result = .ok value → shared.Present source)
      (Run.ofExcept result) fun _ _ shared => shared.Present source :=
    .ofExcept fun value same _ _ there => there value same
  apply (ended.weaken (fun _ _ => And.left) fun _ _ _ => id).bind
  exact fun _ => .ofExcept fun _ _ _ _ => id

theorem materializeSource_guarded {turns : Nat} :
    Guarded services (fun _ _ => True) (materializeSource scenario turns source)
      fun _ _ shared => Done services source shared := by
  have noted : ∀ info, services.pathInfos source.digest = some info →
      Guarded services (fun _ shared => shared.Present source ∧ True)
        (register scenario (fromUpstream services.nix services.hex info.upstream))
        fun _ _ shared => Done services source shared :=
    fun info known => (@Guarded.frame Digest Signature Unit services _ _ _
      (fun _ shared => shared.Present source) (register_guarded known)
      fun _ _ since => since.permitted.present).weaken (fun _ _ => id)
        fun _ _ _ ended => ⟨ended.1, fun _ => ended.2⟩
  apply symlinkMetadata_guarded.bind
  rintro (_ | _)
  · simp only [Bool.false_eq_true, ↓reduceIte, pure_bind]
    apply ((ask_guarded any_stable).weaken (fun _ _ _ => trivial) fun _ _ _ => id).bind
    rintro (_ | info)
    · exact .throw
    · apply Guarded.of_imp
      intro known
      apply (importSource_guarded known.symm).bind
      exact fun _ => (noted info known.symm).weaken (fun _ _ there => ⟨there, trivial⟩)
        fun _ _ _ => id
  · simp only [↓reduceIte]
    apply (isRegistered_guarded.weaken (fun _ _ there => there trivial) fun _ _ _ => id).bind
    rintro (_ | _)
    · simp only [Bool.false_eq_true, ↓reduceIte]
      apply ((ask_guarded present_stable).weaken (fun _ _ => And.left) fun _ _ _ => id).bind
      rintro (_ | info)
      · exact .pure fun taken shared ended => ⟨ended.2, by simp [← ended.1]⟩
      · apply Guarded.of_imp
        intro known
        exact (noted info known.symm).weaken (fun _ _ there => ⟨there, trivial⟩) fun _ _ _ => id
    · exact .pure fun taken shared ended => ⟨ended.1, fun _ => ended.2 rfl⟩

theorem mem_inputSources {knownPaths : KnownPaths} {drvPath : StorePath} {drv : Derivation}
    (known : knownPaths.lookup drvPath = some drv) (listed : source ∈ drv.inputSources) :
    source ∈ inputSources knownPaths := by
  rw [inputSources, List.mem_insertionSort, List.mem_dedup, List.mem_flatMap]
  exact ⟨⟨drvPath, drv⟩, AList.mem_lookup_iff.mp known, listed⟩

theorem materializeInputSources_guarded (turns : Nat) (knownPaths : KnownPaths) :
    Guarded services (fun _ _ => True) (materializeInputSources scenario turns knownPaths)
      fun _ _ shared => ∀ source ∈ inputSources knownPaths, Done services source shared := by
  intro origin
  have each : ∀ done source, Holds (Since services origin)
      (fun world => Since services origin world ∧ ∀ path ∈ done, Done services path world.shared)
      (materializeSource scenario turns source)
      fun _ world => Since services origin world ∧
        ∀ path ∈ done ++ [source], Done services path world.shared := by
    intro done source
    have framed := @Guarded.frame Digest Signature Unit services _ _ _
      (fun _ shared => ∀ path ∈ done, Done services path shared)
      (@materializeSource_guarded Digest Signature _ services scenario source turns)
      fun _ _ since held path member => (held path member).stable since.permitted
    apply (framed origin).weaken
    · exact fun _ => And.imp_right fun held => ⟨held, trivial⟩
    · rintro _ world ⟨since, held, last⟩
      refine ⟨since, ?_⟩
      intro path member
      rcases List.mem_append.mp member with earlier | same
      · exact held path earlier
      · rw [List.mem_singleton.mp same]
        exact last
  apply (Holds.forM (inputSources knownPaths) each).weaken
  · exact fun _ => And.imp_right fun _ _ member => absurd member List.not_mem_nil
  · exact fun _ _ => id

/-- Whatever fails and whatever other importers do, each source in the store is complete
afterwards. After a run without failure every input source of every derivation is there, and
registered where the services have it, which they do for what this evaluation imported. -/
theorem materializeInputSources_publishes (services : Services Digest Signature)
    (scenario : Scenario services) (turns : Nat) (knownPaths : KnownPaths) {start final : World}
    {result : Except String Unit} (complete : SourcesComplete services start.shared)
    (returned : (materializeInputSources scenario turns knownPaths).from_ start =
      some (result, final)) :
    SourcesComplete services final.shared ∧
      (result = .ok () → ∀ drvPath drv, knownPaths.lookup drvPath = some drv →
        ∀ source ∈ drv.inputSources, final.shared.Present source ∧
          ((services.pathInfos source.digest).isSome →
            final.shared.db.isRegistered (display source) = true)) := by
  have ended := materializeInputSources_guarded turns knownPaths start start result final
    ⟨.refl complete, trivial⟩ returned
  cases result with
  | error reason => exact ⟨ended.complete, fun failed => by cases failed⟩
  | ok done =>
      refine ⟨ended.1.complete, ?_⟩
      intro _ drvPath drv known source listed
      exact ended.2 source (mem_inputSources known listed)

/-- What a run changes on the way is at each moment what other importers expect of it. -/
theorem materializeInputSources_changes (scenario : Scenario services) (turns : Nat)
    (knownPaths : KnownPaths) {start final : World} {result : Except String Unit}
    (complete : SourcesComplete services start.shared)
    (returned : (materializeInputSources scenario turns knownPaths).from_ start =
      some (result, final)) :
    ∀ change ∈ final.changes, change ∈ start.changes ∨
      Allowed services final.taken change.1 change.2 := by
  have ended := materializeInputSources_guarded turns knownPaths start start result final
    ⟨.refl complete, trivial⟩ returned
  cases result with
  | error reason => exact ended.changes
  | ok done => exact ended.1.changes

end Loops

section Greeting

/-- A source directory with a script and a symlink to it. -/
def greetingServices : Castore.Services String where
  directories := fun digest =>
    if digest = "tree" then
      some { nodes := [⟨"hello".toList, .file "script" 2 true⟩,
              ⟨"hi".toList, .symlink "hello".toList⟩].toAList
             named := by decide }
    else none
  blobs := fun digest => if digest = "script" then some ⟨#[104, 105]⟩ else none

def greetingInfo : SourceInfo String String where
  upstream :=
    { storePath := helloPath
      references := []
      narSize := 0
      narSha256 := ⟨List.replicate 32 0, rfl⟩
      signatures := []
      deriver := none }
  node := .directory "tree" 2

def greetingSources : Services String String where
  castore := greetingServices
  pathInfos := fun digest => if digest = helloPath.digest then some greetingInfo else none
  keyed := by
    intro digest info found
    split at found
    · rename_i same
      cases found
      exact same.symm
    · cases found
  nix :=
    { fromAbsolutePath := fun _ => .error "not read"
      toAbsolutePath := display
      parseSignature := .ok
      showSignature := id }
  paths := rfl
  hex := Hex.hexLower

/-- One importer alone, without failures. -/
def undisturbed : Scenario greetingSources where
  processId := 7
  others := World.shared
  permitted := fun world => .refl world.taken world.shared
  faults := fun _ => none

def emptyWorld : World where
  shared := ⟨none, PathInfoDb.openAt literalHash "/nix/var/snix/pathinfo", 0⟩
  clock := 0
  taken := []
  changes := []

def greetingKnown : KnownPaths :=
  [⟨helloPath, { helloDerivation "out".toList with inputSources := [helloPath] }⟩].toAList

theorem greeting_published :
    ∃ final, (materializeInputSources undisturbed 4 greetingKnown).from_ emptyWorld =
        some (.ok (), final) ∧
      SourcesComplete greetingSources final.shared ∧ final.shared.Present helloPath := by
  have ends : ((materializeInputSources undisturbed 4 greetingKnown).from_ emptyWorld).map
      Prod.fst = some (.ok ()) := by
    decide +kernel
  obtain ⟨⟨result, final⟩, returned, same⟩ := Option.map_eq_some_iff.mp ends
  obtain rfl : result = .ok () := same
  have empty : SourcesComplete greetingSources emptyWorld.shared :=
    fun source present => absurd rfl present
  obtain ⟨complete, all⟩ := materializeInputSources_publishes greetingSources undisturbed 4
    greetingKnown empty returned
  exact ⟨final, returned, complete, (all rfl helloPath _ rfl helloPath (by decide)).1⟩

end Greeting

end NixRedox.SourceImport
