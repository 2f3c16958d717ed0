import NixRedox.GcRoots
import NixRedox.StoreClosure

set_option autoImplicit false

/- Mark and sweep over the store (`compute_live_set`, `garbage_collect` of
`store.rs`). -/
namespace NixRedox.Store

open GraphSearch (Reach Complete)

variable {hash : StorePathHash}

/-- The marking loop: a dangling root and a root whose closure cannot be computed
are skipped with a warning. -/
def liveLoop (db : PathInfoDb hash) : List GcRoot → List String → List String
  | [], live => live
  | root :: rest, live =>
      if db.isRegistered root.target then
        match computeClosure db root.target with
        | .ok closure => liveLoop db rest (live ++ closure.paths)
        | .error _ => liveLoop db rest live
      else
        liveLoop db rest live

def computeLiveSet (db : PathInfoDb hash) (roots : GcRoots) : List String :=
  (liveLoop db roots.listRoots []).dedup.insertionSort (· ≤ ·)

inductive DiskEntry where
  | absent
  | file
  | dir
  deriving DecidableEq, Repr

structure GcStats where
  pathsDeleted : UInt32
  bytesFreed : UInt64
  pathsKept : UInt32
  deriving DecidableEq, Repr

/-- What the operating system does during a collection: sizes, and the errors of
reading the roots directory, of removing a tree and of removing a metadata file.
A removal that fails may leave anything of the tree behind. -/
structure GcEnv where
  rootsFault : Option String
  pathSize : String → UInt64
  removeFault : String → Option String
  residue : String → DiskEntry
  deleteFault : String → Option String

/-- No operation fails. -/
def GcEnv.faultless : GcEnv where
  rootsFault := none
  pathSize := fun _ => 0
  removeFault := fun _ => none
  residue := fun _ => .absent
  deleteFault := fun _ => none

/-- Database and disk of a collection, with the paths handed to
`remove_dir_all` or `remove_file` so far. -/
structure GcState (hash : StorePathHash) where
  db : PathInfoDb hash
  disk : String → DiskEntry
  removed : List String

/-- Remove a store path from the filesystem, if it is there. -/
def removeTree (env : GcEnv) (path : String) (state : GcState hash) :
    GcState hash × Option String :=
  if state.disk path = .absent then
    (state, none)
  else
    match env.removeFault path with
    | none => ({ state with
        disk := fun other => if other = path then .absent else state.disk other
        removed := path :: state.removed }, none)
    | some reason => ({ state with
        disk := fun other => if other = path then env.residue path else state.disk other
        removed := path :: state.removed }, some reason)

/-- The sweeping loop. The filesystem tree goes first, then the metadata; the
first error ends the collection. -/
def sweep (env : GcEnv) (dryRun : Bool) :
    List String → GcState hash → GcStats → GcState hash × Except String GcStats
  | [], state, stats => (state, .ok stats)
  | path :: rest, state, stats =>
      let counted := { stats with
        pathsDeleted := stats.pathsDeleted + 1
        bytesFreed := stats.bytesFreed + env.pathSize path }
      if dryRun then
        sweep env dryRun rest state counted
      else
        match removeTree env path state with
        | (cleared, some reason) => (cleared, .error reason)
        | (cleared, none) =>
            match cleared.db.delete path (env.deleteFault path) with
            | .error reason => (cleared, .error reason.toText)
            | .ok db => sweep env dryRun rest { cleared with db := db } counted

def garbageCollect (env : GcEnv) (db : PathInfoDb hash) (roots : GcRoots)
    (disk : String → DiskEntry) (dryRun : Bool) : GcState hash × Except String GcStats :=
  let start : GcState hash := ⟨db, disk, []⟩
  match db.allPathsSet with
  | .error reason => (start, .error reason.toText)
  | .ok allPaths =>
      match env.rootsFault with
      | some reason => (start, .error reason)
      | none =>
          let liveSet := computeLiveSet db roots
          let deadSet := allPaths.filter (· ∉ liveSet)
          let stats : GcStats := ⟨0, 0, UInt32.ofNat liveSet.length⟩
          sweep env dryRun deadSet start stats

theorem mem_liveLoop (db : PathInfoDb hash) (roots : List GcRoot) (live : List String)
    (path : String) :
    path ∈ liveLoop db roots live ↔ path ∈ live ∨
      ∃ root ∈ roots, Complete (references db) root.target ∧
        Reach (references db) root.target path := by
  induction roots generalizing live with
  | nil => simp [liveLoop]
  | cons root rest ih =>
      have description := computeClosure_describes db root.target
      have registered : Complete (references db) root.target →
          db.isRegistered root.target = true := by
        intro complete
        obtain ⟨children, found⟩ := Option.isSome_iff_exists.mp (complete _ .refl)
        obtain ⟨info, present, -⟩ := references_eq_some.mp found
        obtain ⟨stem, hashed, stored⟩ := PathInfoDb.get_eq_some.mp present
        simp only [PathInfoDb.isRegistered, hashed, stored, Option.isSome_some]
      simp only [liveLoop, List.exists_mem_cons_iff]
      cases known : db.isRegistered root.target with
      | false =>
          have incomplete : ¬ Complete (references db) root.target := by
            intro complete
            rw [registered complete] at known
            cases known
          simp only [Bool.false_eq_true, ↓reduceIte, ih, incomplete, false_and, false_or]
      | true =>
          simp only [↓reduceIte]
          cases computed : computeClosure db root.target with
          | error reason =>
              rw [computed] at description
              simp only [ih, description, false_and, false_or]
          | ok closure =>
              rw [computed] at description
              simp only [ih, List.mem_append, description.1, description.2, true_and, or_assoc]

/-- A path is marked live exactly when some root with a complete closure reaches it. -/
theorem mem_computeLiveSet (db : PathInfoDb hash) (roots : GcRoots) (path : String) :
    path ∈ computeLiveSet db roots ↔
      ∃ root ∈ roots.listRoots, Complete (references db) root.target ∧
        Reach (references db) root.target path := by
  rw [computeLiveSet, List.mem_insertionSort, List.mem_dedup, mem_liveLoop]
  simp

@[simp] theorem removeTree_db (env : GcEnv) (path : String) (state : GcState hash) :
    (removeTree env path state).1.db = state.db := by
  unfold removeTree
  split
  · rfl
  · split <;> rfl

theorem removeTree_frame (env : GcEnv) (path : String) (state : GcState hash)
    (other : String) (apart : other ≠ path) :
    (removeTree env path state).1.disk other = state.disk other ∧
      (other ∈ (removeTree env path state).1.removed ↔ other ∈ state.removed) := by
  unfold removeTree
  split
  · exact ⟨rfl, Iff.rfl⟩
  · split
    · simp [apart]
    · simp [apart]

theorem delete_lookup_ne {db after : PathInfoDb hash} {path stem : String}
    {fault : Option String} (success : db.delete path fault = .ok after)
    (apart : hash path ≠ .ok stem) : after.files.lookup stem = db.files.lookup stem := by
  unfold PathInfoDb.delete at success
  split at success
  · cases success
  · rename_i own hashed
    have different : stem ≠ own := fun same => apart (same ▸ hashed)
    split at success
    · split at success
      · cases success
      · cases success
        exact db.eraseFile_lookup_ne different
    · cases success
      rfl

theorem delete_lookup_self {db after : PathInfoDb hash} {path stem : String}
    {fault : Option String} (success : db.delete path fault = .ok after)
    (hashed : hash path = .ok stem) : after.files.lookup stem = none := by
  simp only [PathInfoDb.delete, hashed] at success
  split at success
  · split at success
    · cases success
    · cases success
      exact db.eraseFile_lookup stem
  · rename_i missing
    cases success
    simpa using missing

/-- The sweep touches neither the tree nor the metadata of a path that shares no
name and no digest with the swept ones, wherever it stops. -/
theorem sweep_frame (env : GcEnv) (dryRun : Bool) (dead : List String)
    (state : GcState hash) (stats : GcStats) (path stem : String)
    (apart : ∀ other ∈ dead, other ≠ path ∧ hash other ≠ .ok stem) :
    (sweep env dryRun dead state stats).1.db.files.lookup stem = state.db.files.lookup stem ∧
      (sweep env dryRun dead state stats).1.disk path = state.disk path ∧
      (path ∈ (sweep env dryRun dead state stats).1.removed ↔ path ∈ state.removed) := by
  induction dead generalizing state stats with
  | nil => exact ⟨rfl, rfl, Iff.rfl⟩
  | cons other rest ih =>
      obtain ⟨different, ownDigest⟩ := apart other (by simp)
      have later : ∀ next ∈ rest, next ≠ path ∧ hash next ≠ .ok stem :=
        fun next member => apart next (by simp [member])
      have frame := removeTree_frame env other state path different.symm
      have sameDb := removeTree_db env other state
      rw [sweep]
      split
      · exact ih state _ later
      · split
        · rename_i cleared reason removed
          rw [removed] at frame sameDb
          exact ⟨by rw [sameDb], frame⟩
        · rename_i cleared removed
          rw [removed] at frame sameDb
          split
          · exact ⟨by rw [sameDb], frame⟩
          · rename_i db deleted
            have kept := delete_lookup_ne deleted ownDigest
            rw [sameDb] at kept
            obtain ⟨lookups, disks, removals⟩ := ih { cleared with db := db } _ later
            exact ⟨lookups.trans kept, disks.trans frame.1, removals.trans frame.2⟩

theorem removeTree_faultless (path : String) (state : GcState hash) :
    (removeTree .faultless path state).2 = none := by
  unfold removeTree
  split
  · rfl
  · rfl

theorem delete_faultless_isOk (db : PathInfoDb hash) {path stem : String}
    (hashed : hash path = .ok stem) : ∃ after, db.delete path none = .ok after := by
  simp only [PathInfoDb.delete, hashed]
  split
  · exact ⟨_, rfl⟩
  · exact ⟨_, rfl⟩

/-- A sweep that comes to its end has counted and unregistered every swept path. -/
theorem sweep_ok {env : GcEnv} {dead : List String} {state after : GcState hash}
    {stats final : GcStats} (ok : sweep env false dead state stats = (after, .ok final)) :
    final.pathsDeleted = stats.pathsDeleted + UInt32.ofNat dead.length ∧
      final.pathsKept = stats.pathsKept ∧
      ∀ stem, state.db.files.lookup stem = none ∨ (∃ path ∈ dead, hash path = .ok stem) →
        after.db.files.lookup stem = none := by
  induction dead generalizing state stats with
  | nil =>
      cases ok
      refine ⟨by simp, rfl, ?_⟩
      rintro stem (missing | ⟨path, member, -⟩)
      · exact missing
      · cases member
  | cons path rest ih =>
      have sameDb := removeTree_db env path state
      simp only [sweep, Bool.false_eq_true, ↓reduceIte] at ok
      split at ok
      · cases ok
      · rename_i cleared removed
        rw [removed] at sameDb
        split at ok
        · cases ok
        · rename_i db deleted
          obtain ⟨counted, kept, gone⟩ := ih ok
          refine ⟨?_, kept, ?_⟩
          · rw [counted, List.length_cons, UInt32.ofNat_add, add_assoc, add_comm (UInt32.ofNat _)]
            rfl
          · intro stem missing
            apply gone
            by_cases own : hash path = .ok stem
            · exact .inl (delete_lookup_self deleted own)
            · rcases missing with absent | ⟨other, member, digest⟩
              · left
                change db.files.lookup stem = none
                rw [delete_lookup_ne deleted own, sameDb]
                exact absent
              · rcases List.mem_cons.mp member with rfl | tail
                · exact absurd digest own
                · exact .inr ⟨other, tail, digest⟩

/-- Without faults the sweep comes to its end. -/
theorem sweep_faultless (dead : List String) (state : GcState hash) (stats : GcStats)
    (hashable : ∀ path ∈ dead, ∃ stem, hash path = .ok stem) :
    ∃ after final, sweep .faultless false dead state stats = (after, .ok final) := by
  induction dead generalizing state stats with
  | nil => exact ⟨state, stats, rfl⟩
  | cons path rest ih =>
      obtain ⟨own, hashed⟩ := hashable path (by simp)
      have clean := removeTree_faultless path state
      simp only [sweep, Bool.false_eq_true, ↓reduceIte]
      split
      · rename_i cleared reason removed
        rw [removed] at clean
        cases clean
      · rename_i cleared removed
        obtain ⟨left, deleted⟩ := delete_faultless_isOk cleared.db hashed
        have deleted' : cleared.db.delete path (GcEnv.faultless.deleteFault path) = .ok left :=
          deleted
        rw [deleted']
        exact ih _ _ fun next member => hashable next (by simp [member])

/-- The edges that the purpose of a GC root speaks about: references of paths
that are registered under their own name. -/
noncomputable def registeredReferences (db : PathInfoDb hash) (path : String) :
    Option (List String) :=
  open Classical in if db.Registered path then references db path else none

/-- Some root reaches the path through registered paths. -/
def Rooted (db : PathInfoDb hash) (roots : GcRoots) (path : String) : Prop :=
  ∃ root ∈ roots.listRoots, Reach (registeredReferences db) root.target path

/-- A collection left the path registered and its tree untouched. -/
def Keeps (disk : String → DiskEntry) (path : String) (after : GcState hash) : Prop :=
  after.db.Registered path ∧ after.disk path = disk path ∧ path ∉ after.removed

/-- What a GC root is for: whatever the operating system does, a collection keeps
every registered path that some root reaches. -/
def GcSafe (db : PathInfoDb hash) (roots : GcRoots) : Prop :=
  ∀ path, db.Registered path → Rooted db roots path →
    ∀ env disk, Keeps disk path (garbageCollect env db roots disk false).1

theorem registeredReferences_eq_some {db : PathInfoDb hash} {path : String}
    {children : List String} (found : registeredReferences db path = some children) :
    db.Registered path ∧ references db path = some children := by
  unfold registeredReferences at found
  split at found
  · rename_i registered
    exact ⟨registered, found⟩
  · cases found

theorem Registered.digest_injective {db : PathInfoDb hash} {first second stem : String}
    (firstKnown : db.Registered first) (secondKnown : db.Registered second)
    (firstDigest : hash first = .ok stem) (secondDigest : hash second = .ok stem) :
    first = second := by
  obtain ⟨info, found, named⟩ := firstKnown
  obtain ⟨other, otherFound, otherNamed⟩ := secondKnown
  have same : db.get first = db.get second := by
    unfold PathInfoDb.get
    rw [firstDigest, secondDigest]
  rw [found, otherFound] at same
  cases same
  exact named.symm.trans otherNamed

/-- A registered path is kept by every collection exactly when it is marked live
or the database cannot be listed. -/
theorem keeps_iff (db : PathInfoDb hash) (roots : GcRoots) (path : String)
    (registered : db.Registered path) :
    (∀ env disk, Keeps disk path (garbageCollect env db roots disk false).1) ↔
      db.Unlistable ∨ path ∈ computeLiveSet db roots := by
  obtain ⟨info, found, named⟩ := registered
  obtain ⟨stem, hashed, stored⟩ := PathInfoDb.get_eq_some.mp found
  constructor
  · intro keeps
    by_cases unlistable : db.Unlistable
    · exact .inl unlistable
    · right
      have kept := (keeps .faultless (fun _ => .absent)).1
      cases listed : db.allPathsSet with
      | error reason => exact False.elim (unlistable (db.allPathsSet_error_iff.mp ⟨reason, listed⟩))
      | ok allPaths =>
          apply Classical.byContradiction
          intro dead
          have doomed : path ∈ allPaths.filter (· ∉ computeLiveSet db roots) := by
            refine List.mem_filter.mpr ⟨?_, by simpa using dead⟩
            exact (PathInfoDb.mem_allPathsSet listed path).mpr ⟨info, found, named⟩
          have hashable : ∀ other ∈ allPaths.filter (· ∉ computeLiveSet db roots),
              ∃ digest, hash other = .ok digest := by
            intro other member
            obtain ⟨stored, present, named⟩ :=
              (PathInfoDb.mem_allPathsSet listed other).mp (List.mem_of_mem_filter member)
            obtain ⟨digest, digested, -⟩ := PathInfoDb.get_eq_some.mp present
            exact ⟨digest, digested⟩
          obtain ⟨after, final, swept⟩ := sweep_faultless _ ⟨db, fun _ => .absent, []⟩
            ⟨0, 0, UInt32.ofNat (computeLiveSet db roots).length⟩ hashable
          have gone := (sweep_ok swept).2.2 stem (.inr ⟨path, doomed, hashed⟩)
          obtain ⟨left, present, named⟩ := kept
          obtain ⟨digest, digested, there⟩ := PathInfoDb.get_eq_some.mp present
          rw [hashed, Except.ok.injEq] at digested
          subst digested
          simp only [garbageCollect, listed, GcEnv.faultless] at there
          simp only [GcEnv.faultless] at swept
          rw [swept, gone] at there
          cases there
  · intro safe env disk
    have unchanged : Keeps disk path (⟨db, disk, []⟩ : GcState hash) :=
      ⟨⟨info, found, named⟩, rfl, by simp⟩
    unfold garbageCollect
    cases listed : db.allPathsSet with
    | error reason => exact unchanged
    | ok allPaths =>
        cases env.rootsFault with
        | some reason => exact unchanged
        | none =>
            have live : path ∈ computeLiveSet db roots := by
              rcases safe with unlistable | live
              · obtain ⟨reason, failed⟩ := db.allPathsSet_error_iff.mpr unlistable
                rw [listed] at failed
                cases failed
              · exact live
            have apart : ∀ other ∈ allPaths.filter (· ∉ computeLiveSet db roots),
                other ≠ path ∧ hash other ≠ .ok stem := by
              intro other member
              obtain ⟨inAll, notLive⟩ := List.mem_filter.mp member
              have different : other ≠ path := by
                rintro rfl
                exact absurd live (by simpa using notLive)
              refine ⟨different, fun sameDigest => different ?_⟩
              exact Registered.digest_injective
                ((PathInfoDb.mem_allPathsSet listed other).mp inAll) ⟨info, found, named⟩
                sameDigest hashed
            obtain ⟨lookups, disks, removals⟩ := sweep_frame env false _ ⟨db, disk, []⟩
              ⟨0, 0, UInt32.ofNat (computeLiveSet db roots).length⟩ path stem apart
            refine ⟨⟨info, PathInfoDb.get_eq_some.mpr ⟨stem, hashed, ?_⟩, named⟩, disks, ?_⟩
            · exact lookups.trans stored
            · rw [removals]
              simp

/-- Collections keep every registered path that a root reaches exactly when every
root with a registered target has a complete closure; a database that cannot be
listed is never collected at all. -/
theorem gcSafe_iff (db : PathInfoDb hash) (roots : GcRoots) :
    GcSafe db roots ↔ db.Unlistable ∨
      ∀ root ∈ roots.listRoots, db.Registered root.target →
        Complete (references db) root.target := by
  constructor
  · intro safe
    by_cases unlistable : db.Unlistable
    · exact .inl unlistable
    · right
      intro root member registered
      have rooted : Rooted db roots root.target := ⟨root, member, .refl⟩
      have live := (keeps_iff db roots root.target registered).mp
        (safe root.target registered rooted)
      rcases live with blocked | marked
      · exact False.elim (unlistable blocked)
      · obtain ⟨other, -, complete, reached⟩ := (mem_computeLiveSet db roots _).mp marked
        exact fun path further => complete path (reached.trans further)
  · intro condition path registered rooted
    apply (keeps_iff db roots path registered).mpr
    rcases condition with unlistable | complete
    · exact .inl unlistable
    · right
      obtain ⟨root, member, reached⟩ := rooted
      have start : db.Registered root.target := by
        rcases reached.root_expanded with same | expanded
        · exact same ▸ registered
        · obtain ⟨children, found⟩ := Option.isSome_iff_exists.mp expanded
          exact (registeredReferences_eq_some found).1
      refine (mem_computeLiveSet db roots path).mpr ⟨root, member, complete root member start, ?_⟩
      refine reached.mono ?_
      intro parent children expanded
      exact ⟨children, (registeredReferences_eq_some expanded).2, fun _ member => member⟩

/-- `a` refers to the registered `b` and to a path that was never registered. -/
def danglingDb : PathInfoDb literalHash :=
  let info (path : String) (references : List String) : PathInfo :=
    ⟨path, "abc123", 100, references, none, []⟩
  let b := info "/nix/store/2c8kzfrjzhi7jkmz3fxcsyj7c5n2sp5s-b-2.0" []
  let a := info "/nix/store/1b9jydsiygi6jhlz2dxbrxi6b4m1rn4r-a-1.0"
    ["/nix/store/2c8kzfrjzhi7jkmz3fxcsyj7c5n2sp5s-b-2.0",
      "/nix/store/3d7lxgskakh8klnz4gydrzk8d6p3rq6r-gone-3.0"]
  (((PathInfoDb.openAt literalHash "/nix/var/snix/pathinfo").register b none).1.register a none).1

def danglingRoots : GcRoots :=
  ⟨AList.singleton "app" "/nix/store/1b9jydsiygi6jhlz2dxbrxi6b4m1rn4r-a-1.0"⟩

/-- One dangling reference in the closure of a root costs the root and the
dependencies it should protect: the collection removes the rooted `a` and `b`. -/
theorem garbageCollect_removes_rooted :
    danglingDb.Registered "/nix/store/2c8kzfrjzhi7jkmz3fxcsyj7c5n2sp5s-b-2.0" ∧
      Rooted danglingDb danglingRoots "/nix/store/2c8kzfrjzhi7jkmz3fxcsyj7c5n2sp5s-b-2.0" ∧
      ¬ Keeps (fun _ => .dir) "/nix/store/2c8kzfrjzhi7jkmz3fxcsyj7c5n2sp5s-b-2.0"
        (garbageCollect .faultless danglingDb danglingRoots (fun _ => .dir) false).1 := by
  have registeredA : danglingDb.Registered
      "/nix/store/1b9jydsiygi6jhlz2dxbrxi6b4m1rn4r-a-1.0" := ⟨_, rfl, rfl⟩
  refine ⟨⟨_, rfl, rfl⟩, ⟨⟨"app", "/nix/store/1b9jydsiygi6jhlz2dxbrxi6b4m1rn4r-a-1.0"⟩,
    by decide, ?_⟩, ?_⟩
  · have edges : registeredReferences danglingDb
        "/nix/store/1b9jydsiygi6jhlz2dxbrxi6b4m1rn4r-a-1.0" =
        some ["/nix/store/2c8kzfrjzhi7jkmz3fxcsyj7c5n2sp5s-b-2.0",
          "/nix/store/3d7lxgskakh8klnz4gydrzk8d6p3rq6r-gone-3.0"] := by
      rw [registeredReferences, if_pos registeredA]
      rfl
    exact .step .refl edges (by simp)
  · rintro ⟨-, -, untouched⟩
    exact untouched (by decide +kernel)

end NixRedox.Store
