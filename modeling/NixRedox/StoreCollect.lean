import NixRedox.Attempts
import NixRedox.StoreGc

set_option autoImplicit false

/- What a garbage collection leaves registered and what it counts. -/
namespace NixRedox.Store

open GraphSearch (Reach Complete)

variable {hash : StorePathHash}

/-- Some root whose target is registered reaches the path. -/
def Needed (db : PathInfoDb hash) (roots : GcRoots) (path : String) : Prop :=
  ∃ root ∈ roots.listRoots, db.Registered root.target ∧ Reach (references db) root.target path

/-- Every path reachable from a registered root target is registered. -/
def RootsClosed (db : PathInfoDb hash) (roots : GcRoots) : Prop :=
  ∀ path, Needed db roots path → db.Registered path

/-- A root target with a metadata file is registered itself: it does not merely have the
digest of a registered path with another name. -/
def TargetsNamed (db : PathInfoDb hash) (roots : GcRoots) : Prop :=
  ∀ root ∈ roots.listRoots, db.Recorded root.target → db.Registered root.target

/-- What a successful collection comes to: the state it leaves, what it counts, what a
second run finds and what a dry run before it reports. -/
structure Exact (env : GcEnv) (db : PathInfoDb hash) (roots : GcRoots)
    (disk : String → DiskEntry) (after : GcState hash) (stats : GcStats) : Prop where
  registered : ∀ path, after.db.Registered path ↔ Needed db roots path
  counted : ∃ all, db.allPathsSet = .ok all ∧ all.Nodup ∧ (all.length < 2 ^ 32 →
    stats.pathsDeleted.toNat + stats.pathsKept.toNat = all.length)
  again : ∀ later, (garbageCollect later after.db roots after.disk false).1 =
      ⟨after.db, after.disk, []⟩ ∧
    ∀ second, (garbageCollect later after.db roots after.disk false).2 = .ok second →
      second.pathsDeleted = 0
  dry : ∃ reported, garbageCollect env db roots disk true = (⟨db, disk, []⟩, .ok reported) ∧
    reported.pathsDeleted = stats.pathsDeleted

section Marking

variable {db : PathInfoDb hash} {roots : GcRoots}

theorem Registered.recorded {path : String} (registered : db.Registered path) :
    db.Recorded path := by
  obtain ⟨info, found, -⟩ := registered
  exact ⟨info, found⟩

theorem mem_computeLiveSet_iff (named : TargetsNamed db roots) (closed : RootsClosed db roots)
    (path : String) : path ∈ computeLiveSet db roots ↔ Needed db roots path := by
  rw [mem_computeLiveSet]
  constructor
  · rintro ⟨root, member, complete, reached⟩
    have recorded := references_isSome_iff.mp (complete _ .refl)
    exact ⟨root, member, named root member recorded, reached⟩
  · rintro ⟨root, member, registered, reached⟩
    refine ⟨root, member, ?_, reached⟩
    intro other further
    have known := closed other ⟨root, member, registered, further⟩
    exact references_isSome_iff.mpr (Registered.recorded known)

theorem computeLiveSet_nodup (db : PathInfoDb hash) (roots : GcRoots) :
    (computeLiveSet db roots).Nodup :=
  (List.perm_insertionSort _ _).nodup_iff.mpr (List.nodup_dedup _)

theorem allPathsSet_nodup {all : List String} (listed : db.allPathsSet = .ok all) :
    all.Nodup := by
  obtain ⟨paths, -, rfl⟩ := Attempts.map_eq_ok.mp listed
  exact List.nodup_dedup paths

/-- What is dead and what is live make up what is registered. -/
theorem dead_live_length {all live : List String} (distinct : all.Nodup) (single : live.Nodup)
    (inside : ∀ path ∈ live, path ∈ all) :
    (all.filter (· ∉ live)).length + live.length = all.length := by
  have kept : (all.filter (· ∈ live)).Perm live := by
    apply (List.perm_ext_iff_of_nodup (distinct.filter _) single).mpr
    intro path
    rw [List.mem_filter]
    constructor
    · intro both
      exact of_decide_eq_true both.2
    · intro member
      exact ⟨inside path member, decide_eq_true member⟩
  have split := List.length_eq_length_filter_add (l := all) (· ∈ live)
  rw [kept.length_eq] at split
  have same : all.filter (fun path => !decide (path ∈ live)) = all.filter (· ∉ live) := by
    simp
  rw [same] at split
  omega

end Marking

section Sweeping

variable {env : GcEnv} {db : PathInfoDb hash} {roots : GcRoots} {disk : String → DiskEntry}
  {dryRun : Bool} {after : GcState hash} {stats final : GcStats} {all : List String}

/-- The registered paths that are not marked live. -/
def deadSet (db : PathInfoDb hash) (roots : GcRoots) (all : List String) : List String :=
  all.filter (· ∉ computeLiveSet db roots)

theorem garbageCollect_ok
    (ok : garbageCollect env db roots disk dryRun = (after, .ok stats)) :
    env.rootsFault = none ∧ ∃ all, db.allPathsSet = .ok all ∧
      sweep env dryRun (deadSet db roots all) ⟨db, disk, []⟩
        ⟨0, 0, UInt32.ofNat (computeLiveSet db roots).length⟩ = (after, .ok stats) := by
  unfold garbageCollect at ok
  cases listed : db.allPathsSet with
  | error reason =>
      rw [listed] at ok
      cases ok
  | ok all =>
      rw [listed] at ok
      cases fault : env.rootsFault with
      | some reason =>
          rw [fault] at ok
          cases ok
      | none =>
          rw [fault] at ok
          exact ⟨rfl, all, rfl, ok⟩

/-- A dry run only counts. -/
theorem sweep_dry (env : GcEnv) (dead : List String) (state : GcState hash) (stats : GcStats) :
    ∃ final, sweep env true dead state stats = (state, .ok final) ∧
      final.pathsDeleted = stats.pathsDeleted + UInt32.ofNat dead.length := by
  induction dead generalizing stats with
  | nil => exact ⟨stats, rfl, by simp⟩
  | cons path rest ih =>
      obtain ⟨final, swept, counted⟩ := ih { stats with
        pathsDeleted := stats.pathsDeleted + 1
        bytesFreed := stats.bytesFreed + env.pathSize path }
      refine ⟨final, swept, ?_⟩
      rw [counted, List.length_cons, UInt32.ofNat_add, add_assoc, add_comm (UInt32.ofNat _)]
      rfl

theorem mem_deadSet (listed : db.allPathsSet = .ok all) (path : String) :
    path ∈ deadSet db roots all ↔ db.Registered path ∧ path ∉ computeLiveSet db roots := by
  rw [deadSet, List.mem_filter, PathInfoDb.mem_allPathsSet listed]
  simp

/-- The metadata file of a live path stays what it was. -/
theorem sweep_keeps_live (env : GcEnv) (disk : String → DiskEntry) (stats : GcStats)
    (listed : db.allPathsSet = .ok all) {path stem : String} (registered : db.Registered path)
    (hashed : hash path = .ok stem) (live : path ∈ computeLiveSet db roots) :
    (sweep env false (deadSet db roots all) ⟨db, disk, []⟩ stats).1.db.files.lookup stem =
      db.files.lookup stem := by
  apply (sweep_frame env false _ ⟨db, disk, []⟩ stats path stem ?_).1
  intro other member
  obtain ⟨known, dead⟩ := (mem_deadSet listed other).mp member
  have different : other ≠ path := by
    rintro rfl
    exact dead live
  refine ⟨different, ?_⟩
  intro sameDigest
  exact different (Registered.digest_injective known registered sameDigest hashed)

theorem registered_after (listed : db.allPathsSet = .ok all)
    (swept : sweep env false (deadSet db roots all) ⟨db, disk, []⟩ stats = (after, .ok final))
    (path : String) :
    after.db.Registered path ↔ db.Registered path ∧ path ∈ computeLiveSet db roots := by
  have gone := (sweep_ok swept).2.2
  constructor
  · rintro ⟨info, found, named⟩
    obtain ⟨stem, hashed, stored⟩ := PathInfoDb.get_eq_some.mp found
    have apart : ∀ other ∈ deadSet db roots all, other ≠ path ∧ hash other ≠ .ok stem := by
      intro other member
      have digest : hash other ≠ .ok stem := by
        intro same
        rw [gone stem (.inr ⟨other, member, same⟩)] at stored
        cases stored
      refine ⟨?_, digest⟩
      rintro rfl
      exact digest hashed
    have frame := (sweep_frame env false _ ⟨db, disk, []⟩ stats path stem apart).1
    rw [swept] at frame
    have before : db.Registered path :=
      ⟨info, PathInfoDb.get_eq_some.mpr ⟨stem, hashed, frame.symm.trans stored⟩, named⟩
    refine ⟨before, ?_⟩
    by_contra dead
    exact (apart path ((mem_deadSet listed path).mpr ⟨before, dead⟩)).1 rfl
  · rintro ⟨registered, live⟩
    obtain ⟨info, found, named⟩ := registered
    obtain ⟨stem, hashed, stored⟩ := PathInfoDb.get_eq_some.mp found
    have kept := sweep_keeps_live env disk stats listed
      ⟨info, found, named⟩ hashed live
    rw [swept] at kept
    exact ⟨info, PathInfoDb.get_eq_some.mpr ⟨stem, hashed, kept.trans stored⟩, named⟩

end Sweeping

section Collecting

variable {env : GcEnv} {db : PathInfoDb hash} {roots : GcRoots} {disk : String → DiskEntry}
  {after : GcState hash} {stats final : GcStats}

/-- A live path has the references that it had. -/
theorem references_after {all : List String} (listed : db.allPathsSet = .ok all)
    (swept : sweep env false (deadSet db roots all) ⟨db, disk, []⟩ stats = (after, .ok final))
    {path : String} (registered : db.Registered path) (live : path ∈ computeLiveSet db roots) :
    references after.db path = references db path := by
  obtain ⟨info, found, named⟩ := registered
  obtain ⟨stem, hashed, stored⟩ := PathInfoDb.get_eq_some.mp found
  have kept := sweep_keeps_live env disk stats listed
    ⟨info, found, named⟩ hashed live
  rw [swept] at kept
  have later : after.db.get path = .ok (some info) :=
    PathInfoDb.get_eq_some.mpr ⟨stem, hashed, kept.trans stored⟩
  rw [references_eq_some.mpr ⟨info, later, rfl⟩, references_eq_some.mpr ⟨info, found, rfl⟩]

/-- What is left is live in what is left. -/
theorem live_after (named : TargetsNamed db roots) (closed : RootsClosed db roots)
    {all : List String} (listed : db.allPathsSet = .ok all)
    (swept : sweep env false (deadSet db roots all) ⟨db, disk, []⟩ stats = (after, .ok final))
    {path : String} (left : after.db.Registered path) :
    path ∈ computeLiveSet after.db roots := by
  have live := ((registered_after listed swept path).mp left).2
  obtain ⟨root, member, target, reached⟩ := (mem_computeLiveSet_iff named closed path).mp live
  have same : ∀ node, Reach (references db) root.target node →
      references after.db node = references db node := by
    intro node further
    have needed : Needed db roots node := ⟨root, member, target, further⟩
    exact references_after listed swept (closed node needed)
      ((mem_computeLiveSet_iff named closed node).mpr needed)
  refine (mem_computeLiveSet after.db roots path).mpr ⟨root, member, ?_, ?_⟩
  · intro node further
    have before := (GraphSearch.reach_congr same node).mp further
    have known := closed node ⟨root, member, target, before⟩
    rw [same node before]
    exact references_isSome_iff.mpr (Registered.recorded known)
  · exact (GraphSearch.reach_congr same path).mpr reached

/-- With nothing dead a collection changes and counts nothing. -/
theorem garbageCollect_idle
    (live : ∀ path, db.Registered path → path ∈ computeLiveSet db roots) (env : GcEnv) :
    (garbageCollect env db roots disk false).1 = ⟨db, disk, []⟩ ∧
      ∀ second, (garbageCollect env db roots disk false).2 = .ok second →
        second.pathsDeleted = 0 := by
  unfold garbageCollect
  cases listed : db.allPathsSet with
  | error reason => exact ⟨rfl, fun _ failed => by cases failed⟩
  | ok all =>
      cases env.rootsFault with
      | some reason => exact ⟨rfl, fun _ failed => by cases failed⟩
      | none =>
          have nothing : all.filter (· ∉ computeLiveSet db roots) = [] := by
            rw [List.filter_eq_nil_iff]
            intro path member
            have known := (PathInfoDb.mem_allPathsSet listed path).mp member
            simpa using live path known
          simp only [nothing, sweep, true_and]
          intro second same
          cases same
          rfl

/-- When no root target merely shares the digest of a registered path, and what the
registered targets reach is registered, a successful collection leaves exactly that. -/
theorem garbageCollect_exact (named : TargetsNamed db roots) (closed : RootsClosed db roots)
    (collected : garbageCollect env db roots disk false = (after, .ok stats)) :
    Exact env db roots disk after stats := by
  obtain ⟨readable, all, listed, swept⟩ := garbageCollect_ok collected
  have marked := mem_computeLiveSet_iff named closed
  obtain ⟨deleted, kept, -⟩ := sweep_ok swept
  refine ⟨?_, ⟨all, listed, allPathsSet_nodup listed, ?_⟩, ?_, ?_⟩
  · intro path
    rw [registered_after listed swept, marked]
    constructor
    · intro both
      exact both.2
    · intro needed
      exact ⟨closed path needed, needed⟩
  · have inside : ∀ path ∈ computeLiveSet db roots, path ∈ all := by
      intro path live
      exact (PathInfoDb.mem_allPathsSet listed path).mpr (closed path ((marked path).mp live))
    intro few
    have parts := dead_live_length (allPathsSet_nodup listed) (computeLiveSet_nodup db roots)
      inside
    have word : UInt32.size = 2 ^ 32 := rfl
    rw [deleted, kept, zero_add, deadSet, UInt32.toNat_ofNat_of_lt' (by omega),
      UInt32.toNat_ofNat_of_lt' (by omega), parts]
  · intro later
    exact garbageCollect_idle (fun path left => live_after named closed listed swept left) later
  · obtain ⟨reported, dry, counted⟩ := sweep_dry env (deadSet db roots all) ⟨db, disk, []⟩
      ⟨0, 0, UInt32.ofNat (computeLiveSet db roots).length⟩
    refine ⟨reported, ?_, counted.trans deleted.symm⟩
    simp only [garbageCollect, listed, readable]
    exact dry

end Collecting

section Examples

def barPath : String := "/nix/store/2c8kzfrjzhi7jkmz3fxcsyj7c5n2sp5s-bar"

/-- It has the digest of `foo`. -/
def renamedPath : String := "/nix/store/1b9jydsiygi6jhlz2dxbrxi6b4m1rn4r-renamed"

/-- `foo` refers to `bar`; both are registered. -/
def sharedDb : PathInfoDb literalHash :=
  let bar : PathInfo := ⟨barPath, "abc123", 100, [], none, []⟩
  let foo : PathInfo :=
    ⟨"/nix/store/1b9jydsiygi6jhlz2dxbrxi6b4m1rn4r-foo", "abc123", 100, [barPath], none, []⟩
  (((PathInfoDb.openAt literalHash "/nix/var/snix/pathinfo").register bar none).1.register
    foo none).1

def appRoots (target : String) : GcRoots := ⟨AList.singleton "app" target⟩

/-- A root that names `foo` otherwise keeps `bar`, which no registered target reaches, and
counts a path that was never registered. -/
theorem renamed_target_kept :
    ¬ ∀ (env : GcEnv) (db : PathInfoDb literalHash) (roots : GcRoots)
      (disk : String → DiskEntry) (after : GcState literalHash) (stats : GcStats),
      RootsClosed db roots → garbageCollect env db roots disk false = (after, .ok stats) →
      Exact env db roots disk after stats := by
  intro exact_
  have unregistered : ∀ root ∈ (appRoots renamedPath).listRoots,
      ¬ sharedDb.Registered root.target := by
    intro root member
    obtain rfl : root = ⟨"app", renamedPath⟩ :=
      List.mem_singleton.mp member
    rintro ⟨info, found, named⟩
    cases found
    simp [renamedPath] at named
  have closed : RootsClosed sharedDb (appRoots renamedPath) := by
    rintro path ⟨root, member, registered, -⟩
    exact absurd registered (unregistered root member)
  have collected := exact_ .faultless sharedDb (appRoots renamedPath) (fun _ => .dir) _ _
    closed (Prod.ext rfl rfl)
  obtain ⟨root, member, registered, -⟩ := (collected.registered barPath).mp ⟨_, rfl, rfl⟩
  exact unregistered root member registered

theorem shared_collected :
    Exact .faultless sharedDb (appRoots barPath) (fun _ => .dir)
      (garbageCollect .faultless sharedDb (appRoots barPath) (fun _ => .dir) false).1
      ⟨1, 0, 1⟩ := by
  have only : ∀ root ∈ (appRoots barPath).listRoots,
      root.target = barPath := by
    intro root member
    rw [List.mem_singleton.mp member]
  apply garbageCollect_exact
  · intro root member _
    rw [only root member]
    exact ⟨_, rfl, rfl⟩
  · rintro path ⟨root, member, -, reached⟩
    rw [only root member] at reached
    have alone : path = barPath := by
      refine reached.mem_of_closed (· = barPath) rfl ?_
      rintro parent children rfl expanded child inside
      obtain ⟨info, found, rfl⟩ := references_eq_some.mp expanded
      cases found
      cases inside
    exact alone ▸ ⟨_, rfl, rfl⟩
  · exact Prod.ext rfl (by decide +kernel)

end Examples

end NixRedox.Store
