import NixRedox.GraphSearch
import NixRedox.PathInfoDb

set_option autoImplicit false

/- `compute_closure` of `store.rs`. -/
namespace NixRedox.Store

open GraphSearch (Reach Complete search edges)

variable {hash : StorePathHash}

structure Closure where
  paths : List String
  totalNarSize : UInt64
  deriving DecidableEq, Repr

/-- What the loop of `compute_closure` takes from the database for one path. -/
def expandPath (db : PathInfoDb hash) (path : String) :
    Except String (UInt64 × List String) :=
  match db.get path with
  | .error reason => .error reason.toText
  | .ok none => .error s!"path not registered: {path}"
  | .ok (some info) => .ok (info.narSize, info.references)

/-- All references recorded anywhere in the database. -/
def allReferences (db : PathInfoDb hash) : List String :=
  db.files.entries.flatMap fun entry =>
    match entry.2 with
    | .info info => info.references
    | _ => []

theorem expandPath_eq_ok {db : PathInfoDb hash} {path : String} {size : UInt64}
    {references : List String} :
    expandPath db path = .ok (size, references) ↔
      ∃ info, db.get path = .ok (some info) ∧ info.narSize = size ∧
        info.references = references := by
  unfold expandPath
  cases db.get path with
  | error reason => simp
  | ok found => cases found <;> simp

theorem references_sublist {db : PathInfoDb hash} {stem : String} {info : PathInfo}
    (stored : db.files.lookup stem = some (.info info)) :
    List.Sublist info.references (allReferences db) := by
  have entry : (⟨stem, .info info⟩ : Sigma fun _ : String => InfoFile) ∈ db.files.entries :=
    AList.mem_lookup_iff.mp stored
  unfold allReferences
  rw [List.flatMap_def]
  exact List.sublist_flatten_of_mem (List.mem_map.mpr ⟨_, entry, rfl⟩)

theorem expandPath_references {db : PathInfoDb hash} {path : String} {size : UInt64}
    {references : List String} (found : expandPath db path = .ok (size, references)) :
    (∀ child ∈ references, child ∈ allReferences db) ∧
      references.length ≤ (allReferences db).length := by
  obtain ⟨info, present, -, rfl⟩ := expandPath_eq_ok.mp found
  obtain ⟨stem, -, stored⟩ := PathInfoDb.get_eq_some.mp present
  have sublist := references_sublist stored
  exact ⟨fun child member => sublist.subset member, sublist.length_le⟩

/-- An upper bound for the iterations of the closure loop. -/
def closureFuel (db : PathInfoDb hash) (root : String) : Nat :=
  GraphSearch.searchCost (root :: allReferences db) (allReferences db).length [] [root]

theorem closureSearch_terminates (db : PathInfoDb hash) (root : String) :
    (search (expandPath db) (· + ·) (closureFuel db root) root (0 : UInt64)).isSome := by
  apply GraphSearch.search_terminates _ _ (root :: allReferences db) (allReferences db).length
  · intro node size references found
    obtain ⟨members, narrow⟩ := expandPath_references found
    exact ⟨fun child member => List.mem_cons_of_mem _ (members child member), narrow⟩
  · exact List.mem_cons_self
  · exact Nat.le_refl _

/-- The closure loop started at the root; it always ends. -/
def closureSearch (db : PathInfoDb hash) (root : String) :
    Except String (List String × UInt64) :=
  (search (expandPath db) (· + ·) (closureFuel db root) root (0 : UInt64)).get
    (closureSearch_terminates db root)

theorem closureSearch_finished (db : PathInfoDb hash) (root : String) :
    search (expandPath db) (· + ·) (closureFuel db root) root (0 : UInt64) =
      some (closureSearch db root) := by
  simp only [closureSearch, Option.some_get]

def computeClosure (db : PathInfoDb hash) (root : String) : Except String Closure :=
  (closureSearch db root).map fun result =>
    ⟨result.1.insertionSort (· ≤ ·), result.2⟩

/-- The reference edges that `compute_closure` follows. -/
def references (db : PathInfoDb hash) : String → Option (List String) :=
  edges (expandPath db)

theorem references_eq_some {db : PathInfoDb hash} {path : String} {children : List String} :
    references db path = some children ↔
      ∃ info, db.get path = .ok (some info) ∧ info.references = children := by
  unfold references edges
  cases found : expandPath db path with
  | error reason =>
      simp only [reduceCtorEq, false_iff]
      rintro ⟨info, present, -⟩
      simp only [expandPath, present] at found
      cases found
  | ok expansion =>
      obtain ⟨size, listed⟩ := expansion
      obtain ⟨info, present, -, rfl⟩ := expandPath_eq_ok.mp found
      simp only [Option.some.injEq, present, Except.ok.injEq]
      constructor
      · rintro rfl
        exact ⟨info, rfl, rfl⟩
      · rintro ⟨other, rfl, same⟩
        exact same

/-- A closure is returned exactly for a root with a complete closure, and then
holds exactly the paths reachable from it. -/
theorem computeClosure_describes (db : PathInfoDb hash) (root : String) :
    match computeClosure db root with
    | .ok closure => (∀ path, path ∈ closure.paths ↔ Reach (references db) root path) ∧
        Complete (references db) root
    | .error _ => ¬ Complete (references db) root := by
  have finished := closureSearch_finished db root
  have description := GraphSearch.search_describes _ _ _ finished
  unfold computeClosure
  cases outcome : closureSearch db root with
  | error reason =>
      rw [outcome] at description
      exact description
  | ok result =>
      rw [outcome] at description
      simp only [Except.map]
      refine ⟨fun path => ?_, description.2⟩
      rw [List.mem_insertionSort]
      exact description.1 path

section Exactness

variable {db : PathInfoDb hash} {root : String}

/-- The `nar_size` that the database has for a path. -/
def narSizeOf (db : PathInfoDb hash) (path : String) : Nat :=
  match db.get path with
  | .ok (some info) => info.narSize.toNat
  | _ => 0

theorem references_isSome_iff {path : String} :
    (references db path).isSome ↔ db.Recorded path := by
  rw [Option.isSome_iff_exists]
  constructor
  · rintro ⟨children, found⟩
    obtain ⟨info, present, -⟩ := references_eq_some.mp found
    exact ⟨info, present⟩
  · rintro ⟨info, present⟩
    exact ⟨info.references, references_eq_some.mpr ⟨info, present, rfl⟩⟩

/-- The sum that the loop keeps is the sum of the sizes, as long as it fits. -/
theorem accumulated_total {visited : List String} {total : UInt64}
    (accumulated : GraphSearch.Accumulated (expandPath db) (· + ·) 0 visited total) :
    total.toNat = (visited.map (narSizeOf db)).sum % 2 ^ 64 := by
  obtain ⟨sizes, listed, rfl⟩ := accumulated
  induction listed with
  | nil => rfl
  | @cons path _ _ _ found _ ih =>
      obtain ⟨children, expanded⟩ := found
      obtain ⟨info, present, rfl, -⟩ := expandPath_eq_ok.mp expanded
      have size : narSizeOf db path = info.narSize.toNat := by
        simp only [narSizeOf, present]
      rw [List.foldr_cons, UInt64.toNat_add, ih, List.map_cons, List.sum_cons, size]
      omega

theorem computeClosure_eq_ok {closure : Closure} (ok : computeClosure db root = .ok closure) :
    closure.paths.Nodup ∧ closure.paths.Pairwise (· ≤ ·) ∧
      closure.totalNarSize.toNat = (closure.paths.map (narSizeOf db)).sum % 2 ^ 64 := by
  have finished := closureSearch_finished db root
  unfold computeClosure at ok
  cases searched : closureSearch db root with
  | error reason =>
      rw [searched] at ok
      cases ok
  | ok result =>
      obtain ⟨visited, total⟩ := result
      rw [searched] at ok finished
      cases ok
      obtain ⟨distinct, accumulated⟩ := GraphSearch.search_accumulates finished
      have sorted := List.perm_insertionSort (· ≤ ·) visited
      refine ⟨sorted.nodup_iff.mpr distinct, List.pairwise_insertionSort _ _, ?_⟩
      rw [accumulated_total accumulated, (sorted.map (narSizeOf db)).sum_eq]

/-- The loop ends; a closure is returned exactly when every path that can be reached is
registered and readable; and it holds these paths, each counted once. -/
theorem computeClosure_exact (db : PathInfoDb hash) (root : String) :
    (∃ result, search (expandPath db) (· + ·) (closureFuel db root) root 0 = some result ∧
      computeClosure db root = result.map fun found =>
        ⟨found.1.insertionSort (· ≤ ·), found.2⟩) ∧
    ((∃ closure, computeClosure db root = .ok closure) ↔
      ∀ path, Reach (references db) root path →
        db.isRegistered path = true ∧ db.Recorded path) ∧
    ∀ closure, computeClosure db root = .ok closure →
      (∀ path, path ∈ closure.paths ↔ Reach (references db) root path) ∧
      closure.paths.Nodup ∧ closure.paths.Pairwise (· ≤ ·) ∧
      ((closure.paths.map (narSizeOf db)).sum < 2 ^ 64 →
        closure.totalNarSize.toNat = (closure.paths.map (narSizeOf db)).sum) := by
  have described := computeClosure_describes db root
  refine ⟨⟨closureSearch db root, closureSearch_finished db root, rfl⟩, ?_, ?_⟩
  · constructor
    · rintro ⟨closure, ok⟩ path reached
      rw [ok] at described
      have recorded := references_isSome_iff.mp (described.2 path reached)
      exact ⟨recorded.isRegistered, recorded⟩
    · intro registered
      have complete : Complete (references db) root := by
        intro path reached
        exact references_isSome_iff.mpr (registered path reached).2
      cases outcome : computeClosure db root with
      | ok closure => exact ⟨closure, rfl⟩
      | error reason =>
          rw [outcome] at described
          exact absurd complete described
  · intro closure ok
    obtain ⟨distinct, sorted, total⟩ := computeClosure_eq_ok ok
    rw [ok] at described
    refine ⟨described.1, distinct, sorted, ?_⟩
    intro fits
    rw [total, Nat.mod_eq_of_lt fits]

end Exactness

end NixRedox.Store
