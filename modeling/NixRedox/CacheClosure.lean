import NixRedox.CacheFetch

set_option autoImplicit false

/- Closure of the database under references through `fetch_recursive`. -/
namespace NixRedox.Cache

open GraphSearch (Reach Reached FailsAt)

variable {hash : StorePathHash}

/-- What holds between iterations: a reference of a record is recorded or queued, what
is visited is on disk and recorded, and its references are visited or queued. -/
structure FetchInv (root : String) (visited queue : List String) (store : Local hash) :
    Prop where
  root_seen : root ∈ visited ∨ root ∈ queue
  frontier : ∀ stem info, store.db.files.lookup stem = some (.info info) →
    ∀ reference ∈ info.references, reference ∈ queue ∨ store.db.Recorded reference
  done : ∀ path ∈ visited, path ∈ store.present ∧ store.db.Recorded path
  followed : ∀ path ∈ visited, ∀ info, store.db.get path = .ok (some info) →
    ∀ reference ∈ info.references, reference ∈ visited ∨ reference ∈ queue

section Invariant

variable {cache : BinaryCache} {faults : String → Faults} {root path : String}
  {visited queue children : List String} {store next : Local hash}

theorem FetchInv.init (closed : store.db.ReferenceClosed) :
    FetchInv root [] [root] store where
  root_seen := .inr List.mem_cons_self
  frontier := fun stem info stored reference member =>
    .inr (PathInfoDb.referenceClosed_iff.mp closed stem info stored reference member)
  done := by simp
  followed := by simp

theorem FetchInv.skip (inv : FetchInv root visited (path :: queue) store)
    (seen : path ∈ visited) : FetchInv root visited queue store where
  root_seen := by
    rcases inv.root_seen with done | waiting
    · exact .inl done
    · rcases List.mem_cons.mp waiting with same | later
      · exact .inl (same ▸ seen)
      · exact .inr later
  frontier := by
    intro stem info stored reference member
    rcases inv.frontier stem info stored reference member with waiting | recorded
    · rcases List.mem_cons.mp waiting with same | later
      · exact .inr (same ▸ (inv.done path seen).2)
      · exact .inl later
    · exact .inr recorded
  done := inv.done
  followed := by
    intro parent member info found reference listed
    rcases inv.followed parent member info found reference listed with done | waiting
    · exact .inl done
    · rcases List.mem_cons.mp waiting with same | later
      · exact .inl (same ▸ seen)
      · exact .inr later

/-- A visit that follows the record of a path on disk. -/
theorem FetchInv.follow {info : PathInfo} (inv : FetchInv root visited (path :: queue) store)
    (present : path ∈ store.present) (found : store.db.get path = .ok (some info)) :
    FetchInv root (path :: visited)
      (queue ++ info.references.filter (· ∉ path :: visited)) store := by
  have own : store.db.Recorded path := ⟨info, found⟩
  refine ⟨GraphSearch.mem_after_visit (inv.root_seen.imp_right .inl), ?_, ?_, ?_⟩
  · intro stem other stored reference member
    rcases inv.frontier stem other stored reference member with waiting | recorded
    · rcases List.mem_cons.mp waiting with popped | later
      · exact .inr (popped ▸ own)
      · exact .inl (List.mem_append_left _ later)
    · exact .inr recorded
  · intro other member
    rcases List.mem_cons.mp member with popped | old
    · exact popped ▸ ⟨present, own⟩
    · exact inv.done other old
  · intro parent member other known reference referred
    apply GraphSearch.mem_after_visit
    rcases List.mem_cons.mp member with popped | old
    · subst popped
      rw [found, Except.ok.injEq, Option.some.injEq] at known
      exact .inr (.inr (known ▸ referred))
    · exact (inv.followed parent old other known reference referred).imp_right .inl

/-- A visit that writes a record for a path now on disk. -/
theorem FetchInv.write {digest : String} {info : PathInfo} {own : hash info.storePath = .ok digest}
    (inv : FetchInv root visited (path :: queue) store) (hashed : hash path = .ok digest)
    (written : next.db = store.db.writeFile digest info own) (present : path ∈ next.present)
    (kept : ∀ other ∈ store.present, other ∈ next.present) :
    FetchInv root (path :: visited)
      (queue ++ info.references.filter (· ∉ path :: visited)) next := by
  have inserted : next.db.files.lookup digest = some (.info info) := by
    rw [written]
    exact AList.lookup_insert _
  have others : ∀ stem, stem ≠ digest →
      next.db.files.lookup stem = store.db.files.lookup stem := by
    intro stem apart
    rw [written]
    exact AList.lookup_insert_ne apart
  have stays : ∀ other, store.db.Recorded other → next.db.Recorded other := by
    intro other recorded
    rw [written]
    exact PathInfoDb.writeFile_recorded own recorded
  have recordedPath : next.db.Recorded path :=
    PathInfoDb.recorded_iff.mpr ⟨digest, info, hashed, inserted⟩
  have finished : ∀ other ∈ path :: visited,
      other ∈ next.present ∧ next.db.Recorded other := by
    intro other member
    rcases List.mem_cons.mp member with popped | old
    · exact popped ▸ ⟨present, recordedPath⟩
    · obtain ⟨there, recorded⟩ := inv.done other old
      exact ⟨kept other there, stays other recorded⟩
  refine ⟨GraphSearch.mem_after_visit (inv.root_seen.imp_right .inl), ?_, finished, ?_⟩
  · intro stem other stored reference member
    by_cases same : stem = digest
    · subst same
      cases inserted.symm.trans stored
      have place := @GraphSearch.mem_after_visit _ _ visited queue _ path _ (.inr (.inr member))
      rcases place with done | waiting
      · exact .inr (finished reference done).2
      · exact .inl waiting
    · rw [others stem same] at stored
      rcases inv.frontier stem other stored reference member with waiting | recorded
      · rcases List.mem_cons.mp waiting with popped | later
        · exact .inr (popped ▸ recordedPath)
        · exact .inl (List.mem_append_left _ later)
      · exact .inr (stays reference recorded)
  · intro parent member other known reference referred
    apply GraphSearch.mem_after_visit
    obtain ⟨stem, named, stored⟩ := PathInfoDb.get_eq_some.mp known
    by_cases same : stem = digest
    · -- Another name for the digest just written has the new references too.
      subst same
      cases inserted.symm.trans stored
      exact .inr (.inr referred)
    · rw [others stem same] at stored
      rcases List.mem_cons.mp member with popped | old
      · subst popped
        exact absurd (Except.ok.inj (named.symm.trans hashed)) same
      · have before := PathInfoDb.get_eq_some.mpr ⟨stem, named, stored⟩
        exact (inv.followed parent old other before reference referred).imp_right .inl

theorem FetchInv.visit (inv : FetchInv root visited (path :: queue) store)
    (visits : Visits cache store next path children) :
    FetchInv root (path :: visited) (queue ++ children.filter (· ∉ path :: visited)) next := by
  cases visits with
  | follows same present info found listed =>
      subst same listed
      exact inv.follow present found
  | writes digest narinfo hashed offered listed own written present kept =>
      subst listed
      exact inv.write hashed written present kept

theorem fetchInv_of_reached (closed : store.db.ReferenceClosed)
    (reached : Reached (visitPath cache faults) root store visited queue next) :
    FetchInv root visited queue next := by
  induction reached with
  | start => exact .init closed
  | skip before seen ih => exact ih.skip seen
  | visit before fresh step ih => exact ih.visit (visitPath_ok step)

/-- With nothing left to do, the database is closed and all that can be reached is there. -/
theorem FetchInv.exhausted (inv : FetchInv root visited [] store) :
    store.db.ReferenceClosed ∧ ∀ path, Reach (Store.references store.db) root path →
      path ∈ store.present ∧ store.db.Recorded path := by
  constructor
  · apply PathInfoDb.referenceClosed_iff.mpr
    intro stem info stored reference member
    exact (inv.frontier stem info stored reference member).resolve_left List.not_mem_nil
  · intro path reached
    apply inv.done
    apply reached.mem_of_closed (· ∈ visited)
    · exact inv.root_seen.resolve_right List.not_mem_nil
    · intro parent children member expanded child listed
      obtain ⟨info, found, same⟩ := Store.references_eq_some.mp expanded
      subst same
      exact (inv.followed parent member info found child listed).resolve_right List.not_mem_nil

/-- A failure at a path does no harm: what the remaining records refer to, as far as it
is still queued, is recorded, and none of it is torn. -/
def SafeToFail (cache : BinaryCache) (faults : String → Faults) (store : Local hash)
    (path : String) (queue : List String) : Prop :=
  ∀ stem info, store.db.files.lookup stem = some (.info info) →
    ¬ Tears cache faults store path stem → ∀ reference ∈ info.references,
      (reference ∈ path :: queue → store.db.Recorded reference) ∧
        ∀ digest, hash reference = .ok digest → ¬ Tears cache faults store path digest

theorem FetchInv.closed_iff_safe (inv : FetchInv root visited (path :: queue) store)
    (left : Leaves cache faults store next path) :
    next.db.ReferenceClosed ↔ SafeToFail cache faults store path queue := by
  rw [PathInfoDb.referenceClosed_iff]
  rcases left with ⟨same, whole⟩ | ⟨digest, text, tears, same⟩
  · rw [same]
    constructor
    · intro closed stem info stored _ reference member
      exact ⟨fun _ => closed stem info stored reference member, fun other _ => whole other⟩
    · intro safe stem info stored reference member
      rcases inv.frontier stem info stored reference member with waiting | recorded
      · exact (safe stem info stored (whole stem) reference member).1 waiting
      · exact recorded
  · have only : ∀ stem, Tears cache faults store path stem ↔ stem = digest := by
      intro stem
      constructor
      · intro also
        exact Except.ok.inj (also.1.2.1.symm.trans tears.1.2.1)
      · intro equal
        exact equal ▸ tears
    rw [same]
    simp only [PathInfoDb.tearFile_lookup, PathInfoDb.tearFile_recorded]
    constructor
    · intro closed stem info stored untorn reference member
      have apart : stem ≠ digest := fun equal => untorn ((only stem).mpr equal)
      obtain ⟨recorded, elsewhere⟩ := closed stem info ⟨apart, stored⟩ reference member
      refine ⟨fun _ => recorded, ?_⟩
      intro other hashed also
      rw [(only other).mp also] at hashed
      exact elsewhere hashed
    · intro safe stem info ⟨apart, stored⟩ reference member
      have untorn : ¬ Tears cache faults store path stem := fun also => apart ((only stem).mp also)
      obtain ⟨queued, elsewhere⟩ := safe stem info stored untorn reference member
      constructor
      · rcases inv.frontier stem info stored reference member with waiting | recorded
        · exact queued waiting
        · exact recorded
      · intro hashed
        exact elsewhere digest hashed tears

end Invariant

/-- From a closed database, `fetch_recursive` leaves a closed one, with everything
reachable there when it succeeds, exactly when it fails only where that is safe. -/
theorem fetchRecursive_closed_iff (cache : BinaryCache) (faults : String → Faults)
    (store : Local hash) (root : String) (closed : store.db.ReferenceClosed) :
    ((fetchRecursive cache faults store root).1.db.ReferenceClosed ∧
      ((fetchRecursive cache faults store root).2 = .ok () →
        ∀ path, Reach (Store.references (fetchRecursive cache faults store root).1.db) root path →
          path ∈ (fetchRecursive cache faults store root).1.present ∧
            (fetchRecursive cache faults store root).1.db.Recorded path)) ↔
      ∀ visited queue path before after reason,
        FailsAt (visitPath cache faults) root store visited queue path before after reason →
          SafeToFail cache faults before path queue := by
  have finished := fetchLoop_finished cache faults store root
  have ended : GraphSearch.Ends (visitPath cache faults) root store
      (fetchLoop cache faults store root).1 (fetchLoop cache faults store root).2 :=
    GraphSearch.walk_ends _ .start finished
  constructor
  · intro ⟨kept, _⟩ visited queue path before after reason fails
    have stopped := GraphSearch.walk_of_failsAt finished fails
    have inv := fetchInv_of_reached closed fails.reached
    apply (inv.closed_iff_safe (visitPath_error fails.step)).mp
    simp only [fetchRecursive, stopped] at kept
    exact kept
  · intro safe
    unfold fetchRecursive
    cases outcome : fetchLoop cache faults store root with
    | mk after result =>
        rw [outcome] at ended
        cases result with
        | ok visited =>
            obtain ⟨kept, complete⟩ := (fetchInv_of_reached closed ended).exhausted
            exact ⟨kept, fun _ => complete⟩
        | error reason =>
            obtain ⟨visited, queue, path, before, fails⟩ := ended
            have inv := fetchInv_of_reached closed fails.reached
            refine ⟨(inv.closed_iff_safe (visitPath_error fails.step)).mpr
              (safe visited queue path before after reason fails), ?_⟩
            intro succeeded
            cases succeeded

def app : String := "/nix/store/1b9jydsiygi6jhlz2dxbrxi6b4m1rn4r-app"

def lib : String := "/nix/store/0c5b8vw40dy178xlpddw65q9gf1h2186-lib"

/-- A cache that offers a program but not its library. -/
def appOnly : BinaryCache :=
  AList.singleton "1b9jydsiygi6jhlz2dxbrxi6b4m1rn4r" ⟨"00", 1, [lib], none, []⟩

def appAndLib : BinaryCache :=
  appOnly.insert "0c5b8vw40dy178xlpddw65q9gf1h2186" ⟨"01", 1, [app], none, []⟩

def noFaults : String → Faults := fun _ => ⟨none, none, none, none, none⟩

def emptyStore : Local literalHash := ⟨PathInfoDb.openAt literalHash "/nix/var/snix/pathinfo", []⟩

theorem emptyStore_closed : emptyStore.db.ReferenceClosed := by
  intro path info found
  obtain ⟨stem, _, stored⟩ := PathInfoDb.get_eq_some.mp found
  cases stored

/-- A program and a library that refer to each other. -/
theorem fetchRecursive_closed_app :
    (fetchRecursive appAndLib noFaults emptyStore app).2 = .ok () ∧
      (fetchRecursive appAndLib noFaults emptyStore app).1.db.ReferenceClosed := by
  have succeeds : (fetchLoop appAndLib noFaults emptyStore app).2 = .ok [lib, app] := rfl
  refine ⟨rfl, ?_⟩
  refine ((fetchRecursive_closed_iff appAndLib noFaults emptyStore app
    emptyStore_closed).mpr ?_).1
  intro visited queue path before after reason fails
  have stopped := GraphSearch.walk_of_failsAt (fetchLoop_finished appAndLib noFaults emptyStore app)
    fails
  rw [stopped] at succeeds
  cases succeeds

/-- The program is registered although its library cannot be fetched. -/
theorem fetchRecursive_leaves_dangling :
    ¬ ∀ (cache : BinaryCache) (faults : String → Faults) (store : Local literalHash)
        (root : String), store.db.ReferenceClosed →
        (fetchRecursive cache faults store root).1.db.ReferenceClosed ∧
          ((fetchRecursive cache faults store root).2 = .ok () → ∀ path,
            Reach (Store.references (fetchRecursive cache faults store root).1.db) root path →
            path ∈ (fetchRecursive cache faults store root).1.present ∧
              (fetchRecursive cache faults store root).1.db.Recorded path) := by
  intro always
  have closed := (always appOnly noFaults emptyStore app emptyStore_closed).1
  have registered : (fetchRecursive appOnly noFaults emptyStore app).1.db.get app =
      .ok (some ⟨app, "sha256:00", 1, [lib], none, []⟩) := rfl
  have missing : (fetchRecursive appOnly noFaults emptyStore app).1.db.get lib = .ok none := rfl
  obtain ⟨info, found⟩ := closed app _ registered lib List.mem_cons_self
  rw [missing] at found
  cases found

end NixRedox.Cache
