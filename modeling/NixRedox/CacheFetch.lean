import NixRedox.StoreClosure

set_option autoImplicit false

/- `fetch_recursive` of `cache.rs`: fetching a closure from a binary cache. -/
namespace NixRedox.Cache

open GraphSearch (walk)

variable {hash : StorePathHash}

/-- What is used of a parsed narinfo. The NAR hash is in lowercase hex, references
and deriver are absolute paths. -/
structure NarInfo where
  narHash : String
  narSize : UInt64
  references : List String
  deriver : Option String
  signatures : List String
  deriving DecidableEq, Repr

/-- A binary cache: a narinfo for each digest it knows. -/
abbrev BinaryCache := AList fun _ : String => NarInfo

/-- A NAR that cannot be fetched, decompressed, extracted or verified; something may
be left at the destination. -/
structure NarFault where
  reason : String
  leaves : Bool
  deriving DecidableEq, Repr

/-- What goes wrong for one path. A path is visited once, so each step on the way to
its registration is taken at most once. -/
structure Faults where
  narinfo : Option String
  storeDir : Option String
  narinfoAgain : Option String
  nar : Option NarFault
  registration : Option PathInfoDb.WriteFault
  deriving DecidableEq, Repr

/-- The database, and the store paths that are on disk. -/
structure Local (hash : StorePathHash) where
  db : PathInfoDb hash
  present : List String

/-- Something is at a path now. -/
def Local.putPath (store : Local hash) (path : String) : Local hash :=
  { store with present := path :: store.present }

theorem putPath_db (store : Local hash) (path : String) : (store.putPath path).db = store.db := rfl

def fromNarinfo (narinfo : NarInfo) (storePath : String) : PathInfo where
  storePath := storePath
  narHash := "sha256:" ++ narinfo.narHash
  narSize := narinfo.narSize
  references := narinfo.references
  deriver := narinfo.deriver
  signatures := narinfo.signatures

def fetchNarinfo (cache : BinaryCache) (fault : Option String) (digest : String) :
    Except String NarInfo :=
  match fault with
  | some reason => .error reason
  | none =>
      match cache.lookup digest with
      | none => .error "http status: 404"
      | some narinfo => .ok narinfo

def registerPathFromInfo (store : Local hash) (info : PathInfo)
    (fault : Option PathInfoDb.WriteFault) : Local hash × Except String Unit :=
  match store.db.register info fault with
  | (db, .ok ()) => ({ store with db }, .ok ())
  | (db, .error reason) => ({ store with db }, .error reason.toText)

/-- Download and extract one path; `registers` says whether a database is given. -/
def fetchInner (cache : BinaryCache) (faults : Faults) (store : Local hash) (path : String)
    (registers : Bool) : Local hash × Except String Unit :=
  match hash path with
  | .error reason => (store, .error reason)
  | .ok digest =>
      if path ∈ store.present then
        (store, .ok ())
      else
        match faults.storeDir with
        | some reason => (store, .error reason)
        | none =>
            match fetchNarinfo cache faults.narinfoAgain digest with
            | .error reason => (store, .error reason)
            | .ok narinfo =>
                match faults.nar with
                | some fault =>
                    (if fault.leaves then store.putPath path else store, .error fault.reason)
                | none =>
                    if registers then
                      registerPathFromInfo (store.putPath path) (fromNarinfo narinfo path)
                        faults.registration
                    else
                      (store.putPath path, .ok ())

/-- One iteration of the loop for a path that is not visited yet: the paths it refers to. -/
def visitPath (cache : BinaryCache) (faults : String → Faults) (store : Local hash)
    (path : String) : Local hash × Except String (List String) :=
  if path ∈ store.present ∧ store.db.isRegistered path = true then
    match store.db.get path with
    | .error reason => (store, .error reason.toText)
    | .ok none => (store, .ok [])
    | .ok (some info) => (store, .ok info.references)
  else
    match hash path with
    | .error reason => (store, .error reason)
    | .ok digest =>
        match fetchNarinfo cache (faults path).narinfo digest with
        | .error reason =>
            (store, .error ("failed to fetch narinfo for " ++ path ++ ": " ++ reason))
        | .ok narinfo =>
            let (after, result) :=
              if path ∉ store.present then
                fetchInner cache (faults path) store path true
              else
                registerPathFromInfo store (fromNarinfo narinfo path) (faults path).registration
            (after, result.map fun _ => narinfo.references)

/-- All references that a narinfo of the cache has. -/
def cacheReferences (cache : BinaryCache) : List String :=
  cache.entries.flatMap fun entry => entry.2.references

/-- All paths that a traversal from the root can come to. -/
def knownPaths (cache : BinaryCache) (store : Local hash) (root : String) : List String :=
  root :: (Store.allReferences store.db ++ cacheReferences cache)

/-- An upper bound for the iterations of the loop. -/
def fetchFuel (cache : BinaryCache) (store : Local hash) (root : String) : Nat :=
  GraphSearch.searchCost (knownPaths cache store root) (knownPaths cache store root).length
    [] [root]

/-- What a visit does when it succeeds: it follows a record that is there, or writes
one with the references it returns. -/
inductive Visits (cache : BinaryCache) (store next : Local hash) (path : String)
    (children : List String) : Prop where
  | follows (same : next = store) (present : path ∈ store.present) (info : PathInfo)
      (found : store.db.get path = .ok (some info)) (listed : info.references = children)
  | writes (digest : String) (narinfo : NarInfo) (hashed : hash path = .ok digest)
      (offered : cache.lookup digest = some narinfo) (listed : narinfo.references = children)
      (own : hash (fromNarinfo narinfo path).storePath = .ok digest)
      (written : next.db = store.db.writeFile digest (fromNarinfo narinfo path) own)
      (present : path ∈ next.present)
      (kept : ∀ other ∈ store.present, other ∈ next.present)

/-- The visit gets as far as writing a record. -/
def Registers (cache : BinaryCache) (faults : String → Faults) (store : Local hash)
    (path digest : String) : Prop :=
  ¬ (path ∈ store.present ∧ store.db.isRegistered path = true) ∧ hash path = .ok digest ∧
  (∃ narinfo, fetchNarinfo cache (faults path).narinfo digest = .ok narinfo) ∧
  (path ∉ store.present → (faults path).storeDir = none ∧
    (∃ narinfo, fetchNarinfo cache (faults path).narinfoAgain digest = .ok narinfo) ∧
    (faults path).nar = none)

/-- The visit leaves a torn file for the digest. -/
def Tears (cache : BinaryCache) (faults : String → Faults) (store : Local hash)
    (path digest : String) : Prop :=
  Registers cache faults store path digest ∧
    ∃ fault, (faults path).registration = some fault ∧ fault.torn = true

theorem fetchNarinfo_ok {cache : BinaryCache} {fault : Option String} {digest : String}
    {narinfo : NarInfo} (fetched : fetchNarinfo cache fault digest = .ok narinfo) :
    cache.lookup digest = some narinfo := by
  unfold fetchNarinfo at fetched
  split at fetched
  · cases fetched
  · split at fetched
    · cases fetched
    · rename_i found
      cases fetched
      exact found

section Visit

variable {cache : BinaryCache} {faults : String → Faults} {store next : Local hash}
  {path : String} {children : List String}

theorem registerPathFromInfo_ok {info : PathInfo} {fault : Option PathInfoDb.WriteFault}
    (registered : registerPathFromInfo store info fault = (next, .ok ())) :
    ∃ digest own, next = { store with db := store.db.writeFile digest info own } := by
  unfold registerPathFromInfo at registered
  split at registered
  · rename_i db written
    obtain ⟨_, digest, own, same⟩ := PathInfoDb.register_ok written
    cases registered
    exact ⟨digest, own, by rw [same]⟩
  · cases registered

theorem registerPathFromInfo_error {info : PathInfo} {fault : Option PathInfoDb.WriteFault}
    {digest reason : String} (own : hash info.storePath = .ok digest)
    (failed : registerPathFromInfo store info fault = (next, .error reason)) :
    ∃ write, fault = some write ∧
      next.db = if write.torn then store.db.tearFile digest write.reason else store.db := by
  unfold registerPathFromInfo at failed
  split at failed
  · cases failed
  · rename_i db text written
    cases failed
    exact PathInfoDb.register_error own written

/-- Registering what a narinfo says about a path. -/
theorem writes_of_registered {digest : String} {narinfo : NarInfo} {before : Local hash}
    {fault : Option PathInfoDb.WriteFault} (hashed : hash path = .ok digest)
    (offered : cache.lookup digest = some narinfo) (database : before.db = store.db)
    (present : path ∈ before.present) (kept : ∀ other ∈ store.present, other ∈ before.present)
    (registered : registerPathFromInfo before (fromNarinfo narinfo path) fault =
      (next, .ok ())) :
    Visits cache store next path narinfo.references := by
  obtain ⟨stem, own, same⟩ := registerPathFromInfo_ok registered
  have named : stem = digest := Except.ok.inj (own.symm.trans hashed)
  subst named same
  exact .writes stem narinfo hashed offered rfl own (by rw [database]) present kept

theorem fetchInner_ok {digest : String} {narinfo : NarInfo} {fault : Faults}
    (hashed : hash path = .ok digest) (offered : cache.lookup digest = some narinfo)
    (absent : path ∉ store.present)
    (fetched : fetchInner cache fault store path true = (next, .ok ())) :
    Visits cache store next path narinfo.references := by
  simp only [fetchInner, hashed, if_neg absent] at fetched
  split at fetched
  · cases fetched
  · split at fetched
    · cases fetched
    · rename_i again refetched
      have same : again = narinfo := Option.some.inj ((fetchNarinfo_ok refetched).symm.trans offered)
      subst same
      split at fetched
      · cases fetched
      · exact writes_of_registered hashed offered (putPath_db store path) List.mem_cons_self
          (fun other member => List.mem_cons_of_mem path member) fetched

theorem visitPath_ok (visited : visitPath cache faults store path = (next, .ok children)) :
    Visits cache store next path children := by
  unfold visitPath at visited
  split at visited
  · rename_i both
    split at visited
    · cases visited
    · rename_i absent
      exact absurd absent (PathInfoDb.get_of_isRegistered both.2)
    · rename_i info found
      cases visited
      exact .follows rfl both.1 info found rfl
  · split at visited
    · cases visited
    · rename_i digest hashed
      split at visited
      · cases visited
      · rename_i narinfo fetched
        have offered := fetchNarinfo_ok fetched
        dsimp only at visited
        split at visited
        · rename_i absent
          cases inner : fetchInner cache (faults path) store path true with
          | mk after result =>
              rw [inner] at visited
              cases result with
              | error reason => cases visited
              | ok done =>
                  cases visited
                  exact fetchInner_ok hashed offered absent inner
        · rename_i present
          cases inner : registerPathFromInfo store (fromNarinfo narinfo path)
              (faults path).registration with
          | mk after result =>
              rw [inner] at visited
              cases result with
              | error reason => cases visited
              | ok done =>
                  cases visited
                  exact writes_of_registered hashed offered rfl (not_not.mp present)
                    (fun other member => member) inner

/-- The database a failed visit leaves: as it was, or with one torn file. -/
def Leaves (cache : BinaryCache) (faults : String → Faults) (store next : Local hash)
    (path : String) : Prop :=
  (next.db = store.db ∧ ∀ digest, ¬ Tears cache faults store path digest) ∨
    ∃ digest text, Tears cache faults store path digest ∧
      next.db = store.db.tearFile digest text

theorem leaves_of_unregistered (database : next.db = store.db)
    (early : ∀ digest, ¬ Registers cache faults store path digest) :
    Leaves cache faults store next path :=
  .inl ⟨database, fun digest tears => early digest tears.1⟩

theorem leaves_of_registration {digest reason : String} {narinfo : NarInfo}
    {before : Local hash} (registers : Registers cache faults store path digest)
    (database : before.db = store.db)
    (failed : registerPathFromInfo before (fromNarinfo narinfo path)
      (faults path).registration = (next, .error reason)) :
    Leaves cache faults store next path := by
  obtain ⟨write, faulty, left⟩ := registerPathFromInfo_error registers.2.1 failed
  rw [database] at left
  by_cases torn : write.torn = true
  · right
    rw [if_pos torn] at left
    exact ⟨digest, write.reason, ⟨registers, write, faulty, torn⟩, left⟩
  · left
    rw [if_neg torn] at left
    refine ⟨left, ?_⟩
    intro other ⟨_, fault, same, tears⟩
    rw [faulty, Option.some.injEq] at same
    exact torn (same ▸ tears)

theorem fetchInner_error {digest reason : String} {narinfo : NarInfo}
    (pending : ¬ (path ∈ store.present ∧ store.db.isRegistered path = true))
    (hashed : hash path = .ok digest)
    (fetched : fetchNarinfo cache (faults path).narinfo digest = .ok narinfo)
    (absent : path ∉ store.present)
    (failed : fetchInner cache (faults path) store path true = (next, .error reason)) :
    Leaves cache faults store next path := by
  simp only [fetchInner, hashed, if_neg absent] at failed
  split at failed
  · rename_i text blocked
    cases failed
    apply leaves_of_unregistered rfl
    intro other registers
    rw [(registers.2.2.2 absent).1] at blocked
    cases blocked
  · rename_i opened
    split at failed
    · rename_i text missing
      cases failed
      apply leaves_of_unregistered rfl
      intro other registers
      obtain ⟨again, refetched⟩ := (registers.2.2.2 absent).2.1
      have same : other = digest := Except.ok.inj (registers.2.1.symm.trans hashed)
      rw [same, missing] at refetched
      cases refetched
    · rename_i again refetched
      split at failed
      · rename_i fault broken
        cases failed
        apply leaves_of_unregistered
        · split <;> rfl
        · intro other registers
          rw [(registers.2.2.2 absent).2.2] at broken
          cases broken
      · rename_i whole
        have registers : Registers cache faults store path digest :=
          ⟨pending, hashed, ⟨narinfo, fetched⟩, fun _ => ⟨opened, ⟨again, refetched⟩, whole⟩⟩
        exact leaves_of_registration registers (putPath_db store path) failed

theorem visitPath_error {reason : String}
    (failed : visitPath cache faults store path = (next, .error reason)) :
    Leaves cache faults store next path := by
  unfold visitPath at failed
  split at failed
  · rename_i both
    have early : ∀ digest, ¬ Registers cache faults store path digest :=
      fun digest registers => registers.1 both
    split at failed
    · cases failed
      exact leaves_of_unregistered rfl early
    · cases failed
    · cases failed
  · rename_i pending
    split at failed
    · rename_i text invalid
      cases failed
      apply leaves_of_unregistered rfl
      intro digest registers
      rw [registers.2.1] at invalid
      cases invalid
    · rename_i digest hashed
      split at failed
      · rename_i text missing
        cases failed
        apply leaves_of_unregistered rfl
        intro other registers
        obtain ⟨narinfo, fetched⟩ := registers.2.2.1
        have same : other = digest := Except.ok.inj (registers.2.1.symm.trans hashed)
        rw [same, missing] at fetched
        cases fetched
      · rename_i narinfo fetched
        dsimp only at failed
        split at failed
        · rename_i absent
          cases inner : fetchInner cache (faults path) store path true with
          | mk after result =>
              rw [inner] at failed
              cases result with
              | ok done => cases failed
              | error text =>
                  cases failed
                  exact fetchInner_error pending hashed fetched absent inner
        · rename_i present
          cases inner : registerPathFromInfo store (fromNarinfo narinfo path)
              (faults path).registration with
          | mk after result =>
              rw [inner] at failed
              cases result with
              | ok done => cases failed
              | error text =>
                  cases failed
                  have registers : Registers cache faults store path digest :=
                    ⟨pending, hashed, ⟨narinfo, fetched⟩, fun absent => absurd absent present⟩
                  exact leaves_of_registration registers rfl inner

end Visit

section Termination

variable {cache : BinaryCache} {faults : String → Faults}

/-- The references of a record come from the first database or from the cache. -/
def Sourced (cache : BinaryCache) (first store : Local hash) : Prop :=
  ∀ stem info, store.db.files.lookup stem = some (.info info) →
    List.Sublist info.references (Store.allReferences first.db ++ cacheReferences cache)

theorem cacheReferences_sublist {digest : String} {narinfo : NarInfo}
    (offered : cache.lookup digest = some narinfo) :
    List.Sublist narinfo.references (cacheReferences cache) := by
  have entry : (⟨digest, narinfo⟩ : Sigma fun _ : String => NarInfo) ∈ cache.entries :=
    AList.mem_lookup_iff.mp offered
  unfold cacheReferences
  rw [List.flatMap_def]
  exact List.sublist_flatten_of_mem (List.mem_map.mpr ⟨_, entry, rfl⟩)

theorem sourced_refl (store : Local hash) : Sourced cache store store := fun _ _ stored =>
  (Store.references_sublist stored).trans (List.sublist_append_left _ _)

theorem sourced_visit {first store next : Local hash} {path : String} {children : List String}
    (sourced : Sourced cache first store)
    (visits : Visits cache store next path children) :
    Sourced cache first next ∧
      List.Sublist children (Store.allReferences first.db ++ cacheReferences cache) := by
  cases visits with
  | follows same present info found listed =>
      obtain ⟨stem, _, stored⟩ := PathInfoDb.get_eq_some.mp found
      exact ⟨same ▸ sourced, listed ▸ sourced stem info stored⟩
  | writes digest narinfo hashed offered listed own written present kept =>
      have source : List.Sublist narinfo.references
          (Store.allReferences first.db ++ cacheReferences cache) :=
        (cacheReferences_sublist offered).trans (List.sublist_append_right _ _)
      refine ⟨?_, listed ▸ source⟩
      intro stem info stored
      rw [written] at stored
      by_cases same : stem = digest
      · subst same
        have inserted := stored.symm.trans (AList.lookup_insert _)
        cases inserted
        exact source
      · exact sourced stem info ((AList.lookup_insert_ne same).symm.trans stored)

theorem fetchRecursive_terminates (cache : BinaryCache) (faults : String → Faults)
    (store : Local hash) (root : String) :
    (walk (visitPath cache faults) (fetchFuel cache store root) [] [root] store).isSome := by
  apply GraphSearch.walk_terminates _ (Sourced cache store) (knownPaths cache store root)
    (knownPaths cache store root).length
  · intro state node next children sourced step
    exact (sourced_visit sourced (visitPath_ok step)).1
  · intro state node next children sourced step
    have source := (sourced_visit sourced (visitPath_ok step)).2
    refine ⟨fun child member => List.mem_cons_of_mem _ (source.subset member), ?_⟩
    exact Nat.le_succ_of_le source.length_le
  · exact sourced_refl store
  · intro node member
    rw [List.mem_singleton.mp member]
    exact List.mem_cons_self
  · exact Nat.le_refl _

end Termination

/-- The loop started at a store path; it always ends. -/
def fetchLoop (cache : BinaryCache) (faults : String → Faults) (store : Local hash)
    (root : String) : Local hash × Except String (List String) :=
  (walk (visitPath cache faults) (fetchFuel cache store root) [] [root] store).get
    (fetchRecursive_terminates cache faults store root)

def fetchRecursive (cache : BinaryCache) (faults : String → Faults) (store : Local hash)
    (root : String) : Local hash × Except String Unit :=
  let (after, result) := fetchLoop cache faults store root
  (after, result.map fun _ => ())

theorem fetchLoop_finished (cache : BinaryCache) (faults : String → Faults) (store : Local hash)
    (root : String) :
    walk (visitPath cache faults) (fetchFuel cache store root) [] [root] store =
      some (fetchLoop cache faults store root) := by
  simp only [fetchLoop, Option.some_get]

end NixRedox.Cache
