import NixRedox.CacheFetch
import NixRedox.StoredLazy

set_option autoImplicit false

/- The fetchers that extract at once: `fetch_recursive` of `cache.rs`, `fetch_local` of
`local_cache.rs`, `fetch_and_extract` and `install_recursive` of `install.rs`, over the
trees they leave in the store. -/
namespace NixRedox.EagerFetch

open Cache (BinaryCache NarInfo cacheReferences fetchNarinfo fromNarinfo)
open GraphSearch (walk)
open Nar (Fs RelPath execAll extractNode)
open PathInfoDb (WriteFault)
open Stored (ArchiveReader)

variable {hash : StorePathHash}

/-- The database, and what is at each store path. -/
structure Disk (hash : StorePathHash) where
  db : PathInfoDb hash
  tree : String → Fs

/-- What the world does while one path is fetched. -/
structure Transfer where
  /-- A symlink at the destination leads to something. -/
  resolves : Bool
  narinfo : Option String
  storeDir : Option String
  narinfoAgain : Option String
  /-- The bytes that the archive reader pulls from the decompressed stream. -/
  opened : Except String (List UInt8)
  /-- Extraction stops with an error after so many effects. -/
  stops : Option (Nat × String)
  /-- What a file written through a symlink at the destination makes of the store. -/
  through : (String → Fs) → String → Fs
  /-- What `remove_dir_all` fails to remove. -/
  keeps : RelPath → Bool
  dbFault : Option String
  registration : Option WriteFault

namespace Disk

variable (disk : Disk hash) (transfer : Transfer)

/-- `Path::exists` follows a symlink. -/
def pathExists (path : String) : Bool :=
  match disk.tree path [] with
  | none => false
  | some (.symlink _) => transfer.resolves
  | some _ => true

def put (path : String) (tree : Fs) : Disk hash :=
  { disk with tree := Function.update disk.tree path tree }

def register (info : PathInfo) (fault : Option WriteFault) : Disk hash × Except String Unit :=
  match disk.db.register info fault with
  | (db, .ok ()) => ({ disk with db }, .ok ())
  | (db, .error reason) => ({ disk with db }, .error reason.toText)

end Disk

section Extraction

variable (reader : ArchiveReader) (transfer : Transfer)

/-- The effects of an extraction before it ends or stops. -/
def effects (node : Nar.NarNode) : List Nar.FsAction :=
  match transfer.stops with
  | some (count, _) => ((extractNode [] [] node).actions .stdFs).take count
  | none => (extractNode [] [] node).actions .stdFs

/-- How an extraction ends, with the bytes that were hashed. -/
def ending (bytes : List UInt8) (node : Nar.NarNode) : Except String (List UInt8) :=
  match transfer.stops with
  | some (_, reason) => .error reason
  | none => if node.complete then .ok bytes else .error "unexpected end of file"

/-- `nar::extract` to a path at which nothing exists: where a symlink leads nowhere, a
file is written through it and everything else fails. -/
def extract (disk : Disk hash) (path : String) : Disk hash × Except String (List UInt8) :=
  match transfer.opened with
  | .error reason => (disk, .error reason)
  | .ok bytes =>
      match reader.decode bytes with
      | none => (disk, .error "invalid archive")
      | some node =>
          if (disk.tree path []).isSome then
            match node with
            | .file .. => ({ disk with tree := transfer.through disk.tree }, ending transfer bytes node)
            | _ => (disk, .error "File exists (os error 17)")
          else
            (disk.put path (execAll (effects transfer node) (disk.tree path)),
              ending transfer bytes node)

/-- `remove_dir_all`, with its error ignored. A plain file is not removed. -/
def removeDirAll (tree : Fs) : Fs :=
  match tree [] with
  | some (.file _ _) => tree
  | _ => fun path => if transfer.keeps path then tree path else none

end Extraction

section Fetchers

variable (reader : ArchiveReader) (cache : BinaryCache)

/-- The metadata `register_path` writes. -/
def plainRecord (narinfo : NarInfo) (storePath : String) : PathInfo where
  storePath := storePath
  narHash := narinfo.narHash
  narSize := narinfo.narSize
  references := narinfo.references
  deriver := none
  signatures := narinfo.signatures

/-- Fetch, extract, verify and register one path. -/
def fetchInto (record : NarInfo → String → PathInfo) (transfer : Transfer) (disk : Disk hash)
    (path : String) : Disk hash × Except String Unit :=
  match hash path with
  | .error reason => (disk, .error reason)
  | .ok digest =>
      if disk.pathExists transfer path then
        (disk, .ok ())
      else
        match transfer.storeDir with
        | some reason => (disk, .error reason)
        | none =>
            match fetchNarinfo cache transfer.narinfoAgain digest with
            | .error reason => (disk, .error reason)
            | .ok narinfo =>
                match extract reader transfer disk path with
                | (disk, .error reason) => (disk, .error reason)
                | (disk, .ok bytes) =>
                    if reader.sha256Hex bytes ≠ narinfo.narHash.toList then
                      (disk.put path (removeDirAll transfer (disk.tree path)),
                        .error ("NAR hash mismatch!\n  expected: " ++ narinfo.narHash ++
                          "\n  got:      " ++ String.ofList (reader.sha256Hex bytes)))
                    else
                      match transfer.dbFault with
                      | some reason => (disk, .error reason)
                      | none => disk.register (record narinfo path) transfer.registration

/-- `fetch_inner` with a database, which is open already. -/
def fetchInner (transfer : Transfer) (disk : Disk hash) (path : String) :
    Disk hash × Except String Unit :=
  fetchInto reader cache fromNarinfo { transfer with dbFault := none } disk path

def fetchLocal (transfer : Transfer) (disk : Disk hash) (path : String) :
    Disk hash × Except String Unit :=
  fetchInto reader cache plainRecord transfer disk path

def fetchAndExtract (transfer : Transfer) (disk : Disk hash) (path : String) :
    Disk hash × Except String Unit :=
  fetchInto reader cache plainRecord transfer disk path

/-- One iteration of a recursive fetch, for a path that is not visited yet. -/
def visitPath (wrap : String → String → String) (record : NarInfo → String → PathInfo)
    (fetch : Transfer → Disk hash → String → Disk hash × Except String Unit)
    (transfers : String → Transfer) (disk : Disk hash) (path : String) :
    Disk hash × Except String (List String) :=
  let transfer := transfers path
  if disk.pathExists transfer path ∧ disk.db.isRegistered path = true then
    match disk.db.get path with
    | .error reason => (disk, .error reason.toText)
    | .ok none => (disk, .ok [])
    | .ok (some info) => (disk, .ok info.references)
  else
    match hash path with
    | .error reason => (disk, .error reason)
    | .ok digest =>
        match fetchNarinfo cache transfer.narinfo digest with
        | .error reason => (disk, .error (wrap path reason))
        | .ok narinfo =>
            let (after, result) :=
              if disk.pathExists transfer path = false then
                fetch transfer disk path
              else
                disk.register (record narinfo path) transfer.registration
            (after, result.map fun _ => narinfo.references)

/-- The iteration of `fetch_recursive`. -/
def visitRecursive (transfers : String → Transfer) (disk : Disk hash) (path : String) :
    Disk hash × Except String (List String) :=
  visitPath cache (fun path reason => "failed to fetch narinfo for " ++ path ++ ": " ++ reason)
    fromNarinfo (fetchInner reader cache) transfers disk path

/-- The iteration of `install_recursive`. -/
def visitInstall (transfers : String → Transfer) (disk : Disk hash) (path : String) :
    Disk hash × Except String (List String) :=
  visitPath cache (fun _ reason => reason) plainRecord (fetchAndExtract reader cache) transfers
    disk path

end Fetchers

section Steps

variable {reader : ArchiveReader} {cache : BinaryCache} {transfer : Transfer}
  {disk after : Disk hash} {path : String}

theorem register_ok {info : PathInfo} {fault : Option WriteFault}
    (registered : disk.register info fault = (after, .ok ())) :
    ∃ stem own, after = { disk with db := disk.db.writeFile stem info own } := by
  unfold Disk.register at registered
  split at registered
  · rename_i db written
    obtain ⟨-, stem, own, rfl⟩ := PathInfoDb.register_ok written
    cases registered
    exact ⟨stem, own, rfl⟩
  · cases registered

/-- Extraction does not touch the database. -/
theorem extract_db {result : Except String (List UInt8)}
    (extracted : extract reader transfer disk path = (after, result)) : after.db = disk.db := by
  unfold extract at extracted
  split at extracted
  · cases extracted
    rfl
  · split at extracted
    · cases extracted
      rfl
    · split at extracted
      · split at extracted
        · cases extracted
          rfl
        · cases extracted
          rfl
      · cases extracted
        rfl

/-- What a fetch that returns no error does to the database. -/
theorem fetchInto_ok {record : NarInfo → String → PathInfo}
    (fetched : fetchInto reader cache record transfer disk path = (after, .ok ())) :
    (after = disk ∧ disk.pathExists transfer path = true) ∨
    ∃ digest narinfo stem, ∃ own : hash (record narinfo path).storePath = .ok stem,
      cache.lookup digest = some narinfo ∧
      after.db = disk.db.writeFile stem (record narinfo path) own := by
  unfold fetchInto at fetched
  split at fetched
  · cases fetched
  · rename_i digest hashed
    split at fetched
    · rename_i there
      cases fetched
      exact .inl ⟨rfl, there⟩
    · split at fetched
      · cases fetched
      · split at fetched
        · cases fetched
        · rename_i narinfo offered
          split at fetched
          · cases fetched
          · rename_i middle bytes extracted
            split at fetched
            · cases fetched
            · split at fetched
              · cases fetched
              · obtain ⟨stem, own, rfl⟩ := register_ok fetched
                refine .inr ⟨digest, narinfo, stem, own, Cache.fetchNarinfo_ok offered, ?_⟩
                show middle.db.writeFile stem _ own = _
                rw [extract_db extracted]

/-- An extraction to an empty place that does not stop leaves the tree of the archive. -/
theorem extract_fresh {bytes got : List UInt8} {node : Nar.NarNode}
    (empty : disk.tree path = Fs.empty) (opened : transfer.opened = .ok bytes)
    (decoded : reader.decode bytes = some node) (complete : node.complete = true)
    (extracted : extract reader transfer disk path = (after, .ok got)) :
    after = disk.put path node.tree ∧ got = bytes := by
  have built := (Nar.extract_builds_tree .stdFs node (reader.wellFormed bytes node decoded)).2
    complete
  unfold extract at extracted
  rw [opened] at extracted
  simp only [decoded, empty, Fs.empty, Option.isSome_none, Bool.false_eq_true, if_false] at extracted
  unfold effects ending at extracted
  cases stops : transfer.stops with
  | some cut =>
      rw [stops] at extracted
      cases extracted
  | none =>
      simp only [stops, complete, if_true, Prod.mk.injEq, Except.ok.injEq] at extracted
      rw [← extracted.1, ← extracted.2]
      exact ⟨congrArg (disk.put path) built, rfl⟩

/-- A whole archive that arrives at an empty place is extracted, verified and recorded. -/
theorem fetchInto_fresh {record : NarInfo → String → PathInfo} {bytes : List UInt8}
    {node : Nar.NarNode} (empty : disk.tree path = Fs.empty) (opened : transfer.opened = .ok bytes)
    (decoded : reader.decode bytes = some node) (complete : node.complete = true)
    (fetched : fetchInto reader cache record transfer disk path = (after, .ok ())) :
    ∃ narinfo stem, ∃ own : hash (record narinfo path).storePath = .ok stem,
      reader.sha256Hex bytes = narinfo.narHash.toList ∧
      after = { disk.put path node.tree with
        db := disk.db.writeFile stem (record narinfo path) own } := by
  have missing : disk.pathExists transfer path = false := by
    rw [Disk.pathExists, empty]
    rfl
  unfold fetchInto at fetched
  rw [missing] at fetched
  split at fetched
  · cases fetched
  · split at fetched
    · rename_i there
      cases there
    · split at fetched
      · cases fetched
      · split at fetched
        · cases fetched
        · rename_i narinfo _
          split at fetched
          · cases fetched
          · rename_i middle got extracted
            obtain ⟨rfl, rfl⟩ := extract_fresh empty opened decoded complete extracted
            split at fetched
            · cases fetched
            · rename_i matching
              split at fetched
              · cases fetched
              · obtain ⟨stem, own, rfl⟩ := register_ok fetched
                exact ⟨narinfo, stem, own, not_not.mp matching, rfl⟩

end Steps

section Loops

variable (reader : ArchiveReader) (cache : BinaryCache)

/-- All paths that a traversal from the root can come to. -/
def knownPaths (db : PathInfoDb hash) (root : String) : List String :=
  root :: (Store.allReferences db ++ cacheReferences cache)

def fetchFuel (db : PathInfoDb hash) (root : String) : Nat :=
  GraphSearch.searchCost (knownPaths cache db root) (knownPaths cache db root).length [] [root]

/-- The references of a record come from the first database or from the cache. -/
def Sourced (first : PathInfoDb hash) (disk : Disk hash) : Prop :=
  ∀ stem info, disk.db.files.lookup stem = some (.info info) →
    List.Sublist info.references (Store.allReferences first ++ cacheReferences cache)

variable {reader cache}

theorem Sourced.write {first : PathInfoDb hash} {disk after : Disk hash} {digest stem : String}
    {narinfo : NarInfo} {info : PathInfo} (sourced : Sourced cache first disk)
    (offered : cache.lookup digest = some narinfo) (listed : info.references = narinfo.references)
    (own : hash info.storePath = .ok stem) (written : after.db = disk.db.writeFile stem info own) :
    Sourced cache first after := by
  intro other found stored
  rw [written] at stored
  by_cases same : other = stem
  · subst same
    have inserted := stored.symm.trans (AList.lookup_insert _)
    cases inserted
    rw [listed]
    exact (Cache.cacheReferences_sublist offered).trans (List.sublist_append_right _ _)
  · exact sourced other found ((AList.lookup_insert_ne same).symm.trans stored)

/-- A visit that succeeds returns references of the database or of the cache. -/
theorem sourced_visit {wrap : String → String → String} {record : NarInfo → String → PathInfo}
    {fetch : Transfer → Disk hash → String → Disk hash × Except String Unit}
    (listed : ∀ narinfo path, (record narinfo path).references = narinfo.references)
    (fetches : ∀ transfer disk path after, fetch transfer disk path = (after, .ok ()) →
      (after = disk ∧ disk.pathExists transfer path = true) ∨
      ∃ digest narinfo stem, ∃ own : hash (record narinfo path).storePath = .ok stem,
        cache.lookup digest = some narinfo ∧
        after.db = disk.db.writeFile stem (record narinfo path) own)
    {transfers : String → Transfer} {first : PathInfoDb hash} {disk next : Disk hash}
    {path : String} {children : List String} (sourced : Sourced cache first disk)
    (visited : visitPath cache wrap record fetch transfers disk path = (next, .ok children)) :
    Sourced cache first next ∧
      List.Sublist children (Store.allReferences first ++ cacheReferences cache) := by
  unfold visitPath at visited
  dsimp only at visited
  split at visited
  · split at visited
    · cases visited
    · cases visited
      exact ⟨sourced, List.nil_sublist _⟩
    · rename_i info found
      cases visited
      obtain ⟨stem, -, stored⟩ := PathInfoDb.get_eq_some.mp found
      exact ⟨sourced, sourced stem info stored⟩
  · split at visited
    · cases visited
    · split at visited
      · cases visited
      · rename_i narinfo fetched
        have offered := Cache.fetchNarinfo_ok fetched
        have source : List.Sublist narinfo.references
            (Store.allReferences first ++ cacheReferences cache) :=
          (Cache.cacheReferences_sublist offered).trans (List.sublist_append_right _ _)
        split at visited
        · rename_i absent
          cases inner : fetch (transfers path) disk path with
          | mk after result =>
              rw [inner] at visited
              cases result with
              | error reason => cases visited
              | ok done =>
                  cases visited
                  refine ⟨?_, source⟩
                  rcases fetches _ _ _ _ inner with ⟨rfl, -⟩ | ⟨digest, again, stem, own, known, written⟩
                  · exact sourced
                  · exact sourced.write known (listed again path) own written
        · cases inner : disk.register (record narinfo path) (transfers path).registration with
          | mk after result =>
              rw [inner] at visited
              cases result with
              | error reason => cases visited
              | ok done =>
                  cases visited
                  obtain ⟨stem, own, rfl⟩ := register_ok inner
                  exact ⟨sourced.write offered (listed narinfo path) own rfl, source⟩

theorem visits_terminate {visit : Disk hash → String → Disk hash × Except String (List String)}
    (sourced : ∀ first disk next path children, Sourced cache first disk →
      visit disk path = (next, .ok children) → Sourced cache first next ∧
        List.Sublist children (Store.allReferences first ++ cacheReferences cache))
    (disk : Disk hash) (root : String) :
    (walk visit (fetchFuel cache disk.db root) [] [root] disk).isSome := by
  apply GraphSearch.walk_terminates _ (Sourced cache disk.db) (knownPaths cache disk.db root)
    (knownPaths cache disk.db root).length
  · intro state node next children good step
    exact (sourced disk.db state next node children good step).1
  · intro state node next children good step
    have source := (sourced disk.db state next node children good step).2
    refine ⟨fun child member => List.mem_cons_of_mem _ (source.subset member), ?_⟩
    exact Nat.le_succ_of_le source.length_le
  · intro stem info stored
    exact (Store.references_sublist stored).trans (List.sublist_append_left _ _)
  · intro node member
    rw [List.mem_singleton.mp member]
    exact List.mem_cons_self
  · exact Nat.le_refl _

theorem fetchRecursive_terminates (transfers : String → Transfer) (disk : Disk hash)
    (root : String) :
    (walk (visitRecursive reader cache transfers) (fetchFuel cache disk.db root) [] [root]
      disk).isSome := by
  apply visits_terminate
  intro first disk next path children sourced visited
  unfold visitRecursive at visited
  refine sourced_visit ?_ ?_ sourced visited
  · intro narinfo path
    rfl
  · intro transfer disk path after fetched
    unfold fetchInner at fetched
    have done := fetchInto_ok fetched
    exact done

theorem installRecursive_terminates (transfers : String → Transfer) (disk : Disk hash)
    (root : String) :
    (walk (visitInstall reader cache transfers) (fetchFuel cache disk.db root) [] [root]
      disk).isSome := by
  apply visits_terminate
  intro first disk next path children sourced visited
  unfold visitInstall at visited
  refine sourced_visit ?_ ?_ sourced visited
  · intro narinfo path
    rfl
  · intro transfer disk path after fetched
    exact fetchInto_ok fetched

variable (reader cache)

/-- `fetch_recursive`. -/
def fetchRecursive (dbFault : Option String) (transfers : String → Transfer) (disk : Disk hash)
    (root : String) : Disk hash × Except String Unit :=
  match dbFault with
  | some reason => (disk, .error reason)
  | none =>
      let (after, result) := (walk (visitRecursive reader cache transfers)
        (fetchFuel cache disk.db root) [] [root] disk).get
        (fetchRecursive_terminates transfers disk root)
      (after, result.map fun _ => ())

/-- The fetching part of `install_recursive`, from the store path of the package. -/
def installRecursive (dbFault : Option String) (transfers : String → Transfer) (disk : Disk hash)
    (root : String) : Disk hash × Except String Unit :=
  match dbFault with
  | some reason => (disk, .error reason)
  | none =>
      let (after, result) := (walk (visitInstall reader cache transfers)
        (fetchFuel cache disk.db root) [] [root] disk).get
        (installRecursive_terminates transfers disk root)
      (after, result.map fun _ => ())

end Loops

section Calls

/-- The entry points. -/
inductive Fetcher where
  | fetchRecursive
  | fetchLocal
  | fetchAndExtract
  | installRecursive
  deriving DecidableEq, Repr

/-- A call: what the cache offers at that time, and what happens for each path. -/
structure Call where
  fetcher : Fetcher
  cache : BinaryCache
  dbFault : Option String
  transfers : String → Transfer
  path : String

variable (reader : ArchiveReader)

def Call.run (call : Call) (disk : Disk hash) : Disk hash × Except String Unit :=
  match call.fetcher with
  | .fetchRecursive => fetchRecursive reader call.cache call.dbFault call.transfers disk call.path
  | .fetchLocal => fetchLocal reader call.cache (call.transfers call.path) disk call.path
  | .fetchAndExtract => fetchAndExtract reader call.cache (call.transfers call.path) disk call.path
  | .installRecursive =>
      installRecursive reader call.cache call.dbFault call.transfers disk call.path

/-- An empty store with a fresh database. -/
def emptyDisk (hash : StorePathHash) (pathinfoDir : String) : Disk hash where
  db := PathInfoDb.openAt hash pathinfoDir
  tree := fun _ => Fs.empty

/-- The store after a sequence of calls. -/
def afterCalls (start : Disk hash) (calls : List Call) : Disk hash :=
  calls.foldl (fun disk call => (call.run reader disk).1) start

end Calls

end NixRedox.EagerFetch
