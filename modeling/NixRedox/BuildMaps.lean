import NixRedox.BuildIds
import NixRedox.KeyedLists

set_option autoImplicit false

/- Mappings of the build proxy: the table of its I/O worker (`io_worker.rs`), the table of the
handler, and the tokens that join them. -/
namespace NixRedox.BuildProxy

open KeyedLists (listed listed_foldl_erase listed_insert listed_insert_append listed_perm
  mem_foldl_erase under)
open Redox (Errno)
open StepRuns (EachMeets Throughout eachMeets_of_forall runAll throughout_of_eachMeets)
open UnixPath (PathBuf)

section Worker

structure ActiveMap where
  baseAddr : Nat
  len : Nat
  backingFd : Nat
  anonymous : Bool

/-- `next_map_token` and `active_maps` of `worker_main`. -/
structure WorkerMaps where
  nextMapToken : Nat
  activeMaps : AList fun _ : Nat => ActiveMap

def WorkerMaps.new : WorkerMaps := ⟨1, ∅⟩

/-- What the calls that map and unmap come to. -/
structure MapCalls where
  toStringLossy : PathBuf → List Char
  openFd : PathBuf → UInt64 → Except Errno Nat
  fmap : (fd offset size : Nat) → MapFlags → Except Errno Nat
  anonMapZeroed : (len : Nat) → Except Errno Nat
  /-- The file is read into the mapping without an error. -/
  copied : (fd offset size : Nat) → Bool
  funmap : (addr len : Nat) → Except Errno Unit

/-- Paths that no build owns. -/
def immutablePaths : List (List Char) :=
  ["/nix/store", "/nix/system/profile", "/usr/lib", "/usr/src", "/usr/bin", "/usr/share", "/lib",
    "/bin", "/etc", "/dev"].map String.toList

def isMutablePath (path : List Char) : Bool :=
  !immutablePaths.any fun front => path = front || (front ++ ['/']).isPrefixOf path

/-- `wrapping_add(1).max(1)`. -/
def followingToken (token : Nat) : Nat := max ((token + 1) % 2 ^ 64) 1

variable (calls : MapCalls)

/-- A mapping is recorded under the next token. -/
def WorkerMaps.record (maps : WorkerMaps) (map : ActiveMap) : Except Errno MmapResult × WorkerMaps :=
  (.ok ⟨maps.nextMapToken, map.baseAddr⟩,
    ⟨followingToken maps.nextMapToken, maps.activeMaps.insert maps.nextMapToken map⟩)

def WorkerMaps.copyPathMapping (maps : WorkerMaps) (path : PathBuf) (offset size : Nat) :
    Except Errno MmapResult × WorkerMaps :=
  match calls.openFd path O_RDONLY with
  | .error errno => (.error errno, maps)
  | .ok fd =>
      match calls.anonMapZeroed size with
      | .error errno => (.error errno, maps)
      | .ok baseAddr =>
          if calls.copied fd offset size then
            maps.record
              { baseAddr, len := size, backingFd := 2 ^ 64 - 1, anonymous := true }
          else
            (.error .eio, maps)

/-- `worker_mmap_path`. -/
def WorkerMaps.mmapPath (maps : WorkerMaps) (path : PathBuf) (offset size : Nat)
    (flags : MapFlags) : Except Errno MmapResult × WorkerMaps :=
  let size := pageSpan size
  let fileBacked := flags.protExec || (flags.mapShared && flags.protWrite)
  if isMutablePath (calls.toStringLossy path) && !fileBacked then
    maps.copyPathMapping calls path offset size
  else
    match calls.openFd path (if flags.protWrite then O_RDWR else O_RDONLY) with
    | .error errno => (.error errno, maps)
    | .ok fd =>
        match calls.fmap fd offset size flags with
        | .error errno => (.error errno, maps)
        | .ok baseAddr =>
            maps.record { baseAddr, len := size, backingFd := fd, anonymous := false }

/-- `worker_munmap_token`: the token is forgotten before the mapping is undone. -/
def WorkerMaps.munmapToken (maps : WorkerMaps) (token : Nat) : Except Errno Unit × WorkerMaps :=
  match maps.activeMaps.lookup token with
  | none => (.error .ebadf, maps)
  | some map =>
      (if map.anonymous then .ok () else calls.funmap map.baseAddr map.len,
        { maps with activeMaps := maps.activeMaps.erase token })

/-- What the worker does for a request of the handler. -/
def WorkerMaps.carryOut (maps : WorkerMaps) : IoRequest → WorkerMaps
  | .mmapPath path offset size flags => (maps.mmapPath calls path offset size flags).2
  | .munmapToken token => (maps.munmapToken calls token).2
  | _ => maps

/-- The request makes a mapping. -/
def WorkerMaps.grants (maps : WorkerMaps) : IoRequest → Bool
  | .mmapPath path offset size flags => (maps.mmapPath calls path offset size flags).1.toBool
  | _ => false

end Worker

section System

def IoRequest.freed : IoRequest → Option Nat
  | .munmapToken token => some token
  | _ => none

/-- The handler and its worker. -/
structure Proxy where
  handler : BuildFsHandler
  maps : WorkerMaps
  /-- How many mappings have been made. -/
  mapped : Nat
  /-- The tokens passed to `munmap_token`, in order. -/
  freed : List Nat

def Proxy.new (handler : BuildFsHandler) : Proxy := ⟨handler, .new, 0, []⟩

/-- The worker of a request, with what it answers about mappings. -/
def Proxy.worker (proxy : Proxy) (calls : MapCalls) (worker : BuildFsIoWorker) : BuildFsIoWorker :=
  { worker with
    mmapPath := fun path offset size flags => (proxy.maps.mmapPath calls path offset size flags).1 }

/-- The worker carries out what the handler has asked it for. -/
def Proxy.settle (proxy : Proxy) (calls : MapCalls) (outcome : Outcome) : Proxy :=
  { handler := outcome.handler
    maps := outcome.forwarded.foldl (WorkerMaps.carryOut calls) proxy.maps
    mapped := proxy.mapped + outcome.forwarded.countP (proxy.maps.grants calls)
    freed := proxy.freed ++ outcome.forwarded.filterMap IoRequest.freed }

def Proxy.step (proxy : Proxy) (input : MapCalls × BuildFsHandler.Exchange) : Option Proxy :=
  (proxy.handler.serve (proxy.worker input.1 input.2.1) input.2.2).map (proxy.settle input.1)

/-- The tokens in the handler's table. -/
def BuildFsHandler.recorded (handler : BuildFsHandler) : List Nat := listed handler.activeMmaps

/-- The two tables have the same tokens, each once, for open handles, and no token has been
freed twice. -/
structure Proxy.Joined (proxy : Proxy) : Prop where
  same : proxy.handler.recorded.Perm proxy.maps.activeMaps.keys
  once : proxy.handler.recorded.Nodup
  ofOpen : ∀ key ∈ proxy.handler.activeMmaps, key.handleId ∈ proxy.handler.handles
  freedOnce : proxy.freed.Nodup

/-- Tokens are numbered as the mappings are made. -/
structure Proxy.Counted (proxy : Proxy) : Prop extends proxy.Joined where
  next : proxy.maps.nextMapToken = if proxy.mapped = 2 ^ 64 - 1 then 1 else proxy.mapped + 1
  issued : ∀ token ∈ proxy.maps.activeMaps, token ≤ proxy.mapped
  gone : ∀ token ∈ proxy.freed, token ≤ proxy.mapped ∧ token ∉ proxy.maps.activeMaps

end System

section Steps

variable {calls : MapCalls} {maps : WorkerMaps}

/-- A mapping is recorded, or nothing has changed. -/
theorem mmapPath_cases (path : PathBuf) (offset size : Nat) (flags : MapFlags) :
    (∃ errno, maps.mmapPath calls path offset size flags = (.error errno, maps)) ∨
      ∃ map, maps.mmapPath calls path offset size flags = maps.record map := by
  unfold WorkerMaps.mmapPath
  dsimp only
  split
  · unfold WorkerMaps.copyPathMapping
    split
    · exact .inl ⟨_, rfl⟩
    · split
      · exact .inl ⟨_, rfl⟩
      · split
        · exact .inr ⟨_, rfl⟩
        · exact .inl ⟨_, rfl⟩
  · split
    · exact .inl ⟨_, rfl⟩
    · split
      · exact .inl ⟨_, rfl⟩
      · exact .inr ⟨_, rfl⟩

theorem munmapToken_eq (token : Nat) :
    (maps.munmapToken calls token).2 =
      { maps with activeMaps := maps.activeMaps.erase token } := by
  unfold WorkerMaps.munmapToken
  cases there : maps.activeMaps.lookup token with
  | some map => rfl
  | none =>
      have absent : token ∉ maps.activeMaps := AList.lookup_eq_none.mp there
      have same : maps.activeMaps.erase token = maps.activeMaps := by
        apply AList.ext
        exact List.kerase_of_notMem_keys absent
      dsimp only
      rw [same]

theorem carryOut_aside {requests : List IoRequest}
    (aside : ∀ request ∈ requests, request.ofMaps = false) :
    requests.foldl (WorkerMaps.carryOut calls) maps = maps ∧
      requests.countP (maps.grants calls) = 0 ∧ requests.filterMap IoRequest.freed = [] := by
  have each : ∀ request : IoRequest, request.ofMaps = false →
      (∀ maps, WorkerMaps.carryOut calls maps request = maps) ∧
        maps.grants calls request = false ∧ request.freed = none := by
    intro request other
    cases request with
    | mmapPath path offset size flags => cases other
    | munmapToken token => cases other
    | _ => exact ⟨fun _ => rfl, rfl, rfl⟩
  refine ⟨?_, ?_, ?_⟩
  · induction requests with
    | nil => rfl
    | cons request requests ih =>
        rw [List.foldl_cons, (each request (aside request List.mem_cons_self)).1]
        exact ih fun other member => aside other (List.mem_cons_of_mem _ member)
  · rw [List.countP_eq_zero]
    intro request member
    rw [(each request (aside request member)).2.1]
    exact Bool.false_ne_true
  · rw [List.filterMap_eq_nil_iff]
    intro request member
    exact (each request (aside request member)).2.2

/-- Tokens are freed one after the other. -/
theorem carryOut_munmap {tokens rest : List Nat}
    (there : maps.activeMaps.keys.Perm (tokens ++ rest)) :
    ((tokens.map IoRequest.munmapToken).foldl (WorkerMaps.carryOut calls) maps).activeMaps.keys.Perm
        rest ∧
      ((tokens.map IoRequest.munmapToken).foldl (WorkerMaps.carryOut calls) maps).nextMapToken =
        maps.nextMapToken := by
  induction tokens generalizing maps with
  | nil => exact ⟨there, rfl⟩
  | cons token tokens ih =>
      rw [List.map_cons, List.foldl_cons]
      have erased : WorkerMaps.carryOut calls maps (.munmapToken token) =
          { maps with activeMaps := maps.activeMaps.erase token } := munmapToken_eq token
      rw [erased]
      apply ih
      show (maps.activeMaps.erase token).keys.Perm (tokens ++ rest)
      rw [AList.keys_erase]
      have without := there.erase token
      rwa [List.cons_append, List.erase_cons_head] at without

end Steps

section Invariant

variable {proxy : Proxy} {calls : MapCalls} {worker : BuildFsIoWorker}

theorem Proxy.Counted.aside (counted : proxy.Counted) {outcome : Outcome}
    (aside : Aside proxy.handler outcome) : (proxy.settle calls outcome).Counted := by
  obtain ⟨maps, mapped, freed⟩ := @carryOut_aside calls proxy.maps _ aside.asks
  have tokens : outcome.handler.recorded = proxy.handler.recorded := by
    unfold BuildFsHandler.recorded
    rw [aside.maps]
  unfold Proxy.settle
  rw [maps, mapped, freed, List.append_nil, Nat.add_zero]
  exact
    { same := by
        show outcome.handler.recorded.Perm _
        rw [tokens]
        exact counted.same
      once := by
        show outcome.handler.recorded.Nodup
        rw [tokens]
        exact counted.once
      ofOpen := by
        intro key there
        have there : key ∈ outcome.handler.activeMmaps := there
        rw [aside.maps] at there
        exact aside.ids _ (counted.ofOpen key there)
      freedOnce := counted.freedOnce
      next := counted.next
      issued := counted.issued
      gone := counted.gone }

/-- Tokens leave both tables. -/
theorem Proxy.Counted.free (counted : proxy.Counted) {reply : Except Errno Reply}
    {handler : BuildFsHandler} {tokens : List Nat}
    (split : proxy.handler.recorded.Perm (tokens ++ handler.recorded))
    (ofOpen : ∀ key ∈ handler.activeMmaps, key.handleId ∈ handler.handles) :
    (proxy.settle calls ⟨reply, handler, tokens.map .munmapToken⟩).Counted := by
  have there := counted.same.symm.trans split
  have distinct := split.nodup_iff.mp counted.once
  obtain ⟨left, next⟩ := @carryOut_munmap calls proxy.maps tokens handler.recorded there
  have mapped : (tokens.map IoRequest.munmapToken).countP (proxy.maps.grants calls) = 0 := by
    rw [List.countP_eq_zero]
    intro request member
    obtain ⟨token, _, rfl⟩ := List.mem_map.mp member
    exact Bool.false_ne_true
  have freed : (tokens.map IoRequest.munmapToken).filterMap IoRequest.freed = tokens := by
    rw [List.filterMap_map]
    exact List.filterMap_some
  have inside : ∀ token ∈ tokens, token ∈ proxy.maps.activeMaps := by
    intro token member
    exact AList.mem_keys.mpr (there.mem_iff.mpr (List.mem_append_left _ member))
  have still : ∀ token,
      token ∈ ((tokens.map IoRequest.munmapToken).foldl (WorkerMaps.carryOut calls)
        proxy.maps).activeMaps → token ∈ proxy.maps.activeMaps ∧ token ∉ tokens := by
    intro token member
    have remains := left.mem_iff.mp (AList.mem_keys.mp member)
    refine ⟨AList.mem_keys.mpr (there.mem_iff.mpr (List.mem_append_right _ remains)), ?_⟩
    intro other
    exact List.disjoint_of_nodup_append distinct other remains
  unfold Proxy.settle
  dsimp only
  rw [mapped, freed, Nat.add_zero]
  exact
    { same := left.symm
      once := distinct.of_append_right
      ofOpen := ofOpen
      freedOnce := by
        refine counted.freedOnce.append distinct.of_append_left ?_
        intro token early late
        exact (counted.gone token early).2 (inside token late)
      next := next.trans counted.next
      issued := fun token member => counted.issued token (still token member).1
      gone := by
        intro token member
        rcases List.mem_append.mp member with early | late
        · exact ⟨(counted.gone token early).1,
            fun other => (counted.gone token early).2 (still token other).1⟩
        · exact ⟨counted.issued token (inside token late), fun other => (still token other).2 late⟩ }

/-- A step that does nothing about handles or mappings. -/
theorem Proxy.Counted.quiet (counted : proxy.Counted) {reply : Except Errno Reply}
    {forwarded : List IoRequest} (asks : ∀ request ∈ forwarded, request.ofMaps = false) :
    (proxy.settle calls ⟨reply, proxy.handler, forwarded⟩).Counted :=
  counted.aside ⟨rfl, fun _ there => there, asks⟩

theorem settle_mmapPath {reply : Except Errno Reply} {handler : BuildFsHandler} {path : PathBuf}
    {offset size : Nat} {flags : MapFlags} :
    proxy.settle calls ⟨reply, handler, [.mmapPath path offset size flags]⟩ =
      ⟨handler, (proxy.maps.mmapPath calls path offset size flags).2,
        proxy.mapped + if (proxy.maps.mmapPath calls path offset size flags).1.toBool then 1 else 0,
        proxy.freed⟩ := by
  unfold Proxy.settle
  rw [List.countP_singleton, List.filterMap_cons_none rfl, List.filterMap_nil, List.append_nil]
  rfl

/-- A token enters both tables. -/
theorem Proxy.Counted.record (counted : proxy.Counted) {handler : BuildFsHandler} {map : ActiveMap}
    (few : proxy.mapped + 1 < 2 ^ 64)
    (grown : handler.recorded.Perm (proxy.maps.nextMapToken :: proxy.handler.recorded))
    (ofOpen : ∀ key ∈ handler.activeMmaps, key.handleId ∈ handler.handles) :
    (Proxy.mk handler (proxy.maps.record map).2 (proxy.mapped + 1) proxy.freed).Counted := by
  have next : proxy.maps.nextMapToken = proxy.mapped + 1 := by
    rw [counted.next, if_neg (by omega)]
  have fresh : proxy.maps.nextMapToken ∉ proxy.maps.activeMaps := by
    intro there
    have old := counted.issued _ there
    omega
  have unrecorded : proxy.maps.nextMapToken ∉ proxy.handler.recorded := by
    intro there
    exact fresh (AList.mem_keys.mpr (counted.same.mem_iff.mp there))
  have keys : (proxy.maps.activeMaps.insert proxy.maps.nextMapToken map).keys =
      proxy.maps.nextMapToken :: proxy.maps.activeMaps.keys := by
    rw [AList.keys_insert, List.erase_of_not_mem fresh]
  exact
    { same := by
        show handler.recorded.Perm (proxy.maps.activeMaps.insert _ map).keys
        rw [keys]
        exact grown.trans (counted.same.cons _)
      once := grown.nodup_iff.mpr (List.nodup_cons.mpr ⟨unrecorded, counted.once⟩)
      ofOpen := ofOpen
      freedOnce := counted.freedOnce
      next := by
        show followingToken proxy.maps.nextMapToken = _
        rw [next, followingToken]
        dsimp only
        split
        · rename_i last
          rw [last]
          rfl
        · rw [Nat.mod_eq_of_lt (by omega)]
          omega
      issued := by
        intro token there
        rcases (AList.mem_insert _).mp there with rfl | old
        · exact Nat.le_of_eq next
        · exact Nat.le_succ_of_le (counted.issued token old)
      gone := by
        intro token member
        obtain ⟨old, left⟩ := counted.gone token member
        refine ⟨Nat.le_succ_of_le old, ?_⟩
        intro there
        rcases (AList.mem_insert _).mp there with same | still
        · omega
        · exact left still }

theorem Proxy.Counted.mmapPrep (counted : proxy.Counted) (id offset size : Nat) (flags : MapFlags)
    (few : (proxy.settle calls (proxy.handler.mmapPrep (proxy.worker calls worker) id offset size
      flags)).mapped < 2 ^ 64) :
    (proxy.settle calls (proxy.handler.mmapPrep (proxy.worker calls worker) id offset size
      flags)).Counted := by
  unfold BuildFsHandler.mmapPrep at few ⊢
  cases own : proxy.handler.handles.lookup id with
  | none => exact counted.quiet (by simp)
  | some handle =>
      cases handle with
      | dir handle => exact counted.quiet (by simp)
      | file handle =>
          rw [own] at few
          dsimp only [Proxy.worker] at few ⊢
          rcases @mmapPath_cases calls proxy.maps handle.realPath offset size flags with
            ⟨errno, failed⟩ | ⟨map, made⟩
          · rw [failed]
            dsimp only
            rw [settle_mmapPath, failed]
            exact counted
          · rw [made] at few ⊢
            dsimp only [WorkerMaps.record] at few ⊢
            rw [settle_mmapPath, made] at few ⊢
            refine counted.record few ?_ ?_
            · exact listed_insert_append _ _ _
            · intro key there
              rcases (AList.mem_insert _).mp there with rfl | old
              · exact AList.lookup_isSome.mp (by rw [own]; rfl)
              · exact counted.ofOpen key old

/-- The last token of a key leaves, and the key with its last token. -/
theorem Proxy.Counted.popToken (counted : proxy.Counted) (key : ActiveMapKey) :
    (proxy.settle calls (proxy.handler.popToken key)).Counted := by
  unfold BuildFsHandler.popToken
  dsimp only
  split
  · exact counted.quiet (by simp)
  · rename_i token last
    have split : (proxy.handler.activeMmaps.lookup key).getD [] =
        ((proxy.handler.activeMmaps.lookup key).getD []).dropLast ++ [token] :=
      (List.dropLast_append_getLast? token last).symm
    have tokens := listed_perm proxy.handler.activeMmaps key
    rw [under, split] at tokens
    have rest : (listed (if ((proxy.handler.activeMmaps.lookup key).getD []).dropLast = [] then
          proxy.handler.activeMmaps.erase key
        else
          proxy.handler.activeMmaps.insert key
            ((proxy.handler.activeMmaps.lookup key).getD []).dropLast)) =
        ((proxy.handler.activeMmaps.lookup key).getD []).dropLast ++
          listed (proxy.handler.activeMmaps.erase key) := by
      split
      · rename_i none_
        rw [none_, List.nil_append]
      · exact listed_insert _ _ _
    refine @Proxy.Counted.free proxy calls counted _ _ [token] ?_ ?_
    · show (listed proxy.handler.activeMmaps).Perm ([token] ++ listed _)
      rw [rest]
      refine tokens.trans ?_
      rw [List.append_assoc, List.singleton_append]
      exact List.perm_middle
    · intro other there
      dsimp only at there
      apply counted.ofOpen
      split at there
      · exact (AList.mem_erase.mp there).2
      · rcases (AList.mem_insert _).mp there with rfl | old
        · by_contra absent
          rw [AList.lookup_eq_none.mpr absent] at last
          cases last
        · exact old

theorem Proxy.Counted.munmap (counted : proxy.Counted) (worker : BuildFsIoWorker)
    (id offset size : Nat) :
    (proxy.settle calls (proxy.handler.munmap worker id offset size)).Counted := by
  unfold BuildFsHandler.munmap
  dsimp only
  split
  · exact counted.popToken _
  · split
    · exact counted.popToken _
    · exact counted.quiet (by simp)

theorem Proxy.Counted.onClose (counted : proxy.Counted) (worker : BuildFsIoWorker) (id : Nat) :
    (proxy.settle calls (proxy.handler.onClose worker id)).Counted := by
  unfold BuildFsHandler.onClose
  dsimp only
  have order := worker.keyOrder_perm proxy.handler.activeMmaps.keys
  have distinct := (order.nodup_iff.mpr proxy.handler.activeMmaps.keys_nodup).filter
    fun key => decide (key.handleId = id)
  refine @Proxy.Counted.free proxy calls counted _ _ _ (listed_foldl_erase distinct) ?_
  intro key there
  obtain ⟨other, old⟩ := mem_foldl_erase.mp there
  have different : key.handleId ≠ id := by
    intro same
    apply other
    rw [List.mem_filter, decide_eq_true_iff]
    exact ⟨order.mem_iff.mpr (AList.mem_keys.mp old), same⟩
  exact AList.mem_erase.mpr ⟨different, counted.ofOpen key old⟩

/-- What a step preserves, while there are tokens left. -/
theorem Proxy.Counted.step (counted : proxy.Counted)
    {input : MapCalls × BuildFsHandler.Exchange} {next : Proxy}
    (stepped : proxy.step input = some next) (few : next.mapped < 2 ^ 64) : next.Counted := by
  obtain ⟨outcome, served, rfl⟩ := Option.map_eq_some_iff.mp stepped
  rcases BuildFsHandler.serve_ids served with quiet | allocates | ⟨_, _, _, _, rfl⟩ |
    ⟨_, _, _, rfl⟩ | ⟨_, rfl⟩
  · exact counted.aside quiet.toAside
  · exact counted.aside allocates.toAside
  · exact counted.mmapPrep _ _ _ _ few
  · exact counted.munmap _ _ _ _
  · exact counted.onClose _ _

theorem step_mapped {input : MapCalls × BuildFsHandler.Exchange} {next : Proxy}
    (stepped : proxy.step input = some next) : proxy.mapped ≤ next.mapped := by
  obtain ⟨outcome, _, rfl⟩ := Option.map_eq_some_iff.mp stepped
  exact Nat.le_add_right _ _

theorem counted_new {handler : BuildFsHandler} (unmapped : handler.activeMmaps = ∅) :
    (Proxy.new handler).Counted := by
  have none_ : handler.recorded = [] := by
    unfold BuildFsHandler.recorded
    rw [unmapped]
    rfl
  exact
    { same := by
        show handler.recorded.Perm _
        rw [none_]
        exact List.Perm.refl _
      once := by
        show handler.recorded.Nodup
        rw [none_]
        exact List.nodup_nil
      ofOpen := by
        intro key there
        have there : key ∈ handler.activeMmaps := there
        rw [unmapped] at there
        exact absurd there (AList.notMem_empty _)
      freedOnce := List.nodup_nil
      next := rfl
      issued := fun token there => absurd there (AList.notMem_empty _)
      gone := fun token member => absurd member List.not_mem_nil }

end Invariant

section Runs

/-- In every run with fewer than 2^64 mappings, handler and worker have the same tokens in
their tables, each once and for an open handle, and no token is freed twice. -/
theorem tokens_joined (handler : BuildFsHandler) (unmapped : handler.activeMmaps = ∅)
    (inputs : List (MapCalls × BuildFsHandler.Exchange)) :
    Throughout Proxy.step (fun proxy => proxy.mapped < 2 ^ 64 → proxy.Joined) (Proxy.new handler)
      inputs := by
  have counted : Throughout Proxy.step (fun proxy => proxy.mapped < 2 ^ 64 → proxy.Counted)
      (Proxy.new handler) inputs := by
    have meets : EachMeets Proxy.step (fun _ _ => True) (Proxy.new handler) inputs :=
      eachMeets_of_forall fun _ _ _ => trivial
    refine throughout_of_eachMeets ?_ (fun _ => counted_new unmapped) meets
    intro proxy input next before _ stepped few
    exact (before (Nat.lt_of_le_of_lt (step_mapped stepped) few)).step stepped few
  intro done rest proxy split run few
  exact (counted done rest proxy split run few).toJoined

/-- Calls that succeed, for a file that a build owns. -/
def plainCalls : MapCalls where
  toStringLossy _ := "/out/a".toList
  openFd _ _ := .ok 3
  fmap _ _ _ _ := .ok 0x2000
  anonMapZeroed _ := .ok 0x1000
  copied _ _ _ := true
  funmap _ _ := .ok ()

/-- Two mappings, one of them freed by a `munmap` of another range and one by the close. -/
def twoMappings : List (MapCalls × BuildFsHandler.Exchange) :=
  [.mmapPrep 1 0 4096 ⟨false, false, false⟩, .mmapPrep 1 4096 100 ⟨true, false, false⟩,
    .munmap 1 0 8192, .onClose 1].map fun request =>
      (plainCalls, BuildFsHandler.plainWorker, request)

theorem twoMappings_joined :
    ∃ proxy, runAll Proxy.step (Proxy.new (BuildFsHandler.holding "out/a" true)) twoMappings =
      some proxy ∧ proxy.freed = [2, 1] ∧ proxy.Joined := by
  refine ⟨_, rfl, rfl, ?_⟩
  exact tokens_joined (BuildFsHandler.holding "out/a" true) rfl twoMappings twoMappings [] _
    (List.append_nil _) rfl (by decide)

end Runs

end NixRedox.BuildProxy
