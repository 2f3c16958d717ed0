import NixRedox.BuildHandler

set_option autoImplicit false

/- Write containment of the build proxy: what a run of the handler can ask the
worker to change. -/
namespace NixRedox.BuildProxy

open Redox (Errno)
open UnixPath (PathBuf joinComponents)

inductive Request where
  | schemeRoot
  | openat (dirfd : Nat) (path : List Char) (flags : UInt64)
  | unlinkat (fd : Nat) (path : List Char) (flags : UInt64)
  | dup (oldId : Nat)
  | read (id length offset : Nat)
  | write (id : Nat) (data : List UInt8) (offset : Nat)
  | fsize (id : Nat)
  | flink (id : Nat) (path : List Char)
  | frename (id : Nat) (path : List Char)
  | fstat (id : Nat) (buffer : Stat)
  | fchmod (id : Nat) (newMode : UInt64)
  | ftruncate (id length : Nat)
  | mmapPrep (id offset size : Nat) (flags : MapFlags)
  | munmap (id offset size : Nat)
  | fcntl (id : Nat) (cmd : BuildFsHandler.FcntlCmd) (arg : UInt64)
  | onClose (id : Nat)

namespace BuildFsHandler

/-- Serve one request; `none` when the handler never answers. -/
def serve (worker : BuildFsIoWorker) (handler : BuildFsHandler) : Request → Option Outcome
  | .schemeRoot => handler.schemeRoot
  | .openat dirfd path flags => handler.openat worker dirfd path flags
  | .unlinkat fd path flags => some (handler.unlinkat worker fd path flags)
  | .dup oldId => handler.dupHandle oldId
  | .read id length offset => some (handler.read worker id length offset)
  | .write id data offset => some (handler.write worker id data offset)
  | .fsize id => some (handler.fsize id)
  | .flink id path => some (handler.flink worker id path)
  | .frename id path => some (handler.frename worker id path)
  | .fstat id buffer => some (handler.fstat worker id buffer)
  | .fchmod id newMode => some (handler.fchmod worker id newMode)
  | .ftruncate id length => some (handler.ftruncate worker id length)
  | .mmapPrep id offset size flags => some (handler.mmapPrep worker id offset size flags)
  | .munmap id offset size => some (handler.munmap worker id offset size)
  | .fcntl id cmd arg => handler.fcntl id cmd arg
  | .onClose id => some (handler.onClose worker id)

/-- The handler the event loop starts from, before or after the root handle is
installed. -/
inductive Initial (allowList : AllowList) : BuildFsHandler → Prop where
  | new : Initial allowList (new allowList)
  | installed : Initial allowList ((new allowList).installRootHandle 0)

end BuildFsHandler

/-- Paths whose file or directory entry a request to the worker can change. -/
def IoRequest.changes : IoRequest → List PathBuf
  | .openPath path flags => if changesFile flags then [path] else []
  | .writeAt path _ _ _ _ => [path]
  | .truncatePath path _ _ => [path]
  | .chmodPath path _ _ => [path]
  | .unlinkPath path _ => [path]
  | .renamePath oldPath newPath => [oldPath, newPath]
  | .linkPath _ newPath => [newPath]
  | .mmapPath path _ _ flags => if flags.mapShared && flags.protWrite then [path] else []
  | .ensureDirTree _ | .readAt .. | .statPath .. | .readDir _ | .munmapToken _ => []

/-- Over a filesystem without symlinks the worker opens the path it was asked to. -/
def BuildFsIoWorker.SymlinkFree (worker : BuildFsIoWorker) : Prop :=
  ∀ path flags opened, worker.openPath path flags = .ok opened → opened.resolvedPath = path

/-- Every path the request can change is writable on the allow-list. -/
def IoRequest.Allowed (allowList : AllowList) (request : IoRequest) : Prop :=
  ∀ path ∈ request.changes, allowList.check path = .readWrite

namespace BuildFsHandler

/-- The permission taken at the open, kept by the handle. -/
def WritableHandles (handler : BuildFsHandler) : Prop :=
  ∀ id file, handler.handles.lookup id = some (.file file) → file.writable = true →
    handler.allowList.check file.realPath = .readWrite

/-- The handler keeps its allow-list and its writable handles, and forwards only
what the allow-list permits. -/
structure Sound (allowList : AllowList) (outcome : Outcome) : Prop where
  allowList_eq : outcome.handler.allowList = allowList
  writable : outcome.handler.WritableHandles
  allowed : ∀ request ∈ outcome.forwarded, request.Allowed allowList

/-- The two checks the source leaves out. A rename has to start from a writable
path and must not carry a writable handle to a path that is not; a shared writable
mapping has to be of a writable path. -/
def Guarded (worker : BuildFsIoWorker) (handler : BuildFsHandler) : Request → Prop
  | .frename id path =>
      handler.allowList.check (resolvePath path) = .readWrite →
      ∀ handle, handler.handles.lookup id = some handle →
        handler.allowList.check handle.realPath = .readWrite ∧
        (worker.renamePath handle.realPath (resolvePath path) = .ok () →
          ∀ other file, handler.handles.lookup other = some (.file file) →
            file.writable = true →
            ∀ moved, rewritePathPrefix file.realPath handle.realPath (resolvePath path) =
                some moved → handler.allowList.check moved = .readWrite)
  | .mmapPrep id _ _ flags =>
      flags.mapShared = true → flags.protWrite = true →
      ∀ file, handler.handles.lookup id = some (.file file) →
        handler.allowList.check file.realPath = .readWrite
  | _ => True

theorem WritableHandles.insertHandle {handler : BuildFsHandler} {id : Nat}
    {handle : ProxyHandle} (kept : handler.WritableHandles)
    (fresh : ∀ file, handle = .file file → file.writable = true →
      handler.allowList.check file.realPath = .readWrite) :
    (handler.insertHandle id handle).WritableHandles := by
  intro other file found writable
  by_cases same : other = id
  · subst same
    have inserted : some handle = some (.file file) := by
      simpa [BuildFsHandler.insertHandle] using found
    exact fresh file (Option.some.inj inserted) writable
  · have before : handler.handles.lookup other = some (.file file) := by
      simpa [BuildFsHandler.insertHandle, AList.lookup_insert_ne same] using found
    exact kept other file before writable

/-- Updating a handle in place without touching its path or its permission. -/
theorem WritableHandles.updateFile {handler : BuildFsHandler} {id : Nat}
    {file updated : FileHandle} (kept : handler.WritableHandles)
    (found : handler.handles.lookup id = some (.file file))
    (path : updated.realPath = file.realPath) (mode : updated.writable = file.writable) :
    (handler.insertHandle id (.file updated)).WritableHandles := by
  apply kept.insertHandle
  intro other same writable
  cases same
  rw [path]
  exact kept id file found (mode ▸ writable)

theorem allocId_spec {handler next : BuildFsHandler} {id : Nat}
    (allocated : handler.allocId = some (id, next)) :
    ∃ nextId, next = { handler with nextId } := by
  unfold allocId at allocated
  obtain ⟨found, _, same⟩ := Option.map_eq_some_iff.mp allocated
  cases same
  exact ⟨found.2, rfl⟩

section Operations

variable {worker : BuildFsIoWorker} {handler : BuildFsHandler}

/-- An answer that changes nothing and forwards requests the allow-list permits. -/
theorem Sound.unchanged (kept : handler.WritableHandles) {reply : Except Errno Reply}
    {forwarded : List IoRequest}
    (allowed : ∀ request ∈ forwarded, request.Allowed handler.allowList) :
    Sound handler.allowList ⟨reply, handler, forwarded⟩ :=
  ⟨rfl, kept, allowed⟩

theorem Sound.failed (kept : handler.WritableHandles) (errno : Errno) :
    Sound handler.allowList (handler.fail errno) :=
  Sound.unchanged kept (by simp)

theorem allowed_singleton {allowList : AllowList} {request : IoRequest}
    (allowed : request.Allowed allowList) : ∀ other ∈ [request], other.Allowed allowList := by
  intro other member
  rw [List.mem_singleton] at member
  exact member ▸ allowed

/-- A request that changes one path, and that path is writable. -/
theorem allowed_path {allowList : AllowList} {request : IoRequest} {path : PathBuf}
    (changes : request.changes = [path]) (writable : allowList.check path = .readWrite) :
    request.Allowed allowList := by
  intro other member
  rw [changes, List.mem_singleton] at member
  exact member ▸ writable

theorem allowed_nothing {allowList : AllowList} {request : IoRequest}
    (changes : request.changes = []) : request.Allowed allowList := by
  intro other member
  rw [changes] at member
  cases member

theorem rootHandle_sound (kept : handler.WritableHandles) (id : Nat) :
    (handler.insertHandle id rootHandle).WritableHandles := by
  apply kept.insertHandle
  intro file impossible
  cases impossible

theorem schemeRoot_sound (kept : handler.WritableHandles) {outcome : Outcome}
    (served : handler.schemeRoot = some outcome) : Sound handler.allowList outcome := by
  unfold schemeRoot at served
  obtain ⟨⟨id, next⟩, allocated, same⟩ := Option.map_eq_some_iff.mp served
  obtain ⟨nextId, rfl⟩ := allocId_spec allocated
  cases same
  have still : ({ handler with nextId } : BuildFsHandler).WritableHandles := kept
  exact ⟨rfl, rootHandle_sound still id, by simp⟩

theorem dupHandle_sound (kept : handler.WritableHandles) {oldId : Nat} {outcome : Outcome}
    (served : handler.dupHandle oldId = some outcome) : Sound handler.allowList outcome := by
  unfold dupHandle at served
  obtain ⟨⟨id, next⟩, allocated, same⟩ := Option.map_eq_some_iff.mp served
  obtain ⟨nextId, rfl⟩ := allocId_spec allocated
  have still : ({ handler with nextId } : BuildFsHandler).WritableHandles := kept
  dsimp only at same
  split at same
  · rename_i handle found
    cases same
    refine ⟨rfl, still.insertHandle ?_, by simp⟩
    intro file copied writable
    exact kept oldId file (copied ▸ found) writable
  · cases same
    exact Sound.failed still .ebadf

/-- Write permission that an open ends up with is the allow-list's own. -/
theorem effectivePermission_readWrite {flags : OpenFlags} {path : PathBuf}
    (granted : handler.effectivePermission flags path = .readWrite) :
    handler.allowList.check path = .readWrite := by
  unfold effectivePermission at granted
  dsimp only at granted
  split at granted
  · split at granted <;> cases granted
  · exact granted

theorem openReal_sound (faithful : worker.SymlinkFree) (kept : handler.WritableHandles)
    {id : Nat} {raw : UInt64} {path schemePath : PathBuf} {before : List IoRequest}
    (granted : (translateOpenFlags raw).wantsWrite = true →
      handler.allowList.check path = .readWrite)
    (earlier : ∀ request ∈ before, request.Allowed handler.allowList) :
    Sound handler.allowList
      (openReal worker handler id (translateOpenFlags raw) path schemePath before) := by
  have opening : ∀ realFlags,
      realFlags = (if (translateOpenFlags raw).directory then O_RDONLY ||| O_DIRECTORY
        else (translateOpenFlags raw).toRealFlags) →
      (IoRequest.openPath path realFlags).Allowed handler.allowList := by
    intro realFlags same
    by_cases changes : changesFile realFlags = true
    · have asked : (translateOpenFlags raw).wantsWrite = true := by
        subst same
        split at changes
        · exact False.elim (absurd changes (by decide))
        · exact changesFile_toRealFlags raw changes
      exact allowed_path (by simp [IoRequest.changes, changes]) (granted asked)
    · exact allowed_nothing (by simp [IoRequest.changes, changes])
  have forwarded : ∀ request ∈ before ++ [IoRequest.openPath path
      (if (translateOpenFlags raw).directory then O_RDONLY ||| O_DIRECTORY
        else (translateOpenFlags raw).toRealFlags)], request.Allowed handler.allowList := by
    intro request member
    rcases List.mem_append.mp member with member | member
    · exact earlier request member
    · exact allowed_singleton (opening _ rfl) request member
  unfold openReal
  dsimp only
  split
  · exact Sound.unchanged kept forwarded
  · rename_i opened found
    refine ⟨rfl, kept.insertHandle ?_, forwarded⟩
    intro file handle writable
    unfold openedHandle at handle
    split at handle
    · cases handle
    · cases handle
      have resolved : opened.resolvedPath = path := faithful _ _ _ found
      rw [resolved]
      exact granted writable

theorem openat_sound (faithful : worker.SymlinkFree) (kept : handler.WritableHandles)
    {dirfd : Nat} {path : List Char} {raw : UInt64} {outcome : Outcome}
    (served : handler.openat worker dirfd path raw = some outcome) :
    Sound handler.allowList outcome := by
  unfold openat at served
  split at served
  · cases served
    exact Sound.failed kept _
  · rename_i absPath schemePath resolved
    dsimp only at served
    split at served
    · cases served
      exact Sound.failed kept _
    split at served
    · cases served
      exact Sound.failed kept _
    rename_i writeGranted
    obtain ⟨⟨id, next⟩, allocated, same⟩ := Option.map_eq_some_iff.mp served
    obtain ⟨nextId, rfl⟩ := allocId_spec allocated
    have still : ({ handler with nextId } : BuildFsHandler).WritableHandles := kept
    have granted : (translateOpenFlags raw).wantsWrite = true →
        handler.allowList.check absPath = .readWrite := by
      intro asked
      apply effectivePermission_readWrite
      by_contra lacking
      exact writeGranted ⟨asked, lacking⟩
    have tree : ∀ directory, ∀ request ∈ [IoRequest.ensureDirTree directory],
        request.Allowed handler.allowList := fun directory =>
      allowed_singleton (allowed_nothing rfl)
    dsimp only at same
    split at same
    · subst same
      exact openReal_sound faithful still granted (by simp)
    · split at same
      · subst same
        exact Sound.unchanged still (tree _)
      · subst same
        exact openReal_sound faithful still granted (tree _)

theorem unlinkat_sound (kept : handler.WritableHandles) (fd : Nat) (path : List Char)
    (flags : UInt64) : Sound handler.allowList (handler.unlinkat worker fd path flags) := by
  unfold unlinkat
  split
  · exact Sound.failed kept _
  · split
    · exact Sound.failed kept _
    · rename_i writable
      exact Sound.unchanged kept
        (allowed_singleton (allowed_path rfl (Decidable.not_not.mp writable)))

theorem read_sound (kept : handler.WritableHandles) (id length offset : Nat) :
    Sound handler.allowList (handler.read worker id length offset) := by
  unfold read
  split
  · exact Sound.unchanged kept (allowed_singleton (allowed_nothing rfl))
  · exact Sound.failed kept _
  · exact Sound.failed kept _

theorem write_sound (kept : handler.WritableHandles) (id : Nat) (data : List UInt8)
    (offset : Nat) : Sound handler.allowList (handler.write worker id data offset) := by
  unfold write
  split
  · rename_i file found
    split
    · exact Sound.failed kept _
    · rename_i open_
      have writable := kept id file found (by simpa using open_)
      dsimp only
      split
      · exact Sound.unchanged kept (allowed_singleton (allowed_path rfl writable))
      · exact ⟨rfl, kept.updateFile found rfl rfl,
          allowed_singleton (allowed_path rfl writable)⟩
  · exact Sound.failed kept _
  · exact Sound.failed kept _

theorem fsize_sound (kept : handler.WritableHandles) (id : Nat) :
    Sound handler.allowList (handler.fsize id) := by
  unfold fsize
  split
  · exact Sound.unchanged kept (by simp)
  · exact Sound.unchanged kept (by simp)
  · exact Sound.failed kept _

theorem flink_sound (kept : handler.WritableHandles) (id : Nat) (path : List Char) :
    Sound handler.allowList (handler.flink worker id path) := by
  unfold flink
  dsimp only
  split
  · exact Sound.failed kept _
  · rename_i writable
    split
    · exact Sound.unchanged kept
        (allowed_singleton (allowed_path rfl (Decidable.not_not.mp writable)))
    · exact Sound.failed kept _
    · exact Sound.failed kept _

theorem frename_sound (kept : handler.WritableHandles) {id : Nat} {path : List Char}
    (guarded : Guarded worker handler (.frename id path)) :
    Sound handler.allowList (handler.frename worker id path) := by
  unfold frename
  dsimp only
  split
  · exact Sound.failed kept _
  · rename_i checked
    have target := Decidable.not_not.mp checked
    split
    · exact Sound.failed kept _
    · rename_i handle found
      obtain ⟨source, carried⟩ := guarded target handle found
      have both : ∀ request ∈ [IoRequest.renamePath handle.realPath (resolvePath path)],
          request.Allowed handler.allowList := by
        apply allowed_singleton
        intro changed member
        rcases List.mem_cons.mp member with rfl | member
        · exact source
        · rw [List.mem_singleton] at member
          exact member ▸ target
      split
      · exact Sound.unchanged kept both
      · rename_i success
        refine ⟨rfl, ?_, both⟩
        intro other file moved writable
        have before : ∃ old, handler.handles.lookup other = some old ∧
            rewriteHandle handle.realPath (resolvePath path) handle.schemePath
              (UnixPath.components (Text.trimMatches path)) old = .file file := by
          simpa [rewriteOpenHandlePaths, lookup_mapValues] using moved
        obtain ⟨old, present, rewritten⟩ := before
        cases old with
        | dir directory => cases rewritten
        | file old =>
            cases rewritten
            show handler.allowList.check (renamed _ _ old.realPath) = .readWrite
            unfold renamed
            cases landed : rewritePathPrefix old.realPath handle.realPath (resolvePath path) with
            | none => exact kept other old present writable
            | some updated => exact carried success other old present writable updated landed

/-- A rename onto a writable path keeps what lies below the old path writable,
except where the rest of a handle's path climbs out of it again. -/
theorem rewritePathPrefix_writable {allowList : AllowList} {path oldRoot newRoot moved : PathBuf}
    (target : allowList.check newRoot = .readWrite)
    (stays : ∀ rest, path = oldRoot ++ rest → UnixPath.climbs 0 rest = false)
    (landed : rewritePathPrefix path oldRoot newRoot = some moved) :
    allowList.check moved = .readWrite := by
  obtain ⟨rest, stripped, rfl⟩ := Option.map_eq_some_iff.mp landed
  have inside := stays rest (UnixPath.stripPrefix_eq_some.mp stripped)
  split
  · exact target
  · cases rest with
    | nil => contradiction
    | cons first rest =>
        cases first with
        | rootDir => cases inside
        | curDir =>
            unfold joinComponents
            dsimp only
            split
            · rename_i empty
              subst empty
              exact AllowList.check_append target inside
            · exact AllowList.check_append target inside
        | parentDir => cases inside
        | normal name => exact AllowList.check_append target inside

theorem fstat_sound (kept : handler.WritableHandles) (id : Nat) (buffer : Stat) :
    Sound handler.allowList (handler.fstat worker id buffer) := by
  unfold fstat
  split
  · rename_i file found
    dsimp only
    split
    · exact ⟨rfl, kept.updateFile found rfl rfl, allowed_singleton (allowed_nothing rfl)⟩
    · exact Sound.unchanged kept (allowed_singleton (allowed_nothing rfl))
  · dsimp only
    split
    · exact Sound.unchanged kept (allowed_singleton (allowed_nothing rfl))
    · exact Sound.unchanged kept (allowed_singleton (allowed_nothing rfl))
  · exact Sound.failed kept _

theorem fchmod_sound (kept : handler.WritableHandles) (id : Nat) (newMode : UInt64) :
    Sound handler.allowList (handler.fchmod worker id newMode) := by
  unfold fchmod
  split
  · rename_i handle found
    dsimp only
    split
    · exact Sound.failed kept _
    · rename_i permitted
      have writable := (handler.allowList.canWrite_iff handle.realPath).mp
        (by simpa using permitted)
      exact Sound.unchanged kept (allowed_singleton (allowed_path rfl writable))
  · exact Sound.failed kept _

theorem ftruncate_sound (kept : handler.WritableHandles) (id length : Nat) :
    Sound handler.allowList (handler.ftruncate worker id length) := by
  unfold ftruncate
  split
  · rename_i file found
    split
    · exact Sound.failed kept _
    · rename_i open_
      have writable := kept id file found (by simpa using open_)
      dsimp only
      split
      · exact Sound.unchanged kept (allowed_singleton (allowed_path rfl writable))
      · exact ⟨rfl, kept.updateFile found rfl rfl,
          allowed_singleton (allowed_path rfl writable)⟩
  · exact Sound.failed kept _
  · exact Sound.failed kept _

theorem mmapPrep_sound (kept : handler.WritableHandles) {id offset size : Nat}
    {flags : MapFlags} (guarded : Guarded worker handler (.mmapPrep id offset size flags)) :
    Sound handler.allowList (handler.mmapPrep worker id offset size flags) := by
  unfold mmapPrep
  split
  · rename_i file found
    have mapped : (IoRequest.mmapPath file.realPath offset size flags).Allowed
        handler.allowList := by
      by_cases shared : (flags.mapShared && flags.protWrite) = true
      · have both := Bool.and_eq_true_iff.mp shared
        exact allowed_path (by simp [IoRequest.changes, both])
          (guarded both.1 both.2 file found)
      · exact allowed_nothing (by simpa [IoRequest.changes] using shared)
    dsimp only
    split
    · exact Sound.unchanged kept (allowed_singleton mapped)
    · exact ⟨rfl, kept, allowed_singleton mapped⟩
  · exact Sound.failed kept _
  · exact Sound.failed kept _

theorem popToken_sound (kept : handler.WritableHandles) (key : ActiveMapKey) :
    Sound handler.allowList (handler.popToken key) := by
  unfold popToken
  dsimp only
  split
  · exact Sound.unchanged kept (by simp)
  · exact ⟨rfl, kept, allowed_singleton (allowed_nothing rfl)⟩

theorem munmap_sound (kept : handler.WritableHandles) (id offset size : Nat) :
    Sound handler.allowList (handler.munmap worker id offset size) := by
  unfold munmap
  dsimp only
  split
  · exact popToken_sound kept _
  · split
    · exact popToken_sound kept _
    · exact Sound.unchanged kept (by simp)

theorem fcntl_sound (kept : handler.WritableHandles) {id : Nat} {cmd : FcntlCmd} {arg : UInt64}
    {outcome : Outcome} (served : handler.fcntl id cmd arg = some outcome) :
    Sound handler.allowList outcome := by
  have answered : ∀ reply, some ⟨reply, handler, []⟩ = some outcome →
      Sound handler.allowList outcome := by
    intro reply same
    cases same
    exact Sound.unchanged kept (by simp)
  unfold fcntl at served
  split at served
  · exact dupHandle_sound kept served
  · exact dupHandle_sound kept served
  · split at served
    · exact answered _ served
    · exact answered _ served
    · exact answered _ served
  · split at served
    · rename_i file found
      cases served
      exact ⟨rfl, kept.updateFile found rfl rfl, by simp⟩
    · exact answered _ served
    · exact answered _ served
  all_goals exact answered _ served

theorem onClose_sound (kept : handler.WritableHandles) (id : Nat) :
    Sound handler.allowList (handler.onClose worker id) := by
  refine ⟨rfl, ?_, ?_⟩
  · intro other file found writable
    by_cases same : other = id
    · subst same
      simp [onClose] at found
    · refine kept other file ?_ writable
      simpa [onClose, AList.lookup_erase_ne same] using found
  · intro request member
    obtain ⟨token, _, rfl⟩ := List.mem_map.mp member
    exact allowed_nothing rfl

/-- One request, whatever it is, keeps the handles and forwards nothing outside
the writable entries. -/
theorem serve_sound (faithful : worker.SymlinkFree) (kept : handler.WritableHandles)
    {request : Request} (guarded : Guarded worker handler request) {outcome : Outcome}
    (served : handler.serve worker request = some outcome) :
    Sound handler.allowList outcome := by
  cases request with
  | schemeRoot => exact schemeRoot_sound kept served
  | openat dirfd path flags => exact openat_sound faithful kept served
  | dup oldId => exact dupHandle_sound kept served
  | fcntl id cmd arg => exact fcntl_sound kept served
  | unlinkat fd path flags =>
      exact Option.some.inj served ▸ unlinkat_sound kept fd path flags
  | read id length offset => exact Option.some.inj served ▸ read_sound kept id length offset
  | write id data offset => exact Option.some.inj served ▸ write_sound kept id data offset
  | fsize id => exact Option.some.inj served ▸ fsize_sound kept id
  | flink id path => exact Option.some.inj served ▸ flink_sound kept id path
  | frename id path => exact Option.some.inj served ▸ frename_sound kept guarded
  | fstat id buffer => exact Option.some.inj served ▸ fstat_sound kept id buffer
  | fchmod id newMode => exact Option.some.inj served ▸ fchmod_sound kept id newMode
  | ftruncate id length => exact Option.some.inj served ▸ ftruncate_sound kept id length
  | mmapPrep id offset size flags => exact Option.some.inj served ▸ mmapPrep_sound kept guarded
  | munmap id offset size => exact Option.some.inj served ▸ munmap_sound kept id offset size
  | onClose id => exact Option.some.inj served ▸ onClose_sound kept id

end Operations

/-- A run from `start`: the requests forwarded so far and the handler reached. The
worker answers each request as it likes, within what the run admits. -/
inductive Run (admits : BuildFsIoWorker → BuildFsHandler → Request → Prop)
    (start : BuildFsHandler) : List IoRequest → BuildFsHandler → Prop where
  | start : Run admits start [] start
  | step {sent : List IoRequest} {handler : BuildFsHandler} {worker : BuildFsIoWorker}
      {request : Request} {outcome : Outcome} (run : Run admits start sent handler)
      (admitted : admits worker handler request)
      (served : handler.serve worker request = some outcome) :
      Run admits start (sent ++ outcome.forwarded) outcome.handler

/-- Any request, over a filesystem without symlinks. -/
def SymlinkFreeStep (worker : BuildFsIoWorker) (_ : BuildFsHandler) (_ : Request) : Prop :=
  worker.SymlinkFree

/-- A request that the handler checks completely. -/
def GuardedStep (worker : BuildFsIoWorker) (handler : BuildFsHandler) (request : Request) :
    Prop :=
  worker.SymlinkFree ∧ Guarded worker handler request

theorem initial_writableHandles {allowList : AllowList} {start : BuildFsHandler}
    (initial : Initial allowList start) :
    start.allowList = allowList ∧ start.WritableHandles := by
  have fresh : (new allowList).WritableHandles := by
    intro id file found
    have none : (new allowList).handles.lookup id = none := AList.lookup_empty id
    rw [none] at found
    cases found
  cases initial with
  | new => exact ⟨rfl, fresh⟩
  | installed => exact ⟨rfl, rootHandle_sound fresh 0⟩

/-- The invariant of a whole run, from one request to the next. -/
theorem Run.sound {allowList : AllowList} {start reached : BuildFsHandler}
    {sent : List IoRequest} (initial : Initial allowList start)
    (run : Run GuardedStep start sent reached) :
    reached.allowList = allowList ∧ reached.WritableHandles ∧
      ∀ request ∈ sent, request.Allowed allowList := by
  induction run with
  | start => exact ⟨(initial_writableHandles initial).1, (initial_writableHandles initial).2, by simp⟩
  | step run admitted served ih =>
      obtain ⟨same, kept, earlier⟩ := ih
      have sound := serve_sound admitted.1 kept admitted.2 served
      rw [same] at sound
      refine ⟨sound.allowList_eq, sound.writable, ?_⟩
      intro request member
      rcases List.mem_append.mp member with member | member
      · exact earlier request member
      · exact sound.allowed request member

/-- Write containment: in a run that renames and maps only what is writable, every
path the worker is asked to change is writable on the allow-list. -/
theorem run_contained {allowList : AllowList} {start reached : BuildFsHandler}
    {sent : List IoRequest} (initial : Initial allowList start)
    (run : Run GuardedStep start sent reached) :
    ∀ request ∈ sent, ∀ path ∈ request.changes, allowList.check path = .readWrite :=
  (Run.sound initial run).2.2

/-- A worker over plain files that grants everything. -/
def plainWorker : BuildFsIoWorker where
  openPath path _ := .ok
    { stat := ⟨0, 0, 0o100644, 1, 0, 0, 0, 4096, 0, 0, 0, 0⟩, resolvedPath := path }
  ensureDirTree _ := .ok ()
  readAt _ _ _ _ := .ok []
  writeAt _ offset _ _ data := .ok ⟨data.length, offset + data.length⟩
  statPath _ _ := .error .eio
  chmodPath _ _ _ := .ok ()
  truncatePath _ _ _ := .ok ()
  readDir _ := .ok []
  renamePath _ _ := .ok ()
  linkPath _ _ := .ok ()
  unlinkPath _ _ := .ok ()
  mmapPath _ _ _ _ := .ok ⟨1, 0x1000⟩
  keyOrder keys := keys
  keyOrder_perm _ := .rfl

theorem plainWorker_symlinkFree : plainWorker.SymlinkFree := by
  intro path flags opened success
  cases success
  rfl

/-- One input path, readable, and one output path, writable. -/
def sandbox : AllowList :=
  { readOnly := [UnixPath.components "/dep".toList]
    readWrite := [UnixPath.components "/out".toList] }

def plainFile (path : String) (writable : Bool) : FileHandle :=
  { realPath := UnixPath.components ('/' :: path.toList)
    schemePath := UnixPath.components path.toList
    writable
    append := false
    symlink := false
    size := 0
    mode := 0o100644 }

/-- A handler with that file as its only handle. -/
def holding (path : String) (writable : Bool) : BuildFsHandler :=
  { new sandbox with
    handles := AList.singleton 1 (.file (plainFile path writable)), nextId := 2 }

theorem holding_only {path : String} {writable : Bool} {id : Nat} {handle : ProxyHandle}
    (found : (holding path writable).handles.lookup id = some handle) :
    handle = .file (plainFile path writable) := by
  have entry := AList.mem_lookup_iff.mp found
  have same := List.mem_singleton.mp entry
  cases same
  rfl

/-- Create a file in the output, rename it and map it shared for writing. -/
theorem run_contained_output :
    ∃ sent reached, sent.length = 4 ∧
      Run GuardedStep (new sandbox) sent reached ∧
      ∀ request ∈ sent, ∀ path ∈ request.changes, sandbox.check path = .readWrite := by
  have created : (new sandbox).serve plainWorker
      (.openat 0 "out/a".toList (O_RDWR ||| O_CREAT)) =
        some ⟨.ok (.opened 1), holding "out/a" true, _⟩ := rfl
  have moved : (holding "out/a" true).serve plainWorker (.frename 1 "/out/b".toList) =
      some ⟨.ok (.count 0), holding "out/b" true, _⟩ := rfl
  have mapped : (holding "out/b" true).serve plainWorker (.mmapPrep 1 0 4096 ⟨false, true, true⟩) =
      some ⟨.ok (.count 0x1000), _, _⟩ := rfl
  have guardedMove : Guarded plainWorker (holding "out/a" true) (.frename 1 "/out/b".toList) := by
    intro _ handle found
    cases holding_only found
    refine ⟨by decide +kernel, ?_⟩
    intro _ other file present _ landing landed
    cases holding_only present
    have lands : some landing = some (UnixPath.components "/out/b".toList) :=
      landed.symm.trans (by decide +kernel)
    cases lands
    decide +kernel
  have guardedMap : Guarded plainWorker (holding "out/b" true)
      (.mmapPrep 1 0 4096 ⟨false, true, true⟩) := by
    intro _ _ file found
    cases holding_only found
    decide +kernel
  have first : Run GuardedStep (new sandbox) _ (holding "out/a" true) :=
    Run.start.step ⟨plainWorker_symlinkFree, trivial⟩ created
  have second : Run GuardedStep (new sandbox) _ (holding "out/b" true) :=
    first.step ⟨plainWorker_symlinkFree, guardedMove⟩ moved
  have run := second.step ⟨plainWorker_symlinkFree, guardedMap⟩ mapped
  exact ⟨_, _, rfl, run, run_contained .new run⟩

/-- A builder can rename an input, which it may only read, into its output. -/
theorem frename_takes_input :
    ¬ ∀ start sent reached, Initial sandbox start →
      Run SymlinkFreeStep start sent reached →
      ∀ request ∈ sent, ∀ path ∈ request.changes, sandbox.check path = .readWrite := by
  intro always
  have opened : (new sandbox).serve plainWorker (.openat 0 "dep/lib".toList O_RDONLY) =
      some ⟨.ok (.opened 1), holding "dep/lib" false, _⟩ := rfl
  have first : Run SymlinkFreeStep (new sandbox) _ (holding "dep/lib" false) :=
    Run.start.step plainWorker_symlinkFree opened
  have renamed : (holding "dep/lib" false).serve plainWorker (.frename 1 "/out/lib".toList) =
      some ⟨.ok (.count 0), holding "out/lib" false, _⟩ := rfl
  have run := first.step plainWorker_symlinkFree renamed
  have source := always _ _ _ .new run
    (.renamePath (UnixPath.components "/dep/lib".toList) (UnixPath.components "/out/lib".toList))
    (by decide +kernel) (UnixPath.components "/dep/lib".toList) (by decide +kernel)
  exact absurd source (by decide +kernel)

end BuildFsHandler

end NixRedox.BuildProxy
