import NixRedox.BuildSizes

set_option autoImplicit false

/- What the requests of the build proxy do to its handle ids and to its table of mappings. -/
namespace NixRedox.BuildProxy

open Redox (Errno)
open UnixPath (PathBuf)

/-- The requests to the worker about mappings. -/
def IoRequest.ofMaps : IoRequest → Bool
  | .mmapPath .. | .munmapToken _ => true
  | _ => false

/-- The id in a reply to an open or a dup. -/
def openedId : Except Errno Reply → Option Nat
  | .ok (.opened id) => some id
  | _ => none

/-- Handles stay open, mappings are as before, and the worker is not asked about them. -/
structure Aside (handler : BuildFsHandler) (outcome : Outcome) : Prop where
  maps : outcome.handler.activeMmaps = handler.activeMmaps
  ids : ∀ id ∈ handler.handles, id ∈ outcome.handler.handles
  asks : ∀ request ∈ outcome.forwarded, request.ofMaps = false

/-- The counter stays, and the reply has no id. -/
structure Still (handler : BuildFsHandler) (outcome : Outcome) : Prop where
  counter : outcome.handler.nextId = handler.nextId
  noId : openedId outcome.reply = none

/-- Neither ids nor mappings have changed. -/
structure Quiet (handler : BuildFsHandler) (outcome : Outcome) : Prop
    extends Still handler outcome, Aside handler outcome

/-- An id was allocated, and what is answered with it is open. -/
structure Allocates (handler : BuildFsHandler) (outcome : Outcome) : Prop
    extends Aside handler outcome where
  allocated : ∃ id next, handler.allocId = some (id, { handler with nextId := next }) ∧
    outcome.handler.nextId = next ∧
    ∀ other, openedId outcome.reply = some other → other = id ∧
      ∃ handle, outcome.handler.handles = handler.handles.insert id handle

namespace BuildFsHandler

variable {worker : BuildFsIoWorker} {handler : BuildFsHandler}

theorem openedId_map {α : Type} {result : Except Errno α} {reply : α → Reply}
    (noId : ∀ value, openedId (.ok (reply value)) = none) : openedId (result.map reply) = none := by
  cases result with
  | error errno => rfl
  | ok value => exact noId value

theorem ofMaps_singleton {request : IoRequest} (aside : request.ofMaps = false) :
    ∀ other ∈ [request], other.ofMaps = false := by
  intro other member
  rw [List.mem_singleton] at member
  exact member ▸ aside

section Shapes

variable {reply : Except Errno Reply} {forwarded : List IoRequest}

/-- The handler is as before. -/
theorem quiet_same (noId : openedId reply = none)
    (asks : ∀ request ∈ forwarded, request.ofMaps = false) :
    Quiet handler ⟨reply, handler, forwarded⟩ where
  counter := rfl
  noId := noId
  maps := rfl
  ids := fun _ there => there
  asks := asks

theorem quiet_fail (errno : Errno) : Quiet handler (handler.fail errno) :=
  quiet_same rfl (by simp)

/-- The reply is made of what the worker answers. -/
theorem quiet_map {α : Type} {result : Except Errno α} {answer : α → Reply}
    (noId : ∀ value, openedId (.ok (answer value)) = none)
    (asks : ∀ request ∈ forwarded, request.ofMaps = false) :
    Quiet handler ⟨result.map answer, handler, forwarded⟩ :=
  quiet_same (openedId_map noId) asks

theorem mem_insertHandle {id other : Nat} {handle : ProxyHandle} (there : other ∈ handler.handles) :
    other ∈ (handler.insertHandle id handle).handles :=
  (AList.mem_insert _).mpr (.inr there)

/-- A handle has changed. -/
theorem quiet_insert {id : Nat} {handle : ProxyHandle} (noId : openedId reply = none)
    (asks : ∀ request ∈ forwarded, request.ofMaps = false) :
    Quiet handler ⟨reply, handler.insertHandle id handle, forwarded⟩ where
  counter := rfl
  noId := noId
  maps := rfl
  ids := fun _ there => mem_insertHandle there
  asks := asks

end Shapes

section Operations

theorem unlinkat_quiet (fd : Nat) (path : List Char) (flags : UInt64) :
    Quiet handler (handler.unlinkat worker fd path flags) := by
  unfold unlinkat
  split
  · exact quiet_fail _
  · split
    · exact quiet_fail _
    · exact quiet_map (fun _ => rfl) (ofMaps_singleton rfl)

theorem read_quiet (id length offset : Nat) :
    Quiet handler (handler.read worker id length offset) := by
  unfold read
  split
  · exact quiet_map (fun _ => rfl) (ofMaps_singleton rfl)
  · exact quiet_fail _
  · exact quiet_fail _

theorem write_quiet (id : Nat) (data : List UInt8) (offset : Nat) :
    Quiet handler (handler.write worker id data offset) := by
  unfold write
  split
  · split
    · exact quiet_fail _
    · dsimp only
      split
      · exact quiet_same rfl (ofMaps_singleton rfl)
      · exact quiet_insert rfl (ofMaps_singleton rfl)
  · exact quiet_fail _
  · exact quiet_fail _

theorem fsize_quiet (id : Nat) : Quiet handler (handler.fsize id) := by
  unfold fsize
  split
  · exact quiet_same rfl (by simp)
  · exact quiet_same rfl (by simp)
  · exact quiet_fail _

theorem flink_quiet (id : Nat) (path : List Char) : Quiet handler (handler.flink worker id path) := by
  unfold flink
  dsimp only
  split
  · exact quiet_fail _
  · split
    · exact quiet_map (fun _ => rfl) (ofMaps_singleton rfl)
    · exact quiet_fail _
    · exact quiet_fail _

theorem frename_quiet (id : Nat) (path : List Char) :
    Quiet handler (handler.frename worker id path) := by
  unfold frename
  dsimp only
  split
  · exact quiet_fail _
  · split
    · exact quiet_fail _
    · split
      · exact quiet_same rfl (ofMaps_singleton rfl)
      · refine ⟨⟨rfl, rfl⟩, rfl, ?_, ofMaps_singleton rfl⟩
        intro other there
        have handle := AList.lookup_isSome.mpr there
        apply AList.lookup_isSome.mp
        rw [rewriteOpenHandlePaths, lookup_mapValues, Option.isSome_map]
        exact handle

theorem fstat_quiet (id : Nat) (buffer : Stat) :
    Quiet handler (handler.fstat worker id buffer) := by
  unfold fstat
  split
  · dsimp only
    split
    · exact quiet_insert rfl (ofMaps_singleton rfl)
    · exact quiet_same rfl (ofMaps_singleton rfl)
  · dsimp only
    split
    · exact quiet_same rfl (ofMaps_singleton rfl)
    · exact quiet_same rfl (ofMaps_singleton rfl)
  · exact quiet_fail _

theorem fchmod_quiet (id : Nat) (newMode : UInt64) :
    Quiet handler (handler.fchmod worker id newMode) := by
  unfold fchmod
  split
  · dsimp only
    split
    · exact quiet_fail _
    · exact quiet_map (fun _ => rfl) (ofMaps_singleton rfl)
  · exact quiet_fail _

theorem ftruncate_quiet (id length : Nat) : Quiet handler (handler.ftruncate worker id length) := by
  unfold ftruncate
  split
  · split
    · exact quiet_fail _
    · dsimp only
      split
      · exact quiet_same rfl (ofMaps_singleton rfl)
      · exact quiet_insert rfl (ofMaps_singleton rfl)
  · exact quiet_fail _
  · exact quiet_fail _

theorem mmapPrep_still (id offset size : Nat) (flags : MapFlags) :
    Still handler (handler.mmapPrep worker id offset size flags) := by
  unfold mmapPrep
  split
  · dsimp only
    split
    · exact ⟨rfl, rfl⟩
    · exact ⟨rfl, rfl⟩
  · exact (quiet_fail _).toStill
  · exact (quiet_fail _).toStill

theorem popToken_still (key : ActiveMapKey) : Still handler (handler.popToken key) := by
  unfold popToken
  dsimp only
  split
  · exact ⟨rfl, rfl⟩
  · exact ⟨rfl, rfl⟩

theorem munmap_still (id offset size : Nat) :
    Still handler (handler.munmap worker id offset size) := by
  unfold munmap
  dsimp only
  split
  · exact popToken_still _
  · split
    · exact popToken_still _
    · exact ⟨rfl, rfl⟩

theorem schemeRoot_allocates {outcome : Outcome} (served : handler.schemeRoot = some outcome) :
    Allocates handler outcome := by
  obtain ⟨⟨id, allocated⟩, search, rfl⟩ := Option.map_eq_some_iff.mp served
  obtain ⟨nextId, rfl⟩ := allocId_spec search
  refine ⟨⟨rfl, fun _ there => mem_insertHandle there, by simp⟩, id, nextId, search, rfl, ?_⟩
  intro other same
  cases same
  exact ⟨rfl, _, rfl⟩

theorem dupHandle_allocates {oldId : Nat} {outcome : Outcome}
    (served : handler.dupHandle oldId = some outcome) : Allocates handler outcome := by
  obtain ⟨⟨id, allocated⟩, search, made⟩ := Option.map_eq_some_iff.mp served
  obtain ⟨nextId, rfl⟩ := allocId_spec search
  dsimp only at made
  split at made
  · cases made
    refine ⟨⟨rfl, fun _ there => mem_insertHandle there, by simp⟩, id, nextId, search, rfl, ?_⟩
    intro other same
    cases same
    exact ⟨rfl, _, rfl⟩
  · cases made
    refine ⟨⟨rfl, fun _ there => there, by simp [fail]⟩, id, nextId, search, rfl, ?_⟩
    intro other same
    cases same

theorem openReal_allocates {id nextId : Nat} {flags : OpenFlags} {path schemePath : PathBuf}
    {before : List IoRequest} (aside : ∀ request ∈ before, request.ofMaps = false)
    (search : handler.allocId = some (id, { handler with nextId })) :
    Allocates handler
      (openReal worker { handler with nextId } id flags path schemePath before) := by
  unfold openReal
  dsimp only
  have asks : ∀ flags, ∀ request ∈ before ++ [IoRequest.openPath path flags],
      request.ofMaps = false := by
    intro flags request member
    rcases List.mem_append.mp member with member | member
    · exact aside request member
    · exact ofMaps_singleton rfl request member
  split
  · refine ⟨⟨rfl, fun _ there => there, asks _⟩, id, nextId, search, rfl, ?_⟩
    intro other same
    cases same
  · refine ⟨⟨rfl, fun _ there => mem_insertHandle there, asks _⟩, id, nextId, search, rfl, ?_⟩
    intro other same
    cases same
    exact ⟨rfl, _, rfl⟩

theorem openat_serves {dirfd : Nat} {path : List Char} {raw : UInt64} {outcome : Outcome}
    (served : handler.openat worker dirfd path raw = some outcome) :
    Quiet handler outcome ∨ Allocates handler outcome := by
  unfold openat at served
  split at served
  · cases served
    exact .inl (quiet_fail _)
  dsimp only at served
  split at served
  · cases served
    exact .inl (quiet_fail _)
  split at served
  · cases served
    exact .inl (quiet_fail _)
  obtain ⟨⟨id, allocated⟩, search, made⟩ := Option.map_eq_some_iff.mp served
  obtain ⟨nextId, rfl⟩ := allocId_spec search
  dsimp only at made
  right
  split at made
  · exact made ▸ openReal_allocates (by simp) search
  · split at made
    · subst made
      refine ⟨⟨rfl, fun _ there => there, ofMaps_singleton rfl⟩, id, nextId, search, rfl, ?_⟩
      intro other same
      cases same
    · exact made ▸ openReal_allocates (ofMaps_singleton rfl) search

theorem fcntl_serves {id : Nat} {cmd : FcntlCmd} {arg : UInt64} {outcome : Outcome}
    (served : handler.fcntl id cmd arg = some outcome) :
    Quiet handler outcome ∨ Allocates handler outcome := by
  cases cmd with
  | dupFd => exact .inr (dupHandle_allocates served)
  | dupFdCloexec => exact .inr (dupHandle_allocates served)
  | getFl =>
      left
      unfold fcntl at served
      dsimp only at served
      split at served
      · cases served
        exact quiet_same rfl (by simp)
      · cases served
        exact quiet_same rfl (by simp)
      · cases served
        exact quiet_fail _
  | setFl =>
      left
      unfold fcntl at served
      dsimp only at served
      split at served
      · cases served
        exact quiet_insert rfl (by simp)
      · cases served
        exact quiet_same rfl (by simp)
      · cases served
        exact quiet_fail _
  | getFd => cases served; exact .inl (quiet_same rfl (by simp))
  | setFd => cases served; exact .inl (quiet_same rfl (by simp))
  | setLk => cases served; exact .inl (quiet_same rfl (by simp))
  | setLkw => cases served; exact .inl (quiet_same rfl (by simp))
  | unsupported => cases served; exact .inl (quiet_fail _)

/-- Requests about mappings apart, a request leaves ids and mappings alone or an id has been
allocated for it. -/
theorem serve_ids {request : Request} {outcome : Outcome}
    (served : handler.serve worker request = some outcome) :
    Quiet handler outcome ∨ Allocates handler outcome ∨
      (∃ id offset size flags, outcome = handler.mmapPrep worker id offset size flags) ∨
      (∃ id offset size, outcome = handler.munmap worker id offset size) ∨
      ∃ id, outcome = handler.onClose worker id := by
  cases request with
  | schemeRoot => exact .inr (.inl (schemeRoot_allocates served))
  | openat dirfd path flags => exact (openat_serves served).imp_right .inl
  | unlinkat fd path flags => cases served; exact .inl (unlinkat_quiet _ _ _)
  | dup oldId => exact .inr (.inl (dupHandle_allocates served))
  | read id length offset => cases served; exact .inl (read_quiet _ _ _)
  | write id data offset => cases served; exact .inl (write_quiet _ _ _)
  | fsize id => cases served; exact .inl (fsize_quiet _)
  | flink id path => cases served; exact .inl (flink_quiet _ _)
  | frename id path => cases served; exact .inl (frename_quiet _ _)
  | fstat id buffer => cases served; exact .inl (fstat_quiet _ _)
  | fchmod id newMode => cases served; exact .inl (fchmod_quiet _ _)
  | ftruncate id length => cases served; exact .inl (ftruncate_quiet _ _)
  | mmapPrep id offset size flags =>
      cases served
      exact .inr (.inr (.inl ⟨id, offset, size, flags, rfl⟩))
  | munmap id offset size =>
      cases served
      exact .inr (.inr (.inr (.inl ⟨id, offset, size, rfl⟩)))
  | fcntl id cmd arg => exact (fcntl_serves served).imp_right .inl
  | onClose id =>
      cases served
      exact .inr (.inr (.inr (.inr ⟨id, rfl⟩)))

/-- The counter stays, or an id has been allocated. -/
theorem serve_counts {request : Request} {outcome : Outcome}
    (served : handler.serve worker request = some outcome) :
    Still handler outcome ∨ Allocates handler outcome := by
  rcases serve_ids served with quiet | allocates | ⟨_, _, _, _, rfl⟩ | ⟨_, _, _, rfl⟩ | ⟨_, rfl⟩
  · exact .inl quiet.toStill
  · exact .inr allocates
  · exact .inl (mmapPrep_still _ _ _ _)
  · exact .inl (munmap_still _ _ _)
  · exact .inl ⟨rfl, rfl⟩

end Operations

end BuildFsHandler

end NixRedox.BuildProxy
