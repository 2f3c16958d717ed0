import NixRedox.BuildIds
import NixRedox.CyclicIds

set_option autoImplicit false

/- The handle tables of the scheme daemons: `stored/handles.rs`, `profiled/handles.rs` and the
handles of the build proxy. -/
namespace NixRedox.SchemeHandles

open CyclicIds (Allocator Free Table allocate)
open StepRuns (Throughout)
open UnixPath (PathBuf)

/-- What opens and closes do to a table. -/
inductive Request (Opening : Type) where
  | opens (opening : Opening)
  | close (id : Nat)

/-- A table whose openings make a handle, or fail before an id is allocated. -/
def allocator {Handle Opening : Type} (limit : Nat) (made : Opening → Option Handle) :
    Allocator (Table Handle) Handle (Request Opening) where
  nextId := Table.nextId
  handles := Table.handles
  allocId := Table.allocId limit
  step := fun table request =>
    match request with
    | .opens opening => (table.answer limit (made opening)).map Prod.snd
    | .close id => some (table.close id)
  opened := fun table request =>
    match request with
    | .opens opening => (table.answer limit (made opening)).bind Prod.fst
    | .close _ => none

namespace Stored

/-- The kernel reserves the top 4096 values as error codes. -/
def MAX_HANDLE_ID : Nat := 2 ^ 64 - 1 - 4096

structure FileHandle where
  content : Option (List UInt8)
  realPath : PathBuf
  schemePath : List Char
  size : Nat
  executable : Bool

structure DirEntryInfo where
  name : List Char
  isDir : Bool
  isSymlink : Bool
  size : Nat

structure DirHandle where
  realPath : PathBuf
  schemePath : List Char
  entries : Option (List DirEntryInfo)

structure ControlHandle where
  buffer : List UInt8
  schemePath : List Char

inductive Handle where
  | file (handle : FileHandle)
  | dir (handle : DirHandle)
  | control (handle : ControlHandle)

abbrev HandleTable := Table Handle

def HandleTable.new : HandleTable := ⟨1, ∅⟩

/-- The file that is read and its metadata: how long it is and the bits of its mode. -/
structure Contents where
  data : List UInt8
  len : Nat
  mode : UInt32

inductive Opening where
  | openFileLazy (realPath : PathBuf) (schemePath : List Char) (size : Nat) (executable : Bool)
  | openFile (realPath : PathBuf) (schemePath : List Char) (read : Option Contents)
  | openDir (realPath : PathBuf) (schemePath : List Char) (isDir : Bool)
  | openDirUnchecked (realPath : PathBuf) (schemePath : List Char)
  | openControl (schemePath : List Char)

/-- The handle that is put into the table; none where the file system fails. -/
def Opening.made : Opening → Option Handle
  | .openFileLazy realPath schemePath size executable =>
      some (.file ⟨none, realPath, schemePath, size, executable⟩)
  | .openFile realPath schemePath read =>
      read.map fun contents =>
        .file ⟨some contents.data, realPath, schemePath, contents.len,
          contents.mode &&& 0o111 ≠ 0⟩
  | .openDir realPath schemePath isDir =>
      if isDir then some (.dir ⟨realPath, schemePath, none⟩) else none
  | .openDirUnchecked realPath schemePath => some (.dir ⟨realPath, schemePath, none⟩)
  | .openControl schemePath => some (.control ⟨[], schemePath⟩)

def HandleTable.allocId (table : HandleTable) : Option (Nat × HandleTable) :=
  Table.allocId MAX_HANDLE_ID table

def handleTable : Allocator HandleTable Handle (Request Opening) :=
  allocator MAX_HANDLE_ID Opening.made

end Stored

namespace Profiled

/-- The kernel reserves the top 4096 values as error codes. -/
def MAX_HANDLE_ID : Nat := 2 ^ 64 - 1 - 4096

structure FileHandle where
  content : Option (List UInt8)
  realPath : PathBuf
  schemePath : List Char
  size : Nat
  executable : Bool

structure DirHandle where
  schemePath : List Char
  profileName : List Char
  subpath : List Char

structure ControlHandle where
  profileName : List Char
  schemePath : List Char
  buffer : List UInt8

inductive Handle where
  | file (handle : FileHandle)
  | dir (handle : DirHandle)
  | control (handle : ControlHandle)

abbrev HandleTable := Table Handle

def HandleTable.new : HandleTable := ⟨1, ∅⟩

inductive Opening where
  | openFileLazy (realPath : PathBuf) (schemePath : List Char) (size : Nat) (executable : Bool)
  | openFile (realPath : PathBuf) (schemePath : List Char) (read : Option (List UInt8))
  | openDir (schemePath profileName subpath : List Char)
  | openControl (profileName schemePath : List Char)

def Opening.made : Opening → Option Handle
  | .openFileLazy realPath schemePath size executable =>
      some (.file ⟨none, realPath, schemePath, size, executable⟩)
  | .openFile realPath schemePath read =>
      read.map fun data => .file ⟨some data, realPath, schemePath, data.length, false⟩
  | .openDir schemePath profileName subpath => some (.dir ⟨schemePath, profileName, subpath⟩)
  | .openControl profileName schemePath => some (.control ⟨profileName, schemePath, []⟩)

def HandleTable.allocId (table : HandleTable) : Option (Nat × HandleTable) :=
  Table.allocId MAX_HANDLE_ID table

def handleTable : Allocator HandleTable Handle (Request Opening) :=
  allocator MAX_HANDLE_ID Opening.made

end Profiled

section Tables

variable {Handle Opening : Type} {limit : Nat} {made : Opening → Option Handle}

/-- An opening that is answered with an id has allocated it, another one has done nothing. -/
theorem answer_eq_some {table after : Table Handle} {handle : Option Handle} {opened : Option Nat}
    (answered : table.answer limit handle = some (opened, after)) :
    (opened = none ∧ after = table) ∨
      ∃ id own allocated, opened = some id ∧ table.allocId limit = some (id, allocated) ∧
        after = { allocated with handles := allocated.handles.insert id own } := by
  cases handle with
  | none =>
      cases answered
      exact .inl ⟨rfl, rfl⟩
  | some own =>
      obtain ⟨⟨id, next⟩, inserted, same⟩ := Option.map_eq_some_iff.mp answered
      obtain ⟨⟨_, allocated⟩, search, made⟩ := Option.map_eq_some_iff.mp inserted
      cases made
      cases same
      exact .inr ⟨_, own, allocated, rfl, search, rfl⟩

theorem allocId_eq_some {table allocated : Table Handle} {id : Nat}
    (search : table.allocId limit = some (id, allocated)) :
    allocated.handles = table.handles := by
  obtain ⟨found, _, same⟩ := Option.map_eq_some_iff.mp search
  cases same
  rfl

theorem allocator_circles : (allocator limit made).Circles limit where
  searches := by
    intro table
    show Option.map _ (Option.map _ (allocate limit table.handles table.nextId)) =
      allocate limit table.handles table.nextId
    cases allocate limit table.handles table.nextId with
    | none => rfl
    | some found => rfl
  allocates := fun _ _ _ search => allocId_eq_some search
  steps := by
    intro table request after stepped
    cases request with
    | close id =>
        cases stepped
        exact .inl rfl
    | opens opening =>
        obtain ⟨⟨opened, _⟩, answered, rfl⟩ := Option.map_eq_some_iff.mp stepped
        rcases answer_eq_some answered with ⟨_, rfl⟩ | ⟨id, own, allocated, _, search, rfl⟩
        · exact .inl rfl
        · exact .inr ⟨id, allocated, search, rfl⟩
  opens := by
    intro table request after id stepped opened
    cases request with
    | close id => cases opened
    | opens opening =>
        obtain ⟨⟨_, _⟩, answered, rfl⟩ := Option.map_eq_some_iff.mp stepped
        obtain ⟨⟨_, _⟩, again, rfl⟩ := Option.bind_eq_some_iff.mp opened
        rw [again] at answered
        cases answered
        rcases answer_eq_some again with ⟨none_, _⟩ | ⟨_, own, allocated, same, search, rfl⟩
        · cases none_
        · cases same
          refine ⟨allocated, own, search, ?_⟩
          show allocated.handles.insert id own = _
          rw [allocId_eq_some search]
          rfl

end Tables

section Proxy

open BuildProxy (BuildFsHandler HandleTable ProxyHandle openedId)
open BuildProxy.BuildFsHandler (Exchange advance allocId allocLoop serve_counts)

/-- The handles of the build proxy, over all requests it serves. -/
def proxyAllocator : Allocator BuildFsHandler ProxyHandle Exchange where
  nextId := BuildFsHandler.nextId
  handles := BuildFsHandler.handles
  allocId := allocId
  step := advance
  opened := fun handler exchange =>
    (handler.serve exchange.1 exchange.2).bind fun outcome => openedId outcome.reply

theorem allocLoop_eq (handles : HandleTable) (turns id : Nat) :
    allocLoop handles turns id =
      TailCalls.run (CyclicIds.turn BuildProxy.MAX_HANDLE_ID handles) turns id := by
  induction turns generalizing id with
  | zero => rfl
  | succ turns ih =>
      by_cases free : Free BuildProxy.MAX_HANDLE_ID handles id
      · have ends : CyclicIds.turn BuildProxy.MAX_HANDLE_ID handles id =
            .inr (id, CyclicIds.following BuildProxy.MAX_HANDLE_ID id) := if_pos free
        simp only [TailCalls.run, ends]
        exact if_pos free
      · have goes : CyclicIds.turn BuildProxy.MAX_HANDLE_ID handles id =
            .inl (CyclicIds.following BuildProxy.MAX_HANDLE_ID id) := if_neg free
        simp only [TailCalls.run, goes]
        rw [← ih]
        exact if_neg free

theorem proxyAllocator_circles : proxyAllocator.Circles BuildProxy.MAX_HANDLE_ID where
  searches := by
    intro handler
    have search : allocate BuildProxy.MAX_HANDLE_ID handler.handles handler.nextId =
        allocLoop handler.handles (handler.handles.entries.length + 2) handler.nextId :=
      (allocLoop_eq _ _ _).symm
    show Option.map _ (Option.map _ (allocLoop handler.handles _ handler.nextId)) =
      allocate BuildProxy.MAX_HANDLE_ID handler.handles handler.nextId
    rw [search]
    cases allocLoop handler.handles (handler.handles.entries.length + 2) handler.nextId with
    | none => rfl
    | some found => rfl
  allocates := by
    intro handler id after search
    obtain ⟨nextId, rfl⟩ := BuildFsHandler.allocId_spec search
    rfl
  steps := by
    intro handler exchange after stepped
    obtain ⟨outcome, served, rfl⟩ := Option.map_eq_some_iff.mp stepped
    rcases serve_counts served with still | allocates
    · exact .inl still.counter
    · obtain ⟨id, next, search, same, _⟩ := allocates.allocated
      exact .inr ⟨id, _, search, same⟩
  opens := by
    intro handler exchange after id stepped opened
    obtain ⟨outcome, served, rfl⟩ := Option.map_eq_some_iff.mp stepped
    obtain ⟨again, servedToo, opened⟩ := Option.bind_eq_some_iff.mp opened
    rw [servedToo] at served
    cases served
    rcases serve_counts servedToo with still | allocates
    · rw [still.noId] at opened
      cases opened
    · obtain ⟨_, next, search, _, answered⟩ := allocates.allocated
      obtain ⟨rfl, handle, inserted⟩ := answered id opened
      exact ⟨_, handle, search, inserted⟩

end Proxy

section Runs

open BuildProxy (BuildFsHandler)
open BuildProxy.BuildFsHandler (Exchange)

/-- Wherever the counter starts in its range, ids are fresh in every run of the tables. -/
theorem handleIds_fresh :
    (∀ (start : Stored.HandleTable) (requests : List (Request Stored.Opening)),
      1 ≤ start.nextId → start.nextId ≤ Stored.MAX_HANDLE_ID →
        Throughout Stored.handleTable.step (Stored.handleTable.Fresh Stored.MAX_HANDLE_ID) start
          requests) ∧
    (∀ (start : Profiled.HandleTable) (requests : List (Request Profiled.Opening)),
      1 ≤ start.nextId → start.nextId ≤ Profiled.MAX_HANDLE_ID →
        Throughout Profiled.handleTable.step (Profiled.handleTable.Fresh Profiled.MAX_HANDLE_ID)
          start requests) ∧
    ∀ (start : BuildFsHandler) (exchanges : List Exchange),
      1 ≤ start.nextId → start.nextId ≤ BuildProxy.MAX_HANDLE_ID →
        Throughout BuildFsHandler.advance (proxyAllocator.Fresh BuildProxy.MAX_HANDLE_ID) start
          exchanges :=
  ⟨fun _ requests lower upper => allocator_circles.throughout lower upper requests,
    fun _ requests lower upper => allocator_circles.throughout lower upper requests,
    fun _ exchanges lower upper => proxyAllocator_circles.throughout lower upper exchanges⟩

/-- Two control handles, opened where the counter is at its limit. -/
theorem lastId_fresh :
    Throughout Stored.handleTable.step (Stored.handleTable.Fresh Stored.MAX_HANDLE_ID)
      ⟨Stored.MAX_HANDLE_ID, ∅⟩
      [.opens (.openControl "test1".toList), .opens (.openControl "test2".toList)] :=
  handleIds_fresh.1 ⟨Stored.MAX_HANDLE_ID, ∅⟩ _ (by decide) (Nat.le_refl _)

end Runs

end NixRedox.SchemeHandles
