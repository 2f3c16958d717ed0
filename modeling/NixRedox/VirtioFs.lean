import NixRedox.Bytes
import NixRedox.Paging
import NixRedox.Redox

set_option autoImplicit false

/- The scheme that shows a directory of the host (`virtio-fsd`): the FUSE requests of
`session.rs` and the scheme operations of `scheme.rs` that send them. -/
namespace NixRedox.VirtioFs

open Redox (DirentKind Errno)

def O_RDONLY : UInt64 := 0x00010000
def O_WRONLY : UInt64 := 0x00020000
def O_ACCMODE : UInt64 := O_RDONLY ||| O_WRONLY
def O_CREAT : UInt64 := 0x02000000
def O_TRUNC : UInt64 := 0x04000000
def O_EXCL : UInt64 := 0x08000000
def O_DIRECTORY : UInt64 := 0x10000000
def O_STAT : UInt64 := 0x20000000

def LINUX_O_WRONLY : UInt32 := 1
def LINUX_O_RDWR : UInt32 := 2
def LINUX_O_CREAT : UInt32 := 64
def LINUX_O_EXCL : UInt32 := 128
def LINUX_O_TRUNC : UInt32 := 512

def S_IFMT : UInt32 := 0o170000
def S_IFDIR : UInt32 := 0o040000
def S_IFLNK : UInt32 := 0o120000

def redoxToFuseFlags (redoxFlags : UInt64) : UInt32 :=
  let mode := redoxFlags &&& O_ACCMODE
  (if mode = O_WRONLY then LINUX_O_WRONLY
    else if mode = O_RDONLY ||| O_WRONLY then LINUX_O_RDWR else 0) |||
  (if redoxFlags &&& O_CREAT ≠ 0 then LINUX_O_CREAT else 0) |||
  (if redoxFlags &&& O_EXCL ≠ 0 then LINUX_O_EXCL else 0) |||
  (if redoxFlags &&& O_TRUNC ≠ 0 then LINUX_O_TRUNC else 0)

inductive FuseTransportError where
  | dmaAlloc
  | shortResponse (bytes : Nat)
  | fuseError (code : Int)
  | unexpectedSize
  | requestTooLarge (bytes : Nat)
  deriving DecidableEq, Repr

def fuseErrorToRedox (code : Int) : Errno :=
  if code = 2 then .enoent
  else if code = 13 then .eacces
  else if code = 20 then .enotdir
  else if code = 21 then .eisdir
  else if code ∈ [1, 12, 16, 17, 22, 28, 34, 36, 38, 39, 40] then .other code.toNat
  else .eio

def fuseErr : FuseTransportError → Errno
  | .fuseError code => fuseErrorToRedox (-code)
  | _ => .eio

/-- What the scheme reads of `FuseAttr`. -/
structure FuseAttr where
  mode : UInt32
  size : UInt64
  deriving DecidableEq, Repr

def FuseAttr.isDir (attr : FuseAttr) : Bool := attr.mode &&& S_IFMT = S_IFDIR

def FuseAttr.isLink (attr : FuseAttr) : Bool := attr.mode &&& S_IFMT = S_IFLNK

structure FuseEntry where
  nodeid : UInt64
  attr : FuseAttr
  deriving DecidableEq, Repr

inductive FuseRequest where
  | lookup (parent : UInt64) (name : List Char)
  | getattr (nodeid : UInt64)
  | readlink (nodeid : UInt64)
  | open (nodeid : UInt64) (flags : UInt32)
  | opendir (nodeid : UInt64)
  | create (parent : UInt64) (name : List Char) (flags mode : UInt32)
  | mkdir (parent : UInt64) (name : List Char) (mode : UInt32)
  | read (nodeid fh offset : UInt64) (size : UInt32)
  | write (nodeid fh offset : UInt64) (data : List UInt8)
  | readdir (nodeid fh offset : UInt64) (size : UInt32)
  | truncate (nodeid fh size : UInt64)
  | unlink (parent : UInt64) (name : List Char)
  | rmdir (parent : UInt64) (name : List Char)
  | flush (nodeid fh : UInt64)
  | release (nodeid fh : UInt64)
  | releasedir (nodeid fh : UInt64)
  deriving DecidableEq, Repr

namespace FuseRequest

/-- The content of a successful answer. -/
def Answer : FuseRequest → Type
  | .lookup .. | .mkdir .. => FuseEntry
  | .getattr .. | .truncate .. => FuseAttr
  | .readlink .. => List Char
  | .open .. | .opendir .. => UInt64
  | .create .. => FuseEntry × UInt64
  | .read .. | .readdir .. => List UInt8
  | .write .. => UInt32
  | .unlink .. | .rmdir .. | .flush .. | .release .. | .releasedir .. => Unit

/-- The answer has room in the reply descriptor. -/
def fits : (request : FuseRequest) → request.Answer → Bool
  | .read _ _ _ size, data | .readdir _ _ _ size, data => data.length ≤ size.toNat
  | _, _ => true

end FuseRequest

/-- A request that was sent and what came back. -/
structure Exchange where
  request : FuseRequest
  reply : Except FuseTransportError request.Answer

/-- How the host answers, after any exchanges before. -/
abbrev FuseServer := List Exchange → (request : FuseRequest) →
  Except FuseTransportError request.Answer

structure DirEntry where
  ino : UInt64
  off : UInt64
  typ : UInt32
  name : List Char
  deriving DecidableEq, Repr

structure Handle where
  nodeid : UInt64
  fh : UInt64
  isDir : Bool
  writable : Bool
  path : List Char
  size : UInt64
  mode : UInt32
  dirEntries : Option (List DirEntry)
  deriving DecidableEq, Repr

structure VirtioFsScheme where
  effectiveMaxIo : Nat
  nextId : Nat
  handles : AList fun _ : Nat => Handle
  /-- What the session has exchanged with the host, the latest first. -/
  exchanges : List Exchange

/-- A scheme operation; `none` is one that never returns. -/
abbrev Op (α : Type) := ExceptT Errno (StateT VirtioFsScheme Option) α

def Op.perform {α : Type} (op : Op α) (scheme : VirtioFsScheme) :
    Option (Except Errno α × VirtioFsScheme) := StateT.run (ExceptT.run op) scheme

/-- One exchange with the host. -/
def FuseServer.answer (server : FuseServer) (exchanges : List Exchange) (request : FuseRequest) :
    Except FuseTransportError request.Answer :=
  match server exchanges request with
  | .ok body => if request.fits body then .ok body else .error .unexpectedSize
  | .error reason => .error reason

def ask (server : FuseServer) (request : FuseRequest) : Op request.Answer :=
  ExceptT.mk fun scheme =>
    let reply := server.answer scheme.exchanges request
    some (reply.mapError fuseErr,
      { scheme with exchanges := ⟨request, reply⟩ :: scheme.exchanges })

/-- Run an operation for its result, whether it succeeds or not. -/
def attempt {α : Type} (op : Op α) : Op (Except Errno α) := ExceptT.mk do return .ok (← op.run)

def loopForever {α : Type} : Op α := ExceptT.mk fun _ => none

def MAX_HANDLE_ID : Nat := 2 ^ 64 - 1 - 4096

/-- `alloc_id`, for at most as many ids as there is fuel. -/
def allocFrom (handles : AList fun _ : Nat => Handle) : Nat → Nat → Option (Nat × Nat)
  | 0, _ => none
  | fuel + 1, id =>
      let nextId := if id ≥ MAX_HANDLE_ID then 1 else id + 1
      if id ≥ 1 ∧ id ≤ MAX_HANDLE_ID ∧ id ∉ handles then
        some (id, nextId)
      else
        allocFrom handles fuel nextId

/-- Two more attempts than there are handles meet a free id unless there is none. -/
def allocId : Op Nat := ExceptT.mk fun scheme =>
  (allocFrom scheme.handles (scheme.handles.entries.length + 2) scheme.nextId).map fun found =>
    (.ok found.1, { scheme with nextId := found.2 })

def insertHandle (handle : Handle) : Op Nat := do
  let id ← allocId
  modify fun scheme => { scheme with handles := scheme.handles.insert id handle }
  return id

def getHandle (id : Nat) : Op Handle := do
  match (← get).handles.lookup id with
  | some handle => return handle
  | none => throw .ebadf

def setHandle (id : Nat) (handle : Handle) : Op Unit :=
  modify fun scheme => { scheme with handles := scheme.handles.insert id handle }

section Perform

variable {α β : Type} (scheme : VirtioFsScheme)

@[simp] theorem perform_pure (value : α) :
    (pure value : Op α).perform scheme = some (.ok value, scheme) := rfl

@[simp] theorem perform_get : (get : Op VirtioFsScheme).perform scheme = some (.ok scheme, scheme) :=
  rfl

@[simp] theorem perform_modify (change : VirtioFsScheme → VirtioFsScheme) :
    (modify change : Op Unit).perform scheme = some (.ok (), change scheme) := rfl

/-- The second operation runs on what the first leaves, unless the first fails. -/
theorem perform_bind (op : Op α) (next : α → Op β) :
    (op >>= next).perform scheme =
      match op.perform scheme with
      | some (.ok value, after) => (next value).perform after
      | some (.error reason, after) => some (.error reason, after)
      | none => none := by
  show Option.bind (op.perform scheme) _ = _
  cases op.perform scheme with
  | none => rfl
  | some outcome =>
      obtain ⟨result, after⟩ := outcome
      cases result <;> rfl

@[simp] theorem perform_ask (server : FuseServer) (request : FuseRequest) :
    (ask server request).perform scheme =
      some ((server.answer scheme.exchanges request).mapError fuseErr,
        { scheme with exchanges :=
            ⟨request, server.answer scheme.exchanges request⟩ :: scheme.exchanges }) := rfl

@[simp] theorem perform_attempt (op : Op α) :
    (attempt op).perform scheme = (op.perform scheme).map fun outcome =>
      (.ok outcome.1, outcome.2) := by
  show Option.bind (op.perform scheme) _ = _
  cases op.perform scheme <;> rfl

@[simp] theorem perform_setHandle (id : Nat) (handle : Handle) :
    (setHandle id handle).perform scheme =
      some (.ok (), { scheme with handles := scheme.handles.insert id handle }) := rfl

theorem perform_getHandle (id : Nat) :
    (getHandle id).perform scheme =
      match scheme.handles.lookup id with
      | some handle => some (.ok handle, scheme)
      | none => some (.error .ebadf, scheme) := by
  simp only [getHandle, perform_bind, perform_get]
  cases scheme.handles.lookup id <;> rfl

end Perform

section Resolve

variable (server : FuseServer)

/-- Walk the components until a symlink is to be followed. -/
def walk (followLast : Bool)
    (follow : UInt64 → List (List Char) → UInt64 → Op (UInt64 × FuseAttr)) :
    UInt64 → List (List Char) → Op (UInt64 × FuseAttr)
  | current, [] => do
      let attr ← ask server (.getattr current)
      return (current, attr)
  | current, component :: rest =>
      if component = [] then
        walk followLast follow current rest
      else do
        let entry ← ask server (.lookup current component)
        if entry.attr.isLink then
          if rest = [] ∧ followLast = false then
            return (entry.nodeid, entry.attr)
          else
            follow current rest entry.nodeid
        else
          walk followLast follow entry.nodeid rest

/-- A followed symlink is replaced by the components of its target. -/
def walkHops (followLast : Bool) : Nat → UInt64 → List (List Char) → Op (UInt64 × FuseAttr)
  | 0 => walk server followLast fun _ _ _ => throw (.other 40)
  | hops + 1 => walk server followLast fun current rest link => do
      let target ← ask server (.readlink link)
      let start := if target.head? = some '/' then 1 else current
      walkHops followLast hops start (target.splitOn '/' ++ rest)

def resolvePathHops (path : List Char) (maxHops : Nat) (followLast : Bool) :
    Op (UInt64 × FuseAttr) := do
  let path := Text.trimMatches path
  if path = [] then
    let attr ← ask server (.getattr 1)
    return (1, attr)
  else
    walkHops server followLast maxHops 1 (path.splitOn '/')

def resolvePath (path : List Char) : Op (UInt64 × FuseAttr) :=
  resolvePathHops server path 40 true

/-- Parent directory and last name of a path. -/
def splitParent (path : List Char) : List Char × List Char :=
  if '/' ∈ path then
    ((path.rdropWhile (· ≠ '/')).dropLast, path.rtakeWhile (· ≠ '/'))
  else
    ([], path)

def parentNodeid (parentPath : List Char) : Op UInt64 := do
  if parentPath = [] then
    let _ ← ask server (.getattr 1)
    return 1
  else
    return (← resolvePath server parentPath).1

end Resolve

section Operations

variable (server : FuseServer)

/-- A handle as `openat` stores it. -/
def newHandle (nodeid fh : UInt64) (isDir writable : Bool) (path : List Char) (attr : FuseAttr) :
    Handle where
  nodeid := nodeid
  fh := fh
  isDir := isDir
  writable := writable
  path := path
  size := attr.size
  mode := attr.mode
  dirEntries := none

def schemeRoot : Op Nat := do
  let attr ← ask server (.getattr 1)
  let fh ← ask server (.opendir 1)
  insertHandle (newHandle 1 fh true false [] attr)

def wantsWrite (flags : UInt64) : Bool :=
  flags &&& O_ACCMODE = O_WRONLY ∨ flags &&& O_ACCMODE = O_RDONLY ||| O_WRONLY

/-- `openat` with `O_CREAT`. -/
def openCreate (fullPath : List Char) (flags : UInt64) : Op Nat := do
  let (parentPath, filename) := splitParent fullPath
  let parent ← parentNodeid server parentPath
  match ← attempt (resolvePath server fullPath) with
  | .ok (nodeid, attr) =>
      if flags &&& O_EXCL ≠ 0 then
        throw (.other 17)
      else if attr.isDir then
        let fh ← ask server (.opendir nodeid)
        insertHandle (newHandle nodeid fh true false fullPath attr)
      else
        let fh ← ask server (.open nodeid (redoxToFuseFlags flags))
        insertHandle (newHandle nodeid fh false (wantsWrite flags) fullPath attr)
  | .error _ =>
      if flags &&& O_DIRECTORY ≠ 0 then
        let entry ← ask server (.mkdir parent filename 0o755)
        let fh ← ask server (.opendir entry.nodeid)
        insertHandle (newHandle entry.nodeid fh true false fullPath entry.attr)
      else
        let created ← ask server (.create parent filename (redoxToFuseFlags flags) 0o644)
        insertHandle (newHandle created.1.nodeid created.2 false true fullPath created.1.attr)

/-- `openat` without `O_CREAT`. -/
def openExisting (fullPath : List Char) (flags : UInt64) : Op Nat := do
  let statOnly := flags &&& O_STAT = O_STAT
  let (nodeid, attr) ← resolvePathHops server fullPath 40 (¬ statOnly)
  if statOnly then
    insertHandle (newHandle nodeid 0 attr.isDir false fullPath attr)
  else if attr.isDir then
    if flags &&& O_DIRECTORY ≠ O_DIRECTORY ∧ flags &&& O_ACCMODE ≠ O_RDONLY then
      throw .eisdir
    else
      let fh ← ask server (.opendir nodeid)
      insertHandle (newHandle nodeid fh true false fullPath attr)
  else
    if flags &&& O_DIRECTORY = O_DIRECTORY then
      throw .enotdir
    else
      let fh ← ask server (.open nodeid (redoxToFuseFlags flags))
      insertHandle (newHandle nodeid fh false (wantsWrite flags) fullPath attr)

/-- The path behind a directory handle; that of the root for an unknown one. -/
def basePath (scheme : VirtioFsScheme) (dirfd : Nat) : List Char :=
  match scheme.handles.lookup dirfd with
  | some handle => handle.path
  | none => []

def openat (dirfd : Nat) (path : List Char) (flags : UInt64) : Op Nat := do
  let path := Text.trimMatches path
  let scheme ← get
  let base := if path.head? = some '/' then [] else basePath scheme dirfd
  let fullPath := if base = [] then path else if path = [] then base else base ++ '/' :: path
  if flags &&& O_CREAT ≠ 0 then
    openCreate server fullPath flags
  else
    openExisting server fullPath flags

/-- The loop of `FuseSession::read`; a turn takes a byte at least, unless the largest
transfer is empty. -/
def readChunks (nodeid fh : UInt64) : Nat → UInt64 → Nat → Op (List UInt8)
  | _, _, 0 => return []
  | 0, _, _ + 1 => loopForever
  | fuel + 1, offset, remaining + 1 => do
      let chunkSize := min (remaining + 1) (← get).effectiveMaxIo
      let chunk : List UInt8 ← ask server (.read nodeid fh offset (UInt32.ofNat chunkSize))
      if chunk.length < chunkSize then
        return chunk
      else
        let rest ← readChunks nodeid fh fuel (offset + UInt64.ofNat chunk.length)
          (remaining + 1 - chunk.length)
        return chunk ++ rest

def readSession (nodeid fh offset : UInt64) (size : UInt32) : Op (List UInt8) := do
  if size.toNat ≤ (← get).effectiveMaxIo then
    ask server (.read nodeid fh offset size)
  else
    readChunks server nodeid fh size.toNat offset size.toNat

/-- `read` into a buffer of the given size. -/
def read (id length : Nat) (offset : UInt64) : Op (List UInt8) := do
  let handle ← getHandle id
  if handle.isDir then
    throw .eisdir
  else
    let data ← readSession server handle.nodeid handle.fh offset (UInt32.ofNat length)
    return data.take length

/-- The loop of `FuseSession::write`. -/
def writeChunks (nodeid fh : UInt64) : Nat → UInt64 → UInt32 → List UInt8 → Op UInt32
  | _, _, total, [] => return total
  | 0, _, _, _ :: _ => loopForever
  | fuel + 1, offset, total, byte :: rest => do
      let chunkSize := min (rest.length + 1) (← get).effectiveMaxIo
      let written : UInt32 ← ask server (.write nodeid fh offset ((byte :: rest).take chunkSize))
      if written.toNat < chunkSize then
        return total + written
      else
        writeChunks nodeid fh fuel (offset + written.toUInt64) (total + written)
          ((byte :: rest).drop chunkSize)

def writeSession (nodeid fh offset : UInt64) (data : List UInt8) : Op UInt32 := do
  if data.length ≤ (← get).effectiveMaxIo then
    ask server (.write nodeid fh offset data)
  else
    writeChunks server nodeid fh data.length offset 0 data

def write (id : Nat) (data : List UInt8) (offset : UInt64) : Op UInt32 := do
  let handle ← getHandle id
  if handle.isDir then
    throw .eisdir
  else if handle.writable = false then
    throw .ebadf
  else
    let written ← writeSession server handle.nodeid handle.fh offset data
    setHandle id { handle with size := max handle.size (offset + written.toUInt64) }
    return written

def ftruncate (id : Nat) (length : UInt64) : Op Unit := do
  let handle ← getHandle id
  if handle.writable = false then
    throw .ebadf
  else
    let attr ← ask server (.truncate handle.nodeid handle.fh length)
    setHandle id { handle with size := attr.size }

def unlinkat (fd : Nat) (path : List Char) : Op Unit := do
  let path := Text.trimMatches path
  let base := basePath (← get) fd
  if base ≠ [] ∧ path = [] then
    throw .enoent
  else
    let fullPath := if base = [] then path else base ++ '/' :: path
    let (parentPath, filename) := splitParent fullPath
    let parent ← parentNodeid server parentPath
    let (_, attr) ← resolvePath server fullPath
    if attr.isDir then
      ask server (.rmdir parent filename)
    else
      ask server (.unlink parent filename)

/-- `on_close`; what the host says to it is ignored. -/
def onClose (id : Nat) : Op Unit := do
  match (← get).handles.lookup id with
  | none => return ()
  | some handle =>
      modify fun scheme => { scheme with handles := scheme.handles.erase id }
      if handle.fh ≠ 0 then
        if handle.writable ∧ ¬ handle.isDir then
          let _ ← attempt (ask server (.flush handle.nodeid handle.fh))
        if handle.isDir then
          let _ ← attempt (ask server (.releasedir handle.nodeid handle.fh))
        else
          let _ ← attempt (ask server (.release handle.nodeid handle.fh))

end Operations

section Listing

/-- The size of `FuseDirent`. -/
def direntHeader : Nat := 24

/-- A `FuseDirent` and its name, padded to eight bytes. -/
def fuseDirentSize (namelen : Nat) : Nat := (direntHeader + namelen + 7) / 8 * 8

def numberAt (data : List UInt8) (offset width : Nat) : Nat :=
  Bytes.littleEndian ((data.drop offset).take width)

/-- The loop of `parse_dirents`, for at most as many entries as there is fuel. -/
def parseDirentsUpTo : Nat → List UInt8 → List DirEntry
  | 0, _ => []
  | fuel + 1, data =>
      if direntHeader ≤ data.length then
        let namelen := numberAt data 16 4
        if direntHeader + namelen ≤ data.length then
          { ino := UInt64.ofNat (numberAt data 0 8)
            off := UInt64.ofNat (numberAt data 8 8)
            typ := UInt32.ofNat (numberAt data 20 4)
            name := Bytes.fromUtf8Lossy ((data.drop direntHeader).take namelen) } ::
          parseDirentsUpTo fuel (data.drop (fuseDirentSize namelen))
        else
          []
      else
        []

def parseDirents (data : List UInt8) : List DirEntry := parseDirentsUpTo data.length data

/-- An entry as the scheme returns it. -/
structure RedoxDirEntry where
  inode : UInt64
  name : List Char
  kind : DirentKind
  deriving DecidableEq, Repr

def direntKind (typ : UInt32) : DirentKind :=
  if typ = 4 then .directory
  else if typ = 8 then .regular
  else if typ = 10 then .symlink
  else .regular

def DirEntry.shown (entry : DirEntry) : RedoxDirEntry :=
  ⟨entry.ino, entry.name, direntKind entry.typ⟩

/-- The reply buffer of `redox_syscall`, for the entries of this scheme. -/
abbrev DirentBuf := Paging.ReplyBuffer RedoxDirEntry

/-- The entries of a directory; they are asked for when they are not cached, and when
the listing starts again. -/
def fetchEntries (server : FuseServer) (id : Nat) (handle : Handle) (opaqueOffset : Nat) :
    Op (List DirEntry) :=
  if handle.dirEntries = none ∨ opaqueOffset = 0 then do
    let data ← ask server (.readdir handle.nodeid handle.fh 0 32768)
    setHandle id { handle with dirEntries := some (parseDirents data) }
    return parseDirents data
  else
    return handle.dirEntries.getD []

/-- A listing call: the entries put into the buffer, each with its `next_opaque_id`. -/
def getdents (server : FuseServer) (id : Nat) (buf : DirentBuf) (capacity opaqueOffset : Nat) :
    Op (List (RedoxDirEntry × Nat)) := do
  let handle ← getHandle id
  if handle.isDir = false then
    throw .enotdir
  else
    let entries ← fetchEntries server id handle opaqueOffset
    return Paging.pageOf buf (entries.map DirEntry.shown) capacity opaqueOffset

end Listing

end NixRedox.VirtioFs
