import NixRedox.BuildAllowList
import NixRedox.BuildFlags
import NixRedox.Redox
import NixRedox.Text

set_option autoImplicit false

/- The scheme handler of the build filesystem proxy (`build_proxy/handler.rs`).
Each operation is given the worker's replies and returns its own reply, the next
handler and the requests it forwarded to the worker, in order. -/
namespace NixRedox.BuildProxy

open Redox (Dirent Errno)
open Text (trimStart trimMatches)
open UnixPath (PathBuf Component components joinComponents stripPrefix)

structure Stat where
  dev : Nat
  ino : Nat
  mode : UInt64
  nlink : Nat
  uid : Nat
  gid : Nat
  size : Nat
  blksize : Nat
  blocks : Nat
  atime : Nat
  mtime : Nat
  ctime : Nat
  deriving DecidableEq, Repr

def MODE_DIR : UInt64 := 0x4000

structure FileHandle where
  realPath : PathBuf
  schemePath : PathBuf
  writable : Bool
  append : Bool
  symlink : Bool
  size : Nat
  mode : UInt64
  deriving DecidableEq, Repr

structure DirHandle where
  realPath : PathBuf
  schemePath : PathBuf
  deriving DecidableEq, Repr

inductive ProxyHandle where
  | file (handle : FileHandle)
  | dir (handle : DirHandle)
  deriving DecidableEq, Repr

namespace ProxyHandle

def realPath : ProxyHandle → PathBuf
  | .file handle => handle.realPath
  | .dir handle => handle.realPath

def schemePath : ProxyHandle → PathBuf
  | .file handle => handle.schemePath
  | .dir handle => handle.schemePath

end ProxyHandle

structure ActiveMapKey where
  handleId : Nat
  offset : Nat
  size : Nat
  deriving DecidableEq, Repr

structure OpenPathResult where
  stat : Stat
  resolvedPath : PathBuf

structure WriteResult where
  bytesWritten : Nat
  endOffset : Nat

structure MmapResult where
  token : Nat
  baseAddr : Nat

/-- What the handler asks of the I/O worker. -/
inductive IoRequest where
  | openPath (path : PathBuf) (flags : UInt64)
  | ensureDirTree (path : PathBuf)
  | readAt (path : PathBuf) (offset length : Nat) (symlink : Bool)
  | writeAt (path : PathBuf) (offset : Nat) (append symlink : Bool) (data : List UInt8)
  | statPath (path : PathBuf) (directory : Bool)
  | chmodPath (path : PathBuf) (directory : Bool) (newMode : UInt64)
  | truncatePath (path : PathBuf) (length : Nat) (symlink : Bool)
  | readDir (path : PathBuf)
  | renamePath (oldPath newPath : PathBuf)
  | linkPath (oldPath newPath : PathBuf)
  | unlinkPath (path : PathBuf) (directory : Bool)
  | mmapPath (path : PathBuf) (offset size : Nat) (flags : MapFlags)
  | munmapToken (token : Nat)
  deriving DecidableEq, Repr

/-- The worker's replies during one operation of the handler. -/
structure BuildFsIoWorker where
  openPath : PathBuf → UInt64 → Except Errno OpenPathResult
  ensureDirTree : PathBuf → Except Errno Unit
  readAt : PathBuf → Nat → Nat → Bool → Except Errno (List UInt8)
  writeAt : PathBuf → Nat → Bool → Bool → List UInt8 → Except Errno WriteResult
  statPath : PathBuf → Bool → Except Errno Stat
  chmodPath : PathBuf → Bool → UInt64 → Except Errno Unit
  truncatePath : PathBuf → Nat → Bool → Except Errno Unit
  readDir : PathBuf → Except Errno (List Dirent)
  renamePath : PathBuf → PathBuf → Except Errno Unit
  linkPath : PathBuf → PathBuf → Except Errno Unit
  unlinkPath : PathBuf → Bool → Except Errno Unit
  mmapPath : PathBuf → Nat → Nat → MapFlags → Except Errno MmapResult
  /-- Iteration order of the mapping table. -/
  keyOrder : List ActiveMapKey → List ActiveMapKey
  keyOrder_perm : ∀ keys, (keyOrder keys).Perm keys

abbrev HandleTable := AList fun _ : Nat => ProxyHandle

abbrev MapTable := AList fun _ : ActiveMapKey => List Nat

structure BuildFsHandler where
  allowList : AllowList
  handles : HandleTable
  activeMmaps : MapTable
  nextId : Nat

inductive Reply where
  | opened (id : Nat)
  | count (n : Nat)
  | bytes (data : List UInt8)
  | stat (stat : Stat)
  | done
  deriving DecidableEq, Repr

structure Outcome where
  reply : Except Errno Reply
  handler : BuildFsHandler
  forwarded : List IoRequest

/-- Apply a function to every value of a table, as `values_mut` does. -/
def mapValues {α : Type} {β : Type} (change : β → β) (table : AList fun _ : α => β) :
    AList fun _ : α => β :=
  ⟨table.entries.map (Sigma.map id fun _ => change), table.nodupKeys.map₂ _ _⟩

theorem lookup_mapValues {α : Type} [DecidableEq α] {β : Type} (change : β → β)
    (table : AList fun _ : α => β) (key : α) :
    (mapValues change table).lookup key = (table.lookup key).map change :=
  List.dlookup_map₂ key

def rewritePathPrefix (path oldRoot newRoot : PathBuf) : Option PathBuf :=
  (stripPrefix path oldRoot).map fun rest =>
    if rest = [] then newRoot else joinComponents newRoot rest

/-- The path of a handle after the rename of `oldRoot`. -/
def renamed (oldRoot newRoot path : PathBuf) : PathBuf :=
  (rewritePathPrefix path oldRoot newRoot).getD path

def resolvePath (schemePath : List Char) : PathBuf :=
  components ('/' :: trimStart schemePath)

/-- The top 4096 values of `usize` are error codes. -/
def MAX_HANDLE_ID : Nat := 2 ^ 64 - 1 - 4096

def PAGE_SIZE : Nat := 4096

/-- The page-aligned span the kernel reports on `munmap`. -/
def pageSpan (size : Nat) : Nat := (size + PAGE_SIZE - 1) / PAGE_SIZE * PAGE_SIZE % 2 ^ 64

namespace BuildFsHandler

def new (allowList : AllowList) : BuildFsHandler :=
  { allowList, handles := ∅, activeMmaps := ∅, nextId := 1 }

def rootHandle : ProxyHandle := .dir { realPath := components ['/'], schemePath := [] }

def insertHandle (handler : BuildFsHandler) (id : Nat) (handle : ProxyHandle) : BuildFsHandler :=
  { handler with handles := handler.handles.insert id handle }

def installRootHandle (handler : BuildFsHandler) (id : Nat) : BuildFsHandler :=
  handler.insertHandle id rootHandle

/-- The loop of `alloc_id`, for a number of turns. -/
def allocLoop (handles : HandleTable) : Nat → Nat → Option (Nat × Nat)
  | 0, _ => none
  | turns + 1, id =>
      let next := if MAX_HANDLE_ID ≤ id then 1 else id + 1
      if 1 ≤ id ∧ id ≤ MAX_HANDLE_ID ∧ id ∉ handles then
        some (id, next)
      else
        allocLoop handles turns next

/-- The candidates run through the valid range before they repeat, so two turns
more than there are open handles find a free id or show that there is none, in
which case the loop of the source never ends (`none`). -/
def allocId (handler : BuildFsHandler) : Option (Nat × BuildFsHandler) :=
  (allocLoop handler.handles (handler.handles.entries.length + 2) handler.nextId).map
    fun found => (found.1, { handler with nextId := found.2 })

def fail (handler : BuildFsHandler) (errno : Errno) : Outcome := ⟨.error errno, handler, []⟩

def resolveOpenPath (handler : BuildFsHandler) (dirfd : Nat) (path : List Char) :
    Except Errno (PathBuf × PathBuf) :=
  let clean := trimMatches path
  if path.head? = some '/' ∨ dirfd = 0 then
    .ok (resolvePath clean, components clean)
  else
    match handler.handles.lookup dirfd with
    | some (.dir handle) =>
        .ok (joinComponents handle.realPath (components clean),
          joinComponents handle.schemePath (components clean))
    | some (.file _) => .error .enotdir
    | none => .error .ebadf

/-- Some allowed entry lies strictly below the path. -/
def isAncestorOfAllowed (handler : BuildFsHandler) (path : PathBuf) : Bool :=
  handler.allowList.allPrefixes.any fun entry => path.isPrefixOf entry && entry ≠ path

def schemeRoot (handler : BuildFsHandler) : Option Outcome :=
  handler.allocId.map fun (id, handler) =>
    ⟨.ok (.opened id), handler.insertHandle id rootHandle, []⟩

/-- What the allow-list grants an open: ancestors of allowed paths are readable. -/
def effectivePermission (handler : BuildFsHandler) (flags : OpenFlags) (path : PathBuf) :
    Permission :=
  let perm := handler.allowList.check path
  if perm = .denied ∧ flags.wantsWrite = false then
    if handler.isAncestorOfAllowed path then .readOnly else .denied
  else
    perm

/-- The directories an open creates first, if it creates any. -/
def requiredTree (handler : BuildFsHandler) (flags : OpenFlags) (path : PathBuf) :
    Option PathBuf :=
  if flags.create ∧ handler.allowList.check path = .readWrite then
    if flags.directory then some path else UnixPath.parent path
  else
    none

/-- The handle an opened path gets. -/
def openedHandle (flags : OpenFlags) (opened : OpenPathResult) (schemePath : PathBuf) :
    ProxyHandle :=
  if flags.directory ∨ opened.stat.mode &&& MODE_DIR ≠ 0 then
    .dir { realPath := opened.resolvedPath, schemePath }
  else
    .file
      { realPath := opened.resolvedPath
        schemePath
        writable := flags.wantsWrite
        append := flags.append
        symlink := flags.symlink
        size := opened.stat.size
        mode := opened.stat.mode }

/-- The real open behind a granted `openat`, as directory or as file. -/
def openReal (worker : BuildFsIoWorker) (handler : BuildFsHandler) (id : Nat)
    (flags : OpenFlags) (path schemePath : PathBuf) (before : List IoRequest) : Outcome :=
  let realFlags := if flags.directory then O_RDONLY ||| O_DIRECTORY else flags.toRealFlags
  let forwarded := before ++ [.openPath path realFlags]
  match worker.openPath path realFlags with
  | .error errno => ⟨.error (if flags.directory then .enotdir else errno), handler, forwarded⟩
  | .ok opened =>
      ⟨.ok (.opened id), handler.insertHandle id (openedHandle flags opened schemePath),
        forwarded⟩

def openat (worker : BuildFsIoWorker) (handler : BuildFsHandler) (dirfd : Nat)
    (path : List Char) (raw : UInt64) : Option Outcome :=
  match handler.resolveOpenPath dirfd path with
  | .error errno => some (handler.fail errno)
  | .ok (absPath, schemePath) =>
      let flags := translateOpenFlags raw
      let effective := handler.effectivePermission flags absPath
      if effective = .denied then
        some (handler.fail .eacces)
      else if flags.wantsWrite ∧ effective ≠ .readWrite then
        some (handler.fail .eacces)
      else
        handler.allocId.map fun (id, handler) =>
          match handler.requiredTree flags absPath with
          | none => openReal worker handler id flags absPath schemePath []
          | some tree =>
              match worker.ensureDirTree tree with
              | .error errno => ⟨.error errno, handler, [.ensureDirTree tree]⟩
              | .ok () =>
                  openReal worker handler id flags absPath schemePath [.ensureDirTree tree]

def unlinkat (worker : BuildFsIoWorker) (handler : BuildFsHandler) (fd : Nat)
    (path : List Char) (flags : UInt64) : Outcome :=
  match handler.resolveOpenPath fd path with
  | .error errno => handler.fail errno
  | .ok (absPath, _) =>
      if handler.allowList.check absPath ≠ .readWrite then
        handler.fail .eacces
      else
        let directory : Bool := flags &&& AT_REMOVEDIR ≠ 0
        ⟨(worker.unlinkPath absPath directory).map fun _ => .done, handler,
          [.unlinkPath absPath directory]⟩

/-- The id is allocated before the old handle is looked up. -/
def dupHandle (handler : BuildFsHandler) (oldId : Nat) : Option Outcome :=
  handler.allocId.map fun (newId, handler) =>
    match handler.handles.lookup oldId with
    | some handle => ⟨.ok (.opened newId), handler.insertHandle newId handle, []⟩
    | none => handler.fail .ebadf

def read (worker : BuildFsIoWorker) (handler : BuildFsHandler) (id length offset : Nat) :
    Outcome :=
  match handler.handles.lookup id with
  | some (.file handle) =>
      ⟨(worker.readAt handle.realPath offset length handle.symlink).map fun data =>
          .bytes (data.take length),
        handler, [.readAt handle.realPath offset length handle.symlink]⟩
  | some (.dir _) => handler.fail .eisdir
  | none => handler.fail .ebadf

def write (worker : BuildFsIoWorker) (handler : BuildFsHandler) (id : Nat)
    (data : List UInt8) (offset : Nat) : Outcome :=
  match handler.handles.lookup id with
  | some (.file handle) =>
      if handle.writable = false then
        handler.fail .eacces
      else
        let forwarded := [.writeAt handle.realPath offset handle.append handle.symlink data]
        match worker.writeAt handle.realPath offset handle.append handle.symlink data with
        | .error errno => ⟨.error errno, handler, forwarded⟩
        | .ok result =>
            ⟨.ok (.count result.bytesWritten),
              handler.insertHandle id
                (.file { handle with size := max handle.size result.endOffset }),
              forwarded⟩
  | some (.dir _) => handler.fail .eisdir
  | none => handler.fail .ebadf

def fsize (handler : BuildFsHandler) (id : Nat) : Outcome :=
  match handler.handles.lookup id with
  | some (.file handle) => ⟨.ok (.count handle.size), handler, []⟩
  | some (.dir _) => ⟨.ok (.count 0), handler, []⟩
  | none => handler.fail .ebadf

def flink (worker : BuildFsIoWorker) (handler : BuildFsHandler) (id : Nat)
    (path : List Char) : Outcome :=
  let target := resolvePath path
  if handler.allowList.check target ≠ .readWrite then
    handler.fail .eacces
  else
    match handler.handles.lookup id with
    | some (.file handle) =>
        ⟨(worker.linkPath handle.realPath target).map fun _ => .count 0, handler,
          [.linkPath handle.realPath target]⟩
    | some (.dir _) => handler.fail .eisdir
    | none => handler.fail .ebadf

def rewriteHandle (oldReal newReal oldScheme newScheme : PathBuf) : ProxyHandle → ProxyHandle
  | .file handle =>
      .file { handle with
        realPath := renamed oldReal newReal handle.realPath
        schemePath := renamed oldScheme newScheme handle.schemePath }
  | .dir handle =>
      .dir
        { realPath := renamed oldReal newReal handle.realPath
          schemePath := renamed oldScheme newScheme handle.schemePath }

def rewriteOpenHandlePaths (handler : BuildFsHandler)
    (oldReal newReal oldScheme newScheme : PathBuf) : BuildFsHandler :=
  { handler with
    handles := mapValues (rewriteHandle oldReal newReal oldScheme newScheme) handler.handles }

def frename (worker : BuildFsIoWorker) (handler : BuildFsHandler) (id : Nat)
    (path : List Char) : Outcome :=
  let target := resolvePath path
  if handler.allowList.check target ≠ .readWrite then
    handler.fail .eacces
  else
    match handler.handles.lookup id with
    | none => handler.fail .ebadf
    | some handle =>
        let forwarded := [.renamePath handle.realPath target]
        match worker.renamePath handle.realPath target with
        | .error errno => ⟨.error errno, handler, forwarded⟩
        | .ok () =>
            ⟨.ok (.count 0),
              handler.rewriteOpenHandlePaths handle.realPath target handle.schemePath
                (components (trimMatches path)),
              forwarded⟩

/-- The reply for a directory fills five fields of the caller's buffer, and three
when the real directory cannot be read. -/
def fstat (worker : BuildFsIoWorker) (handler : BuildFsHandler) (id : Nat) (buffer : Stat) :
    Outcome :=
  match handler.handles.lookup id with
  | some (.file handle) =>
      let forwarded := [.statPath handle.realPath false]
      match worker.statPath handle.realPath false with
      | .ok real =>
          let size := max handle.size real.size
          ⟨.ok (.stat { real with size }),
            handler.insertHandle id (.file { handle with size, mode := real.mode }),
            forwarded⟩
      | .error _ =>
          ⟨.ok (.stat { buffer with size := handle.size, mode := handle.mode, nlink := 1 }),
            handler, forwarded⟩
  | some (.dir handle) =>
      let forwarded := [.statPath handle.realPath true]
      match worker.statPath handle.realPath true with
      | .ok real =>
          ⟨.ok (.stat { buffer with
              mode := real.mode, size := real.size, nlink := real.nlink,
              dev := real.dev, ino := real.ino }),
            handler, forwarded⟩
      | .error _ =>
          ⟨.ok (.stat { buffer with mode := 0o040555, size := 0, nlink := 2 }),
            handler, forwarded⟩
  | none => handler.fail .ebadf

/-- Permission comes from the allow-list entry of the path, not the open mode. -/
def fchmod (worker : BuildFsIoWorker) (handler : BuildFsHandler) (id : Nat)
    (newMode : UInt64) : Outcome :=
  match handler.handles.lookup id with
  | some handle =>
      let directory := match handle with
        | .file _ => false
        | .dir _ => true
      if handler.allowList.canWrite handle.realPath = false then
        handler.fail .eacces
      else
        ⟨(worker.chmodPath handle.realPath directory newMode).map fun _ => .done, handler,
          [.chmodPath handle.realPath directory newMode]⟩
  | none => handler.fail .ebadf

def ftruncate (worker : BuildFsIoWorker) (handler : BuildFsHandler) (id length : Nat) :
    Outcome :=
  match handler.handles.lookup id with
  | some (.file handle) =>
      if handle.writable = false then
        handler.fail .eacces
      else
        let forwarded := [.truncatePath handle.realPath length handle.symlink]
        match worker.truncatePath handle.realPath length handle.symlink with
        | .error errno => ⟨.error errno, handler, forwarded⟩
        | .ok () =>
            ⟨.ok .done,
              handler.insertHandle id (.file { handle with size := min handle.size length }),
              forwarded⟩
  | some (.dir _) => handler.fail .eisdir
  | none => handler.fail .ebadf

def mmapPrep (worker : BuildFsIoWorker) (handler : BuildFsHandler) (id offset size : Nat)
    (flags : MapFlags) : Outcome :=
  match handler.handles.lookup id with
  | some (.file handle) =>
      let forwarded := [.mmapPath handle.realPath offset size flags]
      match worker.mmapPath handle.realPath offset size flags with
      | .error errno => ⟨.error errno, handler, forwarded⟩
      | .ok mapped =>
          let key : ActiveMapKey := { handleId := id, offset, size := pageSpan size }
          let tokens := (handler.activeMmaps.lookup key).getD []
          ⟨.ok (.count mapped.baseAddr),
            { handler with
              activeMmaps := handler.activeMmaps.insert key (tokens ++ [mapped.token]) },
            forwarded⟩
  | some (.dir _) => handler.fail .eisdir
  | none => handler.fail .ebadf

/-- Pop the last token of a key, and drop the key with its last token. -/
def popToken (handler : BuildFsHandler) (key : ActiveMapKey) : Outcome :=
  let tokens := (handler.activeMmaps.lookup key).getD []
  match tokens.getLast? with
  | none => ⟨.ok .done, handler, []⟩
  | some token =>
      let rest := tokens.dropLast
      ⟨.ok .done,
        { handler with
          activeMmaps :=
            if rest = [] then handler.activeMmaps.erase key
            else handler.activeMmaps.insert key rest },
        [.munmapToken token]⟩

/-- A range no mapping was recorded for releases some mapping of the same handle. -/
def munmap (worker : BuildFsIoWorker) (handler : BuildFsHandler) (id offset size : Nat) :
    Outcome :=
  let key : ActiveMapKey := { handleId := id, offset, size }
  if key ∈ handler.activeMmaps then
    handler.popToken key
  else
    match (worker.keyOrder handler.activeMmaps.keys).find? (·.handleId = id) with
    | some fallback => handler.popToken fallback
    | none => ⟨.ok .done, handler, []⟩

inductive FcntlCmd where
  | dupFd
  | dupFdCloexec
  | getFl
  | setFl
  | getFd
  | setFd
  | setLk
  | setLkw
  | unsupported
  deriving DecidableEq, Repr

def fcntl (handler : BuildFsHandler) (id : Nat) (cmd : FcntlCmd) (arg : UInt64) :
    Option Outcome :=
  match cmd with
  | .dupFd | .dupFdCloexec => handler.dupHandle id
  | .getFl =>
      match handler.handles.lookup id with
      | some (.file handle) =>
          let access := if handle.writable then O_RDWR else O_RDONLY
          let flags := if handle.append then access ||| O_APPEND else access
          some ⟨.ok (.count flags.toNat), handler, []⟩
      | some (.dir _) => some ⟨.ok (.count (O_RDONLY ||| O_DIRECTORY).toNat), handler, []⟩
      | none => some (handler.fail .ebadf)
  | .setFl =>
      match handler.handles.lookup id with
      | some (.file handle) =>
          some ⟨.ok (.count 0),
            handler.insertHandle id (.file { handle with append := arg &&& O_APPEND ≠ 0 }), []⟩
      | some (.dir _) => some ⟨.ok (.count 0), handler, []⟩
      | none => some (handler.fail .ebadf)
  | .getFd | .setFd | .setLk | .setLkw => some ⟨.ok (.count 0), handler, []⟩
  | .unsupported => some (handler.fail .eopnotsupp)

/-- Closing a handle releases every mapping made through it. -/
def onClose (worker : BuildFsIoWorker) (handler : BuildFsHandler) (id : Nat) : Outcome :=
  let keys := (worker.keyOrder handler.activeMmaps.keys).filter (·.handleId = id)
  let tokens := keys.flatMap fun key => (handler.activeMmaps.lookup key).getD []
  ⟨.ok .done,
    { handler with
      handles := handler.handles.erase id
      activeMmaps := keys.foldl (fun table key => table.erase key) handler.activeMmaps },
    tokens.map .munmapToken⟩

/-- An entry of an ancestor directory is shown if it can be read or leads to
something that can. -/
def isEntryVisible (handler : BuildFsHandler) (childPath : PathBuf) : Bool :=
  handler.allowList.canRead childPath ||
    handler.allowList.allPrefixes.any fun entry => childPath.isPrefixOf entry

/-- Children of a directory above the allowed paths: the allowed names, which need
not exist yet, and the visible real ones. -/
def listVisibleChildren (worker : BuildFsIoWorker) (handler : BuildFsHandler)
    (dirPath : PathBuf) : List Dirent :=
  let real := (worker.readDir dirPath).toOption.getD []
  let allowed := handler.allowList.allPrefixes.filterMap fun entry =>
    ((stripPrefix entry dirPath).bind List.head?).map Component.text
  let visible := (real.map Prod.fst).filter fun name =>
    handler.isEntryVisible (joinComponents dirPath (components name))
  (Redox.sortedSet (allowed ++ visible)).map fun name =>
    (name, ((real.reverse.find? (·.1 = name)).map Prod.snd).getD .directory)

/-- What `getdents` pages through. -/
def dirEntries (worker : BuildFsIoWorker) (handler : BuildFsHandler) (id : Nat) :
    Except Errno (List Dirent) :=
  match handler.handles.lookup id with
  | some (.dir handle) =>
      if handler.allowList.canRead handle.realPath then
        worker.readDir handle.realPath
      else
        .ok (handler.listVisibleChildren worker handle.realPath)
  | some (.file _) => .error .enotdir
  | none => .error .ebadf

end BuildFsHandler

end NixRedox.BuildProxy
