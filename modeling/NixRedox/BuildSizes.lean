import NixRedox.BuildRename

set_option autoImplicit false

/- Sizes of proxied files: what the handles of the build proxy remember of the
lengths of the files behind them. -/
namespace NixRedox.BuildProxy

open Redox (Errno)
open StepRuns (EachMeets Throughout eachMeets_cons eachMeets_nil throughout_iff_eachMeets)
open UnixPath (PathBuf components)

/-- Writes to these paths succeed without reaching a file (`worker_write_at`). -/
def discards (path : PathBuf) : Bool :=
  path = components "/dev/null".toList ∨ path = components "/dev/zero".toList

/-- The real open empties the file. -/
def truncates (path : PathBuf) (flags : UInt64) : Bool :=
  flags &&& O_TRUNC ≠ 0 ∧ discards path = false

/-- The requests that open files, change their lengths or read them. -/
def Request.ofSizes : Request → Bool
  | .openat .. | .dup _ | .write .. | .ftruncate .. | .fstat .. => true
  | _ => false

theorem truncates_toRealFlags (path : PathBuf) (raw : UInt64) :
    truncates path (translateOpenFlags raw).toRealFlags = true ↔
      (translateOpenFlags raw).truncate = true ∧ discards path = false := by
  simp [truncates, ← toRealFlags_truncate]

namespace BuildFsHandler

theorem allocLoop_fresh {handles : HandleTable} {turns id found next : Nat}
    (allocated : allocLoop handles turns id = some (found, next)) : found ∉ handles := by
  induction turns generalizing id with
  | zero => cases allocated
  | succ turns ih =>
      unfold allocLoop at allocated
      dsimp only at allocated
      split at allocated
      · rename_i free
        cases allocated
        exact free.2.2
      · exact ih allocated

theorem allocId_fresh {handler next : BuildFsHandler} {id : Nat}
    (allocated : handler.allocId = some (id, next)) : id ∉ handler.handles := by
  obtain ⟨⟨found, after⟩, loop, same⟩ := Option.map_eq_some_iff.mp allocated
  cases same
  exact allocLoop_fresh loop

end BuildFsHandler

section Backing

variable {Node : Type} (node : PathBuf → Node)

/-- The worker tells the truth about files of these lengths. -/
structure Truthful (lengths : Node → Nat) (worker : BuildFsIoWorker) : Prop where
  ensured : ∀ path, worker.ensureDirTree path = .ok ()
  resolved : ∀ path flags opened, worker.openPath path flags = .ok opened →
    node opened.resolvedPath = node path
  opened : ∀ path flags opened, worker.openPath path flags = .ok opened →
    opened.stat.size = if truncates path flags then 0 else lengths (node path)
  discarded : ∀ path offset append symlink data result, discards path = true →
    worker.writeAt path offset append symlink data = .ok result →
    result.bytesWritten = data.length ∧ result.endOffset = (offset + data.length) % 2 ^ 64
  written : ∀ path offset append symlink data result, discards path = false →
    worker.writeAt path offset append symlink data = .ok result →
    result.bytesWritten ≤ data.length ∧
      result.endOffset = (if append then lengths (node path) else offset) + result.bytesWritten
  stated : ∀ path stat, worker.statPath path false = .ok stat →
    stat.size = lengths (node path)

/-- The proxy over its backing files. -/
structure Backed (Node : Type) where
  handler : BuildFsHandler
  lengths : Node → Nat

namespace Backed

/-- Every open file reports its real length, to `fsize` and to `fstat`. -/
def SizesAgree (state : Backed Node) : Prop :=
  ∀ id file, state.handler.handles.lookup id = some (.file file) →
    (state.handler.fsize id).reply = .ok (.count (state.lengths (node file.realPath))) ∧
    ∀ worker buffer, Truthful node state.lengths worker →
      ∃ stat, (state.handler.fstat worker id buffer).reply = .ok (.stat stat) ∧
        stat.size = state.lengths (node file.realPath)

/-- The sizes remembered by the handles are the real lengths. -/
def Coherent (state : Backed Node) : Prop :=
  ∀ id file, state.handler.handles.lookup id = some (.file file) →
    file.size = state.lengths (node file.realPath)

/-- No handle but `id` has the file open. -/
def Sole (state : Backed Node) (id : Nat) (path : PathBuf) : Prop :=
  ∀ other file, state.handler.handles.lookup other = some (.file file) →
    node file.realPath = node path → other = id

/-- What keeps the sizes right. A file open elsewhere keeps its length; a write past
the end writes something, and to a file; and no truncation makes a file longer. -/
def Steady (state : Backed Node) (exchange : BuildFsHandler.Exchange) : Prop :=
  match exchange.2 with
  | .openat dirfd path raw =>
      ∀ absPath schemePath opened,
        state.handler.resolveOpenPath dirfd path = .ok (absPath, schemePath) →
        state.handler.allowList.check absPath = .readWrite →
        state.handler.allocId.isSome →
        (translateOpenFlags raw).truncate = true → (translateOpenFlags raw).directory = false →
        exchange.1.openPath absPath (translateOpenFlags raw).toRealFlags = .ok opened →
        discards absPath = false → state.lengths (node absPath) ≠ 0 →
        ∀ other file, state.handler.handles.lookup other = some (.file file) →
          node file.realPath ≠ node absPath
  | .write id data offset =>
      ∀ file result, state.handler.handles.lookup id = some (.file file) →
        file.writable = true →
        exchange.1.writeAt file.realPath offset file.append file.symlink data = .ok result →
        result.endOffset ≤ state.lengths (node file.realPath) ∨
          result.bytesWritten ≠ 0 ∧ discards file.realPath = false ∧
            state.Sole node id file.realPath
  | .ftruncate id length =>
      ∀ file, state.handler.handles.lookup id = some (.file file) →
        file.writable = true →
        exchange.1.truncatePath file.realPath length file.symlink = .ok () →
        length = state.lengths (node file.realPath) ∨
          length < state.lengths (node file.realPath) ∧ state.Sole node id file.realPath
  | _ => True

theorem sizesAgree_iff (state : Backed Node) : state.SizesAgree node ↔ state.Coherent node := by
  constructor
  · intro agree id file found
    have reported := (agree id file found).1
    simp only [BuildFsHandler.fsize, found, Except.ok.injEq, Reply.count.injEq] at reported
    exact reported
  · intro coherent id file found
    have size := coherent id file found
    refine ⟨by simp only [BuildFsHandler.fsize, found, size], ?_⟩
    intro worker buffer truthful
    unfold BuildFsHandler.fstat
    simp only [found]
    cases stated : worker.statPath file.realPath false with
    | error errno => exact ⟨_, rfl, size⟩
    | ok stat =>
        refine ⟨_, rfl, ?_⟩
        rw [size, truthful.stated _ _ stated]
        exact max_self _

/-- A handle put in the table of coherent handles. -/
theorem Coherent.insertHandle {state : Backed Node} {id : Nat} {handle : ProxyHandle}
    {lengths : Node → Nat} (coherent : state.Coherent node)
    (own : ∀ file, handle = .file file → file.size = lengths (node file.realPath))
    (others : ∀ other file, other ≠ id → state.handler.handles.lookup other = some (.file file) →
      lengths (node file.realPath) = state.lengths (node file.realPath)) :
    Coherent node ⟨state.handler.insertHandle id handle, lengths⟩ := by
  intro other file found
  by_cases same : other = id
  · subst same
    have inserted : some handle = some (.file file) := by
      simpa [BuildFsHandler.insertHandle] using found
    exact own file (Option.some.inj inserted)
  · have before : state.handler.handles.lookup other = some (.file file) := by
      simpa [BuildFsHandler.insertHandle, AList.lookup_insert_ne same] using found
    exact (coherent other file before).trans (others other file same before).symm

variable [DecidableEq Node]

/-- Lengths of the backing files after a request the worker was sent. -/
def change (worker : BuildFsIoWorker) (lengths : Node → Nat) : IoRequest → Node → Nat
  | .openPath path flags =>
      match worker.openPath path flags with
      | .ok _ => if truncates path flags then Function.update lengths (node path) 0 else lengths
      | .error _ => lengths
  | .writeAt path offset append symlink data =>
      match worker.writeAt path offset append symlink data with
      | .ok result =>
          -- no byte written, no length changed, wherever the write was to start
          if discards path ∨ result.bytesWritten = 0 then lengths
          else Function.update lengths (node path) (max (lengths (node path)) result.endOffset)
      | .error _ => lengths
  | .truncatePath path length symlink =>
      match worker.truncatePath path length symlink with
      | .ok () => Function.update lengths (node path) length
      | .error _ => lengths
  | _ => lengths

/-- One request and its effect on the backing files. -/
def advance (state : Backed Node) (exchange : BuildFsHandler.Exchange) : Option (Backed Node) :=
  (state.handler.serve exchange.1 exchange.2).map fun outcome =>
    ⟨outcome.handler, outcome.forwarded.foldl (change node exchange.1) state.lengths⟩

/-- The sizes after a handle was updated in place and its file got a new length. -/
theorem coherent_updateFile {state : Backed Node} (coherent : state.Coherent node) (id : Nat)
    {file : FileHandle} (updated : FileHandle) (path : updated.realPath = file.realPath)
    (length : Nat) :
    Coherent node ⟨state.handler.insertHandle id (.file updated),
        Function.update state.lengths (node file.realPath) length⟩ ↔
      updated.size = length ∧
        (length = state.lengths (node file.realPath) ∨ state.Sole node id file.realPath) := by
  constructor
  · intro after
    have own := after id updated (by simp [BuildFsHandler.insertHandle])
    simp only [path, Function.update_self] at own
    refine ⟨own, ?_⟩
    by_contra neither
    rw [not_or] at neither
    apply neither.2
    intro other reached opened same
    by_contra different
    have still := after other reached
      (by simpa [BuildFsHandler.insertHandle, AList.lookup_insert_ne different] using opened)
    simp only [same, Function.update_self] at still
    have before := coherent other reached opened
    rw [same] at before
    exact neither.1 (still.symm.trans before)
  · rintro ⟨own, elsewhere⟩
    apply coherent.insertHandle
    · intro other same
      cases same
      rw [path, Function.update_self]
      exact own
    · intro other reached different opened
      by_cases same : node reached.realPath = node file.realPath
      · rw [same, Function.update_self]
        rcases elsewhere with equal | sole
        · exact equal
        · exact False.elim (different (sole other reached opened same))
      · rw [Function.update_of_ne same]

section Operations

variable {node} {state next : Backed Node} {worker : BuildFsIoWorker}

theorem advance_write {id offset : Nat} {data : List UInt8} {file : FileHandle}
    {result : WriteResult} (found : state.handler.handles.lookup id = some (.file file))
    (open_ : file.writable = true)
    (reply : worker.writeAt file.realPath offset file.append file.symlink data = .ok result) :
    state.advance node (worker, .write id data offset) =
      some ⟨state.handler.insertHandle id
          (.file { file with size := max file.size result.endOffset }),
        if discards file.realPath ∨ result.bytesWritten = 0 then state.lengths
        else Function.update state.lengths (node file.realPath)
          (max (state.lengths (node file.realPath)) result.endOffset)⟩ := by
  simp [advance, BuildFsHandler.serve, BuildFsHandler.write, found, open_, reply, change]

theorem advance_write_idle {id offset : Nat} {data : List UInt8}
    (idle : ∀ file result, state.handler.handles.lookup id = some (.file file) →
      file.writable = true →
      worker.writeAt file.realPath offset file.append file.symlink data ≠ .ok result) :
    state.advance node (worker, .write id data offset) = some state := by
  simp only [advance, BuildFsHandler.serve, Option.map_some]
  unfold BuildFsHandler.write
  split
  · rename_i file found
    split
    · rfl
    · rename_i open_
      dsimp only
      split
      · rename_i errno reply
        simp [change, reply]
      · rename_i result reply
        exact False.elim (idle file result found (by simpa using open_) reply)
  · rfl
  · rfl

theorem write_coherent (coherent : state.Coherent node) {id offset : Nat} {data : List UInt8}
    (advanced : state.advance node (worker, .write id data offset) = some next) :
    next.Coherent node ↔ state.Steady node (worker, .write id data offset) := by
  by_cases done : ∃ file result, state.handler.handles.lookup id = some (.file file) ∧
      file.writable = true ∧
      worker.writeAt file.realPath offset file.append file.symlink data = .ok result
  · obtain ⟨file, result, found, open_, reply⟩ := done
    have size := coherent id file found
    have steady : state.Steady node (worker, .write id data offset) ↔
        result.endOffset ≤ state.lengths (node file.realPath) ∨
          result.bytesWritten ≠ 0 ∧ discards file.realPath = false ∧
            state.Sole node id file.realPath := by
      constructor
      · intro met
        exact met file result found open_ reply
      · intro met other answer present _ answered
        cases found.symm.trans present
        cases reply.symm.trans answered
        exact met
    rw [advance_write found open_ reply] at advanced
    cases advanced
    rw [steady]
    by_cases nothing : discards file.realPath = true ∨ result.bytesWritten = 0
    · have updated := coherent_updateFile node coherent id
        { file with size := max file.size result.endOffset } rfl
        (state.lengths (node file.realPath))
      rw [Function.update_eq_self] at updated
      simp only [nothing, ↓reduceIte]
      rw [updated, size]
      have vacuous : ¬ (result.bytesWritten ≠ 0 ∧ discards file.realPath = false ∧
          state.Sole node id file.realPath) := by
        rintro ⟨some_, kept, _⟩
        simp [some_, kept] at nothing
      simp only [vacuous, or_false, true_or, and_true]
      exact max_eq_left_iff
    · have updated := coherent_updateFile node coherent id
        { file with size := max file.size result.endOffset } rfl
        (max (state.lengths (node file.realPath)) result.endOffset)
      simp only [nothing, ↓reduceIte]
      rw [not_or, Bool.not_eq_true] at nothing
      rw [updated]
      simp only [size, nothing, true_and, max_eq_left_iff, ne_eq, not_false_eq_true]
  · have idle : ∀ file result, state.handler.handles.lookup id = some (.file file) →
        file.writable = true →
        worker.writeAt file.realPath offset file.append file.symlink data ≠ .ok result := by
      intro file result found open_ reply
      exact done ⟨file, result, found, open_, reply⟩
    rw [advance_write_idle idle] at advanced
    cases advanced
    refine ⟨fun _ => ?_, fun _ => coherent⟩
    intro file result found open_ reply
    exact False.elim (idle file result found open_ reply)

theorem advance_ftruncate {id length : Nat} {file : FileHandle}
    (found : state.handler.handles.lookup id = some (.file file)) (open_ : file.writable = true)
    (reply : worker.truncatePath file.realPath length file.symlink = .ok ()) :
    state.advance node (worker, .ftruncate id length) =
      some ⟨state.handler.insertHandle id (.file { file with size := min file.size length }),
        Function.update state.lengths (node file.realPath) length⟩ := by
  simp [advance, BuildFsHandler.serve, BuildFsHandler.ftruncate, found, open_, reply, change]

theorem advance_ftruncate_idle {id length : Nat}
    (idle : ∀ file, state.handler.handles.lookup id = some (.file file) →
      file.writable = true → worker.truncatePath file.realPath length file.symlink ≠ .ok ()) :
    state.advance node (worker, .ftruncate id length) = some state := by
  simp only [advance, BuildFsHandler.serve, Option.map_some]
  unfold BuildFsHandler.ftruncate
  split
  · rename_i file found
    split
    · rfl
    · rename_i open_
      dsimp only
      split
      · rename_i errno reply
        simp [change, reply]
      · rename_i reply
        exact False.elim (idle file found (by simpa using open_) reply)
  · rfl
  · rfl

theorem ftruncate_coherent (coherent : state.Coherent node) {id length : Nat}
    (advanced : state.advance node (worker, .ftruncate id length) = some next) :
    next.Coherent node ↔ state.Steady node (worker, .ftruncate id length) := by
  by_cases done : ∃ file, state.handler.handles.lookup id = some (.file file) ∧
      file.writable = true ∧ worker.truncatePath file.realPath length file.symlink = .ok ()
  · obtain ⟨file, found, open_, reply⟩ := done
    have size := coherent id file found
    have steady : state.Steady node (worker, .ftruncate id length) ↔
        length = state.lengths (node file.realPath) ∨
          length < state.lengths (node file.realPath) ∧ state.Sole node id file.realPath := by
      constructor
      · intro met
        exact met file found open_ reply
      · intro met other present _ _
        cases found.symm.trans present
        exact met
    rw [advance_ftruncate found open_ reply] at advanced
    cases advanced
    rw [steady, coherent_updateFile node coherent id { file with size := min file.size length } rfl
      length]
    simp only [size]
    constructor
    · rintro ⟨shorter, equal | sole⟩
      · exact Or.inl equal
      · rcases (min_eq_right_iff.mp shorter).eq_or_lt with equal | less
        · exact Or.inl equal
        · exact Or.inr ⟨less, sole⟩
    · rintro (equal | ⟨less, sole⟩)
      · exact ⟨min_eq_right equal.le, Or.inl equal⟩
      · exact ⟨min_eq_right less.le, Or.inr sole⟩
  · have idle : ∀ file, state.handler.handles.lookup id = some (.file file) →
        file.writable = true →
        worker.truncatePath file.realPath length file.symlink ≠ .ok () := by
      intro file found open_ reply
      exact done ⟨file, found, open_, reply⟩
    rw [advance_ftruncate_idle idle] at advanced
    cases advanced
    refine ⟨fun _ => ?_, fun _ => coherent⟩
    intro file found open_ reply
    exact False.elim (idle file found open_ reply)

theorem fstat_coherent (truthful : Truthful node state.lengths worker)
    (coherent : state.Coherent node) {id : Nat} {buffer : Stat}
    (advanced : state.advance node (worker, .fstat id buffer) = some next) :
    next.Coherent node := by
  cases advanced
  unfold BuildFsHandler.fstat
  split
  · rename_i file found
    dsimp only
    split
    · rename_i real stated
      apply coherent.insertHandle
      · intro other same
        cases same
        show max file.size real.size = state.lengths (node file.realPath)
        rw [coherent id file found, truthful.stated _ _ stated]
        exact max_self _
      · intro other reached _ _
        rfl
    · exact coherent
  · dsimp only
    split <;> exact coherent
  · exact coherent

theorem dup_coherent (coherent : state.Coherent node) {oldId : Nat}
    (advanced : state.advance node (worker, .dup oldId) = some next) :
    next.Coherent node := by
  obtain ⟨outcome, served, rfl⟩ := Option.map_eq_some_iff.mp advanced
  simp only [BuildFsHandler.serve, BuildFsHandler.dupHandle] at served
  obtain ⟨⟨id, allocated⟩, found, same⟩ := Option.map_eq_some_iff.mp served
  obtain ⟨nextId, rfl⟩ := BuildFsHandler.allocId_spec found
  have still : Coherent node ⟨{ state.handler with nextId }, state.lengths⟩ := coherent
  dsimp only at same
  split at same
  · rename_i handle present
    cases same
    apply still.insertHandle
    · intro file copied
      exact coherent oldId file (copied ▸ present)
    · intro other file _ _
      rfl
  · cases same
    exact still

/-- The lengths after the real open. -/
theorem openReal_lengths {id : Nat} {flags : OpenFlags} {path schemePath : PathBuf}
    {before : List IoRequest} {handler : BuildFsHandler} {opened : OpenPathResult}
    {real : UInt64}
    (chosen : real = if flags.directory then O_RDONLY ||| O_DIRECTORY else flags.toRealFlags)
    (reply : worker.openPath path real = .ok opened)
    (early : before.foldl (change node worker) state.lengths = state.lengths) :
    (BuildFsHandler.openReal worker handler id flags path schemePath before).forwarded.foldl
        (change node worker) state.lengths =
      if truncates path real then Function.update state.lengths (node path) 0
      else state.lengths := by
  subst chosen
  unfold BuildFsHandler.openReal
  simp only [reply, List.foldl_append, early, List.foldl_cons, List.foldl_nil, change]

theorem openReal_coherent (truthful : Truthful node state.lengths worker)
    (coherent : state.Coherent node) {id : Nat} {raw : UInt64} {path schemePath : PathBuf}
    {before : List IoRequest}
    (early : before.foldl (change node worker) state.lengths = state.lengths)
    (kept : ∀ opened, (translateOpenFlags raw).truncate = true →
      (translateOpenFlags raw).directory = false →
      worker.openPath path (translateOpenFlags raw).toRealFlags = .ok opened →
      discards path = false → state.lengths (node path) ≠ 0 →
      ∀ other file, state.handler.handles.lookup other = some (.file file) →
        node file.realPath ≠ node path) :
    Coherent node
      ⟨(BuildFsHandler.openReal worker state.handler id (translateOpenFlags raw) path schemePath
          before).handler,
        (BuildFsHandler.openReal worker state.handler id (translateOpenFlags raw) path schemePath
          before).forwarded.foldl (change node worker) state.lengths⟩ := by
  generalize chosen : (if (translateOpenFlags raw).directory then O_RDONLY ||| O_DIRECTORY
    else (translateOpenFlags raw).toRealFlags) = real
  cases reply : worker.openPath path real with
  | error errno =>
      unfold BuildFsHandler.openReal
      simp only [chosen, reply, List.foldl_append, early, List.foldl_cons, List.foldl_nil, change]
      exact coherent
  | ok opened =>
      rw [openReal_lengths chosen.symm reply early]
      unfold BuildFsHandler.openReal
      simp only [chosen, reply]
      apply coherent.insertHandle
      · intro file handle
        unfold BuildFsHandler.openedHandle at handle
        split at handle
        · cases handle
        · cases handle
          show opened.stat.size = _
          rw [truthful.opened _ _ _ reply, truthful.resolved _ _ _ reply]
          split
          · rw [Function.update_self]
          · rfl
      · intro other file _ present
        split
        · rename_i emptied
          have plain : (translateOpenFlags raw).directory = false := by
            by_contra directory
            rw [Bool.not_eq_false] at directory
            simp only [directory, ↓reduceIte] at chosen
            subst chosen
            have impossible := (decide_eq_true_iff.mp emptied).1
            exact impossible (by decide)
          simp only [plain, Bool.false_eq_true, ↓reduceIte] at chosen
          subst chosen
          obtain ⟨asked, reaches⟩ := (truncates_toRealFlags path raw).mp emptied
          by_cases same : node file.realPath = node path
          · rw [same, Function.update_self]
            by_contra nonempty
            exact kept opened asked plain reply reaches (fun zero => nonempty zero.symm)
              other file present same
          · rw [Function.update_of_ne same]
        · rfl

/-- A granted open reaches the real one, after creating directories at most. -/
theorem openat_granted (truthful : Truthful node state.lengths worker) {dirfd : Nat}
    {path : List Char} {raw : UInt64} {absPath schemePath : PathBuf} {id : Nat}
    {allocated : BuildFsHandler}
    (resolved : state.handler.resolveOpenPath dirfd path = .ok (absPath, schemePath))
    (granted : state.handler.effectivePermission (translateOpenFlags raw) absPath ≠ .denied)
    (writable : (translateOpenFlags raw).wantsWrite = true →
      state.handler.effectivePermission (translateOpenFlags raw) absPath = .readWrite)
    (found : state.handler.allocId = some (id, allocated)) :
    ∃ before, before.foldl (change node worker) state.lengths = state.lengths ∧
      state.handler.openat worker dirfd path raw =
        some (BuildFsHandler.openReal worker allocated id (translateOpenFlags raw) absPath
          schemePath before) := by
  have permitted : ¬ ((translateOpenFlags raw).wantsWrite = true ∧
      state.handler.effectivePermission (translateOpenFlags raw) absPath ≠ .readWrite) := by
    rintro ⟨asked, lacking⟩
    exact lacking (writable asked)
  unfold BuildFsHandler.openat
  simp only [resolved, granted, permitted, ↓reduceIte, found, Option.map_some]
  cases allocated.requiredTree (translateOpenFlags raw) absPath with
  | none => exact ⟨[], rfl, rfl⟩
  | some tree => exact ⟨[.ensureDirTree tree], rfl, by simp only [truthful.ensured]⟩

theorem openat_coherent (truthful : Truthful node state.lengths worker)
    (coherent : state.Coherent node) {dirfd : Nat} {path : List Char} {raw : UInt64}
    (advanced : state.advance node (worker, .openat dirfd path raw) = some next) :
    next.Coherent node ↔ state.Steady node (worker, .openat dirfd path raw) := by
  obtain ⟨outcome, served, rfl⟩ := Option.map_eq_some_iff.mp advanced
  constructor
  · intro after absPath schemePath opened resolved writable allocated asked plain answered reaches
      nonempty other file present same
    have reply : worker.openPath absPath (translateOpenFlags raw).toRealFlags = .ok opened :=
      answered
    obtain ⟨⟨id, handler⟩, found⟩ := Option.isSome_iff_exists.mp allocated
    have effective : state.handler.effectivePermission (translateOpenFlags raw) absPath =
        .readWrite := by
      simp [BuildFsHandler.effectivePermission, writable]
    obtain ⟨before, early, opens⟩ := openat_granted truthful resolved
      (by rw [effective]; decide) (fun _ => effective) found
    cases served.symm.trans opens
    have emptied : truncates absPath (translateOpenFlags raw).toRealFlags = true :=
      (truncates_toRealFlags absPath raw).mpr ⟨asked, reaches⟩
    have distinct : other ≠ id := by
      rintro rfl
      have absent := BuildFsHandler.allocId_fresh found
      rw [← AList.lookup_eq_none, present] at absent
      cases absent
    obtain ⟨nextId, rfl⟩ := BuildFsHandler.allocId_spec found
    dsimp only at after
    rw [openReal_lengths (by simp [plain]) reply early] at after
    simp only [emptied, ↓reduceIte] at after
    have still := after other file (by
      simp [BuildFsHandler.openReal, plain, reply, BuildFsHandler.insertHandle,
        AList.lookup_insert_ne distinct, present])
    dsimp only at still
    rw [same, Function.update_self] at still
    have size := coherent other file present
    rw [same] at size
    exact nonempty (size.symm.trans still)
  · intro steady
    cases resolved : state.handler.resolveOpenPath dirfd path with
    | error errno =>
        simp only [BuildFsHandler.serve, BuildFsHandler.openat, resolved] at served
        cases served
        exact coherent
    | ok paths =>
        obtain ⟨absPath, schemePath⟩ := paths
        simp only [BuildFsHandler.serve] at served
        by_cases denied :
            state.handler.effectivePermission (translateOpenFlags raw) absPath = .denied
        · simp only [BuildFsHandler.openat, resolved, denied, ↓reduceIte] at served
          cases served
          exact coherent
        by_cases lacking : (translateOpenFlags raw).wantsWrite = true ∧
            state.handler.effectivePermission (translateOpenFlags raw) absPath ≠ .readWrite
        · simp only [BuildFsHandler.openat, resolved, denied, ↓reduceIte] at served
          rw [if_pos lacking] at served
          cases served
          exact coherent
        cases found : state.handler.allocId with
        | none =>
            simp only [BuildFsHandler.openat, resolved, denied, lacking, ↓reduceIte, found,
              Option.map_none, reduceCtorEq] at served
        | some allocated =>
            obtain ⟨id, handler⟩ := allocated
            have writable : (translateOpenFlags raw).wantsWrite = true →
                state.handler.effectivePermission (translateOpenFlags raw) absPath =
                  .readWrite := by
              intro wants
              by_contra other
              exact lacking ⟨wants, other⟩
            obtain ⟨before, early, opens⟩ := openat_granted truthful resolved denied writable found
            cases served.symm.trans opens
            obtain ⟨nextId, rfl⟩ := BuildFsHandler.allocId_spec found
            have still : Coherent node ⟨{ state.handler with nextId }, state.lengths⟩ := coherent
            apply @openReal_coherent Node node _ ⟨{ state.handler with nextId }, state.lengths⟩
              worker truthful still id raw absPath schemePath before early
            intro opened asked plain reply reaches nonempty
            have wants : (translateOpenFlags raw).wantsWrite = true := by
              simp [OpenFlags.wantsWrite, asked]
            exact steady absPath schemePath opened resolved
              (BuildFsHandler.effectivePermission_readWrite (writable wants))
              (by simp [found]) asked plain reply reaches nonempty

/-- One of these requests keeps the sizes right exactly when it is steady. -/
theorem advance_coherent (truthful : Truthful node state.lengths worker)
    (coherent : state.Coherent node) {request : Request} (sized : request.ofSizes = true)
    (advanced : state.advance node (worker, request) = some next) :
    next.Coherent node ↔ state.Steady node (worker, request) := by
  cases request with
  | openat dirfd path raw => exact openat_coherent truthful coherent advanced
  | dup oldId => exact ⟨fun _ => trivial, fun _ => dup_coherent coherent advanced⟩
  | write id data offset => exact write_coherent coherent advanced
  | fstat id buffer => exact ⟨fun _ => trivial, fun _ => fstat_coherent truthful coherent advanced⟩
  | ftruncate id length => exact ftruncate_coherent coherent advanced
  | _ => cases sized

/-- A request that is never answered, for want of a free id, is steady. -/
theorem unanswered_steady {request : Request} (sized : request.ofSizes = true)
    (stuck : state.advance node (worker, request) = none) :
    state.Steady node (worker, request) := by
  have unserved := Option.map_eq_none_iff.mp stuck
  cases request with
  | openat dirfd path raw =>
      intro absPath schemePath opened resolved writable allocated
      obtain ⟨⟨id, handler⟩, found⟩ := Option.isSome_iff_exists.mp allocated
      have effective : state.handler.effectivePermission (translateOpenFlags raw) absPath =
          .readWrite := by
        simp [BuildFsHandler.effectivePermission, writable]
      simp [BuildFsHandler.serve, BuildFsHandler.openat, resolved, effective, found] at unserved
  | dup oldId => trivial
  | write id data offset => cases unserved
  | fstat id buffer => trivial
  | ftruncate id length => cases unserved
  | _ => cases sized

end Operations

/-- Over any backing files, the sizes of a run of opens, dups, writes, truncations and
stats are right after every request exactly when every request is steady. -/
theorem throughout_sizesAgree (allowList : AllowList) (lengths : Node → Nat)
    (exchanges : List BuildFsHandler.Exchange)
    (within : EachMeets (advance node)
      (fun state exchange => exchange.2.ofSizes = true ∧ Truthful node state.lengths exchange.1)
      ⟨BuildFsHandler.new allowList, lengths⟩ exchanges) :
    Throughout (advance node) (SizesAgree node) ⟨BuildFsHandler.new allowList, lengths⟩ exchanges ↔
      EachMeets (advance node) (Steady node) ⟨BuildFsHandler.new allowList, lengths⟩ exchanges := by
  apply throughout_iff_eachMeets _ _ _ within
  · intro state exchange environment stuck
    exact unanswered_steady environment.1 stuck
  · intro state exchange next agree environment advanced
    rw [sizesAgree_iff] at agree ⊢
    exact advance_coherent environment.2 agree environment.1 advanced
  · rw [sizesAgree_iff]
    intro id file found
    cases found

end Backed

end Backing

/-- A worker over plain files of these lengths, one for each path. -/
def fileWorker (lengths : PathBuf → Nat) : BuildFsIoWorker :=
  { BuildFsHandler.plainWorker with
    openPath := fun path flags => .ok
      { stat := ⟨0, 0, 0o100644, 1, 0, 0, if truncates path flags then 0 else lengths path,
          4096, 0, 0, 0, 0⟩
        resolvedPath := path }
    writeAt := fun path offset append _ data => .ok
      (if discards path then ⟨data.length, (offset + data.length) % 2 ^ 64⟩
      else ⟨data.length, (if append then lengths path else offset) + data.length⟩)
    statPath := fun path _ => .ok ⟨0, 0, 0o100644, 1, 0, 0, lengths path, 4096, 0, 0, 0, 0⟩ }

theorem fileWorker_truthful (lengths : PathBuf → Nat) :
    Truthful id lengths (fileWorker lengths) := by
  constructor
  · intro path
    rfl
  · rintro path flags opened ⟨⟩
    rfl
  · rintro path flags opened ⟨⟩
    rfl
  · rintro path offset append symlink data result discarded ⟨⟩
    simp [discarded]
  · rintro path offset append symlink data result reaches ⟨⟩
    simp [reaches]
  · rintro path stat ⟨⟩
    rfl

namespace Backed

open BuildFsHandler (new sandbox plainFile)

/-- A handler with that file as its only handle. -/
def holdingFile (file : FileHandle) : BuildFsHandler :=
  { new sandbox with handles := AList.singleton 1 (.file file), nextId := 2 }

theorem holdingFile_only {file other : FileHandle} {id : Nat}
    (found : (holdingFile file).handles.lookup id = some (.file other)) :
    id = 1 ∧ other = file := by
  have entry := AList.mem_lookup_iff.mp found
  cases List.mem_singleton.mp entry
  exact ⟨rfl, rfl⟩

/-- A file is created, written and cut short, through one handle. -/
theorem throughout_sizesAgree_output :
    Throughout (advance id) (SizesAgree id) ⟨new sandbox, fun _ => 0⟩
      [(fileWorker fun _ => 0, .openat 0 "out/a".toList (O_RDWR ||| O_CREAT)),
        (fileWorker fun _ => 0, .write 1 [1, 2, 3] 0),
        (fileWorker (Function.update (fun _ => 0) (components "/out/a".toList) 3),
          .ftruncate 1 1)] := by
  have created : advance id ⟨new sandbox, fun _ => 0⟩
      (fileWorker fun _ => 0, .openat 0 "out/a".toList (O_RDWR ||| O_CREAT)) =
        some ⟨holdingFile (plainFile "out/a" true), fun _ => 0⟩ := rfl
  have written : advance id ⟨holdingFile (plainFile "out/a" true), fun _ => 0⟩
      (fileWorker fun _ => 0, .write 1 [1, 2, 3] 0) =
        some ⟨holdingFile { plainFile "out/a" true with size := 3 },
          Function.update (fun _ => 0) (components "/out/a".toList) 3⟩ := rfl
  apply (throughout_sizesAgree id sandbox (fun _ => 0) _ ?_).mpr
  · refine eachMeets_cons.mpr ⟨?_, ?_⟩
    · intro absPath schemePath opened _ _ _ asked
      exact absurd asked (by decide)
    intro next advanced
    cases created.symm.trans advanced
    refine eachMeets_cons.mpr ⟨?_, ?_⟩
    · intro file result found _ reply
      cases (holdingFile_only found).2
      cases reply
      exact Or.inr ⟨by decide, by decide +kernel, fun other _ present _ =>
        (holdingFile_only present).1⟩
    intro next advanced
    cases written.symm.trans advanced
    refine eachMeets_cons.mpr ⟨?_, fun _ _ => eachMeets_nil⟩
    intro file found _ _
    cases (holdingFile_only found).2
    exact Or.inr ⟨by decide +kernel, fun other _ present _ => (holdingFile_only present).1⟩
  · refine eachMeets_cons.mpr ⟨⟨rfl, fileWorker_truthful _⟩, ?_⟩
    intro next advanced
    cases created.symm.trans advanced
    refine eachMeets_cons.mpr ⟨⟨rfl, fileWorker_truthful _⟩, ?_⟩
    intro next advanced
    cases written.symm.trans advanced
    exact eachMeets_cons.mpr ⟨⟨rfl, fileWorker_truthful _⟩, fun _ _ => eachMeets_nil⟩

/-- A truncation that makes the file longer is not seen by the handle. -/
theorem ftruncate_grows_unseen :
    EachMeets (advance id)
      (fun state exchange => exchange.2.ofSizes = true ∧ Truthful id state.lengths exchange.1)
      ⟨new sandbox, fun _ => 0⟩
      [(fileWorker fun _ => 0, .openat 0 "out/a".toList (O_RDWR ||| O_CREAT)),
        (fileWorker fun _ => 0, .ftruncate 1 5)] ∧
    ¬ Throughout (advance id) (SizesAgree id) ⟨new sandbox, fun _ => 0⟩
      [(fileWorker fun _ => 0, .openat 0 "out/a".toList (O_RDWR ||| O_CREAT)),
        (fileWorker fun _ => 0, .ftruncate 1 5)] := by
  have created : advance id ⟨new sandbox, fun _ => 0⟩
      (fileWorker fun _ => 0, .openat 0 "out/a".toList (O_RDWR ||| O_CREAT)) =
        some ⟨BuildFsHandler.holding "out/a" true, fun _ => 0⟩ := rfl
  constructor
  · refine eachMeets_cons.mpr ⟨⟨rfl, fileWorker_truthful _⟩, ?_⟩
    intro next advanced
    cases created.symm.trans advanced
    exact eachMeets_cons.mpr ⟨⟨rfl, fileWorker_truthful _⟩, fun _ _ => eachMeets_nil⟩
  · intro always
    have reported := (always _ [] _ (List.append_nil _) rfl 1 (plainFile "out/a" true) rfl).1
    exact absurd reported (by decide +kernel)

end Backed

end NixRedox.BuildProxy
