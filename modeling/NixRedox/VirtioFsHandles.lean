import NixRedox.KeyedMap
import NixRedox.StepRuns
import NixRedox.VirtioFs

set_option autoImplicit false

/- Handles on the host: which the server has handed out, which it has been asked to
take back, and which the open scheme handles hold. -/
namespace NixRedox.VirtioFs

open Redox (Errno)

inductive HostKind where
  | directory
  | readOnly
  | writable
  deriving DecidableEq, Repr

/-- A handle the server keeps. -/
structure HostHandle where
  kind : HostKind
  nodeid : UInt64
  fh : UInt64
  deriving DecidableEq, Repr

/-- The server is asked for a file to write to. -/
def opensWritable (flags : UInt32) : Bool := flags &&& (LINUX_O_WRONLY ||| LINUX_O_RDWR) ≠ 0

/-- What a successful answer hands out. -/
def handedOutBy : Exchange → Multiset HostHandle
  | ⟨.open nodeid flags, .ok fh⟩ =>
      {⟨if opensWritable flags then .writable else .readOnly, nodeid, fh⟩}
  | ⟨.opendir nodeid, .ok fh⟩ => {⟨.directory, nodeid, fh⟩}
  | ⟨.create .., .ok created⟩ => {⟨.writable, created.1.nodeid, created.2⟩}
  | _ => 0

def handedOut : List Exchange → Multiset HostHandle
  | [] => 0
  | exchange :: earlier => handedOutBy exchange + handedOut earlier

/-- The last exchange is a flush of the handle. -/
def flushedBefore (nodeid fh : UInt64) : List Exchange → Bool
  | ⟨.flush node file, _⟩ :: _ => node = nodeid ∧ file = fh
  | _ => false

/-- The last exchange is no flush. -/
def Settled (exchanges : List Exchange) : Prop :=
  ∀ nodeid fh, flushedBefore nodeid fh exchanges = false

/-- What the server has been asked to release. A file that was flushed right before
counts as one to write to. -/
def askedBack : List Exchange → Multiset HostHandle
  | [] => 0
  | ⟨.release nodeid fh, _⟩ :: earlier =>
      {⟨if flushedBefore nodeid fh earlier then .writable else .readOnly, nodeid, fh⟩} +
        askedBack earlier
  | ⟨.releasedir nodeid fh, _⟩ :: earlier => {⟨.directory, nodeid, fh⟩} + askedBack earlier
  | _ :: earlier => askedBack earlier

/-- The handle of the host behind a scheme handle. -/
def Handle.host (handle : Handle) : HostHandle where
  kind := if handle.isDir then .directory else if handle.writable then .writable else .readOnly
  nodeid := handle.nodeid
  fh := handle.fh

/-- What the scheme handles hold, those of the given ids aside. -/
def held (statOnly : Finset Nat) (handles : AList fun _ : Nat => Handle) : Multiset HostHandle :=
  ((handles.entries.filter (·.1 ∉ statOnly)).map fun entry => entry.2.host : List HostHandle)

section Runs

/-- The scheme and the ids of the handles that were opened with `O_STAT`. -/
structure Run where
  scheme : VirtioFsScheme
  statOnly : Finset Nat

inductive Request where
  | schemeRoot
  | openat (dirfd : Nat) (path : List Char) (flags : UInt64)
  | read (id length : Nat) (offset : UInt64)
  | write (id : Nat) (data : List UInt8) (offset : UInt64)
  | ftruncate (id : Nat) (length : UInt64)
  | getdents (id : Nat) (buf : DirentBuf) (capacity opaqueOffset : Nat)
  | unlinkat (fd : Nat) (path : List Char)
  | onClose (id : Nat)

/-- Run an operation and note what it does to the `O_STAT` handles if it succeeds. -/
def Run.advance {α : Type} (run : Run) (op : Op α) (note : α → Finset Nat) : Option Run :=
  (op.perform run.scheme).map fun outcome =>
    match outcome with
    | (.ok value, scheme) => ⟨scheme, note value⟩
    | (.error _, scheme) => ⟨scheme, run.statOnly⟩

/-- One request; `none` when it never returns. -/
def Run.step (server : FuseServer) (run : Run) : Request → Option Run
  | .schemeRoot => run.advance (schemeRoot server) fun id => run.statOnly.erase id
  | .openat dirfd path flags => run.advance (openat server dirfd path flags) fun id =>
      if flags &&& O_STAT = O_STAT then insert id run.statOnly else run.statOnly.erase id
  | .read id length offset => run.advance (read server id length offset) fun _ => run.statOnly
  | .write id data offset => run.advance (write server id data offset) fun _ => run.statOnly
  | .ftruncate id length => run.advance (ftruncate server id length) fun _ => run.statOnly
  | .getdents id buf capacity opaqueOffset =>
      run.advance (getdents server id buf capacity opaqueOffset) fun _ => run.statOnly
  | .unlinkat fd path => run.advance (unlinkat server fd path) fun _ => run.statOnly
  | .onClose id => run.advance (onClose server id) fun _ => run.statOnly.erase id

/-- `VirtioFsScheme::new`, after the handshake. -/
def Run.new (effectiveMaxIo : Nat) : Run := ⟨⟨effectiveMaxIo, 1, ∅, []⟩, ∅⟩

/-- Every handle that was handed out has been asked back or is held, once. -/
structure HandlesBalanced (run : Run) : Prop where
  balance : handedOut run.scheme.exchanges =
    askedBack run.scheme.exchanges + held run.statOnly run.scheme.handles
  drained : run.scheme.handles = ∅ →
    handedOut run.scheme.exchanges = askedBack run.scheme.exchanges

/-- A request neither creates with `O_STAT` nor closes a handle that the server gave
the number zero. -/
def AvoidsSentinel (run : Run) : Request → Prop
  | .openat _ _ flags => ¬ (flags &&& O_CREAT ≠ 0 ∧ flags &&& O_STAT = O_STAT)
  | .onClose id => id ∉ run.statOnly → ∀ handle, run.scheme.handles.lookup id = some handle →
      handle.fh ≠ 0
  | _ => True

end Runs

section Quiet

/-- Nothing is handed out or asked back, and the handles stay. -/
structure Still (before after : VirtioFsScheme) : Prop where
  given : handedOut after.exchanges = handedOut before.exchanges
  returned : askedBack after.exchanges = askedBack before.exchanges
  settled : Settled before.exchanges → Settled after.exchanges
  handles : after.handles = before.handles

theorem Still.refl (scheme : VirtioFsScheme) : Still scheme scheme := ⟨rfl, rfl, id, rfl⟩

theorem Still.trans {first second third : VirtioFsScheme} (one : Still first second)
    (two : Still second third) : Still first third :=
  ⟨two.given.trans one.given, two.returned.trans one.returned, two.settled ∘ one.settled,
    two.handles.trans one.handles⟩

/-- The operation leaves the handles alone, however it ends. -/
def Quiet {α : Type} (op : Op α) : Prop :=
  ∀ scheme outcome after, op.perform scheme = some (outcome, after) → Still scheme after

variable {α β : Type}

theorem bind_cases {op : Op α} {next : α → Op β} {scheme after : VirtioFsScheme}
    {outcome : Except Errno β} (run : (op >>= next).perform scheme = some (outcome, after)) :
    (∃ value middle, op.perform scheme = some (.ok value, middle) ∧
      (next value).perform middle = some (outcome, after)) ∨
    ∃ reason, op.perform scheme = some (.error reason, after) ∧ outcome = .error reason := by
  rw [perform_bind] at run
  split at run
  · rename_i value middle first
    exact .inl ⟨value, middle, first, run⟩
  · rename_i reason final first
    cases run
    exact .inr ⟨reason, first, rfl⟩
  · cases run

theorem quiet_pure (value : α) : Quiet (pure value : Op α) := by
  intro scheme outcome after run
  cases run
  exact Still.refl scheme

theorem quiet_throw (reason : Errno) : Quiet (throw reason : Op α) := by
  intro scheme outcome after run
  cases run
  exact Still.refl scheme

theorem quiet_get : Quiet (get : Op VirtioFsScheme) := by
  intro scheme outcome after run
  cases run
  exact Still.refl scheme

theorem quiet_loopForever : Quiet (loopForever : Op α) := by
  intro scheme outcome after run
  cases run

theorem quiet_bind {op : Op α} {next : α → Op β} (first : Quiet op)
    (second : ∀ value, Quiet (next value)) : Quiet (op >>= next) := by
  intro scheme outcome after run
  rcases bind_cases run with ⟨value, middle, one, two⟩ | ⟨reason, failed, _⟩
  · exact (first _ _ _ one).trans (second value _ _ _ two)
  · exact first _ _ _ failed

theorem quiet_ite {condition : Prop} [Decidable condition] {one two : Op α} (first : Quiet one)
    (second : Quiet two) : Quiet (if condition then one else two) := by
  by_cases holds : condition
  · rw [if_pos holds]
    exact first
  · rw [if_neg holds]
    exact second

theorem quiet_attempt {op : Op α} (quiet : Quiet op) : Quiet (attempt op) := by
  intro scheme outcome after run
  rw [perform_attempt, Option.map_eq_some_iff] at run
  obtain ⟨⟨result, final⟩, ran, same⟩ := run
  cases same
  exact quiet _ _ _ ran

/-- Requests that neither open, flush nor release. -/
def FuseRequest.neutral : FuseRequest → Bool
  | .open .. | .opendir .. | .create .. | .flush .. | .release .. | .releasedir .. => false
  | _ => true

theorem quiet_ask (server : FuseServer) {request : FuseRequest} (neutral : request.neutral = true) :
    Quiet (ask server request) := by
  intro scheme outcome after run
  rw [perform_ask] at run
  cases run
  cases request <;> cases neutral
  all_goals exact ⟨by simp [handedOut, handedOutBy], by simp [askedBack], fun _ _ _ => rfl, rfl⟩

theorem quiet_getHandle (id : Nat) : Quiet (getHandle id) := by
  intro scheme outcome after run
  rw [perform_getHandle] at run
  split at run <;> cases run <;> exact Still.refl scheme

variable (server : FuseServer)

theorem quiet_walk (followLast : Bool)
    {follow : UInt64 → List (List Char) → UInt64 → Op (UInt64 × FuseAttr)}
    (quiet : ∀ current rest link, Quiet (follow current rest link)) (current : UInt64)
    (components : List (List Char)) :
    Quiet (walk server followLast follow current components) := by
  induction components generalizing current with
  | nil => exact quiet_bind (quiet_ask server rfl) fun attr => quiet_pure _
  | cons component rest ih =>
      unfold walk
      split
      · exact ih current
      · apply quiet_bind (quiet_ask server rfl)
        intro entry
        split
        · split
          · exact quiet_pure _
          · exact quiet current rest entry.nodeid
        · exact ih entry.nodeid

theorem quiet_walkHops (followLast : Bool) (hops : Nat) (current : UInt64)
    (components : List (List Char)) :
    Quiet (walkHops server followLast hops current components) := by
  induction hops generalizing current components with
  | zero => exact quiet_walk server followLast (fun _ _ _ => quiet_throw _) current components
  | succ hops ih =>
      apply quiet_walk
      intro current rest link
      exact quiet_bind (quiet_ask server rfl) fun target => ih _ _

theorem quiet_resolvePathHops (path : List Char) (maxHops : Nat) (followLast : Bool) :
    Quiet (resolvePathHops server path maxHops followLast) := by
  unfold resolvePathHops
  dsimp only
  split
  · exact quiet_bind (quiet_ask server rfl) fun attr => quiet_pure _
  · exact quiet_walkHops server followLast maxHops 1 _

theorem quiet_parentNodeid (parentPath : List Char) : Quiet (parentNodeid server parentPath) := by
  unfold parentNodeid
  split
  · exact quiet_bind (quiet_ask server rfl) fun attr => quiet_pure _
  · exact quiet_bind (quiet_resolvePathHops server _ _ _) fun resolved => quiet_pure _

theorem quiet_readChunks (nodeid fh : UInt64) (fuel : Nat) (offset : UInt64) (remaining : Nat) :
    Quiet (readChunks server nodeid fh fuel offset remaining) := by
  induction fuel generalizing offset remaining with
  | zero =>
      cases remaining with
      | zero => exact quiet_pure _
      | succ remaining => exact quiet_loopForever
  | succ fuel ih =>
      cases remaining with
      | zero => exact quiet_pure _
      | succ remaining =>
          unfold readChunks
          apply quiet_bind quiet_get
          intro scheme
          apply quiet_bind (quiet_ask server rfl)
          intro chunk
          split
          · exact quiet_pure _
          · exact quiet_bind (ih _ _) fun rest => quiet_pure _

theorem quiet_writeChunks (nodeid fh : UInt64) (fuel : Nat) (offset : UInt64) (total : UInt32)
    (data : List UInt8) : Quiet (writeChunks server nodeid fh fuel offset total data) := by
  induction fuel generalizing offset total data with
  | zero =>
      cases data with
      | nil => exact quiet_pure _
      | cons byte rest => exact quiet_loopForever
  | succ fuel ih =>
      cases data with
      | nil => exact quiet_pure _
      | cons byte rest =>
          unfold writeChunks
          apply quiet_bind quiet_get
          intro scheme
          apply quiet_bind (quiet_ask server rfl)
          intro written
          split
          · exact quiet_pure _
          · exact ih _ _ _

theorem quiet_read (id length : Nat) (offset : UInt64) : Quiet (read server id length offset) := by
  apply quiet_bind (quiet_getHandle id)
  intro handle
  split
  · exact quiet_throw _
  · refine quiet_bind ?_ fun data => quiet_pure _
    apply quiet_bind quiet_get
    intro scheme
    exact quiet_ite (quiet_ask server rfl) (quiet_readChunks server _ _ _ _ _)

theorem quiet_unlinkat (fd : Nat) (path : List Char) : Quiet (unlinkat server fd path) := by
  apply quiet_bind quiet_get
  intro scheme
  dsimp only
  split
  · exact quiet_throw _
  · apply quiet_bind (quiet_parentNodeid server _)
    intro parent
    apply quiet_bind (quiet_resolvePathHops server _ _ _)
    intro resolved
    exact quiet_ite (quiet_ask server rfl) (quiet_ask server rfl)

end Quiet

section Held

variable {statOnly : Finset Nat} {handles : AList fun _ : Nat => Handle} {id : Nat}
  {handle : Handle}

/-- The part that one entry adds to what is held. -/
def heldAt (statOnly : Finset Nat) (id : Nat) (handle : Handle) : Multiset HostHandle :=
  if id ∈ statOnly then 0 else {handle.host}

theorem held_cons (entry : (_ : Nat) × Handle) (entries : List ((_ : Nat) × Handle)) :
    (((entry :: entries).filter (·.1 ∉ statOnly)).map fun entry => entry.2.host : Multiset HostHandle) =
      heldAt statOnly entry.1 entry.2 +
        ((entries.filter (·.1 ∉ statOnly)).map fun entry => entry.2.host : List HostHandle) := by
  unfold heldAt
  by_cases noted : entry.1 ∈ statOnly
  · rw [List.filter_cons_of_neg (by simpa using noted), if_pos noted, zero_add]
  · rw [List.filter_cons_of_pos (by simpa using noted), if_neg noted, List.map_cons]
    rfl

theorem held_insert : held statOnly (handles.insert id handle) =
    heldAt statOnly id handle + held statOnly (handles.erase id) := by
  unfold held
  rw [AList.entries_insert]
  exact held_cons ⟨id, handle⟩ _

/-- What is held depends on the handles of the host behind the ids. -/
theorem held_congr {others : AList fun _ : Nat => Handle}
    (same : ∀ key, (others.lookup key).map Handle.host = (handles.lookup key).map Handle.host) :
    held statOnly others = held statOnly handles := by
  let hosts := KeyedMap.mapValues fun (_ : Nat) handle => Handle.host handle
  have eq : ∀ map, held statOnly map =
      (((hosts map).entries.filter (·.1 ∉ statOnly)).map (·.2) : List HostHandle) := by
    intro map
    simp only [held, hosts, KeyedMap.mapValues, List.filter_map, List.map_map]
    rfl
  have perm : (hosts others).entries.Perm (hosts handles).entries := by
    apply List.lookup_ext (hosts others).nodupKeys (hosts handles).nodupKeys
    intro key value
    have lookups : (hosts others).lookup key = (hosts handles).lookup key := by
      simp only [hosts, KeyedMap.lookup_mapValues, same]
    exact Iff.of_eq (congrArg (value ∈ ·) lookups)
  rw [eq, eq]
  exact Multiset.coe_eq_coe.mpr ((perm.filter _).map _)

theorem held_lookup (found : handles.lookup id = some handle) : held statOnly handles =
    heldAt statOnly id handle + held statOnly (handles.erase id) := by
  rw [← held_insert]
  apply held_congr
  intro key
  by_cases same : key = id
  · subst same
    rw [AList.lookup_insert, found]
  · rw [AList.lookup_insert_ne same]

theorem held_fresh (fresh : id ∉ handles) : held statOnly (handles.insert id handle) =
    heldAt statOnly id handle + held statOnly handles := by
  rw [held_insert]
  congr 1
  apply held_congr
  intro key
  by_cases same : key = id
  · subst same
    rw [AList.lookup_erase, AList.lookup_eq_none.mpr fresh]
  · rw [AList.lookup_erase_ne same]

/-- Noting an id that no handle has changes nothing. -/
theorem held_note {noted : Finset Nat} (absent : id ∉ handles)
    (others : ∀ key, key ≠ id → (key ∈ noted ↔ key ∈ statOnly)) :
    held noted handles = held statOnly handles := by
  unfold held
  congr 2
  apply List.filter_congr
  intro entry member
  have apart : entry.1 ≠ id := by
    intro same
    apply absent
    rw [← same, AList.mem_keys]
    exact List.mem_map_of_mem member
  simp [others entry.1 apart]

end Held

section Opening

/-- A new handle was stored, and the server has handed out what it holds. -/
structure Opened (before after : VirtioFsScheme) (id : Nat) (handle : Handle) : Prop where
  given : handedOut after.exchanges = {handle.host} + handedOut before.exchanges
  returned : askedBack after.exchanges = askedBack before.exchanges
  settled : Settled after.exchanges
  fresh : id ∉ before.handles
  stored : after.handles = before.handles.insert id handle

/-- The operation stores a new handle that the server has just handed out, or fails. -/
def Opens (op : Op Nat) : Prop :=
  ∀ scheme outcome after, op.perform scheme = some (outcome, after) →
    (∃ reason, outcome = .error reason ∧ Still scheme after) ∨
    ∃ id handle, outcome = .ok id ∧ Opened scheme after id handle

/-- The operation stores a handle with the number zero that the server knows nothing
of, or fails. -/
def OpensStat (op : Op Nat) : Prop :=
  ∀ scheme outcome after, op.perform scheme = some (outcome, after) →
    (∃ reason, outcome = .error reason ∧ Still scheme after) ∨
    ∃ id handle, outcome = .ok id ∧ handle.fh = 0 ∧ id ∉ scheme.handles ∧
      handedOut after.exchanges = handedOut scheme.exchanges ∧
      askedBack after.exchanges = askedBack scheme.exchanges ∧
      (Settled scheme.exchanges → Settled after.exchanges) ∧
      after.handles = scheme.handles.insert id handle

theorem allocFrom_fresh {handles : AList fun _ : Nat => Handle} {fuel start : Nat}
    {found : Nat × Nat} (allocated : allocFrom handles fuel start = some found) :
    found.1 ∉ handles := by
  induction fuel generalizing start with
  | zero => cases allocated
  | succ fuel ih =>
      unfold allocFrom at allocated
      dsimp only at allocated
      split at allocated
      · rename_i free
        cases allocated
        exact free.2.2
      · exact ih allocated

theorem perform_insertHandle {handle : Handle} {scheme after : VirtioFsScheme}
    {outcome : Except Errno Nat}
    (run : (insertHandle handle).perform scheme = some (outcome, after)) :
    ∃ id, outcome = .ok id ∧ id ∉ scheme.handles ∧ after.exchanges = scheme.exchanges ∧
      after.handles = scheme.handles.insert id handle := by
  unfold insertHandle at run
  rcases bind_cases run with ⟨id, middle, allocated, rest⟩ | ⟨reason, failed, _⟩
  · obtain ⟨found, free, same⟩ := Option.map_eq_some_iff.mp allocated
    cases same
    rw [perform_bind, perform_modify] at rest
    cases rest
    exact ⟨found.1, rfl, allocFrom_fresh free, rfl, rfl⟩
  · obtain ⟨found, _, same⟩ := Option.map_eq_some_iff.mp failed
    cases same

theorem opens_throw (reason : Errno) : Opens (throw reason) := by
  intro scheme outcome after run
  cases run
  exact .inl ⟨reason, rfl, Still.refl scheme⟩

theorem opens_ite {condition : Prop} [Decidable condition] {one two : Op Nat} (first : Opens one)
    (second : Opens two) : Opens (if condition then one else two) := by
  by_cases holds : condition
  · rw [if_pos holds]
    exact first
  · rw [if_neg holds]
    exact second

variable {α : Type}

theorem opens_bind {op : Op α} {next : α → Op Nat} (first : Quiet op)
    (second : ∀ value, Opens (next value)) : Opens (op >>= next) := by
  intro scheme outcome after run
  rcases bind_cases run with ⟨value, middle, one, two⟩ | ⟨reason, failed, same⟩
  · have still := first _ _ _ one
    rcases second value _ _ _ two with ⟨reason, same, rest⟩ | ⟨id, handle, same, opened⟩
    · exact .inl ⟨reason, same, still.trans rest⟩
    · refine .inr ⟨id, handle, same, ?_⟩
      exact ⟨opened.given.trans (by rw [still.given]), opened.returned.trans still.returned,
        opened.settled, still.handles ▸ opened.fresh, opened.stored.trans (by rw [still.handles])⟩
  · exact .inl ⟨reason, same, first _ _ _ failed⟩

theorem opensStat_bind {op : Op α} {next : α → Op Nat} (first : Quiet op)
    (second : ∀ value, OpensStat (next value)) : OpensStat (op >>= next) := by
  intro scheme outcome after run
  rcases bind_cases run with ⟨value, middle, one, two⟩ | ⟨reason, failed, same⟩
  · have still := first _ _ _ one
    rcases second value _ _ _ two with
      ⟨reason, same, rest⟩ | ⟨id, handle, same, zero, fresh, given, returned, settled, stored⟩
    · exact .inl ⟨reason, same, still.trans rest⟩
    · exact .inr ⟨id, handle, same, zero, still.handles ▸ fresh, given.trans still.given,
        returned.trans still.returned, settled ∘ still.settled,
        stored.trans (by rw [still.handles])⟩
  · exact .inl ⟨reason, same, first _ _ _ failed⟩

variable (server : FuseServer)

/-- A handle stored right after the server handed it out. -/
theorem opens_ask {request : FuseRequest} {build : request.Answer → Handle}
    (gives : ∀ body, handedOutBy ⟨request, .ok body⟩ = {(build body).host})
    (refused : ∀ reason, handedOutBy ⟨request, .error reason⟩ = 0)
    (returns : ∀ reply earlier, askedBack (⟨request, reply⟩ :: earlier) = askedBack earlier)
    (settles : ∀ reply earlier, Settled (⟨request, reply⟩ :: earlier)) :
    Opens (ask server request >>= fun body => insertHandle (build body)) := by
  intro scheme outcome after run
  rcases bind_cases run with ⟨body, middle, one, two⟩ | ⟨reason, failed, same⟩
  · rw [perform_ask] at one
    cases reply : server.answer scheme.exchanges request with
    | error reason =>
        rw [reply] at one
        cases one
    | ok answer =>
        rw [reply] at one
        cases one
        obtain ⟨id, same, fresh, exchanges, stored⟩ := perform_insertHandle two
        refine .inr ⟨id, build body, same, ?_, ?_, ?_, fresh, stored⟩
        · rw [exchanges, handedOut, gives]
        · rw [exchanges, returns]
        · rw [exchanges]
          exact settles _ _
  · rw [perform_ask] at failed
    cases reply : server.answer scheme.exchanges request with
    | ok answer =>
        rw [reply] at failed
        cases failed
    | error other =>
        rw [reply] at failed
        cases failed
        refine .inl ⟨_, same, ?_, returns _ _, fun _ => settles _ _, rfl⟩
        rw [handedOut, refused, zero_add]

theorem opens_opendir (nodeid : UInt64) (path : List Char) (attr : FuseAttr) :
    Opens (ask server (.opendir nodeid) >>= fun fh =>
      insertHandle (newHandle nodeid fh true false path attr)) :=
  opens_ask server (fun _ => rfl) (fun _ => rfl) (fun _ _ => rfl) fun _ _ _ _ => rfl

theorem opensWritable_redoxToFuseFlags (flags : UInt64) :
    opensWritable (redoxToFuseFlags flags) = wantsWrite flags := by
  unfold redoxToFuseFlags wantsWrite
  dsimp only
  split_ifs <;> simp_all <;> decide

theorem opens_open (nodeid : UInt64) (flags : UInt64) (path : List Char) (attr : FuseAttr) :
    Opens (ask server (.open nodeid (redoxToFuseFlags flags)) >>= fun fh =>
      insertHandle (newHandle nodeid fh false (wantsWrite flags) path attr)) := by
  refine opens_ask server ?_ (fun _ => rfl) (fun _ _ => rfl) fun _ _ _ _ => rfl
  intro fh
  rw [handedOutBy, opensWritable_redoxToFuseFlags]
  rfl

theorem opens_schemeRoot : Opens (schemeRoot server) := by
  apply opens_bind (quiet_ask server rfl)
  intro attr
  exact opens_opendir server 1 [] attr

theorem opens_openCreate (fullPath : List Char) (flags : UInt64) :
    Opens (openCreate server fullPath flags) := by
  apply opens_bind (quiet_parentNodeid server _)
  intro parent
  apply opens_bind (quiet_attempt (quiet_resolvePathHops server _ _ _))
  intro existing
  cases existing with
  | ok found =>
      apply opens_ite (opens_throw _)
      exact opens_ite (opens_opendir server _ _ _) (opens_open server _ _ _ _)
  | error reason =>
      apply opens_ite
      · apply opens_bind (quiet_ask server rfl)
        intro entry
        exact opens_opendir server _ _ _
      · exact opens_ask server (fun _ => rfl) (fun _ => rfl) (fun _ _ => rfl) fun _ _ _ _ => rfl

theorem opens_openExisting (fullPath : List Char) (flags : UInt64)
    (real : ¬ flags &&& O_STAT = O_STAT) : Opens (openExisting server fullPath flags) := by
  unfold openExisting
  dsimp only
  apply opens_bind (quiet_resolvePathHops server _ _ _)
  intro found
  rw [if_neg real]
  exact opens_ite (opens_ite (opens_throw _) (opens_opendir server _ _ _))
    (opens_ite (opens_throw _) (opens_open server _ _ _ _))

theorem opensStat_openExisting (fullPath : List Char) (flags : UInt64)
    (stat : flags &&& O_STAT = O_STAT) : OpensStat (openExisting server fullPath flags) := by
  unfold openExisting
  dsimp only
  apply opensStat_bind (quiet_resolvePathHops server _ _ _)
  intro found
  rw [if_pos stat]
  intro scheme outcome after run
  obtain ⟨id, same, fresh, exchanges, stored⟩ := perform_insertHandle run
  exact .inr ⟨id, _, same, rfl, fresh, by rw [exchanges], by rw [exchanges],
    by rw [exchanges]; exact fun settled => settled, stored⟩

end Opening

section Caching

/-- Nothing is handed out or asked back, and the handles hold what they held. -/
structure Kept (before after : VirtioFsScheme) : Prop where
  given : handedOut after.exchanges = handedOut before.exchanges
  returned : askedBack after.exchanges = askedBack before.exchanges
  settled : Settled before.exchanges → Settled after.exchanges
  hosts : ∀ key,
    (after.handles.lookup key).map Handle.host = (before.handles.lookup key).map Handle.host

theorem Still.kept {before after : VirtioFsScheme} (still : Still before after) :
    Kept before after :=
  ⟨still.given, still.returned, still.settled, fun key => by rw [still.handles]⟩

/-- Storing a handle again with other cached values. -/
theorem Kept.stored {before middle : VirtioFsScheme} (kept : Kept before middle) {id : Nat}
    {handle fresh : Handle} (found : before.handles.lookup id = some handle)
    (same : fresh.host = handle.host) :
    Kept before { middle with handles := middle.handles.insert id fresh } := by
  refine ⟨kept.given, kept.returned, kept.settled, ?_⟩
  intro key
  by_cases here : key = id
  · subst here
    simp only [AList.lookup_insert, found, Option.map_some, same]
  · simp only [AList.lookup_insert_ne here, kept.hosts]

theorem getHandle_cases {id : Nat} {scheme after : VirtioFsScheme} {outcome : Except Errno Handle}
    (run : (getHandle id).perform scheme = some (outcome, after)) :
    after = scheme ∧ ∀ handle, outcome = .ok handle → scheme.handles.lookup id = some handle := by
  rw [perform_getHandle] at run
  split at run
  · rename_i handle found
    cases run
    refine ⟨rfl, ?_⟩
    intro other same
    cases same
    exact found
  · cases run
    exact ⟨rfl, by simp⟩

variable {α : Type}

/-- An operation that reads a handle, does something quiet and may store the handle
again. -/
theorem kept_after_getHandle {id : Nat} {next : Handle → Op α}
    (second : ∀ scheme handle outcome after, scheme.handles.lookup id = some handle →
      (next handle).perform scheme = some (outcome, after) → Kept scheme after)
    {scheme after : VirtioFsScheme} {outcome : Except Errno α}
    (run : (getHandle id >>= next).perform scheme = some (outcome, after)) : Kept scheme after := by
  rcases bind_cases run with ⟨handle, middle, one, two⟩ | ⟨reason, failed, _⟩
  · obtain ⟨rfl, found⟩ := getHandle_cases one
    exact second middle handle outcome after (found handle rfl) two
  · obtain ⟨rfl, _⟩ := getHandle_cases failed
    exact (Still.refl after).kept

variable (server : FuseServer) {scheme after : VirtioFsScheme}

theorem kept_write {id : Nat} {data : List UInt8} {offset : UInt64} {outcome : Except Errno UInt32}
    (run : (write server id data offset).perform scheme = some (outcome, after)) :
    Kept scheme after := by
  refine kept_after_getHandle ?_ run
  intro scheme handle outcome after found run
  split at run
  · exact (quiet_throw _ _ _ _ run).kept
  · split at run
    · exact (quiet_throw _ _ _ _ run).kept
    · have quiet : Quiet (writeSession server handle.nodeid handle.fh offset data) := by
        apply quiet_bind quiet_get
        intro scheme
        exact quiet_ite (quiet_ask server rfl) (quiet_writeChunks server _ _ _ _ _ _)
      rcases bind_cases run with ⟨written, middle, one, two⟩ | ⟨reason, failed, _⟩
      · rw [perform_bind, perform_setHandle] at two
        cases two
        exact (quiet _ _ _ one).kept.stored found rfl
      · exact (quiet _ _ _ failed).kept

theorem kept_ftruncate {id : Nat} {length : UInt64} {outcome : Except Errno Unit}
    (run : (ftruncate server id length).perform scheme = some (outcome, after)) :
    Kept scheme after := by
  refine kept_after_getHandle ?_ run
  intro scheme handle outcome after found run
  split at run
  · exact (quiet_throw _ _ _ _ run).kept
  · have quiet : Quiet (ask server (.truncate handle.nodeid handle.fh length)) :=
      quiet_ask server rfl
    rcases bind_cases run with ⟨attr, middle, one, two⟩ | ⟨reason, failed, _⟩
    · rw [perform_setHandle] at two
      cases two
      exact (quiet _ _ _ one).kept.stored found rfl
    · exact (quiet _ _ _ failed).kept

theorem kept_getdents {id capacity opaqueOffset : Nat} {buf : DirentBuf}
    {outcome : Except Errno (List (RedoxDirEntry × Nat))}
    (run : (getdents server id buf capacity opaqueOffset).perform scheme = some (outcome, after)) :
    Kept scheme after := by
  refine kept_after_getHandle ?_ run
  intro scheme handle outcome after found run
  split at run
  · exact (quiet_throw _ _ _ _ run).kept
  · have fetched : ∀ outcome after,
        (fetchEntries server id handle opaqueOffset).perform scheme = some (outcome, after) →
        Kept scheme after := by
      intro outcome after run
      unfold fetchEntries at run
      split at run
      · have quiet : Quiet (ask server (.readdir handle.nodeid handle.fh 0 32768)) :=
          quiet_ask server rfl
        rcases bind_cases run with ⟨data, middle, one, two⟩ | ⟨reason, failed, _⟩
        · rw [perform_bind, perform_setHandle] at two
          cases two
          exact (quiet _ _ _ one).kept.stored found rfl
        · exact (quiet _ _ _ failed).kept
      · exact (quiet_pure _ _ _ _ run).kept
    rcases bind_cases run with ⟨entries, middle, one, two⟩ | ⟨reason, failed, _⟩
    · cases two
      exact fetched _ _ one
    · exact fetched _ _ failed

end Caching

section Closing

variable (server : FuseServer)

/-- Closing takes the handle away and, unless its number is zero, asks the host to take
it back; a file to write to is flushed right before. -/
theorem perform_onClose {id : Nat} {handle : Handle} {scheme after : VirtioFsScheme}
    {outcome : Except Errno Unit} (settled : Settled scheme.exchanges)
    (found : scheme.handles.lookup id = some handle)
    (run : (onClose server id).perform scheme = some (outcome, after)) :
    outcome = .ok () ∧ after.handles = scheme.handles.erase id ∧ Settled after.exchanges ∧
      handedOut after.exchanges = handedOut scheme.exchanges ∧
      askedBack after.exchanges =
        (if handle.fh = 0 then 0 else {handle.host}) + askedBack scheme.exchanges := by
  obtain ⟨nodeid, fh, isDir, writable, path, size, mode, dirEntries⟩ := handle
  simp only [onClose, perform_bind, perform_get, found, perform_modify] at run
  by_cases zero : fh = 0
  · simp only [zero, ne_eq, not_true_eq_false, ↓reduceIte, perform_pure] at run
    cases run
    exact ⟨rfl, rfl, settled, rfl, by simp [zero]⟩
  · have flushed : ∀ reply earlier,
        flushedBefore nodeid fh (⟨.flush nodeid fh, reply⟩ :: earlier) = true := by
      simp [flushedBefore]
    simp only [zero, ne_eq, not_false_eq_true, ↓reduceIte] at run
    cases isDir <;> cases writable <;>
      simp only [perform_bind, perform_attempt, perform_ask, Option.map_some, perform_pure,
        Bool.false_eq_true, not_true_eq_false, not_false_eq_true, and_self, and_false, and_true,
        ↓reduceIte] at run <;>
      cases run <;>
      refine ⟨rfl, rfl, fun _ _ => rfl, ?_, ?_⟩
    -- the rest is the meaning of the one or two exchanges
    all_goals simp [handedOut, handedOutBy, askedBack, flushed, settled nodeid fh, zero,
      Handle.host]

theorem perform_onClose_unknown {id : Nat} {scheme after : VirtioFsScheme}
    {outcome : Except Errno Unit} (absent : scheme.handles.lookup id = none)
    (run : (onClose server id).perform scheme = some (outcome, after)) :
    outcome = .ok () ∧ after = scheme := by
  simp only [onClose, perform_bind, perform_get, absent, perform_pure] at run
  cases run
  exact ⟨rfl, rfl⟩

end Closing

section Balance

/-- What holds between requests. -/
structure Accounted (run : Run) : Prop where
  balance : handedOut run.scheme.exchanges =
    askedBack run.scheme.exchanges + held run.statOnly run.scheme.handles
  settled : Settled run.scheme.exchanges
  unnumbered : ∀ id ∈ run.statOnly, ∀ handle, run.scheme.handles.lookup id = some handle →
    handle.fh = 0

theorem handlesBalanced_of_accounted {run : Run} (accounted : Accounted run) :
    HandlesBalanced run := by
  refine ⟨accounted.balance, ?_⟩
  intro empty
  have nothing : held run.statOnly run.scheme.handles = 0 := by
    rw [empty]
    rfl
  rw [accounted.balance, nothing, add_zero]

variable {server : FuseServer} {run next : Run} {α : Type}

theorem accounted_of_kept {scheme : VirtioFsScheme} (accounted : Accounted run)
    (kept : Kept run.scheme scheme) : Accounted ⟨scheme, run.statOnly⟩ := by
  refine ⟨?_, kept.settled accounted.settled, ?_⟩
  · show handedOut scheme.exchanges = askedBack scheme.exchanges + held run.statOnly scheme.handles
    rw [kept.given, kept.returned, held_congr kept.hosts]
    exact accounted.balance
  · intro id noted handle found
    have same := kept.hosts id
    rw [found, Option.map_some, eq_comm, Option.map_eq_some_iff] at same
    obtain ⟨before, was, host⟩ := same
    have zero := accounted.unnumbered id noted before was
    have number := congrArg HostHandle.fh host
    exact number.symm.trans zero

/-- A request that at most caches something new. -/
theorem accounted_advance_kept {op : Op α} (accounted : Accounted run)
    (keeps : ∀ outcome after, op.perform run.scheme = some (outcome, after) →
      Kept run.scheme after)
    (stepped : run.advance op (fun _ => run.statOnly) = some next) : Accounted next := by
  obtain ⟨⟨outcome, after⟩, ran, same⟩ := Option.map_eq_some_iff.mp stepped
  cases outcome <;> subst same <;> exact accounted_of_kept accounted (keeps _ _ ran)

/-- A request that opens a handle of the host. -/
theorem accounted_advance_opens {op : Op Nat} (accounted : Accounted run) (opens : Opens op)
    (stepped : run.advance op (fun id => run.statOnly.erase id) = some next) : Accounted next := by
  obtain ⟨⟨outcome, after⟩, ran, same⟩ := Option.map_eq_some_iff.mp stepped
  rcases opens _ _ _ ran with ⟨reason, rfl, still⟩ | ⟨id, handle, rfl, opened⟩
  · subst same
    exact accounted_of_kept accounted still.kept
  · subst same
    have unnoted : id ∉ run.statOnly.erase id := by simp
    refine ⟨?_, opened.settled, ?_⟩
    · show handedOut after.exchanges =
        askedBack after.exchanges + held (run.statOnly.erase id) after.handles
      have others : held (run.statOnly.erase id) run.scheme.handles =
          held run.statOnly run.scheme.handles :=
        held_note opened.fresh (by
          intro key apart
          simp [apart])
      rw [opened.given, opened.returned, opened.stored, held_fresh opened.fresh, others, heldAt,
        if_neg unnoted, accounted.balance]
      exact add_left_comm _ _ _
    · intro other noted found lookup
      have apart : other ≠ id := (Finset.mem_erase.mp noted).1
      rw [opened.stored, AList.lookup_insert_ne apart] at lookup
      exact accounted.unnumbered other (Finset.mem_of_mem_erase noted) found lookup

/-- A request that opens a handle for its attributes only. -/
theorem accounted_advance_opensStat {op : Op Nat} (accounted : Accounted run)
    (opens : OpensStat op)
    (stepped : run.advance op (fun id => insert id run.statOnly) = some next) :
    Accounted next := by
  obtain ⟨⟨outcome, after⟩, ran, same⟩ := Option.map_eq_some_iff.mp stepped
  rcases opens _ _ _ ran with
    ⟨reason, rfl, still⟩ | ⟨id, handle, rfl, zero, fresh, given, returned, settled, stored⟩
  · subst same
    exact accounted_of_kept accounted still.kept
  · subst same
    refine ⟨?_, settled accounted.settled, ?_⟩
    · show handedOut after.exchanges =
        askedBack after.exchanges + held (insert id run.statOnly) after.handles
      have others : held (insert id run.statOnly) run.scheme.handles =
          held run.statOnly run.scheme.handles :=
        held_note fresh (by
          intro key apart
          simp [apart])
      rw [given, returned, stored, held_fresh fresh, others, heldAt,
        if_pos (Finset.mem_insert_self id _), zero_add]
      exact accounted.balance
    · intro other noted found lookup
      by_cases here : other = id
      · subst here
        rw [stored, AList.lookup_insert, Option.some.injEq] at lookup
        rw [← lookup]
        exact zero
      · rw [stored, AList.lookup_insert_ne here] at lookup
        exact accounted.unnumbered other (Finset.mem_of_mem_insert_of_ne noted here) found lookup

theorem accounted_onClose {id : Nat} (accounted : Accounted run)
    (avoids : AvoidsSentinel run (.onClose id))
    (stepped : run.step server (.onClose id) = some next) : Accounted next := by
  obtain ⟨⟨outcome, after⟩, ran, same⟩ := Option.map_eq_some_iff.mp stepped
  have notes : ∀ handles : AList fun _ : Nat => Handle, id ∉ handles →
      held (run.statOnly.erase id) handles = held run.statOnly handles := by
    intro handles absent
    apply held_note absent
    intro key apart
    simp [apart]
  cases found : run.scheme.handles.lookup id with
  | none =>
      obtain ⟨rfl, rfl⟩ := perform_onClose_unknown server found ran
      subst same
      refine ⟨?_, accounted.settled, ?_⟩
      · rw [notes _ (AList.lookup_eq_none.mp found)]
        exact accounted.balance
      · intro other noted
        exact accounted.unnumbered other (Finset.mem_of_mem_erase noted)
  | some handle =>
      obtain ⟨rfl, erased, settled, given, returned⟩ :=
        perform_onClose server accounted.settled found ran
      subst same
      have gone : id ∉ run.scheme.handles.erase id := by
        rw [AList.mem_erase]
        exact fun both => both.1 rfl
      have balance := accounted.balance
      rw [held_lookup found, heldAt] at balance
      refine ⟨?_, settled, ?_⟩
      · show handedOut after.exchanges =
          askedBack after.exchanges + held (run.statOnly.erase id) after.handles
        rw [given, returned, erased, notes _ gone, balance]
        by_cases noted : id ∈ run.statOnly
        · have zero := accounted.unnumbered id noted handle found
          rw [if_pos noted, if_pos zero, zero_add, zero_add]
        · have number := avoids noted handle found
          rw [if_neg noted, if_neg number]
          exact add_left_comm _ _ _ |>.trans (add_assoc _ _ _).symm
      · intro other noted later lookup
        have apart : other ≠ id := (Finset.mem_erase.mp noted).1
        rw [erased, AList.lookup_erase_ne apart] at lookup
        exact accounted.unnumbered other (Finset.mem_of_mem_erase noted) later lookup

theorem accounted_step {request : Request} (accounted : Accounted run)
    (avoids : AvoidsSentinel run request) (stepped : run.step server request = some next) :
    Accounted next := by
  cases request with
  | schemeRoot => exact accounted_advance_opens accounted (opens_schemeRoot server) stepped
  | openat dirfd path flags =>
      by_cases create : flags &&& O_CREAT ≠ 0
      · have real : ¬ flags &&& O_STAT = O_STAT := fun stat => avoids ⟨create, stat⟩
        have opens : Opens (openat server dirfd path flags) := by
          apply opens_bind quiet_get
          intro scheme
          dsimp only
          rw [if_pos create]
          exact opens_openCreate server _ flags
        simp only [Run.step, if_neg real] at stepped
        exact accounted_advance_opens accounted opens stepped
      · by_cases stat : flags &&& O_STAT = O_STAT
        · have opens : OpensStat (openat server dirfd path flags) := by
            apply opensStat_bind quiet_get
            intro scheme
            dsimp only
            rw [if_neg create]
            exact opensStat_openExisting server _ flags stat
          simp only [Run.step, if_pos stat] at stepped
          exact accounted_advance_opensStat accounted opens stepped
        · have opens : Opens (openat server dirfd path flags) := by
            apply opens_bind quiet_get
            intro scheme
            dsimp only
            rw [if_neg create]
            exact opens_openExisting server _ flags stat
          simp only [Run.step, if_neg stat] at stepped
          exact accounted_advance_opens accounted opens stepped
  | read id length offset =>
      exact accounted_advance_kept accounted
        (fun _ _ ran => (quiet_read server id length offset _ _ _ ran).kept) stepped
  | write id data offset =>
      exact accounted_advance_kept accounted (fun _ _ ran => kept_write server ran) stepped
  | ftruncate id length =>
      exact accounted_advance_kept accounted (fun _ _ ran => kept_ftruncate server ran) stepped
  | getdents id buf capacity opaqueOffset =>
      exact accounted_advance_kept accounted (fun _ _ ran => kept_getdents server ran) stepped
  | unlinkat fd path =>
      exact accounted_advance_kept accounted
        (fun _ _ ran => (quiet_unlinkat server fd path _ _ _ ran).kept) stepped
  | onClose id => exact accounted_onClose accounted avoids stepped

theorem accounted_new (effectiveMaxIo : Nat) : Accounted (Run.new effectiveMaxIo) := by
  refine ⟨rfl, fun _ _ => rfl, ?_⟩
  intro id noted
  cases noted

/-- Whatever the host answers, the handles balance after every request of a run in which
no request creates with `O_STAT` or closes a handle with the number zero. -/
theorem handles_balanced (server : FuseServer) (effectiveMaxIo : Nat) (requests : List Request)
    (avoids : StepRuns.EachMeets (Run.step server) AvoidsSentinel (Run.new effectiveMaxIo)
      requests) :
    StepRuns.Throughout (Run.step server) HandlesBalanced (Run.new effectiveMaxIo) requests := by
  have accounted := StepRuns.throughout_of_eachMeets
    (fun run request next holds meets stepped => accounted_step holds meets stepped)
    (accounted_new effectiveMaxIo) avoids
  intro done rest reached split ran
  exact handlesBalanced_of_accounted (accounted done rest reached split ran)

end Balance

/-- A host with one regular file, which it opens under the given number. -/
def fileServer (fh : UInt64) : FuseServer := fun _ request =>
  match request with
  | .lookup .. => .ok ⟨2, ⟨0o100644, 5⟩⟩
  | .getattr .. => .ok ⟨0o100644, 5⟩
  | .open .. => .ok fh
  | .flush .. | .release .. => .ok ()
  | _ => .error (.fuseError (-38))

/-- Open the file to write to it, and close it. -/
def openAndClose : List Request :=
  [.openat 0 "f".toList (O_RDONLY ||| O_WRONLY), .onClose 1]

/-- The run between the two requests. -/
def fileOpen (fh : UInt64) : Run where
  scheme :=
    { effectiveMaxIo := 4096
      nextId := 2
      handles := AList.singleton 1 ⟨2, fh, false, true, "f".toList, 5, 0o100644, none⟩
      exchanges := [⟨.open 2 2, .ok fh⟩, ⟨.getattr 2, .ok ⟨0o100644, 5⟩⟩,
        ⟨.lookup 1 "f".toList, .ok ⟨2, ⟨0o100644, 5⟩⟩⟩] }
  statOnly := ∅

theorem step_openat_file (fh : UInt64) :
    (Run.new 4096).step (fileServer fh) (.openat 0 "f".toList (O_RDONLY ||| O_WRONLY)) =
      some (fileOpen fh) := rfl

theorem file_balanced :
    StepRuns.Throughout (Run.step (fileServer 9)) HandlesBalanced (Run.new 4096) openAndClose := by
  apply handles_balanced
  rw [openAndClose, StepRuns.eachMeets_cons]
  refine ⟨fun both => absurd both.1 (by decide), ?_⟩
  intro next stepped
  rw [step_openat_file, Option.some.injEq] at stepped
  subst stepped
  rw [StepRuns.eachMeets_cons]
  refine ⟨?_, fun _ _ => StepRuns.eachMeets_nil⟩
  intro _ handle found
  have same : some (⟨2, 9, false, true, "f".toList, 5, 0o100644, none⟩ : Handle) = some handle :=
    found
  cases same
  decide

/-- A file that the host opens under number zero is never released. -/
theorem zero_handle_leaks :
    ¬ ∀ (server : FuseServer) (effectiveMaxIo : Nat) (requests : List Request),
        StepRuns.Throughout (Run.step server) HandlesBalanced (Run.new effectiveMaxIo)
          requests := by
  intro always
  let closed : Run := ⟨{ (fileOpen 0).scheme with handles := ∅ }, ∅⟩
  have ran : StepRuns.runAll (Run.step (fileServer 0)) (Run.new 4096) openAndClose =
      some closed := rfl
  have balance := (always (fileServer 0) 4096 openAndClose openAndClose [] closed
    (List.append_nil _) ran).drained rfl
  have none : askedBack closed.scheme.exchanges = 0 := rfl
  have one : Multiset.card (handedOut closed.scheme.exchanges) = 1 := by
    simp [closed, fileOpen, handedOut, handedOutBy]
  rw [balance, none] at one
  cases one

end NixRedox.VirtioFs
