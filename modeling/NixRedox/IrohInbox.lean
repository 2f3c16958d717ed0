import NixRedox.IrohBridge
import NixRedox.StepRuns
import NixRedox.Text

set_option autoImplicit false

/- Reading the messages of a peer through the scheme of `irohd`: the handles of
`peers/<name>` and `peers/<id>`, and the queues that `accept_loop` fills. -/
namespace NixRedox.IrohInbox

open Irohd (maxMessage readToEnd)

abbrev Text := List Char

section Scheme

structure PeerHandle where
  peerName : Text
  nodeId : Text
  schemePath : Text

structure BlobHandle where
  identifier : Text
  data : List UInt8
  fetched : Bool
  schemePath : Text

structure DirHandle where
  schemePath : Text
  dirType : Text

inductive Handle where
  | node (nodeId : Text)
  | peer (handle : PeerHandle)
  | blob (handle : BlobHandle)
  | ticket (handle : BlobHandle)
  | control
  | dir (handle : DirHandle)

inductive Errno where
  | enoent
  | enotdir
  | ebadf
  | eacces
  | eio
  deriving DecidableEq, Repr

/-- `IrohSchemeHandler`, with the queues it shares with `accept_loop`. -/
structure Handler where
  handles : Nat → Option Handle
  nextId : Nat
  nodeId : Text
  peers : Text → Option Text
  peersReverse : Text → Option Text
  inbox : Text → List (List UInt8)

/-- `peersReverse` has one of the names of every id: which one depends on the order of the
peer table. -/
def Handler.new (nodeId : Text) (peers peersReverse : Text → Option Text) : Handler where
  handles := fun _ => none
  nextId := 0
  nodeId := nodeId
  peers := peers
  peersReverse := peersReverse
  inbox := fun _ => []

def isAsciiHexdigit (c : Char) : Bool :=
  c.isDigit || ('a' ≤ c && c ≤ 'f') || ('A' ≤ c && c ≤ 'F')

/-- The name and the node id that a word after `peers/` stands for. -/
def Handler.resolvePeer (handler : Handler) (nameOrId : Text) : Option (Text × Text) :=
  match handler.peers nameOrId with
  | some nodeId => some (nameOrId, nodeId)
  | none =>
      if Text.byteLength nameOrId = 64 ∧ nameOrId.all isAsciiHexdigit = true then
        some ((handler.peersReverse nameOrId).getD nameOrId, nameOrId)
      else
        none

def Handler.alloc (handler : Handler) (handle : Handle) : Handler × Nat :=
  ({ handler with
      handles := Function.update handler.handles handler.nextId (some handle)
      nextId := handler.nextId + 1 }, handler.nextId)

def Handler.openat (handler : Handler) (path : Text) (directory : Bool) :
    Except Errno (Handler × Nat) :=
  let path := Text.trimMatches path
  if path = [] then
    .ok (handler.alloc (.dir ⟨[], "root".toList⟩))
  else if path = "node".toList then
    .ok (handler.alloc (.node handler.nodeId))
  else if path = ".control".toList then
    .ok (handler.alloc .control)
  else if path = "peers".toList then
    .ok (handler.alloc (.dir ⟨path, "peers".toList⟩))
  else if path = "blobs".toList then
    .ok (handler.alloc (.dir ⟨path, "blobs".toList⟩))
  else if "peers/".toList.isPrefixOf path then
    match handler.resolvePeer (path.drop "peers/".toList.length) with
    | none => .error .enoent
    | some (peerName, nodeId) =>
        if directory then
          .error .enotdir
        else
          .ok (handler.alloc (.peer ⟨peerName, nodeId, path⟩))
  else if "blobs/".toList.isPrefixOf path then
    .ok (handler.alloc (.blob ⟨path.drop "blobs/".toList.length, [], false, path⟩))
  else if "tickets/".toList.isPrefixOf path then
    .ok (handler.alloc (.ticket ⟨path.drop "tickets/".toList.length, [], false, path⟩))
  else
    .error .enoent

/-- What a read of `data` at an offset puts into a buffer. -/
def readAt (data : List UInt8) (offset size : Nat) : List UInt8 :=
  if offset ≥ data.length then [] else (data.drop offset).take size

/-- A read of a blob; `fetched` is what the bridge answers if it is asked, none for an error. -/
def readBlob (handle : BlobHandle) (fetched : Option (List UInt8)) (offset size : Nat) :
    Except Errno (BlobHandle × List UInt8) :=
  if handle.fetched then
    .ok (handle, readAt handle.data offset size)
  else
    match fetched with
    | none => .error .eio
    | some data => .ok ({ handle with data := data, fetched := true }, readAt data offset size)

/-- The bytes that a read puts into a buffer of the given size. -/
def Handler.read (handler : Handler) (id size offset : Nat) (fetched : Option (List UInt8)) :
    Except Errno (Handler × List UInt8) :=
  match handler.handles id with
  | some (.node nodeId) =>
      .ok (handler, readAt (String.ofList nodeId).toUTF8.toList offset size)
  | some (.peer handle) =>
      match handler.inbox handle.nodeId with
      | [] => .ok (handler, [])
      | message :: queue =>
          .ok ({ handler with inbox := Function.update handler.inbox handle.nodeId queue },
            message.take (min message.length size))
  | some (.blob handle) => do
      let (handle, bytes) ← readBlob handle fetched offset size
      return ({ handler with
        handles := Function.update handler.handles id (some (.blob handle)) }, bytes)
  | some (.ticket handle) => do
      let (handle, bytes) ← readBlob handle fetched offset size
      return ({ handler with
        handles := Function.update handler.handles id (some (.ticket handle)) }, bytes)
  | some .control => .error .eacces
  | some (.dir _) => .error .ebadf
  | none => .error .ebadf

/-- What `accept_loop` does with a stream of the node with this id: with the message that it
pushes, if it pushes one. -/
def Handler.accept (handler : Handler) (peerId : Text) (stream : List UInt8) :
    Handler × List (List UInt8) :=
  match readToEnd maxMessage stream with
  | .error _ => (handler, [])
  | .ok buf =>
      if buf ≠ [] then
        ({ handler with
          inbox := Function.update handler.inbox peerId (handler.inbox peerId ++ [buf]) }, [buf])
      else
        (handler, [])

end Scheme

section Readers

/-- The ids of nodes: hexadecimal digits of either case are accepted, lowercase ones printed. -/
structure NodeIds (Node : Type) where
  fromStr : Text → Option Node
  display : Node → Text
  lowercase : ∀ node, (display node).length = 64 ∧
    ∀ digit ∈ display node, digit.isDigit = true ∨ 'a' ≤ digit ∧ digit ≤ 'f'
  eitherCase : ∀ node text, text.map Char.toLower = display node → fromStr text = some node

/-- The scheme with what a node has sent and what its readers have got. -/
structure Session where
  handler : Handler
  /-- The messages of the node that were pushed. -/
  received : List (List UInt8)
  /-- The bytes that the reads have returned. -/
  returned : List UInt8
  /-- What the last event returned, if it was a read that returned. -/
  answer : Option (List UInt8)

inductive Event where
  | stream (bytes : List UInt8)
  | openName
  | openId
  | read (id size offset : Nat)

variable {Node : Type} (ids : NodeIds Node) (node : Node) (name id : Text)

def Session.openat (session : Session) (word : Text) : Session :=
  match session.handler.openat ("peers/".toList ++ word) false with
  | .error _ => { session with answer := none }
  | .ok (handler, _) => { session with handler := handler, answer := none }

/-- The readers open `peers/<name>` and `peers/<id>`; no blob is fetched for them. -/
def Session.step (session : Session) : Event → Option Session
  | .stream bytes =>
      let (handler, pushed) := session.handler.accept (ids.display node) bytes
      some { session with
        handler := handler, received := session.received ++ pushed, answer := none }
  | .openName => some (session.openat name)
  | .openId => some (session.openat id)
  | .read handle size offset =>
      match session.handler.read handle size offset none with
      | .error _ => some { session with answer := none }
      | .ok (handler, bytes) =>
          some { session with
            handler := handler, returned := session.returned ++ bytes, answer := some bytes }

def Session.new (nodeId : Text) (peers peersReverse : Text → Option Text) : Session :=
  ⟨Handler.new nodeId peers peersReverse, [], [], none⟩

/-- The reads have returned the first bytes of what was received, and a read that returned
nothing found nothing left. -/
structure Complete (session : Session) : Prop where
  inOrder : session.returned <+: session.received.flatten
  exhausted : session.answer = some [] → session.returned = session.received.flatten

/-- A read of a peer while a message of the node waits has the node's queue under the handle's
node id, and room for that message. -/
def Fitting (session : Session) : Event → Prop
  | .read handle size _ => ∀ peer, session.handler.handles handle = some (.peer peer) →
      ∀ message, (session.handler.inbox (ids.display node)).head? = some message →
        peer.nodeId = ids.display node ∧ message.length ≤ size
  | _ => True

end Readers

section Opening

theorem trimEnd_append (front back : List Char) :
    Text.trimEnd (front ++ back) =
      if Text.trimEnd back = [] then Text.trimEnd front else front ++ Text.trimEnd back := by
  unfold Text.trimEnd List.rdropWhile
  rw [List.reverse_append, List.dropWhile_append]
  by_cases blank : back.reverse.dropWhile (fun c => decide (c = '/')) = []
  · simp [blank]
  · simp [blank, List.isEmpty_iff]

/-- A path below `peers/` is the directory itself when only slashes follow. -/
theorem trimMatches_peers (word : Text) : Text.trimMatches ("peers/".toList ++ word) =
    if Text.trimEnd word = [] then "peers".toList
    else "peers/".toList ++ Text.trimEnd word := by
  have start : Text.trimStart ("peers/".toList ++ word) = "peers/".toList ++ word := rfl
  have directory : Text.trimEnd "peers/".toList = "peers".toList := by decide
  rw [Text.trimMatches, start, trimEnd_append, directory]

theorem openat_directory (handler : Handler) {word : Text} (directory : Bool)
    (slashes : Text.trimEnd word = []) :
    handler.openat ("peers/".toList ++ word) directory =
      .ok (handler.alloc (.dir ⟨"peers".toList, "peers".toList⟩)) := by
  unfold Handler.openat
  rw [trimMatches_peers, if_pos slashes]
  rfl

/-- A path below `peers/` stands for what the word without slashes at its end resolves to. -/
theorem openat_word (handler : Handler) {word : Text} (some_word : Text.trimEnd word ≠ []) :
    handler.openat ("peers/".toList ++ word) false =
      match handler.resolvePeer (Text.trimEnd word) with
      | none => .error .enoent
      | some (peerName, nodeId) =>
          .ok (handler.alloc (.peer ⟨peerName, nodeId, "peers/".toList ++ Text.trimEnd word⟩)) := by
  unfold Handler.openat
  rw [trimMatches_peers, if_neg some_word]
  simp

end Opening

section Steps

variable {Node : Type} {ids : NodeIds Node} {node : Node} {name id : Text}
  {session after : Session}

/-- Nothing is lost between the queue of the node and its readers. -/
structure Sound (ids : NodeIds Node) (node : Node) (session : Session) : Prop where
  opened : ∀ index handle, session.handler.handles index = some handle →
    (∃ peer, handle = .peer peer) ∨ ∃ dir, handle = .dir dir
  others : ∀ key, key ≠ ids.display node → session.handler.inbox key = []
  nonempty : ∀ message ∈ session.handler.inbox (ids.display node), message ≠ []
  whole : session.returned ++ (session.handler.inbox (ids.display node)).flatten =
    session.received.flatten
  exhausted : session.answer = some [] → session.handler.inbox (ids.display node) = []

theorem complete_of_sound (sound : Sound ids node session) : Complete session where
  inOrder := ⟨_, sound.whole⟩
  exhausted := by
    intro nothing
    have whole := sound.whole
    rw [sound.exhausted nothing, List.flatten_nil, List.append_nil] at whole
    exact whole

theorem sound_new (nodeId : Text) (peers peersReverse : Text → Option Text) :
    Sound ids node (Session.new nodeId peers peersReverse) where
  opened := by
    intro index handle found
    cases found
  others := by
    intro key _
    rfl
  nonempty := by
    intro message waiting
    cases waiting
  whole := rfl
  exhausted := by
    intro nothing
    cases nothing

theorem sound_stream (sound : Sound ids node session) (bytes : List UInt8)
    (stepped : session.step ids node name id (.stream bytes) = some after) :
    Sound ids node after := by
  cases stepped
  cases readToEnd maxMessage bytes with
  | error e =>
      refine { sound with whole := ?_, exhausted := ?_ }
      · dsimp only
        rw [List.append_nil]
        exact sound.whole
      · intro nothing
        cases nothing
  | ok buf =>
      dsimp only
      split
      · rename_i some_bytes
        refine { sound with others := ?_, nonempty := ?_, whole := ?_, exhausted := ?_ }
        · intro key other
          dsimp only
          rw [Function.update_of_ne other]
          exact sound.others key other
        · intro message waiting
          dsimp only at waiting
          rw [Function.update_self, List.mem_append, List.mem_singleton] at waiting
          cases waiting with
          | inl earlier => exact sound.nonempty message earlier
          | inr last =>
              rw [last]
              exact some_bytes
        · dsimp only
          rw [Function.update_self, List.flatten_append, List.flatten_append, ← List.append_assoc,
            sound.whole]
        · intro nothing
          cases nothing
      · refine { sound with whole := ?_, exhausted := ?_ }
        · dsimp only
          rw [List.append_nil]
          exact sound.whole
        · intro nothing
          cases nothing

theorem sound_alloc (sound : Sound ids node session) {handle : Handle}
    (kind : (∃ peer, handle = .peer peer) ∨ ∃ dir, handle = .dir dir) :
    Sound ids node { session with
      handler := (session.handler.alloc handle).1, answer := none } where
  opened := by
    intro index other found
    by_cases same : index = session.handler.nextId
    · subst same
      simp only [Handler.alloc, Function.update_self, Option.some.injEq] at found
      rw [← found]
      exact kind
    · simp only [Handler.alloc, Function.update_of_ne same] at found
      exact sound.opened index other found
  others := sound.others
  nonempty := sound.nonempty
  whole := sound.whole
  exhausted := by
    intro nothing
    cases nothing

theorem sound_open (sound : Sound ids node session) (word : Text) :
    Sound ids node (session.openat word) := by
  unfold Session.openat
  by_cases slashes : Text.trimEnd word = []
  · rw [openat_directory session.handler false slashes]
    exact sound_alloc sound (.inr ⟨_, rfl⟩)
  · rw [openat_word session.handler slashes]
    cases session.handler.resolvePeer (Text.trimEnd word) with
    | none =>
        refine { sound with exhausted := ?_ }
        intro nothing
        cases nothing
    | some resolved => exact sound_alloc sound (.inl ⟨_, rfl⟩)

/-- A read has taken a message from a queue. -/
def Session.pop (session : Session) (key : Text) (queue : List (List UInt8))
    (bytes : List UInt8) : Session :=
  { session with
    handler := { session.handler with inbox := Function.update session.handler.inbox key queue }
    returned := session.returned ++ bytes
    answer := some bytes }

theorem step_message {handle size offset : Nat} {peer : PeerHandle} {message : List UInt8}
    {queue : List (List UInt8)}
    (opened : session.handler.handles handle = some (.peer peer))
    (waiting : session.handler.inbox peer.nodeId = message :: queue) :
    session.step ids node name id (.read handle size offset) =
      some (session.pop peer.nodeId queue (message.take (min message.length size))) := by
  simp only [Session.step, Handler.read, opened, waiting, Session.pop]

theorem step_nothing {handle size offset : Nat} {peer : PeerHandle}
    (opened : session.handler.handles handle = some (.peer peer))
    (waiting : session.handler.inbox peer.nodeId = []) :
    session.step ids node name id (.read handle size offset) =
      some { session with answer := some [] } := by
  simp only [Session.step, Handler.read, opened, waiting, List.append_nil]

theorem sound_message (sound : Sound ids node session) {message : List UInt8}
    {queue : List (List UInt8)}
    (waiting : session.handler.inbox (ids.display node) = message :: queue) :
    Sound ids node (session.pop (ids.display node) queue message) where
  opened := sound.opened
  others := by
    intro key other
    unfold Session.pop
    dsimp only
    rw [Function.update_of_ne other]
    exact sound.others key other
  nonempty := by
    intro later inside
    simp only [Session.pop, Function.update_self] at inside
    apply sound.nonempty later
    rw [waiting]
    exact List.mem_cons_of_mem message inside
  whole := by
    have whole := sound.whole
    rw [waiting, List.flatten_cons, ← List.append_assoc] at whole
    simp only [Session.pop, Function.update_self]
    exact whole
  exhausted := by
    intro nothing
    have blank : message = [] := Option.some.inj nothing
    refine absurd blank (sound.nonempty message ?_)
    rw [waiting]
    exact List.mem_cons_self

theorem sound_read {handle size offset : Nat} (sound : Sound ids node session)
    (fitting : Fitting ids node session (.read handle size offset))
    (stepped : session.step ids node name id (.read handle size offset) = some after) :
    Sound ids node after := by
  have failed : Sound ids node { session with answer := none } := by
    refine { sound with exhausted := ?_ }
    intro nothing
    cases nothing
  cases found : session.handler.handles handle with
  | none =>
      simp only [Session.step, Handler.read, found, Option.some.injEq] at stepped
      rw [← stepped]
      exact failed
  | some opened =>
      obtain ⟨peer, rfl⟩ | ⟨dir, rfl⟩ := sound.opened handle opened found
      · have fits := fitting peer found
        cases queue : session.handler.inbox peer.nodeId with
        | nil =>
            rw [step_nothing found queue] at stepped
            cases stepped
            refine { sound with exhausted := ?_ }
            intro _
            cases pending : session.handler.inbox (ids.display node) with
            | nil => rfl
            | cons message rest =>
                rw [pending] at fits
                rw [(fits message rfl).1, pending] at queue
                cases queue
        | cons message rest =>
            rw [step_message found queue] at stepped
            cases stepped
            have spelled : peer.nodeId = ids.display node := by
              apply Classical.byContradiction
              intro other
              rw [sound.others peer.nodeId other] at queue
              cases queue
            rw [spelled] at queue ⊢
            rw [queue] at fits
            rw [Nat.min_eq_left (fits message rfl).2, List.take_length]
            exact sound_message sound queue
      · simp only [Session.step, Handler.read, found, Option.some.injEq] at stepped
        rw [← stepped]
        exact failed

end Steps

section Runs

variable {Node : Type} (ids : NodeIds Node) (node : Node)

/-- Readers get the messages completely when each read that finds one waiting goes to the
queue under the printed id and has room for it. -/
theorem peerReads_complete (nodeId : Text) (peers peersReverse : Text → Option Text)
    (name id : Text) (events : List Event)
    (fitting : StepRuns.EachMeets (Session.step ids node name id) (Fitting ids node)
      (Session.new nodeId peers peersReverse) events) :
    StepRuns.Throughout (Session.step ids node name id) Complete
      (Session.new nodeId peers peersReverse) events := by
  have keeps : ∀ session event after, Sound ids node session → Fitting ids node session event →
      session.step ids node name id event = some after → Sound ids node after := by
    intro session event after sound fits stepped
    cases event with
    | stream bytes => exact sound_stream sound bytes stepped
    | openName =>
        cases stepped
        exact sound_open sound name
    | openId =>
        cases stepped
        exact sound_open sound id
    | read handle size offset => exact sound_read sound fits stepped
  have always := StepRuns.throughout_of_eachMeets keeps (sound_new nodeId peers peersReverse)
    fitting
  intro done rest reached split run
  exact complete_of_sound (always done rest reached split run)

/-- Node ids as their 64 lowercase digits. -/
def Lowercase (text : Text) : Prop :=
  text.length = 64 ∧ ∀ digit ∈ text, digit.isDigit = true ∨ 'a' ≤ digit ∧ digit ≤ 'f'

instance (text : Text) : Decidable (Lowercase text) := instDecidableAnd

def hexIds : NodeIds { text : Text // Lowercase text } where
  fromStr := fun text =>
    if lower : Lowercase (text.map Char.toLower) then some ⟨text.map Char.toLower, lower⟩ else none
  display := Subtype.val
  lowercase := fun node => node.property
  eitherCase := by
    intro node text same
    have lower : Lowercase (text.map Char.toLower) := by
      rw [same]
      exact node.property
    rw [dif_pos lower]
    exact congrArg some (Subtype.ext same)

def someNode : { text : Text // Lowercase text } where
  val := List.replicate 64 'a'
  property := by
    refine ⟨List.length_replicate, ?_⟩
    intro digit inside
    rw [List.eq_of_mem_replicate inside]
    decide

/-- A peer table with one entry. -/
def oneEntry (name id : Text) : Text → Option Text := fun key =>
  if key = name then some id else none

theorem bob_complete :
    StepRuns.Throughout
      (Session.step hexIds someNode "bob".toList (List.replicate 64 'a')) Complete
      (Session.new [] (oneEntry "bob".toList (List.replicate 64 'a'))
        (oneEntry (List.replicate 64 'a') "bob".toList))
      [.stream [1, 2], .openName, .read 0 2 0] := by
  apply peerReads_complete
  rw [StepRuns.eachMeets_cons]
  refine ⟨trivial, ?_⟩
  intro sent stepped
  cases stepped
  rw [StepRuns.eachMeets_cons]
  refine ⟨trivial, ?_⟩
  intro opened stepped
  cases stepped
  rw [StepRuns.eachMeets_cons]
  refine ⟨?_, fun _ _ => StepRuns.eachMeets_nil⟩
  intro peer opened message first
  cases opened
  cases first
  exact ⟨rfl, by decide⟩

/-- An id in capital letters leads to a queue of its own, and a message longer than the buffer
is cut. -/
theorem bob_incomplete :
    hexIds.fromStr (List.replicate 64 'A') = some someNode ∧
      ¬ StepRuns.Throughout
        (Session.step hexIds someNode "bob".toList (List.replicate 64 'A')) Complete
        (Session.new [] (oneEntry "bob".toList (List.replicate 64 'A'))
          (oneEntry (List.replicate 64 'A') "bob".toList))
        [.stream [1, 2], .openName, .read 0 2 0] ∧
      ¬ StepRuns.Throughout
        (Session.step hexIds someNode "bob".toList (List.replicate 64 'a')) Complete
        (Session.new [] (oneEntry "bob".toList (List.replicate 64 'a'))
          (oneEntry (List.replicate 64 'a') "bob".toList))
        [.stream [1, 2], .openName, .read 0 1 0, .read 0 1 0] := by
  refine ⟨?_, ?_, ?_⟩
  · apply hexIds.eitherCase someNode
    rw [List.map_replicate]
    rfl
  · intro always
    have complete := always _ [] _ (List.append_nil _) rfl
    exact absurd (complete.exhausted rfl) (by decide)
  · intro always
    have complete := always _ [] _ (List.append_nil _) rfl
    exact absurd (complete.exhausted rfl) (by decide)

/-- Bytes of the node that no read can return any more. -/
def Short (session : Session) : Prop :=
  session.returned.length + (session.handler.inbox (ids.display node)).flatten.length <
    session.received.flatten.length

variable {ids node}

/-- After a read that takes less than a message, bytes are missing. -/
theorem short_pop {session : Session} {bytes : List UInt8} {queue : List (List UInt8)}
    (less : session.returned.length + (bytes.length + queue.flatten.length) <
      session.received.flatten.length) :
    Short ids node (session.pop (ids.display node) queue bytes) := by
  simp only [Short, Session.pop, Function.update_self, List.length_append]
  omega

/-- The reads that empty the queue end with one that returns nothing. -/
theorem short_incomplete {name id : Text} {handle : Nat} {peer : PeerHandle}
    (spelled : peer.nodeId = ids.display node) {queue : List (List UInt8)} {session : Session}
    (opened : session.handler.handles handle = some (.peer peer))
    (waiting : session.handler.inbox (ids.display node) = queue)
    (short : Short ids node session) :
    ∃ reads reached, StepRuns.runAll (Session.step ids node name id) session reads = some reached ∧
      ¬ Complete reached := by
  induction queue generalizing session with
  | nil =>
      have stepped := @step_nothing _ ids node name id session handle 1 0 peer opened
        (by rw [spelled, waiting])
      refine ⟨[.read handle 1 0], _, by rw [StepRuns.runAll, stepped]; rfl, ?_⟩
      intro complete
      have all : session.returned = session.received.flatten := complete.exhausted rfl
      unfold Short at short
      rw [all, waiting] at short
      exact absurd short (Nat.lt_irrefl _)
  | cons message rest ih =>
      have stepped := @step_message _ ids node name id session handle 1 0 peer message rest opened
        (by rw [spelled, waiting])
      rw [spelled] at stepped
      have shorter : Short ids node (session.pop (ids.display node) rest
          (message.take (min message.length 1))) := by
        apply short_pop
        unfold Short at short
        rw [waiting, List.flatten_cons, List.length_append] at short
        rw [List.length_take]
        omega
      obtain ⟨reads, reached, run, incomplete⟩ :=
        @ih (session.pop (ids.display node) rest (message.take (min message.length 1))) opened
          (Function.update_self _ _ _) shorter
      refine ⟨.read handle 1 0 :: reads, reached, ?_, incomplete⟩
      rw [StepRuns.runAll, stepped]
      exact run

/-- A read that does not fit loses bytes: it returns nothing although a message waits, or the
reads after it do. -/
theorem unfitting_incomplete {name id : Text} {session : Session} {handle size offset : Nat}
    (sound : Sound ids node session)
    (unfitting : ¬ Fitting ids node session (.read handle size offset)) :
    ∃ reads reached, StepRuns.runAll (Session.step ids node name id) session
      (.read handle size offset :: reads) = some reached ∧ ¬ Complete reached := by
  unfold Fitting at unfitting
  push Not at unfitting
  obtain ⟨peer, opened, message, first, wrong⟩ := unfitting
  obtain ⟨rest, queue⟩ := List.head?_eq_some_iff.mp first
  have whole := congrArg List.length sound.whole
  have some_bytes : message ≠ [] := by
    apply sound.nonempty message
    rw [queue]
    exact List.mem_cons_self
  rw [List.length_append, queue, List.flatten_cons, List.length_append] at whole
  by_cases spelled : peer.nodeId = ids.display node
  · have truncated := wrong spelled
    have stepped := @step_message _ ids node name id session handle size offset peer message rest
      opened (by rw [spelled, queue])
    rw [spelled] at stepped
    have short : Short ids node (session.pop (ids.display node) rest
        (message.take (min message.length size))) := by
      apply short_pop
      rw [List.length_take]
      omega
    obtain ⟨reads, reached, run, incomplete⟩ :=
      @short_incomplete _ ids node name id handle peer spelled rest
        (session.pop (ids.display node) rest (message.take (min message.length size))) opened
        (Function.update_self _ _ _) short
    refine ⟨reads, reached, ?_, incomplete⟩
    rw [StepRuns.runAll, stepped]
    exact run
  · have stepped := @step_nothing _ ids node name id session handle size offset peer opened
      (sound.others peer.nodeId spelled)
    refine ⟨[], _, by rw [StepRuns.runAll, stepped]; rfl, ?_⟩
    intro complete
    have all : session.returned = session.received.flatten := complete.exhausted rfl
    have more := List.length_pos_iff.mpr some_bytes
    rw [all] at whole
    omega

end Runs

end NixRedox.IrohInbox
