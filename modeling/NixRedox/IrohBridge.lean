import Mathlib

set_option autoImplicit false

/- Messages between two nodes of `irohd`: `send_message` on one side, the tasks of
`accept_loop` on the other. Awaited operations complete or fail. -/
namespace NixRedox.Irohd

/-- The responses to `BridgeRequest::SendMessage`. -/
inductive BridgeResponse where
  | ok
  | error (text : String)
  deriving DecidableEq, Repr

/-- The size limit of `accept_loop`. -/
def maxMessage : Nat := 1024 * 1024

/-- What `send_message` awaits next. -/
inductive SendStage where
  | connecting
  | opening
  | writing
  | finishing
  | awaitingAck
  | answered (response : BridgeResponse)
  deriving DecidableEq, Repr

/-- What the task of a connection does next. -/
inductive AcceptStage where
  | incoming
  | accepting (peerId : String)
  | reading (peerId : String)
  | pushing (peerId : String) (buf : List UInt8)
  | acking (peerId : String)
  | ended
  deriving DecidableEq, Repr

/-- One call of `send_message` with its connection. -/
structure Exchange where
  nodeIdHex : String
  data : List UInt8
  sender : SendStage
  receiver : AcceptStage
  /-- The stream exists. -/
  opened : Bool
  /-- The whole message is in the stream, and its end. -/
  finished : Bool
  /-- The receiver has accepted the stream. -/
  taken : Bool
  /-- The receiver's read of the stream failed. -/
  readFailed : Bool
  /-- The receiver has finished or dropped its side of the stream. -/
  ackClosed : Bool

def Exchange.begin (nodeIdHex : String) (parsed : Except String Unit) (data : List UInt8) :
    Exchange where
  nodeIdHex := nodeIdHex
  data := data
  sender :=
    match parsed with
    | .ok _ => .connecting
    | .error e => .answered (.error ("invalid node ID: " ++ e))
  receiver := .incoming
  opened := false
  finished := false
  taken := false
  readFailed := false
  ackClosed := false

/-- `send_message` goes on with the result of what it awaits. A read of the ack can only
complete when the other side is closed. -/
def Exchange.send (exchange : Exchange) (result : Except String Unit) : Option Exchange :=
  match exchange.sender, result with
  | .connecting, .ok _ => some { exchange with sender := .opening }
  | .connecting, .error e =>
      some { exchange with
        sender := .answered (.error ("connect to " ++ exchange.nodeIdHex ++ ": " ++ e)) }
  | .opening, .ok _ => some { exchange with sender := .writing, opened := true }
  | .opening, .error e =>
      some { exchange with sender := .answered (.error ("open stream: " ++ e)) }
  | .writing, .ok _ => some { exchange with sender := .finishing }
  | .writing, .error e => some { exchange with sender := .answered (.error ("send: " ++ e)) }
  | .finishing, .ok _ => some { exchange with sender := .awaitingAck, finished := true }
  | .finishing, .error e => some { exchange with sender := .answered (.error ("finish: " ++ e)) }
  | .awaitingAck, .ok _ =>
      if exchange.ackClosed then some { exchange with sender := .answered .ok } else none
  | .awaitingAck, .error _ => some { exchange with sender := .answered .ok }
  | .answered _, _ => none

/-- The incoming connection is established, with the node it comes from if that is known. -/
def Exchange.establish (exchange : Exchange) (remoteNodeId : Except String (Option String)) :
    Option Exchange :=
  match exchange.receiver, remoteNodeId with
  | .incoming, .ok id => some { exchange with receiver := .accepting (id.getD "unknown") }
  | .incoming, .error _ => some { exchange with receiver := .ended }
  | _, _ => none

/-- `read_to_end` of a stream that ends. -/
def readToEnd (limit : Nat) (bytes : List UInt8) : Except String (List UInt8) :=
  if bytes.length ≤ limit then .ok bytes else .error "stream too long"

/-- The task of the connection goes on; with what it pushes onto the queue of a peer. -/
def Exchange.accept (exchange : Exchange) (result : Except String Unit) :
    Option (Exchange × Option (String × List UInt8)) :=
  match exchange.receiver, result with
  | .incoming, _ => none
  | .accepting peerId, .ok _ =>
      if exchange.opened ∧ ¬ exchange.taken then
        some ({ exchange with receiver := .reading peerId, taken := true }, none)
      else
        none
  | .accepting _, .error _ => some ({ exchange with receiver := .ended }, none)
  | .reading peerId, .ok _ =>
      if exchange.finished then
        match readToEnd maxMessage exchange.data with
        | .ok buf => some ({ exchange with receiver := .pushing peerId buf }, none)
        | .error _ =>
            some ({ exchange with
              receiver := .accepting peerId, readFailed := true, ackClosed := true }, none)
      else
        none
  | .reading peerId, .error _ =>
      some ({ exchange with
        receiver := .accepting peerId, readFailed := true, ackClosed := true }, none)
  | .pushing peerId buf, _ =>
      some ({ exchange with receiver := .acking peerId },
        if buf ≠ [] then some (peerId, buf) else none)
  | .acking peerId, _ =>
      some ({ exchange with receiver := .accepting peerId, ackClosed := true }, none)
  | .ended, _ => none

/-- A message put into a queue, with the exchange it came from. -/
structure Push where
  exchange : Nat
  peerId : String
  bytes : List UInt8
  deriving DecidableEq, Repr

structure Nodes where
  exchanges : List Exchange
  /-- The queues of the receiving node. -/
  inbox : String → List (List UInt8)
  /-- All that was put into them, in order. -/
  pushes : List Push

def Nodes.new : Nodes := ⟨[], fun _ => [], []⟩

inductive Event where
  | sendMessage (nodeIdHex : String) (parsed : Except String Unit) (data : List UInt8)
  | sender (index : Nat) (result : Except String Unit)
  | incoming (index : Nat) (remoteNodeId : Except String (Option String))
  | receiver (index : Nat) (result : Except String Unit)
  | drainInbox (nodeId : String)

/-- A node sends one message after the other. -/
def Nodes.idle (nodes : Nodes) : Bool :=
  nodes.exchanges.all fun exchange =>
    match exchange.sender with
    | .answered _ => true
    | _ => false

def Nodes.push (nodes : Nodes) (index : Nat) : Option (String × List UInt8) → Nodes
  | none => nodes
  | some (peerId, buf) => { nodes with
      inbox := Function.update nodes.inbox peerId (nodes.inbox peerId ++ [buf])
      pushes := nodes.pushes ++ [⟨index, peerId, buf⟩] }

def Nodes.replace (nodes : Nodes) (index : Nat) (exchange : Exchange) : Nodes :=
  { nodes with exchanges := nodes.exchanges.set index exchange }

def Nodes.step (nodes : Nodes) : Event → Option Nodes
  | .sendMessage nodeIdHex parsed data =>
      if nodes.idle then
        some { nodes with
          exchanges := nodes.exchanges ++ [Exchange.begin nodeIdHex parsed data] }
      else
        none
  | .sender index result => do
      let exchange ← nodes.exchanges[index]?
      let next ← exchange.send result
      return nodes.replace index next
  | .incoming index remoteNodeId => do
      let exchange ← nodes.exchanges[index]?
      let next ← exchange.establish remoteNodeId
      return nodes.replace index next
  | .receiver index result => do
      let exchange ← nodes.exchanges[index]?
      let (next, pushed) ← exchange.accept result
      return (nodes.replace index next).push index pushed
  | .drainInbox nodeId => some { nodes with inbox := Function.update nodes.inbox nodeId [] }

end NixRedox.Irohd
