import Mathlib.Data.List.AList
import Mathlib.Data.List.Sort

/-!
# Events, messages and ports

The data of the ports library (`event.h`, `message.h`, `message_queue.h`,
`port.h`): what a node stores for each of its ports, and what nodes send each
other.

* An `Event` is addressed to a port: a user message, or one of the four internal
  events by which ports are transferred, proxies removed and closures announced.
* A `MessageQueue` restores the order of the sequence numbers: it only hands out
  the message whose number is the next one.
* A `Port` is an item of a circular list: it sends to its peer. It receives for
  the embedder, or it is a proxy (buffering, then proxying) on its way out.

Port and node names are 128-bit random numbers in the source, only ever compared
for equality: here they are natural numbers. Sequence numbers are the `uint64_t`
of the source, and wrap.
-/

namespace MojoEdk.Ports

/-- The name of a node (`NodeName`). -/
abbrev NodeName := ℕ

/-- The name of a port (`PortName`). -/
abbrev PortName := ℕ

/-- `kInvalidNodeName`. -/
def kInvalidNodeName : NodeName := 0

/-- `kInvalidPortName`. -/
def kInvalidPortName : PortName := 0

/-- `kInitialSequenceNum`: the number of the first message of a port. -/
def kInitialSequenceNum : UInt64 := 1

/-- `kInvalidSequenceNum`: in an `observeProxyAck`, asks to send `observeProxy` again. -/
def kInvalidSequenceNum : UInt64 := 0xFFFFFFFF

/-- What a port in transit becomes on the node that accepts it. -/
structure PortDescriptor where
  peerNodeName : NodeName := kInvalidNodeName
  peerPortName : PortName := kInvalidPortName
  referringNodeName : NodeName := kInvalidNodeName
  referringPortName : PortName := kInvalidPortName
  nextSequenceNumToSend : UInt64 := 0
  nextSequenceNumToReceive : UInt64 := 0
  lastSequenceNumToReceive : UInt64 := 0
  peerClosed : Bool := false
  deriving DecidableEq, Inhabited

/-- A user message: its header (the port it is addressed to, its sequence number,
    the descriptors of the ports it carries), the names of these ports and a
    payload. -/
structure Message (α : Type*) where
  portName : PortName
  sequenceNum : UInt64
  descriptors : List PortDescriptor
  ports : List PortName
  payload : α
  deriving DecidableEq

/-- A message fresh from `InitializeUserMessageHeader`: its header is zeroed. -/
def Message.newUserMessage {α : Type*} (payload : α) (ports : List PortName) : Message α where
  portName := kInvalidPortName
  sequenceNum := 0
  descriptors := ports.map fun _ => {}
  ports := ports
  payload := payload

/-- The announcement that a port is a proxy, and for which port. -/
structure ObserveProxyEventData where
  proxyNodeName : NodeName
  proxyPortName : PortName
  proxyToNodeName : NodeName
  proxyToPortName : PortName
  deriving DecidableEq

/-- An event, addressed to a port (`EventHeader::port_name`, for a user message
    the port name of the message). -/
inductive Event (α : Type*)
  | user (message : Message α)
  | portAccepted (portName : PortName)
  | observeProxy (portName : PortName) (data : ObserveProxyEventData)
  | observeProxyAck (portName : PortName) (lastSequenceNum : UInt64)
  | observeClosure (portName : PortName) (lastSequenceNum : UInt64)
  deriving DecidableEq

variable {α : Type*}

/-! ## Message queues -/

/-- An incoming message queue. The heap of the source is kept sorted by sequence
    number, the oldest message first among equal ones: its first element is the
    one `std::push_heap` and `std::pop_heap` maintain in front. -/
structure MessageQueue (α : Type*) where
  heap : List (Message α) := []
  nextSequenceNum : UInt64
  signalable : Bool := true
  deriving DecidableEq

namespace MessageQueue

/-- `std::push_heap` on the heap of a queue. -/
def pushHeap (m : Message α) : List (Message α) → List (Message α)
  | [] => [m]
  | m' :: heap =>
    if m.sequenceNum < m'.sequenceNum then m :: m' :: heap else m' :: pushHeap m heap

/-- `HasNextMessage`. -/
def hasNextMessage (q : MessageQueue α) : Bool :=
  match q.heap with
  | [] => false
  | m :: _ => m.sequenceNum == q.nextSequenceNum

/-- `GetNextMessageIf`: the next message, if it is there and selected. -/
def getNextMessageIf (q : MessageQueue α) (selector : Option (Message α → Bool)) :
    Option (Message α) × MessageQueue α :=
  match q.heap with
  | [] => (none, q)
  | m :: heap =>
    if m.sequenceNum == q.nextSequenceNum && selector.all (· m) then
      (some m, { q with heap := heap, nextSequenceNum := q.nextSequenceNum + 1 })
    else (none, q)

/-- `AcceptMessage`: the queue with the message, and whether to signal it. -/
def acceptMessage (q : MessageQueue α) (m : Message α) : MessageQueue α × Bool :=
  let q := { q with heap := pushHeap m q.heap }
  (q, q.signalable && q.hasNextMessage)

/-- `GetReferencedPorts`. -/
def getReferencedPorts (q : MessageQueue α) : List PortName :=
  q.heap.flatMap (·.ports)

end MessageQueue

/-! ## Ports -/

/-- `Port::State`. -/
inductive Port.State
  | uninitialized
  | receiving
  | buffering
  | proxying
  | closed
  deriving DecidableEq

/-- A port of a node. -/
structure Port (α : Type*) where
  state : Port.State := .uninitialized
  peerNodeName : NodeName := kInvalidNodeName
  peerPortName : PortName := kInvalidPortName
  nextSequenceNumToSend : UInt64
  lastSequenceNumToReceive : UInt64 := 0
  messageQueue : MessageQueue α
  sendOnProxyRemoval : Option (NodeName × Event α) := none
  removeProxyOnLastMessage : Bool := false
  peerClosed : Bool := false
  deriving DecidableEq

/-- The constructor `Port::Port`. -/
def Port.new (nextSequenceNumToSend nextSequenceNumToReceive : UInt64) : Port α where
  nextSequenceNumToSend := nextSequenceNumToSend
  messageQueue := { nextSequenceNum := nextSequenceNumToReceive }

/-- `CanAcceptMoreMessages`: false once the last expected message was doled out. -/
def Port.canAcceptMoreMessages (port : Port α) : Bool :=
  !((port.peerClosed || port.removeProxyOnLastMessage) &&
    port.lastSequenceNumToReceive == port.messageQueue.nextSequenceNum - 1)

/-- The results of the operations of a node: `OK` and the error codes. -/
inductive Result
  | ok
  | errorPortUnknown
  | errorPortExists
  | errorPortStateUnexpected
  | errorPortCannotSendSelf
  | errorPortPeerClosed
  | errorPortCannotSendPeer
  deriving DecidableEq

end MojoEdk.Ports
