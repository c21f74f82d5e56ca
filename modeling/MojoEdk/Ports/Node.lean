import MojoEdk.Library.AssocList
import MojoEdk.Ports.Basic

/-!
# Nodes

The operations of a node on its ports (`node.cc`), as functions on the state of
the node. What a node asks its embedder for, through `NodeDelegate`, is recorded
in the state (`Delegate`): the events to forward, the ports whose status changed
and the names generated.

* The embedder calls `createPortPair`, `sendMessage`, `getMessageIf`, `closePort`
  and `lostConnectionToNode`, and gives incoming events to `acceptMessage`.
* A transferred port is renamed (`willSendPort`): it stays behind, buffering, as
  a proxy for the port its descriptor becomes on the other node (`acceptPort`).
* A proxy announces itself around the ring of ports (`initiateProxyRemoval`), to
  be skipped by the port that points to it (`onObserveProxy`); it goes once it
  has forwarded the last message it was sent (`maybeRemoveProxy`).

The assertions of the source, `OOPS` (a `CHECK`) and `DCHECK`, are recorded when
they fail (`Oops`). A `PortRef` is the name of its port: a reference to a deleted
port fails as one to a port that is not receiving.

The operations are atomic, and do what they do if no lock is in their way. That the
lock of a port is, comes of `WillSendMessage_Locked` alone: it leaves ports locked,
which are recorded (`Delegate.locked`), and it waits for the lock of a port that is
attached twice. What a call that waits for a lock would do otherwise is followed all
the same, so that the code has the runs of the model up to such a call, and no
others. What is locked and released is a model of its own (`attachedLocks`). The results
of `SendMessage` and of `ClosePort`, also those of `Core`, say when the call need not
wait (`sendLocks`, `closeLocks`). Those about runs are about what has been done so far in
each, and promise no call's return.
-/

namespace MojoEdk.Ports

/-- The failures that the source asserts away: `OOPS`, `DCHECK`, and a null port
    dereferenced. The last one is no assertion of the source: a message that
    `ForwardMessages_Locked` cannot send is dropped. -/
inductive Oops
  /-- `OnPortAccepted`: `OOPS(ERROR_PORT_UNKNOWN)`. -/
  | acceptedPortUnknown
  /-- `OnPortAccepted`: `OOPS(ERROR_PORT_STATE_UNEXPECTED)`. -/
  | acceptedPortStateUnexpected
  /-- `OnObserveProxyAck`: `OOPS(ERROR_PORT_STATE_UNEXPECTED)`. -/
  | ackedPortStateUnexpected
  /-- `AddPortWithName`: `OOPS(ERROR_PORT_EXISTS)`. -/
  | portExists
  /-- `GetMessageIf`: `DCHECK(new_port)`. -/
  | newPortUnknown
  /-- `GetMessageIf`: `DCHECK(new_port->state == Port::kReceiving)`. -/
  | newPortStateUnexpected
  /-- `WillSendMessage_Locked`: an attached port is not there. -/
  | sentPortUnknown
  /-- `WillSendPort_Locked`: `DCHECK(port->state == Port::kReceiving)`. -/
  | sentPortStateUnexpected
  /-- `MaybeRemoveProxy_Locked`: `DCHECK(port->state == Port::kProxying)`. -/
  | proxyStateUnexpected
  /-- `ForwardMessages_Locked`: `WillSendMessage_Locked` failed. -/
  | forwardFailed
  deriving DecidableEq

variable {α : Type*}

/-- What a node asked its delegate for, in the order of the calls. The renamings,
    the closings and the locks are history: no operation reads them. -/
structure Delegate (α : Type*) where
  /-- The next name `GenerateRandomPortName` gives. -/
  nextPortName : PortName := 1
  /-- The calls of `ForwardMessage`. -/
  forwarded : List (NodeName × Event α) := []
  /-- The calls of `PortStatusChanged`. -/
  statusChanged : List PortName := []
  /-- The failed assertions. -/
  oops : List Oops := []
  /-- The ports sent, each with its new name. -/
  renamed : List (PortName × PortName) := []
  /-- The ports closed. -/
  closed : List PortName := []
  /-- The ports left locked. -/
  locked : List PortName := []

/-- A node: its name and its ports. -/
structure Node (α : Type*) where
  name : NodeName
  ports : AList fun _ : PortName => Port α := ∅
  delegate : Delegate α := {}

namespace Node

/-! ## The port table and the delegate -/

/-- `GetPort`. -/
def getPort (s : Node α) (portName : PortName) : Option (Port α) := s.ports.lookup portName

/-- A receiving port. -/
def Receives (s : Node α) (q : PortName) : Prop :=
  ∃ port, s.getPort q = some port ∧ port.state = .receiving

/-- The node with the port changed, or added. -/
def setPort (s : Node α) (portName : PortName) (port : Port α) : Node α :=
  { s with ports := s.ports.insert portName port }

/-- `ErasePort`. -/
def erasePort (s : Node α) (portName : PortName) : Node α :=
  { s with ports := s.ports.erase portName }

/-- A port is what was written last. -/
theorem getPort_setPort (s : Node α) (p q : PortName) (port : Port α) :
    (s.setPort p port).getPort q = if q = p then some port else s.getPort q := by
  rw [setPort, getPort]
  split_ifs with h
  · rw [h]
    exact AList.lookup_insert _
  · exact AList.lookup_insert_ne h

theorem getPort_erasePort (s : Node α) (p q : PortName) :
    (s.erasePort p).getPort q = if q = p then none else s.getPort q := by
  rw [erasePort, getPort]
  split_ifs with h
  · rw [h]
    exact AList.lookup_erase ..
  · exact AList.lookup_erase_ne h

/-- `NodeDelegate::ForwardMessage`. -/
def forwardMessage (s : Node α) (nodeName : NodeName) (event : Event α) : Node α :=
  { s with delegate := { s.delegate with
    forwarded := s.delegate.forwarded ++ [(nodeName, event)] } }

/-- `NodeDelegate::PortStatusChanged`. -/
def portStatusChanged (s : Node α) (portName : PortName) : Node α :=
  { s with delegate := { s.delegate with
    statusChanged := s.delegate.statusChanged ++ [portName] } }

/-- A failed assertion. -/
def oops (s : Node α) (failure : Oops) : Node α :=
  { s with delegate := { s.delegate with oops := s.delegate.oops ++ [failure] } }

/-- History: a port was sent under a new name. -/
def noteRenamed (s : Node α) (portName newPortName : PortName) : Node α :=
  { s with delegate := { s.delegate with
    renamed := s.delegate.renamed ++ [(portName, newPortName)] } }

/-- History: a port was closed. -/
def noteClosed (s : Node α) (portName : PortName) : Node α :=
  { s with delegate := { s.delegate with closed := s.delegate.closed ++ [portName] } }

/-- History: ports were left locked. -/
def noteLocked (s : Node α) (portNames : List PortName) : Node α :=
  { s with delegate := { s.delegate with locked := s.delegate.locked ++ portNames } }

/-- `NodeDelegate::GenerateRandomPortName`: a name never generated before. -/
def generateRandomPortName (s : Node α) : PortName × Node α :=
  (s.delegate.nextPortName,
    { s with delegate := { s.delegate with nextPortName := s.delegate.nextPortName + 1 } })

/-- `AddPortWithName`. -/
def addPortWithName (s : Node α) (portName : PortName) (port : Port α) : Node α × Result :=
  match s.getPort portName with
  | some _ => (s.oops .portExists, .errorPortExists)
  | none => (s.setPort portName port, .ok)

/-- `CanShutdownCleanly`. -/
def canShutdownCleanly (s : Node α) (allowLocalPorts : Bool) : Bool :=
  if allowLocalPorts then
    s.ports.entries.all fun x => x.2.peerNodeName == s.name || x.2.state == .receiving
  else s.ports.entries.isEmpty

/-! ## Creating ports -/

/-- `CreateUninitializedPort`. -/
def createUninitializedPort (s : Node α) : Node α × PortName × Result :=
  let (portName, s) := s.generateRandomPortName
  let (s, rv) := s.addPortWithName portName (Port.new kInitialSequenceNum kInitialSequenceNum)
  (s, portName, rv)

/-- A port is created under a name that is fresh. -/
theorem createUninitializedPort_of_fresh {s : Node α}
    (h : s.getPort s.delegate.nextPortName = none) :
    s.createUninitializedPort = (s.generateRandomPortName.2.setPort s.delegate.nextPortName
      (Port.new kInitialSequenceNum kInitialSequenceNum), s.delegate.nextPortName, .ok) := by
  have h' : s.generateRandomPortName.2.getPort s.delegate.nextPortName = none := h
  simp only [createUninitializedPort, addPortWithName]
  rw [show s.generateRandomPortName.1 = s.delegate.nextPortName from rfl, h']

/-- `InitializePort`. -/
def initializePort (s : Node α) (portName : PortName) (peerNodeName : NodeName)
    (peerPortName : PortName) : Node α × Result :=
  match s.getPort portName with
  | none => (s, .errorPortStateUnexpected)
  | some port =>
    if port.state = .uninitialized then
      ((s.setPort portName { port with
        state := .receiving, peerNodeName := peerNodeName, peerPortName := peerPortName
        }).portStatusChanged portName, .ok)
    else (s, .errorPortStateUnexpected)

/-- A port that is not initialized becomes receiving, and the embedder is told. -/
theorem initializePort_of_uninitialized {s : Node α} {portName : PortName} {port : Port α}
    (h : s.getPort portName = some port) (hport : port.state = .uninitialized)
    (peerNodeName : NodeName) (peerPortName : PortName) :
    s.initializePort portName peerNodeName peerPortName = ((s.setPort portName { port with
      state := .receiving, peerNodeName := peerNodeName, peerPortName := peerPortName
      }).portStatusChanged portName, .ok) := by
  simp only [initializePort, h, hport, if_true]

/-- `CreatePortPair`. -/
def createPortPair (s : Node α) : Node α × PortName × PortName × Result :=
  match s.createUninitializedPort with
  | (s, port0, .ok) =>
    match s.createUninitializedPort with
    | (s, port1, .ok) =>
      match s.initializePort port0 s.name port1 with
      | (s, .ok) =>
        let (s, rv) := s.initializePort port1 s.name port0
        (s, port0, port1, rv)
      | (s, rv) => (s, port0, port1, rv)
    | (s, port1, rv) => (s, port0, port1, rv)
  | (s, port0, rv) => (s, port0, port0, rv)

/-! ## Closing ports -/

/-- `ClosePort`, and the ports attached to the messages it leaves unread. A call
    deletes the port before it goes to these: the number of ports bounds how deep
    the calls nest. -/
def closePortAux : ℕ → Node α → PortName → Node α × Result
  | 0, s, _ => (s, .ok)
  | depth + 1, s, portName =>
    match s.getPort portName with
    | none => (s, .errorPortStateUnexpected)
    | some port =>
      match port.state with
      -- It has no peer to tell.
      | .uninitialized => (s.erasePort portName, .ok)
      | .receiving =>
        -- The last number sent goes along, so that the peer may read what it is still to receive.
        let s := (s.erasePort portName).noteClosed portName
        let s := s.forwardMessage port.peerNodeName
          (.observeClosure port.peerPortName (port.nextSequenceNumToSend - 1))
        (port.messageQueue.getReferencedPorts.foldl (fun s name =>
          match s.getPort name with
          | some _ => (closePortAux depth s name).1
          -- A port that was closed in the meantime is not found.
          | none => s) s, .ok)
      | _ => (s, .errorPortStateUnexpected)

/-- `ClosePort`. -/
def closePort (s : Node α) (portName : PortName) : Node α × Result :=
  closePortAux (s.ports.entries.length + 1) s portName

/-- Closing ports one after the other, those that exist. -/
def closePorts (s : Node α) (portNames : List PortName) : Node α :=
  portNames.foldl (fun s name =>
    match s.getPort name with
    | some _ => (s.closePort name).1
    | none => s) s

/-! ## Reading messages -/

/-- `PortStatus`. -/
structure PortStatus where
  hasMessages : Bool
  receivingMessages : Bool
  peerClosed : Bool
  deriving DecidableEq

/-- `GetStatus`. -/
def getStatus (s : Node α) (portName : PortName) : Except Result PortStatus :=
  match s.getPort portName with
  | none => .error .errorPortStateUnexpected
  | some port =>
    if port.state = .receiving then
      .ok { hasMessages := port.messageQueue.hasNextMessage
            receivingMessages := port.canAcceptMoreMessages
            peerClosed := port.peerClosed }
    else .error .errorPortStateUnexpected

/-- `GetMessageIf`: the ports of a message handed out become signalable. -/
def setSignalable (s : Node α) (portNames : List PortName) : Node α :=
  portNames.foldl (fun s name =>
    match s.getPort name with
    | none => s.oops .newPortUnknown
    | some port =>
      let s := if port.state = .receiving then s else s.oops .newPortStateUnexpected
      s.setPort name { port with messageQueue := { port.messageQueue with signalable := true } }) s

/-- `GetMessageIf`: the next message of a port, if the selector takes it. -/
def getMessageIf (s : Node α) (portName : PortName) (selector : Option (Message α → Bool)) :
    Node α × Option (Message α) × Result :=
  match s.getPort portName with
  | none => (s, none, .errorPortStateUnexpected)
  | some port =>
    if port.state ≠ .receiving then (s, none, .errorPortStateUnexpected)
    -- The embedder gets all messages before it is told of the closing of the peer.
    else if !port.canAcceptMoreMessages then (s, none, .errorPortPeerClosed)
    else
      match port.messageQueue.getNextMessageIf selector with
      | (none, _) => (s, none, .ok)
      | (some m, queue) =>
        ((s.setPort portName { port with messageQueue := queue }).setSignalable m.ports,
          some m, .ok)

/-- `GetMessage`. -/
def getMessage (s : Node α) (portName : PortName) : Node α × Option (Message α) × Result :=
  s.getMessageIf portName none

/-! ## Sending messages -/

/-- `WillSendPort_Locked`: the port starts buffering for the port it is renamed
    to, on the node it is sent to; the new name and its descriptor. -/
def willSendPort (s : Node α) (port : Port α) (portName : PortName) (toNodeName : NodeName) :
    Node α × PortName × PortDescriptor :=
  let (newPortName, s) := s.generateRandomPortName
  let s := if port.state = .receiving then s else s.oops .sentPortStateUnexpected
  let s := s.setPort portName { port with
    state := .buffering
    -- If the peer is closed already, then the proxy may go once it forwarded its last message.
    removeProxyOnLastMessage := port.removeProxyOnLastMessage || port.peerClosed
    peerNodeName := toNodeName
    peerPortName := newPortName }
  (s.noteRenamed portName newPortName, newPortName,
    { peerNodeName := port.peerNodeName
      peerPortName := port.peerPortName
      referringNodeName := s.name
      referringPortName := portName
      nextSequenceNumToSend := port.nextSequenceNumToSend
      nextSequenceNumToReceive := port.messageQueue.nextSequenceNum
      lastSequenceNumToReceive := port.lastSequenceNumToReceive
      peerClosed := port.peerClosed })

/-- The calls of `WillSendPort_Locked` for the ports of a message. -/
def willSendPorts (toNodeName : NodeName) :
    List PortName → Node α → Node α × List (PortName × PortDescriptor)
  | [], s => (s, [])
  | portName :: portNames, s =>
    match s.getPort portName with
    | none => willSendPorts toNodeName portNames s
    | some port =>
      let (s, sent) := s.willSendPort port portName toNodeName
      let (s, rest) := willSendPorts toNodeName portNames s
      (s, sent :: rest)

/-- Why `WillSendMessage_Locked` refuses to send a port, if it does. -/
def sentPortError (s : Node α) (peerPortName : PortName) (portName : PortName) : Option Result :=
  match s.getPort portName with
  | none => some .errorPortUnknown
  | some port =>
    if port.state ≠ .receiving then some .errorPortStateUnexpected
    else if portName = peerPortName then some .errorPortCannotSendPeer
    else none

/-- A port is refused with an error. -/
theorem sentPortError_ne_ok (s : Node α) (peerPortName portName : PortName) :
    s.sentPortError peerPortName portName ≠ some .ok := by
  rw [sentPortError]
  split
  · simp
  · split_ifs <;> simp

/-- `WillSendMessage_Locked`: the message as it is to be forwarded to the peer of
    the port, numbered (unless a proxy forwards it) and its ports renamed. If a port
    is refused then those locked before it stay locked: the loop that should release
    them releases the one refused again and again. -/
def willSendMessage (s : Node α) (port : Port α) (portName : PortName) (m : Message α) :
    Node α × Message α × Result :=
  let (port, m) :=
    if m.sequenceNum = 0 then
      ({ port with nextSequenceNumToSend := port.nextSequenceNumToSend + 1 },
        { m with sequenceNum := port.nextSequenceNumToSend })
    else (port, m)
  let s := s.setPort portName port
  match m.ports.findSome? (s.sentPortError port.peerPortName) with
  | some error =>
    let s := s.noteLocked
      (m.ports.takeWhile fun name => (s.sentPortError port.peerPortName name).isNone)
    let s := if error = .errorPortUnknown then s.oops .sentPortUnknown else s
    -- Backpedal on the sequence number, whoever gave it.
    (s.setPort portName { port with nextSequenceNumToSend := port.nextSequenceNumToSend - 1 },
      m, error)
  | none =>
    let (s, sent) := willSendPorts port.peerNodeName m.ports s
    (s, { m with
      portName := port.peerPortName
      ports := sent.map (·.1)
      descriptors := sent.map (·.2) }, .ok)

/-- The loop of `ForwardMessages_Locked`, over the messages of the queue. -/
def forwardMessagesAux : ℕ → Node α → PortName → Node α × Result
  | 0, s, _ => (s, .ok)
  | length + 1, s, portName =>
    match s.getPort portName with
    | none => (s, .ok)
    | some port =>
      match port.messageQueue.getNextMessageIf none with
      | (none, _) => (s, .ok)
      -- A message is forwarded when it is the next one, so that the proxy knows when it has seen
      -- all.
      | (some m, queue) =>
        let port := { port with messageQueue := queue }
        match s.willSendMessage port portName m with
        | (s, m, .ok) =>
          forwardMessagesAux length (s.forwardMessage port.peerNodeName (.user m)) portName
        | (s, _, rv) => (s.oops .forwardFailed, rv)

/-- `ForwardMessages_Locked`. -/
def forwardMessages (s : Node α) (port : Port α) (portName : PortName) : Node α × Result :=
  forwardMessagesAux port.messageQueue.heap.length s portName

/-! ## Removing proxies -/

/-- `InitiateProxyRemoval_Locked`. -/
def initiateProxyRemoval (s : Node α) (port : Port α) (portName : PortName) : Node α :=
  s.forwardMessage port.peerNodeName (.observeProxy port.peerPortName
    { proxyNodeName := s.name
      proxyPortName := portName
      proxyToNodeName := port.peerNodeName
      proxyToPortName := port.peerPortName })

/-- `MaybeRemoveProxy_Locked`. -/
def maybeRemoveProxy (s : Node α) (portName : PortName) : Node α :=
  match s.getPort portName with
  | none => s
  | some port =>
    let s := if port.state = .proxying then s else s.oops .proxyStateUnexpected
    if port.removeProxyOnLastMessage && !port.canAcceptMoreMessages then
      let s := s.erasePort portName
      -- An announcement that this port could not honour as a proxy is to be sent again.
      match port.sendOnProxyRemoval with
      | some (toNode, message) => s.forwardMessage toNode message
      | none => s
    else s

/-! ## Accepting events -/

/-- `AcceptPort`: a port received in a message. -/
def acceptPort (s : Node α) (portName : PortName) (d : PortDescriptor) : Node α × Result :=
  let port : Port α := Port.new d.nextSequenceNumToSend d.nextSequenceNumToReceive
  let port := { port with
    state := .receiving
    peerNodeName := d.peerNodeName
    peerPortName := d.peerPortName
    lastSequenceNumToReceive := d.lastSequenceNumToReceive
    peerClosed := d.peerClosed
    -- It is not signalable until the message it came with is read (`setSignalable`).
    messageQueue := { port.messageQueue with signalable := false } }
  match s.addPortWithName portName port with
  | (s, .ok) =>
    (s.forwardMessage d.referringNodeName (.portAccepted d.referringPortName), .ok)
  | (s, rv) => (s, rv)

/-- What `AcceptPort` makes of a descriptor. -/
def acceptedPort (d : PortDescriptor) : Port α :=
  { Port.new d.nextSequenceNumToSend d.nextSequenceNumToReceive with
    state := .receiving
    peerNodeName := d.peerNodeName
    peerPortName := d.peerPortName
    lastSequenceNumToReceive := d.lastSequenceNumToReceive
    peerClosed := d.peerClosed
    messageQueue := { nextSequenceNum := d.nextSequenceNumToReceive, signalable := false } }

/-- A port is bound under the name that it was sent with. -/
theorem acceptPort_of_none {s : Node α} {name : PortName} (h : s.getPort name = none) (d : PortDescriptor) :
    s.acceptPort name d = ((s.setPort name (acceptedPort d)).forwardMessage d.referringNodeName
      (.portAccepted d.referringPortName), .ok) := by
  rw [acceptPort, addPortWithName, h]
  rfl

/-- A name is not bound twice. -/
theorem acceptPort_of_some {s : Node α} {name : PortName} {port : Port α}
    (h : s.getPort name = some port)
    (d : PortDescriptor) : s.acceptPort name d = (s.oops .portExists, .errorPortExists) := by
  rw [acceptPort, addPortWithName, h]

/-- The calls of `AcceptPort` for the ports of a message. -/
def acceptPorts : List (PortName × PortDescriptor) → Node α → Node α × Result
  | [], s => (s, .ok)
  | (portName, d) :: ports, s =>
    match s.acceptPort portName d with
    | (s, .ok) => acceptPorts ports s
    | (s, rv) => (s, rv)

/-- `OnUserMessage`, once the ports of the message are bound to this node: the
    message is queued, forwarded by a proxy, or rejected. -/
def queueUserMessage (s : Node α) (port : Option (Port α)) (m : Message α) : Node α × Result :=
  match port with
  | none => (s.closePorts m.ports, .ok)
  | some port =>
    -- Spurious messages are rejected, and their ports, which nobody owns, are closed.
    if port.canAcceptMoreMessages then
      let (queue, hasNextMessage) := port.messageQueue.acceptMessage m
      let port := { port with messageQueue := queue }
      let s := s.setPort m.portName port
      match port.state with
      -- The messages wait until the port that replaces this one is accepted.
      | .buffering => (s, .ok)
      | .proxying =>
        match s.forwardMessages port m.portName with
        | (s, .ok) => (s.maybeRemoveProxy m.portName, .ok)
        | (s, rv) => (s, rv)
      | _ => (if hasNextMessage then s.portStatusChanged m.portName else s, .ok)
    else (s.closePorts m.ports, .ok)

/-- `OnUserMessage`. -/
def onUserMessage (s : Node α) (m : Message α) : Node α × Result :=
  -- The port is looked up first, but the ports of the message are bound whatever becomes of it.
  let port := s.getPort m.portName
  match acceptPorts (m.ports.zip m.descriptors) s with
  | (s, .ok) => s.queueUserMessage port m
  | (s, rv) => (s, rv)

/-- `OnPortAccepted`. -/
def onPortAccepted (s : Node α) (portName : PortName) : Node α × Result :=
  match s.getPort portName with
  | none => (s.oops .acceptedPortUnknown, .errorPortUnknown)
  | some port =>
    if port.state ≠ .buffering then
      (s.oops .acceptedPortStateUnexpected, .errorPortStateUnexpected)
    else
      let port := { port with state := .proxying }
      match (s.setPort portName port).forwardMessages port portName with
      | (s, .ok) =>
        -- The closing was observed before: the last message is known, and there is nothing to
        -- bypass.
        if port.removeProxyOnLastMessage then
          ((s.maybeRemoveProxy portName).forwardMessage port.peerNodeName
            (.observeClosure port.peerPortName port.lastSequenceNumToReceive), .ok)
        else (s.initiateProxyRemoval port portName, .ok)
      | (s, rv) => (s, rv)

/-- `OnObserveProxy`. -/
def onObserveProxy (s : Node α) (portName : PortName) (event : ObserveProxyEventData) :
    Node α × Result :=
  match s.getPort portName with
  -- The port may have been closed, and its `ObserveClosure` stands in for the acknowledgement.
  | none => (s, .ok)
  | some port =>
    if port.peerNodeName = event.proxyNodeName ∧ port.peerPortName = event.proxyPortName then
      if port.state = .receiving then
        ((s.setPort portName { port with
          peerNodeName := event.proxyToNodeName
          peerPortName := event.proxyToPortName }).forwardMessage event.proxyNodeName
            (.observeProxyAck event.proxyPortName (port.nextSequenceNumToSend - 1)), .ok)
      else
        -- A proxy cannot name the last message. It asks for the announcement again once it is gone.
        (s.setPort portName { port with
          sendOnProxyRemoval := some (event.proxyNodeName,
            .observeProxyAck event.proxyPortName kInvalidSequenceNum) }, .ok)
    else
      -- The port that refers to the proxy is further on.
      (s.forwardMessage port.peerNodeName (.observeProxy port.peerPortName event), .ok)

/-- `OnObserveProxyAck`. -/
def onObserveProxyAck (s : Node α) (portName : PortName) (lastSequenceNum : UInt64) :
    Node α × Result :=
  match s.getPort portName with
  -- The proxy may have observed a closing and gone before.
  | none => (s, .errorPortUnknown)
  | some port =>
    if port.state ≠ .proxying then
      (s.oops .ackedPortStateUnexpected, .errorPortStateUnexpected)
    else if lastSequenceNum = kInvalidSequenceNum then
      (s.initiateProxyRemoval port portName, .ok)
    else
      ((s.setPort portName { port with
        removeProxyOnLastMessage := true
        lastSequenceNumToReceive := lastSequenceNum }).maybeRemoveProxy portName, .ok)

/-- `OnObserveClosure`. -/
def onObserveClosure (s : Node α) (portName : PortName) (lastSequenceNum : UInt64) :
    Node α × Result :=
  match s.getPort portName with
  | none => (s, .ok)
  | some port =>
    let port := { port with peerClosed := true, lastSequenceNumToReceive := lastSequenceNum }
    -- Beyond a receiving port there are only proxies that lead nowhere. They are told that no more
    -- messages come.
    if port.state = .receiving then
      (((s.setPort portName port).forwardMessage port.peerNodeName
        (.observeClosure port.peerPortName (port.nextSequenceNumToSend - 1))).portStatusChanged
          portName, .ok)
    else
      let port := { port with removeProxyOnLastMessage := true }
      let s := s.setPort portName port
      let s := if port.state = .proxying then s.maybeRemoveProxy portName else s
      (s.forwardMessage port.peerNodeName (.observeClosure port.peerPortName lastSequenceNum), .ok)

/-- `AcceptMessage`. -/
def acceptMessage (s : Node α) : Event α → Node α × Result
  | .user m => s.onUserMessage m
  | .portAccepted portName => s.onPortAccepted portName
  | .observeProxy portName data => s.onObserveProxy portName data
  | .observeProxyAck portName lastSequenceNum => s.onObserveProxyAck portName lastSequenceNum
  | .observeClosure portName lastSequenceNum => s.onObserveClosure portName lastSequenceNum

/-- `SendMessage`, with the message left to the caller if it is not sent. -/
def sendMessage (s : Node α) (portName : PortName) (m : Message α) :
    Node α × Option (Message α) × Result :=
  if portName ∈ m.ports then (s, some m, .errorPortCannotSendSelf)
  else
    match s.getPort portName with
    | none => (s, some m, .errorPortStateUnexpected)
    | some port =>
      if port.state ≠ .receiving then (s, some m, .errorPortStateUnexpected)
      else if port.peerClosed then (s, some m, .errorPortPeerClosed)
      else
        match s.willSendMessage port portName m with
        -- From here on the call returns `OK`, whatever becomes of the message.
        | (s, m, .ok) =>
          if port.peerNodeName ≠ s.name then
            (s.forwardMessage port.peerNodeName (.user m), none, .ok)
          else ((s.acceptMessage (.user m)).1, none, .ok)
        | (s, m, rv) => (s, some m, rv)

/-! ## Losing a node -/

/-- `LostConnectionToNode`: what becomes of a port, `none` if it is deleted. -/
def lostPort (nodeName : NodeName) (port : Port α) : Option (Port α) :=
  if port.peerNodeName = nodeName then
    if port.state = .receiving then
      if port.peerClosed then some port
      else some { port with
        peerClosed := true
        lastSequenceNumToReceive := port.messageQueue.nextSequenceNum - 1 }
    else none
  else some port

/-- `LostConnectionToNode`: whether the status of a port is reported as changed. -/
def lostPortNotified (nodeName : NodeName) (port : Port α) : Bool :=
  port.peerNodeName == nodeName && !port.peerClosed && port.state == .receiving

/-- `LostConnectionToNode`. -/
def lostConnectionToNode (s : Node α) (nodeName : NodeName) : Node α :=
  (s.ports.entries.filter fun x => lostPortNotified nodeName x.2).foldl
    (fun s x => s.portStatusChanged x.1)
    { s with ports := s.ports.retain fun _ port => lostPort nodeName port }

/-- The loop over the ports to notify only notifies. -/
theorem foldl_portStatusChanged (l : List (Σ _ : PortName, Port α)) (ν : Node α) :
    l.foldl (fun s x => s.portStatusChanged x.1) ν = { ν with delegate := { ν.delegate with
      statusChanged := ν.delegate.statusChanged ++ l.map (·.1) } } := by
  induction l generalizing ν with
  | nil => simp
  | cons x l ih =>
    rw [List.foldl_cons, ih]
    simp [portStatusChanged]

/-- What `LostConnectionToNode` does to the ports, and whom it notifies. -/
theorem lostConnectionToNode_eq (ν : Node α) (lost : NodeName) :
    ν.lostConnectionToNode lost = { ν with
      ports := ν.ports.retain fun _ port => lostPort lost port
      delegate := { ν.delegate with
        statusChanged := ν.delegate.statusChanged ++
          (ν.ports.entries.filter fun x => lostPortNotified lost x.2).map (·.1) } } := by
  rw [lostConnectionToNode, foldl_portStatusChanged]

/-- Each port is handled by itself. -/
theorem getPort_lostConnectionToNode (ν : Node α) (lost : NodeName) (p : PortName) :
    (ν.lostConnectionToNode lost).getPort p = (ν.getPort p).bind (lostPort lost) := by
  rw [lostConnectionToNode_eq]
  exact AList.lookup_retain ..

end Node

end MojoEdk.Ports
