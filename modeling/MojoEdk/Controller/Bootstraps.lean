import MojoEdk.Controller.Reservations

/-!
# Bootstrapped message pipes

A parent and its children make message pipes between them, one for each platform channel
that the embedder has for it (`CreateParentMessagePipe`, `CreateChildMessagePipe`). Both
ends are ports without a peer. The parent reserves its port under a token, and sends the
token over the channel (`ParentBootstrap`). The child that reads it asks the parent to
connect its own port (`ChildBootstrap`, `RequestParentPortConnectionOnIOThread`), at once, or
when it knows the parent (`OnAcceptChild`). The parent gives the reserved port its peer and
answers (`OnRequestPortConnection`), and the child gives its port the peer in turn
(`OnConnectToPort`).

All of this interleaves, for any number of children and of pipes, and with what else happens
at the nodes, which leaves a port alone as long as it has no peer (`Bootstraps.Sound`). The
main results are that only the two ends of one pipe become peers
(`Bootstraps.connects_ends`), and that they do once everything has arrived
(`Bootstraps.connected_of_idle`).

A child that loses the channel before it knows its parent drops a peer without a name, and
`LostConnectionToNode` erases its ports that have no peer, for the node name of their peer is
that name, `kInvalidNodeName` (`Bootstraps.loseParent`). Any other peer that is dropped has a
name, and `LostConnectionToNode` leaves the ports without a peer alone: it is among the other
calls of the nodes.

Whom a channel leads to is not a question here (`Network.peers_agree`): the channel of a child
is identified with the child, and the token in `AcceptChild` and `AcceptParent` is left out. So
are pipes whose ends are both in the parent (`Reservations.rendezvous`).
-/

namespace MojoEdk.Controller

open Ports (NodeName PortName Node kInvalidNodeName)

/-- `kMaxTokenSize`. -/
def kMaxTokenSize : ℕ := 256

/-- `PendingPortRequest`. -/
structure PortRequest where
  token : String
  localPort : PortName
  callback : ℕ

/-- What a child and its parent know of each other. There is one channel between them. -/
inductive Contact
  | unknown
  /-- `bootstrap_parent_channel_`, or `pending_children_`. -/
  | pending
  | peer (name : NodeName)
  /-- `DropPeer`. -/
  | dropped
  deriving DecidableEq

namespace Contact

/-- `remote_node_name_`. -/
def name : Contact → NodeName
  | .peer name => name
  | _ => kInvalidNodeName

/-- The channel is read until it fails. -/
def Reads (c : Contact) : Prop := c ≠ .unknown ∧ c ≠ .dropped

instance (c : Contact) : Decidable c.Reads := inferInstanceAs (Decidable (_ ∧ _))

end Contact

/-- The messages of a child. -/
inductive ToParent
  | acceptParent (childName : NodeName)
  | requestPortConnection (connectorPortName : PortName) (token : String)

/-- The messages for a child. -/
inductive ToChild
  | acceptChild (parentName : NodeName)
  | connectToPort (connectorPortName connecteePortName : PortName)

/-- The parent is the process `none`. -/
structure Bootstraps (α K : Type) where
  node : Option K → Node α
  /-- The platform channels, by the child that the parent shares each of them with. -/
  pipes : List K := []
  /-- `ParentBootstrap`, with its token and the port that is reserved. -/
  server : ℕ → Option (String × ReservedPort) := fun _ => none
  /-- `ChildBootstrap`, with its port and its callback. -/
  client : ℕ → Option (PortName × ℕ) := fun _ => none
  /-- The token on its way over a platform channel. -/
  token : ℕ → Option String := fun _ => none
  /-- What the parent knows of a child. -/
  child : K → Contact := fun _ => .unknown
  /-- What a child knows of the parent. -/
  parent : K → Contact := fun _ => .unknown
  /-- `reserved_ports_` of the parent. -/
  reservedPorts : String → Option ReservedPort := fun _ => none
  /-- The tasks that were posted to the I/O thread of a child. -/
  posted : K → List PortRequest := fun _ => []
  pendingPortRequests : K → List PortRequest := fun _ => []
  pendingPortConnections : K → PortName → Option ℕ := fun _ _ => none
  /-- The messages on their way, in order. -/
  toParent : K → List ToParent := fun _ => []
  toChild : K → List ToChild := fun _ => []
  /-- The ports that were initialized, with the node and the name of the peer. -/
  initialized : List (Option K × PortName × NodeName × PortName) := []
  /-- The callbacks that were run. -/
  callbacks : List (Option K × ℕ × PortName) := []

namespace Bootstraps

variable {α K : Type}

inductive Input (α K : Type)
  /-- A platform channel is made for a child. -/
  | createPipe (child : K)
  /-- `CreateParentMessagePipe`, with the token that is drawn. -/
  | createParentMessagePipe (pipe : ℕ) (token : String) (callback : ℕ)
  /-- `CreateChildMessagePipe`. -/
  | createChildMessagePipe (pipe : ℕ) (callback : ℕ)
  /-- `OnTokenReceived` of a `ChildBootstrap`. -/
  | onTokenReceived (pipe : ℕ)
  /-- `RequestParentPortConnectionOnIOThread`. -/
  | requestParentPortConnection (child : K)
  | connectToChild (child : K)
  | connectToParent (child : K)
  /-- A child reads the next message. -/
  | receiveFromParent (child : K)
  /-- The parent reads the next message. -/
  | receiveFromChild (child : K)
  /-- `OnChannelError` at a child, and `DropPeer`. -/
  | dropParent (child : K)
  /-- `OnChannelError` at the parent, and `DropPeer`. -/
  | dropChild (child : K)
  /-- What else happens at a node. -/
  | other (process : Option K) (node : Node α)

section Machine

variable [DecidableEq K]

/-- `RequestPortConnection`, of a child that knows its parent. -/
def requestPortConnection (child : K) (s : Bootstraps α K) (r : PortRequest) : Bootstraps α K :=
  { s with
    pendingPortConnections := Function.update s.pendingPortConnections child
      -- `insert` keeps the entry that is there, if there is one.
      (if (s.pendingPortConnections child r.localPort).isSome then s.pendingPortConnections child
      else Function.update (s.pendingPortConnections child) r.localPort (some r.callback))
    toParent := Function.update s.toParent child
      (s.toParent child ++ [.requestPortConnection r.localPort r.token]) }

/-- `InitializePort`, which is checked to succeed. -/
def initializePort (s : Bootstraps α K) (process : Option K) (port : PortName)
    (peerNodeName : NodeName) (peerPortName : PortName) : Option (Bootstraps α K) :=
  let (node, rv) := (s.node process).initializePort port peerNodeName peerPortName
  if rv = .ok then some { s with
    node := Function.update s.node process node
    initialized := s.initialized ++ [(process, port, peerNodeName, peerPortName)] }
  else none

/-- `OnAcceptChild`. The requests that waited for the parent are passed on. -/
def onAcceptChild (s : Bootstraps α K) (child : K) (parentName : NodeName) : Bootstraps α K :=
  match s.parent child with
  | .pending =>
    let s := { s with
      parent := Function.update s.parent child (.peer parentName)
      toParent := Function.update s.toParent child
        (s.toParent child ++ [ToParent.acceptParent (s.node (some child)).name]) }
    let s := (s.pendingPortRequests child).foldl (requestPortConnection child) s
    { s with pendingPortRequests := Function.update s.pendingPortRequests child [] }
  -- No parent is expected, or it was accepted: its channel is dropped.
  | _ => { s with parent := Function.update s.parent child .dropped }

/-- `DropPeer` at a child. The channel has no name before the parent is known. -/
def loseParent (s : Bootstraps α K) (child : K) : Bootstraps α K :=
  { s with
    parent := Function.update s.parent child .dropped
    node :=
      if s.parent child = .pending then Function.update s.node (some child)
        ((s.node (some child)).lostConnectionToNode kInvalidNodeName)
      else s.node }

/-- `OnAcceptParent`. -/
def onAcceptParent (s : Bootstraps α K) (child : K) (childName : NodeName) : Bootstraps α K :=
  match s.child child with
  | .pending => { s with child := Function.update s.child child (.peer childName) }
  -- The child was accepted already.
  | _ => { s with child := Function.update s.child child .dropped }

/-- `OnRequestPortConnection`. -/
def onRequestPortConnection (s : Bootstraps α K) (child : K) (connectorPortName : PortName)
    (token : String) : Option (Bootstraps α K) :=
  match s.reservedPorts token with
  -- The token is unknown.
  | none => some s
  | some r =>
    let s := { s with reservedPorts := Function.update s.reservedPorts token none }
    match s.child child with
    | .peer name =>
      (s.initializePort none r.localPort name connectorPortName).map fun s => { s with
        toChild := Function.update s.toChild child
          (s.toChild child ++ [.connectToPort r.localPort connectorPortName])
        callbacks := s.callbacks ++ [(none, r.callback, r.localPort)] }
    -- The child is no peer. Its request is ignored, and the reservation is gone.
    | _ => some s

/-- `OnConnectToPort`. There is a callback, which is asserted. -/
def onConnectToPort (s : Bootstraps α K) (child : K)
    (connectorPortName connecteePortName : PortName) : Option (Bootstraps α K) :=
  let node := s.node (some child)
  match node.getPort connecteePortName with
  | none => some s
  | some _ =>
    match node.getStatus connecteePortName with
    -- The port was initialized already, which is fine.
    | .ok _ => some s
    | .error _ =>
      (s.initializePort (some child) connecteePortName (s.parent child).name
        connectorPortName).bind fun s =>
          (s.pendingPortConnections child connecteePortName).map fun callback => { s with
            pendingPortConnections := Function.update s.pendingPortConnections child
              (Function.update (s.pendingPortConnections child) connecteePortName none)
            callbacks := s.callbacks ++ [(some child, callback, connecteePortName)] }

/-- A platform channel is used once at either end. Its token is sent when the port is
    reserved, and no other one. -/
def step (s : Bootstraps α K) : Input α K → Option (Bootstraps α K)
  | .createPipe child => some { s with pipes := s.pipes ++ [child] }
  | .createParentMessagePipe pipe token callback =>
    match s.pipes[pipe]?, s.server pipe with
    | some _, none =>
      let (node, port, _) := (s.node none).createUninitializedPort
      some { s with
        node := Function.update s.node none node
        server := Function.update s.server pipe (some (token, ⟨port, callback⟩))
        token := Function.update s.token pipe (some token)
        reservedPorts :=
          if (s.reservedPorts token).isSome then s.reservedPorts
          else Function.update s.reservedPorts token (some ⟨port, callback⟩) }
    | _, _ => none
  | .createChildMessagePipe pipe callback =>
    match s.pipes[pipe]?, s.client pipe with
    | some child, none =>
      let (node, port, _) := (s.node (some child)).createUninitializedPort
      some { s with
        node := Function.update s.node (some child) node
        client := Function.update s.client pipe (some (port, callback)) }
    | _, _ => none
  | .onTokenReceived pipe =>
    match s.pipes[pipe]?, s.token pipe, s.client pipe with
    | some child, some token, some (port, callback) =>
      let s := { s with token := Function.update s.token pipe none }
      -- A token that is too long is an error of the platform channel.
      if kMaxTokenSize < token.utf8ByteSize then some s
      else some { s with
        posted := Function.update s.posted child (s.posted child ++ [⟨token, port, callback⟩]) }
    | _, _, _ => none
  | .requestParentPortConnection child =>
    match s.posted child with
    | [] => none
    | r :: posted =>
      let s := { s with posted := Function.update s.posted child posted }
      match s.parent child with
      | .peer _ => some (s.requestPortConnection child r)
      -- The parent is not known yet, or not any more: the request is kept.
      | _ => some { s with
        pendingPortRequests := Function.update s.pendingPortRequests child
          (s.pendingPortRequests child ++ [r]) }
  | .connectToChild child =>
    if s.child child = .unknown then some { s with
      child := Function.update s.child child .pending
      toChild := Function.update s.toChild child
        (s.toChild child ++ [.acceptChild (s.node none).name]) }
    else none
  | .connectToParent child =>
    if s.parent child = .unknown then some { s with
      parent := Function.update s.parent child .pending }
    else none
  | .receiveFromParent child =>
    if (s.parent child).Reads then
      match s.toChild child with
      | [] => none
      | m :: ms =>
        let s := { s with toChild := Function.update s.toChild child ms }
        match m with
        | .acceptChild parentName => some (s.onAcceptChild child parentName)
        | .connectToPort connectorPortName connecteePortName =>
          s.onConnectToPort child connectorPortName connecteePortName
    else none
  | .receiveFromChild child =>
    if (s.child child).Reads then
      match s.toParent child with
      | [] => none
      | m :: ms =>
        let s := { s with toParent := Function.update s.toParent child ms }
        match m with
        | .acceptParent childName => some (s.onAcceptParent child childName)
        | .requestPortConnection connectorPortName token =>
          s.onRequestPortConnection child connectorPortName token
    else none
  | .dropParent child =>
    if (s.parent child).Reads then some (s.loseParent child) else none
  | .dropChild child =>
    if (s.child child).Reads then some { s with
      child := Function.update s.child child .dropped }
    else none
  | .other process node => some { s with node := Function.update s.node process node }

/-- Processes without ports. -/
def machine (α K : Type) [DecidableEq K] (name : Option K → NodeName) :
    Machine (Bootstraps α K) (Input α K) where
  init := { node := fun process => { name := name process } }
  step := step

end Machine

/-! ## Where the ports are -/

/-- The port at the end of a pipe that a process has. -/
def portAt [DecidableEq K] (s : Bootstraps α K) (pipe : ℕ) : Option K → Option PortName
  | none => (s.server pipe).map (·.2.localPort)
  | some child => if s.pipes[pipe]? = some child then (s.client pipe).map (·.1) else none

/-- The port at the end of a pipe that a child has, with the child. -/
def clientAt (s : Bootstraps α K) (pipe : ℕ) : Option (K × PortName) :=
  s.pipes[pipe]?.bind fun child => (s.client pipe).map fun c => (child, c.1)

/-- A port that was initialized. -/
def Initialized (s : Bootstraps α K) (process : Option K) (p : PortName) : Prop :=
  (process, p) ∈ s.initialized.map fun e => (e.1, e.2.1)

def ToParent.port : ToParent → Option PortName
  | .acceptParent _ => none
  | .requestPortConnection connectorPortName _ => some connectorPortName

def ToChild.port : ToChild → Option PortName
  | .acceptChild _ => none
  | .connectToPort _ connecteePortName => some connecteePortName

/-- Where the port of a child may be: it waits for the token, its request is posted or waits for
    the parent, the request or the answer is on its way, or it is initialized. -/
inductive Stop (K : Type)
  | pipe (pipe : ℕ)
  | posted (child : K)
  | pending (child : K)
  | toParent (child : K)
  | toChild (child : K)
  | initialized
  deriving DecidableEq

/-- The ports of the children, by where they are. -/
def ports (waiting : ℕ → List (K × PortName)) (posted pending : K → List PortRequest)
    (toParent : K → List ToParent) (toChild : K → List ToChild)
    (initialized : List (Option K × PortName × NodeName × PortName)) :
    Stop K → List (K × PortName)
  | .pipe pipe => waiting pipe
  | .posted child => (posted child).map fun r => (child, r.localPort)
  | .pending child => (pending child).map fun r => (child, r.localPort)
  | .toParent child => (toParent child).filterMap fun m => (ToParent.port m).map (child, ·)
  | .toChild child => (toChild child).filterMap fun m => (ToChild.port m).map (child, ·)
  | .initialized => initialized.filterMap fun e => e.1.map (·, e.2.1)

/-- The port that waits for the token of a pipe. -/
def waiting (s : Bootstraps α K) (pipe : ℕ) : List (K × PortName) :=
  if (s.server pipe).isNone || (s.token pipe).isSome then (s.clientAt pipe).toList else []

def holds (s : Bootstraps α K) : Stop K → List (K × PortName) :=
  ports s.waiting s.posted s.pendingPortRequests s.toParent s.toChild s.initialized

section Ports

variable [DecidableEq K] {w : ℕ → List (K × PortName)} {posted pending : K → List PortRequest}
  {toParent : K → List ToParent} {toChild : K → List ToChild}
  {l : List (Option K × PortName × NodeName × PortName)} (child : K)

theorem ports_waiting (pipe : ℕ) (l' : List (K × PortName)) :
    ports (Function.update w pipe l') posted pending toParent toChild l =
      Function.update (ports w posted pending toParent toChild l) (.pipe pipe) l' := by
  refine Function.eq_update_iff.2 ⟨Function.update_self _ _ _, fun o ho => ?_⟩
  cases o with
  | pipe pipe' => exact Function.update_of_ne (fun h => ho (congrArg _ h)) _ _
  | _ => rfl

theorem ports_posted (rs : List PortRequest) :
    ports w (Function.update posted child rs) pending toParent toChild l =
      Function.update (ports w posted pending toParent toChild l) (.posted child)
        (rs.map fun r => (child, r.localPort)) := by
  refine Function.eq_update_iff.2 ⟨?_, fun o ho => ?_⟩
  · rw [ports, Function.update_self]
  · cases o with
    | posted child' => rw [ports, Function.update_of_ne fun h => ho (congrArg _ h), ports]
    | _ => rfl

theorem ports_pending (rs : List PortRequest) :
    ports w posted (Function.update pending child rs) toParent toChild l =
      Function.update (ports w posted pending toParent toChild l) (.pending child)
        (rs.map fun r => (child, r.localPort)) := by
  refine Function.eq_update_iff.2 ⟨?_, fun o ho => ?_⟩
  · rw [ports, Function.update_self]
  · cases o with
    | pending child' => rw [ports, Function.update_of_ne fun h => ho (congrArg _ h), ports]
    | _ => rfl

theorem ports_toParent (ms : List ToParent) :
    ports w posted pending (Function.update toParent child ms) toChild l =
      Function.update (ports w posted pending toParent toChild l) (.toParent child)
        (ms.filterMap fun m => (ToParent.port m).map (child, ·)) := by
  refine Function.eq_update_iff.2 ⟨?_, fun o ho => ?_⟩
  · rw [ports, Function.update_self]
  · cases o with
    | toParent child' => rw [ports, Function.update_of_ne fun h => ho (congrArg _ h), ports]
    | _ => rfl

theorem ports_toChild (ms : List ToChild) :
    ports w posted pending toParent (Function.update toChild child ms) l =
      Function.update (ports w posted pending toParent toChild l) (.toChild child)
        (ms.filterMap fun m => (ToChild.port m).map (child, ·)) := by
  refine Function.eq_update_iff.2 ⟨?_, fun o ho => ?_⟩
  · rw [ports, Function.update_self]
  · cases o with
    | toChild child' => rw [ports, Function.update_of_ne fun h => ho (congrArg _ h), ports]
    | _ => rfl

theorem ports_initialized (l' : List (Option K × PortName × NodeName × PortName)) :
    ports w posted pending toParent toChild l' =
      Function.update (ports w posted pending toParent toChild l) .initialized
        (l'.filterMap fun e => e.1.map (·, e.2.1)) := by
  refine Function.eq_update_iff.2 ⟨rfl, fun o ho => ?_⟩
  cases o with
  | initialized => exact absurd rfl ho
  | _ => rfl

end Ports

/-! ## The invariant -/

/-- How far a child and its parent have got in greeting each other. Nothing overtakes the
    greetings, so that nothing else is read before. -/
inductive Greeting (s : Bootstraps α K) (child : K) : Prop
  | before (hchild : s.child child = .unknown) (hparent : ∀ name, s.parent child ≠ .peer name)
    (htoParent : s.toParent child = []) (htoChild : s.toChild child = [])
  /-- `AcceptChild` is on its way. -/
  | greets (hchild : s.child child = .pending ∨ s.child child = .dropped)
    (hparent : ∀ name, s.parent child ≠ .peer name) (htoParent : s.toParent child = [])
    (htoChild : s.toChild child = [.acceptChild (s.node none).name])
  /-- `AcceptParent` is on its way. -/
  | answers (ms : List ToParent) (hchild : s.child child = .pending ∨ s.child child = .dropped)
    (hparent : s.parent child = .peer (s.node none).name ∨ s.parent child = .dropped)
    (htoParent : s.toParent child = .acceptParent (s.node (some child)).name :: ms)
    (hms : ∀ name, .acceptParent name ∉ ms) (htoChild : s.toChild child = [])
  | done (hchild : s.child child = .peer (s.node (some child)).name ∨ s.child child = .dropped)
    (hparent : s.parent child = .peer (s.node none).name ∨ s.parent child = .dropped)
    (htoParent : ∀ name, .acceptParent name ∉ s.toParent child)
    (htoChild : ∀ name, .acceptChild name ∉ s.toChild child)

/-- The ends of the pipes. -/
structure Ends [DecidableEq K] (s : Bootstraps α K) : Prop where
  server_lt : ∀ {i x}, s.server i = some x → i < s.pipes.length
  client_lt : ∀ {i x}, s.client i = some x → i < s.pipes.length
  fresh : ∀ {x p port}, (s.node x).getPort p = some port →
    p < (s.node x).delegate.nextPortName
  known : ∀ {x i p}, s.portAt i x = some p → p < (s.node x).delegate.nextPortName
  /-- A port is at one end. -/
  inj : ∀ {x i j p}, s.portAt i x = some p → s.portAt j x = some p → i = j
  uninitialized : ∀ {x i p}, s.portAt i x = some p → ¬s.Initialized x p →
    ((s.node x).getPort p).map (·.state) = some .uninitialized ∨
      (s.node x).getPort p = none ∧ ∃ c, x = some c ∧ s.parent c = .dropped
  /-- A token is for one pipe. -/
  token : ∀ {i j t r r'}, s.server i = some (t, r) → s.server j = some (t, r') → i = j

/-- A request for the end of a pipe that a child has, with its token. -/
def Requests (s : Bootstraps α K) (child : K) (r : PortRequest) : Prop :=
  ∃ i, s.pipes[i]? = some child ∧ (∃ q, s.server i = some (r.token, q)) ∧
    s.client i = some (r.localPort, r.callback)

/-- The port of a child is at one stop. -/
structure Stops (s : Bootstraps α K) : Prop where
  exclusive : Exclusive s.holds
  mem_iff : ∀ x, (∃ o, x ∈ s.holds o) ↔ ∃ i, s.clientAt i = some x

/-- The requests, where they are, and what became of them. -/
structure Requested [DecidableEq K] (s : Bootstraps α K) : Prop where
  /-- A token that is not on its way was received by the child. -/
  token : ∀ {i x}, s.server i = some x → s.client i = none → s.token i ≠ none
  sent : ∀ {i t}, s.token i = some t →
    t.utf8ByteSize ≤ kMaxTokenSize ∧ ∃ r, s.server i = some (t, r)
  posted : ∀ {c r}, r ∈ s.posted c ∨ r ∈ s.pendingPortRequests c → s.Requests c r
  toParent : ∀ {c p t}, .requestPortConnection p t ∈ s.toParent c →
    ∃ callback, s.Requests c ⟨t, p, callback⟩ ∧ s.pendingPortConnections c p = some callback
  toChild : ∀ {c q p}, .connectToPort q p ∈ s.toChild c → ∃ i callback,
    s.portAt i none = some q ∧ s.pipes[i]? = some c ∧ s.client i = some (p, callback) ∧
      s.pendingPortConnections c p = some callback ∧
      (none, q, (s.node (some c)).name, p) ∈ s.initialized
  pending : ∀ {c p}, s.pendingPortConnections c p ≠ none →
    (c, p) ∈ s.holds (.toParent c) ∨ (c, p) ∈ s.holds (.toChild c)
  reserved : ∀ {t r}, s.reservedPorts t = some r →
    (∃ i, s.server i = some (t, r)) ∧ ¬s.Initialized none r.localPort
  /-- A reservation is there until the request for it arrives. -/
  served : ∀ {i t r}, s.server i = some (t, r) → s.reservedPorts t = some r ∨ ∃ c p,
    s.clientAt i = some (c, p) ∧
      ((c, p) ∈ s.holds (.toChild c) ∨ (c, p) ∈ s.holds .initialized) ∧
      (none, r.localPort, (s.node (some c)).name, p) ∈ s.initialized

/-- The ports that were initialized. -/
structure Connected [DecidableEq K] (s : Bootstraps α K) : Prop where
  nodup : (s.initialized.map fun e => (e.1, e.2.1)).Nodup
  parent : ∀ {q n p}, (none, q, n, p) ∈ s.initialized → ∃ i c, s.portAt i none = some q ∧
    s.portAt i (some c) = some p ∧ n = (s.node (some c)).name
  child : ∀ {c p n q}, (some c, p, n, q) ∈ s.initialized →
    (∃ i, s.portAt i none = some q ∧ s.portAt i (some c) = some p) ∧ n = (s.node none).name ∧
      (none, q, (s.node (some c)).name, p) ∈ s.initialized
  /-- The callback of a port is run when it is initialized. -/
  callbacks : s.callbacks.map (fun k => (k.1, k.2.2)) = s.initialized.map fun e => (e.1, e.2.1)
  callback : ∀ {x callback p}, (x, callback, p) ∈ s.callbacks →
    (x = none ∧ ∃ i t, s.server i = some (t, ⟨p, callback⟩)) ∨
      ∃ i c, x = some c ∧ s.pipes[i]? = some c ∧ s.client i = some (p, callback)

structure Inv [DecidableEq K] (s : Bootstraps α K) : Prop where
  greeting : ∀ child, s.Greeting child
  /-- Only a child that does not know its parent lets requests wait. -/
  flushed : ∀ {child name}, s.parent child = .peer name → s.pendingPortRequests child = []
  ends : s.Ends
  stops : s.Stops
  requested : s.Requested
  connected : s.Connected

/-- Tokens are never drawn twice, and are short enough. What else happens at a node does not
    concern the ports that have no peer, which stay uninitialized or erased. New ports have new
    names. -/
def Sound [DecidableEq K] (s : Bootstraps α K) : Input α K → Prop
  | .createParentMessagePipe _ token _ => token.utf8ByteSize ≤ kMaxTokenSize ∧
    ∀ j < s.pipes.length, ∀ x ∈ s.server j, x.1 ≠ token
  | .other process node => node.name = (s.node process).name ∧
    (s.node process).delegate.nextPortName ≤ node.delegate.nextPortName ∧
    (∀ e ∈ node.ports.entries, e.1 < node.delegate.nextPortName) ∧
    ∀ i < s.pipes.length, ∀ p ∈ s.portAt i process,
      (process, p) ∉ s.initialized.map (fun e => (e.1, e.2.1)) →
        (node.getPort p).map (·.state) = ((s.node process).getPort p).map (·.state)
  | _ => True

instance [DecidableEq K] (s : Bootstraps α K) (i : Input α K) : Decidable (s.Sound i) :=
  match i with
  | .createParentMessagePipe _ _ _ => inferInstanceAs (Decidable (_ ∧ _))
  | .other _ _ => inferInstanceAs (Decidable (_ ∧ _ ∧ _ ∧ _))
  | .createPipe _ | .createChildMessagePipe _ _ | .onTokenReceived _
  | .requestParentPortConnection _ | .connectToChild _ | .connectToParent _
  | .receiveFromParent _ | .receiveFromChild _ | .dropParent _ | .dropChild _ =>
    inferInstanceAs (Decidable True)

/-! ## What lasts -/

variable {s s' : Bootstraps α K} {c : K}

/-- Ends of pipes, names of nodes and ports that are initialized stay what they are. -/
structure Extends (s s' : Bootstraps α K) : Prop where
  pipes : ∀ {i : ℕ} {c}, s.pipes[i]? = some c → s'.pipes[i]? = some c
  server : ∀ {i x}, s.server i = some x → s'.server i = some x
  client : ∀ {i x}, s.client i = some x → s'.client i = some x
  name : ∀ x, (s'.node x).name = (s.node x).name
  initialized : s.initialized ⊆ s'.initialized

theorem Extends.of_eq (hpipes : s'.pipes = s.pipes) (hserver : s'.server = s.server)
    (hclient : s'.client = s.client) (hname : ∀ x, (s'.node x).name = (s.node x).name)
    (hinitialized : s.initialized ⊆ s'.initialized) : s.Extends s' :=
  ⟨fun h => hpipes ▸ h, fun h => hserver ▸ h, fun h => hclient ▸ h, hname, hinitialized⟩

/-- An end of a child stays one. -/
theorem Extends.clientAt (h : s.Extends s') {i : ℕ} {x : K × PortName}
    (hx : s.clientAt i = some x) : s'.clientAt i = some x := by
  obtain ⟨c, hc, hx⟩ := Option.bind_eq_some_iff.1 hx
  obtain ⟨y, hy, rfl⟩ := Option.map_eq_some_iff.1 hx
  rw [Bootstraps.clientAt, h.pipes hc, h.client hy]
  rfl

/-- A request that was made stays so. -/
theorem Extends.requests (h : s.Extends s') {r : PortRequest} (hr : s.Requests c r) :
    s'.Requests c r := by
  obtain ⟨i, hc, ⟨q, hq⟩, hp⟩ := hr
  exact ⟨i, h.pipes hc, ⟨q, h.server hq⟩, h.client hp⟩

/-! ## Greetings -/

namespace Greeting

/-- A child and its parent greet each other as before. -/
theorem congr (h : s.Greeting c) (hchild : s'.child c = s.child c)
    (hparent : s'.parent c = s.parent c) (htoParent : s'.toParent c = s.toParent c)
    (htoChild : s'.toChild c = s.toChild c) (hname : ∀ x, (s'.node x).name = (s.node x).name) :
    s'.Greeting c := by
  cases h with
  | before h₁ h₂ h₃ h₄ =>
    exact .before (hchild.trans h₁) (hparent ▸ h₂) (htoParent.trans h₃) (htoChild.trans h₄)
  | greets h₁ h₂ h₃ h₄ =>
    exact .greets (hchild ▸ h₁) (hparent ▸ h₂) (htoParent.trans h₃)
      (htoChild.trans (by rw [h₄, hname]))
  | answers ms h₁ h₂ h₃ h₄ h₅ =>
    exact .answers ms (hchild ▸ h₁) (by rw [hparent, hname]; exact h₂)
      (htoParent.trans (by rw [h₃, hname])) h₄ (htoChild.trans h₅)
  | done h₁ h₂ h₃ h₄ =>
    exact .done (by rw [hchild, hname]; exact h₁) (by rw [hparent, hname]; exact h₂)
      (htoParent ▸ h₃) (htoChild ▸ h₄)

/-- A child that knows its parent sends requests. -/
theorem post (h : s.Greeting c) {name : NodeName} (hpeer : s.parent c = .peer name)
    (hchild : s'.child c = s.child c) (hparent : s'.parent c = s.parent c) {ms : List ToParent}
    (htoParent : s'.toParent c = s.toParent c ++ ms) (hms : ∀ name, .acceptParent name ∉ ms)
    (htoChild : s'.toChild c = s.toChild c) (hname : ∀ x, (s'.node x).name = (s.node x).name) :
    s'.Greeting c := by
  cases h with
  | before _ h₂ => exact absurd hpeer (h₂ name)
  | greets _ h₂ => exact absurd hpeer (h₂ name)
  | answers ms' h₁ h₂ h₃ h₄ h₅ =>
    refine .answers (ms' ++ ms) (hchild ▸ h₁) (by rw [hparent, hname]; exact h₂)
      (by rw [htoParent, h₃, hname]; rfl) (fun n hn => ?_) (htoChild.trans h₅)
    exact (List.mem_append.1 hn).elim (h₄ n) (hms n)
  | done h₁ h₂ h₃ h₄ =>
    refine .done (by rw [hchild, hname]; exact h₁) (by rw [hparent, hname]; exact h₂)
      (fun n hn => ?_) (htoChild ▸ h₄)
    rw [htoParent] at hn
    exact (List.mem_append.1 hn).elim (h₃ n) (hms n)

/-- What is read after the greetings. -/
theorem of_done (hchild : s.child c = .peer (s.node (some c)).name ∨ s.child c = .dropped)
    (hparent : s.parent c = .peer (s.node none).name ∨ s.parent c = .dropped)
    (htoParent : ∀ name, .acceptParent name ∉ s.toParent c)
    (htoChild : ∀ name, .acceptChild name ∉ s.toChild c)
    (hchild' : s'.child c = s.child c) (hparent' : s'.parent c = s.parent c)
    (htoParent' : ∀ name, .acceptParent name ∈ s'.toParent c → .acceptParent name ∈ s.toParent c)
    (htoChild' : ∀ name, .acceptChild name ∈ s'.toChild c → .acceptChild name ∈ s.toChild c)
    (hname : ∀ x, (s'.node x).name = (s.node x).name) : s'.Greeting c :=
  .done (by rw [hchild', hname]; exact hchild) (by rw [hparent', hname]; exact hparent)
    (fun n hn => htoParent n (htoParent' n hn)) fun n hn => htoChild n (htoChild' n hn)

/-- A child is only asked to connect a port after the greetings. -/
theorem of_connectToPort (h : s.Greeting c) {q p : PortName} {ms : List ToChild}
    (hm : s.toChild c = .connectToPort q p :: ms) :
    (s.child c = .peer (s.node (some c)).name ∨ s.child c = .dropped) ∧
      (s.parent c = .peer (s.node none).name ∨ s.parent c = .dropped) ∧
      (∀ name, .acceptParent name ∉ s.toParent c) ∧
        ∀ name, .acceptChild name ∉ s.toChild c := by
  cases h with
  | before _ _ _ h₄ | greets _ _ _ h₄ | answers _ _ _ _ _ h₄ => cases hm.symm.trans h₄
  | done h₁ h₂ h₃ h₄ => exact ⟨h₁, h₂, h₃, h₄⟩

/-- The parent is only asked to connect a port after the greetings. -/
theorem of_requestPortConnection (h : s.Greeting c) {p : PortName} {t : String}
    {ms : List ToParent} (hm : s.toParent c = .requestPortConnection p t :: ms) :
    (s.child c = .peer (s.node (some c)).name ∨ s.child c = .dropped) ∧
      (s.parent c = .peer (s.node none).name ∨ s.parent c = .dropped) ∧
      (∀ name, .acceptParent name ∉ s.toParent c) ∧
        ∀ name, .acceptChild name ∉ s.toChild c := by
  cases h with
  | before _ _ h₃ | greets _ _ h₃ | answers _ _ _ h₃ => cases hm.symm.trans h₃
  | done h₁ h₂ h₃ h₄ => exact ⟨h₁, h₂, h₃, h₄⟩

/-- A child hears of its parent, and sends what waited for that. -/
theorem onAcceptChild (h : s.Greeting c) {name : NodeName} {ms : List ToChild}
    (hm : s.toChild c = .acceptChild name :: ms) (hreads : (s.parent c).Reads) :
    s.parent c = .pending ∧ name = (s.node none).name ∧ ms = [] ∧ s.toParent c = [] ∧
      (s.child c = .pending ∨ s.child c = .dropped) := by
  cases h with
  | before _ _ _ h₄ => cases hm.symm.trans h₄
  | greets h₁ h₂ h₃ h₄ =>
    rw [hm] at h₄
    obtain ⟨heq, rfl⟩ := List.cons_eq_cons.1 h₄
    refine ⟨?_, ToChild.acceptChild.inj heq, rfl, h₃, h₁⟩
    cases hp : s.parent c with
    | pending => rfl
    | unknown => exact absurd hp hreads.1
    | dropped => exact absurd hp hreads.2
    | peer n => exact absurd hp (h₂ n)
  | answers _ _ _ _ _ h₅ => cases hm.symm.trans h₅
  | done _ _ _ h₄ =>
    refine absurd ?_ (h₄ name)
    rw [hm]
    exact List.mem_cons_self

/-- The parent hears of a child. -/
theorem onAcceptParent (h : s.Greeting c) {name : NodeName} {ms : List ToParent}
    (hm : s.toParent c = .acceptParent name :: ms) (hreads : (s.child c).Reads) :
    s.child c = .pending ∧ name = (s.node (some c)).name ∧
      (∀ name, .acceptParent name ∉ ms) ∧ s.toChild c = [] ∧
      (s.parent c = .peer (s.node none).name ∨ s.parent c = .dropped) := by
  cases h with
  | before _ _ h₃ | greets _ _ h₃ => cases hm.symm.trans h₃
  | answers ms' h₁ h₂ h₃ h₄ h₅ =>
    rw [hm] at h₃
    obtain ⟨heq, rfl⟩ := List.cons_eq_cons.1 h₃
    exact ⟨h₁.resolve_right hreads.2, ToParent.acceptParent.inj heq, h₄, h₅, h₂⟩
  | done _ _ h₃ =>
    refine absurd ?_ (h₃ name)
    rw [hm]
    exact List.mem_cons_self

/-- A child loses its parent. -/
theorem dropParent (h : s.Greeting c) (hchild : s'.child c = s.child c)
    (hparent : s'.parent c = .dropped) (htoParent : s'.toParent c = s.toParent c)
    (htoChild : s'.toChild c = s.toChild c) (hname : ∀ x, (s'.node x).name = (s.node x).name) :
    s'.Greeting c := by
  have hne (name : NodeName) : s'.parent c ≠ .peer name := by
    rw [hparent]
    exact fun h => by cases h
  cases h with
  | before h₁ _ h₃ h₄ =>
    exact .before (hchild.trans h₁) hne (htoParent.trans h₃) (htoChild.trans h₄)
  | greets h₁ _ h₃ h₄ =>
    exact .greets (hchild ▸ h₁) hne (htoParent.trans h₃) (htoChild.trans (by rw [h₄, hname]))
  | answers ms h₁ _ h₃ h₄ h₅ =>
    exact .answers ms (hchild ▸ h₁) (.inr hparent) (htoParent.trans (by rw [h₃, hname])) h₄
      (htoChild.trans h₅)
  | done h₁ _ h₃ h₄ =>
    exact .done (by rw [hchild, hname]; exact h₁) (.inr hparent) (htoParent ▸ h₃) (htoChild ▸ h₄)

/-- A parent drops a child that it was reading from. -/
theorem dropChild (h : s.Greeting c) (hreads : (s.child c).Reads)
    (hchild : s'.child c = .dropped) (hparent : s'.parent c = s.parent c)
    (htoParent : s'.toParent c = s.toParent c) (htoChild : s'.toChild c = s.toChild c)
    (hname : ∀ x, (s'.node x).name = (s.node x).name) : s'.Greeting c := by
  cases h with
  | before h₁ => exact absurd h₁ hreads.1
  | greets _ h₂ h₃ h₄ =>
    exact .greets (.inr hchild) (hparent ▸ h₂) (htoParent.trans h₃)
      (htoChild.trans (by rw [h₄, hname]))
  | answers ms _ h₂ h₃ h₄ h₅ =>
    exact .answers ms (.inr hchild) (by rw [hparent, hname]; exact h₂)
      (htoParent.trans (by rw [h₃, hname])) h₄ (htoChild.trans h₅)
  | done _ h₂ h₃ h₄ =>
    exact .done (.inr hchild) (by rw [hparent, hname]; exact h₂) (htoParent ▸ h₃)
      (htoChild ▸ h₄)

end Greeting

section Steps

variable [DecidableEq K]

/-- The ends on a child are those that it made. -/
theorem portAt_child {i : ℕ} {p : PortName} :
    s.portAt i (some c) = some p ↔ s.clientAt i = some (c, p) := by
  rw [portAt, clientAt]
  cases hc : s.pipes[i]? with
  | none => simp
  | some c' => by_cases h : c' = c <;> simp [h]

/-- An end stays on its port. -/
theorem Extends.portAt (h : s.Extends s') {i : ℕ} {x : Option K} {p : PortName}
    (hp : s.portAt i x = some p) : s'.portAt i x = some p := by
  cases x with
  | none =>
    obtain ⟨y, hy, rfl⟩ := Option.map_eq_some_iff.1 hp
    rw [Bootstraps.portAt, h.server hy]
    rfl
  | some c => exact portAt_child.2 (h.clientAt (portAt_child.1 hp))

/-- The end of the parent. -/
theorem portAt_server {i : ℕ} {t : String} {r : ReservedPort} (h : s.server i = some (t, r)) :
    s.portAt i none = some r.localPort := by
  rw [portAt, h]
  rfl

/-- The end of the child. -/
theorem portAt_client {i : ℕ} {p : PortName} {callback : ℕ} (hc : s.pipes[i]? = some c)
    (hp : s.client i = some (p, callback)) : s.portAt i (some c) = some p := by
  rw [portAt, if_pos hc, hp]
  rfl

/-! ## Ends -/

/-- The port is given its peer. -/
def setPeer (s : Bootstraps α K) (x : Option K) (p : PortName) (n : NodeName) (q : PortName) :
    Bootstraps α K :=
  { s with
    node := Function.update s.node x ((s.node x).initializePort p n q).1
    initialized := s.initialized ++ [(x, p, n, q)] }

/-- A port that is given a peer is one of those that were. -/
theorem initialized_setPeer {x y : Option K} {p r : PortName} {n : NodeName} {q : PortName} :
    (s.setPeer x p n q).Initialized y r ↔ s.Initialized y r ∨ y = x ∧ r = p := by
  rw [Initialized, Initialized, setPeer, List.map_append, List.mem_append, List.map_cons,
    List.map_nil, List.mem_singleton, Prod.mk.injEq]

namespace Ends

variable {i : ℕ} {x : Option K} {p : PortName}

theorem congr (h : s.Ends) (hnode : s'.node = s.node) (hpipes : s'.pipes = s.pipes)
    (hserver : s'.server = s.server) (hclient : s'.client = s.client)
    (hinitialized : s'.initialized = s.initialized)
    (hparent : ∀ c, s.parent c = .dropped → s'.parent c = .dropped) : s'.Ends := by
  cases s
  cases s'
  cases hnode
  cases hpipes
  cases hserver
  cases hclient
  cases hinitialized
  exact ⟨h.server_lt, h.client_lt, h.fresh, h.known, h.inj,
    fun hp hnot => (h.uninitialized hp hnot).imp_right
      (And.imp_right (Exists.imp fun c => And.imp_right (hparent c))), h.token⟩

theorem createPipe (h : s.Ends) (c : K) : { s with pipes := s.pipes ++ [c] }.Ends := by
  have hport {j : ℕ} {y : Option K} {p : PortName}
      (hp : { s with pipes := s.pipes ++ [c] }.portAt j y = some p) : s.portAt j y = some p := by
    cases y with
    | none => exact hp
    | some c' =>
      rw [portAt] at hp ⊢
      split_ifs at hp with hc
      obtain ⟨z, hz, -⟩ := Option.map_eq_some_iff.1 hp
      rw [List.getElem?_append_left (h.client_lt hz)] at hc
      rwa [if_pos hc]
  have hlen : (s.pipes ++ [c]).length = s.pipes.length + 1 := List.length_append
  exact
    { server_lt := fun hx => hlen ▸ Nat.lt_succ_of_lt (h.server_lt hx)
      client_lt := fun hx => hlen ▸ Nat.lt_succ_of_lt (h.client_lt hx)
      fresh := h.fresh
      known := fun hp => h.known (hport hp)
      inj := fun hp hp' => h.inj (hport hp) (hport hp')
      uninitialized := fun hp => h.uninitialized (hport hp)
      token := h.token }

/-- New ports have new names. -/
theorem createUninitializedPort (h : s.Ends) (x : Option K) :
    (s.node x).createUninitializedPort =
      ((s.node x).generateRandomPortName.2.setPort (s.node x).delegate.nextPortName
        (Ports.Port.new Ports.kInitialSequenceNum Ports.kInitialSequenceNum),
      (s.node x).delegate.nextPortName, .ok) := by
  refine Node.createUninitializedPort_of_fresh ?_
  rw [Option.eq_none_iff_forall_ne_some]
  exact fun port hport => lt_irrefl _ (h.fresh hport)

/-- An end gets a new port. -/
theorem create (h : s.Ends)
    (hnode : s'.node = Function.update s.node x (s.node x).createUninitializedPort.1)
    (hinitialized : s'.initialized = s.initialized) (hparent : s'.parent = s.parent)
    (hport : ∀ j y, s'.portAt j y =
      if j = i ∧ y = x then some (s.node x).delegate.nextPortName else s.portAt j y)
    (hserver : ∀ {j y}, s'.server j = some y → j < s'.pipes.length)
    (hclient : ∀ {j y}, s'.client j = some y → j < s'.pipes.length)
    (htoken : ∀ {i j t r r'}, s'.server i = some (t, r) → s'.server j = some (t, r') → i = j) :
    s'.Ends ∧ ∀ y, (s'.node y).name = (s.node y).name := by
  rw [h.createUninitializedPort] at hnode
  have hname (y : Option K) : (s'.node y).name = (s.node y).name := by
    rw [hnode, Function.update_apply]
    split_ifs with hy
    · rw [hy]
      rfl
    · rfl
  have hnext (y : Option K) : (s.node y).delegate.nextPortName ≤
      (s'.node y).delegate.nextPortName := by
    rw [hnode, Function.update_apply]
    split_ifs with hy
    · rw [hy]
      exact Nat.le_succ (s.node x).delegate.nextPortName
    · exact le_rfl
  have hself : (s'.node x).delegate.nextPortName = (s.node x).delegate.nextPortName + 1 := by
    rw [hnode, Function.update_self]
    rfl
  have hget (y : Option K) (p : PortName) : (s'.node y).getPort p =
      if y = x ∧ p = (s.node x).delegate.nextPortName then
        some (Ports.Port.new Ports.kInitialSequenceNum Ports.kInitialSequenceNum)
      else (s.node y).getPort p := by
    rw [hnode, Function.update_apply]
    by_cases hy : y = x
    · subst hy
      rw [if_pos rfl, Node.getPort_setPort]
      by_cases hp : p = (s.node y).delegate.nextPortName
      · rw [if_pos hp, if_pos ⟨rfl, hp⟩]
      · rw [if_neg hp, if_neg fun h => hp h.2]
        rfl
    · rw [if_neg hy, if_neg fun h => hy h.1]
  have hcases {j : ℕ} {y : Option K} {p : PortName} (hp : s'.portAt j y = some p) :
      (j = i ∧ y = x ∧ p = (s.node x).delegate.nextPortName) ∨ s.portAt j y = some p := by
    rw [hport] at hp
    split_ifs at hp with hj
    · exact .inl ⟨hj.1, hj.2, (Option.some.inj hp).symm⟩
    · exact .inr hp
  refine ⟨⟨hserver, hclient, fun {y p port} hp => ?_, fun {y j p} hp => ?_,
    fun {y j j' p} hp hp' => ?_, fun {y j p} hp hnot => ?_, htoken⟩, hname⟩
  · rw [hget] at hp
    split_ifs at hp with hy
    · rw [hy.1, hy.2, hself]
      exact Nat.lt_succ_self _
    · exact (h.fresh hp).trans_le (hnext y)
  · rcases hcases hp with ⟨-, rfl, rfl⟩ | hp
    · rw [hself]
      exact Nat.lt_succ_self _
    · exact (h.known hp).trans_le (hnext y)
  · -- The name of the new port is not one that is known, so that it is at this end alone.
    rcases hcases hp with ⟨rfl, rfl, rfl⟩ | hp
    · rcases hcases hp' with ⟨rfl, -, -⟩ | hp'
      · rfl
      · exact absurd (h.known hp') (lt_irrefl _)
    · rcases hcases hp' with ⟨rfl, rfl, rfl⟩ | hp'
      · exact absurd (h.known hp) (lt_irrefl _)
      · exact h.inj hp hp'
  · rw [hget, hparent]
    rcases hcases hp with ⟨-, rfl, rfl⟩ | hp
    · rw [if_pos ⟨rfl, rfl⟩]
      exact .inl rfl
    · rw [if_neg]
      · rw [Initialized, hinitialized] at hnot
        exact h.uninitialized hp hnot
      · rintro ⟨rfl, rfl⟩
        exact lt_irrefl _ (h.known hp)

/-- A port of a process that reads what is sent to it is not erased. -/
theorem exists_uninitialized (h : s.Ends) (hp : s.portAt i x = some p)
    (hnot : ¬s.Initialized x p) (hreads : ∀ c, x = some c → s.parent c ≠ .dropped) :
    ∃ port, (s.node x).getPort p = some port ∧ port.state = .uninitialized := by
  rcases h.uninitialized hp hnot with hstate | ⟨-, c, hc, hdropped⟩
  · exact Option.map_eq_some_iff.1 hstate
  · exact absurd hdropped (hreads c hc)

/-- A port without a peer can be given one. -/
theorem initializePort (h : s.Ends) (hp : s.portAt i x = some p) (hnot : ¬s.Initialized x p)
    (hreads : ∀ c, x = some c → s.parent c ≠ .dropped) (n : NodeName) (q : PortName) :
    s.initializePort x p n q = some (s.setPeer x p n q) ∧ (s.setPeer x p n q).Ends ∧
      ∀ y, ((s.setPeer x p n q).node y).name = (s.node y).name := by
  obtain ⟨port, hport, hstate⟩ := h.exists_uninitialized hp hnot hreads
  have heq := Node.initializePort_of_uninitialized hport hstate n q
  have hok : s.initializePort x p n q = some (s.setPeer x p n q) := by
    simp only [Bootstraps.initializePort, setPeer, heq, if_true]
  obtain ⟨port', hget⟩ : ∃ port', ∀ y r, ((s.setPeer x p n q).node y).getPort r =
      if y = x ∧ r = p then some port' else (s.node y).getPort r := by
    refine ⟨{ port with state := .receiving, peerNodeName := n, peerPortName := q },
      fun y r => ?_⟩
    rw [setPeer, heq]
    by_cases hy : y = x
    · subst hy
      simp only [Function.update_self, true_and]
      exact Node.getPort_setPort (s.node y) p r _
    · rw [if_neg fun h => hy h.1]
      simp only [Function.update_of_ne hy]
  have hnext (y : Option K) : ((s.setPeer x p n q).node y).delegate.nextPortName =
      (s.node y).delegate.nextPortName := by
    rw [setPeer, heq]
    by_cases hy : y = x
    · subst hy
      simp only [Function.update_self]
      rfl
    · simp only [Function.update_of_ne hy]
  refine ⟨hok, ⟨h.server_lt, h.client_lt, fun {y r port} hr => ?_, fun {y j r} hr => ?_, h.inj,
    fun {y j r} hr hnot' => ?_, h.token⟩, fun y => ?_⟩
  · rw [hnext]
    rw [hget] at hr
    split_ifs at hr with hy
    · obtain ⟨rfl, rfl⟩ := hy
      exact h.known hp
    · exact h.fresh hr
  · rw [hnext]
    exact h.known hr
  · rw [initialized_setPeer, not_or] at hnot'
    rw [hget, if_neg hnot'.2]
    exact h.uninitialized hr hnot'.1
  · rw [setPeer, heq]
    by_cases hy : y = x
    · subst hy
      simp only [Function.update_self]
      rfl
    · simp only [Function.update_of_ne hy]

theorem other (h : s.Ends) {node : Node α} (hG : s.Sound (.other x node)) :
    { s with node := Function.update s.node x node }.Ends := by
  obtain ⟨hname, hnext, hfresh, hstate⟩ := hG
  refine ⟨h.server_lt, h.client_lt, fun {y p port} hp => ?_, fun {y j p} hp => ?_, h.inj,
    fun {y j p} hp hnot => ?_, h.token⟩
  · by_cases hy : y = x
    · subst hy
      simp only [Function.update_self] at hp ⊢
      exact hfresh ⟨p, port⟩ (AList.mem_lookup_iff.1 hp)
    · simp only [Function.update_of_ne hy] at hp ⊢
      exact h.fresh hp
  · by_cases hy : y = x
    · subst hy
      simp only [Function.update_self]
      exact (h.known hp).trans_le hnext
    · simp only [Function.update_of_ne hy]
      exact h.known hp
  · by_cases hy : y = x
    · subst hy
      simp only [Function.update_self]
      have hlt : j < s.pipes.length := by
        cases y with
        | none =>
          obtain ⟨z, hz, -⟩ := Option.map_eq_some_iff.1 hp
          exact h.server_lt hz
        | some c =>
          rw [portAt] at hp
          split_ifs at hp with hc
          exact (List.getElem?_eq_some_iff.1 hc).1
      have hsame := hstate j hlt p hp hnot
      refine (h.uninitialized hp hnot).imp hsame.trans (And.imp_left fun hnone => ?_)
      rwa [hnone, Option.map_none, Option.map_eq_none_iff] at hsame
    · simp only [Function.update_of_ne hy]
      exact h.uninitialized hp hnot

/-- A channel that was not dropped leads to the parent. -/
theorem setParent (h : s.Ends) (hne : s.parent c ≠ .dropped) (contact : Contact) :
    { s with parent := Function.update s.parent c contact }.Ends := by
  refine h.congr rfl rfl rfl rfl rfl fun c' hc' => ?_
  refine (Function.update_of_ne ?_ _ _).trans hc'
  rintro rfl
  exact hne hc'

/-- Ports of a child are erased when it does not get to know its parent. -/
theorem loseParent (h : s.Ends) (c : K) : (s.loseParent c).Ends ∧
    ∀ y, ((s.loseParent c).node y).name = (s.node y).name := by
  by_cases hpending : s.parent c = .pending
  case neg =>
    have heq : (s.loseParent c).node = s.node := if_neg hpending
    refine ⟨h.congr heq rfl rfl rfl rfl fun c' hc' => ?_, fun y => by rw [heq]⟩
    exact (Function.update_apply _ _ _ _).trans (ite_eq_left_iff.2 fun _ => hc')
  have hnode : (s.loseParent c).node = Function.update s.node (some c)
    ((s.node (some c)).lostConnectionToNode kInvalidNodeName) := if_pos hpending
  have hnext (y : Option K) : ((s.loseParent c).node y).delegate.nextPortName =
      (s.node y).delegate.nextPortName := by
    rw [hnode, Function.update_apply]
    split_ifs with hy
    · rw [hy, Node.lostConnectionToNode_eq]
    · rfl
  have hget (y : Option K) (q : PortName) : ((s.loseParent c).node y).getPort q =
      if y = some c then ((s.node y).getPort q).bind (Node.lostPort kInvalidNodeName)
      else (s.node y).getPort q := by
    rw [hnode, Function.update_apply]
    split_ifs with hy
    · rw [hy, Node.getPort_lostConnectionToNode]
    · rfl
  have hdropped {c' : K} (hc' : s.parent c' = .dropped) :
      (s.loseParent c).parent c' = .dropped :=
    (Function.update_apply _ _ _ _).trans (ite_eq_left_iff.2 fun _ => hc')
  refine ⟨⟨h.server_lt, h.client_lt, fun {y q port} hq => ?_, fun {y j q} hq => ?_, h.inj,
    fun {y j q} hq hnot => ?_, h.token⟩, fun y => ?_⟩
  · rw [hnext]
    rw [hget] at hq
    split_ifs at hq
    · obtain ⟨port', hport', -⟩ := Option.bind_eq_some_iff.1 hq
      exact h.fresh hport'
    · exact h.fresh hq
  · rw [hnext]
    exact h.known hq
  · rw [hget]
    split_ifs with hy
    · -- A port of the child is left as it is, or is erased.
      subst hy
      have hparent : (s.loseParent c).parent c = .dropped := Function.update_self _ _ _
      have hq : s.portAt j (some c) = some q := hq
      rcases h.uninitialized hq hnot with hstate | ⟨hnone, -⟩
      · obtain ⟨port, hport, hstate⟩ := Option.map_eq_some_iff.1 hstate
        rw [hport, Option.bind_some, Node.lostPort, hstate]
        split_ifs with hpeer hreceiving
        · cases hreceiving
        · cases hreceiving
        · exact .inr ⟨rfl, c, rfl, hparent⟩
        · exact .inl (congrArg some hstate)
      · exact .inr ⟨by rw [hnone, Option.bind_none], c, rfl, hparent⟩
    · exact (h.uninitialized hq hnot).imp_right
        (And.imp_right (Exists.imp fun c' => And.imp_right hdropped))
  · rw [hnode, Function.update_apply]
    split_ifs with hy
    · rw [hy, Node.lostConnectionToNode_eq]
    · rfl

end Ends

/-! ## Stops -/

omit [DecidableEq K] in
/-- The ports in the messages to the parent are those of the requests. -/
theorem mem_toParent {p : PortName} :
    (c, p) ∈ s.holds (.toParent c) ↔ ∃ t, .requestPortConnection p t ∈ s.toParent c := by
  rw [holds, ports, List.mem_filterMap]
  constructor
  · rintro ⟨m, hm, h⟩
    cases m with
    | acceptParent => cases h
    | requestPortConnection q t =>
      obtain rfl : q = p := (Prod.mk.inj (Option.some.inj h)).2
      exact ⟨t, hm⟩
  · rintro ⟨t, hm⟩
    exact ⟨_, hm, rfl⟩

omit [DecidableEq K] in
/-- The ports in the messages to a child are those of the answers. -/
theorem mem_toChild {p : PortName} :
    (c, p) ∈ s.holds (.toChild c) ↔ ∃ q, .connectToPort q p ∈ s.toChild c := by
  rw [holds, ports, List.mem_filterMap]
  constructor
  · rintro ⟨m, hm, h⟩
    cases m with
    | acceptChild => cases h
    | connectToPort q p' =>
      obtain rfl : p' = p := (Prod.mk.inj (Option.some.inj h)).2
      exact ⟨q, hm⟩
  · rintro ⟨q, hm⟩
    exact ⟨_, hm, rfl⟩

omit [DecidableEq K] in
/-- The ports that were initialized on a child. -/
theorem mem_initialized {p : PortName} :
    (c, p) ∈ s.holds .initialized ↔ s.Initialized (some c) p := by
  rw [holds, ports, List.mem_filterMap, Initialized, List.mem_map]
  constructor
  · rintro ⟨⟨x, p', n, q⟩, he, h⟩
    obtain ⟨c', rfl, h⟩ := Option.map_eq_some_iff.1 h
    obtain ⟨rfl, rfl⟩ := Prod.mk.inj h
    exact ⟨_, he, rfl⟩
  · rintro ⟨⟨x, p', n, q⟩, he, h⟩
    obtain ⟨rfl, rfl⟩ := Prod.mk.inj h
    exact ⟨_, he, rfl⟩

namespace Stops

variable {o o' : Stop K} {x : K × PortName} {l : List (K × PortName)}

omit [DecidableEq K] in
theorem congr (h : s.Stops) (hholds : s'.holds = s.holds)
    (hclient : ∀ i, s'.clientAt i = s.clientAt i) : s'.Stops := by
  refine ⟨hholds ▸ h.exclusive, fun x => ?_⟩
  simp only [hholds, hclient]
  exact h.mem_iff x

/-- The port of a child goes on to its next stop. -/
theorem shift (h : s.Stops) (o' : Stop K) (ho : s.holds o = x :: l) (hne : o' ≠ o)
    (hholds : s'.holds = Function.update (Function.update s.holds o l) o' (s.holds o' ++ [x]))
    (hclient : ∀ i, s'.clientAt i = s.clientAt i) : s'.Stops := by
  refine ⟨hholds ▸ h.exclusive.shift ho hne, fun y => ?_⟩
  have hmem (r : K × PortName) : r ∈ s.holds o ↔ r ∈ l ∨ r ∈ [x] := by
    rw [ho, List.mem_cons, List.mem_singleton, or_comm]
  simp only [hholds, hclient]
  rw [Exclusive.exists_mem_update_append_iff hmem hne]
  exact h.mem_iff y

/-- A child has a new port at the end of a pipe, which waits for the token. -/
theorem create (h : s.Stops) {i : ℕ} (hnew : ¬∃ j, s.clientAt j = some x)
    (hnone : s.clientAt i = none) (hnil : s.holds (.pipe i) = [])
    (hclient : ∀ j, s'.clientAt j = if j = i then some x else s.clientAt j)
    (hholds : s'.holds = Function.update s.holds (.pipe i) [x]) : s'.Stops := by
  have hpush := h.exclusive.push (o := .pipe i) fun o ho => hnew ((h.mem_iff x).1 ⟨o, ho⟩)
  rw [hnil, List.nil_append, ← hholds] at hpush
  refine ⟨hpush, fun y => ?_⟩
  simp only [hholds, hclient]
  constructor
  · rintro ⟨o, ho⟩
    rcases mem_or_mem_of_mem_update ho with ho | ho
    · exact ⟨i, (if_pos rfl).trans (congrArg some (List.mem_singleton.1 ho).symm)⟩
    · obtain ⟨j, hj⟩ := (h.mem_iff y).1 ⟨o, ho⟩
      refine ⟨j, (if_neg ?_).trans hj⟩
      rintro rfl
      cases hnone.symm.trans hj
  · rintro ⟨j, hj⟩
    split_ifs at hj with hji
    · refine ⟨.pipe i, ?_⟩
      rw [Function.update_self, Option.some.inj hj]
      exact List.mem_singleton_self _
    · obtain ⟨o, ho⟩ := (h.mem_iff y).2 ⟨j, hj⟩
      refine ⟨o, ?_⟩
      rw [Function.update_of_ne]
      · exact ho
      · rintro rfl
        rw [hnil] at ho
        cases ho

end Stops

end Steps

end Bootstraps

end MojoEdk.Controller
