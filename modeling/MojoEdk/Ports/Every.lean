import MojoEdk.Ports.Refine.Losses

/-!
# What holds of every port of a node

The calls on a node change few of its ports. A property that a port has when it is
created, and whenever it is receiving or buffering (`Tame`), is kept by all that
does not concern proxies: creating and closing ports, reading messages, sending and
accepting ports, losing connections. What is left to show is what a proxy does.

No call changes the name of the node it is made on, nor leaves a port locked, unless an
assertion fails or a message to send is refused (`Node.Kept`).

What a node also keeps when it is given an event lasts as long as the run (`Lasting`,
`System.Every.step`).
-/

namespace MojoEdk.Ports

variable {α : Type*}

/-- A property that a port has when it is created, and whenever it is receiving or
    buffering. -/
structure Tame (P : PortName → Port α → Prop) : Prop where
  created : ∀ p, P p (Port.new kInitialSequenceNum kInitialSequenceNum)
  receiving : ∀ {p port}, port.state = .receiving → P p port
  buffering : ∀ {p port}, port.state = .buffering → P p port
  signalable : ∀ {p port}, P p port →
    P p { port with messageQueue := { port.messageQueue with signalable := true } }

namespace Node

/-- Every port of a node has a property. -/
def Every (P : PortName → Port α → Prop) (s : Node α) : Prop :=
  ∀ p port, s.getPort p = some port → P p port

variable {P : PortName → Port α → Prop} {s : Node α} {p : PortName} {port : Port α}

namespace Every

/-- A port is written of which it holds. -/
theorem setPort (h : s.Every P) (hport : P p port) : (s.setPort p port).Every P := by
  intro q port' hq
  rw [getPort_setPort] at hq
  split_ifs at hq with hqp
  · cases hq
    rw [hqp]
    exact hport
  · exact h q port' hq

theorem erasePort (h : s.Every P) : (s.erasePort p).Every P := by
  intro q port' hq
  rw [getPort_erasePort] at hq
  split_ifs at hq
  exact h q port' hq

/-- What every pass of a loop preserves, the loop preserves. -/
theorem foldl {β : Type*} {f : Node α → β → Node α} (hf : ∀ s b, s.Every P → (f s b).Every P)
    (l : List β) (h : s.Every P) : (l.foldl f s).Every P := by
  induction l generalizing s with
  | nil => exact h
  | cons b l ih => exact ih (hf s b h)

/-! ## Deleting ports -/

/-- Closing a port erases ports, and tells the peers: no port is changed by it. -/
theorem closePortAux (h : s.Every P) (depth : ℕ) (p : PortName) :
    (closePortAux depth s p).1.Every P := by
  induction depth generalizing s p with
  | zero => exact h
  | succ depth ih =>
    rw [Node.closePortAux]
    split
    next => exact h
    next port hport =>
      split
      · exact h.erasePort
      · refine foldl (fun s name hs => ?_) _ h.erasePort
        split
        · exact ih hs name
        · exact hs
      · exact h

theorem closePorts (h : s.Every P) (names : List PortName) : (s.closePorts names).Every P :=
  foldl (fun s name hs => by
    split
    · exact hs.closePortAux _ name
    · exact hs) names h

/-- A proxy is erased, or left as it is. -/
theorem maybeRemoveProxy (h : s.Every P) (p : PortName) : (s.maybeRemoveProxy p).Every P := by
  rw [Node.maybeRemoveProxy]
  split
  next => exact h
  next port hport =>
    have hoops : (if port.state = .proxying then s else s.oops .proxyStateUnexpected).Every P := by
      split_ifs
      · exact h
      · exact h
    dsimp only
    generalize (if port.state = .proxying then s else _) = s' at hoops ⊢
    split_ifs
    · split
      · exact hoops.erasePort
      · exact hoops.erasePort
    · exact hoops

/-! ## Sending ports -/

section Sending

variable (hP : ∀ p port, port.state = .buffering → P p port)
include hP

/-- The ports that are sent start buffering. -/
theorem willSendPorts (h : s.Every P) (n : NodeName) (names : List PortName) :
    (Node.willSendPorts n names s).1.Every P := by
  induction names generalizing s with
  | nil => exact h
  | cons name names ih =>
    rw [Node.willSendPorts]
    split
    next => exact ih h
    next port hport =>
      refine ih (s := (s.willSendPort port name n).1) ?_
      rw [willSendPort]
      have hoops : (if port.state = .receiving then s.generateRandomPortName.2
          else s.generateRandomPortName.2.oops .sentPortStateUnexpected).Every P := by
        split_ifs
        · exact h
        · exact h
      exact hoops.setPort (hP _ _ rfl)

/-- The port that sends is written, with whichever number is next, and the ports sent buffer. -/
theorem willSendMessage (h : s.Every P) (port : Port α)
    (hport : ∀ send, P p { port with nextSequenceNumToSend := send }) (m : Message α) :
    (s.willSendMessage port p m).1.Every P := by
  rw [Node.willSendMessage]
  split_ifs
  all_goals
    dsimp only
    split
    next error _ =>
      refine setPort ?_ (hport _)
      split_ifs
      · exact h.setPort (hport _)
      · exact h.setPort (hport _)
    next => exact willSendPorts hP (h.setPort (hport _)) _ _

/-- The messages that a port forwards change its queue and the number to send next. -/
theorem forwardMessagesAux (h : s.Every P) (length : ℕ) {p : PortName}
    (hp : ∀ port queue send, P p port →
      P p { port with messageQueue := queue, nextSequenceNumToSend := send }) :
    (forwardMessagesAux length s p).1.Every P := by
  induction length generalizing s with
  | zero => exact h
  | succ length ih =>
    rw [Node.forwardMessagesAux]
    split
    next => exact h
    next port hport =>
      split
      next => exact h
      next m queue _ =>
        -- The numbers of the queue and of the port change, whatever is sent.
        have hqueue (send : UInt64) : P p { port with
            messageQueue := queue, nextSequenceNumToSend := send } :=
          hp port queue send (h p port hport)
        have hsent := h.willSendMessage hP { port with messageQueue := queue } hqueue m
        dsimp only
        split
        next s' m' heq =>
          rw [heq] at hsent
          exact ih (s := s'.forwardMessage _ _) hsent
        next s' _ _ heq =>
          rw [heq] at hsent
          exact hsent

end Sending

/-! ## Creating ports -/

/-- A port is added of which it holds. -/
theorem addPortWithName (h : s.Every P) (hport : P p port) :
    (s.addPortWithName p port).1.Every P := by
  rw [Node.addPortWithName]
  split
  · exact h
  · exact h.setPort hport

/-- The name of a port that is added was generated before. -/
theorem nextPortName_addPortWithName :
    (s.addPortWithName p port).1.delegate.nextPortName = s.delegate.nextPortName := by
  rw [Node.addPortWithName]
  split
  · rfl
  · rfl

section Creating

variable (hnew : ∀ p, P p (Port.new kInitialSequenceNum kInitialSequenceNum))
include hnew

/-- A new port is uninitialized. -/
theorem createUninitializedPort (h : s.Every P) : s.createUninitializedPort.1.Every P :=
  addPortWithName (s := s.generateRandomPortName.2) h (hnew _)

omit hnew in
/-- A port starts receiving, with the peer that it is given. -/
theorem initializePort (h : s.Every P) (p : PortName) (n : NodeName) (q : PortName)
    (hinit : ∀ port, P p port → P p { port with
      state := .receiving, peerNodeName := n, peerPortName := q }) :
    (s.initializePort p n q).1.Every P := by
  rw [Node.initializePort]
  split
  next => exact h
  next port hport =>
    split_ifs
    · exact h.setPort (hinit port (h p port hport))
    · exact h

/-- The ports of a pair have new names. -/
theorem createPortPair (h : s.Every P) (hinit : ∀ p port n q,
      s.delegate.nextPortName ≤ p → P p port → P p { port with
        state := .receiving, peerNodeName := n, peerPortName := q }) :
    s.createPortPair.1.Every P := by
  rw [Node.createPortPair]
  have h₀ := h.createUninitializedPort hnew
  have hport0 : s.createUninitializedPort.2.1 = s.delegate.nextPortName := rfl
  have hnext : s.createUninitializedPort.1.delegate.nextPortName = s.delegate.nextPortName + 1 :=
    nextPortName_addPortWithName (s := s.generateRandomPortName.2)
  split
  next s₀ port0 heq =>
    rw [heq] at h₀ hport0 hnext
    have h₁ := h₀.createUninitializedPort hnew
    have hport1 : s₀.createUninitializedPort.2.1 = s₀.delegate.nextPortName := rfl
    split
    next s₁ port1 heq =>
      rw [heq] at h₁ hport1
      have hle : s.delegate.nextPortName ≤ port1 :=
        (Nat.le_succ _).trans (hnext.symm.trans hport1.symm).le
      have h₂ := h₁.initializePort port0 s₁.name port1 fun port => hinit _ port _ _ hport0.ge
      split
      next s₂ heq =>
        rw [heq] at h₂
        exact h₂.initializePort port1 s₂.name port0 fun port =>
          hinit _ port _ _ hle
      next heq =>
        rw [heq] at h₂
        exact h₂
    next heq =>
      rw [heq] at h₁
      exact h₁
  next heq =>
    rw [heq] at h₀
    exact h₀

end Creating

/-! ## Reading messages -/

/-- The ports of a message that is read become signalable. -/
theorem setSignalable (hP : ∀ {p port}, P p port →
      P p { port with messageQueue := { port.messageQueue with signalable := true } })
    (h : s.Every P) (names : List PortName) : (s.setSignalable names).Every P :=
  foldl (fun s name hs => by
    split
    next => exact hs
    next port hport =>
      have hoops : (if port.state = .receiving then s
          else s.oops .newPortStateUnexpected).Every P := by
        split_ifs
        · exact hs
        · exact hs
      exact hoops.setPort (hP (hs name port hport))) names h

variable (hP : Tame P)
include hP

/-- The port that is read from is receiving, and the ports of the message become signalable. -/
theorem getMessageIf (h : s.Every P) (p : PortName) (selector : Option (Message α → Bool)) :
    (s.getMessageIf p selector).1.Every P := by
  rw [Node.getMessageIf]
  split
  next => exact h
  next port hport =>
    split_ifs with hstate
    · exact h
    · exact h
    · split
      next => exact h
      next m queue _ =>
        have hqueue : P p { port with messageQueue := queue } := hP.receiving (not_not.1 hstate)
        exact setSignalable hP.signalable (h.setPort hqueue) m.ports

/-! ## Accepting ports -/

/-- The ports that are received are receiving. -/
theorem acceptPorts (h : s.Every P) (ports : List (PortName × PortDescriptor)) :
    (acceptPorts ports s).1.Every P := by
  induction ports generalizing s with
  | nil => exact h
  | cons x ports ih =>
    obtain ⟨name, d⟩ := x
    have haccept : (s.acceptPort name d).1.Every P := by
      rw [acceptPort]
      have hreceiving : P name { (Port.new d.nextSequenceNumToSend
          d.nextSequenceNumToReceive : Port α) with
          state := .receiving
          peerNodeName := d.peerNodeName
          peerPortName := d.peerPortName
          lastSequenceNumToReceive := d.lastSequenceNumToReceive
          peerClosed := d.peerClosed
          messageQueue := { (Port.new d.nextSequenceNumToSend d.nextSequenceNumToReceive :
            Port α).messageQueue with signalable := false } } := hP.receiving rfl
      have hadd := h.addPortWithName hreceiving
      dsimp only
      split
      next heq =>
        rw [heq] at hadd
        exact hadd
      next heq =>
        rw [heq] at hadd
        exact hadd
    rw [Node.acceptPorts]
    split
    next heq =>
      rw [heq] at haccept
      exact ih haccept
    next heq =>
      rw [heq] at haccept
      exact haccept

/-! ## Losing connections -/

/-- The ports that are told of the loss are receiving, and the others stay or are erased. -/
theorem lostConnectionToNode (h : s.Every P) (lost : NodeName) :
    (s.lostConnectionToNode lost).Every P := by
  intro p port hport
  rw [getPort_lostConnectionToNode] at hport
  obtain ⟨port₀, hport₀, hlost⟩ := Option.bind_eq_some_iff.1 hport
  rw [lostPort] at hlost
  split_ifs at hlost with _ hstate
  · cases hlost
    exact h p port hport₀
  · cases hlost
    exact hP.receiving hstate
  · cases hlost
    exact h p port hport₀

end Every

/-! ## What every call keeps -/

/-- A node has its name still, and no port more is locked unless an assertion failed. -/
def Kept (s ν : Node α) : Prop :=
  ν.name = s.name ∧
    (ν.delegate.oops = [] → s.delegate.oops = [] ∧ ν.delegate.locked = s.delegate.locked)

namespace Kept

variable {ν : Node α}

/-- A node on which nothing was done. -/
theorem refl (s : Node α) : s.Kept s := ⟨rfl, fun h => ⟨h, rfl⟩⟩

/-- A node keeps its name. -/
theorem name (h : s.Kept ν) : ν.name = s.name := h.1

/-- An assertion fails, whatever was locked before. -/
theorem oops (h : ν.name = s.name) (failure : Oops) : s.Kept (ν.oops failure) :=
  ⟨h, fun hoops => absurd (List.append_eq_nil_iff.1 hoops).2 (List.cons_ne_nil _ _)⟩

/-- Ports are changed one after the other. -/
theorem foldl {β : Type*} {f : Node α → β → Node α} (hf : ∀ ν b, s.Kept ν → s.Kept (f ν b))
    (l : List β) (h : s.Kept ν) : s.Kept (l.foldl f ν) := by
  induction l generalizing ν with
  | nil => exact h
  | cons b l ih => exact ih (hf ν b h)

/-- `ClosePort`, with the ports attached to the messages it leaves. -/
theorem closePortAux (h : s.Kept ν) (depth : ℕ) (p : PortName) :
    s.Kept (closePortAux depth ν p).1 := by
  induction depth generalizing ν p with
  | zero => exact h
  | succ depth ih =>
    rw [Node.closePortAux]
    split
    next => exact h
    next port _ =>
      split
      · exact h
      · refine foldl (fun ν name hν => ?_) _ h
        split
        · exact ih hν name
        · exact hν
      · exact h

/-- The ports of a message that is rejected are closed. -/
theorem closePorts (h : s.Kept ν) (names : List PortName) : s.Kept (ν.closePorts names) :=
  foldl (fun ν name hν => by
    split
    · exact hν.closePortAux _ name
    · exact hν) names h

/-- `MaybeRemoveProxy_Locked`. -/
theorem maybeRemoveProxy (h : s.Kept ν) (p : PortName) : s.Kept (ν.maybeRemoveProxy p) := by
  rw [Node.maybeRemoveProxy]
  split
  next => exact h
  next port _ =>
    have hoops : s.Kept (if port.state = .proxying then ν else ν.oops .proxyStateUnexpected) := by
      split_ifs
      · exact h
      · exact oops h.name _
    dsimp only
    generalize (if port.state = .proxying then ν else _) = ν' at hoops ⊢
    split_ifs
    · split
      · exact hoops
      · exact hoops
    · exact hoops

/-- `AddPortWithName`. -/
theorem addPortWithName (h : s.Kept ν) (p : PortName) (port : Port α) :
    s.Kept (ν.addPortWithName p port).1 := by
  rw [Node.addPortWithName]
  split
  · exact oops h.name _
  · exact h

/-- `CreateUninitializedPort`. -/
theorem createUninitializedPort (h : s.Kept ν) : s.Kept ν.createUninitializedPort.1 :=
  addPortWithName (ν := ν.generateRandomPortName.2) h _ _

/-- `InitializePort`. -/
theorem initializePort (h : s.Kept ν) (p : PortName) (n : NodeName) (q : PortName) :
    s.Kept (ν.initializePort p n q).1 := by
  rw [Node.initializePort]
  split
  · exact h
  · split_ifs
    · exact h
    · exact h

/-- `CreatePortPair`: a port fails to be created, or both are initialized. -/
theorem createPortPair (h : s.Kept ν) : s.Kept ν.createPortPair.1 := by
  rw [Node.createPortPair]
  have h₀ := h.createUninitializedPort
  split
  next s₀ port0 heq =>
    rw [heq] at h₀
    have h₁ := h₀.createUninitializedPort
    split
    next s₁ port1 heq =>
      rw [heq] at h₁
      have h₂ := h₁.initializePort port0 s₁.name port1
      split
      next s₂ heq =>
        rw [heq] at h₂
        exact h₂.initializePort port1 s₂.name port0
      next heq =>
        rw [heq] at h₂
        exact h₂
    next heq =>
      rw [heq] at h₁
      exact h₁
  next heq =>
    rw [heq] at h₀
    exact h₀

/-- The ports of a message handed out become signalable. -/
theorem setSignalable (h : s.Kept ν) (names : List PortName) : s.Kept (ν.setSignalable names) :=
  foldl (fun ν name hν => by
    split
    · exact oops hν.name _
    · dsimp only
      split_ifs
      · exact hν
      · exact oops hν.name .newPortStateUnexpected) names h

/-- `GetMessageIf`. -/
theorem getMessageIf (h : s.Kept ν) (p : PortName) (selector : Option (Message α → Bool)) :
    s.Kept (ν.getMessageIf p selector).1 := by
  rw [Node.getMessageIf]
  split
  next => exact h
  next port _ =>
    split_ifs
    · exact h
    · exact h
    · split
      next => exact h
      next m queue _ =>
        exact setSignalable (ν := ν.setPort p { port with messageQueue := queue }) h m.ports

/-- The ports attached to a message are renamed. -/
theorem willSendPorts (h : s.Kept ν) (n : NodeName) (names : List PortName) :
    s.Kept (willSendPorts n names ν).1 := by
  induction names generalizing ν with
  | nil => exact h
  | cons name names ih =>
    rw [Node.willSendPorts]
    split
    next => exact ih h
    next port _ =>
      refine ih (ν := (ν.willSendPort port name n).1) ?_
      rw [willSendPort]
      dsimp only
      split_ifs
      · exact h
      · exact oops h.name .sentPortStateUnexpected

/-- `WillSendMessage_Locked`: if a port is refused then those before it are locked. -/
theorem willSendMessage (h : s.Kept ν) (port : Port α) (p : PortName) (m : Message α) :
    (ν.willSendMessage port p m).1.name = s.name ∧
      ((ν.willSendMessage port p m).2.2 = .ok → s.Kept (ν.willSendMessage port p m).1) := by
  have hsent (port' : Port α) : s.Kept (Node.willSendPorts port.peerNodeName m.ports
      (ν.setPort p port')).1 := willSendPorts (ν := ν.setPort p port') h _ _
  rw [Node.willSendMessage]
  split_ifs
  all_goals
    dsimp only
    split
    next error herror =>
      refine ⟨?_, fun hok => ?_⟩
      · split_ifs
        · exact h.name
        · exact h.name
      · obtain ⟨q, -, hq⟩ := List.exists_of_findSome?_eq_some herror
        obtain rfl : error = .ok := hok
        exact absurd hq (sentPortError_ne_ok _ _ q)
    next => exact ⟨(hsent _).name, fun _ => hsent _⟩

/-- `ForwardMessages_Locked`: if a message is refused then an assertion fails. -/
theorem forwardMessages (h : s.Kept ν) (port : Port α) (p : PortName) :
    s.Kept (ν.forwardMessages port p).1 := by
  rw [Node.forwardMessages]
  induction port.messageQueue.heap.length generalizing ν with
  | zero => exact h
  | succ length ih =>
    rw [forwardMessagesAux]
    split
    next => exact h
    next port _ =>
      split
      next => exact h
      next m queue _ =>
        obtain ⟨hname, hok⟩ := h.willSendMessage { port with messageQueue := queue } p m
        dsimp only
        split
        next ν' m' heq =>
          rw [heq] at hok
          exact ih (ν := ν'.forwardMessage _ _) (hok rfl)
        next heq =>
          rw [heq] at hname
          exact oops hname _

/-- The ports of a message received are bound. -/
theorem acceptPorts (h : s.Kept ν) (ports : List (PortName × PortDescriptor)) :
    s.Kept (acceptPorts ports ν).1 := by
  induction ports generalizing ν with
  | nil => exact h
  | cons x ports ih =>
    have haccept : s.Kept (ν.acceptPort x.1 x.2).1 := by
      cases hp : ν.getPort x.1 with
      | some port =>
        rw [acceptPort_of_some hp]
        exact oops h.name _
      | none =>
        rw [acceptPort_of_none hp]
        exact h
    rw [Node.acceptPorts]
    split
    next heq =>
      rw [heq] at haccept
      exact ih haccept
    next heq =>
      rw [heq] at haccept
      exact haccept

/-- A message is queued, forwarded by a proxy, or rejected. -/
theorem queueUserMessage (h : s.Kept ν) (o : Option (Port α)) (m : Message α) :
    s.Kept (ν.queueUserMessage o m).1 := by
  rw [queueUserMessage.eq_def]
  split
  next => exact h.closePorts m.ports
  next port =>
    split_ifs
    · dsimp only
      split
      · exact h
      · have hforward := forwardMessages (ν := ν.setPort m.portName
          { port with messageQueue := (port.messageQueue.acceptMessage m).1 }) h
          { port with messageQueue := (port.messageQueue.acceptMessage m).1 } m.portName
        split
        next heq =>
          rw [heq] at hforward
          exact hforward.maybeRemoveProxy _
        next heq =>
          rw [heq] at hforward
          exact hforward
      · split_ifs
        · exact h
        · exact h
    · exact h.closePorts m.ports

/-- `OnUserMessage`. -/
theorem onUserMessage (h : s.Kept ν) (m : Message α) : s.Kept (ν.onUserMessage m).1 := by
  have haccept := h.acceptPorts (m.ports.zip m.descriptors)
  rw [Node.onUserMessage]
  split
  next heq =>
    rw [heq] at haccept
    exact haccept.queueUserMessage _ m
  next heq =>
    rw [heq] at haccept
    exact haccept

/-- `OnPortAccepted`. -/
theorem onPortAccepted (h : s.Kept ν) (p : PortName) : s.Kept (ν.onPortAccepted p).1 := by
  rw [Node.onPortAccepted]
  split
  next => exact oops h.name _
  next port _ =>
    split_ifs
    · exact oops h.name _
    · have hforward := forwardMessages (ν := ν.setPort p { port with state := .proxying }) h
        { port with state := .proxying } p
      dsimp only
      split
      next heq =>
        rw [heq] at hforward
        split_ifs
        · exact hforward.maybeRemoveProxy p
        · exact hforward
      next heq =>
        rw [heq] at hforward
        exact hforward

/-- `OnObserveProxy`. -/
theorem onObserveProxy (h : s.Kept ν) (p : PortName) (event : ObserveProxyEventData) :
    s.Kept (ν.onObserveProxy p event).1 := by
  rw [Node.onObserveProxy]
  split
  next => exact h
  next port _ =>
    split_ifs
    · exact h
    · exact h
    · exact h

/-- `OnObserveProxyAck`. -/
theorem onObserveProxyAck (h : s.Kept ν) (p : PortName) (last : UInt64) :
    s.Kept (ν.onObserveProxyAck p last).1 := by
  rw [Node.onObserveProxyAck]
  split
  next => exact h
  next port _ =>
    split_ifs
    · exact oops h.name _
    · exact h
    · exact maybeRemoveProxy (ν := ν.setPort p _) h p

/-- `OnObserveClosure`. -/
theorem onObserveClosure (h : s.Kept ν) (p : PortName) (last : UInt64) :
    s.Kept (ν.onObserveClosure p last).1 := by
  rw [Node.onObserveClosure]
  split
  next => exact h
  next port _ =>
    dsimp only
    split_ifs
    · exact h
    · exact maybeRemoveProxy (ν := ν.setPort p _) h p
    · exact h

/-- `AcceptMessage`, whatever the event is. -/
theorem acceptMessage (h : s.Kept ν) (event : Event α) : s.Kept (ν.acceptMessage event).1 := by
  cases event with
  | user m => exact h.onUserMessage m
  | portAccepted p => exact h.onPortAccepted p
  | observeProxy p data => exact h.onObserveProxy p data
  | observeProxyAck p last => exact h.onObserveProxyAck p last
  | observeClosure p last => exact h.onObserveClosure p last

/-- `SendMessage`: as `WillSendMessage_Locked`. -/
theorem sendMessage (h : s.Kept ν) (p : PortName) (m : Message α) :
    (ν.sendMessage p m).1.name = s.name ∧
      ((ν.sendMessage p m).2.2 = .ok → s.Kept (ν.sendMessage p m).1) := by
  rw [Node.sendMessage]
  split_ifs
  · exact ⟨h.name, fun _ => h⟩
  split
  next => exact ⟨h.name, fun _ => h⟩
  next port _ =>
    split_ifs
    · exact ⟨h.name, fun _ => h⟩
    · exact ⟨h.name, fun _ => h⟩
    · obtain ⟨hname, hok⟩ := h.willSendMessage port p m
      split
      next ν' m' heq =>
        rw [heq] at hok
        split_ifs
        · exact ⟨(hok rfl).name, fun _ => hok rfl⟩
        · have haccept := (hok rfl).acceptMessage (.user m')
          exact ⟨haccept.name, fun _ => haccept⟩
      next heq =>
        rw [heq] at hname hok
        exact ⟨hname, hok⟩

end Kept

end Node

/-! ## Runs -/

/-- A property of the ports of a node that it keeps when it is given an event, unless an
    assertion fails. -/
structure Lasting (P : PortName → Port α → Prop) : Prop extends Tame P where
  acceptMessage : ∀ {s : Node α} (event : Event α), s.Every P →
    (s.acceptMessage event).1.delegate.oops = [] → (s.acceptMessage event).1.Every P

variable {P : PortName → Port α → Prop}

/-- `SendMessage`, where it accepts its own message if the peer is on the node. -/
theorem Node.Every.sendMessage {s : Node α} (hP : Lasting P) (h : s.Every P) (p : PortName)
    (m : Message α) (hoops : (s.sendMessage p m).1.delegate.oops = []) :
    (s.sendMessage p m).1.Every P := by
  rw [Node.sendMessage] at hoops ⊢
  split_ifs at hoops ⊢
  · exact h
  split at hoops
  next => exact h
  next port hport =>
    split_ifs at hoops ⊢ with hstate
    · exact h
    · exact h
    · have hsent : (s.willSendMessage port p m).1.Every P :=
        willSendMessage (fun _ _ => hP.buffering) h port
          (fun _ => hP.receiving (not_not.1 hstate)) m
      split at hoops
      next s' m' heq =>
        rw [heq] at hsent
        split_ifs at hoops ⊢
        · exact hsent
        · -- The peer is on the same node, which is given the message at once.
          exact hP.acceptMessage (.user m') hsent hoops
      next heq =>
        rw [heq] at hsent
        exact hsent

namespace System

variable {s s' : System α} {ν : Node α} {act : Action α}

/-- Every port of every node has a property. -/
def Every (P : PortName → Port α → Prop) (s : System α) : Prop := ∀ n, (s.node n).Every P

namespace Every

/-- A call on a node starts with the ports that it has. -/
theorem start (h : s.Every P) (n : NodeName) : (s.start n).Every P := h n

/-- The ports of the other nodes stay as they are. -/
theorem commit (h : s.Every P) (hν : ν.Every P) : (s.commit ν).Every P := by
  intro n p port hport
  rw [getPort_commit] at hport
  split_ifs at hport
  · exact hν p port hport
  · exact h n p port hport

/-- If no assertion failed in the system then none failed in the call. -/
theorem commit_of_oops (h : s.Every P) (hν : ν.delegate.oops = [] → ν.Every P)
    (hoops : (s.commit ν).oops = []) : (s.commit ν).Every P :=
  h.commit (hν (List.append_eq_nil_iff.1 hoops).2)

/-- An action keeps the property, unless an assertion fails. -/
theorem step (hP : Lasting P) (h : s.Every P) (hs : s.step act = some s') (hoops : s'.oops = []) :
    s'.Every P := by
  rw [System.step.eq_def] at hs
  split_ifs at hs
  cases act with
  | createPortPair n =>
    obtain rfl := Option.some.inj hs
    exact h.commit (Node.Every.createPortPair hP.created (h.start n)
      fun _ _ _ _ _ _ => hP.receiving rfl)
  | connect n₀ n₁ =>
    obtain rfl := Option.some.inj hs
    have hcreate : ∀ {s : System α}, s.Every P → ∀ n,
        (s.commit (s.start n).createUninitializedPort.1).Every P := fun hs n =>
      hs.commit (Node.Every.createUninitializedPort hP.created (hs.start n))
    have hinit : ∀ {s : System α}, s.Every P → ∀ n p n' p',
        (s.commit ((s.start n).initializePort p n' p').1).Every P := fun hs n p n' p' =>
      hs.commit (Node.Every.initializePort (hs.start n) p n' p' fun _ _ => hP.receiving rfl)
    exact hinit (hinit (hcreate (hcreate h n₀) n₁) n₀ _ n₁ _) n₁ _ n₀ _
  | sendMessage n p payload ports =>
    obtain rfl := Option.some.inj hs
    have hsent := Node.Every.sendMessage hP (h.start n) p (Message.newUserMessage payload ports)
    rw [System.sendMessage] at hoops ⊢
    split at hoops
    next heq =>
      rw [heq] at hsent
      exact h.commit_of_oops hsent hoops
    next heq =>
      rw [heq] at hsent
      exact h.commit_of_oops hsent hoops
  | getMessageIf n p selector =>
    obtain rfl := Option.some.inj hs
    have hread := Node.Every.getMessageIf hP.toTame (h.start n) p selector
    rw [System.getMessageIf]
    split
    next heq =>
      rw [heq] at hread
      exact h.commit hread
    next heq =>
      rw [heq] at hread
      exact h.commit hread
  | closePort n p =>
    obtain rfl := Option.some.inj hs
    exact h.commit (Node.Every.closePortAux (h.start n) _ p)
  | acceptMessage i =>
    simp only at hs
    split at hs
    · cases hs
    next n event _ =>
      obtain rfl := Option.some.inj hs
      exact commit_of_oops (s := { s with inFlight := s.inFlight.eraseIdx i }) h
        (hP.acceptMessage event (h.start n)) hoops
  | lostConnectionToNode n lost =>
    obtain rfl := Option.some.inj hs
    exact h.commit (Node.Every.lostConnectionToNode hP.toTame (h.start n) lost)

end Every

end System

end MojoEdk.Ports
