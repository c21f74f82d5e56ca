import MojoEdk.Library.Machine
import MojoEdk.Ports.Every

/-!
# Ports that are not initialized yet

The two ends of a pipe between nodes are created without a peer
(`CreateUninitializedPort`), and each is given its peer later (`InitializePort`). Events may
reach an end before it has its peer, as the other end was initialized and used.

A user message is kept until then (`OnUserMessage`). The other events are not: what is not
receiving is taken for a proxy, and an end that has no peer passes `ObserveProxy` and
`ObserveClosure` on to nowhere (`OnObserveProxy`, `OnObserveClosure`). Among the events that
may reach an end, it is harmless for user messages only that the end gets its peer after
them (`harmless_iff`).
-/

namespace MojoEdk.Ports

variable {α : Type*}

/-! ## Calls on a node -/

/-- The calls on a node. -/
inductive Node.Input (α : Type*)
  | createUninitializedPort
  | initializePort (p : PortName) (peerNodeName : NodeName) (peerPortName : PortName)
  | createPortPair
  | sendMessage (p : PortName) (m : Message α)
  | getMessageIf (p : PortName) (selector : Option (Message α → Bool))
  | closePort (p : PortName)
  | acceptMessage (event : Event α)
  | lostConnectionToNode (lost : NodeName)

/-- A port that is not initialized has no peer. -/
def Port.Unset (port : Port α) : Prop :=
  port.state = .uninitialized → port.peerNodeName = kInvalidNodeName

namespace Node

variable {s : Node α} {p : PortName} {port : Port α}

def call (s : Node α) : Input α → Node α
  | .createUninitializedPort => s.createUninitializedPort.1
  | .initializePort p peerNodeName peerPortName => (s.initializePort p peerNodeName peerPortName).1
  | .createPortPair => s.createPortPair.1
  | .sendMessage p m => (s.sendMessage p m).1
  | .getMessageIf p selector => (s.getMessageIf p selector).1
  | .closePort p => (s.closePort p).1
  | .acceptMessage event => (s.acceptMessage event).1
  | .lostConnectionToNode lost => s.lostConnectionToNode lost

/-- A node, and any calls on it. -/
def machine (name : NodeName) : Machine (Node α) (Input α) where
  init := { name := name }
  step s c := some (s.call c)

/-- No port that is not initialized has a peer. -/
def Unset (s : Node α) : Prop := s.Every fun _ port => port.Unset

/-- Only a port that is not initialized is to have no peer. -/
theorem tame_unset : Tame fun (_ : PortName) (port : Port α) => port.Unset where
  created _ _ := rfl
  receiving h hport := by cases h.symm.trans hport
  buffering h hport := by cases h.symm.trans hport
  signalable h := h

/-- A port that forwards gives no port a peer that is not initialized. -/
theorem Unset.forwardMessages (h : s.Unset) (port : Port α) (p : PortName) :
    (s.forwardMessages port p).1.Unset :=
  Every.forwardMessagesAux (fun p _ => tame_unset.buffering (p := p)) h _ fun _ _ _ hport => hport

/-- A message that arrives gives no port a peer that is not initialized. -/
theorem Unset.onUserMessage (h : s.Unset) (m : Message α) : (s.onUserMessage m).1.Unset := by
  rw [Node.onUserMessage]
  have haccept := Every.acceptPorts tame_unset h (m.ports.zip m.descriptors)
  split
  next s' heq =>
    rw [heq] at haccept
    rw [queueUserMessage.eq_def]
    split
    next => exact haccept.closePorts m.ports
    next port hport =>
      have hport' : Port.Unset { port with
          messageQueue := (port.messageQueue.acceptMessage m).1 } := h m.portName port hport
      have hqueue : Unset (s'.setPort m.portName { port with
          messageQueue := (port.messageQueue.acceptMessage m).1 }) := haccept.setPort hport'
      split_ifs
      · dsimp only
        split
        · exact hqueue
        · -- A proxy forwards the message, and may go away then.
          split
          next heq =>
            have hforward := hqueue.forwardMessages
              { port with messageQueue := (port.messageQueue.acceptMessage m).1 } m.portName
            rw [heq] at hforward
            exact Every.maybeRemoveProxy hforward m.portName
          next heq =>
            have hforward := hqueue.forwardMessages
              { port with messageQueue := (port.messageQueue.acceptMessage m).1 } m.portName
            rw [heq] at hforward
            exact hforward
        · split_ifs
          · exact hqueue
          · exact hqueue
      · exact haccept.closePorts m.ports
  next heq =>
    rw [heq] at haccept
    exact haccept

/-- `OnPortAccepted` changes no port that is not initialized. -/
theorem Unset.onPortAccepted (h : s.Unset) (p : PortName) : (s.onPortAccepted p).1.Unset := by
  rw [Node.onPortAccepted]
  split
  next => exact h
  next port hport =>
    split_ifs
    · exact h
    · have hproxying : Port.Unset { port with state := .proxying } := fun h => by cases h
      have hproxy : Unset (s.setPort p { port with state := .proxying }) := Every.setPort h hproxying
      have hforward := hproxy.forwardMessages { port with state := .proxying } p
      dsimp only
      split
      next heq =>
        rw [heq] at hforward
        split_ifs
        · exact Every.maybeRemoveProxy hforward p
        · exact hforward
      next heq =>
        rw [heq] at hforward
        exact hforward

/-- An announcement changes no peer but that of a receiving port. -/
theorem Unset.onObserveProxy (h : s.Unset) (p : PortName) (event : ObserveProxyEventData) :
    (s.onObserveProxy p event).1.Unset := by
  rw [Node.onObserveProxy]
  split
  next => exact h
  next port hport =>
    split_ifs with hpeer hstate
    · exact Every.setPort h (tame_unset.receiving (p := p) hstate)
    · exact Every.setPort h (h p port hport)
    · exact h

/-- An acknowledgement changes no peer. -/
theorem Unset.onObserveProxyAck (h : s.Unset) (p : PortName) (lastSequenceNum : UInt64) :
    (s.onObserveProxyAck p lastSequenceNum).1.Unset := by
  rw [Node.onObserveProxyAck]
  split
  next => exact h
  next port hport =>
    split_ifs
    · exact h
    · exact h
    · have hproxy : Port.Unset { port with
          removeProxyOnLastMessage := true, lastSequenceNumToReceive := lastSequenceNum } :=
        h p port hport
      exact Every.maybeRemoveProxy (Every.setPort h hproxy) p

/-- A closure changes no peer. -/
theorem Unset.onObserveClosure (h : s.Unset) (p : PortName) (lastSequenceNum : UInt64) :
    (s.onObserveClosure p lastSequenceNum).1.Unset := by
  rw [Node.onObserveClosure]
  split
  next => exact h
  next port hport =>
    have hset (remove : Bool) : (s.setPort p { port with
        peerClosed := true
        lastSequenceNumToReceive := lastSequenceNum
        removeProxyOnLastMessage := remove }).Unset := Every.setPort h (h p port hport)
    dsimp only
    split_ifs
    · exact hset port.removeProxyOnLastMessage
    · exact Every.maybeRemoveProxy (hset true) p
    · exact hset true

/-- No event gives a port a peer that is not initialized. -/
theorem Unset.acceptMessage (h : s.Unset) (event : Event α) : (s.acceptMessage event).1.Unset := by
  cases event with
  | user m => exact h.onUserMessage m
  | portAccepted p => exact h.onPortAccepted p
  | observeProxy p data => exact h.onObserveProxy p data
  | observeProxyAck p lastSequenceNum => exact h.onObserveProxyAck p lastSequenceNum
  | observeClosure p lastSequenceNum => exact h.onObserveClosure p lastSequenceNum

/-- A message that is sent gives no port a peer that is not initialized. -/
theorem Unset.sendMessage (h : s.Unset) (p : PortName) (m : Message α) :
    (s.sendMessage p m).1.Unset := by
  rw [Node.sendMessage]
  split_ifs
  · exact h
  split
  next => exact h
  next port hport =>
    split_ifs
    · exact h
    · exact h
    · have hsent : Unset (s.willSendMessage port p m).1 :=
        Every.willSendMessage (fun p _ => tame_unset.buffering (p := p)) h port
          (fun _ => h p port hport) m
      split
      next s' m' heq =>
        rw [heq] at hsent
        split_ifs
        · exact hsent
        · exact hsent.acceptMessage (.user m')
      next heq =>
        rw [heq] at hsent
        exact hsent

/-- In any state of a node, a port that is not initialized has no peer. -/
theorem unset_of_reachable {name : NodeName} (hs : (machine name).Reachable Machine.Any s) :
    s.Unset := by
  refine hs.invariant (fun p port h => by cases h) fun {s i s'} h _ hstep => ?_
  cases hstep
  cases i with
  | createUninitializedPort => exact Every.createUninitializedPort tame_unset.created h
  | initializePort p n q =>
    exact Every.initializePort h p n q fun _ _ => tame_unset.receiving (p := p) rfl
  | createPortPair =>
    exact Every.createPortPair tame_unset.created h fun p _ _ _ _ _ =>
      tame_unset.receiving (p := p) rfl
  | sendMessage p m => exact h.sendMessage p m
  | getMessageIf p selector => exact Every.getMessageIf tame_unset h p selector
  | closePort p => exact Every.closePortAux h _ p
  | acceptMessage event => exact h.acceptMessage event
  | lostConnectionToNode lost => exact Every.lostConnectionToNode tame_unset h lost

/-! ## User messages -/

/-- The second node is as the first one, except for a port that is not initialized there, and
    was given its peer here. -/
structure Ahead (p : PortName) (n : NodeName) (q : PortName) (s s' : Node α) : Prop where
  port : ∃ port, s.getPort p = some port ∧ port.state = .uninitialized ∧
    s'.getPort p = some { port with state := .receiving, peerNodeName := n, peerPortName := q }
  getPort : ∀ p', p' ≠ p → s'.getPort p' = s.getPort p'
  forwarded : s'.delegate.forwarded = s.delegate.forwarded
  oops : s'.delegate.oops = s.delegate.oops

variable {s' : Node α} {n : NodeName} {q : PortName}

/-- A port is given its peer. -/
theorem ahead_initializePort (hport : s.getPort p = some port)
    (hstate : port.state = .uninitialized) (n : NodeName) (q : PortName) :
    Ahead p n q s (s.initializePort p n q).1 := by
  rw [initializePort_of_uninitialized hport hstate]
  refine ⟨⟨port, hport, hstate, (getPort_setPort ..).trans (if_pos rfl)⟩, fun p' hp' => ?_, rfl, rfl⟩
  exact (getPort_setPort ..).trans (if_neg hp')

/-- The same is done to another port. -/
theorem Ahead.setPort (h : Ahead p n q s s') {p' : PortName} (hp' : p' ≠ p) (port : Port α) :
    Ahead p n q (s.setPort p' port) (s'.setPort p' port) := by
  obtain ⟨port₀, hport, hstate, hport'⟩ := h.port
  refine ⟨⟨port₀, ?_, hstate, ?_⟩, fun p'' hp'' => ?_, h.forwarded, h.oops⟩
  · rw [getPort_setPort, if_neg hp'.symm, hport]
  · rw [getPort_setPort, if_neg hp'.symm, hport']
  · rw [getPort_setPort, getPort_setPort, h.getPort p'' hp'']

/-- The port changes, whether it was initialized before or not. -/
theorem Ahead.setPort_self (h : Ahead p n q s s') (hstate : port.state = .uninitialized) :
    Ahead p n q (s.setPort p port)
      (s'.setPort p { port with state := .receiving, peerNodeName := n, peerPortName := q }) := by
  refine ⟨⟨port, (getPort_setPort ..).trans (if_pos rfl), hstate,
    (getPort_setPort ..).trans (if_pos rfl)⟩, fun p' hp' => ?_, h.forwarded, h.oops⟩
  rw [getPort_setPort, getPort_setPort, if_neg hp', if_neg hp', h.getPort p' hp']

/-- Another port is erased. -/
theorem Ahead.erasePort (h : Ahead p n q s s') {p' : PortName} (hp' : p' ≠ p) :
    Ahead p n q (s.erasePort p') (s'.erasePort p') := by
  obtain ⟨port₀, hport, hstate, hport'⟩ := h.port
  refine ⟨⟨port₀, ?_, hstate, ?_⟩, fun p'' hp'' => ?_, h.forwarded, h.oops⟩
  · rw [getPort_erasePort, if_neg hp'.symm, hport]
  · rw [getPort_erasePort, if_neg hp'.symm, hport']
  · rw [getPort_erasePort, getPort_erasePort, h.getPort p'' hp'']

/-- The same event is forwarded. -/
theorem Ahead.forwardMessage (h : Ahead p n q s s') (n' : NodeName) (event : Event α) :
    Ahead p n q (s.forwardMessage n' event) (s'.forwardMessage n' event) :=
  ⟨h.port, h.getPort, congrArg (· ++ [(n', event)]) h.forwarded, h.oops⟩

/-- The same ports are there. -/
theorem Ahead.getPort_eq_none (h : Ahead p n q s s') {p' : PortName} :
    s'.getPort p' = none ↔ s.getPort p' = none := by
  by_cases hp' : p' = p
  · obtain ⟨port₀, hport, -, hport'⟩ := h.port
    rw [hp', hport, hport']
    exact iff_of_false nofun nofun
  · rw [h.getPort p' hp']

theorem Ahead.ne_of_none (h : Ahead p n q s s') {p' : PortName} (hp' : s.getPort p' = none) :
    p' ≠ p := by
  rintro rfl
  obtain ⟨port₀, hport, -, -⟩ := h.port
  rw [hp'] at hport
  cases hport

/-- `AcceptPort` binds the same ports. -/
theorem Ahead.acceptPorts (h : Ahead p n q s s') (ports : List (PortName × PortDescriptor)) :
    Ahead p n q (Node.acceptPorts ports s).1 (Node.acceptPorts ports s').1 ∧
      (Node.acceptPorts ports s').2 = (Node.acceptPorts ports s).2 := by
  induction ports generalizing s s' with
  | nil => exact ⟨h, rfl⟩
  | cons x ports ih =>
    obtain ⟨name, d⟩ := x
    rw [Node.acceptPorts, Node.acceptPorts]
    cases hname : s.getPort name with
    | none =>
      rw [acceptPort_of_none hname, acceptPort_of_none (h.getPort_eq_none.2 hname)]
      exact ih ((h.setPort (h.ne_of_none hname) _).forwardMessage _ _)
    | some port =>
      obtain ⟨port', hname'⟩ : ∃ port', s'.getPort name = some port' :=
        Option.ne_none_iff_exists'.1 fun hnone => by
          rw [h.getPort_eq_none.1 hnone] at hname
          cases hname
      rw [acceptPort_of_some hname, acceptPort_of_some hname']
      exact ⟨⟨h.port, h.getPort, h.forwarded, congrArg (· ++ [Oops.portExists]) h.oops⟩, rfl⟩

/-- What `AcceptPort` binds was not there before, and has no messages. -/
theorem acceptPorts_ok {ports : List (PortName × PortDescriptor)} {s₁ : Node α}
    (h : acceptPorts ports s = (s₁, .ok)) (name : PortName) :
    (name ∈ ports.map (·.1) ∧ s.getPort name = none ∧
      ∃ d, s₁.getPort name = some (acceptedPort d)) ∨
    name ∉ ports.map (·.1) ∧ s₁.getPort name = s.getPort name := by
  induction ports generalizing s with
  | nil =>
    cases h
    exact .inr ⟨List.not_mem_nil, rfl⟩
  | cons x ports ih =>
    obtain ⟨name₀, d⟩ := x
    rw [acceptPorts] at h
    cases hname₀ : s.getPort name₀ with
    | some port =>
      rw [acceptPort_of_some hname₀] at h
      cases h
    | none =>
      rw [acceptPort_of_none hname₀] at h
      have hget : Node.getPort ((s.setPort name₀ (acceptedPort d)).forwardMessage
          d.referringNodeName (.portAccepted d.referringPortName)) name =
          if name = name₀ then some (acceptedPort d) else s.getPort name := getPort_setPort ..
      rw [List.map_cons]
      -- The port that a name is bound to, if it is not one of the others.
      rcases ih h with ⟨hmem, hnone, hd⟩ | ⟨hmem, hsame⟩
      · rw [hget] at hnone
        split_ifs at hnone
        exact .inl ⟨List.mem_cons_of_mem _ hmem, hnone, hd⟩
      · rw [hget] at hsame
        split_ifs at hsame with heq
        · exact .inl ⟨heq ▸ List.mem_cons_self, heq ▸ hname₀, d, hsame⟩
        · exact .inr ⟨List.not_mem_cons_of_ne_of_not_mem heq hmem, hsame⟩

/-- A port without messages is closed, and nothing else happens. -/
theorem closePort_of_empty {name : PortName} (h : s.getPort name = some port)
    (hempty : port.messageQueue.heap = []) :
    (s.closePort name).1 = match port.state with
      | .uninitialized => s.erasePort name
      | .receiving => ((s.erasePort name).noteClosed name).forwardMessage port.peerNodeName
          (.observeClosure port.peerPortName (port.nextSequenceNumToSend - 1))
      | _ => s := by
  rw [closePort, closePortAux, h]
  have hnames : port.messageQueue.getReferencedPorts = [] := by
    rw [MessageQueue.getReferencedPorts, hempty]
    rfl
  simp only [hnames, List.foldl_nil]
  cases port.state <;> rfl

/-- Ports other than the one that is not initialized, which have no messages. -/
def Empty (p : PortName) (names : List PortName) (s : Node α) : Prop :=
  ∀ name ∈ names, name ≠ p ∧ ∀ port, s.getPort name = some port → port.messageQueue.heap = []

/-- Ports that have no messages are closed in the same way. -/
theorem Ahead.closePorts (h : Ahead p n q s s') {names : List PortName} (hempty : Empty p names s) :
    Ahead p n q (s.closePorts names) (s'.closePorts names) := by
  induction names generalizing s s' with
  | nil => exact h
  | cons name names ih =>
    obtain ⟨hne, hname⟩ := hempty name List.mem_cons_self
    rw [Node.closePorts, Node.closePorts, List.foldl_cons, List.foldl_cons, h.getPort name hne]
    have hrest : Empty p names s := fun x hx => hempty x (List.mem_cons_of_mem name hx)
    -- A port that was just bound has no messages: to close it closes no others.
    have herase : Empty p names (s.erasePort name) := fun x hx => by
      refine ⟨(hrest x hx).1, fun port hport => ?_⟩
      rw [getPort_erasePort] at hport
      split_ifs at hport
      exact (hrest x hx).2 port hport
    cases hport : s.getPort name with
    | none => exact ih h hrest
    | some port =>
      have hport' : s'.getPort name = some port := (h.getPort name hne).trans hport
      dsimp only
      rw [closePort_of_empty hport (hname port hport), closePort_of_empty hport' (hname port hport)]
      split
      · exact ih (h.erasePort hne) herase
      · have hclosed : Ahead p n q ((s.erasePort name).noteClosed name)
            ((s'.erasePort name).noteClosed name) := by
          have herased := h.erasePort hne
          exact ⟨herased.port, herased.getPort, herased.forwarded, herased.oops⟩
        exact ih (hclosed.forwardMessage _ _) herase
      · exact ih h hrest

/-- A user message does the same, whether or not the port that it is addressed to was given
    its peer. -/
theorem Ahead.onUserMessage (h : Ahead p n q s s') {m : Message α} (hp : m.portName = p)
    (hlength : m.ports.length = m.descriptors.length) :
    Ahead p n q (s.onUserMessage m).1 (s'.onUserMessage m).1 := by
  obtain ⟨port, hport, hstate, hport'⟩ := h.port
  obtain ⟨hports, hrv⟩ := h.acceptPorts (m.ports.zip m.descriptors)
  rw [Node.onUserMessage, Node.onUserMessage, hp, hport, hport']
  cases hs₁ : Node.acceptPorts (m.ports.zip m.descriptors) s with
  | mk s₁ rv =>
    cases hs₁' : Node.acceptPorts (m.ports.zip m.descriptors) s' with
    | mk s₁' rv' =>
      rw [hs₁, hs₁'] at hports hrv
      obtain rfl : rv' = rv := hrv
      cases rv' with
      | ok =>
        dsimp only
        rw [queueUserMessage.eq_def, queueUserMessage.eq_def]
        have haccept : Port.canAcceptMoreMessages { port with
            state := .receiving, peerNodeName := n, peerPortName := q } =
            port.canAcceptMoreMessages := rfl
        simp only [haccept, hstate]
        -- The test does not look at the state of the port, nor at its peer.
        by_cases hmore : port.canAcceptMoreMessages = true
        · rw [if_pos hmore, if_pos hmore]
          subst hp
          have hqueued : Port.state { port with
              state := .uninitialized, messageQueue := (port.messageQueue.acceptMessage m).1 } =
              .uninitialized := rfl
          have hset := hports.setPort_self hqueued
          split_ifs
          · exact ⟨hset.port, hset.getPort, hset.forwarded, hset.oops⟩
          · exact hset
        · rw [if_neg hmore, if_neg hmore]
          refine hports.closePorts fun name hname => ?_
          have hmem : name ∈ (m.ports.zip m.descriptors).map (·.1) := by
            rw [← List.unzip_fst, List.unzip_zip hlength]
            exact hname
          -- The ports to close are those just bound, and the port itself is none of them.
          rcases acceptPorts_ok hs₁ name with ⟨-, hnone, d, hd⟩ | ⟨hnot, -⟩
          · refine ⟨h.ne_of_none hnone, fun port' hport₁ => ?_⟩
            rw [hd] at hport₁
            cases hport₁
            rfl
          · exact absurd hmem hnot
      | _ => exact hports

/-! ## Which events are harmless -/

/-- The ports are the same, and the same events are in flight. -/
structure Alike (s s' : Node α) : Prop where
  getPort : ∀ p, s'.getPort p = s.getPort p
  forwarded : s'.delegate.forwarded.Perm s.delegate.forwarded
  oops : s'.delegate.oops = s.delegate.oops

/-- It makes no difference whether a port is given its peer before an event or after it. -/
def Harmless (s : Node α) (p : PortName) (n : NodeName) (q : PortName) (event : Event α) : Prop :=
  Alike ((s.acceptMessage event).1.initializePort p n q).1
    ((s.initializePort p n q).1.acceptMessage event).1

/-- The events that may reach a port that is not initialized yet. -/
inductive Early (p : PortName) : Event α → Prop
  | user {m : Message α} : m.portName = p → m.ports.length = m.descriptors.length →
    Early p (.user m)
  | observeProxy (data : ObserveProxyEventData) : Early p (.observeProxy p data)
  | observeClosure (lastSequenceNum : UInt64) : Early p (.observeClosure p lastSequenceNum)

/-- The port is given its peer at last. -/
theorem Ahead.alike (h : Ahead p n q s s') : Alike (s.initializePort p n q).1 s' := by
  obtain ⟨port, hport, hstate, hport'⟩ := h.port
  rw [initializePort_of_uninitialized hport hstate]
  refine ⟨fun p' => ?_, .of_eq h.forwarded, h.oops⟩
  change _ = Node.getPort (s.setPort p _) p'
  rw [getPort_setPort]
  split_ifs with hp'
  · rw [hp', hport']
  · exact h.getPort p' hp'

theorem forwarded_initializePort (s : Node α) (p : PortName) (n : NodeName) (q : PortName) :
    (s.initializePort p n q).1.delegate.forwarded = s.delegate.forwarded := by
  rw [initializePort]
  split
  next => rfl
  next => split_ifs <;> rfl

/-- An end that has its peer passes something on to the peer, which it would not have done
    before. -/
theorem not_alike {base : List (NodeName × Event α)} {event : Event α} (hn : n ≠ kInvalidNodeName)
    (hs : s.delegate.forwarded = base ∨
      ∃ event', s.delegate.forwarded = base ++ [(kInvalidNodeName, event')])
    (hs' : s'.delegate.forwarded = base ++ [(n, event)]) : ¬Alike s s' := by
  intro h
  have hperm := h.forwarded
  rw [hs'] at hperm
  rcases hs with hs | ⟨event', hs⟩
  · rw [hs] at hperm
    have hlength := hperm.length_eq
    rw [List.length_append, List.length_singleton] at hlength
    omega
  · rw [hs, List.perm_append_left_iff] at hperm
    exact hn (congrArg Prod.fst (List.singleton_inj.1 (List.perm_singleton.1 hperm)))

/-- It makes a difference for an announcement that reaches the port. -/
theorem not_harmless_observeProxy (hport : s.getPort p = some port)
    (hstate : port.state = .uninitialized) (hunset : port.peerNodeName = kInvalidNodeName)
    (hn : n ≠ kInvalidNodeName) (q : PortName) (data : ObserveProxyEventData) :
    ¬s.Harmless p n q (.observeProxy p data) := by
  have hset : (s.initializePort p n q).1.getPort p = some { port with
      state := .receiving, peerNodeName := n, peerPortName := q } := by
    rw [initializePort_of_uninitialized hport hstate]
    exact (getPort_setPort ..).trans (if_pos rfl)
  -- Before it is initialized, the port answers nothing, or passes the event on to no node.
  have hbefore : (s.onObserveProxy p data).1.delegate.forwarded = s.delegate.forwarded ∨
      ∃ event', (s.onObserveProxy p data).1.delegate.forwarded =
        s.delegate.forwarded ++ [(kInvalidNodeName, event')] := by
    have hreceiving : port.state ≠ .receiving := by
      rw [hstate]
      nofun
    rw [onObserveProxy, hport]
    dsimp only
    rw [if_neg hreceiving, hunset]
    split_ifs
    · exact .inl rfl
    · exact .inr ⟨_, rfl⟩
  -- After that, it answers the proxy or passes the event on to its peer.
  have hafter : ∃ event', ((s.initializePort p n q).1.onObserveProxy p data).1.delegate.forwarded =
      s.delegate.forwarded ++ [(n, event')] := by
    rw [onObserveProxy, hset, ← forwarded_initializePort s p n q]
    dsimp only
    rw [if_pos rfl]
    split_ifs with hpeer
    · rw [hpeer.1]
      exact ⟨_, rfl⟩
    · exact ⟨_, rfl⟩
  obtain ⟨event', hafter⟩ := hafter
  refine not_alike hn ?_ hafter
  rw [forwarded_initializePort]
  exact hbefore

/-- It makes a difference for a closure that reaches the port. -/
theorem not_harmless_observeClosure (hport : s.getPort p = some port)
    (hstate : port.state = .uninitialized) (hunset : port.peerNodeName = kInvalidNodeName)
    (hn : n ≠ kInvalidNodeName) (q : PortName) (lastSequenceNum : UInt64) :
    ¬s.Harmless p n q (.observeClosure p lastSequenceNum) := by
  have hset : (s.initializePort p n q).1.getPort p = some { port with
      state := .receiving, peerNodeName := n, peerPortName := q } := by
    rw [initializePort_of_uninitialized hport hstate]
    exact (getPort_setPort ..).trans (if_pos rfl)
  have hbefore : ∃ event', (s.onObserveClosure p lastSequenceNum).1.delegate.forwarded =
      s.delegate.forwarded ++ [(kInvalidNodeName, event')] := by
    rw [onObserveClosure, hport]
    simp only [hstate, hunset]
    exact ⟨_, rfl⟩
  have hafter : ∃ event', ((s.initializePort p n q).1.onObserveClosure p
      lastSequenceNum).1.delegate.forwarded = s.delegate.forwarded ++ [(n, event')] := by
    rw [onObserveClosure, hset, ← forwarded_initializePort s p n q]
    exact ⟨_, rfl⟩
  obtain ⟨event', hafter⟩ := hafter
  refine not_alike hn (.inr ?_) hafter
  rw [forwarded_initializePort]
  exact hbefore

/-- On any node, it makes no difference for a user message whether the end that it reaches is
    given its peer before or after, and it does make a difference for the other events. -/
theorem harmless_iff {name : NodeName} (hs : (machine name).Reachable Machine.Any s)
    (hport : s.getPort p = some port) (hstate : port.state = .uninitialized)
    (hn : n ≠ kInvalidNodeName) {event : Event α} (hevent : Early p event) :
    s.Harmless p n q event ↔ ∃ m, event = .user m := by
  have hunset := unset_of_reachable hs p port hport hstate
  cases hevent with
  | @user m hp hlength =>
    refine iff_of_true ?_ ⟨m, rfl⟩
    exact ((ahead_initializePort hport hstate n q).onUserMessage hp hlength).alike
  | observeProxy data =>
    exact iff_of_false (not_harmless_observeProxy hport hstate hunset hn q data) nofun
  | observeClosure lastSequenceNum =>
    exact iff_of_false (not_harmless_observeClosure hport hstate hunset hn q lastSequenceNum) nofun

/-- A node that has created its end of a pipe. -/
def created : Node ℕ := ({ name := 1 } : Node ℕ).createUninitializedPort.1

/-- The other node, on which the other end was given its peer, used and closed. -/
def closedFirst : Node ℕ :=
  [.createUninitializedPort, .createUninitializedPort, .initializePort 2 1 1,
    .sendMessage 2 ⟨0, 0, [], [], 7⟩, .closePort 2].foldl call { name := 2 }

/-- The message that was sent comes early. -/
theorem harmless_created : ∃ m, (1, .user m) ∈ closedFirst.delegate.forwarded ∧
    created.Harmless 1 2 2 (.user m) := by
  refine ⟨⟨1, 1, [], [], 7⟩, by decide, ?_⟩
  have hs : (machine 1).Reachable Machine.Any created :=
    .step (i := .createUninitializedPort) .init trivial rfl
  have hport : created.getPort 1 = some (Port.new 1 1) := by decide
  exact (harmless_iff hs hport rfl (by decide) (.user rfl rfl)).2 ⟨_, rfl⟩

/-- The closure comes early, and is not kept until the end has its peer: the end passes it on
    to nowhere. -/
theorem not_harmless_created : (machine 1).Reachable Machine.Any created ∧
    (1, .observeClosure 1 1) ∈ closedFirst.delegate.forwarded ∧
    ¬created.Harmless 1 2 2 (.observeClosure 1 1) := by
  refine ⟨.step (i := .createUninitializedPort) .init trivial rfl, by decide, fun h => ?_⟩
  have hmem := h.forwarded.mem_iff (a := (0, .observeClosure 0 1))
  exact absurd (hmem.2 (by decide)) (by decide)

end Node

end MojoEdk.Ports
