import MojoEdk.Ports.Disconnection
import MojoEdk.Ports.Every

/-!
# Notifications

A port that the embedder holds is told of what it has to learn: whenever `GetStatus`
comes to report messages, or that the peer is closed, `PortStatusChanged` is called for the
port, unless it is `GetMessage` on the port itself that uncovers the next message
(`System.Reachable.notified`).

* A message that arrives is signaled if it is the next one and the queue is signalable. The
  queue of a port that was transferred is not, until `GetMessage` hands it out.
* A port is told of a closure, and of a connection that is lost to its peer.
* No other call changes the queue of a receiving port.
-/

namespace MojoEdk.Ports

variable {α : Type*}

/-! ## What the embedder learns -/

/-- A property of a port as long as it is receiving. -/
def About (p : PortName) (Q : Port α → Prop) (q : PortName) (port : Port α) : Prop :=
  q = p → port.state = .receiving → Q port

/-- A property of the queue of a port, but for the messages in it, or of what is known about
    its peer. -/
structure Steady (Q : Port α → Prop) : Prop where
  congr : ∀ {port port' : Port α}, port'.messageQueue = port.messageQueue →
    port'.peerClosed = port.peerClosed → Q port → Q port'
  signalable : ∀ {port : Port α}, Q port →
    Q { port with messageQueue := { port.messageQueue with signalable := true } }

/-- A port whose queue is signalable. -/
def Signalable (port : Port α) : Prop := port.messageQueue.signalable = true

/-- There is nothing to learn from a port that was not known before. -/
def Known (port₀ port : Port α) : Prop :=
  (port.messageQueue.hasNextMessage = true → port₀.messageQueue.hasNextMessage = true) ∧
  (port.peerClosed = true → port₀.peerClosed = true)

theorem steady_signalable : Steady (Signalable (α := α)) where
  congr hqueue _ h := by rwa [Signalable, hqueue]
  signalable _ := rfl

theorem steady_known (port₀ : Port α) : Steady (Known port₀) where
  congr hqueue hclosed h := by rwa [Known, hqueue, hclosed]
  signalable h := h

theorem Steady.and {Q R : Port α → Prop} (hQ : Steady Q) (hR : Steady R) :
    Steady fun port => Q port ∧ R port where
  congr hqueue hclosed h := ⟨hQ.congr hqueue hclosed h.1, hR.congr hqueue hclosed h.2⟩
  signalable h := ⟨hQ.signalable h.1, hR.signalable h.2⟩

namespace Node

variable {s : Node α} {p : PortName} {port₀ : Port α} {Q : Port α → Prop}

/-- The queue of a port is signalable, and the embedder is told of all there is to learn. -/
structure Told (p : PortName) (port₀ : Port α) (s : Node α) : Prop where
  signalable : s.Every (About p Signalable)
  told : p ∈ s.delegate.statusChanged ∨ s.Every (About p (Known port₀))

theorem Told.of_every (h : s.Every (About p fun port => Signalable port ∧ Known port₀ port)) :
    s.Told p port₀ where
  signalable q port hq hqp hstate := (h q port hq hqp hstate).1
  told := .inr fun q port hq hqp hstate => (h q port hq hqp hstate).2

/-- A port that is there is not replaced by one that is received. -/
theorem getPort_acceptPort {port : Port α} (h : s.getPort p = some port) (q : PortName)
    (d : PortDescriptor) : (s.acceptPort q d).1.getPort p = some port := by
  cases hq : s.getPort q with
  | some port' =>
    rw [acceptPort_of_some hq]
    exact h
  | none =>
    have hne : p ≠ q := by
      rintro rfl
      cases hq.symm.trans h
    rw [acceptPort_of_none hq]
    exact (getPort_setPort ..).trans ((if_neg hne).trans h)

theorem getPort_acceptPorts {port : Port α} (h : s.getPort p = some port)
    (ports : List (PortName × PortDescriptor)) :
    (acceptPorts ports s).1.getPort p = some port := by
  induction ports generalizing s with
  | nil => exact h
  | cons x ports ih =>
    obtain ⟨q, d⟩ := x
    have haccept := getPort_acceptPort h q d
    rw [acceptPorts]
    split
    next heq =>
      rw [heq] at haccept
      exact ih haccept
    next heq =>
      rw [heq] at haccept
      exact haccept

namespace Every

/-! ## Calls that leave the queue alone -/

theorem about_of_getPort {s' : Node α} (h : s.Every (About p Q))
    (hget : s'.getPort p = s.getPort p) : s'.Every (About p Q) := by
  rintro q port hq rfl hstate
  exact h q port (hget ▸ hq) rfl hstate

theorem about_of_ne {port : Port α} (h : port.state ≠ .receiving) (q : PortName) :
    About p Q q port := fun _ hstate => absurd hstate h

theorem about_willSendMessage (hQ : Steady Q) (h : s.Every (About p Q)) {q : PortName}
    {port : Port α} (hq : s.getPort q = some port) (m : Message α) :
    (s.willSendMessage port q m).1.Every (About p Q) := by
  refine willSendMessage (fun q _ hstate => about_of_ne (by simp [hstate]) q) h port ?_ m
  intro send hqp hstate
  have hport : Q port := h q port hq hqp hstate
  have hqueue : { port with nextSequenceNumToSend := send }.messageQueue = port.messageQueue := rfl
  exact hQ.congr hqueue rfl hport

/-- A proxy that forwards its messages is another port. -/
theorem about_forwardMessages (h : s.Every (About p Q)) {q : PortName}
    (hq : q = p → s.Every (About p fun _ => False)) (port : Port α) :
    (s.forwardMessages port q).1.Every (About p Q) := by
  have hbuf : ∀ {R : Port α → Prop} q (port : Port α), port.state = .buffering →
      About p R q port := fun q _ hstate => about_of_ne (by simp [hstate]) q
  by_cases hqp : q = p
  · have hnone := forwardMessagesAux hbuf (hq hqp) port.messageQueue.heap.length (p := q)
      fun _ _ _ hport => hport
    exact fun q' port' hq' hqp' hstate => (hnone q' port' hq' hqp' hstate).elim
  · exact forwardMessagesAux hbuf h _ fun _ _ _ _ heq => absurd heq hqp

/-- A port that is no longer receiving. -/
theorem about_setPort (h : s.Every (About p Q)) {q : PortName} {port : Port α}
    (hstate : port.state ≠ .receiving) :
    (s.setPort q port).Every (About p Q) ∧
      (q = p → (s.setPort q port).Every (About p fun _ => False)) := by
  refine ⟨h.setPort (about_of_ne hstate q), ?_⟩
  rintro rfl q' port' hq' rfl hstate'
  rw [getPort_setPort, if_pos rfl] at hq'
  cases hq'
  exact hstate hstate'

theorem about_onPortAccepted (h : s.Every (About p Q)) (q : PortName) :
    (s.onPortAccepted q).1.Every (About p Q) := by
  rw [onPortAccepted]
  split
  next => exact h
  next port hport =>
    split_ifs
    · exact h
    · have hstate : { port with state := .proxying }.state ≠ .receiving := by simp
      obtain ⟨hset, hnone⟩ := h.about_setPort (q := q) hstate
      have hforward := hset.about_forwardMessages hnone { port with state := .proxying }
      dsimp only
      split
      next heq =>
        rw [heq] at hforward
        split_ifs
        · exact maybeRemoveProxy hforward q
        · exact hforward
      next heq =>
        rw [heq] at hforward
        exact hforward

theorem about_onObserveProxy (hQ : Steady Q) (h : s.Every (About p Q)) (q : PortName)
    (event : ObserveProxyEventData) : (s.onObserveProxy q event).1.Every (About p Q) := by
  rw [onObserveProxy]
  split
  next => exact h
  next port hport =>
    have hset : ∀ {port' : Port α}, port'.messageQueue = port.messageQueue →
        port'.peerClosed = port.peerClosed → port'.state = port.state →
        (s.setPort q port').Every (About p Q) := fun hqueue hclosed hstate =>
      h.setPort fun hqp hrec => hQ.congr hqueue hclosed (h q port hport hqp (hstate ▸ hrec))
    split_ifs
    · exact hset rfl rfl rfl
    · exact hset rfl rfl rfl
    · exact h

theorem about_onObserveProxyAck (h : s.Every (About p Q)) (q : PortName) (last : UInt64) :
    (s.onObserveProxyAck q last).1.Every (About p Q) := by
  rw [onObserveProxyAck]
  split
  next => exact h
  next port hport =>
    split_ifs with hstate
    · exact h
    · exact h
    · rw [not_not] at hstate
      exact maybeRemoveProxy (h.setPort (about_of_ne (by simp [hstate]) q)) q

end Every

/-! ## Messages and closures -/

theorem acceptMessage_signals {q : MessageQueue α} (h : q.signalable = true) (m : Message α) :
    (q.acceptMessage m).2 = (q.acceptMessage m).1.hasNextMessage := by
  simp only [MessageQueue.acceptMessage, h, Bool.true_and]

/-- A message is queued, and signaled if the port has to learn of it. -/
theorem told_queueUserMessage
    (h : s.Every (About p fun port => Signalable port ∧ Known port₀ port)) (m : Message α)
    {o : Option (Port α)}
    (ho : ∀ port, o = some port → m.portName = p → s.getPort p = some port) :
    (s.queueUserMessage o m).1.Told p port₀ := by
  rw [queueUserMessage.eq_def]
  split
  next => exact .of_every (Every.closePorts h m.ports)
  next port =>
    split_ifs
    · set port' : Port α := { port with messageQueue := (port.messageQueue.acceptMessage m).1 }
      by_cases hsame : m.portName = p ∧ port.state = .receiving
      · obtain ⟨hmp, hrec⟩ := hsame
        obtain ⟨hsig, hknown⟩ := h p port (ho port rfl hmp) rfl hrec
        have hset : (s.setPort m.portName port').Every (About p Signalable) :=
          Every.setPort (fun q port hq hqp hstate => (h q port hq hqp hstate).1) fun _ _ => hsig
        dsimp only
        split
        next heq => cases hrec.symm.trans heq
        next heq => cases hrec.symm.trans heq
        next =>
          rw [acceptMessage_signals hsig]
          split_ifs with hnext
          · exact ⟨hset, .inl (hmp ▸ List.mem_append_right _ List.mem_cons_self)⟩
          · refine ⟨hset, .inr (Every.setPort (fun q port hq hqp hstate =>
              (h q port hq hqp hstate).2) fun _ _ => ⟨fun hn => absurd hn hnext, hknown.2⟩)⟩
      · -- The message is for another port, or for a proxy.
        obtain ⟨hset, hnone⟩ : (s.setPort m.portName port').Every
              (About p fun port => Signalable port ∧ Known port₀ port) ∧
            (m.portName = p → (s.setPort m.portName port').Every (About p fun _ => False)) := by
          by_cases hmp : m.portName = p
          · exact h.about_setPort fun hrec => hsame ⟨hmp, hrec⟩
          · exact ⟨h.setPort fun heq => absurd heq hmp, fun heq => absurd heq hmp⟩
        have hforward := hset.about_forwardMessages hnone port'
        refine .of_every ?_
        dsimp only
        split
        · exact hset
        · split
          next heq =>
            rw [heq] at hforward
            exact Every.maybeRemoveProxy hforward m.portName
          next heq =>
            rw [heq] at hforward
            exact hforward
        · split_ifs
          · exact hset
          · exact hset
    · exact .of_every (Every.closePorts h m.ports)

theorem told_onUserMessage (hp : s.getPort p ≠ none)
    (h : s.Every (About p fun port => Signalable port ∧ Known port₀ port)) (m : Message α) :
    (s.onUserMessage m).1.Told p port₀ := by
  obtain ⟨port, hport⟩ := Option.ne_none_iff_exists'.1 hp
  have hget := getPort_acceptPorts hport (m.ports.zip m.descriptors)
  have haccept := h.about_of_getPort (hget.trans hport.symm)
  rw [onUserMessage]
  split
  next heq =>
    rw [heq] at haccept hget
    refine told_queueUserMessage haccept m fun port' hport' hmp => hget.trans ?_
    rw [hmp, hport] at hport'
    exact hport'
  next heq =>
    rw [heq] at haccept
    exact .of_every haccept

theorem told_onObserveClosure
    (h : s.Every (About p fun port => Signalable port ∧ Known port₀ port)) (q : PortName)
    (last : UInt64) : (s.onObserveClosure q last).1.Told p port₀ := by
  rw [onObserveClosure]
  split
  next => exact .of_every h
  next port hport =>
    dsimp only
    by_cases hrec : port.state = .receiving
    · rw [if_pos hrec]
      by_cases hqp : q = p
      · refine ⟨Every.setPort (fun q port hq hqp hstate => (h q port hq hqp hstate).1)
          fun hqp hstate => (h q port hport hqp hstate).1, .inl ?_⟩
        exact hqp ▸ List.mem_append_right _ List.mem_cons_self
      · exact .of_every (h.setPort fun heq => absurd heq hqp)
    · rw [if_neg hrec]
      set port' : Port α := { port with
        peerClosed := true, lastSequenceNumToReceive := last, removeProxyOnLastMessage := true }
      have hset : (s.setPort q port').Every
          (About p fun port => Signalable port ∧ Known port₀ port) :=
        h.setPort (Every.about_of_ne (show port'.state ≠ .receiving from hrec) q)
      refine .of_every ?_
      split_ifs
      · exact Every.maybeRemoveProxy hset q
      · exact hset

/-- An event is accepted, and the port told of what it has to learn. -/
theorem told_acceptMessage (hp : s.getPort p ≠ none)
    (h : s.Every (About p fun port => Signalable port ∧ Known port₀ port)) (event : Event α) :
    (s.acceptMessage event).1.Told p port₀ := by
  have hQ := steady_signalable.and (steady_known port₀)
  cases event with
  | user m => exact told_onUserMessage hp h m
  | portAccepted q => exact .of_every (h.about_onPortAccepted q)
  | observeProxy q data => exact .of_every (h.about_onObserveProxy hQ q data)
  | observeProxyAck q last => exact .of_every (h.about_onObserveProxyAck q last)
  | observeClosure q last => exact told_onObserveClosure h q last

/-! ## Sending and reading messages -/

theorem getPort_ne_none_setPort (hp : s.getPort p ≠ none) (q : PortName) (port : Port α) :
    (s.setPort q port).getPort p ≠ none := by
  rw [getPort_setPort]
  split_ifs
  · exact Option.some_ne_none port
  · exact hp

theorem getPort_ne_none_willSendPorts (n : NodeName) (names : List PortName)
    (hp : s.getPort p ≠ none) : (willSendPorts n names s).1.getPort p ≠ none := by
  induction names generalizing s with
  | nil => exact hp
  | cons name names ih =>
    rw [willSendPorts]
    split
    next => exact ih hp
    next port _ =>
      refine ih (s := (s.willSendPort port name n).1) ?_
      rw [willSendPort]
      have hoops : (if port.state = .receiving then s.generateRandomPortName.2
          else s.generateRandomPortName.2.oops .sentPortStateUnexpected).getPort p ≠ none := by
        split_ifs
        · exact hp
        · exact hp
      exact getPort_ne_none_setPort hoops name _

/-- A send deletes no port. -/
theorem getPort_ne_none_willSendMessage (hp : s.getPort p ≠ none) (port : Port α) (q : PortName)
    (m : Message α) : (s.willSendMessage port q m).1.getPort p ≠ none := by
  rw [willSendMessage]
  split_ifs
  all_goals
    dsimp only
    split
    next =>
      refine getPort_ne_none_setPort ?_ q _
      split_ifs
      · exact getPort_ne_none_setPort hp q _
      · exact getPort_ne_none_setPort hp q _
    next => exact getPort_ne_none_willSendPorts _ _ (getPort_ne_none_setPort hp q _)

theorem told_sendMessage (hp : s.getPort p ≠ none)
    (h : s.Every (About p fun port => Signalable port ∧ Known port₀ port)) (q : PortName)
    (m : Message α) : (s.sendMessage q m).1.Told p port₀ := by
  rw [sendMessage]
  split_ifs
  · exact .of_every h
  split
  next => exact .of_every h
  next port hport =>
    split_ifs
    · exact .of_every h
    · exact .of_every h
    · have hsent := h.about_willSendMessage (steady_signalable.and (steady_known port₀)) hport m
      have hthere := getPort_ne_none_willSendMessage hp port q m
      split
      next heq =>
        rw [heq] at hsent hthere
        split_ifs
        · exact .of_every hsent
        · -- The peer is on the same node, which is given the message at once.
          exact told_acceptMessage hthere hsent (.user _)
      next heq =>
        rw [heq] at hsent
        exact .of_every hsent

/-- What `GetMessageIf` changes of the queue it reads from. -/
theorem Every.about_getMessageIf (hQ : Steady Q) (h : s.Every (About p Q)) (q : PortName)
    (selector : Option (Message α → Bool)) (hq : q = p → ∀ port : Port α, Q port →
      Q { port with messageQueue := (port.messageQueue.getNextMessageIf selector).2 }) :
    (s.getMessageIf q selector).1.Every (About p Q) := by
  rw [Node.getMessageIf]
  split
  next => exact h
  next port hport =>
    split_ifs
    · exact h
    · exact h
    · split
      next => exact h
      next m queue heq =>
        have hset : (s.setPort q { port with messageQueue := queue }).Every (About p Q) := by
          refine h.setPort fun hqp hstate => ?_
          have := hq hqp port (h q port hport hqp hstate)
          rwa [heq] at this
        exact setSignalable (fun hport hqp hstate => hQ.signalable (hport hqp hstate)) hset m.ports

theorem signalable_getNextMessageIf (queue : MessageQueue α)
    (selector : Option (Message α → Bool)) :
    (queue.getNextMessageIf selector).2.signalable = queue.signalable := by
  rw [MessageQueue.getNextMessageIf]
  split
  · rfl
  · split_ifs
    · rfl
    · rfl

/-- The ports of a message that is handed out are signalable. -/
theorem signalable_setSignalable (s : Node α) (names : List PortName) :
    (s.setSignalable names).Every fun q port => q ∈ names → Signalable port := by
  induction names generalizing s with
  | nil => exact fun q port _ hmem => absurd hmem List.not_mem_nil
  | cons name names ih =>
    rw [Node.setSignalable, List.foldl_cons, ← Node.setSignalable]
    have hfirst : (s.setSignalable [name]).Every fun q port => q = name → Signalable port := by
      rintro q port hq rfl
      rw [Node.setSignalable, List.foldl_cons, List.foldl_nil] at hq
      split at hq
      next hnone => cases hnone.symm.trans hq
      next =>
        rw [getPort_setPort, if_pos rfl] at hq
        cases hq
        rfl
    -- What is signalable stays so.
    have hrest := hfirst.setSignalable (fun _ _ => rfl) names
    intro q port hq hmem
    rcases List.mem_cons.1 hmem with hqn | hmem
    · exact hrest q port hq hqn
    · exact ih _ q port hq hmem

theorem signalable_getMessageIf {s' : Node α} {q : PortName}
    {selector : Option (Message α → Bool)} {m : Message α} {rv : Result}
    (h : s.getMessageIf q selector = (s', some m, rv)) :
    s'.Every fun r port => r ∈ m.ports → Signalable port := by
  rw [getMessageIf] at h
  split at h
  next => cases h
  next port _ =>
    split_ifs at h
    · cases h
    · cases h
    · split at h
      next => cases h
      next m' queue _ =>
        obtain ⟨rfl, hm⟩ := Prod.mk.inj h
        obtain rfl := Option.some.inj (Prod.mk.inj hm).1
        exact signalable_setSignalable _ m'.ports

/-! ## Losing connections -/

theorem lostPort_eq_some {lost : NodeName} {port port' : Port α}
    (h : lostPort lost port = some port') : port' = port ∨
      lostPortNotified lost port = true ∧ port'.state = port.state ∧
        port'.messageQueue = port.messageQueue := by
  rw [lostPort] at h
  split_ifs at h with hpeer hstate hclosed
  · exact .inl (Option.some.inj h).symm
  · obtain rfl := Option.some.inj h
    refine .inr ⟨?_, rfl, rfl⟩
    simp [lostPortNotified, hpeer, hstate, hclosed]
  · exact .inl (Option.some.inj h).symm

theorem told_lostConnectionToNode
    (h : s.Every (About p fun port => Signalable port ∧ Known port₀ port)) (lost : NodeName) :
    (s.lostConnectionToNode lost).Told p port₀ := by
  have hget := getPort_lostConnectionToNode s lost p
  constructor
  · rintro q port' hq rfl hstate
    obtain ⟨port, hport, hlost⟩ := Option.bind_eq_some_iff.1 (hget.symm.trans hq)
    rcases lostPort_eq_some hlost with rfl | ⟨-, hsame, hqueue⟩
    · exact (h q port' hport rfl hstate).1
    · rw [Signalable, hqueue]
      exact (h q port hport rfl (hsame ▸ hstate)).1
  · by_cases hnotified : ∃ port, s.getPort p = some port ∧ lostPortNotified lost port = true
    · obtain ⟨port, hport, hlost⟩ := hnotified
      rw [lostConnectionToNode_eq]
      refine .inl (List.mem_append_right _ (List.mem_map.2 ⟨⟨p, port⟩, ?_, rfl⟩))
      exact List.mem_filter.2 ⟨AList.mem_lookup_iff.1 hport, hlost⟩
    · right
      rintro q port' hq rfl hstate
      obtain ⟨port, hport, hlost⟩ := Option.bind_eq_some_iff.1 (hget.symm.trans hq)
      rcases lostPort_eq_some hlost with rfl | ⟨hnot, -⟩
      · exact (h q port' hport rfl hstate).2
      · exact absurd ⟨port, hport, hnot⟩ hnotified

/-- The names of a pair are new. -/
theorem le_createPortPair (s : Node α) : s.delegate.nextPortName ≤ s.createPortPair.2.1 ∧
    s.delegate.nextPortName ≤ s.createPortPair.2.2.1 := by
  have hport0 : s.createUninitializedPort.2.1 = s.delegate.nextPortName := rfl
  have hnext : s.createUninitializedPort.1.delegate.nextPortName = s.delegate.nextPortName + 1 :=
    Every.nextPortName_addPortWithName (s := s.generateRandomPortName.2)
  rw [createPortPair]
  split
  next s₀ port0 heq =>
    rw [heq] at hport0 hnext
    have hport1 : s₀.createUninitializedPort.2.1 = s₀.delegate.nextPortName := rfl
    split
    next s₁ port1 heq =>
      rw [heq] at hport1
      have hle : s.delegate.nextPortName ≤ port1 :=
        (Nat.le_succ _).trans (hnext.symm.trans hport1.symm).le
      split
      · exact ⟨hport0.ge, hle⟩
      · exact ⟨hport0.ge, hle⟩
    next port1 _ _ heq =>
      rw [heq] at hport1
      exact ⟨hport0.ge, (Nat.le_succ _).trans (hnext.symm.trans hport1.symm).le⟩
  next heq =>
    rw [heq] at hport0
    exact ⟨hport0.ge, hport0.ge⟩

end Node

/-! ## Runs -/

namespace System

variable {s s' : System α} {ν : Node α} {n m : NodeName} {p : PortName} {port₀ : Port α}
  {P : PortName → Port α → Prop}

/-- After a step, the queue of a port is signalable, and the embedder is told of all there is
    to learn. -/
structure Informs (n : NodeName) (p : PortName) (port₀ : Port α) (s s' : System α) : Prop where
  signalable : (s'.node n).Every (About p Signalable)
  told : s.Notifies s' n p ∨ (s'.node n).Every (About p (Known port₀))

theorem every_commit (h : (s.node n).Every P) (hν : ν.name = n → ν.Every P) :
    ((s.commit ν).node n).Every P := by
  intro q port hq
  rw [getPort_commit] at hq
  split_ifs at hq with hn
  · exact hν hn.symm q port hq
  · exact h q port hq

theorem informs_commit
    (h : (s.node n).Every (About p fun port => Signalable port ∧ Known port₀ port))
    (hν : ν.name = n → ν.Told p port₀) : Informs n p port₀ s (s.commit ν) := by
  refine ⟨every_commit (fun q port hq hqp hstate => (h q port hq hqp hstate).1)
    fun hn => (hν hn).signalable, ?_⟩
  by_cases hn : ν.name = n
  · rcases (hν hn).told with hmem | hknown
    · exact .inl ⟨_, rfl, List.mem_map.2 ⟨p, hmem, by rw [hn]⟩⟩
    · exact .inr (every_commit (fun q port hq hqp hstate => (h q port hq hqp hstate).2)
        fun _ => hknown)
  · exact .inr (every_commit (fun q port hq hqp hstate => (h q port hq hqp hstate).2)
      fun hn' => absurd hn' hn)

/-! ### Creating pipes -/

theorem nextPortName_create (s : System α) (n : NodeName) :
    (s.commit (s.start n).createUninitializedPort.1).nextPortName = s.nextPortName + 1 :=
  Node.Every.nextPortName_addPortWithName (s := (s.start n).generateRandomPortName.2)

section Creating

variable (hnew : ∀ p, P p (Port.new kInitialSequenceNum kInitialSequenceNum))
  (hinit : ∀ p port n q, s.nextPortName ≤ p → P p port → P p { port with
    state := .receiving, peerNodeName := n, peerPortName := q })
include hnew hinit

theorem every_createPortPair (hname : ∀ n, (s.node n).name = n) (h : (s.node n).Every P)
    (m : NodeName) : ((s.createPortPair m).node n).Every P := by
  refine every_commit (s := s) h fun hn => ?_
  obtain rfl : m = n := (hname m).symm.trans ((Node.Kept.refl (s.start m)).createPortPair.name.symm.trans hn)
  exact Node.Every.createPortPair hnew (s := s.start m) h hinit

theorem every_connect (hname : ∀ n, (s.node n).name = n) (h : (s.node n).Every P)
    (n₀ n₁ : NodeName) : ((s.connect n₀ n₁).node n).Every P := by
  have hcreate : ∀ {s : System α}, (∀ n, (s.node n).name = n) → (s.node n).Every P → ∀ m,
      ((s.commit (s.start m).createUninitializedPort.1).node n).Every P := by
    intro s hname h m
    refine every_commit h fun hn => ?_
    obtain rfl : m = n :=
      (hname m).symm.trans ((Node.Kept.refl (s.start m)).createUninitializedPort.name.symm.trans hn)
    exact Node.Every.createUninitializedPort hnew h
  have hset : ∀ {s₁ : System α}, (∀ n, (s₁.node n).name = n) → (s₁.node n).Every P →
      ∀ m q n' q', s.nextPortName ≤ q →
        ((s₁.commit ((s₁.start m).initializePort q n' q').1).node n).Every P := by
    intro s₁ hname h m q n' q' hq
    refine every_commit h fun hn => ?_
    obtain rfl : m = n :=
      (hname m).symm.trans (((Node.Kept.refl (s₁.start m)).initializePort q n' q').name.symm.trans hn)
    exact Node.Every.initializePort (s := s₁.start m) h q n' q' fun port =>
      hinit q port n' q' hq
  set s₁ := s.commit (s.start n₀).createUninitializedPort.1
  have hle : s.nextPortName ≤ s₁.nextPortName :=
    (Nat.le_succ _).trans (nextPortName_create s n₀).ge
  have hname₁ := name_commit hname (s.start n₀).createUninitializedPort.1
  have hname₂ := name_commit hname₁ (s₁.start n₁).createUninitializedPort.1
  have h₂ := hcreate hname₁ (hcreate hname h n₀) n₁
  exact hset (name_commit hname₂ _) (hset hname₂ h₂ n₀ s.nextPortName n₁ s₁.nextPortName le_rfl)
    n₁ s₁.nextPortName n₀ s.nextPortName hle

end Creating

/-- A call on a node, which tells a port of the node what it has to learn. -/
theorem informs_call (hname : ∀ n, (s.node n).name = n)
    (h : (s.node n).Every (About p fun port => Signalable port ∧ Known port₀ port))
    (hν : ν.name = (s.node m).name) (htold : m = n → ν.Told p port₀) :
    Informs n p port₀ s (s.commit ν) :=
  informs_commit h fun hn => htold ((hname m).symm.trans (hν.symm.trans hn))

theorem informs_of_every
    (h : (s'.node n).Every (About p fun port => Signalable port ∧ Known port₀ port)) :
    Informs n p port₀ s s' where
  signalable q port hq hqp hstate := (h q port hq hqp hstate).1
  told := .inr fun q port hq hqp hstate => (h q port hq hqp hstate).2

theorem informs_sendMessage (hname : ∀ n, (s.node n).name = n)
    (h : (s.node n).Every (About p fun port => Signalable port ∧ Known port₀ port))
    (hthere : (s.node n).getPort p ≠ none) (m : NodeName) (q : PortName) (payload : α)
    (ports : List PortName) : Informs n p port₀ s (s.sendMessage m q payload ports) := by
  have hcall := informs_call (m := m) hname h
    ((Node.Kept.refl (s.start m)).sendMessage q (Message.newUserMessage payload ports)).1
    (by rintro rfl; exact Node.told_sendMessage (s := s.start m) hthere h q _)
  rw [System.sendMessage]
  split
  next heq =>
    rw [heq] at hcall
    exact ⟨hcall.signalable, hcall.told⟩
  next heq =>
    rw [heq] at hcall
    exact hcall

/-- What is read leaves the queue as signalable as it was. -/
theorem every_getMessageIf (h : (s.node n).Every (About p Signalable))
    (selector : Option (Message α → Bool)) :
    ((s.getMessageIf n p selector).node n).Every (About p Signalable) := by
  have hread : ((s.start n).getMessageIf p selector).1.Every (About p Signalable) :=
    Node.Every.about_getMessageIf (s := s.start n) steady_signalable h p selector
      fun _ port hport => (Node.signalable_getNextMessageIf ..).trans hport
  have hcommit := every_commit (s := s) (n := n) h fun _ => hread
  rw [System.getMessageIf]
  split
  next heq =>
    rw [heq] at hcommit
    exact hcommit
  next heq =>
    rw [heq] at hcommit
    exact hcommit

/-- Another port than the one that is read from learns nothing. -/
theorem informs_getMessageIf (hname : ∀ n, (s.node n).name = n)
    (h : (s.node n).Every (About p fun port => Signalable port ∧ Known port₀ port)) {m : NodeName}
    {q : PortName} (hne : ¬(m = n ∧ q = p)) (selector : Option (Message α → Bool)) :
    Informs n p port₀ s (s.getMessageIf m q selector) := by
  have hcall := informs_call (m := m) hname h
    ((Node.Kept.refl (s.start m)).getMessageIf q selector).name (by
      rintro rfl
      exact .of_every (Node.Every.about_getMessageIf (s := s.start m)
        (steady_signalable.and (steady_known port₀)) h q selector
        fun hqp => absurd ⟨rfl, hqp⟩ hne))
  rw [System.getMessageIf]
  split
  next heq =>
    rw [heq] at hcall
    exact ⟨hcall.signalable, hcall.told⟩
  next heq =>
    rw [heq] at hcall
    exact hcall

/-- A step tells a port what it has to learn, unless it reads from the port. -/
theorem informs_step (hname : ∀ n, (s.node n).name = n) {act : Action α}
    (hs : s.step act = some s') (hp : p < s.nextPortName)
    (hport : (s.node n).getPort p = some port₀)
    (hsig : Signalable port₀) : (s'.node n).Every (About p Signalable) ∧
      ((∀ selector, act ≠ .getMessageIf n p selector) → Informs n p port₀ s s') := by
  have hthere : (s.node n).getPort p ≠ none := by simp [hport]
  have h : (s.node n).Every (About p fun port => Signalable port ∧ Known port₀ port) := by
    rintro q port hq rfl -
    obtain rfl := Option.some.inj (hport.symm.trans hq)
    exact ⟨hsig, id, id⟩
  have hnew : ∀ q, About p (fun port => Signalable port ∧ Known port₀ port) q
      (Port.new kInitialSequenceNum kInitialSequenceNum) := fun _ _ hstate => by cases hstate
  have hinit : ∀ q (port : Port α) (n : NodeName) r, s.nextPortName ≤ q →
      About p (fun port => Signalable port ∧ Known port₀ port) q port →
      About p (fun port => Signalable port ∧ Known port₀ port) q { port with
        state := .receiving, peerNodeName := n, peerPortName := r } :=
    fun q _ _ _ hle _ hqp => absurd hqp (hp.trans_le hle).ne'
  suffices hinforms : ((s'.node n).Every (About p Signalable) ∧
      ∃ selector, act = .getMessageIf n p selector) ∨ Informs n p port₀ s s' by
    rcases hinforms with ⟨hsignalable, selector, hread⟩ | hinforms
    · exact ⟨hsignalable, fun hne => absurd hread (hne selector)⟩
    · exact ⟨hinforms.signalable, fun _ => hinforms⟩
  rw [System.step.eq_def] at hs
  split_ifs at hs
  cases act with
  | createPortPair m =>
    obtain rfl := Option.some.inj hs
    exact .inr (informs_of_every (every_createPortPair hnew hinit hname h m))
  | connect n₀ n₁ =>
    obtain rfl := Option.some.inj hs
    exact .inr (informs_of_every (every_connect hnew hinit hname h n₀ n₁))
  | sendMessage m q payload ports =>
    obtain rfl := Option.some.inj hs
    exact .inr (informs_sendMessage hname h hthere m q payload ports)
  | getMessageIf m q selector =>
    obtain rfl := Option.some.inj hs
    by_cases hsame : m = n ∧ q = p
    · obtain ⟨rfl, rfl⟩ := hsame
      exact .inl ⟨every_getMessageIf (fun r port hr hrq hstate => (h r port hr hrq hstate).1) selector,
        selector, rfl⟩
    · exact .inr (informs_getMessageIf hname h hsame selector)
  | closePort m q =>
    obtain rfl := Option.some.inj hs
    refine .inr (informs_call (m := m) hname h ((Node.Kept.refl (s.start m)).closePortAux _ q).name ?_)
    rintro rfl
    exact .of_every (Node.Every.closePortAux (s := s.start m) h _ q)
  | acceptMessage i =>
    simp only at hs
    split at hs
    · cases hs
    next m event _ =>
      obtain rfl := Option.some.inj hs
      have hcall := informs_call (s := { s with inFlight := s.inFlight.eraseIdx i }) (m := m)
        hname h ((Node.Kept.refl (s.start m)).acceptMessage event).name
        (by rintro rfl; exact Node.told_acceptMessage (s := s.start m) hthere h event)
      exact .inr ⟨hcall.signalable, hcall.told⟩
  | lostConnectionToNode m lost =>
    obtain rfl := Option.some.inj hs
    refine .inr (informs_call (m := m) hname h
      (by rw [Node.lostConnectionToNode_eq]; rfl) ?_)
    rintro rfl
    exact Node.told_lostConnectionToNode (s := s.start m) h lost

/-! ### Ports held -/

theorem held_commit_subset (s : System α) (ν : Node α) : (s.commit ν).held ⊆ s.held :=
  List.filter_subset_self _

/-- A port that the embedder comes to hold is signalable. -/
theorem held_step (hname : ∀ n, (s.node n).name = n)
    (hfresh : ∀ n p, s.nextPortName ≤ p → (s.node n).getPort p = none) {act : Action α}
    (hs : s.step act = some s') (hp : (n, p) ∈ s'.held) :
    (n, p) ∈ s.held ∨ ∀ port, (s'.node n).getPort p = some port → Signalable port := by
  -- The ports of a new pipe have new names, and new queues are signalable.
  have hold : (s.node n).Every fun q port => s.nextPortName ≤ q → Signalable port :=
    fun q port hq hle => by
      rw [hfresh n q hle] at hq
      cases hq
  rw [System.step.eq_def] at hs
  split_ifs at hs
  cases act with
  | createPortPair m =>
    obtain rfl := Option.some.inj hs
    rcases List.mem_append.1 hp with hp | hp
    · exact .inl (held_commit_subset _ _ hp)
    · right
      have hle : s.nextPortName ≤ p := by
        obtain ⟨hle₀, hle₁⟩ := Node.le_createPortPair (s.start m)
        rcases List.mem_cons.1 hp with hp | hp
        · exact (Prod.mk.inj hp).2 ▸ hle₀
        · exact (Prod.mk.inj (List.mem_singleton.1 hp)).2 ▸ hle₁
      intro port hport
      exact every_createPortPair (fun _ _ => rfl) (fun _ _ _ _ _ h => h) hname hold m p port hport
        hle
  | connect n₀ n₁ =>
    obtain rfl := Option.some.inj hs
    rcases List.mem_append.1 hp with hp | hp
    · exact .inl (held_commit_subset _ _ (held_commit_subset _ _ (held_commit_subset _ _
        (held_commit_subset _ _ hp))))
    · right
      have hle : s.nextPortName ≤ p := by
        rcases List.mem_cons.1 hp with hp | hp
        · exact (Prod.mk.inj hp).2.ge
        · exact ((Nat.le_succ _).trans (nextPortName_create s n₀).ge).trans
            (Prod.mk.inj (List.mem_singleton.1 hp)).2.ge
      intro port hport
      exact every_connect (fun _ _ => rfl) (fun _ _ _ _ _ h => h) hname hold n₀ n₁ p port hport
        hle
  | sendMessage m q payload ports =>
    obtain rfl := Option.some.inj hs
    rw [System.sendMessage] at hp
    split at hp
    · exact .inl (held_commit_subset _ _ (List.mem_of_mem_filter hp))
    · exact .inl (held_commit_subset _ _ hp)
  | getMessageIf m q selector =>
    obtain rfl := Option.some.inj hs
    rw [System.getMessageIf] at hp ⊢
    split at hp
    next ν msg rv heq =>
      rcases List.mem_append.1 hp with hp | hp
      · exact .inl (held_commit_subset _ _ hp)
      · right
        obtain ⟨r, hr, hrp⟩ := List.mem_map.1 hp
        obtain ⟨rfl, rfl⟩ := Prod.mk.inj hrp
        have hν : ν.name = m :=
          (congrArg (·.1.name) heq).symm.trans
            (((Node.Kept.refl (s.start m)).getMessageIf q selector).name.trans (hname m))
        intro port hport
        replace hport : ((s.commit ν).node m).getPort r = some port := hport
        rw [getPort_commit, if_pos hν.symm] at hport
        exact Node.signalable_getMessageIf heq r port hport hr
    · exact .inl (held_commit_subset _ _ hp)
  | closePort m q =>
    obtain rfl := Option.some.inj hs
    exact .inl (held_commit_subset _ _ hp)
  | acceptMessage i =>
    simp only at hs
    split at hs
    · cases hs
    · obtain rfl := Option.some.inj hs
      exact .inl (held_commit_subset _ _ hp)
  | lostConnectionToNode m lost =>
    obtain rfl := Option.some.inj hs
    exact .inl (held_commit_subset _ _ hp)

/-! ### Results -/

/-- A port held is receiving, in any run. -/
theorem Reachable.receives_held (h : Reachable Lossy s) (hp : (n, p) ∈ s.held) :
    p < s.nextPortName ∧ (s.node n).Receives p := by
  obtain ⟨η, N, hS, w, c⟩ := h.shape_cargo
  obtain ⟨e, he, rfl, rfl⟩ := hS.exists_of_mem_held hp
  obtain ⟨a, ha, hk⟩ := c.held e he
  obtain ⟨port, hport, hm⟩ := hS.getPort w ha (by simp [hk])
  exact ⟨hS.refines.lt _ (w.used ha), port, hport, by rw [hm.state, hk]; rfl⟩

theorem Reachable.name_fresh (h : Reachable Lossy s) : (∀ n, (s.node n).name = n) ∧
    ∀ n p, s.nextPortName ≤ p → (s.node n).getPort p = none := by
  obtain ⟨η, N, hS, -⟩ := h.shape_cargo
  exact ⟨hS.refines.nodeName, fun n p hle => hS.start_fresh hle n⟩

/-- A port held is signalable. -/
theorem Reachable.signalable (h : Reachable Lossy s) (hp : (n, p) ∈ s.held) {port : Port α}
    (hport : (s.node n).getPort p = some port) : Signalable port := by
  induction h generalizing port with
  | init => cases hp
  | step h hG hs ih =>
    obtain ⟨hname, hfresh⟩ := h.name_fresh
    rcases held_step hname hfresh hs hp with hheld | hnew
    · obtain ⟨hlt, port₀, hport₀, -⟩ := h.receives_held hheld
      obtain ⟨-, port', hport', hstate⟩ := (h.step hG hs).receives_held hp
      obtain rfl := Option.some.inj (hport.symm.trans hport')
      exact (informs_step hname hs hlt hport₀ (ih hheld hport₀)).1 p port hport rfl hstate
    · exact hnew port hport

theorem getStatus_eq_ok {ν : Node α} {status : Node.PortStatus}
    (h : ν.getStatus p = .ok status) :
    ∃ port, ν.getPort p = some port ∧ port.state = .receiving ∧
      status.hasMessages = port.messageQueue.hasNextMessage ∧
      status.peerClosed = port.peerClosed := by
  rw [Node.getStatus] at h
  split at h
  next => cases h
  next port hport =>
    split_ifs at h with hstate
    cases h
    exact ⟨port, hport, hstate, rfl, rfl⟩

/-- A port that the embedder holds is signalable, and any step but its own `GetMessage` calls
    `PortStatusChanged` for the port if `GetStatus` comes to report messages, or that the
    peer is closed. -/
theorem Reachable.notified (h : Reachable Lossy s) {act : Action α} (hs : s.step act = some s')
    (hp : (n, p) ∈ s.held) :
    (∃ port, (s.node n).getPort p = some port ∧ port.messageQueue.signalable = true) ∧
    ((∀ selector, act ≠ .getMessageIf n p selector) → ∀ status status',
      (s.node n).getStatus p = .ok status → (s'.node n).getStatus p = .ok status' →
      (status.hasMessages = false ∧ status'.hasMessages = true) ∨
        (status.peerClosed = false ∧ status'.peerClosed = true) → s.Notifies s' n p) := by
  obtain ⟨hlt, port₀, hport₀, -⟩ := h.receives_held hp
  have hsig := h.signalable hp hport₀
  refine ⟨⟨port₀, hport₀, hsig⟩, fun hread status status' hstatus hstatus' hlearn => ?_⟩
  rcases ((informs_step h.name_fresh.1 hs hlt hport₀ hsig).2 hread).told with hnot | hknown
  · exact hnot
  · -- There was nothing to learn.
    obtain ⟨port, hport, -, hmessages, hclosed⟩ := getStatus_eq_ok hstatus
    obtain ⟨port', hport', hstate', hmessages', hclosed'⟩ := getStatus_eq_ok hstatus'
    obtain rfl := Option.some.inj (hport₀.symm.trans hport)
    obtain ⟨hnext, hpeer⟩ := hknown p port' hport' rfl hstate'
    rw [hmessages, hmessages', hclosed, hclosed'] at hlearn
    rcases hlearn with ⟨hno, hyes⟩ | ⟨hno, hyes⟩
    · rw [hnext hyes] at hno
      cases hno
    · rw [hpeer hyes] at hno
      cases hno

/-- A message is sent to the other port of a pair, which is told of it. -/
theorem Reachable.notified_message : ∃ (s s' : System ℕ) (status status' : Node.PortStatus),
    (Reachable Lossy s ∧ s.step (.sendMessage 1 1 0 []) = some s' ∧ (1, 2) ∈ s.held ∧
      (s.node 1).getStatus 2 = .ok status ∧ (s'.node 1).getStatus 2 = .ok status' ∧
      status.hasMessages = false ∧ status'.hasMessages = true) ∧ s.Notifies s' 1 2 := by
  obtain ⟨s, hs, -, hp, hstatus, hstep⟩ := exists_reachable (G := Lossy) (α := ℕ)
    (P := fun s => (1, 2) ∈ s.held ∧ (s.node 1).getStatus 2 = .ok ⟨false, true, false⟩ ∧
      (s.step (.sendMessage 1 1 0 [])).any fun s' =>
        decide ((s'.node 1).getStatus 2 = .ok ⟨true, true, false⟩))
    [.createPortPair 1] (by decide)
  obtain ⟨s', hs', hstatus'⟩ := (Option.any_eq_true _ _).1 hstep
  have hstatus' := of_decide_eq_true hstatus'
  exact ⟨s, s', _, _, ⟨hs, hs', hp, hstatus, hstatus', rfl, rfl⟩,
    (hs.notified hs' hp).2 nofun _ _ hstatus hstatus' (.inl ⟨rfl, rfl⟩)⟩

end System

end MojoEdk.Ports
