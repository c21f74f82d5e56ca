import MojoEdk.Ports.Notification

/-!
# What a port expects

A receiving port expects a message, and knows which one is the last if its peer is closed. It
comes to expect something else only when it is read from, or told that the peer is closed
(`System.expects_step`). A closure is never taken back.
-/

namespace MojoEdk.Ports

variable {α : Type*}

/-- A port expects what another one does, and knows of the closures that it knows of. -/
structure Expects (port₀ port : Port α) : Prop where
  next : port.messageQueue.nextSequenceNum = port₀.messageQueue.nextSequenceNum
  last : port.lastSequenceNumToReceive = port₀.lastSequenceNumToReceive
  remove : port.removeProxyOnLastMessage = port₀.removeProxyOnLastMessage
  closed : port₀.peerClosed = true → port.peerClosed = true

namespace Expects

variable {port₀ port port' : Port α}

/-- A port that did not change. -/
theorem refl (port : Port α) : Expects port port := ⟨rfl, rfl, rfl, id⟩

/-- What a port expects depends on its numbers only. -/
theorem congr (h : Expects port₀ port)
    (hnext : port'.messageQueue.nextSequenceNum = port.messageQueue.nextSequenceNum)
    (hlast : port'.lastSequenceNumToReceive = port.lastSequenceNumToReceive)
    (hremove : port'.removeProxyOnLastMessage = port.removeProxyOnLastMessage)
    (hclosed : port'.peerClosed = port.peerClosed) : Expects port₀ port' :=
  ⟨hnext.trans h.next, hlast.trans h.last, hremove.trans h.remove,
    fun h₀ => hclosed.trans (h.closed h₀)⟩

/-- A port that has not received all of the messages still expects the rest. -/
theorem canAcceptMoreMessages (h : Expects port₀ port)
    (hclosed : port.peerClosed = true → port₀.peerClosed = true) :
    port.canAcceptMoreMessages = port₀.canAcceptMoreMessages := by
  rw [Port.canAcceptMoreMessages, Port.canAcceptMoreMessages, h.next, h.last,
    h.remove, Bool.eq_iff_iff.2 ⟨hclosed, h.closed⟩]

end Expects

namespace Node

variable {s : Node α} {p : PortName} {port₀ : Port α}

/-- What a port expects has not changed, or the embedder is told. -/
def Heard (p : PortName) (port₀ : Port α) (s : Node α) : Prop :=
  p ∈ s.delegate.statusChanged ∨ s.Every (About p (Expects port₀))

namespace Every

variable (h : s.Every (About p (Expects port₀)))
include h

/-- A port that sends expects what it did. -/
theorem expects_willSendMessage {q : PortName} {port : Port α} (hq : s.getPort q = some port)
    (m : Message α) : (s.willSendMessage port q m).1.Every (About p (Expects port₀)) :=
  willSendMessage (fun q _ hstate => about_of_ne (by simp [hstate]) q) h port
    (fun _ hqp hstate => (h q port hq hqp hstate).congr rfl rfl rfl rfl) m

/-- A port that skips a proxy expects what it did. -/
theorem expects_onObserveProxy (q : PortName) (event : ObserveProxyEventData) :
    (s.onObserveProxy q event).1.Every (About p (Expects port₀)) := by
  rw [onObserveProxy]
  split
  next => exact h
  next port hport =>
    have hset {port' : Port α} (hqueue : port'.messageQueue = port.messageQueue)
        (hlast : port'.lastSequenceNumToReceive = port.lastSequenceNumToReceive)
        (hremove : port'.removeProxyOnLastMessage = port.removeProxyOnLastMessage)
        (hclosed : port'.peerClosed = port.peerClosed) (hstate : port'.state = port.state) :
        (s.setPort q port').Every (About p (Expects port₀)) :=
      h.setPort fun hqp hrec =>
        (h q port hport hqp (hstate ▸ hrec)).congr (by rw [hqueue]) hlast hremove hclosed
    split_ifs
    · exact hset rfl rfl rfl rfl rfl
    · exact hset rfl rfl rfl rfl rfl
    · exact h

/-- A message that is queued does not change what is expected next. -/
theorem expects_queueUserMessage (m : Message α) {o : Option (Port α)}
    (ho : ∀ port, o = some port → m.portName = p → s.getPort p = some port) :
    (s.queueUserMessage o m).1.Every (About p (Expects port₀)) := by
  rw [queueUserMessage.eq_def]
  split
  next => exact closePorts h m.ports
  next port =>
    split_ifs
    · set port' : Port α := { port with messageQueue := (port.messageQueue.acceptMessage m).1 }
      have hset : (s.setPort m.portName port').Every (About p (Expects port₀)) := by
        refine h.setPort fun hmp hstate => ?_
        exact (h p port (ho port rfl hmp) rfl hstate).congr rfl rfl rfl rfl
      have hforward (hstate : port.state ≠ .receiving) :
          ((s.setPort m.portName port').forwardMessages port' m.portName).1.Every
            (About p (Expects port₀)) := by
        have hport' : port'.state ≠ .receiving := hstate
        exact hset.about_forwardMessages (h.about_setPort hport').2 port'
      dsimp only
      split
      next => exact hset
      next hstate =>
        have hforward := hforward (by simp [hstate])
        split
        next heq =>
          rw [heq] at hforward
          exact maybeRemoveProxy hforward m.portName
        next heq =>
          rw [heq] at hforward
          exact hforward
      next =>
        split_ifs
        · exact hset
        · exact hset
    · exact closePorts h m.ports

/-- A port that gets a message expects what it did. -/
theorem expects_onUserMessage (hp : s.getPort p ≠ none) (m : Message α) :
    (s.onUserMessage m).1.Every (About p (Expects port₀)) := by
  obtain ⟨port, hport⟩ := Option.ne_none_iff_exists'.1 hp
  have hget := getPort_acceptPorts hport (m.ports.zip m.descriptors)
  have haccept := h.about_of_getPort (hget.trans hport.symm)
  rw [onUserMessage]
  split
  next heq =>
    rw [heq] at haccept hget
    refine expects_queueUserMessage haccept m fun port' hport' hmp => hget.trans ?_
    rw [hmp, hport] at hport'
    exact hport'
  next heq =>
    rw [heq] at haccept
    exact haccept

end Every

/-- A port that is told of a closure is notified. -/
theorem heard_onObserveClosure (h : s.Every (About p (Expects port₀))) (q : PortName)
    (last : UInt64) : (s.onObserveClosure q last).1.Heard p port₀ := by
  rw [onObserveClosure]
  split
  next => exact .inr h
  next port hport =>
    dsimp only
    by_cases hrec : port.state = .receiving
    · -- A receiving port expects something else now, of which the delegate is told.
      rw [if_pos hrec]
      by_cases hqp : q = p
      · exact .inl (hqp ▸ List.mem_append_right _ List.mem_cons_self)
      · exact .inr (h.setPort fun heq => absurd heq hqp)
    · rw [if_neg hrec]
      set port' : Port α := { port with
        peerClosed := true, lastSequenceNumToReceive := last, removeProxyOnLastMessage := true }
      have hset : (s.setPort q port').Every (About p (Expects port₀)) :=
        h.setPort (Every.about_of_ne (show port'.state ≠ .receiving from hrec) q)
      right
      split_ifs
      · exact Every.maybeRemoveProxy hset q
      · exact hset

/-- An event is given to a node: its ports are notified, or expect what they did. -/
theorem heard_acceptMessage (hp : s.getPort p ≠ none)
    (h : s.Every (About p (Expects port₀))) (event : Event α) :
    (s.acceptMessage event).1.Heard p port₀ := by
  cases event with
  | user m => exact .inr (h.expects_onUserMessage hp m)
  | portAccepted q => exact .inr (h.about_onPortAccepted q)
  | observeProxy q data => exact .inr (h.expects_onObserveProxy q data)
  | observeProxyAck q last => exact .inr (h.about_onObserveProxyAck q last)
  | observeClosure q last => exact heard_onObserveClosure h q last

/-- A message that is sent on the node is given to it at once. -/
theorem heard_sendMessage (hp : s.getPort p ≠ none) (h : s.Every (About p (Expects port₀)))
    (q : PortName) (m : Message α) : (s.sendMessage q m).1.Heard p port₀ := by
  rw [sendMessage]
  split_ifs
  · exact .inr h
  split
  next => exact .inr h
  next port hport =>
    split_ifs
    · exact .inr h
    · exact .inr h
    · have hsent := h.expects_willSendMessage hport m
      have hthere := getPort_ne_none_willSendMessage hp port q m
      split
      next heq =>
        rw [heq] at hsent hthere
        split_ifs
        · exact .inr hsent
        · -- The peer is on the same node, which is given the message at once.
          exact heard_acceptMessage hthere hsent (.user _)
      next heq =>
        rw [heq] at hsent
        exact .inr hsent

/-- What is read from another port. -/
theorem expects_getMessageIf (h : s.Every (About p (Expects port₀))) {q : PortName} (hqp : q ≠ p)
    (selector : Option (Message α → Bool)) :
    (s.getMessageIf q selector).1.Every (About p (Expects port₀)) := by
  rw [Node.getMessageIf]
  split
  next => exact h
  next port hport =>
    split_ifs
    · exact h
    · exact h
    · split
      next => exact h
      next m queue heq =>
        refine Every.setSignalable (fun hport hqp hstate => ?_)
          (h.setPort fun heq => absurd heq hqp) m.ports
        exact (hport hqp hstate).congr rfl rfl rfl rfl

/-- A port that loses its peer is notified. -/
theorem heard_lostConnectionToNode (h : s.Every (About p (Expects port₀))) (lost : NodeName) :
    (s.lostConnectionToNode lost).Heard p port₀ := by
  have hget := getPort_lostConnectionToNode s lost p
  by_cases hnotified : ∃ port, s.getPort p = some port ∧ lostPortNotified lost port = true
  · obtain ⟨port, hport, hlost⟩ := hnotified
    rw [lostConnectionToNode_eq]
    refine .inl (List.mem_append_right _ (List.mem_map.2 ⟨⟨p, port⟩, ?_, rfl⟩))
    exact List.mem_filter.2 ⟨AList.mem_lookup_iff.1 hport, hlost⟩
  · -- The port is still there, and was not notified: it is as it was.
    right
    rintro q port' hq rfl hstate
    obtain ⟨port, hport, hlost⟩ := Option.bind_eq_some_iff.1 (hget.symm.trans hq)
    rcases lostPort_eq_some hlost with rfl | ⟨hnot, -⟩
    · exact h q port' hport rfl hstate
    · exact absurd ⟨port, hport, hnot⟩ hnotified

end Node

/-! ## Runs -/

namespace System

variable {s s' : System α} {ν : Node α} {n m : NodeName} {p : PortName} {port₀ : Port α}

/-- What a call on a node does is what the system does. -/
theorem heard_commit (h : (s.node n).Every (About p (Expects port₀)))
    (hν : ν.name = n → ν.Heard p port₀) : s.Notifies (s.commit ν) n p ∨
      ((s.commit ν).node n).Every (About p (Expects port₀)) := by
  by_cases hn : ν.name = n
  · rcases hν hn with hmem | hexpects
    · exact .inl ⟨_, rfl, List.mem_map.2 ⟨p, hmem, by rw [hn]⟩⟩
    · exact .inr (every_commit h fun _ => hexpects)
  · exact .inr (every_commit h fun hn' => absurd hn' hn)

/-- A call on a node. -/
theorem heard_call (hname : ∀ n, (s.node n).name = n)
    (h : (s.node n).Every (About p (Expects port₀))) (hν : ν.name = (s.node m).name)
    (hheard : m = n → ν.Heard p port₀) : s.Notifies (s.commit ν) n p ∨
      ((s.commit ν).node n).Every (About p (Expects port₀)) :=
  heard_commit h fun hn => hheard ((hname m).symm.trans (hν.symm.trans hn))

/-- A step does not change what a port expects, unless it tells or reads from the port. -/
theorem expects_step (hname : ∀ n, (s.node n).name = n) {act : Action α}
    (hs : s.step act = some s') (hp : p < s.nextPortName)
    (hport : (s.node n).getPort p = some port₀)
    (hread : ∀ selector, act ≠ .getMessageIf n p selector) :
    s.Notifies s' n p ∨ (s'.node n).Every (About p (Expects port₀)) := by
  have hthere : (s.node n).getPort p ≠ none := by simp [hport]
  have h : (s.node n).Every (About p (Expects port₀)) := by
    rintro q port hq rfl -
    obtain rfl := Option.some.inj (hport.symm.trans hq)
    exact .refl port₀
  have hnew (q : PortName) : About p (Expects port₀) q
      (Port.new kInitialSequenceNum kInitialSequenceNum) := fun _ hstate => by cases hstate
  have hinit (q : PortName) (port : Port α) (n : NodeName) (r : PortName)
      (hle : s.nextPortName ≤ q) (_ : About p (Expects port₀) q port) :
      About p (Expects port₀) q { port with
        state := .receiving, peerNodeName := n, peerPortName := r } :=
    fun hqp => absurd hqp (hp.trans_le hle).ne'
  rw [System.step.eq_def] at hs
  split_ifs at hs
  cases act with
  | createPortPair m =>
    obtain rfl := Option.some.inj hs
    exact .inr (every_createPortPair hnew hinit hname h m)
  | connect n₀ n₁ =>
    obtain rfl := Option.some.inj hs
    exact .inr (every_connect hnew hinit hname h n₀ n₁)
  | sendMessage m q payload ports =>
    obtain rfl := Option.some.inj hs
    have hcall := heard_call (m := m) hname h
      ((Node.Kept.refl (s.start m)).sendMessage q (Message.newUserMessage payload ports)).1
      (by rintro rfl; exact Node.heard_sendMessage (s := s.start m) hthere h q _)
    rw [System.sendMessage]
    split
    next heq =>
      rw [heq] at hcall
      exact hcall
    next heq =>
      rw [heq] at hcall
      exact hcall
  | getMessageIf m q selector =>
    obtain rfl := Option.some.inj hs
    have hcall := heard_call (m := m) hname h ((Node.Kept.refl (s.start m)).getMessageIf q selector).name (by
      rintro rfl
      refine .inr (Node.expects_getMessageIf (s := s.start m) h ?_ selector)
      rintro rfl
      exact hread selector rfl)
    rw [System.getMessageIf]
    split
    next heq =>
      rw [heq] at hcall
      exact hcall
    next heq =>
      rw [heq] at hcall
      exact hcall
  | closePort m q =>
    obtain rfl := Option.some.inj hs
    refine heard_call (m := m) hname h ((Node.Kept.refl (s.start m)).closePortAux _ q).name ?_
    rintro rfl
    exact .inr (Node.Every.closePortAux (s := s.start m) h _ q)
  | acceptMessage i =>
    simp only at hs
    split at hs
    · cases hs
    next m event _ =>
      obtain rfl := Option.some.inj hs
      exact heard_call (s := { s with inFlight := s.inFlight.eraseIdx i }) (m := m) hname h
        ((Node.Kept.refl (s.start m)).acceptMessage event).name
        (by rintro rfl; exact Node.heard_acceptMessage (s := s.start m) hthere h event)
  | lostConnectionToNode m lost =>
    obtain rfl := Option.some.inj hs
    refine heard_call (m := m) hname h (by rw [Node.lostConnectionToNode_eq]; rfl) ?_
    rintro rfl
    exact Node.heard_lostConnectionToNode (s := s.start m) h lost

end System

end MojoEdk.Ports
