import MojoEdk.Ports.Status

/-!
# Proxies that forward

A proxy forwards the next message as soon as it has it: no proxy of a node has its next
message in the queue when a call on the node returns (`Node.Idle`).
-/

namespace MojoEdk.Ports

variable {α : Type*}

/-- A proxy has forwarded all the messages that it could. -/
def Port.Idle (port : Port α) : Prop :=
  port.state = .proxying → port.messageQueue.hasNextMessage = false

/-- As `Port.Idle`, for all proxies but one, which has so many messages. -/
def Port.IdleBut (length : ℕ) (p q : PortName) (port : Port α) : Prop :=
  port.state = .proxying →
    if q = p then port.messageQueue.heap.length ≤ length
    else port.messageQueue.hasNextMessage = false

/-- A message that is read leaves the queue. -/
theorem MessageQueue.length_of_getNextMessageIf {q queue : MessageQueue α}
    {selector : Option (Message α → Bool)} {m : Message α}
    (h : q.getNextMessageIf selector = (some m, queue)) :
    queue.heap.length + 1 = q.heap.length := by
  rw [getNextMessageIf] at h
  split at h
  next => cases h
  next m' heap hheap =>
    split_ifs at h
    · obtain ⟨-, rfl⟩ := Prod.mk.inj h
      rw [hheap, List.length_cons]
    · cases (Prod.mk.inj h).1

namespace Node

variable {s s' : Node α} {p : PortName} {length : ℕ}

/-- No proxy of a node has its next message in the queue. -/
def Idle (s : Node α) : Prop := s.Every fun _ port => port.Idle

/-- Unless an assertion failed. -/
def Rested (s : Node α) : Prop := s.delegate.oops = [] → s.Idle

/-- Nothing but a message that arrives gives a proxy something to do. -/
theorem tame_idle : Tame fun (_ : PortName) (port : Port α) => port.Idle :=
  tame_proxying fun _ _ h => h

theorem tame_idleBut (length : ℕ) (p : PortName) :
    Tame fun (q : PortName) (port : Port α) => port.IdleBut length p q :=
  tame_proxying fun _ _ h => h

/-- Only the last value of a port counts. -/
theorem setPort_setPort (s : Node α) (p : PortName) (port port' : Port α) :
    (s.setPort p port).setPort p port' = s.setPort p port' := by
  simp only [setPort, AList.insert_insert]

/-- A message is sent from the port as it is given, not as it is stored. -/
theorem willSendMessage_setPort (s : Node α) (port port' : Port α) (p : PortName) (m : Message α) :
    (s.setPort p port').willSendMessage port p m = s.willSendMessage port p m := by
  simp only [willSendMessage, setPort_setPort]

namespace Idle

/-- Where all proxies are idle, one is changed. -/
theorem setPort (h : s.Idle) (port : Port α) : (s.setPort p port).Every fun q port' =>
    port'.IdleBut port.messageQueue.heap.length p q := by
  intro q port' hq hstate
  rw [getPort_setPort] at hq
  split_ifs at hq ⊢ with hqp
  · cases hq
    exact le_rfl
  · exact h q port' hq hstate

/-- A proxy goes on until its next message is not there. -/
theorem forwardMessagesAux (h : s.Every fun q port => port.IdleBut length p q)
    (hf : forwardMessagesAux length s p = (s', .ok)) : s'.Idle := by
  -- A proxy that stops has no next message.
  have hstop : ∀ {s : Node α}, (s.Every fun q port => q ≠ p → port.Idle) →
      (∀ port, s.getPort p = some port → port.Idle) → s.Idle := by
    intro s hother hself q port hq
    by_cases hqp : q = p
    · subst hqp
      exact hself port hq
    · exact hother q port hq hqp
  have hother : ∀ {length} {s : Node α}, (s.Every fun q port => port.IdleBut length p q) →
      s.Every fun q port => q ≠ p → port.Idle := by
    intro length s h q port hq hqp hstate
    have hport := h q port hq hstate
    rwa [if_neg hqp] at hport
  induction length generalizing s with
  | zero =>
    obtain rfl := (Prod.mk.inj hf).1
    refine hstop (hother h) fun port hport hstate => ?_
    have hlength := h p port hport hstate
    rw [if_pos rfl, Nat.le_zero, List.length_eq_zero_iff] at hlength
    rw [MessageQueue.hasNextMessage, hlength]
  | succ length ih =>
    rw [Node.forwardMessagesAux] at hf
    split at hf
    next hnone =>
      obtain rfl := (Prod.mk.inj hf).1
      refine hstop (hother h) fun port hport => ?_
      cases hnone.symm.trans hport
    next port hport =>
      split at hf
      next queue hnext =>
        obtain rfl := (Prod.mk.inj hf).1
        refine hstop (hother h) fun port' hport' hstate => ?_
        obtain rfl := Option.some.inj (hport.symm.trans hport')
        rw [← MessageQueue.isSome_getNextMessageIf, hnext]
        rfl
      next m queue hnext =>
        have hqueue : ∀ send, Port.IdleBut length p p { port with
            messageQueue := queue, nextSequenceNumToSend := send } := by
          intro send hstate
          have hlength := h p port hport hstate
          have hpop := MessageQueue.length_of_getNextMessageIf hnext
          rw [if_pos rfl] at hlength ⊢
          exact Nat.le_of_succ_le_succ (hpop.trans_le hlength)
        have hset : (s.setPort p { port with messageQueue := queue }).Every fun q port =>
            port.IdleBut length p q := by
          intro q port' hq
          rw [getPort_setPort] at hq
          split_ifs at hq with hqp
          · cases hq
            exact hqp ▸ hqueue port.nextSequenceNumToSend
          · intro hstate
            rw [if_neg hqp]
            exact hother h q port' hq hqp hstate
        have hsent := Every.willSendMessage (fun q _ => (tame_idleBut length p).buffering (p := q))
          hset { port with messageQueue := queue } hqueue m
        rw [willSendMessage_setPort] at hsent
        dsimp only at hf
        split at hf
        next s₁ m' heq =>
          rw [heq] at hsent
          exact ih (s := s₁.forwardMessage _ _) hsent hf
        next hne _ => exact absurd (Prod.mk.inj hf).2 hne

/-- Once a proxy has forwarded its messages, all proxies are idle. -/
theorem forwardMessages {port : Port α} (h : s.Every fun q port' =>
      port'.IdleBut port.messageQueue.heap.length p q)
    (hf : s.forwardMessages port p = (s', .ok)) : s'.Idle := forwardMessagesAux h hf

end Idle

/-- If a proxy cannot forward then an assertion fails. -/
theorem rested_of_forwardMessages {port : Port α} {rv : Result}
    (h : s.forwardMessages port p = (s', rv)) (hrv : rv ≠ .ok) : s'.Rested := by
  intro hoops
  have hfailed := oops_forwardMessagesAux (s := s) (p := p) port.messageQueue.heap.length
  rw [← forwardMessages, h] at hfailed
  exact absurd hoops (hfailed hrv)

/-! ## Accepting events -/

namespace Idle

/-- A proxy that gets a message forwards it at once. -/
theorem queueUserMessage (h : s.Idle) {o : Option (Port α)} (m : Message α)
    (ho : ∀ port, o = some port → port.Idle) : (s.queueUserMessage o m).1.Rested := by
  rw [queueUserMessage.eq_def]
  split
  next => exact fun _ => Every.closePorts h m.ports
  next port =>
    set port' : Port α := { port with messageQueue := (port.messageQueue.acceptMessage m).1 }
    have hqueue : port.state ≠ .proxying → Idle (s.setPort m.portName port') := fun hstate =>
      Every.setPort h fun hstate' => absurd hstate' hstate
    split_ifs
    · dsimp only
      split
      next hstate => exact fun _ => hqueue (by simp [show port.state = _ from hstate])
      next hstate =>
        have hproxy := h.setPort (p := m.portName) port'
        split
        next heq => exact fun _ => Every.maybeRemoveProxy (forwardMessages hproxy heq) m.portName
        next hne heq => exact rested_of_forwardMessages heq hne
      next hbuffering hproxying =>
        have hset := hqueue hproxying
        split_ifs
        · exact fun _ => hset
        · exact fun _ => hset
    · exact fun _ => Every.closePorts h m.ports

theorem onUserMessage (h : s.Idle) (m : Message α) : (s.onUserMessage m).1.Rested := by
  rw [Node.onUserMessage]
  have haccept := Every.acceptPorts tame_idle h (m.ports.zip m.descriptors)
  split
  next s' heq =>
    rw [heq] at haccept
    exact queueUserMessage haccept m fun port hport => h m.portName port hport
  next heq =>
    rw [heq] at haccept
    exact fun _ => haccept

/-- A port that becomes a proxy forwards what it has buffered. -/
theorem onPortAccepted (h : s.Idle) (p : PortName) : (s.onPortAccepted p).1.Rested := by
  rw [Node.onPortAccepted]
  split
  next => exact fun _ => h
  next port hport =>
    split_ifs
    · exact fun _ => h
    · have hproxy := h.setPort (p := p) { port with state := .proxying }
      dsimp only
      split
      next heq =>
        have hforward := forwardMessages hproxy heq
        split_ifs
        · exact fun _ => Every.maybeRemoveProxy hforward p
        · exact fun _ => hforward
      next hne heq => exact rested_of_forwardMessages heq hne

/-- No message is queued by an announcement. -/
theorem onObserveProxy (h : s.Idle) (p : PortName) (event : ObserveProxyEventData) :
    (s.onObserveProxy p event).1.Idle := by
  rw [Node.onObserveProxy]
  split
  next => exact h
  next port hport =>
    split_ifs with hpeer hstate
    · exact Every.setPort h (tame_idle.receiving (p := p) hstate)
    · exact Every.setPort h (h p port hport)
    · exact h

/-- No message is queued by an acknowledgement. -/
theorem onObserveProxyAck (h : s.Idle) (p : PortName) (lastSequenceNum : UInt64) :
    (s.onObserveProxyAck p lastSequenceNum).1.Idle := by
  rw [Node.onObserveProxyAck]
  split
  next => exact h
  next port hport =>
    split_ifs
    · exact h
    · exact h
    · refine Every.maybeRemoveProxy (Every.setPort h ?_) p
      exact h p port hport

/-- No message is queued by a closure. -/
theorem onObserveClosure (h : s.Idle) (p : PortName) (lastSequenceNum : UInt64) :
    (s.onObserveClosure p lastSequenceNum).1.Idle := by
  rw [Node.onObserveClosure]
  split
  next => exact h
  next port hport =>
    have hset : ∀ port' : Port α, port'.state = port.state →
        port'.messageQueue = port.messageQueue → Idle (s.setPort p port') := by
      intro port' hstate hqueue
      refine Every.setPort h fun hproxying => ?_
      rw [hqueue]
      exact h p port hport (hstate ▸ hproxying)
    dsimp only
    split_ifs
    · exact hset _ rfl rfl
    · have hremove := Every.maybeRemoveProxy (hset { port with
        peerClosed := true
        lastSequenceNumToReceive := lastSequenceNum
        removeProxyOnLastMessage := true } rfl rfl) p
      exact hremove
    · exact hset _ rfl rfl

/-- After every event, all proxies are idle, or an assertion has failed. -/
theorem acceptMessage (h : s.Idle) (event : Event α) : (s.acceptMessage event).1.Rested := by
  cases event with
  | user m => exact h.onUserMessage m
  | portAccepted p => exact h.onPortAccepted p
  | observeProxy p data => exact fun _ => h.onObserveProxy p data
  | observeProxyAck p lastSequenceNum => exact fun _ => h.onObserveProxyAck p lastSequenceNum
  | observeClosure p lastSequenceNum => exact fun _ => h.onObserveClosure p lastSequenceNum

end Idle

theorem lasting_idle : Lasting fun (_ : PortName) (port : Port α) => port.Idle where
  toTame := tame_idle
  acceptMessage event h hoops := Idle.acceptMessage h event hoops

end Node

end MojoEdk.Ports
