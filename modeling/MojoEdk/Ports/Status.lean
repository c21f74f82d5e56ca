import MojoEdk.Ports.Every
import MojoEdk.Ports.Net.Front
import MojoEdk.Ports.Refine.Reachable

/-!
# Status and reading

`GetStatus` looks at the queue of a port to tell whether it has messages, and at the
last number it expects to tell whether there will be others. `GetMessage` looks at
the last number first. So they agree unless a port that expects no message has its
next message in the queue (`Node.statusAgrees_iff`).

* A closure comes with the number of the last message sent, and the port expects
  messages until it has read that one.
* `LostConnectionToNode` makes up a last number: the one of the last message that was
  read. It is wrong if the next message is there already (`System.Drained`).
* A wrong number is not passed on past a proxy that has forwarded all it was sent:
  such a proxy goes away at once (`Node.Swept`).
-/

namespace MojoEdk.Ports

variable {α : Type*}

/-! ## Proxies that go away -/

/-- A proxy that goes away once it has forwarded the last message still expects it. -/
def Port.Swept (port : Port α) : Prop := port.state = .proxying → port.removable = false

/-- As `Port.Swept`, for all proxies but one, of which it is known whether it is to go
    away. -/
def Port.SweptBut (remove : Bool) (p q : PortName) (port : Port α) : Prop :=
  port.state = .proxying →
    if q = p then port.removeProxyOnLastMessage = remove else port.removable = false

namespace Node

variable {s : Node α} {p : PortName}

/-- All proxies of a node that may go away are gone. -/
def Swept (s : Node α) : Prop := s.Every fun _ port => port.Swept

/-- A property of the proxies of a node only. -/
theorem tame_proxying {P : PortName → Port α → Prop} (hP : ∀ p port, P p port →
    P p { port with messageQueue := { port.messageQueue with signalable := true } }) :
    Tame fun p (port : Port α) => port.state = .proxying → P p port where
  created _ := nofun
  receiving h hp := by cases h.symm.trans hp
  buffering h hp := by cases h.symm.trans hp
  signalable h hp := hP _ _ (h hp)

/-- Only a proxy may have to go. -/
theorem tame_swept : Tame fun (_ : PortName) (port : Port α) => port.Swept :=
  tame_proxying fun _ _ h => h

theorem tame_sweptBut (remove : Bool) (p : PortName) :
    Tame fun (q : PortName) (port : Port α) => port.SweptBut remove p q :=
  tame_proxying fun _ _ h => h

namespace Swept

/-- Where no proxy has to go, one changes. -/
theorem setPort (h : s.Swept) {remove : Bool} {port : Port α}
    (hport : port.removeProxyOnLastMessage = remove) :
    (s.setPort p port).Every fun q port => port.SweptBut remove p q := by
  intro q port' hq hstate
  rw [getPort_setPort] at hq
  split_ifs at hq ⊢ with hqp
  · cases hq
    exact hport
  · exact h q port' hq hstate

theorem of_not_remove (h : s.Every fun q port => port.SweptBut false p q) : s.Swept := by
  intro q port hq hstate
  have hport := h q port hq hstate
  split_ifs at hport with hqp
  · rw [Port.removable, hport, Bool.false_and]
  · exact hport

/-- A proxy that forwards messages does not have to go for it before it is looked at. -/
theorem forwardMessages {remove : Bool} (h : s.Every fun q port => port.SweptBut remove p q)
    (port : Port α) :
    (s.forwardMessages port p).1.Every fun q port => port.SweptBut remove p q := by
  refine Every.forwardMessagesAux (fun q _ => (tame_sweptBut remove p).buffering (p := q)) h _
    fun port queue send hport hstate => ?_
  have hp := hport hstate
  rw [if_pos rfl] at hp ⊢
  exact hp

/-- The one proxy that may have to go away does. -/
theorem maybeRemoveProxy {remove : Bool} (h : s.Every fun q port => port.SweptBut remove p q) :
    (s.maybeRemoveProxy p).Swept := by
  have hother : ∀ {q port}, q ≠ p → s.getPort q = some port → port.Swept := by
    intro q port hqp hq hstate
    have hport := h q port hq hstate
    rwa [if_neg hqp] at hport
  rw [Node.maybeRemoveProxy]
  split
  next hnone =>
    intro q port hq
    refine hother ?_ hq
    rintro rfl
    cases hnone.symm.trans hq
  next port hport =>
    have hget : ∀ q, (if port.state = .proxying then s else s.oops .proxyStateUnexpected).getPort q =
        s.getPort q := by
      intro q
      split_ifs
      · rfl
      · rfl
    dsimp only
    generalize (if port.state = .proxying then s else _) = s' at hget ⊢
    -- The proxy is erased if it may go away, and otherwise it is not removable.
    split_ifs with hremove
    · have herase : (s'.erasePort p).Swept := by
        intro q port' hq
        rw [getPort_erasePort] at hq
        split_ifs at hq with hqp
        exact hother hqp ((hget q).symm.trans hq)
      split
      · exact herase
      · exact herase
    · intro q port' hq
      have hq := (hget q).symm.trans hq
      by_cases hqp : q = p
      · subst hqp
        cases hport.symm.trans hq
        exact fun _ => Bool.eq_false_iff.2 hremove
      · exact hother hqp hq

end Swept

/-- A failed forwarding is recorded. -/
theorem oops_forwardMessagesAux (length : ℕ) (h : (forwardMessagesAux length s p).2 ≠ .ok) :
    (forwardMessagesAux length s p).1.delegate.oops ≠ [] := by
  induction length generalizing s with
  | zero => exact absurd rfl h
  | succ length ih =>
    rw [Node.forwardMessagesAux] at h ⊢
    split at h
    next => exact absurd rfl h
    next port hport =>
      split at h
      next => exact absurd rfl h
      next m queue _ =>
        dsimp only at h ⊢
        split at h
        next => exact ih h
        next => exact List.append_ne_nil_of_right_ne_nil _ (List.cons_ne_nil _ _)

/-- All proxies of a node that may go away are gone, unless an assertion failed. -/
def Settled (s : Node α) : Prop := s.delegate.oops = [] → s.Swept

/-- If a proxy cannot forward then an assertion fails. -/
theorem settled_of_forwardMessages {s' : Node α} {port : Port α} {rv : Result}
    (h : s.forwardMessages port p = (s', rv)) (hrv : rv ≠ .ok) : s'.Settled := by
  intro hoops
  have hfailed := oops_forwardMessagesAux (s := s) (p := p) port.messageQueue.heap.length
  rw [← forwardMessages, h] at hfailed
  exact absurd hoops (hfailed hrv)

/-! ## Accepting events -/

namespace Swept

/-- A proxy that gets its last message forwards it, and goes. -/
theorem queueUserMessage (h : s.Swept) {o : Option (Port α)} (m : Message α)
    (ho : ∀ port, o = some port → port.Swept) : (s.queueUserMessage o m).1.Settled := by
  rw [queueUserMessage.eq_def]
  split
  next => exact fun _ => Every.closePorts h m.ports
  next port =>
    set port' : Port α := { port with messageQueue := (port.messageQueue.acceptMessage m).1 }
    have hport' : port'.Swept := ho port rfl
    have hqueue : Swept (s.setPort m.portName port') := Every.setPort h hport'
    split_ifs
    · dsimp only
      split
      · exact fun _ => hqueue
      · have hproxy : (s.setPort m.portName port').Every fun q port =>
            port.SweptBut port'.removeProxyOnLastMessage m.portName q := h.setPort rfl
        -- What is forwarded does not change whether the proxy is to go away.
        have hforward := forwardMessages hproxy port'
        split
        next heq =>
          rw [heq] at hforward
          exact fun _ => maybeRemoveProxy hforward
        next hne heq => exact settled_of_forwardMessages heq hne
      · split_ifs
        · exact fun _ => hqueue
        · exact fun _ => hqueue
    · exact fun _ => Every.closePorts h m.ports

/-- No proxy has to go after a message has arrived. -/
theorem onUserMessage (h : s.Swept) (m : Message α) : (s.onUserMessage m).1.Settled := by
  rw [Node.onUserMessage]
  have haccept := Every.acceptPorts tame_swept h (m.ports.zip m.descriptors)
  split
  next s' heq =>
    rw [heq] at haccept
    exact queueUserMessage haccept m fun port hport => h m.portName port hport
  next heq =>
    rw [heq] at haccept
    exact fun _ => haccept

/-- A port that becomes a proxy goes if it has nothing to forward any more. -/
theorem onPortAccepted (h : s.Swept) (p : PortName) : (s.onPortAccepted p).1.Settled := by
  rw [Node.onPortAccepted]
  split
  next => exact fun _ => h
  next port hport =>
    split_ifs
    · exact fun _ => h
    · have hproxy : (s.setPort p { port with state := .proxying }).Every fun q port' =>
          port'.SweptBut port.removeProxyOnLastMessage p q := h.setPort rfl
      have hforward := forwardMessages hproxy { port with state := .proxying }
      dsimp only
      split
      next heq =>
        rw [heq] at hforward
        -- A proxy that is not to go away announces itself.
        split_ifs with hremove
        · exact fun _ => maybeRemoveProxy hforward
        · rw [Bool.eq_false_iff.2 hremove] at hforward
          exact fun _ => of_not_remove hforward
      next hne heq => exact settled_of_forwardMessages heq hne

/-- No proxy has to go after an announcement. -/
theorem onObserveProxy (h : s.Swept) (p : PortName) (event : ObserveProxyEventData) :
    (s.onObserveProxy p event).1.Swept := by
  rw [Node.onObserveProxy]
  split
  next => exact h
  next port hport =>
    split_ifs with hpeer hstate
    · exact Every.setPort h (tame_swept.receiving (p := p) hstate)
    · exact Every.setPort h (h p port hport)
    · exact h

/-- A proxy that is told its last number goes if it has forwarded it. -/
theorem onObserveProxyAck (h : s.Swept) (p : PortName) (lastSequenceNum : UInt64) :
    (s.onObserveProxyAck p lastSequenceNum).1.Swept := by
  rw [Node.onObserveProxyAck]
  split
  next => exact h
  next port hport =>
    split_ifs
    · exact h
    · exact h
    · exact maybeRemoveProxy (h.setPort rfl)

/-- A proxy that is told of a closure goes if it has forwarded its last message. -/
theorem onObserveClosure (h : s.Swept) (p : PortName) (lastSequenceNum : UInt64) :
    (s.onObserveClosure p lastSequenceNum).1.Swept := by
  rw [Node.onObserveClosure]
  split
  next => exact h
  next port hport =>
    dsimp only
    split_ifs with hreceiving hproxying
    · exact Every.setPort h (tame_swept.receiving (p := p) hreceiving)
    · exact maybeRemoveProxy (h.setPort rfl)
    · -- A buffering port may go away once it is accepted.
      exact Every.setPort h fun hstate => absurd hstate hproxying

/-- After every event, no proxy has to go, or an assertion has failed. -/
theorem acceptMessage (h : s.Swept) (event : Event α) : (s.acceptMessage event).1.Settled := by
  cases event with
  | user m => exact h.onUserMessage m
  | portAccepted p => exact h.onPortAccepted p
  | observeProxy p data => exact fun _ => h.onObserveProxy p data
  | observeProxyAck p lastSequenceNum => exact fun _ => h.onObserveProxyAck p lastSequenceNum
  | observeClosure p lastSequenceNum => exact fun _ => h.onObserveClosure p lastSequenceNum

end Swept

theorem lasting_swept : Lasting fun (_ : PortName) (port : Port α) => port.Swept where
  toTame := tame_swept
  acceptMessage event h hoops := Swept.acceptMessage h event hoops

end Node

/-! ## Runs -/

namespace System

variable {s s' : System α} {ν : Node α} {act : Action α}

/-- On all nodes, all proxies that may go away are gone. -/
def Swept (s : System α) : Prop := ∀ n, (s.node n).Swept

/-- An action leaves no proxy that may go away, unless an assertion fails. -/
theorem Swept.step (h : s.Swept) (hs : s.step act = some s') (hoops : s'.oops = []) : s'.Swept :=
  Every.step Node.lasting_swept h hs hoops

end System

/-! ## Status -/

namespace MessageQueue

variable {q : MessageQueue α}

/-- There is a message to read if the next one is in the queue. -/
theorem isSome_getNextMessageIf (q : MessageQueue α) :
    (q.getNextMessageIf none).1.isSome = q.hasNextMessage := by
  rw [getNextMessageIf, hasNextMessage]
  cases q.heap with
  | nil => rfl
  | cons m heap =>
    simp only [Option.all_none, Bool.and_true]
    split_ifs with hm
    · exact hm.symm
    · exact (Bool.eq_false_iff.2 hm).symm

/-- The next message is in the queue. -/
theorem exists_of_hasNextMessage (h : q.hasNextMessage) :
    ∃ m ∈ q.heap, m.sequenceNum = q.nextSequenceNum := by
  rw [hasNextMessage] at h
  split at h
  next => cases h
  next m heap hheap =>
    rw [hheap]
    exact ⟨m, List.mem_cons_self, eq_of_beq h⟩

end MessageQueue

namespace Node

variable {s : Node α} {p : PortName}

/-- What `GetStatus` reports of a receiving port is what `GetMessage` returns: a message,
    if there is one, and that the peer is closed only when there is none. -/
def StatusAgrees (s : Node α) (p : PortName) : Prop :=
  ∀ status, s.getStatus p = .ok status →
    (status.hasMessages = true ↔
      (s.getMessage p).2.2 = .ok ∧ (s.getMessage p).2.1.isSome = true) ∧
    (status.receivingMessages = false ↔ (s.getMessage p).2.2 = .errorPortPeerClosed) ∧
    (status.receivingMessages = false →
      status.hasMessages = false ∧ (s.getMessage p).2.1 = none)

/-- The tests disagree on a port that expects no message, with its next message in the
    queue, and only there. -/
theorem statusAgrees_iff : s.StatusAgrees p ↔ ∀ port, s.getPort p = some port →
    port.state = .receiving → port.canAcceptMoreMessages = false →
      port.messageQueue.hasNextMessage = false := by
  rw [StatusAgrees, getStatus, getMessage, getMessageIf]
  cases s.getPort p with
  | none => simp
  | some port =>
    by_cases hstate : port.state = .receiving
    swap
    · simp [hstate]
    -- `GetMessage` only looks at the queue of a port that expects messages.
    cases hcan : port.canAcceptMoreMessages with
    | false => simp [hstate, hcan]
    | true =>
      have hnext := port.messageQueue.isSome_getNextMessageIf
      cases hget : port.messageQueue.getNextMessageIf none with
      | mk o queue =>
        rw [hget] at hnext
        cases o with
        | none => simp [hstate, hcan, hget, ← hnext]
        | some m => simp [hstate, hcan, hget, ← hnext]

end Node

namespace System

variable {s s' : System α} {act : Action α}

/-- No port that `LostConnectionToNode` tells of the loss has its next message in the
    queue. -/
def Drained (s : System α) : Action α → Prop
  | .lostConnectionToNode n lost => ∀ x ∈ (s.node n).ports.entries,
      Node.lostPortNotified lost x.2 → ∀ m ∈ x.2.messageQueue.heap,
        m.sequenceNum ≠ x.2.messageQueue.nextSequenceNum
  | _ => True

instance (s : System α) (act : Action α) : Decidable (s.Drained act) :=
  match act with
  | .lostConnectionToNode n lost =>
    inferInstanceAs (Decidable (∀ x ∈ (s.node n).ports.entries, Node.lostPortNotified lost x.2 →
      ∀ m ∈ x.2.messageQueue.heap, m.sequenceNum ≠ x.2.messageQueue.nextSequenceNum))
  | .createPortPair _ | .connect _ _ | .sendMessage _ _ _ _ | .getMessageIf _ _ _ | .closePort _ _
  | .acceptMessage _ => inferInstanceAs (Decidable True)

end System

variable {η : Names} {s s' : System α} {N M : Net α} {act : Action α}

namespace Net

/-- What a net keeps along a run: what its ports are told is right, as long as the numbers
    do not wrap. -/
structure Tells (N : Net α) : Prop where
  shape : N.Shape
  cargo : N.Cargo
  front : N.Small → ∃ front cut, N.Front front cut

/-- Every step preserves what the ports are told. -/
theorem Tells.step (h : N.Tells) {t : Label} (hs : Step N t M)
    (hswept : ∀ ev, t = .event ev → N.Swept) : M.Tells where
  shape := h.shape.step h.cargo hs
  cargo := h.cargo.step h.shape hs
  front hM := by
    obtain ⟨front, cut, hfront⟩ := h.front (hs.small hM)
    exact hfront.step h.shape h.cargo hs hM hswept

/-- Every run preserves what the ports are told. -/
theorem Tells.run {strict : Prop} (h : N.Tells) (hr : Run strict N M) : M.Tells := by
  induction hr with
  | refl => exact h
  | tail _ hw ih =>
    cases hw with
    | inner hs => exact ih.step hs nofun
    | remove hs _ => exact ih.step hs nofun

end Net

variable {x : Place} {a : Net.Port}

/-- The number of a letter is one in the queue of its port. -/
theorem PortMatch.exists_sequenceNum {port : Port α} (hm : PortMatch η N x a port)
    {l : Net.Letter α} (hl : l ∈ N.letters) (hq : l.queued = true) (hlx : l.place = x) :
    ∃ m ∈ port.messageQueue.heap, m.sequenceNum = l.number := by
  have hqueue : l ∈ N.queue x := Multiset.mem_filter.2 ⟨hl, hq, hlx⟩
  have hmem : η.entry N l ∈ (port.messageQueue.heap.map Message.entry : Multiset _) :=
    hm.queue ▸ Multiset.mem_map_of_mem _ hqueue
  obtain ⟨m, hmh, hme⟩ := List.mem_map.1 hmem
  exact ⟨m, hmh, congrArg Prod.fst hme⟩

namespace Simulates

theorem swept (h : Simulates η s N) (w : N.Shape) (hs : s.Swept) : N.Swept := by
  intro x a hx hk hremove
  obtain ⟨port, hport, hm⟩ := h.getPort w hx (by simp [hk])
  have hstate : port.state = .proxying := by
    rw [hm.state, hk]
    rfl
  have hremovable := hs _ _ port hport hstate
  rwa [Port.removable, hm.remove, hremove, Bool.true_and, hm.canAccept, Bool.not_eq_false'] at hremovable

/-- A port that loses its peer has not queued its next message. -/
theorem drained (h : Simulates η s N) (w : N.Shape) {n lost : NodeName}
    (hd : s.Drained (.lostConnectionToNode n lost)) {e : End}
    (hs : N.Severed (η.Cut N n lost) e) (hx : N.port (e, N.len e) = some a) :
    ∀ l ∈ N.letters, l.queued = true → l.place = (e, N.len e) → l.number ≠ a.next := by
  intro l hl hq hlx
  obtain ⟨⟨-, hhome, hpeer⟩, b, hb, hk, hc⟩ := hs
  obtain rfl : a = b := Option.some.inj (hx.symm.trans hb)
  obtain ⟨port, hport, hm⟩ := h.getPort w hx (by simp [hk])
  rw [hhome] at hport
  have hnotified : Node.lostPortNotified lost port = true := by
    rw [Node.lostPortNotified, hm.peerNodeName, hpeer, hm.peerClosed, hc, hm.state, hk]
    simp [Kind.state]
  obtain ⟨m, hmh, hmn⟩ := hm.exists_sequenceNum hl hq hlx
  rw [← hmn, ← hm.next]
  exact hd ⟨_, port⟩ (AList.mem_lookup_iff.1 hport) hnotified m hmh

end Simulates

namespace System

/-- What holds in the states that are reached if no port is told too early. -/
theorem Reachable.tells (h : Reachable (fun s act => s.Lossy act ∧ s.Drained act) s) :
    (s.oops = [] → s.Swept) ∧ ∃ η N, Simulates η s N ∧ N.Tells := by
  induction h with
  | init =>
    refine ⟨fun _ n p port hport => ?_, _, _, .init, .init, .init, fun _ => ⟨_, _, Net.front_init⟩⟩
    cases hport
  | @step s s' act _ hG hs ih =>
    obtain ⟨hG, hdrained⟩ := hG
    obtain ⟨hswept, η, N, hS, hN⟩ := ih
    have hoops : s.oops = [] := by
      rw [System.step.eq_def] at hs
      split_ifs at hs with hoops
      exact not_not.1 hoops
    refine ⟨(hswept hoops).step hs, ?_⟩
    -- A node is only given an event if no assertion failed before.
    have hsweptN := hS.swept hN.shape (hswept hoops)
    rcases hS.step_lossy hN.shape hN.cargo hG (fun hf : False => hf.elim) hs with
      ⟨⟨κ, M, ⟨N₁, hfirst, hrun⟩, hM⟩, -⟩ | ⟨n, lost, rfl, hM⟩ | ⟨ev, E, hE, -, hM⟩
    · refine ⟨κ, M, hM, ?_⟩
      -- Only the first step of an action may be an event.
      rcases hfirst with rfl | hs | ⟨i, ev, -, -, hs⟩
      · exact hN.run hrun
      · exact (hN.step hs (by simp)).run hrun
      · exact (hN.step hs fun _ _ => hsweptN).run hrun
    · refine ⟨η, _, hM, hN.shape.loss (.lose _), hN.cargo.loss hN.shape (.lose _), fun hsmall => ?_⟩
      obtain ⟨front, cut, hfront⟩ := hN.front hsmall
      exact ⟨_, _, hfront.lose hN.shape fun e a hs ha => hS.drained hN.shape hdrained hs ha⟩
    · refine ⟨η, _, hM, hN.shape.loss (.loseEvent hE), hN.cargo.loss hN.shape (.loseEvent hE),
        fun hsmall => ?_⟩
      obtain ⟨front, cut, hfront⟩ := hN.front hsmall
      exact ⟨front, cut, hfront.consume hE⟩

/-- In every run in which no port that is told of a loss has its next message in the queue,
    and the numbers do not wrap, what `GetStatus` reports is what `GetMessage` returns. -/
theorem Reachable.status (h : Reachable (fun s act => s.Lossy act ∧ s.Drained act) s)
    (hsmall : ∀ e, (s.sent e).length < 2 ^ 64 - 1) (n : NodeName) (p : PortName) :
    (s.node n).StatusAgrees p := by
  obtain ⟨-, η, N, hS, hN⟩ := h.tells
  refine Node.statusAgrees_iff.2 fun port hport hstate hcan => ?_
  obtain ⟨front, cut, hfront⟩ := hN.front fun e => by
    have := hsmall e
    rw [hS.refines.sent] at this
    omega
  obtain ⟨x, a, hx, -, -, hm⟩ := hS.exists_place hport
  have hk : a.kind = .receiving := Kind.state_eq_receiving.1 (hm.state.symm.trans hstate)
  rw [hm.canAccept] at hcan
  by_contra hnext
  obtain ⟨m, hmem, hmn⟩ := MessageQueue.exists_of_hasNextMessage (Bool.not_eq_false _ ▸ hnext)
  obtain ⟨l, hl, hq, hlx, hentry⟩ := Simulates.exists_queued hm hmem
  refine hfront.drained hN.shape hx hk hcan l hl hq hlx ?_
  calc l.number
    _ = m.sequenceNum := congrArg Prod.fst hentry
    _ = port.messageQueue.nextSequenceNum := hmn
    _ = a.next := hm.next

/-- A message is read before the connection is lost. -/
theorem Reachable.status_read : ∃ s : System ℕ,
    (Reachable (fun s act => s.Lossy act ∧ s.Drained act) s ∧
      (∀ e, (s.sent e).length < 2 ^ 64 - 1) ∧
      ((s.node 2).getStatus 2).toOption = some ⟨false, false, true⟩) ∧
    (s.node 2).StatusAgrees 2 := by
  obtain ⟨s, hs, hlen, hstatus⟩ := exists_reachable (α := ℕ)
    (G := fun s act => s.Lossy act ∧ s.Drained act)
    (P := fun s => ((s.node 2).getStatus 2).toOption = some ⟨false, false, true⟩)
    [.connect 1 2, .sendMessage 1 1 7 [], .acceptMessage 0, .getMessageIf 2 2 none,
      .lostConnectionToNode 2 1] (by decide)
  have hsmall : ∀ e, (s.sent e).length < 2 ^ 64 - 1 := fun e => (hlen e).trans_lt (by decide)
  exact ⟨s, ⟨hs, hsmall, hstatus⟩, hs.status hsmall 2 2⟩

/-- The connection is lost before a message is read: the port has a message, and reports
    that its peer is closed. -/
theorem Reachable.not_status : ¬∀ s : System ℕ, Reachable Lossy s →
    ∀ n p, (s.node n).StatusAgrees p := by
  intro h
  obtain ⟨s, hs, -, port, hport, hstate, hcan, hnext⟩ := exists_reachable (G := Lossy) (α := ℕ)
    (P := fun s => ∃ port ∈ (s.node 2).getPort 2, port.state = .receiving ∧
      port.canAcceptMoreMessages = false ∧ port.messageQueue.hasNextMessage = true)
    [.connect 1 2, .sendMessage 1 1 7 [], .acceptMessage 0, .lostConnectionToNode 2 1] (by decide)
  have hagrees := Node.statusAgrees_iff.1 (h s hs 2 2) port hport hstate hcan
  rw [hnext] at hagrees
  cases hagrees

end System

end MojoEdk.Ports
