import MojoEdk.Ports.Disconnection
import MojoEdk.Ports.Termination

/-!
# Everything arrives

Without calls of the embedder, and as long as few messages were sent, the deliveries come to an
end whatever their order is, with nothing in flight. At each port that the embedder holds then,
`GetMessageIf` returns one after the other the messages sent from the other end that were not
returned yet, and after the last one of them it reports whether the other end is closed
(`System.Reachable.arrives`).

* When nothing is in flight, the messages that were not returned are in the queue of the port at
  the end of the chain (`Net.Still.exists_next`): no proxy keeps one.
* That port was told that the other end is closed, if it is (`Net.Still.told`).
-/

namespace MojoEdk.Ports

variable {α : Type*} {η : Names} {s s' : System α} {N : Net α} {x : Place} {a : Net.Port} {e : End}
  {lim : Place → ℕ} {n : NodeName} {p : PortName}

/-! ## Nets with nothing in flight -/

namespace Net.Still

/-- The port at the end of a chain was told, if the other end is closed. -/
theorem told (h : N.Still) (w : N.Shape) (ha : N.port (e, N.len e) = some a)
    (hk : a.kind = .receiving) (hc : N.closed e.opp = true) : a.peerClosed = true := by
  by_contra hopen
  have hle : N.toward e.opp ≤ N.len e := (w.toward_le e.opp).trans_eq (by rw [End.opp_opp])
  have huntold : N.Untold (e, N.len e) :=
    ⟨a, ha, (w.live ha (by simp [hk])).2.2, fun _ => Bool.eq_false_iff.2 hopen⟩
  obtain ⟨k, -, -, hclosing⟩ :=
    h.tended.telling e (N.toward e.opp) (N.len e) (.inl ⟨hc, rfl⟩) hle huntold
  exact h.not_closing w hclosing

/-- The next message is in the queue of the port at the end of the chain, if there is one. -/
theorem exists_next (h : N.Still) (w : N.Shape) (q : N.Sequence lim)
    (ha : N.port (e, N.len e) = some a) (hlt : (N.returned e).length < N.total e) :
    ∃ l ∈ N.letters, l.queued = true ∧ l.place = (e, N.len e) ∧ l.number = a.next := by
  have hnext := q.next e a ha
  have hholds : N.Holds e (N.len e) a.next.toNat := by
    rw [(q.port _ a ha).window, Net.bound_live w]
    omega
  obtain ⟨l, hl, rfl, -, hnumber⟩ := hholds
  exact ⟨l, hl, h.queued l hl, Prod.ext rfl (h.place_eq w q hl), UInt64.toNat_inj.1 hnumber⟩

end Net.Still

/-! ## Ports with nothing in flight -/

/-- The first message of the queue is the next one, if the next one is in the queue. -/
theorem PortMatch.hasNextMessage {port : Port α} (hm : PortMatch η N x a port)
    (q : N.Sequence lim) (hx : N.port x = some a) {l : Net.Letter α} (hl : l ∈ N.letters)
    (hq : l.queued = true) (hlx : l.place = x) (hnumber : l.number = a.next) :
    port.messageQueue.hasNextMessage = true := by
  obtain ⟨m, hmem, hmn⟩ := hm.exists_sequenceNum hl hq hlx
  rw [MessageQueue.hasNextMessage]
  split
  next hheap =>
    rw [hheap] at hmem
    cases hmem
  next m₀ heap hheap =>
    obtain ⟨l₀, hl₀, -, hlx₀, hentry⟩ := Simulates.exists_queued hm (m := m₀) (by simp [hheap])
    have hnumber₀ : l₀.number = m₀.sequenceNum := congrArg Prod.fst hentry
    have hnext := ((q.port x a hx).window _).1 ⟨l₀, hl₀, by rw [hlx₀], by rw [hlx₀], rfl⟩
    have hle : m₀.sequenceNum ≤ a.next := by
      rw [hheap] at hmem
      rw [← hnumber, ← hmn]
      rcases List.mem_cons.1 hmem with rfl | hmem
      · exact UInt64.le_refl _
      · exact (List.pairwise_cons.1 (hheap ▸ hm.sorted)).1 m hmem
    rw [hm.next, beq_iff_eq]
    exact UInt64.le_antisymm hle (UInt64.le_iff_toNat_le.2 (hnumber₀ ▸ hnext.1))

/-- What a port that the embedder holds has to return, when nothing is in flight. -/
structure Port.Readable (port : Port α) (returned sent : ℕ) (closed : Bool) : Prop where
  state : port.state = .receiving
  hasNextMessage : port.messageQueue.hasNextMessage = true ↔ returned < sent
  canAcceptMoreMessages :
    port.canAcceptMoreMessages = false ↔ returned = sent ∧ closed = true

/-- After the last message, a port expects others unless the other end is closed. -/
theorem Port.Readable.canAccept_of_eq {port : Port α} {k : ℕ} {closed : Bool}
    (h : port.Readable k k closed) : port.canAcceptMoreMessages = !closed := by
  have hcan := h.canAcceptMoreMessages
  cases closed with
  | true => exact hcan.2 ⟨rfl, rfl⟩
  | false =>
    refine Bool.eq_true_of_not_eq_false fun hfalse => ?_
    cases (hcan.1 hfalse).2

theorem Simulates.readable (h : Simulates η s N) (hN : N.Sound) (q : N.Sequence lim)
    (hstill : N.Still) (hp : (n, p) ∈ s.held) :
    ∃ port, (s.node n).getPort p = some port ∧ port.Readable (s.returned (s.endOf p)).length
      (s.sent (s.endOf p).opp).length (s.closed (s.endOf p).opp) := by
  have w := hN.shape
  obtain ⟨e, he, rfl, rfl⟩ := h.exists_of_mem_held hp
  obtain ⟨a, ha, hk⟩ := hN.cargo.held e he
  obtain ⟨port, hport, hm⟩ := h.getPort w ha (by simp [hk])
  have hend : s.endOf (η.name (e, N.len e)) = e := h.refines.endOf (e, N.len e) (w.used ha)
  rw [hend, h.refines.returned, h.refines.sent, h.refines.closed]
  have hnext := q.next e a ha
  have hseq := q.port _ a ha
  have hret := (q.returned e).length_le
  refine ⟨port, hport, by rw [hm.state, hk]; rfl, ⟨fun hhas => ?_, fun hlt => ?_⟩,
    ⟨fun hcan => ?_, fun heq => ?_⟩⟩
  · obtain ⟨m, hmem, hmn⟩ := MessageQueue.exists_of_hasNextMessage hhas
    obtain ⟨l, hl, -, hlx, hentry⟩ := Simulates.exists_queued hm hmem
    have hnumber : l.number = a.next := (congrArg Prod.fst hentry).trans (hmn.trans hm.next)
    have hwindow := (hseq.window a.next.toNat).1
      ⟨l, hl, by rw [hlx], by rw [hlx], by rw [hnumber]⟩
    rw [Net.bound_live w, Net.total] at hwindow
    omega
  · obtain ⟨l, hl, hq, hlx, hnumber⟩ := hstill.exists_next w q ha hlt
    exact hm.hasNextMessage q ha hl hq hlx hnumber
  · obtain ⟨hor, hlast⟩ := Net.Port.last_of_not_canAccept (hm.canAccept ▸ hcan) hseq.pos
    have hclosed : a.peerClosed = true := by simpa [(w.live ha (by simp [hk])).2.2] using hor
    have hbound := hseq.last (.inl hclosed)
    rw [Net.bound_live w, Net.total] at hbound
    exact ⟨by omega, (hN.ring.live _ a ha (by simp [hk])).peerClosed hclosed⟩
  · obtain ⟨heq, hc⟩ := heq
    have hclosed := hstill.told w ha hk hc
    have hbound := hseq.last (.inl hclosed)
    rw [Net.bound_live w, Net.total] at hbound
    have hlast : a.last = a.next - 1 := by
      rw [← UInt64.toNat_inj, UInt64.toNat_sub_one hseq.pos]
      omega
    rw [hm.canAccept, Net.Port.canAccept, hclosed, hlast]
    simp

/-! ## Reading -/

namespace Node

variable {ν : Node α} {port : Port α}

/-- `GetMessageIf` sends nothing, renames no port and closes none. -/
theorem delegate_setSignalable (ν : Node α) (names : List PortName) :
    (ν.setSignalable names).delegate =
      { ν.delegate with oops := (ν.setSignalable names).delegate.oops } := by
  induction names generalizing ν with
  | nil => rfl
  | cons name names ih =>
    rw [setSignalable, List.foldl_cons, ← setSignalable, ih]
    split
    · rfl
    · split_ifs
      · rfl
      · rfl

/-- `GetMessageIf` returns the next message, if it is there. -/
theorem exists_getMessageIf (hport : ν.getPort p = some port) (hstate : port.state = .receiving)
    (hcan : port.canAcceptMoreMessages = true) (hhas : port.messageQueue.hasNextMessage = true) :
    ∃ ν' m, ν.getMessageIf p none = (ν', some m, .ok) ∧
      ν'.delegate = { ν.delegate with oops := ν'.delegate.oops } := by
  rw [← MessageQueue.isSome_getNextMessageIf] at hhas
  obtain ⟨m, hm⟩ := Option.isSome_iff_exists.1 hhas
  refine ⟨_, m, ?_, delegate_setSignalable (ν.setPort p
    { port with messageQueue := (port.messageQueue.getNextMessageIf none).2 }) m.ports⟩
  rw [getMessageIf, hport]
  simp only [hstate, hcan]
  rw [← Prod.eta (port.messageQueue.getNextMessageIf none), hm]
  simp

/-- Otherwise it reports whether the peer is closed. -/
theorem getMessageIf_of_not_hasNext (hport : ν.getPort p = some port)
    (hstate : port.state = .receiving) (hhas : port.messageQueue.hasNextMessage = false) :
    (ν.getMessageIf p none).2 =
      (none, if port.canAcceptMoreMessages then .ok else .errorPortPeerClosed) := by
  rw [← MessageQueue.isSome_getNextMessageIf, Option.isSome_eq_false_iff, Option.isNone_iff_eq_none]
    at hhas
  rw [getMessageIf, hport]
  simp only [hstate]
  rw [← Prod.eta (port.messageQueue.getNextMessageIf none), hhas]
  cases port.canAcceptMoreMessages with
  | true => rfl
  | false => rfl

end Node

namespace System

/-- The embedder reads all messages sent to a port that were not returned yet, and is told then
    whether the other end is closed. -/
def ReadsAll (s : System α) (n : NodeName) (p : PortName) : Prop :=
  ∃ s', s.exec Honest (List.replicate
      ((s.sent (s.endOf p).opp).length - (s.returned (s.endOf p)).length)
      (.getMessageIf n p none)) = some s' ∧
    s'.returned (s.endOf p) = s.sent (s.endOf p).opp ∧
    ((s'.start n).getMessageIf p none).2 =
      (none, if s.closed (s.endOf p).opp then .errorPortPeerClosed else .ok)

/-- A message is returned at a port. -/
structure Reads (s s' : System α) (p : PortName) : Prop where
  inFlight : s'.inFlight = s.inFlight
  endOf : s'.endOf = s.endOf
  closed : s'.closed = s.closed
  sent : s'.sent = s.sent
  held : s.held ⊆ s'.held
  returned : (s'.returned (s.endOf p)).length = (s.returned (s.endOf p)).length + 1

theorem reads_getMessageIf {ν : Node α} {m : Message α} {rv : Result}
    (hget : (s.start n).getMessageIf p none = (ν, some m, rv))
    (hν : ν.delegate = { (s.start n).delegate with oops := ν.delegate.oops }) :
    s.Reads (s.getMessageIf n p none) p := by
  have hforwarded : ν.delegate.forwarded = [] := by rw [hν]; rfl
  have hrenamed : ν.delegate.renamed = [] := by rw [hν]; rfl
  have hclosed : ν.delegate.closed = [] := by rw [hν]; rfl
  rw [getMessageIf, hget]
  exact
    { inFlight := by simp [noteReturned, commit, hforwarded]
      endOf := by simp [noteReturned, commit, hrenamed, History.renamedEnds]
      closed := by simp [noteReturned, commit, hrenamed, hclosed, History.renamedEnds,
        History.closedEnds]
      sent := rfl
      held := by simp [noteReturned, commit, hclosed]
      returned := by simp [noteReturned, commit] }

variable {G : System α → Action α → Prop}

/-- A system with nothing in flight is still. -/
theorem Reachable.still (hG : ∀ s act, G s act → s.Honest act ∧ s.Acknowledges act)
    (h : Reachable G s) (hsmall : ∀ e, (s.sent e).length < 2 ^ 64 - 1) (hflight : s.inFlight = []) :
    ∃ η N lim, Simulates η s N ∧ N.Sound ∧ N.Sequence lim ∧ N.Still := by
  obtain ⟨η, N, hS, hN, hcarried, htended⟩ := h.tended hG
  obtain ⟨lim, q⟩ := hS.sequence hN hsmall
  exact ⟨η, N, lim, hS, hN, q, hS.still hN q (h.mono fun _ _ hact => (hG _ _ hact).1) hcarried
    htended hflight⟩

/-- One message more can be read, if there is one. -/
theorem Reachable.reads (hG : ∀ s act, G s act → s.Honest act ∧ s.Acknowledges act)
    (h : Reachable G s) (hsmall : ∀ e, (s.sent e).length < 2 ^ 64 - 1) (hflight : s.inFlight = [])
    (hp : (n, p) ∈ s.held)
    (hlt : (s.returned (s.endOf p)).length < (s.sent (s.endOf p).opp).length) :
    ∃ s', s.step (.getMessageIf n p none) = some s' ∧ s.Reads s' p := by
  obtain ⟨η, N, lim, hS, hN, q, hstill⟩ := h.still hG hsmall hflight
  obtain ⟨port, hport, hread⟩ := hS.readable hN q hstill hp
  have hcan : port.canAcceptMoreMessages = true :=
    Bool.eq_true_of_not_eq_false fun hfalse => hlt.ne (hread.canAcceptMoreMessages.1 hfalse).1
  obtain ⟨ν, m, hν, hdelegate⟩ := Node.exists_getMessageIf (ν := s.start n) hport hread.state hcan
    (hread.hasNextMessage.2 hlt)
  have hoops : s.oops = [] := (h.simulates (fun _ _ hact => (hG _ _ hact).1) (fun _ => True)
    trivial fun _ _ _ _ _ => trivial).2
  refine ⟨s.getMessageIf n p none, ?_, reads_getMessageIf hν hdelegate⟩
  rw [System.step, if_neg (not_not.2 hoops)]

/-- After the last message, it is reported whether the other end is closed. -/
theorem Reachable.read_last (hG : ∀ s act, G s act → s.Honest act ∧ s.Acknowledges act)
    (h : Reachable G s) (hsmall : ∀ e, (s.sent e).length < 2 ^ 64 - 1) (hflight : s.inFlight = [])
    (hp : (n, p) ∈ s.held)
    (hle : (s.sent (s.endOf p).opp).length ≤ (s.returned (s.endOf p)).length) :
    s.returned (s.endOf p) = s.sent (s.endOf p).opp ∧ ((s.start n).getMessageIf p none).2 =
      (none, if s.closed (s.endOf p).opp then .errorPortPeerClosed else .ok) := by
  obtain ⟨η, N, lim, hS, hN, q, hstill⟩ := h.still hG hsmall hflight
  obtain ⟨port, hport, hread⟩ := hS.readable hN q hstill hp
  have hreturned : s.returned (s.endOf p) <+: s.sent (s.endOf p).opp := by
    rw [hS.refines.returned, hS.refines.sent]
    exact q.returned _
  have heq := hreturned.eq_of_length (hreturned.length_le.antisymm hle)
  rw [heq] at hread
  have hhas : port.messageQueue.hasNextMessage = false := by
    rw [Bool.eq_false_iff, Ne, hread.hasNextMessage]
    exact lt_irrefl _
  refine ⟨heq, ?_⟩
  rw [Node.getMessageIf_of_not_hasNext (ν := s.start n) hport hread.state hhas,
    hread.canAccept_of_eq]
  cases s.closed (s.endOf p).opp with
  | true => rfl
  | false => rfl

/-- When nothing is in flight, everything that was sent can be read. -/
theorem Reachable.readsAll (hG : ∀ s act, G s act → s.Honest act ∧ s.Acknowledges act)
    (hget : ∀ s n p, s.Honest (.getMessageIf n p none) → G s (.getMessageIf n p none))
    (h : Reachable G s) (hsmall : ∀ e, (s.sent e).length < 2 ^ 64 - 1) (hflight : s.inFlight = [])
    (hp : (n, p) ∈ s.held) : s.ReadsAll n p := by
  -- By induction on how many messages are to be returned.
  induction hk : (s.sent (s.endOf p).opp).length - (s.returned (s.endOf p)).length
    generalizing s with
  | zero =>
    obtain ⟨heq, hlast⟩ := h.read_last hG hsmall hflight hp (Nat.sub_eq_zero_iff_le.1 hk)
    exact ⟨s, by rw [hk]; rfl, heq, hlast⟩
  | succ k ih =>
    obtain ⟨s₁, hstep, hr⟩ := h.reads hG hsmall hflight hp (by omega)
    obtain ⟨s', hexec, hall, hlast⟩ := ih (h.step (hget s n p hp) hstep) (by rwa [hr.sent])
      (hr.inFlight.trans hflight) (hr.held hp) (by rw [hr.endOf, hr.sent, hr.returned]; omega)
    rw [hr.endOf, hr.sent, hr.returned, Nat.sub_succ, hk] at hexec
    rw [hr.endOf, hr.sent] at hall
    rw [hr.endOf, hr.closed] at hlast
    have hhonest : s.Honest (.getMessageIf n p none) := hp
    refine ⟨s', ?_, hall, hlast⟩
    rw [hk, List.replicate_succ, System.exec, if_pos hhonest, hstep, Option.bind_some]
    exact hexec

/-! ## Runs with few messages -/

theorem length_sent_le_step {act : Action α} (h : s.step act = some s') (e : End) :
    (s.sent e).length ≤ (s'.sent e).length := by
  rcases sent_step h with hsent | ⟨n, p, payload, ports, m, -, hsent⟩
  · rw [hsent]
  · rw [hsent, Function.update_apply]
    split_ifs with he
    · rw [he, List.length_append]
      exact Nat.le_add_right _ _
    · exact le_rfl

/-- Before 2 ^ 32 - 1 messages are sent, no proxy is acknowledged with the number that asks it to
    announce itself again. -/
theorem Reachable.acknowledges (hG : ∀ s act, G s act → s.Honest act) (h : Reachable G s)
    (hfew : ∀ e, (s.sent e).length < 2 ^ 32 - 1) :
    Reachable (fun s act => G s act ∧ s.Acknowledges act) s := by
  induction h with
  | init => exact .init
  | @step s s' act h hact hs ih =>
    have hfew' : ∀ e, (s.sent e).length < 2 ^ 32 - 1 := fun e =>
      (length_sent_le_step hs e).trans_lt (hfew e)
    refine (ih hfew').step ⟨hact, ?_⟩ hs
    obtain ⟨⟨η, N, hS, hN, -⟩, -⟩ := h.simulates hG (fun _ => True) trivial
      fun _ _ _ _ _ => trivial
    cases act with
    | acceptMessage i => exact hS.acknowledges_of_few hN hfew' i
    | _ => trivial

/-- Deliveries are part of a run, and send no messages. -/
theorem Delivers.reachable (hG : ∀ s i, G s (.acceptMessage i)) (h : Reachable G s)
    (hs : s.Delivers s') : Reachable G s' ∧ s'.sent = s.sent := by
  induction hs with
  | refl => exact ⟨h, rfl⟩
  | tail _ hi ih =>
    obtain ⟨i, hi⟩ := hi
    refine ⟨ih.1.step (hG _ i) hi, ?_⟩
    rcases sent_step hi with hsent | ⟨_, _, _, _, _, hact, -⟩
    · rw [hsent, ih.2]
    · cases hact

/-- The deliveries come to an end before 2 ^ 32 - 1 messages are sent. -/
theorem Reachable.acc_delivery (hG : ∀ s act, G s act → s.Honest act)
    (hdeliver : ∀ s i, G s (.acceptMessage i)) (h : Reachable G s)
    (hfew : ∀ e, (s.sent e).length < 2 ^ 32 - 1)
    (hacc : Acc (fun s' s : System α => s.AcceptsMessage s') s) :
    Acc (fun s' s : System α => ∃ i, s.step (.acceptMessage i) = some s') s := by
  induction hacc with
  | intro s _ ih =>
    refine .intro s fun s' hs => ?_
    obtain ⟨⟨η, N, hS, hN, -⟩, -⟩ := h.simulates hG (fun _ => True) trivial
      fun _ _ _ _ _ => trivial
    obtain ⟨h', hsent⟩ := Delivers.reachable hdeliver h (.single hs)
    obtain ⟨i, hs⟩ := hs
    exact ih s' ⟨i, hS.acknowledges_of_few hN hfew i, hs⟩ h' (by rwa [hsent])

/-! ## Results -/

/-- In every honest run in which no port is sent to an end that it carries, and in which few
    messages are sent, the deliveries come to an end, in any order. While something is in flight,
    something can be delivered, and when nothing is, all messages sent to the ports that the
    embedder holds can be read, and the closing of the other end is noticed after the last one. -/
theorem Reachable.arrives (h : Reachable (fun s act => s.Honest act ∧ s.Untangled act) s)
    (hfew : ∀ e, (s.sent e).length < 2 ^ 32 - 1) :
    Acc (fun s' s : System α => ∃ i, s.step (.acceptMessage i) = some s') s ∧
      ∀ s', s.Delivers s' →
        (s'.inFlight ≠ [] → ∃ i s'', s'.step (.acceptMessage i) = some s'') ∧
        (s'.inFlight = [] → ∀ n p, (n, p) ∈ s'.held → s'.ReadsAll n p) := by
  have hack := h.acknowledges (fun _ _ hact => hact.1) hfew
  obtain ⟨η, N, reach, hS, b⟩ :=
    (hack.mono fun _ _ hact => ⟨hact.1.1, hact.2, hact.1.2⟩).bounded
  refine ⟨h.acc_delivery (fun _ _ hact => hact.1) (fun _ _ => ⟨trivial, trivial⟩) hfew (hS.acc b),
    fun s' hs => ?_⟩
  obtain ⟨h', hsent⟩ := Delivers.reachable (fun _ _ => ⟨trivial, trivial⟩) h hs
  have hfew' : ∀ e, (s'.sent e).length < 2 ^ 32 - 1 := by rwa [hsent]
  refine ⟨fun hne => ?_, fun hflight n p hp => ?_⟩
  · have hoops : s'.oops = [] := (h'.simulates (fun _ _ hact => hact.1) (fun _ => True)
      trivial fun _ _ _ _ _ => trivial).2
    obtain ⟨y, flight, hflight⟩ := List.exists_cons_of_ne_nil hne
    refine ⟨0, { s' with inFlight := s'.inFlight.eraseIdx 0 }.deliver y.1 y.2, ?_⟩
    rw [System.step, if_neg (not_not.2 hoops), hflight]
    rfl
  · refine (h'.acknowledges (fun _ _ hact => hact.1) hfew').readsAll
      (fun _ _ hact => ⟨hact.1.1, hact.2⟩) (fun _ _ _ hp => ⟨⟨hp, trivial⟩, trivial⟩)
      (fun e => (hfew' e).trans (by decide)) hflight hp

/-- A port is sent over another pipe while a message is in its queue, and the other end of its
    pipe is closed: the message is read on the node that the port is sent to. -/
theorem Reachable.arrives_sent : ∃ s : System ℕ,
    (Reachable (fun s act => s.Honest act ∧ s.Untangled act) s ∧
      (∀ e, (s.sent e).length < 2 ^ 32 - 1) ∧ s.inFlight = [] ∧ (2, 5) ∈ s.held) ∧
    (s.sent (s.endOf 5).opp, s.returned (s.endOf 5), s.closed (s.endOf 5).opp) =
      ([(1, 7)], [], true) ∧ s.ReadsAll 2 5 := by
  obtain ⟨s, hs, hlen, hflight, hheld, hends⟩ := exists_reachable (α := ℕ)
    (G := fun s act => s.Honest act ∧ s.Acknowledges act ∧ s.SendsToHeld act)
    (P := fun s => s.inFlight = [] ∧ (2, 5) ∈ s.held ∧ (s.sent (s.endOf 5).opp,
      s.returned (s.endOf 5), s.closed (s.endOf 5).opp) = ([(1, 7)], [], true))
    [.createPortPair 1, .connect 1 2, .sendMessage 1 1 7 [], .sendMessage 1 3 0 [2],
      .closePort 1 1, .acceptMessage 0, .acceptMessage 0, .acceptMessage 0, .acceptMessage 0,
      .acceptMessage 0, .acceptMessage 0, .acceptMessage 0, .acceptMessage 0,
      .getMessageIf 2 4 none] (by decide +kernel)
  have hs' := hs.untangled.mono fun _ _ hact => And.intro hact.1 hact.2.2
  have hfew : ∀ e, (s.sent e).length < 2 ^ 32 - 1 := fun e => (hlen e).trans_lt (by decide)
  exact ⟨s, ⟨hs', hfew, hflight, hheld⟩, hends, ((hs'.arrives hfew).2 s .refl).2 hflight 2 5 hheld⟩

end System

end MojoEdk.Ports
