import MojoEdk.Ports.Net.Ring

/-!
# Nodes refine the ring of ports

The states of a system of nodes are those of a net, once every place has a name
and a node it is on (`Names`): the ports of the nodes are those of the net that
are not in transit, the events in flight are the events and the messages in
flight, and the ports in transit are the descriptors of the latter (`Refines`).

A call on a node is a loop of small changes. The relation is kept by each of them,
with the system as if the call ended there (`System.commit`): this file is about
these small changes, `MojoEdk.Ports.Refine.Calls` about the calls.
-/

namespace MojoEdk.Ports

variable {α : Type*}

/-- The state of a port of a kind. A port in transit has none. -/
def Kind.state : Kind → Port.State
  | .transit => .uninitialized
  | .receiving => .receiving
  | .buffering => .buffering
  | .proxying => .proxying

@[simp] theorem Kind.state_eq_receiving {k : Kind} : k.state = .receiving ↔ k = .receiving := by
  cases k <;> simp [state]

@[simp] theorem Kind.state_eq_buffering {k : Kind} : k.state = .buffering ↔ k = .buffering := by
  cases k <;> simp [state]

@[simp] theorem Kind.state_eq_proxying {k : Kind} : k.state = .proxying ↔ k = .proxying := by
  cases k <;> simp [state]

/-- The name of the port at a place, and the node it is on. -/
structure Names where
  name : Place → PortName
  home : Place → NodeName

namespace Names

variable (η : Names)

/-- An event, as nodes send it. -/
def event : Net.Event → NodeName × Event α
  | .accepted x => (η.home x, .portAccepted (η.name x))
  | .proxy d x => (η.home d, .observeProxy (η.name d)
      { proxyNodeName := η.home x
        proxyPortName := η.name x
        proxyToNodeName := η.home x.succ
        proxyToPortName := η.name x.succ })
  | .ack x last => (η.home x, .observeProxyAck (η.name x) last)
  | .closure d last => (η.home d, .observeClosure (η.name d) last)

/-- The name of the live port of an end. -/
def live (N : Net α) (e : End) : PortName := η.name (e, N.len e)

/-- The descriptor of the live port of an end. -/
def descriptor (N : Net α) (e : End) : PortDescriptor :=
  match N.port (e, N.len e) with
  | none => {}
  | some a =>
    { peerNodeName := η.home (e.opp, N.toward e)
      peerPortName := η.name (e.opp, N.toward e)
      referringNodeName := η.home (e, N.len e - 1)
      referringPortName := η.name (e, N.len e - 1)
      nextSequenceNumToSend := a.send
      nextSequenceNumToReceive := a.next
      lastSequenceNumToReceive := a.last
      peerClosed := a.peerClosed }

/-- A message in flight, as nodes send it. -/
def message (N : Net α) (l : Net.Letter α) : Message α where
  portName := η.name l.place
  sequenceNum := l.number
  descriptors := l.ports.map (η.descriptor N)
  ports := l.ports.map (η.live N)
  payload := l.payload

/-- The events in flight. -/
def flight (N : Net α) : Multiset (NodeName × Event α) :=
  N.events.map η.event + (N.letters.filter fun l => ¬l.queued = true).map fun l =>
    (η.home l.place, .user (η.message N l))

/-- What a message is in a queue. -/
def entry (N : Net α) (l : Net.Letter α) : UInt64 × α × List PortName :=
  (l.number, l.payload, l.ports.map (η.live N))

theorem entry_congr {η : Names} {N M : Net α} (h : M.len = N.len) : η.entry M = η.entry N := by
  have hlive : η.live M = η.live N := by
    funext e
    rw [live, live, h]
  funext l
  rw [entry, entry, hlive]

end Names

/-- What a message of a queue is read for. -/
def Message.entry (m : Message α) : UInt64 × α × List PortName := (m.sequenceNum, m.payload, m.ports)

/-- A port of a node is the port at a place. -/
structure PortMatch (η : Names) (N : Net α) (x : Place) (a : Net.Port) (port : Port α) : Prop where
  arrived : a.kind ≠ .transit
  state : port.state = a.kind.state
  peerNodeName : port.peerNodeName = η.home (N.peer x)
  peerPortName : port.peerPortName = η.name (N.peer x)
  send : port.nextSequenceNumToSend = a.send
  next : port.messageQueue.nextSequenceNum = a.next
  last : port.lastSequenceNumToReceive = a.last
  remove : port.removeProxyOnLastMessage = a.remove
  peerClosed : port.peerClosed = a.peerClosed
  stored : port.sendOnProxyRemoval =
    if a.stored then some (η.event (.ack x.succ kInvalidSequenceNum)) else none
  sorted : port.messageQueue.heap.Pairwise fun m m' => m.sequenceNum ≤ m'.sequenceNum
  queue : (port.messageQueue.heap.map Message.entry : Multiset _) = (N.queue x).map (η.entry N)

/-- The port of a place, if there is one that is not in transit. -/
def Matches (η : Names) (N : Net α) (x : Place) : Option (Port α) → Prop
  | some port => ∃ a, N.port x = some a ∧ PortMatch η N x a port
  | none => ∀ a, N.port x = some a → a.kind = .transit

/-- The state of a system is the one of a net. -/
structure Refines (η : Names) (s : System α) (N : Net α) : Prop where
  lt : ∀ x, N.Used x → η.name x < s.nextPortName
  inj : ∀ x y, N.Used x → N.Used y → η.name x = η.name y → x = y
  endOf : ∀ x, N.Used x → s.endOf (η.name x) = x.1
  named : ∀ n p port, (s.node n).getPort p = some port → ∃ x, N.Used x ∧ η.home x = n ∧ η.name x = p
  port : ∀ x, N.Used x → Matches η N x ((s.node (η.home x)).getPort (η.name x))
  flight : (s.inFlight : Multiset _) = η.flight N
  homes : ∀ l ∈ N.letters, ∀ e ∈ l.ports, η.home (e, N.len e) = η.home l.place
  nodeName : ∀ n, (s.node n).name = n
  pipes : s.pipes = N.pipes
  closed : s.closed = N.closed
  sent : s.sent = N.sent
  returned : s.returned = N.returned

namespace System

theorem getPort_commit (s : System α) (ν : Node α) (n : NodeName) (p : PortName) :
    ((s.commit ν).node n).getPort p =
      if n = ν.name then ν.getPort p else (s.node n).getPort p := by
  simp only [commit, Function.update_apply]
  split_ifs <;> rfl

end System

variable {η : Names} {s : System α} {ν : Node α} {N M : Net α} {x : Place} {a : Net.Port}

/-- The names of the places of a net do not change. -/
def Agree (N : Net α) (κ η : Names) : Prop :=
  ∀ y, N.Used y → κ.name y = η.name y ∧ κ.home y = η.home y

theorem Agree.refl (N : Net α) (η : Names) : Agree N η η := fun _ _ => ⟨rfl, rfl⟩

/-- The port of a place, when nothing about it changes. -/
theorem Matches.congr {κ : Names} {o : Option (Port α)} (h : Matches η N x o)
    (hport : M.port x = N.port x) (hpeer : M.peer x = N.peer x)
    (hname : κ.name (N.peer x) = η.name (N.peer x)) (hhome : κ.home (N.peer x) = η.home (N.peer x))
    (hstored : ∀ a, N.port x = some a → a.stored →
      κ.event (α := α) (.ack x.succ kInvalidSequenceNum) = η.event (.ack x.succ kInvalidSequenceNum))
    (hqueue : (M.queue x).map (κ.entry M) = (N.queue x).map (η.entry N)) : Matches κ M x o := by
  cases o with
  | none => exact fun a ha => h a (hport ▸ ha)
  | some port =>
    obtain ⟨a, ha, h⟩ := h
    refine ⟨a, hport.trans ha, ?_⟩
    exact { h with
      peerNodeName := by rw [hpeer, hhome, h.peerNodeName]
      peerPortName := by rw [hpeer, hname, h.peerPortName]
      stored := by
        rw [h.stored]
        split_ifs with hs
        · rw [hstored a ha hs]
        · rfl
      queue := h.queue.trans hqueue.symm }

namespace Refines

/-- The port of a place on a node. -/
theorem lookup (h : Refines η (s.commit ν) N) (hx : N.Used x) (hn : η.home x = ν.name) :
    Matches η N x (ν.getPort (η.name x)) := by
  have := h.port x hx
  rwa [System.getPort_commit, if_pos hn] at this

/-- A node keeps its name. -/
theorem nodeName_commit (h : Refines η (s.commit ν) N) {ν' : Node α}
    (hname : ν'.name = ν.name) (n : NodeName) : ((s.commit ν').node n).name = n := by
  simp only [System.commit, Function.update_apply]
  split_ifs with hn
  · exact hn.symm
  · have := h.nodeName n
    change (Function.update s.node ν.name _ n).name = n at this
    rwa [Function.update_of_ne (hname ▸ hn)] at this

theorem start (h : Refines η s N) (n : NodeName) : Refines η (s.commit (s.start n)) N := by
  have hget : ∀ n' p, ((s.commit (s.start n)).node n').getPort p = (s.node n').getPort p := by
    intro n' p
    rw [System.getPort_commit]
    split_ifs with hn
    · rw [hn, show (s.start n).name = (s.node n).name from rfl, h.nodeName]
      rfl
    · rfl
  exact
    { h with
      named := fun n' p port hp => h.named n' p port ((hget n' p).symm.trans hp)
      port := fun x hx => (hget _ _).symm ▸ h.port x hx
      flight := (congrArg _ (List.append_nil _)).trans h.flight
      nodeName := fun n' => by
        simp only [System.commit, Function.update_apply]
        split_ifs with hn
        · exact hn.symm
        · exact h.nodeName n' }

/-- The ports at some places of a node change, or the events and messages. -/
theorem change (h : Refines η (s.commit ν) N) {ν' : Node α} (S : Place → Prop)
    (hname : ν'.name = ν.name)
    (hnext : ν'.delegate.nextPortName = ν.delegate.nextPortName)
    (hren : ν'.delegate.renamed = ν.delegate.renamed)
    (hpipes : M.pipes = N.pipes) (hlen : M.len = N.len)
    (hS : ∀ x, S x → η.home x = ν.name ∧ N.Used x)
    (hget : ∀ p, (∀ x, S x → η.name x ≠ p) → ν'.getPort p = ν.getPort p)
    (hmatch : ∀ x, S x → Matches η M x (ν'.getPort (η.name x)))
    (hother : ∀ x, ¬S x → M.port x = N.port x ∧ M.peer x = N.peer x ∧
      (M.queue x).map (η.entry N) = (N.queue x).map (η.entry N))
    (hflight : ((s.inFlight ++ ν'.delegate.forwarded : List _) : Multiset _) = η.flight M)
    (hhomes : ∀ l ∈ M.letters, ∀ e ∈ l.ports, η.home (e, N.len e) = η.home l.place)
    (hclosed : (s.commit ν').closed = M.closed) (hsent : M.sent = N.sent)
    (hret : M.returned = N.returned) : Refines η (s.commit ν') M := by
  have hused : ∀ x, M.Used x → N.Used x := fun x hx => ⟨hpipes ▸ hx.1, hlen ▸ hx.2⟩
  have hused' : ∀ x, N.Used x → M.Used x := fun x hx => ⟨hpipes ▸ hx.1, hlen ▸ hx.2⟩
  have hendOf : (s.commit ν').endOf = (s.commit ν).endOf := by
    change History.renamedEnds _ _ = History.renamedEnds _ _
    rw [hren]
  have hentry : η.entry M = η.entry N := Names.entry_congr hlen
  refine
    { lt := fun x hx => ?_
      inj := fun x y hx hy => h.inj x y (hused x hx) (hused y hy)
      endOf := fun x hx => hendOf ▸ h.endOf x (hused x hx)
      named := fun n p port hp => ?_
      port := fun x hx => ?_
      flight := hflight
      homes := fun l hl e he => hlen ▸ hhomes l hl e he
      nodeName := h.nodeName_commit hname
      pipes := h.pipes.trans hpipes.symm
      closed := hclosed
      sent := h.sent.trans hsent.symm
      returned := h.returned.trans hret.symm }
  · exact (h.lt x (hused x hx)).trans_eq hnext.symm
  · rw [System.getPort_commit, hname] at hp
    by_cases hn : n = ν.name
    · rw [if_pos hn] at hp
      -- A port of the node is at a place that changes, or it was there before.
      by_cases hp' : ∃ x, S x ∧ η.name x = p
      · obtain ⟨x, hx, rfl⟩ := hp'
        exact ⟨x, hused' x (hS x hx).2, (hS x hx).1.trans hn.symm, rfl⟩
      · rw [hget p fun x hx hxp => hp' ⟨x, hx, hxp⟩] at hp
        obtain ⟨x, hx, h1, h2⟩ := h.named n p port (by rwa [System.getPort_commit, if_pos hn])
        exact ⟨x, hused' x hx, h1, h2⟩
    · rw [if_neg hn] at hp
      obtain ⟨x, hx, h1, h2⟩ := h.named n p port (by rwa [System.getPort_commit, if_neg hn])
      exact ⟨x, hused' x hx, h1, h2⟩
  · have hx' := hused x hx
    rw [System.getPort_commit, hname]
    -- Two places have different names, so the port of a place that does not change is the one that
    -- was there.
    by_cases hSx : S x
    · rw [if_pos (hS x hSx).1]
      exact hmatch x hSx
    · obtain ⟨h1, h2, h3⟩ := hother x hSx
      have hm := h.port x hx'
      rw [System.getPort_commit] at hm
      refine Matches.congr ?_ h1 h2 rfl rfl (fun _ _ _ => rfl) (hentry ▸ h3)
      split_ifs at hm ⊢ with hn
      · rw [hget]
        · exact hm
        · intro y hy hyx
          exact hSx (h.inj y x (hS y hy).2 hx' hyx ▸ hy)
      · exact hm

/-- Only the events and messages in flight change. -/
theorem changeFlight (h : Refines η (s.commit ν) N) {ν' : Node α}
    (hname : ν'.name = ν.name) (hports : ν'.ports = ν.ports)
    (hnext : ν'.delegate.nextPortName = ν.delegate.nextPortName)
    (hren : ν'.delegate.renamed = ν.delegate.renamed)
    (hcl : ν'.delegate.closed = ν.delegate.closed)
    (hpipes : M.pipes = N.pipes) (hlen : M.len = N.len) (htoward : M.toward = N.toward)
    (hport : M.port = N.port) (hqueue : ∀ x, M.queue x = N.queue x)
    (hflight : ((s.inFlight ++ ν'.delegate.forwarded : List _) : Multiset _) = η.flight M)
    (hhomes : ∀ l ∈ M.letters, ∀ e ∈ l.ports, η.home (e, N.len e) = η.home l.place)
    (hclosed : M.closed = N.closed) (hsent : M.sent = N.sent)
    (hret : M.returned = N.returned) : Refines η (s.commit ν') M := by
  refine h.change (fun _ => False) hname hnext hren hpipes hlen (fun _ => False.elim)
    (fun p _ => ?_) (fun _ => False.elim) (fun x _ => ⟨by rw [hport], ?_, by rw [hqueue]⟩)
    hflight hhomes ?_ hsent hret
  · rw [Node.getPort, hports]
    rfl
  · simp only [Net.peer, hlen, htoward]
  · rw [hclosed, ← h.closed]
    change History.closedEnds _ (History.renamedEnds _ _) _ =
      History.closedEnds _ (History.renamedEnds _ _) _
    rw [hcl, hren]

end Refines

/-! ## The events and messages in flight -/

/-- No message in flight carries the port at a place. -/
def Away (N : Net α) (x : Place) : Prop :=
  ∀ l ∈ N.letters, l.queued = false → ∀ e ∈ l.ports, (e, N.len e) ≠ x

theorem Away.of_lt (h : x.2 < N.len x.1) : Away N x := by
  rintro l - - e - rfl
  exact lt_irrefl _ h

theorem Away.of_receiving (c : N.Cargo) {e : End} (hp : N.port (e, N.len e) = some a)
    (hk : a.kind ≠ .transit) : Away N (e, N.len e) := by
  intro l hl hq e' he' heq
  obtain ⟨b, hb, hbk⟩ := c.transit hl hq e' he'
  rw [heq, hp] at hb
  exact hk (Option.some.inj hb ▸ hbk)

/-- A port that is not in transit is not carried by a message in flight. -/
theorem Away.of_port (w : N.Shape) (c : N.Cargo) (hx : N.port x = some a)
    (hk : a.kind ≠ .transit) : Away N x := by
  cases hl : a.kind.live with
  | false => exact .of_lt (w.proxy hx hl)
  | true =>
    obtain ⟨e, i⟩ := x
    obtain rfl : i = N.len e := (w.live hx hl).1
    exact .of_receiving c hx hk

namespace Names

theorem flight_emit (ev : Net.Event) :
    η.flight (N.withEvents (ev ::ₘ N.events)) = η.event ev ::ₘ η.flight N := by
  change (ev ::ₘ N.events).map η.event + _ = _ ::ₘ (N.events.map η.event + _)
  rw [Multiset.map_cons, Multiset.cons_add]
  rfl

theorem flight_consume {ev : Net.Event} {E : Multiset Net.Event} (h : N.events = ev ::ₘ E) :
    η.flight N = η.event ev ::ₘ η.flight (N.withEvents E) := by
  rw [← flight_emit]
  change _ = η.flight (N.withEvents (ev ::ₘ E))
  rw [← h]
  rfl

theorem flight_post {l : Net.Letter α} (hq : l.queued = false) :
    η.flight (N.withLetters (l ::ₘ N.letters)) =
      (η.home l.place, .user (η.message N l)) ::ₘ η.flight N := by
  change N.events.map η.event + ((l ::ₘ N.letters).filter _).map _ = _
  rw [Multiset.filter_cons_of_pos _ (by simp [hq]), Multiset.map_cons, Multiset.add_cons]
  rfl

theorem flight_take {l : Net.Letter α} {L : Multiset (Net.Letter α)} (h : N.letters = l ::ₘ L)
    (hq : l.queued = false) :
    η.flight N = (η.home l.place, .user (η.message N l)) ::ₘ η.flight (N.withLetters L) := by
  rw [show η.message N l = η.message (N.withLetters L) l from rfl, ← flight_post hq]
  change _ = η.flight (N.withLetters (l ::ₘ L))
  rw [← h]
  rfl

/-- The messages in a queue are not in flight. -/
theorem flight_withLetters {L : Multiset (Net.Letter α)}
    (h : (L.filter fun l => ¬l.queued = true) = N.letters.filter fun l => ¬l.queued = true) :
    η.flight (N.withLetters L) = η.flight N := by
  change N.events.map η.event + (L.filter _).map _ = _
  rw [h]
  rfl

/-- The ends attached to a message in flight do not change. -/
theorem message_congr {κ : Names} {l : Net.Letter α} (hplace : κ.name l.place = η.name l.place)
    (hlen : ∀ e ∈ l.ports, M.len e = N.len e) (htoward : ∀ e ∈ l.ports, M.toward e = N.toward e)
    (hport : ∀ e ∈ l.ports, M.port (e, N.len e) = N.port (e, N.len e))
    (hname : ∀ e ∈ l.ports, ∀ y, y = (e, N.len e) ∨ y = (e, N.len e - 1) ∨ y = (e.opp, N.toward e) →
      κ.name y = η.name y ∧ κ.home y = η.home y) : κ.message M l = η.message N l := by
  have hlive : l.ports.map (κ.live M) = l.ports.map (η.live N) := by
    refine List.map_congr_left fun e he => ?_
    rw [live, live, hlen e he]
    exact (hname e he _ (.inl rfl)).1
  have hdesc : l.ports.map (κ.descriptor M) = l.ports.map (η.descriptor N) := by
    refine List.map_congr_left fun e he => ?_
    obtain ⟨h1, h2⟩ := hname e he _ (.inr (.inl rfl))
    obtain ⟨h3, h4⟩ := hname e he _ (.inr (.inr rfl))
    rw [descriptor, descriptor, hlen e he, htoward e he, hport e he, h1, h2, h3, h4]
  rw [message, message, hplace, hlive, hdesc]

/-- The events and messages in flight stay as they are. -/
theorem flight_congr {κ : Names} (hE : M.events = N.events) (hL : M.letters = N.letters)
    (hev : ∀ ev ∈ N.events, κ.event (α := α) ev = η.event ev)
    (hhome : ∀ l ∈ N.letters, κ.home l.place = η.home l.place)
    (hmsg : ∀ l ∈ N.letters, l.queued = false → κ.message M l = η.message N l) :
    κ.flight M = η.flight N := by
  rw [flight, flight, hE, hL]
  congr 1
  · exact Multiset.map_congr rfl hev
  · refine Multiset.map_congr rfl fun l hl => ?_
    obtain ⟨hl, hq⟩ := Multiset.mem_filter.1 hl
    rw [hhome l hl, hmsg l hl (by simpa using hq)]

theorem flight_set (haway : Away N x) (b : Net.Port) : η.flight (N.set x b) = η.flight N :=
  flight_congr rfl rfl (fun _ _ => rfl) (fun _ _ => rfl) fun l hl hq =>
    message_congr rfl (fun _ _ => rfl) (fun _ _ => rfl)
      (fun e he => Net.port_set_of_ne b (haway l hl hq e he)) fun _ _ _ _ => ⟨rfl, rfl⟩

theorem flight_erase (haway : Away N x) : η.flight (N.erase x) = η.flight N :=
  flight_congr rfl rfl (fun _ _ => rfl) (fun _ _ => rfl) fun l hl hq =>
    message_congr rfl (fun _ _ => rfl) (fun _ _ => rfl)
      (fun e he => Net.port_erase_of_ne (haway l hl hq e he)) fun _ _ _ _ => ⟨rfl, rfl⟩

theorem flight_redirect {e : End} (haway : Away N (e, N.len e)) :
    η.flight (N.redirect e) = η.flight N :=
  flight_congr rfl rfl (fun _ _ => rfl) (fun _ _ => rfl) fun l hl hq =>
    message_congr rfl (fun _ _ => rfl)
      (fun e' he' => Function.update_of_ne (fun h => haway l hl hq e' he' (by rw [h])) ..)
      (fun _ _ => rfl) fun _ _ _ _ => ⟨rfl, rfl⟩

end Names

/-! ## Small changes -/

namespace Refines

theorem portStatusChanged (h : Refines η (s.commit ν) N) (p : PortName) :
    Refines η (s.commit (ν.portStatusChanged p)) N :=
  h.changeFlight rfl rfl rfl rfl rfl rfl rfl rfl rfl (fun _ => rfl) h.flight h.homes rfl rfl rfl

theorem oops (h : Refines η (s.commit ν) N) (failure : Oops) :
    Refines η (s.commit (ν.oops failure)) N :=
  h.changeFlight rfl rfl rfl rfl rfl rfl rfl rfl rfl (fun _ => rfl) h.flight h.homes rfl rfl rfl

theorem flight_forwardMessage (h : Refines η (s.commit ν) N) (n : NodeName) (event : Event α) :
    ((s.inFlight ++ (ν.forwardMessage n event).delegate.forwarded : List _) : Multiset _) =
      (n, event) ::ₘ η.flight N := by
  rw [← h.flight, show (ν.forwardMessage n event).delegate.forwarded =
    ν.delegate.forwarded ++ [(n, event)] from rfl, ← List.append_assoc, ← Multiset.coe_add,
    Multiset.add_comm, Multiset.coe_singleton, Multiset.singleton_add]
  rfl

/-- An event is sent. -/
theorem emit (h : Refines η (s.commit ν) N) {ev : Net.Event} {n : NodeName} {event : Event α}
    (hev : η.event ev = (n, event)) :
    Refines η (s.commit (ν.forwardMessage n event)) (N.withEvents (ev ::ₘ N.events)) := by
  refine h.changeFlight rfl rfl rfl rfl rfl rfl rfl rfl rfl (fun _ => rfl) ?_ h.homes rfl rfl rfl
  rw [h.flight_forwardMessage, Names.flight_emit, hev]

/-- A message is sent. -/
theorem post (h : Refines η (s.commit ν) N) {l : Net.Letter α} {m : Message α}
    (hq : l.queued = false) (hhomes : ∀ e ∈ l.ports, η.home (e, N.len e) = η.home l.place)
    (hm : η.message N l = m) :
    Refines η (s.commit (ν.forwardMessage (η.home l.place) (.user m)))
      (N.withLetters (l ::ₘ N.letters)) := by
  refine h.changeFlight rfl rfl rfl rfl rfl rfl rfl rfl rfl (fun x => ?_) ?_
    (Multiset.forall_mem_cons.2 ⟨hhomes, h.homes⟩) rfl rfl rfl
  · exact Multiset.filter_cons_of_neg _ (by simp [hq])
  · rw [h.flight_forwardMessage, Names.flight_post hq, hm]

/-- A port changes, and its queue. -/
theorem setQueue (h : Refines η (s.commit ν) N) (hx : N.Used x) (hn : η.home x = ν.name)
    {b : Net.Port} {port : Port α} {L : Multiset (Net.Letter α)}
    (hm : PortMatch η ((N.set x b).withLetters L) x b port) (haway : Away N x)
    (hL : (L.filter fun l => ¬l.queued = true) = N.letters.filter fun l => ¬l.queued = true)
    (hqueue : ∀ y, y ≠ x → (N.withLetters L).queue y = N.queue y)
    (hhomes : ∀ l ∈ L, ∀ e ∈ l.ports, η.home (e, N.len e) = η.home l.place) :
    Refines η (s.commit (ν.setPort (η.name x) port)) ((N.set x b).withLetters L) := by
  refine h.change (· = x) rfl rfl rfl rfl rfl ?_ (fun p hp => ?_) ?_ (fun y hy => ?_) ?_ hhomes
    h.closed rfl rfl
  · rintro y rfl
    exact ⟨hn, hx⟩
  · rw [Node.getPort_setPort, if_neg (hp x rfl).symm]
  · rintro y rfl
    rw [Node.getPort_setPort, if_pos rfl]
    exact ⟨b, Net.port_set_self .., hm⟩
  · exact ⟨Net.port_set_of_ne b hy, rfl, congrArg _ (hqueue y hy)⟩
  · exact h.flight.trans ((Names.flight_set haway b).symm.trans
      (Names.flight_withLetters (N := N.set x b) hL).symm)

/-- A port changes, but not its queue. -/
theorem set (h : Refines η (s.commit ν) N) (hx : N.Used x) (hn : η.home x = ν.name)
    {b : Net.Port} {port : Port α} (hm : PortMatch η N x b port) (haway : Away N x) :
    Refines η (s.commit (ν.setPort (η.name x) port)) (N.set x b) :=
  h.setQueue (L := N.letters) hx hn { hm with } haway rfl (fun _ _ => rfl) h.homes

/-- A port is erased, and its queue with it. -/
theorem erase (h : Refines η (s.commit ν) N) (hx : N.Used x) (hn : η.home x = ν.name)
    (haway : Away N x) :
    Refines η (s.commit (ν.erasePort (η.name x))) ((N.erase x).withLetters (N.elsewhere x)) := by
  refine h.change (· = x) rfl rfl rfl rfl rfl ?_ (fun p hp => ?_) ?_ (fun y hy => ?_) ?_
    (fun l hl => h.homes l (Multiset.mem_filter.1 hl).1) h.closed rfl rfl
  · rintro y rfl
    exact ⟨hn, hx⟩
  · rw [Node.getPort_erasePort, if_neg (hp x rfl).symm]
  · rintro y rfl
    rw [Node.getPort_erasePort, if_pos rfl]
    intro b hb
    exact absurd ((Net.port_erase_self y).symm.trans hb) (Option.some_ne_none b).symm
  · refine ⟨Net.port_erase_of_ne hy, rfl, congrArg _ ?_⟩
    change (N.elsewhere x).filter _ = N.letters.filter _
    rw [Net.elsewhere, Multiset.filter_filter]
    refine Multiset.filter_congr fun l _ => ⟨And.left, fun hl => ⟨hl, fun hl' => ?_⟩⟩
    exact hy (hl.2.symm.trans hl'.2)
  · refine h.flight.trans ((Names.flight_erase haway).symm.trans
      (Names.flight_withLetters (N := N.erase x) ?_).symm)
    change (N.elsewhere x).filter _ = N.letters.filter _
    rw [Net.elsewhere, Multiset.filter_filter]
    exact Multiset.filter_congr fun l _ => ⟨And.left, fun hl => ⟨hl, fun hl' => hl hl'.1⟩⟩

/-- A receiving port skips a proxy. -/
theorem redirect (h : Refines η (s.commit ν) N) {e : End} (hp : N.port (e, N.len e) = some a)
    (hx : N.Used (e, N.len e)) (hn : η.home (e, N.len e) = ν.name) {port : Port α}
    (hm : PortMatch η (N.redirect e) (e, N.len e) a port) (haway : Away N (e, N.len e)) :
    Refines η (s.commit (ν.setPort (η.name (e, N.len e)) port)) (N.redirect e) := by
  refine h.change (· = (e, N.len e)) rfl rfl rfl rfl rfl ?_ (fun p hp => ?_) ?_ (fun y hy => ?_) ?_
    h.homes h.closed rfl rfl
  · rintro y rfl
    exact ⟨hn, hx⟩
  · rw [Node.getPort_setPort, if_neg (hp _ rfl).symm]
  · rintro y rfl
    rw [Node.getPort_setPort, if_pos rfl]
    exact ⟨a, hp, hm⟩
  · refine ⟨rfl, ?_, rfl⟩
    rw [Net.peer, Net.peer]
    change (if y.2 = N.len y.1 then _ else _) = if y.2 = N.len y.1 then _ else _
    split_ifs with hl
    · have hne : y.1 ≠ e := by
        rintro rfl
        exact hy (Prod.ext rfl hl)
      rw [Net.toward_redirect_of_ne hne]
    · rfl
  · exact h.flight.trans (Names.flight_redirect haway).symm

/-- A name that was not generated yet is nowhere. -/
theorem fresh (h : Refines η s N) {p : PortName} (hp : s.nextPortName ≤ p) (n : NodeName) :
    (s.node n).getPort p = none := by
  by_contra hne
  obtain ⟨port, hport⟩ := Option.ne_none_iff_exists'.1 hne
  obtain ⟨x, hx, -, rfl⟩ := h.named n p port hport
  exact absurd (h.lt x hx) (not_lt.2 hp)

end Refines

/-! ## Ports in transit -/

/-- The names with one more. -/
def Names.extend (η : Names) (x : Place) (p : PortName) (n : NodeName) : Names where
  name := Function.update η.name x p
  home := Function.update η.home x n

@[simp] theorem Names.name_extend (η : Names) (x : Place) (p : PortName) (n : NodeName) :
    (η.extend x p n).name x = p := Function.update_self ..

@[simp] theorem Names.home_extend (η : Names) (x : Place) (p : PortName) (n : NodeName) :
    (η.extend x p n).home x = n := Function.update_self ..

theorem Agree.extend (hx : ¬N.Used x) (p : PortName) (n : NodeName) :
    Agree N (η.extend x p n) η := by
  intro y hy
  have hne : y ≠ x := by
    rintro rfl
    exact hx hy
  exact ⟨Function.update_of_ne hne .., Function.update_of_ne hne ..⟩

theorem Agree.event {κ : Names} (hκ : Agree N κ η) {ev : Net.Event} (hev : N.Placed ev) :
    κ.event (α := α) ev = η.event ev := by
  cases ev with
  | accepted y => rw [Names.event, Names.event, (hκ y hev.used).1, (hκ y hev.used).2]
  | proxy d y =>
    obtain ⟨-, hd, hy⟩ := hev
    rw [Names.event, Names.event, (hκ d hd).1, (hκ d hd).2, (hκ y hy.used).1, (hκ y hy.used).2,
      (hκ _ hy.succ_used).1, (hκ _ hy.succ_used).2]
  | ack y last => rw [Names.event, Names.event, (hκ y hev.used).1, (hκ y hev.used).2]
  | closure d last => rw [Names.event, Names.event, (hκ d hev).1, (hκ d hev).2]

theorem Agree.entry {κ : Names} (hκ : Agree N κ η) {l : Net.Letter α}
    (hu : ∀ e ∈ l.ports, e.pipe < N.pipes ∧ M.len e = N.len e) : κ.entry M l = η.entry N l := by
  have hlive : l.ports.map (κ.live M) = l.ports.map (η.live N) := by
    refine List.map_congr_left fun e he => ?_
    rw [Names.live, Names.live, (hu e he).2]
    exact (hκ (e, N.len e) ⟨(hu e he).1, le_rfl⟩).1
  rw [Names.entry, Names.entry, hlive]

/-- What is in flight does not change with the names of other places. -/
theorem Agree.flight {κ : Names} (hκ : Agree N κ η) (w : N.Shape) (hE : M.events = N.events)
    (hL : M.letters = N.letters) (hu : ∀ l ∈ N.letters, ∀ e ∈ l.ports, e.pipe < N.pipes ∧
      M.len e = N.len e ∧ M.toward e = N.toward e ∧ M.port (e, N.len e) = N.port (e, N.len e)) :
    κ.flight M = η.flight N := by
  refine Names.flight_congr hE hL (fun ev hev => hκ.event (w.events ev hev))
    (fun l hl => (hκ _ (w.letters l hl)).2) fun l hl _ => ?_
  refine Names.message_congr (hκ _ (w.letters l hl)).1 (fun e he => (hu l hl e he).2.1)
    (fun e he => (hu l hl e he).2.2.1) (fun e he => (hu l hl e he).2.2.2) fun e he y hy => ?_
  have hpipe := (hu l hl e he).1
  rcases hy with rfl | rfl | rfl
  · exact hκ _ ⟨hpipe, le_rfl⟩
  · exact hκ _ ⟨hpipe, Nat.sub_le ..⟩
  · exact hκ _ ⟨hpipe, w.toward_le e⟩

theorem History.renamedEnds_concat (r : List (PortName × PortName)) (p q : PortName)
    (f : PortName → End) : History.renamedEnds (r ++ [(p, q)]) f =
      Function.update (History.renamedEnds r f) q (History.renamedEnds r f p) := by
  rw [History.renamedEnds, List.foldl_append]
  rfl

namespace Node

/-- `WillSendPort_Locked` on a receiving port. -/
theorem willSendPort_of_receiving {ν : Node α} {port : Port α} (hs : port.state = .receiving)
    (p : PortName) (toNode : NodeName) : ν.willSendPort port p toNode =
      ((ν.generateRandomPortName.2.setPort p { port with
          state := .buffering
          removeProxyOnLastMessage := port.removeProxyOnLastMessage || port.peerClosed
          peerNodeName := toNode
          peerPortName := ν.delegate.nextPortName }).noteRenamed p ν.delegate.nextPortName,
        ν.delegate.nextPortName,
        { peerNodeName := port.peerNodeName
          peerPortName := port.peerPortName
          referringNodeName := ν.name
          referringPortName := p
          nextSequenceNumToSend := port.nextSequenceNumToSend
          nextSequenceNumToReceive := port.messageQueue.nextSequenceNum
          lastSequenceNumToReceive := port.lastSequenceNumToReceive
          peerClosed := port.peerClosed }) := by
  simp only [willSendPort, generateRandomPortName, if_pos hs]
  rfl

end Node

theorem Net.peer_live (N : Net α) (e : End) : N.peer (e, N.len e) = (e.opp, N.toward e) := if_pos rfl

theorem Net.peer_of_lt (h : x.2 < N.len x.1) : N.peer x = x.succ := if_neg h.ne

/-- The places of a net are still used once a port of it is sent. -/
theorem Net.Used.transfer {e : End} (hx : N.Used x) : (N.transfer e a).Used x :=
  ⟨hx.1, hx.2.trans (Net.len_le_transfer _)⟩

/-- The only new place is the one that the port is sent to. -/
theorem Net.used_transfer {e : End} (hx : (N.transfer e a).Used x) :
    x = (e, N.len e + 1) ∨ N.Used x := by
  by_cases he : x.1 = e
  · have hle := hx.2
    rw [he, Net.len_transfer_self] at hle
    rcases Nat.le_succ_iff.1 hle with hle | hle
    · exact .inr ⟨hx.1, he ▸ hle⟩
    · exact .inl (Prod.ext he hle)
  · exact .inr ⟨hx.1, hx.2.trans_eq (Net.len_transfer_of_ne he)⟩

theorem Net.not_used_succ (N : Net α) (e : End) : ¬N.Used (e, N.len e + 1) :=
  fun hx => absurd hx.2 (Nat.not_succ_le_self _)

/-- A port that is sent points to the place it is sent to. -/
theorem Net.peer_transfer_sent {e : End} : (N.transfer e a).peer (e, N.len e) = (e, N.len e + 1) := by
  refine Net.peer_of_lt ?_
  rw [Net.len_transfer_self]
  exact Nat.lt_succ_self _

/-- The other ports point to where they did. -/
theorem Net.peer_transfer_of_ne {e : End} (hx : N.Used x) (hxe : x ≠ (e, N.len e)) :
    (N.transfer e a).peer x = N.peer x := by
  rw [Net.peer, Net.peer]
  by_cases he : x.1 = e
  · have hlt : x.2 < N.len x.1 := lt_of_le_of_ne hx.2 fun hl => hxe (Prod.ext he (he ▸ hl))
    rw [if_neg hlt.ne, if_neg (hlt.trans_le (Net.len_le_transfer _)).ne]
  · rw [Net.len_transfer_of_ne he]
    rfl

section Transfer

variable {κ : Names} {e : End} {port : Port α} {toNode : NodeName} {p : PortName} {ν' : Node α}

/-- A port that `WillSendPort_Locked` sends. -/
def Port.sentTo (port : Port α) (toNode : NodeName) (newPortName : PortName) : Port α :=
  { port with
    state := .buffering
    removeProxyOnLastMessage := port.removeProxyOnLastMessage || port.peerClosed
    peerNodeName := toNode
    peerPortName := newPortName }

/-- The other ports of a node in which one port has changed are as they were. -/
theorem System.getPort_commit_of_ne {q : PortName} (hname : ν'.name = ν.name)
    (hget : ∀ q', ν'.getPort q' = if q' = p then some port else ν.getPort q') (n : NodeName)
    (hq : q ≠ p) : ((s.commit ν').node n).getPort q = ((s.commit ν).node n).getPort q := by
  rw [getPort_commit, getPort_commit, hname, hget, if_neg hq]

/-- The messages in the queues are as they were: a port that is in a message is not sent. -/
theorem Agree.queue_transfer (hκ : Agree N κ η)
    (hpipe : ∀ l ∈ N.letters, ∀ e' ∈ l.ports, e'.pipe < N.pipes)
    (hatt : ∀ l ∈ N.letters, e ∉ l.ports) (x : Place) :
    (N.queue x).map (κ.entry (N.transfer e a)) = (N.queue x).map (η.entry N) := by
  refine Multiset.map_congr rfl fun l hl => hκ.entry fun e' he' => ?_
  have hl := (Multiset.mem_filter.1 hl).1
  refine ⟨hpipe l hl e' he', Net.len_transfer_of_ne ?_⟩
  rintro rfl
  exact hatt l hl he'

/-- The descriptor of a port that is sent. -/
theorem Agree.descriptor_transfer (hκ : Agree N κ η) (w : N.Shape)
    (hp : N.port (e, N.len e) = some a) (hm : PortMatch η N (e, N.len e) a port) :
    κ.descriptor (N.transfer e a) e =
      { peerNodeName := port.peerNodeName
        peerPortName := port.peerPortName
        referringNodeName := η.home (e, N.len e)
        referringPortName := η.name (e, N.len e)
        nextSequenceNumToSend := port.nextSequenceNumToSend
        nextSequenceNumToReceive := port.messageQueue.nextSequenceNum
        lastSequenceNumToReceive := port.lastSequenceNumToReceive
        peerClosed := port.peerClosed } := by
  have htoward : N.Used (e.opp, N.toward e) := ⟨w.pipe_lt (x := (e, N.len e)) hp, w.toward_le e⟩
  obtain ⟨h1, h2⟩ := hκ _ htoward
  obtain ⟨h3, h4⟩ := hκ _ (w.used hp)
  have hpn := hm.peerNodeName
  have hpp := hm.peerPortName
  rw [Net.peer_live] at hpn hpp
  rw [Names.descriptor, Net.port_transfer_live, Net.len_transfer_self]
  simp only [Nat.add_sub_cancel, hm.send, hm.next, hm.last, hm.peerClosed, hpn, hpp]
  rw [show (N.transfer e a).toward = N.toward from rfl, h1, h2, h3, h4]

/-- The port that is sent buffers, and points to its new place. -/
theorem PortMatch.transfer (hm : PortMatch η N (e, N.len e) a port) (w : N.Shape)
    (hp : N.port (e, N.len e) = some a)
    (hqueue : ∀ x, (N.queue x).map (κ.entry (N.transfer e a)) = (N.queue x).map (η.entry N)) :
    PortMatch κ (N.transfer e a) (e, N.len e)
      { a with kind := .buffering, remove := a.remove || a.peerClosed }
      (port.sentTo (κ.home (e, N.len e + 1)) (κ.name (e, N.len e + 1))) := by
  obtain ⟨-, hst, -⟩ := w.live hp (w.kind_live hp)
  exact
    { hm with
      arrived := by simp
      state := rfl
      peerNodeName := by
        rw [Net.peer_transfer_sent]
        rfl
      peerPortName := by
        rw [Net.peer_transfer_sent]
        rfl
      remove := by
        change (_ || _) = (_ || _)
        rw [hm.remove, hm.peerClosed]
      stored := by
        have := hm.stored
        rw [hst] at this
        simpa [hst, Port.sentTo] using this
      queue := hm.queue.trans (hqueue _).symm }

/-- The other ports stay as they are. -/
theorem Matches.transfer {o : Option (Port α)} (h : Matches η N x o) (hκ : Agree N κ η)
    (w : N.Shape) (hx : N.Used x) (hxe : x ≠ (e, N.len e))
    (hqueue : ∀ x, (N.queue x).map (κ.entry (N.transfer e a)) = (N.queue x).map (η.entry N)) :
    Matches κ (N.transfer e a) x o := by
  have hnew : x ≠ (e, N.len e + 1) := by
    rintro rfl
    exact N.not_used_succ e hx
  exact h.congr (Net.port_transfer_of_ne hnew hxe) (Net.peer_transfer_of_ne hx hxe)
    (hκ _ (w.peer_used hx)).1 (hκ _ (w.peer_used hx)).2
    (fun b hb hs => hκ.event (w.stored hb hs)) (hqueue x)

/-- What is in flight stays as it is: no message in flight carries the port. -/
theorem Agree.flight_transfer (hκ : Agree N κ η) (w : N.Shape)
    (hpipe : ∀ l ∈ N.letters, ∀ e' ∈ l.ports, e'.pipe < N.pipes)
    (hatt : ∀ l ∈ N.letters, e ∉ l.ports) : κ.flight (N.transfer e a) = η.flight N := by
  refine hκ.flight w rfl rfl fun l hl e' he' => ?_
  have hee : e' ≠ e := by
    rintro rfl
    exact hatt l hl he'
  exact ⟨hpipe l hl e' he', Net.len_transfer_of_ne hee, rfl, Net.port_transfer_of_fst_ne hee⟩

namespace Refines

/-- The ports of a node in which one port has changed are at the places they were at. -/
theorem named_of_setPort (h : Refines η (s.commit ν) N) (hname : ν'.name = ν.name)
    (hx : N.Used x) (hn : η.home x = ν.name)
    (hget : ∀ q, ν'.getPort q = if q = η.name x then some port else ν.getPort q) {n : NodeName}
    {port' : Port α} (hport' : ((s.commit ν').node n).getPort p = some port') :
    ∃ y, N.Used y ∧ η.home y = n ∧ η.name y = p := by
  rw [System.getPort_commit, hname] at hport'
  by_cases hnn : n = ν.name
  · rw [if_pos hnn, hget] at hport'
    by_cases hpx : p = η.name x
    · exact ⟨x, hx, hn.trans hnn.symm, hpx.symm⟩
    · rw [if_neg hpx] at hport'
      exact h.named n p port' (by rwa [System.getPort_commit, if_pos hnn])
  · rw [if_neg hnn] at hport'
    exact h.named n p port' (by rwa [System.getPort_commit, if_neg hnn])

/-- The ports of all places, once a port is sent. -/
theorem port_transfer (h : Refines η (s.commit ν) N) (hκ : Agree N κ η) (w : N.Shape)
    (hp : N.port (e, N.len e) = some a) (hn : η.home (e, N.len e) = ν.name)
    (hm : PortMatch η N (e, N.len e) a port) (hname : ν'.name = ν.name)
    (hnew : κ.name (e, N.len e + 1) = ν.delegate.nextPortName)
    (hqueue : ∀ x, (N.queue x).map (κ.entry (N.transfer e a)) = (N.queue x).map (η.entry N))
    (hget : ∀ q, ν'.getPort q = if q = η.name (e, N.len e) then
      some (port.sentTo (κ.home (e, N.len e + 1)) (κ.name (e, N.len e + 1))) else ν.getPort q)
    (hx : (N.transfer e a).Used x) : Matches κ (N.transfer e a) x
      (((s.commit ν').node (κ.home x)).getPort (κ.name x)) := by
  have hlive : N.Used (e, N.len e) := w.used hp
  rcases Net.used_transfer hx with rfl | hx
  · -- The new port is in transit: its name is fresh.
    have hnone : ((s.commit ν').node (κ.home (e, N.len e + 1))).getPort
        (κ.name (e, N.len e + 1)) = none := by
      have hlt : η.name (e, N.len e) < ν.delegate.nextPortName := h.lt _ hlive
      rw [hnew, System.getPort_commit_of_ne hname hget _ hlt.ne']
      exact h.fresh le_rfl _
    rw [hnone]
    intro b hb
    rw [Net.port_transfer_new] at hb
    rw [← Option.some.inj hb]
  rw [(hκ x hx).1, (hκ x hx).2]
  by_cases hxe : x = (e, N.len e)
  · subst hxe
    rw [System.getPort_commit, hname, if_pos hn, hget, if_pos rfl]
    exact ⟨_, Net.port_transfer_sent, hm.transfer w hp hqueue⟩
  · rw [System.getPort_commit_of_ne hname hget _ fun heq => hxe (h.inj x _ hx hlive heq)]
    exact (h.port x hx).transfer hκ w hx hxe hqueue

/-- The names of all places differ, once a port is sent. -/
theorem inj_transfer (h : Refines η (s.commit ν) N) (hκ : Agree N κ η)
    (hnew : κ.name (e, N.len e + 1) = ν.delegate.nextPortName) {x y : Place}
    (hx : (N.transfer e a).Used x) (hy : (N.transfer e a).Used y) (hxy : κ.name x = κ.name y) :
    x = y := by
  have hne : ∀ x, N.Used x → κ.name x ≠ ν.delegate.nextPortName := fun x hx =>
    (hκ x hx).1.trans_ne (h.lt x hx).ne
  rcases Net.used_transfer hx with rfl | hx <;> rcases Net.used_transfer hy with rfl | hy
  · rfl
  · exact absurd (hxy.symm.trans hnew) (hne y hy)
  · exact absurd (hxy.trans hnew) (hne x hx)
  · exact h.inj x y hx hy (by rw [← (hκ x hx).1, hxy, (hκ y hy).1])

/-- A port is sent: it buffers for the one it is renamed to. -/
theorem transfer (h : Refines η (s.commit ν) N) (w : N.Shape)
    (hp : N.port (e, N.len e) = some a) (hk : a.kind = .receiving)
    (hn : η.home (e, N.len e) = ν.name) (hm : PortMatch η N (e, N.len e) a port)
    (hpipe : ∀ l ∈ N.letters, ∀ e' ∈ l.ports, e'.pipe < N.pipes)
    (hatt : ∀ l ∈ N.letters, e ∉ l.ports) (hcl : ν.delegate.closed = []) (toNode : NodeName) :
    let κ := η.extend (e, N.len e + 1) ν.delegate.nextPortName toNode
    let sent := ν.willSendPort port (η.name (e, N.len e)) toNode
    sent.2.1 = ν.delegate.nextPortName ∧ sent.2.2 = κ.descriptor (N.transfer e a) e ∧
      Refines κ (s.commit sent.1) (N.transfer e a) := by
  intro κ sent
  have hstate : port.state = .receiving := by rw [hm.state, hk]; rfl
  have hsent : sent = ν.willSendPort port (η.name (e, N.len e)) toNode := rfl
  rw [Node.willSendPort_of_receiving hstate] at hsent
  -- Only the new place gets a name, and no place had the next port name.
  have hκ : Agree N κ η := .extend (N.not_used_succ e) _ _
  have hnew : κ.name (e, N.len e + 1) = ν.delegate.nextPortName := η.name_extend ..
  have hhome : κ.home (e, N.len e + 1) = toNode := η.home_extend ..
  have hqueue := hκ.queue_transfer (a := a) hpipe hatt
  have hname : sent.1.name = ν.name := by rw [hsent]; rfl
  have hget : ∀ q, sent.1.getPort q = if q = η.name (e, N.len e) then
      some (port.sentTo (κ.home (e, N.len e + 1)) (κ.name (e, N.len e + 1)))
      else ν.getPort q := by
    intro q
    rw [hsent, hnew, hhome]
    exact Node.getPort_setPort ..
  refine ⟨by rw [hsent], by rw [hsent, hκ.descriptor_transfer w hp hm, hn], ?_⟩
  refine
    { lt := fun x hx => ?_
      inj := fun x y => h.inj_transfer hκ hnew
      endOf := fun x hx => ?_
      named := fun n p port' hport' => ?_
      port := fun x => h.port_transfer hκ w hp hn hm hname hnew hqueue hget
      flight := ?_
      homes := fun l hl e' he' => ?_
      nodeName := h.nodeName_commit hname
      pipes := h.pipes
      closed := ?_
      sent := h.sent
      returned := h.returned }
  · have hlt : κ.name x < ν.delegate.nextPortName + 1 := by
      rcases Net.used_transfer hx with rfl | hx
      · exact hnew.trans_lt (Nat.lt_succ_self _)
      · exact (hκ x hx).1.trans_lt ((h.lt x hx).trans (Nat.lt_succ_self _))
    rw [hsent]
    exact hlt
  · have hend : (s.commit sent.1).endOf = Function.update (s.commit ν).endOf
        ν.delegate.nextPortName ((s.commit ν).endOf (η.name (e, N.len e))) := by
      rw [hsent]
      exact History.renamedEnds_concat ..
    rw [hend]
    rcases Net.used_transfer hx with rfl | hx
    · rw [hnew, Function.update_self]
      exact h.endOf _ (w.used hp)
    · have hlt : η.name x < ν.delegate.nextPortName := h.lt x hx
      rw [(hκ x hx).1, Function.update_of_ne hlt.ne]
      exact h.endOf x hx
  · obtain ⟨y, hy, h1, h2⟩ := h.named_of_setPort hname (w.used hp) hn hget hport'
    exact ⟨y, hy.transfer, (hκ y hy).2.trans h1, (hκ y hy).1.trans h2⟩
  · have hfl := h.flight
    rw [hsent]
    exact Eq.trans hfl (hκ.flight_transfer w hpipe hatt).symm
  · have hee : e' ≠ e := by
      rintro rfl
      exact hatt l hl he'
    rw [Net.len_transfer_of_ne hee, (hκ _ (w.letters l hl)).2,
      (hκ (e', N.len e') ⟨hpipe l hl e' he', le_rfl⟩).2]
    exact h.homes l hl e' he'
  · have hcl' : sent.1.delegate.closed = [] := by rw [hsent]; exact hcl
    have hcom := h.closed
    change History.closedEnds ν.delegate.closed _ _ = _ at hcom
    change History.closedEnds sent.1.delegate.closed _ _ = _
    rw [hcl] at hcom
    rw [hcl']
    exact hcom

end Refines

end Transfer

end MojoEdk.Ports
