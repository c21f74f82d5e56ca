import Mathlib.Logic.Relation
import MojoEdk.Library.MultisetList
import MojoEdk.Ports.Refine

/-!
# The loops of a node

The loops that the operations of a node share, as runs of the net: accepting and
sending the ports attached to a message, forwarding the messages of a proxy and
removing it, and closing ports with the ports attached to their messages.

A call has no result but the node it leaves, and a net that has worked on in the
meantime (`Call`). The names of the places it leaves alone do not change.
-/

namespace MojoEdk.Ports

variable {α : Type*} {η : Names} {s : System α} {ν : Node α} {N M : Net α} {x : Place}
  {a : Net.Port} {e : End} {es : List End} {strict : Prop}

/-! ## Accepting ports -/

/-- What a call leaves of a node but for its ports and what it sends. -/
structure Node.Quiet (ν ν' : Node α) : Prop where
  name : ν'.name = ν.name
  oops : ν'.delegate.oops = ν.delegate.oops
  closed : ν'.delegate.closed = ν.delegate.closed

theorem Node.Quiet.refl (ν : Node α) : Node.Quiet ν ν := ⟨rfl, rfl, rfl⟩

theorem Node.Quiet.trans {ν ν' ν'' : Node α} (h : Node.Quiet ν ν') (h' : Node.Quiet ν' ν'') :
    Node.Quiet ν ν'' :=
  ⟨h'.name.trans h.name, h'.oops.trans h.oops, h'.closed.trans h.closed⟩

namespace Refines

/-- A port in transit is accepted. -/
theorem acceptPort (h : Refines η (s.commit ν) N) (w : N.Shape)
    (hp : N.port (e, N.len e) = some a) (hk : a.kind = .transit)
    (hn : η.home (e, N.len e) = ν.name) (haway : Away N (e, N.len e)) :
    ∃ ν', ν.acceptPort (η.live N e) (η.descriptor N e) = (ν', .ok) ∧ ν.Quiet ν' ∧
      (∀ p, p ≠ η.live N e → ν'.getPort p = ν.getPort p) ∧
      Refines η (s.commit ν') (N.accept e a) := by
  -- The place is in transit, so no node has a port at it, and its name is free.
  have hnone : ν.getPort (η.live N e) = none := by
    have hm := h.lookup (w.used hp) hn
    cases hg : ν.getPort (η.live N e) with
    | none => rfl
    | some port =>
      rw [Names.live] at hg
      rw [hg] at hm
      obtain ⟨b, hb, hm⟩ := hm
      rw [hp] at hb
      exact absurd hk (Option.some.inj hb ▸ hm.arrived)
  -- The peer in the descriptor is the place of the other end that the port points to.
  have hdesc : η.descriptor N e = {
      peerNodeName := η.home (e.opp, N.toward e)
      peerPortName := η.name (e.opp, N.toward e)
      referringNodeName := η.home (e, N.len e - 1)
      referringPortName := η.name (e, N.len e - 1)
      nextSequenceNumToSend := a.send
      nextSequenceNumToReceive := a.next
      lastSequenceNumToReceive := a.last
      peerClosed := a.peerClosed } := by
    rw [Names.descriptor, hp]
  obtain ⟨-, hst, hr⟩ := w.live hp (w.kind_live hp)
  have hqueue : N.queue (e, N.len e) = 0 := by
    refine Multiset.filter_eq_nil.2 fun l hl hq => ?_
    obtain ⟨b, hb, hbk⟩ := w.queued l hl hq.1
    rw [hq.2, hp] at hb
    exact hbk (Option.some.inj hb ▸ hk)
  obtain ⟨port, hport⟩ : ∃ port : Port α, port = { (Port.new a.send a.next : Port α) with
      state := .receiving
      peerNodeName := η.home (e.opp, N.toward e)
      peerPortName := η.name (e.opp, N.toward e)
      lastSequenceNumToReceive := a.last
      peerClosed := a.peerClosed
      messageQueue := { nextSequenceNum := a.next, signalable := false } } := ⟨_, rfl⟩
  have hm : PortMatch η N (e, N.len e) { a with kind := .receiving } port := by
    rw [hport]
    exact
      { arrived := by simp
        state := rfl
        peerNodeName := by rw [Net.peer_live]
        peerPortName := by rw [Net.peer_live]
        send := rfl
        next := rfl
        last := rfl
        remove := hr.symm
        peerClosed := rfl
        stored := by simp [hst, Port.new]
        sorted := List.Pairwise.nil
        queue := by rw [hqueue]; rfl }
  refine ⟨(ν.setPort (η.live N e) port).forwardMessage (η.home (e, N.len e - 1))
    (.portAccepted (η.name (e, N.len e - 1))), ?_, ⟨rfl, rfl, rfl⟩, fun p hpe => ?_, ?_⟩
  · rw [hdesc, hport]
    simp only [Node.acceptPort, Node.addPortWithName, hnone]
    rfl
  · exact (Node.getPort_setPort ..).trans (if_neg hpe)
  · exact (h.set (w.used hp) hn hm haway).emit rfl

theorem acceptPorts (h : Refines η (s.commit ν) N) (w : N.Shape) (hes : es.Nodup)
    (ht : ∀ e ∈ es, N.IsLive e .transit) (hn : ∀ e ∈ es, η.home (e, N.len e) = ν.name)
    (haway : ∀ e ∈ es, Away N (e, N.len e)) :
    ∃ ν', Node.acceptPorts ((es.map (η.live N)).zip (es.map (η.descriptor N))) ν = (ν', .ok) ∧
      ν.Quiet ν' ∧ (∀ p, (∀ e ∈ es, p ≠ η.live N e) → ν'.getPort p = ν.getPort p) ∧
      Refines η (s.commit ν') (N.acceptAll es) := by
  induction es generalizing N ν with
  | nil => exact ⟨ν, rfl, .refl ν, fun _ _ => rfl, h⟩
  | cons e es ih =>
    obtain ⟨hne, hes⟩ := List.nodup_cons.1 hes
    obtain ⟨a, hp, hk⟩ := ht e List.mem_cons_self
    obtain ⟨ν₁, hacc, hq₁, hget₁, h₁⟩ := h.acceptPort w hp hk (hn e List.mem_cons_self)
      (haway e List.mem_cons_self)
    have hee : ∀ e' ∈ es, e' ≠ e := fun e' he' heq => hne (heq ▸ he')
    obtain ⟨ν₂, hall, hq₂, hget₂, h₂⟩ := ih h₁ (w.accept hp hk) hes
      (fun e' he' => by
        obtain ⟨b, hb, hbk⟩ := ht e' (List.mem_cons_of_mem _ he')
        exact ⟨b, (Net.port_accept_of_fst_ne (hee e' he')).trans hb, hbk⟩)
      (fun e' he' => (hn e' (List.mem_cons_of_mem _ he')).trans hq₁.name.symm)
      (fun e' he' => haway e' (List.mem_cons_of_mem _ he'))
    -- Accepting one port leaves the descriptors of the others.
    have hdesc : es.map (η.descriptor (N.accept e a)) = es.map (η.descriptor N) := by
      refine List.map_congr_left fun e' he' => ?_
      have hport : (N.accept e a).port (e', N.len e') = N.port (e', N.len e') :=
        Net.port_accept_of_fst_ne (hee e' he')
      have hport' : (N.accept e a).port (e', (N.accept e a).len e') = N.port (e', N.len e') := hport
      rw [Names.descriptor, hport']
      rfl
    rw [hdesc] at hall
    refine ⟨ν₂, ?_, hq₁.trans hq₂, fun p hpe => ?_, ?_⟩
    · simp only [List.map_cons, List.zip_cons_cons, Node.acceptPorts, hacc]
      exact hall
    · exact (hget₂ p fun e' he' => hpe e' (List.mem_cons_of_mem _ he')).trans
        (hget₁ p (hpe e List.mem_cons_self))
    · rw [Net.acceptAll_cons hp]
      exact h₂

end Refines

/-! ## Sending ports -/

theorem Names.descriptor_congr {κ : Names} (hlen : M.len e = N.len e)
    (htoward : M.toward e = N.toward e) (hport : M.port (e, N.len e) = N.port (e, N.len e))
    (hname : ∀ y, y = (e, N.len e - 1) ∨ y = (e.opp, N.toward e) →
      κ.name y = η.name y ∧ κ.home y = η.home y) : κ.descriptor M e = η.descriptor N e := by
  obtain ⟨h1, h2⟩ := hname _ (.inl rfl)
  obtain ⟨h3, h4⟩ := hname _ (.inr rfl)
  rw [Names.descriptor, Names.descriptor, hlen, htoward, hport, h1, h2, h3, h4]

theorem Agree.trans {κ κ' : Names} (h : Agree N κ η) (h' : Agree M κ' κ)
    (hu : ∀ x, N.Used x → M.Used x) : Agree N κ' η := fun x hx =>
  ⟨(h' x (hu x hx)).1.trans (h x hx).1, (h' x (hu x hx)).2.trans (h x hx).2⟩

namespace Refines

/-- The port at a place on a node. -/
theorem getPort (h : Refines η (s.commit ν) N) (w : N.Shape) (hx : N.port x = some a)
    (hk : a.kind ≠ .transit) (hn : η.home x = ν.name) :
    ∃ port, ν.getPort (η.name x) = some port ∧ PortMatch η N x a port := by
  have hm := h.lookup (w.used hx) hn
  cases hg : ν.getPort (η.name x) with
  | none =>
    rw [hg] at hm
    exact absurd (hm a hx) hk
  | some port =>
    rw [hg] at hm
    obtain ⟨b, hb, hm⟩ := hm
    obtain rfl : a = b := Option.some.inj (hx.symm.trans hb)
    exact ⟨port, rfl, hm⟩

/-- One port of a message is sent. -/
theorem willSendPort (h : Refines η (s.commit ν) N) (w : N.Shape)
    (hp : N.port (e, N.len e) = some a) (hk : a.kind = .receiving)
    (hn : η.home (e, N.len e) = ν.name)
    (hpipe : ∀ l ∈ N.letters, ∀ e ∈ l.ports, e.pipe < N.pipes)
    (hatt : ∀ l ∈ N.letters, e ∉ l.ports) (hcl : ν.delegate.closed = []) (toNode : NodeName) :
    ∃ port κ ν' sent, ν.getPort (η.live N e) = some port ∧
      ν.willSendPort port (η.live N e) toNode = (ν', sent) ∧ ν.Quiet ν' ∧
      (∀ p, p ≠ η.live N e → ν'.getPort p = ν.getPort p) ∧ Agree N κ η ∧
      Refines κ (s.commit ν') (N.transfer e a) ∧ sent.1 = κ.live (N.transfer e a) e ∧
      sent.2 = κ.descriptor (N.transfer e a) e ∧
      κ.home (e, (N.transfer e a).len e) = toNode := by
  obtain ⟨port, hport, hm⟩ := h.getPort w hp (by simp [hk]) hn
  obtain ⟨h1, h2, h3⟩ := h.transfer w hp hk hn hm hpipe hatt hcl toNode
  -- The port gets a new place, with the next port name and on the node it is sent to. The names
  -- of the places there were before stay.
  have hnew : ¬N.Used (e, N.len e + 1) := fun hu => absurd hu.2 (Nat.not_succ_le_self _)
  obtain ⟨hq, hget⟩ : ν.Quiet (ν.willSendPort port (η.name (e, N.len e)) toNode).1 ∧
      ∀ p, p ≠ η.name (e, N.len e) →
        (ν.willSendPort port (η.name (e, N.len e)) toNode).1.getPort p = ν.getPort p := by
    rw [Node.willSendPort_of_receiving (by rw [hm.state, hk]; rfl)]
    exact ⟨⟨rfl, rfl, rfl⟩, fun p hpe => (Node.getPort_setPort ..).trans (if_neg hpe)⟩
  refine ⟨port, η.extend (e, N.len e + 1) ν.delegate.nextPortName toNode,
    (ν.willSendPort port (η.name (e, N.len e)) toNode).1,
    (ν.willSendPort port (η.name (e, N.len e)) toNode).2, hport, rfl, hq, hget,
    .extend hnew _ _, h3, ?_, h2, ?_⟩
  · rw [h1, Names.live, Net.len_transfer_self, Names.name_extend]
  · rw [Net.len_transfer_self, Names.home_extend]

/-- The ports of a message are sent. -/
theorem willSendPorts (h : Refines η (s.commit ν) N) (w : N.Shape) (hes : es.Nodup)
    (hlive : ∀ e ∈ es, N.IsLive e .receiving) (hn : ∀ e ∈ es, η.home (e, N.len e) = ν.name)
    (hpipe : ∀ l ∈ N.letters, ∀ e ∈ l.ports, e.pipe < N.pipes)
    (hatt : ∀ e ∈ es, ∀ l ∈ N.letters, e ∉ l.ports) (hcl : ν.delegate.closed = [])
    (toNode : NodeName) :
    ∃ κ ν' sent, Node.willSendPorts toNode (es.map (η.live N)) ν = (ν', sent) ∧ ν.Quiet ν' ∧
      (∀ p, (∀ e ∈ es, p ≠ η.live N e) → ν'.getPort p = ν.getPort p) ∧
      Agree N κ η ∧ Refines κ (s.commit ν') (N.transferAll es) ∧
      sent.map (·.1) = es.map (κ.live (N.transferAll es)) ∧
      sent.map (·.2) = es.map (κ.descriptor (N.transferAll es)) ∧
      ∀ e ∈ es, κ.home (e, (N.transferAll es).len e) = toNode := by
  induction es generalizing N ν η with
  | nil => exact ⟨η, ν, [], rfl, .refl ν, fun _ _ => rfl, .refl N η, h, rfl, rfl, by simp⟩
  | cons e es ih =>
    obtain ⟨hne, hes⟩ := List.nodup_cons.1 hes
    obtain ⟨a, hp, hk⟩ := hlive e List.mem_cons_self
    have hee : ∀ e' ∈ es, e' ≠ e := fun e' he' heq => hne (heq ▸ he')
    obtain ⟨port, κ₁, ν₁, sent₁, hport, hsent₁, hq₁, hget₁, hag₁, h₁, hname₁, hdesc₁, hhome₁⟩ :=
      h.willSendPort w hp hk (hn e List.mem_cons_self) hpipe (hatt e List.mem_cons_self) hcl toNode
    have hused : ∀ x, N.Used x → (N.transfer e a).Used x := fun x hx =>
      ⟨hx.1, hx.2.trans (Net.len_le_transfer _)⟩
    have hlive' : ∀ e' ∈ es, N.Used (e', N.len e') := fun e' he' => by
      obtain ⟨b, hb, -⟩ := hlive e' (List.mem_cons_of_mem _ he')
      exact w.used hb
    obtain ⟨κ, ν', sent, hall, hq, hget, hag, hr, hs1, hs2, hs3⟩ := ih h₁ (w.transfer hp) hes
      (fun e' he' => by
        obtain ⟨b, hb, hbk⟩ := hlive e' (List.mem_cons_of_mem _ he')
        exact ⟨b, (Net.port_transfer_live_of_ne (hee e' he')).trans hb, hbk⟩)
      (fun e' he' => by
        rw [Net.len_transfer_of_ne (hee e' he'), (hag₁ _ (hlive' e' he')).2, hq₁.name]
        exact hn e' (List.mem_cons_of_mem _ he'))
      hpipe (fun e' he' => hatt e' (List.mem_cons_of_mem _ he')) (hq₁.closed.trans hcl)
    -- The other ports of the message are still where they were.
    have hmap : es.map (κ₁.live (N.transfer e a)) = es.map (η.live N) := by
      refine List.map_congr_left fun e' he' => ?_
      rw [Names.live, Names.live, Net.len_transfer_of_ne (hee e' he')]
      exact (hag₁ _ (hlive' e' he')).1
    rw [hmap] at hall
    have hlen : ((N.transfer e a).transferAll es).len e = (N.transfer e a).len e :=
      (Net.transferAll_of_notMem (x := (e, 0)) hne).2
    have hlu : (N.transfer e a).Used (e, (N.transfer e a).len e) :=
      ⟨w.pipe_lt (x := (e, N.len e)) hp, le_rfl⟩
    refine ⟨κ, ν', sent₁ :: sent, ?_, hq₁.trans hq, fun p hpe => ?_, hag₁.trans hag hused, ?_, ?_,
      ?_, ?_⟩
    · simp only [List.map_cons, Node.willSendPorts]
      rw [hport]
      simp only [hsent₁, hall]
    · refine (hget p fun e' he' => ?_).trans (hget₁ p (hpe e List.mem_cons_self))
      rw [List.map_inj_left.1 hmap e' he']
      exact hpe e' (List.mem_cons_of_mem _ he')
    · rw [Net.transferAll_cons hp]
      exact hr
    · rw [List.map_cons, List.map_cons, Net.transferAll_cons hp, hs1, hname₁, Names.live,
        Names.live, hlen, (hag _ hlu).1]
    · rw [List.map_cons, List.map_cons, Net.transferAll_cons hp, hs2, hdesc₁]
      congr 1
      refine (Names.descriptor_congr hlen (by rw [Net.transferAll_toward])
        (Net.transferAll_of_notMem (x := (e, (N.transfer e a).len e)) hne).1 fun y hy => ?_).symm
      rcases hy with rfl | rfl
      · exact hag _ ⟨hlu.1, Nat.sub_le ..⟩
      · exact hag _ ⟨hlu.1, (w.transfer hp).toward_le e⟩
    · intro e' he'
      rw [Net.transferAll_cons hp]
      rcases List.mem_cons.1 he' with rfl | he'
      · rw [hlen, (hag _ hlu).2, hhome₁]
      · exact hs3 e' he'

/-- A message is about to be sent: numbered, and its ports sent. -/
theorem willSendMessage {p : PortName} {port port' : Port α} {m m' : Message α}
    (hnum : (if m.sequenceNum = 0 then
      ({ port with nextSequenceNumToSend := port.nextSequenceNumToSend + 1 },
        { m with sequenceNum := port.nextSequenceNumToSend }) else (port, m)) = (port', m'))
    (h : Refines η (s.commit (ν.setPort p port')) N) (w : N.Shape) (hes : es.Nodup)
    (hlive : ∀ e ∈ es, N.IsLive e .receiving) (hn : ∀ e ∈ es, η.home (e, N.len e) = ν.name)
    (hpipe : ∀ l ∈ N.letters, ∀ e ∈ l.ports, e.pipe < N.pipes)
    (hatt : ∀ e ∈ es, ∀ l ∈ N.letters, e ∉ l.ports) (hcl : ν.delegate.closed = [])
    (hports : m'.ports = es.map (η.live N)) (hpeer : ∀ e ∈ es, η.live N e ≠ port'.peerPortName) :
    ∃ κ ν', ν.willSendMessage port p m = (ν', { m' with
        portName := port'.peerPortName
        ports := es.map (κ.live (N.transferAll es))
        descriptors := es.map (κ.descriptor (N.transferAll es)) }, .ok) ∧ ν.Quiet ν' ∧
      (∀ q, (∀ e ∈ es, q ≠ η.live N e) → ν'.getPort q = (ν.setPort p port').getPort q) ∧
      Agree N κ η ∧ Refines κ (s.commit ν') (N.transferAll es) ∧
      ∀ e ∈ es, κ.home (e, (N.transferAll es).len e) = port'.peerNodeName := by
  obtain ⟨κ, ν', sent, hall, hq, hget, hag, hr, hs1, hs2, hs3⟩ :=
    h.willSendPorts w hes hlive hn hpipe hatt hcl port'.peerNodeName
  refine ⟨κ, ν', ?_, ⟨hq.name, hq.oops, hq.closed⟩, hget, hag, hr, hs3⟩
  -- No port attached is refused: each receives, and none is the peer.
  have herr : m'.ports.findSome? ((ν.setPort p port').sentPortError port'.peerPortName) = none := by
    rw [hports, List.findSome?_eq_none_iff]
    intro q hq
    obtain ⟨e, he, rfl⟩ := List.mem_map.1 hq
    obtain ⟨a, hp, hk⟩ := hlive e he
    obtain ⟨port₀, hg, hm⟩ := h.getPort w hp (by simp [hk]) (hn e he)
    have hstate : port₀.state = .receiving := by
      rw [hm.state, hk]
      rfl
    rw [Names.live]
    simp only [Node.sentPortError, hg]
    rw [if_neg (not_not.2 hstate), if_neg]
    exact hpeer e he
  rw [← hports] at hall
  simp only [Node.willSendMessage, hnum, herr, hall, hs1, hs2]

end Refines

/-! ## Reading from queues -/

/-- The first message of a queue. -/
theorem PortMatch.pop {port : Port α} {m : Message α} {rest : List (Message α)}
    (h : PortMatch η N x a port) (hheap : port.messageQueue.heap = m :: rest) :
    ∃ l L, N.letters = l ::ₘ L ∧ l.queued = true ∧ l.place = x ∧ η.entry N l = m.entry ∧
      (rest.map Message.entry : Multiset _) = ((N.withLetters L).queue x).map (η.entry N) := by
  have hq := h.queue
  rw [hheap, List.map_cons, ← Multiset.cons_coe] at hq
  have hmem : m.entry ∈ (N.queue x).map (η.entry N) := hq ▸ Multiset.mem_cons_self ..
  obtain ⟨l, hl, hle⟩ := Multiset.mem_map.1 hmem
  obtain ⟨hl', hlq, hlx⟩ := Multiset.mem_filter.1 hl
  obtain ⟨L, hL⟩ := Multiset.exists_cons_of_mem hl'
  refine ⟨l, L, hL, hlq, hlx, hle, ?_⟩
  have hqueue : N.queue x = l ::ₘ (N.withLetters L).queue x := by
    rw [Net.queue, hL, Multiset.filter_cons_of_pos _ ⟨hlq, hlx⟩]
    rfl
  rw [hqueue, Multiset.map_cons, hle] at hq
  exact (Multiset.cons_inj_right _).1 hq

namespace Refines

/-- The first message of a queue leaves it. -/
theorem pop (h : Refines η (s.commit ν) N) (w : N.Shape) (c : N.Cargo) (hx : N.port x = some a)
    (hn : η.home x = ν.name) {l : Net.Letter α} {L : Multiset (Net.Letter α)}
    (hL : N.letters = l ::ₘ L) (hlq : l.queued = true) (hlx : l.place = x) {b : Net.Port}
    {port : Port α} (hk : a.kind ≠ .transit) (hm : PortMatch η (N.withLetters L) x b port) :
    Refines η (s.commit (ν.setPort (η.name x) port)) ((N.set x b).withLetters L) := by
  refine h.setQueue (w.used hx) hn { hm with } (.of_port w c hx hk) ?_ (fun y hy => ?_)
    fun l' hl' => h.homes l' (hL ▸ Multiset.mem_cons_of_mem hl')
  · rw [hL, Multiset.filter_cons_of_neg _ (by simp [hlq])]
  · rw [Net.queue, Net.queue, hL, Multiset.filter_cons_of_neg]
    · rfl
    · rintro ⟨-, hly⟩
      exact hy (hly.symm.trans hlx)

end Refines

/-! ## Runs of the net -/

namespace Net

theorem Step.pipes_le {t : Label} (hs : Step N t M) : N.pipes ≤ M.pipes := by
  cases hs with
  | create => exact Nat.le_succ _
  | send _ _ _ _ _ _ => exact (transferAll_pipes (N := N.set _ _)).ge
  | forward _ _ _ _ _ _ => exact (transferAll_pipes (N := N.set _ _)).ge
  | arrive _ _ _ _ _ => exact acceptAll_pipes.ge
  | reject _ _ _ => exact acceptAll_pipes.ge
  | _ => exact le_rfl

theorem Step.len_le {t : Label} (hs : Step N t M) (e : End) : N.len e ≤ M.len e := by
  cases hs with
  | send _ _ _ _ _ _ => exact len_le_transferAll (N := N.set _ _) e
  | forward _ _ _ _ _ _ => exact len_le_transferAll (N := N.set _ _) e
  | arrive _ _ _ _ _ => exact (congrFun acceptAll_len e).ge
  | reject _ _ _ => exact (congrFun acceptAll_len e).ge
  | _ => exact le_rfl

/-- A step that a node takes on its own. If it is `strict`, a proxy goes away only
    with no port attached to the messages it leaves. -/
inductive Work (strict : Prop) (N M : Net α) : Prop
  | inner : Step N .inner M → Work strict N M
  | remove {x : Place} : Step N (.remove x) M → (strict → ∀ l ∈ N.queue x, l.ports = []) →
      Work strict N M

theorem Work.step {strict : Prop} (hw : Work strict N M) : ∃ t, Step N t M := by
  cases hw with
  | inner hs => exact ⟨_, hs⟩
  | remove hs _ => exact ⟨_, hs⟩

/-- The runs of a net in a call. -/
abbrev Run (strict : Prop) : Net α → Net α → Prop := Relation.ReflTransGen (Work strict)

namespace Run

theorem used (hr : Run strict N M) {y : Place} (hy : N.Used y) : M.Used y := by
  induction hr with
  | refl => exact hy
  | tail _ hs ih =>
    obtain ⟨t, hs⟩ := hs.step
    exact ⟨ih.1.trans_le hs.pipes_le, ih.2.trans (hs.len_le _)⟩

theorem shape_cargo (hr : Run strict N M) (w : N.Shape) (c : N.Cargo) : M.Shape ∧ M.Cargo := by
  induction hr with
  | refl => exact ⟨w, c⟩
  | tail _ hs ih =>
    obtain ⟨t, hs⟩ := hs.step
    exact ⟨ih.1.step ih.2 hs, ih.2.step ih.1 hs⟩

theorem shape (hr : Run strict N M) (w : N.Shape) (c : N.Cargo) : M.Shape := (hr.shape_cargo w c).1

theorem cargo (hr : Run strict N M) (w : N.Shape) (c : N.Cargo) : M.Cargo := (hr.shape_cargo w c).2

end Run

/-- A closed end stays as it is. -/
theorem Step.closed {t : Label} (hs : Step N t M) (w : N.Shape) (c : N.Cargo) {e : End} (he : N.closed e) :
    M.closed e ∧ M.len e = N.len e := by
  have hnone := w.isClosed e he
  -- A closed end has no live port, so it is attached to nothing that moves.
  have hdead : ∀ k, ¬N.IsLive e k := by
    rintro k ⟨a, ha, -⟩
    rw [hnone] at ha
    cases ha
  cases hs with
  | @send e' a payload es H hp _ _ hH _ _ =>
    have hne : e ∉ es := fun hm => hdead _ (c.held e (hH ▸ Multiset.mem_add.2 (.inl hm)))
    refine ⟨?_, (transferAll_of_notMem (N := N.set _ _) (x := (e, 0)) hne).2⟩
    change (Net.transferAll es _).closed e = true
    rw [transferAll_closed]
    exact he
  | @forward x a l L hx _ hL hq _ _ =>
    have hne : e ∉ l.ports := fun hm =>
      hdead _ (c.letters l (hL ▸ Multiset.mem_cons_self l L) e hm)
    refine ⟨?_, (transferAll_of_notMem (N := N.set _ _) (x := (e, 0)) hne).2⟩
    change (Net.transferAll l.ports _).closed e = true
    rw [transferAll_closed]
    exact he
  | @arrive a l L _ _ _ _ _ =>
    refine ⟨?_, congrFun acceptAll_len e⟩
    change (Net.acceptAll l.ports N).closed e = true
    rw [acceptAll_closed]
    exact he
  | @reject l L _ _ _ =>
    refine ⟨?_, congrFun acceptAll_len e⟩
    change (Net.acceptAll l.ports N).closed e = true
    rw [acceptAll_closed]
    exact he
  | @close e' a H hp _ _ =>
    refine ⟨?_, rfl⟩
    change Function.update N.closed e' true e = true
    rw [Function.update_apply]
    split_ifs
    · rfl
    · exact he
  | _ => exact ⟨he, rfl⟩

theorem Run.closed (hr : Run strict N M) (w : N.Shape) (c : N.Cargo) {e : End} (he : N.closed e) :
    M.closed e ∧ M.len e = N.len e := by
  induction hr with
  | refl => exact ⟨he, rfl⟩
  | tail hr hs ih =>
    obtain ⟨t, hs⟩ := hs.step
    obtain ⟨h1, h2⟩ := hs.closed (Run.shape hr w c) (Run.cargo hr w c) ih.1
    exact ⟨h1, h2.trans ih.2⟩

end Net

/-- A call on a node, as a run of the net. -/
structure Call (strict : Prop) (η : Names) (s : System α) (ν : Node α) (N : Net α) (κ : Names) (ν' : Node α)
    (M : Net α) : Prop where
  run : Net.Run strict N M
  refines : Refines κ (s.commit ν') M
  agree : Agree N κ η
  name : ν'.name = ν.name
  oops : ν'.delegate.oops = ν.delegate.oops
  held : M.held = N.held
  len : ∀ e ∈ N.held, M.len e = N.len e
  closed : ∀ p ∈ ν'.delegate.closed,
    p ∈ ν.delegate.closed ∨ ∃ e : End, e.pipe < M.pipes ∧ M.closed e ∧ κ.name (e, M.len e) = p

namespace Call

variable {κ κ' : Names} {ν' ν'' : Node α} {P : Net α}

theorem refl (h : Refines η (s.commit ν) N) : Call strict η s ν N η ν N :=
  ⟨.refl, h, .refl N η, rfl, rfl, rfl, fun _ _ => rfl, fun _ => .inl⟩

theorem trans (w : N.Shape) (c : N.Cargo) (h : Call strict η s ν N κ ν' M)
    (h' : Call strict κ s ν' M κ' ν'' P) : Call strict η s ν N κ' ν'' P where
  run := h.run.trans h'.run
  refines := h'.refines
  agree := h.agree.trans h'.agree fun _ => h.run.used
  name := h'.name.trans h.name
  oops := h'.oops.trans h.oops
  held := h'.held.trans h.held
  len e he := (h'.len e (h.held ▸ he)).trans (h.len e he)
  closed p hp := by
    rcases h'.closed p hp with hp | hp
    · refine (h.closed p hp).imp id fun ⟨e, he, hc, hne⟩ => ?_
      obtain ⟨h1, h2⟩ := h'.run.closed (h.run.shape w c) (h.run.cargo w c) hc
      have hu : M.Used (e, M.len e) := ⟨he, le_rfl⟩
      exact ⟨e, (h'.run.used hu).1, h1, by rw [h2, (h'.agree _ hu).1, hne]⟩
    · exact .inr hp

/-- A step of a call that closes nothing. -/
theorem of_step (hs : Net.Step N .inner M) (hr : Refines κ (s.commit ν') M) (hag : Agree N κ η)
    (hq : ν.Quiet ν') (hheld : M.held = N.held) (hlen : ∀ e ∈ N.held, M.len e = N.len e) :
    Call strict η s ν N κ ν' M :=
  ⟨.single (.inner hs), hr, hag, hq.name, hq.oops, hheld, hlen, fun _ hp => .inl (hq.closed ▸ hp)⟩

end Call

/-! ## Forwarding -/

/-- The queue after its next messages were taken, as many as there are or at most
    so many. -/
def MessageQueue.drain : ℕ → MessageQueue α → MessageQueue α
  | 0, q => q
  | length + 1, q =>
    match q.getNextMessageIf none with
    | (none, _) => q
    | (some _, q) => q.drain length

/-- A port whose first message was taken, once it may have numbered it. -/
def Port.popped (port : Port α) (rest : List (Message α)) (send : UInt64) : Port α :=
  { port with
    nextSequenceNumToSend := send
    messageQueue := { port.messageQueue with
      heap := rest
      nextSequenceNum := port.messageQueue.nextSequenceNum + 1 } }

/-- `WillSendMessage_Locked` numbers a message that has no number. -/
theorem Message.numbered_eq (port : Port α) {m : Message α} {number send : UInt64}
    (hnumber : number = m.sequenceNum) (hsend : port.nextSequenceNumToSend = send) :
    (if m.sequenceNum = 0 then
      ({ port with nextSequenceNumToSend := port.nextSequenceNumToSend + 1 },
        { m with sequenceNum := port.nextSequenceNumToSend }) else (port, m)) =
      ({ port with nextSequenceNumToSend := if number = 0 then send + 1 else send },
        { m with sequenceNum := if number = 0 then send else number }) := by
  subst hnumber hsend
  split_ifs <;> rfl

/-- The port of a place once its first message is taken. -/
theorem PortMatch.popped {port : Port α} {m : Message α} {rest : List (Message α)}
    {L : Multiset (Net.Letter α)} (hm : PortMatch η N x a port)
    (hheap : port.messageQueue.heap = m :: rest)
    (hrest : (rest.map Message.entry : Multiset _) = ((N.withLetters L).queue x).map (η.entry N))
    (send : UInt64) : PortMatch η (N.withLetters L) x
      { a with next := a.next + 1, send := send } (port.popped rest send) := by
  have hsorted := hm.sorted
  rw [hheap] at hsorted
  exact
    { hm with
      send := rfl
      next := by
        change port.messageQueue.nextSequenceNum + 1 = a.next + 1
        rw [hm.next]
      sorted := hsorted.of_cons
      queue := hrest }

/-- A message that a proxy forwards carries neither the proxy nor the port it forwards to. -/
theorem Net.Cargo.live_ne (c : N.Cargo) {l : Net.Letter α} (hmem : l ∈ N.letters)
    (hx : l.place.2 < N.len l.place.1) {e : End} (he : e ∈ l.ports) :
    (e, N.len e) ≠ l.place.succ ∧ (e, N.len e) ≠ l.place := by
  constructor
  · intro heq
    have h1 : e = l.place.1 := congrArg Prod.fst heq
    have h2 : N.len e = l.place.2 + 1 := congrArg Prod.snd heq
    have := c.noPeer l hmem (by rw [← h1]; exact he)
    rw [← h1, h2] at this
    exact lt_irrefl _ this
  · intro heq
    rw [← heq] at hx
    exact lt_irrefl _ hx

namespace Refines

/-- A proxy forwards the first message of its queue. -/
theorem forwardOne (strict : Prop) (h : Refines η (s.commit ν) N) (w : N.Shape) (c : N.Cargo)
    (hx : N.port x = some a) (hk : a.kind = .proxying) (hn : η.home x = ν.name)
    (hcl : ν.delegate.closed = []) {port : Port α} (hm : PortMatch η N x a port) {m : Message α}
    {rest : List (Message α)} (hheap : port.messageQueue.heap = m :: rest)
    (hnext : m.sequenceNum = port.messageQueue.nextSequenceNum) :
    ∃ κ ν' m' M next send, ν.willSendMessage { port with messageQueue := { port.messageQueue with
          heap := rest
          nextSequenceNum := port.messageQueue.nextSequenceNum + 1 } } (η.name x) m =
        (ν', m', .ok) ∧ ν.Quiet ν' ∧
      Call strict η s ν N κ (ν'.forwardMessage port.peerNodeName (.user m')) M ∧
      M.port x = some { a with next := next, send := send } ∧
      ν'.getPort (η.name x) = some { port with
        nextSequenceNumToSend := send
        messageQueue := { port.messageQueue with
          heap := rest
          nextSequenceNum := port.messageQueue.nextSequenceNum + 1 } } := by
  -- The message is a letter of the queue, and it moves on to the next place.
  obtain ⟨l, L, hL, hlq, rfl, hle, hrest⟩ := hm.pop hheap
  obtain ⟨hnum, hpay, hports⟩ : l.number = m.sequenceNum ∧ l.payload = m.payload ∧
      l.ports.map (η.live N) = m.ports := by
    simpa [Names.entry, Message.entry] using hle
  have hmem : l ∈ N.letters := hL ▸ Multiset.mem_cons_self l L
  have hlt := w.proxy hx (by simp [hk])
  have hpass : N.Passed l.place := ⟨w.pipe_lt hx, hlt⟩
  have hpeer : N.peer l.place = l.place.succ := Net.peer_of_lt hlt
  set send := if l.number = 0 then a.send + 1 else a.send
  set b : Net.Port := { a with next := a.next + 1, send := send } with hb
  have hpop := h.pop w c hx hn hL hlq rfl (by simp [hk]) (hm.popped hheap hrest send)
  have hset : (N.set l.place b).Shape :=
    w.set hx rfl (by simp [b, hk]) (by simp [b, hk]) fun hs => w.stored hx hs
  have hpipe : ∀ l' ∈ N.letters, ∀ e ∈ l'.ports, e.pipe < N.pipes := fun l' hl' e he =>
    (c.letters l' hl' e he).pipe_lt w
  obtain ⟨hnd, -, hdis⟩ := c.nodup_of_cons hL
  -- An end that is attached is live at neither the proxy nor the proxy's peer.
  have hlive : ∀ e ∈ l.ports, η.live N e ≠ η.name l.place.succ ∧ η.name l.place ≠ η.live N e := by
    intro e he
    have hu : N.Used (e, N.len e) := ⟨hpipe l hmem e he, le_rfl⟩
    obtain ⟨h1, h2⟩ := c.live_ne hmem hlt he
    exact ⟨fun heq => h1 (h.inj _ _ hu hpass.succ_used heq),
      fun heq => h2 (h.inj _ _ (w.used hx) hu heq).symm⟩
  obtain ⟨κ, ν', hwill, hq, hget, hag, hr, hhome⟩ := Refines.willSendMessage
    (Message.numbered_eq (port.popped rest port.nextSequenceNumToSend) hnum hm.send) hpop
    (hset.take hL) hnd (fun e he => (c.receiving hmem hlq e he).set w hx fun _ => by rfl)
    (fun e he => (h.homes l hmem e he).trans hn)
    (fun l' hl' => hpipe l' (hL ▸ Multiset.mem_cons_of_mem hl'))
    (fun e he l' hl' he' => hdis e he (Multiset.mem_add.2 (.inr (Net.mem_attached.2 ⟨l', hl', he'⟩))))
    hcl hports.symm fun e he => by
      change η.live N e ≠ port.peerPortName
      rw [hm.peerPortName, hpeer]
      exact (hlive e he).1
  rw [Net.transferAll_withLetters] at hr hwill hhome
  -- The next place was used before, and keeps its name.
  have hsucc := hag l.place.succ hpass.succ_used
  set l' : Net.Letter α := { l with
    place := l.place.succ
    queued := false
    number := if l.number = 0 then a.send else l.number } with hl'
  have hnode : port.peerNodeName = κ.home l'.place := by
    rw [hm.peerNodeName, hpeer]
    exact hsucc.2.symm
  have hpost := hr.post (l := l') rfl (fun e he => (hhome e he).trans hnode) rfl
  rw [← hnode] at hpost
  have hmsg : κ.message (((N.set l.place b).transferAll l.ports).withLetters L) l' = { m with
      sequenceNum := if l.number = 0 then a.send else l.number
      portName := port.peerPortName
      ports := l.ports.map (κ.live (((N.set l.place b).transferAll l.ports).withLetters L))
      descriptors := l.ports.map
        (κ.descriptor (((N.set l.place b).transferAll l.ports).withLetters L)) } := by
    rw [Names.message, hm.peerPortName, hpeer, ← hpay, hl', hsucc.1]
  rw [hmsg] at hpost
  refine ⟨κ, ν', _, _, a.next + 1, send, hwill, hq,
    Call.of_step ?_ hpost hag ⟨hq.name, hq.oops, hq.closed⟩ ?_ ?_, ?_, ?_⟩
  · exact Net.Step.forward hx hk hL hlq rfl (hnum.trans (hnext.trans hm.next))
  · exact Net.transferAll_held (N := N.set l.place b)
  · intro e he
    refine (Net.transferAll_of_notMem (N := N.set l.place b) (x := (e, 0)) fun hm => ?_).2
    exact hdis e hm (Multiset.mem_add.2 (.inl he))
  · exact (Net.transferAll_of_lt (N := N.set l.place b) hlt).trans (Net.port_set_self ..)
  · rw [hget _ fun e he => (hlive e he).2, Node.getPort_setPort, if_pos rfl]
    rfl

/-- A proxy forwards the messages of its queue. -/
theorem forwardMessagesAux (strict : Prop) (k : ℕ) (h : Refines η (s.commit ν) N) (w : N.Shape) (c : N.Cargo)
    (hx : N.port x = some a) (hk : a.kind = .proxying) (hn : η.home x = ν.name)
    (hcl : ν.delegate.closed = []) {port : Port α} (hport : ν.getPort (η.name x) = some port)
    (hm : PortMatch η N x a port) :
    ∃ κ ν' M next send, Node.forwardMessagesAux k ν (η.name x) = (ν', .ok) ∧ ν.Quiet ν' ∧
      Call strict η s ν N κ ν' M ∧ M.port x = some { a with next := next, send := send } ∧
      ν'.getPort (η.name x) = some { port with
        nextSequenceNumToSend := send
        messageQueue := port.messageQueue.drain k } := by
  -- By induction on the number of messages to forward. A message out of order ends the loop.
  induction k generalizing N ν η a port with
  | zero =>
    refine ⟨η, ν, N, a.next, a.send, rfl, .refl ν, .refl h, hx, ?_⟩
    rw [hport, ← hm.send]
    rfl
  | succ k ih =>
    rw [Node.forwardMessagesAux, hport]
    simp only [MessageQueue.drain, MessageQueue.getNextMessageIf]
    cases hheap : port.messageQueue.heap with
    | nil =>
      refine ⟨η, ν, N, a.next, a.send, rfl, .refl ν, .refl h, hx, ?_⟩
      rw [hport, ← hm.send]
    | cons m rest =>
      by_cases hnext : m.sequenceNum = port.messageQueue.nextSequenceNum
      · obtain ⟨κ₁, ν₁, m', M₁, next₁, send₁, hwill, hq₁, hcall₁, hx₁, hport₁⟩ :=
          h.forwardOne strict w c hx hk hn hcl hm hheap hnext
        have hu := hcall₁.agree x (w.used hx)
        have w₁ := hcall₁.run.shape w c
        have hn₁ := hu.2.trans (hn.trans hcall₁.name.symm)
        rw [← hu.1] at hport₁
        obtain ⟨port₁, hport₁', hm₁⟩ := hcall₁.refines.getPort w₁ hx₁ (by simp [hk]) hn₁
        obtain rfl := Option.some.inj (hport₁.symm.trans hport₁')
        obtain ⟨κ, ν', M, next, send, hfwd, hq, hcall, hx', hport'⟩ := ih hcall₁.refines w₁
          (hcall₁.run.cargo w c) hx₁ hk hn₁ (hq₁.closed.trans hcl) hport₁ hm₁
        rw [hu.1] at hfwd hport'
        simp only [hnext, BEq.rfl, Option.all_none, Bool.and_self, if_true, hwill]
        exact ⟨κ, ν', M, next, send, hfwd, ⟨hq.name.trans hq₁.name, hq.oops.trans hq₁.oops,
          hq.closed.trans hq₁.closed⟩, hcall₁.trans w c hcall, hx', hport'⟩
      · refine ⟨η, ν, N, a.next, a.send, by simp [hnext], .refl ν, .refl h, hx, ?_⟩
        rw [hport, ← hm.send]
        simp [hnext]

end Refines

/-! ## Removing proxies -/

/-- What `MaybeRemoveProxy_Locked` asks of a proxy. -/
def Port.removable (port : Port α) : Bool :=
  port.removeProxyOnLastMessage && !port.canAcceptMoreMessages

/-- A proxy after it forwarded what it can. -/
def Port.forwarded (port : Port α) : Port α :=
  { port with messageQueue := port.messageQueue.drain port.messageQueue.heap.length }

/-- A proxy that goes away leaves no port behind, attached to a message that it
    cannot forward. -/
def Port.Clean (port : Port α) : Prop :=
  port.forwarded.removable → port.forwarded.messageQueue.getReferencedPorts = []

/-- The message of a queue that a letter is. -/
theorem PortMatch.exists_message {port : Port α} (hm : PortMatch η N x a port) {l : Net.Letter α}
    (hl : l ∈ N.queue x) : ∃ m ∈ port.messageQueue.heap, m.ports = l.ports.map (η.live N) := by
  have hmem : η.entry N l ∈ (port.messageQueue.heap.map Message.entry : Multiset _) :=
    hm.queue ▸ Multiset.mem_map_of_mem _ hl
  obtain ⟨m, hmh, hme⟩ := List.mem_map.1 hmem
  exact ⟨m, hmh, congrArg (fun v => v.2.2) hme⟩

theorem PortMatch.canAccept {port : Port α} (h : PortMatch η N x a port) :
    port.canAcceptMoreMessages = a.canAccept := by
  rw [Port.canAcceptMoreMessages, Net.Port.canAccept, h.peerClosed, h.remove, h.last, h.next]

namespace Refines

/-- A proxy is removed, if it may be. -/
theorem maybeRemoveProxy (h : Refines η (s.commit ν) N) (w : N.Shape) (c : N.Cargo)
    (hx : N.port x = some a) (hk : a.kind = .proxying) (hn : η.home x = ν.name) {port : Port α}
    (hport : ν.getPort (η.name x) = some port)
    (hclean : strict → port.removable → port.messageQueue.getReferencedPorts = []) :
    ∃ M, ν.Quiet (ν.maybeRemoveProxy (η.name x)) ∧
      Call strict η s ν N η (ν.maybeRemoveProxy (η.name x)) M := by
  obtain ⟨port', hport', hm⟩ := h.getPort w hx (by simp [hk]) hn
  obtain rfl : port = port' := Option.some.inj (hport.symm.trans hport')
  have hstate : port.state = .proxying := by
    rw [hm.state, hk]
    rfl
  rw [Node.maybeRemoveProxy, hport]
  simp only [hstate, if_true, hm.remove, hm.canAccept]
  -- A proxy that does not go away yet leaves the node as it is.
  by_cases hrem : a.remove ∧ a.canAccept = false
  · have hempty : strict → ∀ l ∈ N.queue x, l.ports = [] := fun hst l hl => by
      obtain ⟨m, hmh, hlive⟩ := hm.exists_message hl
      have hports := List.flatMap_eq_nil_iff.1 (hclean hst (by
        rw [Port.removable, hm.remove, hm.canAccept, hrem.1, hrem.2]
        rfl)) m hmh
      rwa [hlive, List.map_eq_nil_iff] at hports
    have herase := h.erase (w.used hx) hn (.of_port w c hx (by simp [hk]))
    have hstep := Net.Step.remove hx hk hrem.1 hrem.2
    simp only [hrem.1, hrem.2, Bool.not_false, Bool.and_self, if_true]
    rw [hm.stored]
    cases hs : a.stored with
    | true =>
      rw [hs] at hstep
      have hemit := Refines.emit herase (rfl : η.event (.ack x.succ kInvalidSequenceNum) = _)
      exact ⟨_, ⟨rfl, rfl, rfl⟩, .single (.remove hstep hempty), hemit, .refl N η, rfl, rfl, rfl,
        fun _ _ => rfl, fun _ => .inl⟩
    | false =>
      rw [hs] at hstep
      exact ⟨_, ⟨rfl, rfl, rfl⟩, .single (.remove hstep hempty), herase, .refl N η, rfl, rfl, rfl,
        fun _ _ => rfl, fun _ => .inl⟩
  · have hfalse : (a.remove && !a.canAccept) = false := by
      cases hr : a.remove <;> cases hc : a.canAccept <;> simp_all
    simp only [hfalse]
    exact ⟨N, .refl ν, .refl h⟩

end Refines

/-! ## Closing -/

theorem History.closedEnds_concat (cs : List PortName) (p : PortName) (f : PortName → End)
    (g : End → Bool) : History.closedEnds (cs ++ [p]) f g =
      Function.update (History.closedEnds cs f g) (f p) true := by
  rw [History.closedEnds, List.foldl_append]
  rfl

/-- The ports of some ends are closed, and nothing else happens on a node. -/
structure Closing (strict : Prop) (η : Names) (s : System α) (ν : Node α) (N : Net α) (H : Multiset End)
    (ν' : Node α) (M : Net α) : Prop where
  run : Net.Run strict N M
  refines : Refines η (s.commit ν') M
  name : ν'.name = ν.name
  oops : ν'.delegate.oops = ν.delegate.oops
  held : M.held = H
  len : M.len = N.len
  entries : ν'.ports.entries.length ≤ ν.ports.entries.length
  closed : ∀ p ∈ ν'.delegate.closed,
    p ∈ ν.delegate.closed ∨ ∃ e : End, e.pipe < M.pipes ∧ M.closed e ∧ η.name (e, M.len e) = p
  kept : ∀ p ∈ ν.delegate.closed, p ∈ ν'.delegate.closed

theorem Closing.trans {ν' ν'' : Node α} {P : Net α} {H H' : Multiset End} (w : N.Shape)
    (c : N.Cargo) (h : Closing strict η s ν N H ν' M) (h' : Closing strict η s ν' M H' ν'' P) :
    Closing strict η s ν N H' ν'' P where
  run := h.run.trans h'.run
  refines := h'.refines
  name := h'.name.trans h.name
  oops := h'.oops.trans h.oops
  held := h'.held
  len := h'.len.trans h.len
  entries := h'.entries.trans h.entries
  closed p hp := by
    rcases h'.closed p hp with hp | hp
    · refine (h.closed p hp).imp id fun ⟨e, he, hc, hne⟩ => ?_
      obtain ⟨h1, h2⟩ := h'.run.closed (h.run.shape w c) (h.run.cargo w c) hc
      have hu : M.Used (e, M.len e) := ⟨he, le_rfl⟩
      exact ⟨e, (h'.run.used hu).1, h1, by rw [h2, hne]⟩
    · exact .inr hp
  kept p hp := h'.kept p (h.kept p hp)

namespace Refines

/-- A receiving port is closed. -/
theorem close (h : Refines η (s.commit ν) N) (w : N.Shape) (c : N.Cargo)
    (hp : N.port (e, N.len e) = some a) (hk : a.kind = .receiving)
    (hn : η.home (e, N.len e) = ν.name) {port : Port α} (hm : PortMatch η N (e, N.len e) a port)
    (H : Multiset End) :
    Refines η (s.commit (((ν.erasePort (η.live N e)).noteClosed (η.live N e)).forwardMessage
      port.peerNodeName (.observeClosure port.peerPortName (port.nextSequenceNumToSend - 1))))
      (N.close e a H) := by
  have hu : N.Used (e, N.len e) := w.used hp
  have hev : η.event (.closure (e.opp, N.toward e) (a.send - 1)) = (port.peerNodeName,
      (.observeClosure port.peerPortName (port.nextSequenceNumToSend - 1) : Event α)) := by
    rw [Names.event, hm.peerNodeName, hm.peerPortName, hm.send, Net.peer_live]
  have hemit := (h.erase hu hn (.of_receiving c hp (by simp [hk]))).emit hev
  have hend := h.endOf _ hu
  refine
    { hemit with
      port := fun y hy => ?_
      closed := ?_ }
  · exact (hemit.port y hy).congr rfl rfl rfl rfl (fun _ _ _ => rfl) rfl
  · have hcl := h.closed
    change History.closedEnds ν.delegate.closed (s.commit ν).endOf s.closed = N.closed at hcl
    change History.closedEnds (ν.delegate.closed ++ [η.live N e]) (s.commit ν).endOf s.closed =
      Function.update N.closed e true
    rw [History.closedEnds_concat, hcl]
    exact congrArg (Function.update N.closed · true) hend

/-- Ports are closed one after the other. -/
theorem closeAll {f : Node α → PortName → Node α} {k : ℕ}
    (hf : ∀ {ν : Node α} {N : Net α} {e : End} {H : Multiset End}, Refines η (s.commit ν) N →
      N.Shape → N.Cargo → N.held = e ::ₘ H → η.home (e, N.len e) = ν.name →
      ν.ports.entries.length ≤ k → ∃ M, Closing strict η s ν N H (f ν (η.live N e)) M)
    (h : Refines η (s.commit ν) N) (w : N.Shape) (c : N.Cargo) {H : Multiset End}
    (hH : N.held = ↑es + H) (hn : ∀ e ∈ es, η.home (e, N.len e) = ν.name)
    (hlen : ν.ports.entries.length ≤ k) :
    ∃ M, Closing strict η s ν N H ((es.map (η.live N)).foldl (fun s name =>
      match s.getPort name with
      | some _ => f s name
      | none => s) ν) M := by
  induction es generalizing ν N with
  | nil =>
    exact ⟨N, .refl, h, rfl, rfl, hH.trans (zero_add H), rfl, le_rfl, fun _ => .inl, fun _ => id⟩
  | cons e es ih =>
    have hH' : N.held = e ::ₘ (↑es + H) := by rw [hH, ← Multiset.cons_coe, Multiset.cons_add]
    obtain ⟨a, hp, hk⟩ := c.held e (hH' ▸ Multiset.mem_cons_self ..)
    obtain ⟨port, hport, -⟩ := h.getPort w hp (by simp [hk]) (hn e List.mem_cons_self)
    obtain ⟨M, hM⟩ := hf h w c hH' (hn e List.mem_cons_self) hlen
    obtain ⟨P, hP⟩ := ih hM.refines (hM.run.shape w c) (hM.run.cargo w c) hM.held
      (fun e' he' => by
        rw [hM.len, hM.name]
        exact hn e' (List.mem_cons_of_mem _ he')) (hM.entries.trans hlen)
    have hlive : η.live M = η.live N := by
      funext e'
      rw [Names.live, Names.live, hM.len]
    rw [hlive] at hP
    refine ⟨P, ?_⟩
    rw [List.map_cons, List.foldl_cons, Names.live, hport]
    exact hM.trans w c hP

/-- `ClosePort` on a port that somebody has. -/
theorem closePortAux (strict : Prop) (k : ℕ) (h : Refines η (s.commit ν) N) (w : N.Shape) (c : N.Cargo)
    {H : Multiset End} (hH : N.held = e ::ₘ H) (hn : η.home (e, N.len e) = ν.name)
    (hlen : ν.ports.entries.length ≤ k) :
    ∃ M, (Node.closePortAux k ν (η.live N e)).2 = .ok ∧
      Closing strict η s ν N H (Node.closePortAux k ν (η.live N e)).1 M ∧
      η.live N e ∈ (Node.closePortAux k ν (η.live N e)).1.delegate.closed ∧ M.closed e := by
  induction k generalizing ν N e H with
  | zero =>
    obtain ⟨a, hp, hk⟩ := c.held e (hH ▸ Multiset.mem_cons_self ..)
    obtain ⟨port, hport, -⟩ := h.getPort w hp (by simp [hk]) hn
    have := AList.length_erase_lt hport
    omega
  | succ k ih =>
    obtain ⟨a, hp, hk⟩ := c.held e (hH ▸ Multiset.mem_cons_self ..)
    obtain ⟨port, hport, hm⟩ := h.getPort w hp (by simp [hk]) hn
    have hstate : port.state = .receiving := by
      rw [hm.state, hk]
      rfl
    have hclose := h.close w c hp hk hn hm H
    have hstep : Net.Step N .inner (N.close e a H) := .close hp hk hH
    -- The ports attached to the messages left unread, in the order of the queue.
    obtain ⟨ls, hls, hmap⟩ := Multiset.exists_list_map_eq hm.queue
    have hports : (ls.flatMap (·.ports)).map (η.live (N.close e a H)) =
        port.messageQueue.getReferencedPorts := by
      have := congrArg (List.flatMap fun v : UInt64 × α × List PortName => v.2.2) hmap
      rw [List.flatMap_map, List.flatMap_map] at this
      rw [List.map_flatMap]
      exact this.symm
    have hheld : (N.close e a H).held = ↑(ls.flatMap (·.ports)) + H := by
      change (N.queue (e, N.len e)).bind _ + H = _
      rw [← hls, Multiset.coe_bind]
    have hlt := AList.length_erase_lt hport
    set ν₁ := ((ν.erasePort (η.live N e)).noteClosed (η.live N e)).forwardMessage
      port.peerNodeName (.observeClosure port.peerPortName (port.nextSequenceNumToSend - 1)) with hν₁
    have hfirst : Closing strict η s ν N (↑(ls.flatMap (·.ports)) + H) ν₁ (N.close e a H) :=
      { run := .single (.inner hstep)
        refines := hclose
        name := rfl
        oops := rfl
        held := hheld
        len := rfl
        entries := hlt.le
        closed := fun p hpc => by
          rcases List.mem_append.1 hpc with hpc | hpc
          · exact .inl hpc
          · refine .inr ⟨e, w.pipe_lt (x := (e, N.len e)) hp, Net.closed_close_self, ?_⟩
            exact (List.mem_singleton.1 hpc).symm
        kept := fun p hpc => List.mem_append.2 (.inl hpc) }
    obtain ⟨M, hM⟩ := closeAll (f := fun s name => (Node.closePortAux k s name).1) (k := k)
      (fun h w c hH hn hl => by
        obtain ⟨M, -, hM, -⟩ := ih h w c hH hn hl
        exact ⟨M, hM⟩) hclose (w.step c hstep) (c.step w hstep) hheld (fun e' he' => by
          obtain ⟨l, hl, he'⟩ := List.mem_flatMap.1 he'
          have hl : l ∈ N.queue (e, N.len e) := hls ▸ hl
          obtain ⟨hl, -, hlx⟩ := Multiset.mem_filter.1 hl
          have := h.homes l hl e' he'
          rw [hlx] at this
          exact this.trans hn) (Nat.le_of_lt_succ (hlt.trans_le hlen))
    rw [hports] at hM
    have haux : Node.closePortAux (k + 1) ν (η.live N e) =
        (port.messageQueue.getReferencedPorts.foldl (fun s name =>
          match s.getPort name with
          | some _ => (Node.closePortAux k s name).1
          | none => s) ν₁, .ok) := by
      rw [Node.closePortAux, Names.live, hport]
      simp only [hstate]
      rfl
    rw [haux]
    refine ⟨M, rfl, hfirst.trans w c hM, hM.kept _ ?_, ?_⟩
    · exact List.mem_append.2 (.inr List.mem_cons_self)
    · exact (hM.run.closed (w.step c hstep) (c.step w hstep) Net.closed_close_self).1

theorem closePorts (h : Refines η (s.commit ν) N) (w : N.Shape) (c : N.Cargo) {H : Multiset End}
    (hH : N.held = ↑es + H) (hn : ∀ e ∈ es, η.home (e, N.len e) = ν.name) :
    ∃ M, Closing strict η s ν N H (ν.closePorts (es.map (η.live N))) M :=
  closeAll (f := fun s name => (s.closePort name).1) (k := ν.ports.entries.length)
    (fun h w c hH hn _ => by
      obtain ⟨M, -, hM, -⟩ := h.closePortAux strict _ w c hH hn (Nat.le_succ _)
      exact ⟨M, hM⟩) h w c hH hn le_rfl

end Refines

end MojoEdk.Ports
