import MojoEdk.Ports.Refine.Reachable

/-!
# Ownership

Who is responsible for a receiving port: the embedder, which holds it, or the queue
of a port of the same node, with a message it is attached to. Closing a port closes
the ports attached to its messages, and a message that is rejected has its ports
closed. A proxy that is deleted takes the messages in its queue with it, though, and
the ports attached to them are left without an owner: a run keeps every port owned
as long as no such proxy is deleted (`System.Sparing`), whether its connection is
lost or its last message was forwarded.
-/

namespace MojoEdk.Ports

variable {α : Type*} {η : Names} {s : System α} {N M : Net α} {x : Place} {a : Net.Port} {e : End}
  {strict : Prop}

namespace Net

/-- An end that the embedder holds, or that is attached to a message in a queue. -/
def Owns (N : Net α) (e : End) : Prop :=
  e ∈ N.held ∨ ∃ l ∈ N.letters, l.queued = true ∧ e ∈ l.ports

/-- Every receiving port is owned. -/
def Owned (N : Net α) : Prop := ∀ e, N.IsLive e .receiving → N.Owns e

/-- An end is held, attached to another message in a queue, or to this one. -/
theorem Owns.of_mem {l : Letter α} {L : Multiset (Letter α)} (hL : N.letters = l ::ₘ L)
    (h : N.Owns e) : (e ∈ N.held ∨ ∃ l' ∈ L, l'.queued = true ∧ e ∈ l'.ports) ∨
      (l.queued = true ∧ e ∈ l.ports) := by
  rcases h with he | ⟨l', hl', hq, he⟩
  · exact .inl (.inl he)
  · rw [hL] at hl'
    rcases Multiset.mem_cons.1 hl' with rfl | hl'
    · exact .inr ⟨hq, he⟩
    · exact .inl (.inr ⟨l', hl', hq, he⟩)

/-- Ends are owned still where no more are there, and no owner is lost. -/
theorem Owned.mono (h : N.Owned) (hlive : ∀ e, M.IsLive e .receiving → N.IsLive e .receiving)
    (howns : ∀ e, M.IsLive e .receiving → N.Owns e → M.Owns e) : M.Owned :=
  fun e he => howns e he (h e (hlive e he))

/-- A port changes, but becomes no new end. -/
theorem Owned.set (h : N.Owned) {b : Port} (hx : N.port x = some a)
    (hb : b.kind = .receiving → a.kind = .receiving) : (N.set x b).Owned :=
  h.mono (fun _ => IsLive.of_set hx hb) fun _ _ => id

/-- An end that is sent is in transit. -/
theorem not_isLive_transferAll {es : List End} {k : Kind} (hes : es.Nodup) (he : e ∈ es)
    (hl : N.IsLive e k) : ¬(N.transferAll es).IsLive e .receiving := by
  obtain ⟨a, ha, hk⟩ := isLive_transferAll_of_mem hes he hl
  rintro ⟨b, hb, hk'⟩
  obtain rfl : a = b := Option.some.inj (ha.symm.trans hb)
  rw [hk] at hk'
  cases hk'

/-- The ends of a message that arrives are accepted, and owned. -/
theorem Owned.acceptAll (h : N.Owned) {l : Letter α} {L L' : Multiset (Letter α)}
    {H : Multiset End} (hL : N.letters = l ::ₘ L) (hq : l.queued = false) (hL' : L ≤ L')
    (hH : N.held ≤ H) (hl : ∀ e ∈ l.ports, e ∈ H ∨ ∃ l' ∈ L', l'.queued = true ∧ e ∈ l'.ports) :
    (((N.acceptAll l.ports).withLetters L').withHeld H).Owned := by
  intro e he
  replace he : (N.acceptAll l.ports).IsLive e .receiving := he
  by_cases hel : e ∈ l.ports
  · exact hl e hel
  · rcases (h e ((isLive_acceptAll_of_notMem hel).1 he)).of_mem hL with (hheld | hq') | ⟨hq', -⟩
    · exact .inl (Multiset.mem_of_le hH hheld)
    · obtain ⟨l', hl', hq', hel'⟩ := hq'
      exact .inr ⟨l', Multiset.mem_of_le hL' hl', hq', hel'⟩
    · rw [hq] at hq'
      cases hq'

/-- The ends of a message that is sent are in transit with it; the others keep their
    owners. -/
theorem Owned.transferAll (h : N.Owned) {es : List End} {L : Multiset (Letter α)}
    {H : Multiset End} (hes : es.Nodup) (hlive : ∀ e ∈ es, N.IsLive e .receiving)
    (howns : ∀ e ∉ es, N.Owns e → e ∈ H ∨ ∃ l ∈ L, l.queued = true ∧ e ∈ l.ports) :
    (((N.transferAll es).withLetters L).withHeld H).Owned := by
  intro e he
  replace he : (N.transferAll es).IsLive e .receiving := he
  by_cases hee : e ∈ es
  · exact absurd he (not_isLive_transferAll hes hee (hlive e hee))
  · exact howns e hee (h e ((isLive_transferAll_of_notMem hee).1 he))

/-- The embedder holds both ends of a new pipe. -/
theorem Owned.create (h : N.Owned) : N.create.Owned := by
  rintro e ⟨b, hb, hk⟩
  rcases port_create_cases hb with ⟨hpipe, -, -⟩ | hb
  · refine .inl ?_
    obtain ⟨i, side⟩ := e
    obtain rfl : i = N.pipes := hpipe
    cases side with
    | false => exact Multiset.mem_cons_self ..
    | true => exact Multiset.mem_cons_of_mem (Multiset.mem_cons_self ..)
  · refine (h e ⟨b, hb, hk⟩).imp_left fun he => ?_
    exact Multiset.mem_cons_of_mem (Multiset.mem_cons_of_mem he)

/-- The ends attached to a message that the embedder sends were held. -/
theorem Owned.sendPost (h : N.Owned) (w : N.Shape) (c : N.Cargo) {e : End} {a : Port}
    {payload : α} {es : List End} {H : Multiset End} (hp : N.port (e, N.len e) = some a)
    (hH : N.held = ↑es + H) :
    ((((N.set (e, N.len e) { a with send := a.send + 1 }).transferAll es).withLetters
      (⟨(e.opp, N.toward e), false, a.send, payload, es⟩ ::ₘ N.letters)).withHeld H |>.noteSent e
        (a.send, payload)).Owned := by
  have hset := h.set hp (b := { a with send := a.send + 1 }) id
  have hcset : (N.set (e, N.len e) { a with send := a.send + 1 }).Cargo :=
    c.set w hp fun _ => by rfl
  refine hset.transferAll ?_ (fun e' he' => ?_) fun e' he' howns => ?_
  · have hnd := c.nodup
    rw [hH, add_assoc] at hnd
    exact Multiset.coe_nodup.1 (Multiset.nodup_add.1 hnd).1
  · exact hcset.held e' (hH ▸ Multiset.mem_add.2 (.inl he') : e' ∈ N.held)
  · replace howns : N.Owns e' := howns
    rcases howns with hheld | ⟨l, hl, hq, hel⟩
    · rw [hH] at hheld
      exact .inl ((Multiset.mem_add.1 hheld).resolve_left he')
    · exact .inr ⟨l, Multiset.mem_cons_of_mem hl, hq, hel⟩

/-- The ends attached to a message that a proxy forwards were those of the message. -/
theorem Owned.forwardPost (h : N.Owned) (w : N.Shape) (c : N.Cargo) {x : Place} {a : Port}
    {l : Letter α} {L : Multiset (Letter α)} (hx : N.port x = some a) (hL : N.letters = l ::ₘ L)
    (hq : l.queued = true) :
    (((N.set x { a with
        next := a.next + 1
        send := if l.number = 0 then a.send + 1 else a.send }).transferAll l.ports).withLetters
      ({ l with
        place := x.succ
        queued := false
        number := if l.number = 0 then a.send else l.number } ::ₘ L)).Owned := by
  have hmem : l ∈ N.letters := hL ▸ Multiset.mem_cons_self l L
  set a' : Port := { a with
    next := a.next + 1
    send := if l.number = 0 then a.send + 1 else a.send } with ha'
  have hset : (N.set x a').Owned := h.set hx id
  have hcset : (N.set x a').Cargo := c.set w hx fun _ => by rfl
  have := hset.transferAll (H := N.held) (c.ports_nodup hmem) (hcset.receiving hmem hq)
    (L := { l with
      place := x.succ
      queued := false
      number := if l.number = 0 then a.send else l.number } ::ₘ L) fun e he howns => ?_
  · rwa [withHeld_of_eq (by exact transferAll_held)] at this
  · replace howns : N.Owns e := howns
    rcases howns.of_mem hL with (hheld | ⟨l', hl', hq', hel'⟩) | ⟨-, hel⟩
    · exact .inl hheld
    · exact .inr ⟨l', Multiset.mem_cons_of_mem hl', hq', hel'⟩
    · exact absurd hel he

/-- The ends attached to the messages of a port that is closed are left to close. -/
theorem Owned.close (h : N.Owned) {e : End} {a : Port} {H : Multiset End} (hH : N.held = e ::ₘ H) :
    (N.close e a H).Owned := by
  refine h.mono (fun _ he => IsLive.of_erase he) fun e' he' howns => ?_
  have hne : e' ≠ e := by
    rintro rfl
    obtain ⟨b, hb, -⟩ := he'
    cases hb.symm.trans (port_erase_self (N := N) _)
  rcases howns with hheld | ⟨l, hl, hq, hel⟩
  · rw [hH] at hheld
    exact .inl (Multiset.mem_add.2 (.inr ((Multiset.mem_cons.1 hheld).resolve_left hne)))
  · by_cases hlx : l.place = (e, N.len e)
    · refine .inl (Multiset.mem_add.2 (.inl (Multiset.mem_bind.2 ⟨l, ?_, hel⟩)))
      exact Multiset.mem_filter.2 ⟨hl, hq, hlx⟩
    · exact .inr ⟨l, Multiset.mem_filter.2 ⟨hl, fun hqx => hlx hqx.2⟩, hq, hel⟩

/-- A step loses no end, if no proxy goes with messages that have ends attached. -/
theorem Owned.step (h : N.Owned) (w : N.Shape) (c : N.Cargo) {t : Label} (hs : Step N t M)
    (hclean : ∀ x, t = .remove x → ∀ l ∈ N.queue x, l.ports = []) : M.Owned := by
  cases hs with
  | create => exact h.create
  | send hp _ _ hH _ _ => exact h.sendPost w c hp hH
  | @get e a l L hp hk _ hL _ _ _ =>
    refine h.mono (fun e' => IsLive.of_set (b := { a with next := a.next + 1 }) hp id)
      fun e' _ howns => ?_
    rcases howns.of_mem hL with (hheld | hrest) | ⟨-, hel⟩
    · exact .inl (Multiset.mem_add.2 (.inr hheld))
    · exact .inr hrest
    · exact .inl (Multiset.mem_add.2 (.inl hel))
  | @arrive a l L hL hq _ _ _ =>
    have hacc : (((N.acceptAll l.ports).withLetters ({ l with queued := true } ::ₘ L)).withHeld
        N.held).Owned :=
      h.acceptAll hL hq (Multiset.le_cons_self ..) le_rfl fun e he =>
        .inr ⟨{ l with queued := true }, Multiset.mem_cons_self .., rfl, he⟩
    rwa [withHeld_of_eq (by exact acceptAll_held)] at hacc
  | @reject l L hL hq _ =>
    exact h.acceptAll hL hq le_rfl (Multiset.le_add_left ..) fun e he =>
      .inl (Multiset.mem_add.2 (.inl he))
  | forward hx hk hL hq _ _ => exact h.forwardPost w c hx hL hq
  | @remove x a hx _ _ _ =>
    refine h.mono (fun _ he => IsLive.of_erase he) fun e _ howns => howns.imp_right ?_
    rintro ⟨l, hl, hq, hel⟩
    refine ⟨l, Multiset.mem_filter.2 ⟨hl, fun hqx => ?_⟩, hq, hel⟩
    rw [hclean x rfl l (Multiset.mem_filter.2 ⟨hl, hqx⟩)] at hel
    cases hel
  | close _ _ hH => exact h.close hH
  | @portAccepted x a E _ hx hk => exact h.set hx (b := { a with kind := .proxying }) nofun
  | @store x a E _ hx _ => exact h.set hx (b := { a with stored := true }) id
  | @ackAccept x a last E _ _ hx _ =>
    exact h.set hx (b := { a with remove := true, last := last }) id
  | @closureReceive e a last E _ hx _ =>
    exact h.set hx (b := { a with peerClosed := true, last := last }) id
  | @closurePass x a last E _ hx _ =>
    exact h.set hx (b := { a with peerClosed := true, remove := true, last := last }) id
  | redirect _ _ _ _ => exact h
  | proxyPass _ _ _ _ => exact h
  | ackRetry _ _ _ => exact h
  | drop _ _ _ => exact h

/-- A loss that deletes no proxy with ports attached to its messages. -/
theorem Owned.lose (h : N.Owned) (S : Place → Prop) [DecidablePred S]
    (hclean : ∀ l ∈ N.letters, l.queued → S l.place → (N.port l.place).bind lostPort = none →
      l.ports = []) : (N.lose S).Owned := by
  refine h.mono (fun e he => ?_) fun e _ howns => howns.imp_right ?_
  · obtain ⟨b, hb, hk⟩ := he
    rcases port_lose_cases hb with hb | ⟨a, ha, hk', -⟩
    · exact ⟨b, hb, hk⟩
    · exact ⟨a, ha, hk'⟩
  · rintro ⟨l, hl, hq, hel⟩
    refine ⟨l, mem_letters_lose.2 ⟨hl, fun hlost => ?_⟩, hq, hel⟩
    rw [hclean l hl hq hlost.2.1 hlost.2.2] at hel
    cases hel

/-- The invariants of a net that loses connections. -/
structure Settled (N : Net α) : Prop where
  shape : N.Shape
  cargo : N.Cargo
  owned : N.Owned

/-- Every step preserves what holds, if no proxy goes with ends. -/
theorem Settled.step (h : N.Settled) {t : Label} (hs : Step N t M)
    (hclean : ∀ x, t = .remove x → ∀ l ∈ N.queue x, l.ports = []) : M.Settled where
  shape := h.shape.step h.cargo hs
  cargo := h.cargo.step h.shape hs
  owned := h.owned.step h.shape h.cargo hs hclean

/-- Every strict run preserves what holds. -/
theorem Settled.run (h : N.Settled) (hr : Run True N M) : M.Settled := by
  induction hr with
  | refl => exact h
  | tail _ hw ih =>
    cases hw with
    | inner hs => exact ih.step hs nofun
    | remove hs hempty =>
      refine ih.step hs fun x hx => ?_
      obtain rfl := Label.remove.inj hx
      exact hempty trivial

/-- A loss preserves what holds, if it leaves every end owned. -/
theorem Settled.loss (h : N.Settled) (hs : Loss N M) (ho : M.Owned) : M.Settled where
  shape := h.shape.loss hs
  cargo := h.cargo.loss h.shape hs
  owned := ho

end Net

/-- Every action preserves what holds. -/
theorem Moves.settled {act : Action α} (hm : Moves True η s act N M) (h : N.Settled) :
    M.Settled := by
  obtain ⟨N₁, hfirst, hrun⟩ := hm
  rcases hfirst with rfl | hs | ⟨i, ev, -, -, hs⟩
  · exact h.run hrun
  · exact (h.step hs nofun).run hrun
  · exact (h.step hs nofun).run hrun

/-! ## Results -/

/-- Losing the connection to a node deletes no proxy with ports attached to the
    messages in its queue. -/
def Node.Spares (ν : Node α) (lost : NodeName) : Prop :=
  ∀ x ∈ ν.ports.entries, Node.lostPort lost x.2 = none → x.2.messageQueue.getReferencedPorts = []

instance (ν : Node α) (lost : NodeName) : Decidable (ν.Spares lost) :=
  inferInstanceAs (Decidable (∀ x ∈ ν.ports.entries, _ → _))

namespace System

/-- An action deletes no proxy with ports attached to the messages in its queue. -/
def Sparing (s : System α) : Action α → Prop
  | .lostConnectionToNode n lost => (s.node n).Spares lost
  | act => s.Keeps act

/-- A node that is spared keeps the ends it has. -/
theorem Sparing.keeps {act : Action α} (h : s.Sparing act) : s.Keeps act := by
  cases act with
  | lostConnectionToNode n lost => trivial
  | _ => exact h

end System

/-- The proxies that are deleted have no ports attached to their messages. -/
theorem Simulates.ports_of_spares (h : Simulates η s N) (w : N.Shape) {n lost : NodeName}
    (hsp : (s.node n).Spares lost) {l : Net.Letter α} (hl : l ∈ N.letters) (hq : l.queued)
    (hcut : η.Cut N n lost l.place) (hnone : (N.port l.place).bind Net.lostPort = none) :
    l.ports = [] := by
  obtain ⟨b, hb, hbk⟩ := w.queued l hl hq
  obtain ⟨port, hport, hm⟩ := h.getPort w hb hbk
  rw [hcut.2.1] at hport
  have hlost : Node.lostPort lost port = none := by
    rcases hm.lostPort hcut.2.2 with ⟨hlost, -⟩ | ⟨port', b', -, hb', -⟩
    · exact hlost
    · rw [hb, Option.bind_some, hb'] at hnone
      cases hnone
  have href := hsp ⟨_, port⟩ (AList.mem_lookup_iff.1 hport) hlost
  obtain ⟨m, hmh, hlive⟩ := hm.exists_message (Multiset.mem_filter.2 ⟨hl, hq, rfl⟩)
  have hports := List.flatMap_eq_nil_iff.1 href m hmh
  rwa [hlive, List.map_eq_nil_iff] at hports

/-- An action that spares the ends preserves that they are owned. -/
theorem Simulates.step_settled (h : Simulates η s N) (hN : N.Settled) {act : Action α}
    (hG : s.Lossy act) (hsp : s.Sparing act) {s' : System α} (hs : s.step act = some s') :
    ∃ κ M, Simulates κ s' M ∧ M.Settled := by
  rcases h.step_lossy hN.shape hN.cargo hG (fun _ => hsp.keeps) hs with
    ⟨⟨κ, M, hm, hM⟩, -⟩ | ⟨n, lost, rfl, hM⟩ | ⟨ev, E, hE, -, hM⟩
  · exact ⟨κ, M, hM, hm.settled hN⟩
  · refine ⟨η, _, hM, hN.loss (.lose _) (hN.owned.lose _ fun l hl hq hcut hnone => ?_)⟩
    exact h.ports_of_spares hN.shape hsp hl hq hcut hnone
  · exact ⟨η, _, hM, hN.loss (.loseEvent hE) hN.owned⟩

namespace System

/-- In every run whose steps spare the ends, they are owned. -/
theorem Reachable.settled (h : Reachable (fun s act => s.Lossy act ∧ s.Sparing act) s) :
    ∃ η N, Simulates η s N ∧ N.Settled := by
  induction h with
  | init => exact ⟨_, _, .init, .init, .init, fun e ⟨a, ha, _⟩ => by cases ha⟩
  | step _ hG hs ih =>
    obtain ⟨η, N, hS, hN⟩ := ih
    exact hS.step_settled hN hG.1 hG.2 hs

/-- In a run, connections lost or not, that deletes no proxy with ports attached to the
    messages in its queue, the embedder holds every receiving port of a node, or the port
    is attached to a message in a queue of the node. -/
theorem Reachable.ownership (h : Reachable (fun s act => s.Lossy act ∧ s.Sparing act) s)
    {n : NodeName} {p : PortName} {port : Port α} (hport : (s.node n).getPort p = some port)
    (hstate : port.state = .receiving) :
    (n, p) ∈ s.held ∨ ∃ q port' m, (s.node n).getPort q = some port' ∧
      m ∈ port'.messageQueue.heap ∧ p ∈ m.ports := by
  obtain ⟨η, N, hS, hN⟩ := h.settled
  obtain ⟨⟨e, i⟩, a, ha, rfl, rfl, hm⟩ := hS.exists_place hport
  have hk : a.kind = .receiving := Kind.state_eq_receiving.1 (hm.state.symm.trans hstate)
  obtain rfl : i = N.len e := (hN.shape.live ha (by simp [hk])).1
  rcases hN.owned e ⟨a, ha, hk⟩ with hheld | ⟨l, hl, hq, hel⟩
  · refine .inl (Multiset.mem_coe.1 ?_)
    rw [hS.held]
    exact Multiset.mem_map_of_mem (fun e => (η.home (e, N.len e), η.name (e, N.len e))) hheld
  · obtain ⟨b, hb, hbk⟩ := hN.shape.queued l hl hq
    obtain ⟨port', hport', hm'⟩ := hS.getPort hN.shape hb hbk
    obtain ⟨m, hmh, hports⟩ := hm'.exists_message (Multiset.mem_filter.2 ⟨hl, hq, rfl⟩)
    rw [hS.refines.homes l hl e hel]
    refine .inr ⟨η.name l.place, port', m, hport', hmh, ?_⟩
    rw [hports]
    exact List.mem_map_of_mem hel

/-- A port is sent to a node whose connection is then lost: the proxy it leaves is
    deleted, with no message in its queue, and the embedder still holds its peer. -/
theorem Reachable.ownership_lost : ∃ s : System ℕ,
    (Reachable (fun s act => s.Lossy act ∧ s.Sparing act) s ∧ (s.node 0).getPort 2 = none ∧
      ∃ port, (s.node 0).getPort 1 = some port ∧ port.state = .receiving) ∧
    ((0, 1) ∈ s.held ∨ ∃ q port' m, (s.node 0).getPort q = some port' ∧
      m ∈ port'.messageQueue.heap ∧ 1 ∈ m.ports) := by
  have h₁ : Reachable (α := ℕ) (fun s act => s.Lossy act ∧ s.Sparing act) (createPortPair {} 0) :=
    .step (a := .createPortPair 0) .init ⟨trivial, trivial⟩ rfl
  have h₂ := h₁.step (a := .connect 0 1) ⟨trivial, trivial⟩ rfl
  have h₃ := h₂.step (a := .sendMessage 0 3 0 [2])
    ⟨by decide, fun port peer m hport hpeer => absurd hpeer ?_⟩ rfl
  · have hspares : ((((createPortPair {} 0).connect 0 1).sendMessage 0 3 0 [2]).node 0).Spares 1 := by
      decide
    have h₄ := h₃.step (a := .lostConnectionToNode 0 1) ⟨trivial, hspares⟩ rfl
    exact ⟨_, ⟨h₄, rfl, _, rfl, rfl⟩, h₄.ownership rfl rfl⟩
  · -- The pipe the port is sent over leads to another node.
    have hnode : (((createPortPair {} 0).connect 0 1).node 0).getPort 3 =
        some (.created 1 4 : Port ℕ) := rfl
    obtain rfl := Option.some.inj (hport.symm.trans hnode)
    exact Nat.one_ne_zero

/-- A port is sent while a proxy buffers the message it is attached to: the connection of
    the proxy is lost, and the port is left without an owner. -/
theorem Reachable.not_ownership : ¬∀ s : System ℕ, Reachable Lossy s → ∀ n p port,
    (s.node n).getPort p = some port → port.state = .receiving →
    (n, p) ∈ s.held ∨ ∃ q port' m, (s.node n).getPort q = some port' ∧
      m ∈ port'.messageQueue.heap ∧ p ∈ m.ports := by
  intro h
  obtain ⟨s, hs, -, hstate, hheld, hqueues⟩ := exists_reachable (G := Lossy) (α := ℕ)
    (P := fun s => ((s.node 0).getPort 8).map (·.state) = some .receiving ∧ (0, 8) ∉ s.held ∧
      ∀ x ∈ (s.node 0).ports.entries, ∀ m ∈ x.2.messageQueue.heap, 8 ∉ m.ports)
    [.createPortPair 0, .createPortPair 0, .connect 0 1, .sendMessage 0 5 0 [2],
      .sendMessage 0 1 0 [4], .lostConnectionToNode 0 1] (by decide)
  obtain ⟨port, hport, hrec⟩ := Option.map_eq_some_iff.1 hstate
  rcases h s hs 0 8 port hport hrec with hmem | ⟨q, port', m, hport', hm, hp⟩
  · exact hheld hmem
  · exact hqueues ⟨q, port'⟩ (AList.mem_lookup_iff.1 hport') m hm hp

end System

end MojoEdk.Ports
