import MojoEdk.Ports.Refine.Reachable

/-!
# Routing

In every state that an honest run reaches, no assertion of a node has failed or is
about to fail, and the ports of a pipe form the circular list of the ports library:
each end has exactly one live endpoint, a receiving port or the descriptor of a port
in transit, and the proxies lead from the peer of the one to the other.
-/

namespace MojoEdk.Ports

variable {α : Type*} {η : Names} {s : System α} {N M : Net α} {x : Place} {a : Net.Port} {e : End}

/-! ## Ports in transit -/

namespace Net

/-- Every end in transit is attached to a message in flight. -/
def Carried (N : Net α) : Prop :=
  ∀ e, N.IsLive e .transit → ∃ l ∈ N.letters, l.queued = false ∧ e ∈ l.ports

theorem Carried.mono (h : N.Carried) (hlive : ∀ e, M.IsLive e .transit → N.IsLive e .transit)
    (hletters : ∀ l ∈ N.letters, l.queued = false → l ∈ M.letters) : M.Carried := by
  intro e he
  obtain ⟨l, hl, hq, hel⟩ := h e (hlive e he)
  exact ⟨l, hletters l hl hq, hq, hel⟩

/-- The ends of a message that arrives are no longer in transit. -/
theorem Carried.acceptAll (h : N.Carried) (c : N.Cargo) {l : Letter α} {L L' : Multiset (Letter α)}
    (hL : N.letters = l ::ₘ L) (hL' : L ≤ L') :
    ((N.acceptAll l.ports).withLetters L').Carried := by
  intro e he
  replace he : (N.acceptAll l.ports).IsLive e .transit := he
  by_cases hel : e ∈ l.ports
  · obtain ⟨b, hb, hk⟩ := he
    obtain ⟨d, hd, -⟩ := c.letters l (hL ▸ Multiset.mem_cons_self l L) e hel
    rw [acceptAll_len, acceptAll_of_mem (c.nodup_of_cons hL).1 hel hd] at hb
    rw [← Option.some.inj hb] at hk
    cases hk
  · obtain ⟨l', hl', hq, hel'⟩ := h e ((isLive_acceptAll_of_notMem hel).1 he)
    rw [hL] at hl'
    rcases Multiset.mem_cons.1 hl' with rfl | hl'
    · exact absurd hel' hel
    · exact ⟨l', Multiset.mem_of_le hL' hl', hq, hel'⟩

/-- The ends of a message that is sent are in transit with it. -/
theorem Carried.transferAll (h : N.Carried) {es : List End} {l : Letter α}
    {L : Multiset (Letter α)} (hq : l.queued = false) (hports : l.ports = es)
    (hletters : ∀ l' ∈ N.letters, l'.queued = false → l' ∈ L) :
    ((N.transferAll es).withLetters (l ::ₘ L)).Carried := by
  intro e he
  replace he : (N.transferAll es).IsLive e .transit := he
  by_cases hes : e ∈ es
  · exact ⟨l, Multiset.mem_cons_self .., hq, hports ▸ hes⟩
  · obtain ⟨l', hl, hlq, hel⟩ := h e ((isLive_transferAll_of_notMem hes).1 he)
    exact ⟨l', Multiset.mem_cons_of_mem (hletters l' hl hlq), hlq, hel⟩

theorem Carried.set (h : N.Carried) {b : Port} (hx : N.port x = some a)
    (hb : b.kind = .transit → a.kind = .transit) : (N.set x b).Carried :=
  h.mono (fun _ => .of_set hx hb) fun _ hl _ => hl

theorem mem_elsewhere {l : Letter α} (hl : l ∈ N.letters) (hq : l.queued = false) (x : Place) :
    l ∈ N.elsewhere x := by
  refine Multiset.mem_filter.2 ⟨hl, fun h => ?_⟩
  rw [hq] at h
  exact Bool.false_ne_true h.1

theorem Carried.step (h : N.Carried) (c : N.Cargo) {t : Label} (hs : Step N t M) : M.Carried := by
  cases hs with
  | create =>
    refine h.mono (fun e he => ?_) fun _ hl _ => hl
    obtain ⟨b, hb, hk⟩ := he
    rcases port_create_cases hb with ⟨-, -, rfl⟩ | hb
    · cases hk
    · exact ⟨b, hb, hk⟩
  | @send e a payload es H hp hk _ _ _ _ =>
    have hset := h.set hp (b := { a with send := a.send + 1 }) id
    exact hset.transferAll (l := ⟨(e.opp, N.toward e), false, a.send, payload, es⟩) rfl rfl
      fun _ hl _ => hl
  | @get e a l L hp hk _ hL hlq _ _ =>
    refine h.mono (fun e he => ?_) fun l' hl' hq => ?_
    · exact IsLive.of_set (b := { a with next := a.next + 1 }) hp id he
    · rw [hL] at hl'
      rcases Multiset.mem_cons.1 hl' with rfl | hl'
      · rw [hlq] at hq
        cases hq
      · exact hl'
  | @arrive a l L hL _ _ _ _ => exact h.acceptAll c hL (Multiset.le_cons_self ..)
  | @reject l L hL _ _ => exact h.acceptAll c hL le_rfl
  | @forward x a l L hx hk hL hlq _ _ =>
    refine (h.set hx (b := { a with
      next := a.next + 1
      send := if l.number = 0 then a.send + 1 else a.send }) id).transferAll rfl rfl fun l' hl' hq => ?_
    replace hl' : l' ∈ N.letters := hl'
    rw [hL] at hl'
    rcases Multiset.mem_cons.1 hl' with rfl | hl'
    · rw [hlq] at hq
      cases hq
    · exact hl'
  | @portAccepted x a E _ hx hk =>
    exact h.mono (fun e he => IsLive.of_set (b := { a with kind := .proxying }) hx
      (fun hb => by cases hb) he) fun _ hl _ => hl
  | @remove x a hx _ _ _ =>
    exact h.mono (fun e he => IsLive.of_erase he) fun l hl hq => mem_elsewhere hl hq x
  | @store x a E _ hx _ =>
    exact h.mono (fun e he => IsLive.of_set (b := { a with stored := true }) hx id he)
      fun _ hl _ => hl
  | @ackAccept x a last E _ _ hx _ =>
    exact h.mono (fun e he => IsLive.of_set (b := { a with remove := true, last := last }) hx id he)
      fun _ hl _ => hl
  | @closureReceive e a last E _ hx _ =>
    exact h.mono (fun e he => IsLive.of_set (b := { a with peerClosed := true, last := last }) hx id
      he) fun _ hl _ => hl
  | @closurePass x a last E _ hx _ =>
    exact h.mono (fun e he => IsLive.of_set (b := { a with
      peerClosed := true
      remove := true
      last := last }) hx id he) fun _ hl _ => hl
  | @close e a H hp _ _ =>
    exact h.mono (fun e he => IsLive.of_erase he) fun l hl hq => mem_elsewhere hl hq _
  | redirect _ _ _ _ => exact h.mono (fun _ he => he) fun _ hl _ => hl
  | proxyPass _ _ _ _ => exact h.mono (fun _ he => he) fun _ hl _ => hl
  | ackRetry _ _ _ => exact h.mono (fun _ he => he) fun _ hl _ => hl
  | drop _ _ _ => exact h.mono (fun _ he => he) fun _ hl _ => hl

theorem Carried.run {strict : Prop} (h : N.Carried) (hN : N.Sound) (hr : Run strict N M) :
    M.Carried := by
  induction hr with
  | refl => exact h
  | tail hr hw ih =>
    obtain ⟨t, hs⟩ := hw.step
    exact ih.step (hN.run hr).cargo hs

end Net

theorem Moves.carried {strict : Prop} {act : Action α} (hm : Moves strict η s act N M) (hN : N.Sound)
    (h : N.Carried) : M.Carried := by
  obtain ⟨N₁, hfirst, hrun⟩ := hm
  rcases hfirst with rfl | hs | ⟨i, ev, -, -, hs⟩
  · exact h.run hN hrun
  · exact (h.step hN.cargo hs).run (hN.step hs) hrun
  · exact (h.step hN.cargo hs).run (hN.step hs) hrun

/-! ## Endpoints -/

/-- Where a live endpoint may be: a port of a node, or a descriptor of the message
    that is an event in flight. -/
inductive Spot
  | port (n : NodeName) (p : PortName)
  | descriptor (i j : ℕ)

namespace System

/-- The live endpoint of an end at a spot, if there is one: the node and the name of
    the port, and those of its peer. -/
def endpoint (s : System α) (e : End) : Spot → Option ((NodeName × PortName) × NodeName × PortName)
  | .port n p =>
    match (s.node n).getPort p with
    | some port =>
      if port.state = .receiving ∧ s.endOf p = e then
        some ((n, p), port.peerNodeName, port.peerPortName)
      else none
    | none => none
  | .descriptor i j =>
    match s.inFlight[i]? with
    | some (n, .user m) =>
      match m.ports[j]?, m.descriptors[j]? with
      | some p, some d => if s.endOf p = e then some ((n, p), d.peerNodeName, d.peerPortName) else none
      | _, _ => none
    | _ => none

/-- The ports that lead from a place to another, buffering or proxying. -/
inductive Route (s : System α) :
    NodeName × PortName → List (NodeName × PortName) → NodeName × PortName → Prop
  | nil (x : NodeName × PortName) : Route s x [] x
  | cons {x y : NodeName × PortName} {port : Port α} {path : List (NodeName × PortName)} :
      (s.node x.1).getPort x.2 = some port → port.state = .buffering ∨ port.state = .proxying →
      Route s (port.peerNodeName, port.peerPortName) path y → Route s x (x :: path) y

/-- The ends attached to an event. -/
def attachedEnds (s : System α) (x : NodeName × Event α) : List End :=
  match x.2 with
  | .user m => m.ports.map s.endOf
  | _ => []

end System

/-- The node and the name of the port at a place. -/
def Names.address (η : Names) (x : Place) : NodeName × PortName := (η.home x, η.name x)

namespace Simulates

/-- A message is attached at most once to the messages in flight. -/
theorem nodup_attachedEnds (h : Simulates η s N) (hN : N.Sound) :
    (s.inFlight.flatMap s.attachedEnds).Nodup := by
  have hends : ∀ l ∈ N.letters, (η.message N l).ports.map s.endOf = l.ports := by
    intro l hl
    simp only [Names.message, List.map_map]
    refine (List.map_congr_left fun e he => ?_).trans (List.map_id _)
    exact h.refines.endOf (e, N.len e) ⟨(hN.cargo.letters l hl e he).pipe_lt hN.shape, le_rfl⟩
  have hbind : ((s.inFlight.flatMap s.attachedEnds : List End) : Multiset End) =
      (N.letters.filter fun l => ¬l.queued = true).bind fun l => (l.ports : Multiset End) := by
    rw [← Multiset.coe_bind, h.refines.flight, Names.flight, Multiset.add_bind, Multiset.bind_map,
      Multiset.bind_map]
    have hzero : ∀ ev : Net.Event, (s.attachedEnds (η.event ev) : Multiset End) = 0 := by
      intro ev
      cases ev <;> rfl
    simp only [hzero, Multiset.bind_zero, zero_add]
    refine Multiset.bind_congr fun l hl => congrArg _ ?_
    exact hends l (Multiset.mem_filter.1 hl).1
  rw [← Multiset.coe_nodup, hbind]
  refine Multiset.nodup_of_le ?_ (Multiset.nodup_add.1 hN.cargo.nodup).2.1
  change (N.withLetters (N.letters.filter _)).attached ≤ N.attached
  exact Net.attached_le (Multiset.filter_le ..)

/-- An endpoint that is a port is the live port of its end. -/
theorem endpoint_port (h : Simulates η s N) (hN : N.Sound) {n : NodeName} {p : PortName}
    {y y' : NodeName × PortName} (hy : s.endpoint e (.port n p) = some (y, y')) :
    N.IsLive e .receiving ∧ (n, p) = η.address (e, N.len e) ∧ y = η.address (e, N.len e) ∧
      y' = η.address (e.opp, N.toward e) := by
  rw [System.endpoint] at hy
  split at hy
  next port hport =>
    split_ifs at hy with hcond
    obtain ⟨⟨e', i⟩, a, ha, rfl, rfl, hm⟩ := h.exists_place hport
    have hk : a.kind = .receiving := Kind.state_eq_receiving.1 (hm.state.symm.trans hcond.1)
    obtain rfl : e' = e := (h.refines.endOf _ (hN.shape.used ha)).symm.trans hcond.2
    obtain rfl : i = N.len e' := (hN.shape.live ha (by simp [hk])).1
    obtain ⟨rfl, rfl⟩ := Prod.mk.inj (Option.some.inj hy)
    refine ⟨⟨a, ha, hk⟩, rfl, rfl, ?_⟩
    rw [hm.peerNodeName, hm.peerPortName, Net.peer_live]
    rfl
  next => cases hy

/-- An endpoint that is a descriptor is the live port of its end, in transit. -/
theorem endpoint_descriptor (h : Simulates η s N) (hN : N.Sound) {i j : ℕ}
    {y y' : NodeName × PortName} (hy : s.endpoint e (.descriptor i j) = some (y, y')) :
    N.IsLive e .transit ∧ (∃ z, s.inFlight[i]? = some z ∧ (s.attachedEnds z)[j]? = some e) ∧
      y = η.address (e, N.len e) ∧ y' = η.address (e.opp, N.toward e) := by
  rw [System.endpoint] at hy
  split at hy
  next n m hi =>
    obtain ⟨l, hl, hq, rfl, rfl⟩ := h.exists_letter (List.mem_of_getElem? hi)
    split at hy
    next p d hp hd =>
      split_ifs at hy with hend
      simp only [Names.message, List.getElem?_map, Option.map_eq_some_iff] at hp hd
      obtain ⟨e', he', rfl⟩ := hp
      obtain ⟨e'', he'', rfl⟩ := hd
      obtain rfl : e' = e'' := Option.some.inj (he'.symm.trans he'')
      have hmem : e' ∈ l.ports := List.mem_of_getElem? he'
      have hu : N.Used (e', N.len e') := ⟨(hN.cargo.letters l hl e' hmem).pipe_lt hN.shape, le_rfl⟩
      obtain rfl : e' = e := (h.refines.endOf _ hu).symm.trans hend
      have hlive := hN.cargo.transit hl hq e' hmem
      obtain ⟨a, ha, hak⟩ := hlive
      obtain ⟨rfl, rfl⟩ := Prod.mk.inj (Option.some.inj hy)
      refine ⟨⟨a, ha, hak⟩, ⟨_, hi, ?_⟩, ?_, ?_⟩
      · change ((l.ports.map (η.live N)).map s.endOf)[j]? = some e'
        rw [List.getElem?_map, List.getElem?_map, he']
        exact congrArg some hend
      · rw [← h.refines.homes l hl e' hmem]
        rfl
      · rw [Names.descriptor, ha]
        rfl
    next => cases hy
  next => cases hy

/-- An open end has an endpoint. -/
theorem exists_endpoint (h : Simulates η s N) (hN : N.Sound) (hcar : N.Carried)
    (he : e.pipe < N.pipes) (ho : N.closed e = false) : ∃ σ y, s.endpoint e σ = some y := by
  obtain ⟨a, ha⟩ := hN.shape.isOpen e he ho
  have hu : N.Used (e, N.len e) := ⟨he, le_rfl⟩
  have hend := h.refines.endOf _ hu
  by_cases hk : a.kind = .transit
  · obtain ⟨l, hl, hq, hel⟩ := hcar e ⟨a, ha, hk⟩
    obtain ⟨L, hL⟩ := Multiset.exists_cons_of_mem hl
    have hmem : (η.home l.place, Event.user (η.message N l)) ∈ s.inFlight := by
      rw [h.mem_inFlight_iff, Names.flight_take hL hq]
      exact Multiset.mem_cons_self ..
    obtain ⟨i, hi⟩ := List.mem_iff_getElem?.1 hmem
    obtain ⟨j, hj⟩ := List.mem_iff_getElem?.1 hel
    refine ⟨.descriptor i j, ((η.home l.place, η.live N e), (η.descriptor N e).peerNodeName,
      (η.descriptor N e).peerPortName), ?_⟩
    simp only [System.endpoint, hi, Names.message, List.getElem?_map, hj, Option.map_some]
    exact if_pos hend
  · obtain ⟨port, hport, hm⟩ := h.getPort hN.shape ha hk
    have hkind : a.kind = .receiving := by
      have hlive := hN.shape.kind_live ha
      cases hkk : a.kind <;> simp_all
    refine ⟨.port (η.home (e, N.len e)) (η.name (e, N.len e)),
      (η.address (e, N.len e), port.peerNodeName, port.peerPortName), ?_⟩
    simp only [System.endpoint, hport]
    exact if_pos ⟨by rw [hm.state, hkind]; rfl, hend⟩

/-- The endpoints of an end are all at one spot. -/
theorem endpoint_unique (h : Simulates η s N) (hN : N.Sound) {σ τ : Spot}
    {y z : (NodeName × PortName) × NodeName × PortName} (hσ : s.endpoint e σ = some y)
    (hτ : s.endpoint e τ = some z) : σ = τ := by
  have hdis : ¬(N.IsLive e .receiving ∧ N.IsLive e .transit) := by
    rintro ⟨⟨a, ha, hk⟩, b, hb, hk'⟩
    obtain rfl : a = b := Option.some.inj (ha.symm.trans hb)
    rw [hk] at hk'
    cases hk'
  cases σ with
  | port n p =>
    obtain ⟨h1, hnp, -, -⟩ := h.endpoint_port hN hσ
    cases τ with
    | port n' p' =>
      obtain ⟨-, hnp', -, -⟩ := h.endpoint_port hN hτ
      obtain ⟨rfl, rfl⟩ := Prod.mk.inj (hnp.trans hnp'.symm)
      rfl
    | descriptor i j => exact absurd ⟨h1, (h.endpoint_descriptor hN hτ).1⟩ hdis
  | descriptor i j =>
    obtain ⟨h1, ⟨u, hi, hj⟩, -, -⟩ := h.endpoint_descriptor hN hσ
    cases τ with
    | port n p => exact absurd ⟨(h.endpoint_port hN hτ).1, h1⟩ hdis
    | descriptor i' j' =>
      obtain ⟨-, ⟨v, hi', hj'⟩, -, -⟩ := h.endpoint_descriptor hN hτ
      obtain ⟨rfl, rfl⟩ := List.index_unique_of_nodup_flatMap (h.nodup_attachedEnds hN) hi hi' hj hj'
      rfl

/-- The proxies of an end lead to its live port. -/
theorem route (h : Simulates η s N) (hN : N.Sound) (hf : ¬N.Frozen e.opp) (k i : ℕ)
    (hi : N.toward e.opp ≤ i) (hk : i + k = N.len e) (he : e.pipe < N.pipes) :
    s.Route (η.address (e, i)) ((List.range' i k).map fun j => η.address (e, j))
      (η.address (e, N.len e)) := by
  induction k generalizing i with
  | zero =>
    obtain rfl : i = N.len e := hk
    exact .nil _
  | succ k ih =>
    have hpass : N.Passed (e, i) := ⟨he, by rw [← hk]; exact Nat.lt_add_of_pos_right (Nat.succ_pos k)⟩
    -- A proxy that the other end has not skipped yet is still there.
    obtain ⟨a, ha⟩ := Option.ne_none_iff_exists'.1 (hN.ring.present (e, i) hpass hi hf)
    have hlive : a.kind.live = false := by
      by_contra hne
      exact hpass.2.ne (hN.shape.live ha (by simpa using hne)).1
    obtain ⟨port, hport, hm⟩ := h.getPort hN.shape ha (Kind.ne_transit hlive)
    have hpeer : (port.peerNodeName, port.peerPortName) = η.address (e, i + 1) := by
      rw [hm.peerNodeName, hm.peerPortName, Net.peer_of_lt hpass.2]
      rfl
    rw [List.range'_succ, List.map_cons]
    refine .cons hport ?_ (hpeer ▸ ih (i + 1) (Nat.le_succ_of_le hi) (by omega))
    rw [hm.state]
    cases hkk : a.kind <;> simp_all [Kind.state]

/-- The ports of a route are distinct. -/
theorem address_injective (h : Simulates η s N) {y z : Place} (hy : N.Used y) (hz : N.Used z)
    (hyz : η.address y = η.address z) : y = z :=
  h.refines.inj y z hy hz (congrArg Prod.snd hyz)

/-- The ports attached to the messages of a queue are receiving ports of the node. -/
theorem receives_attached (h : Simulates η s N) (hN : N.Sound) {n : NodeName} {p q : PortName}
    {port : Port α} {m : Message α} (hport : (s.node n).getPort p = some port)
    (hm : m ∈ port.messageQueue.heap) (hq : q ∈ m.ports) : (s.node n).Receives q := by
  obtain ⟨x, a, ha, rfl, rfl, hmatch⟩ := h.exists_place hport
  obtain ⟨l, hl, hlq, rfl, hle⟩ := Simulates.exists_queued hmatch hm
  have hports : m.ports = l.ports.map (η.live N) := congrArg (fun v => v.2.2) hle.symm
  rw [hports] at hq
  obtain ⟨e, he, rfl⟩ := List.mem_map.1 hq
  obtain ⟨b, hb, hk⟩ := hN.cargo.receiving hl hlq e he
  obtain ⟨port', hport', hm'⟩ := h.getPort hN.shape hb (by simp [hk])
  rw [h.refines.homes l hl e he] at hport'
  exact ⟨port', hport', by rw [hm'.state, hk]; rfl⟩

/-- A receiving port is the live port of its end. -/
theorem exists_live (h : Simulates η s N) (hN : N.Sound) {n : NodeName} {q : PortName}
    (hq : (s.node n).Receives q) :
    ∃ e, N.IsLive e .receiving ∧ (n, q) = η.address (e, N.len e) := by
  obtain ⟨port, hport, hstate⟩ := hq
  obtain ⟨⟨e, i⟩, a, ha, rfl, rfl, hm⟩ := h.exists_place hport
  have hk : a.kind = .receiving := Kind.state_eq_receiving.1 (hm.state.symm.trans hstate)
  obtain rfl : i = N.len e := (hN.shape.live ha (by simp [hk])).1
  exact ⟨e, ⟨a, ha, hk⟩, rfl⟩

/-- The ports that lead from a place to a receiving port are those of the chain there, and the
    receiving port is the live port of the chain. -/
theorem route_eq (h : Simulates η s N) (hN : N.Sound) {y z : NodeName × PortName}
    {path : List (NodeName × PortName)} (hroute : s.Route y path z)
    (hz : (s.node z.1).Receives z.2) {i : ℕ} (hu : N.Used (e, i))
    (hy : y = η.address (e, i)) : z = η.address (e, N.len e) := by
  induction hroute generalizing i with
  | nil y =>
    obtain ⟨e', ⟨a, ha, -⟩, hlive⟩ := h.exists_live hN hz
    have := h.address_injective (hN.shape.used ha) hu (hlive.symm.trans hy)
    obtain ⟨rfl, -⟩ := Prod.mk.inj this
    exact hlive
  | @cons y z port path hport hstate _ ih =>
    obtain ⟨x, a, ha, hhome, hname, hm⟩ := h.exists_place hport
    obtain rfl : x = (e, i) := h.address_injective (hN.shape.used ha) hu
      ((Prod.ext hhome hname : η.address x = y).trans hy)
    have hlive : a.kind.live = false := by
      rw [hm.state] at hstate
      cases hkk : a.kind <;> simp_all [Kind.state]
    have hlt : i < N.len e := hN.shape.proxy ha hlive
    refine ih hz (i := i + 1) ⟨hu.1, hlt⟩ ?_
    rw [hm.peerNodeName, hm.peerPortName, Net.peer_of_lt hlt]
    rfl

/-- The route from the one endpoint of a pipe to the other. -/
theorem exists_route (h : Simulates η s N) (hN : N.Sound) (he : e.pipe < N.pipes)
    (ho : N.closed e = false) (ho' : N.closed e.opp = false) :
    ∃ path, s.Route (η.address (e.opp, N.toward e)) path (η.address (e.opp, N.len e.opp)) ∧
      (η.address (e, N.len e) :: (path ++ [η.address (e.opp, N.len e.opp)])).Nodup := by
  have hf : ¬N.Frozen e.opp.opp := by
    rw [End.opp_opp]
    rintro (hc | ⟨a, ha, hc⟩)
    · rw [ho] at hc
      cases hc
    · have := (hN.ring.live _ a ha (hN.shape.kind_live ha)).peerClosed hc
      rw [ho'] at this
      cases this
  have hle : N.toward e.opp.opp ≤ N.len e.opp := by
    rw [End.opp_opp]
    exact hN.shape.toward_le e
  obtain ⟨k, hk⟩ := Nat.exists_eq_add_of_le hle
  have hpath := h.route hN hf k _ le_rfl hk.symm he
  rw [End.opp_opp] at hpath hk
  refine ⟨_, hpath, ?_⟩
  -- The places of the route, the endpoints included.
  have hroute : η.address (e, N.len e) :: ((List.range' (N.toward e) k).map (fun j =>
      η.address (e.opp, j)) ++ [η.address (e.opp, N.len e.opp)]) =
      ((e, N.len e) :: (List.range' (N.toward e) (k + 1)).map fun j => (e.opp, j)).map η.address := by
    rw [List.range'_concat, hk]
    simp
  rw [hroute]
  refine List.Nodup.map_on ?_ ?_
  · have hused : ∀ y ∈ (e, N.len e) :: (List.range' (N.toward e) (k + 1)).map fun j => (e.opp, j),
        N.Used y := by
      intro y hy
      rcases List.mem_cons.1 hy with rfl | hy
      · exact ⟨he, le_rfl⟩
      · obtain ⟨j, hj, rfl⟩ := List.mem_map.1 hy
        have := List.mem_range'_1.1 hj
        refine ⟨he, ?_⟩
        change j ≤ N.len e.opp
        omega
    intro y hy z hz hyz
    exact h.address_injective (hused y hy) (hused z hz) hyz
  · have hrange : (List.range' (N.toward e) (k + 1)).Nodup := List.nodup_range'
    refine List.nodup_cons.2 ⟨fun hm => ?_, hrange.map fun i j hij => (Prod.mk.inj hij).2⟩
    obtain ⟨j, -, hj⟩ := List.mem_map.1 hm
    exact e.opp_ne (congrArg Prod.fst hj)

end Simulates

/-! ## Results -/

namespace System

/-- An honest run fails no assertion, and is about to fail none: a port that was
    accepted is referred to by a buffering port, an acknowledged port is a proxy if
    it is still there, and the ports attached to a message of a queue are receiving
    ports of the node. -/
theorem Reachable.assertions (h : Reachable Honest s) :
    s.oops = [] ∧
    (∀ n p, (n, .portAccepted p) ∈ s.inFlight →
      ∃ port, (s.node n).getPort p = some port ∧ port.state = .buffering) ∧
    (∀ n p last, (n, .observeProxyAck p last) ∈ s.inFlight →
      ∀ port, (s.node n).getPort p = some port → port.state = .proxying) ∧
    ∀ n p port m, (s.node n).getPort p = some port → m ∈ port.messageQueue.heap → ∀ q ∈ m.ports,
      ∃ port', (s.node n).getPort q = some port' ∧ port'.state = .receiving := by
  obtain ⟨⟨η, N, hS, hN, -⟩, ho⟩ := h.simulates (fun _ _ h => h) (fun _ => True) trivial
    fun _ _ _ _ _ => trivial
  refine ⟨ho, fun n p hmem => ?_, fun n p last hmem port hport => ?_, fun n p port m hport hm q hq => ?_⟩
  · obtain ⟨ev, hev, heq⟩ := hS.exists_event hmem (by simp)
    cases ev with
    | accepted x =>
      obtain ⟨rfl, hp⟩ := Prod.mk.inj heq
      obtain rfl := Event.portAccepted.inj hp
      obtain ⟨⟨a, ha, hk⟩, -⟩ := hN.ring.events _ hev
      obtain ⟨port, hport, hm⟩ := hS.getPort hN.shape ha (by simp [hk])
      exact ⟨port, hport, by rw [hm.state, hk]; rfl⟩
    | _ => cases (Prod.mk.inj heq).2
  · obtain ⟨ev, hev, heq⟩ := hS.exists_event hmem (by simp)
    cases ev with
    | ack x last' =>
      obtain ⟨rfl, hp⟩ := Prod.mk.inj heq
      obtain ⟨rfl, -⟩ := Event.observeProxyAck.inj hp
      obtain ⟨y, a, ha, -, hyx, hm⟩ := hS.exists_place hport
      have hx : N.Used x := (hN.shape.events (.ack x last') hev : N.Passed x).used
      obtain rfl := hS.refines.inj _ _ (hN.shape.used ha) hx hyx
      rw [hm.state, (hN.ring.events _ hev).1.2 a ha]
      rfl
    | _ => cases (Prod.mk.inj heq).2
  · exact hS.receives_attached hN hport hm hq

/-- A port is sent over a pipe between two nodes, and accepted: the event about to be
    delivered finds the port it was sent from. -/
theorem Reachable.assertions_accepted : ∃ s : System ℕ,
    (Reachable Honest s ∧ s.inFlight = [(1, .portAccepted 3)]) ∧
    ∃ port, (s.node 1).getPort 3 = some port ∧ port.state = .buffering := by
  obtain ⟨s, hs, -, hflight⟩ := exists_reachable (G := Honest) (α := ℕ)
    (P := fun s => s.inFlight = [(1, .portAccepted 3)])
    [.connect 1 2, .createPortPair 1, .sendMessage 1 1 0 [3], .acceptMessage 0] (by decide)
  refine ⟨s, ⟨hs, hflight⟩, hs.assertions.2.1 1 3 ?_⟩
  rw [hflight]
  exact List.mem_cons_self

/-- In an honest run, an open pipe is a circular list: each end has exactly one live
    endpoint, and from the peer of the one there is a route, through distinct ports,
    to the other. -/
theorem Reachable.routing (h : Reachable Honest s) (he : e.pipe < s.pipes)
    (ho : s.closed e = false) (ho' : s.closed e.opp = false) :
    (∃! σ, s.endpoint e σ ≠ none) ∧
    ∀ σ x peer τ y peer', s.endpoint e σ = some (x, peer) → s.endpoint e.opp τ = some (y, peer') →
      ∃ path, s.Route peer path y ∧ (x :: (path ++ [y])).Nodup := by
  obtain ⟨⟨η, N, hS, hN, hcar⟩, -⟩ := h.simulates (fun _ _ h => h) Net.Carried
    (fun e ⟨a, ha, _⟩ => by cases ha) fun _ hN hcar _ hm => hm.carried hN hcar
  rw [hS.refines.pipes] at he
  rw [hS.refines.closed] at ho ho'
  have haddress : ∀ {e σ x peer}, s.endpoint e σ = some (x, peer) →
      x = η.address (e, N.len e) ∧ peer = η.address (e.opp, N.toward e) := by
    intro e σ x peer hσ
    cases σ with
    | port n p => exact (hS.endpoint_port hN hσ).2.2
    | descriptor i j => exact (hS.endpoint_descriptor hN hσ).2.2
  constructor
  · obtain ⟨σ, y, hσ⟩ := hS.exists_endpoint hN hcar he ho
    refine ⟨σ, by simp [hσ], fun τ hτ => ?_⟩
    obtain ⟨z, hz⟩ := Option.ne_none_iff_exists'.1 hτ
    exact hS.endpoint_unique hN hz hσ
  · intro σ x peer τ y peer' hσ hτ
    obtain ⟨rfl, rfl⟩ := haddress hσ
    obtain ⟨rfl, -⟩ := haddress hτ
    exact hS.exists_route hN he ho ho'

/-- The route to a port in transit, through the port it was sent from. -/
theorem Reachable.routing_sent : ∃ s : System ℕ, (Reachable Honest s ∧ 1 < s.pipes ∧
    s.closed ⟨1, true⟩ = false ∧ s.closed ⟨1, false⟩ = false) ∧
    (∃! σ, s.endpoint ⟨1, true⟩ σ ≠ none) := by
  obtain ⟨s, hs, -, h1, h2, h3⟩ := exists_reachable (G := Honest) (α := ℕ)
    (P := fun s => 1 < s.pipes ∧ s.closed ⟨1, true⟩ = false ∧ s.closed ⟨1, false⟩ = false)
    [.connect 1 2, .createPortPair 1, .sendMessage 1 1 0 [3]] (by decide)
  exact ⟨s, ⟨hs, h1, h2, h3⟩, (hs.routing h1 h2 h3).1⟩

end System

end MojoEdk.Ports
