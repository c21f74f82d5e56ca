import MojoEdk.Ports.Refine.Reachable

/-!
# Lost connections

`LostConnectionToNode` looks at the peer of each port of a node: a receiving port
whose peer is on the node lost is told that its peer is closed, and stays told. A
proxy there is deleted, but the ports whose route to the node lost leads through the
proxy are not told: no event is sent on their behalf, and none will come.
-/

namespace MojoEdk.Ports

variable {α : Type*} {η : Names} {s s₀ s₁ s₂ : System α} {N M : Net α} {x : Place} {n lost : NodeName}
  {p : PortName}

/-! ## Closed peers -/

namespace Net

/-- The port at a place, if there still is one, has a closed peer. -/
def Shut (N : Net α) (x : Place) : Prop := N.Used x ∧ ∀ a, N.port x = some a → a.peerClosed

/-- A port that knows that its peer is closed knows it still. -/
theorem Shut.set (h : N.Shut x) {y : Place} {a b : Port} (hy : N.port y = some a)
    (hb : a.peerClosed → b.peerClosed) : (N.set y b).Shut x := by
  refine ⟨h.1, fun d hd => ?_⟩
  rcases port_set_cases hd with ⟨rfl, rfl⟩ | ⟨-, hd⟩
  · exact hb (h.2 a hy)
  · exact h.2 d hd

/-- A port that is erased need not know anything. -/
theorem Shut.erase (h : N.Shut x) (y : Place) : (N.erase y).Shut x :=
  ⟨h.1, fun d hd => h.2 d (port_erase_cases hd).2⟩

/-- A port that is sent takes along what it knows. -/
theorem Shut.transfer (h : N.Shut x) {e : End} {a : Port} (he : N.port (e, N.len e) = some a) :
    (N.transfer e a).Shut x := by
  refine ⟨⟨h.1.1, h.1.2.trans (len_le_transfer _)⟩, fun b hb => ?_⟩
  rcases port_transfer_cases hb with ⟨rfl, -⟩ | ⟨rfl, rfl⟩ | ⟨-, -, hb⟩
  · exact absurd h.1.2 (Nat.not_succ_le_self _)
  · exact h.2 a he
  · exact h.2 b hb

/-- The ports of a message are sent, one after the other. -/
theorem Shut.transferAll (h : N.Shut x) (es : List End) : (N.transferAll es).Shut x := by
  induction es generalizing N with
  | nil => exact h
  | cons e es ih =>
    rw [Net.transferAll]
    split
    next a ha => exact ih (h.transfer ha)
    next => exact ih h

/-- The ports of a message arrive, one after the other. -/
theorem Shut.acceptAll (h : N.Shut x) (es : List End) : (N.acceptAll es).Shut x := by
  induction es generalizing N with
  | nil => exact h
  | cons e es ih =>
    rw [Net.acceptAll]
    split
    next a ha => exact ih (h.set ha (b := { a with kind := .receiving }) id)
    next => exact ih h

/-- A port that is told stays told. -/
theorem Shut.step (h : N.Shut x) {t : Label} (hs : Step N t M) : M.Shut x := by
  cases hs with
  | create =>
    refine ⟨⟨h.1.1.trans (Nat.lt_succ_self _), h.1.2⟩, fun b hb => ?_⟩
    rcases port_create_cases hb with ⟨hpipe, -, -⟩ | hb
    · exact absurd hpipe h.1.1.ne
    · exact h.2 b hb
  | @send e a payload es H hp _ _ _ _ _ =>
    exact (h.set hp (b := { a with send := a.send + 1 }) id).transferAll es
  | @get e a l L hp _ _ _ _ _ _ => exact h.set hp (b := { a with next := a.next + 1 }) id
  | @arrive a l L _ _ _ _ _ => exact h.acceptAll l.ports
  | @reject l L _ _ _ => exact h.acceptAll l.ports
  | @forward x a l L hx _ _ _ _ _ =>
    exact (h.set hx (b := { a with
      next := a.next + 1
      send := if l.number = 0 then a.send + 1 else a.send }) id).transferAll l.ports
  | @portAccepted x a E _ hx _ => exact h.set hx (b := { a with kind := .proxying }) id
  | @remove y a _ _ _ _ => exact h.erase y
  | @store x a E _ hx _ => exact h.set hx (b := { a with stored := true }) id
  | @ackAccept x a last E _ _ hx _ =>
    exact h.set hx (b := { a with remove := true, last := last }) id
  | @closureReceive e a last E _ hx _ =>
    exact h.set hx (b := { a with peerClosed := true, last := last }) fun _ => rfl
  | @closurePass x a last E _ hx _ =>
    exact h.set hx (b := { a with peerClosed := true, remove := true, last := last }) fun _ => rfl
  | @close e a H _ _ _ => exact h.erase (e, N.len e)
  | redirect _ _ _ _ => exact h
  | proxyPass _ _ _ _ => exact h
  | ackRetry _ _ _ => exact h
  | drop _ _ _ => exact h

/-- A port that knows that its peer is closed knows it after any run. -/
theorem Shut.run {strict : Prop} (h : N.Shut x) (hr : Run strict N M) : M.Shut x := by
  induction hr with
  | refl => exact h
  | tail _ hw ih =>
    obtain ⟨t, hs⟩ := hw.step
    exact ih.step hs

end Net

/-! ## Routes to the node lost -/

/-- The route of a port leads to a port on the node lost, through proxies of the node. -/
inductive Node.Leads (ν : Node α) (lost : NodeName) : Port α → Prop
  | direct {port : Port α} : port.peerNodeName = lost → Leads ν lost port
  | proxy {port proxy : Port α} : port.peerNodeName = ν.name →
      ν.getPort port.peerPortName = some proxy → proxy.state = .buffering ∨ proxy.state = .proxying →
      Leads ν lost proxy → Leads ν lost port

namespace System

/-- The embedder is notified of a port on the way from a state to another one, where the peer of
    the port is closed. -/
def Told (s s' : System α) (n : NodeName) (p : PortName) : Prop :=
  s.Notifies s' n p ∧ ∀ port, (s'.node n).getPort p = some port → port.peerClosed

/-- The peer of a port is on the node lost, and not closed yet. -/
def Exposed (s : System α) (n lost : NodeName) (p : PortName) : Prop :=
  ∀ port, (s.node n).getPort p = some port →
    port.peerNodeName = lost ∧ port.peerClosed = false

/-- Events in flight are delivered, any of them and in any order. -/
abbrev Delivers : System α → System α → Prop :=
  Relation.ReflTransGen fun s s' => ∃ i, s.step (.acceptMessage i) = some s'

end System

/-! ## Deliveries -/

/-- The embedder was notified of a port since a state, and the port is at a place whose port has
    a closed peer. -/
structure Shuts (s₀ : System α) (η : Names) (s : System α) (N : Net α) (n : NodeName)
    (p : PortName) : Prop where
  simulates : Simulates η s N
  shape : N.Shape
  cargo : N.Cargo
  shut : ∃ x, N.Shut x ∧ η.home x = n ∧ η.name x = p
  notified : s₀.Notifies s n p

/-- It was notified, and reports that its peer is closed. -/
theorem Shuts.told (h : Shuts s₀ η s N n p) : s₀.Told s n p := by
  refine ⟨h.notified, fun port hport => ?_⟩
  obtain ⟨x, hx, -, rfl⟩ := h.shut
  obtain ⟨y, a, ha, -, hyx, hm⟩ := h.simulates.exists_place hport
  obtain rfl := h.simulates.refines.inj y x (h.shape.used ha) hx.1 hyx
  rw [hm.peerClosed]
  exact hx.2 a ha

/-- It stays told when its node or another one is given an event. -/
theorem Shuts.acceptMessage (h : Shuts s₀ η s N n p) {i : ℕ}
    (hs : s.step (.acceptMessage i) = some s₁) : ∃ κ M, Shuts s₀ κ s₁ M n p := by
  rw [System.step.eq_def] at hs
  split_ifs at hs
  simp only at hs
  split at hs
  · cases hs
  next n' event hi =>
    obtain rfl := Option.some.inj hs
    have hnot : s₀.Notifies ({ s with inFlight := s.inFlight.eraseIdx i }.deliver n' event) n p :=
      h.notified.append rfl
    obtain ⟨x, hx, rfl, rfl⟩ := h.shut
    have hagree : ∀ {κ} {M : Net α}, Agree N κ η → M.Shut x →
        ∃ y, M.Shut y ∧ κ.home y = η.home x ∧ κ.name y = η.name x :=
      fun hag hM => ⟨x, hM, (hag x hx.1).2, (hag x hx.1).1⟩
    rcases h.simulates.acceptMessage h.shape h.cargo hi (fun hf : False => hf.elim) with
      ⟨ev, N₁, κ, M, -, hfirst, hrun, hag, hκ, -⟩ | ⟨κ, M, htrans, hag, hκ, -⟩ | ⟨ev, E, hE, -, hM⟩
    · have hw := h.shape.step h.cargo hfirst
      have hc := h.cargo.step h.shape hfirst
      exact ⟨κ, M, hκ, hrun.shape hw hc, hrun.cargo hw hc, hagree hag ((hx.step hfirst).run hrun), hnot⟩
    · have hrun : Net.Run False N M := htrans.to_reflTransGen
      exact ⟨κ, M, hκ, hrun.shape h.shape h.cargo, hrun.cargo h.shape h.cargo,
        hagree hag (hx.run hrun), hnot⟩
    · exact ⟨η, _, hM, h.shape.loss (.loseEvent hE), h.cargo.loss h.shape (.loseEvent hE),
        hagree (.refl N η) hx, hnot⟩

namespace System

/-- What the steps and the losses of the net keep, holds in the states that are reached. -/
theorem Reachable.simulates_lossy (h : Reachable Lossy s) (I : Net α → Prop) (init : I Net.init)
    (step : ∀ {N M : Net α} {t : Net.Label}, N.Shape → N.Cargo → I N → Net.Step N t M → I M)
    (loss : ∀ {N M : Net α}, I N → Net.Loss N M → I M) :
    ∃ η N, Simulates η s N ∧ N.Shape ∧ N.Cargo ∧ I N := by
  have run : ∀ {N M : Net α}, N.Shape ∧ N.Cargo ∧ I N → Net.Run False N M →
      M.Shape ∧ M.Cargo ∧ I M := by
    intro N M hN hr
    induction hr with
    | refl => exact hN
    | tail _ hw ih =>
      obtain ⟨w, c, hI⟩ := ih
      obtain ⟨t, hs⟩ := hw.step
      exact ⟨w.step c hs, c.step w hs, step w c hI hs⟩
  induction h with
  | init => exact ⟨_, _, .init, .init, .init, init⟩
  | step _ hG hs ih =>
    obtain ⟨η, N, hS, w, c, hI⟩ := ih
    rcases hS.step_lossy w c hG (fun hf : False => hf.elim) hs with
      ⟨⟨κ, M, ⟨N₁, hfirst, hrun⟩, hM⟩, -⟩ | ⟨n, lost, -, hM⟩ | ⟨ev, E, hE, -, hM⟩
    · rcases hfirst with rfl | hs | ⟨i, ev, -, -, hs⟩
      · exact ⟨κ, M, hM, run ⟨w, c, hI⟩ hrun⟩
      · exact ⟨κ, M, hM, run ⟨w.step c hs, c.step w hs, step w c hI hs⟩ hrun⟩
      · exact ⟨κ, M, hM, run ⟨w.step c hs, c.step w hs, step w c hI hs⟩ hrun⟩
    · exact ⟨η, _, hM, w.loss (.lose _), c.loss w (.lose _), loss hI (.lose _)⟩
    · exact ⟨η, _, hM, w.loss (.loseEvent hE), c.loss w (.loseEvent hE), loss hI (.loseEvent hE)⟩

/-- A reachable state is the one of a net, with or without losses. -/
theorem Reachable.shape_cargo (h : Reachable Lossy s) :
    ∃ η N, Simulates η s N ∧ N.Shape ∧ N.Cargo := by
  obtain ⟨η, N, hS, w, c, -⟩ := h.simulates_lossy (fun _ => True) trivial
    (fun _ _ _ _ => trivial) fun _ _ => trivial
  exact ⟨η, N, hS, w, c⟩

end System

end MojoEdk.Ports
