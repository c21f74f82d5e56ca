import MojoEdk.Ports.Refine.Losses
import MojoEdk.Ports.Net.Sequence

/-!
# Reachable states

What holds of every net that a run of the ring of ports reaches holds of every
state of a system of nodes: an action of the embedder, or the delivery of an event,
is a run of the net (`Simulates.step`), from the empty system and the empty net on.
-/

namespace MojoEdk.Ports

variable {α : Type*} {η : Names} {s : System α} {ν : Node α} {N M : Net α} {x : Place}
  {a : Net.Port} {e : End} {es : List End} {strict : Prop}

/-! ## Deliveries -/

/-- A node that is given an event removes no proxy that leaves ports behind. -/
def Node.Keeps (ν : Node α) : Event α → Prop
  -- The message is queued before the proxy forwards what it has.
  | .user m => ∀ port, ν.getPort m.portName = some port → port.state = .proxying →
      { port with messageQueue := (port.messageQueue.acceptMessage m).1 }.Clean
  | .portAccepted p => ∀ port, ν.getPort p = some port → port.Clean
  -- A proxy that is told of another one is not removed.
  | .observeProxy _ _ => True
  | .observeProxyAck p last => ∀ port, ν.getPort p = some port → last ≠ kInvalidSequenceNum →
      Port.removable { port with
        removeProxyOnLastMessage := true
        lastSequenceNumToReceive := last } → port.messageQueue.getReferencedPorts = []
  | .observeClosure p last => ∀ port, ν.getPort p = some port → port.state = .proxying →
      Port.removable { port with
        peerClosed := true
        removeProxyOnLastMessage := true
        lastSequenceNumToReceive := last } → port.messageQueue.getReferencedPorts = []

namespace Net

theorem Step.event_fields {ev : Event} (hs : Step N (.event ev) M) :
    M.held = N.held ∧ M.len = N.len := by
  cases hs <;> exact ⟨rfl, rfl⟩

/-- An event that a node can take. -/
def Due (N : Net α) : Event → Prop
  | .accepted x => N.Buffering x
  | .ack x _ => ∀ a, N.port x = some a → a.kind ≠ .transit → a.kind = .proxying
  | _ => True

end Net

theorem Names.mem_flight {y : NodeName × Event α} (h : y ∈ η.flight N) :
    (∃ ev E, N.events = ev ::ₘ E ∧ η.event ev = y ∧
      η.flight N = y ::ₘ η.flight (N.withEvents E)) ∨
    ∃ l L, N.letters = l ::ₘ L ∧ l.queued = false ∧ (η.home l.place, .user (η.message N l)) = y ∧
      η.flight N = y ::ₘ η.flight (N.withLetters L) := by
  rcases Multiset.mem_add.1 h with h | h
  · obtain ⟨ev, hev, rfl⟩ := Multiset.mem_map.1 h
    obtain ⟨E, hE⟩ := Multiset.exists_cons_of_mem hev
    exact .inl ⟨ev, E, hE, rfl, Names.flight_consume hE⟩
  · obtain ⟨l, hl, rfl⟩ := Multiset.mem_map.1 h
    obtain ⟨hl, hq⟩ := Multiset.mem_filter.1 hl
    obtain ⟨L, hL⟩ := Multiset.exists_cons_of_mem hl
    have hq : l.queued = false := by simpa using hq
    exact .inr ⟨l, L, hL, hq, rfl, Names.flight_take hL hq⟩

namespace Refines

/-- An event in flight is taken out. -/
theorem withEvents (h : Refines η s N) {E : Multiset Net.Event} {flight : List (NodeName × Event α)}
    (hf : (flight : Multiset _) = η.flight (N.withEvents E)) :
    Refines η { s with inFlight := flight } (N.withEvents E) :=
  { h with
    port := fun y hy => (h.port y hy).congr rfl rfl rfl rfl (fun _ _ _ => rfl) rfl
    flight := hf }

/-- `OnPortAccepted`, on a port that is not buffering. -/
theorem onPortAccepted_oops (h : Refines η (s.commit ν) N) (hx : N.Used x) (hn : η.home x = ν.name)
    (hk : ¬N.Buffering x) : ∃ failure, (ν.onPortAccepted (η.name x)).1 = ν.oops failure := by
  have hm := h.lookup hx hn
  cases hport : ν.getPort (η.name x) with
  | none =>
    refine ⟨.acceptedPortUnknown, ?_⟩
    simp only [Node.onPortAccepted, hport]
  | some port =>
    rw [hport] at hm
    obtain ⟨a, ha, hm⟩ := hm
    have hstate : port.state ≠ .buffering := fun hs =>
      hk ⟨a, ha, Kind.state_eq_buffering.1 (hm.state.symm.trans hs)⟩
    refine ⟨.acceptedPortStateUnexpected, ?_⟩
    simp only [Node.onPortAccepted, hport, if_pos hstate]

/-- `OnObserveProxyAck`, on a port that is not a proxy. -/
theorem onObserveProxyAck_oops {last : UInt64} (h : Refines η (s.commit ν) N) (hx : N.Used x)
    (hn : η.home x = ν.name) (hk : ¬N.Due (.ack x last)) :
    ∃ failure, (ν.onObserveProxyAck (η.name x) last).1 = ν.oops failure := by
  have hm := h.lookup hx hn
  cases hport : ν.getPort (η.name x) with
  | none =>
    rw [hport] at hm
    exact absurd (fun a ha hne => absurd (hm a ha) hne) hk
  | some port =>
    rw [hport] at hm
    obtain ⟨a, ha, hm⟩ := hm
    have hstate : port.state ≠ .proxying := by
      intro hs
      refine hk fun b hb _ => ?_
      obtain rfl : a = b := Option.some.inj (ha.symm.trans hb)
      exact Kind.state_eq_proxying.1 (hm.state.symm.trans hs)
    refine ⟨.ackedPortStateUnexpected, ?_⟩
    simp only [Node.onObserveProxyAck, hport, if_pos hstate]

/-- A message in flight is taken out. -/
theorem takeLetter (h : Refines η s N) {l : Net.Letter α} {L : Multiset (Net.Letter α)}
    (hL : N.letters = l ::ₘ L) (hq : l.queued = false) {flight : List (NodeName × Event α)}
    (hf : (flight : Multiset _) = η.flight (N.withLetters L)) :
    Refines η { s with inFlight := flight } (N.withLetters L) :=
  { h with
    port := fun y hy => by
      refine (h.port y hy).congr rfl rfl rfl rfl (fun _ _ _ => rfl) (congrArg _ ?_)
      rw [Net.queue, Net.queue, hL, Multiset.filter_cons_of_neg _ (by simp [hq])]
      rfl
    flight := hf
    homes := fun l' hl' => h.homes l' (hL ▸ Multiset.mem_cons_of_mem hl') }

end Refines

theorem Handled.simulates {ev : Net.Event} {ν' : Node α} (h : Handled strict η s ν N ev ν')
    (w : N.Shape) (c : N.Cargo) (hcl : ν.delegate.closed = [])
    (hheld : (s.held : Multiset _) = N.held.map fun e => (η.home (e, N.len e), η.name (e, N.len e)))
    (hoops : ν.delegate.oops = []) :
    ∃ N₁ κ M, Net.Step N (.event ev) N₁ ∧ Net.Run strict N₁ M ∧ Agree N κ η ∧
      Simulates κ (s.commit ν') M ∧ (s.commit ν').oops = s.oops := by
  obtain ⟨N₁, κ, M, hstep, hcall⟩ := h
  obtain ⟨hh, hl⟩ := hstep.event_fields
  have hag : Agree N κ η := fun y hy =>
    hcall.agree y (hy.mono hstep.pipes_le hstep.len_le)
  refine ⟨N₁, κ, M, hstep, hcall.run, hag, ?_, System.oops_commit (hcall.oops.trans hoops)⟩
  exact hcall.simulates (w.step c hstep) (c.step w hstep) hcl (by rw [hh, hl, hheld])

namespace Simulates

/-- `AcceptMessage`, of an event in flight. -/
theorem acceptMessage (h : Simulates η s N) (w : N.Shape) (c : N.Cargo) {i : ℕ} {n : NodeName}
    {event : Event α} (hi : s.inFlight[i]? = some (n, event))
    (hkeeps : strict → (s.node n).Keeps event) :
    (∃ ev N₁ κ M, η.event ev = (n, event) ∧ Net.Step N (.event ev) N₁ ∧ Net.Run strict N₁ M ∧
      Agree N κ η ∧
      Simulates κ ({ s with inFlight := s.inFlight.eraseIdx i }.deliver n event) M ∧
      ({ s with inFlight := s.inFlight.eraseIdx i }.deliver n event).oops = s.oops) ∨
    (∃ κ M, Relation.TransGen (Net.Work strict) N M ∧ Agree N κ η ∧
      Simulates κ ({ s with inFlight := s.inFlight.eraseIdx i }.deliver n event) M ∧
      ({ s with inFlight := s.inFlight.eraseIdx i }.deliver n event).oops = s.oops) ∨
    ∃ ev E, N.events = ev ::ₘ E ∧ ¬N.Due ev ∧
      Simulates η ({ s with inFlight := s.inFlight.eraseIdx i }.deliver n event) (N.withEvents E) := by
  obtain ⟨hlt, hget⟩ := List.getElem?_eq_some_iff.1 hi
  have hperm : (s.inFlight : Multiset _) = (n, event) ::ₘ ↑(s.inFlight.eraseIdx i) := by
    rw [Multiset.cons_coe, ← hget]
    exact Multiset.coe_eq_coe.2 (List.getElem_cons_eraseIdx_perm hlt).symm
  have hflight := h.refines.flight
  rw [hperm] at hflight
  have hmem : (n, event) ∈ η.flight N := hflight ▸ Multiset.mem_cons_self ..
  set s₀ : System α := { s with inFlight := s.inFlight.eraseIdx i } with hs₀
  have hname : (s₀.start n).name = n := h.refines.nodeName n
  -- What is delivered is an event of the net, or a letter.
  rcases Names.mem_flight hmem with ⟨ev, E, hE, hev, hfl⟩ | ⟨l, L, hL, hlq, hev, hfl⟩
  · rw [hfl] at hflight
    have hr := (h.refines.withEvents ((Multiset.cons_inj_right _).1 hflight)).start n
    have hplaced : N.Placed ev := w.events ev (hE ▸ Multiset.mem_cons_self ..)
    have hdone : Handled strict η s₀ (s₀.start n) N ev ((s₀.start n).acceptMessage event).1 →
        ∃ ev N₁ κ M, η.event ev = (n, event) ∧ Net.Step N (.event ev) N₁ ∧ Net.Run strict N₁ M ∧
          Agree N κ η ∧ Simulates κ (s₀.deliver n event) M ∧
          (s₀.deliver n event).oops = s.oops := by
      intro hh
      obtain ⟨N₁, κ, M, h1, h2, h3, h4⟩ := hh.simulates w c rfl h.held rfl
      exact ⟨ev, N₁, κ, M, hev, h1, h2, h3, h4⟩
    have hfail : ∀ failure, ((s₀.start n).acceptMessage event).1 = (s₀.start n).oops failure →
        ¬N.Due ev → ∃ ev E, N.events = ev ::ₘ E ∧ ¬N.Due ev ∧
          Simulates η (s₀.deliver n event) (N.withEvents E) := by
      intro failure hacc hdue
      refine ⟨ev, E, hE, hdue, ?_, ?_⟩
      · rw [System.deliver, hacc]
        exact hr.oops failure
      · rw [System.deliver, hacc, System.held_commit rfl]
        exact h.held
    cases ev with
    | accepted x =>
      obtain ⟨rfl, rfl⟩ := Prod.mk.inj hev
      -- An event that its place does not expect fails an assertion, and is dropped.
      by_cases hb : N.Buffering x
      · obtain ⟨a, hx, hk⟩ := hb
        exact .inl (hdone (hr.onPortAccepted w c hE hx hk hname.symm rfl hkeeps))
      · obtain ⟨failure, hacc⟩ := hr.onPortAccepted_oops hplaced.used hname.symm hb
        exact .inr (.inr (hfail failure hacc hb))
    | proxy d x =>
      obtain ⟨rfl, rfl⟩ := Prod.mk.inj hev
      exact .inl (hdone (hr.onObserveProxy w c hE hname.symm))
    | ack x last =>
      obtain ⟨rfl, rfl⟩ := Prod.mk.inj hev
      -- Likewise an ack at a port that is not a proxy.
      by_cases hd : N.Due (.ack x last)
      · exact .inl (hdone (hr.onObserveProxyAck w c hE hname.symm hd hkeeps))
      · obtain ⟨failure, hacc⟩ := hr.onObserveProxyAck_oops hplaced.used hname.symm hd
        exact .inr (.inr (hfail failure hacc hd))
    | closure x last =>
      obtain ⟨rfl, rfl⟩ := Prod.mk.inj hev
      exact .inl (hdone (hr.onObserveClosure w c hE hname.symm hkeeps))
  · rw [hfl] at hflight
    have hr := (h.refines.takeLetter hL hlq ((Multiset.cons_inj_right _).1 hflight)).start n
    obtain ⟨rfl, rfl⟩ := Prod.mk.inj hev
    obtain ⟨κ, M, htrans, hcall, -⟩ := hr.onUserMessage strict w c hL hlq hname.symm
      (h.refines.homes l (hL ▸ Multiset.mem_cons_self l L)) rfl hkeeps
    exact .inr (.inl ⟨κ, M, htrans, hcall.agree, hcall.simulates w c rfl h.held,
      System.oops_commit hcall.oops⟩)

end Simulates

/-! ## Runs -/

/-- The invariants of the net. The numbers are right as long as they do not wrap. -/
structure Net.Sound (N : Net α) : Prop where
  shape : N.Shape
  cargo : N.Cargo
  ring : N.Ring
  sequence : N.Small → ∃ lim, N.Sequence lim

namespace Net.Sound

theorem init : (Net.init : Net α).Sound :=
  ⟨.init, .init, .init, fun _ => ⟨fun _ => 0, .init⟩⟩

theorem step (h : N.Sound) {t : Net.Label} (hs : Net.Step N t M) : M.Sound where
  shape := h.shape.step h.cargo hs
  cargo := h.cargo.step h.shape hs
  ring := h.ring.step h.shape h.cargo hs
  sequence hsmall := by
    obtain ⟨lim, hseq⟩ := h.sequence (hs.small hsmall)
    exact hseq.step h.ring h.shape h.cargo hs hsmall

theorem run (h : N.Sound) (hr : Net.Run strict N M) : M.Sound := by
  induction hr with
  | refl => exact h
  | tail _ hw ih =>
    obtain ⟨t, hs⟩ := hw.step
    exact ih.step hs

theorem due (h : N.Sound) {ev : Net.Event} (hev : ev ∈ N.events) : N.Due ev := by
  have hok := h.ring.events ev hev
  cases ev with
  | accepted x => exact hok.1
  | ack x last => exact fun a ha _ => hok.1.2 a ha
  | proxy d x => trivial
  | closure d last => trivial

end Net.Sound

/-- An action removes no proxy that leaves ports behind. -/
def System.Keeps (s : System α) : Action α → Prop
  | .acceptMessage i => ∀ n event, s.inFlight[i]? = some (n, event) → (s.node n).Keeps event
  | .sendMessage n p _ ports => ∀ port peer m, (s.node n).getPort p = some port →
      port.peerNodeName = n → (s.node n).getPort port.peerPortName = some peer →
      peer.state = .proxying → m.sequenceNum = port.nextSequenceNumToSend →
      (m.ports = [] ↔ ports = []) →
      { peer with messageQueue := (peer.messageQueue.acceptMessage m).1 }.Clean
  | _ => True

/-- What an action is in the net: what the embedder does or the event that a node is
    given, if there is one, and then what the node does on its own. -/
def Moves (strict : Prop) (η : Names) (s : System α) (act : Action α) (N M : Net α) : Prop :=
  ∃ N₁, (N₁ = N ∨ Net.Step N .embedder N₁ ∨ ∃ i ev, act = .acceptMessage i ∧
    s.inFlight[i]? = some (η.event ev) ∧ Net.Step N (.event ev) N₁) ∧ Net.Run strict N₁ M

theorem Moves.sound {act : Action α} (hm : Moves strict η s act N M) (h : N.Sound) : M.Sound := by
  obtain ⟨N₁, hfirst, hrun⟩ := hm
  rcases hfirst with rfl | hs | ⟨i, ev, -, -, hs⟩
  · exact h.run hrun
  · exact (h.step hs).run hrun
  · exact (h.step hs).run hrun

namespace Simulates

theorem init : Simulates ⟨fun _ => 0, fun _ => 0⟩ ({} : System α) Net.init where
  refines :=
    { lt := fun x hx => absurd hx.1 (Nat.not_lt_zero _)
      inj := fun x _ hx => absurd hx.1 (Nat.not_lt_zero _)
      endOf := fun x hx => absurd hx.1 (Nat.not_lt_zero _)
      named := fun n p port hp => by cases hp
      port := fun x hx => absurd hx.1 (Nat.not_lt_zero _)
      flight := rfl
      homes := fun l hl => absurd hl (Multiset.notMem_zero l)
      nodeName := fun _ => rfl
      pipes := rfl
      closed := rfl
      sent := rfl
      returned := rfl }
  held := rfl

/-- An action is a run of the net, unless a connection is lost, or an assertion fails
    at the event that a node is given. -/
theorem step_lossy (h : Simulates η s N) (w : N.Shape) (c : N.Cargo) {act : Action α}
    (hG : s.Lossy act) (hkeeps : strict → s.Keeps act) {s' : System α}
    (hs : s.step act = some s') :
    ((∃ κ M, Moves strict η s act N M ∧ Simulates κ s' M) ∧ s'.oops = []) ∨
    (∃ n lost, act = .lostConnectionToNode n lost ∧
      Simulates η s' (N.lose (η.Cut N n lost))) ∨
    ∃ ev E, N.events = ev ::ₘ E ∧ ¬N.Due ev ∧ Simulates η s' (N.withEvents E) := by
  rw [System.step.eq_def] at hs
  split_ifs at hs with hoops
  rw [not_not] at hoops
  cases act with
  | createPortPair n =>
    obtain ⟨⟨κ, hκ⟩, ho⟩ := h.createPortPair w c n
    obtain rfl := Option.some.inj hs
    exact .inl ⟨⟨κ, N.create, ⟨_, .inr (.inl .create), .refl⟩, hκ⟩, ho.trans hoops⟩
  | connect n₀ n₁ =>
    obtain ⟨⟨κ, hκ⟩, ho⟩ := h.connect w c n₀ n₁
    obtain rfl := Option.some.inj hs
    exact .inl ⟨⟨κ, N.create, ⟨_, .inr (.inl .create), .refl⟩, hκ⟩, ho.trans hoops⟩
  | sendMessage n p payload ports =>
    obtain ⟨hp, hports, hnd⟩ := hG
    obtain ⟨N₁, κ, M, hfirst, hrun, hκ, ho⟩ := h.sendMessage w c hp hports hnd payload hkeeps
    obtain rfl := Option.some.inj hs
    exact .inl ⟨⟨κ, M, ⟨N₁, hfirst.imp_right fun hs => .inl hs.1, hrun⟩, hκ⟩, ho.trans hoops⟩
  | getMessageIf n p selector =>
    obtain ⟨⟨M, hfirst, hM⟩, ho⟩ := h.getMessageIf w c hG selector
    obtain rfl := Option.some.inj hs
    exact .inl ⟨⟨η, M, ⟨M, hfirst.imp_right .inl, .refl⟩, hM⟩, ho.trans hoops⟩
  | closePort n p =>
    obtain ⟨M, hrun, hM, ho⟩ := h.closePort strict w c hG
    obtain rfl := Option.some.inj hs
    exact .inl ⟨⟨η, M, ⟨N, .inl rfl, hrun⟩, hM⟩, ho.trans hoops⟩
  | acceptMessage i =>
    simp only at hs
    cases hi : s.inFlight[i]? with
    | none =>
      rw [hi] at hs
      cases hs
    | some y =>
      obtain ⟨n, event⟩ := y
      rw [hi] at hs
      obtain rfl := Option.some.inj hs
      -- An event that is due, a user message, and an event that fails an assertion.
      rcases h.acceptMessage w c hi (fun hst => hkeeps hst n event hi) with
        ⟨ev, N₁, κ, M, hev, hfirst, hrun, -, hκ, ho⟩ | ⟨κ, M, htrans, -, hκ, ho⟩ | hdue
      · exact .inl ⟨⟨κ, M, ⟨N₁, .inr (.inr ⟨i, ev, rfl, hev ▸ hi, hfirst⟩), hrun⟩, hκ⟩,
          ho.trans hoops⟩
      · exact .inl ⟨⟨κ, M, ⟨N, .inl rfl, htrans.to_reflTransGen⟩, hκ⟩, ho.trans hoops⟩
      · exact .inr (.inr hdue)
  | lostConnectionToNode n lost =>
    obtain rfl := Option.some.inj hs
    exact .inr (.inl ⟨n, lost, rfl, (h.lostConnectionToNode c n lost).1⟩)

/-- An honest action is a run of the net. -/
theorem step (h : Simulates η s N) (hN : N.Sound) {act : Action α} (hG : s.Honest act)
    {s' : System α} (hs : s.step act = some s') :
    (∃ κ M, Moves False η s act N M ∧ Simulates κ s' M) ∧ s'.oops = [] := by
  rcases h.step_lossy hN.shape hN.cargo (System.lossy_of_honest hG) False.elim hs with
    hrun | ⟨n, lost, rfl, -⟩ | ⟨ev, E, hE, hdue, -⟩
  · exact hrun
  · exact hG.elim
  · exact absurd (hN.due (hE ▸ Multiset.mem_cons_self ..)) hdue

end Simulates

/-- An invariant of the runs of the net, under a guard of the actions of a system. -/
theorem System.Reachable.simulates {G : System α → Action α → Prop}
    (hG : ∀ s act, G s act → s.Honest act) (I : Net α → Prop) (hinit : I Net.init)
    (hstep : ∀ {η s N M act}, Simulates η s N → N.Sound → I N → G s act →
      Moves False η s act N M → I M) (hs : Reachable G s) :
    (∃ η N, Simulates η s N ∧ N.Sound ∧ I N) ∧ s.oops = [] := by
  induction hs with
  | init => exact ⟨⟨_, _, .init, .init, hinit⟩, rfl⟩
  | step _ hact hs ih =>
    obtain ⟨⟨η, N, h, hN, hI⟩, -⟩ := ih
    obtain ⟨⟨κ, M, hmoves, hM⟩, ho⟩ := h.step hN (hG _ _ hact) hs
    exact ⟨⟨κ, M, hM, hmoves.sound hN, hstep h hN hI hact hmoves⟩, ho⟩

/-! ## Ports, events and messages -/

namespace Simulates

/-- The numbers are right as long as few messages were sent. -/
theorem sequence (h : Simulates η s N) (hN : N.Sound)
    (hsmall : ∀ e, (s.sent e).length < 2 ^ 64 - 1) : ∃ lim, N.Sequence lim := by
  refine hN.sequence fun e => ?_
  have := hsmall e
  rw [h.refines.sent] at this
  omega

/-- The port at a place, on its node. -/
theorem getPort (h : Simulates η s N) (w : N.Shape) (hx : N.port x = some a)
    (hk : a.kind ≠ .transit) :
    ∃ port, (s.node (η.home x)).getPort (η.name x) = some port ∧ PortMatch η N x a port := by
  have hm := h.refines.port x (w.used hx)
  cases hport : (s.node (η.home x)).getPort (η.name x) with
  | none =>
    rw [hport] at hm
    exact absurd (hm a hx) hk
  | some port =>
    rw [hport] at hm
    obtain ⟨b, hb, hm⟩ := hm
    obtain rfl : a = b := Option.some.inj (hx.symm.trans hb)
    exact ⟨port, rfl, hm⟩

/-- The place of a port of a node. -/
theorem exists_place (h : Simulates η s N) {n : NodeName} {p : PortName} {port : Port α}
    (hport : (s.node n).getPort p = some port) :
    ∃ x a, N.port x = some a ∧ η.home x = n ∧ η.name x = p ∧ PortMatch η N x a port := by
  obtain ⟨x, hx, rfl, rfl⟩ := h.refines.named n p port hport
  have hm := h.refines.port x hx
  rw [hport] at hm
  obtain ⟨a, ha, hm⟩ := hm
  exact ⟨x, a, ha, rfl, rfl, hm⟩

theorem mem_inFlight_iff (h : Simulates η s N) {y : NodeName × Event α} :
    y ∈ s.inFlight ↔ y ∈ η.flight N := by
  rw [← h.refines.flight, Multiset.mem_coe]

/-- A user message in flight. -/
theorem exists_letter (h : Simulates η s N) {n : NodeName} {m : Message α}
    (hm : (n, .user m) ∈ s.inFlight) :
    ∃ l ∈ N.letters, l.queued = false ∧ η.home l.place = n ∧ η.message N l = m := by
  rcases Names.mem_flight (h.mem_inFlight_iff.1 hm) with
    ⟨ev, -, -, hev, -⟩ | ⟨l, L, hL, hq, hl, -⟩
  · cases ev <;> cases (Prod.mk.inj hev).2
  · obtain ⟨h1, h2⟩ := Prod.mk.inj hl
    exact ⟨l, hL ▸ Multiset.mem_cons_self l L, hq, h1, Event.user.inj h2⟩

/-- An internal event in flight. -/
theorem exists_event (h : Simulates η s N) {n : NodeName} {event : Event α}
    (hm : (n, event) ∈ s.inFlight) (hne : ∀ m, event ≠ .user m) :
    ∃ ev ∈ N.events, η.event ev = (n, event) := by
  rcases Names.mem_flight (h.mem_inFlight_iff.1 hm) with
    ⟨ev, E, hE, hev, -⟩ | ⟨l, L, hL, hq, hl, -⟩
  · exact ⟨ev, hE ▸ Multiset.mem_cons_self ev E, hev⟩
  · exact absurd (Prod.mk.inj hl).2.symm (hne _)

/-- A message of a queue. -/
theorem exists_queued {port : Port α} (hm : PortMatch η N x a port) {m : Message α}
    (hmem : m ∈ port.messageQueue.heap) :
    ∃ l ∈ N.letters, l.queued = true ∧ l.place = x ∧ η.entry N l = m.entry := by
  have hentry : m.entry ∈ (port.messageQueue.heap.map Message.entry : Multiset _) :=
    List.mem_map_of_mem hmem
  rw [hm.queue] at hentry
  obtain ⟨l, hl, hle⟩ := Multiset.mem_map.1 hentry
  obtain ⟨hl, hq, hlx⟩ := Multiset.mem_filter.1 hl
  exact ⟨l, hl, hq, hlx, hle⟩

end Simulates

end MojoEdk.Ports
