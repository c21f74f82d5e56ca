import MojoEdk.Ports.Eager
import MojoEdk.Ports.Net.Collapse
import MojoEdk.Ports.Retry
import MojoEdk.Ports.Routing

/-!
# Closed pipes leave nothing behind

When all ends are closed and nothing is in flight any more, no port of the pipes is left
(`System.Reachable.canShutdownCleanly`): a proxy that expects no message goes, a proxy that
expects one has something on its way to it, and every proxy is told that it is to go
(`Net.Tended`).

The number of the last message, with which a proxy is acknowledged, may be the one that asks
the proxy to announce itself again, `kInvalidSequenceNum`. The proxy is skipped then, and
nobody tells it to go (`System.Reachable.not_canShutdownCleanly`).
-/

namespace MojoEdk.Ports

variable {α : Type*} {η : Names} {s s' : System α} {N M : Net α} {x : Place} {a : Net.Port} {e : End}
  {lim : Place → ℕ}

/-! ## Chains with nothing in flight -/

namespace Net

/-- No proxy has its next message in the queue. -/
def Idle (N : Net α) : Prop := ∀ x a, N.port x = some a → a.kind = .proxying →
  ∀ l ∈ N.letters, l.queued = true → l.place = x → l.number ≠ a.next

namespace Sequence

/-- No message stays in the first places of a chain, if there are only proxies there that
    forward. -/
theorem le_place (s : N.Sequence lim) (hidle : N.Idle) {n : ℕ}
    (hproxy : ∀ l ∈ N.letters, l.place.1 = e → l.place.2 < n →
      l.queued = true ∧ ∃ a, N.port l.place = some a ∧ a.kind = .proxying) :
    ∀ l ∈ N.letters, l.place.1 = e → n ≤ l.place.2 := by
  intro l hl hle
  by_contra hlt
  rw [not_le] at hlt
  -- Of all these messages, take the one that is first in the chain.
  induction hi : l.place.2 using Nat.strong_induction_on generalizing l with
  | _ i ih =>
    obtain ⟨-, a, ha, hk⟩ := hproxy l hl hle hlt
    obtain ⟨-, -, hwindow, -⟩ := s.port _ a ha
    obtain ⟨hnext, hbound⟩ := (hwindow _).1 ⟨l, hl, rfl, le_rfl, rfl⟩
    obtain ⟨l', hl', hle', hpos', hnumber⟩ := (hwindow _).2 ⟨le_rfl, hnext.trans hbound⟩
    have hlt' : l'.place.2 < n := hpos'.trans_lt hlt
    obtain ⟨hq', -⟩ := hproxy l' hl' (hle'.trans hle) hlt'
    rcases hpos'.lt_or_eq with hpos' | hpos'
    · exact ih _ (hi ▸ hpos') l' hl' (hle'.trans hle) hlt' rfl
    · exact hidle _ a ha hk l' hl' hq' (Prod.ext hle' hpos') (UInt64.toNat_inj.1 hnumber)

/-- A proxy that is to go, and to which no message is on its way, goes. -/
theorem remove_eq_false (s : N.Sequence lim) (hswept : N.Swept) (hx : N.port x = some a)
    (hk : a.kind = .proxying) (hletters : ∀ l ∈ N.letters, l.place.1 = x.1 → x.2 < l.place.2) :
    a.remove = false := by
  by_contra hremove
  rw [Bool.not_eq_false] at hremove
  obtain ⟨hpos, hnext, hwindow, hlast⟩ := s.port x a hx
  have hcan := hswept x a hx hk hremove
  have hbound := hlast (.inr hremove)
  have hle : N.bound lim x < a.next.toNat := by
    by_contra hle
    obtain ⟨l, hl, hlx, hpos, -⟩ := (hwindow _).2 ⟨le_rfl, not_lt.1 hle⟩
    exact absurd (hletters l hl hlx) (not_lt.2 hpos)
  -- The last message is the one before the next.
  have heq : a.last = a.next - 1 := by
    rw [← UInt64.toNat_inj, UInt64.toNat_sub_one hpos]
    omega
  simp [Port.canAccept, hremove, heq] at hcan

end Sequence

/-- Nothing is in flight, and the proxies have forwarded what they could. -/
structure Still (N : Net α) : Prop where
  tended : N.Tended
  carried : N.Carried
  swept : N.Swept
  idle : N.Idle
  events : N.events = 0
  queued : ∀ l ∈ N.letters, l.queued = true

namespace Still

theorem notMem_events (h : N.Still) {ev : Event} : ev ∉ N.events := by
  rw [h.events]
  exact Multiset.notMem_zero ev

theorem kind_ne_transit (h : N.Still) (w : N.Shape) (hx : N.port x = some a) :
    a.kind ≠ .transit := by
  intro hk
  have hlive : N.IsLive x.1 .transit := ⟨a, (w.live hx (by simp [hk])).1 ▸ hx, hk⟩
  obtain ⟨l, hl, hq, -⟩ := h.carried x.1 hlive
  rw [h.queued l hl] at hq
  cases hq

theorem kind_ne_buffering (h : N.Still) (w : N.Shape) (hx : N.port x = some a) :
    a.kind ≠ .buffering := by
  intro hk
  rcases h.tended.buffering x ⟨a, hx, hk⟩ with hev | ⟨b, hb, hbk⟩
  · exact h.notMem_events hev
  · exact h.kind_ne_transit w hb hbk

/-- The ports of a chain before the live one forward. -/
theorem kind_of_lt (h : N.Still) (w : N.Shape) (hx : N.port x = some a) (hlt : x.2 < N.len x.1) :
    a.kind = .proxying := by
  cases hk : a.kind with
  | transit => exact absurd hk (h.kind_ne_transit w hx)
  | receiving => exact absurd (w.live hx (by simp [hk])).1 hlt.ne
  | buffering => exact absurd hk (h.kind_ne_buffering w hx)
  | proxying => rfl

/-- All messages are at the ends of their chains. -/
theorem place_eq (h : N.Still) (w : N.Shape) (s : N.Sequence lim) {l : Letter α}
    (hl : l ∈ N.letters) : l.place.2 = N.len l.place.1 := by
  refine le_antisymm (w.letters l hl).2 ?_
  refine s.le_place (e := l.place.1) h.idle (fun l' hl' hle hlt => ?_) l hl rfl
  obtain ⟨b, hb, -⟩ := w.queued l' hl' (h.queued l' hl')
  exact ⟨h.queued l' hl', b, hb, h.kind_of_lt w hb (hle ▸ hlt)⟩

/-- A proxy that is there still was not told to go. -/
theorem remove_eq_false (h : N.Still) (w : N.Shape) (s : N.Sequence lim) (hx : N.port x = some a)
    (hk : a.kind = .proxying) : a.remove = false := by
  refine s.remove_eq_false h.swept hx hk fun l hl hle => ?_
  rw [h.place_eq w s hl, hle]
  exact w.proxy hx (by simp [hk])

/-- It was not skipped either. -/
theorem toward_le (h : N.Still) (w : N.Shape) (s : N.Sequence lim) (hx : N.port x = some a)
    (hk : a.kind = .proxying) : N.toward x.1.opp ≤ x.2 := by
  by_contra hlt
  obtain ⟨last, -, hev⟩ := h.tended.skipped x a hx hk (h.remove_eq_false w s hx hk) (not_le.1 hlt)
  exact h.notMem_events hev

/-- Nobody is to be told that the pipe is closed. -/
theorem not_closing (h : N.Still) (w : N.Shape) : ¬N.Closing x := by
  rintro (⟨-, last, hev⟩ | ⟨y, b, -, hb, hbk, -⟩)
  · exact h.notMem_events hev
  · exact h.kind_ne_buffering w hb hbk

/-- The other end is not closed, if a proxy is there still. -/
theorem closed_eq_false (h : N.Still) (w : N.Shape) (s : N.Sequence lim) (hx : N.port x = some a)
    (hk : a.kind = .proxying) : N.closed x.1.opp = false := by
  by_contra hclosed
  have huntold : N.Untold x := ⟨a, hx, h.remove_eq_false w s hx hk, by simp [hk]⟩
  obtain ⟨k, -, -, hclosing⟩ := h.tended.telling x.1 (N.toward x.1.opp) x.2
    (.inl ⟨Bool.eq_true_of_not_eq_false hclosed, rfl⟩) (h.toward_le w s hx hk) huntold
  exact h.not_closing w hclosing

/-- When nothing is in flight and no port receives, there is no port. -/
theorem port_eq_none (h : N.Still) (w : N.Shape) (s : N.Sequence lim)
    (hreceiving : ∀ x a, N.port x = some a → a.kind ≠ .receiving) (x : Place) :
    N.port x = none := by
  have hproxying : ∀ x a, N.port x = some a → a.kind = .proxying := by
    intro x a hx
    refine h.kind_of_lt w hx (w.proxy hx ?_)
    rw [Bool.eq_false_iff]
    intro hl
    cases hk : a.kind with
    | transit => exact h.kind_ne_transit w hx hk
    | receiving => exact hreceiving x a hx hk
    | buffering | proxying =>
      rw [hk] at hl
      cases hl
  by_contra hsome
  obtain ⟨a, hx⟩ := Option.ne_none_iff_exists'.1 hsome
  have hk := hproxying x a hx
  obtain ⟨b, hb⟩ := w.isOpen x.1.opp (w.pipe_lt hx) (h.closed_eq_false w s hx hk)
  have hlive := w.kind_live hb
  rw [hproxying _ b hb] at hlive
  cases hlive

end Still

end Net

/-! ## Runs -/

/-- A node that is given an event does not acknowledge a proxy with the number that asks it to
    announce itself again. -/
def Node.Acknowledges (ν : Node α) : Event α → Prop
  | .observeProxy p data => ∀ port ∈ ν.getPort p, port.state = .receiving →
      port.peerNodeName = data.proxyNodeName → port.peerPortName = data.proxyPortName →
        port.nextSequenceNumToSend - 1 ≠ kInvalidSequenceNum
  | _ => True

/-- An action acknowledges no proxy with the number that asks it to announce itself again. -/
def System.Acknowledges (s : System α) : Action α → Prop
  | .acceptMessage i => ∀ y ∈ s.inFlight[i]?, (s.node y.1).Acknowledges y.2
  | _ => True

instance (ν : Node α) (event : Event α) : Decidable (ν.Acknowledges event) :=
  match event with
  | .observeProxy p data => inferInstanceAs (Decidable (∀ port ∈ ν.getPort p,
      port.state = .receiving → port.peerNodeName = data.proxyNodeName →
        port.peerPortName = data.proxyPortName →
          port.nextSequenceNumToSend - 1 ≠ kInvalidSequenceNum))
  | .user _ | .portAccepted _ | .observeProxyAck _ _ | .observeClosure _ _ =>
    inferInstanceAs (Decidable True)

instance (s : System α) (act : Action α) : Decidable (s.Acknowledges act) :=
  match act with
  | .acceptMessage i =>
    inferInstanceAs (Decidable (∀ y ∈ s.inFlight[i]?, (s.node y.1).Acknowledges y.2))
  | .createPortPair _ | .connect _ _ | .sendMessage _ _ _ _ | .getMessageIf _ _ _ | .closePort _ _
  | .lostConnectionToNode _ _ => inferInstanceAs (Decidable True)

namespace Net.Tended

theorem step_of_ne (h : N.Tended) (hN : N.Sound) {t : Label} (hs : Step N t M)
    (hne : ∀ ev, t ≠ .event ev) : M.Tended :=
  h.step hN.ring hN.shape hN.cargo hs fun _ _ ht => absurd ht (hne _)

theorem run {strict : Prop} (h : N.Tended) (hN : N.Sound) (hr : Run strict N M) : M.Tended := by
  induction hr with
  | refl => exact h
  | tail hr hw ih =>
    have hsound := hN.run hr
    cases hw with
    | inner hs => exact ih.step_of_ne hsound hs (by simp)
    | remove hs _ => exact ih.step_of_ne hsound hs (by simp)

end Net.Tended

/-- The number a proxy is acknowledged with is not the one that asks it to announce itself
    again. -/
theorem Simulates.acknowledges (h : Simulates η s N) (w : N.Shape) {ev : Net.Event}
    (hack : (s.node (η.event ev : NodeName × Event α).1).Acknowledges (η.event ev).2)
    (hev : ev = .proxy (e, N.len e) (e.opp, N.toward e)) (ha : N.port (e, N.len e) = some a)
    (hk : a.kind = .receiving) : a.send - 1 ≠ kInvalidSequenceNum := by
  subst hev
  obtain ⟨port, hport, hm⟩ := h.getPort w ha (by simp [hk])
  have hpeer := Net.peer_live N e
  rw [← hm.send]
  refine hack port hport ?_ ?_ ?_
  · rw [hm.state, hk]
    rfl
  · rw [hm.peerNodeName, hpeer]
  · rw [hm.peerPortName, hpeer]

theorem Moves.tended {strict : Prop} {act : Action α} (hm : Moves strict η s act N M)
    (h : Simulates η s N) (hN : N.Sound) (hack : s.Acknowledges act) (ht : N.Tended) :
    M.Tended := by
  obtain ⟨N₁, hfirst, hrun⟩ := hm
  rcases hfirst with rfl | hs | ⟨i, ev, rfl, hi, hs⟩
  · exact ht.run hN hrun
  · exact (ht.step_of_ne hN hs (by simp)).run (hN.step hs) hrun
  · exact (ht.step hN.ring hN.shape hN.cargo hs fun e a hev =>
      h.acknowledges hN.shape (hack _ hi) (Net.Label.event.inj hev)).run (hN.step hs) hrun

theorem Simulates.idle (h : Simulates η s N) (w : N.Shape) (q : N.Sequence lim)
    (hs : s.Every fun _ port => port.Idle) : N.Idle := by
  intro x a hx hk l hl hq hlx hnumber
  obtain ⟨port, hport, hm⟩ := h.getPort w hx (by simp [hk])
  have hidle := hs _ _ port hport (by rw [hm.state, hk]; rfl)
  obtain ⟨m, hmem, hmn⟩ := hm.exists_sequenceNum hl hq hlx
  -- The first message of the queue is the next one: none has a lower number.
  rw [MessageQueue.hasNextMessage] at hidle
  split at hidle
  next hheap =>
    rw [hheap] at hmem
    cases hmem
  next m₀ heap hheap =>
    obtain ⟨l₀, hl₀, -, hlx₀, hentry⟩ := Simulates.exists_queued hm (m := m₀) (by simp [hheap])
    have hnumber₀ : l₀.number = m₀.sequenceNum := congrArg Prod.fst hentry
    have hnext := ((q.port x a hx).window _).1 ⟨l₀, hl₀, by rw [hlx₀], by rw [hlx₀], rfl⟩
    have hle : m₀.sequenceNum ≤ m.sequenceNum := by
      rw [hheap] at hmem
      rcases List.mem_cons.1 hmem with rfl | hmem
      · exact UInt64.le_refl _
      · exact (List.pairwise_cons.1 (hheap ▸ hm.sorted)).1 m hmem
    have heq : m₀.sequenceNum = a.next := by
      rw [hmn, hnumber] at hle
      rw [hnumber₀] at hnext
      exact UInt64.le_antisymm hle (UInt64.le_iff_toNat_le.2 hnext.1)
    rw [heq, hm.next, beq_self_eq_true] at hidle
    cases hidle

namespace System

/-- What lasts holds of all ports in the states that honest runs reach. -/
theorem Reachable.every {P : PortName → Port α → Prop} {G : System α → Action α → Prop}
    (hP : Lasting P) (hG : ∀ s act, G s act → s.Honest act) (h : Reachable G s) : s.Every P := by
  induction h with
  | init =>
    intro n p port hport
    cases hport
  | @step s s' act hs hact hstep ih =>
    refine ih.step hP hstep ?_
    exact ((hs.step hact hstep).simulates hG (fun _ => True) trivial fun _ _ _ _ _ => trivial).2

end System

namespace Simulates

/-- When nothing is in flight, the net is still. -/
theorem still (h : Simulates η s N) (hN : N.Sound) (q : N.Sequence lim)
    (hs : System.Reachable System.Honest s) (hcarried : N.Carried) (htended : N.Tended)
    (hflight : s.inFlight = []) : N.Still := by
  have hflight' : η.flight N = (0 : Multiset (NodeName × Event α)) := by
    rw [← h.refines.flight, hflight]
    rfl
  obtain ⟨hevents, hletters⟩ :=
    (add_eq_zero_iff_of_nonneg (Multiset.zero_le _) (Multiset.zero_le _)).1 hflight'
  refine ⟨htended, hcarried, h.swept hN.shape (hs.every Node.lasting_swept fun _ _ hG => hG),
    h.idle hN.shape q (hs.every Node.lasting_idle fun _ _ hG => hG), Multiset.map_eq_zero.1 hevents,
    fun l hl => ?_⟩
  by_contra hq
  have hmem : l ∈ N.letters.filter fun l => ¬l.queued = true := Multiset.mem_filter.2 ⟨hl, hq⟩
  rw [Multiset.map_eq_zero.1 hletters] at hmem
  exact Multiset.notMem_zero _ hmem

end Simulates

namespace System

/-- What makes proxies go away is on its way in every run in which no proxy is acknowledged with
    the number that asks it to announce itself again. -/
theorem Reachable.tended {G : System α → Action α → Prop}
    (hG : ∀ s act, G s act → s.Honest act ∧ s.Acknowledges act) (h : Reachable G s) :
    ∃ η N, Simulates η s N ∧ N.Sound ∧ N.Carried ∧ N.Tended :=
  (h.simulates (fun s act hact => (hG s act hact).1) (fun N => N.Carried ∧ N.Tended)
    ⟨fun e ⟨a, ha, _⟩ => (by cases ha), Net.Tended.init⟩
    fun hS hN hI hact hm => ⟨hm.carried hN hI.1, hm.tended hS hN (hG _ _ hact).2 hI.2⟩).1

/-- In every run in which no proxy is acknowledged with the number that asks it to announce
    itself again, and the numbers do not wrap, all nodes can shut down cleanly when nothing is in
    flight and no port receives. -/
theorem Reachable.canShutdownCleanly
    (h : Reachable (fun s act => s.Honest act ∧ s.Acknowledges act) s)
    (hsmall : ∀ e, (s.sent e).length < 2 ^ 64 - 1) (hflight : s.inFlight = [])
    (hreceiving : ∀ n p, ¬(s.node n).Receives p) (n : NodeName) :
    (s.node n).canShutdownCleanly false = true := by
  obtain ⟨η, N, hS, hN, hcarried, htended⟩ := h.tended fun _ _ hG => hG
  obtain ⟨lim, q⟩ := hS.sequence hN hsmall
  have hstill := hS.still hN q (h.mono fun _ _ hG => hG.1) hcarried htended hflight
  have hnone := hstill.port_eq_none hN.shape q fun x a hx hk => by
    obtain ⟨port, hport, hm⟩ := hS.getPort hN.shape hx (by simp [hk])
    exact hreceiving _ _ ⟨port, hport, by rw [hm.state, hk]; rfl⟩
  rw [Node.canShutdownCleanly, if_neg Bool.false_ne_true, List.isEmpty_iff]
  refine List.eq_nil_iff_forall_not_mem.2 fun y hy => ?_
  obtain ⟨x, a, hx, -⟩ := hS.exists_place (AList.mem_lookup_iff.2 hy : (s.node n).getPort y.1 = _)
  rw [hnone x] at hx
  cases hx

/-- When all ends are closed, no port receives. -/
theorem Reachable.not_receives {G : System α → Action α → Prop}
    (hG : ∀ s act, G s act → s.Honest act) (h : Reachable G s)
    (hclosed : ∀ i < s.pipes, ∀ side, s.closed ⟨i, side⟩ = true) (n : NodeName) (p : PortName) :
    ¬(s.node n).Receives p := by
  intro hp
  obtain ⟨⟨η, N, hS, hN, -⟩, -⟩ := h.simulates hG (fun _ => True) trivial
    fun _ _ _ _ _ => trivial
  obtain ⟨e, ⟨a, ha, -⟩, -⟩ := hS.exists_live hN hp
  have hc : N.closed e = true := by
    rw [← hS.refines.closed]
    exact hclosed _ (hS.refines.pipes ▸ hN.shape.pipe_lt ha) _
  rw [hN.shape.isClosed e hc] at ha
  cases ha

/-- A port is sent over another pipe, and all ends are closed before the proxy is gone. -/
theorem Reachable.canShutdownCleanly_closed : ∃ s : System ℕ,
    (Reachable (fun s act => s.Honest act ∧ s.Acknowledges act) s ∧
      (∀ e, (s.sent e).length < 2 ^ 64 - 1) ∧ s.inFlight = [] ∧
        ∀ n p, ¬(s.node n).Receives p) ∧
    (s.node 1).canShutdownCleanly false = true := by
  obtain ⟨s, hs, hlen, hflight, hclosed⟩ :=
    exists_reachable (G := fun s act => s.Honest act ∧ s.Acknowledges act) (α := ℕ)
      (P := fun s => s.inFlight = [] ∧ ∀ i < s.pipes, ∀ side, s.closed ⟨i, side⟩ = true)
      [.createPortPair 1, .connect 1 2, .sendMessage 1 3 0 [2], .acceptMessage 0, .closePort 1 1,
        .closePort 1 3, .closePort 2 4, .acceptMessage 0, .acceptMessage 0, .acceptMessage 0,
        .acceptMessage 0, .acceptMessage 0, .acceptMessage 0, .acceptMessage 0]
      (by decide +kernel)
  have hsmall : ∀ e, (s.sent e).length < 2 ^ 64 - 1 := fun e => (hlen e).trans_lt (by decide)
  have hreceiving := hs.not_receives (fun _ _ h => h.1) hclosed
  exact ⟨s, ⟨hs, hsmall, hflight, hreceiving⟩, hs.canShutdownCleanly hsmall hflight hreceiving 1⟩

/-- After 2 ^ 32 - 1 messages, a proxy announces itself again instead of waiting for the last
    message, and stays when all ends are closed. -/
theorem Reachable.not_canShutdownCleanly : ∃ s : System ℕ, Reachable Honest s ∧
    s.inFlight = [] ∧ (∀ n p, ¬(s.node n).Receives p) ∧
      (s.node 1).canShutdownCleanly false = false := by
  have hexec : ((counting 4294967295 4294967295 []).exec Honest [.connect 1 2,
      .sendMessage 1 3 0 [2], .acceptMessage 0, .acceptMessage 0, .acceptMessage 0,
      .acceptMessage 0, .acceptMessage 0, .closePort 1 1, .closePort 1 3, .closePort 2 4,
      .acceptMessage 0, .acceptMessage 0, .acceptMessage 0, .acceptMessage 0, .acceptMessage 0]).any
        (fun s => decide (s.inFlight = [] ∧
          (∀ i < s.pipes, ∀ side, s.closed ⟨i, side⟩ = true) ∧
            (s.node 1).canShutdownCleanly false = false)) = true := by
    decide +kernel
  obtain ⟨s, hs, hdecide⟩ := (Option.any_eq_true _ _).1 hexec
  obtain ⟨hflight, hclosed, hports⟩ := of_decide_eq_true hdecide
  have hreach := (reachable_counting _).exec hs
  exact ⟨s, hreach, hflight, hreach.not_receives (fun _ _ h => h) hclosed, hports⟩

end System

end MojoEdk.Ports
