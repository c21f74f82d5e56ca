import MojoEdk.Ports.Collapse
import MojoEdk.Ports.Net.Measure

/-!
# Deliveries come to an end

Without calls of the embedder, only so many events can be delivered
(`System.Reachable.terminates`): what they cause is less to do each time (`Net.effort`). The
loop of `AcceptIncomingMessages` thus ends.

Two things must not happen for that. A proxy must not be acknowledged with the number that asks
it to announce itself again, as then no port skips it, and its announcement goes round for ever.
And no port must be sent to an end that it carries: of two ports sent over one another, each is
forwarded along the chain of the other one, which gets longer by that, and there is always
something in flight (`System.Reachable.tangled`, `System.Tangled.not_acc`).
-/

namespace MojoEdk.Ports

variable {α : Type*} {η : Names} {s s' : System α} {N M : Net α} {d e : End} {reach : End → ℕ}
  {n : NodeName} {i : ℕ} {act : Action α} {strict : Prop}

/-! ## What is left to do -/

namespace Net

/-- Only the embedder sends. -/
theorem Step.sent_eq {t : Label} (hs : Step N t M) (ht : t ≠ .embedder) : M.sent = N.sent := by
  cases hs with
  | create | send | get => exact absurd rfl ht
  | forward =>
    change (Net.transferAll _ _).sent = _
    rw [transferAll_sent]
    rfl
  | arrive | reject =>
    change (Net.acceptAll _ _).sent = _
    rw [acceptAll_sent]
  | _ => rfl

/-- What a node does on its own. -/
theorem Work.own (hw : Work strict N M) :
    ∃ t, t ≠ .embedder ∧ (∀ ev, t ≠ .event ev) ∧ Step N t M := by
  cases hw with
  | inner hs => exact ⟨.inner, nofun, nofun, hs⟩
  | @remove x hs _ => exact ⟨.remove x, nofun, nofun, hs⟩

theorem Run.sent_eq (hr : Run strict N M) : M.sent = N.sent := by
  induction hr with
  | refl => rfl
  | tail _ hw ih =>
    obtain ⟨t, ht, -, hs⟩ := hw.own
    exact (hs.sent_eq ht).trans ih

/-- A net in which deliveries come to an end. -/
structure Bounded (N : Net α) (reach : End → ℕ) : Prop where
  sound : N.Sound
  heard : N.Heard
  planned : N.Planned reach

namespace Bounded

theorem step (b : N.Bounded reach) {t : Label} (hs : Step N t M) (ht : t ≠ .embedder)
    (hnum : ∀ e a, t = .event (.proxy (e, N.len e) (e.opp, N.toward e)) →
      N.port (e, N.len e) = some a → a.kind = .receiving → a.send - 1 ≠ kInvalidSequenceNum) :
    M.Bounded reach ∧ M.effort reach < N.effort reach :=
  ⟨⟨b.sound.step hs, b.heard.step b.sound.ring b.sound.shape hs hnum,
    b.planned.step b.sound.shape b.sound.cargo hs ht⟩,
    effort_step b.planned b.heard b.sound.ring b.sound.shape hs ht⟩

theorem run (b : N.Bounded reach) (hr : Run strict N M) :
    M.Bounded reach ∧ M.effort reach ≤ N.effort reach := by
  induction hr with
  | refl => exact ⟨b, le_rfl⟩
  | tail _ hw ih =>
    obtain ⟨t, ht, hne, hs⟩ := hw.own
    obtain ⟨hb, hlt⟩ := ih.1.step hs ht fun _ _ hev => absurd hev (hne _)
    exact ⟨hb, hlt.le.trans ih.2⟩

end Bounded

theorem Planned.of_step (hN : N.Sound) (hsmall : M.Small) {t : Label} (hs : Step N t M)
    (ht : t ≠ .embedder) (h : ∃ reach, M.Planned reach) : ∃ reach, N.Planned reach := by
  obtain ⟨reach, h⟩ := h
  obtain ⟨lim, q⟩ := hN.sequence (hs.small hsmall)
  exact h.back q hN.ring hN.shape hN.cargo hs ht

/-- Nodes make up no plan on their own. -/
theorem Planned.of_run (hN : N.Sound) (hsmall : M.Small) (hr : Run strict N M)
    (h : ∃ reach, M.Planned reach) : ∃ reach, N.Planned reach := by
  induction hr with
  | refl => exact h
  | tail hr hw ih =>
    obtain ⟨t, ht, -, hs⟩ := hw.own
    exact ih (hs.small hsmall) (Planned.of_step (hN.run hr) hsmall hs ht h)

/-- When nothing is in flight, no chain gets longer. -/
theorem Still.planned (h : N.Still) (w : N.Shape) {lim : Place → ℕ} (q : N.Sequence lim) :
    N.Planned N.len := .of_arrived fun _ hl => h.place_eq w q hl

end Net

namespace System

/-- A message on its way to an end has a port of another end attached. -/
def Carries (s : System α) (d e : End) : Prop :=
  (∃ n m, (n, .user m) ∈ s.inFlight ∧ s.endOf m.portName = d ∧ ∃ q ∈ m.ports, s.endOf q = e) ∨
    ∃ n p port m, (s.node n).getPort p = some port ∧ m ∈ port.messageQueue.heap ∧
      s.endOf p = d ∧ ∃ q ∈ m.ports, s.endOf q = e

/-- No port is sent to an end that it carries, directly or nested. That goes for sends that are
    refused too: the peer is refused only after the ports attached before it are locked, and
    they stay locked, so that no event can be given to them any more. -/
def Untangled (s : System α) : Action α → Prop
  | .sendMessage _ p _ ports =>
    ∀ q ∈ ports, ¬Relation.ReflTransGen s.Carries (s.endOf q) (s.endOf p).opp
  | _ => True

/-- An event is delivered, and no proxy is acknowledged with the number that asks it to announce
    itself again. -/
def AcceptsMessage (s s' : System α) : Prop :=
  ∃ i, s.Acknowledges (.acceptMessage i) ∧ s.step (.acceptMessage i) = some s'

/-- The first event for a node is given to it. -/
def PumpsMessage (n : NodeName) (s s' : System α) : Prop :=
  ∃ i, s.inFlight.findIdx? (·.1 == n) = some i ∧ s.step (.acceptMessage i) = some s'

/-- `AcceptIncomingMessages`: the events for a node are given to it one after the other, also
    those that are sent meanwhile, until there is none. -/
def acceptIncomingMessages (n : NodeName) : ℕ → System α → Option (System α)
  | 0, _ => none
  | fuel + 1, s =>
    match s.inFlight.findIdx? (·.1 == n) with
    | none => some s
    | some i => (s.step (.acceptMessage i)).bind (acceptIncomingMessages n fuel)

end System

namespace Simulates

/-- The ends attached to the messages. -/
theorem carries_iff (h : Simulates η s N) (w : N.Shape) (c : N.Cargo) :
    s.Carries d e ↔ N.Carries d e := by
  have hplace : ∀ l ∈ N.letters, s.endOf (η.name l.place) = l.place.1 := fun l hl =>
    h.refines.endOf _ (w.letters l hl)
  have hlive : ∀ l ∈ N.letters, ∀ e ∈ l.ports, s.endOf (η.live N e) = e := fun l hl e he =>
    h.refines.endOf (e, N.len e) ⟨(c.letters l hl e he).pipe_lt w, le_rfl⟩
  constructor
  · rintro (⟨n, m, hm, rfl, q, hq, rfl⟩ | ⟨n, p, port, m, hport, hm, rfl, q, hq, rfl⟩)
    · obtain ⟨l, hl, -, -, rfl⟩ := h.exists_letter hm
      obtain ⟨f, hf, rfl⟩ := List.mem_map.1 hq
      exact ⟨l, hl, (hplace l hl).symm, (hlive l hl f hf).symm ▸ hf⟩
    · obtain ⟨x, a, hx, -, rfl, hmatch⟩ := h.exists_place hport
      obtain ⟨l, hl, -, rfl, hentry⟩ := exists_queued hmatch hm
      have hports : l.ports.map (η.live N) = m.ports := (Prod.mk.inj (Prod.mk.inj hentry).2).2
      rw [← hports] at hq
      obtain ⟨f, hf, rfl⟩ := List.mem_map.1 hq
      exact ⟨l, hl, (hplace l hl).symm, (hlive l hl f hf).symm ▸ hf⟩
  · rintro ⟨l, hl, rfl, he⟩
    cases hq : l.queued with
    | false =>
      obtain ⟨L, hL⟩ := Multiset.exists_cons_of_mem hl
      have hmem : (η.home l.place, Event.user (η.message N l)) ∈ s.inFlight := by
        rw [h.mem_inFlight_iff, Names.flight_take hL hq]
        exact Multiset.mem_cons_self ..
      exact .inl ⟨_, _, hmem, hplace l hl, η.live N e, List.mem_map_of_mem he, hlive l hl e he⟩
    | true =>
      obtain ⟨a, ha, hk⟩ := w.queued l hl hq
      obtain ⟨port, hport, hm⟩ := h.getPort w ha hk
      obtain ⟨m, hmem, hports⟩ := hm.exists_message (l := l) (Multiset.mem_filter.2 ⟨hl, hq, rfl⟩)
      exact .inr ⟨_, _, port, m, hport, hmem, hplace l hl, η.live N e,
        hports ▸ List.mem_map_of_mem he, hlive l hl e he⟩

theorem reaches_iff (h : Simulates η s N) (w : N.Shape) (c : N.Cargo) :
    Relation.ReflTransGen s.Carries d e ↔ N.Reaches d e :=
  ⟨Relation.ReflTransGen.mono (fun _ _ => (h.carries_iff w c).1) _ _,
    Relation.ReflTransGen.mono (fun _ _ => (h.carries_iff w c).2) _ _⟩

/-- A delivery is a step of the net and what the node does then on its own. -/
theorem deliver_step (h : Simulates η s N) (hN : N.Sound)
    (hs : s.step (.acceptMessage i) = some s') :
    ∃ t N₁ κ M, t ≠ .embedder ∧ Net.Step N t N₁ ∧
      (∀ ev, t = .event ev → s.inFlight[i]? = some (η.event ev)) ∧ Net.Run False N₁ M ∧
      Simulates κ s' M := by
  rw [System.step.eq_def] at hs
  split_ifs at hs with hoops
  simp only at hs
  split at hs
  next => cases hs
  next n event hi =>
    obtain rfl := Option.some.inj hs
    rcases h.acceptMessage hN.shape hN.cargo hi (@False.elim ((s.node n).Keeps event)) with
      ⟨ev, N₁, κ, M, hev, hstep, hrun, -, hM, -⟩ | ⟨κ, M, htrans, -, hM, -⟩ | ⟨ev, E, hE, hdue, -⟩
    · refine ⟨.event ev, N₁, κ, M, by simp, hstep, fun ev' heq => ?_, hrun, hM⟩
      rw [← Net.Label.event.inj heq, hev, hi]
    · obtain ⟨N₁, hwork, hrun⟩ := Relation.TransGen.head'_iff.1 htrans
      obtain ⟨t, ht, hne, hs⟩ := hwork.own
      exact ⟨t, N₁, κ, M, ht, hs, fun ev hev => absurd hev (hne ev), hrun, hM⟩
    · exact absurd (hN.due (hE ▸ Multiset.mem_cons_self ..)) hdue

/-- The number a proxy is acknowledged with, at a delivery. -/
theorem acknowledges_step (h : Simulates η s N) (w : N.Shape)
    (hack : s.Acknowledges (.acceptMessage i)) {t : Net.Label}
    (hi : ∀ ev, t = .event ev → s.inFlight[i]? = some (η.event ev)) (e : End) (a : Net.Port)
    (ht : t = .event (.proxy (e, N.len e) (e.opp, N.toward e)))
    (ha : N.port (e, N.len e) = some a) (hk : a.kind = .receiving) :
    a.send - 1 ≠ kInvalidSequenceNum := h.acknowledges w (hack _ (hi _ ht)) rfl ha hk

/-! ## Deliveries that end -/

/-- A delivery leaves less to do. -/
theorem deliver (h : Simulates η s N) (b : N.Bounded reach) (hs : s.AcceptsMessage s') :
    ∃ κ M, Simulates κ s' M ∧ M.Bounded reach ∧ M.effort reach < N.effort reach := by
  obtain ⟨i, hack, hs⟩ := hs
  obtain ⟨t, N₁, κ, M, ht, hstep, hi, hrun, hM⟩ := h.deliver_step b.sound hs
  obtain ⟨b₁, hlt⟩ := b.step hstep ht (h.acknowledges_step b.sound.shape hack hi)
  obtain ⟨b₂, hle⟩ := b₁.run hrun
  exact ⟨κ, M, hM, b₂, hle.trans_lt hlt⟩

/-- There are only so many deliveries. -/
theorem acc (h : Simulates η s N) (b : N.Bounded reach) :
    Acc (fun s' s : System α => s.AcceptsMessage s') s := by
  induction hm : N.effort reach using WellFoundedLT.induction generalizing η s N with
  | ind m ih =>
    refine .intro s fun s' hs => ?_
    obtain ⟨κ, M, hM, b', hlt⟩ := h.deliver b hs
    exact ih _ (hm ▸ hlt) hM b' rfl

/-- What the embedder does leaves a plan, if no port is sent to an end that it carries. -/
theorem bounded_step (h : Simulates η s N) (b : N.Bounded reach) (hhonest : s.Honest act)
    (hack : s.Acknowledges act) (hfree : s.Untangled act) (hs : s.step act = some s') :
    ∃ κ M reach', Simulates κ s' M ∧ M.Bounded reach' := by
  have w := b.sound.shape
  have c := b.sound.cargo
  -- The embedder does something, and the nodes what follows.
  have hfirst : ∀ {N₁ κ M}, (N₁ = N ∨ Net.Step N .embedder N₁ ∧ ∀ e f, N₁.sent e ≠ N.sent e →
      N₁.len f ≠ N.len f → ¬N.Reaches f e.opp) → Net.Run False N₁ M → Simulates κ s' M →
        ∃ κ M reach', Simulates κ s' M ∧ M.Bounded reach' := by
    rintro N₁ κ M (rfl | ⟨hstep, hfree⟩) hrun hM
    · exact ⟨κ, M, reach, hM, (b.run hrun).1⟩
    · obtain ⟨reach', hp⟩ := b.planned.embedder w c hstep hfree
      have b₁ : N₁.Bounded reach' :=
        ⟨b.sound.step hstep, b.heard.step b.sound.ring w hstep (by simp), hp⟩
      exact ⟨κ, M, reach', hM, (b₁.run hrun).1⟩
  have hsent : ∀ {N₁ κ M}, Net.Run False N₁ M → Simulates κ s' M → ∀ e, N₁.sent e ≠ N.sent e →
      s'.sent e ≠ s.sent e := by
    intro N₁ κ M hrun hM e hne
    rwa [hM.refines.sent, hrun.sent_eq, h.refines.sent]
  cases act with
  | acceptMessage i =>
    obtain ⟨κ, M, hM, b', -⟩ := h.deliver b ⟨i, hack, hs⟩
    exact ⟨κ, M, reach, hM, b'⟩
  | sendMessage n p payload ports =>
    obtain ⟨hp, hports, hnd⟩ := hhonest
    obtain ⟨N₁, κ, M, hor, hrun, hM, -⟩ := h.sendMessage w c hp hports hnd payload
      fun hstrict : False => hstrict.elim
    have hs' : s.sendMessage n p payload ports = s' := by
      rw [System.step.eq_def] at hs
      split_ifs at hs
      exact Option.some.inj hs
    rw [hs'] at hM
    refine hfirst (hor.imp_right fun hor => ⟨hor.1, fun e f he hf => ?_⟩) hrun hM
    obtain ⟨q, hq, rfl⟩ := (hor.2 f).1 hf
    have hne := hsent hrun hM e he
    rcases System.sent_step hs with heq | ⟨n', p', payload', ports', m, hact, heq⟩
    · exact absurd (congrFun heq e) hne
    · cases hact
      have hep : e = s.endOf p := by
        by_contra hep
        exact hne (heq ▸ Function.update_of_ne hep _ _)
      rw [hep]
      exact fun hr => hfree q hq ((h.reaches_iff w c).2 hr)
  | createPortPair | connect | getMessageIf | closePort =>
    obtain ⟨⟨κ, M, ⟨N₁, hor, hrun⟩, hM⟩, -⟩ := h.step b.sound hhonest hs
    refine hfirst ?_ hrun hM
    rcases hor with rfl | hstep | ⟨i, ev, hact, -⟩
    · exact .inl rfl
    · refine .inr ⟨hstep, fun e f he => absurd ?_ (hsent hrun hM e he)⟩
      rcases System.sent_step hs with heq | ⟨n', p', payload', ports', m, hact, -⟩
      · rw [heq]
      · cases hact
    · cases hact
  | lostConnectionToNode => exact hhonest.elim

/-! ## Deliveries that go on for ever -/

/-- A port that has sent few messages acknowledges no proxy with the number that asks it to
    announce itself again. -/
theorem acknowledges_of_few (h : Simulates η s N) (hN : N.Sound)
    (hfew : ∀ e, (s.sent e).length < 2 ^ 32 - 1) (i : ℕ) : s.Acknowledges (.acceptMessage i) := by
  obtain ⟨lim, q⟩ := h.sequence hN fun e => (hfew e).trans (by decide)
  rintro ⟨n, event⟩ -
  cases event with
  | observeProxy p data =>
    rintro port hport hstate - -
    obtain ⟨x, a, hx, -, -, hm⟩ := h.exists_place hport
    have hk : a.kind = .receiving := Kind.state_eq_receiving.1 (hm.state.symm.trans hstate)
    obtain ⟨e, j⟩ := x
    obtain rfl : j = N.len e := (hN.shape.live hx (by simp [hk])).1
    have hsend := q.send e a hx
    have hlen := hfew e
    rw [h.refines.sent] at hlen
    rw [hm.send, Node.sub_one_ne_kInvalidSequenceNum]
    intro heq
    rw [heq, show (2 ^ 32 : UInt64).toNat = 2 ^ 32 from rfl] at hsend
    omega
  | _ => trivial

end Simulates

namespace System

/-- There is no plan for what is in flight. -/
def Tangled (s : System α) : Prop :=
  Reachable Honest s ∧ (∀ e, (s.sent e).length < 2 ^ 32 - 1) ∧ ∃ η N, Simulates η s N ∧ N.Sound ∧
    N.Carried ∧ N.Tended ∧ ¬∃ reach, N.Planned reach

/-- Something is in flight then, and there is no plan after it is delivered. -/
theorem Tangled.step (h : s.Tangled) : ∃ s' : System α, s.AcceptsMessage s' ∧ s'.Tangled := by
  obtain ⟨hs, hfew, η, N, hS, hN, hcarried, htended, hplan⟩ := h
  have hsmall : ∀ e, (s.sent e).length < 2 ^ 64 - 1 := fun e => (hfew e).trans (by decide)
  obtain ⟨lim, q⟩ := hS.sequence hN hsmall
  have hack := hS.acknowledges_of_few hN hfew 0
  cases hflight : s.inFlight with
  | nil =>
    have hstill := hS.still hN q hs hcarried htended hflight
    exact absurd ⟨_, hstill.planned hN.shape q⟩ hplan
  | cons y flight =>
    have hoops : s.oops = [] := (hs.simulates (fun _ _ h => h) (fun _ => True) trivial
      fun _ _ _ _ _ => trivial).2
    have hstep : s.step (.acceptMessage 0) =
        some ({ s with inFlight := s.inFlight.eraseIdx 0 }.deliver y.1 y.2) := by
      rw [System.step, if_neg (not_not.2 hoops), hflight]
      rfl
    obtain ⟨t, N₁, κ, M, ht, hN₁, hi, hrun, hM⟩ := hS.deliver_step hN hstep
    have hsent : M.sent = N.sent := hrun.sent_eq.trans (hN₁.sent_eq ht)
    have hsmallM : M.Small := fun e => by
      have := hsmall e
      rw [hS.refines.sent, ← hsent] at this
      omega
    have hs' := hs.step (a := .acceptMessage 0) trivial hstep
    refine ⟨_, ⟨0, hack, hstep⟩, hs', fun e => ?_, κ, M, hM, (hN.step hN₁).run hrun,
      (hcarried.step hN.cargo hN₁).run (hN.step hN₁) hrun, ?_, fun hp => hplan ?_⟩
    · exact hfew e
    · exact (htended.step hN.ring hN.shape hN.cargo hN₁
        (hS.acknowledges_step hN.shape hack hi)).run (hN.step hN₁) hrun
    · refine Net.Planned.of_step hN (fun e => ?_) hN₁ ht
        (Net.Planned.of_run (hN.step hN₁) hsmallM hrun hp)
      exact hrun.sent_eq ▸ hsmallM e

theorem Tangled.not_acc (h : s.Tangled) : ¬Acc (fun s' s : System α => s.AcceptsMessage s') s := by
  intro hacc
  induction hacc with
  | intro s _ ih =>
    obtain ⟨s', hs', h'⟩ := h.step
    exact ih s' hs' h'

/-- A port is sent to an end that it carries. -/
theorem Reachable.tangled (h : Reachable (fun s act => s.Honest act ∧ s.Acknowledges act) s)
    {p : PortName} {payload : α} {ports : List PortName}
    (hhonest : s.Honest (.sendMessage n p payload ports))
    (htangled : ¬s.Untangled (.sendMessage n p payload ports))
    (hs : s.step (.sendMessage n p payload ports) = some s') (hsent : s'.sent ≠ s.sent)
    (hfew : ∀ e, (s'.sent e).length < 2 ^ 32 - 1) : s'.Tangled := by
  obtain ⟨η, N, hS, hN, hcarried, htended⟩ := h.tended fun _ _ hG => hG
  have w := hN.shape
  have c := hN.cargo
  simp only [Untangled, not_forall, not_not] at htangled
  obtain ⟨q, hq, hcycle⟩ := htangled
  obtain ⟨hp, hports, hnd⟩ := hhonest
  obtain ⟨N₁, κ, M, hor, hrun, hM, -⟩ := hS.sendMessage w c hp hports hnd payload
    fun hstrict : False => hstrict.elim
  have hs' : s.sendMessage n p payload ports = s' := by
    rw [System.step.eq_def] at hs
    split_ifs at hs
    exact Option.some.inj hs
  rw [hs'] at hM
  have hsentN : N₁.sent = s'.sent := by rw [hM.refines.sent, hrun.sent_eq]
  obtain ⟨hstep, hlen⟩ := hor.resolve_left fun heq =>
    hsent (by rw [← hsentN, heq, hS.refines.sent])
  refine ⟨(h.mono fun _ _ hG => hG.1).step (a := .sendMessage n p payload ports)
    ⟨hp, hports, hnd⟩ hs, hfew, κ, M, hM, (hN.step hstep).run hrun,
    (hcarried.step c hstep).run (hN.step hstep) hrun,
    (htended.step hN.ring w c hstep (by simp)).run (hN.step hstep) hrun, fun hplan => ?_⟩
  have hsmall : M.Small := fun e => by
    have := hfew e
    rw [hM.refines.sent] at this
    omega
  obtain ⟨reach, hplan⟩ := Net.Planned.of_run (hN.step hstep) hsmall hrun hplan
  refine Net.not_planned_embedder w c hstep (e := s.endOf p) ?_ ((hlen _).2 ⟨q, hq, rfl⟩)
    ((hS.reaches_iff w c).1 hcycle) hplan
  rw [hsentN, ← hS.refines.sent]
  rcases sent_step hs with heq | ⟨n', p', payload', ports', m, hact, heq⟩
  · exact absurd heq hsent
  · cases hact
    rw [heq, Function.update_self]
    simp

/-! ## Runs -/

theorem Reachable.bounded
    (h : Reachable (fun s act => s.Honest act ∧ s.Acknowledges act ∧ s.Untangled act) s) :
    ∃ η N reach, Simulates η s N ∧ N.Bounded reach := by
  induction h with
  | init => exact ⟨_, _, _, .init, .init, .init, .init⟩
  | step _ hact hs ih =>
    obtain ⟨η, N, reach, hS, b⟩ := ih
    exact hS.bounded_step b hact.1 hact.2.1 hact.2.2 hs

/-- The loop ends, if deliveries do. -/
theorem exists_acceptIncomingMessages (hs : Reachable Honest s)
    (hacc : Acc (fun s' s : System α => s.AcceptsMessage s') s)
    (hack : ∀ s' i, Relation.ReflTransGen (PumpsMessage n) s s' →
      s'.inFlight.findIdx? (·.1 == n) = some i → s'.Acknowledges (.acceptMessage i)) :
    ∃ fuel s', s.acceptIncomingMessages n fuel = some s' := by
  induction hacc with
  | intro s _ ih =>
    cases hi : s.inFlight.findIdx? (·.1 == n) with
    | none => exact ⟨1, s, by rw [acceptIncomingMessages, hi]⟩
    | some i =>
      have hoops : s.oops = [] := (hs.simulates (fun _ _ h => h) (fun _ => True) trivial
        fun _ _ _ _ _ => trivial).2
      obtain ⟨hlt, -, -⟩ := List.findIdx?_eq_some_iff_getElem.1 hi
      obtain ⟨s', hs'⟩ : ∃ s', s.step (.acceptMessage i) = some s' := by
        rw [System.step, if_neg (not_not.2 hoops), List.getElem?_eq_getElem hlt]
        exact ⟨_, rfl⟩
      have hpump : s.PumpsMessage n s' := ⟨i, hi, hs'⟩
      obtain ⟨fuel, t, ht⟩ := ih s' ⟨i, hack s i .refl hi, hs'⟩
        (hs.step (a := .acceptMessage i) trivial hs') fun t j hrun => hack t j (.head hpump hrun)
      refine ⟨fuel + 1, t, ?_⟩
      rw [acceptIncomingMessages, hi]
      change (s.step (.acceptMessage i)).bind _ = _
      rw [hs', Option.bind_some, ht]

/-- In every run in which no port is sent to an end that it carries, and no proxy is acknowledged
    with the number that asks it to announce itself again, there is no infinite sequence of
    deliveries, and the loop of `AcceptIncomingMessages` ends. -/
theorem Reachable.terminates
    (h : Reachable (fun s act => s.Honest act ∧ s.Acknowledges act ∧ s.Untangled act) s) :
    (¬∃ f : ℕ → System α, f 0 = s ∧ ∀ k, (f k).AcceptsMessage (f (k + 1))) ∧
      ∀ n, (∀ s' i, Relation.ReflTransGen (PumpsMessage n) s s' →
          s'.inFlight.findIdx? (·.1 == n) = some i → s'.Acknowledges (.acceptMessage i)) →
        ∃ fuel s', s.acceptIncomingMessages n fuel = some s' := by
  obtain ⟨η, N, reach, hS, b⟩ := h.bounded
  have hacc := hS.acc b
  refine ⟨fun hf => not_acc_iff_exists_descending_chain.2 hf hacc, fun n hack => ?_⟩
  exact exists_acceptIncomingMessages (h.mono fun _ _ hG => hG.1) hacc hack

/-- Ports are only sent to other ends, and to those that the embedder holds. -/
def SendsToHeld (s : System α) : Action α → Prop
  | .sendMessage _ p _ ports => ∀ q ∈ ports, s.endOf q ≠ (s.endOf p).opp ∧
      ∃ y ∈ s.held, s.endOf y.2 = (s.endOf p).opp
  | _ => True

instance (s : System α) (act : Action α) : Decidable (s.SendsToHeld act) :=
  match act with
  | .sendMessage _ p _ ports => inferInstanceAs (Decidable (∀ q ∈ ports,
      s.endOf q ≠ (s.endOf p).opp ∧ ∃ y ∈ s.held, s.endOf y.2 = (s.endOf p).opp))
  | .createPortPair _ | .connect _ _ | .getMessageIf _ _ _ | .closePort _ _ | .acceptMessage _
  | .lostConnectionToNode _ _ => inferInstanceAs (Decidable True)

end System

/-- An end that the embedder holds is not carried. -/
theorem Simulates.untangled (h : Simulates η s N) (w : N.Shape) (c : N.Cargo) (hs : s.SendsToHeld act) :
    s.Untangled act := by
  cases act with
  | sendMessage n p payload ports =>
    intro q hq hr
    obtain ⟨hne, ⟨n', r⟩, hy, hend⟩ := hs q hq
    rcases Relation.ReflTransGen.cases_tail hr with heq | ⟨d, -, hd⟩
    · exact hne heq.symm
    · obtain ⟨e, he, -, rfl⟩ := h.exists_of_mem_held hy
      have hlive : s.endOf (η.live N e) = e :=
        h.refines.endOf (e, N.len e) ⟨(c.held e he).pipe_lt w, le_rfl⟩
      obtain ⟨l, hl, -, hel⟩ := (h.carries_iff w c).1 hd
      rw [← hend] at hel
      change s.endOf (η.live N e) ∈ l.ports at hel
      rw [hlive] at hel
      exact Multiset.disjoint_left.1 (Multiset.nodup_add.1 c.nodup).2.2 he
        (Net.mem_attached.2 ⟨l, hl, hel⟩)
  | _ => trivial

namespace System

theorem Reachable.untangled
    (h : Reachable (fun s act => s.Honest act ∧ s.Acknowledges act ∧ s.SendsToHeld act) s) :
    Reachable (fun s act => s.Honest act ∧ s.Acknowledges act ∧ s.Untangled act) s := by
  induction h with
  | init => exact .init
  | step h hact hs ih =>
    obtain ⟨⟨η, N, hS, hN, -⟩, -⟩ := h.simulates (fun _ _ hG => hG.1) (fun _ => True) trivial
      fun _ _ _ _ _ => trivial
    exact ih.step ⟨hact.1, hact.2.1, hS.untangled hN.shape hN.cargo hact.2.2⟩ hs

/-- A port of a pair is sent over another pipe. -/
theorem Reachable.terminates_sent : ∃ s : System ℕ,
    (Reachable (fun s act => s.Honest act ∧ s.Acknowledges act ∧ s.Untangled act) s ∧
      0 < s.inFlight.length) ∧
    (¬∃ f : ℕ → System ℕ, f 0 = s ∧ ∀ k, (f k).AcceptsMessage (f (k + 1))) ∧
      ∀ n, (∀ s' i, Relation.ReflTransGen (PumpsMessage n) s s' →
          s'.inFlight.findIdx? (·.1 == n) = some i → s'.Acknowledges (.acceptMessage i)) →
        ∃ fuel s', s.acceptIncomingMessages n fuel = some s' := by
  obtain ⟨s, hs, -, hflight⟩ := exists_reachable (α := ℕ)
    (G := fun s act => s.Honest act ∧ s.Acknowledges act ∧ s.SendsToHeld act)
    (P := fun s => 0 < s.inFlight.length)
    [.createPortPair 1, .connect 1 2, .sendMessage 1 3 0 [2], .acceptMessage 0] (by decide)
  exact ⟨s, ⟨hs.untangled, hflight⟩, hs.untangled.terminates⟩

/-- Two ports of a node are sent over one another. -/
theorem Reachable.not_terminates : ∃ (s : System ℕ) (f : ℕ → System ℕ), Reachable Honest s ∧
    f 0 = s ∧ ∀ k, ∃ i, (f k).step (.acceptMessage i) = some (f (k + 1)) := by
  obtain ⟨s, hs, hlen, hhonest, hqueue, hend, hstep⟩ := exists_reachable (α := ℕ)
    (G := fun s act => s.Honest act ∧ s.Acknowledges act)
    (P := fun s => s.Honest (.sendMessage 1 1 0 [4]) ∧
      ((s.node 1).getPort 4).map (fun port => port.messageQueue.heap.map (·.ports)) = some [[5]] ∧
      s.endOf 5 = (s.endOf 1).opp ∧
      (s.step (.sendMessage 1 1 0 [4])).map (fun s' =>
        ((s'.sent (s.endOf 1)).length, (s.sent (s.endOf 1)).length)) = some (1, 0))
    [.createPortPair 1, .createPortPair 1, .sendMessage 1 3 0 [2]] (by decide)
  obtain ⟨port, hport, hheap⟩ := Option.map_eq_some_iff.1 hqueue
  obtain ⟨m, hm, hports⟩ := List.mem_map.1 (hheap ▸ List.mem_singleton_self [5])
  obtain ⟨s', hs', hsent⟩ := Option.map_eq_some_iff.1 hstep
  obtain ⟨hone, hzero⟩ := Prod.mk.inj hsent
  have htangled : ¬s.Untangled (.sendMessage 1 1 0 [4]) := by
    intro h
    refine h 4 (List.mem_singleton_self 4) (.single (.inr ⟨1, 4, port, m, hport, hm, rfl, 5, ?_, hend⟩))
    rw [hports]
    exact List.mem_singleton_self 5
  have htang : s'.Tangled := hs.tangled hhonest htangled hs'
    (fun heq => by rw [heq, hzero] at hone; cases hone)
    fun e => (length_sent_step hs' e).trans_lt ((Nat.succ_le_succ (hlen e)).trans_lt (by decide))
  obtain ⟨f, hf, hdesc⟩ := not_acc_iff_exists_descending_chain.1 htang.not_acc
  exact ⟨s', f, htang.1, hf, fun k => (hdesc k).imp fun _ h => h.2⟩

end System

end MojoEdk.Ports
