import MojoEdk.Ports.Collapse
import MojoEdk.Ports.Net.Answer

/-!
# The proxies of open pipes

When nothing is in flight any more, no port buffers or forwards
(`System.Reachable.collapsed`), not even if the ends of its pipe are open, unless an event was
lost: a node drops an event for a port that it does not have.

`OnObserveProxy` takes such a port for one that was closed. It may also be a proxy that was skipped
and went away, or a port that was not accepted yet: the proxy whose announcement is dropped there
stays (`System.Reachable.not_collapsed`). Once an end of the pipe is closed, the announcements do
not matter any more, but the other end must tell the proxies of the closed one: a closure that is
dropped at a proxy that was skipped and went away leaves the next one behind.
-/

namespace MojoEdk.Ports

variable {α : Type*} {η : Names} {s : System α} {N M : Net α} {x : Place} {a : Net.Port}
  {lim : Place → ℕ}

/-! ## Nets with nothing in flight -/

namespace Net.Still

/-- A proxy that is there still is not that of a closed end. -/
theorem closed_self_eq_false (h : N.Still) (w : N.Shape) (q : N.Sequence lim) (hans : N.Answered)
    (hx : N.port x = some a) (hk : a.kind = .proxying) : N.closed x.1 = false := by
  by_contra hclosed
  rw [Bool.not_eq_false] at hclosed
  obtain ⟨b, hb⟩ := w.isOpen x.1.opp (w.pipe_lt hx) (h.closed_eq_false w q hx hk)
  obtain ⟨-, -, hremove⟩ := w.live hb (w.kind_live hb)
  -- The other end was told that the pipe is closed, and has answered.
  have hc : b.peerClosed = true := by
    by_contra hc
    have huntold : N.Untold (x.1.opp, N.len x.1.opp) :=
      ⟨b, hb, hremove, fun _ => Bool.eq_false_iff.2 hc⟩
    have hbegins : N.Begins (x.1.opp, N.toward x.1) := by
      refine .inl ⟨?_, ?_⟩
      · rwa [show (x.1.opp, N.toward x.1).1.opp = x.1 from x.1.opp_opp]
      · rw [show (x.1.opp, N.toward x.1).1.opp = x.1 from x.1.opp_opp]
    obtain ⟨k, -, -, hclosing⟩ := h.tended.telling _ _ _ hbegins (w.toward_le x.1) huntold
    exact h.not_closing w hclosing
  have huntold : N.Untold (x.1.opp.opp, x.2) := by
    rw [End.opp_opp]
    exact ⟨a, hx, h.remove_eq_false w q hx hk, by simp [hk]⟩
  rcases hans x.1.opp b hb hc with hclosing | ⟨-, hall⟩
  · exact h.not_closing w hclosing
  · obtain ⟨k, -, hclosing⟩ := hall x.2 (h.toward_le w q hx hk) huntold
    exact h.not_closing w hclosing

/-- No port forwards: its announcement would be kept by another proxy before it. -/
theorem kind_ne_proxying (h : N.Still) (w : N.Shape) (q : N.Sequence lim) (hans : N.Answered)
    (hvocal : N.Vocal) (hx : N.port x = some a) : a.kind ≠ .proxying := by
  intro hk
  induction hi : x.2 using Nat.strong_induction_on generalizing x a with
  | _ i ih =>
    have hwaits : N.Waits x :=
      ⟨⟨a, hx, hk, h.remove_eq_false w q hx hk⟩, h.toward_le w q hx hk,
        h.closed_self_eq_false w q hans hx hk, h.closed_eq_false w q hx hk⟩
    rcases hvocal x hwaits with hpos | ⟨y, b, rfl, hy, hs⟩
    · rw [announcements, h.events, Multiset.countP_zero] at hpos
      exact lt_irrefl _ hpos
    · have hlt := w.proxy hy (live_of_stored w hy hs)
      exact ih y.2 (hi ▸ Nat.lt_succ_self _) hy (h.kind_of_lt w hy hlt) rfl

end Net.Still

/-! ## Events that come to their ports -/

namespace System

/-- No port of a pipe with an open end buffers or forwards. -/
def Collapsed (s : System α) : Prop :=
  ∀ n p port, (s.node n).getPort p = some port →
    s.closed (s.endOf p) = false ∨ s.closed (s.endOf p).opp = false →
      port.state ≠ .buffering ∧ port.state ≠ .proxying

/-- An event that is given to a node leaves no proxy behind: the announcement of a proxy of a pipe
    with open ends comes to a port that is there, and so does a closure, unless the other end does
    not know that the pipe is closed, or points to a port that is to go. -/
def HonoursEvent (s : System α) (n : NodeName) : Event α → Prop
  | .observeProxy p data =>
    s.closed (s.endOf data.proxyPortName) = false →
      s.closed (s.endOf data.proxyPortName).opp = false → (s.node n).getPort p ≠ none
  | .observeClosure p _ =>
    (s.node n).getPort p = none → ∀ n' p' port, (s.node n').getPort p' = some port →
      s.endOf p' = (s.endOf p).opp → port.state = .receiving → port.peerClosed = true →
        ∀ peer ∈ (s.node port.peerNodeName).getPort port.peerPortName,
          peer.removeProxyOnLastMessage = true
  | _ => True

/-- An action leaves no proxy behind. -/
def Honours (s : System α) : Action α → Prop
  | .acceptMessage i => ∀ y ∈ s.inFlight[i]?, s.HonoursEvent y.1 y.2
  | _ => True

end System

/-- The port that an announcement or a closure comes to is there. -/
def Node.Finds (ν : Node α) : Event α → Prop
  | .observeProxy p _ | .observeClosure p _ => (ν.getPort p).isSome
  | _ => True

/-- An action gives an announcement or a closure only to a port that is there. -/
def System.Finds (s : System α) : Action α → Prop
  | .acceptMessage i => ∀ y ∈ s.inFlight[i]?, (s.node y.1).Finds y.2
  | _ => True

instance (ν : Node α) (event : Event α) : Decidable (ν.Finds event) :=
  match event with
  | .observeProxy p _ | .observeClosure p _ => inferInstanceAs (Decidable (ν.getPort p).isSome)
  | .user _ | .portAccepted _ | .observeProxyAck _ _ => inferInstanceAs (Decidable True)

instance (s : System α) (act : Action α) : Decidable (s.Finds act) :=
  match act with
  | .acceptMessage i => inferInstanceAs (Decidable (∀ y ∈ s.inFlight[i]?, (s.node y.1).Finds y.2))
  | .createPortPair _ | .connect _ _ | .sendMessage _ _ _ _ | .getMessageIf _ _ _ | .closePort _ _
  | .lostConnectionToNode _ _ => inferInstanceAs (Decidable True)

theorem System.honours_of_finds {act : Action α} (h : s.Finds act) : s.Honours act := by
  cases act with
  | acceptMessage i =>
    rintro ⟨n, event⟩ hy
    have hfinds : (s.node n).Finds event := h _ hy
    cases event with
    | observeProxy p data => exact fun _ _ => Option.isSome_iff_ne_none.1 hfinds
    | observeClosure p last => exact fun hp => absurd hp (Option.isSome_iff_ne_none.1 hfinds)
    | user | portAccepted | observeProxyAck => trivial
  | createPortPair | connect | sendMessage | getMessageIf | closePort | lostConnectionToNode =>
    trivial

/-! ## Runs -/

namespace Simulates

/-- The announcement of a proxy of a pipe with open ends comes to a port. -/
theorem honours_proxy (h : Simulates η s N) {d x : Place} (hd : N.Used d) (hx : N.Used x)
    (hon : s.HonoursEvent (η.event (.proxy d x) : NodeName × Event α).1 (η.event (.proxy d x)).2)
    (ho : N.closed x.1 = false) (ho' : N.closed x.1.opp = false) :
    ∃ a, N.port d = some a ∧ a.kind ≠ .transit := by
  have hend := h.refines.endOf x hx
  have hsome : (s.node (η.home d)).getPort (η.name d) ≠ none := by
    refine hon ?_ ?_
    · rw [h.refines.closed]
      exact (congrArg N.closed hend).trans ho
    · rw [h.refines.closed]
      exact (congrArg (fun e => N.closed e.opp) hend).trans ho'
  obtain ⟨port, hport⟩ := Option.ne_none_iff_exists'.1 hsome
  have hm := h.refines.port d hd
  rw [hport] at hm
  obtain ⟨a, ha, hm⟩ := hm
  exact ⟨a, ha, hm.arrived⟩

/-- A closure is dropped only if the port that the other end points to is to go, or the other end
    does not know that the pipe is closed. -/
theorem honours_closure (h : Simulates η s N) (hN : N.Sound) {d : Place} {last : UInt64}
    (hd : N.Used d)
    (hon : s.HonoursEvent (η.event (.closure d last) : NodeName × Event α).1
      (η.event (.closure d last)).2)
    (hgone : ∀ b, N.port d = some b → b.kind = .transit)
    (ha : N.port (d.1.opp, N.len d.1.opp) = some a) (hk : a.kind = .receiving)
    (hc : a.peerClosed = true) : ¬N.Untold (d.1, N.toward d.1.opp) := by
  rintro ⟨b, hb, hr, -⟩
  have hnone : (s.node (η.home d)).getPort (η.name d) = none := by
    have hm := h.refines.port d hd
    cases hport : (s.node (η.home d)).getPort (η.name d) with
    | none => rfl
    | some port =>
      rw [hport] at hm
      obtain ⟨c, hc, hm⟩ := hm
      exact absurd (hgone c hc) hm.arrived
  obtain ⟨port, hport, hm⟩ := h.getPort hN.shape ha (by simp [hk])
  have hpeer : N.peer (d.1.opp, N.len d.1.opp) = (d.1, N.toward d.1.opp) := by
    rw [Net.peer_live, End.opp_opp]
  have harr := hN.ring.arrived_toward hN.shape d.1.opp
  rw [End.opp_opp] at harr
  obtain ⟨peer, hpeerport, hmpeer⟩ := h.getPort hN.shape hb (harr.2 b hb)
  have hremove : peer.removeProxyOnLastMessage = true := by
    refine hon hnone _ _ port hport ?_ ?_ ?_ peer ?_
    · rw [h.refines.endOf _ (hN.shape.used ha)]
      exact (congrArg End.opp (h.refines.endOf d hd)).symm
    · rw [hm.state, hk]
      rfl
    · rw [hm.peerClosed, hc]
    · rw [hm.peerNodeName, hm.peerPortName, hpeer]
      exact hpeerport
  rw [hmpeer.remove, hr] at hremove
  cases hremove

end Simulates

/-- The proxies that are left wait for something that is on its way. -/
structure Net.Minded (N : Net α) : Prop where
  carried : N.Carried
  tended : N.Tended
  vocal : N.Vocal
  answered : N.Answered

namespace Net.Minded

theorem init : (init : Net α).Minded where
  carried e he := by
    obtain ⟨a, ha, -⟩ := he
    cases ha
  tended := .init
  vocal := .init
  answered := .init

theorem step (h : N.Minded) (hN : N.Sound) {l : Label} (hs : Step N l M)
    (hnum : ∀ e a, l = .event (.proxy (e, N.len e) (e.opp, N.toward e)) →
      N.port (e, N.len e) = some a → a.kind = .receiving → a.send - 1 ≠ kInvalidSequenceNum)
    (hheard : ∀ d x, l = .event (.proxy d x) → N.closed x.1 = false → N.closed x.1.opp = false →
      ∃ a, N.port d = some a ∧ a.kind ≠ .transit)
    (hskipped : ∀ x last a, l = .event (.closure x last) →
      (∀ b, N.port x = some b → b.kind = .transit) → N.port (x.1.opp, N.len x.1.opp) = some a →
      a.kind = .receiving → a.peerClosed = true → ¬N.Untold (x.1, N.toward x.1.opp)) :
    M.Minded where
  carried := h.carried.step hN.cargo hs
  tended := h.tended.step hN.ring hN.shape hN.cargo hs hnum
  vocal := h.vocal.step hN.shape hs hheard
  answered := h.answered.step hN.ring hN.shape hN.cargo h.tended hs hskipped

/-- What is not about an event keeps the invariant. -/
theorem step_of_ne (h : N.Minded) (hN : N.Sound) {l : Label} (hs : Step N l M)
    (hne : ∀ ev, l ≠ .event ev) : M.Minded :=
  h.step hN hs (fun _ _ hl => absurd hl (hne _)) (fun _ _ hl => absurd hl (hne _))
    fun _ _ _ hl => absurd hl (hne _)

theorem run {strict : Prop} (h : N.Minded) (hN : N.Sound) (hr : Run strict N M) : M.Minded := by
  induction hr with
  | refl => exact h
  | tail hr hw ih =>
    have hsound := hN.run hr
    cases hw with
    | inner hs => exact ih.step_of_ne hsound hs (by simp)
    | remove hs _ => exact ih.step_of_ne hsound hs (by simp)

end Net.Minded

theorem Moves.minded {strict : Prop} {act : Action α} (hm : Moves strict η s act N M)
    (h : Simulates η s N) (hN : N.Sound) (hack : s.Acknowledges act) (hon : s.Honours act)
    (ht : N.Minded) : M.Minded := by
  obtain ⟨N₁, hfirst, hrun⟩ := hm
  rcases hfirst with rfl | hs | ⟨i, ev, rfl, hi, hs⟩
  · exact ht.run hN hrun
  · exact (ht.step_of_ne hN hs (by simp)).run (hN.step hs) hrun
  · have hplaced := hN.shape.events ev hs.mem_events
    refine (ht.step hN hs (fun e a hev => ?_) (fun d x hev => ?_) fun x last a hev => ?_).run
      (hN.step hs) hrun
    · exact h.acknowledges hN.shape (hack _ hi) (Net.Label.event.inj hev)
    · obtain rfl := Net.Label.event.inj hev
      exact h.honours_proxy hplaced.2.1 hplaced.2.2.used (hon _ hi)
    · obtain rfl := Net.Label.event.inj hev
      exact h.honours_closure hN hplaced (hon _ hi)

namespace System

/-- In every run in which no announcement and no closure is lost that a proxy waits for, no proxy
    is acknowledged with the number that asks it to announce itself again, and the numbers do not
    wrap, all proxies are gone when nothing is in flight. -/
theorem Reachable.collapsed
    (h : Reachable (fun s act => s.Honest act ∧ s.Acknowledges act ∧ s.Honours act) s)
    (hsmall : ∀ e, (s.sent e).length < 2 ^ 64 - 1) (hflight : s.inFlight = []) : s.Collapsed := by
  obtain ⟨η, N, hS, hN, hminded⟩ :=
    (h.simulates (fun _ _ hG => hG.1) Net.Minded
      Net.Minded.init
      fun hS hN hI hact hm => hm.minded hS hN hact.2.1 hact.2.2 hI).1
  obtain ⟨lim, q⟩ := hS.sequence hN hsmall
  have hstill := hS.still hN q (h.mono fun _ _ hG => hG.1) hminded.carried hminded.tended hflight
  intro n p port hport _
  obtain ⟨x, a, hx, -, -, hm⟩ := hS.exists_place hport
  rw [hm.state, Ne, Ne, Kind.state_eq_buffering, Kind.state_eq_proxying]
  exact ⟨hstill.kind_ne_buffering hN.shape hx,
    hstill.kind_ne_proxying hN.shape q hminded.answered hminded.vocal hx⟩

/-- A port is sent over another pipe, and the proxy is gone when nothing is in flight. -/
theorem Reachable.collapsed_pair : ∃ s : System ℕ,
    (Reachable (fun s act => s.Honest act ∧ s.Acknowledges act ∧ s.Honours act) s ∧
      (∀ e, (s.sent e).length < 2 ^ 64 - 1) ∧ s.inFlight = []) ∧ s.Collapsed := by
  obtain ⟨s, hs, hlen, hflight⟩ :=
    exists_reachable (G := fun s act => s.Honest act ∧ s.Acknowledges act ∧ s.Finds act) (α := ℕ)
      (P := fun s => s.inFlight = [])
      [.createPortPair 1, .connect 1 2, .sendMessage 1 3 0 [2], .acceptMessage 0, .acceptMessage 0,
        .acceptMessage 0, .acceptMessage 0, .acceptMessage 0]
      (by decide +kernel)
  have hsmall : ∀ e, (s.sent e).length < 2 ^ 64 - 1 := fun e => (hlen e).trans_lt (by decide)
  have hreach : Reachable (fun s act => s.Honest act ∧ s.Acknowledges act ∧ s.Honours act) s :=
    hs.mono fun _ _ hG => ⟨hG.1, hG.2.1, honours_of_finds hG.2.2⟩
  exact ⟨s, ⟨hreach, hsmall, hflight⟩, hreach.collapsed hsmall hflight⟩

/-- Both ports of a pair are sent to another node. The announcement of the proxy 1 comes to the
    proxy 2 when that was skipped and is gone. -/
theorem Reachable.not_collapsed :
    ∃ s : System ℕ, Reachable Honest s ∧ s.inFlight = [] ∧ ¬s.Collapsed := by
  obtain ⟨s, hs, -, hflight, hopen, hport⟩ :=
    exists_reachable (G := Honest) (α := ℕ)
      (P := fun s => s.inFlight = [] ∧ s.closed (s.endOf 1) = false ∧
        ((s.node 1).getPort 1).any fun port => port.state = .proxying)
      [.createPortPair 1, .connect 1 2, .sendMessage 1 3 0 [1], .sendMessage 1 3 0 [2],
        .acceptMessage 0, .acceptMessage 0, .acceptMessage 0, .acceptMessage 0, .acceptMessage 0,
        .acceptMessage 0, .acceptMessage 1, .acceptMessage 1, .acceptMessage 1, .acceptMessage 0]
      (by decide +kernel)
  refine ⟨s, hs, hflight, fun hcollapsed => ?_⟩
  obtain ⟨port, hget, hstate⟩ := (Option.any_eq_true _ _).1 hport
  exact (hcollapsed 1 1 port hget (.inl hopen)).2 (of_decide_eq_true hstate)

/-- The other end of the pipe is closed. The closure that port 1 answers with comes to the proxy 2
    when that was skipped and is gone: the proxy 7, which port 1 points to now, stays. -/
example : (({} : System ℕ).exec Honest [.createPortPair 1, .connect 1 2, .connect 2 3,
    .sendMessage 1 3 0 [2], .acceptMessage 0, .getMessageIf 2 4 none, .sendMessage 2 5 0 [7],
    .acceptMessage 1, .getMessageIf 3 6 none, .acceptMessage 0, .acceptMessage 0, .acceptMessage 0,
    .acceptMessage 1, .closePort 3 8, .acceptMessage 2, .acceptMessage 1, .acceptMessage 2,
    .acceptMessage 1, .acceptMessage 0]).any (fun s => decide (s.inFlight = [] ∧
      s.closed (s.endOf 1) = false ∧ ((s.node 2).getPort 7).any fun port =>
        port.state = .proxying)) = true := by
  decide +kernel

end System

end MojoEdk.Ports
