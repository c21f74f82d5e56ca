import MojoEdk.Ports.Net.Announce
import MojoEdk.Ports.Net.Collapse

/-!
# What the proxies of open pipes wait for

As long as both ends of a pipe are open, a proxy that is not skipped has its announcement on its
way, or kept by the proxy before it (`Net.Vocal`). Once one end is closed, and the other one knows
of it, the proxies of the closed end that are not skipped are told so, by what the other end
answered to the closure (`Net.Answered`).

Both are so only if no event is lost. An announcement is lost if it comes to a port that is gone,
or that is not there yet. A closure is lost if it comes to a proxy that was skipped and is gone:
the one that is now pointed to does not get it.
-/

namespace MojoEdk.Ports.Net

variable {α : Type*} {N M : Net α} {x y : Place} {a b : Port} {e : End} {E : Multiset Event}

/-- The event that a step is for is on its way. -/
theorem Step.mem_events {ev : Event} (hs : Step N (.event ev) M) : ev ∈ N.events := by
  cases hs with
  | portAccepted he | redirect he | store he | proxyPass he | ackRetry he | ackAccept he
  | closureReceive he | closurePass he | drop he =>
    exact he ▸ Multiset.mem_cons_self ..

/-! ## Announcements -/

/-- A proxy that was not told to go. -/
def Stays (N : Net α) (x : Place) : Prop :=
  ∃ a, N.port x = some a ∧ a.kind = .proxying ∧ a.remove = false

/-- A proxy of a pipe with open ends that is to be skipped. -/
structure Waits (N : Net α) (x : Place) : Prop where
  stays : N.Stays x
  toward_le : N.toward x.1.opp ≤ x.2
  isOpen : N.closed x.1 = false
  isOpen_opp : N.closed x.1.opp = false

/-- The announcement of a proxy is on its way, or kept by the proxy before it. -/
def Audible (N : Net α) (x : Place) : Prop := 0 < N.announcements x ∨ N.Kept x

/-- Every proxy that is to be skipped can be heard. -/
def Vocal (N : Net α) : Prop := ∀ x, N.Waits x → N.Audible x

theorem live_of_stored (w : N.Shape) (hx : N.port x = some a) (hs : a.stored = true) :
    a.kind.live = false := by
  by_contra hl
  rw [Bool.not_eq_false] at hl
  cases hs.symm.trans (w.live hx hl).2.1

/-- Ports that are not live keep what they stored, if they are not touched. -/
theorem stored_of_lt (w : N.Shape) (h : ∀ y : Place, y.2 < N.len y.1 → M.port y = N.port y) :
    Stored M N := by
  intro y c hc hs
  exact ⟨c, (h y (w.proxy hc (live_of_stored w hc hs))).trans hc, hs⟩

theorem stored_of_set (hx : N.port x = some a) (hb : a.stored = true → b.stored = true) :
    Stored (N.set x b) N := by
  intro y c hc hs
  by_cases hy : y = x
  · subst hy
    obtain rfl := Option.some.inj (hx.symm.trans hc)
    exact ⟨b, port_set_self .., hb hs⟩
  · exact ⟨c, (port_set_of_ne _ hy).trans hc, hs⟩

theorem stored_of_transferAll (w : N.Shape) (es : List End) : Stored (N.transferAll es) N :=
  stored_of_lt w fun _ => transferAll_of_lt

theorem stored_of_acceptAll (w : N.Shape) (es : List End) : Stored (N.acceptAll es) N :=
  stored_of_lt w fun _ hy => acceptAll_of_notMem fun _ => hy.ne

theorem Stays.of_set (hx : N.port x = some a)
    (hb : b.kind = .proxying → b.remove = false → a.kind = .proxying ∧ a.remove = false)
    (h : (N.set x b).Stays y) : N.Stays y := by
  obtain ⟨c, hc, hk, hr⟩ := h
  rcases port_set_cases hc with ⟨rfl, rfl⟩ | ⟨-, hc⟩
  · exact ⟨a, hx, hb hk hr⟩
  · exact ⟨c, hc, hk, hr⟩

theorem Stays.of_transferAll {es : List End} (h : (N.transferAll es).Stays y) : N.Stays y := by
  induction es generalizing N with
  | nil => exact h
  | cons e es ih =>
    rw [Net.transferAll] at h
    split at h
    next a hp =>
      obtain ⟨c, hc, hk, hr⟩ := ih h
      rcases port_transfer_cases hc with ⟨-, rfl⟩ | ⟨-, rfl⟩ | ⟨-, -, hc⟩
      · cases hk
      · cases hk
      · exact ⟨c, hc, hk, hr⟩
    next => exact ih h

theorem Stays.of_acceptAll {es : List End} (h : (N.acceptAll es).Stays y) : N.Stays y := by
  induction es generalizing N with
  | nil => exact h
  | cons e es ih =>
    rw [Net.acceptAll] at h
    split at h
    next a hp => exact Stays.of_set hp (by simp) (ih h : (N.accept e a).Stays y)
    next => exact ih h

namespace Vocal

theorem init : (init : Net α).Vocal := by
  rintro x ⟨⟨a, hx, -⟩, -, -, -⟩
  cases hx

/-- No announcement is lost, unless an end is closed or the proxy is skipped. -/
theorem mono (h : N.Vocal) (hstays : ∀ x, M.Stays x → N.Stays x)
    (htoward : ∀ e, N.toward e ≤ M.toward e)
    (hclosed : ∀ e, M.closed e = false → N.closed e = false)
    (haudible : ∀ x, M.Waits x → N.Audible x → M.Audible x) : M.Vocal := by
  intro x hx
  refine haudible x hx (h x ⟨hstays x hx.stays, (htoward _).trans hx.toward_le, ?_, ?_⟩)
  · exact hclosed _ hx.isOpen
  · exact hclosed _ hx.isOpen_opp

/-- Nothing is announced, or stored, for the first time. -/
theorem of_eq (h : N.Vocal) (hstays : ∀ x, M.Stays x → N.Stays x) (htoward : M.toward = N.toward)
    (hclosed : ∀ e, M.closed e = false → N.closed e = false) (hstored : Stored M N)
    (hevents : ∀ x, N.announcements x ≤ M.announcements x) : M.Vocal :=
  h.mono hstays (fun e => (congrFun htoward e).ge) hclosed fun x _ =>
    Or.imp (fun hpos => hpos.trans_le (hevents x)) (Kept.of_stored hstored)

/-- The messages, and who holds the ends, do not matter. -/
theorem congr (h : N.Vocal) (hport : M.port = N.port) (htoward : M.toward = N.toward)
    (hclosed : M.closed = N.closed) (hevents : M.events = N.events) : M.Vocal := by
  refine h.of_eq (fun x hx => ?_) htoward (fun e => hclosed ▸ id) (fun x c hc hs => ?_)
    fun x => (congrArg (Multiset.countP _) hevents).ge
  · obtain ⟨c, hc, hk, hr⟩ := hx
    exact ⟨c, hport ▸ hc, hk, hr⟩
  · exact ⟨c, hport ▸ hc, hs⟩

/-- A port that buffered forwards now, and announces itself. -/
theorem portAccepted (h : N.Vocal) (he : N.events = .accepted x ::ₘ E) (hx : N.port x = some a)
    {ev : Event} (hev : a.remove = false → ev.Announces x) :
    ((N.set x { a with kind := .proxying }).withEvents (ev ::ₘ E)).Vocal := by
  intro y hy
  by_cases hyx : y = x
  · subst hyx
    obtain ⟨c, hc, -, hr⟩ := hy.stays
    obtain rfl := Option.some.inj ((port_set_self (N := N) ..).symm.trans hc)
    exact .inl (announcements_pos (Multiset.mem_cons_self ..) (hev hr))
  · have hstays : N.Stays y := by
      obtain ⟨c, hc, hk, hr⟩ := hy.stays
      exact ⟨c, (port_set_of_ne _ hyx).symm.trans hc, hk, hr⟩
    have haudible := h y ⟨hstays, hy.toward_le, hy.isOpen, hy.isOpen_opp⟩
    refine haudible.imp (fun hpos => ?_) (Kept.of_stored ?_)
    · rw [announcements_cons he, if_neg (by exact id), Nat.add_zero] at hpos
      rw [announcements_cons rfl]
      exact Nat.add_pos_left hpos _
    · exact stored_of_set hx (b := { a with kind := .proxying }) id

/-- A proxy that goes away asks the one after it to announce itself again. -/
theorem remove (h : N.Vocal) (hx : N.port x = some a) {L : Multiset (Letter α)} :
    (((N.erase x).withLetters L).withEvents
      (if a.stored then .ack x.succ kInvalidSequenceNum ::ₘ N.events else N.events)).Vocal := by
  refine h.mono (fun y hy => ?_) (fun _ => le_rfl) (fun _ => id) fun y hy haudible => ?_
  · obtain ⟨c, hc, hk, hr⟩ := hy
    exact ⟨c, (port_erase_cases hc).2, hk, hr⟩
  · rcases haudible with hpos | ⟨z, c, rfl, hc, hs⟩
    · refine .inl (hpos.trans_le ?_)
      change N.events.countP _ ≤ Multiset.countP _ (ite _ _ _)
      split_ifs
      · exact Multiset.countP_le_of_le _ (Multiset.le_cons_self ..)
      · exact le_rfl
    · by_cases hz : z = x
      · subst hz
        obtain rfl := Option.some.inj (hx.symm.trans hc)
        have hann : (Event.ack z.succ kInvalidSequenceNum).Announces z.succ := ⟨rfl, rfl⟩
        refine .inl (announcements_pos ?_ hann)
        change _ ∈ ite _ _ _
        rw [if_pos hs]
        exact Multiset.mem_cons_self ..
      · exact .inr ⟨z, c, rfl, (port_erase_of_ne hz).trans hc, hs⟩

/-- The proxy before a proxy keeps its announcement. -/
theorem store (h : N.Vocal) (he : N.events = .proxy x x.succ ::ₘ E) (hx : N.port x = some a) :
    ((N.set x { a with stored := true }).withEvents E).Vocal := by
  have hstored : Stored ((N.set x { a with stored := true }).withEvents E) N :=
    stored_of_set hx (b := { a with stored := true }) fun _ => rfl
  refine h.mono (fun y hy => Stays.of_set hx (b := { a with stored := true }) And.intro hy)
    (fun _ => le_rfl) (fun _ => id) fun y hy haudible => ?_
  by_cases hyx : y = x.succ
  · exact .inr ⟨x, { a with stored := true }, hyx.symm, port_set_self .., rfl⟩
  · refine haudible.imp (fun hpos => ?_) (Kept.of_stored hstored)
    rw [announcements_cons he, if_neg (by exact fun hxy => hyx hxy.symm), Nat.add_zero] at hpos
    exact hpos

theorem create (h : N.Vocal) (w : N.Shape) : N.create.Vocal := by
  refine h.of_eq (fun x hx => ?_) rfl (fun _ => id) (fun x c hc hs => ?_) fun _ => le_rfl
  · obtain ⟨c, hc, hk, hr⟩ := hx
    rcases port_create_cases hc with ⟨-, -, rfl⟩ | hc
    · cases hk
    · exact ⟨c, hc, hk, hr⟩
  · exact ⟨c, (port_create_of_pipe_lt (w.pipe_lt hc)).trans hc, hs⟩

/-- A message is sent on from a port, with the ends that are attached to it. -/
theorem setTransferAll (h : N.Vocal) {b : Port} (hx : N.port x = some a) (w : (N.set x b).Shape)
    (hkind : b.kind = .proxying → b.remove = false → a.kind = .proxying ∧ a.remove = false)
    (hstored : a.stored = true → b.stored = true) (es : List End) :
    ((N.set x b).transferAll es).Vocal := by
  refine h.of_eq (fun y hy => ?_) (transferAll_toward (N := N.set _ _)) (fun e => ?_)
    ((stored_of_transferAll w es).trans (stored_of_set hx hstored)) fun y => le_of_eq ?_
  · exact Stays.of_set hx hkind (Stays.of_transferAll hy)
  · exact (congrFun (transferAll_closed (N := N.set _ _)) e).symm.trans
  · exact (congrArg (Multiset.countP _) (transferAll_events (N := N.set _ _))).symm

theorem acceptAll (h : N.Vocal) (w : N.Shape) (es : List End) : (N.acceptAll es).Vocal :=
  h.of_eq (fun _ hx => Stays.of_acceptAll hx) acceptAll_toward
    (fun e => (congrFun acceptAll_closed e).symm.trans) (stored_of_acceptAll w es)
    fun x => (announcements_acceptAll es x).ge

/-- A proxy that is skipped need not be heard any more. -/
theorem redirect (h : N.Vocal) {e : End} {ev : Event}
    (he : N.events = .proxy (e, N.len e) (e.opp, N.toward e) ::ₘ E) :
    ((N.redirect e).withEvents (ev ::ₘ E)).Vocal := by
  refine h.mono (fun _ => id) (frame_redirect e).toward_le (fun _ => id) fun x hx => ?_
  refine Or.imp_left fun hpos => ?_
  rw [announcements_cons he] at hpos
  rw [announcements_cons rfl]
  split_ifs at hpos with hev
  · obtain rfl : (e.opp, N.toward e) = x := hev
    have hle : (N.redirect e).toward e.opp.opp ≤ N.toward e := hx.toward_le
    rw [End.opp_opp, toward_redirect_self] at hle
    exact absurd hle (Nat.not_succ_le_self _)
  · exact Nat.add_pos_left hpos _

/-- An event that is dropped is no announcement of a proxy that waits to be heard. -/
theorem drop (h : N.Vocal) {ev : Event} (he : N.events = ev ::ₘ E)
    (hgone : ∀ a, N.port ev.dest = some a → a.kind = .transit)
    (hheard : ∀ d x, ev = .proxy d x → N.closed x.1 = false → N.closed x.1.opp = false →
      ∃ a, N.port d = some a ∧ a.kind ≠ .transit) : (N.withEvents E).Vocal := by
  refine h.mono (fun _ => id) (fun _ => le_rfl) (fun _ => id) fun x hx => Or.imp_left fun hpos => ?_
  rw [announcements_cons he] at hpos
  split_ifs at hpos with hev
  · cases ev with
    | proxy d y =>
      obtain rfl : y = x := hev
      obtain ⟨a, ha, hk⟩ := hheard d y rfl hx.isOpen hx.isOpen_opp
      exact absurd (hgone a ha) hk
    | ack y last =>
      -- A proxy that is gone need not be heard.
      obtain ⟨rfl, -⟩ := hev
      obtain ⟨a, ha, hk, -⟩ := hx.stays
      cases hk.symm.trans (hgone a ha)
    | accepted | closure => exact hev.elim
  · exact hpos

theorem close (h : N.Vocal) (w : N.Shape) (e : End) (H : Multiset End) : (N.close e a H).Vocal := by
  refine h.of_eq (fun x hx => ?_) rfl (fun e' hclosed => ?_) ?_ fun x => ?_
  · obtain ⟨c, hc, hck, hr⟩ := hx
    exact ⟨c, (port_close_cases hc).2, hck, hr⟩
  · rw [Bool.eq_false_iff] at hclosed ⊢
    exact fun hc => hclosed (frame_close.closed e' hc)
  · exact stored_of_lt w fun y hy => port_close_of_ne fun hye => by
      subst hye
      exact absurd hy (Nat.lt_irrefl _)
  · exact Multiset.countP_le_of_le _ (Multiset.le_cons_self ..)

/-- A step preserves the invariant, if no announcement is lost as long as both ends of the pipe
    are open. -/
theorem step (h : N.Vocal) (w : N.Shape) {t : Label} (hs : Step N t M)
    (hheard : ∀ d x, t = .event (.proxy d x) → N.closed x.1 = false → N.closed x.1.opp = false →
      ∃ a, N.port d = some a ∧ a.kind ≠ .transit) : M.Vocal := by
  cases hs with
  | create => exact h.create w
  | @send e a payload es H hp hk _ _ _ _ =>
    have hshape : (N.set (e, N.len e) { a with send := a.send + 1 }).Shape :=
      w.set hp rfl (by simp [hk]) (fun _ => (w.live hp (by simp [hk])).2) fun hs => w.stored hp hs
    exact (h.setTransferAll hp hshape And.intro id es).congr rfl rfl rfl rfl
  | @get e a l L hp _ _ _ _ _ _ =>
    exact h.of_eq (fun x hx => Stays.of_set hp (b := { a with next := a.next + 1 }) And.intro hx)
      rfl (fun _ => id) (stored_of_set hp (b := { a with next := a.next + 1 }) id)
      fun _ => le_rfl
  | @arrive a l L _ _ _ _ _ => exact (h.acceptAll w l.ports).congr rfl rfl rfl rfl
  | @reject l L _ _ _ => exact (h.acceptAll w l.ports).congr rfl rfl rfl rfl
  | @forward x a l L hx hk _ _ _ _ =>
    set b : Port := { a with
      next := a.next + 1
      send := if l.number = 0 then a.send + 1 else a.send } with hb
    have hshape : (N.set x b).Shape :=
      w.set hx rfl (by simp [b, hk]) (by simp [b, hk]) fun hs => w.stored hx hs
    exact (h.setTransferAll hx hshape And.intro id l.ports).congr rfl rfl rfl rfl
  | @portAccepted x a E he hx hk =>
    refine h.portAccepted he hx fun hr => ?_
    rw [if_neg (Bool.eq_false_iff.1 hr)]
    rfl
  | remove hx _ _ _ => exact h.remove hx
  | redirect he _ _ _ => exact h.redirect he
  | store he hx _ => exact h.store he hx
  | proxyPass he _ _ _ =>
    exact h.of_eq (fun _ => id) rfl (fun _ => id) (stored_of_eq rfl)
      (announcements_le rfl he fun _ => id)
  | ackRetry he _ _ =>
    exact h.of_eq (fun _ => id) rfl (fun _ => id) (stored_of_eq rfl)
      (announcements_le rfl he fun _ hx => hx.1)
  | @ackAccept x a last E he hlast hx _ =>
    refine h.of_eq (fun y hy => Stays.of_set hx (b := { a with remove := true, last := last })
      (by simp) hy) rfl (fun _ => id)
      (stored_of_set hx (b := { a with remove := true, last := last }) id) fun y => ?_
    rw [announcements_cons he, if_neg (by exact fun hev => hlast hev.2)]
    rfl
  | @closureReceive e a last E he hp _ =>
    exact h.of_eq (fun y hy => Stays.of_set hp (b := { a with peerClosed := true, last := last })
      And.intro hy) rfl (fun _ => id)
      (stored_of_set hp (b := { a with peerClosed := true, last := last }) id)
      (announcements_le rfl he fun _ => False.elim)
  | @closurePass x a last E he hx _ =>
    exact h.of_eq (fun y hy => Stays.of_set hx (b := { a with
      peerClosed := true, remove := true, last := last }) (by simp) hy) rfl (fun _ => id)
      (stored_of_set hx (b := { a with peerClosed := true, remove := true, last := last }) id)
      (announcements_le rfl he fun _ => False.elim)
  | drop he _ hgone => exact h.drop he hgone fun d x hev => hheard d x (hev ▸ rfl)
  | close => exact h.close w _ _

end Vocal

/-! ## Answers -/

/-- An end that knows that the pipe is closed is told so again, or the ports of the closed end that
    it has not skipped are. -/
def Answers (N : Net α) (e : End) : Prop :=
  ∀ a, N.port (e, N.len e) = some a → a.peerClosed = true → N.Closing (e, N.len e) ∨
    (a.kind = .receiving ∧ ∀ j, N.toward e ≤ j → N.Untold (e.opp, j) →
      ∃ k ≤ j, N.Closing (e.opp, k))

/-- Every end that knows that the pipe is closed has answered. -/
def Answered (N : Net α) : Prop := ∀ e, N.Answers e

/-- An end that has a live port is not the one that another end knows to be closed. -/
theorem Ring.opp_ne_of_peerClosed (r : N.Ring) (w : N.Shape) {e' : End}
    (hp : N.port (e, N.len e) = some a) (hb : N.port (e', N.len e') = some b)
    (hc : b.peerClosed = true) : e'.opp ≠ e := by
  rintro rfl
  have hclosed := (r.live _ b hb (w.kind_live hb)).peerClosed hc
  rw [w.isClosed _ hclosed] at hp
  cases hp

theorem Answers.mono (h : N.Answers e) (hlen : M.len e = N.len e)
    (htoward : N.toward e ≤ M.toward e)
    (hlive : ∀ b, M.port (e, N.len e) = some b → b.peerClosed = true →
      ∃ a, N.port (e, N.len e) = some a ∧ a.peerClosed = true ∧
        (a.kind = .receiving → b.kind = .receiving))
    (huntold : ∀ j, M.Untold (e.opp, j) → N.Untold (e.opp, j))
    (hself : N.Closing (e, N.len e) → M.Closing (e, N.len e))
    (hopp : ∀ k j, N.Closing (e.opp, k) → k ≤ j → M.Untold (e.opp, j) →
      ∃ k' ≤ j, M.Closing (e.opp, k')) : M.Answers e := by
  intro b hb hc
  rw [hlen] at hb ⊢
  obtain ⟨a, ha, hac, hkind⟩ := hlive b hb hc
  refine (h a ha hac).imp hself fun ⟨hk, hall⟩ => ⟨hkind hk, fun j hj hu => ?_⟩
  obtain ⟨k, hkj, hclosing⟩ := hall j (htoward.trans hj) (huntold j hu)
  exact hopp k j hclosing hkj hu

/-- The ports of a closed end after one that is told are told, if it is not skipped. -/
theorem Tended.exists_closing_of_not_untold (t : N.Tended) (w : N.Shape)
    (hclosed : N.closed x.1 = true) (hx : N.toward x.1.opp ≤ x.2) (hn : ¬N.Untold x) {j : ℕ}
    (hj : x.2 ≤ j) (hu : N.Untold (x.1, j)) : ∃ k, x.2 < k ∧ k ≤ j ∧ N.Closing (x.1, k) := by
  refine t.exists_closing hx (fun b hb => ?_) hj hu
  have hl : b.kind.live = false := by
    by_contra hl
    rw [Bool.not_eq_false] at hl
    have hlen : x = (x.1, N.len x.1) := Prod.ext rfl (w.live hb hl).1
    rw [hlen, w.isClosed _ hclosed] at hb
    cases hb
  exact ⟨hl, Bool.eq_true_of_not_eq_false fun hr => hn ⟨b, hb, hr, by simp [hl]⟩⟩

/-- A port changes, and every port that is about to be told still is. -/
theorem Answers.of_set (h : N.Answers e) (hx : N.port x = some a) {E : Multiset Event}
    (hlive : (e, N.len e) = x → b.peerClosed = true →
      a.peerClosed = true ∧ (a.kind = .receiving → b.kind = .receiving))
    (hr : b.remove = false → a.remove = false)
    (hc : a.kind.live → b.kind.live ∧ (b.peerClosed = false → a.peerClosed = false))
    (hclosing : ∀ y, N.Closing y → ((N.set x b).withEvents E).Closing y) :
    ((N.set x b).withEvents E).Answers e := by
  refine h.mono rfl le_rfl (fun c hcx hcc => ?_) (fun j => Untold.of_set hx hr hc) (hclosing _)
    fun k j hk hkj _ => ⟨k, hkj, hclosing _ hk⟩
  rcases port_set_cases hcx with ⟨hex, rfl⟩ | ⟨-, hcx⟩
  · obtain ⟨hac, hkind⟩ := hlive hex hcc
    exact ⟨a, hex ▸ hx, hac, hkind⟩
  · exact ⟨c, hcx, hcc, id⟩

namespace Answered

theorem init : (init : Net α).Answered := by
  intro e a ha
  cases ha

theorem of_steady (h : N.Answered) (hs : Steady N M) : M.Answered := by
  intro e
  refine (h e).mono (congrFun hs.len e) (congrFun hs.toward e).ge (fun b hb hc => ?_)
    (fun _ => hs.untold) hs.closing fun k j hk hkj _ => ⟨k, hkj, hs.closing hk⟩
  obtain ⟨a, ha, hk, -, hac⟩ := hs.exists_port hb
  exact ⟨a, ha, hac ▸ hc, fun hak => hk.trans hak⟩

/-- A port that is sent knows that the pipe is closed: the port it is renamed to will be told. -/
theorem transfer (h : N.Answered) (w : N.Shape) (r : N.Ring) (hp : N.port (e, N.len e) = some a) :
    (N.transfer e a).Answered := by
  intro e' b hb hc
  by_cases he : e' = e
  · subst he
    rw [port_transfer_live] at hb
    obtain rfl := Option.some.inj hb
    refine .inl (.inr ⟨(e', N.len e'), _, ?_, port_transfer_sent, rfl, ?_⟩)
    · rw [len_transfer_self]
      rfl
    · rw [show a.peerClosed = true from hc, Bool.or_true]
  · have hb' := hb
    rw [port_transfer_live_of_ne he] at hb'
    have hopp : e'.opp ≠ e := r.opp_ne_of_peerClosed w hp hb' hc
    refine (h e').mono (M := N.transfer e a) (len_transfer_of_ne he) le_rfl (fun c hcx hcc => ?_)
      (fun _ => Untold.of_transfer hopp) (Closing.transfer w hp)
      (fun k j hk hkj _ => ⟨k, hkj, hk.transfer w hp⟩) b hb hc
    exact ⟨c, (port_transfer_of_fst_ne he).symm.trans hcx, hcc, id⟩

theorem transferAll (h : N.Answered) (w : N.Shape) (r : N.Ring) (es : List End) :
    (N.transferAll es).Answered := by
  induction es generalizing N with
  | nil => exact h
  | cons e es ih =>
    rw [Net.transferAll]
    split
    next a hp => exact ih (h.transfer w r hp) (w.transfer hp) (r.transfer w hp)
    next => exact ih h w r

theorem acceptAll (h : N.Answered) (w : N.Shape) {es : List End} (hes : es.Nodup)
    (ht : ∀ e ∈ es, N.IsLive e .transit) : (N.acceptAll es).Answered := by
  induction es generalizing N with
  | nil => exact h
  | cons e es ih =>
    obtain ⟨hne, hes⟩ := List.nodup_cons.1 hes
    obtain ⟨a, hp, hk⟩ := ht e List.mem_cons_self
    rw [acceptAll_cons hp]
    have haccept : (N.accept e a).Answered := fun e' =>
      (h e').of_set hp (b := { a with kind := .receiving }) (fun _ hc => ⟨hc, fun _ => rfl⟩) id
        (fun _ => ⟨rfl, id⟩) fun _ => Closing.accept hp hk
    refine ih haccept (w.accept hp hk) hes fun e' he' => ?_
    obtain ⟨b, hb, hbk⟩ := ht e' (List.mem_cons_of_mem _ he')
    have hee : e' ≠ e := fun h => hne (h ▸ he')
    exact ⟨b, (port_accept_of_fst_ne hee).trans hb, hbk⟩

/-- The end that is told that the pipe is closed answers. -/
theorem closureReceive (h : N.Answered) (w : N.Shape) (r : N.Ring) {last : UInt64}
    {E : Multiset Event} (he : N.events = .closure (e, N.len e) last ::ₘ E)
    (hp : N.port (e, N.len e) = some a) (hk : a.kind = .receiving) :
    ((N.set (e, N.len e) { a with peerClosed := true, last := last }).withEvents
      (.closure (e.opp, N.toward e) (a.send - 1) ::ₘ E)).Answered := by
  set b : Port := { a with peerClosed := true, last := last } with hb
  have F : Frame N (N.set (e, N.len e) b) := frame_set hp ⟨id, id, fun _ => rfl⟩
  intro e' c hc hcc
  by_cases hee : e' = e
  · subst hee
    obtain rfl := Option.some.inj ((port_set_self (N := N) ..).symm.trans hc)
    refine .inr ⟨hk, fun j hj _ => ⟨N.toward e', hj, .inl ⟨?_, _, Multiset.mem_cons_self ..⟩⟩⟩
    exact F.arrived _ (r.arrived_toward w e')
  · have hne : ∀ {z : End} {i : ℕ}, z ≠ e → (z, i) ≠ (e, N.len e) := fun hz heq =>
      hz (congrArg Prod.fst heq)
    have hc' : N.port (e', N.len e') = some c := (port_set_of_ne _ (hne hee)).symm.trans hc
    have hopp : e'.opp ≠ e := r.opp_ne_of_peerClosed w hp hc' hcc
    refine ((h e') c hc' hcc).imp (Closing.closureReceive he hp hk (hne hee)) ?_
    rintro ⟨hck, hall⟩
    refine ⟨hck, fun j hj hu => ?_⟩
    obtain ⟨d, hd, hdr, hdl⟩ := hu
    obtain ⟨k, hkj, hclosing⟩ :=
      hall j hj ⟨d, (port_set_of_ne _ (hne hopp)).symm.trans hd, hdr, hdl⟩
    exact ⟨k, hkj, hclosing.closureReceive he hp hk (hne hopp)⟩

/-- A proxy that is told passes it on. -/
theorem closurePass (h : N.Answered) (w : N.Shape) (r : N.Ring) {last : UInt64}
    {E : Multiset Event} (he : N.events = .closure x last ::ₘ E) (hx : N.port x = some a)
    (hk : a.kind.live = false) :
    ((N.set x { a with peerClosed := true, remove := true, last := last }).withEvents
      (.closure x.succ last ::ₘ E)).Answered := by
  set b : Port := { a with peerClosed := true, remove := true, last := last } with hb
  have hlt := w.proxy hx hk
  have hne : ∀ e, (e, N.len e) ≠ x := by
    rintro e rfl
    exact absurd hlt (Nat.lt_irrefl _)
  intro e
  refine (h e).mono rfl le_rfl (fun c hc hcc => ?_) (fun j => ?_)
    (Closing.closurePass he hx (hne e)) fun k j hclosing hkj hu => ?_
  · exact ⟨c, (port_set_of_ne _ (hne e)).symm.trans hc, hcc, id⟩
  · exact Untold.of_set hx (b := b) (by simp [hb]) (by simp [hk])
  · by_cases hkx : (e.opp, k) = x
    · subst hkx
      have hkj' : k ≠ j := by
        rintro rfl
        obtain ⟨d, hd, hdr, -⟩ := hu
        obtain rfl := Option.some.inj ((port_set_self (N := N) ..).symm.trans hd)
        cases hdr
      exact ⟨k + 1, Nat.lt_of_le_of_ne hkj hkj', Closing.of_closurePass r hx hk⟩
    · exact ⟨k, hkj, hclosing.closurePass he hx hkx⟩

/-- An event is dropped. A closure that comes to a port that is gone was passed on by it, if it was
    not skipped. -/
theorem drop (h : N.Answered) (w : N.Shape) (r : N.Ring) (t : N.Tended) {ev : Event}
    {E : Multiset Event} (he : N.events = ev ::ₘ E)
    (hgone : ∀ a, N.port ev.dest = some a → a.kind = .transit)
    (hskipped : ∀ x last a, ev = .closure x last → N.port (x.1.opp, N.len x.1.opp) = some a →
      a.kind = .receiving → a.peerClosed = true → ¬N.Untold (x.1, N.toward x.1.opp)) :
    (N.withEvents E).Answered := by
  have hkeep : ∀ {y}, N.Closing y → (∀ last, ev ≠ .closure y last) → (N.withEvents E).Closing y :=
    fun hy hne => hy.withEvents fun last hev => mem_of_ne he hev (hne last).symm
  intro e a ha hc
  rcases h e a ha hc with hclosing | ⟨hk, hall⟩
  · left
    rcases hclosing with ⟨harr, last, hev⟩ | hclosing
    · refine hkeep (.inl ⟨harr, last, hev⟩) ?_
      rintro last' rfl
      exact absurd (hgone a ha) (harr.2 a ha)
    · exact .inr hclosing
  · refine .inr ⟨hk, fun j hj hu => ?_⟩
    have hopp : N.toward e.opp.opp = N.toward e := congrArg N.toward e.opp_opp
    have hclosed := (r.live _ a ha (w.kind_live ha)).peerClosed hc
    obtain ⟨k, hkj, ⟨harr, last, hev⟩ | hclosing⟩ := hall j hj hu
    · by_cases hlost : ∃ last, ev = .closure (e.opp, k) last
      · obtain ⟨last, rfl⟩ := hlost
        have hafter : ∃ k', k < k' ∧ k' ≤ j ∧ N.Closing (e.opp, k') := by
          by_cases hle : N.toward e ≤ k
          · refine t.exists_closing_of_not_untold w (x := (e.opp, k)) hclosed (hopp.trans_le hle) ?_
              hkj hu
            rintro ⟨b, hb, -⟩
            exact harr.2 b hb (hgone b hb)
          · -- The proxy was skipped: the one that the end points to now is told.
            have htold := hskipped (e.opp, k) last a rfl (by rwa [End.opp_opp]) hk hc
            obtain ⟨k', hlt, hk'⟩ := t.exists_closing_of_not_untold w (x := (e.opp, N.toward e))
              hclosed hopp.le (hopp ▸ htold) hj hu
            exact ⟨k', (not_le.1 hle).trans hlt, hk'⟩
        obtain ⟨k', hlt, hkj', hclosing⟩ := hafter
        refine ⟨k', hkj', hkeep hclosing fun last' heq => ?_⟩
        exact hlt.ne (congrArg Prod.snd (Event.closure.inj heq).1)
      · exact ⟨k, hkj, hkeep (.inl ⟨harr, last, hev⟩) (not_exists.1 hlost)⟩
    · exact ⟨k, hkj, .inr hclosing⟩

/-- A step preserves the invariant, if no closure is lost that a proxy waits for. -/
theorem step (h : N.Answered) (r : N.Ring) (w : N.Shape) (c : N.Cargo) (t : N.Tended) {l : Label}
    (hs : Step N l M)
    (hskipped : ∀ x last a, l = .event (.closure x last) →
      (∀ b, N.port x = some b → b.kind = .transit) → N.port (x.1.opp, N.len x.1.opp) = some a →
      a.kind = .receiving → a.peerClosed = true → ¬N.Untold (x.1, N.toward x.1.opp)) :
    M.Answered := by
  cases hs with
  | create =>
    intro e b hb hc
    rcases port_create_cases hb with ⟨-, -, rfl⟩ | hb'
    · cases hc
    · have hlt : e.pipe < N.pipes := w.pipe_lt hb'
      refine (h e).mono (M := N.create) rfl le_rfl (fun c hcx hcc => ?_) (fun j hu => ?_)
        (Closing.create w) (fun k j hk hkj _ => ⟨k, hkj, hk.create w⟩) b hb hc
      · exact ⟨c, (port_create_of_pipe_lt hlt).symm.trans hcx, hcc, id⟩
      · obtain ⟨d, hd, hdr, hdl⟩ := hu
        exact ⟨d, (port_create_of_pipe_lt (x := (e.opp, j)) hlt).symm.trans hd, hdr, hdl⟩
  | @send e a payload es H hp hk _ _ _ _ =>
    have hset : (N.set (e, N.len e) { a with send := a.send + 1 }).Answered :=
      h.of_steady (steady_set hp (b := { a with send := a.send + 1 }) rfl)
    have hshape : (N.set (e, N.len e) { a with send := a.send + 1 }).Shape :=
      w.set hp rfl (by simp [hk]) (fun _ => (w.live hp (by simp [hk])).2) fun hs => w.stored hp hs
    exact hset.transferAll hshape (r.setNumbers w hp (a.send + 1) a.next) es
  | @get e a l L hp _ _ _ _ _ _ =>
    have hset : (N.set (e, N.len e) { a with next := a.next + 1 }).Answered :=
      h.of_steady (steady_set hp (b := { a with next := a.next + 1 }) rfl)
    exact hset
  | @arrive a l L hL hq _ _ _ =>
    have hmem : l ∈ N.letters := hL ▸ Multiset.mem_cons_self l L
    exact h.acceptAll w (c.ports_nodup hmem) (c.transit hmem hq)
  | @reject l L hL hq _ =>
    have hmem : l ∈ N.letters := hL ▸ Multiset.mem_cons_self l L
    exact h.acceptAll w (c.ports_nodup hmem) (c.transit hmem hq)
  | @forward x a l L hx hk _ _ _ _ =>
    set b : Port := { a with
      next := a.next + 1
      send := if l.number = 0 then a.send + 1 else a.send } with hb
    have hset : (N.set x b).Answered := h.of_steady (steady_set hx (b := b) rfl)
    have hshape : (N.set x b).Shape :=
      w.set hx rfl (by simp [b, hk]) (by simp [b, hk]) fun hs => w.stored hx hs
    exact hset.transferAll hshape (r.setNumbers w hx b.send b.next) l.ports
  | @portAccepted x a E he hx hk =>
    exact fun e => (h e).of_set hx (b := { a with kind := .proxying })
      (fun _ hc => ⟨hc, by simp [hk]⟩) id (by simp [hk]) fun _ => Closing.portAccepted r he hx
  | @remove x a hx hk _ _ =>
    intro e
    have hE : ∀ ev ∈ N.events, ev ∈ (if a.stored then
        .ack x.succ kInvalidSequenceNum ::ₘ N.events else N.events : Multiset Event) := by
      intro ev hev
      split_ifs
      · exact Multiset.mem_cons_of_mem hev
      · exact hev
    refine (h e).mono rfl le_rfl (fun c hc hcc => ?_) (fun _ => Untold.of_erase)
      (Closing.remove w hx hk hE) fun k j hclosing hkj _ => ⟨k, hkj, hclosing.remove w hx hk hE⟩
    exact ⟨c, (port_erase_cases hc).2, hcc, id⟩
  | @redirect e a E he _ _ _ =>
    exact fun e' => (h e').mono rfl ((frame_redirect e).toward_le e')
      (fun c hc hcc => ⟨c, hc, hcc, id⟩) (fun _ => id) (Closing.redirect he)
      fun k j hclosing hkj _ => ⟨k, hkj, hclosing.redirect he⟩
  | store he hx _ => exact h.of_steady (steady_store he hx)
  | proxyPass he _ _ _ => exact h.of_steady (steady_withEvents he (.inl ⟨_, _, rfl⟩))
  | ackRetry he _ _ => exact h.of_steady (steady_withEvents he (.inr ⟨_, rfl⟩))
  | @ackAccept x a last E he _ hx hk =>
    exact fun e => (h e).of_set hx (b := { a with remove := true, last := last })
      (fun _ hc => ⟨hc, id⟩) (by simp) (by simp [hk]) fun _ => Closing.ackAccept he hx hk
  | closureReceive he hp hk => exact h.closureReceive w r he hp hk
  | closurePass he hx hk => exact h.closurePass w r he hx hk
  -- Only a closure that is dropped could have told an end that is closed.
  | @drop ev E he _ hgone =>
    refine h.drop w r t he hgone fun x last a hev => ?_
    subst hev
    exact hskipped x last a rfl hgone
  | @close e a H hp hk _ =>
    intro e'
    refine (h e').mono (M := N.close e a H) rfl le_rfl (fun c hc hcc => ?_) (fun j hu => ?_)
      (Closing.close hp hk) fun k j hclosing hkj _ => ⟨k, hkj, hclosing.close hp hk⟩
    · exact ⟨c, (port_close_cases hc).2, hcc, id⟩
    · obtain ⟨d, hd, hdr, hdl⟩ := hu
      exact ⟨d, (port_close_cases hd).2, hdr, hdl⟩

end Answered

end MojoEdk.Ports.Net
