import MojoEdk.Ports.Net.Ring

/-!
# A proxy announces itself once

The announcement of a proxy goes round the ring until the port is found that is to skip the
proxy. It must not go round when there is none: a proxy has one announcement at most, on its
way or kept by the proxy before it, and none once it is skipped (`Net.Heard`).
-/

namespace MojoEdk.Ports.Net

variable {α : Type*} {N M : Net α} {x y : Place} {a b : Port} {e : End} {es : List End}
  {E : Multiset Event} {ev ev' : Event}

/-! ## Announcements that are kept -/

/-- The ports that stored an acknowledgement are some of those of before. -/
def Stored (N M : Net α) : Prop :=
  ∀ x b, M.port x = some b → b.stored → ∃ a, N.port x = some a ∧ a.stored

theorem Stored.trans {M' : Net α} (h : Stored N M) (h' : Stored M M') : Stored N M' := by
  intro x b hb hs
  obtain ⟨a, ha, hs⟩ := h' x b hb hs
  exact h x a ha hs

theorem stored_of_eq (h : M.port = N.port) : Stored N M := fun _ b hb hs => ⟨b, h ▸ hb, hs⟩

/-- A port changes, but stores no announcement. -/
theorem stored_set {a b : Port} (hx : N.port x = some a) (hb : b.stored → a.stored) :
    Stored N (N.set x b) := by
  intro y c hc hs
  rcases port_set_cases hc with ⟨rfl, rfl⟩ | ⟨-, hc⟩
  · exact ⟨a, hx, hb hs⟩
  · exact ⟨c, hc, hs⟩

theorem stored_erase (x : Place) : Stored N (N.erase x) :=
  fun _ b hb hs => ⟨b, (port_erase_cases hb).2, hs⟩

theorem stored_lose (S : Place → Prop) [DecidablePred S] : Stored N (N.lose S) := by
  intro x b hb hs
  rcases port_lose_cases hb with hb | ⟨a, ha, -, rfl⟩
  · exact ⟨b, hb, hs⟩
  · exact ⟨a, ha, hs⟩

theorem stored_transferAll (es : List End) : Stored N (N.transferAll es) := by
  induction es generalizing N with
  | nil => exact stored_of_eq rfl
  | cons e es ih =>
    rw [Net.transferAll]
    split
    next a ha =>
      refine Stored.trans (fun x b hb hs => ?_) ih
      rcases port_transfer_cases hb with ⟨-, rfl⟩ | ⟨rfl, rfl⟩ | ⟨-, -, hb⟩
      · cases hs
      · exact ⟨a, ha, hs⟩
      · exact ⟨b, hb, hs⟩
    next => exact ih

theorem stored_acceptAll (es : List End) : Stored N (N.acceptAll es) := by
  induction es generalizing N with
  | nil => exact stored_of_eq rfl
  | cons e es ih =>
    rw [Net.acceptAll]
    split
    next a ha => exact Stored.trans (stored_set ha (b := { a with kind := .receiving }) id) ih
    next => exact ih

/-! ## The invariant -/

/-- An event is the announcement of a proxy, or asks it to announce itself again. -/
def Event.Announces (x : Place) : Event → Prop
  | .proxy _ y => y = x
  | .ack y last => y = x ∧ last = kInvalidSequenceNum
  | _ => False

instance (x : Place) : DecidablePred (Event.Announces x)
  | .proxy _ y => inferInstanceAs (Decidable (y = x))
  | .ack y last => inferInstanceAs (Decidable (y = x ∧ last = kInvalidSequenceNum))
  | .accepted _ | .closure _ _ => inferInstanceAs (Decidable False)

/-- The announcements of a proxy on their way. -/
def announcements (N : Net α) (x : Place) : ℕ := N.events.countP (Event.Announces x)

/-- The announcement of a proxy is kept by the proxy before it. -/
def Kept (N : Net α) (x : Place) : Prop := ∃ y a, y.succ = x ∧ N.port y = some a ∧ a.stored = true

/-- An announcement that is kept was kept before. -/
theorem Kept.of_stored (hs : Stored N M) (h : M.Kept y) : N.Kept y := by
  obtain ⟨z, c, hz, hc, hcs⟩ := h
  obtain ⟨d, hd, hds⟩ := hs z c hc hcs
  exact ⟨z, d, hz, hd, hds⟩

/-- A proxy announces itself once, until it is skipped. -/
structure Heard (N : Net α) : Prop where
  once : ∀ x, N.announcements x ≤ 1
  pending : ∀ x, 0 < N.announcements x → N.toward x.1.opp ≤ x.2 ∧ ¬N.Kept x
  kept : ∀ x, N.Kept x → N.toward x.1.opp ≤ x.2

/-- A proxy that is announced is so by some event. -/
theorem exists_announces (h : 0 < N.announcements x) : ∃ ev ∈ N.events, ev.Announces x :=
  Multiset.countP_pos.1 h

/-- An event that is in flight announces a proxy. -/
theorem announcements_pos (hev : ev ∈ N.events) (h : ev.Announces x) : 0 < N.announcements x :=
  Multiset.countP_pos.2 ⟨ev, hev, h⟩

theorem announcements_cons (he : N.events = ev ::ₘ E) (x : Place) :
    N.announcements x = E.countP (Event.Announces x) + if ev.Announces x then 1 else 0 := by
  rw [announcements, he, Multiset.countP_cons]

/-- An event takes the place of another one, and announces nothing else. -/
theorem announcements_le (he : N.events = ev ::ₘ E) (he' : M.events = ev' ::ₘ E)
    (h : ∀ x, ev'.Announces x → ev.Announces x) (x : Place) :
    M.announcements x ≤ N.announcements x := by
  rw [announcements_cons he, announcements_cons he']
  split_ifs with h1 h2
  · exact le_rfl
  · exact absurd (h x h1) h2
  · exact Nat.le_succ _
  · exact le_rfl

/-- The ports that arrive announce nothing. -/
theorem announcements_acceptAll (es : List End) (x : Place) :
    (N.acceptAll es).announcements x = N.announcements x := by
  induction es generalizing N with
  | nil => rfl
  | cons e es ih =>
    rw [Net.acceptAll]
    split
    next a hp =>
      rw [ih, announcements_cons (N := N.accept e a) rfl, if_neg (by exact id), Nat.add_zero]
      rfl
    next => exact ih

/-- A proxy that announced itself, in whatever way. -/
theorem Ring.announced (r : N.Ring) (w : N.Shape) (h : 0 < N.announcements x ∨ N.Kept x) :
    N.Announced x := by
  rcases h with h | ⟨y, a, rfl, hy, hs⟩
  · obtain ⟨ev, hev, hx⟩ := exists_announces h
    have hok := r.events ev hev
    cases ev with
    | proxy d y => exact (show y = x from hx) ▸ hok.1
    | ack y last => exact hx.1 ▸ hok.1
    | accepted | closure => exact hx.elim
  · have hl : a.kind.live = false := by
      by_contra hl
      rw [Bool.not_eq_false] at hl
      rw [(w.live hy hl).2.1] at hs
      cases hs
    exact (r.proxy y a hy hl).stored hs

namespace Heard

/-- Nothing is announced at first. -/
theorem init : (init : Net α).Heard where
  once _ := Nat.zero_le _
  pending _ h := absurd h (lt_irrefl 0)
  kept _ h := by
    obtain ⟨y, a, -, hy, -⟩ := h
    cases hy

/-- No more is announced, or stored, than was. -/
theorem mono (h : N.Heard) (htoward : M.toward = N.toward)
    (hevents : ∀ x, M.announcements x ≤ N.announcements x) (hstored : Stored N M) : M.Heard where
  once x := (hevents x).trans (h.once x)
  pending x hx := by
    obtain ⟨hle, hn⟩ := h.pending x (hx.trans_le (hevents x))
    exact ⟨htoward ▸ hle, fun hk => hn (hk.of_stored hstored)⟩
  kept x hx := htoward ▸ h.kept x (hx.of_stored hstored)

/-- A proxy that had no announcement has one now. -/
theorem announce (h : N.Heard) (htoward : M.toward = N.toward) (hx : N.toward x.1.opp ≤ x.2)
    (hnew : M.announcements x ≤ 1) (hkept : ¬M.Kept x)
    (hevents : ∀ y ≠ x, M.announcements y ≤ N.announcements y)
    (hstored : Stored N M) : M.Heard where
  once y := by
    by_cases hy : y = x
    · exact hy ▸ hnew
    · exact (hevents y hy).trans (h.once y)
  pending y hpos := by
    by_cases hy : y = x
    · subst hy
      exact ⟨htoward ▸ hx, hkept⟩
    · obtain ⟨hle, hn⟩ := h.pending y (hpos.trans_le (hevents y hy))
      exact ⟨htoward ▸ hle, fun hk => hn (hk.of_stored hstored)⟩
  kept y hk := htoward ▸ h.kept y (hk.of_stored hstored)

/-! ## Steps -/

/-- A proxy may forward now, and announces itself for the first time. -/
theorem portAccepted (h : N.Heard) (r : N.Ring) (w : N.Shape) (he : N.events = .accepted x ::ₘ E)
    (hx : N.port x = some a) (hk : a.kind = .buffering)
    (hev : ∀ y, ev.Announces y → y = x) :
    ((N.set x { a with kind := .proxying }).withEvents (ev ::ₘ E)).Heard := by
  -- A port that buffers has not announced itself.
  have hnew : ¬(0 < N.announcements x ∨ N.Kept x) := fun hann => by
    cases hk.symm.trans ((r.announced w hann).2 a hx)
  obtain ⟨hzero, hkept⟩ := not_or.1 hnew
  have hset : Stored N ((N.set x { a with kind := .proxying }).withEvents (ev ::ₘ E)) :=
    stored_set (b := { a with kind := .proxying }) hx id
  have hE : ∀ y, E.countP (Event.Announces y) = N.announcements y := fun y => by
    rw [announcements_cons he, if_neg (by exact id), Nat.add_zero]
  refine h.announce rfl ((r.proxy x a hx (by simp [hk])).ahead hk) ?_ (fun hk => hkept (hk.of_stored hset))
    (fun y hy => ?_) hset
  · rw [announcements_cons rfl, hE, Nat.eq_zero_of_not_pos hzero, Nat.zero_add]
    split_ifs
    · exact le_rfl
    · exact Nat.zero_le _
  · rw [announcements_cons rfl, hE, if_neg fun h => hy (hev y h), Nat.add_zero]

/-- A proxy that goes away asks the one after it to announce itself again. -/
theorem remove (h : N.Heard) (hx : N.port x = some a) {L : Multiset (Letter α)} :
    (((N.erase x).withLetters L).withEvents
      (if a.stored then .ack x.succ kInvalidSequenceNum ::ₘ N.events else N.events)).Heard := by
  set M := ((N.erase x).withLetters L).withEvents
    (if a.stored then .ack x.succ kInvalidSequenceNum ::ₘ N.events else N.events) with hM
  have herase : Stored N M := stored_erase x
  by_cases hs : a.stored
  · have hkept : N.Kept x.succ := ⟨x, a, rfl, hx, hs⟩
    have hgone : ¬M.Kept x.succ := by
      rintro ⟨z, c, hz, hc, -⟩
      obtain ⟨h1, h2⟩ := Prod.mk.inj hz
      exact (port_erase_cases hc).1 (Prod.ext h1 (Nat.succ.inj h2))
    have hcount : ∀ y, M.announcements y = N.announcements y +
        if (Event.ack x.succ kInvalidSequenceNum).Announces y then 1 else 0 := fun y =>
      announcements_cons (by rw [hM, if_pos hs]; rfl) y
    have hzero : N.announcements x.succ = 0 :=
      Nat.eq_zero_of_not_pos fun hpos => (h.pending _ hpos).2 hkept
    refine h.announce (x := x.succ) rfl (h.kept _ hkept) ?_ hgone (fun y hy => ?_) herase
    · rw [hcount, hzero, Nat.zero_add]
      split_ifs
      · exact le_rfl
      · exact Nat.zero_le _
    · rw [hcount, if_neg fun h => hy h.1.symm, Nat.add_zero]
  · refine h.mono rfl (fun y => le_of_eq ?_) herase
    rw [announcements, hM, if_neg hs]
    rfl

/-- A proxy is skipped: it announces itself no more. -/
theorem redirect (h : N.Heard) {d : Place}
    (he : N.events = .proxy d (e.opp, N.toward e) ::ₘ E) (hev : ∀ y, ¬ev.Announces y) :
    ((N.redirect e).withEvents (ev ::ₘ E)).Heard := by
  set x₀ : Place := (e.opp, N.toward e) with hx₀
  have hcount : ∀ y, ((N.redirect e).withEvents (ev ::ₘ E)).announcements y =
      E.countP (Event.Announces y) := fun y => by
    rw [announcements_cons rfl, if_neg (hev y), Nat.add_zero]
  have hle : ∀ y, E.countP (Event.Announces y) ≤ N.announcements y := fun y =>
    (announcements_cons he y).symm ▸ Nat.le_add_right _ _
  have hpos : 0 < N.announcements x₀ := by
    rw [announcements_cons he, if_pos (by exact rfl)]
    exact Nat.succ_pos _
  have hzero : E.countP (Event.Announces x₀) = 0 := by
    have honce := h.once x₀
    rw [announcements_cons he, if_pos (by exact rfl)] at honce
    omega
  -- The other proxies of the chain that announced themselves are after the one that is skipped.
  have hafter : ∀ y, y ≠ x₀ → N.toward y.1.opp ≤ y.2 → (N.redirect e).toward y.1.opp ≤ y.2 := by
    intro y hy hty
    by_cases hye : y.1.opp = e
    · rw [hye, toward_redirect_self]
      rw [hye] at hty
      refine Nat.succ_le_of_lt (lt_of_le_of_ne hty fun heq => hy (Prod.ext ?_ heq.symm))
      rw [hx₀, ← hye, End.opp_opp]
    · rwa [toward_redirect_of_ne hye]
  refine ⟨fun y => (hcount y).trans_le ((hle y).trans (h.once y)), fun y hy => ?_, fun y hy => ?_⟩
  · rw [hcount] at hy
    obtain ⟨hty, hn⟩ := h.pending y (hy.trans_le (hle y))
    refine ⟨hafter y ?_ hty, hn⟩
    rintro rfl
    exact hy.ne' hzero
  · refine hafter y ?_ (h.kept y hy)
    rintro rfl
    exact (h.pending _ hpos).2 hy

/-- The proxy before a proxy keeps its announcement. -/
theorem store (h : N.Heard) (he : N.events = .proxy x x.succ ::ₘ E) (hx : N.port x = some a) :
    ((N.set x { a with stored := true }).withEvents E).Heard := by
  have hcount : ∀ y, ((N.set x { a with stored := true }).withEvents E).announcements y ≤
      N.announcements y := fun y => (announcements_cons he y).symm ▸ Nat.le_add_right _ _
  have honce := h.once x.succ
  have hpending := h.pending x.succ
  rw [announcements_cons he, if_pos (by exact rfl)] at honce hpending
  obtain ⟨hle, -⟩ := hpending (Nat.succ_pos _)
  have hkept : ∀ {y}, ((N.set x { a with stored := true }).withEvents E).Kept y →
      y = x.succ ∨ N.Kept y := by
    rintro y ⟨z, c, hz, hc, hs⟩
    rcases port_set_cases hc with ⟨rfl, -⟩ | ⟨-, hc⟩
    · exact .inl hz.symm
    · exact .inr ⟨z, c, hz, hc, hs⟩
  refine ⟨fun y => (hcount y).trans (h.once y), fun y hy => ?_, fun y hy => ?_⟩
  · obtain ⟨hty, hn⟩ := h.pending y (hy.trans_le (hcount y))
    refine ⟨hty, fun hk => ?_⟩
    rcases hkept hk with rfl | hk
    · exact absurd hy (by change ¬0 < E.countP _; omega)
    · exact hn hk
  · rcases hkept hy with rfl | hk
    · exact hle
    · exact h.kept y hk

/-- A step preserves the invariant, if no proxy is acknowledged with the number that asks it to
    announce itself again. -/
theorem step (h : N.Heard) (r : N.Ring) (w : N.Shape) {t : Label} (hs : Step N t M)
    (hnum : ∀ e a, t = .event (.proxy (e, N.len e) (e.opp, N.toward e)) →
      N.port (e, N.len e) = some a → a.kind = .receiving → a.send - 1 ≠ kInvalidSequenceNum) :
    M.Heard := by
  have hdrop : ∀ {ev : Event} {E}, N.events = ev ::ₘ E → ∀ x,
      E.countP (Event.Announces x) ≤ N.announcements x := fun he x =>
    (announcements_cons he x).symm ▸ Nat.le_add_right _ _
  cases hs with
  | create =>
    refine h.mono rfl (fun _ => le_rfl) fun z c hc hs => ?_
    rcases port_create_cases hc with ⟨-, -, rfl⟩ | hc
    · cases hs
    · exact ⟨c, hc, hs⟩
  | @send e a payload es H hp _ _ _ _ _ =>
    refine h.mono (transferAll_toward (N := N.set _ _)) (fun x => le_of_eq ?_)
      ((stored_set (b := { a with send := a.send + 1 }) hp id).trans (stored_transferAll es))
    exact congrArg (Multiset.countP _) (transferAll_events (N := N.set _ _))
  | @get e a l L hp _ _ _ _ _ _ =>
    exact h.mono rfl (fun _ => le_rfl) (stored_set (b := { a with next := a.next + 1 }) hp id)
  | @arrive a l L _ _ _ _ _ =>
    exact h.mono acceptAll_toward (fun x => (announcements_acceptAll l.ports x).le)
      (stored_acceptAll l.ports)
  | @reject l L _ _ _ =>
    exact h.mono acceptAll_toward (fun x => (announcements_acceptAll l.ports x).le)
      (stored_acceptAll l.ports)
  | @forward x a l L hx _ _ _ _ _ =>
    refine h.mono (transferAll_toward (N := N.set _ _)) (fun x => le_of_eq ?_)
      ((stored_set (b := { a with
        next := a.next + 1
        send := if l.number = 0 then a.send + 1 else a.send }) hx id).trans
          (stored_transferAll l.ports))
    exact congrArg (Multiset.countP _) (transferAll_events (N := N.set _ _))
  | portAccepted he hx hk =>
    refine h.portAccepted r w he hx hk fun y hy => ?_
    split_ifs at hy
    · exact hy.elim
    · exact hy.symm
  | remove hx _ _ _ => exact h.remove hx
  | @redirect e a E he hp hk _ => exact h.redirect he fun y hy => hnum e a rfl hp hk hy.2
  | store he hx _ => exact h.store he hx
  | proxyPass he _ _ _ => exact h.mono rfl (announcements_le he rfl fun _ => id) (stored_of_eq rfl)
  | ackRetry he _ _ => exact h.mono rfl (announcements_le he rfl fun _ hx => ⟨hx, rfl⟩) (stored_of_eq rfl)
  | @ackAccept x a last E he _ hx _ =>
    exact h.mono rfl (hdrop he)
      (stored_set (b := { a with remove := true, last := last }) hx id)
  | @closureReceive e a last E he hp _ =>
    exact h.mono rfl (announcements_le he rfl fun _ => id)
      (stored_set (b := { a with peerClosed := true, last := last }) hp id)
  | @closurePass x a last E he hx _ =>
    exact h.mono rfl (announcements_le he rfl fun _ => id)
      (stored_set (b := { a with peerClosed := true, remove := true, last := last }) hx id)
  | drop he _ _ => exact h.mono rfl (hdrop he) (stored_of_eq rfl)
  | @close e a H hp _ _ =>
    refine h.mono rfl (fun x => le_of_eq ?_) fun z c hc hs => ⟨c, (port_close_cases hc).2, hs⟩
    rw [announcements_cons (N := N.close e a H) rfl, if_neg (by exact id), Nat.add_zero]
    rfl

end Heard

end MojoEdk.Ports.Net
