import MojoEdk.Ports.Net.Cargo

/-!
# The ring of ports stays a ring

The invariant of the protocol as long as no connection is lost (`Net.Ring`): the
proxies from where an end points to up to the live port of the other end are all
there (`Ring.present`), so that messages find their way, until the pipe is closed.

* A proxy that announced itself stays a proxy, and what it points to has arrived,
  so that it may be skipped.
* A proxy is removed only once it is skipped, or no message will be sent to it.
* A port that is to forward to a port in transit is buffering, and there until the
  acceptance of that port reaches it.

Sequence numbers play no role here, nor do the messages but for where they are.
-/

namespace MojoEdk.Ports.Net

variable {α : Type*} {N M : Net α}

/-! ## The invariant -/

/-- Nothing more is sent from an end: it is closed, or knows that the other is. -/
def Frozen (N : Net α) (e : End) : Prop :=
  N.closed e ∨ ∃ a, N.port (e, N.len e) = some a ∧ a.peerClosed

/-- A port that announced itself as a proxy: it is still one, unless it is gone. -/
def Announced (N : Net α) (x : Place) : Prop :=
  x.2 < N.len x.1 ∧ ∀ a, N.port x = some a → a.kind = .proxying

/-- A place whose port is not in transit. -/
def Arrived (N : Net α) (x : Place) : Prop :=
  x.2 ≤ N.len x.1 ∧ ∀ a, N.port x = some a → a.kind ≠ .transit

/-- There is a buffering port at a place. -/
def Buffering (N : Net α) (x : Place) : Prop := ∃ a, N.port x = some a ∧ a.kind = .buffering

/-- What holds as long as an event is in flight. -/
def EventOk (N : Net α) : Event → Prop
  | .accepted x => N.Buffering x ∧ N.Arrived x.succ
  | .proxy _ x => N.Announced x ∧ N.Arrived x.succ
  | .ack x last => N.Announced x ∧ (last ≠ kInvalidSequenceNum → x.2 < N.toward x.1.opp)
  | .closure d _ => N.Frozen d.1.opp

/-- What holds of a proxy. -/
structure ProxyOk (N : Net α) (x : Place) (a : Port) : Prop where
  arrived : a.kind = .proxying → N.Arrived x.succ
  ahead : a.kind = .buffering → N.toward x.1.opp ≤ x.2
  stored : a.stored → N.Announced x.succ
  peerClosed : a.peerClosed → N.Frozen x.1.opp
  remove : a.remove → N.Frozen x.1.opp ∨ (a.kind = .proxying ∧ x.2 < N.toward x.1.opp)

/-- What holds of a live port. -/
structure LiveOk (N : Net α) (x : Place) (a : Port) : Prop where
  referred : a.kind = .transit → N.Buffering (x.1, x.2 - 1)
  ahead : a.kind = .transit → N.toward x.1.opp < x.2
  peerClosed : a.peerClosed → N.closed x.1.opp

/-- The invariant of the protocol. -/
structure Ring (N : Net α) : Prop where
  live : ∀ x a, N.port x = some a → a.kind.live → N.LiveOk x a
  proxy : ∀ x a, N.port x = some a → a.kind.live = false → N.ProxyOk x a
  events : ∀ ev ∈ N.events, N.EventOk ev
  accepted_once : ∀ x, N.events.count (.accepted x) ≤ 1
  letters : ∀ l ∈ N.letters, N.Arrived l.place
  present : ∀ x, N.Passed x → N.toward x.1.opp ≤ x.2 → ¬N.Frozen x.1.opp → N.port x ≠ none

/-- What a step leaves of the facts about the ports it does not touch. -/
structure Frame (N M : Net α) : Prop where
  toward_le : ∀ e, N.toward e ≤ M.toward e
  closed : ∀ e, N.closed e → M.closed e
  frozen : ∀ e, N.Frozen e → M.Frozen e
  announced : ∀ x, N.Announced x → M.Announced x
  arrived : ∀ x, N.Arrived x → M.Arrived x

/-- What holds of a proxy stays true, if one that buffers is not skipped. -/
theorem ProxyOk.mono (F : Frame N M) {x : Place} {a : Port} (h : N.ProxyOk x a)
    (hb : a.kind = .buffering → M.toward x.1.opp ≤ x.2) : M.ProxyOk x a where
  arrived hk := F.arrived _ (h.arrived hk)
  ahead := hb
  stored hs := F.announced _ (h.stored hs)
  peerClosed hc := F.frozen _ (h.peerClosed hc)
  remove hr := (h.remove hr).imp (F.frozen _) fun ⟨hk, hlt⟩ => ⟨hk, hlt.trans_le (F.toward_le _)⟩

/-- What holds of a live port stays true, if the port before one in transit buffers still. -/
theorem LiveOk.mono (F : Frame N M) {x : Place} {a : Port} (h : N.LiveOk x a)
    (hr : a.kind = .transit → N.Buffering (x.1, x.2 - 1) → M.Buffering (x.1, x.2 - 1))
    (ht : a.kind = .transit → M.toward x.1.opp < x.2) : M.LiveOk x a where
  referred hk := hr hk (h.referred hk)
  ahead := ht
  peerClosed hc := F.closed _ (h.peerClosed hc)

/-- What an event tells stays true, if the port that it tells of an arrival buffers still. -/
theorem EventOk.mono (F : Frame N M) {ev : Event} (h : N.EventOk ev)
    (ha : ∀ x, ev = .accepted x → N.Buffering x → M.Buffering x) : M.EventOk ev := by
  cases ev with
  | accepted x => exact ⟨ha x rfl h.1, F.arrived _ h.2⟩
  | proxy d x => exact ⟨F.announced _ h.1, F.arrived _ h.2⟩
  | ack x last => exact ⟨F.announced _ h.1, fun hl => (h.2 hl).trans_le (F.toward_le _)⟩
  | closure d last => exact F.frozen _ h

namespace Ring

theorem init : (init : Net α).Ring where
  live _ _ h := by cases h
  proxy _ _ h := by cases h
  events _ h := absurd h (Multiset.notMem_zero _)
  accepted_once _ := Nat.zero_le _
  letters _ h := absurd h (Multiset.notMem_zero _)
  present x h := absurd h.1 (Nat.not_lt_zero _)

/-! ## Events and messages -/

/-- The events change, to some that tell what is true, and announce no arrival twice. -/
theorem withEvents (h : N.Ring) {E : Multiset Event} (hE : ∀ ev ∈ E, N.EventOk ev)
    (hc : ∀ x, E.count (.accepted x) ≤ 1) : (N.withEvents E).Ring where
  live x a hx hl := { h.live x a hx hl with }
  proxy x a hx hl := { h.proxy x a hx hl with }
  events ev hev := by
    have := hE ev hev
    cases ev <;> exact this
  accepted_once := hc
  letters := h.letters
  present := h.present

/-- The messages change, to some at places whose ports are not in transit. -/
theorem withLetters (h : N.Ring) {L : Multiset (Letter α)} (hL : ∀ l ∈ L, N.Arrived l.place) :
    (N.withLetters L).Ring where
  live x a hx hl := { h.live x a hx hl with }
  proxy x a hx hl := { h.proxy x a hx hl with }
  events ev hev := by
    have := h.events ev hev
    cases ev <;> exact this
  accepted_once := h.accepted_once
  letters := hL
  present := h.present

theorem withHeld (h : N.Ring) (H : Multiset End) : (N.withHeld H).Ring where
  live x a hx hl := { h.live x a hx hl with }
  proxy x a hx hl := { h.proxy x a hx hl with }
  events ev hev := by
    have := h.events ev hev
    cases ev <;> exact this
  accepted_once := h.accepted_once
  letters := h.letters
  present := h.present

theorem noteSent (h : N.Ring) (e : End) (m : UInt64 × α) : (N.noteSent e m).Ring where
  live x a hx hl := { h.live x a hx hl with }
  proxy x a hx hl := { h.proxy x a hx hl with }
  events ev hev := by
    have := h.events ev hev
    cases ev <;> exact this
  accepted_once := h.accepted_once
  letters := h.letters
  present := h.present

theorem noteReturned (h : N.Ring) (e : End) (m : UInt64 × α) : (N.noteReturned e m).Ring where
  live x a hx hl := { h.live x a hx hl with }
  proxy x a hx hl := { h.proxy x a hx hl with }
  events ev hev := by
    have := h.events ev hev
    cases ev <;> exact this
  accepted_once := h.accepted_once
  letters := h.letters
  present := h.present

/-- A message leaves the place where it was. -/
theorem take (h : N.Ring) {L : Multiset (Letter α)} (hL : L ≤ N.letters) :
    (N.withLetters L).Ring :=
  h.withLetters fun l hl => h.letters l (Multiset.mem_of_le hL hl)

/-- A message is sent to a place whose port is not in transit. -/
theorem post (h : N.Ring) {l : Letter α} (hl : N.Arrived l.place) :
    (N.withLetters (l ::ₘ N.letters)).Ring :=
  h.withLetters (Multiset.forall_mem_cons.2 ⟨hl, h.letters⟩)

/-- An event is consumed. -/
theorem consume (h : N.Ring) {ev : Event} {E : Multiset Event} (he : N.events = ev ::ₘ E) :
    (N.withEvents E).Ring :=
  h.withEvents (fun ev' hev => h.events ev' (he ▸ Multiset.mem_cons_of_mem hev)) fun x =>
    (Multiset.count_le_of_le _ (he ▸ Multiset.le_cons_self E ev)).trans (h.accepted_once x)

/-- An event is sent that tells what is true. -/
theorem emit (h : N.Ring) {ev : Event} (hev : N.EventOk ev)
    (hne : ∀ x, ev = .accepted x → ev ∉ N.events) : (N.withEvents (ev ::ₘ N.events)).Ring := by
  refine h.withEvents (Multiset.forall_mem_cons.2 ⟨hev, h.events⟩) fun x => ?_
  by_cases hx : ev = .accepted x
  · rw [← hx, Multiset.count_cons_self, Multiset.count_eq_zero.2 (hne x hx)]
  · rw [Multiset.count_cons_of_ne (Ne.symm hx)]
    exact h.accepted_once x

/-- An event that is in flight tells what is true. -/
theorem eventOk (h : N.Ring) {ev : Event} {E : Multiset Event} (he : N.events = ev ::ₘ E) :
    N.EventOk ev :=
  h.events ev (he ▸ Multiset.mem_cons_self ev E)

end Ring

/-! ## Changes of single ports -/

/-- The changes of a port that keep what is known of it. -/
structure Port.Update (a b : Port) : Prop where
  transit : a.kind ≠ .transit → b.kind ≠ .transit
  proxying : a.kind = .proxying → b.kind = .proxying
  peerClosed : a.peerClosed → b.peerClosed

/-- What is known of the other ports stays true when a port changes. -/
theorem frame_set {x : Place} {a b : Port} (hx : N.port x = some a) (ha : Port.Update a b) :
    Frame N (N.set x b) where
  toward_le _ := le_rfl
  closed _ h := h
  frozen e h := by
    refine h.imp id fun ⟨c, hc, hcc⟩ => ?_
    by_cases he : (e, N.len e) = x
    · subst he
      rw [hx] at hc
      exact ⟨b, port_set_self .., ha.peerClosed (Option.some.inj hc ▸ hcc)⟩
    · exact ⟨c, (port_set_of_ne _ he).trans hc, hcc⟩
  announced y h := by
    refine ⟨h.1, fun c hc => ?_⟩
    rcases port_set_cases hc with ⟨rfl, rfl⟩ | ⟨-, hc⟩
    · exact ha.proxying (h.2 a hx)
    · exact h.2 c hc
  arrived y h := by
    refine ⟨h.1, fun c hc => ?_⟩
    rcases port_set_cases hc with ⟨rfl, rfl⟩ | ⟨-, hc⟩
    · exact ha.transit (h.2 a hx)
    · exact h.2 c hc

/-- A port buffers still, if the one that changes does. -/
theorem Buffering.set {x y : Place} {a b : Port} (hx : N.port x = some a)
    (hb : a.kind = .buffering → b.kind = .buffering) (h : N.Buffering y) :
    (N.set x b).Buffering y := by
  obtain ⟨c, hc, hk⟩ := h
  by_cases hy : y = x
  · subst hy
    rw [hx] at hc
    exact ⟨b, port_set_self .., hb (Option.some.inj hc ▸ hk)⟩
  · exact ⟨c, (port_set_of_ne _ hy).trans hc, hk⟩

namespace Ring

/-- A port changes. If it stops buffering, what it forwards to has arrived. -/
theorem set (h : N.Ring) (w : N.Shape) {x : Place} {a b : Port} (hx : N.port x = some a)
    (ha : Port.Update a b)
    (hbuf : (a.kind = .buffering → b.kind = .buffering) ∨
      (N.Arrived x.succ ∧ .accepted x ∉ N.events))
    (hlive : b.kind.live → (N.set x b).LiveOk x b)
    (hproxy : b.kind.live = false → (N.set x b).ProxyOk x b) : (N.set x b).Ring where
  live y c hy hl := by
    rcases port_set_cases hy with ⟨rfl, rfl⟩ | ⟨-, hc⟩
    · exact hlive hl
    · refine (h.live y c hc hl).mono (frame_set hx ha) (fun hk hbf => ?_) (h.live y c hc hl).ahead
      rcases hbuf with hb | ⟨harr, -⟩
      · exact hbf.set hx hb
      · -- The port before one in transit does not change.
        obtain ⟨d, hd, hdk⟩ := hbf
        refine ⟨d, (port_set_of_ne _ ?_).trans hd, hdk⟩
        rintro rfl
        have hpos : y.2 - 1 + 1 = y.2 := Nat.sub_add_cancel (w.transit_pos hc hk)
        exact harr.2 c (by rw [Place.succ, hpos]; exact hc) hk
  proxy y c hy hl := by
    rcases port_set_cases hy with ⟨rfl, rfl⟩ | ⟨-, hy⟩
    · exact hproxy hl
    · exact (h.proxy y c hy hl).mono (frame_set hx ha) (h.proxy y c hy hl).ahead
  events ev hev := by
    refine (h.events ev hev).mono (frame_set hx ha) ?_
    rintro y rfl hy
    rcases hbuf with hb | ⟨-, hn⟩
    · exact hy.set hx hb
    · obtain ⟨d, hd, hdk⟩ := hy
      refine ⟨d, (port_set_of_ne _ ?_).trans hd, hdk⟩
      rintro rfl
      exact hn hev
  accepted_once := h.accepted_once
  letters l hl := (frame_set hx ha).arrived _ (h.letters l hl)
  present y hy ht hf := by
    by_cases hyx : y = x
    · rw [hyx, port_set_self]
      exact Option.some_ne_none _
    · rw [port_set_of_ne _ hyx]
      exact h.present y hy ht fun hfr => hf ((frame_set hx ha).frozen _ hfr)

end Ring

/-! ## Transfers -/

section Transfer

variable {e : End} {a : Port}

/-- What is known of the ports stays true when one is sent. -/
theorem frame_transfer (hp : N.port (e, N.len e) = some a) : Frame N (N.transfer e a) where
  toward_le _ := le_rfl
  closed _ h := h
  frozen e' h := by
    refine h.imp id fun ⟨b, hb, hc⟩ => ?_
    by_cases he : e' = e
    · subst he
      rw [hp] at hb
      exact ⟨_, port_transfer_live, Option.some.inj hb ▸ hc⟩
    · exact ⟨b, (port_transfer_live_of_ne he).trans hb, hc⟩
  announced x h := by
    refine ⟨h.1.trans_le (len_le_transfer _), fun b hb => ?_⟩
    rcases port_transfer_cases hb with ⟨rfl, -⟩ | ⟨rfl, -⟩ | ⟨-, -, hx⟩
    · exact absurd h.1 (by simp)
    · exact absurd h.1 (by simp)
    · exact h.2 b hx
  arrived x h := by
    refine ⟨h.1.trans (len_le_transfer _), fun b hb => ?_⟩
    rcases port_transfer_cases hb with ⟨rfl, -⟩ | ⟨rfl, rfl⟩ | ⟨-, -, hx⟩
    · exact absurd h.1 (by simp)
    · simp
    · exact h.2 b hx

/-- A port that buffers does so after another one is sent. -/
theorem Buffering.transfer (w : N.Shape) {x : Place} (h : N.Buffering x) :
    (N.transfer e a).Buffering x := by
  obtain ⟨b, hb, hk⟩ := h
  have hlt := w.proxy hb (by simp [hk])
  refine ⟨b, (port_transfer_of_ne ?_ ?_).trans hb, hk⟩
  · rintro rfl
    exact absurd hlt (by simp)
  · rintro rfl
    exact absurd hlt (by simp)

namespace Ring

/-- A port is sent: the one before it buffers until it has arrived. -/
theorem transfer (h : N.Ring) (w : N.Shape) (hp : N.port (e, N.len e) = some a) :
    (N.transfer e a).Ring := by
  have F := frame_transfer hp
  have hl := h.live _ _ hp (w.kind_live hp)
  have hlen : N.toward e.opp ≤ N.len e := (w.toward_le e.opp).trans_eq (by simp)
  refine ⟨fun x b hx hb => ?_, fun x b hx hb => ?_, fun ev hev => (h.events ev hev).mono F ?_,
    h.accepted_once, fun l hl => F.arrived _ (h.letters l hl), fun x hx ht hf => ?_⟩
  -- The new port is in transit, and the one it replaces buffers for it.
  · rcases port_transfer_cases hx with ⟨rfl, rfl⟩ | ⟨-, rfl⟩ | ⟨-, -, hx⟩
    · exact ⟨fun _ => ⟨_, port_transfer_sent, rfl⟩, fun _ => Nat.lt_succ_of_le hlen,
        hl.peerClosed⟩
    · simp at hb
    · exact (h.live x b hx hb).mono F (fun _ => Buffering.transfer w) (h.live x b hx hb).ahead
  · rcases port_transfer_cases hx with ⟨-, rfl⟩ | ⟨rfl, rfl⟩ | ⟨-, -, hx⟩
    · simp at hb
    · obtain ⟨-, hs, hr⟩ := w.live hp (w.kind_live hp)
      refine ⟨by simp, fun _ => hlen, fun hs' => ?_, fun hc => .inl (hl.peerClosed hc),
        fun hr' => .inl (.inl (hl.peerClosed ?_))⟩
      · simp [hs] at hs'
      · simpa [hr] using hr'
    · exact (h.proxy x b hx hb).mono F (h.proxy x b hx hb).ahead
  · exact fun x _ => Buffering.transfer w
  · by_cases hx1 : x = (e, N.len e)
    · rw [hx1, port_transfer_sent]
      exact Option.some_ne_none _
    · by_cases hx2 : x = (e, N.len e + 1)
      · rw [hx2, port_transfer_new]
        exact Option.some_ne_none _
      · rw [port_transfer_of_ne hx2 hx1]
        refine h.present x ⟨hx.1, ?_⟩ ht fun hfr => hf (F.frozen _ hfr)
        by_cases he : x.1 = e
        · have := hx.2
          rw [he, len_transfer_self] at this
          rw [he]
          exact lt_of_le_of_ne (Nat.le_of_lt_succ this) fun heq => hx1 (Prod.ext he heq)
        · exact hx.2.trans_eq (len_transfer_of_ne he)

/-- The ports of a message are sent, one after the other. -/
theorem transferAll (h : N.Ring) (w : N.Shape) (es : List End) : (N.transferAll es).Ring := by
  induction es generalizing N with
  | nil => exact h
  | cons e es ih =>
    rw [Net.transferAll]
    split
    · next hp => exact ih (h.transfer w hp) (w.transfer hp)
    · exact ih h w

end Ring

/-- A place whose port is not in transit stays one. -/
theorem Arrived.transferAll {x : Place} (h : N.Arrived x) (es : List End) :
    (N.transferAll es).Arrived x := by
  induction es generalizing N with
  | nil => exact h
  | cons e es ih =>
    rw [Net.transferAll]
    split
    · next hp => exact ih ((frame_transfer hp).arrived x h)
    · exact ih h

end Transfer

/-! ## Redirections -/

/-- The end that skips a proxy sends to the next place. -/
theorem toward_redirect_self {e : End} : (N.redirect e).toward e = N.toward e + 1 :=
  Function.update_self ..

theorem toward_redirect_of_ne {e e' : End} (h : e' ≠ e) :
    (N.redirect e).toward e' = N.toward e' :=
  Function.update_of_ne h ..

/-- What is known of the ports stays true when a proxy is skipped. -/
theorem frame_redirect (e : End) : Frame N (N.redirect e) where
  toward_le e' := by
    by_cases he : e' = e
    · subst he
      rw [toward_redirect_self]
      exact Nat.le_succ _
    · rw [toward_redirect_of_ne he]
  closed _ h := h
  frozen _ h := h
  announced _ h := h
  arrived _ h := h

namespace Ring

/-- A proxy is skipped: it has announced itself, so it is not buffering, and what
    it points to has arrived. -/
theorem redirect (h : N.Ring) {e : End} (hann : N.Announced (e.opp, N.toward e))
    (harr : N.Arrived (e.opp, N.toward e + 1)) : (N.redirect e).Ring := by
  have F := frame_redirect (N := N) e
  refine ⟨fun x b hx hb => (h.live x b hx hb).mono F (fun _ => id) fun hk => ?_,
    fun x b hx hb => (h.proxy x b hx hb).mono F fun hk => ?_,
    fun ev hev => (h.events ev hev).mono F fun _ _ => id, h.accepted_once, h.letters,
    fun x hx ht => h.present x hx ((F.toward_le _).trans ht)⟩
  · have hlt := (h.live x b hx hb).ahead hk
    by_cases he : x.1.opp = e
    · subst he
      rw [toward_redirect_self]
      refine lt_of_le_of_ne hlt fun heq => harr.2 b ?_ hk
      rw [End.opp_opp, heq]
      exact hx
    · rw [toward_redirect_of_ne he]
      exact hlt
  · have hle := (h.proxy x b hx hb).ahead hk
    by_cases he : x.1.opp = e
    · subst he
      rw [toward_redirect_self]
      refine lt_of_le_of_ne hle fun heq => ?_
      have := hann.2 b (by rw [End.opp_opp, heq]; exact hx)
      rw [hk] at this
      cases this
    · rw [toward_redirect_of_ne he]
      exact hle

end Ring

/-! ## Removals -/

/-- Deleting a port that is not live leaves the facts about the others. -/
theorem frame_erase {x : Place} (hx : x.2 ≠ N.len x.1) : Frame N (N.erase x) where
  toward_le _ := le_rfl
  closed _ h := h
  frozen e h := by
    have hne : (e, N.len e) ≠ x := by
      rintro rfl
      exact hx rfl
    exact h.imp id fun ⟨b, hb, hc⟩ => ⟨b, (port_erase_of_ne hne).trans hb, hc⟩
  announced _ h := ⟨h.1, fun b hb => h.2 b (port_erase_cases hb).2⟩
  arrived _ h := ⟨h.1, fun b hb => h.2 b (port_erase_cases hb).2⟩

/-- A port buffers still after one is erased that did not. -/
theorem Buffering.erase {x y : Place} {a : Port} (hx : N.port x = some a)
    (hk : a.kind ≠ .buffering) (h : N.Buffering y) : (N.erase x).Buffering y := by
  obtain ⟨b, hb, hbk⟩ := h
  refine ⟨b, (port_erase_of_ne ?_).trans hb, hbk⟩
  rintro rfl
  rw [hx] at hb
  exact hk (Option.some.inj hb ▸ hbk)

namespace Ring

/-- A proxy is removed: it is skipped, or the pipe is closed. -/
theorem erase (h : N.Ring) (w : N.Shape) {x : Place} {a : Port} (hx : N.port x = some a)
    (hk : a.kind = .proxying) (hr : a.remove) : (N.erase x).Ring := by
  have hp := h.proxy x a hx (by simp [hk])
  have F := frame_erase (N := N) (w.proxy hx (by simp [hk])).ne
  have hbuf : ∀ y, N.Buffering y → (N.erase x).Buffering y := fun y =>
    Buffering.erase hx (by simp [hk])
  refine ⟨fun y b hy hb => ?_, fun y b hy hb => ?_,
    fun ev hev => (h.events ev hev).mono F fun y _ => hbuf y, h.accepted_once,
    fun l hl => F.arrived _ (h.letters l hl), fun y hy ht hf => ?_⟩
  · obtain ⟨-, hy⟩ := port_erase_cases hy
    exact (h.live y b hy hb).mono F (fun _ => hbuf _) (h.live y b hy hb).ahead
  · obtain ⟨-, hy⟩ := port_erase_cases hy
    exact (h.proxy y b hy hb).mono F (h.proxy y b hy hb).ahead
  · have hf' : ¬N.Frozen y.1.opp := fun hfr => hf (F.frozen _ hfr)
    rw [port_erase_of_ne]
    · exact h.present y hy ht hf'
    · rintro rfl
      rcases hp.remove hr with hfr | ⟨-, hlt⟩
      · exact hf' hfr
      · exact absurd hlt (not_lt.2 ht)

end Ring

/-! ## Closing -/

section Close

variable {e : End} {a : Port} {H : Multiset End}

/-- An end that is closed is closed. -/
theorem closed_close_self : (N.close e a H).closed e = true := Function.update_self ..

theorem closed_close_of_ne {e' : End} (h : e' ≠ e) : (N.close e a H).closed e' = N.closed e' :=
  Function.update_of_ne h ..

/-- The other ports are not touched. -/
theorem port_close_of_ne {y : Place} (h : y ≠ (e, N.len e)) :
    (N.close e a H).port y = N.port y :=
  Function.update_of_ne h ..

/-- The ports that are there after an end is closed were there before. -/
theorem port_close_cases {y : Place} {b : Port} (h : (N.close e a H).port y = some b) :
    y ≠ (e, N.len e) ∧ N.port y = some b :=
  port_erase_cases h

/-- What is known of the ports stays true when an end is closed. -/
theorem frame_close : Frame N (N.close e a H) where
  toward_le _ := le_rfl
  closed e' h := by
    by_cases he : e' = e
    · rw [he, closed_close_self]
    · rwa [closed_close_of_ne he]
  frozen e' h := by
    by_cases he : e' = e
    · exact .inl (he ▸ closed_close_self)
    · refine h.imp (fun hc => ?_) fun ⟨b, hb, hc⟩ => ⟨b, ?_, hc⟩
      · rwa [closed_close_of_ne he]
      · exact (port_close_of_ne fun hx => he (congrArg Prod.fst hx)).trans hb
  announced _ h := ⟨h.1, fun b hb => h.2 b (port_close_cases hb).2⟩
  arrived _ h := ⟨h.1, fun b hb => h.2 b (port_close_cases hb).2⟩

/-- An end is closed, and tells the other one. -/
theorem Ring.close (h : N.Ring) (hp : N.port (e, N.len e) = some a) (hk : a.kind = .receiving) :
    (N.close e a H).Ring := by
  have F := frame_close (N := N) (e := e) (a := a) (H := H)
  have hbuf : ∀ y, N.Buffering y → (N.close e a H).Buffering y := fun y hy =>
    Buffering.erase hp (by simp [hk]) hy
  refine ⟨fun y b hy hb => ?_, fun y b hy hb => ?_, fun ev hev => ?_, fun x => ?_,
    fun l hl => F.arrived _ (h.letters l (Multiset.mem_filter.1 hl).1), fun y hy ht hf => ?_⟩
  · obtain ⟨-, hy⟩ := port_close_cases hy
    exact (h.live y b hy hb).mono F (fun _ => hbuf _) (h.live y b hy hb).ahead
  · obtain ⟨-, hy⟩ := port_close_cases hy
    exact (h.proxy y b hy hb).mono F (h.proxy y b hy hb).ahead
  · rcases Multiset.mem_cons.1 hev with rfl | hev
    · exact .inl (by rw [End.opp_opp]; exact closed_close_self)
    · exact (h.events ev hev).mono F fun y _ => hbuf y
  · change (Event.closure (e.opp, N.toward e) (a.send - 1) ::ₘ N.events).count _ ≤ 1
    rw [Multiset.count_cons_of_ne (by simp)]
    exact h.accepted_once x
  · have hne : y ≠ (e, N.len e) := by
      rintro rfl
      exact absurd hy.2 (lt_irrefl _)
    rw [port_close_of_ne hne]
    exact h.present y hy ht fun hfr => hf (F.frozen _ hfr)

end Close

/-! ## New pipes -/

/-- What is known of the ports stays true when there is a new pipe. -/
theorem frame_create (w : N.Shape) : Frame N N.create where
  toward_le _ := le_rfl
  closed _ h := h
  frozen e hf := by
    refine hf.imp id fun ⟨b, hb, hc⟩ => ⟨b, ?_, hc⟩
    exact (port_create_of_pipe_lt (w.pipe_lt hb)).trans hb
  announced x hx := by
    refine ⟨hx.1, fun b hb => ?_⟩
    rcases port_create_cases hb with ⟨hp, -, -⟩ | hb
    · have := hx.1
      rw [(w.unused x.1 hp.ge).1] at this
      exact absurd this (Nat.not_lt_zero _)
    · exact hx.2 b hb
  arrived x hx := by
    refine ⟨hx.1, fun b hb => ?_⟩
    rcases port_create_cases hb with ⟨-, -, rfl⟩ | hb
    · simp
    · exact hx.2 b hb

/-- A new pipe has no proxies. -/
theorem Ring.create (h : N.Ring) (w : N.Shape) : N.create.Ring := by
  have F := frame_create w
  have hbuf : ∀ y, N.Buffering y → N.create.Buffering y := fun y ⟨b, hb, hk⟩ =>
    ⟨b, (port_create_of_pipe_lt (w.pipe_lt hb)).trans hb, hk⟩
  refine ⟨fun x b hx hb => ?_, fun x b hx hb => ?_,
    fun ev hev => (h.events ev hev).mono F fun y _ => hbuf y, h.accepted_once,
    fun l hl => F.arrived _ (h.letters l hl), fun x hx ht hf => ?_⟩
  · rcases port_create_cases hx with ⟨hp, h0, rfl⟩ | hx
    · exact ⟨by simp, by simp, by simp⟩
    · exact (h.live x b hx hb).mono F (fun _ => hbuf _) (h.live x b hx hb).ahead
  · rcases port_create_cases hx with ⟨-, -, rfl⟩ | hx
    · simp at hb
    · exact (h.proxy x b hx hb).mono F (h.proxy x b hx hb).ahead
  · rcases Nat.lt_succ_iff_lt_or_eq.1 hx.1 with hp | hp
    · rw [port_create_of_pipe_lt hp]
      exact h.present x ⟨hp, hx.2⟩ ht fun hfr => hf (F.frozen _ hfr)
    · have : N.create.len x.1 = 0 := (w.unused x.1 hp.ge).1
      exact absurd (hx.2.trans_eq this) (Nat.not_lt_zero _)

/-! ## Steps -/

namespace Ring

/-- A port arrives: the one before it is told that it may forward. -/
theorem accept (h : N.Ring) (w : N.Shape) {e : End} {a : Port}
    (hp : N.port (e, N.len e) = some a) (hk : a.kind = .transit) : (N.accept e a).Ring := by
  have hl := h.live _ _ hp (by simp [hk])
  have hpos : N.len e - 1 + 1 = N.len e := Nat.sub_add_cancel (w.transit_pos hp hk)
  have ha : Port.Update a { a with kind := .receiving } := ⟨by simp, by simp [hk], id⟩
  have hset : (N.set (e, N.len e) { a with kind := .receiving }).Ring :=
    h.set w hp ha (.inl (by simp [hk])) (fun _ => ⟨by simp, by simp, hl.peerClosed⟩) (by simp)
  refine hset.emit ⟨?_, ?_⟩ fun x _ hmem => ?_
  · exact (hl.referred hk).set hp (by simp [hk])
  · rw [Place.succ, hpos]
    refine ⟨le_rfl, fun c hc => ?_⟩
    rw [port_set_self] at hc
    rw [← Option.some.inj hc]
    simp
  · have harr := (h.events _ hmem).2
    rw [Place.succ, hpos] at harr
    exact harr.2 a hp hk

/-- The ports of a message arrive, one after the other. -/
theorem acceptAll (h : N.Ring) (w : N.Shape) {es : List End} (hes : es.Nodup)
    (ht : ∀ e ∈ es, N.IsLive e .transit) : (N.acceptAll es).Ring := by
  induction es generalizing N with
  | nil => exact h
  | cons e es ih =>
    obtain ⟨hne, hes⟩ := List.nodup_cons.1 hes
    obtain ⟨a, hp, hk⟩ := ht e List.mem_cons_self
    rw [acceptAll_cons hp]
    refine ih (h.accept w hp hk) (w.accept hp hk) hes fun e' he' => ?_
    obtain ⟨b, hb, hbk⟩ := ht e' (List.mem_cons_of_mem _ he')
    have hee : e' ≠ e := fun h => hne (h ▸ he')
    exact ⟨b, (port_accept_of_fst_ne hee).trans hb, hbk⟩

/-- A port that may forward announces itself, or passes on that its peer is closed. -/
theorem portAccepted (h : N.Ring) (w : N.Shape) {x : Place} {a : Port} {E : Multiset Event}
    (he : N.events = .accepted x ::ₘ E) (hx : N.port x = some a) (hk : a.kind = .buffering) :
    ((N.set x { a with kind := .proxying }).withEvents
      ((if a.remove then .closure x.succ a.last else .proxy x.succ x) ::ₘ E)).Ring := by
  obtain ⟨-, harr⟩ := h.eventOk he
  obtain ⟨-, h2, h3, h4, h5⟩ := h.proxy x a hx (by simp [hk])
  have hnot : Event.accepted x ∉ E := by
    rw [← Multiset.count_eq_zero]
    have := h.accepted_once x
    rw [he, Multiset.count_cons_self] at this
    exact Nat.le_zero.1 (Nat.le_of_succ_le_succ this)
  have ha : Port.Update a { a with kind := .proxying } := ⟨by simp, by simp, id⟩
  have F : Frame N (N.set x { a with kind := .proxying }) := frame_set hx ha
  have hfrozen : a.remove → N.Frozen x.1.opp := fun hr => (h5 hr).resolve_right (by simp [hk])
  have hset : ((N.withEvents E).set x { a with kind := .proxying }).Ring := by
    refine (h.consume he).set (w.consume he) hx ha (.inr ⟨harr, hnot⟩) (by simp) fun _ => ?_
    exact ⟨fun _ => F.arrived _ harr, by simp, fun hs => F.announced _ (h3 hs),
      fun hc => F.frozen _ (h4 hc), fun hr => .inl (F.frozen _ (hfrozen hr))⟩
  refine hset.emit ?_ fun y hy => ?_
  · split_ifs with hr
    · exact F.frozen _ (hfrozen hr)
    · refine ⟨⟨w.proxy hx (by simp [hk]), fun b hb => ?_⟩, F.arrived _ harr⟩
      rw [port_set_self] at hb
      rw [← Option.some.inj hb]
  · split_ifs at hy

/-- A proxy goes away: it has been skipped, or an end is closed. -/
theorem remove (h : N.Ring) (w : N.Shape) {x : Place} {a : Port} (hx : N.port x = some a)
    (hk : a.kind = .proxying) (hr : a.remove) :
    (((N.erase x).withLetters (N.elsewhere x)).withEvents
      (if a.stored then .ack x.succ kInvalidSequenceNum ::ₘ N.events else N.events)).Ring := by
  have hp := h.proxy x a hx (by simp [hk])
  have hne := (w.proxy hx (by simp [hk])).ne
  have herase : ((N.erase x).withLetters (N.elsewhere x)).Ring :=
    (h.erase w hx hk hr).take (Multiset.filter_le _ _)
  split_ifs with hs
  · exact herase.emit ⟨(frame_erase hne).announced _ (hp.stored hs), by simp⟩ (by simp)
  · exact herase

/-- An end is told that the other one is closed, and answers. -/
theorem closureReceive (h : N.Ring) (w : N.Shape) {e : End} {a : Port} {last : UInt64}
    {E : Multiset Event} (he : N.events = .closure (e, N.len e) last ::ₘ E)
    (hp : N.port (e, N.len e) = some a) (hk : a.kind = .receiving) :
    ((N.set (e, N.len e) { a with peerClosed := true, last := last }).withEvents
      (.closure (e.opp, N.toward e) (a.send - 1) ::ₘ E)).Ring := by
  have hl := h.live _ _ hp (by simp [hk])
  have hclosed : N.closed e.opp := by
    -- The other end is not frozen by its own knowledge: this end is open.
    rcases h.eventOk he with hc | ⟨b, hb, hc⟩
    · exact hc
    · have := (h.live _ _ hb (w.kind_live hb)).peerClosed hc
      rw [End.opp_opp] at this
      rw [w.isClosed e this] at hp
      cases hp
  have ha : Port.Update a { a with peerClosed := true, last := last } := ⟨id, id, fun _ => rfl⟩
  have hset : ((N.withEvents E).set (e, N.len e)
      { a with peerClosed := true, last := last }).Ring :=
    (h.consume he).set (w.consume he) hp ha (.inl id)
      (fun _ => ⟨by simp [hk], by simp [hk], fun _ => hclosed⟩) (by simp [hk])
  refine hset.emit (.inr ⟨{ a with peerClosed := true, last := last }, ?_, rfl⟩) (by simp)
  rw [show (e.opp, N.toward e).1.opp = e from e.opp_opp]
  exact port_set_self ..

/-- Where an end points to has arrived. -/
theorem arrived_toward (h : N.Ring) (w : N.Shape) (e : End) : N.Arrived (e.opp, N.toward e) := by
  refine ⟨w.toward_le e, fun a ha hk => ?_⟩
  have := (h.live _ _ ha (by simp [hk])).ahead hk
  rw [show (e.opp, N.toward e).1.opp = e from e.opp_opp] at this
  exact lt_irrefl _ this

/-- The numbers of a port play no role. -/
theorem setNumbers (h : N.Ring) (w : N.Shape) {x : Place} {a : Port} (hx : N.port x = some a)
    (send next : UInt64) : (N.set x { a with send := send, next := next }).Ring := by
  have ha : Port.Update a { a with send := send, next := next } := ⟨id, id, id⟩
  have F : Frame N (N.set x { a with send := send, next := next }) := frame_set hx ha
  refine h.set w hx ha (.inl id) (fun hl => ?_) fun hl => ?_
  · have hok := h.live x a hx hl
    exact ⟨fun hk => (hok.referred hk).set hx id, hok.ahead, hok.peerClosed⟩
  · have hok := h.proxy x a hx hl
    exact ⟨fun hk => F.arrived _ (hok.arrived hk), hok.ahead, fun hs => F.announced _ (hok.stored hs),
      fun hc => F.frozen _ (hok.peerClosed hc), fun hr => (hok.remove hr).imp (F.frozen _) id⟩

/-- A step preserves the invariant. -/
theorem step (h : N.Ring) (w : N.Shape) (c : N.Cargo) {t : Label} (hs : Step N t M) : M.Ring := by
  cases hs with
  | create => exact h.create w
  -- The message is for the port that the end points to, which has arrived.
  | @send e a payload es H hp hk _ _ _ _ =>
    have hs : (N.set (e, N.len e) { a with send := a.send + 1 }).Shape :=
      w.set hp rfl (by simp [hk]) (fun _ => (w.live hp (by simp [hk])).2) fun hs => w.stored hp hs
    have hall := (h.setNumbers w hp (a.send + 1) a.next).transferAll hs es
    have harr := (frame_set (b := { a with send := a.send + 1 }) hp ⟨id, id, id⟩).arrived _
      (h.arrived_toward w e)
    have hpost := hall.post (l := ⟨(e.opp, N.toward e), false, a.send, payload, es⟩)
      (harr.transferAll es)
    rw [transferAll_letters] at hpost
    exact (hpost.withHeld H).noteSent e _
  | @get e a l L hp hk _ hL _ _ _ =>
    have htake := (h.setNumbers w hp a.send (a.next + 1)).take (L := L)
      (by exact hL ▸ Multiset.le_cons_self L l)
    exact (htake.withHeld _).noteReturned e _
  | @arrive a l L hL hq _ _ _ =>
    have hmem : l ∈ N.letters := hL ▸ Multiset.mem_cons_self l L
    have hall := h.acceptAll w (c.ports_nodup hmem) (c.transit hmem hq)
    have htake := hall.take (L := L) (by rw [acceptAll_letters, hL]; exact Multiset.le_cons_self L l)
    exact htake.post (l := { l with queued := true })
      (hall.letters l (by rw [acceptAll_letters]; exact hmem))
  | @reject l L hL hq _ =>
    have hmem : l ∈ N.letters := hL ▸ Multiset.mem_cons_self l L
    have hall := h.acceptAll w (c.ports_nodup hmem) (c.transit hmem hq)
    have htake := hall.take (L := L) (by rw [acceptAll_letters, hL]; exact Multiset.le_cons_self L l)
    exact htake.withHeld _
  | @forward x a l L hx hk hL _ _ _ =>
    set b : Port := { a with
      next := a.next + 1
      send := if l.number = 0 then a.send + 1 else a.send } with hb
    have hs : (N.set x b).Shape :=
      w.set hx rfl (by simp [b, hk]) (by simp [b, hk]) fun hs => w.stored hx hs
    have hall := (h.setNumbers w hx b.send b.next).transferAll hs l.ports
    have harr := (frame_set (b := b) hx ⟨id, id, id⟩).arrived _
      ((h.proxy x a hx (by simp [hk])).arrived hk)
    have htake := hall.take (L := L)
      (by rw [transferAll_letters]; exact hL ▸ Multiset.le_cons_self L l)
    exact htake.post (harr.transferAll l.ports)
  | portAccepted he hx hk => exact h.portAccepted w he hx hk
  | remove hx hk hr _ => exact h.remove w hx hk hr
  -- The acknowledgement is for the proxy that was skipped just now.
  | @redirect e a E he hp hk _ =>
    obtain ⟨hann, harr⟩ := h.eventOk he
    have hring : ((N.withEvents E).redirect e).Ring := (h.consume he).redirect hann harr
    refine hring.emit ⟨hann, fun _ => ?_⟩ (by simp)
    rw [show (e.opp, N.toward e).1.opp = e from e.opp_opp, toward_redirect_self]
    exact Nat.lt_succ_self _
  -- What was announced is remembered instead.
  | @store x a E he hx hk =>
    obtain ⟨hann, -⟩ := h.eventOk he
    obtain ⟨h1, h2, h3, h4, h5⟩ := h.proxy x a hx hk
    have ha : Port.Update a { a with stored := true } := ⟨id, id, id⟩
    have F : Frame N (N.set x { a with stored := true }) := frame_set hx ha
    refine (h.consume he).set (w.consume he) hx ha (.inl id) (by simp [hk]) fun _ => ?_
    exact ⟨fun hk' => F.arrived _ (h1 hk'), h2, fun _ => F.announced _ hann,
      fun hc => F.frozen _ (h4 hc), fun hr => (h5 hr).imp (F.frozen _) id⟩
  | proxyPass he _ _ _ =>
    obtain ⟨hann, harr⟩ := h.eventOk he
    exact (h.consume he).emit ⟨hann, harr⟩ (by simp)
  | ackRetry he hx hk =>
    obtain ⟨hann, -⟩ := h.eventOk he
    have hp := h.proxy _ _ hx (by simp [hk])
    exact (h.consume he).emit ⟨hann, hp.arrived hk⟩ (by simp)
  | @ackAccept x a last E he hlast hx hk =>
    obtain ⟨hann, hlt⟩ := h.eventOk he
    obtain ⟨h1, h2, h3, h4, h5⟩ := h.proxy x a hx (by simp [hk])
    have ha : Port.Update a { a with remove := true, last := last } := ⟨id, id, id⟩
    have F : Frame N (N.set x { a with remove := true, last := last }) := frame_set hx ha
    refine (h.consume he).set (w.consume he) hx ha (.inl id) (by simp [hk]) fun _ => ?_
    exact ⟨fun hk' => F.arrived _ (h1 hk'), h2, fun hs => F.announced _ (h3 hs),
      fun hc => F.frozen _ (h4 hc), fun _ => .inr ⟨hk, hlt hlast⟩⟩
  | closureReceive he hp hk => exact h.closureReceive w he hp hk
  | @closurePass x a last E he hx hk =>
    have hf : N.Frozen x.1.opp := h.eventOk he
    obtain ⟨h1, h2, h3, h4, h5⟩ := h.proxy x a hx hk
    have ha : Port.Update a { a with peerClosed := true, remove := true, last := last } :=
      ⟨id, id, fun _ => rfl⟩
    have F : Frame N (N.set x { a with peerClosed := true, remove := true, last := last }) :=
      frame_set hx ha
    have hset : ((N.withEvents E).set x
        { a with peerClosed := true, remove := true, last := last }).Ring := by
      refine (h.consume he).set (w.consume he) hx ha (.inl id) (by simp [hk]) fun _ => ?_
      exact ⟨fun hk' => F.arrived _ (h1 hk'), h2, fun hs => F.announced _ (h3 hs),
        fun _ => F.frozen _ hf, fun _ => .inl (F.frozen _ hf)⟩
    exact hset.emit (F.frozen _ hf) (by simp)
  | drop he _ _ => exact h.consume he
  | close hp hk _ => exact h.close hp hk

end Ring

end MojoEdk.Ports.Net
