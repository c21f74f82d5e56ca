import MojoEdk.Ports.Net.Ring

/-!
# Where the messages are

As long as the sequence numbers do not wrap, every message sent to an end is
returned there, or is at one place of the chain of the end, in flight or queued
(`Net.Sequence`). What a port still has to forward or to return is a window of
numbers (`PortSequence.window`): from the next one it waits for, up to the last
one sent to it or to a proxy before it.

* The last number of a live port, or of a proxy that is not skipped yet, is the
  number of messages sent so far.
* The last number of a proxy that was skipped is the number of messages sent until
  then. It is what the proxy is acknowledged with, but the state no longer tells:
  it is the history variable `lim`.

So a port that was told its last number, and reached it, has nothing to expect.
-/

namespace UInt64

theorem toNat_add_one {n : UInt64} (h : n.toNat + 1 < 2 ^ 64) : (n + 1).toNat = n.toNat + 1 := by
  rw [UInt64.toNat_add]
  exact Nat.mod_eq_of_lt h

theorem toNat_sub_one {n : UInt64} (h : 0 < n.toNat) : (n - 1).toNat = n.toNat - 1 :=
  UInt64.toNat_sub_of_le _ _ (UInt64.le_iff_toNat_le.2 h)

end UInt64

namespace MojoEdk.Ports.Net

variable {α : Type*} {N M : Net α} {lim : Place → ℕ}

/-- The number of messages sent to an end. -/
def total (N : Net α) (e : End) : ℕ := (N.sent e.opp).length

/-- The sequence numbers do not wrap. -/
def Small (N : Net α) : Prop := ∀ e, (N.sent e).length + 1 < 2 ^ 64

/-- The last number sent to a port, or to a proxy before it. -/
def bound (N : Net α) (lim : Place → ℕ) (x : Place) : ℕ :=
  if x.2 < N.toward x.1.opp then lim x else N.total x.1

/-- The message of a number is in the chain of an end, not after a position. -/
def Holds (N : Net α) (e : End) (i q : ℕ) : Prop :=
  ∃ l ∈ N.letters, l.place.1 = e ∧ l.place.2 ≤ i ∧ l.number.toNat = q

/-- What a port still has to forward or to return. -/
structure PortSequence (N : Net α) (lim : Place → ℕ) (x : Place) (a : Port) : Prop where
  pos : 0 < a.next.toNat
  next_le : a.next.toNat ≤ N.bound lim x + 1
  window : ∀ q, N.Holds x.1 x.2 q ↔ a.next.toNat ≤ q ∧ q ≤ N.bound lim x
  last : a.peerClosed ∨ a.remove → a.last.toNat = N.bound lim x

/-- The number an event carries is right. -/
def NumberOk (N : Net α) (lim : Place → ℕ) : Event → Prop
  | .accepted _ | .proxy _ _ => True
  | .ack x last => last ≠ kInvalidSequenceNum → last.toNat = lim x
  | .closure d last => last.toNat = N.total d.1 ∧ N.bound lim d = N.total d.1

/-- Where the messages are. -/
structure Sequence (N : Net α) (lim : Place → ℕ) : Prop where
  sent : ∀ e k v, (N.sent e)[k]? = some v → v.1.toNat = k + 1
  letter : ∀ l ∈ N.letters,
    (N.sent l.place.1.opp)[l.number.toNat - 1]? = some (l.number, l.payload)
  nodup : (N.letters.map fun l => (l.place.1, l.number)).Nodup
  port : ∀ x a, N.port x = some a → N.PortSequence lim x a
  gone : ∀ x, N.Passed x → N.port x = none → ∀ l ∈ N.letters, l.place.1 = x.1 → x.2 < l.place.2
  send : ∀ e a, N.port (e, N.len e) = some a → a.send.toNat = (N.sent e).length + 1
  next : ∀ e a, N.port (e, N.len e) = some a → a.next.toNat = (N.returned e).length + 1
  returned : ∀ e, N.returned e <+: N.sent e.opp
  unused : ∀ e, N.pipes ≤ e.pipe → N.sent e = [] ∧ N.returned e = []
  lim_le : ∀ x : Place, x.2 < N.toward x.1.opp → lim x ≤ N.total x.1
  lim_mono : ∀ x : Place, x.2 + 1 < N.toward x.1.opp → lim x ≤ lim x.succ
  events : ∀ ev ∈ N.events, N.NumberOk lim ev

theorem bound_of_le {x : Place} (h : N.toward x.1.opp ≤ x.2) : N.bound lim x = N.total x.1 :=
  if_neg (not_lt.2 h)

theorem bound_of_lt {x : Place} (h : x.2 < N.toward x.1.opp) : N.bound lim x = lim x := if_pos h

/-- The last number sent to the live port of an end is the last one sent. -/
theorem bound_live (w : N.Shape) (e : End) : N.bound lim (e, N.len e) = N.total e :=
  bound_of_le ((w.toward_le e.opp).trans_eq (by simp))

/-- A port that accepts no more messages has reached the last number. -/
theorem Port.last_of_not_canAccept {a : Port} (h : a.canAccept = false) (hpos : 0 < a.next.toNat) :
    (a.peerClosed ∨ a.remove) ∧ a.last.toNat = a.next.toNat - 1 := by
  simp only [Port.canAccept, Bool.not_eq_false', Bool.and_eq_true, Bool.or_eq_true,
    beq_iff_eq] at h
  exact ⟨h.1, by rw [h.2, UInt64.toNat_sub_one hpos]⟩

namespace Sequence

theorem number_pos (s : N.Sequence lim) {l : Letter α} (hl : l ∈ N.letters) :
    0 < l.number.toNat := by
  have : l.number.toNat = l.number.toNat - 1 + 1 := s.sent _ _ _ (s.letter l hl)
  omega

/-- A message has no more than the number of messages sent. -/
theorem number_le (s : N.Sequence lim) {l : Letter α} (hl : l ∈ N.letters) :
    l.number.toNat ≤ N.total l.place.1 := by
  have hlt := (List.getElem?_eq_some_iff.1 (s.letter l hl)).1
  have := s.number_pos hl
  rw [total]
  omega

/-- Messages of an end with one number are one message. -/
theorem cons_inj (s : N.Sequence lim) {l l' : Letter α} {L : Multiset (Letter α)}
    (hL : N.letters = l ::ₘ L) (hl' : l' ∈ L) (he : l'.place.1 = l.place.1) :
    l'.number.toNat ≠ l.number.toNat := by
  intro hn
  have h := s.nodup
  rw [hL, Multiset.map_cons, Multiset.nodup_cons] at h
  refine h.1 (Multiset.mem_map.2 ⟨l', hl', Prod.ext he ?_⟩)
  exact UInt64.toNat_inj.1 hn

/-- Once the last number sent to a place is the last one sent, so it is after it. -/
theorem bound_succ (s : N.Sequence lim) {x : Place} (h : N.bound lim x = N.total x.1) :
    N.bound lim x.succ = N.total x.1 := by
  by_cases hlt : x.2 + 1 < N.toward x.1.opp
  · have h1 : N.bound lim x = lim x := bound_of_lt (Nat.lt_of_succ_lt hlt)
    have h2 : N.bound lim x.succ = lim x.succ := bound_of_lt hlt
    have h3 := s.lim_mono x hlt
    have h4 : lim x.succ ≤ N.total x.1 := s.lim_le x.succ hlt
    omega
  · exact bound_of_le (not_lt.1 hlt)

/-- A port that has reached its last number has nothing to expect. -/
theorem not_holds (s : N.Sequence lim) {x : Place} {a : Port} (hx : N.port x = some a)
    (hc : a.canAccept = false) (q : ℕ) : ¬N.Holds x.1 x.2 q := by
  obtain ⟨hpos, -, hwin, hlast⟩ := s.port x a hx
  obtain ⟨hf, heq⟩ := Port.last_of_not_canAccept hc hpos
  rw [hwin q, ← hlast hf, heq]
  omega

theorem init : (init : Net α).Sequence lim where
  sent _ _ _ h := by cases h
  letter _ h := absurd h (Multiset.notMem_zero _)
  nodup := Multiset.nodup_zero
  port _ _ h := by cases h
  gone _ h := absurd h.1 (Nat.not_lt_zero _)
  send _ _ h := by cases h
  next _ _ h := by cases h
  returned _ := List.nil_prefix
  unused _ _ := ⟨rfl, rfl⟩
  lim_le _ h := absurd h (Nat.not_lt_zero _)
  lim_mono _ h := absurd h (Nat.not_lt_zero _)
  events _ h := absurd h (Multiset.notMem_zero _)

/-! ## Events and ports -/

theorem withEvents (s : N.Sequence lim) {E : Multiset Event}
    (hE : ∀ ev ∈ E, N.NumberOk lim ev) : (N.withEvents E).Sequence lim :=
  { s with
    port := fun x a hx => { s.port x a hx with }
    events := fun ev hev => by
      have := hE ev hev
      cases ev <;> exact this }

theorem withHeld (s : N.Sequence lim) (H : Multiset End) : (N.withHeld H).Sequence lim :=
  { s with
    port := fun x a hx => { s.port x a hx with }
    events := fun ev hev => by
      have := s.events ev hev
      cases ev <;> exact this }

theorem consume (s : N.Sequence lim) {ev : Event} {E : Multiset Event}
    (he : N.events = ev ::ₘ E) : (N.withEvents E).Sequence lim :=
  s.withEvents fun ev' hev => s.events ev' (he ▸ Multiset.mem_cons_of_mem hev)

theorem emit (s : N.Sequence lim) {ev : Event} (hev : N.NumberOk lim ev) :
    (N.withEvents (ev ::ₘ N.events)).Sequence lim :=
  s.withEvents (Multiset.forall_mem_cons.2 ⟨hev, s.events⟩)

theorem numberOk (s : N.Sequence lim) {ev : Event} {E : Multiset Event}
    (he : N.events = ev ::ₘ E) : N.NumberOk lim ev :=
  s.events ev (he ▸ Multiset.mem_cons_self ev E)

/-- A port changes, but not its numbers. -/
theorem set (s : N.Sequence lim) {x : Place} {a b : Port} (hx : N.port x = some a)
    (hsend : b.send = a.send) (hnext : b.next = a.next)
    (hlast : b.peerClosed ∨ b.remove → b.last.toNat = N.bound lim x) :
    (N.set x b).Sequence lim :=
  { s with
    port := fun y c hy => by
      rcases port_set_cases hy with ⟨rfl, rfl⟩ | ⟨-, hy⟩
      · obtain ⟨h1, h2, h3, -⟩ := s.port _ a hx
        exact ⟨hnext ▸ h1, hnext ▸ h2, fun q => hnext ▸ h3 q, hlast⟩
      · exact { s.port y c hy with }
    gone := fun y hy hn => by
      refine s.gone y hy ?_
      by_cases hyx : y = x
      · rw [hyx, port_set_self] at hn
        cases hn
      · exact (port_set_of_ne b hyx).symm.trans hn
    send := fun e c hc => by
      rcases port_set_cases hc with ⟨hex, rfl⟩ | ⟨-, hc⟩
      · exact hsend ▸ s.send e a (hex ▸ hx)
      · exact s.send e c hc
    next := fun e c hc => by
      rcases port_set_cases hc with ⟨hex, rfl⟩ | ⟨-, hc⟩
      · exact hnext ▸ s.next e a (hex ▸ hx)
      · exact s.next e c hc
    events := fun ev hev => by
      have := s.events ev hev
      cases ev <;> exact this }

/-- The messages change in ways that do not show. -/
theorem withLetters (s : N.Sequence lim) {L : Multiset (Letter α)}
    (hL : (L.map fun l => (l.place, l.number, l.payload)) =
      N.letters.map fun l => (l.place, l.number, l.payload)) :
    (N.withLetters L).Sequence lim := by
  have hmem : ∀ l ∈ L, ∃ l' ∈ N.letters,
      l'.place = l.place ∧ l'.number = l.number ∧ l'.payload = l.payload := by
    intro l hl
    have := Multiset.mem_map_of_mem (fun l : Letter α => (l.place, l.number, l.payload)) hl
    rw [hL] at this
    simpa using this
  have hmem' : ∀ l ∈ N.letters, ∃ l' ∈ L,
      l'.place = l.place ∧ l'.number = l.number ∧ l'.payload = l.payload := by
    intro l hl
    have := Multiset.mem_map_of_mem (fun l : Letter α => (l.place, l.number, l.payload)) hl
    rw [← hL] at this
    simpa using this
  -- The windows are about places and numbers only.
  have hholds : ∀ e i q, (N.withLetters L).Holds e i q ↔ N.Holds e i q := by
    refine fun e i q => ⟨?_, ?_⟩
    · rintro ⟨l, hl, h1, h2, h3⟩
      obtain ⟨l', hl', hp, hn, -⟩ := hmem l hl
      exact ⟨l', hl', hp ▸ h1, hp ▸ h2, hn ▸ h3⟩
    · rintro ⟨l, hl, h1, h2, h3⟩
      obtain ⟨l', hl', hp, hn, -⟩ := hmem' l hl
      exact ⟨l', hl', hp ▸ h1, hp ▸ h2, hn ▸ h3⟩
  exact
    { s with
      letter := fun l hl => by
        obtain ⟨l', hl', hp, hn, hpl⟩ := hmem l hl
        rw [← hp, ← hn, ← hpl]
        exact s.letter l' hl'
      nodup := by
        have := congrArg (Multiset.map fun v : Place × UInt64 × α => (v.1.1, v.2.1)) hL
        rw [Multiset.map_map, Multiset.map_map] at this
        exact this.symm ▸ s.nodup
      port := fun x a hx =>
        { s.port x a hx with window := fun q => (hholds _ _ q).trans ((s.port x a hx).window q) }
      gone := fun x hx hn l hl he => by
        obtain ⟨l', hl', hp, -, -⟩ := hmem l hl
        exact hp ▸ s.gone x hx hn l' hl' (hp ▸ he)
      events := fun ev hev => by
        have := s.events ev hev
        cases ev <;> exact this }

/-! ## Chains -/

theorem transfer (s : N.Sequence lim) (w : N.Shape) {e : End} {a : Port}
    (hp : N.port (e, N.len e) = some a) : (N.transfer e a).Sequence lim := by
  -- The new port has the window of the one that is sent: no message is past either of them.
  have hnew : N.PortSequence lim (e, N.len e + 1) a := by
    obtain ⟨h1, h2, h3, h4⟩ := s.port _ a hp
    have hb : N.bound lim (e, N.len e + 1) = N.bound lim (e, N.len e) := by
      rw [bound_live w]
      exact bound_of_le (((w.toward_le e.opp).trans_eq (by simp)).trans (Nat.le_succ _))
    refine ⟨h1, hb ▸ h2, fun q => hb ▸ (Iff.trans ⟨?_, ?_⟩ (h3 q)), fun hf => hb ▸ h4 hf⟩
    · rintro ⟨l, hl, he, -, hq⟩
      exact ⟨l, hl, he, (w.letters l hl).2.trans_eq (congrArg N.len he), hq⟩
    · rintro ⟨l, hl, he, hi, hq⟩
      exact ⟨l, hl, he, hi.trans (Nat.le_succ _), hq⟩
  have hr := (w.live hp (w.kind_live hp)).2.2
  exact
    { s with
      port := fun x b hx => by
        rcases port_transfer_cases hx with ⟨rfl, rfl⟩ | ⟨rfl, rfl⟩ | ⟨-, -, hx⟩
        · exact { hnew with last := fun hf => hnew.last (hf.imp id (by simp)) }
        · exact { s.port _ a hp with
            last := fun hf => (s.port _ a hp).last (by simpa [hr] using hf) }
        · exact { s.port x b hx with }
      gone := fun x hx hn => by
        have hx1 : x ≠ (e, N.len e + 1) := by
          rintro rfl
          rw [port_transfer_new] at hn
          cases hn
        have hx2 : x ≠ (e, N.len e) := by
          rintro rfl
          rw [port_transfer_sent] at hn
          cases hn
        refine s.gone x ⟨hx.1, ?_⟩ ((port_transfer_of_ne hx1 hx2).symm.trans hn)
        have hlt := hx.2
        by_cases he : x.1 = e
        · rw [he, len_transfer_self] at hlt
          exact he ▸ lt_of_le_of_ne (Nat.le_of_lt_succ hlt) fun h => hx2 (Prod.ext he h)
        · exact hlt.trans_eq (len_transfer_of_ne he)
      send := fun e' b hb => by
        by_cases he : e' = e
        · subst he
          rw [port_transfer_live] at hb
          exact Option.some.inj hb ▸ s.send e' a hp
        · exact s.send e' b ((port_transfer_live_of_ne he).symm.trans hb)
      next := fun e' b hb => by
        by_cases he : e' = e
        · subst he
          rw [port_transfer_live] at hb
          exact Option.some.inj hb ▸ s.next e' a hp
        · exact s.next e' b ((port_transfer_live_of_ne he).symm.trans hb)
      events := fun ev hev => by
        have := s.events ev hev
        cases ev <;> exact this }

theorem transferAll (s : N.Sequence lim) (w : N.Shape) (es : List End) :
    (N.transferAll es).Sequence lim := by
  induction es generalizing N with
  | nil => exact s
  | cons e es ih =>
    rw [Net.transferAll]
    split
    · next hp => exact ih (s.transfer w hp) (w.transfer hp)
    · exact ih s w

theorem accept (s : N.Sequence lim) {e : End} {a : Port}
    (hp : N.port (e, N.len e) = some a) : (N.accept e a).Sequence lim := by
  have hset : (N.set (e, N.len e) { a with kind := .receiving }).Sequence lim :=
    s.set hp rfl rfl (s.port _ a hp).last
  exact hset.emit trivial

theorem acceptAll (s : N.Sequence lim) (es : List End) : (N.acceptAll es).Sequence lim := by
  induction es generalizing N with
  | nil => exact s
  | cons e es ih =>
    rw [Net.acceptAll]
    split
    · next hp => exact ih (s.accept hp)
    · exact ih s

/-- A port is erased: a proxy has nothing to expect. -/
theorem erase (s : N.Sequence lim) {x : Place} (hn : N.Passed x → ∀ q, ¬N.Holds x.1 x.2 q) :
    (N.erase x).Sequence lim :=
  { s with
    port := fun y b hy => { s.port y b (port_erase_cases hy).2 with }
    gone := fun y hy hyn l hl he => by
      by_cases hyx : y = x
      · subst hyx
        by_contra hlt
        exact hn hy _ ⟨l, hl, he, not_lt.1 hlt, rfl⟩
      · exact s.gone y hy ((port_erase_of_ne hyx).symm.trans hyn) l hl he
    send := fun e b hb => s.send e b (port_erase_cases hb).2
    next := fun e b hb => s.next e b (port_erase_cases hb).2
    events := fun ev hev => by
      have := s.events ev hev
      cases ev <;> exact this }

end Sequence

/-! ## Messages on their way -/

/-- A message does not count for the windows of the ports before it, nor for the
    other ends. -/
theorem holds_cons_of_not {l : Letter α} {L : Multiset (Letter α)} {e : End} {i q : ℕ}
    (h : ¬(l.place.1 = e ∧ l.place.2 ≤ i)) :
    (N.withLetters (l ::ₘ L)).Holds e i q ↔ (N.withLetters L).Holds e i q := by
  constructor
  · rintro ⟨l', hl', h1, h2, h3⟩
    rcases Multiset.mem_cons.1 hl' with rfl | hl'
    · exact absurd ⟨h1, h2⟩ h
    · exact ⟨l', hl', h1, h2, h3⟩
  · rintro ⟨l', hl', h1, h2, h3⟩
    exact ⟨l', Multiset.mem_cons_of_mem hl', h1, h2, h3⟩

theorem holds_cons {l : Letter α} {L : Multiset (Letter α)} {e : End} {i q : ℕ}
    (h : l.place.1 = e ∧ l.place.2 ≤ i) :
    (N.withLetters (l ::ₘ L)).Holds e i q ↔
      q = l.number.toNat ∨ (N.withLetters L).Holds e i q := by
  constructor
  · rintro ⟨l', hl', h1, h2, h3⟩
    rcases Multiset.mem_cons.1 hl' with rfl | hl'
    · exact .inl h3.symm
    · exact .inr ⟨l', hl', h1, h2, h3⟩
  · rintro (rfl | ⟨l', hl', h1, h2, h3⟩)
    · exact ⟨l, Multiset.mem_cons_self l L, h.1, h.2, rfl⟩
    · exact ⟨l', Multiset.mem_cons_of_mem hl', h1, h2, h3⟩

theorem withLetters_self {L : Multiset (Letter α)} (h : N.letters = L) : N.withLetters L = N := by
  subst h
  rfl

namespace Sequence

/-- Without a message, its number is missing from the windows it counts for. -/
theorem holds_take (s : N.Sequence lim) {l : Letter α} {L : Multiset (Letter α)} {i q : ℕ}
    (hL : N.letters = l ::ₘ L) (h : l.place.2 ≤ i) :
    (N.withLetters L).Holds l.place.1 i q ↔ N.Holds l.place.1 i q ∧ q ≠ l.number.toNat := by
  nth_rewrite 2 [← withLetters_self hL]
  rw [holds_cons ⟨rfl, h⟩]
  constructor
  · rintro ⟨l', hl', h1, h2, h3⟩
    exact ⟨.inr ⟨l', hl', h1, h2, h3⟩, h3 ▸ s.cons_inj hL hl' h1⟩
  · rintro ⟨rfl | hh, hne⟩
    · exact absurd rfl hne
    · exact hh

theorem holds_take_of_not {l : Letter α} {L : Multiset (Letter α)} {e : End} {i q : ℕ}
    (hL : N.letters = l ::ₘ L) (h : ¬(l.place.1 = e ∧ l.place.2 ≤ i)) :
    (N.withLetters L).Holds e i q ↔ N.Holds e i q := by
  nth_rewrite 2 [← withLetters_self hL]
  exact (holds_cons_of_not h).symm

/-- Messages leave the chain of an end from its last place: no port is there. -/
theorem leave (s : N.Sequence lim) (hu : ∀ x a, N.port x = some a → x.2 ≤ N.len x.1) {e : End}
    (hn : N.port (e, N.len e) = none) {R L : Multiset (Letter α)} (hL : N.letters = R + L)
    (hR : ∀ l ∈ R, l.place = (e, N.len e)) : (N.withLetters L).Sequence lim := by
  have hsub : ∀ l ∈ L, l ∈ N.letters := fun l hl => hL ▸ Multiset.mem_add.2 (.inr hl)
  exact
    { s with
      letter := fun l hl => s.letter l (hsub l hl)
      nodup := by
        have := s.nodup
        rw [hL, Multiset.map_add] at this
        exact (Multiset.nodup_add.1 this).2.1
      port := fun x a hx => by
        refine { s.port x a hx with window := fun q => Iff.trans ⟨?_, ?_⟩ ((s.port x a hx).window q) }
        · rintro ⟨l, hl, h⟩
          exact ⟨l, hsub l hl, h⟩
        · rintro ⟨l, hl, h1, h2, h3⟩
          rcases Multiset.mem_add.1 (hL ▸ hl) with hl | hl
          · -- It counts for a port after the last place of the chain only.
            rw [hR l hl] at h1 h2
            have hle : x.2 ≤ N.len e := (hu x a hx).trans_eq (congrArg N.len h1.symm)
            obtain rfl : x = (e, N.len e) := Prod.ext h1.symm (le_antisymm hle h2)
            have hx' : N.port (e, N.len e) = some a := hx
            rw [hn] at hx'
            cases hx'
          · exact ⟨l, hl, h1, h2, h3⟩
      gone := fun x hx hxn l hl => s.gone x hx hxn l (hsub l hl)
      events := fun ev hev => by
        have := s.events ev hev
        cases ev <;> exact this }

/-- The message that is read is the next of those the other end sent. -/
theorem returned_get (s : N.Sequence lim) {e : End} {l : Letter α} (hmem : l ∈ N.letters)
    (hl : l.place.1 = e) (hn : l.number.toNat = (N.returned e).length + 1) :
    N.returned e ++ [(l.number, l.payload)] <+: N.sent e.opp := by
  obtain ⟨t, ht⟩ := s.returned e
  have hlet := s.letter l hmem
  rw [hl, hn, Nat.add_sub_cancel] at hlet
  change (N.sent e.opp)[(N.returned e).length]? = _ at hlet
  rw [← ht, List.getElem?_append_right le_rfl, Nat.sub_self] at hlet
  cases t with
  | nil => simp at hlet
  | cons v t =>
    simp only [List.getElem?_cons_zero, Option.some.injEq] at hlet
    exact ⟨t, by rw [← hlet, List.append_assoc]; exact ht⟩

/-- The window of the port that reads moves by one, and the message read leaves that of no
    other. -/
theorem port_get (s : N.Sequence lim) (w : N.Shape) {e : End} {a : Port} {l : Letter α}
    {L : Multiset (Letter α)} (hp : N.port (e, N.len e) = some a) (hL : N.letters = l ::ₘ L)
    (hl : l.place = (e, N.len e)) (hn : l.number = a.next)
    (hnext : (a.next + 1).toNat = a.next.toNat + 1) (hle : a.next.toNat ≤ N.total e) {x : Place}
    {b : Port} (hx : (N.set (e, N.len e) { a with next := a.next + 1 }).port x = some b) :
    (N.withLetters L).PortSequence lim x b := by
  have hb : N.bound lim (e, N.len e) = N.total e := bound_live w e
  rcases port_set_cases hx with ⟨rfl, rfl⟩ | ⟨hne, hx⟩
  · obtain ⟨h1, h2, h3, h4⟩ := s.port _ a hp
    refine ⟨by simp [hnext], ?_, fun q => ?_, h4⟩
    · change (a.next + 1).toNat ≤ N.bound lim (e, N.len e) + 1
      omega
    · change (N.withLetters L).Holds e (N.len e) q ↔
        (a.next + 1).toNat ≤ q ∧ q ≤ N.bound lim (e, N.len e)
      have htake := s.holds_take (q := q) (i := N.len e) hL (by rw [hl])
      have hwin := h3 q
      rw [hl] at htake
      rw [htake, hwin, hn, hnext]
      omega
  · have hnot : ¬(l.place.1 = x.1 ∧ l.place.2 ≤ x.2) := by
      rw [hl]
      rintro ⟨h1, h2⟩
      have hu : x.2 ≤ N.len e := (w.used hx).2.trans_eq (congrArg N.len h1.symm)
      exact hne (Prod.ext h1.symm (le_antisymm hu h2))
    exact { s.port x b hx with
      window := fun q => (holds_take_of_not hL hnot).trans ((s.port x b hx).window q) }

/-- The next message is read. -/
theorem get (s : N.Sequence lim) (w : N.Shape) (hsmall : N.Small) {e : End} {a : Port}
    {l : Letter α} {L : Multiset (Letter α)} (hp : N.port (e, N.len e) = some a)
    (hL : N.letters = l ::ₘ L) (hl : l.place = (e, N.len e)) (hn : l.number = a.next) :
    (((N.set (e, N.len e) { a with next := a.next + 1 }).withLetters L).noteReturned e
      (l.number, l.payload)).Sequence lim := by
  have hmem : l ∈ N.letters := hL ▸ Multiset.mem_cons_self l L
  have hsub : ∀ l' ∈ L, l' ∈ N.letters := fun l' hl' => hL ▸ Multiset.mem_cons_of_mem hl'
  have hle : a.next.toNat ≤ N.total e := by
    have := s.number_le hmem
    rwa [hl, hn] at this
  have hnext : (a.next + 1).toNat = a.next.toNat + 1 :=
    UInt64.toNat_add_one (lt_of_le_of_lt (Nat.succ_le_succ hle) (hsmall e.opp))
  have hret := s.next e a hp
  exact
    { s with
      letter := fun l' hl' => s.letter l' (hsub l' hl')
      nodup := by
        have := s.nodup
        rw [hL, Multiset.map_cons] at this
        exact (Multiset.nodup_cons.1 this).2
      port := fun x b hx => { s.port_get w hp hL hl hn hnext hle hx with }
      gone := fun x hx hxn l' hl' => by
        refine s.gone x hx ?_ l' (hsub l' hl')
        refine (port_set_of_ne _ ?_).symm.trans hxn
        rintro rfl
        exact hx.2.ne rfl
      send := fun e' b hb' => by
        rcases port_set_cases hb' with ⟨hex, rfl⟩ | ⟨-, hb'⟩
        · cases hex
          exact s.send e a hp
        · exact s.send e' b hb'
      next := fun e' b hb' => by
        by_cases he : e' = e
        · subst he
          have hb' : (N.set (e', N.len e') _).port (e', N.len e') = some b := hb'
          rw [port_set_self] at hb'
          rw [← Option.some.inj hb']
          change (a.next + 1).toNat = (Function.update N.returned e' _ e').length + 1
          rw [Function.update_self, List.length_append, hnext, hret]
          rfl
        · change _ = (Function.update N.returned e _ e').length + 1
          rw [Function.update_of_ne he]
          exact s.next e' b ((port_set_of_ne _ fun h => he (congrArg Prod.fst h)).symm.trans hb')
      returned := fun e' => by
        by_cases he : e' = e
        · subst he
          change Function.update N.returned e' _ e' <+: N.sent e'.opp
          rw [Function.update_self]
          exact s.returned_get hmem (congrArg Prod.fst hl) (by rw [hn, hret])
        · change Function.update N.returned e _ e' <+: N.sent e'.opp
          rw [Function.update_of_ne he]
          exact s.returned e'
      unused := fun e' he' => by
        have he : e' ≠ e := by
          rintro rfl
          exact absurd (w.pipe_lt hp) (not_lt.2 he')
        refine ⟨(s.unused e' he').1, ?_⟩
        exact (Function.update_of_ne he ..).trans (s.unused e' he').2
      events := fun ev hev => by
        have := s.events ev hev
        cases ev <;> exact this }

/-- A proxy forwards the next message. -/
theorem forward (s : N.Sequence lim) (w : N.Shape) (hsmall : N.Small) {x : Place} {a : Port}
    {l : Letter α} {L : Multiset (Letter α)} (hx : N.port x = some a) (hlive : a.kind.live = false)
    (hL : N.letters = l ::ₘ L) (hl : l.place = x) (hn : l.number = a.next) (send : UInt64) :
    ((N.set x { a with next := a.next + 1, send := send }).withLetters
      ({ l with place := x.succ, queued := false } ::ₘ L)).Sequence lim := by
  have hmem : l ∈ N.letters := hL ▸ Multiset.mem_cons_self l L
  have hsub : ∀ l' ∈ L, l' ∈ N.letters := fun l' hl' => hL ▸ Multiset.mem_cons_of_mem hl'
  have hlt := w.proxy hx hlive
  have hwin := (s.port x a hx).window a.next.toNat
  have hle : a.next.toNat ≤ N.bound lim x :=
    (hwin.1 ⟨l, hmem, by rw [hl], by rw [hl], by rw [hn]⟩).2
  have htot : a.next.toNat ≤ N.total x.1 := by
    have := s.number_le hmem
    rwa [hl, hn] at this
  have hnext : (a.next + 1).toNat = a.next.toNat + 1 :=
    UInt64.toNat_add_one (lt_of_le_of_lt (Nat.succ_le_succ htot) (hsmall x.1.opp))
  have hne : ∀ e, (e, N.len e) ≠ x := by
    rintro e rfl
    exact hlt.ne rfl
  exact
    { s with
      letter := Multiset.forall_mem_cons.2 ⟨by
        have := s.letter l hmem
        rw [hl] at this
        exact this, fun l' hl' => s.letter l' (hsub l' hl')⟩
      nodup := by
        have := s.nodup
        rw [hL, Multiset.map_cons, hl] at this
        change (Multiset.map _ (_ ::ₘ L)).Nodup
        rw [Multiset.map_cons]
        exact this
      port := fun y b hy => by
        rcases port_set_cases hy with ⟨rfl, rfl⟩ | ⟨hyx, hy⟩
        · obtain ⟨h1, h2, h3, h4⟩ := s.port y a hx
          refine ⟨by simp [hnext], ?_, fun q => ?_, h4⟩
          · change (a.next + 1).toNat ≤ N.bound lim y + 1
            omega
          · have hcons := holds_cons_of_not (N := N) (L := L) (e := y.1) (i := y.2) (q := q)
              (l := { l with place := y.succ, queued := false }) (by simp [Place.succ])
            have htake := s.holds_take (q := q) (i := y.2) hL (by rw [hl])
            rw [hl] at htake
            have hwin := h3 q
            refine Iff.trans hcons ?_
            change _ ↔ (a.next + 1).toNat ≤ q ∧ q ≤ N.bound lim y
            rw [htake, hwin, hn, hnext]
            omega
        · refine { s.port y b hy with window := fun q => Iff.trans ?_ ((s.port y b hy).window q) }
          -- A port further on has the message in its window before and after, and one before it
          -- never.
          by_cases hcase : x.1 = y.1 ∧ x.2 < y.2
          · have h1 := holds_cons (N := N) (L := L) (e := y.1) (i := y.2) (q := q)
              (l := { l with place := x.succ, queued := false }) hcase
            have h2 := holds_cons (N := N) (L := L) (e := y.1) (i := y.2) (q := q) (l := l)
              (by rw [hl]; exact ⟨hcase.1, hcase.2.le⟩)
            rw [withLetters_self hL] at h2
            exact h1.trans h2.symm
          · have h1 := holds_cons_of_not (N := N) (L := L) (e := y.1) (i := y.2) (q := q)
              (l := { l with place := x.succ, queued := false }) hcase
            refine h1.trans (holds_take_of_not hL ?_)
            rw [hl]
            rintro ⟨h2, h3⟩
            exact hyx (Prod.ext h2.symm (le_antisymm (not_lt.1 fun h => hcase ⟨h2, h⟩) h3))
      gone := fun y hy hyn => by
        have hyx : y ≠ x := by
          rintro rfl
          exact absurd ((port_set_self ..).symm.trans hyn) (Option.some_ne_none _)
        have hyn : N.port y = none := (port_set_of_ne _ hyx).symm.trans hyn
        refine Multiset.forall_mem_cons.2 ⟨fun he => ?_, fun l' hl' => s.gone y hy hyn l' (hsub l' hl')⟩
        have := s.gone y hy hyn l hmem (by rw [hl]; exact he)
        rw [hl] at this
        exact this.trans (Nat.lt_succ_self _)
      send := fun e b hb => s.send e b ((port_set_of_ne _ (hne e)).symm.trans hb)
      next := fun e b hb => s.next e b ((port_set_of_ne _ (hne e)).symm.trans hb)
      events := fun ev hev => by
        have := s.events ev hev
        cases ev <;> exact this }

end Sequence

/-! ## Sending -/

/-- A port sends a message: it is numbered, and noted. -/
def sendPost (N : Net α) (e : End) (a : Port) (l : Letter α) : Net α :=
  ((N.set (e, N.len e) { a with send := a.send + 1 }).withLetters (l ::ₘ N.letters)).noteSent e
    (a.send, l.payload)

section SendPost

variable {e e' : End} {a b : Port} {l : Letter α} {x : Place}

theorem sent_sendPost_self :
    (N.sendPost e a l).sent e = N.sent e ++ [(a.send, l.payload)] := Function.update_self ..

theorem sent_sendPost_of_ne (he : e' ≠ e) : (N.sendPost e a l).sent e' = N.sent e' :=
  Function.update_of_ne he ..

theorem length_sent_sendPost : ((N.sendPost e a l).sent e).length = (N.sent e).length + 1 := by
  rw [sent_sendPost_self, List.length_append, List.length_singleton]

/-- One more message is sent to the opposite end. -/
theorem total_sendPost_self : (N.sendPost e a l).total e.opp = N.total e.opp + 1 := by
  rw [total, total, End.opp_opp, length_sent_sendPost]

theorem total_sendPost_of_ne (he : e' ≠ e.opp) : (N.sendPost e a l).total e' = N.total e' := by
  rw [total, total, sent_sendPost_of_ne]
  rintro rfl
  exact he (by simp)

theorem total_le_sendPost (e' : End) : N.total e' ≤ (N.sendPost e a l).total e' := by
  by_cases he : e' = e.opp
  · rw [he, total_sendPost_self]
    exact Nat.le_succ _
  · exact (total_sendPost_of_ne he).ge

/-- The last number of a place that the message does not get to is as it was. -/
theorem bound_sendPost (hx : x.1 = e.opp → x.2 < N.toward e) :
    (N.sendPost e a l).bound lim x = N.bound lim x := by
  by_cases he : x.1 = e.opp
  · have hlt : x.2 < N.toward x.1.opp := by rw [he, End.opp_opp]; exact hx he
    rw [bound_of_lt hlt]
    exact bound_of_lt hlt
  · rw [bound, bound, total_sendPost_of_ne he]
    rfl

/-- An end that may send is not frozen. -/
theorem not_frozen (w : N.Shape) (hp : N.port (e, N.len e) = some a) (hc : a.peerClosed = false) :
    ¬N.Frozen e := by
  rintro (hcl | ⟨b, hb, hbc⟩)
  · rw [w.isClosed e hcl] at hp
    cases hp
  · rw [hp] at hb
    rw [← Option.some.inj hb, hc] at hbc
    cases hbc

/-- No port that an end may send to was told a last number. -/
theorem not_told (r : N.Ring) (w : N.Shape) (hp : N.port (e, N.len e) = some a)
    (hc : a.peerClosed = false) (hx : N.port x = some b) (he : x.1 = e.opp)
    (ht : N.toward e ≤ x.2) : ¬(b.peerClosed ∨ b.remove) := by
  intro hor
  have hf := not_frozen w hp hc
  have he' : x.1.opp = e := by rw [he, End.opp_opp]
  cases hl : b.kind.live with
  | true =>
    rw [(w.live hx hl).2.2] at hor
    have := (r.live x b hx hl).peerClosed (hor.resolve_right (by simp))
    exact hf (.inl (he' ▸ this))
  | false =>
    have hpr := r.proxy x b hx hl
    rcases hor with hb | hb
    · exact hf (he' ▸ hpr.peerClosed hb)
    · rcases hpr.remove hb with h | ⟨-, h⟩
      · exact hf (he' ▸ h)
      · exact absurd h (not_lt.2 (he' ▸ ht))

/-- The ends attached to a message may be sent before it or after it. -/
theorem transferAll_sendPost (es : List End) : (N.sendPost e a l).transferAll es =
    (((N.set (e, N.len e) { a with send := a.send + 1 }).transferAll es).withLetters
      (l ::ₘ N.letters)).noteSent e (a.send, l.payload) := by
  rw [sendPost, transferAll_noteSent, transferAll_withLetters]

theorem Shape.sendPost (w : N.Shape) (hp : N.port (e, N.len e) = some a)
    (hk : a.kind = .receiving) (hl : l.place = (e.opp, N.toward e)) (hq : l.queued = false) :
    (N.sendPost e a l).Shape := by
  have hset : (N.set (e, N.len e) { a with send := a.send + 1 }).Shape :=
    w.set hp rfl (by simp [hk]) (fun _ => (w.live hp (by simp [hk])).2) fun hs => w.stored hp hs
  refine (hset.post (l := l) ?_ (by simp [hq])).noteSent e _
  rw [hl]
  exact ⟨w.pipe_lt (x := (e, N.len e)) hp, w.toward_le e⟩

/-- A proxy that forwards a message stays one. -/
theorem Shape.forwardPost (w : N.Shape) {L : Multiset (Letter α)} (hx : N.port x = some a)
    (hk : a.kind = .proxying) (hL : N.letters = l ::ₘ L) :
    ((N.set x { a with next := a.next + 1 }).withLetters
      ({ l with place := x.succ, queued := false } ::ₘ L)).Shape := by
  have hset : (N.set x { a with next := a.next + 1 }).Shape :=
    w.set hx rfl (by simp [hk]) (by simp [hk]) fun hs => w.stored hx hs
  exact (hset.take hL).post (Passed.succ_used ⟨w.pipe_lt hx, w.proxy hx (by simp [hk])⟩) (by simp)

/-- The numbers do not wrap after a message is sent, and so neither does the next one. -/
theorem Small.length_add_two {es : List End} {H : Multiset End} {payload : α}
    (h : (((((N.set (e, N.len e) { a with send := a.send + 1 }).transferAll es).withLetters
      (⟨(e.opp, N.toward e), false, a.send, payload, es⟩ ::ₘ N.letters)).withHeld H).noteSent e
        (a.send, payload)).Small) : (N.sent e).length + 2 < 2 ^ 64 := by
  have := h e
  change (Function.update (Net.transferAll es _).sent e
    ((Net.transferAll es _).sent e ++ _) e).length + 1 < _ at this
  rwa [transferAll_sent, Function.update_self, List.length_append] at this

namespace Sequence

/-- The ports that the message gets to expect it, and the others what they did. -/
theorem port_sendPost (s : N.Sequence lim) (r : N.Ring) (w : N.Shape)
    (hp : N.port (e, N.len e) = some a) (hc : a.peerClosed = false)
    (hl : l.place = (e.opp, N.toward e)) (hn : l.number = a.send) (hx : N.port x = some b) :
    (N.sendPost e a l).PortSequence lim x b := by
  have hsend := s.send e a hp
  obtain ⟨h1, h2, h3, h4⟩ := s.port x b hx
  by_cases hcase : x.1 = e.opp ∧ N.toward e ≤ x.2
  · have hb : N.bound lim x = N.total e.opp := by
      rw [← hcase.1]
      exact bound_of_le (by rw [hcase.1, End.opp_opp]; exact hcase.2)
    have hb' : (N.sendPost e a l).bound lim x = N.total e.opp + 1 := by
      rw [← total_sendPost_self, ← hcase.1]
      exact bound_of_le (by rw [hcase.1, End.opp_opp]; exact hcase.2)
    refine ⟨h1, by omega, fun q => ?_,
      fun hor => absurd hor (not_told r w hp hc hx hcase.1 hcase.2)⟩
    have hcons := holds_cons (N := N) (L := N.letters) (l := l) (e := x.1) (i := x.2) (q := q)
      (by rw [hl]; exact ⟨hcase.1.symm, hcase.2⟩)
    refine Iff.trans hcons ?_
    have hwin := h3 q
    rw [withLetters_self rfl, hwin, hn, hb', hb, hsend, total, End.opp_opp]
    rw [hb, total, End.opp_opp] at h2
    omega
  · have hb : (N.sendPost e a l).bound lim x = N.bound lim x :=
      bound_sendPost fun he => not_le.1 fun ht => hcase ⟨he, ht⟩
    refine ⟨h1, hb ▸ h2, fun q => ?_, fun hor => hb ▸ h4 hor⟩
    have hcons := holds_cons_of_not (N := N) (L := N.letters) (l := l) (e := x.1) (i := x.2)
      (q := q) (by rw [hl]; exact fun h => hcase ⟨h.1.symm, h.2⟩)
    rw [hb, ← h3 q]
    exact hcons

/-- The messages sent are numbered from one on. -/
theorem sent_sendPost (s : N.Sequence lim) (hp : N.port (e, N.len e) = some a) {k : ℕ}
    {v : UInt64 × α} (hk : ((N.sendPost e a l).sent e')[k]? = some v) : v.1.toNat = k + 1 := by
  by_cases he : e' = e
  · subst he
    rw [sent_sendPost_self, List.getElem?_append] at hk
    split_ifs at hk with hlt
    · exact s.sent e' k v hk
    · rw [List.getElem?_singleton] at hk
      split_ifs at hk with h0
      have hsend := s.send e' a hp
      rw [← Option.some.inj hk]
      change a.send.toNat = k + 1
      omega
  · rw [sent_sendPost_of_ne he] at hk
    exact s.sent e' k v hk

/-- A message is the one that was sent with its number. -/
theorem letter_sendPost (s : N.Sequence lim) (hp : N.port (e, N.len e) = some a)
    (hl : l.place = (e.opp, N.toward e)) (hn : l.number = a.send) :
    ∀ l' ∈ l ::ₘ N.letters, ((N.sendPost e a l).sent l'.place.1.opp)[l'.number.toNat - 1]? =
      some (l'.number, l'.payload) := by
  refine Multiset.forall_mem_cons.2 ⟨?_, fun l' hl' => ?_⟩
  · rw [hl, End.opp_opp, sent_sendPost_self, hn, s.send e a hp, Nat.add_sub_cancel,
      List.getElem?_append_right le_rfl]
    simp
  · by_cases he : l'.place.1.opp = e
    · have := s.letter l' hl'
      rw [he] at this ⊢
      rw [sent_sendPost_self, List.getElem?_append_left (List.getElem?_eq_some_iff.1 this).1]
      exact this
    · rw [sent_sendPost_of_ne he]
      exact s.letter l' hl'

/-- No other message has the number of the one that is sent. -/
theorem nodup_sendPost (s : N.Sequence lim) (hp : N.port (e, N.len e) = some a)
    (hl : l.place = (e.opp, N.toward e)) (hn : l.number = a.send) :
    ((l ::ₘ N.letters).map fun l => (l.place.1, l.number)).Nodup := by
  rw [Multiset.map_cons, Multiset.nodup_cons]
  refine ⟨fun hm => ?_, s.nodup⟩
  obtain ⟨l', hl', heq⟩ := Multiset.mem_map.1 hm
  obtain ⟨h1, h2⟩ := Prod.ext_iff.1 heq
  have hle := s.number_le hl'
  have hsend := s.send e a hp
  rw [show l'.place.1 = e.opp from h1.trans (by rw [hl]), total, End.opp_opp,
    show l'.number = l.number from h2, hn] at hle
  omega

/-- A message does not get to a place that is gone: nothing was sent there. -/
theorem gone_sendPost (s : N.Sequence lim) (r : N.Ring) (w : N.Shape)
    (hp : N.port (e, N.len e) = some a) (hc : a.peerClosed = false)
    (hl : l.place = (e.opp, N.toward e)) (hx : N.Passed x)
    (hxn : (N.sendPost e a l).port x = none) :
    ∀ l' ∈ l ::ₘ N.letters, l'.place.1 = x.1 → x.2 < l'.place.2 := by
  have hne : x ≠ (e, N.len e) := by
    rintro rfl
    exact hx.2.ne rfl
  have hxn : N.port x = none := (port_set_of_ne _ hne).symm.trans hxn
  refine Multiset.forall_mem_cons.2 ⟨fun he => ?_, s.gone x hx hxn⟩
  rw [hl] at he ⊢
  by_contra hge
  refine r.present x hx ?_ ?_ hxn
  · rw [← he, End.opp_opp]
    exact not_lt.1 hge
  · rw [← he, End.opp_opp]
    exact not_frozen w hp hc

/-- The next number of an end is the one after those it has sent. -/
theorem send_sendPost (s : N.Sequence lim) (hp : N.port (e, N.len e) = some a)
    (hsmall : (N.sent e).length + 2 < 2 ^ 64)
    (hb : (N.sendPost e a l).port (e', N.len e') = some b) :
    b.send.toNat = ((N.sendPost e a l).sent e').length + 1 := by
  by_cases he : e' = e
  · subst he
    have hsend := s.send e' a hp
    have hb : (N.set (e', N.len e') _).port (e', N.len e') = some b := hb
    rw [port_set_self] at hb
    rw [← Option.some.inj hb, length_sent_sendPost]
    change (a.send + 1).toNat = _
    rw [UInt64.toNat_add_one (by omega), hsend]
  · rw [sent_sendPost_of_ne he]
    exact s.send e' b ((port_set_of_ne _ fun h => he (congrArg Prod.fst h)).symm.trans hb)

/-- What an end returned was sent. -/
theorem returned_sendPost (s : N.Sequence lim) (e' : End) :
    N.returned e' <+: (N.sendPost e a l).sent e'.opp := by
  by_cases he : e'.opp = e
  · have := s.returned e'
    rw [he] at this ⊢
    rw [sent_sendPost_self]
    exact this.trans (List.prefix_append ..)
  · rw [sent_sendPost_of_ne he]
    exact s.returned e'

/-- An event carries no number of an end that was just sent to: that end is not frozen. -/
theorem numberOk_sendPost (s : N.Sequence lim) (r : N.Ring) (w : N.Shape)
    (hp : N.port (e, N.len e) = some a) (hc : a.peerClosed = false) {ev : Event}
    (hev : ev ∈ N.events) : (N.sendPost e a l).NumberOk lim ev := by
  have hok := s.events ev hev
  have hring := r.events ev hev
  cases ev with
  | accepted x => trivial
  | proxy d x => trivial
  | ack x last => exact hok
  | closure d last =>
    have he : d.1 ≠ e.opp := by
      intro he
      have : N.Frozen d.1.opp := hring
      rw [he, End.opp_opp] at this
      exact not_frozen w hp hc this
    obtain ⟨h1, h2⟩ := hok
    exact ⟨h1.trans (total_sendPost_of_ne he).symm, (bound_sendPost fun h => absurd h he).trans
      (h2.trans (total_sendPost_of_ne he).symm)⟩

/-- A message is sent. -/
theorem sendPost (s : N.Sequence lim) (r : N.Ring) (w : N.Shape)
    (hp : N.port (e, N.len e) = some a) (hc : a.peerClosed = false)
    (hl : l.place = (e.opp, N.toward e)) (hn : l.number = a.send)
    (hsmall : (N.sent e).length + 2 < 2 ^ 64) : (N.sendPost e a l).Sequence lim where
  sent e' k v hk := s.sent_sendPost hp hk
  letter := s.letter_sendPost hp hl hn
  nodup := s.nodup_sendPost hp hl hn
  port x b hx := by
    rcases port_set_cases hx with ⟨rfl, rfl⟩ | ⟨-, hx⟩
    · exact { s.port_sendPost r w hp hc hl hn hp with }
    · exact s.port_sendPost r w hp hc hl hn hx
  gone x hx := s.gone_sendPost r w hp hc hl hx
  send e' b := s.send_sendPost hp hsmall
  next e' b hb := by
    rcases port_set_cases hb with ⟨hex, rfl⟩ | ⟨-, hb⟩
    · cases hex
      exact s.next e a hp
    · exact s.next e' b hb
  returned := s.returned_sendPost
  unused e' he' := by
    have he : e' ≠ e := by
      rintro rfl
      exact absurd (w.pipe_lt hp) (not_lt.2 he')
    rw [sent_sendPost_of_ne he]
    exact s.unused e' he'
  lim_le x hx := (s.lim_le x hx).trans (total_le_sendPost x.1)
  lim_mono := s.lim_mono
  events ev := s.numberOk_sendPost r w hp hc

end Sequence

end SendPost

namespace Sequence

/-- The receiving port of an end skips a proxy. -/
theorem redirect (s : N.Sequence lim) (r : N.Ring) {e : End} :
    (N.redirect e).Sequence (Function.update lim (e.opp, N.toward e) (N.total e.opp)) := by
  -- What was sent so far is all that goes through the proxy that is skipped.
  set lim' := Function.update lim (e.opp, N.toward e) (N.total e.opp) with hlim
  have hself : lim' (e.opp, N.toward e) = N.total e.opp := Function.update_self ..
  have hother : ∀ x, x ≠ (e.opp, N.toward e) → lim' x = lim x := fun x hx =>
    Function.update_of_ne hx ..
  have hne : ∀ x : Place, x.2 < N.toward x.1.opp → lim' x = lim x := by
    intro x hx
    refine hother x ?_
    rintro rfl
    rw [show (e.opp, N.toward e).1.opp = e from e.opp_opp] at hx
    exact lt_irrefl _ hx
  have hlt : ∀ x : Place, x.2 < (N.redirect e).toward x.1.opp →
      x.2 < N.toward x.1.opp ∨ x = (e.opp, N.toward e) := by
    intro x hx
    by_cases he : x.1.opp = e
    · rw [he, toward_redirect_self] at hx
      rcases Nat.lt_succ_iff_lt_or_eq.1 hx with hx | hx
      · exact .inl (he ▸ hx)
      · exact .inr (Prod.ext (by rw [← he, End.opp_opp]) hx)
    · rw [toward_redirect_of_ne he] at hx
      exact .inl hx
  -- The ports after the proxy were bound by it already, so that no window changes.
  have hbound : ∀ x, (N.redirect e).bound lim' x = N.bound lim x := by
    intro x
    by_cases hx : x.2 < (N.redirect e).toward x.1.opp
    · rw [bound_of_lt hx]
      rcases hlt x hx with h | rfl
      · rw [bound_of_lt h, hne x h]
      · rw [hself]
        refine (bound_of_le (N := N) (x := (e.opp, N.toward e)) ?_).symm
        rw [show (e.opp, N.toward e).1.opp = e from e.opp_opp]
    · rw [bound_of_le (not_lt.1 hx)]
      refine (bound_of_le (N := N) ?_).symm
      exact ((frame_redirect e).toward_le _).trans (not_lt.1 hx)
  exact
    { s with
      port := fun x a hx => by
        obtain ⟨h1, h2, h3, h4⟩ := s.port x a hx
        exact ⟨h1, (hbound x).symm ▸ h2, fun q => (hbound x).symm ▸ h3 q,
          fun hf => (hbound x).symm ▸ h4 hf⟩
      lim_le := fun x hx => by
        rcases hlt x hx with h | rfl
        · rw [hne x h]
          exact s.lim_le x h
        · exact hself.le
      lim_mono := fun x hx => by
        have hx' := Nat.lt_of_succ_lt hx
        rcases hlt x.succ hx with h | h
        · rw [hne x (Nat.lt_of_succ_lt h), hne x.succ h]
          exact s.lim_mono x h
        · rw [h, hself]
          have h1 : x.1 = e.opp := congrArg Prod.fst h
          have h2 : x.2 + 1 = N.toward e := congrArg Prod.snd h
          have hlt' : x.2 < N.toward x.1.opp := by
            rw [h1, End.opp_opp]
            omega
          rw [hne x hlt', ← h1]
          exact s.lim_le x hlt'
      events := fun ev hev => by
        have hok := s.events ev hev
        have hring := r.events ev hev
        cases ev with
        | accepted x => trivial
        | proxy d x => trivial
        | ack x last => exact fun hl => (hok hl).trans (hne x (hring.2 hl)).symm
        | closure d last => exact ⟨hok.1, (hbound d).trans hok.2⟩ }

theorem create (s : N.Sequence lim) (w : N.Shape) : N.create.Sequence lim := by
  have hnew : ∀ e : End, e.pipe = N.pipes → N.sent e = [] ∧ N.returned e = [] :=
    fun e he => s.unused e he.ge
  exact
    { s with
      port := fun x b hx => by
        rcases port_create_cases hx with ⟨hp, h0, rfl⟩ | hx
        · have hb : N.create.bound lim x = 0 := by
            have h1 : N.create.bound lim x = N.total x.1 := by
              refine bound_of_le ?_
              rw [show N.create.toward = N.toward from rfl, (w.unused x.1.opp hp.ge).2.1]
              exact Nat.zero_le _
            rw [h1, total, (hnew x.1.opp hp).1]
            rfl
          -- Nothing was sent on a new pipe: its windows are empty.
          refine ⟨by decide, by rw [hb]; decide, fun q => ?_, by simp⟩
          rw [hb]
          refine ⟨?_, fun h => absurd h.2 (not_le.2 h.1)⟩
          rintro ⟨l, hl, he, -⟩
          have := (w.letters l hl).1
          rw [he] at this
          exact absurd this (not_lt.2 hp.ge)
        · exact { s.port x b hx with }
      gone := fun x hx hxn => by
        rcases Nat.lt_succ_iff_lt_or_eq.1 hx.1 with hp | hp
        · exact s.gone x ⟨hp, hx.2⟩ ((port_create_of_pipe_lt hp).symm.trans hxn)
        · have : N.create.len x.1 = 0 := (w.unused x.1 hp.ge).1
          exact absurd (hx.2.trans_eq this) (Nat.not_lt_zero _)
      send := fun e b hb => by
        rcases port_create_cases hb with ⟨hp, -, rfl⟩ | hb
        · change _ = (N.sent e).length + 1
          rw [(hnew e hp).1]
          rfl
        · exact s.send e b hb
      next := fun e b hb => by
        rcases port_create_cases hb with ⟨hp, -, rfl⟩ | hb
        · change _ = (N.returned e).length + 1
          rw [(hnew e hp).2]
          rfl
        · exact s.next e b hb
      unused := fun e he => s.unused e (Nat.le_of_succ_le he)
      events := fun ev hev => by
        have := s.events ev hev
        cases ev <;> exact this }

theorem close (s : N.Sequence lim) (w : N.Shape) {e : End} {a : Port} {H : Multiset End}
    (hp : N.port (e, N.len e) = some a) : (N.close e a H).Sequence lim := by
  have herase : (N.erase (e, N.len e)).Sequence lim := s.erase fun h => absurd h.2 (lt_irrefl _)
  have hleave : ((N.erase (e, N.len e)).withLetters (N.elsewhere (e, N.len e))).Sequence lim :=
    herase.leave (R := N.queue (e, N.len e)) (fun x b hx => (w.used (port_erase_cases hx).2).2)
      (port_erase_self ..) (Multiset.filter_add_not _ _).symm fun l hl =>
        (Multiset.mem_filter.1 hl).2.2
  have hsend := s.send e a hp
  have hev : N.NumberOk lim (.closure (e.opp, N.toward e) (a.send - 1)) := by
    refine ⟨?_, bound_of_le ?_⟩
    · rw [UInt64.toNat_sub_one (by omega), hsend, Nat.add_sub_cancel, total, End.opp_opp]
    · rw [show (e.opp, N.toward e).1.opp = e from e.opp_opp]
  have hemit := hleave.withEvents (E := .closure (e.opp, N.toward e) (a.send - 1) ::ₘ N.events)
    (Multiset.forall_mem_cons.2 ⟨hev, hleave.events⟩)
  exact
    { hemit with
      port := fun x b hx => { hemit.port x b hx with }
      events := fun ev hev => by
        have := hemit.events ev hev
        cases ev <;> exact this }

/-- A message is not rejected, unless the end it is sent to is closed. -/
theorem closed_of_reject (s : N.Sequence lim) (r : N.Ring) (w : N.Shape) {l : Letter α}
    (hl : l ∈ N.letters)
    (ha : ∀ a, N.port l.place = some a → a.kind ≠ .transit → a.canAccept = false) :
    l.place.2 = N.len l.place.1 ∧ N.port l.place = none := by
  have hn : N.port l.place = none := by
    by_contra hne
    obtain ⟨a, hx⟩ := Option.ne_none_iff_exists'.1 hne
    exact s.not_holds hx (ha a hx ((r.letters l hl).2 a hx)) _ ⟨l, hl, rfl, le_rfl, rfl⟩
  refine ⟨?_, hn⟩
  by_contra hne
  obtain ⟨h1, h2⟩ := w.letters l hl
  exact lt_irrefl _ (s.gone l.place ⟨h1, lt_of_le_of_ne h2 hne⟩ hn l hl rfl)

/-- A proxy that is removed leaves no messages. -/
theorem elsewhere_of_remove (s : N.Sequence lim) {x : Place} {a : Port} (hx : N.port x = some a)
    (hc : a.canAccept = false) : N.elsewhere x = N.letters := by
  refine Multiset.filter_eq_self.2 fun l hl hq => ?_
  exact s.not_holds hx hc _ ⟨l, hl, by rw [hq.2], by rw [hq.2], rfl⟩

end Sequence

theorem Step.sent_prefix {t : Label} (hs : Step N t M) (e : End) : N.sent e <+: M.sent e := by
  cases hs with
  | @send e' a payload es H hp hk _ _ _ _ =>
    change N.sent e <+: Function.update (Net.transferAll es _).sent e'
      ((Net.transferAll es _).sent e' ++ _) e
    rw [transferAll_sent]
    by_cases he : e = e'
    · subst he
      rw [Function.update_self]
      exact List.prefix_append ..
    · rw [Function.update_of_ne he]
      exact List.prefix_refl _
  | forward _ _ _ _ _ _ =>
    change N.sent e <+: (Net.transferAll _ _).sent e
    rw [transferAll_sent]
    exact List.prefix_refl _
  | arrive _ _ _ _ _ =>
    change N.sent e <+: (Net.acceptAll _ _).sent e
    rw [acceptAll_sent]
  | reject _ _ _ =>
    change N.sent e <+: (Net.acceptAll _ _).sent e
    rw [acceptAll_sent]
  | _ => exact List.prefix_refl _

theorem Step.small {t : Label} (hs : Step N t M) (h : M.Small) : N.Small := fun e =>
  (Nat.succ_le_succ (hs.sent_prefix e).length_le).trans_lt (h e)

namespace Sequence

/-- A message is not queued, and its ends are closed: it came to a place that is gone. -/
theorem reject (s : N.Sequence lim) (r : N.Ring) (w : N.Shape) (c : N.Cargo) {l : Letter α}
    {L : Multiset (Letter α)} (hL : N.letters = l ::ₘ L) (hq : l.queued = false)
    (ha : ∀ a, N.port l.place = some a → a.kind ≠ .transit → a.canAccept = false) :
    ((N.acceptAll l.ports).withLetters L).Sequence lim := by
  have hmem : l ∈ N.letters := hL ▸ Multiset.mem_cons_self l L
  obtain ⟨hlen, hn⟩ := s.closed_of_reject r w hmem ha
  have hshape := w.acceptAll (c.ports_nodup hmem) (c.transit hmem hq)
  have hne : l.place.1 ∈ l.ports → l.place.2 ≠ N.len l.place.1 := fun he =>
    ((Nat.lt_succ_self _).trans (c.noPeer l hmem he)).ne
  refine (s.acceptAll l.ports).leave (e := l.place.1) (R := {l}) (fun x b hx => (hshape.used hx).2)
    ?_ ?_ ?_
  · rw [acceptAll_len, ← hlen]
    exact (acceptAll_of_notMem hne).trans hn
  · rw [acceptAll_letters, hL, Multiset.singleton_add]
  · intro l' hl'
    rw [Multiset.mem_singleton.1 hl', acceptAll_len, ← hlen]

/-- A proxy may forward: if its peer is closed already then it tells the next place the last
    number, which is the one that it was told itself. -/
theorem portAccepted (s : N.Sequence lim) (r : N.Ring) {x : Place} {a : Port} {E : Multiset Event}
    (he : N.events = .accepted x ::ₘ E) (hx : N.port x = some a) (hk : a.kind = .buffering) :
    ((N.set x { a with kind := .proxying }).withEvents
      ((if a.remove then .closure x.succ a.last else .proxy x.succ x) ::ₘ E)).Sequence lim := by
  have hset : ((N.withEvents E).set x { a with kind := .proxying }).Sequence lim :=
    (s.consume he).set hx rfl rfl (s.port x a hx).last
  refine hset.emit ?_
  split_ifs with hr
  · have hb : N.bound lim x = N.total x.1 := bound_of_le ((r.proxy x a hx (by simp [hk])).ahead hk)
    exact ⟨((s.port x a hx).last (.inr hr)).trans hb, s.bound_succ hb⟩
  · trivial

/-- A port that is told of a closure answers it with the number of messages it has sent. -/
theorem closureReceive (s : N.Sequence lim) {e : End} {a : Port} {last : UInt64}
    {E : Multiset Event} (he : N.events = .closure (e, N.len e) last ::ₘ E)
    (hp : N.port (e, N.len e) = some a) :
    (((N.withEvents E).set (e, N.len e) { a with peerClosed := true, last := last }).withEvents
      (.closure (e.opp, N.toward e) (a.send - 1) ::ₘ E)).Sequence lim := by
  obtain ⟨h1, h2⟩ := s.numberOk he
  have hsend := s.send e a hp
  have hset : ((N.withEvents E).set (e, N.len e)
      { a with peerClosed := true, last := last }).Sequence lim :=
    (s.consume he).set hp rfl rfl fun _ => h1.trans h2.symm
  refine hset.emit ⟨?_, bound_of_le ?_⟩
  · rw [UInt64.toNat_sub_one (by omega), hsend, Nat.add_sub_cancel]
    exact congrArg (fun e' => (N.sent e').length) e.opp_opp.symm
  · rw [show (e.opp, N.toward e).1.opp = e from e.opp_opp]
    exact le_rfl

/-- A step preserves the invariant. -/
theorem step (s : N.Sequence lim) (r : N.Ring) (w : N.Shape) (c : N.Cargo) {t : Label} (hs : Step N t M)
    (hsmall : M.Small) : ∃ lim, M.Sequence lim := by
  have hsm := hs.small hsmall
  cases hs with
  | create => exact ⟨lim, s.create w⟩
  | @send e a payload es H hp hk hc _ _ _ =>
    have hpost := s.sendPost (l := ⟨(e.opp, N.toward e), false, a.send, payload, es⟩) r w hp hc
      rfl rfl hsmall.length_add_two
    have hall := hpost.transferAll (w.sendPost hp hk rfl rfl) es
    rw [transferAll_sendPost] at hall
    exact ⟨lim, hall.withHeld H⟩
  | get hp hk _ hL _ hl hn => exact ⟨lim, (s.get w hsm hp hL hl hn).withHeld _⟩
  | @arrive a l L hL _ _ _ _ =>
    refine ⟨lim, (s.acceptAll l.ports).withLetters ?_⟩
    rw [acceptAll_letters, hL, Multiset.map_cons, Multiset.map_cons]
  | reject hL hq ha => exact ⟨lim, (s.reject r w c hL hq ha).withHeld _⟩
  | @forward x a l L hx hk hL hq hl hn =>
    have hmem : l ∈ N.letters := hL ▸ Multiset.mem_cons_self l L
    have h0 : l.number ≠ 0 := by
      intro h0
      have := s.number_pos hmem
      rw [h0] at this
      exact lt_irrefl _ this
    rw [if_neg h0, if_neg h0]
    have hfwd := s.forward w hsm hx (by simp [hk]) hL hl hn a.send
    have hall := hfwd.transferAll (w.forwardPost hx hk hL) l.ports
    rw [transferAll_withLetters] at hall
    exact ⟨lim, hall⟩
  | portAccepted he hx hk => exact ⟨lim, s.portAccepted r he hx hk⟩
  | @remove x a hx hk hr hc =>
    rw [s.elsewhere_of_remove hx hc]
    have herase : (N.erase x).Sequence lim := s.erase fun _ => s.not_holds hx hc
    split_ifs
    · have hev : (N.erase x).NumberOk lim (.ack x.succ kInvalidSequenceNum) := fun h => absurd rfl h
      exact ⟨lim, herase.emit hev⟩
    · exact ⟨lim, herase⟩
  | @redirect e a E he hp _ _ =>
    have hsend := s.send e a hp
    refine ⟨_, ((s.consume he).redirect (r.consume he)).emit fun _ => ?_⟩
    rw [UInt64.toNat_sub_one (by omega), hsend, Nat.add_sub_cancel]
    refine (congrArg (fun e' => (N.sent e').length) e.opp_opp.symm).trans ?_
    exact (Function.update_self (e.opp, N.toward e) (N.total e.opp) lim).symm
  | store he hx _ => exact ⟨lim, (s.consume he).set hx rfl rfl fun hf => (s.port _ _ hx).last hf⟩
  | proxyPass he _ _ _ => exact ⟨lim, (s.consume he).emit trivial⟩
  | ackRetry he _ _ => exact ⟨lim, (s.consume he).emit trivial⟩
  | @ackAccept x a last E he hlast hx hk =>
    refine ⟨lim, (s.consume he).set hx rfl rfl fun _ => ?_⟩
    exact (s.numberOk he hlast).trans (bound_of_lt ((r.eventOk he).2 hlast)).symm
  | closureReceive he hp _ => exact ⟨lim, s.closureReceive he hp⟩
  | @closurePass x a last E he hx _ =>
    obtain ⟨h1, h2⟩ := s.numberOk he
    have hset : ((N.withEvents E).set x
        { a with peerClosed := true, remove := true, last := last }).Sequence lim :=
      (s.consume he).set hx rfl rfl fun _ => h1.trans h2.symm
    exact ⟨lim, hset.emit ⟨h1, s.bound_succ h2⟩⟩
  | drop he _ _ => exact ⟨lim, s.consume he⟩
  | close hp _ _ => exact ⟨lim, s.close w hp⟩

end Sequence

end MojoEdk.Ports.Net
