import MojoEdk.Ports.Net.Sequence

/-!
# What a port is told when connections get lost

A port that loses the connection to its peer takes the last message that it has
read for the last one: it is blocked, and so are the ports that it is renamed to
(`Net.Blocked`). The right number may still come, with the closure of the other
end. It unblocks the ports of the chain one after the other, and those that it has
not come to are after the *front* of the chain.

* No proxy after the front announces itself, so that nothing is sent past it.
* A blocked proxy passes the wrong number on when it is accepted, but then it goes
  away, and the right one does not follow (`Net.Heeds`).

So a receiving port that expects no message has no message to return
(`Front.drained`), if it had none either when the connection was lost.
-/

namespace MojoEdk.Ports.Net

variable {α : Type*} {N M : Net α} {front : End → Option ℕ} {cut : End → UInt64} {x : Place}
  {a b : Port} {e : End}

/-! ## The invariant -/

/-- A place at the front of its chain, or after it. -/
def Ahead (front : End → Option ℕ) (x : Place) : Prop := ∃ f ∈ front x.1, f ≤ x.2

/-- The number of the last message that is sent to an end: there will be no others. -/
def Final (N : Net α) (e : End) (last : UInt64) : Prop := last.toNat = N.total e ∧ N.Frozen e.opp

/-- A port that takes the last message that it has read for the last one, and has not
    queued the next one. -/
structure Blocked (L : Multiset (Letter α)) (c : UInt64) (x : Place) (a : Port) : Prop where
  peerClosed : a.peerClosed
  last : a.last = c
  next : a.next - 1 = c
  remove : a.kind.live = false → a.remove
  queue : ∀ l ∈ L, l.queued = true → l.place = x → l.number ≠ a.next

/-- A number that a closure tells: the right one, not past the front, or a wrong one, after
    a blocked proxy. -/
def Closes (N : Net α) (front : End → Option ℕ) (cut : End → UInt64) (d : Place) (last : UInt64) :
    Prop :=
  (N.Final d.1 last ∧ ∀ f ∈ front d.1, d.2 ≤ f) ∨
    (last = cut d.1 ∧ ∃ f ∈ front d.1, ∃ g, f ≤ g ∧ g < d.2 ∧
      ∀ a, N.port (d.1, g) = some a → a.kind = .proxying)

/-- What an event in flight has to do with the front. -/
def Heeds (N : Net α) (front : End → Option ℕ) (cut : End → UInt64) : Event → Prop
  | .accepted _ => True
  | .proxy _ x | .ack x _ => ∀ f ∈ front x.1, x.2 < f
  | .closure d last => N.Closes front cut d last

/-- What the ports of the chains are told. -/
structure Front (N : Net α) (front : End → Option ℕ) (cut : End → UInt64) : Prop where
  letter : ∀ l ∈ N.letters, 0 < l.number.toNat ∧ l.number.toNat ≤ N.total l.place.1
  send : ∀ e a, N.port (e, N.len e) = some a → a.send.toNat = (N.sent e).length + 1
  front_le : ∀ e, ∀ f ∈ front e, f ≤ N.len e
  toward_le : ∀ e, ∀ f ∈ front e.opp, N.toward e ≤ f
  unused : ∀ e, N.pipes ≤ e.pipe → N.sent e = [] ∧ front e = none
  told : ∀ x a, N.port x = some a → a.kind ≠ .proxying → a.peerClosed → ¬Ahead front x →
    N.Final x.1 a.last
  removed : ∀ x a, N.port x = some a → a.kind = .buffering → a.remove → a.peerClosed
  blocked : ∀ x a, N.port x = some a → Ahead front x → Blocked N.letters (cut x.1) x a
  stored : ∀ x a, N.port x = some a → a.stored → ∀ f ∈ front x.1, x.2 + 1 < f
  events : ∀ ev ∈ N.events, N.Heeds front cut ev

/-- A proxy goes away once it has forwarded the last message. -/
def Swept (N : Net α) : Prop :=
  ∀ x a, N.port x = some a → a.kind = .proxying → a.remove → a.canAccept

theorem Blocked.not_canAccept {L : Multiset (Letter α)} {c : UInt64} (h : Blocked L c x a) :
    a.canAccept = false := by
  simp [Port.canAccept, h.peerClosed, h.last, h.next]

theorem Final.mono {last : UInt64} (h : N.Final e last) (ht : M.total e = N.total e)
    (hf : N.Frozen e.opp → M.Frozen e.opp) : M.Final e last :=
  ⟨h.1.trans ht.symm, hf h.2⟩

/-- An event stays in front or behind, if what is known of the ends and of the proxies gone
    is kept. -/
theorem Heeds.mono {ev : Event} (h : N.Heeds front cut ev) (hp : N.Placed ev)
    (hf : ∀ e last, N.Final e last → M.Final e last)
    (hg : ∀ y : Place, y.2 < N.len y.1 → (∀ a, N.port y = some a → a.kind = .proxying) →
      ∀ a, M.port y = some a → a.kind = .proxying) : M.Heeds front cut ev := by
  cases ev with
  | accepted x => trivial
  | proxy d x => exact h
  | ack x last => exact h
  | closure d last =>
    refine h.imp (fun hd => ⟨hf _ _ hd.1, hd.2⟩) ?_
    rintro ⟨hlast, f, hff, g, hfg, hgd, hk⟩
    exact ⟨hlast, f, hff, g, hfg, hgd, hg (d.1, g) (hgd.trans_le hp.2) hk⟩

theorem front_init : (init : Net α).Front (fun _ => none) fun _ => 0 where
  letter _ h := absurd h (Multiset.notMem_zero _)
  send _ _ h := by cases h
  front_le _ _ h := by cases h
  toward_le _ _ h := by cases h
  unused _ _ := ⟨rfl, rfl⟩
  told _ _ h := by cases h
  removed _ _ h := by cases h
  blocked _ _ h := by cases h
  stored _ _ h := by cases h
  events _ h := absurd h (Multiset.notMem_zero _)

namespace Front

/-- A receiving port that expects no message has none to return. -/
theorem drained (h : N.Front front cut) (w : N.Shape) (hx : N.port x = some a)
    (hk : a.kind = .receiving) (hc : a.canAccept = false) :
    ∀ l ∈ N.letters, l.queued = true → l.place = x → l.number ≠ a.next := by
  intro l hl hq hlx hnext
  by_cases hahead : Ahead front x
  · exact (h.blocked x a hx hahead).queue l hl hq hlx hnext
  · simp only [Port.canAccept, Bool.not_eq_false', Bool.and_eq_true, Bool.or_eq_true,
      beq_iff_eq] at hc
    have hremove := (w.live hx (by simp [hk])).2.2
    have hclosed : a.peerClosed := hc.1.resolve_right (by simp [hremove])
    -- All messages have numbers up to the last one.
    obtain ⟨hpos, hle⟩ := h.letter l hl
    have hfinal := (h.told x a hx (by simp [hk]) hclosed hahead).1
    rw [hc.2, ← hnext, UInt64.toNat_sub_one hpos, ← hlx] at hfinal
    omega

/-! ## Events and messages -/

theorem withEvents (h : N.Front front cut) {E : Multiset Event}
    (hE : ∀ ev ∈ E, N.Heeds front cut ev) : (N.withEvents E).Front front cut :=
  { h with
    events := fun ev hev => by
      have := hE ev hev
      cases ev <;> exact this }

theorem consume (h : N.Front front cut) {ev : Event} {E : Multiset Event}
    (he : N.events = ev ::ₘ E) : (N.withEvents E).Front front cut :=
  h.withEvents fun ev' hev => h.events ev' (he ▸ Multiset.mem_cons_of_mem hev)

theorem emit (h : N.Front front cut) (ev : Event) (hev : N.Heeds front cut ev) :
    (N.withEvents (ev ::ₘ N.events)).Front front cut :=
  h.withEvents (Multiset.forall_mem_cons.2 ⟨hev, h.events⟩)

theorem heeds (h : N.Front front cut) {ev : Event} {E : Multiset Event}
    (he : N.events = ev ::ₘ E) : N.Heeds front cut ev :=
  h.events ev (he ▸ Multiset.mem_cons_self ev E)

theorem withHeld (h : N.Front front cut) (H : Multiset End) : (N.withHeld H).Front front cut :=
  { h with
    events := fun ev hev => by
      have := h.events ev hev
      cases ev <;> exact this }

theorem noteReturned (h : N.Front front cut) (e : End) (m : UInt64 × α) :
    (N.noteReturned e m).Front front cut :=
  { h with
    events := fun ev hev => by
      have := h.events ev hev
      cases ev <;> exact this }

/-- No message comes to the queue of a blocked port. -/
theorem withLetters (h : N.Front front cut) {L : Multiset (Letter α)}
    (hL : ∀ l ∈ L, 0 < l.number.toNat ∧ l.number.toNat ≤ N.total l.place.1)
    (hq : ∀ l ∈ L, l.queued = true → Ahead front l.place → l ∈ N.letters) :
    (N.withLetters L).Front front cut :=
  { h with
    letter := hL
    blocked := fun x a hx hahead => { h.blocked x a hx hahead with
      queue := fun l hl hlq hlx =>
        (h.blocked x a hx hahead).queue l (hq l hl hlq (hlx ▸ hahead)) hlq hlx }
    events := fun ev hev => by
      have := h.events ev hev
      cases ev <;> exact this }

/-- Messages leave the place where they were. -/
theorem take (h : N.Front front cut) {L : Multiset (Letter α)} (hL : L ≤ N.letters) :
    (N.withLetters L).Front front cut :=
  h.withLetters (fun l hl => h.letter l (Multiset.mem_of_le hL hl)) fun _ hl _ _ =>
    Multiset.mem_of_le hL hl

/-! ## Changes of single ports -/

/-- A port changes. -/
theorem set (h : N.Front front cut) (w : N.Shape) (hx : N.port x = some a)
    (hup : Port.Update a b) (hsend : b.send = a.send)
    (htold : b.kind ≠ .proxying → b.peerClosed → ¬Ahead front x → N.Final x.1 b.last)
    (hremoved : b.kind = .buffering → b.remove → b.peerClosed)
    (hblocked : Ahead front x → Blocked N.letters (cut x.1) x b)
    (hstored : b.stored → ∀ f ∈ front x.1, x.2 + 1 < f) : (N.set x b).Front front cut := by
  have hfinal : ∀ e last, N.Final e last → (N.set x b).Final e last := fun _ _ hf =>
    hf.mono rfl ((frame_set hx hup).frozen _)
  exact
    { h with
      send := fun e c hc => by
        rcases port_set_cases hc with ⟨hex, rfl⟩ | ⟨-, hc⟩
        · rw [hsend]
          exact h.send e a (hex ▸ hx)
        · exact h.send e c hc
      told := fun y c hy hk hc hy' => by
        rcases port_set_cases hy with ⟨rfl, rfl⟩ | ⟨-, hy⟩
        · exact hfinal _ _ (htold hk hc hy')
        · exact hfinal _ _ (h.told y c hy hk hc hy')
      removed := fun y c hy hk => by
        rcases port_set_cases hy with ⟨rfl, rfl⟩ | ⟨-, hy⟩
        · exact hremoved hk
        · exact h.removed y c hy hk
      blocked := fun y c hy hy' => by
        rcases port_set_cases hy with ⟨rfl, rfl⟩ | ⟨-, hy⟩
        · exact hblocked hy'
        · exact h.blocked y c hy hy'
      stored := fun y c hy hs => by
        rcases port_set_cases hy with ⟨rfl, rfl⟩ | ⟨-, hy⟩
        · exact hstored hs
        · exact h.stored y c hy hs
      events := fun ev hev => by
        refine (h.events ev hev).mono (w.events ev hev) hfinal fun y _ hy c hc => ?_
        rcases port_set_cases hc with ⟨rfl, rfl⟩ | ⟨-, hc⟩
        · exact hup.proxying (hy a hx)
        · exact hy c hc }

/-- A port is erased that is not live. -/
theorem erase (h : N.Front front cut) (w : N.Shape) (hx : x.2 ≠ N.len x.1) :
    (N.erase x).Front front cut := by
  have hfinal : ∀ e last, N.Final e last → (N.erase x).Final e last := fun _ _ hf =>
    hf.mono rfl ((frame_erase hx).frozen _)
  exact
    { h with
      send := fun e c hc => h.send e c (port_erase_cases hc).2
      told := fun y c hy hk hc hy' => hfinal _ _ (h.told y c (port_erase_cases hy).2 hk hc hy')
      removed := fun y c hy => h.removed y c (port_erase_cases hy).2
      blocked := fun y c hy => h.blocked y c (port_erase_cases hy).2
      stored := fun y c hy => h.stored y c (port_erase_cases hy).2
      events := fun ev hev => by
        refine (h.events ev hev).mono (w.events ev hev) hfinal fun y _ hy c hc => ?_
        exact hy c (port_erase_cases hc).2 }

/-! ## Chains -/

theorem transfer (h : N.Front front cut) (w : N.Shape) (hp : N.port (e, N.len e) = some a) :
    (N.transfer e a).Front front cut := by
  have hlive := w.kind_live hp
  obtain ⟨-, hst, hr⟩ := w.live hp hlive
  have hnp : a.kind ≠ .proxying := fun hk => by simp [hk] at hlive
  have hfinal : ∀ e' last, N.Final e' last → (N.transfer e a).Final e' last := fun _ _ hf =>
    hf.mono rfl ((frame_transfer hp).frozen _)
  -- The front of a chain is no later than its live port.
  have hnew : Ahead front (e, N.len e + 1) → Ahead front (e, N.len e) := fun ⟨f, hf, _⟩ =>
    ⟨f, hf, h.front_le e f hf⟩
  exact
    { h with
      send := fun e' c hc => by
        by_cases he : e' = e
        · subst he
          rw [port_transfer_live] at hc
          exact Option.some.inj hc ▸ h.send e' a hp
        · exact h.send e' c ((port_transfer_live_of_ne he).symm.trans hc)
      front_le := fun e' f hf => (h.front_le e' f hf).trans (len_le_transfer e')
      -- The new port and the proxy it leaves are told what the port was told.
      told := fun y c hy hk hc hy' => by
        rcases port_transfer_cases hy with ⟨rfl, rfl⟩ | ⟨rfl, rfl⟩ | ⟨-, -, hy⟩
        · refine hfinal e _ (h.told (e, N.len e) a hp hnp hc fun ⟨f, hf, hle⟩ => hy' ⟨f, hf, ?_⟩)
          exact hle.trans (Nat.le_succ _)
        · exact hfinal _ _ (h.told _ a hp hnp hc hy')
        · exact hfinal _ _ (h.told y c hy hk hc hy')
      removed := fun y c hy hk hrem => by
        rcases port_transfer_cases hy with ⟨rfl, rfl⟩ | ⟨rfl, rfl⟩ | ⟨-, -, hy⟩
        · cases hk
        · simpa [hr] using hrem
        · exact h.removed y c hy hk hrem
      blocked := fun y c hy hy' => by
        rcases port_transfer_cases hy with ⟨rfl, rfl⟩ | ⟨rfl, rfl⟩ | ⟨-, -, hy⟩
        · have hb := h.blocked _ a hp (hnew hy')
          refine ⟨hb.peerClosed, hb.last, hb.next, nofun, fun l hl _ hlx => ?_⟩
          -- No message is there yet.
          have hle := (w.letters l hl).2
          rw [hlx] at hle
          exact absurd hle (Nat.not_succ_le_self _)
        · have hb := h.blocked _ a hp hy'
          exact { hb with remove := fun _ => by simp [hb.peerClosed] }
        · exact h.blocked y c hy hy'
      stored := fun y c hy hs => by
        rcases port_transfer_cases hy with ⟨rfl, rfl⟩ | ⟨rfl, rfl⟩ | ⟨-, -, hy⟩
        · cases hs
        · rw [hst] at hs
          cases hs
        · exact h.stored y c hy hs
      events := fun ev hev => by
        refine (h.events ev hev).mono (w.events ev hev) hfinal fun y hlt hy c hc => hy c ?_
        rcases port_transfer_cases hc with ⟨rfl, -⟩ | ⟨rfl, -⟩ | ⟨-, -, hc⟩
        · exact absurd hlt (by simp)
        · exact absurd hlt (by simp)
        · exact hc }

theorem transferAll (h : N.Front front cut) (w : N.Shape) (es : List End) :
    (N.transferAll es).Front front cut := by
  induction es generalizing N with
  | nil => exact h
  | cons e es ih =>
    rw [Net.transferAll]
    split
    · next hp => exact ih (h.transfer w hp) (w.transfer hp)
    · exact ih h w

theorem accept (h : N.Front front cut) (w : N.Shape) (hp : N.port (e, N.len e) = some a) :
    (N.accept e a).Front front cut := by
  have hlive := w.kind_live hp
  have hnp : a.kind ≠ .proxying := fun hk => by simp [hk] at hlive
  have hset : (N.set (e, N.len e) { a with kind := .receiving }).Front front cut := by
    refine h.set w hp ⟨nofun, fun hk => absurd hk hnp, id⟩ rfl (fun _ => h.told _ a hp hnp) nofun
      (fun hy => { h.blocked _ a hp hy with remove := nofun }) (h.stored _ a hp)
  exact hset.emit (.accepted _) trivial

theorem acceptAll (h : N.Front front cut) (w : N.Shape) {es : List End} (hes : es.Nodup)
    (ht : ∀ e ∈ es, N.IsLive e .transit) : (N.acceptAll es).Front front cut := by
  induction es generalizing N with
  | nil => exact h
  | cons e es ih =>
    obtain ⟨hne, hes⟩ := List.nodup_cons.1 hes
    obtain ⟨a, hp, hk⟩ := ht e List.mem_cons_self
    rw [acceptAll_cons hp]
    refine ih (h.accept w hp) (w.accept hp hk) hes fun e' he' => ?_
    obtain ⟨b, hb, hbk⟩ := ht e' (List.mem_cons_of_mem _ he')
    have hee : e' ≠ e := fun h => hne (h ▸ he')
    exact ⟨b, (port_accept_of_fst_ne hee).trans hb, hbk⟩

/-- The receiving port of an end skips a proxy before the front. -/
theorem redirect (h : N.Front front cut) (he : ∀ f ∈ front e.opp, N.toward e < f) :
    (N.redirect e).Front front cut :=
  { h with
    toward_le := fun e' f hf => by
      by_cases hee : e' = e
      · subst hee
        rw [toward_redirect_self]
        exact he f hf
      · rw [toward_redirect_of_ne hee]
        exact h.toward_le e' f hf
    events := fun ev hev => by
      have := h.events ev hev
      cases ev <;> exact this }

theorem create (h : N.Front front cut) (w : N.Shape) : N.create.Front front cut := by
  have hfinal : ∀ e last, N.Final e last → N.create.Final e last := fun _ _ hf =>
    hf.mono rfl ((frame_create w).frozen _)
  exact
    { h with
      send := fun e c hc => by
        rcases port_create_cases hc with ⟨hp, -, rfl⟩ | hc
        · change _ = (N.sent e).length + 1
          rw [(h.unused e hp.ge).1]
          rfl
        · exact h.send e c hc
      unused := fun e he => h.unused e (Nat.le_of_succ_le he)
      told := fun y c hy hk hc hy' => by
        rcases port_create_cases hy with ⟨-, -, rfl⟩ | hy
        · cases hc
        · exact hfinal _ _ (h.told y c hy hk hc hy')
      removed := fun y c hy hk => by
        rcases port_create_cases hy with ⟨-, -, rfl⟩ | hy
        · cases hk
        · exact h.removed y c hy hk
      blocked := fun y c hy hy' => by
        rcases port_create_cases hy with ⟨hp, -, rfl⟩ | hy
        · obtain ⟨f, hf, -⟩ := hy'
          rw [(h.unused y.1 hp.ge).2] at hf
          cases hf
        · exact h.blocked y c hy hy'
      stored := fun y c hy hs => by
        rcases port_create_cases hy with ⟨-, -, rfl⟩ | hy
        · cases hs
        · exact h.stored y c hy hs
      events := fun ev hev => by
        refine (h.events ev hev).mono (w.events ev hev) hfinal fun y hlt hy c hc => hy c ?_
        rcases port_create_cases hc with ⟨hp, -, -⟩ | hc
        · rw [(w.unused y.1 hp.ge).1] at hlt
          exact absurd hlt (Nat.not_lt_zero _)
        · exact hc }

/-- What an end is told when the other one is closed, or learns that it is. -/
theorem heeds_closure (h : N.Front front cut) {n : UInt64} (hn : n.toNat = (N.sent e).length + 1)
    (hf : N.Frozen e) : N.Heeds front cut (.closure (e.opp, N.toward e) (n - 1)) := by
  refine .inl ⟨⟨?_, ?_⟩, h.toward_le e⟩
  · rw [UInt64.toNat_sub_one (by omega), hn, Nat.add_sub_cancel, total, End.opp_opp]
  · rwa [End.opp_opp]

theorem close (h : N.Front front cut) (w : N.Shape) {H : Multiset End}
    (hp : N.port (e, N.len e) = some a) : (N.close e a H).Front front cut := by
  have hfinal : ∀ e' last, N.Final e' last → (N.close e a H).Final e' last := fun _ _ hf =>
    hf.mono rfl (frame_close.frozen _)
  have hle : (N.close e a H).letters ≤ N.letters := Multiset.filter_le ..
  have hport : ∀ {y c}, (N.close e a H).port y = some c → N.port y = some c := fun hy =>
    (port_erase_cases hy).2
  exact
    { h with
      letter := fun l hl => h.letter l (Multiset.mem_of_le hle hl)
      send := fun e' c hc => h.send e' c (hport hc)
      told := fun y c hy hk hc hy' => hfinal _ _ (h.told y c (hport hy) hk hc hy')
      removed := fun y c hy => h.removed y c (hport hy)
      blocked := fun y c hy hy' => { h.blocked y c (hport hy) hy' with
        queue := fun l hl => (h.blocked y c (hport hy) hy').queue l (Multiset.mem_of_le hle hl) }
      stored := fun y c hy => h.stored y c (hport hy)
      events := by
        refine Multiset.forall_mem_cons.2 ⟨?_, fun ev hev => ?_⟩
        · refine .inl ⟨⟨?_, .inl ?_⟩, h.toward_le e⟩
          · have hsend := h.send e a hp
            rw [UInt64.toNat_sub_one (by omega), hsend, Nat.add_sub_cancel, total, End.opp_opp]
            rfl
          · rw [End.opp_opp]
            exact closed_close_self
        · exact (h.events ev hev).mono (w.events ev hev) hfinal fun y _ hy c hc => hy c (hport hc) }

/-! ## Sending -/

/-- A message is sent. Its receiver was not told a last number. -/
theorem sendPost (h : N.Front front cut) (w : N.Shape) {l : Letter α}
    (hp : N.port (e, N.len e) = some a) (hc : a.peerClosed = false)
    (hl : l.place = (e.opp, N.toward e)) (hq : l.queued = false) (hn : l.number = a.send)
    (hsmall : (N.sent e).length + 2 < 2 ^ 64) : (N.sendPost e a l).Front front cut := by
  have hsend := h.send e a hp
  -- The receiver was not told a last number: the sender is not frozen.
  have hfinal : ∀ e' last, N.Final e' last → (N.sendPost e a l).Final e' last := by
    intro e' last hf
    have he : e'.opp ≠ e := fun he => not_frozen w hp hc (he ▸ hf.2)
    refine hf.mono (congrArg List.length (sent_sendPost_of_ne he)) ?_
    exact (frame_set hp (b := { a with send := a.send + 1 }) ⟨id, id, id⟩).frozen _
  exact
    { h with
      letter := by
        refine Multiset.forall_mem_cons.2 ⟨?_, fun l' hl' => ?_⟩
        · rw [hn, hsend, hl, total, End.opp_opp, length_sent_sendPost]
          exact ⟨Nat.succ_pos _, le_rfl⟩
        · exact ⟨(h.letter l' hl').1, (h.letter l' hl').2.trans (total_le_sendPost _)⟩
      send := fun e' c hc' => by
        rcases port_set_cases hc' with ⟨hex, rfl⟩ | ⟨hne, hc'⟩
        · cases hex
          rw [length_sent_sendPost, UInt64.toNat_add_one (by omega), hsend]
        · have he : e' ≠ e := fun he => hne (he ▸ rfl)
          rw [sent_sendPost_of_ne he]
          exact h.send e' c hc'
      unused := fun e' he' => by
        have he : e' ≠ e := by
          rintro rfl
          exact absurd (w.pipe_lt hp) (not_lt.2 he')
        rw [sent_sendPost_of_ne he]
        exact h.unused e' he'
      told := fun y c hy hk hc' hy' => by
        rcases port_set_cases hy with ⟨rfl, rfl⟩ | ⟨-, hy⟩
        · exact hfinal _ _ (h.told _ a hp hk hc' hy')
        · exact hfinal _ _ (h.told y c hy hk hc' hy')
      removed := fun y c hy hk => by
        rcases port_set_cases hy with ⟨rfl, rfl⟩ | ⟨-, hy⟩
        · exact h.removed _ a hp hk
        · exact h.removed y c hy hk
      blocked := fun y c hy hy' => by
        have hqueue : ∀ {n : UInt64}, (∀ l' ∈ N.letters, l'.queued = true → l'.place = y →
            l'.number ≠ n) → ∀ l' ∈ l ::ₘ N.letters, l'.queued = true → l'.place = y →
            l'.number ≠ n := by
          intro n hold
          refine Multiset.forall_mem_cons.2 ⟨fun hlq => ?_, hold⟩
          rw [hq] at hlq
          cases hlq
        rcases port_set_cases hy with ⟨rfl, rfl⟩ | ⟨-, hy⟩
        · have hb := h.blocked _ a hp hy'
          exact { hb with queue := hqueue hb.queue }
        · have hb := h.blocked y c hy hy'
          exact { hb with queue := hqueue hb.queue }
      stored := fun y c hy hs => by
        rcases port_set_cases hy with ⟨rfl, rfl⟩ | ⟨-, hy⟩
        · exact h.stored _ a hp hs
        · exact h.stored y c hy hs
      events := fun ev hev => by
        refine (h.events ev hev).mono (w.events ev hev) hfinal fun y _ hy c hc' => ?_
        rcases port_set_cases hc' with ⟨rfl, rfl⟩ | ⟨-, hc'⟩
        · exact hy a hp
        · exact hy c hc' }

/-! ## Closures -/

end Front

/-- The front after the port there is told: at the next port, if there is one. -/
def advance (N : Net α) (front : End → Option ℕ) (x : Place) : End → Option ℕ :=
  Function.update front x.1 (if x.2 < N.len x.1 then some (x.2 + 1) else none)

theorem mem_advance {g : ℕ} (hg : g ∈ N.advance front x e) :
    (e = x.1 ∧ g = x.2 + 1 ∧ x.2 < N.len x.1) ∨ (e ≠ x.1 ∧ g ∈ front e) := by
  rw [advance, Function.update_apply] at hg
  split_ifs at hg with he hlt
  · exact .inl ⟨he, (Option.mem_some_iff.1 hg).symm, hlt⟩
  · cases hg
  · exact .inr ⟨he, hg⟩

/-- The port at the front is told, and all else is ahead of the front that was before. -/
theorem ahead_advance {y : Place} (hf : front x.1 = some x.2) (hy : N.Used y) :
    Ahead (N.advance front x) y ↔ Ahead front y ∧ y ≠ x := by
  constructor
  · rintro ⟨g, hg, hgy⟩
    rcases mem_advance hg with ⟨hy1, rfl, -⟩ | ⟨hy1, hg⟩
    · refine ⟨⟨x.2, hy1 ▸ hf, Nat.le_of_succ_le hgy⟩, ?_⟩
      rintro rfl
      exact absurd hgy (Nat.not_succ_le_self _)
    · exact ⟨⟨g, hg, hgy⟩, fun h => hy1 (congrArg Prod.fst h)⟩
  · rintro ⟨⟨g, hg, hgy⟩, hyx⟩
    by_cases hy1 : y.1 = x.1
    · rw [hy1, hf] at hg
      obtain rfl := Option.mem_some_iff.1 hg
      have hne : x.2 ≠ y.2 := fun h2 => hyx (Prod.ext hy1 h2.symm)
      have hle : y.2 ≤ N.len x.1 := hy1 ▸ hy.2
      refine ⟨x.2 + 1, ?_, by omega⟩
      rw [advance, hy1, Function.update_self, if_pos (by omega)]
      rfl
    · refine ⟨g, ?_, hgy⟩
      rwa [advance, Function.update_of_ne hy1]

/-- An event as the port at the front is told, which is no proxy that may be gone. -/
theorem Heeds.advance {ev : Event} (h : N.Heeds front cut ev) (hp : N.Placed ev)
    (hf : front x.1 = some x.2) (hx : N.port x = some a) (hk : a.kind ≠ .proxying) :
    N.Heeds (N.advance front x) cut ev := by
  -- An announcement from before the front is from before the next port.
  have hbefore : ∀ y : Place, (∀ f ∈ front y.1, y.2 < f) → ∀ g ∈ N.advance front x y.1, y.2 < g := by
    intro y hy g hg
    rcases mem_advance hg with ⟨hy1, rfl, -⟩ | ⟨-, hg⟩
    · exact (hy x.2 (hy1 ▸ hf)).trans (Nat.lt_succ_self _)
    · exact hy g hg
  cases ev with
  | accepted y => trivial
  | proxy d y => exact hbefore y h
  | ack y last => exact hbefore y h
  | closure d last =>
    rcases h with ⟨hfinal, hle⟩ | ⟨hlast, f, hff, g, hfg, hgd, hgone⟩
    · refine .inl ⟨hfinal, fun g hg => ?_⟩
      rcases mem_advance hg with ⟨hd, rfl, -⟩ | ⟨-, hg⟩
      · exact (hle x.2 (hd ▸ hf)).trans (Nat.le_succ _)
      · exact hle g hg
    · refine .inr ⟨hlast, ?_⟩
      by_cases hd : d.1 = x.1
      · rw [hd, hf] at hff
        obtain rfl := Option.mem_some_iff.1 hff
        have hne : g ≠ x.2 := by
          rintro rfl
          exact hk (hgone a (hd ▸ hx))
        have hle : d.2 ≤ N.len x.1 := hd ▸ hp.2
        refine ⟨x.2 + 1, ?_, g, by omega, hgd, hgone⟩
        rw [Net.advance, hd, Function.update_self, if_pos (by omega)]
        rfl
      · refine ⟨f, ?_, g, hfg, hgd, hgone⟩
        rwa [Net.advance, Function.update_of_ne hd]

namespace Front

/-- A port at the front is told the right number, and the front moves on. -/
theorem tell_front (h : N.Front front cut) (w : N.Shape) (hx : N.port x = some a)
    (hk : a.kind ≠ .proxying) (hf : front x.1 = some x.2) (hup : Port.Update a b)
    (hsend : b.send = a.send) (hfinal : N.Final x.1 b.last) (hclosed : b.peerClosed)
    (hst : b.stored = a.stored) : (N.set x b).Front (N.advance front x) cut := by
  have hmono : ∀ e last, N.Final e last → (N.set x b).Final e last := fun _ _ hf =>
    hf.mono rfl ((frame_set hx hup).frozen _)
  exact
    { h with
      send := fun e c hc => by
        rcases port_set_cases hc with ⟨hex, rfl⟩ | ⟨-, hc⟩
        · rw [hsend]
          exact h.send e a (hex ▸ hx)
        · exact h.send e c hc
      front_le := fun e g hg => by
        rcases mem_advance hg with ⟨rfl, rfl, hlt⟩ | ⟨-, hg⟩
        · exact hlt
        · exact h.front_le e g hg
      toward_le := fun e g hg => by
        rcases mem_advance hg with ⟨he, rfl, -⟩ | ⟨-, hg⟩
        · exact (h.toward_le e x.2 (he ▸ hf)).trans (Nat.le_succ _)
        · exact h.toward_le e g hg
      unused := fun e he => by
        refine ⟨(h.unused e he).1, Option.eq_none_iff_forall_not_mem.2 fun g hg => ?_⟩
        rcases mem_advance hg with ⟨rfl, -, -⟩ | ⟨-, hg⟩
        · exact absurd (w.pipe_lt hx) (not_lt.2 he)
        · rw [(h.unused e he).2] at hg
          cases hg
      told := fun y c hy hyk hyc hy' => by
        rcases port_set_cases hy with ⟨rfl, rfl⟩ | ⟨hyx, hy⟩
        · exact hmono _ _ hfinal
        · refine hmono _ _ (h.told y c hy hyk hyc fun hahead => hy' ?_)
          exact (ahead_advance hf (w.used hy)).2 ⟨hahead, hyx⟩
      removed := fun y c hy hyk => by
        rcases port_set_cases hy with ⟨rfl, rfl⟩ | ⟨-, hy⟩
        · exact fun _ => hclosed
        · exact h.removed y c hy hyk
      blocked := fun y c hy hy' => by
        rcases port_set_cases hy with ⟨rfl, -⟩ | ⟨-, hy⟩
        · exact absurd rfl ((ahead_advance hf (w.used hx)).1 hy').2
        · exact h.blocked y c hy ((ahead_advance hf (w.used hy)).1 hy').1
      stored := fun y c hy hs g hg => by
        have hold : ∀ f ∈ front y.1, y.2 + 1 < f := by
          rcases port_set_cases hy with ⟨rfl, rfl⟩ | ⟨-, hy⟩
          · exact h.stored _ a hx (hst ▸ hs)
          · exact h.stored y c hy hs
        rcases mem_advance hg with ⟨hy1, rfl, -⟩ | ⟨-, hg⟩
        · exact (hold x.2 (hy1 ▸ hf)).trans (Nat.lt_succ_self _)
        · exact hold g hg
      events := fun ev hev => by
        have hadv := (h.events ev hev).advance (w.events ev hev) hf hx hk
        refine hadv.mono (w.events ev hev) hmono fun y _ hy c hc => ?_
        rcases port_set_cases hc with ⟨rfl, rfl⟩ | ⟨-, hc⟩
        · exact hup.proxying (hy a hx)
        · exact hy c hc }

/-- A port is told the right number, and so is what is before the front after it. -/
theorem tell (h : N.Front front cut) (w : N.Shape) (hx : N.port x = some a)
    (hk : a.kind = .proxying → ¬Ahead front x) (hpos : ∀ f ∈ front x.1, x.2 ≤ f)
    (hup : Port.Update a b) (hsend : b.send = a.send) (hfinal : N.Final x.1 b.last)
    (hclosed : b.peerClosed) (hst : b.stored = a.stored) :
    ∃ front', (N.set x b).Front front' cut ∧ ∀ f ∈ front' x.1, x.2 < f := by
  by_cases hahead : Ahead front x
  · have hf : front x.1 = some x.2 := by
      obtain ⟨f, hf, hle⟩ := hahead
      exact le_antisymm hle (hpos f hf) ▸ hf
    refine ⟨_, h.tell_front w hx (fun hkp => hk hkp hahead) hf hup hsend hfinal hclosed hst, ?_⟩
    intro g hg
    rcases mem_advance hg with ⟨-, rfl, -⟩ | ⟨hne, -⟩
    · exact Nat.lt_succ_self _
    · exact absurd rfl hne
  · refine ⟨front, h.set w hx hup hsend (fun _ _ _ => hfinal) (fun _ _ => hclosed)
      (fun hy => absurd hy hahead) (hst ▸ h.stored x a hx), fun f hf => ?_⟩
    exact lt_of_not_ge fun hle => hahead ⟨f, hf, hle⟩

/-! ## Steps -/

theorem not_ahead_of_canAccept (h : N.Front front cut) (hx : N.port x = some a)
    (hc : a.canAccept) : ¬Ahead front x := fun hy => by
  rw [(h.blocked x a hx hy).not_canAccept] at hc
  cases hc

/-- A port is told by a closure, and what it passes on heeds the front. -/
theorem closure (h : N.Front front cut) (w : N.Shape) {last : UInt64} {E : Multiset Event}
    (he : N.events = .closure x last ::ₘ E) (hx : N.port x = some a) (hup : Port.Update a b)
    (hsend : b.send = a.send) (hnext : b.next = a.next) (hlast : b.last = last)
    (hclosed : b.peerClosed) (hst : b.stored = a.stored)
    (hremove : b.kind.live = false → b.remove)
    (hk : a.kind = .proxying → ¬Ahead front x) :
    ∃ front', ((N.withEvents E).set x b).Front front' cut ∧
      ((N.withEvents E).set x b).Closes front' cut x.succ last := by
  have hE := h.consume he
  have wE := w.consume he
  rcases h.heeds he with ⟨hfinal, hle⟩ | ⟨hcut, f, hf, g, hfg, hgx, hgone⟩
  · -- The right number comes to a port at the front, or before it.
    obtain ⟨front', hfront, hlt⟩ := hE.tell wE hx hk hle hup hsend (hlast ▸ hfinal) hclosed hst
    refine ⟨front', hfront, .inl ⟨?_, hlt⟩⟩
    exact Final.mono (N := N.withEvents E) hfinal rfl ((frame_set (N := N.withEvents E) hx hup).frozen _)
  · -- A wrong number comes to a port that is blocked.
    have hahead : Ahead front x := ⟨f, hf, hfg.trans hgx.le⟩
    have hb := h.blocked x a hx hahead
    refine ⟨front, hE.set wE hx hup hsend (fun _ _ hy => absurd hahead hy) (fun _ _ => hclosed)
      (fun _ => ⟨hclosed, hlast.trans hcut, hnext ▸ hb.next, hremove, hnext ▸ hb.queue⟩)
      (hst ▸ h.stored x a hx), .inr ⟨hcut, f, hf, g, hfg, hgx.trans (Nat.lt_succ_self _), ?_⟩⟩
    intro c hc
    rcases port_set_cases hc with ⟨hgx', rfl⟩ | ⟨-, hc⟩
    · exact absurd (congrArg Prod.snd hgx') hgx.ne
    · exact hgone c hc

/-- A message is queued: the port that takes it is not blocked. -/
theorem arrive (h : N.Front front cut) (w : N.Shape) (c : N.Cargo) {l : Letter α}
    {L : Multiset (Letter α)} (hL : N.letters = l ::ₘ L) (hq : l.queued = false)
    (hx : N.port l.place = some a) (hc : a.canAccept) :
    ((N.acceptAll l.ports).withLetters ({ l with queued := true } ::ₘ L)).Front front cut := by
  have hmem : l ∈ N.letters := hL ▸ Multiset.mem_cons_self l L
  have hall := h.acceptAll w (c.ports_nodup hmem) (c.transit hmem hq)
  refine hall.withLetters (Multiset.forall_mem_cons.2 ⟨?_, fun l' hl' => ?_⟩)
    (Multiset.forall_mem_cons.2 ⟨fun _ hy => ?_, fun l' hl' _ _ => ?_⟩)
  · rw [total, acceptAll_sent]
    exact h.letter l hmem
  · rw [total, acceptAll_sent]
    exact h.letter l' (hL ▸ Multiset.mem_cons_of_mem hl')
  · exact absurd hy (h.not_ahead_of_canAccept hx hc)
  · rw [acceptAll_letters, hL]
    exact Multiset.mem_cons_of_mem hl'

/-- A proxy forwards a message: it is not blocked, as a blocked one has not queued the message
    that it is to forward next. -/
theorem forwardPost (h : N.Front front cut) (w : N.Shape) {l : Letter α} {L : Multiset (Letter α)}
    (hx : N.port x = some a) (hL : N.letters = l ::ₘ L) (hq : l.queued) (hl : l.place = x)
    (hn : l.number = a.next) :
    ((N.set x { a with next := a.next + 1 }).withLetters
      ({ l with place := x.succ, queued := false } ::ₘ L)).Front front cut := by
  have hmem : l ∈ N.letters := hL ▸ Multiset.mem_cons_self l L
  have hahead : ¬Ahead front x := fun hy => (h.blocked x a hx hy).queue l hmem hq hl hn
  have hset : (N.set x { a with next := a.next + 1 }).Front front cut :=
    h.set w hx ⟨id, id, id⟩ rfl (h.told x a hx) (h.removed x a hx) (fun hy => absurd hy hahead)
      (h.stored x a hx)
  refine hset.withLetters (Multiset.forall_mem_cons.2 ⟨?_, fun l' hl' => ?_⟩)
    (Multiset.forall_mem_cons.2 ⟨by simp, fun l' hl' _ _ => ?_⟩)
  · exact ⟨(h.letter l hmem).1, hl ▸ (h.letter l hmem).2⟩
  · exact h.letter l' (hL ▸ Multiset.mem_cons_of_mem hl')
  · change l' ∈ N.letters
    exact hL ▸ Multiset.mem_cons_of_mem hl'

/-- A proxy may forward. A blocked one passes the wrong number on. -/
theorem portAccepted (h : N.Front front cut) (w : N.Shape) {E : Multiset Event}
    (he : N.events = .accepted x ::ₘ E) (hx : N.port x = some a) (hk : a.kind = .buffering) :
    ((N.set x { a with kind := .proxying }).withEvents
      ((if a.remove then .closure x.succ a.last else .proxy x.succ x) ::ₘ E)).Front front cut := by
  have hE := h.consume he
  have hup : Port.Update a { a with kind := .proxying } := ⟨by simp, fun _ => rfl, id⟩
  have hset : ((N.withEvents E).set x { a with kind := .proxying }).Front front cut := by
    refine hE.set (w.consume he) hx hup rfl (fun hne => absurd rfl hne) (by simp) (fun hy => ?_)
      (h.stored x a hx)
    have hb := h.blocked x a hx hy
    exact { hb with remove := fun _ => hb.remove (by simp [hk]) }
  refine hset.emit _ ?_
  by_cases hahead : Ahead front x
  · have hb := h.blocked x a hx hahead
    obtain ⟨f, hf, hle⟩ := hahead
    rw [if_pos (hb.remove (by simp [hk]))]
    refine .inr ⟨hb.last, f, hf, x.2, hle, Nat.lt_succ_self _, fun b hb => ?_⟩
    rcases port_set_cases hb with ⟨-, rfl⟩ | ⟨hne, -⟩
    · rfl
    · exact absurd rfl hne
  · have hlt : ∀ f ∈ front x.1, x.2 < f := fun f hf =>
      lt_of_not_ge fun hle => hahead ⟨f, hf, hle⟩
    split_ifs with hr
    · refine .inl ⟨?_, hlt⟩
      have hfinal := hE.told x a hx (by simp [hk]) (h.removed x a hx hk hr) hahead
      exact hfinal.mono rfl ((frame_set (N := N.withEvents E) hx hup).frozen _)
    · exact hlt

/-- A step preserves the invariant. A closure comes to no proxy that should have gone. -/
theorem step (h : N.Front front cut) (w : N.Shape) (c : N.Cargo) {t : Label} (hs : Step N t M)
    (hsmall : M.Small) (hswept : ∀ ev, t = .event ev → N.Swept) :
    ∃ front cut, M.Front front cut := by
  cases hs with
  | create => exact ⟨front, cut, h.create w⟩
  | @send e a payload es H hp hk hc _ _ _ =>
    have hpost := h.sendPost (l := ⟨(e.opp, N.toward e), false, a.send, payload, es⟩) w hp hc
      rfl rfl rfl hsmall.length_add_two
    have hall := hpost.transferAll (w.sendPost hp hk rfl rfl) es
    rw [transferAll_sendPost] at hall
    exact ⟨front, cut, hall.withHeld H⟩
  | @get e a l L hp hk hc hL _ _ _ =>
    have hset : (N.set (e, N.len e) { a with next := a.next + 1 }).Front front cut := by
      refine h.set w hp ⟨id, id, id⟩ rfl (h.told _ a hp) (h.removed _ a hp) ?_ (h.stored _ a hp)
      exact fun hy => absurd hy (h.not_ahead_of_canAccept hp hc)
    have htake := hset.take (L := L) (hL ▸ Multiset.le_cons_self L l)
    exact ⟨front, cut, (htake.withHeld _).noteReturned e _⟩
  | arrive hL hq hx _ hc => exact ⟨front, cut, h.arrive w c hL hq hx hc⟩
  | @reject l L hL hq _ =>
    have hmem : l ∈ N.letters := hL ▸ Multiset.mem_cons_self l L
    have hall := h.acceptAll w (c.ports_nodup hmem) (c.transit hmem hq)
    refine ⟨front, cut, (hall.take ?_).withHeld _⟩
    rw [acceptAll_letters, hL]
    exact Multiset.le_cons_self L l
  | @forward x a l L hx hk hL hq hl hn =>
    have h0 : l.number ≠ 0 := by
      intro h0
      have hpos := (h.letter l (hL ▸ Multiset.mem_cons_self l L)).1
      rw [h0] at hpos
      exact lt_irrefl _ hpos
    rw [if_neg h0, if_neg h0]
    have hall := (h.forwardPost w hx hL hq hl hn).transferAll (w.forwardPost hx hk hL) l.ports
    rw [transferAll_withLetters] at hall
    exact ⟨front, cut, hall⟩
  | portAccepted he hx hk => exact ⟨front, cut, h.portAccepted w he hx hk⟩
  | @remove x a hx hk _ _ =>
    have hlt := w.proxy hx (by simp [hk])
    have htake := (h.erase w hlt.ne).take (L := N.elsewhere x) (Multiset.filter_le ..)
    split_ifs with hst
    · exact ⟨front, cut, htake.emit (.ack x.succ kInvalidSequenceNum) (h.stored x a hx hst)⟩
    · exact ⟨front, cut, htake⟩
  | @redirect e a E he _ _ _ =>
    have hlt : ∀ f ∈ front e.opp, N.toward e < f := h.heeds he
    exact ⟨front, cut, ((h.consume he).redirect hlt).emit (.ack (e.opp, N.toward e) _) hlt⟩
  | @store x a E he hx hk =>
    refine ⟨front, cut, (h.consume he).set (w.consume he) hx ⟨id, id, id⟩ rfl (h.told x a hx)
      (h.removed x a hx) (fun hy => ?_) fun _ => h.heeds he⟩
    exact { h.blocked x a hx hy with }
  | @proxyPass d x a E he _ _ _ =>
    have hlt : ∀ f ∈ front x.1, x.2 < f := h.heeds he
    exact ⟨front, cut, (h.consume he).emit (.proxy _ x) hlt⟩
  | @ackRetry x a E he _ _ =>
    have hlt : ∀ f ∈ front x.1, x.2 < f := h.heeds he
    exact ⟨front, cut, (h.consume he).emit (.proxy x.succ x) hlt⟩
  | @ackAccept x a last E he _ hx hk =>
    have hlt : ∀ f ∈ front x.1, x.2 < f := h.heeds he
    refine ⟨front, cut, (h.consume he).set (w.consume he) hx ⟨id, id, id⟩ rfl
      (fun hne => absurd hk hne) (fun hb => ?_) (fun hahead => ?_) (h.stored x a hx)⟩
    · cases hk.symm.trans hb
    · obtain ⟨f, hf, hle⟩ := hahead
      exact absurd (hlt f hf) (not_lt.2 hle)
  | @closureReceive e a last E he hp hk =>
    have hup : Port.Update a { a with peerClosed := true, last := last } := ⟨id, id, fun _ => rfl⟩
    obtain ⟨front', hfront, -⟩ := h.closure w he hp hup rfl rfl rfl rfl rfl (by simp [hk])
      fun hkp => by cases hk.symm.trans hkp
    refine ⟨front', cut, hfront.emit _ (hfront.heeds_closure (h.send e a hp) (.inr ?_))⟩
    exact ⟨_, port_set_self .., rfl⟩
  | @closurePass x a last E he hx hk =>
    have hup : Port.Update a { a with peerClosed := true, remove := true, last := last } :=
      ⟨id, id, fun _ => rfl⟩
    obtain ⟨front', hfront, hcloses⟩ := h.closure w he hx hup rfl rfl rfl rfl rfl (fun _ => rfl)
      fun hkp hy => by
        have hb := h.blocked x a hx hy
        have hc := hswept _ rfl x a hx hkp (hb.remove hk)
        rw [hb.not_canAccept] at hc
        cases hc
    exact ⟨front', cut, hfront.emit _ hcloses⟩
  | drop he _ _ => exact ⟨front, cut, h.consume he⟩
  | close hp _ _ => exact ⟨front, cut, h.close w hp⟩

end Front

/-! ## Losses -/

section Loss

variable {S : Place → Prop}

/-- The live port of an end loses its peer, and was not told that it is closed. -/
def Severed (N : Net α) (S : Place → Prop) (e : End) : Prop :=
  S (e, N.len e) ∧ ∃ a, N.port (e, N.len e) = some a ∧ a.kind = .receiving ∧ a.peerClosed = false

open Classical in
/-- The fronts after a loss: an end that is severed is told where it is. -/
noncomputable def loseFront (N : Net α) (S : Place → Prop) (front : End → Option ℕ) :
    End → Option ℕ := fun e => if N.Severed S e then some (N.len e) else front e

open Classical in
/-- The last numbers that are told after a loss: an end that is severed read its last message. -/
noncomputable def loseCut (N : Net α) (S : Place → Prop) (cut : End → UInt64) : End → UInt64 :=
  fun e => if N.Severed S e then ((N.port (e, N.len e)).map fun a => a.next - 1).getD 0 else cut e

theorem mem_loseFront {f : ℕ} (hf : f ∈ N.loseFront S front e) :
    (N.Severed S e ∧ f = N.len e) ∨ (¬N.Severed S e ∧ f ∈ front e) := by
  rw [loseFront] at hf
  split_ifs at hf with hs
  · exact .inl ⟨hs, (Option.mem_some_iff.1 hf).symm⟩
  · exact .inr ⟨hs, hf⟩

theorem loseFront_of_severed (hs : N.Severed S e) : N.loseFront S front e = some (N.len e) :=
  if_pos hs

theorem loseFront_of_not (hs : ¬N.Severed S e) : N.loseFront S front e = front e := if_neg hs

theorem loseCut_of_not (hs : ¬N.Severed S e) : N.loseCut S cut e = cut e := if_neg hs

theorem loseCut_of_severed (hs : N.Severed S e) (ha : N.port (e, N.len e) = some a) :
    N.loseCut S cut e = a.next - 1 := by
  rw [loseCut, if_pos hs, ha, Option.map_some, Option.getD_some]

/-- A port that was told already is not severed. -/
theorem Front.not_mem_of_severed (h : N.Front front cut) (hs : N.Severed S e) {f : ℕ} :
    f ∉ front e := by
  intro hf
  obtain ⟨-, a, ha, -, hc⟩ := hs
  rw [(h.blocked _ a ha ⟨f, hf, h.front_le e f hf⟩).peerClosed] at hc
  cases hc

/-- An end that is severed was not told before, and had no front. -/
theorem Front.ahead_lose (h : N.Front front cut) {y : Place} (hy : Ahead front y) :
    Ahead (N.loseFront S front) y := by
  obtain ⟨f, hf, hle⟩ := hy
  have hs : ¬N.Severed S y.1 := fun hs => h.not_mem_of_severed hs hf
  exact ⟨f, by rwa [loseFront_of_not hs], hle⟩

/-- An announcement comes from a port that is not live, before the port that is severed. -/
theorem passed_lose {y : Place} (hy : N.Passed y) (hlt : ∀ f ∈ front y.1, y.2 < f) :
    ∀ f ∈ N.loseFront S front y.1, y.2 < f := by
  intro f hf
  rcases mem_loseFront hf with ⟨-, rfl⟩ | ⟨-, hf⟩
  · exact hy.2
  · exact hlt f hf

variable [DecidablePred S]

/-- A port after a loss: as it was, or the live port of an end that is severed. -/
theorem port_lose_severed (w : N.Shape) {i : ℕ} (hb : (N.lose S).port (e, i) = some b) :
    (N.port (e, i) = some b ∧ (i = N.len e → ¬N.Severed S e)) ∨
      (N.Severed S e ∧ i = N.len e ∧ ∃ a, N.port (e, i) = some a ∧ a.kind = .receiving ∧
        b = { a with peerClosed := true, last := a.next - 1 }) := by
  rw [port_lose] at hb
  split_ifs at hb with hS
  swap
  · refine .inl ⟨hb, fun hi hs => hS ?_⟩
    rw [hi]
    exact hs.1
  obtain ⟨a, ha, hb⟩ := Option.bind_eq_some_iff.1 hb
  -- Only a receiving port is severed that was not told before.
  have hsame : (a.kind = .receiving → a.peerClosed = true) → i = N.len e → ¬N.Severed S e := by
    rintro hclosed hi ⟨-, c, hc, hck, hcc⟩
    rw [← hi, ha] at hc
    obtain rfl := Option.some.inj hc
    rw [hclosed hck] at hcc
    cases hcc
  rw [lostPort] at hb
  split at hb
  next hk =>
    obtain rfl := Option.some.inj hb
    exact .inl ⟨ha, hsame fun hk' => by cases hk.symm.trans hk'⟩
  next hk =>
    split_ifs at hb with hclosed
    · obtain rfl := Option.some.inj hb
      exact .inl ⟨ha, hsame fun _ => hclosed⟩
    · have hi : i = N.len e := (w.live ha (by simp [hk])).1
      have hclosed : a.peerClosed = false := by simpa using hclosed
      exact .inr ⟨⟨hi ▸ hS, a, hi ▸ ha, hk, hclosed⟩, hi, a, ha, hk, (Option.some.inj hb).symm⟩
  next => cases hb

theorem frozen_lose (w : N.Shape) (h : N.Frozen e) : (N.lose S).Frozen e := by
  refine h.imp id fun ⟨a, ha, hc⟩ => ?_
  refine ⟨a, ?_, hc⟩
  change (N.lose S).port (e, N.len e) = some a
  rw [port_lose, ha, Option.bind_some]
  have hlive := w.kind_live ha
  cases hk : a.kind with
  | transit => simp [lostPort, hk]
  | receiving => simp [lostPort, hk, hc]
  | buffering => simp [hk] at hlive
  | proxying => simp [hk] at hlive

namespace Front

/-- The port that is severed, and those in front of which an end was told before. -/
theorem blocked_lose (h : N.Front front cut) (w : N.Shape)
    (hS : ∀ e a, N.Severed S e → N.port (e, N.len e) = some a →
      ∀ l ∈ N.letters, l.queued = true → l.place = (e, N.len e) → l.number ≠ a.next)
    {y : Place} {c : Port} (hy : (N.lose S).port y = some c)
    (hahead : Ahead (N.loseFront S front) y) :
    Blocked (N.lose S).letters (N.loseCut S cut y.1) y c := by
  obtain ⟨f, hf, hle⟩ := hahead
  rcases port_lose_severed w hy with ⟨hy, hlive⟩ | ⟨hs, hi, a, ha, hka, rfl⟩
  · rcases mem_loseFront hf with ⟨hs, rfl⟩ | ⟨hs, hf⟩
    · exact absurd hs (hlive (le_antisymm (w.used hy).2 hle))
    · have hb := h.blocked y c hy ⟨f, hf, hle⟩
      rw [loseCut_of_not hs]
      exact { hb with queue := fun l hl => hb.queue l (mem_letters_lose.1 hl).1 }
  · obtain ⟨e, i⟩ := y
    obtain rfl : i = N.len e := hi
    rw [loseCut_of_severed hs ha]
    exact ⟨rfl, rfl, rfl, by simp [hka], fun l hl => hS e a hs ha l (mem_letters_lose.1 hl).1⟩

/-- An event stays in front or behind. -/
theorem heeds_lose (h : N.Front front cut) (w : N.Shape) {ev : Event} (hev : ev ∈ N.events) :
    (N.lose S).Heeds (N.loseFront S front) (N.loseCut S cut) ev := by
  have hold := h.events ev hev
  have hplaced := w.events ev hev
  cases ev with
  | accepted y => trivial
  | proxy d y => exact passed_lose hplaced.2.2 hold
  | ack y last => exact passed_lose hplaced hold
  | closure d last =>
    rcases hold with ⟨hfin, hle⟩ | ⟨hlast, f, hff, g, hfg, hgd, hgone⟩
    · refine .inl ⟨hfin.mono rfl (frozen_lose w), fun f hf => ?_⟩
      rcases mem_loseFront hf with ⟨-, rfl⟩ | ⟨-, hf⟩
      · exact hplaced.2
      · exact hle f hf
    · have hs : ¬N.Severed S d.1 := fun hs => h.not_mem_of_severed hs hff
      refine .inr ⟨hlast.trans (loseCut_of_not hs).symm, f, ?_, g, hfg, hgd, fun c hc => ?_⟩
      · rwa [loseFront_of_not hs]
      · rcases port_lose_severed w hc with ⟨hc, -⟩ | ⟨hs', -⟩
        · exact hgone c hc
        · exact absurd hs' hs

/-- A loss preserves the invariant, if no port that is severed has queued its next message. -/
theorem lose (h : N.Front front cut) (w : N.Shape)
    (hS : ∀ e a, N.Severed S e → N.port (e, N.len e) = some a →
      ∀ l ∈ N.letters, l.queued = true → l.place = (e, N.len e) → l.number ≠ a.next) :
    (N.lose S).Front (N.loseFront S front) (N.loseCut S cut) where
  letter l hl := h.letter l (mem_letters_lose.1 hl).1
  send e c hc := by
    rcases port_lose_severed w hc with ⟨hc, -⟩ | ⟨-, -, a, ha, -, rfl⟩
    · exact h.send e c hc
    · exact h.send e a ha
  front_le e f hf := by
    rcases mem_loseFront hf with ⟨-, rfl⟩ | ⟨-, hf⟩
    · exact le_rfl
    · exact h.front_le e f hf
  toward_le e f hf := by
    rcases mem_loseFront hf with ⟨-, rfl⟩ | ⟨-, hf⟩
    · exact w.toward_le e
    · exact h.toward_le e f hf
  unused e he := by
    refine ⟨(h.unused e he).1, Option.eq_none_iff_forall_not_mem.2 fun f hf => ?_⟩
    rcases mem_loseFront hf with ⟨⟨-, a, ha, -⟩, -⟩ | ⟨-, hf⟩
    · exact absurd (w.pipe_lt ha) (not_lt.2 he)
    · rw [(h.unused e he).2] at hf
      cases hf
  told y c hy hk hc hy' := by
    rcases port_lose_severed w hy with ⟨hy, -⟩ | ⟨hs, hi, -⟩
    · exact (h.told y c hy hk hc fun hahead => hy' (h.ahead_lose hahead)).mono rfl (frozen_lose w)
    · exact absurd ⟨N.len y.1, loseFront_of_severed hs, hi.ge⟩ hy'
  removed y c hy hk := by
    rcases port_lose_severed w hy with ⟨hy, -⟩ | ⟨-, -, a, -, hka, rfl⟩
    · exact h.removed y c hy hk
    · cases hka.symm.trans hk
  blocked _ _ hy hahead := h.blocked_lose w hS hy hahead
  stored y c hy hst := by
    rcases port_lose_severed w hy with ⟨hy, -⟩ | ⟨-, -, a, ha, hka, rfl⟩
    · exact passed_lose (w.stored hy hst) (h.stored y c hy hst)
    · have hst' : a.stored = true := hst
      rw [(w.live ha (by simp [hka])).2.1] at hst'
      cases hst'
  events _ hev := h.heeds_lose w hev

end Front

end Loss

end MojoEdk.Ports.Net
