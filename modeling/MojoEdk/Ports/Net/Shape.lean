import MojoEdk.Ports.Net

/-!
# The shape of the chains

What holds of a net whatever gets lost: where the ports of a chain are
(`Net.Shape`). The live port of an end is the last one of its chain, the proxies
are before it, and events and messages are addressed to places in use.
-/

namespace MojoEdk.Ports.Net

variable {α : Type*} {N M : Net α}

/-! ## Changes of single ports -/

theorem port_set (x y : Place) (a : Port) :
    (N.set x a).port y = if y = x then some a else N.port y :=
  Function.update_apply ..

theorem port_set_of_ne {x y : Place} (a : Port) (h : y ≠ x) : (N.set x a).port y = N.port y := by
  rw [port_set, if_neg h]

@[simp] theorem port_set_self (x : Place) (a : Port) : (N.set x a).port x = some a := by
  rw [port_set, if_pos rfl]

/-- A port after a change: the one changed, or another one. -/
theorem port_set_cases {x y : Place} {a b : Port} (h : (N.set x a).port y = some b) :
    (y = x ∧ b = a) ∨ (y ≠ x ∧ N.port y = some b) := by
  by_cases hy : y = x
  · rw [hy, port_set_self] at h
    exact .inl ⟨hy, (Option.some.inj h).symm⟩
  · exact .inr ⟨hy, (port_set_of_ne a hy).symm.trans h⟩

theorem port_erase_of_ne {x y : Place} (h : y ≠ x) : (N.erase x).port y = N.port y :=
  Function.update_of_ne h ..

@[simp] theorem port_erase_self (x : Place) : (N.erase x).port x = none :=
  Function.update_self ..

/-- The ports that are there after one is erased were there before. -/
theorem port_erase_cases {x y : Place} {b : Port} (h : (N.erase x).port y = some b) :
    y ≠ x ∧ N.port y = some b := by
  have hy : y ≠ x := by
    rintro rfl
    rw [port_erase_self] at h
    cases h
  exact ⟨hy, (port_erase_of_ne hy).symm.trans h⟩

/-! ## Transfers -/

section Transfer

variable {e : End} {a : Port}

/-- A port that is sent buffers, and the one that it becomes is in transit. -/
theorem port_transfer (x : Place) : (N.transfer e a).port x =
    if x = (e, N.len e + 1) then some { a with kind := .transit, remove := false, stored := false }
    else if x = (e, N.len e) then
      some { a with kind := .buffering, remove := a.remove || a.peerClosed }
    else N.port x := by
  simp only [Net.transfer, Function.update_apply]

@[simp] theorem len_transfer_self : (N.transfer e a).len e = N.len e + 1 :=
  Function.update_self ..

theorem len_transfer_of_ne {e' : End} (h : e' ≠ e) : (N.transfer e a).len e' = N.len e' :=
  Function.update_of_ne h ..

/-- No chain gets shorter. -/
theorem len_le_transfer (e' : End) : N.len e' ≤ (N.transfer e a).len e' := by
  by_cases he : e' = e
  · subst he
    rw [len_transfer_self]
    exact Nat.le_succ _
  · rw [len_transfer_of_ne he]

/-- A port after a transfer: the new one, the one sent, or another one. -/
theorem port_transfer_cases {x : Place} {b : Port} (h : (N.transfer e a).port x = some b) :
    (x = (e, N.len e + 1) ∧
        b = { a with kind := .transit, remove := false, stored := false }) ∨
      (x = (e, N.len e) ∧ b = { a with kind := .buffering, remove := a.remove || a.peerClosed }) ∨
      (x ≠ (e, N.len e + 1) ∧ x ≠ (e, N.len e) ∧ N.port x = some b) := by
  rw [port_transfer] at h
  split_ifs at h with h1 h2
  · exact .inl ⟨h1, (Option.some.inj h).symm⟩
  · exact .inr (.inl ⟨h2, (Option.some.inj h).symm⟩)
  · exact .inr (.inr ⟨h1, h2, h⟩)

theorem port_transfer_of_ne {x : Place} (h1 : x ≠ (e, N.len e + 1)) (h2 : x ≠ (e, N.len e)) :
    (N.transfer e a).port x = N.port x := by
  rw [port_transfer, if_neg h1, if_neg h2]

/-- The ports of the other ends are not touched. -/
theorem port_transfer_of_fst_ne {x : Place} (h : x.1 ≠ e) :
    (N.transfer e a).port x = N.port x :=
  port_transfer_of_ne (fun hx => h (congrArg Prod.fst hx)) fun hx => h (congrArg Prod.fst hx)

@[simp] theorem port_transfer_sent : (N.transfer e a).port (e, N.len e) =
    some { a with kind := .buffering, remove := a.remove || a.peerClosed } := by
  rw [port_transfer, if_neg (by simp), if_pos rfl]

@[simp] theorem port_transfer_new : (N.transfer e a).port (e, N.len e + 1) =
    some { a with kind := .transit, remove := false, stored := false } := by
  rw [port_transfer, if_pos rfl]

/-- The live port of an end that is sent is in transit. -/
theorem port_transfer_live : (N.transfer e a).port (e, (N.transfer e a).len e) =
    some { a with kind := .transit, remove := false, stored := false } := by
  rw [len_transfer_self, port_transfer_new]

/-- The live ports of the other ends are not touched by a transfer. -/
theorem port_transfer_live_of_ne {e' : End} (h : e' ≠ e) :
    (N.transfer e a).port (e', (N.transfer e a).len e') = N.port (e', N.len e') := by
  rw [len_transfer_of_ne h, port_transfer_of_fst_ne (by exact h)]

end Transfer

/-! ## New pipes -/

/-- The two ports of a new pipe are receiving. -/
theorem port_create (x : Place) : N.create.port x =
    if x.1.pipe = N.pipes ∧ x.2 = 0 then some { kind := .receiving } else N.port x := by
  obtain ⟨⟨i, b⟩, k⟩ := x
  simp only [create, Function.update_apply]
  cases b <;> by_cases hi : i = N.pipes <;> by_cases hk : k = 0 <;> simp [hi, hk]

/-- The ports of the other pipes are not touched. -/
theorem port_create_of_pipe_lt {x : Place} (h : x.1.pipe < N.pipes) :
    N.create.port x = N.port x := by
  rw [port_create, if_neg fun h' => h.ne h'.1]

/-- A port is one of a new pipe, or was there before. -/
theorem port_create_cases {x : Place} {b : Port} (h : N.create.port x = some b) :
    (x.1.pipe = N.pipes ∧ x.2 = 0 ∧ b = { kind := .receiving }) ∨ N.port x = some b := by
  rw [port_create] at h
  split_ifs at h with hx
  · exact .inl ⟨hx.1, hx.2, (Option.some.inj h).symm⟩
  · exact .inr h

/-! ## Losses -/

/-- The ports at the lost places are erased, or told. -/
theorem port_lose (S : Place → Prop) [DecidablePred S] (x : Place) :
    (N.lose S).port x = if S x then (N.port x).bind lostPort else N.port x := rfl

/-- A port that survives a loss: as it was, or a receiving port that is told. -/
theorem port_lose_cases {S : Place → Prop} [DecidablePred S] {x : Place} {b : Port}
    (h : (N.lose S).port x = some b) : N.port x = some b ∨ ∃ a, N.port x = some a ∧
      a.kind = .receiving ∧ b = { a with peerClosed := true, last := a.next - 1 } := by
  rw [port_lose] at h
  split_ifs at h
  · obtain ⟨a, ha, hb⟩ := Option.bind_eq_some_iff.1 h
    rw [lostPort] at hb
    split at hb
    · exact .inl (Option.some.inj hb ▸ ha)
    · split_ifs at hb
      · exact .inl (Option.some.inj hb ▸ ha)
      · exact .inr ⟨a, ha, by assumption, (Option.some.inj hb).symm⟩
    · cases hb
  · exact .inl h

/-- A live port survives a loss. -/
theorem port_lose_live {S : Place → Prop} [DecidablePred S] {x : Place} {a : Port}
    (h : N.port x = some a) (hl : a.kind.live) :
    ∃ b, (N.lose S).port x = some b ∧ b.kind = a.kind := by
  rw [port_lose, h, Option.bind_some]
  by_cases hS : S x
  · rw [if_pos hS, lostPort]
    cases hk : a.kind with
    | transit => exact ⟨a, rfl, hk⟩
    | receiving =>
      by_cases hc : a.peerClosed
      · exact ⟨a, if_pos hc, hk⟩
      · refine ⟨{ a with peerClosed := true, last := a.next - 1 }, ?_, hk⟩
        simp [hc, hk]
    | buffering => simp [hk] at hl
    | proxying => simp [hk] at hl
  · exact ⟨a, if_neg hS, rfl⟩

/-- The messages in the queues of the ports that are erased are gone. -/
theorem mem_letters_lose {S : Place → Prop} [DecidablePred S] {l : Letter α} :
    l ∈ (N.lose S).letters ↔ l ∈ N.letters ∧
      ¬(l.queued = true ∧ S l.place ∧ (N.port l.place).bind lostPort = none) :=
  Multiset.mem_filter

/-! ## The shape -/

/-- A place of a pipe, up to the live port of its end. -/
def Used (N : Net α) (x : Place) : Prop := x.1.pipe < N.pipes ∧ x.2 ≤ N.len x.1

/-- A place before the live port of its end. -/
def Passed (N : Net α) (x : Place) : Prop := x.1.pipe < N.pipes ∧ x.2 < N.len x.1

/-- An event names places in use. -/
def Placed (N : Net α) : Event → Prop
  | .accepted x | .ack x _ => N.Passed x
  | .proxy d x => d.1.pipe = x.1.pipe ∧ N.Used d ∧ N.Passed x
  | .closure d _ => N.Used d

/-- The shape of the chains. -/
structure Shape (N : Net α) : Prop where
  pipe_lt : ∀ {x : Place} {a : Port}, N.port x = some a → x.1.pipe < N.pipes
  live : ∀ {x : Place} {a : Port}, N.port x = some a → a.kind.live →
    x.2 = N.len x.1 ∧ a.stored = false ∧ a.remove = false
  transit_pos : ∀ {x : Place} {a : Port}, N.port x = some a → a.kind = .transit → 0 < x.2
  proxy : ∀ {x : Place} {a : Port}, N.port x = some a → a.kind.live = false → x.2 < N.len x.1
  stored : ∀ {x : Place} {a : Port}, N.port x = some a → a.stored → N.Passed x.succ
  isOpen : ∀ e, e.pipe < N.pipes → N.closed e = false → ∃ a, N.port (e, N.len e) = some a
  isClosed : ∀ e, N.closed e → N.port (e, N.len e) = none
  toward_le : ∀ e, N.toward e ≤ N.len e.opp
  unused : ∀ e, N.pipes ≤ e.pipe → N.len e = 0 ∧ N.toward e = 0 ∧ N.closed e = false
  events : ∀ ev ∈ N.events, N.Placed ev
  letters : ∀ l ∈ N.letters, N.Used l.place
  queued : ∀ l ∈ N.letters, l.queued → ∃ a, N.port l.place = some a ∧ a.kind ≠ .transit

theorem Passed.used {x : Place} (h : N.Passed x) : N.Used x := ⟨h.1, h.2.le⟩

/-- There is a place after one that is passed. -/
theorem Passed.succ_used {x : Place} (h : N.Passed x) : N.Used x.succ := ⟨h.1, h.2⟩

/-- No place gets out of use. -/
theorem Used.mono (hp : N.pipes ≤ M.pipes) (hl : ∀ e, N.len e ≤ M.len e) {x : Place}
    (h : N.Used x) : M.Used x :=
  ⟨h.1.trans_le hp, h.2.trans (hl _)⟩

/-- A place that is passed stays passed. -/
theorem Passed.mono (hp : N.pipes ≤ M.pipes) (hl : ∀ e, N.len e ≤ M.len e) {x : Place}
    (h : N.Passed x) : M.Passed x :=
  ⟨h.1.trans_le hp, h.2.trans_le (hl _)⟩

/-- An event stays addressed to a place in use. -/
theorem Placed.mono (hp : N.pipes ≤ M.pipes) (hl : ∀ e, N.len e ≤ M.len e) {ev : Event}
    (h : N.Placed ev) : M.Placed ev := by
  cases ev with
  | accepted x => exact Passed.mono hp hl h
  | proxy d x => exact ⟨h.1, h.2.1.mono hp hl, h.2.2.mono hp hl⟩
  | ack x last => exact Passed.mono hp hl h
  | closure d last => exact Used.mono hp hl h

namespace Shape

/-- A port is at a place in use. -/
theorem used (h : N.Shape) {x : Place} {a : Port} (hx : N.port x = some a) : N.Used x := by
  refine ⟨h.pipe_lt hx, ?_⟩
  cases hl : a.kind.live with
  | true => exact (h.live hx hl).1.le
  | false => exact (h.proxy hx hl).le

/-- The live port of an end is receiving or in transit. -/
theorem kind_live (h : N.Shape) {e : End} {a : Port} (hp : N.port (e, N.len e) = some a) :
    a.kind.live := by
  by_contra hl
  exact (h.proxy hp (by simpa using hl)).ne rfl

/-- A port points to a place in use. -/
theorem peer_used (h : N.Shape) {x : Place} (hx : N.Used x) : N.Used (N.peer x) := by
  rw [peer]
  split_ifs with hl
  · exact ⟨hx.1, h.toward_le x.1⟩
  · exact ⟨hx.1, lt_of_le_of_ne hx.2 hl⟩

/-- A port points to a place of its pipe. -/
theorem peer_pipe (x : Place) : (N.peer x).1.pipe = x.1.pipe := by
  rw [peer]
  split_ifs <;> rfl

theorem init : (init : Net α).Shape where
  pipe_lt h := by cases h
  live h := by cases h
  transit_pos h := by cases h
  proxy h := by cases h
  stored h := by cases h
  isOpen e he := absurd he (Nat.not_lt_zero _)
  isClosed _ h := by cases h
  toward_le _ := le_rfl
  unused _ _ := ⟨rfl, rfl, rfl⟩
  events _ h := absurd h (Multiset.notMem_zero _)
  letters _ h := absurd h (Multiset.notMem_zero _)
  queued _ h := absurd h (Multiset.notMem_zero _)

/-- The events change, to some that are addressed to places in use. -/
theorem withEvents (h : N.Shape) {E : Multiset Event} (hE : ∀ ev ∈ E, N.Placed ev) :
    (N.withEvents E).Shape :=
  { h with events := fun ev hev => (hE ev hev).mono le_rfl fun _ => le_rfl }

/-- The messages change, to some that are addressed to places in use, or queued at a port. -/
theorem withLetters (h : N.Shape) {L : Multiset (Letter α)} (hL : ∀ l ∈ L, N.Used l.place)
    (hq : ∀ l ∈ L, l.queued → ∃ a, N.port l.place = some a ∧ a.kind ≠ .transit) :
    (N.withLetters L).Shape :=
  { h with letters := hL, queued := hq }

theorem withHeld (h : N.Shape) (H : Multiset End) : (N.withHeld H).Shape := { h with }

theorem noteSent (h : N.Shape) (e : End) (m : UInt64 × α) : (N.noteSent e m).Shape := { h with }

theorem noteReturned (h : N.Shape) (e : End) (m : UInt64 × α) : (N.noteReturned e m).Shape :=
  { h with }

/-- An event is consumed. -/
theorem consume (h : N.Shape) {ev : Event} {E : Multiset Event} (he : N.events = ev ::ₘ E) :
    (N.withEvents E).Shape :=
  h.withEvents fun ev' hev => h.events ev' (he ▸ Multiset.mem_cons_of_mem hev)

/-- An event is sent to a place in use. -/
theorem emit (h : N.Shape) {ev : Event} (hev : N.Placed ev) :
    (N.withEvents (ev ::ₘ N.events)).Shape :=
  h.withEvents (Multiset.forall_mem_cons.2 ⟨hev, h.events⟩)

/-- An event that is in flight is addressed to a place in use. -/
theorem placed (h : N.Shape) {ev : Event} {E : Multiset Event} (he : N.events = ev ::ₘ E) :
    N.Placed ev :=
  h.events ev (he ▸ Multiset.mem_cons_self ev E)

/-- A port changes without a change of its place. -/
theorem set (h : N.Shape) {x : Place} {a a' : Port} (hx : N.port x = some a)
    (hl : a'.kind.live = a.kind.live) (ht : a'.kind ≠ .transit)
    (hs : a'.kind.live → a'.stored = false ∧ a'.remove = false)
    (hst : a'.stored → N.Passed x.succ) : (N.set x a').Shape where
  pipe_lt hy := by
    rcases port_set_cases hy with ⟨rfl, -⟩ | ⟨-, hy⟩
    · exact h.pipe_lt hx
    · exact h.pipe_lt hy
  live hy hk := by
    rcases port_set_cases hy with ⟨rfl, rfl⟩ | ⟨-, hy⟩
    · exact ⟨(h.live hx (hl ▸ hk)).1, hs hk⟩
    · exact h.live hy hk
  transit_pos hy hk := by
    rcases port_set_cases hy with ⟨rfl, rfl⟩ | ⟨-, hy⟩
    · exact absurd hk ht
    · exact h.transit_pos hy hk
  proxy hy hk := by
    rcases port_set_cases hy with ⟨rfl, rfl⟩ | ⟨-, hy⟩
    · exact h.proxy hx (hl ▸ hk)
    · exact h.proxy hy hk
  stored hy hk := by
    rcases port_set_cases hy with ⟨rfl, rfl⟩ | ⟨-, hy⟩
    · exact hst hk
    · exact h.stored hy hk
  isOpen e he ho := by
    obtain ⟨b, hb⟩ := h.isOpen e he ho
    by_cases hex : (e, N.len e) = x
    · exact ⟨a', hex ▸ port_set_self ..⟩
    · exact ⟨b, (port_set_of_ne _ hex).trans hb⟩
  isClosed e he := by
    have hn := h.isClosed e he
    by_cases hex : (e, N.len e) = x
    · rw [hex, hx] at hn
      exact absurd hn (Option.some_ne_none _)
    · exact (port_set_of_ne _ hex).trans hn
  toward_le := h.toward_le
  unused := h.unused
  events ev hev := (h.events ev hev).mono le_rfl fun _ => le_rfl
  letters := h.letters
  queued l hl hq := by
    obtain ⟨b, hb, hk⟩ := h.queued l hl hq
    by_cases hlx : l.place = x
    · rw [hlx, hx] at hb
      rw [hlx]
      exact ⟨a', port_set_self .., ht⟩
    · exact ⟨b, (port_set_of_ne _ hlx).trans hb, hk⟩

/-- A port is sent: the chain of its end grows by one. -/
theorem transfer (h : N.Shape) {e : End} {a : Port} (hp : N.port (e, N.len e) = some a) :
    (N.transfer e a).Shape where
  pipe_lt hx := by
    rcases port_transfer_cases hx with ⟨rfl, -⟩ | ⟨rfl, -⟩ | ⟨-, -, hx⟩
    · exact h.pipe_lt (x := (e, N.len e)) hp
    · exact h.pipe_lt hp
    · exact h.pipe_lt hx
  live {x b} hx hb := by
    rcases port_transfer_cases hx with ⟨rfl, rfl⟩ | ⟨-, rfl⟩ | ⟨-, hne, hx⟩
    · exact ⟨len_transfer_self.symm, rfl, rfl⟩
    · simp at hb
    · obtain ⟨h1, h2⟩ := h.live hx hb
      have hxe : x.1 ≠ e := fun he => hne (Prod.ext he (he ▸ h1))
      exact ⟨by rw [len_transfer_of_ne hxe, h1], h2⟩
  transit_pos hx hk := by
    rcases port_transfer_cases hx with ⟨rfl, -⟩ | ⟨-, rfl⟩ | ⟨-, -, hx⟩
    · exact Nat.succ_pos _
    · simp at hk
    · exact h.transit_pos hx hk
  proxy {x b} hx hb := by
    rcases port_transfer_cases hx with ⟨-, rfl⟩ | ⟨rfl, -⟩ | ⟨-, -, hx⟩
    · simp at hb
    · exact (Nat.lt_succ_self _).trans_eq len_transfer_self.symm
    · exact (h.proxy hx hb).trans_le (len_le_transfer _)
  stored hx hs := by
    rcases port_transfer_cases hx with ⟨-, rfl⟩ | ⟨-, rfl⟩ | ⟨-, -, hx⟩
    · simp at hs
    · rw [show _ = a.stored from rfl, (h.live hp (h.kind_live hp)).2.1] at hs
      cases hs
    · exact Passed.mono (N := N) (M := N.transfer e a) le_rfl len_le_transfer (h.stored hx hs)
  isOpen e' he ho := by
    by_cases hee : e' = e
    · exact hee ▸ ⟨_, port_transfer_live⟩
    · obtain ⟨b, hb⟩ := h.isOpen e' he ho
      exact ⟨b, (port_transfer_live_of_ne hee).trans hb⟩
  isClosed e' he := by
    have hn := h.isClosed e' he
    have hee : e' ≠ e := by
      rintro rfl
      rw [hp] at hn
      cases hn
    exact (port_transfer_live_of_ne hee).trans hn
  toward_le e' := (h.toward_le e').trans (len_le_transfer _)
  unused e' he := by
    have hee : e' ≠ e := by
      rintro rfl
      exact absurd (h.pipe_lt hp) (not_lt.2 he)
    rw [len_transfer_of_ne hee]
    exact h.unused e' he
  events ev hev := Placed.mono (N := N) (M := N.transfer e a) le_rfl len_le_transfer
    (h.events ev hev)
  letters l hl := Used.mono (N := N) (M := N.transfer e a) le_rfl len_le_transfer
    (h.letters l hl)
  queued l hl hq := by
    obtain ⟨b, hb, hk⟩ := h.queued l hl hq
    -- No message is at the new port yet.
    by_cases h1 : l.place = (e, N.len e + 1)
    · have := (h.used hb).2
      rw [h1] at this
      exact absurd this (Nat.not_succ_le_self _)
    · by_cases h2 : l.place = (e, N.len e)
      · exact ⟨_, h2 ▸ port_transfer_sent, by simp⟩
      · exact ⟨b, (port_transfer_of_ne h1 h2).trans hb, hk⟩

/-- The ports of a message are sent, one after the other. -/
theorem transferAll (es : List End) (h : N.Shape) : (N.transferAll es).Shape := by
  induction es generalizing N with
  | nil => exact h
  | cons e es ih =>
    rw [Net.transferAll]
    split
    · next hp => exact ih (h.transfer hp)
    · exact ih h

/-- A port arrives: it is receiving, and the one before it may forward. -/
theorem accept (h : N.Shape) {e : End} {a : Port} (hp : N.port (e, N.len e) = some a)
    (hk : a.kind = .transit) : (N.accept e a).Shape := by
  have hl := h.kind_live hp
  have hlen : 0 < N.len e := h.transit_pos hp hk
  have hset : (N.set (e, N.len e) { a with kind := .receiving }).Shape :=
    h.set hp (by simp [hl]) (by simp) (fun _ => (h.live hp hl).2) fun hs => h.stored hp hs
  exact hset.emit ⟨h.pipe_lt (x := (e, N.len e)) hp, Nat.sub_lt hlen Nat.one_pos⟩

/-- A proxy is erased, and its queue with it. -/
theorem erase (h : N.Shape) {x : Place} (hx : N.Passed x) :
    ((N.erase x).withLetters (N.elsewhere x)).Shape where
  pipe_lt hy := h.pipe_lt (port_erase_cases hy).2
  live hy := h.live (port_erase_cases hy).2
  transit_pos hy := h.transit_pos (port_erase_cases hy).2
  proxy hy := h.proxy (port_erase_cases hy).2
  stored hy := h.stored (port_erase_cases hy).2
  isOpen e he ho := by
    obtain ⟨b, hb⟩ := h.isOpen e he ho
    have hne : (e, N.len e) ≠ x := by
      rintro rfl
      exact hx.2.ne rfl
    exact ⟨b, (port_erase_of_ne hne).trans hb⟩
  isClosed e he := by
    by_cases hex : (e, N.len e) = x
    · exact hex ▸ port_erase_self ..
    · exact (port_erase_of_ne hex).trans (h.isClosed e he)
  toward_le := h.toward_le
  unused := h.unused
  events ev hev := (h.events ev hev).mono le_rfl fun _ => le_rfl
  letters l hl := h.letters l (Multiset.mem_filter.1 hl).1
  queued l hl hq := by
    obtain ⟨hl, hne⟩ := Multiset.mem_filter.1 hl
    obtain ⟨b, hb, hk⟩ := h.queued l hl hq
    exact ⟨b, (port_erase_of_ne fun hlx => hne ⟨hq, hlx⟩).trans hb, hk⟩

/-- The live port of an end skips one proxy, which there is. -/
theorem redirect (h : N.Shape) {e : End} (he : e.pipe < N.pipes)
    (hlt : N.toward e < N.len e.opp) : (N.redirect e).Shape :=
  { h with
    toward_le := fun e' => by
      by_cases hee : e' = e
      · subst hee
        exact (Function.update_self e' _ N.toward).trans_le hlt
      · exact (Function.update_of_ne hee _ N.toward).trans_le (h.toward_le e')
    unused := fun e' he' => by
      have hee : e' ≠ e := by
        rintro rfl
        exact absurd he (not_lt.2 he')
      obtain ⟨h1, h2, h3⟩ := h.unused e' he'
      exact ⟨h1, (Function.update_of_ne hee ..).trans h2, h3⟩
    events := fun ev hev => (h.events ev hev).mono le_rfl fun _ => le_rfl }

/-- A new pipe has a chain of one port at each end. -/
theorem create (h : N.Shape) : N.create.Shape where
  pipe_lt hx := by
    rcases port_create_cases hx with ⟨hp, -, -⟩ | hx
    · exact hp.trans_lt (Nat.lt_succ_self _)
    · exact (h.pipe_lt hx).trans (Nat.lt_succ_self _)
  live {x b} hx hb := by
    rcases port_create_cases hx with ⟨hp, h0, rfl⟩ | hx
    · exact ⟨h0.trans (h.unused x.1 hp.ge).1.symm, rfl, rfl⟩
    · exact h.live hx hb
  transit_pos hx hk := by
    rcases port_create_cases hx with ⟨-, -, rfl⟩ | hx
    · cases hk
    · exact h.transit_pos hx hk
  proxy hx hb := by
    rcases port_create_cases hx with ⟨-, -, rfl⟩ | hx
    · simp at hb
    · exact h.proxy hx hb
  stored hx hs := by
    rcases port_create_cases hx with ⟨-, -, rfl⟩ | hx
    · simp at hs
    · exact (h.stored hx hs).mono (M := N.create) (Nat.le_succ N.pipes) fun _ => le_rfl
  isOpen e he ho := by
    rcases Nat.lt_succ_iff_lt_or_eq.1 he with he | he
    · obtain ⟨b, hb⟩ := h.isOpen e he ho
      exact ⟨b, (port_create_of_pipe_lt he).trans hb⟩
    · exact ⟨_, (port_create _).trans (if_pos ⟨he, (h.unused e he.ge).1⟩)⟩
  isClosed e he := by
    have hlt : e.pipe < N.pipes := by
      by_contra hge
      rw [show N.create.closed e = N.closed e from rfl, (h.unused e (not_lt.1 hge)).2.2] at he
      cases he
    exact (port_create_of_pipe_lt hlt).trans (h.isClosed e he)
  toward_le := h.toward_le
  unused e he := h.unused e (Nat.le_of_succ_le he)
  events ev hev := (h.events ev hev).mono (M := N.create) (Nat.le_succ N.pipes) fun _ => le_rfl
  letters l hl := (h.letters l hl).mono (M := N.create) (Nat.le_succ N.pipes) fun _ => le_rfl
  queued l hl hq := by
    obtain ⟨b, hb, hk⟩ := h.queued l hl hq
    exact ⟨b, (port_create_of_pipe_lt (h.pipe_lt hb)).trans hb, hk⟩

/-- A live port is closed, and is the last one of its chain. -/
theorem close (h : N.Shape) {e : End} {a : Port} (hp : N.port (e, N.len e) = some a)
    (H : Multiset End) : (N.close e a H).Shape where
  pipe_lt hy := h.pipe_lt (port_erase_cases hy).2
  live hy := h.live (port_erase_cases hy).2
  transit_pos hy := h.transit_pos (port_erase_cases hy).2
  proxy hy := h.proxy (port_erase_cases hy).2
  stored hy := h.stored (port_erase_cases hy).2
  isOpen e' he ho := by
    have hee : e' ≠ e := by
      rintro rfl
      exact absurd ho (by simp [Net.close])
    obtain ⟨b, hb⟩ := h.isOpen e' he ((Function.update_of_ne hee ..).symm.trans ho)
    exact ⟨b, (port_erase_of_ne fun hx => hee (congrArg Prod.fst hx)).trans hb⟩
  isClosed e' he := by
    by_cases hee : e' = e
    · subst hee
      exact port_erase_self ..
    · have hc : N.closed e' := (Function.update_of_ne hee ..).symm.trans he
      exact (port_erase_of_ne fun hx => hee (congrArg Prod.fst hx)).trans (h.isClosed e' hc)
  toward_le := h.toward_le
  unused e' he := by
    -- An end of a pipe that is not there yet cannot be closed.
    have hee : e' ≠ e := by
      rintro rfl
      exact absurd (h.pipe_lt hp) (not_lt.2 he)
    obtain ⟨h1, h2, h3⟩ := h.unused e' he
    exact ⟨h1, h2, (Function.update_of_ne hee ..).trans h3⟩
  events ev hev := by
    rcases Multiset.mem_cons.1 hev with rfl | hev
    · exact ⟨h.pipe_lt (x := (e, N.len e)) hp, h.toward_le e⟩
    · exact (h.events ev hev).mono le_rfl fun _ => le_rfl
  letters l hl := h.letters l (Multiset.mem_filter.1 hl).1
  queued l hl hq := by
    obtain ⟨hl, hne⟩ := Multiset.mem_filter.1 hl
    obtain ⟨b, hb, hk⟩ := h.queued l hl hq
    exact ⟨b, (port_erase_of_ne fun hlx => hne ⟨hq, hlx⟩).trans hb, hk⟩

/-- The ports that are lost are erased, or told that their peer is closed. -/
theorem lose (h : N.Shape) (S : Place → Prop) [DecidablePred S] : (N.lose S).Shape where
  pipe_lt hx := by
    rcases port_lose_cases hx with hx | ⟨a, hx, -, -⟩
    · exact h.pipe_lt hx
    · exact h.pipe_lt hx
  live hx hb := by
    rcases port_lose_cases hx with hx | ⟨a, ha, hk, rfl⟩
    · exact h.live hx hb
    · obtain ⟨h1, h2, h3⟩ := h.live ha (by simp [hk])
      exact ⟨h1, h2, h3⟩
  transit_pos hx hk := by
    rcases port_lose_cases hx with hx | ⟨a, -, hk', rfl⟩
    · exact h.transit_pos hx hk
    · exact absurd hk (by simp [hk'])
  proxy hx hb := by
    rcases port_lose_cases hx with hx | ⟨a, ha, -, rfl⟩
    · exact h.proxy hx hb
    · exact h.proxy ha hb
  stored hx hs := by
    rcases port_lose_cases hx with hx | ⟨a, ha, -, rfl⟩
    · exact h.stored hx hs
    · exact h.stored ha hs
  isOpen e he ho := by
    obtain ⟨a, ha⟩ := h.isOpen e he ho
    obtain ⟨b, hb, -⟩ := port_lose_live (S := S) ha (h.kind_live ha)
    exact ⟨b, hb⟩
  isClosed e he := by
    have hn : N.port (e, N.len e) = none := h.isClosed e he
    change (if S (e, N.len e) then (N.port (e, N.len e)).bind lostPort
      else N.port (e, N.len e)) = none
    rw [hn]
    split_ifs <;> rfl
  toward_le := h.toward_le
  unused := h.unused
  events ev hev := (h.events ev hev).mono le_rfl fun _ => le_rfl
  letters l hl := h.letters l (mem_letters_lose.1 hl).1
  queued l hl hq := by
    obtain ⟨hl, hne⟩ := mem_letters_lose.1 hl
    obtain ⟨a, ha, hk⟩ := h.queued l hl hq
    -- A message that is left is at a port that is left.
    cases hb : (N.lose S).port l.place with
    | some b =>
      refine ⟨b, rfl, ?_⟩
      rcases port_lose_cases hb with hb | ⟨a', hb, hk', rfl⟩
      · rw [ha] at hb
        exact Option.some.inj hb ▸ hk
      · simp [hk']
    | none =>
      rw [port_lose] at hb
      split_ifs at hb with hS
      · exact absurd ⟨hq, hS, hb⟩ hne
      · rw [ha] at hb
        cases hb

end Shape

end MojoEdk.Ports.Net
