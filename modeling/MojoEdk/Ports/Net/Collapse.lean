import MojoEdk.Ports.Net.Ring

/-!
# What makes proxies go away

As long as a proxy is there, something on its way makes it go, or it has announced itself
and waits to be skipped (`Net.Tended`):

* A port that buffers for another one is told when that one is accepted.
* A proxy that is skipped is acknowledged, with a number that is not the one that asks it to
  announce itself again.
* Once an end is closed, all ports of the chain of the other end that it does not skip are
  told, one after the other: by a closure that is on its way to one of them, or by a port
  before it that is still buffering, and passes the closure on again when it is accepted.

The last one also holds after a place of the chain whose port is gone: it passed the closure
on before it went.
-/

namespace MojoEdk.Ports.Net

variable {α : Type*} {N M : Net α} {x : Place} {a b : Port} {e : End}

/-! ## The invariant -/

/-- A port that expects the pipe to be open, and that messages are sent to it. -/
def Untold (N : Net α) (x : Place) : Prop :=
  ∃ a, N.port x = some a ∧ a.remove = false ∧ (a.kind.live → a.peerClosed = false)

/-- The port at a place is gone, or it is a proxy that is to go. -/
def Cleared (N : Net α) (x : Place) : Prop :=
  ∀ a, N.port x = some a → a.kind = .proxying ∧ a.remove = true

/-- The port at a place is about to be told that the pipe is closed. -/
def Closing (N : Net α) (x : Place) : Prop :=
  (N.Arrived x ∧ ∃ last, .closure x last ∈ N.events) ∨
    ∃ y a, x = Place.succ y ∧ N.port y = some a ∧ a.kind = .buffering ∧ a.remove = true

/-- The ports of a chain are told from a place on. -/
def Begins (N : Net α) (x : Place) : Prop :=
  (N.closed x.1.opp = true ∧ x.2 = N.toward x.1.opp) ∨
    ∃ y, x = Place.succ y ∧ N.toward y.1.opp ≤ y.2 ∧ N.Cleared y

/-- Every port that is to be told will be. -/
def Telling (N : Net α) : Prop :=
  ∀ e i j, N.Begins (e, i) → i ≤ j → N.Untold (e, j) → ∃ k, i ≤ k ∧ k ≤ j ∧ N.Closing (e, k)

/-- What is on its way to the ports that are to go. -/
structure Tended (N : Net α) : Prop where
  buffering : ∀ x, N.Buffering x →
    .accepted x ∈ N.events ∨ ∃ a, N.port x.succ = some a ∧ a.kind = .transit
  skipped : ∀ x a, N.port x = some a → a.kind = .proxying → a.remove = false →
    x.2 < N.toward x.1.opp → ∃ last, last ≠ kInvalidSequenceNum ∧ .ack x last ∈ N.events
  telling : N.Telling

/-- The ports of a chain are not told before the place that the other end sends to. -/
theorem Begins.toward_le (h : N.Begins x) : N.toward x.1.opp ≤ x.2 := by
  rcases h with ⟨-, h⟩ | ⟨y, rfl, h, -⟩
  · exact h.ge
  · exact h.trans (Nat.le_succ _)

/-! ## Changes -/

/-- An event that is not the one taken is in flight still. -/
theorem mem_of_ne {ev ev' : Event} {E : Multiset Event} (he : N.events = ev ::ₘ E)
    (hev : ev' ∈ N.events) (hne : ev' ≠ ev) : ev' ∈ E := by
  rw [he] at hev
  exact (Multiset.mem_cons.1 hev).resolve_left hne

/-- A port of another kind is another port. -/
theorem port_set_of_kind_ne {y : Place} {c : Port} (hx : N.port x = some a)
    (hc : N.port y = some c) (hck : c.kind ≠ a.kind) : (N.set x b).port y = some c := by
  refine (port_set_of_ne _ ?_).trans hc
  rintro rfl
  exact hck (congrArg Port.kind (Option.some.inj (hc.symm.trans hx)))

/-- A closure that is on its way to a place still is, or is on its way to a later place, if
    there is a port to be told from there on. -/
theorem Telling.mono (h : N.Telling)
    (hclosing : ∀ e k j, N.toward e.opp ≤ k → N.Closing (e, k) → k ≤ j → M.Untold (e, j) →
      ∃ k', k ≤ k' ∧ k' ≤ j ∧ M.Closing (e, k'))
    (hbegins : ∀ e i j, M.Begins (e, i) → i ≤ j → M.Untold (e, j) →
      (∃ k, i ≤ k ∧ k ≤ j ∧ M.Closing (e, k)) ∨
        N.Begins (e, i) ∧ ∃ j', i ≤ j' ∧ j' ≤ j ∧ N.Untold (e, j')) : M.Telling := by
  intro e i j hi hij hj
  rcases hbegins e i j hi hij hj with hk | ⟨hi', j', hij', hjj, hj'⟩
  · exact hk
  · obtain ⟨k, hik, hkj, hk⟩ := h e i j' hi' hij' hj'
    obtain ⟨k', hkk, hkj', hk'⟩ := hclosing e k j (hi'.toward_le.trans hik) hk (hkj.trans hjj) hj
    exact ⟨k', hik.trans hkk, hkj', hk'⟩

/-- What a port is, but for the messages that it has and the numbers. -/
def Port.status (a : Port) : Kind × Bool × Bool := (a.kind, a.remove, a.peerClosed)

/-- What the ports of the chains are is not changed, and no event is lost but those that
    make no port go. -/
structure Steady (N M : Net α) : Prop where
  port : ∀ x, (M.port x).map Port.status = (N.port x).map Port.status
  len : M.len = N.len
  toward : M.toward = N.toward
  closed : M.closed = N.closed
  events : ∀ ev ∈ N.events, ev ∈ M.events ∨ (∃ d x, ev = .proxy d x) ∨
    ∃ x, ev = .ack x kInvalidSequenceNum

namespace Steady

/-- A port was there before, with the same status. -/
theorem exists_port (h : Steady N M) (hb : M.port x = some b) :
    ∃ a, N.port x = some a ∧ b.kind = a.kind ∧ b.remove = a.remove ∧ b.peerClosed = a.peerClosed := by
  have hx := h.port x
  rw [hb] at hx
  obtain ⟨a, ha, hab⟩ := Option.map_eq_some_iff.1 hx.symm
  simp only [Port.status, Prod.mk.injEq] at hab
  exact ⟨a, ha, hab.1.symm, hab.2.1.symm, hab.2.2.symm⟩

/-- A port is there still, with the same status. -/
theorem exists_port' (h : Steady N M) (ha : N.port x = some a) :
    ∃ b, M.port x = some b ∧ b.kind = a.kind ∧ b.remove = a.remove ∧ b.peerClosed = a.peerClosed := by
  have hx := h.port x
  rw [ha] at hx
  obtain ⟨b, hb, hab⟩ := Option.map_eq_some_iff.1 hx
  simp only [Port.status, Prod.mk.injEq] at hab
  exact ⟨b, hb, hab.1, hab.2.1, hab.2.2⟩

/-- A port that expects the pipe to be open did so before. -/
theorem untold (h : Steady N M) (hx : M.Untold x) : N.Untold x := by
  obtain ⟨b, hb, hr, hc⟩ := hx
  obtain ⟨a, ha, hk, har, hac⟩ := h.exists_port hb
  exact ⟨a, ha, har ▸ hr, fun hl => hac ▸ hc (hk ▸ hl)⟩

/-- A place that is cleared was so before. -/
theorem cleared (h : Steady N M) (hx : M.Cleared x) : N.Cleared x := by
  intro a ha
  obtain ⟨b, hb, hk, hr, -⟩ := h.exists_port' ha
  exact hk ▸ hr ▸ hx b hb

/-- A port that is about to be told is so still. -/
theorem closing (h : Steady N M) (hx : N.Closing x) : M.Closing x := by
  rcases hx with ⟨⟨hle, harr⟩, last, hev⟩ | ⟨y, a, rfl, ha, hk, hr⟩
  · refine .inl ⟨⟨h.len ▸ hle, fun b hb => ?_⟩, last, ?_⟩
    · obtain ⟨a, ha, hk, -⟩ := h.exists_port hb
      exact hk ▸ harr a ha
    · rcases h.events _ hev with hev | ⟨_, _, hev⟩ | ⟨_, hev⟩
      · exact hev
      · cases hev
      · cases hev
  · obtain ⟨b, hb, hbk, hbr, -⟩ := h.exists_port' ha
    exact .inr ⟨y, b, rfl, hb, hbk.trans hk, hbr.trans hr⟩

/-- The ports of a chain were told from there on before. -/
theorem begins (h : Steady N M) (hx : M.Begins x) : N.Begins x := by
  rcases hx with ⟨hc, hx⟩ | ⟨y, rfl, hle, hy⟩
  · exact .inl ⟨h.closed ▸ hc, h.toward ▸ hx⟩
  · exact .inr ⟨y, rfl, h.toward ▸ hle, h.cleared hy⟩

/-- What is on its way depends on the status of the ports, and on the events. -/
theorem tended (h : Steady N M) (hN : N.Tended) : M.Tended where
  buffering x hx := by
    obtain ⟨b, hb, hk⟩ := hx
    obtain ⟨a, ha, hka, -⟩ := h.exists_port hb
    rcases hN.buffering x ⟨a, ha, hka ▸ hk⟩ with hev | ⟨c, hc, hck⟩
    · rcases h.events _ hev with hev | ⟨_, _, hev⟩ | ⟨_, hev⟩
      · exact .inl hev
      · cases hev
      · cases hev
    · obtain ⟨d, hd, hdk, -⟩ := h.exists_port' hc
      exact .inr ⟨d, hd, hdk.trans hck⟩
  skipped x b hb hk hr hlt := by
    obtain ⟨a, ha, hka, hra, -⟩ := h.exists_port hb
    obtain ⟨last, hlast, hev⟩ := hN.skipped x a ha (hka ▸ hk) (hra ▸ hr) (h.toward ▸ hlt)
    refine ⟨last, hlast, ?_⟩
    rcases h.events _ hev with hev | ⟨_, _, hev⟩ | ⟨_, hev⟩
    · exact hev
    · cases hev
    · cases hev
      exact absurd rfl hlast
  telling := hN.telling.mono
    (fun e k j _ hk hkj _ => ⟨k, le_rfl, hkj, h.closing hk⟩)
    fun e i j hi hij hj => .inr ⟨h.begins hi, j, hij, le_rfl, h.untold hj⟩

end Steady

/-- A port changes, but not its status. -/
theorem steady_set (hx : N.port x = some a) (hb : b.status = a.status) : Steady N (N.set x b) where
  port y := by
    rw [port_set]
    split_ifs with hy
    · rw [hy, hx, Option.map_some, Option.map_some, hb]
    · rfl
  len := rfl
  toward := rfl
  closed := rfl
  events _ hev := .inl hev

/-- The announcement of a proxy is kept. -/
theorem steady_store {d y : Place} {E : Multiset Event} (he : N.events = .proxy d y ::ₘ E)
    (hx : N.port x = some a) : Steady N ((N.set x { a with stored := true }).withEvents E) :=
  { steady_set hx (b := { a with stored := true }) rfl with
    events := fun ev hev => by
      rw [he] at hev
      exact (Multiset.mem_cons.1 hev).symm.imp id fun heq => .inl ⟨_, _, heq⟩ }

/-- The announcement of a proxy is passed on, or made again. -/
theorem steady_withEvents {ev ev' : Event} {E : Multiset Event} (he : N.events = ev ::ₘ E)
    (hev : (∃ d x, ev = .proxy d x) ∨ ∃ x, ev = .ack x kInvalidSequenceNum) :
    Steady N (N.withEvents (ev' ::ₘ E)) :=
  ⟨fun _ => rfl, rfl, rfl, rfl, fun ev₀ hev₀ => by
    rw [he] at hev₀
    rcases Multiset.mem_cons.1 hev₀ with rfl | hmem
    · exact .inr hev
    · exact .inl (Multiset.mem_cons_of_mem hmem)⟩

/-! ## Ports that are to be told -/

section Untold

variable {y : Place}

/-- A port that expects the pipe to be open did so before another one changed. -/
theorem Untold.of_set (hx : N.port x = some a) (hr : b.remove = false → a.remove = false)
    (hc : a.kind.live → b.kind.live ∧ (b.peerClosed = false → a.peerClosed = false))
    (h : (N.set x b).Untold y) : N.Untold y := by
  obtain ⟨c, hcy, hcr, hcl⟩ := h
  rcases port_set_cases hcy with ⟨rfl, rfl⟩ | ⟨-, hcy⟩
  · exact ⟨a, hx, hr hcr, fun hl => (hc hl).2 (hcl (hc hl).1)⟩
  · exact ⟨c, hcy, hcr, hcl⟩

theorem Untold.of_erase (h : (N.erase x).Untold y) : N.Untold y := by
  obtain ⟨c, hc, hr, hcl⟩ := h
  exact ⟨c, (port_erase_cases hc).2, hr, hcl⟩

theorem Untold.of_transfer (hy : y.1 ≠ e) (h : (N.transfer e a).Untold y) : N.Untold y := by
  obtain ⟨c, hc, hr, hcl⟩ := h
  exact ⟨c, (port_transfer_of_fst_ne hy).symm.trans hc, hr, hcl⟩

end Untold

/-! ## Ports that are about to be told -/

section Closing

variable {y : Place} {E : Multiset Event} {last : UInt64}

/-- A port is still about to be told, if no closure is lost on its way to it, and no port that
    passes one on. -/
theorem Closing.mono (F : Frame N M) (h : N.Closing y)
    (hevents : ∀ last, .closure y last ∈ N.events → .closure y last ∈ M.events)
    (hport : ∀ z c, N.port z = some c → c.kind = .buffering → c.remove = true →
      ∃ d, M.port z = some d ∧ d.kind = .buffering ∧ d.remove = true) : M.Closing y := by
  rcases h with ⟨harr, last, hev⟩ | ⟨z, c, rfl, hc, hck, hr⟩
  · exact .inl ⟨F.arrived _ harr, last, hevents last hev⟩
  · obtain ⟨d, hd, hdk, hdr⟩ := hport z c hc hck hr
    exact .inr ⟨z, d, rfl, hd, hdk, hdr⟩

/-- The closure is in flight still. -/
theorem Closing.withEvents (h : N.Closing y)
    (hE : ∀ last, .closure y last ∈ N.events → .closure y last ∈ E) :
    (N.withEvents E).Closing y := by
  rcases h with ⟨harr, last, hev⟩ | h
  · exact .inl ⟨harr, last, hE last hev⟩
  · exact .inr h

/-- A port is sent, and those about to be told are so still. -/
theorem Closing.transfer (w : N.Shape) (hp : N.port (e, N.len e) = some a) (h : N.Closing y) :
    (N.transfer e a).Closing y := by
  refine h.mono (frame_transfer hp) (fun _ => id) fun z c hc hck hr => ?_
  have hlt := w.proxy hc (by simp [hck])
  refine ⟨c, (port_transfer_of_ne ?_ ?_).trans hc, hck, hr⟩
  · rintro rfl
    exact absurd hlt (Nat.not_lt.2 (Nat.le_succ _))
  · rintro rfl
    exact absurd hlt (Nat.lt_irrefl _)

/-- A port arrives, and those about to be told are so still. -/
theorem Closing.accept (hp : N.port (e, N.len e) = some a) (hk : a.kind = .transit)
    (h : N.Closing y) : (N.accept e a).Closing y := by
  have F : Frame N (N.set (e, N.len e) { a with kind := .receiving }) :=
    frame_set hp ⟨by simp [hk], by simp [hk], id⟩
  have hset : (N.set (e, N.len e) { a with kind := .receiving }).Closing y :=
    h.mono F (fun _ => id) fun z c hc hck hr =>
      ⟨c, port_set_of_kind_ne hp hc (by simp [hk, hck]), hck, hr⟩
  exact hset.withEvents fun _ => Multiset.mem_cons_of_mem

/-- The port that a port passes a closure on to is told, now or when that one is accepted. -/
theorem Closing.portAccepted (r : N.Ring) (he : N.events = .accepted x ::ₘ E)
    (hx : N.port x = some a) (h : N.Closing y) :
    ((N.set x { a with kind := .proxying }).withEvents
      ((if a.remove then .closure x.succ a.last else .proxy x.succ x) ::ₘ E)).Closing y := by
  obtain ⟨-, harr⟩ := r.eventOk he
  have F : Frame N (N.set x { a with kind := .proxying }) :=
    frame_set hx ⟨by simp, fun _ => rfl, id⟩
  rcases h with ⟨hy, last, hev⟩ | ⟨z, c, rfl, hc, hck, hr⟩
  · exact .inl ⟨F.arrived _ hy, last, Multiset.mem_cons_of_mem (mem_of_ne he hev (by simp))⟩
  · by_cases hz : z = x
    · subst hz
      obtain rfl := Option.some.inj (hx.symm.trans hc)
      rw [if_pos hr]
      exact .inl ⟨F.arrived _ harr, a.last, Multiset.mem_cons_self ..⟩
    · exact .inr ⟨z, c, rfl, (port_set_of_ne _ hz).trans hc, hck, hr⟩

/-- A proxy that goes takes no closure along. -/
theorem Closing.remove (w : N.Shape) (hx : N.port x = some a) (hk : a.kind = .proxying)
    {L : Multiset (Letter α)} (hE : ∀ ev ∈ N.events, ev ∈ E) (h : N.Closing y) :
    (((N.erase x).withLetters L).withEvents E).Closing y := by
  have hkeep : ∀ z c, N.port z = some c → c.kind = .buffering → c.remove = true →
      ∃ d, (N.erase x).port z = some d ∧ d.kind = .buffering ∧ d.remove = true := by
    intro z c hc hck hr
    refine ⟨c, (port_erase_of_ne ?_).trans hc, hck, hr⟩
    rintro rfl
    cases hck.symm.trans (Option.some.inj (hx.symm.trans hc) ▸ hk)
  have herase : (N.erase x).Closing y :=
    h.mono (frame_erase (w.proxy hx (by simp [hk])).ne) (fun _ => id) hkeep
  exact herase.withEvents fun _ => hE _

/-- A proxy that is skipped takes no closure along. -/
theorem Closing.redirect {d z : Place} {ev : Event} (he : N.events = .proxy d z ::ₘ E)
    (h : N.Closing y) : ((N.redirect e).withEvents (ev ::ₘ E)).Closing y := by
  have hredirect : (N.redirect e).Closing y := h
  exact hredirect.withEvents fun _ hev => Multiset.mem_cons_of_mem (mem_of_ne he hev (by simp))

/-- A proxy is told its last number, and takes no closure along. -/
theorem Closing.ackAccept (he : N.events = .ack x last ::ₘ E) (hx : N.port x = some a)
    (hk : a.kind = .proxying) (h : N.Closing y) :
    ((N.set x { a with remove := true, last := last }).withEvents E).Closing y := by
  have F : Frame N (N.set x { a with remove := true, last := last }) := frame_set hx ⟨id, id, id⟩
  have hset : (N.set x { a with remove := true, last := last }).Closing y :=
    h.mono F (fun _ => id) fun z c hc hck hr =>
      ⟨c, port_set_of_kind_ne hx hc (by simp [hk, hck]), hck, hr⟩
  exact hset.withEvents fun _ hev => mem_of_ne he hev (by simp)

/-- A closure is taken at another port. -/
theorem Closing.closureReceive {ev : Event} (he : N.events = .closure (e, N.len e) last ::ₘ E)
    (hp : N.port (e, N.len e) = some a) (hk : a.kind = .receiving) (hy : y ≠ (e, N.len e))
    (h : N.Closing y) :
    ((N.set (e, N.len e) { a with peerClosed := true, last := last }).withEvents
      (ev ::ₘ E)).Closing y := by
  have F : Frame N (N.set (e, N.len e) { a with peerClosed := true, last := last }) :=
    frame_set hp ⟨id, id, fun _ => rfl⟩
  have hset : (N.set (e, N.len e) { a with peerClosed := true, last := last }).Closing y :=
    h.mono F (fun _ => id) fun z c hc hck hr =>
      ⟨c, port_set_of_kind_ne hp hc (by simp [hk, hck]), hck, hr⟩
  refine hset.withEvents fun _ hev => Multiset.mem_cons_of_mem (mem_of_ne he hev fun heq => ?_)
  exact hy (Event.closure.inj heq).1

/-- The next port is told by the closure, or again when it is accepted. -/
theorem Closing.of_closurePass (r : N.Ring) (hx : N.port x = some a) (hk : a.kind.live = false) :
    ((N.set x { a with peerClosed := true, remove := true, last := last }).withEvents
      (.closure x.succ last ::ₘ E)).Closing x.succ := by
  set b : Port := { a with peerClosed := true, remove := true, last := last } with hb
  have F : Frame N (N.set x b) := frame_set hx ⟨id, id, fun _ => rfl⟩
  cases hak : a.kind with
  | buffering => exact .inr ⟨x, b, rfl, port_set_self .., hak, rfl⟩
  | proxying =>
    have harr := (r.proxy x a hx hk).arrived hak
    exact .inl ⟨F.arrived _ harr, last, Multiset.mem_cons_self ..⟩
  | transit | receiving =>
    rw [hak] at hk
    cases hk

/-- A closure is passed on at another port. -/
theorem Closing.closurePass (he : N.events = .closure x last ::ₘ E) (hx : N.port x = some a)
    (hy : y ≠ x) (h : N.Closing y) :
    ((N.set x { a with peerClosed := true, remove := true, last := last }).withEvents
      (.closure x.succ last ::ₘ E)).Closing y := by
  set b : Port := { a with peerClosed := true, remove := true, last := last } with hb
  have F : Frame N (N.set x b) := frame_set hx ⟨id, id, fun _ => rfl⟩
  have hkeep : ∀ z c, N.port z = some c → c.kind = .buffering → c.remove = true →
      ∃ d, (N.set x b).port z = some d ∧ d.kind = .buffering ∧ d.remove = true := by
    intro z c hc hck hr
    by_cases hzx : z = x
    · subst hzx
      obtain rfl := Option.some.inj (hx.symm.trans hc)
      exact ⟨b, port_set_self .., hck, rfl⟩
    · exact ⟨c, (port_set_of_ne _ hzx).trans hc, hck, hr⟩
  have hset : (N.set x b).Closing y := h.mono F (fun _ => id) hkeep
  refine hset.withEvents fun _ hev => Multiset.mem_cons_of_mem (mem_of_ne he hev fun heq => ?_)
  exact hy (Event.closure.inj heq).1

/-- An end is closed, and those about to be told are so still. -/
theorem Closing.close {H : Multiset End} (hp : N.port (e, N.len e) = some a)
    (hk : a.kind = .receiving) (h : N.Closing y) : (N.close e a H).Closing y := by
  refine h.mono frame_close (fun _ => Multiset.mem_cons_of_mem) fun z c hc hck hr => ?_
  refine ⟨c, (port_close_of_ne ?_).trans hc, hck, hr⟩
  rintro rfl
  cases hck.symm.trans (Option.some.inj (hp.symm.trans hc) ▸ hk)

/-- A new pipe takes no closure along. -/
theorem Closing.create (w : N.Shape) (h : N.Closing y) : N.create.Closing y :=
  h.mono (frame_create w) (fun _ => id) fun _ c hc hck hr =>
    ⟨c, (port_create_of_pipe_lt (w.pipe_lt hc)).trans hc, hck, hr⟩

end Closing

namespace Tended

theorem init : (init : Net α).Tended where
  buffering x h := by
    obtain ⟨a, ha, -⟩ := h
    cases ha
  skipped _ _ h := by cases h
  telling e i j _ _ h := by
    obtain ⟨a, ha, -⟩ := h
    cases ha

/-- The ports after one that is gone or is to go are told, if it is not skipped. -/
theorem exists_closing (t : N.Tended) (hx : N.toward x.1.opp ≤ x.2)
    (hgo : ∀ a, N.port x = some a → a.kind.live = false ∧ a.remove = true) {j : ℕ} (hj : x.2 ≤ j)
    (hu : N.Untold (x.1, j)) : ∃ k, x.2 < k ∧ k ≤ j ∧ N.Closing (x.1, k) := by
  have hlt : x.2 < j := by
    refine lt_of_le_of_ne hj ?_
    rintro rfl
    obtain ⟨a, ha, hr, -⟩ := hu
    cases hr.symm.trans (hgo a ha).2
  by_cases hbuf : ∃ a, N.port x = some a ∧ a.kind = .buffering
  · obtain ⟨a, ha, hk⟩ := hbuf
    exact ⟨x.2 + 1, Nat.lt_succ_self _, hlt, .inr ⟨x, a, rfl, ha, hk, (hgo a ha).2⟩⟩
  · have hcleared : N.Cleared x := by
      intro a ha
      obtain ⟨hl, hr⟩ := hgo a ha
      refine ⟨?_, hr⟩
      cases hk : a.kind with
      | buffering => exact absurd ⟨a, ha, hk⟩ hbuf
      | proxying => rfl
      | transit | receiving =>
        rw [hk] at hl
        cases hl
    exact t.telling x.1 (x.2 + 1) j (.inr ⟨x, rfl, hx, hcleared⟩) hlt hu

/-! ## Transfers -/

/-- A port that is sent is told if it was, and so is the port it is renamed to. -/
theorem transfer (h : N.Tended) (w : N.Shape) (hp : N.port (e, N.len e) = some a)
    (hk : a.kind = .receiving) : (N.transfer e a).Tended := by
  obtain ⟨-, -, hremove⟩ := w.live hp (w.kind_live hp)
  have hlen : N.toward e.opp ≤ N.len e := (w.toward_le e.opp).trans_eq (by rw [End.opp_opp])
  -- The port is told already if it knows that its peer is closed.
  have huntold : ∀ y, (N.transfer e a).Untold y →
      N.Untold y ∨ y = (e, N.len e + 1) ∧ N.Untold (e, N.len e) := by
    rintro y ⟨c, hc, hr, hcl⟩
    rcases port_transfer_cases hc with ⟨rfl, rfl⟩ | ⟨rfl, rfl⟩ | ⟨-, -, hc⟩
    · exact .inr ⟨rfl, a, hp, hremove, fun _ => hcl rfl⟩
    · rw [Bool.or_eq_false_iff] at hr
      exact .inl ⟨a, hp, hremove, fun _ => hr.2⟩
    · exact .inl ⟨c, hc, hr, hcl⟩
  have hcleared : ∀ y, (N.transfer e a).Cleared y → N.Cleared y ∧ y ≠ (e, N.len e) := by
    intro y hy
    have hne : y ≠ (e, N.len e) := by
      rintro rfl
      cases (hy _ port_transfer_sent).1
    refine ⟨fun c hc => hy c ((port_transfer_of_ne ?_ hne).trans hc), hne⟩
    rintro rfl
    exact absurd (w.used hc).2 (Nat.not_le.2 (Nat.lt_succ_self _))
  have hbegins : ∀ i, (N.transfer e a).Begins (e, i) → i ≤ N.len e + 1 → i ≤ N.len e := by
    rintro i (⟨-, hi⟩ | ⟨⟨e', j⟩, heq, -, hy⟩) hle
    · exact hi.trans_le hlen
    · obtain ⟨rfl, rfl⟩ := Prod.mk.inj heq
      have hne : j ≠ N.len e := fun hj => (hcleared _ hy).2 (by rw [hj])
      exact Nat.succ_le_of_lt (lt_of_le_of_ne (Nat.le_of_succ_le_succ hle) hne)
  refine ⟨fun y hy => ?_, fun y c hc hck hr hlt => ?_, h.telling.mono ?_ ?_⟩
  · obtain ⟨c, hc, hck⟩ := hy
    rcases port_transfer_cases hc with ⟨rfl, rfl⟩ | ⟨rfl, rfl⟩ | ⟨-, -, hc⟩
    · cases hck
    · exact .inr ⟨_, port_transfer_new, rfl⟩
    · rcases h.buffering y ⟨c, hc, hck⟩ with hev | ⟨d, hd, hdk⟩
      · exact .inl hev
      · refine .inr ⟨d, (port_transfer_of_ne ?_ ?_).trans hd, hdk⟩
        · intro heq
          have := (w.used hd).2
          rw [heq] at this
          exact absurd this (Nat.not_le.2 (Nat.lt_succ_self _))
        · intro heq
          rw [heq, hp] at hd
          rw [← Option.some.inj hd, hk] at hdk
          cases hdk
  · rcases port_transfer_cases hc with ⟨rfl, rfl⟩ | ⟨rfl, rfl⟩ | ⟨-, -, hc⟩
    · cases hck
    · cases hck
    · exact h.skipped y c hc hck hr hlt
  · exact fun e' k j _ hclosing hkj _ => ⟨k, le_rfl, hkj, hclosing.transfer w hp⟩
  · intro e' i j hi hij hj
    have hi' : N.Begins (e', i) := hi.imp_right fun ⟨y, heq, hle, hy⟩ =>
      ⟨y, heq, hle, (hcleared y hy).1⟩
    rcases huntold _ hj with hj | ⟨heq, hj'⟩
    · exact .inr ⟨hi', j, hij, le_rfl, hj⟩
    · obtain ⟨rfl, rfl⟩ := Prod.mk.inj heq
      exact .inr ⟨hi', N.len e', hbegins i hi hij, Nat.le_succ _, hj'⟩

/-- The ports of a message are sent, one after the other. -/
theorem transferAll (h : N.Tended) (w : N.Shape) {es : List End} (hes : es.Nodup)
    (hr : ∀ e ∈ es, N.IsLive e .receiving) : (N.transferAll es).Tended := by
  induction es generalizing N with
  | nil => exact h
  | cons e es ih =>
    obtain ⟨hne, hes⟩ := List.nodup_cons.1 hes
    obtain ⟨a, hp, hk⟩ := hr e List.mem_cons_self
    rw [transferAll_cons hp]
    refine ih (h.transfer w hp hk) (w.transfer hp) hes fun e' he' => ?_
    obtain ⟨b, hb, hbk⟩ := hr e' (List.mem_cons_of_mem _ he')
    have hee : e' ≠ e := fun h => hne (h ▸ he')
    exact ⟨b, (port_transfer_live_of_ne hee).trans hb, hbk⟩

/-! ## Acceptances -/

/-- A port arrives. -/
theorem accept (h : N.Tended) (w : N.Shape) (hp : N.port (e, N.len e) = some a)
    (hk : a.kind = .transit) : (N.accept e a).Tended := by
  have hpos : N.len e - 1 + 1 = N.len e := Nat.sub_add_cancel (w.transit_pos hp hk)
  have hold : ∀ {y : Place} {c : Port}, (N.accept e a).port y = some c →
      (y = (e, N.len e) ∧ c = { a with kind := .receiving }) ∨ N.port y = some c := fun hc =>
    (port_set_cases hc).imp id And.right
  refine ⟨fun y hy => ?_, fun y c hc hck hr hlt => ?_, h.telling.mono ?_ ?_⟩
  · obtain ⟨c, hc, hck⟩ := hy
    rcases hold hc with ⟨-, rfl⟩ | hc
    · cases hck
    · rcases h.buffering y ⟨c, hc, hck⟩ with hev | ⟨d, hd, hdk⟩
      · exact .inl (Multiset.mem_cons_of_mem hev)
      · by_cases heq : y.succ = (e, N.len e)
        · -- The port that buffers for it is told that it is accepted.
          obtain ⟨h1, h2⟩ := Prod.mk.inj heq
          refine .inl (Multiset.mem_cons.2 (.inl (congrArg Event.accepted (Prod.ext h1 ?_))))
          change y.2 + 1 = N.len e at h2
          change y.2 = N.len e - 1
          omega
        · exact .inr ⟨d, (port_accept_of_ne heq).trans hd, hdk⟩
  · rcases hold hc with ⟨-, rfl⟩ | hc
    · cases hck
    · obtain ⟨last, hlast, hev⟩ := h.skipped y c hc hck hr hlt
      exact ⟨last, hlast, Multiset.mem_cons_of_mem hev⟩
  · exact fun e' k j _ hclosing hkj _ => ⟨k, le_rfl, hkj, hclosing.accept hp hk⟩
  · intro e' i j hi hij hj
    have hcleared : ∀ y, (N.accept e a).Cleared y → N.Cleared y := by
      intro y hy c hc
      by_cases hyx : y = (e, N.len e)
      · subst hyx
        cases (hy _ port_accept_self).1
      · exact hy c ((port_accept_of_ne hyx).trans hc)
    have hbegins : N.Begins (e', i) := hi.imp_right fun ⟨y, heq, hle, hy⟩ =>
      ⟨y, heq, hle, hcleared y hy⟩
    have huntold : N.Untold (e', j) :=
      Untold.of_set hp (b := { a with kind := .receiving }) id (fun _ => ⟨rfl, id⟩) hj
    exact .inr ⟨hbegins, j, hij, le_rfl, huntold⟩

/-- The ports of a message arrive, one after the other. -/
theorem acceptAll (h : N.Tended) (w : N.Shape) {es : List End} (hes : es.Nodup)
    (ht : ∀ e ∈ es, N.IsLive e .transit) : (N.acceptAll es).Tended := by
  induction es generalizing N with
  | nil => exact h
  | cons e es ih =>
    obtain ⟨hne, hes⟩ := List.nodup_cons.1 hes
    obtain ⟨a, hp, hk⟩ := ht e List.mem_cons_self
    rw [acceptAll_cons hp]
    refine ih (h.accept w hp hk) (w.accept hp hk) hes fun e' he' => ?_
    obtain ⟨b, hb, hbk⟩ := ht e' (List.mem_cons_of_mem _ he')
    have hee : e' ≠ e := fun h => hne (h ▸ he')
    exact ⟨b, (port_accept_of_fst_ne hee).trans hb, hbk⟩

/-! ## Events -/

/-- A port that was buffering forwards now, and announces itself or passes a closure on. -/
theorem portAccepted (h : N.Tended) (w : N.Shape) (r : N.Ring) {E : Multiset Event}
    (he : N.events = .accepted x ::ₘ E) (hx : N.port x = some a) (hk : a.kind = .buffering) :
    ((N.set x { a with kind := .proxying }).withEvents
      ((if a.remove then .closure x.succ a.last else .proxy x.succ x) ::ₘ E)).Tended := by
  set M := (N.set x { a with kind := .proxying }).withEvents
    ((if a.remove then .closure x.succ a.last else .proxy x.succ x) ::ₘ E) with hM
  obtain ⟨-, harr⟩ := r.eventOk he
  have F : Frame N (N.set x { a with kind := .proxying }) :=
    frame_set hx ⟨by simp, fun _ => rfl, id⟩
  have hlt := w.proxy hx (by simp [hk])
  have hmem : ∀ {ev}, ev ∈ N.events → ev ≠ .accepted x → ev ∈ M.events := fun hev hne =>
    Multiset.mem_cons_of_mem (mem_of_ne he hev hne)
  have hother : ∀ {y : Place}, y ≠ x → M.port y = N.port y := fun hy => port_set_of_ne _ hy
  have hself : M.port x = some { a with kind := .proxying } := port_set_self ..
  have huntold : ∀ y, M.Untold y → N.Untold y := fun _ =>
    Untold.of_set hx (b := { a with kind := .proxying }) id (by simp [hk])
  have hclosure : a.remove = true → M.Closing x.succ := fun hr =>
    .inl ⟨F.arrived _ harr, a.last, by rw [hM, if_pos hr]; exact Multiset.mem_cons_self ..⟩
  refine ⟨fun y hy => ?_, fun y c hc hck hr hlt' => ?_, h.telling.mono ?_ ?_⟩
  · obtain ⟨c, hc, hck⟩ := hy
    rcases port_set_cases hc with ⟨-, rfl⟩ | ⟨hne, hc⟩
    · cases hck
    · rcases h.buffering y ⟨c, hc, hck⟩ with hev | ⟨d, hd, hdk⟩
      · exact .inl (hmem hev fun heq => hne (Event.accepted.inj heq))
      · refine .inr ⟨d, (hother ?_).trans hd, hdk⟩
        intro heq
        rw [heq, hx] at hd
        rw [← Option.some.inj hd, hk] at hdk
        cases hdk
  · rcases port_set_cases hc with ⟨rfl, rfl⟩ | ⟨-, hc⟩
    · -- A port that buffers is not skipped yet.
      exact absurd hlt' (not_lt.2 ((r.proxy y a hx (by simp [hk])).ahead hk))
    · obtain ⟨last, hlast, hev⟩ := h.skipped y c hc hck hr hlt'
      exact ⟨last, hlast, hmem hev (by simp)⟩
  · exact fun e k j _ hclosing hkj _ => ⟨k, le_rfl, hkj, hclosing.portAccepted r he hx⟩
  · rintro e i j (⟨hc, hi⟩ | ⟨y, heq, hle, hy⟩) hij hj
    · exact .inr ⟨.inl ⟨hc, hi⟩, j, hij, le_rfl, huntold _ hj⟩
    · by_cases hyx : y = x
      · subst hyx
        exact .inl ⟨i, le_rfl, hij, heq ▸ hclosure (hy _ hself).2⟩
      · have hcleared : N.Cleared y := fun c hc => hy c ((hother hyx).trans hc)
        exact .inr ⟨.inr ⟨y, heq, hle, hcleared⟩, j, hij, le_rfl, huntold _ hj⟩

/-- A proxy goes away. -/
theorem remove (h : N.Tended) (w : N.Shape) (hx : N.port x = some a) (hk : a.kind = .proxying)
    (hr : a.remove = true) {L : Multiset (Letter α)} {E : Multiset Event}
    (hE : ∀ ev ∈ N.events, ev ∈ E) : (((N.erase x).withLetters L).withEvents E).Tended := by
  have hkeep : ∀ {y : Place} {c : Port}, N.port y = some c → c.kind ≠ .proxying →
      (N.erase x).port y = some c := by
    intro y c hc hck
    refine (port_erase_of_ne ?_).trans hc
    rintro rfl
    exact hck (Option.some.inj (hx.symm.trans hc) ▸ hk)
  refine ⟨fun y hy => ?_, fun y c hc hck hr hlt => ?_, h.telling.mono ?_ ?_⟩
  · obtain ⟨c, hc, hck⟩ := hy
    rcases h.buffering y ⟨c, (port_erase_cases hc).2, hck⟩ with hev | ⟨d, hd, hdk⟩
    · exact .inl (hE _ hev)
    · exact .inr ⟨d, hkeep hd (by simp [hdk]), hdk⟩
  · obtain ⟨last, hlast, hev⟩ := h.skipped y c (port_erase_cases hc).2 hck hr hlt
    exact ⟨last, hlast, hE _ hev⟩
  · exact fun e k j _ hclosing hkj _ => ⟨k, le_rfl, hkj, hclosing.remove w hx hk hE⟩
  · intro e i j hi hij hj
    have hcleared : ∀ y, (N.erase x).Cleared y → N.Cleared y := by
      intro y hy c hc
      by_cases hyx : y = x
      · subst hyx
        obtain rfl := Option.some.inj (hx.symm.trans hc)
        exact ⟨hk, hr⟩
      · exact hy c ((port_erase_of_ne hyx).trans hc)
    have hbegins : N.Begins (e, i) := hi.imp_right fun ⟨y, heq, hle, hy⟩ =>
      ⟨y, heq, hle, hcleared y hy⟩
    exact .inr ⟨hbegins, j, hij, le_rfl, Untold.of_erase hj⟩

/-- A proxy is skipped, and acknowledged. -/
theorem redirect (h : N.Tended) (w : N.Shape) {d y : Place} {E : Multiset Event} {last : UInt64}
    (he : N.events = .proxy d y ::ₘ E) (hp : N.port (e, N.len e) = some a)
    (hlast : last ≠ kInvalidSequenceNum) :
    ((N.redirect e).withEvents (.ack (e.opp, N.toward e) last ::ₘ E)).Tended := by
  have hmem : ∀ {ev}, ev ∈ N.events → (∀ d y, ev ≠ .proxy d y) →
      ev ∈ .ack (e.opp, N.toward e) last ::ₘ E := fun hev hne =>
    Multiset.mem_cons_of_mem (mem_of_ne he hev (hne _ _))
  refine ⟨fun z hz => ?_, fun z c hc hck hr hlt => ?_, h.telling.mono ?_ ?_⟩
  · exact (h.buffering z hz).imp (fun hev => hmem hev (by simp)) id
  · by_cases hz : z.2 < N.toward z.1.opp
    · obtain ⟨last', hlast', hev⟩ := h.skipped z c hc hck hr hz
      exact ⟨last', hlast', hmem hev (by simp)⟩
    · -- Only the proxy that is skipped now was not skipped before.
      replace hlt : z.2 < (N.redirect e).toward z.1.opp := hlt
      by_cases hze : z.1.opp = e
      · rw [hze, toward_redirect_self] at hlt
        rw [hze] at hz
        obtain rfl : z = (e.opp, N.toward e) := Prod.ext (by rw [← hze, End.opp_opp]) (by omega)
        exact ⟨last, hlast, Multiset.mem_cons_self ..⟩
      · rw [toward_redirect_of_ne hze] at hlt
        exact absurd hlt hz
  · exact fun e' k j _ hclosing hkj _ => ⟨k, le_rfl, hkj, hclosing.redirect he⟩
  · rintro e' i j (⟨hc, hi⟩ | ⟨y, heq, hle, hy⟩) hij hj
    · have hne : e'.opp ≠ e := by
        rintro rfl
        rw [w.isClosed _ hc] at hp
        cases hp
      exact .inr ⟨.inl ⟨hc, hi.trans (toward_redirect_of_ne hne)⟩, j, hij, le_rfl, hj⟩
    · exact .inr ⟨.inr ⟨y, heq, ((frame_redirect e).toward_le _).trans hle, hy⟩, j, hij, le_rfl, hj⟩

/-- A proxy that is skipped learns of it. -/
theorem ackAccept (h : N.Tended) {E : Multiset Event} {last : UInt64}
    (he : N.events = .ack x last ::ₘ E) (hx : N.port x = some a) (hk : a.kind = .proxying)
    (hlt : x.2 < N.toward x.1.opp) :
    ((N.set x { a with remove := true, last := last }).withEvents E).Tended := by
  have hmem : ∀ {ev}, ev ∈ N.events → ev ≠ .ack x last → ev ∈ E :=
    fun hev hne => mem_of_ne he hev hne
  have hkeep : ∀ {y : Place} {c : Port}, N.port y = some c → c.kind ≠ .proxying →
      (N.set x { a with remove := true, last := last }).port y = some c :=
    fun hc hck => port_set_of_kind_ne hx hc (hk ▸ hck)
  refine ⟨fun y hy => ?_, fun y c hc hck hr hlt' => ?_, h.telling.mono ?_ ?_⟩
  · obtain ⟨c, hc, hck⟩ := hy
    rcases port_set_cases hc with ⟨-, rfl⟩ | ⟨-, hc⟩
    · cases hk.symm.trans hck
    · rcases h.buffering y ⟨c, hc, hck⟩ with hev | ⟨d, hd, hdk⟩
      · exact .inl (hmem hev (by simp))
      · exact .inr ⟨d, hkeep hd (by simp [hdk]), hdk⟩
  · rcases port_set_cases hc with ⟨-, rfl⟩ | ⟨hne, hc⟩
    · cases hr
    · obtain ⟨last', hlast', hev⟩ := h.skipped y c hc hck hr hlt'
      exact ⟨last', hlast', hmem hev fun heq => hne (Event.ack.inj heq).1⟩
  · exact fun e k j _ hclosing hkj _ => ⟨k, le_rfl, hkj, hclosing.ackAccept he hx hk⟩
  · intro e i j hi hij hj
    replace hj : N.Untold (e, j) :=
      Untold.of_set hx (b := { a with remove := true, last := last }) (by simp) (by simp [hk]) hj
    refine .inr ⟨hi.imp_right fun ⟨y, heq, hle, hy⟩ => ⟨y, heq, hle, fun d hd => ?_⟩, j, hij,
      le_rfl, hj⟩
    -- The proxy is skipped, so that no port is told after it.
    refine hy d ((port_set_of_ne _ ?_).trans hd)
    rintro rfl
    exact absurd hlt (not_lt.2 hle)

/-- The live port of an end is told, and tells the other end. -/
theorem closureReceive (h : N.Tended) (w : N.Shape) {E : Multiset Event} {last : UInt64}
    {ev : Event} (he : N.events = .closure (e, N.len e) last ::ₘ E)
    (hp : N.port (e, N.len e) = some a) (hk : a.kind = .receiving) :
    ((N.set (e, N.len e) { a with peerClosed := true, last := last }).withEvents
      (ev ::ₘ E)).Tended := by
  have hmem : ∀ {ev'}, ev' ∈ N.events → ev' ≠ .closure (e, N.len e) last → ev' ∈ ev ::ₘ E := fun hev hne =>
    Multiset.mem_cons_of_mem (mem_of_ne he hev hne)
  have hkeep : ∀ {y : Place} {c : Port}, N.port y = some c → c.kind ≠ .receiving →
      (N.set (e, N.len e) { a with peerClosed := true, last := last }).port y = some c :=
    fun hc hck => port_set_of_kind_ne hp hc (hk ▸ hck)
  have huntold : ∀ {y}, (N.set (e, N.len e) { a with peerClosed := true, last := last }).Untold y →
      N.Untold y ∧ y ≠ (e, N.len e) := by
    rintro y ⟨c, hc, hcr, hcl⟩
    rcases port_set_cases hc with ⟨-, rfl⟩ | ⟨hne, hc⟩
    · cases hcl (by simp [hk])
    · exact ⟨⟨c, hc, hcr, hcl⟩, hne⟩
  refine ⟨fun y hy => ?_, fun y c hc hck hr hlt => ?_, h.telling.mono ?_ ?_⟩
  · obtain ⟨c, hc, hck⟩ := hy
    rcases port_set_cases hc with ⟨-, rfl⟩ | ⟨-, hc⟩
    · cases hk.symm.trans hck
    · rcases h.buffering y ⟨c, hc, hck⟩ with hev | ⟨d, hd, hdk⟩
      · exact .inl (hmem hev (by simp))
      · exact .inr ⟨d, hkeep hd (by simp [hdk]), hdk⟩
  · rcases port_set_cases hc with ⟨-, rfl⟩ | ⟨-, hc⟩
    · cases hk.symm.trans hck
    · obtain ⟨last', hlast', hev⟩ := h.skipped y c hc hck hr hlt
      exact ⟨last', hlast', hmem hev (by simp)⟩
  · intro e' k j _ hclosing hkj hj
    refine ⟨k, le_rfl, hkj, hclosing.closureReceive he hp hk fun heq => ?_⟩
    -- There is no port after the live one.
    obtain ⟨rfl, rfl⟩ := Prod.mk.inj heq
    obtain ⟨⟨c, hc, -⟩, hne⟩ := huntold hj
    exact hne (Prod.ext rfl (le_antisymm (w.used hc).2 hkj))
  · intro e' i j hi hij hj
    refine .inr ⟨hi.imp_right fun ⟨y, heq, hle, hy⟩ => ⟨y, heq, hle, fun d hd => ?_⟩, j, hij,
      le_rfl, (huntold hj).1⟩
    by_cases hye : y = (e, N.len e)
    · subst hye
      cases hk.symm.trans (hy _ (port_set_self ..)).1
    · exact hy d ((port_set_of_ne _ hye).trans hd)

/-- A proxy is told, and passes it on. -/
theorem closurePass (h : N.Tended) (r : N.Ring) {E : Multiset Event} {last : UInt64}
    (he : N.events = .closure x last ::ₘ E) (hx : N.port x = some a) (hk : a.kind.live = false) :
    ((N.set x { a with peerClosed := true, remove := true, last := last }).withEvents
      (.closure x.succ last ::ₘ E)).Tended := by
  set b : Port := { a with peerClosed := true, remove := true, last := last } with hb
  have hmem : ∀ {ev}, ev ∈ N.events → ev ≠ .closure x last → ev ∈ .closure x.succ last ::ₘ E := fun hev hne =>
    Multiset.mem_cons_of_mem (mem_of_ne he hev hne)
  have hnext : ((N.set x b).withEvents (.closure x.succ last ::ₘ E)).Closing x.succ :=
    .of_closurePass r hx hk
  have hkeep : ∀ {y : Place} {c : Port}, N.port y = some c →
      ∃ d, (N.set x b).port y = some d ∧ d.kind = c.kind ∧ (c.remove = true → d.remove = true) := by
    intro y c hc
    by_cases hyx : y = x
    · subst hyx
      obtain rfl := Option.some.inj (hx.symm.trans hc)
      exact ⟨b, port_set_self .., rfl, fun _ => rfl⟩
    · exact ⟨c, (port_set_of_ne _ hyx).trans hc, rfl, id⟩
  -- The port that passes the closure on is told.
  have huntold : ∀ {y}, (N.set x b).Untold y → N.Untold y ∧ y ≠ x := by
    rintro y ⟨c, hc, hcr, hcl⟩
    rcases port_set_cases hc with ⟨-, rfl⟩ | ⟨hne, hc⟩
    · cases hcr
    · exact ⟨⟨c, hc, hcr, hcl⟩, hne⟩
  refine ⟨fun y hy => ?_, fun y c hc hck hr hlt => ?_, h.telling.mono ?_ ?_⟩
  · obtain ⟨c, hc, hck⟩ := hy
    have hbuf : N.Buffering y := by
      rcases port_set_cases hc with ⟨rfl, rfl⟩ | ⟨-, hc⟩
      · exact ⟨a, hx, hck⟩
      · exact ⟨c, hc, hck⟩
    rcases h.buffering y hbuf with hev | ⟨d, hd, hdk⟩
    · exact .inl (hmem hev (by simp))
    · obtain ⟨d', hd', hdk', -⟩ := hkeep hd
      exact .inr ⟨d', hd', hdk'.trans hdk⟩
  · rcases port_set_cases hc with ⟨-, rfl⟩ | ⟨-, hc⟩
    · cases hr
    · obtain ⟨last', hlast', hev⟩ := h.skipped y c hc hck hr hlt
      exact ⟨last', hlast', hmem hev (by simp)⟩
  · intro e k j _ hclosing hkj hj
    by_cases hkx : (e, k) = x
    · subst hkx
      have hne : k ≠ j := fun hkj => (huntold hj).2 (by rw [hkj])
      exact ⟨k + 1, Nat.le_succ k, lt_of_le_of_ne hkj hne, hnext⟩
    · exact ⟨k, le_rfl, hkj, hclosing.closurePass he hx hkx⟩
  · rintro e i j (⟨hc, hi⟩ | ⟨y, heq, hle, hy⟩) hij hj
    · exact .inr ⟨.inl ⟨hc, hi⟩, j, hij, le_rfl, (huntold hj).1⟩
    · by_cases hyx : y = x
      · subst hyx
        exact .inl ⟨i, le_rfl, hij, heq ▸ hnext⟩
      · have hcleared : N.Cleared y := fun c hc => hy c ((port_set_of_ne _ hyx).trans hc)
        exact .inr ⟨.inr ⟨y, heq, hle, hcleared⟩, j, hij, le_rfl, (huntold hj).1⟩

/-- An event is dropped. A closure that comes to a port that is gone was passed on by it. -/
theorem drop (h : N.Tended) {ev : Event} {E : Multiset Event} (he : N.events = ev ::ₘ E)
    (hne : ∀ x, ev ≠ .accepted x) (hgone : ∀ a, N.port ev.dest = some a → a.kind = .transit) :
    (N.withEvents E).Tended := by
  have hmem : ∀ {ev'}, ev' ∈ N.events → ev' ≠ ev → ev' ∈ E :=
    fun hev hne => mem_of_ne he hev hne
  refine ⟨fun y hy => ?_, fun y c hc hck hr hlt => ?_, ?_⟩
  · exact (h.buffering y hy).imp_left fun hev => hmem hev (hne y).symm
  · obtain ⟨last, hlast, hev⟩ := h.skipped y c hc hck hr hlt
    refine ⟨last, hlast, hmem hev ?_⟩
    rintro rfl
    cases hck.symm.trans (hgone c hc)
  · refine h.telling.mono ?_ fun e i j hi hij hj => .inr ⟨hi, j, hij, le_rfl, hj⟩
    rintro e k j hle (⟨harr, last, hev⟩ | hk) hkj hj
    · by_cases heq : Event.closure (e, k) last = ev
      · subst heq
        have hnone : ∀ a, N.port (e, k) ≠ some a := fun a ha => harr.2 a ha (hgone a ha)
        obtain ⟨k', hlt, hkj', hk'⟩ :=
          h.exists_closing hle (fun a ha => absurd ha (hnone a)) hkj hj
        refine ⟨k', hlt.le, hkj', hk'.withEvents fun last' hev' => hmem hev' fun heq => ?_⟩
        exact hlt.ne' (congrArg Prod.snd (Event.closure.inj heq).1)
      · exact ⟨k, le_rfl, hkj, .inl ⟨harr, last, hmem hev heq⟩⟩
    · exact ⟨k, le_rfl, hkj, .inr hk⟩

/-! ## Pipes -/

/-- An end is closed: the ports that the other end has not skipped are told. -/
theorem close (h : N.Tended) (w : N.Shape) (r : N.Ring) {H : Multiset End}
    (hp : N.port (e, N.len e) = some a) (hk : a.kind = .receiving) : (N.close e a H).Tended := by
  have F := frame_close (N := N) (e := e) (a := a) (H := H)
  -- Only the live port of the end goes.
  have hkeep : ∀ {y : Place} {c : Port}, N.port y = some c → c.kind ≠ .receiving →
      (N.close e a H).port y = some c := by
    intro y c hc hck
    refine (port_close_of_ne ?_).trans hc
    rintro rfl
    exact hck (Option.some.inj (hp.symm.trans hc) ▸ hk)
  refine ⟨fun y hy => ?_, fun y c hc hck hr hlt => ?_, h.telling.mono ?_ ?_⟩
  · obtain ⟨c, hc, hck⟩ := hy
    rcases h.buffering y ⟨c, (port_close_cases hc).2, hck⟩ with hev | ⟨d, hd, hdk⟩
    · exact .inl (Multiset.mem_cons_of_mem hev)
    · exact .inr ⟨d, hkeep hd (by simp [hdk]), hdk⟩
  · obtain ⟨last, hlast, hev⟩ := h.skipped y c (port_close_cases hc).2 hck hr hlt
    exact ⟨last, hlast, Multiset.mem_cons_of_mem hev⟩
  · exact fun e' k j _ hclosing hkj _ => ⟨k, le_rfl, hkj, hclosing.close hp hk⟩
  · rintro e' i j hi hij ⟨c, hc, hcr, hcl⟩
    have hj := (port_close_cases hc).2
    rcases hi with ⟨hcl', hi⟩ | ⟨y, heq, hle, hy⟩
    · by_cases hee : e'.opp = e
      · refine .inl ⟨i, le_rfl, hij, .inl ⟨?_, a.send - 1, ?_⟩⟩
        · change i = N.toward e'.opp at hi
          have harr := r.arrived_toward w e
          rw [← hee, End.opp_opp] at harr
          rw [hi]
          exact F.arrived _ harr
        · change i = N.toward e'.opp at hi
          subst hee
          rw [hi]
          refine Multiset.mem_cons.2 (.inl ?_)
          rw [End.opp_opp]
      · exact .inr ⟨.inl ⟨(closed_close_of_ne hee).symm.trans hcl', hi⟩, j, hij, le_rfl, c, hj, hcr,
          hcl⟩
    · have hne : y ≠ (e, N.len e) := by
        rintro rfl
        obtain ⟨rfl, rfl⟩ := Prod.mk.inj heq
        exact absurd (hij.trans (w.used hj).2) (Nat.not_succ_le_self _)
      have hcleared : N.Cleared y := fun d hd => hy d ((port_close_of_ne hne).trans hd)
      exact .inr ⟨.inr ⟨y, heq, hle, hcleared⟩, j, hij, le_rfl, c, hj, hcr, hcl⟩

/-- The ends of a new pipe are open. -/
theorem create (h : N.Tended) (w : N.Shape) : N.create.Tended := by
  have hkeep : ∀ {y : Place} {c : Port}, N.port y = some c → N.create.port y = some c :=
    fun hc => (port_create_of_pipe_lt (w.pipe_lt hc)).trans hc
  refine ⟨fun y hy => ?_, fun y c hc hck hr hlt => ?_, h.telling.mono ?_ ?_⟩
  · obtain ⟨c, hc, hck⟩ := hy
    rcases port_create_cases hc with ⟨-, -, rfl⟩ | hc
    · cases hck
    · rcases h.buffering y ⟨c, hc, hck⟩ with hev | ⟨d, hd, hdk⟩
      · exact .inl hev
      · exact .inr ⟨d, hkeep hd, hdk⟩
  · rcases port_create_cases hc with ⟨-, -, rfl⟩ | hc
    · cases hck
    · exact h.skipped y c hc hck hr hlt
  · exact fun e k j _ hclosing hkj _ => ⟨k, le_rfl, hkj, hclosing.create w⟩
  · rintro e i j hi hij ⟨c, hc, hcr, hcl⟩
    rcases port_create_cases hc with ⟨hpipe, hj, -⟩ | hc
    · -- Nothing is told to a new pipe.
      obtain ⟨-, -, hclosed⟩ := w.unused e.opp (by rw [End.opp_pipe]; exact hpipe.ge)
      change j = 0 at hj
      rcases hi with ⟨hc', -⟩ | ⟨y, heq, -, -⟩
      · exact absurd (hclosed.symm.trans hc') Bool.false_ne_true
      · have := congrArg Prod.snd heq
        change i = y.2 + 1 at this
        omega
    · have hbegins : N.Begins (e, i) := hi.imp_right fun ⟨y, heq, hle, hy⟩ =>
        ⟨y, heq, hle, fun d hd => hy d (hkeep hd)⟩
      exact .inr ⟨hbegins, j, hij, le_rfl, c, hc, hcr, hcl⟩

/-! ## Steps -/

/-- A step preserves the invariant, if no proxy is acknowledged with the number that asks it
    to announce itself again. -/
theorem step (h : N.Tended) (r : N.Ring) (w : N.Shape) (c : N.Cargo) {t : Label} (hs : Step N t M)
    (hnum : ∀ e a, t = .event (.proxy (e, N.len e) (e.opp, N.toward e)) →
      N.port (e, N.len e) = some a → a.kind = .receiving → a.send - 1 ≠ kInvalidSequenceNum) :
    M.Tended := by
  cases hs with
  | create => exact h.create w
  | @send e a payload es H hp hk _ hH _ _ =>
    have hset : (N.set (e, N.len e) { a with send := a.send + 1 }).Tended :=
      (steady_set hp (b := { a with send := a.send + 1 }) rfl).tended h
    have hshape : (N.set (e, N.len e) { a with send := a.send + 1 }).Shape :=
      w.set hp rfl (by simp [hk]) (fun _ => (w.live hp (by simp [hk])).2) fun hs => w.stored hp hs
    have hcset : (N.set (e, N.len e) { a with send := a.send + 1 }).Cargo :=
      c.set w hp fun _ => by rfl
    have hes : es.Nodup := by
      have hnd := c.nodup
      rw [hH, add_assoc] at hnd
      exact Multiset.coe_nodup.1 (Multiset.nodup_add.1 hnd).1
    have hall := hset.transferAll hshape hes fun e' he' =>
      hcset.held e' (hH ▸ Multiset.mem_add.2 (.inl he') : e' ∈ N.held)
    exact ⟨hall.buffering, hall.skipped, hall.telling⟩
  | @get e a l L hp _ _ _ _ _ _ =>
    have hset : (N.set (e, N.len e) { a with next := a.next + 1 }).Tended :=
      (steady_set hp (b := { a with next := a.next + 1 }) rfl).tended h
    exact ⟨hset.buffering, hset.skipped, hset.telling⟩
  | @arrive a l L hL hq _ _ _ =>
    have hmem : l ∈ N.letters := hL ▸ Multiset.mem_cons_self l L
    have hall := h.acceptAll w (c.ports_nodup hmem) (c.transit hmem hq)
    exact ⟨hall.buffering, hall.skipped, hall.telling⟩
  | @reject l L hL hq _ =>
    have hmem : l ∈ N.letters := hL ▸ Multiset.mem_cons_self l L
    have hall := h.acceptAll w (c.ports_nodup hmem) (c.transit hmem hq)
    exact ⟨hall.buffering, hall.skipped, hall.telling⟩
  | @forward x a l L hx hk hL hq _ _ =>
    have hmem : l ∈ N.letters := hL ▸ Multiset.mem_cons_self l L
    set b : Port := { a with
      next := a.next + 1
      send := if l.number = 0 then a.send + 1 else a.send } with hb
    have hset : (N.set x b).Tended := (steady_set hx (b := b) rfl).tended h
    have hshape : (N.set x b).Shape :=
      w.set hx rfl (by simp [b, hk]) (by simp [b, hk]) fun hs => w.stored hx hs
    have hcset : (N.set x b).Cargo := c.set w hx fun _ => by rfl
    have hall := hset.transferAll hshape (c.ports_nodup hmem) (hcset.receiving hmem hq)
    exact ⟨hall.buffering, hall.skipped, hall.telling⟩
  | portAccepted he hx hk => exact h.portAccepted w r he hx hk
  | @remove x a hx hk hr _ =>
    refine h.remove w hx hk hr fun ev hev => ?_
    split_ifs
    · exact Multiset.mem_cons_of_mem hev
    · exact hev
  | @redirect e a E he hp hk _ => exact h.redirect w he hp (hnum e a rfl hp hk)
  | store he hx _ => exact (steady_store he hx).tended h
  | proxyPass he _ _ _ => exact (steady_withEvents he (.inl ⟨_, _, rfl⟩)).tended h
  | ackRetry he _ _ => exact (steady_withEvents he (.inr ⟨_, rfl⟩)).tended h
  | @ackAccept x a last E he hlast hx hk => exact h.ackAccept he hx hk ((r.eventOk he).2 hlast)
  | closureReceive he hp hk => exact h.closureReceive w he hp hk
  | closurePass he hx hk => exact h.closurePass r he hx hk
  | drop he hne hgone => exact h.drop he hne hgone
  | close hp hk _ => exact h.close w r hp hk

end Tended

end MojoEdk.Ports.Net
