import Mathlib.Algebra.BigOperators.Group.Finset.Sigma
import Mathlib.Algebra.Order.BigOperators.Group.Finset
import Mathlib.Data.Prod.Lex
import MojoEdk.Ports.Net.Announce
import MojoEdk.Ports.Net.Plan

/-!
# Deliveries come to an end

What nodes do with the events they are given gets less (`Net.effort`), if the lengths of the
chains have a bound (`Net.Planned`) and proxies announce themselves once (`Net.Heard`):

* A message gets nearer to the end of the chain that it is sent along, whose length is taken to
  be that of the plan.
* When no message moves, no port is new, so that ports go away, start to forward, or are
  skipped.
* When that does not happen either, an announcement or a closure gets nearer to the port that
  it ends at, and a proxy that is to announce itself again does it.
-/

namespace MojoEdk.Ports.Net

variable {α : Type*} {N M : Net α} {x d : Place} {a b : Port} {e : End} {l : Letter α}
  {L : Multiset (Letter α)} {E : Multiset Event} {ev ev' : Event} {reach : End → ℕ}

/-! ## Messages -/

/-- How often a message is still to be forwarded and delivered. -/
def Letter.remaining (reach : End → ℕ) (l : Letter α) : ℕ :=
  2 * (reach l.place.1 - l.place.2) + if l.queued then 0 else 1

/-- How often messages are still to be forwarded and delivered. -/
def travel (N : Net α) (reach : End → ℕ) : ℕ := (N.letters.map (Letter.remaining reach)).sum

/-- How far the messages have to go is how far one has to, and the others. -/
theorem travel_cons (hL : N.letters = l ::ₘ L) :
    N.travel reach = l.remaining reach + (L.map (Letter.remaining reach)).sum := by
  rw [travel, hL, Multiset.map_cons, Multiset.sum_cons]

/-- A message that comes nearer is less to do. -/
theorem travel_lt {l' : Letter α} (hL : N.letters = l ::ₘ L) (hM : M.letters = l' ::ₘ L)
    (hlt : l'.remaining reach < l.remaining reach) : M.travel reach < N.travel reach := by
  rw [travel_cons hL, travel_cons hM]
  exact Nat.add_lt_add_right hlt _

/-- Fewer messages are no more to do. -/
theorem travel_le (hle : M.letters ≤ N.letters) : M.travel reach ≤ N.travel reach := by
  obtain ⟨L, hL⟩ := Multiset.le_iff_exists_add.1 hle
  rw [travel, travel, hL, Multiset.map_add, Multiset.sum_add]
  exact Nat.le_add_right _ _

/-! ## Ports -/

/-- The ends of the pipes. -/
def ends (N : Net α) : Finset End :=
  (Finset.range N.pipes ×ˢ Finset.univ).image fun p => ⟨p.1, p.2⟩

theorem mem_ends : e ∈ N.ends ↔ e.pipe < N.pipes := by
  simp only [ends, Finset.mem_image, Finset.mem_product, Finset.mem_range, Finset.mem_univ,
    and_true, Prod.exists]
  constructor
  · rintro ⟨i, side, hi, rfl⟩
    exact hi
  · exact fun he => ⟨e.pipe, e.side, he, rfl⟩

/-- The places of a chain where there is a port. -/
def chain (N : Net α) (e : End) : Finset ℕ :=
  {i ∈ Finset.range (N.len e + 1) | (N.port (e, i)).isSome}

theorem mem_chain {i : ℕ} : i ∈ N.chain e ↔ i ≤ N.len e ∧ N.port (e, i) ≠ none := by
  rw [chain, Finset.mem_filter, Finset.mem_range, Nat.lt_succ_iff, Option.isSome_iff_ne_none]

/-- No port comes to a chain. -/
theorem chain_subset (hlen : M.len = N.len) (hport : ∀ y, N.port y = none → M.port y = none)
    (e : End) : M.chain e ⊆ N.chain e := by
  intro i hi
  rw [mem_chain] at hi ⊢
  exact ⟨hlen ▸ hi.1, fun hn => hi.2 (hport _ hn)⟩

/-- The ports there are. -/
def ports (N : Net α) : ℕ := ∑ e ∈ N.ends, (N.chain e).card

/-- Where no port is added, there are no more. -/
theorem ports_le (hpipes : M.pipes = N.pipes) (hlen : M.len = N.len)
    (hport : ∀ y, N.port y = none → M.port y = none) : M.ports ≤ N.ports := by
  rw [ports, ports, ends, ends, hpipes]
  exact Finset.sum_le_sum fun e _ => Finset.card_le_card (chain_subset hlen hport e)

/-- Where a port is gone, there are fewer. -/
theorem ports_lt (hpipes : M.pipes = N.pipes) (hlen : M.len = N.len)
    (hport : ∀ y, N.port y = none → M.port y = none) (hu : N.Used x) (hx : N.port x ≠ none)
    (hgone : M.port x = none) : M.ports < N.ports := by
  rw [ports, ports, ends, ends, hpipes]
  refine Finset.sum_lt_sum (fun e _ => Finset.card_le_card (chain_subset hlen hport e))
    ⟨x.1, mem_ends.2 hu.1, Finset.card_lt_card ?_⟩
  refine (Finset.ssubset_iff_of_subset (chain_subset hlen hport x.1)).2 ⟨x.2, ?_, ?_⟩
  · exact mem_chain.2 ⟨hu.2, hx⟩
  · exact fun hi => (mem_chain.1 hi).2 hgone

/-- The proxies that are still to be skipped. -/
def unskipped (N : Net α) : ℕ := ∑ e ∈ N.ends, (N.len e.opp - N.toward e)

/-- An event tells a port that the one after it was accepted. -/
def Event.accepts : Event → Bool
  | .accepted _ => true
  | _ => false

/-- The ports that are still to learn that the one after them was accepted. -/
def waiting (N : Net α) : ℕ := N.events.countP (·.accepts)

/-- What is left to do about the ports. -/
def upkeep (N : Net α) : ℕ := N.ports + N.unskipped + N.waiting

/-- A port that changes is there still. -/
theorem ports_set (hx : N.port x = some a) : (N.set x b).ports ≤ N.ports := by
  refine ports_le rfl rfl fun y hy => ?_
  rw [port_set_of_ne]
  · exact hy
  · rintro rfl
    cases hy.symm.trans hx

theorem waiting_cons (he : N.events = ev ::ₘ E) :
    N.waiting = E.countP (·.accepts) + if ev.accepts then 1 else 0 := by
  rw [waiting, he, Multiset.countP_cons]

/-- An event that tells of no arrival is sent. -/
theorem waiting_emit (he : M.events = ev ::ₘ N.events) (hev : ev.accepts = false) :
    M.waiting = N.waiting := by
  rw [waiting_cons he, hev]
  rfl

/-- An event is taken, and at most one sent that tells of no arrival. -/
theorem waiting_le (he : N.events = ev ::ₘ E)
    (hE : M.events = E ∨ ∃ ev', M.events = ev' ::ₘ E ∧ ev'.accepts = false) :
    M.waiting ≤ N.waiting := by
  rw [waiting_cons he]
  rcases hE with hE | ⟨ev', hE, hev⟩
  · rw [waiting, hE]
    exact Nat.le_add_right _ _
  · rw [waiting_cons hE, hev]
    exact Nat.le_add_right _ _

/-- An event that tells of an arrival is taken. -/
theorem waiting_lt (he : N.events = .accepted x ::ₘ E) (hE : M.events = ev ::ₘ E)
    (hev : ev.accepts = false) : M.waiting < N.waiting := by
  rw [waiting_cons he, waiting_cons hE, hev]
  exact Nat.lt_succ_self _

/-- A proxy is skipped. -/
theorem unskipped_redirect (he : e.pipe < N.pipes) (hlt : N.toward e < N.len e.opp) :
    (N.redirect e).unskipped < N.unskipped := by
  refine Finset.sum_lt_sum (fun e' _ => ?_) ⟨e, mem_ends.2 he, ?_⟩
  · exact Nat.sub_le_sub_left ((frame_redirect e).toward_le e') _
  · rw [toward_redirect_self]
    change N.len e.opp - (N.toward e + 1) < N.len e.opp - N.toward e
    omega

/-! ## Events -/

/-- How many ports the announcement of a proxy passes, from a place on round the ring. -/
def hops (N : Net α) (d x : Place) : ℕ :=
  if d.1 = x.1 then
    if d.2 < x.2 then x.2 - d.2
    else (N.len x.1 - d.2) + 1 + (N.len x.1.opp - N.toward x.1) + 1 + (x.2 - N.toward x.1.opp)
  else (N.len x.1.opp - d.2) + 1 + (x.2 - N.toward x.1.opp)

/-- How often an event is still to be passed on. -/
def weight (N : Net α) : Event → ℕ
  | .accepted _ => 1
  | .proxy d x => N.hops d x + 1
  | .ack x _ => N.hops x.succ x + 2
  | .closure d _ =>
    if N.closed d.1 then N.len d.1 - d.2 + 1
    else N.len d.1 - d.2 + 1 + (N.len d.1.opp - N.toward d.1) + 1

/-- How often events are still to be passed on. -/
def chatter (N : Net α) : ℕ := (N.events.map N.weight).sum

/-- How often an event is passed on depends on the chains, and on which ends are closed. -/
theorem weight_congr (hlen : M.len = N.len) (htoward : M.toward = N.toward)
    (hclosed : M.closed = N.closed) : M.weight = N.weight := by
  funext ev
  cases ev <;> simp only [weight, hops, hlen, htoward, hclosed]

/-- An event is to be taken at least. -/
theorem weight_pos (ev : Event) : 0 < N.weight ev := by
  cases ev with
  | closure d last =>
    rw [weight]
    split_ifs <;> exact Nat.succ_pos _
  | _ => exact Nat.succ_pos _

/-- The announcement of a proxy is passed on, and comes nearer. -/
theorem hops_peer (hd : N.Used d) (hx : N.Passed x) (hpipe : d.1.pipe = x.1.pipe)
    (htoward : N.toward x.1.opp ≤ x.2) (hne : N.peer d ≠ x) : N.hops (N.peer d) x < N.hops d x := by
  obtain ⟨f, i⟩ := d
  obtain ⟨e, j⟩ := x
  obtain ⟨-, hi⟩ := hd
  obtain ⟨-, hj⟩ := hx
  simp only at hi hj hpipe htoward
  have hside : f = e ∨ f = e.opp := by
    obtain ⟨p, b⟩ := f
    obtain ⟨q, c⟩ := e
    obtain rfl : p = q := hpipe
    cases b <;> cases c <;> simp [End.opp]
  rw [peer] at hne ⊢
  split_ifs at hne ⊢ with hlast
  · -- From the live port of an end to the chain of the other end.
    simp only at hlast hne
    rcases hside with rfl | rfl
    · simp only [hops, if_neg f.opp_ne, if_true, if_neg (show ¬i < j by omega)]
      omega
    · simp only [hops, End.opp_opp, if_true, if_neg e.opp_ne] at hne ⊢
      have : N.toward e.opp ≠ j := fun h => hne (by rw [h])
      rw [if_pos (by omega)]
      omega
  · simp only [Place.succ] at hlast hne ⊢
    rcases hside with rfl | rfl
    · simp only [hops, if_true]
      have : i + 1 ≠ j := fun h => hne (by rw [h])
      split_ifs <;> omega
    · simp only [hops, if_neg e.opp_ne]
      omega

/-! ## Steps -/

/-- What is left to do: first about messages, then about ports, then about events. -/
def effort (N : Net α) (reach : End → ℕ) : ℕ ×ₗ ℕ ×ₗ ℕ :=
  toLex (N.travel reach, toLex (N.upkeep, N.chatter))

/-- Messages come first. -/
theorem effort_lt_of_travel (h : M.travel reach < N.travel reach) :
    M.effort reach < N.effort reach := Prod.Lex.toLex_lt_toLex.2 (.inl h)

/-- Ports come after messages. -/
theorem effort_lt_of_upkeep (ht : M.travel reach ≤ N.travel reach) (h : M.upkeep < N.upkeep) :
    M.effort reach < N.effort reach := by
  rcases ht.lt_or_eq with ht | ht
  · exact effort_lt_of_travel ht
  · exact Prod.Lex.toLex_lt_toLex.2 (.inr ⟨ht, Prod.Lex.toLex_lt_toLex.2 (.inl h)⟩)

/-- Events come last. -/
theorem effort_lt_of_chatter (ht : M.travel reach ≤ N.travel reach) (hu : M.upkeep ≤ N.upkeep)
    (h : M.chatter < N.chatter) : M.effort reach < N.effort reach := by
  rcases ht.lt_or_eq with ht | ht
  · exact effort_lt_of_travel ht
  rcases hu.lt_or_eq with hu | hu
  · exact effort_lt_of_upkeep ht.le hu
  · exact Prod.Lex.toLex_lt_toLex.2 (.inr ⟨ht, Prod.Lex.toLex_lt_toLex.2 (.inr ⟨hu, h⟩)⟩)

/-- An event is passed on, or dropped, and nothing else changes. -/
theorem chatter_lt (hweight : M.weight = N.weight) (he : N.events = ev ::ₘ E)
    (hE : M.events = E ∨ ∃ ev', M.events = ev' ::ₘ E ∧ N.weight ev' < N.weight ev) :
    M.chatter < N.chatter := by
  rw [chatter, chatter, hweight, he, Multiset.map_cons, Multiset.sum_cons]
  rcases hE with hE | ⟨ev', hE, hlt⟩
  · rw [hE]
    exact Nat.lt_add_of_pos_left (weight_pos ev)
  · rw [hE, Multiset.map_cons, Multiset.sum_cons]
    exact Nat.add_lt_add_right hlt _

/-- The answer to a closure is less to be passed on than the closure: the end that it comes from
    is closed, and the one that it comes to is not. -/
theorem weight_answer (r : N.Ring) (w : N.Shape) {last last' : UInt64}
    (he : N.events = .closure (e, N.len e) last ::ₘ E) (hp : N.port (e, N.len e) = some a) :
    N.weight (.closure (e.opp, N.toward e) last') < N.weight (.closure (e, N.len e) last) := by
  have hopen : ¬N.closed e = true := fun hc => by
    cases hp.symm.trans (w.isClosed e hc)
  have hclosed : N.closed e.opp = true := by
    rcases r.eventOk he with hc | ⟨b, hb, hbc⟩
    · exact hc
    · have hc := (r.live _ b hb (w.kind_live hb)).peerClosed hbc
      rw [End.opp_opp] at hc
      exact absurd hc hopen
  rw [weight, weight, if_pos hclosed, if_neg hopen]
  simp only
  omega

/-- A closure that a proxy passes on comes nearer to the end of the chain. -/
theorem weight_closure_succ {last : UInt64} (hlt : x.2 < N.len x.1) :
    N.weight (.closure x.succ last) < N.weight (.closure x last) := by
  have hsucc : N.len x.1 - (x.2 + 1) < N.len x.1 - x.2 := Nat.sub_succ_lt_self _ _ hlt
  change ite (N.closed x.1 = true) (N.len x.1 - (x.2 + 1) + 1)
    (N.len x.1 - (x.2 + 1) + 1 + (N.len x.1.opp - N.toward x.1) + 1) < N.weight (.closure x last)
  rw [weight]
  split_ifs <;> omega

/-- A port is there no more. -/
theorem ports_erase_lt (w : N.Shape) (hx : N.port x = some a) : (N.erase x).ports < N.ports := by
  refine ports_lt rfl rfl (fun y hy => ?_) (w.used hx) (by simp [hx]) (port_erase_self x)
  by_contra hne
  obtain ⟨b, hb⟩ := Option.ne_none_iff_exists'.1 hne
  cases hy.symm.trans (port_erase_cases hb).2

theorem ports_close_lt (w : N.Shape) (hp : N.port (e, N.len e) = some a) (H : Multiset End) :
    (N.close e a H).ports < N.ports := by
  refine ports_lt rfl rfl (fun y hy => ?_) (w.used hp) (by simp [hp]) (Function.update_self ..)
  by_contra hne
  obtain ⟨b, hb⟩ := Option.ne_none_iff_exists'.1 hne
  cases hy.symm.trans (port_close_cases hb).2

/-- What a node does is less to do afterwards. -/
theorem effort_step (p : N.Planned reach) (h : N.Heard) (r : N.Ring) (w : N.Shape) {t : Label}
    (hs : Step N t M) (ht : t ≠ .embedder) : M.effort reach < N.effort reach := by
  cases hs with
  | create | send | get => exact absurd rfl ht
  -- A message that is queued or forwarded has less of its way left.
  | @arrive a l L hL hq _ _ _ =>
    refine effort_lt_of_travel (travel_lt hL rfl ?_)
    simp [Letter.remaining, hq]
  | @reject l L hL hq _ =>
    refine effort_lt_of_travel ?_
    rw [travel_cons hL]
    exact Nat.lt_add_of_pos_left (by simp [Letter.remaining, hq])
  | @forward x a l L hx hk hL hq hplace _ =>
    refine effort_lt_of_travel (travel_lt hL rfl ?_)
    have hlt : x.2 < reach x.1 := (w.proxy hx (by simp [hk])).trans_le (p.len_le x.1)
    simp only [Letter.remaining, hq, hplace, Place.succ, if_true, Bool.false_eq_true, if_false]
    omega
  -- A port that was accepted, is skipped or goes leaves less upkeep, whatever is announced for it.
  | @portAccepted x a E he hx hk =>
    have hports := ports_set (b := { a with kind := .proxying }) hx
    have haccepts : (if a.remove then .closure x.succ a.last else .proxy x.succ x :
        Event).accepts = false := by
      split_ifs <;> rfl
    have hwaiting := waiting_lt (M := Net.withEvents (N.set x { a with kind := .proxying })
      ((if a.remove then .closure x.succ a.last else .proxy x.succ x) ::ₘ E)) he rfl haccepts
    exact effort_lt_of_upkeep le_rfl
      (Nat.add_lt_add_of_le_of_lt (Nat.add_le_add_right hports N.unskipped) hwaiting)
  | @remove x a hx hk hr hc =>
    refine effort_lt_of_upkeep (travel_le (Multiset.filter_le ..))
      (Nat.add_lt_add_of_lt_of_le (Nat.add_lt_add_right (ports_erase_lt w hx) N.unskipped) ?_)
    by_cases hs : a.stored
    · exact (waiting_emit (by rw [if_pos hs]; rfl) rfl).le
    · rw [if_neg hs]
      exact le_rfl
  | @redirect e a E he hp hk hlt =>
    have hskip := unskipped_redirect (w.pipe_lt (x := (e, N.len e)) hp) hlt
    have hwaiting := waiting_le (M := (N.redirect e).withEvents (.ack (e.opp, N.toward e) (a.send - 1) ::ₘ E))
      he (.inr ⟨_, rfl, rfl⟩)
    exact effort_lt_of_upkeep le_rfl
      (Nat.add_lt_add_of_lt_of_le (Nat.add_lt_add_left hskip N.ports) hwaiting)
  -- Otherwise the events get fewer, or one of them gets nearer to where it is heard.
  | @store x a E he hx hl =>
    refine effort_lt_of_chatter le_rfl ?_ (chatter_lt (weight_congr rfl rfl rfl) he (.inl rfl))
    exact Nat.add_le_add (Nat.add_le_add_right (ports_set hx) _) (waiting_le he (.inl rfl))
  | @proxyPass d x a E he hd hk hne =>
    have hmem : Event.proxy d x ∈ N.events := he ▸ Multiset.mem_cons_self _ E
    have hpos : 0 < N.announcements x := announcements_pos hmem (by exact rfl)
    obtain ⟨hpipe, hd, hx⟩ := w.placed he
    refine effort_lt_of_chatter le_rfl ?_ (chatter_lt (weight_congr rfl rfl rfl) he
      (.inr ⟨_, rfl, Nat.succ_lt_succ (hops_peer hd hx hpipe (h.pending x hpos).1 hne)⟩))
    exact Nat.add_le_add_left (waiting_le he (.inr ⟨_, rfl, rfl⟩)) _
  | @ackRetry x a E he hx hk =>
    refine effort_lt_of_chatter le_rfl ?_ (chatter_lt (weight_congr rfl rfl rfl) he
      (.inr ⟨_, rfl, Nat.lt_succ_self _⟩))
    exact Nat.add_le_add_left (waiting_le he (.inr ⟨_, rfl, rfl⟩)) _
  | @ackAccept x a last E he hlast hx hk =>
    refine effort_lt_of_chatter le_rfl ?_ (chatter_lt (weight_congr rfl rfl rfl) he (.inl rfl))
    exact Nat.add_le_add (Nat.add_le_add_right (ports_set hx) _) (waiting_le he (.inl rfl))
  | @closureReceive e a last E he hp hk =>
    refine effort_lt_of_chatter le_rfl ?_ (chatter_lt (weight_congr rfl rfl rfl) he
      (.inr ⟨_, rfl, weight_answer r w he hp⟩))
    exact Nat.add_le_add (Nat.add_le_add_right (ports_set hp) _) (waiting_le he (.inr ⟨_, rfl, rfl⟩))
  | @closurePass x a last E he hx hl =>
    refine effort_lt_of_chatter le_rfl ?_ (chatter_lt (weight_congr rfl rfl rfl) he
      (.inr ⟨_, rfl, weight_closure_succ (w.proxy hx hl)⟩))
    exact Nat.add_le_add (Nat.add_le_add_right (ports_set hx) _) (waiting_le he (.inr ⟨_, rfl, rfl⟩))
  | @drop ev E he hne hgone =>
    refine effort_lt_of_chatter le_rfl ?_ (chatter_lt (weight_congr rfl rfl rfl) he (.inl rfl))
    exact Nat.add_le_add_left (waiting_le he (.inl rfl)) _
  | @close e a H hp hk hH =>
    exact effort_lt_of_upkeep (travel_le (Multiset.filter_le ..))
      (Nat.add_lt_add_of_lt_of_le (Nat.add_lt_add_right (ports_close_lt w hp H) N.unskipped)
        (waiting_emit rfl rfl).le)

end MojoEdk.Ports.Net
