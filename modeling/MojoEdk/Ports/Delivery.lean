import MojoEdk.Ports.Refine.Reachable

/-!
# Delivery

In every state that an honest run reaches, as long as the sequence numbers do not
wrap, the messages sent to an open end are those that were returned there, those in
the queues of its ports and those in flight to them, each of them at exactly one of
these spots; and those returned are the first ones sent, in order. An end that is
told that its peer is closed was returned all of them.
-/

namespace MojoEdk.Ports

variable {α : Type*} {η : Names} {s : System α} {N M : Net α} {x : Place} {a : Net.Port} {e : End}
  {lim : Place → ℕ}

/-- Where a message may be: returned, in the queue of a port, or in flight. -/
inductive MessageSpot
  | returned (i : ℕ)
  | queued (n : NodeName) (p : PortName) (i : ℕ)
  | flight (i : ℕ)

namespace System

/-- The message to an end that is at a spot, if there is one. -/
def messageAt (s : System α) (e : End) : MessageSpot → Option (UInt64 × α)
  | .returned i => (s.returned e)[i]?
  | .queued n p i =>
    match (s.node n).getPort p with
    | some port =>
      if s.endOf p = e then port.messageQueue.heap[i]?.map fun m => (m.sequenceNum, m.payload)
      else none
    | none => none
  | .flight i =>
    match s.inFlight[i]? with
    | some (_, .user m) => if s.endOf m.portName = e then some (m.sequenceNum, m.payload) else none
    | _ => none

/-- The end and the number of an event that is a message. -/
def numberOf (s : System α) (x : NodeName × Event α) : List (End × UInt64) :=
  match x.2 with
  | .user m => [(s.endOf m.portName, m.sequenceNum)]
  | _ => []

end System

namespace Net.Sequence

theorem sent_nodup (q : N.Sequence lim) (e : End) : (N.sent e).Nodup := by
  refine List.nodup_iff_getElem?_ne_getElem?.2 fun i j hij hj heq => ?_
  have hi := q.sent e i _ (List.getElem?_eq_getElem (hij.trans hj))
  rw [List.getElem?_eq_getElem (hij.trans hj), List.getElem?_eq_getElem hj] at heq
  have hj' := q.sent e j _ (List.getElem?_eq_getElem hj)
  rw [Option.some.inj heq] at hi
  omega

/-- Messages to an end differ in their number. -/
theorem letter_unique (q : N.Sequence lim) {l l' : Net.Letter α} (hl : l ∈ N.letters)
    (hl' : l' ∈ N.letters) (hplace : l.place.1 = l'.place.1) (hnumber : l.number = l'.number) :
    l = l' :=
  Multiset.inj_on_of_nodup_map q.nodup l hl l' hl' (Prod.ext hplace hnumber)

end Net.Sequence

namespace Simulates

theorem messageAt_queued (h : Simulates η s N) (hN : N.Sound) {n : NodeName} {p : PortName} {i : ℕ}
    {v : UInt64 × α} (hv : s.messageAt e (.queued n p i) = some v) :
    ∃ l ∈ N.letters, l.queued = true ∧ l.place.1 = e ∧ (l.number, l.payload) = v ∧
      η.home l.place = n ∧ η.name l.place = p := by
  rw [System.messageAt] at hv
  split at hv
  next port hport =>
    split_ifs at hv with hend
    obtain ⟨m, hm, rfl⟩ := Option.map_eq_some_iff.1 hv
    obtain ⟨x, a, ha, rfl, rfl, hmatch⟩ := h.exists_place hport
    obtain ⟨l, hl, hq, rfl, hle⟩ := exists_queued hmatch (List.mem_of_getElem? hm)
    refine ⟨l, hl, hq, (h.refines.endOf _ (hN.shape.used ha)).symm.trans hend, ?_, rfl, rfl⟩
    obtain ⟨h1, h2⟩ := Prod.mk.inj hle
    exact Prod.ext h1 (congrArg Prod.fst h2)
  next => cases hv

theorem messageAt_flight (h : Simulates η s N) (hN : N.Sound) {i : ℕ} {v : UInt64 × α}
    (hv : s.messageAt e (.flight i) = some v) :
    ∃ l ∈ N.letters, l.queued = false ∧ l.place.1 = e ∧ (l.number, l.payload) = v ∧
      ∃ y, s.inFlight[i]? = some y ∧ s.numberOf y = [(e, v.1)] := by
  rw [System.messageAt] at hv
  split at hv
  next n m hi =>
    split_ifs at hv with hend
    obtain ⟨l, hl, hq, rfl, rfl⟩ := h.exists_letter (List.mem_of_getElem? hi)
    obtain rfl := Option.some.inj hv
    refine ⟨l, hl, hq, (h.refines.endOf _ (hN.shape.letters l hl)).symm.trans hend, rfl, _, hi, ?_⟩
    rw [System.numberOf, ← hend]
  next => cases hv

/-- The numbers of the messages in flight to an end differ. -/
theorem nodup_numberOf (h : Simulates η s N) (hN : N.Sound) (q : N.Sequence lim) :
    (s.inFlight.flatMap s.numberOf).Nodup := by
  have hbind : ((s.inFlight.flatMap s.numberOf : List _) : Multiset _) =
      (N.letters.filter fun l => ¬l.queued = true).map fun l => (l.place.1, l.number) := by
    rw [← Multiset.coe_bind, h.refines.flight, Names.flight, Multiset.add_bind, Multiset.bind_map,
      Multiset.bind_map]
    have hzero : ∀ ev : Net.Event, (s.numberOf (η.event ev) : Multiset (End × UInt64)) = 0 := by
      intro ev
      cases ev <;> rfl
    simp only [hzero, Multiset.bind_zero, zero_add]
    rw [← Multiset.bind_singleton]
    refine Multiset.bind_congr fun l hl => ?_
    change ({(s.endOf (η.name l.place), l.number)} : Multiset _) = _
    rw [h.refines.endOf _ (hN.shape.letters l (Multiset.mem_filter.1 hl).1)]
  rw [← Multiset.coe_nodup, hbind]
  exact Multiset.nodup_of_le (Multiset.map_le_map (Multiset.filter_le ..)) q.nodup

/-- The numbers of the messages of a queue differ. -/
theorem nodup_heap (q : N.Sequence lim) {port : Port α} (hm : PortMatch η N x a port) :
    (port.messageQueue.heap.map (·.sequenceNum)).Nodup := by
  have hmap : ((port.messageQueue.heap.map (·.sequenceNum) : List _) : Multiset UInt64) =
      (N.queue x).map (·.number) := by
    have := congrArg (Multiset.map fun u : UInt64 × α × List PortName => u.1) hm.queue
    rw [Multiset.map_map, Multiset.map_coe, List.map_map] at this
    exact this
  rw [← Multiset.coe_nodup, hmap]
  have hnd : ((N.queue x).map fun l => (l.place.1, l.number)).Nodup :=
    Multiset.nodup_of_le (Multiset.map_le_map (Multiset.filter_le ..)) q.nodup
  refine Multiset.Nodup.map_on (fun l hl l' hl' heq => ?_) hnd.of_map
  obtain ⟨hl, -, hlx⟩ := Multiset.mem_filter.1 hl
  obtain ⟨hl', -, hlx'⟩ := Multiset.mem_filter.1 hl'
  exact q.letter_unique hl hl' (by rw [hlx, hlx']) heq

/-- A message sent to an open end is returned, or on its way. -/
theorem exists_messageAt (h : Simulates η s N) (hN : N.Sound) (q : N.Sequence lim)
    (he : e.pipe < N.pipes) (ho : N.closed e = false) {v : UInt64 × α} (hv : v ∈ s.sent e.opp) :
    ∃ σ, s.messageAt e σ = some v := by
  obtain ⟨a, ha⟩ := hN.shape.isOpen e he ho
  obtain ⟨k, hk⟩ := List.mem_iff_getElem?.1 hv
  rw [h.refines.sent] at hk
  have hnumber := q.sent e.opp k v hk
  have hnext := q.next e a ha
  by_cases hret : k < (N.returned e).length
  · refine ⟨.returned k, ?_⟩
    obtain ⟨t, ht⟩ := q.returned e
    rw [← ht, List.getElem?_append_left hret] at hk
    rw [System.messageAt, h.refines.returned]
    exact hk
  · -- The live port of the end still expects the number.
    have hlt : k < N.total e := (List.getElem?_eq_some_iff.1 hk).1
    have hholds : N.Holds e (N.len e) v.1.toNat := by
      rw [(q.port _ a ha).window, Net.bound_live hN.shape]
      omega
    obtain ⟨l, hl, hle, -, hlv⟩ := hholds
    have hletter := q.letter l hl
    rw [hle, hlv, hnumber, Nat.add_sub_cancel, hk] at hletter
    obtain rfl := Option.some.inj hletter
    have hend := h.refines.endOf _ (hN.shape.letters l hl)
    cases hq : l.queued with
    | true =>
      obtain ⟨b, hb, hbk⟩ := hN.shape.queued l hl hq
      obtain ⟨port, hport, hm⟩ := h.getPort hN.shape hb hbk
      have hmem : η.entry N l ∈ (port.messageQueue.heap.map Message.entry : Multiset _) := by
        rw [hm.queue]
        exact Multiset.mem_map_of_mem _ (Multiset.mem_filter.2 ⟨hl, hq, rfl⟩)
      obtain ⟨m, hmh, hme⟩ := List.mem_map.1 hmem
      obtain ⟨i, hi⟩ := List.mem_iff_getElem?.1 hmh
      obtain ⟨h1, h2⟩ := Prod.mk.inj hme
      refine ⟨.queued (η.home l.place) (η.name l.place) i, ?_⟩
      rw [System.messageAt, hport]
      simp only [hend, hle, if_true, hi, Option.map_some]
      rw [h1, show m.payload = l.payload from congrArg Prod.fst h2]
    | false =>
      obtain ⟨L, hL⟩ := Multiset.exists_cons_of_mem hl
      have hmem : (η.home l.place, Event.user (η.message N l)) ∈ s.inFlight := by
        rw [h.mem_inFlight_iff, Names.flight_take hL hq]
        exact Multiset.mem_cons_self ..
      obtain ⟨i, hi⟩ := List.mem_iff_getElem?.1 hmem
      refine ⟨.flight i, ?_⟩
      rw [System.messageAt, hi]
      exact if_pos (hend.trans hle)

/-- What is at a spot was sent. -/
theorem sent_of_messageAt (h : Simulates η s N) (hN : N.Sound) (q : N.Sequence lim)
    {σ : MessageSpot} {v : UInt64 × α} (hσ : s.messageAt e σ = some v) : v ∈ s.sent e.opp := by
  have hletter : ∀ l ∈ N.letters, l.place.1 = e → (l.number, l.payload) = v → v ∈ N.sent e.opp := by
    rintro l hl rfl rfl
    exact List.mem_of_getElem? (q.letter l hl)
  rw [h.refines.sent]
  cases σ with
  | returned i =>
    rw [System.messageAt, h.refines.returned] at hσ
    exact (q.returned e).subset (List.mem_of_getElem? hσ)
  | queued n p i =>
    obtain ⟨l, hl, -, hle, hlv, -⟩ := h.messageAt_queued hN hσ
    exact hletter l hl hle hlv
  | flight i =>
    obtain ⟨l, hl, -, hle, hlv, -⟩ := h.messageAt_flight hN hσ
    exact hletter l hl hle hlv

theorem number_returned (h : Simulates η s N) (q : N.Sequence lim) {i : ℕ} {v : UInt64 × α}
    (hv : s.messageAt e (.returned i) = some v) : v.1.toNat = i + 1 ∧ i < (N.returned e).length := by
  rw [System.messageAt, h.refines.returned] at hv
  obtain ⟨t, ht⟩ := q.returned e
  have hi := (List.getElem?_eq_some_iff.1 hv).1
  refine ⟨q.sent e.opp i v ?_, hi⟩
  rw [← ht, List.getElem?_append_left hi, hv]

/-- The index of a message in a queue. -/
theorem index_queued {n : NodeName} {p : PortName} {i : ℕ} {v : UInt64 × α}
    (hv : s.messageAt e (.queued n p i) = some v) :
    ∃ port, (s.node n).getPort p = some port ∧
      (port.messageQueue.heap.map (·.sequenceNum))[i]? = some v.1 := by
  rw [System.messageAt] at hv
  split at hv
  next port hport =>
    split_ifs at hv with hend
    obtain ⟨m, hm, rfl⟩ := Option.map_eq_some_iff.1 hv
    exact ⟨port, hport, by rw [List.getElem?_map, hm]; rfl⟩
  next => cases hv

/-- A message is at one spot only. -/
theorem messageAt_unique (h : Simulates η s N) (hN : N.Sound) (q : N.Sequence lim)
    (he : e.pipe < N.pipes) (ho : N.closed e = false) {σ τ : MessageSpot} {v : UInt64 × α}
    (hσ : s.messageAt e σ = some v) (hτ : s.messageAt e τ = some v) : σ = τ := by
  obtain ⟨a, ha⟩ := hN.shape.isOpen e he ho
  -- A message on its way has a number that is still expected.
  have hexpected : ∀ {i l}, s.messageAt e (.returned i) = some v → l ∈ N.letters →
      l.place.1 = e → (l.number, l.payload) = v → False := by
    intro i l hi hl hle hlv
    obtain ⟨hv, hlt⟩ := h.number_returned q hi
    have hused := (hN.shape.letters l hl).2
    rw [hle] at hused
    have hholds : N.Holds e (N.len e) v.1.toNat := ⟨l, hl, hle, hused, by rw [← hlv]⟩
    have := ((q.port _ a ha).window _).1 hholds
    have := q.next e a ha
    omega
  have hsame : ∀ {l l'}, l ∈ N.letters → l' ∈ N.letters → l.place.1 = e → l'.place.1 = e →
      (l.number, l.payload) = v → (l'.number, l'.payload) = v → l = l' := by
    intro l l' hl hl' hle hle' hlv hlv'
    exact q.letter_unique hl hl' (hle.trans hle'.symm) (congrArg Prod.fst (hlv.trans hlv'.symm))
  cases σ with
  | returned i =>
    cases τ with
    | returned j =>
      have hi := (h.number_returned q hσ).1
      have hj := (h.number_returned q hτ).1
      obtain rfl : i = j := by omega
      rfl
    | queued n p j =>
      obtain ⟨l, hl, -, hle, hlv, -⟩ := h.messageAt_queued hN hτ
      exact absurd (hexpected hσ hl hle hlv) id
    | flight j =>
      obtain ⟨l, hl, -, hle, hlv, -⟩ := h.messageAt_flight hN hτ
      exact absurd (hexpected hσ hl hle hlv) id
  | queued n p i =>
    obtain ⟨l, hl, hlq, hle, hlv, hn, hp⟩ := h.messageAt_queued hN hσ
    cases τ with
    | returned j => exact absurd (hexpected hτ hl hle hlv) id
    | queued n' p' j =>
      obtain ⟨l', hl', -, hle', hlv', hn', hp'⟩ := h.messageAt_queued hN hτ
      obtain rfl := hsame hl hl' hle hle' hlv hlv'
      obtain rfl : n = n' := hn.symm.trans hn'
      obtain rfl : p = p' := hp.symm.trans hp'
      obtain ⟨port, hport, hi⟩ := index_queued hσ
      obtain ⟨port', hport', hj⟩ := index_queued hτ
      obtain rfl : port = port' := Option.some.inj (hport.symm.trans hport')
      obtain ⟨x, b, hb, -, -, hm⟩ := h.exists_place hport
      have hlt := (List.getElem?_eq_some_iff.1 hi).1
      obtain rfl : i = j := (List.getElem?_inj hlt (nodup_heap q hm)).1 (hi.trans hj.symm)
      rfl
    | flight j =>
      obtain ⟨l', hl', hlq', hle', hlv', -⟩ := h.messageAt_flight hN hτ
      obtain rfl := hsame hl hl' hle hle' hlv hlv'
      rw [hlq] at hlq'
      cases hlq'
  | flight i =>
    obtain ⟨l, hl, hlq, hle, hlv, y, hy, hyn⟩ := h.messageAt_flight hN hσ
    cases τ with
    | returned j => exact absurd (hexpected hτ hl hle hlv) id
    | queued n p j =>
      obtain ⟨l', hl', hlq', hle', hlv', -⟩ := h.messageAt_queued hN hτ
      obtain rfl := hsame hl hl' hle hle' hlv hlv'
      rw [hlq] at hlq'
      cases hlq'
    | flight j =>
      obtain ⟨-, -, -, -, -, z, hz, hzn⟩ := h.messageAt_flight hN hτ
      have hj : (s.numberOf y)[0]? = some (e, v.1) := by rw [hyn]; rfl
      have hj' : (s.numberOf z)[0]? = some (e, v.1) := by rw [hzn]; rfl
      obtain ⟨rfl, -⟩ := List.index_unique_of_nodup_flatMap (h.nodup_numberOf hN q) hy hz hj hj'
      rfl

end Simulates

/-- `GetMessageIf` reports a closed peer on a receiving port that expects nothing. -/
theorem Node.of_getMessageIf_peerClosed {ν : Node α} {p : PortName}
    {selector : Option (Message α → Bool)}
    (h : (ν.getMessageIf p selector).2.2 = .errorPortPeerClosed) :
    ∃ port, ν.getPort p = some port ∧ port.state = .receiving ∧
      port.canAcceptMoreMessages = false := by
  rw [Node.getMessageIf] at h
  cases hport : ν.getPort p with
  | none =>
    rw [hport] at h
    cases h
  | some port =>
    simp only [hport] at h
    split_ifs at h with hstate haccept
    · exact ⟨port, rfl, not_not.1 hstate, by simpa using haccept⟩
    · split at h <;> cases h

/-! ## Results -/

namespace System

theorem Reachable.sequence (h : Reachable Honest s) (hsmall : ∀ e, (s.sent e).length < 2 ^ 64 - 1) :
    ∃ η N lim, Simulates η s N ∧ N.Sound ∧ N.Sequence lim := by
  obtain ⟨⟨η, N, hS, hN, -⟩, -⟩ := h.simulates (fun _ _ h => h) (fun _ => True) trivial
    fun _ _ _ _ _ => trivial
  obtain ⟨lim, q⟩ := hS.sequence hN hsmall
  exact ⟨η, N, lim, hS, hN, q⟩

/-- In an honest run, the messages sent to an open end are distinct, each of them is
    at exactly one spot, returned, queued or in flight, with no others there, and
    those returned are the first ones sent. -/
theorem Reachable.delivery (h : Reachable Honest s) (hsmall : ∀ e, (s.sent e).length < 2 ^ 64 - 1)
    (he : e.pipe < s.pipes) (ho : s.closed e = false) :
    (s.sent e.opp).Nodup ∧ (∀ v ∈ s.sent e.opp, ∃! σ, s.messageAt e σ = some v) ∧
      (∀ σ v, s.messageAt e σ = some v → v ∈ s.sent e.opp) ∧ s.returned e <+: s.sent e.opp := by
  obtain ⟨η, N, lim, hS, hN, q⟩ := h.sequence hsmall
  rw [hS.refines.pipes] at he
  rw [hS.refines.closed] at ho
  refine ⟨?_, fun v hv => ?_, fun σ v hσ => hS.sent_of_messageAt hN q hσ, ?_⟩
  · rw [hS.refines.sent]
    exact q.sent_nodup e.opp
  · obtain ⟨σ, hσ⟩ := hS.exists_messageAt hN q he ho hv
    exact ⟨σ, hσ, fun τ hτ => hS.messageAt_unique hN q he ho hτ hσ⟩
  · rw [hS.refines.sent, hS.refines.returned]
    exact q.returned e

/-- Two messages sent, the second one in flight, the first one returned. -/
theorem Reachable.delivery_sent : ∃ s : System ℕ, (Reachable Honest s ∧
    (∀ e, (s.sent e).length < 2 ^ 64 - 1) ∧ 0 < s.pipes ∧ s.closed ⟨0, true⟩ = false) ∧
    s.sent ⟨0, false⟩ = [(1, 7), (2, 8)] ∧ s.returned ⟨0, true⟩ = [(1, 7)] ∧
    ∀ v ∈ s.sent ⟨0, false⟩, ∃! σ, s.messageAt ⟨0, true⟩ σ = some v := by
  obtain ⟨s, hs, hlen, hp, ho, hsent, hret⟩ := exists_reachable (G := Honest) (α := ℕ)
    (P := fun s => 0 < s.pipes ∧ s.closed ⟨0, true⟩ = false ∧
      s.sent ⟨0, false⟩ = [(1, 7), (2, 8)] ∧ s.returned ⟨0, true⟩ = [(1, 7)])
    [.connect 1 2, .sendMessage 1 1 7 [], .sendMessage 1 1 8 [], .acceptMessage 0,
      .getMessageIf 2 2 none] (by decide)
  have hsmall : ∀ e, (s.sent e).length < 2 ^ 64 - 1 := fun e => (hlen e).trans_lt (by decide)
  exact ⟨s, ⟨hs, hsmall, hp, ho⟩, hsent, hret, (hs.delivery hsmall hp ho).2.1⟩

/-- In an honest run, an end that is told that the other one is closed was returned
    all that was sent there. -/
theorem Reachable.peerClosed (h : Reachable Honest s) (hsmall : ∀ e, (s.sent e).length < 2 ^ 64 - 1)
    {n : NodeName} {p : PortName} {selector : Option (Message α → Bool)}
    (hget : ((s.start n).getMessageIf p selector).2.2 = .errorPortPeerClosed) :
    s.closed (s.endOf p).opp = true ∧ s.returned (s.endOf p) = s.sent (s.endOf p).opp := by
  obtain ⟨η, N, lim, hS, hN, q⟩ := h.sequence hsmall
  obtain ⟨port, hport, hstate, haccept⟩ := Node.of_getMessageIf_peerClosed hget
  obtain ⟨x, a, ha, -, rfl, hm⟩ := hS.exists_place hport
  have hk : a.kind = .receiving := Kind.state_eq_receiving.1 (hm.state.symm.trans hstate)
  obtain ⟨hlen, -, hremove⟩ := hN.shape.live ha (by simp [hk])
  obtain ⟨e, k⟩ := x
  simp only at hlen
  subst hlen
  have hpos := (q.port _ a ha).pos
  obtain ⟨hclosed, hlast⟩ := Net.Port.last_of_not_canAccept (hm.canAccept ▸ haccept) hpos
  have hpeer : a.peerClosed = true := by simpa [hremove] using hclosed
  rw [hS.refines.endOf _ (hN.shape.used ha), hS.refines.closed, hS.refines.sent, hS.refines.returned]
  refine ⟨(hN.ring.live _ a ha (by simp [hk])).peerClosed hpeer, ?_⟩
  -- The last number is the number of messages sent, and the one before the next.
  refine (q.returned e).eq_of_length ?_
  have hbound := (q.port _ a ha).last (.inl hpeer)
  rw [Net.bound_live hN.shape, Net.total] at hbound
  have hnext := q.next e a ha
  omega

/-- A message is sent and read, and the peer closed. -/
theorem Reachable.peerClosed_read : ∃ s : System ℕ, (Reachable Honest s ∧
    (∀ e, (s.sent e).length < 2 ^ 64 - 1) ∧
    ((s.start 2).getMessageIf 2 none).2.2 = .errorPortPeerClosed) ∧
    s.returned (s.endOf 2) = s.sent (s.endOf 2).opp := by
  obtain ⟨s, hs, hlen, hget⟩ := exists_reachable (G := Honest) (α := ℕ)
    (P := fun s => ((s.start 2).getMessageIf 2 none).2.2 = .errorPortPeerClosed)
    [.connect 1 2, .sendMessage 1 1 7 [], .closePort 1 1, .acceptMessage 1, .acceptMessage 0,
      .getMessageIf 2 2 none] (by decide)
  have hsmall : ∀ e, (s.sent e).length < 2 ^ 64 - 1 := fun e => (hlen e).trans_lt (by decide)
  exact ⟨s, ⟨hs, hsmall, hget⟩, (hs.peerClosed hsmall hget).2⟩

end System

end MojoEdk.Ports
