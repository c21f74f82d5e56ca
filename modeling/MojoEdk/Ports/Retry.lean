import Mathlib.Data.UInt
import MojoEdk.Ports.Disconnection
import MojoEdk.Ports.Net.Announce

/-!
# Acknowledged proxies

A receiving port that skips a proxy acknowledges it with the number of the last message
that it sent, and a proxy that is acknowledged with `kInvalidSequenceNum` announces itself
again. That number is one that a port can have sent: the proxy takes the acknowledgement
for the last one unless it is so (`System.Reachable.acknowledged`).

It may be so: the number of the messages that are sent over a port is not bounded
(`System.reachable_counting`).
-/

namespace MojoEdk.Ports

variable {α : Type*}

/-! ## The acknowledgement at the proxy -/

namespace Node

variable {s : Node α} {p : PortName} {port : Port α} {lastSequenceNum : UInt64}

/-- The node takes an acknowledgement for the last one: the port is to be removed after the
    last message, and does not announce itself again. -/
def TakesAsFinal (s : Node α) (p : PortName) (lastSequenceNum : UInt64) : Prop :=
  (∀ port, (s.onObserveProxyAck p lastSequenceNum).1.getPort p = some port →
    port.removeProxyOnLastMessage = true ∧ port.lastSequenceNumToReceive = lastSequenceNum) ∧
  ∀ n q data,
    (n, .observeProxy q data) ∉ (s.onObserveProxyAck p lastSequenceNum).1.delegate.forwarded

/-- A proxy that is removed, or is not, keeps what it knows, and forwards nothing but what it
    has stored for this. -/
theorem maybeRemoveProxy_cases (hport : s.getPort p = some port)
    (hstate : port.state = .proxying) :
    (∀ port', (s.maybeRemoveProxy p).getPort p = some port' → port' = port) ∧
    ∀ x ∈ (s.maybeRemoveProxy p).delegate.forwarded,
      x ∈ s.delegate.forwarded ∨ port.sendOnProxyRemoval = some x := by
  simp only [maybeRemoveProxy, hport, if_pos hstate]
  split_ifs with hremove
  · have hnone : (s.erasePort p).getPort p = none := by rw [getPort_erasePort, if_pos rfl]
    cases hstored : port.sendOnProxyRemoval with
    | none =>
      refine ⟨fun port' hport' => ?_, fun x hx => .inl hx⟩
      rw [hnone] at hport'
      cases hport'
    | some y =>
      refine ⟨fun port' hport' => ?_, fun x hx => ?_⟩
      · have hnone' : ((s.erasePort p).forwardMessage y.1 y.2).getPort p = none := hnone
        rw [hnone'] at hport'
        cases hport'
      · refine (List.mem_append.1 hx).imp_right fun hx => ?_
        exact congrArg some (List.mem_singleton.1 hx).symm
  · exact ⟨fun port' hport' => Option.some.inj (hport'.symm.trans hport), fun x hx => .inl hx⟩

theorem takesAsFinal_iff (hport : s.getPort p = some port) (hstate : port.state = .proxying)
    (hforwarded : s.delegate.forwarded = [])
    (hstored : ∀ n q data, port.sendOnProxyRemoval ≠ some (n, .observeProxy q data)) :
    s.TakesAsFinal p lastSequenceNum ↔ lastSequenceNum ≠ kInvalidSequenceNum := by
  constructor
  · -- A proxy that is asked to retry forwards its announcement.
    rintro ⟨-, hforward⟩ rfl
    simp only [onObserveProxyAck, hport, hstate, ne_eq, not_true_eq_false, if_false, if_true]
      at hforward
    exact hforward _ _ _ (List.mem_append_right _ (List.mem_singleton_self _))
  · intro hne
    have hack : (s.onObserveProxyAck p lastSequenceNum).1 = (s.setPort p { port with
        removeProxyOnLastMessage := true
        lastSequenceNumToReceive := lastSequenceNum }).maybeRemoveProxy p := by
      simp only [onObserveProxyAck, hport, hstate, ne_eq, not_true_eq_false, if_false, if_neg hne]
    obtain ⟨hsame, hforward⟩ := maybeRemoveProxy_cases
      (s := s.setPort p { port with
        removeProxyOnLastMessage := true
        lastSequenceNumToReceive := lastSequenceNum }) (p := p)
      ((getPort_setPort ..).trans (if_pos rfl)) hstate
    rw [TakesAsFinal, hack]
    refine ⟨fun port' hport' => ?_, fun n q data hmem => ?_⟩
    · rw [hsame port' hport']
      exact ⟨rfl, rfl⟩
    · rcases hforward _ hmem with hmem | hmem
      · change _ ∈ s.delegate.forwarded at hmem
        rw [hforwarded] at hmem
        cases hmem
      · exact hstored n q data hmem

/-- The last message is the one before the next, of 2 ^ 32 - 1 messages with no other number. -/
theorem sub_one_ne_kInvalidSequenceNum {n : UInt64} :
    n - 1 ≠ kInvalidSequenceNum ↔ n ≠ 2 ^ 32 := by
  rw [ne_eq, UInt64.sub_eq_iff_eq_add]
  exact Iff.rfl

/-- A receiving port that is told of a proxy that it points to skips it, and acknowledges it. -/
theorem onObserveProxy_of_peer {event : ObserveProxyEventData}
    (hport : s.getPort p = some port) (hstate : port.state = .receiving)
    (hnode : port.peerNodeName = event.proxyNodeName)
    (hpeer : port.peerPortName = event.proxyPortName) :
    (event.proxyNodeName, .observeProxyAck event.proxyPortName (port.nextSequenceNumToSend - 1)) ∈
      (s.onObserveProxy p event).1.delegate.forwarded := by
  simp only [onObserveProxy, hport, hnode, hpeer, hstate, and_self, if_true]
  exact List.mem_append_right _ (List.mem_singleton_self _)

end Node

/-! ## Proxies that announced themselves -/

namespace Net

variable {N M : Net α} {x : Place}

theorem Announced.set (h : N.Announced x) {y : Place} {a b : Port} (hy : N.port y = some a)
    (hb : a.kind = .proxying → b.kind = .proxying) : (N.set y b).Announced x := by
  refine ⟨h.1, fun d hd => ?_⟩
  rcases port_set_cases hd with ⟨rfl, rfl⟩ | ⟨-, hd⟩
  · exact hb (h.2 a hy)
  · exact h.2 d hd

theorem Announced.erase (h : N.Announced x) (y : Place) : (N.erase y).Announced x :=
  ⟨h.1, fun d hd => h.2 d (port_erase_cases hd).2⟩

theorem Announced.transferAll (h : N.Announced x) (es : List End) :
    (N.transferAll es).Announced x := by
  induction es generalizing N with
  | nil => exact h
  | cons e es ih =>
    rw [Net.transferAll]
    split
    next a ha =>
      refine ih ⟨h.1.trans_le (len_le_transfer _), fun b hb => ?_⟩
      rcases port_transfer_cases hb with ⟨rfl, -⟩ | ⟨rfl, -⟩ | ⟨-, -, hb⟩
      · exact absurd h.1 (Nat.not_lt.2 (Nat.le_succ _))
      · exact absurd h.1 (Nat.lt_irrefl _)
      · exact h.2 b hb
    next => exact ih h

theorem Announced.acceptAll (h : N.Announced x) (es : List End) : (N.acceptAll es).Announced x := by
  induction es generalizing N with
  | nil => exact h
  | cons e es ih =>
    rw [Net.acceptAll]
    split
    next a ha =>
      refine ih ⟨h.1, fun b hb => ?_⟩
      rcases port_set_cases hb with ⟨rfl, -⟩ | ⟨-, hb⟩
      · exact absurd h.1 (Nat.lt_irrefl _)
      · exact h.2 b hb
    next => exact ih h

/-- A proxy that announced itself stays a proxy, until it is gone. -/
theorem Announced.step (h : N.Announced x) (w : N.Shape) {t : Label} (hs : Step N t M) :
    M.Announced x := by
  cases hs with
  | create =>
    refine ⟨h.1, fun b hb => ?_⟩
    rcases port_create_cases hb with ⟨hpipe, -, -⟩ | hb
    · exact absurd h.1 ((w.unused x.1 hpipe.ge).1 ▸ Nat.not_lt_zero _)
    · exact h.2 b hb
  | @send e a payload es H hp _ _ _ _ _ =>
    exact (h.set hp (b := { a with send := a.send + 1 }) id).transferAll es
  | @get e a l L hp _ _ _ _ _ _ => exact h.set hp (b := { a with next := a.next + 1 }) id
  | @arrive a l L _ _ _ _ _ => exact h.acceptAll l.ports
  | @reject l L _ _ _ => exact h.acceptAll l.ports
  | @forward x a l L hx _ _ _ _ _ =>
    exact (h.set hx (b := { a with
      next := a.next + 1
      send := if l.number = 0 then a.send + 1 else a.send }) id).transferAll l.ports
  | @portAccepted x a E _ hx _ => exact h.set hx (b := { a with kind := .proxying }) fun _ => rfl
  | @remove y a _ _ _ _ => exact h.erase y
  | @store x a E _ hx _ => exact h.set hx (b := { a with stored := true }) id
  | @ackAccept x a last E _ _ hx _ =>
    exact h.set hx (b := { a with remove := true, last := last }) id
  | @closureReceive e a last E _ hx _ =>
    exact h.set hx (b := { a with peerClosed := true, last := last }) id
  | @closurePass x a last E _ hx _ =>
    exact h.set hx (b := { a with peerClosed := true, remove := true, last := last }) id
  | @close e a H _ _ _ => exact h.erase (e, N.len e)
  | redirect _ _ _ _ => exact h
  | proxyPass _ _ _ _ => exact h
  | ackRetry _ _ _ => exact h
  | drop _ _ _ => exact h

theorem Announced.lose (h : N.Announced x) (S : Place → Prop) [DecidablePred S] :
    (N.lose S).Announced x := by
  refine ⟨h.1, fun b hb => ?_⟩
  rcases port_lose_cases hb with hb | ⟨a, ha, -, rfl⟩
  · exact h.2 b hb
  · exact h.2 a ha

/-- The proxy that an event announces, or acknowledges. -/
def Event.proxy? : Event → Option Place
  | .proxy _ x | .ack x _ => some x
  | .accepted _ | .closure _ _ => none

theorem proxy?_of_mem_acceptAll {ev : Event} (es : List End) (h : ev ∈ (N.acceptAll es).events) :
    ev ∈ N.events ∨ ev.proxy? = none := by
  induction es generalizing N with
  | nil => exact .inl h
  | cons e es ih =>
    rw [Net.acceptAll] at h
    split at h
    next a ha =>
      refine (ih h).elim (fun h => ?_) .inr
      rcases Multiset.mem_cons.1 h with rfl | h
      · exact .inr rfl
      · exact .inl h
    next => exact ih h

/-- Only proxies that announced themselves are announced, or acknowledged. -/
structure Announces (N : Net α) : Prop where
  events : ∀ ev ∈ N.events, ∀ x ∈ ev.proxy?, N.Announced x
  stored : ∀ x a, N.port x = some a → a.stored → N.Announced x.succ

namespace Announces

theorem init : (init : Net α).Announces :=
  ⟨fun _ h => absurd h (Multiset.notMem_zero _), fun _ _ h => by cases h⟩

theorem mono (h : N.Announces) (hann : ∀ x, N.Announced x → M.Announced x)
    (hstored : Stored N M)
    (hevents : ∀ ev ∈ M.events, ev ∈ N.events ∨ ∀ x ∈ ev.proxy?, M.Announced x) :
    M.Announces where
  events ev hev x hx := by
    rcases hevents ev hev with hold | hnew
    · exact hann x (h.events ev hold x hx)
    · exact hnew x hx
  stored x b hb hs := by
    obtain ⟨a, ha, hs⟩ := hstored x b hb hs
    exact hann _ (h.stored x a ha hs)

/-- An event is taken, and what is announced then is not announced for the first time. -/
theorem replace (h : N.Announces) {ev ev' : Event} {E : Multiset Event} (he : N.events = ev ::ₘ E)
    (hann : ∀ x, N.Announced x → M.Announced x) (hstored : Stored N M)
    (hM : M.events = ev' ::ₘ E) (hev' : ∀ x ∈ ev'.proxy?, M.Announced x) : M.Announces := by
  refine h.mono hann hstored fun ev'' hev'' => ?_
  rw [hM] at hev''
  rcases Multiset.mem_cons.1 hev'' with rfl | hev''
  · exact .inr hev'
  · exact .inl (he ▸ Multiset.mem_cons_of_mem hev'')

/-- An event is taken, and the same proxy is announced, or acknowledged. -/
theorem pass (h : N.Announces) {ev ev' : Event} {E : Multiset Event} (he : N.events = ev ::ₘ E)
    (hann : ∀ x, N.Announced x → M.Announced x) (hstored : Stored N M)
    (hM : M.events = ev' ::ₘ E) (hsame : ev'.proxy? = ev.proxy?) : M.Announces :=
  h.replace he hann hstored hM fun x hx =>
    hann x (h.events ev (he ▸ Multiset.mem_cons_self ev E) x (hsame ▸ hx))

/-- Events are taken, and nothing is announced. -/
theorem of_subset (h : N.Announces) (hann : ∀ x, N.Announced x → M.Announced x)
    (hstored : Stored N M) (hM : ∀ ev ∈ M.events, ev ∈ N.events ∨ ev.proxy? = none) :
    M.Announces := by
  refine h.mono hann hstored fun ev hev => (hM ev hev).imp_right fun hnone x hx => ?_
  rw [hnone] at hx
  cases hx

theorem step (h : N.Announces) (w : N.Shape) {t : Label} (hs : Step N t M) : M.Announces := by
  have hann : ∀ x, N.Announced x → M.Announced x := fun x hx => hx.step w hs
  cases hs with
  | create =>
    refine h.of_subset hann (fun x b hb hs => ?_) fun ev hev => .inl hev
    rcases port_create_cases hb with ⟨-, -, rfl⟩ | hb
    · cases hs
    · exact ⟨b, hb, hs⟩
  | @send e a payload es H hp _ _ _ _ _ =>
    have hset : Stored N (N.set (e, N.len e) { a with send := a.send + 1 }) := stored_set hp id
    refine h.of_subset hann (hset.trans (stored_transferAll es)) fun ev hev => .inl ?_
    simpa [noteSent, withHeld, withLetters, Net.set] using hev
  | @get e a l L hp _ _ _ _ _ _ =>
    exact h.of_subset hann (stored_set hp (b := { a with next := a.next + 1 }) id)
      fun ev hev => .inl hev
  | @arrive a l L _ _ _ _ _ =>
    exact h.of_subset hann (stored_acceptAll l.ports) fun ev => proxy?_of_mem_acceptAll l.ports
  | @reject l L _ _ _ =>
    exact h.of_subset hann (stored_acceptAll l.ports) fun ev => proxy?_of_mem_acceptAll l.ports
  | @forward x a l L hx _ _ _ _ _ =>
    have hset : Stored N (N.set x { a with
      next := a.next + 1
      send := if l.number = 0 then a.send + 1 else a.send }) := stored_set hx id
    refine h.of_subset hann (hset.trans (stored_transferAll l.ports)) fun ev hev => .inl ?_
    simpa [withLetters, Net.set] using hev
  | @portAccepted x a E he hx hk =>
    refine h.replace he hann (stored_set hx (b := { a with kind := .proxying }) id) rfl ?_
    intro y hy
    split_ifs at hy
    · cases hy
    · -- It is a proxy now.
      obtain rfl := Option.mem_some_iff.1 hy
      refine ⟨w.proxy hx (by simp [hk]), fun b hb => ?_⟩
      rcases port_set_cases hb with ⟨-, rfl⟩ | ⟨hne, -⟩
      · rfl
      · exact absurd rfl hne
  | @remove y a hy _ _ _ =>
    refine h.mono hann (stored_erase y) fun ev hev => ?_
    replace hev : ev ∈
      if a.stored then .ack y.succ kInvalidSequenceNum ::ₘ N.events else N.events := hev
    split_ifs at hev with hs
    · rcases Multiset.mem_cons.1 hev with rfl | hev
      · refine .inr fun z hz => ?_
        obtain rfl := Option.mem_some_iff.1 hz
        exact hann _ (h.stored y a hy hs)
      · exact .inl hev
    · exact .inl hev
  | @store x a E he hx _ =>
    have hproxy : N.Announced x.succ := h.events _ (he ▸ Multiset.mem_cons_self ..) _ rfl
    refine ⟨fun ev hev y hy => ?_, fun y b hb hs => ?_⟩
    · exact hann y (h.events ev (he ▸ Multiset.mem_cons_of_mem hev) y hy)
    · rcases port_set_cases hb with ⟨rfl, -⟩ | ⟨-, hb⟩
      · exact hann _ hproxy
      · exact hann _ (h.stored y b hb hs)
  | @ackAccept x a last E he _ hx _ =>
    exact h.of_subset hann (stored_set hx (b := { a with remove := true, last := last }) id)
      fun ev hev => .inl (he ▸ Multiset.mem_cons_of_mem hev)
  | @closureReceive e a last E he hx _ =>
    exact h.replace he hann (stored_set hx (b := { a with peerClosed := true, last := last }) id)
      rfl fun _ h => by cases h
  | @closurePass x a last E he hx _ =>
    exact h.replace he hann (stored_set hx (b := { a with
      peerClosed := true, remove := true, last := last }) id) rfl fun _ h => by cases h
  | @close e a H hp _ _ =>
    refine h.of_subset hann (stored_erase (e, N.len e)) fun ev hev => ?_
    rcases Multiset.mem_cons.1 hev with rfl | hev
    · exact .inr rfl
    · exact .inl hev
  | redirect he _ _ _ | proxyPass he _ _ _ | ackRetry he _ _ =>
    exact h.pass he hann (stored_of_eq rfl) rfl rfl
  | drop he _ _ =>
    exact h.of_subset hann (stored_of_eq rfl) fun ev hev =>
      .inl (he ▸ Multiset.mem_cons_of_mem hev)

theorem loss (h : N.Announces) (hl : Loss N M) : M.Announces := by
  cases hl with
  | lose S => exact h.of_subset (fun x hx => hx.lose S) (stored_lose S) fun ev hev => .inl hev
  | loseEvent he =>
    exact h.of_subset (fun x hx => hx) (stored_of_eq rfl) fun ev hev =>
      .inl (he ▸ Multiset.mem_cons_of_mem hev)

end Announces

end Net

namespace System

variable {s : System α}

theorem Reachable.announces (h : Reachable Lossy s) :
    ∃ η N, Simulates η s N ∧ N.Shape ∧ N.Cargo ∧ N.Announces :=
  h.simulates_lossy _ .init (fun w _ hI hs => hI.step w hs) Net.Announces.loss

/-- A port that is acknowledged is a proxy, if it is still there, and has stored nothing but an
    acknowledgement. -/
theorem Reachable.proxying_of_ack (h : Reachable Lossy s) {n : NodeName} {p : PortName}
    {last : UInt64} (hack : (n, .observeProxyAck p last) ∈ s.inFlight) {port : Port α}
    (hport : (s.node n).getPort p = some port) : port.state = .proxying ∧
      ∀ n' q data, port.sendOnProxyRemoval ≠ some (n', .observeProxy q data) := by
  obtain ⟨η, N, hS, w, -, hN⟩ := h.announces
  obtain ⟨ev, hev, hevent⟩ := hS.exists_event hack nofun
  cases ev with
  | accepted x | proxy d x | closure d last' => cases (Prod.mk.inj hevent).2
  | ack x last' =>
    obtain ⟨hhome, hname⟩ := Prod.mk.inj hevent
    obtain ⟨y, a, ha, hhome', hname', hm⟩ := hS.exists_place hport
    have hx : N.Used x := (w.events _ hev : N.Passed x).used
    obtain rfl : y = x := hS.refines.inj y x (w.used ha) hx
      (hname'.trans (Event.observeProxyAck.inj hname).1.symm)
    have hk : a.kind = .proxying := (hN.events _ hev y rfl).2 a ha
    refine ⟨by rw [hm.state, hk]; rfl, fun n' q data hstored => ?_⟩
    rw [hm.stored] at hstored
    split_ifs at hstored
    cases (Prod.mk.inj (Option.some.inj hstored)).2

/-- A receiving port acknowledges the proxy that it skips. -/
theorem mem_inFlight_of_observeProxy {i : ℕ} {n : NodeName} {q : PortName}
    {data : ObserveProxyEventData} {port : Port α} {s' : System α}
    (hi : s.inFlight[i]? = some (n, .observeProxy q data))
    (hport : (s.node n).getPort q = some port) (hstate : port.state = .receiving)
    (hnode : port.peerNodeName = data.proxyNodeName)
    (hpeer : port.peerPortName = data.proxyPortName)
    (hs' : s.step (.acceptMessage i) = some s') :
    (data.proxyNodeName, .observeProxyAck data.proxyPortName (port.nextSequenceNumToSend - 1)) ∈
      s'.inFlight := by
  rw [step.eq_def] at hs'
  split_ifs at hs'
  simp only [hi] at hs'
  obtain rfl := Option.some.inj hs'
  exact List.mem_append_right _ (Node.onObserveProxy_of_peer (s := System.start _ n) hport hstate
    hnode hpeer)

/-- The proxy that a receiving port skips is acknowledged, and takes the acknowledgement for
    the last one, whenever it comes, unless 2 ^ 32 - 1 messages were sent from the port. -/
theorem Reachable.acknowledged (h : Reachable Lossy s) {i : ℕ} {n : NodeName} {q : PortName}
    {data : ObserveProxyEventData} {port : Port α} {s' : System α}
    (hi : s.inFlight[i]? = some (n, .observeProxy q data))
    (hport : (s.node n).getPort q = some port) (hstate : port.state = .receiving)
    (hnode : port.peerNodeName = data.proxyNodeName)
    (hpeer : port.peerPortName = data.proxyPortName)
    (hs' : s.step (.acceptMessage i) = some s') :
    (data.proxyNodeName, .observeProxyAck data.proxyPortName (port.nextSequenceNumToSend - 1)) ∈
        s'.inFlight ∧
      ∀ as t proxy, s'.exec Lossy as = some t →
        (data.proxyNodeName,
          .observeProxyAck data.proxyPortName (port.nextSequenceNumToSend - 1)) ∈ t.inFlight →
        (t.node data.proxyNodeName).getPort data.proxyPortName = some proxy →
        ((t.start data.proxyNodeName).TakesAsFinal data.proxyPortName
          (port.nextSequenceNumToSend - 1) ↔ port.nextSequenceNumToSend ≠ 2 ^ 32) := by
  refine ⟨mem_inFlight_of_observeProxy hi hport hstate hnode hpeer hs', ?_⟩
  intro as t proxy hrun hack hproxy
  have ht : Reachable Lossy t := (h.step (a := .acceptMessage i) trivial hs').exec hrun
  obtain ⟨hproxying, hstored⟩ := ht.proxying_of_ack hack hproxy
  rw [Node.takesAsFinal_iff (s := t.start _) hproxy hproxying rfl hstored,
    Node.sub_one_ne_kInvalidSequenceNum]

/-- A port of a pair is sent over another pipe, and the other one skips the proxy. -/
theorem Reachable.acknowledged_pair : ∃ (s s' : System ℕ), Reachable Lossy s ∧
    s.step (.acceptMessage 0) = some s' ∧ s'.inFlight = [(1, .observeProxyAck 2 0)] ∧
    (s'.start 1).TakesAsFinal 2 0 := by
  obtain ⟨s, hs, -, hi, hport, hnext⟩ := exists_reachable (G := Lossy) (α := ℕ)
    (P := fun s => s.inFlight[0]? = some (1, .observeProxy 1 ⟨1, 2, 2, 5⟩) ∧
      ((s.node 1).getPort 1).map (fun port => (port.state, port.peerNodeName, port.peerPortName,
        port.nextSequenceNumToSend)) = some (.receiving, 1, 2, 1) ∧
      ((s.step (.acceptMessage 0)).map fun s' => (s'.inFlight,
        ((s'.node 1).getPort 2).isSome)) = some ([(1, .observeProxyAck 2 0)], true))
    [.createPortPair 1, .connect 1 2, .sendMessage 1 3 0 [2], .acceptMessage 0, .acceptMessage 0,
      .acceptMessage 0]
    (by decide)
  obtain ⟨port, hport, hfields⟩ := Option.map_eq_some_iff.1 hport
  obtain ⟨s', hs', hfields'⟩ := Option.map_eq_some_iff.1 hnext
  simp only [Prod.mk.injEq] at hfields hfields'
  obtain ⟨hstate, hnode, hpeer, hsend⟩ := hfields
  obtain ⟨hflight, hproxy⟩ := hfields'
  obtain ⟨proxy, hproxy⟩ := Option.isSome_iff_exists.1 hproxy
  obtain ⟨hmem, hfinal⟩ := hs.acknowledged hi hport hstate hnode hpeer hs'
  refine ⟨s, s', hs, hs', hflight, ?_⟩
  have := (hfinal [] s' proxy rfl hmem hproxy).2 (by rw [hsend]; decide)
  rwa [hsend] at this

end System

/-! ## Counting -/

/-- A node with a pair of ports, where `a` is the number of the next message to send from the
    first one, and `b` the one that the second one expects, which has the messages in `heap`. -/
def Node.pair (a b : UInt64) (heap : List (Message ℕ)) (delegate : Delegate ℕ) : Node ℕ where
  name := 1
  ports := ((∅ : AList fun _ : PortName => Port ℕ).insert 1
    { state := .receiving
      peerNodeName := 1
      peerPortName := 2
      nextSequenceNumToSend := a
      messageQueue := { nextSequenceNum := 1 } }).insert 2
    { state := .receiving
      peerNodeName := 1
      peerPortName := 1
      nextSequenceNumToSend := 1
      messageQueue := { heap := heap, nextSequenceNum := b } }
  delegate := delegate

theorem Node.sendMessage_pair (a : UInt64) (delegate : Delegate ℕ) :
    (pair a a [] delegate).sendMessage 1 (Message.newUserMessage 0 []) =
      (pair (a + 1) a [⟨2, a, [], [], 0⟩]
        { delegate with statusChanged := delegate.statusChanged ++ [2] }, none, .ok) := by
  simp [pair, sendMessage, Message.newUserMessage, getPort, willSendMessage, willSendPorts, setPort,
    acceptMessage, onUserMessage, acceptPorts, queueUserMessage, Port.canAcceptMoreMessages,
    MessageQueue.acceptMessage, MessageQueue.pushHeap, MessageQueue.hasNextMessage,
    portStatusChanged, AList.lookup_insert_ne, -AList.insert_empty]
  rfl

theorem Node.getMessageIf_pair (a b : UInt64) (delegate : Delegate ℕ) :
    (pair b a [⟨2, a, [], [], 0⟩] delegate).getMessageIf 2 none =
      (pair b (a + 1) [] delegate, some ⟨2, a, [], [], 0⟩, .ok) := by
  simp [pair, getMessageIf, getPort, setPort, Port.canAcceptMoreMessages, setSignalable,
    MessageQueue.getNextMessageIf, -AList.insert_empty]

namespace System

/-- The numbers of `k` messages. -/
def numbered (k : ℕ) : List (UInt64 × ℕ) := (List.range k).map fun i => (UInt64.ofNat i + 1, 0)

theorem numbered_succ (k : ℕ) : numbered (k + 1) = numbered k ++ [(UInt64.ofNat k + 1, 0)] := by
  rw [numbered, List.range_succ, List.map_append]
  rfl

/-- A pair of ports of a node, after `k` messages were sent, and `j` of them read. -/
def counting (k j : ℕ) (heap : List (Message ℕ)) : System ℕ where
  pipes := 1
  endOf := Function.update (Function.update (fun _ => ⟨0, false⟩) 1 ⟨0, false⟩) 2 ⟨0, true⟩
  sent := Function.update (fun _ => []) ⟨0, false⟩ (numbered k)
  returned := Function.update (fun _ => []) ⟨0, true⟩ (numbered j)
  held := [(1, 1), (1, 2)]
  statusChanged := [(1, 1), (1, 2)] ++ List.replicate k (1, 2)
  node := Function.update (fun n => { name := n }) 1
    (.pair (UInt64.ofNat k + 1) (UInt64.ofNat j + 1) heap {})
  nextPortName := 3

theorem createPortPair_counting : ({} : System ℕ).createPortPair 1 = counting 0 0 [] := by
  have hupdate : ∀ e : End, Function.update (fun _ => []) e (numbered 0) = fun _ => [] := fun e =>
    Function.update_eq_self e _
  rw [counting, hupdate, hupdate]
  rfl

theorem sendMessage_counting (k : ℕ) : (counting k k []).sendMessage 1 1 0 [] =
    counting (k + 1) k [⟨2, UInt64.ofNat k + 1, [], [], 0⟩] := by
  have hstart : (counting k k []).start 1 =
      .pair (UInt64.ofNat k + 1) (UInt64.ofNat k + 1) [] { nextPortName := 3 } := rfl
  have hend : (counting k k []).endOf 1 = ⟨0, false⟩ := rfl
  have hnumber : (counting k k []).nextNumber 1 1 = UInt64.ofNat k + 1 := rfl
  rw [sendMessage, hstart, Node.sendMessage_pair, hend, hnumber]
  simp only [noteSent, commit, counting, Node.pair, Function.update_idem, Function.update_self,
    numbered_succ, UInt64.ofNat_add, List.replicate_succ', ← List.append_assoc]
  rfl

theorem getMessageIf_counting (k : ℕ) :
    (counting (k + 1) k [⟨2, UInt64.ofNat k + 1, [], [], 0⟩]).getMessageIf 1 2 none =
      counting (k + 1) (k + 1) [] := by
  have hstart : (counting (k + 1) k [⟨2, UInt64.ofNat k + 1, [], [], 0⟩]).start 1 =
      .pair (UInt64.ofNat (k + 1) + 1) (UInt64.ofNat k + 1) [⟨2, UInt64.ofNat k + 1, [], [], 0⟩]
        { nextPortName := 3 } := rfl
  have hend : (counting (k + 1) k [⟨2, UInt64.ofNat k + 1, [], [], 0⟩]).endOf 2 = ⟨0, true⟩ := rfl
  rw [getMessageIf, hstart, Node.getMessageIf_pair, hend]
  simp only [noteReturned, commit, counting, Node.pair, Function.update_idem, Function.update_self,
    numbered_succ, UInt64.ofNat_add, List.map_nil, List.append_nil]
  rfl

/-- There are runs in which any number of messages is sent over a port. -/
theorem reachable_counting (k : ℕ) : Reachable Honest (counting k k []) := by
  induction k with
  | zero =>
    rw [← createPortPair_counting]
    exact .step (a := .createPortPair 1) .init trivial rfl
  | succ k ih =>
    have hsend : Reachable Honest (counting (k + 1) k [⟨2, UInt64.ofNat k + 1, [], [], 0⟩]) := by
      rw [← sendMessage_counting]
      exact .step (a := .sendMessage 1 1 0 []) ih ⟨List.mem_cons_self, by simp, by simp⟩ rfl
    rw [← getMessageIf_counting]
    exact .step (a := .getMessageIf 1 2 none) hsend (List.mem_cons_of_mem _ List.mem_cons_self) rfl

/-- After 2 ^ 32 - 1 messages, a proxy that is skipped by the port they were sent from announces
    itself again. -/
theorem Reachable.not_acknowledged : ∃ (s s' : System ℕ) (port proxy : Port ℕ)
    (data : ObserveProxyEventData), Reachable Honest s ∧
      s.inFlight[0]? = some (1, .observeProxy 1 data) ∧ (s.node 1).getPort 1 = some port ∧
      port.state = .receiving ∧ port.peerNodeName = data.proxyNodeName ∧
      port.peerPortName = data.proxyPortName ∧ s.step (.acceptMessage 0) = some s' ∧
      (data.proxyNodeName, .observeProxyAck data.proxyPortName (port.nextSequenceNumToSend - 1)) ∈
        s'.inFlight ∧
      (s'.node data.proxyNodeName).getPort data.proxyPortName = some proxy ∧
      ¬(s'.start data.proxyNodeName).TakesAsFinal data.proxyPortName
        (port.nextSequenceNumToSend - 1) := by
  have hexec : ((counting 4294967295 4294967295 []).exec Honest [.connect 1 2,
      .sendMessage 1 3 0 [2], .acceptMessage 0, .acceptMessage 0, .acceptMessage 0]).any (fun s =>
        decide (s.inFlight[0]? = some (1, .observeProxy 1 ⟨1, 2, 2, 5⟩) ∧
          ((s.node 1).getPort 1).map (fun port => (port.state, port.peerNodeName,
            port.peerPortName, port.nextSequenceNumToSend)) = some (.receiving, 1, 2, 4294967296) ∧
          ((s.step (.acceptMessage 0)).bind fun s' => (s'.node 1).getPort 2).map (fun proxy =>
            (proxy.state, proxy.sendOnProxyRemoval)) = some (.proxying, none))) = true := by
    decide +kernel
  obtain ⟨s, hs, hdecide⟩ := (Option.any_eq_true _ _).1 hexec
  obtain ⟨hi, hport, hproxy⟩ := of_decide_eq_true hdecide
  obtain ⟨port, hport, hfields⟩ := Option.map_eq_some_iff.1 hport
  obtain ⟨proxy, hproxy, hfields'⟩ := Option.map_eq_some_iff.1 hproxy
  obtain ⟨s', hs', hproxy⟩ := Option.bind_eq_some_iff.1 hproxy
  simp only [Prod.mk.injEq] at hfields hfields'
  obtain ⟨hstate, hnode, hpeer, hsend⟩ := hfields
  obtain ⟨hproxying, hstored⟩ := hfields'
  refine ⟨s, s', port, proxy, _, (reachable_counting _).exec hs, hi, hport, hstate, hnode, hpeer,
    hs', mem_inFlight_of_observeProxy hi hport hstate hnode hpeer hs', hproxy, ?_⟩
  rw [Node.takesAsFinal_iff (s := s'.start _) hproxy hproxying rfl (by simp [hstored]), hsend]
  decide

end System

end MojoEdk.Ports
