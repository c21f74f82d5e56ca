import MojoEdk.Ports.Locks
import MojoEdk.Ports.Routing

/-!
# Sends that fail

`SendMessage` may refuse a message because of a port that is attached to it. What it did
until then is undone in part only: the message keeps the sequence number that it was given,
and the port counts one back even if it gave none (`Node.sendLeaves_iff`).

The port at the other end of the pipe is refused if it is the direct peer, and not if proxies
lead to it. But the ports that are attached before it are locked first: the call does not
return if one of them is attached twice, or was left locked by a send refused before
(`System.Reachable.refusesPeer_iff`).
-/

namespace MojoEdk.Ports

variable {α : Type*}

namespace Node

variable {s : Node α} {p : PortName} {port : Port α} {m : Message α}

/-! ## What a send that fails leaves -/

/-- A send that fails leaves the message and all ports as they were. -/
def SendLeaves (s : Node α) (p : PortName) (m : Message α) : Prop :=
  ∀ s' m' rv, s.sendMessage p m = (s', m', rv) → rv ≠ .ok →
    m' = some m ∧ ∀ q, s'.getPort q = s.getPort q

/-- A send gets to the ports attached, and one of them is refused. -/
def Refuses (s : Node α) (p : PortName) (m : Message α) : Prop :=
  p ∉ m.ports ∧ ∃ port, s.getPort p = some port ∧ port.state = .receiving ∧
    port.peerClosed = false ∧ ∃ q ∈ m.ports, s.sentPortError port.peerPortName q ≠ none

/-- The number that `WillSendMessage_Locked` gives a message, unless it has one. -/
def numbered (port : Port α) (m : Message α) : Message α :=
  if m.sequenceNum = 0 then { m with sequenceNum := port.nextSequenceNumToSend } else m

/-- The sending port after `WillSendMessage_Locked` counted one back. -/
def backpedaled (port : Port α) (m : Message α) : Port α :=
  if m.sequenceNum = 0 then port
  else { port with nextSequenceNumToSend := port.nextSequenceNumToSend - 1 }

theorem sub_one_ne_self (n : UInt64) : n ≠ n - 1 := by
  intro h
  have h0 : n + 1 = n := by
    calc n + 1
      _ = n - 1 + 1 := congrArg (· + 1) h
      _ = n := UInt64.sub_add_cancel n 1
  have : (1 : UInt64) = 0 := by
    calc (1 : UInt64)
      _ = n + 1 - n := by rw [UInt64.add_comm, UInt64.add_sub_cancel]
      _ = 0 := by rw [h0, UInt64.sub_self]
  exact absurd this (by decide)

theorem sentPortError_setPort {q peer : PortName} (h : q ≠ p) (port : Port α) :
    (s.setPort p port).sentPortError peer q = s.sentPortError peer q := by
  rw [sentPortError, sentPortError, getPort_setPort, if_neg h]

theorem findSome?_sentPortError_setPort {names : List PortName} (hp : p ∉ names) (port : Port α)
    (peer : PortName) : names.findSome? ((s.setPort p port).sentPortError peer) =
      names.findSome? (s.sentPortError peer) := by
  induction names with
  | nil => rfl
  | cons q names ih =>
    obtain ⟨hq, hp⟩ := not_or.1 (mt List.mem_cons.2 hp)
    rw [List.findSome?_cons, List.findSome?_cons, sentPortError_setPort (Ne.symm hq), ih hp]

/-- `WillSendMessage_Locked`, when a port attached is refused. -/
theorem willSendMessage_of_error (hp : p ∉ m.ports) {error : Result}
    (herror : m.ports.findSome? (s.sentPortError port.peerPortName) = some error) :
    (s.willSendMessage port p m).2 = (numbered port m, error) ∧
      ∀ q, (s.willSendMessage port p m).1.getPort q =
        if q = p then some (backpedaled port m) else s.getPort q := by
  have hget : ∀ (port₁ port₂ : Port α) names q,
      ((if error = .errorPortUnknown then
          ((s.setPort p port₁).noteLocked names).oops .sentPortUnknown
        else (s.setPort p port₁).noteLocked names).setPort p port₂).getPort q =
      if q = p then some port₂ else s.getPort q := by
    intro port₁ port₂ names q
    rw [getPort_setPort]
    split_ifs with hq
    · rfl
    · exact (getPort_setPort ..).trans (if_neg hq)
    · exact (getPort_setPort ..).trans (if_neg hq)
  rw [willSendMessage, numbered, backpedaled]
  split_ifs with hnum
  · -- The number that was given is taken back.
    simp only [findSome?_sentPortError_setPort hp, herror]
    refine ⟨trivial, fun q => ?_⟩
    rw [hget, UInt64.add_sub_cancel]
  · simp only [findSome?_sentPortError_setPort hp, herror]
    exact ⟨trivial, hget port _ _⟩

/-- A port attached is refused if the first one that is not accepted gives an error. -/
theorem exists_error {peer : PortName} :
    (∃ q ∈ m.ports, s.sentPortError peer q ≠ none) ↔
      ∃ error, m.ports.findSome? (s.sentPortError peer) = some error := by
  rw [← Option.isSome_iff_exists, List.findSome?_isSome_iff]
  simp only [Option.isSome_iff_ne_none]

theorem willSendMessage_of_ok (hp : p ∉ m.ports)
    (h : m.ports.findSome? (s.sentPortError port.peerPortName) = none) :
    (s.willSendMessage port p m).2.2 = .ok := by
  rw [willSendMessage]
  split_ifs with hnum
  · simp only [findSome?_sentPortError_setPort hp, h]
  · simp only [findSome?_sentPortError_setPort hp, h]

/-- A send that is refused because of a port attached. -/
theorem sendMessage_of_error (hp : p ∉ m.ports) (hport : s.getPort p = some port)
    (hstate : port.state = .receiving) (hclosed : port.peerClosed = false) {error : Result}
    (herror : m.ports.findSome? (s.sentPortError port.peerPortName) = some error) :
    s.sendMessage p m =
      ((s.willSendMessage port p m).1, some (numbered port m), error) ∧ error ≠ .ok := by
  have hok : error ≠ .ok := by
    rintro rfl
    obtain ⟨q, -, hq⟩ := List.exists_of_findSome?_eq_some herror
    exact sentPortError_ne_ok _ _ q hq
  have hsent := (willSendMessage_of_error hp herror).1
  refine ⟨?_, hok⟩
  rw [sendMessage, if_neg hp, hport]
  simp only [hstate, hclosed, ne_eq, not_true_eq_false, if_false, Bool.false_eq_true]
  rcases hw : s.willSendMessage port p m with ⟨s', m', rv⟩
  rw [hw] at hsent
  obtain ⟨rfl, rfl⟩ := Prod.mk.inj hsent
  cases rv with
  | ok => exact absurd rfl hok
  | _ => rfl

/-- Any other send fails at once, or it does not fail. -/
theorem sendMessage_of_not_refuses (h : ¬s.Refuses p m) :
    (∃ rv, s.sendMessage p m = (s, some m, rv) ∧ rv ≠ .errorPortCannotSendPeer) ∨
      (s.sendMessage p m).2.2 = .ok := by
  rw [sendMessage]
  split_ifs with hp
  · exact .inl ⟨_, rfl, by decide⟩
  split
  · exact .inl ⟨_, rfl, by decide⟩
  next port hport =>
    split_ifs with hstate hclosed
    · exact .inl ⟨_, rfl, by decide⟩
    · exact .inl ⟨_, rfl, by decide⟩
    · have hnone : m.ports.findSome? (s.sentPortError port.peerPortName) = none := by
        by_contra hne
        refine h ⟨hp, port, hport, not_not.1 hstate, Bool.eq_false_iff.2 hclosed, ?_⟩
        exact exists_error.2 (Option.ne_none_iff_exists'.1 hne)
      have hok := willSendMessage_of_ok (s := s) hp hnone
      rcases hw : s.willSendMessage port p m with ⟨s', m', rv⟩
      rw [hw] at hok
      obtain rfl : rv = .ok := hok
      right
      dsimp only
      split_ifs
      · rfl
      · rfl

/-- A send that fails leaves everything as it was, unless a port attached is refused: then the
    message has a number that it had not, or the sending port another one to send next. -/
theorem sendLeaves_iff : s.SendLeaves p m ↔ (s.Refuses p m →
    m.sequenceNum = 0 ∧ (s.getPort p).map (·.nextSequenceNumToSend) = some 0) := by
  constructor
  · rintro h ⟨hp, port, hport, hstate, hclosed, href⟩
    obtain ⟨error, herror⟩ := exists_error.1 href
    obtain ⟨hsend, hok⟩ := sendMessage_of_error hp hport hstate hclosed herror
    obtain ⟨hm, hget⟩ := h _ _ _ hsend hok
    have hback := (willSendMessage_of_error hp herror).2 p
    rw [hget, if_pos rfl, hport, backpedaled] at hback
    rw [numbered] at hm
    split_ifs at hm hback with hnum
    · have hnumber : port.nextSequenceNumToSend = m.sequenceNum :=
        congrArg Message.sequenceNum (Option.some.inj hm)
      rw [hport, Option.map_some, hnumber, hnum]
      exact ⟨rfl, rfl⟩
    · have hnext := congrArg (fun port : Port α => port.nextSequenceNumToSend)
        (Option.some.inj hback)
      exact absurd hnext (sub_one_ne_self _)
  · intro h s' m' rv hsend hrv
    by_cases href : s.Refuses p m
    · obtain ⟨hnum, hnext⟩ := h href
      obtain ⟨hp, port, hport, hstate, hclosed, href⟩ := href
      obtain ⟨error, herror⟩ := exists_error.1 href
      obtain ⟨hsend', -⟩ := sendMessage_of_error hp hport hstate hclosed herror
      obtain ⟨rfl, hrest⟩ := Prod.mk.inj (hsend'.symm.trans hsend)
      obtain ⟨rfl, -⟩ := Prod.mk.inj hrest
      rw [hport, Option.map_some] at hnext
      refine ⟨?_, fun q => ?_⟩
      · rw [numbered, if_pos hnum, Option.some.inj hnext, ← hnum]
      · rw [(willSendMessage_of_error hp herror).2, backpedaled, if_pos hnum]
        split_ifs with hq
        · rw [hq, hport]
        · rfl
    · rcases sendMessage_of_not_refuses href with ⟨rv', hfail, -⟩ | hok
      · obtain ⟨rfl, hrest⟩ := Prod.mk.inj (hfail.symm.trans hsend)
        exact ⟨(Prod.mk.inj hrest).1.symm, fun _ => rfl⟩
      · rw [hsend] at hok
        exact absurd hok hrv

/-- A fresh message with the one port of a pair attached, sent over the other one: it is
    refused, but keeps the number that it was given. -/
theorem not_sendLeaves : ¬(({ name := 1 } : Node ℕ).createPortPair.1).SendLeaves 1
    (Message.newUserMessage 0 [2]) := by
  intro h
  obtain ⟨hm, -⟩ := h _ _ _ rfl (by decide)
  exact absurd (congrArg (·.map Message.sequenceNum) hm) (by decide)

/-! ## Ports that are refused -/

/-- A send is refused because a port attached is the peer, and nothing is sent. The call
    returns: it waits for no lock of those that are held. -/
def RefusesPeer (s : Node α) (held : PortName → Bool) (p : PortName) (m : Message α) : Prop :=
  (∃ s' m', s.sendMessage p m = (s', some m', .errorPortCannotSendPeer) ∧
    s'.delegate.forwarded = s.delegate.forwarded) ∧
  ∃ ops, s.sendLocks p m = some ops ∧ (LockOp.await held ops).isSome

theorem sentPortError_eq_none {peer q : PortName} :
    s.sentPortError peer q = none ↔ s.Receives q ∧ q ≠ peer := by
  rw [sentPortError, Receives]
  cases s.getPort q with
  | none => simp
  | some port =>
    dsimp only
    split_ifs with hstate hq
    · simp [hstate]
    · simp [hq]
    · simpa using ⟨not_not.1 hstate, hq⟩

theorem sentPortError_eq_peer {peer q : PortName} :
    s.sentPortError peer q = some .errorPortCannotSendPeer ↔ s.Receives q ∧ q = peer := by
  rw [sentPortError, Receives]
  cases s.getPort q with
  | none => simp
  | some port =>
    dsimp only
    split_ifs with hstate hq
    · simp [hstate]
    · simpa using ⟨not_not.1 hstate, hq⟩
    · simp [hq]

theorem forwarded_willSendMessage (hp : p ∉ m.ports) {error : Result}
    (herror : m.ports.findSome? (s.sentPortError port.peerPortName) = some error) :
    (s.willSendMessage port p m).1.delegate.forwarded = s.delegate.forwarded := by
  rw [willSendMessage]
  split_ifs with hnum
  · simp only [findSome?_sentPortError_setPort hp, herror]
    split_ifs <;> rfl
  · simp only [findSome?_sentPortError_setPort hp, herror]
    split_ifs <;> rfl

/-- A send gives the error of the peer if it gets to the ports attached, and those before the
    peer are accepted. -/
theorem sendMessage_peer_iff (hport : s.getPort p = some port) (hstate : port.state = .receiving)
    (hclosed : port.peerClosed = false) :
    (∃ s' m', s.sendMessage p m = (s', some m', .errorPortCannotSendPeer) ∧
      s'.delegate.forwarded = s.delegate.forwarded) ↔ p ∉ m.ports ∧
      m.ports.findSome? (s.sentPortError port.peerPortName) = some .errorPortCannotSendPeer := by
  constructor
  · rintro ⟨s', m', hsend, -⟩
    have hp : p ∉ m.ports := by
      intro hp
      rw [sendMessage, if_pos hp] at hsend
      cases (Prod.mk.inj (Prod.mk.inj hsend).2).2
    refine ⟨hp, ?_⟩
    cases herror : m.ports.findSome? (s.sentPortError port.peerPortName) with
    | none =>
      have href : ¬s.Refuses p m := by
        rintro ⟨-, port', hport', -, -, href⟩
        obtain rfl : port = port' := Option.some.inj (hport.symm.trans hport')
        obtain ⟨error, herror'⟩ := exists_error.1 href
        rw [herror] at herror'
        cases herror'
      rcases sendMessage_of_not_refuses href with ⟨rv, hfail, hrv⟩ | hok
      · rw [hsend] at hfail
        exact absurd (Prod.mk.inj (Prod.mk.inj hfail).2).2.symm hrv
      · rw [hsend] at hok
        cases hok
    | some error =>
      obtain ⟨hsend', -⟩ := sendMessage_of_error hp hport hstate hclosed herror
      rw [hsend] at hsend'
      exact congrArg some (Prod.mk.inj (Prod.mk.inj hsend').2).2.symm
  · rintro ⟨hp, herror⟩
    obtain ⟨hsend, -⟩ := sendMessage_of_error hp hport hstate hclosed herror
    exact ⟨_, _, hsend, forwarded_willSendMessage hp herror⟩

/-- A send that refuses the peer locks it, and the ports before it. -/
theorem exists_sendLocks_of_peer (hp : p ∉ m.ports) (hport : s.getPort p = some port)
    (hstate : port.state = .receiving) (hclosed : port.peerClosed = false)
    (herror : m.ports.findSome? (s.sentPortError port.peerPortName) =
      some .errorPortCannotSendPeer) :
    ∃ ops, s.sendLocks p m = some ops ∧ ∀ held : PortName → Bool,
      (LockOp.await held ops).isSome ↔ (m.ports.takeWhile (· ≠ port.peerPortName)).Nodup ∧
        ∀ r ∈ p :: port.peerPortName :: m.ports.takeWhile (· ≠ port.peerPortName),
          held r = false := by
  obtain ⟨names, q, rest, hports, hq, hnames⟩ := List.findSome?_eq_some_iff.1 herror
  obtain ⟨hrec, rfl⟩ := sentPortError_eq_peer.1 hq
  obtain ⟨port', hport', -⟩ := hrec
  have hne : ∀ r ∈ names, r ≠ port.peerPortName := fun r hr =>
    (sentPortError_eq_none.1 (hnames r hr)).2
  have htake : m.ports.takeWhile (· ≠ port.peerPortName) = names := by
    rw [hports, List.takeWhile_append_of_pos (by simpa using hne)]
    simp
  obtain ⟨ops, hops, hawait⟩ := exists_sendLocks_of_refused hp hport hstate hclosed hports hnames
    (by simp [hq]) (by simp [hport'])
  refine ⟨ops, hops, fun held => ?_⟩
  have hnodup : (names ++ [port.peerPortName]).Nodup ↔ names.Nodup := by
    rw [List.nodup_append]
    simpa using fun _ => hne
  have hmem : (∀ r ∈ p :: (names ++ [port.peerPortName]), held r = false) ↔
      ∀ r ∈ p :: port.peerPortName :: names, held r = false := by
    simp only [List.mem_cons, List.mem_append, List.not_mem_nil, or_false,
      or_comm (b := _ = port.peerPortName)]
  rw [hawait, htake, ← hnodup, ← hmem]
  split_ifs with hfree
  · exact iff_of_true rfl hfree
  · exact iff_of_false Bool.false_ne_true hfree

/-- The peer is refused if the ports before it are accepted and distinct, and nothing that the
    call locks is locked before. -/
theorem refusesPeer_iff_of_receiving {held : PortName → Bool} (hport : s.getPort p = some port)
    (hstate : port.state = .receiving) (hclosed : port.peerClosed = false) :
    s.RefusesPeer held p m ↔ p ∉ m.ports ∧
      m.ports.findSome? (s.sentPortError port.peerPortName) = some .errorPortCannotSendPeer ∧
      (m.ports.takeWhile (· ≠ port.peerPortName)).Nodup ∧
      ∀ r ∈ p :: port.peerPortName :: m.ports.takeWhile (· ≠ port.peerPortName),
        held r = false := by
  rw [RefusesPeer, sendMessage_peer_iff hport hstate hclosed, and_assoc]
  refine and_congr_right fun hp => and_congr_right fun herror => ?_
  obtain ⟨ops, hops, hawait⟩ := exists_sendLocks_of_peer hp hport hstate hclosed herror
  rw [← hawait held, hops]
  simp

/-- Of the ports attached, the one that is the peer is the first that is not accepted. -/
theorem findSome?_eq_peer {names : List PortName} {q : PortName} (hq : q ∈ names)
    (hstate : s.Receives q) : names.findSome? (s.sentPortError q) = some .errorPortCannotSendPeer ↔
      ∀ r ∈ names.takeWhile (· ≠ q), s.Receives r := by
  induction names with
  | nil => cases hq
  | cons r names ih =>
    by_cases hr : r = q
    · rw [List.findSome?_cons, hr, sentPortError_eq_peer.2 ⟨hstate, rfl⟩]
      simp
    · have hq : q ∈ names := (List.mem_cons.1 hq).resolve_left (Ne.symm hr)
      rw [List.findSome?_cons, List.takeWhile_cons_of_pos (by simpa using hr), List.forall_mem_cons]
      cases herror : s.sentPortError q r with
      | none =>
        rw [ih hq, and_iff_right (sentPortError_eq_none.1 herror).1]
      | some error =>
        have hrec : ¬s.Receives r := fun h => by
          rw [sentPortError_eq_none.2 ⟨h, hr⟩] at herror
          cases herror
        refine iff_of_false (fun h => hrec ?_) fun h => hrec h.1
        obtain rfl := Option.some.inj h
        exact (sentPortError_eq_peer.1 herror).1

end Node

namespace System

variable {s : System α}

/-- An endpoint that is sent over its own pipe is refused if it is the direct peer of the port,
    the ports attached before it are accepted and distinct, and none of all these was left
    locked. -/
theorem Reachable.refusesPeer_iff (h : Reachable Honest s) {n : NodeName} {p q : PortName}
    {port : Port α} {path : List (NodeName × PortName)} {m : Message α} (hp : (n, p) ∈ s.held)
    (hport : (s.node n).getPort p = some port)
    (hroute : s.Route (port.peerNodeName, port.peerPortName) path (n, q))
    (hq : (s.node n).Receives q) (hm : q ∈ m.ports) :
    (s.start n).RefusesPeer (s.lockedAt n) p m ↔ p ∉ m.ports ∧ port.peerPortName = q ∧
      (∀ r ∈ m.ports.takeWhile (· ≠ q), (s.node n).Receives r) ∧
      (m.ports.takeWhile (· ≠ q)).Nodup ∧
      ∀ r ∈ p :: q :: m.ports.takeWhile (· ≠ q), (n, r) ∉ s.locked := by
  obtain ⟨⟨η, N, hS, hN, -⟩, -⟩ := h.simulates (fun _ _ h => h) (fun _ => True) trivial
    fun _ _ _ _ _ => trivial
  obtain ⟨e, he, rfl, rfl⟩ := hS.exists_of_mem_held hp
  obtain ⟨a, ha, hk⟩ := hN.cargo.held e he
  obtain ⟨port₁, hport₁, hmatch⟩ := hS.getPort hN.shape ha (by simp [hk])
  obtain rfl : port = port₁ := Option.some.inj (hport.symm.trans hport₁)
  have hstate : port.state = .receiving := by rw [hmatch.state, hk]; rfl
  have hpeer : (port.peerNodeName, port.peerPortName) = η.address (e.opp, N.toward e) := by
    rw [hmatch.peerNodeName, hmatch.peerPortName, Net.peer_live]
    rfl
  have hpipe : e.pipe < N.pipes := hN.shape.pipe_lt ha
  have hu : N.Used (e.opp, N.toward e) := ⟨hpipe, hN.shape.toward_le e⟩
  have hend := hS.route_eq hN hroute hq hu hpeer
  -- The endpoint that is attached is open.
  obtain ⟨e', ⟨b, hb, -⟩, hlive⟩ := hS.exists_live hN hq
  have hopen : N.Used (e.opp, N.len e.opp) := ⟨hpipe, le_rfl⟩
  obtain rfl : e' = e.opp := congrArg Prod.fst
    (hS.address_injective (hN.shape.used hb) hopen (hlive.symm.trans hend))
  have hclosed : port.peerClosed = false := by
    rw [hmatch.peerClosed, Bool.eq_false_iff]
    intro hc
    have hcl := (hN.ring.live _ a ha (by simp [hk])).peerClosed hc
    rw [hN.shape.isClosed _ hcl] at hb
    cases hb
  rw [Node.refusesPeer_iff_of_receiving (s := s.start _) hport hstate hclosed]
  refine and_congr_right fun hpm => ?_
  by_cases hpq : port.peerPortName = q
  · rw [hpq, and_iff_right rfl, Node.findSome?_eq_peer (s := s.start _) hm hq]
    simp only [lockedAt, List.contains_eq_mem, decide_eq_false_iff_not]
    rfl
  · -- No port of the node is the peer: the peer is a proxy, and has another name.
    refine iff_of_false (fun hc => hpq ?_) fun hc => hpq hc.1
    obtain ⟨r, -, hr⟩ := List.exists_of_findSome?_eq_some hc.1
    obtain ⟨hrec, rfl⟩ := Node.sentPortError_eq_peer.1 hr
    obtain ⟨e', ⟨b', hb', -⟩, hlive'⟩ := hS.exists_live hN hrec
    have hx := hS.refines.inj _ _ (hN.shape.used hb') hu
      ((congrArg Prod.snd hlive').symm.trans (congrArg Prod.snd hpeer))
    obtain ⟨rfl, -⟩ := Prod.mk.inj hx
    exact (congrArg Prod.snd hlive').trans (congrArg Prod.snd hend).symm

/-- The ports of a pair: the one is refused over the other. -/
theorem Reachable.refusesPeer_pair : ∃ (s : System ℕ) (port : Port ℕ), (Reachable Honest s ∧
    (1, 1) ∈ s.held ∧ (s.node 1).getPort 1 = some port ∧
    s.Route (port.peerNodeName, port.peerPortName) [] (1, 2) ∧ (s.node 1).Receives 2) ∧
    ((s.start 1).RefusesPeer (s.lockedAt 1) 1 (Message.newUserMessage 0 [2]) ↔
      1 ∉ [2] ∧ port.peerPortName = 2 ∧ (∀ r ∈ [2].takeWhile (· ≠ 2), (s.node 1).Receives r) ∧
      ([2].takeWhile (· ≠ 2)).Nodup ∧ ∀ r ∈ 1 :: 2 :: [2].takeWhile (· ≠ 2), (1, r) ∉ s.locked) := by
  obtain ⟨s, hs, -, hp, hport, hq⟩ := exists_reachable (G := Honest) (α := ℕ)
    (P := fun s => (1, 1) ∈ s.held ∧
      ((s.node 1).getPort 1).map (fun port => (port.peerNodeName, port.peerPortName)) = some (1, 2) ∧
      ((s.node 1).getPort 2).map (·.state) = some .receiving)
    [.createPortPair 1] (by decide)
  obtain ⟨port, hport, hpeer⟩ := Option.map_eq_some_iff.1 hport
  have hq : (s.node 1).Receives 2 := Option.map_eq_some_iff.1 hq
  have hroute : s.Route (port.peerNodeName, port.peerPortName) [] (1, 2) := hpeer ▸ .nil _
  exact ⟨s, port, ⟨hs, hp, hport, hroute, hq⟩,
    hs.refusesPeer_iff (m := Message.newUserMessage 0 [2]) hp hport hroute hq (by decide)⟩

/-- A port of a pair comes back to its node under a new name: it is sent over the other one. -/
theorem Reachable.not_refusesPeer : ∃ (s : System ℕ) (port : Port ℕ), Reachable Honest s ∧
    (1, 1) ∈ s.held ∧ (s.node 1).getPort 1 = some port ∧
    s.Route (port.peerNodeName, port.peerPortName) [(1, 2)] (1, 5) ∧ (s.node 1).Receives 5 ∧
    (1, 5) ∈ s.held ∧ ¬(s.start 1).RefusesPeer (s.lockedAt 1) 1 (Message.newUserMessage 0 [5]) := by
  obtain ⟨s, hs, -, hp, hport, hproxy, hq, hheld, hsend⟩ := exists_reachable (G := Honest) (α := ℕ)
    (P := fun s => (1, 1) ∈ s.held ∧
      ((s.node 1).getPort 1).map (fun port => (port.peerNodeName, port.peerPortName)) = some (1, 2) ∧
      ((s.node 1).getPort 2).map (fun port => (port.state, port.peerNodeName, port.peerPortName)) =
        some (.buffering, 1, 5) ∧
      ((s.node 1).getPort 5).map (·.state) = some .receiving ∧ (1, 5) ∈ s.held ∧
      ((s.start 1).sendMessage 1 (Message.newUserMessage 0 [5])).2.2 = .ok)
    [.createPortPair 1, .createPortPair 1, .sendMessage 1 3 0 [2], .getMessageIf 1 4 none]
    (by decide)
  obtain ⟨port, hport, hpeer⟩ := Option.map_eq_some_iff.1 hport
  obtain ⟨proxy, hproxy, hstate⟩ := Option.map_eq_some_iff.1 hproxy
  obtain ⟨hstate, hpeer'⟩ := Prod.mk.inj hstate
  have hlast : s.Route (proxy.peerNodeName, proxy.peerPortName) [] (1, 5) := hpeer' ▸ .nil _
  have hroute : s.Route (port.peerNodeName, port.peerPortName) [(1, 2)] (1, 5) := by
    rw [hpeer]
    exact .cons hproxy (.inl hstate) hlast
  refine ⟨s, port, hs, hp, hport, hroute, Option.map_eq_some_iff.1 hq, hheld, ?_⟩
  rintro ⟨⟨ν, m', h, -⟩, -⟩
  rw [h] at hsend
  cases hsend

end System

end MojoEdk.Ports
