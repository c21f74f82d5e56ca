import MojoEdk.Ports.Refine.Runs

/-!
# Losing connections

`LostConnectionToNode` is a loss of the net (`Net.lose`), at the places of the node
whose peer is on the node lost: proxies there are deleted with their messages, and
receiving ports are told that the peer is closed.
-/

namespace MojoEdk.Ports

variable {α : Type*} {η : Names} {s : System α} {ν : Node α} {N : Net α} {x : Place}
  {a : Net.Port} {lost : NodeName}

/-- The places of a node whose peer is on the node lost. -/
def Names.Cut (η : Names) (N : Net α) (n lost : NodeName) (x : Place) : Prop :=
  N.Used x ∧ η.home x = n ∧ η.home (N.peer x) = lost

instance (η : Names) (N : Net α) (n lost : NodeName) : DecidablePred (η.Cut N n lost) := fun x =>
  inferInstanceAs (Decidable ((x.1.pipe < N.pipes ∧ x.2 ≤ N.len x.1) ∧ _ ∧ _))

/-- A port whose peer is lost. -/
theorem PortMatch.lostPort {port : Port α} (h : PortMatch η N x a port)
    (hpeer : η.home (N.peer x) = lost) :
    (Node.lostPort lost port = none ∧ Net.lostPort a = none) ∨
      ∃ port' b, Node.lostPort lost port = some port' ∧ Net.lostPort a = some b ∧
        PortMatch η N x b port' := by
  have hlost : Node.lostPort lost port = if port.state = .receiving then
      if port.peerClosed then some port
      else some { port with
        peerClosed := true
        lastSequenceNumToReceive := port.messageQueue.nextSequenceNum - 1 }
      else none :=
    if_pos (h.peerNodeName.trans hpeer)
  rw [hlost]
  have hstate := h.state
  -- Ports that receive stay, with their peer closed. All others are erased.
  cases hk : a.kind with
  | transit => exact absurd hk h.arrived
  | receiving =>
    rw [hk] at hstate
    rw [if_pos (show port.state = .receiving from hstate), Net.lostPort, hk, h.peerClosed]
    by_cases hc : a.peerClosed
    · exact .inr ⟨port, a, if_pos hc, if_pos hc, h⟩
    · refine .inr ⟨_, _, if_neg hc, if_neg hc, ?_⟩
      exact { h with
        arrived := by simp
        state := hstate
        last := congrArg (· - 1) h.next
        peerClosed := rfl }
  | buffering =>
    rw [hk] at hstate
    exact .inl ⟨if_neg (by simp [hstate, Kind.state]), by rw [Net.lostPort, hk]⟩
  | proxying =>
    rw [hk] at hstate
    exact .inl ⟨if_neg (by simp [hstate, Kind.state]), by rw [Net.lostPort, hk]⟩

/-- The messages of the queue of a port that survives. -/
theorem Net.queue_lose {S : Place → Prop} [DecidablePred S]
    (h : S x → (N.port x).bind Net.lostPort ≠ none) : (N.lose S).queue x = N.queue x := by
  change (N.letters.filter _).filter _ = N.letters.filter _
  rw [Multiset.filter_filter]
  refine Multiset.filter_congr fun l _ => ⟨And.left, fun hl => ⟨hl, ?_⟩⟩
  rintro ⟨-, hS, hnone⟩
  rw [hl.2] at hS hnone
  exact h hS hnone

/-- Nothing in flight is lost. -/
theorem Names.flight_lose (c : N.Cargo) (S : Place → Prop) [DecidablePred S] :
    η.flight (N.lose S) = η.flight N := by
  have hports : η.flight { N with port := (N.lose S).port } = η.flight N := by
    refine Names.flight_congr rfl rfl (fun _ _ => rfl) (fun _ _ => rfl) fun l hl hq => ?_
    refine Names.message_congr rfl (fun _ _ => rfl) (fun _ _ => rfl) (fun e he => ?_)
      fun _ _ _ _ => ⟨rfl, rfl⟩
    -- A port in transit is on no node.
    obtain ⟨b, hb, hbk⟩ := c.transit hl hq e he
    rw [Net.port_lose, hb, Option.bind_some, Net.lostPort, hbk, ite_self]
  rw [← hports]
  refine Names.flight_withLetters (N := { N with port := (N.lose S).port }) ?_
  rw [Multiset.filter_filter]
  exact Multiset.filter_congr fun l _ => ⟨And.left, fun hl => ⟨hl, fun hl' => hl hl'.1⟩⟩

theorem Refines.lostConnectionToNode (h : Refines η (s.commit ν) N) (c : N.Cargo)
    (lost : NodeName) :
    Refines η (s.commit (ν.lostConnectionToNode lost)) (N.lose (η.Cut N ν.name lost)) := by
  have heq := ν.lostConnectionToNode_eq lost
  have hdel : (ν.lostConnectionToNode lost).delegate.closed = ν.delegate.closed := by rw [heq]
  have hren : (ν.lostConnectionToNode lost).delegate.renamed = ν.delegate.renamed := by rw [heq]
  refine h.change (η.Cut N ν.name lost) (by rw [heq]) (by rw [heq]) hren rfl rfl
    (fun y hy => ⟨hy.2.1, hy.1⟩) (fun p hp => ?_) (fun y hy => ?_) (fun y hy => ?_) ?_
    (fun l hl => h.homes l (Net.mem_letters_lose.1 hl).1) ?_ rfl rfl
  · -- A port that is not cut off is kept.
    rw [Node.getPort_lostConnectionToNode]
    cases hport : ν.getPort p with
    | none => rfl
    | some port =>
      obtain ⟨y, hy, hyn, rfl⟩ := h.named ν.name p port (by
        rwa [System.getPort_commit, if_pos rfl])
      have hm := h.lookup hy hyn
      rw [hport] at hm
      obtain ⟨b, -, hm⟩ := hm
      have hne : port.peerNodeName ≠ lost := fun hl =>
        hp y ⟨hy, hyn, hm.peerNodeName.symm.trans hl⟩ rfl
      rw [Option.bind_some, Node.lostPort, if_neg hne]
  · have hm := h.lookup hy.1 hy.2.1
    rw [Node.getPort_lostConnectionToNode]
    cases hport : ν.getPort (η.name y) with
    | none =>
      rw [hport] at hm
      intro b hb
      rcases Net.port_lose_cases hb with hb | ⟨a, ha, hk, -⟩
      · exact hm b hb
      · rw [hm a ha] at hk
        cases hk
    | some port =>
      rw [hport] at hm
      obtain ⟨b, hb, hm⟩ := hm
      rw [Option.bind_some]
      have hlost : (N.lose (η.Cut N ν.name lost)).port y = Net.lostPort b := by
        rw [Net.port_lose, if_pos hy, hb, Option.bind_some]
      -- The port is erased, or it stays with its queue.
      rcases hm.lostPort hy.2.2 with ⟨h1, h2⟩ | ⟨port', b', h1, h2, hm'⟩
      · rw [h1]
        intro b' hb'
        rw [hlost, h2] at hb'
        cases hb'
      · rw [h1]
        refine ⟨b', hlost.trans h2, { hm' with queue := hm'.queue.trans ?_ }⟩
        rw [Net.queue_lose fun _ => by rw [hb, Option.bind_some, h2]; simp]
        rfl
  · refine ⟨if_neg hy, rfl, ?_⟩
    rw [Net.queue_lose fun hS => absurd hS hy]
  · rw [Names.flight_lose c, ← h.flight]
    rw [heq]
    rfl
  · refine Eq.trans ?_ h.closed
    change History.closedEnds _ (History.renamedEnds _ _) _ =
      History.closedEnds _ (History.renamedEnds _ _) _
    rw [hdel, hren]

theorem Simulates.lostConnectionToNode (h : Simulates η s N) (c : N.Cargo) (n lost : NodeName) :
    Simulates η (s.commit ((s.start n).lostConnectionToNode lost)) (N.lose (η.Cut N n lost)) ∧
      (s.commit ((s.start n).lostConnectionToNode lost)).oops = s.oops := by
  have hname : (s.start n).name = n := h.refines.nodeName n
  have hr := (h.refines.start n).lostConnectionToNode c lost
  rw [hname] at hr
  have heq := (s.start n).lostConnectionToNode_eq lost
  refine ⟨⟨hr, ?_⟩, System.oops_commit ?_⟩
  · rw [System.held_commit (by rw [heq]; rfl)]
    exact h.held
  · rw [heq]
    rfl

end MojoEdk.Ports
