import MojoEdk.Ports.Routing

/-!
# Shutting down a node

`CanShutdownCleanly` looks at each port of a node by itself: a port that is not receiving
points to a port of the same node. A route that enters the node can thus not leave it, so
that no pipe between other nodes needs it (`System.Reachable.shutdown`).
-/

namespace MojoEdk.Ports

variable {α : Type*} {s : System α} {n : NodeName}

/-- A proxy of a node that can shut down cleanly points to the same node. -/
theorem Node.peer_of_canShutdownCleanly {ν : Node α} (h : ν.canShutdownCleanly true = true)
    {p : PortName} {port : Port α} (hport : ν.getPort p = some port)
    (hstate : port.state ≠ .receiving) : port.peerNodeName = ν.name := by
  rw [canShutdownCleanly, if_pos rfl, List.all_eq_true] at h
  have hentry := h _ (AList.mem_lookup_iff.1 hport)
  simpa [hstate] using hentry

namespace System

/-- From a place to another, there is a route, and none passes through a node. -/
def Bypasses (s : System α) (n : NodeName) (y z : NodeName × PortName) : Prop :=
  (∃ path, s.Route y path z) ∧ ∀ path, s.Route y path z → ∀ w ∈ path, w.1 ≠ n

/-- A route that ends on another node never was on one that can shut down cleanly. -/
theorem Route.avoids (hname : (s.node n).name = n)
    (hn : (s.node n).canShutdownCleanly true = true) {y z : NodeName × PortName}
    {path : List (NodeName × PortName)} (h : s.Route y path z) (hz : z.1 ≠ n) :
    y.1 ≠ n ∧ ∀ w ∈ path, w.1 ≠ n := by
  induction h with
  | nil y => exact ⟨hz, by simp⟩
  | @cons y z port path hport hstate _ ih =>
    obtain ⟨hpeer, hpath⟩ := ih hz
    have hy : y.1 ≠ n := by
      rintro rfl
      refine hpeer ((Node.peer_of_canShutdownCleanly hn hport ?_).trans hname)
      rcases hstate with hstate | hstate
      · simp [hstate]
      · simp [hstate]
    exact ⟨hy, List.forall_mem_cons.2 ⟨hy, hpath⟩⟩

end System

namespace Simulates

variable {η : Names} {N : Net α} {e : End}

/-- The end of an endpoint is open, and its peer is a port of the other end. -/
theorem endpoint_open (h : Simulates η s N) (hN : N.Sound) {σ : Spot}
    {x peer : NodeName × PortName} (hσ : s.endpoint e σ = some (x, peer)) :
    e.pipe < N.pipes ∧ N.closed e = false ∧ x = η.address (e, N.len e) ∧
      peer = η.address (e.opp, N.toward e) := by
  have hlive : ∀ {k}, N.IsLive e k → e.pipe < N.pipes ∧ N.closed e = false := by
    rintro k ⟨a, ha, -⟩
    refine ⟨hN.shape.pipe_lt ha, Bool.eq_false_iff.2 fun hc => ?_⟩
    rw [hN.shape.isClosed e hc] at ha
    cases ha
  cases σ with
  | port n p =>
    obtain ⟨hk, -, hx, hpeer⟩ := h.endpoint_port hN hσ
    exact ⟨(hlive hk).1, (hlive hk).2, hx, hpeer⟩
  | descriptor i j =>
    obtain ⟨hk, -, hx, hpeer⟩ := h.endpoint_descriptor hN hσ
    exact ⟨(hlive hk).1, (hlive hk).2, hx, hpeer⟩

end Simulates

namespace System

/-- No pipe between other nodes is routed through a node that can shut down cleanly, in
    either direction. -/
theorem Reachable.shutdown (h : Reachable Honest s)
    (hn : (s.node n).canShutdownCleanly true = true) {e : End} {σ τ : Spot}
    {x peer y peer' : NodeName × PortName} (hσ : s.endpoint e σ = some (x, peer))
    (hτ : s.endpoint e.opp τ = some (y, peer')) (hx : x.1 ≠ n) (hy : y.1 ≠ n) :
    s.Bypasses n peer y ∧ s.Bypasses n peer' x := by
  obtain ⟨⟨η, N, hS, hN, -⟩, -⟩ := h.simulates (fun _ _ h => h) (fun _ => True) trivial
    fun _ _ _ _ _ => trivial
  have hname := hS.refines.nodeName n
  obtain ⟨hpipe, ho, hxe, hpeer⟩ := hS.endpoint_open hN hσ
  obtain ⟨hpipe', ho', hye, hpeer'⟩ := hS.endpoint_open hN hτ
  rw [End.opp_opp] at hpeer'
  obtain ⟨path, hpath, -⟩ := hS.exists_route hN hpipe ho ho'
  obtain ⟨path', hpath', -⟩ := hS.exists_route (e := e.opp) hN hpipe' ho' (by rwa [End.opp_opp])
  rw [End.opp_opp] at hpath'
  refine ⟨⟨⟨path, ?_⟩, fun _ hr => (hr.avoids hname hn hy).2⟩,
    ⟨⟨path', ?_⟩, fun _ hr => (hr.avoids hname hn hx).2⟩⟩
  · rw [hpeer, hye]
    exact hpath
  · rw [hpeer', hxe]
    exact hpath'

/-- A port in transit between two nodes, with a third one that has a pipe of its own. -/
theorem Reachable.shutdown_transit : ∃ (s : System ℕ) (x peer y peer' : NodeName × PortName),
    (Reachable Honest s ∧ (s.node 3).canShutdownCleanly true = true ∧
      s.endpoint ⟨1, false⟩ (.descriptor 0 0) = some (x, peer) ∧
      s.endpoint ⟨1, true⟩ (.port 1 4) = some (y, peer') ∧ x.1 ≠ 3 ∧ y.1 ≠ 3) ∧
    s.Bypasses 3 peer y ∧ s.Bypasses 3 peer' x := by
  obtain ⟨s, hs, -, hn, hσ, hτ⟩ := exists_reachable (G := Honest) (α := ℕ)
    (P := fun s => (s.node 3).canShutdownCleanly true = true ∧
      s.endpoint ⟨1, false⟩ (.descriptor 0 0) = some ((2, 7), (1, 4)) ∧
      s.endpoint ⟨1, true⟩ (.port 1 4) = some ((1, 4), (1, 3)))
    [.connect 1 2, .createPortPair 1, .createPortPair 3, .sendMessage 1 1 0 [3]] (by decide)
  exact ⟨s, _, _, _, _, ⟨hs, hn, hσ, hτ, by decide, by decide⟩,
    hs.shutdown hn hσ (e := ⟨1, false⟩) hτ (by decide) (by decide)⟩

end System

end MojoEdk.Ports
