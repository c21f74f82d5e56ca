import MojoEdk.Library.DepthFirst
import MojoEdk.Ports.Locked

/-!
# Closing a port

`ClosePort` goes on to the ports that are attached to the messages left unread, and to those
attached to theirs. The ports of a node, each with the ports attached to its messages, are a
graph, and the calls are a depth-first search of it (`Node.Without.closePortAux`), which
ends (`Node.closePortAux_of_lt`).

In a reachable state, the ports closed are thus those that the port owns, each once, and
nothing else changes, unless one of them was left locked by a send that was refused: the call
waits for that one for ever (`System.Reachable.closesOwned_iff`). In a run without such sends, it
always returns (`System.Reachable.closePort_owned`).
-/

namespace MojoEdk.Ports

variable {α : Type*}

namespace Node

/-- The ports attached to the messages of a port. -/
def referenced (s : Node α) (p : PortName) : List PortName :=
  match s.getPort p with
  | some port => port.messageQueue.getReferencedPorts
  | none => []

/-- The announcement that a port is closed, with the node it is for. -/
def closure (s : Node α) (p : PortName) : Option (NodeName × Event α) :=
  (s.getPort p).map fun port =>
    (port.peerNodeName, .observeClosure port.peerPortName (port.nextSequenceNumToSend - 1))

/-- A port has another one: it is attached to a message of its queue, or to a message of a
    port that it has, or it is the port itself. -/
def Owns (s : Node α) : PortName → PortName → Prop := Reaches s.referenced

/-- The node after some ports were closed: they are gone, each with its announcement, and
    nothing else. -/
structure Without (s : Node α) (ps : List PortName) (ν : Node α) : Prop where
  getPort : ∀ q, ν.getPort q = if q ∈ ps then none else s.getPort q
  forwarded : ν.delegate.forwarded.map some = s.delegate.forwarded.map some ++ ps.map s.closure

/-- `ClosePort` closes what the port owns, with an announcement each, and it returns `OK`. It
    nests no deeper than there are ports, and waits for no lock of those that are held. -/
def ClosesOwned (s : Node α) (held : PortName → Bool) (p : PortName) : Prop :=
  ∃ ps ν, s.closePort p = (ν, .ok) ∧ ps.Nodup ∧ (∀ q, q ∈ ps ↔ s.Owns p q) ∧ s.Without ps ν ∧
    (∀ depth, s.ports.entries.length < depth → closePortAux depth s p = (ν, .ok)) ∧
    LockOp.await held (s.closeLocks p) = some held

variable {s ν : Node α} {p : PortName} {ps : List PortName}

/-! ## The calls end -/

theorem length_erasePort_lt {port : Port α} (h : s.getPort p = some port) :
    (s.erasePort p).ports.entries.length < s.ports.entries.length := AList.length_erase_lt h

/-- Closing ports adds none. -/
theorem length_closePortAux_le (depth : ℕ) (s : Node α) (p : PortName) :
    (closePortAux depth s p).1.ports.entries.length ≤ s.ports.entries.length := by
  induction depth generalizing s p with
  | zero => exact le_rfl
  | succ depth ih =>
    rw [closePortAux]
    split
    next => exact le_rfl
    next port hport =>
      have herase := (length_erasePort_lt hport).le
      split
      next => exact herase
      next =>
        refine le_trans ?_ herase
        change (List.foldl _ (((s.erasePort p).noteClosed p).forwardMessage _ _) _).ports.entries.length
          ≤ (((s.erasePort p).noteClosed p).forwardMessage port.peerNodeName
            (.observeClosure port.peerPortName (port.nextSequenceNumToSend - 1))).ports.entries.length
        generalize ((s.erasePort p).noteClosed p).forwardMessage _ _ = s₁
        induction port.messageQueue.getReferencedPorts generalizing s₁ with
        | nil => exact le_rfl
        | cons name names ihs =>
          refine (ihs _).trans ?_
          dsimp only
          split
          · exact ih s₁ name
          · exact le_rfl
      next => exact le_rfl

/-- The calls nest no deeper than there are ports. -/
theorem closePortAux_of_lt {depth depth' : ℕ} (s : Node α) (p : PortName)
    (h : s.ports.entries.length < depth) (h' : s.ports.entries.length < depth') :
    closePortAux depth s p = closePortAux depth' s p := by
  induction depth generalizing s p depth' with
  | zero => exact absurd h (Nat.not_lt_zero _)
  | succ depth ih =>
    obtain ⟨depth', rfl⟩ := Nat.exists_eq_succ_of_ne_zero (Nat.ne_zero_of_lt h')
    rw [closePortAux, closePortAux]
    split
    next => rfl
    next port hport =>
      have herase := length_erasePort_lt hport
      split
      next => rfl
      next =>
        -- There is a port less for the calls that follow.
        have hlt : (((s.erasePort p).noteClosed p).forwardMessage port.peerNodeName
            (.observeClosure port.peerPortName
              (port.nextSequenceNumToSend - 1))).ports.entries.length < s.ports.entries.length :=
          herase
        dsimp only
        generalize ((s.erasePort p).noteClosed p).forwardMessage _ _ = s₁ at hlt ⊢
        refine congrArg (·, Result.ok) ?_
        induction port.messageQueue.getReferencedPorts generalizing s₁ with
        | nil => rfl
        | cons name names ihs =>
          rw [List.foldl_cons, List.foldl_cons]
          cases s₁.getPort name with
          | none => exact ihs s₁ hlt
          | some _ =>
            dsimp only
            have hlt' : s₁.ports.entries.length < depth' := by omega
            rw [ih s₁ name (by omega) hlt']
            exact ihs _ ((length_closePortAux_le depth' s₁ name).trans_lt hlt)
      next => rfl

/-! ## What is closed -/

theorem Without.refl (s : Node α) : s.Without [] s :=
  ⟨fun q => by simp, by simp⟩

/-- A receiving port goes, with its announcement. -/
theorem Without.close (h : s.Without ps ν) {port : Port α} (hport : s.getPort p = some port) :
    s.Without (ps ++ [p]) (((ν.erasePort p).noteClosed p).forwardMessage port.peerNodeName
      (.observeClosure port.peerPortName (port.nextSequenceNumToSend - 1))) where
  getPort q := by
    refine (getPort_erasePort ν p q).trans ?_
    rw [h.getPort]
    by_cases hq : q = p
    · simp [hq]
    · simp [hq]
  forwarded := by
    have hclosure : s.closure p = some (port.peerNodeName,
        .observeClosure port.peerPortName (port.nextSequenceNumToSend - 1)) := by
      rw [closure, hport]
      rfl
    change (ν.delegate.forwarded ++ [_]).map some = _
    rw [List.map_append, h.forwarded, List.map_append, List.append_assoc, List.map_singleton,
      List.map_singleton, hclosure]

/-- The ports attached are closed unless they are gone, as a search skips them. -/
theorem Without.foldl {depth : ℕ} {names : List PortName}
    (hf : ∀ ps ν q, s.Without ps ν → s.Receives q →
      s.Without (dfs s.referenced depth ps q) (Node.closePortAux depth ν q).1)
    (hnames : ∀ q ∈ names, s.Receives q) (h : s.Without ps ν) :
    s.Without (names.foldl (dfs s.referenced depth) ps) (names.foldl (fun ν name =>
      match ν.getPort name with
      | some _ => (Node.closePortAux depth ν name).1
      | none => ν) ν) := by
  induction names generalizing ν ps with
  | nil => exact h
  | cons q names ih =>
    obtain ⟨hq, hnames⟩ := List.forall_mem_cons.1 hnames
    rw [List.foldl_cons, List.foldl_cons]
    refine ih hnames ?_
    have hget := h.getPort q
    split_ifs at hget with hgone
    · rw [hget]
      cases depth with
      | zero => exact h
      | succ depth =>
        rw [dfs, if_pos hgone]
        exact h
    · have hclosed := hf ps ν q h hq
      obtain ⟨port, hport, -⟩ := hq
      rw [hget, hport]
      exact hclosed

/-- The ports closed are those that a search finds, as long as only receiving ports are
    attached to messages. -/
theorem Without.closePortAux (hs : ∀ p, ∀ q ∈ s.referenced p, s.Receives q) {depth : ℕ}
    (h : s.Without ps ν) (hp : s.Receives p) :
    s.Without (dfs s.referenced depth ps p) (closePortAux depth ν p).1 := by
  induction depth generalizing ps ν p with
  | zero => exact h
  | succ depth ih =>
    rw [dfs, Node.closePortAux, h.getPort]
    split_ifs with hmem
    · exact h
    · obtain ⟨port, hport, hstate⟩ := hp
      have hnames := hs p
      rw [referenced, hport] at hnames ⊢
      simp only [hstate]
      exact (h.close hport).foldl (fun _ _ _ h hq => ih h hq) hnames

/-! ## What is locked -/

/-- The ports attached are locked unless they are gone, as they are closed. -/
theorem each_foldl {depth : ℕ} {names : List PortName} (hs : ∀ p, ∀ q ∈ s.referenced p, s.Receives q)
    (hf : ∀ ps ν q, s.Without ps ν → s.Receives q →
      LockOp.each ps ++ closeLocksAux depth ν q = LockOp.each (dfs s.referenced depth ps q))
    (hnames : ∀ q ∈ names, s.Receives q) (h : s.Without ps ν) {before after : List (LockOp PortName)}
    (hlocks : before ++ after = LockOp.each ps) :
    before ++ (names.foldl (fun x name =>
      match x.1.getPort name with
      | some _ => ((Node.closePortAux depth x.1 name).1, x.2 ++ closeLocksAux depth x.1 name)
      | none => x) (ν, after)).2 = LockOp.each (names.foldl (dfs s.referenced depth) ps) := by
  induction names generalizing ν ps after with
  | nil => exact hlocks
  | cons q names ih =>
    obtain ⟨hq, hnames⟩ := List.forall_mem_cons.1 hnames
    rw [List.foldl_cons, List.foldl_cons]
    have hget := h.getPort q
    split_ifs at hget with hgone
    · simp only [hget]
      cases depth with
      | zero => exact ih hnames h hlocks
      | succ depth =>
        rw [show dfs s.referenced (depth + 1) ps q = ps by rw [dfs, if_pos hgone]]
        exact ih hnames h hlocks
    · obtain ⟨port, hport, -⟩ := id hq
      rw [hport] at hget
      simp only [hget]
      refine ih hnames (h.closePortAux hs hq) ?_
      rw [← List.append_assoc, hlocks]
      exact hf ps ν q h hq

/-- `ClosePort` locks the ports that it closes. -/
theorem Without.each_closeLocksAux (hs : ∀ p, ∀ q ∈ s.referenced p, s.Receives q) {depth : ℕ}
    (h : s.Without ps ν) (hp : s.Receives p) :
    LockOp.each ps ++ closeLocksAux depth ν p = LockOp.each (dfs s.referenced depth ps p) := by
  induction depth generalizing ps ν p with
  | zero => exact List.append_nil _
  | succ depth ih =>
    rw [dfs, closeLocksAux, h.getPort]
    split_ifs with hmem
    · exact List.append_nil _
    · obtain ⟨port, hport, hstate⟩ := hp
      have hnames := hs p
      rw [referenced, hport] at hnames ⊢
      simp only [hstate]
      rw [← List.append_assoc]
      refine each_foldl hs (fun _ _ _ h hq => ih h hq) hnames (h.close hport) ?_
      rw [List.append_nil, LockOp.each_append]
      rfl

theorem mem_keys (h : s.Receives p) : p ∈ s.ports.keys.toFinset := by
  obtain ⟨port, hport, -⟩ := h
  have hlookup : (s.ports.lookup p).isSome := Option.isSome_of_eq_some hport
  exact List.mem_toFinset.2 (AList.mem_keys.1 (AList.lookup_isSome.1 hlookup))

/-- A receiving port, as long as only receiving ports are attached to messages: the call waits
    for a port that it owns, if one is locked, and closes what it owns otherwise. -/
theorem closesOwned_iff (hs : ∀ p, ∀ q ∈ s.referenced p, s.Receives q) (hp : s.Receives p)
    (held : PortName → Bool) : s.ClosesOwned held p ↔ ∀ q, s.Owns p q → held q = false := by
  have hdepth : (s.ports.keys.toFinset.filter (· ∉ ([] : List PortName))).card <
      s.ports.entries.length + 1 := by
    have hkeys : s.ports.keys.length = s.ports.entries.length := List.length_map _
    have := (Finset.card_filter_le s.ports.keys.toFinset (· ∉ ([] : List PortName))).trans
      (List.toFinset_card_le _)
    omega
  have hkeys : ∀ q ∈ s.ports.keys.toFinset, ∀ q' ∈ s.referenced q,
      q' ∈ s.ports.keys.toFinset := fun q _ q' hq' => mem_keys (hs q q' hq')
  have hspec := dfs_spec hkeys (mem_keys hp) hdepth
  have howns : ∀ q, q ∈ dfs s.referenced (s.ports.entries.length + 1) [] p ↔ s.Owns p q :=
    fun q => hspec.mem_iff
  have hlocks : s.closeLocks p = LockOp.each (dfs s.referenced (s.ports.entries.length + 1) [] p) :=
    show LockOp.each [] ++ closeLocksAux (s.ports.entries.length + 1) s p = _ from
      (Without.refl s).each_closeLocksAux hs hp
  constructor
  · rintro ⟨-, -, -, -, -, -, -, hawait⟩ q hq
    rw [hlocks, LockOp.await_each] at hawait
    split_ifs at hawait with hfree
    exact hfree q ((howns q).2 hq)
  · intro hfree
    have hclosed : s.Without (dfs s.referenced (s.ports.entries.length + 1) [] p)
        (closePortAux (s.ports.entries.length + 1) s p).1 := (Without.refl s).closePortAux hs hp
    have hok : s.closePort p = ((s.closePort p).1, .ok) := by
      obtain ⟨port, hport, hstate⟩ := hp
      rw [closePort, closePortAux, hport]
      simp only [hstate]
    refine ⟨_, _, hok, hspec.nodup List.nodup_nil, howns, hclosed,
      fun depth h => (closePortAux_of_lt s p h (Nat.lt_succ_self _)).trans hok, ?_⟩
    rw [hlocks, LockOp.await_each, if_pos fun q hq => hfree q ((howns q).1 hq)]

end Node

namespace System

variable {s : System α} {n : NodeName} {p : PortName}

/-- Only receiving ports are attached to messages. -/
theorem Reachable.receives_referenced (h : Reachable Honest s) (p : PortName) :
    ∀ q ∈ (s.start n).referenced p, (s.start n).Receives q := by
  obtain ⟨⟨η, N, hS, hN, -⟩, -⟩ := h.simulates (fun _ _ h => h) (fun _ => True) trivial
    fun _ _ _ _ _ => trivial
  intro q hq
  rw [Node.referenced] at hq
  split at hq
  next port hport =>
    obtain ⟨m, hm, hq⟩ := List.mem_flatMap.1 hq
    exact hS.receives_attached hN hport hm hq
  next => cases hq

/-- `ClosePort` on a receiving port closes what the port owns, and nothing else, unless a port
    that it owns was left locked. -/
theorem Reachable.closesOwned_iff (h : Reachable Honest s) (hp : (s.node n).Receives p) :
    (s.start n).ClosesOwned (s.lockedAt n) p ↔ ∀ q, (s.start n).Owns p q → (n, q) ∉ s.locked := by
  rw [Node.closesOwned_iff h.receives_referenced hp]
  simp only [lockedAt, List.contains_eq_mem, decide_eq_false_iff_not]

/-- `ClosePort` on a receiving port closes what the port owns, and nothing else, in every run
    that leaves no port locked. -/
theorem Reachable.closePort_owned (h : Reachable Careful s) (hp : (s.node n).Receives p) :
    (s.start n).ClosesOwned (s.lockedAt n) p := by
  refine ((h.mono fun _ _ hG => hG.1).closesOwned_iff hp).2 fun q _ => ?_
  rw [h.locked_eq_nil]
  exact List.not_mem_nil

/-- A port with a message unread, to which a port is attached that has another one. -/
theorem Reachable.closePort_nested : ∃ s : System ℕ, (Reachable Careful s ∧
    (s.node 1).Receives 2) ∧ (s.start 1).ClosesOwned (s.lockedAt 1) 2 := by
  obtain ⟨s, hs, -, hp⟩ := exists_reachable (G := Careful) (α := ℕ)
    (P := fun s => ((s.node 1).getPort 2).map (·.state) = some .receiving)
    [.createPortPair 1, .createPortPair 1, .createPortPair 1, .sendMessage 1 3 0 [5],
      .sendMessage 1 1 0 [4]] (by decide)
  have hp : (s.node 1).Receives 2 := Option.map_eq_some_iff.1 hp
  exact ⟨s, ⟨hs, hp⟩, hs.closePort_owned hp⟩

/-- The peer of a port is refused behind another port, which cannot be closed afterwards. -/
theorem Reachable.not_closePort_owned : ∃ s : System ℕ, Reachable Honest s ∧ (1, 3) ∈ s.held ∧
    (s.node 1).Receives 3 ∧ ¬(s.start 1).ClosesOwned (s.lockedAt 1) 3 := by
  obtain ⟨s, hs, -, hheld, hp, hlocked⟩ := exists_reachable (G := Honest) (α := ℕ)
    (P := fun s => (1, 3) ∈ s.held ∧ ((s.node 1).getPort 3).map (·.state) = some .receiving ∧
      (1, 3) ∈ s.locked)
    [.createPortPair 1, .createPortPair 1, .sendMessage 1 1 0 [3, 2]] (by decide)
  have hp : (s.node 1).Receives 3 := Option.map_eq_some_iff.1 hp
  refine ⟨s, hs, hheld, hp, fun hcloses => ?_⟩
  exact (hs.closesOwned_iff hp).1 hcloses 3 .refl hlocked

end System

end MojoEdk.Ports
