import MojoEdk.Ports.Refine.Events

/-!
# The runs of nodes are runs of the ring of ports

Every action of a run of a system is a run of the net: a step of the embedder or
the event that a node is given, if there is one, and then what the node does on its
own. The ports that the embedder holds are the ends it holds (`Simulates`).
-/

namespace MojoEdk.Ports

variable {α : Type*} {η : Names} {s : System α} {ν : Node α} {N M : Net α} {x : Place}
  {a : Net.Port} {e : End} {es : List End} {strict : Prop}

/-! ## Creating pipes -/

/-- The port of a new pipe. -/
def Port.created (peerNodeName : NodeName) (peerPortName : PortName) : Port α :=
  { (Port.new kInitialSequenceNum kInitialSequenceNum : Port α) with
    state := .receiving
    peerNodeName := peerNodeName
    peerPortName := peerPortName }

/-- The place of an end of a new pipe. -/
def Net.fresh (N : Net α) (side : Bool) : Place := (⟨N.pipes, side⟩, 0)

theorem Net.not_used_fresh (N : Net α) (side : Bool) : ¬N.Used (N.fresh side) :=
  fun h => lt_irrefl _ h.1

theorem Net.Used.create {y : Place} (hy : N.Used y) : N.create.Used y :=
  ⟨hy.1.trans (Nat.lt_succ_self _), hy.2⟩

theorem Net.used_create_fresh (side : Bool) : N.create.Used (N.fresh side) :=
  ⟨Nat.lt_succ_self _, Nat.zero_le _⟩

/-- The places in use are those of before, and the two new ones. -/
theorem Net.used_create (w : N.Shape) {y : Place} (hy : N.create.Used y) :
    (∃ side, y = N.fresh side) ∨ N.Used y := by
  obtain ⟨⟨i, side⟩, k⟩ := y
  obtain ⟨hi, hk⟩ := hy
  rcases Nat.lt_succ_iff_lt_or_eq.1 hi with hi | rfl
  · exact .inr ⟨hi, hk⟩
  · exact .inl ⟨side, Prod.ext rfl (Nat.le_zero.1 (hk.trans_eq (w.unused _ le_rfl).1))⟩

/-- The ends of a new pipe point to each other. -/
theorem Net.peer_create_fresh (w : N.Shape) (side : Bool) :
    N.create.peer (N.fresh side) = N.fresh !side := by
  refine (if_pos (w.unused ⟨N.pipes, side⟩ le_rfl).1.symm).trans (Prod.ext rfl ?_)
  exact (w.unused ⟨N.pipes, side⟩ le_rfl).2.1

theorem Net.queue_fresh (w : N.Shape) (side : Bool) : N.queue (N.fresh side) = 0 :=
  Multiset.filter_eq_nil.2 fun l hl hq => N.not_used_fresh side (hq.2 ▸ w.letters l hl)

/-- The names with those of the ends of a new pipe. -/
def Names.extendPipe (η : Names) (N : Net α) (p : PortName) (n₀ n₁ : NodeName) : Names :=
  (η.extend (N.fresh false) p n₀).extend (N.fresh true) (p + 1) n₁

/-- The ends of a new pipe are on two nodes, with the next two names. -/
theorem Names.extendPipe_fresh (η : Names) (N : Net α) (p : PortName) (n₀ n₁ : NodeName)
    (side : Bool) : (η.extendPipe N p n₀ n₁).name (N.fresh side) = (bif side then p + 1 else p) ∧
      (η.extendPipe N p n₀ n₁).home (N.fresh side) = bif side then n₁ else n₀ := by
  have hne : N.fresh false ≠ N.fresh true := by
    intro heq
    cases congrArg (fun y : Place => y.1.side) heq
  cases side with
  | false =>
    constructor
    · exact (Function.update_of_ne hne ..).trans (Function.update_self ..)
    · exact (Function.update_of_ne hne ..).trans (Function.update_self ..)
  | true => exact ⟨Function.update_self .., Function.update_self ..⟩

theorem Agree.extendPipe (p : PortName) (n₀ n₁ : NodeName) :
    Agree N (η.extendPipe N p n₀ n₁) η := by
  intro y hy
  obtain ⟨h₁, h₂⟩ := Agree.extend (η := η) (N.not_used_fresh false) p n₀ y hy
  obtain ⟨h₃, h₄⟩ :=
    Agree.extend (η := η.extend (N.fresh false) p n₀) (N.not_used_fresh true) (p + 1) n₁ y hy
  exact ⟨h₃.trans h₁, h₄.trans h₂⟩

section Create

variable {κ : Names} {s' : System α} {n : NodeName} {p : PortName}

/-- A new port of a pipe is the one at its end. -/
theorem Matches.created (w : N.Shape) (side : Bool) (hn : κ.home (N.fresh !side) = n)
    (hp : κ.name (N.fresh !side) = p) :
    Matches κ N.create (N.fresh side) (some (.created n p)) := by
  refine ⟨{ kind := .receiving }, (Net.port_create _).trans (if_pos ⟨rfl, rfl⟩), ?_⟩
  exact
    { arrived := by simp
      state := rfl
      peerNodeName := by rw [Net.peer_create_fresh w, hn]; rfl
      peerPortName := by rw [Net.peer_create_fresh w, hp]; rfl
      send := rfl
      next := rfl
      last := rfl
      remove := rfl
      peerClosed := rfl
      stored := rfl
      sorted := List.Pairwise.nil
      queue := by
        rw [show N.create.queue (N.fresh side) = N.queue (N.fresh side) from rfl,
          Net.queue_fresh w]
        rfl }

/-- The other ports are as they were. -/
theorem Matches.create {o : Option (Port α)} {y : Place} (h : Matches η N y o) (hκ : Agree N κ η)
    (w : N.Shape) (hpipe : ∀ l ∈ N.letters, ∀ e ∈ l.ports, e.pipe < N.pipes) (hy : N.Used y) :
    Matches κ N.create y o := by
  refine h.congr (Net.port_create_of_pipe_lt hy.1) rfl (hκ _ (w.peer_used hy)).1
    (hκ _ (w.peer_used hy)).2 (fun b hb hs => hκ.event (w.stored hb hs)) ?_
  refine Multiset.map_congr rfl fun l hl => hκ.entry fun e' he' => ⟨?_, rfl⟩
  exact hpipe l (Multiset.mem_filter.1 hl).1 e' he'

namespace Refines

/-- The new names are those that were to be generated next. -/
theorem name_lt_create (h : Refines η s N) (hκ : Agree N κ η) {y : Place} (hy : N.Used y)
    (side : Bool) : κ.name y < bif side then s.nextPortName + 1 else s.nextPortName := by
  have hlt : κ.name y < s.nextPortName := (hκ y hy).1 ▸ h.lt y hy
  cases side with
  | false => exact hlt
  | true => exact hlt.trans (Nat.lt_succ_self _)

/-- The names of all places differ. -/
theorem inj_create (h : Refines η s N) (w : N.Shape) (hκ : Agree N κ η)
    (hname : ∀ side, κ.name (N.fresh side) = bif side then s.nextPortName + 1 else s.nextPortName)
    {y z : Place} (hy : N.create.Used y) (hz : N.create.Used z) (hyz : κ.name y = κ.name z) :
    y = z := by
  rcases Net.used_create w hy with ⟨side, rfl⟩ | hy <;>
    rcases Net.used_create w hz with ⟨side', rfl⟩ | hz
  · rw [hname, hname] at hyz
    have hside : side = side' := by
      cases side <;> cases side' <;> simp at hyz ⊢
    rw [hside]
  · exact absurd (hyz.symm.trans (hname side)) (h.name_lt_create hκ hz side).ne
  · exact absurd (hyz.trans (hname side')) (h.name_lt_create hκ hy side').ne
  · exact h.inj y z hy hz (by rw [← (hκ y hy).1, hyz, (hκ z hz).1])

/-- A new pipe. -/
theorem create (h : Refines η s N) (w : N.Shape) (c : N.Cargo) {s' : System α} (n₀ n₁ : NodeName)
    (hget : ∀ n p, (s'.node n).getPort p =
      if n = n₁ ∧ p = s.nextPortName + 1 then some (.created n₀ s.nextPortName)
      else if n = n₀ ∧ p = s.nextPortName then some (.created n₁ (s.nextPortName + 1))
      else (s.node n).getPort p)
    (hname : ∀ n, (s'.node n).name = n) (hflight : s'.inFlight = s.inFlight)
    (hnext : s'.nextPortName = s.nextPortName + 2) (hpipes : s'.pipes = s.pipes + 1)
    (hendOf : s'.endOf = Function.update (Function.update s.endOf s.nextPortName ⟨s.pipes, false⟩)
      (s.nextPortName + 1) ⟨s.pipes, true⟩)
    (hclosed : s'.closed = s.closed) (hsent : s'.sent = s.sent)
    (hreturned : s'.returned = s.returned) :
    Refines (η.extendPipe N s.nextPortName n₀ n₁) s' N.create := by
  set κ := η.extendPipe N s.nextPortName n₀ n₁
  have hκ : Agree N κ η := .extendPipe _ _ _
  have hnew : ∀ side, κ.name (N.fresh side) =
      bif side then s.nextPortName + 1 else s.nextPortName := fun side =>
    (η.extendPipe_fresh N s.nextPortName n₀ n₁ side).1
  have hhome : ∀ side, κ.home (N.fresh side) = bif side then n₁ else n₀ := fun side =>
    (η.extendPipe_fresh N s.nextPortName n₀ n₁ side).2
  have hpipe : ∀ l ∈ N.letters, ∀ e ∈ l.ports, e.pipe < N.pipes := fun l hl e he =>
    (c.letters l hl e he).pipe_lt w
  have hp₀₁ : s.nextPortName ≠ s.nextPortName + 1 := (Nat.lt_succ_self _).ne
  have hfresh : ∀ y, N.Used y → κ.name y ≠ s.nextPortName ∧ κ.name y ≠ s.nextPortName + 1 :=
    fun y hy => ⟨(h.name_lt_create hκ hy false).ne, (h.name_lt_create hκ hy true).ne⟩
  refine
    { lt := fun y hy => ?_
      inj := fun y z => h.inj_create w hκ hnew
      endOf := fun y hy => ?_
      named := fun n p port hp => ?_
      port := fun y hy => ?_
      flight := ?_
      homes := fun l hl e he => ?_
      nodeName := hname
      pipes := by rw [hpipes, h.pipes]; rfl
      closed := hclosed.trans h.closed
      sent := hsent.trans h.sent
      returned := hreturned.trans h.returned }
  · rw [hnext]
    rcases Net.used_create w hy with ⟨side, rfl⟩ | hy
    · rw [hnew]
      cases side with
      | false => exact Nat.lt_add_of_pos_right Nat.two_pos
      | true => exact Nat.lt_succ_self _
    · exact (h.name_lt_create hκ hy true).trans (Nat.lt_succ_self _)
  · rw [hendOf]
    rcases Net.used_create w hy with ⟨side, rfl⟩ | hy
    · cases side with
      | false => rw [hnew, cond_false, Function.update_of_ne hp₀₁, Function.update_self, h.pipes]; rfl
      | true => rw [hnew, cond_true, Function.update_self, h.pipes]; rfl
    · rw [Function.update_of_ne (hfresh y hy).2, Function.update_of_ne (hfresh y hy).1,
        (hκ y hy).1]
      exact h.endOf y hy
  · rw [hget] at hp
    split_ifs at hp with hn₁ hn₀
    · exact ⟨N.fresh true, Net.used_create_fresh true, (hhome true).trans hn₁.1.symm,
        (hnew true).trans hn₁.2.symm⟩
    · exact ⟨N.fresh false, Net.used_create_fresh false, (hhome false).trans hn₀.1.symm,
        (hnew false).trans hn₀.2.symm⟩
    · obtain ⟨y, hy, h1, h2⟩ := h.named n p port hp
      exact ⟨y, hy.create, (hκ y hy).2.trans h1, (hκ y hy).1.trans h2⟩
  · rw [hget]
    rcases Net.used_create w hy with ⟨side, rfl⟩ | hy
    · cases side with
      | false =>
        rw [hnew, hhome, cond_false, cond_false, if_neg fun hn => hp₀₁ hn.2, if_pos ⟨rfl, rfl⟩]
        exact .created w false (hhome true) (hnew true)
      | true =>
        rw [hnew, hhome, cond_true, cond_true, if_pos ⟨rfl, rfl⟩]
        exact .created w true (hhome false) (hnew false)
    · rw [if_neg (fun hn => (hfresh y hy).2 hn.2), if_neg (fun hn => (hfresh y hy).1 hn.2),
        (hκ y hy).1, (hκ y hy).2]
      exact (h.port y hy).create hκ w hpipe hy
  · rw [hflight]
    refine h.flight.trans (hκ.flight (M := N.create) w rfl rfl fun l hl e he => ?_).symm
    have hp := hpipe l hl e he
    exact ⟨hp, rfl, rfl, Net.port_create_of_pipe_lt hp⟩
  · rw [(hκ _ (w.letters l hl)).2]
    exact (hκ (e, N.len e) ⟨hpipe l hl e he, le_rfl⟩).2.trans (h.homes l hl e he)

end Refines

end Create

theorem System.name_commit (h : ∀ n, (s.node n).name = n) (ν : Node α) (n : NodeName) :
    ((s.commit ν).node n).name = n := by
  simp only [commit, Function.update_apply]
  split_ifs with hn
  · exact hn.symm
  · exact h n

/-- A call that only sets a port. -/
theorem System.getPort_commit_set {n : NodeName} {p : PortName} {port : Port α}
    (hname : ν.name = n)
    (hget : ∀ q, ν.getPort q = if q = p then some port else (s.node n).getPort q) (m : NodeName)
    (q : PortName) : ((s.commit ν).node m).getPort q =
      if m = n ∧ q = p then some port else (s.node m).getPort q := by
  rw [getPort_commit, hname, hget]
  by_cases hm : m = n
  · subst hm
    simp
  · simp [hm]

theorem System.held_commit (h : ν.delegate.closed = []) : (s.commit ν).held = s.held := by
  simp [commit, h]

theorem System.oops_commit (h : ν.delegate.oops = []) : (s.commit ν).oops = s.oops := by
  simp [commit, h]

/-- The state of a system between two actions is the one of a net. -/
structure Simulates (η : Names) (s : System α) (N : Net α) : Prop where
  refines : Refines η s N
  held : (s.held : Multiset _) = N.held.map fun e => (η.home (e, N.len e), η.name (e, N.len e))

namespace Node

theorem createPortPair_of_steps {ν₁ ν₂ ν₃ ν₄ : Node α} {p₀ p₁ : PortName}
    (h₁ : ν.createUninitializedPort = (ν₁, p₀, .ok)) (h₂ : ν₁.createUninitializedPort = (ν₂, p₁, .ok))
    (h₃ : ν₂.initializePort p₀ ν₂.name p₁ = (ν₃, .ok))
    (h₄ : ν₃.initializePort p₁ ν₃.name p₀ = (ν₄, .ok)) : ν.createPortPair = (ν₄, p₀, p₁, .ok) := by
  simp only [createPortPair, h₁, h₂, h₃, h₄]

theorem initializePort_of_new {p q : PortName} {n : NodeName}
    (h : ν.getPort p = some (Port.new kInitialSequenceNum kInitialSequenceNum)) :
    ν.initializePort p n q = ((ν.setPort p (.created n q)).portStatusChanged p, .ok) :=
  initializePort_of_uninitialized h rfl n q

end Node

namespace Simulates

theorem start_fresh (h : Simulates η s N) {p : PortName} (hp : s.nextPortName ≤ p) (n : NodeName) :
    (s.start n).getPort p = none :=
  h.refines.fresh hp n

/-- A new pipe, whose ends the embedder holds. -/
theorem create (h : Simulates η s N) (w : N.Shape) (c : N.Cargo) {s' : System α} (n₀ n₁ : NodeName)
    (hget : ∀ n p, (s'.node n).getPort p =
      if n = n₁ ∧ p = s.nextPortName + 1 then some (.created n₀ s.nextPortName)
      else if n = n₀ ∧ p = s.nextPortName then some (.created n₁ (s.nextPortName + 1))
      else (s.node n).getPort p)
    (hname : ∀ n, (s'.node n).name = n) (hflight : s'.inFlight = s.inFlight)
    (hnext : s'.nextPortName = s.nextPortName + 2) (hpipes : s'.pipes = s.pipes + 1)
    (hendOf : s'.endOf = Function.update (Function.update s.endOf s.nextPortName ⟨s.pipes, false⟩)
      (s.nextPortName + 1) ⟨s.pipes, true⟩)
    (hclosed : s'.closed = s.closed) (hsent : s'.sent = s.sent)
    (hreturned : s'.returned = s.returned)
    (hheld : s'.held = s.held ++ [(n₀, s.nextPortName), (n₁, s.nextPortName + 1)]) :
    ∃ κ, Simulates κ s' N.create := by
  refine ⟨_, h.refines.create w c n₀ n₁ hget hname hflight hnext hpipes hendOf hclosed hsent
    hreturned, ?_⟩
  have hne : ((⟨N.pipes, false⟩, 0) : Place) ≠ (⟨N.pipes, true⟩, 0) := by
    intro heq
    cases congrArg (fun y : Place => y.1.side) heq
  rw [hheld, Net.create, Multiset.map_cons, Multiset.map_cons, (w.unused ⟨N.pipes, false⟩ le_rfl).1,
    (w.unused ⟨N.pipes, true⟩ le_rfl).1, ← Multiset.coe_add, Multiset.add_comm, h.held]
  simp only [Names.extendPipe, Net.fresh, Names.extend, Function.update_self,
    Function.update_of_ne hne]
  rw [← Multiset.cons_coe, ← Multiset.cons_coe, Multiset.cons_add, Multiset.cons_add,
    Multiset.coe_nil, zero_add]
  congr 2
  refine Multiset.map_congr rfl fun e he => ?_
  have hpipe : e.pipe < N.pipes := (c.held e he).pipe_lt w
  have hne' : ∀ b, ((e, N.len e) : Place) ≠ (⟨N.pipes, b⟩, 0) := by
    intro b heq
    exact hpipe.ne (congrArg (fun y : Place => y.1.pipe) heq)
  rw [Function.update_of_ne (hne' _), Function.update_of_ne (hne' _), Function.update_of_ne (hne' _),
    Function.update_of_ne (hne' _)]

/-- `CreatePortPair`. -/
theorem createPortPair (h : Simulates η s N) (w : N.Shape) (c : N.Cargo) (n : NodeName) :
    (∃ κ, Simulates κ (s.createPortPair n) N.create) ∧ (s.createPortPair n).oops = s.oops := by
  set p := s.nextPortName with hp
  have hne : p + 1 ≠ p := (Nat.lt_succ_self p).ne'
  -- The node after each of the four steps: two new ports, and each initialized with the other as
  -- its peer.
  set ν₁ := (s.start n).generateRandomPortName.2.setPort p
    (Port.new kInitialSequenceNum kInitialSequenceNum) with hν₁
  set ν₂ := ν₁.generateRandomPortName.2.setPort (p + 1)
    (Port.new kInitialSequenceNum kInitialSequenceNum) with hν₂
  set ν₃ := ((ν₂.setPort p (.created n (p + 1))).portStatusChanged p) with hν₃
  set ν₄ := ((ν₃.setPort (p + 1) (.created n p)).portStatusChanged (p + 1)) with hν₄
  have hname : (s.start n).name = n := h.refines.nodeName n
  have hget₁ : ∀ q, ν₁.getPort q = if q = p then some (Port.new _ _) else (s.start n).getPort q :=
    fun q => Node.getPort_setPort ..
  have hget₂ : ∀ q, ν₂.getPort q = if q = p + 1 then some (Port.new _ _) else ν₁.getPort q :=
    fun q => Node.getPort_setPort ..
  have hget₃ : ∀ q, ν₃.getPort q = if q = p then some (.created n (p + 1)) else ν₂.getPort q :=
    fun q => Node.getPort_setPort ..
  have hget₄ : ∀ q, ν₄.getPort q = if q = p + 1 then some (.created n p) else ν₃.getPort q :=
    fun q => Node.getPort_setPort ..
  have hnone : ν₁.getPort (p + 1) = none := by
    rw [hget₁, if_neg hne]
    exact h.start_fresh (Nat.le_succ _) n
  have h₁ : (s.start n).createUninitializedPort = (ν₁, p, .ok) :=
    Node.createUninitializedPort_of_fresh (h.start_fresh le_rfl n)
  have h₂ : ν₁.createUninitializedPort = (ν₂, p + 1, .ok) :=
    Node.createUninitializedPort_of_fresh hnone
  have h₃ : ν₂.initializePort p ν₂.name (p + 1) = (ν₃, .ok) := by
    rw [show ν₂.name = n from hname]
    exact Node.initializePort_of_new (by rw [hget₂, if_neg hne.symm, hget₁, if_pos rfl])
  have h₄ : ν₃.initializePort (p + 1) ν₃.name p = (ν₄, .ok) := by
    rw [show ν₃.name = n from hname]
    exact Node.initializePort_of_new (by rw [hget₃, if_neg hne, hget₂, if_pos rfl])
  have hsys : s.createPortPair n = (s.commit ν₄).addPipe n p n (p + 1) := by
    rw [System.createPortPair, Node.createPortPair_of_steps h₁ h₂ h₃ h₄]
  rw [hsys]
  refine ⟨h.create w c n n (fun m q => ?_)
    (System.name_commit h.refines.nodeName ν₄) (List.append_nil _) rfl rfl rfl rfl rfl rfl ?_,
    List.append_nil _⟩
  · change ((s.commit ν₄).node m).getPort q = _
    rw [System.getPort_commit, show ν₄.name = n from hname, hget₄, hget₃, hget₂, hget₁, ← hp]
    by_cases hm : m = n
    · subst hm
      by_cases hq : q = p + 1
      · simp [hq]
      · by_cases hq' : q = p
        · simp [hq']
        · simp only [hq, hq', if_false, and_false, if_true]
          rfl
    · simp [hm]
  · change (s.commit ν₄).held ++ _ = _
    rw [System.held_commit rfl]

/-- A pipe between two nodes. -/
theorem connect (h : Simulates η s N) (w : N.Shape) (c : N.Cargo) (n₀ n₁ : NodeName) :
    (∃ κ, Simulates κ (s.connect n₀ n₁) N.create) ∧ (s.connect n₀ n₁).oops = s.oops := by
  set p := s.nextPortName with hp
  have hne : p ≠ p + 1 := (Nat.lt_succ_self p).ne
  have hname := h.refines.nodeName
  -- The four calls, one after the other.
  set ν₀ := (s.start n₀).generateRandomPortName.2.setPort p
    (Port.new kInitialSequenceNum kInitialSequenceNum) with hν₀
  have hname₁ := System.name_commit hname ν₀
  have hget₁ := System.getPort_commit_set (s := s) (ν := ν₀) (hname n₀)
    fun q => Node.getPort_setPort ..
  set s₁ := s.commit ν₀ with hs₁
  set ν₁ := (s₁.start n₁).generateRandomPortName.2.setPort (p + 1)
    (Port.new kInitialSequenceNum kInitialSequenceNum) with hν₁
  have hname₂ := System.name_commit hname₁ ν₁
  have hget₂ := System.getPort_commit_set (s := s₁) (ν := ν₁) (hname₁ n₁)
    fun q => Node.getPort_setPort ..
  set s₂ := s₁.commit ν₁ with hs₂
  set ν₂ := ((s₂.start n₀).setPort p (.created n₁ (p + 1))).portStatusChanged p with hν₂
  have hname₃ := System.name_commit hname₂ ν₂
  have hget₃ := System.getPort_commit_set (s := s₂) (ν := ν₂) (hname₂ n₀)
    fun q => Node.getPort_setPort ..
  set s₃ := s₂.commit ν₂ with hs₃
  set ν₃ := ((s₃.start n₁).setPort (p + 1) (.created n₀ p)).portStatusChanged (p + 1) with hν₃
  have hname₄ := System.name_commit hname₃ ν₃
  have hget₄ := System.getPort_commit_set (s := s₃) (ν := ν₃) (hname₃ n₁)
    fun q => Node.getPort_setPort ..
  have h₀ : (s.start n₀).createUninitializedPort = (ν₀, p, .ok) :=
    Node.createUninitializedPort_of_fresh (h.start_fresh le_rfl n₀)
  have h₁ : (s₁.start n₁).createUninitializedPort = (ν₁, p + 1, .ok) := by
    refine Node.createUninitializedPort_of_fresh ?_
    change (s₁.node n₁).getPort (p + 1) = none
    rw [hget₁, if_neg (fun hn => hne hn.2.symm)]
    exact h.start_fresh (Nat.le_succ _) n₁
  have h₂ : (s₂.start n₀).initializePort p n₁ (p + 1) = (ν₂, .ok) := by
    refine Node.initializePort_of_new ?_
    change (s₂.node n₀).getPort p = _
    rw [hget₂, if_neg (fun hn => hne hn.2), hget₁, if_pos ⟨rfl, rfl⟩]
  have h₃ : (s₃.start n₁).initializePort (p + 1) n₀ p = (ν₃, .ok) := by
    refine Node.initializePort_of_new ?_
    change (s₃.node n₁).getPort (p + 1) = _
    rw [hget₃, if_neg (fun hn => hne hn.2.symm), hget₂, if_pos ⟨rfl, rfl⟩]
  have hsys : s.connect n₀ n₁ = (s₃.commit ν₃).addPipe n₀ p n₁ (p + 1) := by
    simp only [System.connect, h₀, ← hs₁, h₁, ← hs₂, h₂, ← hs₃, h₃]
  rw [hsys]
  refine ⟨h.create w c n₀ n₁ (fun m q => ?_) hname₄ ?_ rfl rfl rfl rfl rfl rfl ?_, ?_⟩
  · change ((s₃.commit ν₃).node m).getPort q = _
    rw [hget₄, hget₃, hget₂, hget₁, ← hp]
    by_cases hq : q = p + 1
    · subst hq
      by_cases hm : m = n₁ <;> simp [hm]
    · by_cases hq' : q = p
      · rw [hq']
        by_cases hm : m = n₀ <;> simp [hm]
      · simp [hq, hq']
  · change (((s.inFlight ++ []) ++ []) ++ []) ++ [] = s.inFlight
    simp only [List.append_nil]
  · change (s₃.commit ν₃).held ++ _ = _
    rw [System.held_commit rfl, System.held_commit rfl, System.held_commit rfl,
      System.held_commit rfl]
  · change (((s.oops ++ []) ++ []) ++ []) ++ [] = s.oops
    simp only [List.append_nil]

end Simulates

/-! ## The ports held -/

/-- A port held is not a closed one. -/
theorem Refines.held_ne_closed (h : Refines η s N) (w : N.Shape) (c : N.Cargo) {e' : End}
    (he : e ∈ N.held) (hpipe : e'.pipe < N.pipes) (hc : N.closed e') :
    η.name (e, N.len e) ≠ η.name (e', N.len e') := by
  intro heq
  obtain ⟨a, hp, -⟩ := c.held e he
  have hx := h.inj _ _ (w.used hp) ⟨hpipe, le_rfl⟩ heq
  obtain rfl : e = e' := congrArg Prod.fst hx
  rw [w.isClosed e hc] at hp
  cases hp

/-- After a call, the embedder holds what it did. -/
theorem Call.simulates {κ : Names} {ν' : Node α} (h : Call strict η s ν N κ ν' M) (w : N.Shape)
    (c : N.Cargo) (hcl : ν.delegate.closed = [])
    (hheld : (s.held : Multiset _) = N.held.map fun e => (η.home (e, N.len e), η.name (e, N.len e))) :
    Simulates κ (s.commit ν') M := by
  refine ⟨h.refines, ?_⟩
  have hmap : (s.held : Multiset _) =
      M.held.map fun e => (κ.home (e, M.len e), κ.name (e, M.len e)) := by
    rw [hheld, h.held]
    refine Multiset.map_congr rfl fun e he => ?_
    have hag := h.agree (e, N.len e) ⟨(c.held e he).pipe_lt w, le_rfl⟩
    rw [h.len e he, hag.1, hag.2]
  have hkeep : ∀ x ∈ s.held, x.2 ∉ ν'.delegate.closed := by
    intro x hx hxc
    have hx' : x ∈ (s.held : Multiset _) := hx
    rw [hmap] at hx'
    obtain ⟨e, he, rfl⟩ := Multiset.mem_map.1 hx'
    rcases h.closed _ hxc with hp | ⟨e', hpipe, hc', hname⟩
    · rw [hcl] at hp
      cases hp
    · exact h.refines.held_ne_closed (h.run.shape w c) (h.run.cargo w c) he hpipe hc' hname.symm
  rw [← hmap]
  exact congrArg _ (List.filter_eq_self.2 fun x hx => decide_eq_true (hkeep x hx))

theorem Simulates.start (h : Simulates η s N) (n : NodeName) : Simulates η (s.commit (s.start n)) N :=
  ⟨h.refines.start n, by rw [System.held_commit rfl, h.held]⟩

namespace Simulates

/-- A port held is the live port of an end held. -/
theorem exists_of_mem_held (h : Simulates η s N) {n : NodeName} {p : PortName}
    (hp : (n, p) ∈ s.held) : ∃ e ∈ N.held, η.home (e, N.len e) = n ∧ η.name (e, N.len e) = p := by
  have hp' : (n, p) ∈ (s.held : Multiset _) := hp
  rw [h.held] at hp'
  obtain ⟨e, he, heq⟩ := Multiset.mem_map.1 hp'
  exact ⟨e, he, congrArg Prod.fst heq, congrArg Prod.snd heq⟩

theorem exists_list_of_mem_held (h : Simulates η s N) {n : NodeName} {ports : List PortName}
    (hports : ∀ q ∈ ports, (n, q) ∈ s.held) :
    ∃ es : List End, ports = es.map (η.live N) ∧ (∀ e ∈ es, e ∈ N.held) ∧
      ∀ e ∈ es, η.home (e, N.len e) = n := by
  induction ports with
  | nil => exact ⟨[], rfl, by simp, by simp⟩
  | cons q ports ih =>
    obtain ⟨es, rfl, hes, hhome⟩ := ih fun q hq => hports q (List.mem_cons_of_mem _ hq)
    obtain ⟨e, he, hn, rfl⟩ := h.exists_of_mem_held (hports q List.mem_cons_self)
    exact ⟨e :: es, rfl, List.forall_mem_cons.2 ⟨he, hes⟩, List.forall_mem_cons.2 ⟨hn, hhome⟩⟩

/-- `ClosePort` on a port held. -/
theorem closePort (strict : Prop) (h : Simulates η s N) (w : N.Shape) (c : N.Cargo) {n : NodeName} {p : PortName}
    (hp : (n, p) ∈ s.held) :
    ∃ M, Net.Run strict N M ∧ Simulates η (s.commit ((s.start n).closePort p).1) M ∧
      (s.commit ((s.start n).closePort p).1).oops = s.oops := by
  obtain ⟨e, he, hn, rfl⟩ := h.exists_of_mem_held hp
  obtain ⟨H, hH⟩ := Multiset.exists_cons_of_mem he
  have hname : η.home (e, N.len e) = (s.start n).name := hn.trans (h.refines.nodeName n).symm
  obtain ⟨M, -, hM, hmem, hclosed⟩ := (h.refines.start n).closePortAux strict
    ((s.start n).ports.entries.length + 1) w c hH hname (Nat.le_succ _)
  have wM := hM.run.shape w c
  have cM := hM.run.cargo w c
  refine ⟨M, hM.run, ⟨hM.refines, ?_⟩, ?_⟩
  · have hkeep : ∀ x ∈ H.map (fun e => (η.home (e, N.len e), η.name (e, N.len e))),
        x.2 ∉ ((s.start n).closePort (η.live N e)).1.delegate.closed := by
      intro x hx hxc
      obtain ⟨e', he', rfl⟩ := Multiset.mem_map.1 hx
      rcases hM.closed _ hxc with hp | ⟨e'', hpipe, hc'', hname⟩
      · cases hp
      · rw [← hM.len] at hname
        exact hM.refines.held_ne_closed wM cM (hM.held ▸ he') hpipe hc'' hname.symm
    have hfilter : (s.commit ((s.start n).closePort (η.live N e)).1).held = s.held.filter fun x =>
      x.2 ∉ ((s.start n).closePort (η.live N e)).1.delegate.closed := rfl
    rw [Names.live] at hfilter
    rw [hfilter, ← Multiset.filter_coe, h.held, hH, Multiset.map_cons, Multiset.filter_cons_of_neg,
      hM.held, hM.len]
    · exact Multiset.filter_eq_self.2 hkeep
    · exact not_not.2 hmem
  · exact System.oops_commit hM.oops

end Simulates

/-! ## Reading messages -/

theorem Net.set_self (hx : N.port x = some a) : N.set x a = N := by
  rw [Net.set, ← hx, Function.update_eq_self]

namespace Refines

/-- The ports of a message handed out become signalable. -/
theorem setSignalable (h : Refines η (s.commit ν) N) (w : N.Shape) (c : N.Cargo)
    (hlive : ∀ e ∈ es, N.IsLive e .receiving) (hn : ∀ e ∈ es, η.home (e, N.len e) = ν.name) :
    ν.Quiet (ν.setSignalable (es.map (η.live N))) ∧
      Refines η (s.commit (ν.setSignalable (es.map (η.live N)))) N := by
  induction es generalizing ν with
  | nil => exact ⟨.refl ν, h⟩
  | cons e es ih =>
    obtain ⟨a, hp, hk⟩ := hlive e List.mem_cons_self
    have hen := hn e List.mem_cons_self
    obtain ⟨port, hport, hm⟩ := h.getPort w hp (by simp [hk]) hen
    have hstate : port.state = .receiving := by
      rw [hm.state, hk]
      rfl
    have hm' : PortMatch η N (e, N.len e) a
      { port with messageQueue := { port.messageQueue with signalable := true } } := { hm with }
    have hset := h.set (w.used hp) hen hm' (.of_receiving c hp (by simp [hk]))
    rw [Net.set_self hp] at hset
    obtain ⟨hq, hr⟩ := ih hset (fun e' he' => hlive e' (List.mem_cons_of_mem _ he'))
      fun e' he' => hn e' (List.mem_cons_of_mem _ he')
    have heq : ν.setSignalable ((e :: es).map (η.live N)) = (ν.setPort (η.name (e, N.len e))
        { port with messageQueue := { port.messageQueue with signalable := true } }).setSignalable
          (es.map (η.live N)) := by
      rw [Node.setSignalable, List.map_cons, List.foldl_cons, Names.live, hport]
      simp only [hstate, if_true]
      rfl
    rw [heq]
    exact ⟨⟨hq.name, hq.oops, hq.closed⟩, hr⟩

end Refines

/-- History: a message was returned. -/
theorem Refines.noteReturned (h : Refines η s N) (n : NodeName) (e : End) (m : Message α) :
    Refines η (s.noteReturned n e m) (N.noteReturned e (m.sequenceNum, m.payload)) :=
  { h with
    port := fun y hy => (h.port y hy).congr rfl rfl rfl rfl (fun _ _ _ => rfl) rfl
    returned := by
      change Function.update s.returned e _ = Function.update N.returned e _
      rw [h.returned] }

namespace Simulates

/-- The next message of a port is taken from its queue. -/
theorem getMessage (h : Simulates η s N) (w : N.Shape) (c : N.Cargo) {port : Port α}
    {m : Message α} {rest : List (Message α)} {n : NodeName} (hx : N.port (e, N.len e) = some a)
    (hk : a.kind = .receiving) (hn : η.home (e, N.len e) = n)
    (hm : PortMatch η N (e, N.len e) a port) (hacc : port.canAcceptMoreMessages)
    (hheap : port.messageQueue.heap = m :: rest)
    (hnext : m.sequenceNum = port.messageQueue.nextSequenceNum) :
    ∃ M, Net.Step N .embedder M ∧ M.len = N.len ∧
      Refines η ((s.noteReturned n e m).commit ((s.start n).setPort (η.name (e, N.len e))
        (port.popped rest port.nextSequenceNumToSend))) M ∧
      ∃ es : List End, es.map (η.live N) = m.ports ∧ M.held = ↑es + N.held ∧
        ∀ e' ∈ es, η.home (e', N.len e') = n := by
  have hname : η.home (e, N.len e) = (s.start n).name := hn.trans (h.refines.nodeName n).symm
  obtain ⟨l, L, hL, hlq, hlx, hle, hrest⟩ := hm.pop hheap
  obtain ⟨hnum, hpay, hports⟩ : l.number = m.sequenceNum ∧ l.payload = m.payload ∧
      l.ports.map (η.live N) = m.ports := by
    simpa [Names.entry, Message.entry] using hle
  have hstep := Net.Step.get hx hk (hm.canAccept ▸ hacc) hL hlq hlx
    (hnum.trans (hnext.trans hm.next))
  rw [hnum, hpay] at hstep
  have hm' : PortMatch η ((N.noteReturned e (m.sequenceNum, m.payload)).withLetters L)
      (e, N.len e) { a with next := a.next + 1 } (port.popped rest port.nextSequenceNumToSend) := by
    rw [hm.send]
    exact { hm.popped hheap hrest a.send with }
  have hpop := ((h.refines.noteReturned n e m).start n).pop
    (w.noteReturned e (m.sequenceNum, m.payload)) (c.noteReturned e (m.sequenceNum, m.payload))
    hx hname hL hlq hlx (by simp [hk]) hm'
  refine ⟨_, hstep, rfl, ?_, l.ports, hports, rfl, fun e' he' =>
    (h.refines.homes l (hL ▸ Multiset.mem_cons_self l L) e' he').trans (by rw [hlx, hn])⟩
  exact hpop.withHeld (↑l.ports + N.held)

/-- `GetMessageIf` on a port held. -/
theorem getMessageIf (h : Simulates η s N) (w : N.Shape) (c : N.Cargo) {n : NodeName}
    {p : PortName} (hp : (n, p) ∈ s.held) (selector : Option (Message α → Bool)) :
    (∃ M, (M = N ∨ Net.Step N .embedder M) ∧ Simulates η (s.getMessageIf n p selector) M) ∧
      (s.getMessageIf n p selector).oops = s.oops := by
  obtain ⟨e, he, hn, rfl⟩ := h.exists_of_mem_held hp
  obtain ⟨a, hx, hk⟩ := c.held e he
  have hname : η.home (e, N.len e) = (s.start n).name := hn.trans (h.refines.nodeName n).symm
  obtain ⟨port, hport, hm⟩ := (h.refines.start n).getPort w hx (by simp [hk]) hname
  have hstate : port.state = .receiving := by
    rw [hm.state, hk]
    rfl
  have hsame : ∀ rv, (s.start n).getMessageIf (η.name (e, N.len e)) selector =
      (s.start n, none, rv) → (∃ M, (M = N ∨ Net.Step N .embedder M) ∧
        Simulates η (s.getMessageIf n (η.name (e, N.len e)) selector) M) ∧
      (s.getMessageIf n (η.name (e, N.len e)) selector).oops = s.oops := by
    intro rv hget
    rw [System.getMessageIf, hget]
    exact ⟨⟨N, .inl rfl, h.start n⟩, System.oops_commit rfl⟩
  by_cases hacc : port.canAcceptMoreMessages
  · cases hheap : port.messageQueue.heap with
    | nil =>
      refine hsame .ok ?_
      simp [Node.getMessageIf, hport, hstate, hacc, MessageQueue.getNextMessageIf, hheap]
    | cons m rest =>
      by_cases hnext : m.sequenceNum = port.messageQueue.nextSequenceNum ∧ selector.all (· m)
      · obtain ⟨M, hstep, hlen, hr, es, hes, hheld, hhome⟩ :=
          h.getMessage w c hx hk hn hm hacc hheap hnext.1
        have cM := c.step w hstep
        -- The ports of the message become signalable.
        obtain ⟨hq, hsig⟩ := hr.setSignalable (w.step c hstep) cM
          (fun e' he' => cM.held e' (hheld ▸ Multiset.mem_add.2 (.inl he')))
          (fun e' he' => by
            rw [hlen, hhome e' he']
            exact hn.symm.trans hname)
        have hlive : es.map (η.live M) = m.ports := by
          rw [← hes, show η.live M = η.live N from funext fun e => by rw [Names.live, hlen]; rfl]
        rw [hlive] at hq hsig
        have hgn : port.messageQueue.getNextMessageIf selector = (some m, { port.messageQueue with
            heap := rest
            nextSequenceNum := port.messageQueue.nextSequenceNum + 1 }) := by
          simp [MessageQueue.getNextMessageIf, hheap, hnext]
        have hget : (s.start n).getMessageIf (η.name (e, N.len e)) selector =
            (((s.start n).setPort (η.name (e, N.len e))
              (port.popped rest port.nextSequenceNumToSend)).setSignalable m.ports,
              some m, .ok) := by
          rw [Node.getMessageIf, hport]
          simp only [hgn]
          rw [if_neg (not_not.2 hstate), if_neg (by simp [hacc])]
          rfl
        rw [System.getMessageIf, hget, h.refines.endOf (e, N.len e) (w.used hx)]
        refine ⟨⟨M, .inr hstep, { hsig with }, ?_⟩, System.oops_commit hq.oops⟩
        change (↑((s.commit _).held ++ m.ports.map (n, ·)) : Multiset (NodeName × PortName)) = _
        rw [System.held_commit hq.closed, hheld, Multiset.map_add, hlen, ← h.held, Multiset.map_coe,
          ← Multiset.coe_add, Multiset.add_comm, ← hes, List.map_map]
        congr 2
        refine List.map_congr_left fun e' he' => ?_
        rw [hhome e' he']
        rfl
      · refine hsame .ok ?_
        simp [Node.getMessageIf, hport, hstate, hacc, MessageQueue.getNextMessageIf, hheap, hnext]
  · refine hsame .errorPortPeerClosed ?_
    simp [Node.getMessageIf, hport, hstate, hacc]

end Simulates

/-! ## Sending messages -/

/-- History: a message was sent. -/
theorem Refines.noteSent (h : Refines η s N) (n : NodeName) (e : End) (m : UInt64 × α)
    (ports : List PortName) : Refines η (s.noteSent n e m ports) (N.noteSent e m) :=
  { h with
    port := fun y hy => (h.port y hy).congr rfl rfl rfl rfl (fun _ _ _ => rfl) rfl
    sent := by
      change Function.update s.sent e _ = Function.update N.sent e _
      rw [h.sent] }

/-- History: ports were left locked. -/
theorem Refines.noteLocked (h : Refines η (s.commit ν) N) (names : List PortName) :
    Refines η (s.commit (ν.noteLocked names)) N :=
  { h with port := fun y hy => (h.port y hy).congr rfl rfl rfl rfl (fun _ _ _ => rfl) rfl }

theorem Net.set_set (x : Place) (a b : Net.Port) : (N.set x a).set x b = N.set x b := by
  simp [Net.set]

/-- The ends that are sent are not those that stay with the embedder. -/
theorem Net.Cargo.notMem_of_held (c : N.Cargo) {H : Multiset End} (hH : N.held = ↑es + H) :
    ∀ e ∈ H, e ∉ es := by
  intro e he hes
  have hnd := (Multiset.nodup_add.1 c.nodup).1
  rw [hH] at hnd
  exact Multiset.disjoint_left.1 (Multiset.nodup_add.1 hnd).2.2 hes he

/-- A message that a port may send, unless `WillSendMessage` refuses it. -/
theorem Node.sendMessage_of_receiving {p : PortName} {m : Message α} {port : Port α}
    (hp : p ∉ m.ports) (hport : ν.getPort p = some port) (hstate : port.state = .receiving)
    (hclosed : ¬port.peerClosed) :
    ν.sendMessage p m = match ν.willSendMessage port p m with
      | (s, m, .ok) =>
        if port.peerNodeName ≠ s.name then
          (s.forwardMessage port.peerNodeName (.user m), none, .ok)
        else ((s.acceptMessage (.user m)).1, none, .ok)
      | (s, m, rv) => (s, some m, rv) := by
  rw [Node.sendMessage, if_neg hp, hport]
  refine (if_neg (not_not.2 hstate)).trans ((if_neg hclosed).trans ?_)
  obtain ⟨ν', m, rv⟩ := ν.willSendMessage port p m
  cases rv <;> rfl

namespace Simulates

/-- The ports attached to a message sent are no longer held. -/
theorem held_noteSent (h : Simulates η s N) (w : N.Shape) (c : N.Cargo) {n : NodeName}
    {H : Multiset End} (hH : N.held = ↑es + H) (hn : ∀ e ∈ es, η.home (e, N.len e) = n)
    (e : End) (m : UInt64 × α) :
    ((s.noteSent n e m (es.map (η.live N))).held : Multiset _) =
      H.map fun e => (η.home (e, N.len e), η.name (e, N.len e)) := by
  have hdis := c.notMem_of_held hH
  have hfilter : (s.noteSent n e m (es.map (η.live N))).held =
    s.held.filter fun x => ¬(x.1 = n ∧ x.2 ∈ es.map (η.live N)) := rfl
  rw [hfilter, ← Multiset.filter_coe, h.held, hH, Multiset.map_add, Multiset.filter_add,
    Multiset.filter_eq_nil.2, zero_add, Multiset.filter_eq_self.2]
  · intro x hx hx'
    obtain ⟨e', he', rfl⟩ := Multiset.mem_map.1 hx
    obtain ⟨e'', he'', heq⟩ := List.mem_map.1 hx'.2
    have hu : ∀ {e}, e ∈ N.held → N.Used (e, N.len e) := fun he => ⟨(c.held _ he).pipe_lt w, le_rfl⟩
    have := h.refines.inj _ _ (hu (hH ▸ Multiset.mem_add.2 (.inl he'')))
      (hu (hH ▸ Multiset.mem_add.2 (.inr he'))) heq
    obtain rfl : e'' = e' := congrArg Prod.fst this
    exact hdis _ he' he''
  · intro x hx
    obtain ⟨e', he', rfl⟩ := Multiset.mem_map.1 hx
    exact not_not.2 ⟨hn e' he', List.mem_map_of_mem he'⟩

/-- A message is sent: the step of the net, and the node before the message leaves
    it. -/
theorem willSend (h : Simulates η s N) (w : N.Shape) (c : N.Cargo) {n : NodeName}
    {port : Port α} (hx : N.port (e, N.len e) = some a) (hk : a.kind = .receiving)
    (hn : η.home (e, N.len e) = n) (hm : PortMatch η N (e, N.len e) a port)
    (hpc : a.peerClosed = false) {H : Multiset End} (hH : N.held = ↑es + H) (hee : e ∉ es)
    (hhome : ∀ e' ∈ es, η.home (e', N.len e') = n)
    (hpeer : ∀ e' ∈ es, η.live N e' ≠ port.peerPortName) (payload : α) :
    ∃ κ ν' P, Net.Step N .embedder (P.withLetters
        (⟨(e.opp, N.toward e), false, a.send, payload, es⟩ ::ₘ P.letters)) ∧
      (s.start n).willSendMessage port (η.name (e, N.len e))
        (.newUserMessage payload (es.map (η.live N))) =
          (ν', κ.message P ⟨(e.opp, N.toward e), false, a.send, payload, es⟩, .ok) ∧
      (s.start n).Quiet ν' ∧
      (∀ q, q ≠ η.name (e, N.len e) → (∀ e ∈ es, q ≠ η.live N e) →
        ν'.getPort q = (s.start n).getPort q) ∧
      Agree N κ η ∧ P.held = H ∧ (∀ e', P.len e' ≠ N.len e' ↔ e' ∈ es) ∧
      Refines κ ((s.noteSent n e (a.send, payload) (es.map (η.live N))).commit ν') P ∧
      (∀ e' ∈ es, κ.home (e', P.len e') = port.peerNodeName) ∧
      κ.home (e.opp, N.toward e) = port.peerNodeName := by
  set x : Place := (e, N.len e) with hxdef
  set b : Net.Port := { a with send := a.send + 1 } with hb
  set m : UInt64 × α := (a.send, payload) with hmdef
  have hname : η.home x = (s.start n).name := hn.trans (h.refines.nodeName n).symm
  have hheld : ∀ e' ∈ es, e' ∈ N.held := fun e' he' => hH ▸ Multiset.mem_add.2 (.inl he')
  have hnd := Multiset.nodup_add.1 c.nodup
  have hnd' := hnd.1
  rw [hH] at hnd'
  have hes := (Multiset.nodup_add.1 hnd').1
  have hpeer' : port.peerNodeName = η.home (e.opp, N.toward e) ∧
      port.peerPortName = η.name (e.opp, N.toward e) := by
    rw [hm.peerNodeName, hm.peerPortName, hxdef, Net.peer_live]
    exact ⟨rfl, rfl⟩
  have hmb : PortMatch η (N.noteSent e m) x b
      { port with nextSequenceNumToSend := port.nextSequenceNumToSend + 1 } :=
    { hm with
      send := by
        change port.nextSequenceNumToSend + 1 = a.send + 1
        rw [hm.send] }
  have hset := ((h.refines.noteSent n e m (es.map (η.live N))).start n).set (w.used hx) hname hmb
    (.of_receiving (c.noteSent e m) hx (by simp [hk]))
  have wset : (N.set x b).Shape :=
    w.set hx rfl (by simp [b, hk]) (fun _ => (w.live hx (by simp [hk])).2) fun hs => w.stored hx hs
  have hpipe : ∀ l ∈ N.letters, ∀ e' ∈ l.ports, e'.pipe < N.pipes := fun l hl e' he' =>
    (c.letters l hl e' he').pipe_lt w
  have hatt : ∀ e' ∈ es, ∀ l ∈ N.letters, e' ∉ l.ports := fun e' he' l hl hl' =>
    Multiset.disjoint_left.1 hnd.2.2 (hheld e' he') (Net.mem_attached.2 ⟨l, hl, hl'⟩)
  obtain ⟨κ, ν', hwill, hq, hget, hag, hr, hhome'⟩ := Refines.willSendMessage
    (m := .newUserMessage payload (es.map (η.live N))) (if_pos rfl) hset (wset.noteSent e m) hes
    (fun e' he' => (c.held e' (hheld e' he')).set w hx fun _ => by rfl)
    (fun e' he' => (hhome e' he').trans (h.refines.nodeName n).symm) hpipe hatt rfl rfl hpeer
  have hcomm : ((N.noteSent e m).set x b).transferAll es = ((N.set x b).transferAll es).noteSent e m :=
    Net.transferAll_noteSent (N := N.set x b) es e m
  rw [hcomm] at hwill hr hhome'
  obtain ⟨P, hP⟩ : ∃ P, P = (((N.set x b).transferAll es).noteSent e m).withHeld H := ⟨_, rfl⟩
  have htoward : κ.home (e.opp, N.toward e) = η.home (e.opp, N.toward e) ∧
      κ.name (e.opp, N.toward e) = η.name (e.opp, N.toward e) :=
    (hag (e.opp, N.toward e) ⟨w.pipe_lt (x := x) hx, w.toward_le e⟩).symm
  refine ⟨κ, ν', P, ?_, ?_, ⟨hq.name, hq.oops, hq.closed⟩, fun q hqx hqe => ?_, hag, ?_, ?_, ?_, ?_,
    ?_⟩
  -- The other end may be attached, but not at the place that the port sends to: that is the peer,
  -- which is refused.
  · have hopp : e.opp ∈ es → N.toward e ≠ N.len e.opp := by
      intro hopp heq
      have := hpeer e.opp hopp
      rw [Names.live, hpeer'.2, heq] at this
      exact this rfl
    rw [hP]
    change Net.Step N .embedder (((((N.set x b).transferAll es).noteSent e m).withHeld H).withLetters
      (_ ::ₘ ((N.set x b).transferAll es).letters))
    rw [Net.transferAll_letters]
    exact Net.Step.send hx hk hpc hH hee hopp
  · refine Eq.trans hwill ?_
    rw [hP]
    simp only [Names.message]
    rw [htoward.2, hpeer'.2, hm.send]
    rfl
  · rw [hget q hqe, Node.getPort_setPort, if_neg hqx]
    rfl
  · rw [hP]
    rfl
  · rw [hP]
    refine Net.len_transferAll_ne_iff (N := N.set x b) (Multiset.coe_nodup.1 hes) fun e' he' => ?_
    obtain ⟨d, hd, -⟩ := (c.held e' (hheld e' he')).set w hx fun _ => (rfl : b.kind = a.kind)
    exact ⟨d, hd⟩
  · rw [hP]
    exact hr.withHeld H
  · rw [hP]
    exact hhome'
  · rw [htoward.1, hpeer'.1]

/-- It does not matter when the history is written. -/
theorem commit_noteSent {n : NodeName} {m : UInt64 × α} {ports : List PortName}
    (h : Simulates η ((s.noteSent n e m ports).commit ν) N) :
    Simulates η ((s.commit ν).noteSent n e m ports) N := by
  refine ⟨{ h.refines with }, ?_⟩
  rw [← h.held]
  change (↑((s.held.filter _).filter _) : Multiset (NodeName × PortName)) =
    ↑((s.held.filter _).filter _)
  rw [List.filter_filter, List.filter_filter]
  simp only [Bool.and_comm]

/-- The chains of the ends sent get longer, and no others. -/
theorem len_ne_iff (h : Simulates η s N) (w : N.Shape) (c : N.Cargo)
    (hes : ∀ e' ∈ es, e' ∈ N.held) {P : Net α} (hlen : ∀ e', P.len e' ≠ N.len e' ↔ e' ∈ es)
    (f : End) : P.len f ≠ N.len f ↔ ∃ q ∈ es.map (η.live N), s.endOf q = f := by
  have hlive : ∀ f ∈ es, s.endOf (η.live N f) = f := fun f hf =>
    h.refines.endOf (f, N.len f) ⟨(c.held f (hes f hf)).pipe_lt w, le_rfl⟩
  rw [hlen]
  constructor
  · exact fun hf => ⟨_, List.mem_map_of_mem hf, hlive f hf⟩
  · rintro ⟨q, hq, rfl⟩
    obtain ⟨f, hf, rfl⟩ := List.mem_map.1 hq
    rwa [hlive f hf]

/-- The ports that stay with the embedder have the names that they had. -/
theorem held_sent (h : Simulates η s N) (w : N.Shape) (c : N.Cargo) {n : NodeName}
    {H : Multiset End} (hH : N.held = ↑es + H) (hhome : ∀ e' ∈ es, η.home (e', N.len e') = n)
    {κ : Names} (hag : Agree N κ η) {P : Net α} (hheld : P.held = H)
    (hlen : ∀ e', P.len e' ≠ N.len e' ↔ e' ∈ es) (e : End) (m : UInt64 × α) :
    ((s.noteSent n e m (es.map (η.live N))).held : Multiset _) =
      P.held.map fun e => (κ.home (e, P.len e), κ.name (e, P.len e)) := by
  rw [h.held_noteSent w c hH hhome, hheld]
  refine Multiset.map_congr rfl fun e' he' => ?_
  have hu := hag (e', N.len e') ⟨(c.held e' (hH ▸ Multiset.mem_add.2 (.inr he'))).pipe_lt w, le_rfl⟩
  rw [not_not.1 (mt (hlen e').1 (c.notMem_of_held hH e' he')), hu.1, hu.2]

/-- `SendMessage`, of a message that is accepted. -/
theorem sendMessage_of_accepted (h : Simulates η s N) (w : N.Shape) (c : N.Cargo) {n : NodeName}
    {port : Port α} (hx : N.port (e, N.len e) = some a) (hk : a.kind = .receiving)
    (hn : η.home (e, N.len e) = n)
    (hport : (s.start n).getPort (η.name (e, N.len e)) = some port)
    (hm : PortMatch η N (e, N.len e) a port) (hpc : ¬port.peerClosed) {H : Multiset End}
    (hH : N.held = ↑es + H) (hhome : ∀ e' ∈ es, η.home (e', N.len e') = n)
    (hself : η.name (e, N.len e) ∉ es.map (η.live N))
    (hpeer : port.peerPortName ∉ es.map (η.live N)) (payload : α)
    (hclean : strict → ∀ port peer m, (s.node n).getPort (η.name (e, N.len e)) = some port →
      port.peerNodeName = n → (s.node n).getPort port.peerPortName = some peer →
      peer.state = .proxying → m.sequenceNum = port.nextSequenceNumToSend →
      (m.ports = [] ↔ es.map (η.live N) = []) →
      { peer with messageQueue := (peer.messageQueue.acceptMessage m).1 }.Clean) :
    ∃ N₁ κ M, (N₁ = N ∨ Net.Step N .embedder N₁ ∧
        ∀ f, N₁.len f ≠ N.len f ↔ ∃ q ∈ es.map (η.live N), s.endOf q = f) ∧
      Net.Run strict N₁ M ∧
      Simulates κ (s.sendMessage n (η.name (e, N.len e)) payload (es.map (η.live N))) M ∧
      (s.sendMessage n (η.name (e, N.len e)) payload (es.map (η.live N))).oops = s.oops := by
  set x : Place := (e, N.len e) with hxdef
  set m₀ : Message α := .newUserMessage payload (es.map (η.live N)) with hm₀
  have hes : ∀ e' ∈ es, e' ∈ N.held := fun e' he' => hH ▸ Multiset.mem_add.2 (.inl he')
  have hee : e ∉ es := fun hm => hself (List.mem_map_of_mem (f := η.live N) hm)
  have hstate : port.state = .receiving := by
    rw [hm.state, hk]
    rfl
  have hpca : a.peerClosed = false := by
    rw [← hm.peerClosed]
    exact Bool.eq_false_iff.2 hpc
  have hpeer : ∀ e' ∈ es, η.live N e' ≠ port.peerPortName := fun e' he' heq =>
    hpeer (heq ▸ List.mem_map_of_mem he')
  have hsend := Node.sendMessage_of_receiving (m := m₀) hself hport hstate hpc
  obtain ⟨κ, ν', P, hstep, hwill, hq, hget, hag, hPH, hPlen, hr, hhome', hto⟩ :=
    h.willSend w c hx hk hn hm hpca hH hee hhome hpeer payload
  set l : Net.Letter α := ⟨(e.opp, N.toward e), false, a.send, payload, es⟩ with hl
  have hend : s.endOf (η.name x) = e := h.refines.endOf x (w.used hx)
  have hnum : s.nextNumber n (η.name x) = a.send := by
    rw [System.nextNumber, show (s.node n).getPort (η.name x) = some port from hport, ← hm.send]
    rfl
  have hattached := h.len_ne_iff w c hes hPlen
  have hheld := h.held_sent w c hH hhome hag hPH hPlen e (a.send, payload)
  have hsys : ∀ ν'', (s.start n).sendMessage (η.name x) m₀ = (ν'', none, .ok) →
      s.sendMessage n (η.name x) payload (es.map (η.live N)) =
        (s.commit ν'').noteSent n e (a.send, payload) (es.map (η.live N)) := by
    intro ν'' hν''
    rw [System.sendMessage, ← hm₀, hν'', hend, hnum]
  rw [hwill] at hsend
  -- The message leaves the node.
  by_cases hlocal : port.peerNodeName ≠ ν'.name
  · rw [hsys _ (hsend.trans (if_pos hlocal))]
    have hpost := hr.post (l := l) rfl (fun e' he' => (hhome' e' he').trans hto.symm) rfl
    rw [hto] at hpost
    refine ⟨_, κ, _, .inr ⟨hstep, hattached⟩, .refl, commit_noteSent ⟨hpost, ?_⟩,
      System.oops_commit hq.oops⟩
    refine Eq.trans (congrArg _ (System.held_commit ?_)) hheld
    exact hq.closed
  · -- The message is delivered to a port of the same node at once.
    rw [hsys _ (hsend.trans (if_neg hlocal))]
    have hu : N.Used (e.opp, N.toward e) := ⟨w.pipe_lt (x := x) hx, w.toward_le e⟩
    have hpeer' : port.peerPortName = η.name (e.opp, N.toward e) := by
      rw [hm.peerPortName, hxdef, Net.peer_live]
    have hpeername : κ.name l.place = port.peerPortName := by
      rw [hpeer']
      exact (hag _ hu).1
    have hself' : port.peerPortName ≠ η.name x := by
      rw [hpeer']
      intro heq
      exact e.opp_ne (congrArg Prod.fst (h.refines.inj _ _ hu (w.used hx) heq))
    obtain ⟨κ', M, hrun, hcall, -⟩ := Refines.onUserMessage (L := P.letters) (l := l)
      (N := P.withLetters (l ::ₘ P.letters)) strict hr (w.step c hstep) (c.step w hstep) rfl rfl
      (hto.trans (not_not.1 hlocal)) (fun e' he' => (hhome' e' he').trans hto.symm) hq.closed
      (fun hst peer hget' hps => by
        rw [hpeername, hget _ hself' fun e' he' => (hpeer e' he').symm] at hget'
        refine hclean hst port peer _ hport ?_ hget' hps hm.send.symm ?_
        · exact (not_not.1 hlocal).trans (hq.name.trans (h.refines.nodeName n))
        · simp [Names.message, l])
    refine ⟨_, κ', M, .inr ⟨hstep, hattached⟩, hcall.run, commit_noteSent ?_,
      System.oops_commit ?_⟩
    · exact hcall.simulates (w.step c hstep) (c.step w hstep) hq.closed hheld
    · exact hcall.oops.trans hq.oops

/-- A message that is refused leaves the state as it is. -/
theorem sendMessage_of_refused (h : Simulates η s N) {n : NodeName} {p : PortName}
    {ports : List PortName} {payload : α} {m : Message α} {rv : Result}
    (hsend : (s.start n).sendMessage p (.newUserMessage payload ports) = (ν, some m, rv))
    (hrv : rv ≠ .ok) (hr : Refines η (s.commit ν) N) (hq : (s.start n).Quiet ν) :
    Simulates η (s.sendMessage n p payload ports) N ∧
      (s.sendMessage n p payload ports).oops = s.oops := by
  have hsys : s.sendMessage n p payload ports = s.commit ν := by
    rw [System.sendMessage, hsend]
    cases rv with
    | ok => exact absurd rfl hrv
    | _ => rfl
  rw [hsys]
  exact ⟨⟨hr, by rw [System.held_commit hq.closed, h.held]⟩, System.oops_commit hq.oops⟩

/-- Of ports that are held, only the peer is refused. -/
theorem findSome?_sentPortError (h : Simulates η s N) (w : N.Shape) (c : N.Cargo) {n : NodeName}
    (hes : ∀ e' ∈ es, e' ∈ N.held) (hhome : ∀ e' ∈ es, η.home (e', N.len e') = n)
    {p peer : PortName} (port : Port α) (hp : p ∉ es.map (η.live N))
    (hpeer : peer ∈ es.map (η.live N)) :
    (es.map (η.live N)).findSome? (((s.start n).setPort p port).sentPortError peer) =
      some .errorPortCannotSendPeer := by
  have herr : ∀ q ∈ es.map (η.live N), ((s.start n).setPort p port).sentPortError peer q =
      if q = peer then some .errorPortCannotSendPeer else none := by
    intro q hq
    have hne : q ≠ p := fun heq => hp (heq ▸ hq)
    obtain ⟨e', he', rfl⟩ := List.mem_map.1 hq
    obtain ⟨b, hb, hbk⟩ := c.held e' (hes e' he')
    obtain ⟨port₁, hport₁, hm₁⟩ := (h.refines.start n).getPort w hb (by simp [hbk])
      ((hhome e' he').trans (h.refines.nodeName n).symm)
    have hstate₁ : port₁.state = .receiving := by
      rw [hm₁.state, hbk]
      rfl
    rw [Node.sentPortError, Node.getPort_setPort, if_neg hne, Names.live, hport₁]
    simp only
    rw [if_neg (not_not.2 hstate₁)]
  cases hres : (es.map (η.live N)).findSome? (((s.start n).setPort p port).sentPortError peer) with
  | none =>
    have := List.findSome?_eq_none_iff.1 hres _ hpeer
    rw [herr peer hpeer, if_pos rfl] at this
    cases this
  | some error =>
    obtain ⟨q, hq, hqe⟩ := List.exists_of_findSome?_eq_some hres
    rw [herr q hq] at hqe
    split_ifs at hqe
    exact hqe.symm

/-- A message to which the peer is attached: its number is taken back. -/
theorem willSendMessage_of_peer (h : Simulates η s N) (w : N.Shape) (c : N.Cargo) {n : NodeName}
    {port : Port α} (hx : N.port (e, N.len e) = some a) (hk : a.kind = .receiving)
    (hn : η.home (e, N.len e) = n) (hm : PortMatch η N (e, N.len e) a port)
    (hes : ∀ e' ∈ es, e' ∈ N.held) (hhome : ∀ e' ∈ es, η.home (e', N.len e') = n)
    (hself : η.name (e, N.len e) ∉ es.map (η.live N))
    (hpeer : port.peerPortName ∈ es.map (η.live N)) (payload : α) :
    ∃ ν' m, (s.start n).willSendMessage port (η.name (e, N.len e))
        (.newUserMessage payload (es.map (η.live N))) = (ν', m, .errorPortCannotSendPeer) ∧
      Refines η (s.commit ν') N ∧ (s.start n).Quiet ν' := by
  set x : Place := (e, N.len e) with hxdef
  set port' : Port α := { port with nextSequenceNumToSend := port.nextSequenceNumToSend + 1 }
    with hport'
  have hname : η.home x = (s.start n).name := hn.trans (h.refines.nodeName n).symm
  have hmb : PortMatch η N x { a with send := a.send + 1 } port' :=
    { hm with
      send := by
        change port.nextSequenceNumToSend + 1 = a.send + 1
        rw [hm.send] }
  have haway := Away.of_receiving c hx (by simp [hk])
  have hset := (h.refines.start n).set (w.used hx) hname hmb haway
  have hfind := h.findSome?_sentPortError w c hes hhome port' hself hpeer
  -- The number that was taken for the message is given back, so the port is as it was.
  have hback : { port' with nextSequenceNumToSend := port'.nextSequenceNumToSend - 1 } = port := by
    rw [hport']
    simp
  have hm' : PortMatch η (N.set x { a with send := a.send + 1 }) x a port := { hm with }
  have hset' := hset.set (w.used hx) hname hm' haway
  rw [Net.set_set, Net.set_self hx] at hset'
  set m₀ : Message α := .newUserMessage payload (es.map (η.live N))
  set accepted := m₀.ports.takeWhile fun name =>
    (((s.start n).setPort (η.name x) port').sentPortError port.peerPortName name).isNone
    with haccepted
  refine ⟨(((s.start n).setPort (η.name x) port').noteLocked accepted).setPort (η.name x) port,
    { m₀ with sequenceNum := port.nextSequenceNumToSend }, ?_, hset'.noteLocked accepted,
    ⟨rfl, rfl, rfl⟩⟩
  simp only [Node.willSendMessage, show m₀.sequenceNum = 0 from rfl, if_true]
  simp only [show m₀.ports = es.map (η.live N) from rfl, ← hport', hfind] at haccepted ⊢
  rw [if_neg (by simp), hback, haccepted]

/-- `SendMessage` on a port held, with ports held. -/
theorem sendMessage (h : Simulates η s N) (w : N.Shape) (c : N.Cargo) {n : NodeName} {p : PortName}
    {ports : List PortName} (hp : (n, p) ∈ s.held) (hports : ∀ q ∈ ports, (n, q) ∈ s.held)
    (hnd : ports.Nodup) (payload : α)
    (hclean : strict → ∀ port peer m, (s.node n).getPort p = some port →
      port.peerNodeName = n → (s.node n).getPort port.peerPortName = some peer →
      peer.state = .proxying → m.sequenceNum = port.nextSequenceNumToSend →
      (m.ports = [] ↔ ports = []) →
      { peer with messageQueue := (peer.messageQueue.acceptMessage m).1 }.Clean) :
    ∃ N₁ κ M, (N₁ = N ∨ Net.Step N .embedder N₁ ∧
        ∀ f, N₁.len f ≠ N.len f ↔ ∃ q ∈ ports, s.endOf q = f) ∧ Net.Run strict N₁ M ∧
      Simulates κ (s.sendMessage n p payload ports) M ∧
      (s.sendMessage n p payload ports).oops = s.oops := by
  obtain ⟨e, he, hn, rfl⟩ := h.exists_of_mem_held hp
  obtain ⟨es, rfl, hes, hhome⟩ := h.exists_list_of_mem_held hports
  have hes_nd : es.Nodup := hnd.of_map _
  obtain ⟨H, hH⟩ := Multiset.le_iff_exists_add.1 ((Multiset.le_iff_subset
    (Multiset.coe_nodup.2 hes_nd)).2 (fun e' he' => hes e' he') : (es : Multiset End) ≤ N.held)
  obtain ⟨a, hx, hk⟩ := c.held e he
  have hname : η.home (e, N.len e) = (s.start n).name := hn.trans (h.refines.nodeName n).symm
  obtain ⟨port, hport, hm⟩ := (h.refines.start n).getPort w hx (by simp [hk]) hname
  have hstate : port.state = .receiving := by
    rw [hm.state, hk]
    rfl
  set x : Place := (e, N.len e) with hxdef
  set m₀ : Message α := .newUserMessage payload (es.map (η.live N)) with hm₀
  -- The refusals, in the order in which the source checks them: the port itself attached, the peer
  -- closed, the peer attached.
  by_cases hself : η.name x ∈ es.map (η.live N)
  · have hsend : (s.start n).sendMessage (η.name x) m₀ =
        (s.start n, some m₀, .errorPortCannotSendSelf) := if_pos hself
    exact ⟨N, η, N, .inl rfl, .refl,
      h.sendMessage_of_refused hsend (by simp) (h.refines.start n) (.refl _)⟩
  have hself₀ : η.name x ∉ m₀.ports := hself
  by_cases hpc : port.peerClosed
  · have hsend : (s.start n).sendMessage (η.name x) m₀ =
        (s.start n, some m₀, .errorPortPeerClosed) := by
      simp only [Node.sendMessage, hport]
      rw [if_neg hself₀, if_neg (not_not.2 hstate), if_pos hpc]
    exact ⟨N, η, N, .inl rfl, .refl,
      h.sendMessage_of_refused hsend (by simp) (h.refines.start n) (.refl _)⟩
  by_cases hpeer : port.peerPortName ∈ es.map (η.live N)
  · obtain ⟨ν', m, hwill, hr, hq⟩ :=
      h.willSendMessage_of_peer w c hx hk hn hm hes hhome hself hpeer payload
    have hsend := Node.sendMessage_of_receiving hself₀ hport hstate hpc
    rw [hwill] at hsend
    exact ⟨N, η, N, .inl rfl, .refl, h.sendMessage_of_refused hsend (by simp) hr hq⟩
  · exact h.sendMessage_of_accepted w c hx hk hn hport hm hpc hH hhome hself hpeer payload hclean

end Simulates

end MojoEdk.Ports
