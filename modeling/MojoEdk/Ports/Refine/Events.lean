import MojoEdk.Ports.Refine.Calls

/-!
# The events of a node

Each operation of a node, as a run of the net. A message in flight is queued by
the port it is addressed to, forwarded by a proxy, or rejected, and then the ports
attached to it are closed.
-/

namespace MojoEdk.Ports

variable {α : Type*} {η : Names} {s : System α} {ν : Node α} {N M : Net α} {x : Place}
  {a : Net.Port} {e : End} {es : List End} {strict : Prop}

/-! ## User messages -/

namespace MessageQueue

theorem coe_pushHeap (m : Message α) (heap : List (Message α)) :
    (pushHeap m heap : Multiset (Message α)) = m ::ₘ ↑heap := by
  induction heap with
  | nil => rfl
  | cons m' heap ih =>
    rw [pushHeap]
    split_ifs
    · rfl
    · rw [← Multiset.cons_coe, ih, Multiset.cons_swap, Multiset.cons_coe]

theorem sorted_pushHeap (m : Message α) {heap : List (Message α)}
    (h : heap.Pairwise fun m m' => m.sequenceNum ≤ m'.sequenceNum) :
    (pushHeap m heap).Pairwise fun m m' => m.sequenceNum ≤ m'.sequenceNum := by
  induction heap with
  | nil => exact List.pairwise_singleton ..
  | cons m' heap ih =>
    obtain ⟨h1, h2⟩ := List.pairwise_cons.1 h
    rw [pushHeap]
    split_ifs with hlt
    · refine List.pairwise_cons.2 ⟨fun m'' hm'' => ?_, h⟩
      rcases List.mem_cons.1 hm'' with rfl | hm''
      · exact UInt64.le_of_lt hlt
      · exact UInt64.le_trans (UInt64.le_of_lt hlt) (h1 m'' hm'')
    · refine List.pairwise_cons.2 ⟨fun m'' hm'' => ?_, ih h2⟩
      have hmem : m'' ∈ (pushHeap m heap : Multiset (Message α)) := hm''
      rw [coe_pushHeap] at hmem
      rcases Multiset.mem_cons.1 hmem with rfl | hmem
      · exact UInt64.not_lt.1 hlt
      · exact h1 m'' hmem

end MessageQueue

namespace Refines

theorem withHeld (h : Refines η s N) (H : Multiset End) : Refines η s (N.withHeld H) :=
  { h with port := fun y hy => (h.port y hy).congr rfl rfl rfl rfl (fun _ _ _ => rfl) rfl }

/-- A message is put in the queue of a port. -/
theorem push (h : Refines η (s.commit ν) N) (w : N.Shape) (hx : N.port x = some a)
    (hn : η.home x = ν.name) {port : Port α} (hm : PortMatch η N x a port) {l : Net.Letter α}
    {m : Message α} (hlx : l.place = x) (hlq : l.queued = true) (hle : η.entry N l = m.entry)
    (hhomes : ∀ e ∈ l.ports, η.home (e, N.len e) = η.home l.place) :
    Refines η (s.commit (ν.setPort (η.name x)
      { port with messageQueue := (port.messageQueue.acceptMessage m).1 }))
      (N.withLetters (l ::ₘ N.letters)) := by
  refine h.change (· = x) rfl rfl rfl rfl rfl ?_ (fun p hp => ?_) ?_ (fun y hy => ?_) ?_
    (Multiset.forall_mem_cons.2 ⟨hhomes, h.homes⟩) h.closed rfl rfl
  · rintro y rfl
    exact ⟨hn, w.used hx⟩
  · rw [Node.getPort_setPort, if_neg (hp x rfl).symm]
  · rintro y rfl
    rw [Node.getPort_setPort, if_pos rfl]
    refine ⟨a, hx, { hm with sorted := MessageQueue.sorted_pushHeap m hm.sorted, queue := ?_ }⟩
    change ((MessageQueue.pushHeap m _).map Message.entry : Multiset _) =
      ((l ::ₘ N.letters).filter _).map (η.entry N)
    rw [← Multiset.map_coe, MessageQueue.coe_pushHeap, Multiset.map_cons, Multiset.map_coe,
      hm.queue, Multiset.filter_cons_of_pos _ ⟨hlq, hlx⟩, Multiset.map_cons, hle]
    rfl
  · refine ⟨rfl, rfl, congrArg _ ?_⟩
    exact Multiset.filter_cons_of_neg _ fun hl => hy (hl.2.symm.trans hlx)
  · refine h.flight.trans (Names.flight_withLetters ?_).symm
    rw [Multiset.filter_cons_of_neg _ (by simp [hlq])]

end Refines

theorem Closing.call {ν₀ ν' : Node α} {P : Net α} (h : Closing strict η s ν N P.held ν' M)
    (hr : Net.Run strict P N) (hq : ν₀.Quiet ν) (hlen : N.len = P.len) : Call strict η s ν₀ P η ν' M where
  run := hr.trans h.run
  refines := h.refines
  agree := .refl P η
  name := h.name.trans hq.name
  oops := h.oops.trans hq.oops
  held := h.held
  len e _ := by rw [h.len, hlen]
  closed p hp := by
    rw [← hq.closed]
    exact h.closed p hp

/-- A message that a port accepts, by the state of the port. -/
theorem Node.queueUserMessage_of_canAccept {p : PortName} {m : Message α} {port port' : Port α}
    (hacc : port.canAcceptMoreMessages) (hp : m.portName = p)
    (hport : port' = { port with messageQueue := (port.messageQueue.acceptMessage m).1 }) :
    ν.queueUserMessage (some port) m = match port'.state with
      | .buffering => (ν.setPort p port', .ok)
      | .proxying =>
        match (ν.setPort p port').forwardMessages port' p with
        | (s, .ok) => (s.maybeRemoveProxy p, .ok)
        | (s, rv) => (s, rv)
      | _ => (if (port.messageQueue.acceptMessage m).2 then
          (ν.setPort p port').portStatusChanged p else ν.setPort p port', .ok) := by
  subst hp hport
  rw [Node.queueUserMessage]
  exact if_pos hacc

namespace Refines

section UserMessage

variable {l : Net.Letter α} {L : Multiset (Net.Letter α)}

/-- The ports attached to a message are accepted, before the message itself. -/
theorem acceptAttached (h : Refines η (s.commit ν) (N.withLetters L)) (w : N.Shape) (c : N.Cargo)
    (hL : N.letters = l ::ₘ L) (hlq : l.queued = false) (hn : η.home l.place = ν.name)
    (hhomes : ∀ e ∈ l.ports, η.home (e, N.len e) = η.home l.place) :
    ∃ ν', Node.acceptPorts ((η.message N l).ports.zip (η.message N l).descriptors) ν = (ν', .ok) ∧
      ν.Quiet ν' ∧ ν'.getPort (η.name l.place) = ν.getPort (η.name l.place) ∧
      Refines η (s.commit ν') ((N.acceptAll l.ports).withLetters L) := by
  have hl : l ∈ N.letters := hL ▸ Multiset.mem_cons_self l L
  obtain ⟨hnd, -, hdis⟩ := c.nodup_of_cons hL
  obtain ⟨ν', hacc, hq, hget, h'⟩ := h.acceptPorts (w.take hL) hnd (c.transit hl hlq)
    (fun e he => (hhomes e he).trans hn) (fun e he l' hl' _ e' he' heq => by
      obtain rfl : e' = e := congrArg Prod.fst heq
      exact hdis e' he (Multiset.mem_add.2 (.inr (Net.mem_attached.2 ⟨l', hl', he'⟩))))
  refine ⟨ν', hacc, hq, hget _ fun e he heq => ?_, Net.acceptAll_withLetters l.ports L ▸ h'⟩
  -- A message is never addressed to a port attached to it.
  have hu : N.Used (e, N.len e) := ⟨(c.letters l hl e he).pipe_lt w, le_rfl⟩
  have hplace : l.place = (e, N.len e) := h.inj _ _ (w.letters l hl) hu heq
  have hlt := c.noPeer l hl (by rw [hplace]; exact he)
  rw [hplace] at hlt
  exact absurd hlt (by simp)

/-- A message is rejected. -/
theorem rejectMessage (h : Refines η (s.commit ν) ((N.acceptAll l.ports).withLetters L))
    (w : N.Shape) (c : N.Cargo) (hL : N.letters = l ::ₘ L) (hlq : l.queued = false)
    (hrej : ∀ a, N.port l.place = some a → a.kind ≠ .transit → a.canAccept = false)
    (hn : η.home l.place = ν.name) {ν₀ : Node α} (hq : ν₀.Quiet ν)
    (hhomes : ∀ e ∈ l.ports, η.home (e, N.len e) = η.home l.place) :
    ∃ M, Relation.TransGen (Net.Work strict) N M ∧
      Call strict η s ν₀ N η (ν.closePorts (l.ports.map (η.live N))) M := by
  have hstep : Net.Step N .inner (((N.acceptAll l.ports).withLetters L).withHeld (↑l.ports + N.held)) :=
    .reject hL hlq hrej
  have hlive : l.ports.map (η.live N) = l.ports.map (η.live
      (((N.acceptAll l.ports).withLetters L).withHeld (↑l.ports + N.held))) := by
    refine List.map_congr_left fun e _ => ?_
    rw [Names.live, Names.live]
    change _ = η.name (e, (N.acceptAll l.ports).len e)
    rw [Net.acceptAll_len]
  obtain ⟨M, hM⟩ := (h.withHeld (↑l.ports + N.held)).closePorts (w.step c hstep)
    (c.step w hstep) rfl (fun e he => by
      change η.home (e, (N.acceptAll l.ports).len e) = _
      rw [Net.acceptAll_len, hhomes e he, hn])
  rw [← hlive] at hM
  exact ⟨M, .head' (.inner hstep) hM.run, hM.call (.single (.inner hstep)) hq Net.acceptAll_len⟩

/-- A message is queued, or forwarded by a proxy. -/
theorem acceptMessage (h : Refines η (s.commit ν) ((N.acceptAll l.ports).withLetters L))
    (w : N.Shape) (c : N.Cargo) (hL : N.letters = l ::ₘ L) (hlq : l.queued = false)
    (hx : N.port l.place = some a) (hk : a.kind ≠ .transit) (hacc : a.canAccept)
    (hn : η.home l.place = ν.name) {ν₀ : Node α} (hq : ν₀.Quiet ν) (hcl : ν.delegate.closed = [])
    (hhomes : ∀ e ∈ l.ports, η.home (e, N.len e) = η.home l.place) {port : Port α}
    (hport : ν.getPort (η.name l.place) = some port)
    (hclean : strict → port.state = .proxying →
      { port with messageQueue := (port.messageQueue.acceptMessage (η.message N l)).1 }.Clean) :
    ∃ κ M, Relation.TransGen (Net.Work strict) N M ∧
      Call strict η s ν₀ N κ (ν.queueUserMessage (some port) (η.message N l)).1 M ∧
      (ν.queueUserMessage (some port) (η.message N l)).2 = .ok := by
  have hl : l ∈ N.letters := hL ▸ Multiset.mem_cons_self l L
  have hstep : Net.Step N .inner ((N.acceptAll l.ports).withLetters ({ l with queued := true } ::ₘ L)) :=
    .arrive hL hlq hx hk hacc
  obtain ⟨hnd, -, -⟩ := c.nodup_of_cons hL
  have w' : ((N.acceptAll l.ports).withLetters L).Shape :=
    (w.acceptAll hnd (c.transit hl hlq)).take (Net.acceptAll_letters.trans hL)
  have hx' : ((N.acceptAll l.ports).withLetters L).port l.place = some a := by
    refine (Net.acceptAll_of_notMem fun hm => ?_).trans hx
    exact (Nat.lt_of_succ_lt (c.noPeer l hl hm)).ne
  obtain ⟨port', hport', hm⟩ := h.getPort w' hx' hk hn
  obtain rfl : port = port' := Option.some.inj (hport.symm.trans hport')
  have hpush := h.push (l := { l with queued := true }) (m := η.message N l) w' hx' hn hm rfl rfl
    (congrFun (Names.entry_congr Net.acceptAll_len) _) (fun e he => by
      change η.home (e, (N.acceptAll l.ports).len e) = _
      rw [Net.acceptAll_len]
      exact hhomes e he)
  have hcall : ∀ ν', ν₀.Quiet ν' → Refines η (s.commit ν')
      ((N.acceptAll l.ports).withLetters ({ l with queued := true } ::ₘ L)) →
      Call strict η s ν₀ N η ν' ((N.acceptAll l.ports).withLetters ({ l with queued := true } ::ₘ L)) :=
    fun _ hq hr => .of_step hstep hr (.refl N η) hq Net.acceptAll_held
      fun e _ => congrFun Net.acceptAll_len e
  obtain ⟨port₁, hport₁⟩ : ∃ port₁ : Port α, port₁ = { port with
    messageQueue := (port.messageQueue.acceptMessage (η.message N l)).1 } := ⟨_, rfl⟩
  have hstate : port₁.state = a.kind.state := by rw [hport₁, ← hm.state]
  rw [← hport₁] at hpush
  rw [Node.queueUserMessage_of_canAccept (p := η.name l.place) (hm.canAccept.trans hacc) rfl hport₁]
  -- Only a proxy does more than keep the message.
  cases hkind : a.kind with
  | transit => exact absurd hkind hk
  | receiving =>
    simp only [hstate, hkind, Kind.state]
    refine ⟨η, _, .single (.inner hstep), hcall _ ?_ ?_, trivial⟩
    · split_ifs
      · exact ⟨hq.name, hq.oops, hq.closed⟩
      · exact ⟨hq.name, hq.oops, hq.closed⟩
    · split_ifs
      · exact hpush.portStatusChanged _
      · exact hpush
  | buffering =>
    simp only [hstate, hkind, Kind.state]
    exact ⟨η, _, .single (.inner hstep), hcall _ ⟨hq.name, hq.oops, hq.closed⟩ hpush, trivial⟩
  | proxying =>
    have w₁ := w.step c hstep
    have c₁ := c.step w hstep
    have hget : (ν.setPort (η.name l.place) port₁).getPort (η.name l.place) = some port₁ := by
      rw [Node.getPort_setPort, if_pos rfl]
    obtain ⟨port₂, hport₂, hm₂⟩ := hpush.getPort w₁ hx' hk hn
    obtain rfl : port₁ = port₂ := Option.some.inj (hget.symm.trans hport₂)
    obtain ⟨κ, ν', M, next, send, hfwd, hq', hfcall, hx'', hport'⟩ := hpush.forwardMessagesAux strict
      port₁.messageQueue.heap.length w₁ c₁ hx' hkind hn hcl hget hm₂
    have hagree := hfcall.agree l.place (w₁.used hx')
    rw [← hagree.1] at hport'
    obtain ⟨P, -, hrem⟩ := hfcall.refines.maybeRemoveProxy (hfcall.run.shape w₁ c₁)
      (hfcall.run.cargo w₁ c₁) hx'' hkind (hagree.2.trans (hn.trans hfcall.name.symm)) hport'
      (fun hst => by
        have hc := hclean hst (by rw [hm.state, hkind]; rfl)
        rw [← hport₁] at hc
        exact hc)
    rw [hagree.1] at hrem
    simp only [hstate, hkind, Kind.state, Node.forwardMessages, hfwd]
    refine ⟨κ, P, .head' (.inner hstep) (hfcall.run.trans hrem.run), ?_, trivial⟩
    have hfirst := hcall (ν.setPort (η.name l.place) port₁) ⟨hq.name, hq.oops, hq.closed⟩ hpush
    exact hfirst.trans w c (hfcall.trans w₁ c₁ hrem)

/-- `OnUserMessage`. -/
theorem onUserMessage (strict : Prop) (h : Refines η (s.commit ν) (N.withLetters L)) (w : N.Shape) (c : N.Cargo)
    (hL : N.letters = l ::ₘ L) (hlq : l.queued = false) (hn : η.home l.place = ν.name)
    (hhomes : ∀ e ∈ l.ports, η.home (e, N.len e) = η.home l.place) (hcl : ν.delegate.closed = [])
    (hclean : strict → ∀ port, ν.getPort (η.name l.place) = some port → port.state = .proxying →
      { port with messageQueue := (port.messageQueue.acceptMessage (η.message N l)).1 }.Clean) :
    ∃ κ M, Relation.TransGen (Net.Work strict) N M ∧
      Call strict η s ν N κ (ν.onUserMessage (η.message N l)).1 M ∧
      (ν.onUserMessage (η.message N l)).2 = .ok := by
  have hl : l ∈ N.letters := hL ▸ Multiset.mem_cons_self l L
  obtain ⟨ν', hacc, hq, hget, h'⟩ := h.acceptAttached w c hL hlq hn hhomes
  have hon : ν.onUserMessage (η.message N l) =
      ν'.queueUserMessage (ν.getPort (η.name l.place)) (η.message N l) := by
    simp only [Node.onUserMessage, hacc]
    rfl
  rw [hon]
  have hn' : η.home l.place = ν'.name := hn.trans hq.name.symm
  have hm := h.lookup (w.letters l hl) hn
  -- The attached ports are accepted first. Then a port that is gone, or that accepts no more,
  -- rejects the message, and they are closed.
  cases hport : ν.getPort (η.name l.place) with
  | none =>
    rw [hport] at hm
    obtain ⟨M, hr, hM⟩ := h'.rejectMessage w c hL hlq
      (fun a hx hk => absurd (hm a hx) hk) hn' hq hhomes
    exact ⟨η, M, hr, hM, rfl⟩
  | some port =>
    rw [hport] at hm hget
    obtain ⟨a, hx, hm⟩ := hm
    cases hca : a.canAccept with
    | true =>
      exact h'.acceptMessage w c hL hlq hx hm.arrived hca hn' hq (hq.closed.trans hcl) hhomes hget
        fun hst => hclean hst port hport
    | false =>
      obtain ⟨M, hr, hM⟩ := h'.rejectMessage w c hL hlq
        (fun b hb _ => Option.some.inj (Eq.trans (Eq.symm hb) hx) ▸ hca) hn' hq hhomes
      have hrej : ν'.queueUserMessage (some port) (η.message N l) =
          (ν'.closePorts (l.ports.map (η.live N)), .ok) := by
        rw [Node.queueUserMessage, if_neg (by rw [hm.canAccept, hca]; exact Bool.false_ne_true)]
        rfl
      rw [hrej]
      exact ⟨η, M, hr, hM, rfl⟩

end UserMessage

end Refines

/-! ## Internal events -/

/-- The system with an event sent ahead of a call. -/
def System.ahead (s : System α) (x : NodeName × Event α) : System α :=
  { s with inFlight := x :: s.inFlight }

theorem Call.quiet {κ : Names} {ν' ν'' : Node α} (hq : ν.Quiet ν')
    (h : Call strict η s ν' N κ ν'' M) : Call strict η s ν N κ ν'' M :=
  { h with
    name := h.name.trans hq.name
    oops := h.oops.trans hq.oops
    closed := fun p hp => hq.closed ▸ h.closed p hp }

theorem Call.of_quiet {ν' : Node α} (hq : ν.Quiet ν') (h : Refines η (s.commit ν') N) :
    Call strict η s ν N η ν' N :=
  .quiet hq (.refl h)

namespace Refines

/-- It does not matter when in a call an event is sent. -/
theorem ahead (h : Refines η (s.commit ν) N) {ev : Net.Event} {x : NodeName × Event α}
    (hev : η.event ev = x) :
    Refines η ((s.ahead x).commit ν) (N.withEvents (ev ::ₘ N.events)) := by
  have hflight := h.flight
  have hport : ∀ y, N.Used y → Matches η (N.withEvents (ev ::ₘ N.events)) y
      (((s.commit ν).node (η.home y)).getPort (η.name y)) := fun y hy =>
    (h.port y hy).congr rfl rfl rfl rfl (fun _ _ _ => rfl) rfl
  exact
    { h with
      port := hport
      flight := by
        rw [Names.flight_emit, hev, ← hflight]
        rfl }

theorem late {x : NodeName × Event α} (h : Refines η ((s.ahead x).commit ν) N) :
    Refines η (s.commit (ν.forwardMessage x.1 x.2)) N := by
  have hflight := h.flight
  exact
    { h with
      flight := by
        rw [← hflight]
        change ((s.inFlight ++ (ν.delegate.forwarded ++ [x]) : List _) : Multiset _) =
          x ::ₘ ↑(s.inFlight ++ ν.delegate.forwarded)
        rw [← List.append_assoc, ← Multiset.coe_add, Multiset.add_comm]
        rfl }

end Refines

theorem Call.late {κ : Names} {ν' : Node α} {x : NodeName × Event α}
    (h : Call strict η (s.ahead x) ν N κ ν' M) :
    Call strict η s ν N κ (ν'.forwardMessage x.1 x.2) M :=
  { h with refines := h.refines.late }

/-- What a node does with an event that it is given: a step of the net, and then
    what the node does on its own. -/
def Handled (strict : Prop) (η : Names) (s : System α) (ν : Node α) (N : Net α) (ev : Net.Event)
    (ν' : Node α) : Prop :=
  ∃ N₁ κ M, Net.Step N (.event ev) N₁ ∧ Call strict η s ν N₁ κ ν' M

namespace Refines

variable {E : Multiset Net.Event}

/-- `OnPortAccepted`, on a buffering port. -/
theorem onPortAccepted (h : Refines η (s.commit ν) (N.withEvents E)) (w : N.Shape) (c : N.Cargo)
    (hE : N.events = .accepted x ::ₘ E) (hx : N.port x = some a) (hk : a.kind = .buffering)
    (hn : η.home x = ν.name) (hcl : ν.delegate.closed = [])
    (hclean : strict → ∀ port, ν.getPort (η.name x) = some port → port.Clean) :
    Handled strict η s ν N (.accepted x) (ν.onPortAccepted (η.name x)).1 := by
  have hstep := Net.Step.portAccepted hE hx hk
  have wE : (N.withEvents E).Shape := w.consume hE
  obtain ⟨port, hport, hm⟩ := h.getPort wE hx (by simp [hk]) hn
  obtain ⟨port₁, hport₁⟩ : ∃ port₁ : Port α, port₁ = { port with state := .proxying } := ⟨_, rfl⟩
  have hm₁ : PortMatch η (N.withEvents E) x { a with kind := .proxying } port₁ := by
    rw [hport₁]
    exact
      { hm with
        arrived := by simp
        state := rfl }
  have hpeer : port₁.peerNodeName = η.home x.succ ∧ port₁.peerPortName = η.name x.succ := by
    have hp : (N.withEvents E).peer x = x.succ := Net.peer_of_lt (w.proxy hx (by simp [hk]))
    rw [hm₁.peerNodeName, hm₁.peerPortName, hp]
    exact ⟨rfl, rfl⟩
  -- What is sent last is sent at once in the net.
  obtain ⟨ev, hev⟩ : ∃ ev : Net.Event,
    ev = if a.remove then .closure x.succ a.last else .proxy x.succ x := ⟨_, rfl⟩
  rw [← hev] at hstep
  have hset := (h.set (wE.used hx) hn hm₁ (.of_lt (w.proxy hx (by simp [hk])))).ahead
    (rfl : η.event ev = _)
  have w₁ := w.step c hstep
  have c₁ := c.step w hstep
  have hx₁ : ((N.set x { a with kind := .proxying }).withEvents (ev ::ₘ E)).port x =
      some { a with kind := .proxying } := Net.port_set_self ..
  have hget : (ν.setPort (η.name x) port₁).getPort (η.name x) = some port₁ := by
    rw [Node.getPort_setPort, if_pos rfl]
  have hm₁' : PortMatch η ((N.set x { a with kind := .proxying }).withEvents (ev ::ₘ E)) x
    { a with kind := .proxying } port₁ := { hm₁ with }
  obtain ⟨κ, ν', M, next, send, hfwd, hq, hfcall, hx', hport'⟩ := hset.forwardMessagesAux strict
    port₁.messageQueue.heap.length w₁ c₁ hx₁ rfl hn hcl hget hm₁'
  have hagree := hfcall.agree x (w₁.used hx₁)
  rw [← hagree.1] at hport'
  have hstate : port.state = .buffering := by
    rw [hm.state, hk]
    rfl
  have hquiet : ν.Quiet (ν.setPort (η.name x) port₁) := ⟨rfl, rfl, rfl⟩
  have hon : ν.onPortAccepted (η.name x) = if port₁.removeProxyOnLastMessage then
      ((ν'.maybeRemoveProxy (η.name x)).forwardMessage port₁.peerNodeName
        (.observeClosure port₁.peerPortName port₁.lastSequenceNumToReceive), .ok)
      else (ν'.initiateProxyRemoval port₁ (η.name x), .ok) := by
    have hfwd' : (ν.setPort (η.name x) port₁).forwardMessages port₁ (η.name x) = (ν', .ok) := hfwd
    rw [hport₁] at hfwd'
    simp only [Node.onPortAccepted, hport, hstate, ne_eq, not_true_eq_false, if_false, hfwd']
    rw [hport₁]
  rw [hon, hm₁.remove]
  cases hrem : a.remove with
  | true =>
    rw [hrem, if_pos rfl] at hev
    obtain ⟨P, -, hcall⟩ := hfcall.refines.maybeRemoveProxy (hfcall.run.shape w₁ c₁)
      (hfcall.run.cargo w₁ c₁) hx' rfl (hagree.2.trans (hn.trans hfcall.name.symm)) hport'
      (fun hst => by
        have hc := hclean hst port hport
        rw [hport₁]
        exact hc)
    rw [hagree.1] at hcall
    have hall := ((hfcall.trans w₁ c₁ hcall).quiet hquiet).late
    subst hev
    rw [Names.event] at hall
    rw [if_pos rfl, hpeer.1, hpeer.2, hm₁.last]
    exact ⟨_, κ, P, hstep, hall⟩
  | false =>
    rw [hrem, if_neg Bool.false_ne_true] at hev
    have hall := (hfcall.quiet hquiet).late
    have hname : ν.name = ν'.name := hfcall.name.symm
    subst hev
    rw [Names.event, ← hpeer.1, ← hpeer.2, hn, hname] at hall
    exact ⟨_, κ, M, hstep, hall⟩

/-- An event is dropped at a port that is not there. -/
theorem drop (h : Refines η (s.commit ν) (N.withEvents E)) {ev : Net.Event}
    (hE : N.events = ev ::ₘ E) (hev : ∀ y, ev ≠ .accepted y)
    (hnone : ∀ a, N.port ev.dest = some a → a.kind = .transit) : Handled strict η s ν N ev ν :=
  ⟨_, η, _, .drop hE hev hnone, .refl h⟩

/-- `OnObserveProxy`. -/
theorem onObserveProxy {d : Place} (h : Refines η (s.commit ν) (N.withEvents E)) (w : N.Shape)
    (c : N.Cargo) (hE : N.events = .proxy d x ::ₘ E) (hn : η.home d = ν.name) :
    Handled strict η s ν N (.proxy d x) (ν.onObserveProxy (η.name d)
      { proxyNodeName := η.home x
        proxyPortName := η.name x
        proxyToNodeName := η.home x.succ
        proxyToPortName := η.name x.succ }).1 := by
  have wE : (N.withEvents E).Shape := w.consume hE
  obtain ⟨-, hd, hpass⟩ : N.Placed (.proxy d x) := w.events _ (hE ▸ Multiset.mem_cons_self ..)
  have hm := h.lookup hd hn
  cases hport : ν.getPort (η.name d) with
  | none =>
    rw [hport] at hm
    simp only [Node.onObserveProxy, hport]
    exact h.drop hE (by simp) hm
  | some port =>
    rw [hport] at hm
    obtain ⟨a, hx, hm⟩ := hm
    replace hx : N.port d = some a := hx
    -- The names of the proxy are those of the peer only if it is the peer.
    have hpeer : (port.peerNodeName = η.home x ∧ port.peerPortName = η.name x) ↔ N.peer d = x := by
      rw [hm.peerNodeName, hm.peerPortName]
      exact ⟨fun hp => h.inj _ _ (w.peer_used hd) hpass.used hp.2, fun hp => ⟨by rw [← hp]; rfl,
        by rw [← hp]; rfl⟩⟩
    simp only [Node.onObserveProxy, hport, hpeer]
    by_cases hp : N.peer d = x
    · rw [if_pos hp]
      by_cases hk : a.kind = .receiving
      · obtain ⟨e, i⟩ := d
        obtain rfl : i = N.len e := (w.live hx (by simp [hk])).1
        rw [Net.peer_live] at hp
        subst hp
        rw [if_pos (by rw [hm.state, hk]; rfl)]
        have hm' : PortMatch η ((N.withEvents E).redirect e) (e, N.len e) a { port with
            peerNodeName := η.home (e.opp, N.toward e + 1)
            peerPortName := η.name (e.opp, N.toward e + 1) } := by
          have hto : ((N.withEvents E).redirect e).peer (e, N.len e) = (e.opp, N.toward e + 1) := by
            refine (Net.peer_live ..).trans ?_
            rw [Net.toward_redirect_self]
            rfl
          exact { hm with
            peerNodeName := by rw [hto]
            peerPortName := by rw [hto] }
        have hr := h.redirect hx hd hn hm' (.of_receiving (c.withEvents E) hx (by simp [hk]))
        have hev : η.event (.ack (e.opp, N.toward e) (a.send - 1)) = (η.home (e.opp, N.toward e),
            (.observeProxyAck (η.name (e.opp, N.toward e)) (port.nextSequenceNumToSend - 1) : Event α)) := by
          rw [Names.event, hm.send]
        have hemit := hr.emit hev
        exact ⟨_, η, _, .redirect hE hx hk hpass.2, .of_quiet ⟨rfl, rfl, rfl⟩ hemit⟩
      · have hlive : a.kind.live = false := by
          cases hkk : a.kind with
          | transit => exact absurd hkk hm.arrived
          | receiving => exact absurd hkk hk
          | buffering => rfl
          | proxying => rfl
        have hlt := w.proxy hx hlive
        rw [Net.peer_of_lt hlt] at hp
        subst hp
        have hstate : port.state ≠ .receiving := by
          rwa [hm.state, Ne, Kind.state_eq_receiving]
        rw [if_neg hstate]
        have hm' : PortMatch η (N.withEvents E) d { a with stored := true } { port with
            sendOnProxyRemoval := some (η.home d.succ,
              .observeProxyAck (η.name d.succ) kInvalidSequenceNum) } :=
          { hm with stored := rfl }
        exact ⟨_, η, _, .store hE hx hlive,
          .of_quiet ⟨rfl, rfl, rfl⟩ (h.set (wE.used hx) hn hm' (.of_lt hlt))⟩
    · rw [if_neg hp]
      have hemit := h.emit (rfl : η.event (.proxy (N.peer d) x) = _)
      rw [hm.peerNodeName, hm.peerPortName]
      exact ⟨_, η, _, .proxyPass hE hx hm.arrived hp, .of_quiet ⟨rfl, rfl, rfl⟩ hemit⟩

/-- `OnObserveProxyAck`, if the port is not another one than a proxy. -/
theorem onObserveProxyAck {last : UInt64} (h : Refines η (s.commit ν) (N.withEvents E))
    (w : N.Shape) (c : N.Cargo) (hE : N.events = .ack x last ::ₘ E) (hn : η.home x = ν.name)
    (hk : ∀ a, N.port x = some a → a.kind ≠ .transit → a.kind = .proxying)
    (hclean : strict → ∀ port, ν.getPort (η.name x) = some port → last ≠ kInvalidSequenceNum →
      Port.removable { port with
        removeProxyOnLastMessage := true
        lastSequenceNumToReceive := last } → port.messageQueue.getReferencedPorts = []) :
    Handled strict η s ν N (.ack x last) (ν.onObserveProxyAck (η.name x) last).1 := by
  have wE : (N.withEvents E).Shape := w.consume hE
  have hpass : N.Passed x := w.events (.ack x last) (hE ▸ Multiset.mem_cons_self ..)
  have hm := h.lookup hpass.used hn
  cases hport : ν.getPort (η.name x) with
  | none =>
    rw [hport] at hm
    simp only [Node.onObserveProxyAck, hport]
    exact h.drop hE (by simp) hm
  | some port =>
    rw [hport] at hm
    obtain ⟨a, hx, hm⟩ := hm
    replace hx : N.port x = some a := hx
    have hkind := hk a hx hm.arrived
    have hstate : port.state = .proxying := by
      rw [hm.state, hkind]
      rfl
    have hlt := w.proxy hx (by simp [hkind])
    simp only [Node.onObserveProxyAck, hport]
    rw [if_neg (not_not.2 hstate)]
    -- An ack without a number says that the proxy was not removed: it asks again.
    by_cases hlast : last = kInvalidSequenceNum
    · rw [if_pos hlast]
      subst hlast
      have hpeer : (N.withEvents E).peer x = x.succ := Net.peer_of_lt hlt
      have hemit := h.emit (rfl : η.event (.proxy x.succ x) = _)
      rw [Node.initiateProxyRemoval, hm.peerNodeName, hm.peerPortName, hpeer, ← hn]
      exact ⟨_, η, _, .ackRetry hE hx hkind, .of_quiet ⟨rfl, rfl, rfl⟩ hemit⟩
    · rw [if_neg hlast]
      have hstep := Net.Step.ackAccept hE hlast hx hkind
      obtain ⟨port₁, hport₁⟩ : ∃ port₁ : Port α, port₁ = { port with
        removeProxyOnLastMessage := true
        lastSequenceNumToReceive := last } := ⟨_, rfl⟩
      have hm₁ : PortMatch η (N.withEvents E) x { a with remove := true, last := last } port₁ := by
        rw [hport₁]
        exact { hm with last := rfl, remove := rfl }
      have hset := h.set (wE.used hx) hn hm₁ (.of_lt hlt)
      have hget : (ν.setPort (η.name x) port₁).getPort (η.name x) = some port₁ := by
        rw [Node.getPort_setPort, if_pos rfl]
      obtain ⟨P, -, hcall⟩ := hset.maybeRemoveProxy (w.step c hstep) (c.step w hstep)
        (Net.port_set_self ..) hkind hn hget (fun hst => by
          rw [hport₁]
          exact hclean hst port hport hlast)
      have hquiet : ν.Quiet (ν.setPort (η.name x) port₁) := ⟨rfl, rfl, rfl⟩
      have hcall' := hcall.quiet hquiet
      rw [hport₁] at hcall'
      exact ⟨_, η, P, hstep, hcall'⟩

/-- `OnObserveClosure` at a port that receives. -/
theorem onObserveClosure_receiving {last : UInt64} (h : Refines η (s.commit ν) (N.withEvents E))
    (w : N.Shape) (c : N.Cargo) (hE : N.events = .closure x last ::ₘ E) (hn : η.home x = ν.name)
    {port : Port α} (hport : ν.getPort (η.name x) = some port) (hx : N.port x = some a)
    (hm : PortMatch η (N.withEvents E) x a port) (hk : a.kind = .receiving) :
    Handled strict η s ν N (.closure x last) (ν.onObserveClosure (η.name x) last).1 := by
  have wE : (N.withEvents E).Shape := w.consume hE
  simp only [Node.onObserveClosure, hport]
  obtain ⟨e, i⟩ := x
  obtain rfl : i = N.len e := (w.live hx (by simp [hk])).1
  have hm₁ : PortMatch η (N.withEvents E) (e, N.len e) { a with
      peerClosed := true
      last := last } { port with peerClosed := true, lastSequenceNumToReceive := last } :=
    { hm with last := rfl, peerClosed := rfl }
  have hset := h.set (wE.used hx) hn hm₁ (.of_receiving (c.withEvents E) hx (by simp [hk]))
  have hpeer : (N.withEvents E).peer (e, N.len e) = (e.opp, N.toward e) := Net.peer_live ..
  have hev : η.event (.closure (e.opp, N.toward e) (a.send - 1)) = (port.peerNodeName,
      (.observeClosure port.peerPortName (port.nextSequenceNumToSend - 1) : Event α)) := by
    rw [Names.event, hm.send, hm.peerNodeName, hm.peerPortName, hpeer]
  have hemit := hset.emit hev
  rw [if_pos (by rw [hm.state, hk]; rfl)]
  exact ⟨_, η, _, .closureReceive hE hx hk,
    .of_quiet ⟨rfl, rfl, rfl⟩ (hemit.portStatusChanged _)⟩

/-- `OnObserveClosure` at a port that passes the event on. -/
theorem onObserveClosure_passing {last : UInt64} (h : Refines η (s.commit ν) (N.withEvents E))
    (w : N.Shape) (c : N.Cargo) (hE : N.events = .closure x last ::ₘ E) (hn : η.home x = ν.name)
    {port : Port α} (hport : ν.getPort (η.name x) = some port) (hx : N.port x = some a)
    (hm : PortMatch η (N.withEvents E) x a port) (hlive : a.kind.live = false)
    (hclean : strict → port.state = .proxying → Port.removable { port with
      peerClosed := true
      removeProxyOnLastMessage := true
      lastSequenceNumToReceive := last } → port.messageQueue.getReferencedPorts = []) :
    Handled strict η s ν N (.closure x last) (ν.onObserveClosure (η.name x) last).1 := by
  have wE : (N.withEvents E).Shape := w.consume hE
  simp only [Node.onObserveClosure, hport]
  have hlt := w.proxy hx hlive
  have hstate : port.state ≠ .receiving := by
    rw [hm.state, Ne, Kind.state_eq_receiving]
    intro hk
    rw [hk] at hlive
    cases hlive
  rw [if_neg hstate]
  have hstep := Net.Step.closurePass hE hx hlive
  obtain ⟨port₁, hport₁⟩ : ∃ port₁ : Port α, port₁ = { port with
    peerClosed := true
    lastSequenceNumToReceive := last
    removeProxyOnLastMessage := true } := ⟨_, rfl⟩
  have hm₁ : PortMatch η (N.withEvents E) x { a with
      peerClosed := true
      remove := true
      last := last } port₁ := by
    rw [hport₁]
    exact { hm with last := rfl, remove := rfl, peerClosed := rfl }
  have hpeer : (N.withEvents E).peer x = x.succ := Net.peer_of_lt hlt
  have hev : η.event (.closure x.succ last) = (port.peerNodeName,
      (.observeClosure port.peerPortName last : Event α)) := by
    rw [Names.event, hm.peerNodeName, hm.peerPortName, hpeer]
  have hset := (h.set (wE.used hx) hn hm₁ (.of_lt hlt)).ahead hev
  have hquiet : ν.Quiet (ν.setPort (η.name x) port₁) := ⟨rfl, rfl, rfl⟩
  -- The source removes the proxy and then passes the event on. The net passes it on first.
  by_cases hpk : a.kind = .proxying
  · rw [if_pos (by rw [hm.state, hpk]; rfl)]
    have hget : (ν.setPort (η.name x) port₁).getPort (η.name x) = some port₁ := by
      rw [Node.getPort_setPort, if_pos rfl]
    obtain ⟨P, -, hcall⟩ := hset.maybeRemoveProxy (w.step c hstep) (c.step w hstep)
      (Net.port_set_self ..) hpk hn hget (fun hst => by
        rw [hport₁]
        exact hclean hst (by rw [hm.state, hpk]; rfl))
    have hall := (hcall.quiet hquiet).late
    rw [hport₁] at hall
    exact ⟨_, η, P, hstep, hall⟩
  · rw [if_neg (by rwa [hm.state, Kind.state_eq_proxying])]
    have hall := hset.late
    rw [hport₁] at hall
    exact ⟨_, η, _, hstep, .of_quiet ⟨rfl, rfl, rfl⟩ hall⟩

/-- `OnObserveClosure`. -/
theorem onObserveClosure {last : UInt64} (h : Refines η (s.commit ν) (N.withEvents E))
    (w : N.Shape) (c : N.Cargo) (hE : N.events = .closure x last ::ₘ E) (hn : η.home x = ν.name)
    (hclean : strict → ∀ port, ν.getPort (η.name x) = some port → port.state = .proxying →
      Port.removable { port with
        peerClosed := true
        removeProxyOnLastMessage := true
        lastSequenceNumToReceive := last } → port.messageQueue.getReferencedPorts = []) :
    Handled strict η s ν N (.closure x last) (ν.onObserveClosure (η.name x) last).1 := by
  have hu : N.Used x := w.events (.closure x last) (hE ▸ Multiset.mem_cons_self ..)
  have hm := h.lookup hu hn
  cases hport : ν.getPort (η.name x) with
  | none =>
    rw [hport] at hm
    simp only [Node.onObserveClosure, hport]
    exact h.drop hE (by simp) hm
  | some port =>
    rw [hport] at hm
    obtain ⟨a, hx, hm⟩ := hm
    replace hx : N.port x = some a := hx
    -- A port that receives answers with a closure of its own. Any other passes it on.
    by_cases hk : a.kind = .receiving
    · exact h.onObserveClosure_receiving w c hE hn hport hx hm hk
    · have hlive : a.kind.live = false := by
        cases hkk : a.kind with
        | transit => exact absurd hkk hm.arrived
        | receiving => exact absurd hkk hk
        | buffering => rfl
        | proxying => rfl
      exact h.onObserveClosure_passing w c hE hn hport hx hm hlive fun hst => hclean hst port hport

end Refines

end MojoEdk.Ports
