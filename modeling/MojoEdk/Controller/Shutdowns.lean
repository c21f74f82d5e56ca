import MojoEdk.Library.Exclusive
import MojoEdk.Library.Machine
import MojoEdk.Ports.Notification
import MojoEdk.Ports.Skipping

/-!
# Shutting down

`RequestShutdown` keeps a callback, which is run when the node can shut down cleanly. Nobody
waits for that: the callback is looked at when the shutdown is requested
(`AttemptShutdownIfRequested`), and again at the end of each call of the controller that changes
the ports of its node, once the messages of the node to itself have been accepted
(`AcceptIncomingMessages`). Any thread may make these calls, at the same time.

* No shutdown is missed (`Shutdowns.never_missed`): as long as a callback is kept and no thread is
  to look at it, the node cannot shut down cleanly. Callbacks are run once at most.
* Shutdowns are completed (`Shutdowns.completes`): with nothing in flight and no thread at work,
  the last callback of each node has been run, if fewer than `2 ^ 64 - 1` messages were sent to
  each end.

This relies on the calls that nobody looks after, which create pairs of ports or read messages:
they leave alone what keeps a node from shutting down (`System.role_step`). Losing a connection may
not, and then the callback is not run (`Shutdowns.missed`).

Here, the ports of a pair have each other from the start. A port that waits for its peer keeps a
node from shutting down, and nobody looks at the callback when it is given the peer
(`OnConnectToPort`, `OnRequestPortConnection`, `ConnectReservedPorts`), so that a shutdown may be
missed then, too. These calls are in `Bootstraps` and `Reservations`, and not here.
-/

namespace MojoEdk.Ports

variable {α : Type*}

namespace Node

variable {s : Node α} {p q : PortName} {port : Port α}

/-! ## What keeps a node from shutting down -/

/-- What `CanShutdownCleanly` looks at in a port: its state and the node of its peer. -/
def role (s : Node α) (p : PortName) : Option (Port.State × NodeName) :=
  (s.getPort p).map fun port => (port.state, port.peerNodeName)

theorem canShutdownCleanly_iff (s : Node α) : s.canShutdownCleanly true = true ↔
    ∀ p state peer, s.role p = some (state, peer) → peer = s.name ∨ state = .receiving := by
  rw [canShutdownCleanly, if_pos rfl, List.all_eq_true]
  constructor
  · intro h p state peer hrole
    obtain ⟨port, hport, heq⟩ := Option.map_eq_some_iff.1 hrole
    obtain ⟨rfl, rfl⟩ := Prod.mk.inj heq
    have hentry := h _ (AList.mem_lookup_iff.1 hport)
    rwa [Bool.or_eq_true, beq_iff_eq, beq_iff_eq] at hentry
  · rintro h ⟨p, port⟩ hmem
    have hport : s.getPort p = some port := AList.mem_lookup_iff.2 hmem
    rw [Bool.or_eq_true, beq_iff_eq, beq_iff_eq]
    exact h p port.state port.peerNodeName (by rw [role, hport]; rfl)

theorem role_setPort_of_ne (hpq : p ≠ q) (s : Node α) (port : Port α) :
    (s.setPort q port).role p = s.role p := by
  rw [role, role, getPort_setPort, if_neg hpq]

theorem role_setQueue (hport : s.getPort q = some port) (queue : MessageQueue α) (p : PortName) :
    (s.setPort q { port with messageQueue := queue }).role p = s.role p := by
  rw [role, role, getPort_setPort]
  split_ifs with hpq
  · rw [hpq, hport]
    rfl
  · rfl

theorem role_setSignalable (s : Node α) (names : List PortName) (p : PortName) :
    (s.setSignalable names).role p = s.role p := by
  induction names generalizing s with
  | nil => rfl
  | cons name names ih =>
    rw [setSignalable, List.foldl_cons]
    refine (ih _).trans ?_
    cases hport : s.getPort name with
    | none => rfl
    | some port =>
      dsimp only
      split_ifs
      · exact role_setQueue hport _ p
      · exact role_setQueue (s := s.oops .newPortStateUnexpected) hport _ p

theorem role_getMessageIf (s : Node α) (q : PortName) (selector : Option (Message α → Bool))
    (p : PortName) : (s.getMessageIf q selector).1.role p = s.role p := by
  rw [getMessageIf]
  split
  next => rfl
  next port hport =>
    split_ifs
    · rfl
    · rfl
    · split
      next => rfl
      next =>
        rw [role_setSignalable]
        exact role_setQueue hport _ p

theorem role_createUninitializedPort (hp : p < s.delegate.nextPortName) :
    s.createUninitializedPort.1.role p = s.role p := by
  simp only [createUninitializedPort, addPortWithName]
  split
  next => rfl
  next => exact role_setPort_of_ne hp.ne s.generateRandomPortName.2 _

theorem role_initializePort (hpq : p ≠ q) (s : Node α) (peerNodeName : NodeName)
    (peerPortName : PortName) :
    (s.initializePort q peerNodeName peerPortName).1.role p = s.role p := by
  rw [initializePort]
  split
  next => rfl
  next =>
    split_ifs
    · exact role_setPort_of_ne hpq s _
    · rfl

/-- The ports of a pair are new. -/
theorem role_createPortPair (hp : p < s.delegate.nextPortName) :
    s.createPortPair.1.role p = s.role p := by
  rw [createPortPair]
  have h₀ := role_createUninitializedPort hp
  have hport₀ : p ≠ s.createUninitializedPort.2.1 := hp.ne
  have hnext : s.createUninitializedPort.1.delegate.nextPortName = s.delegate.nextPortName + 1 :=
    Every.nextPortName_addPortWithName (s := s.generateRandomPortName.2)
  split
  next s₀ port₀ heq =>
    rw [heq] at h₀ hport₀ hnext
    have hp₀ : p < s₀.delegate.nextPortName := hnext ▸ Nat.lt_succ_of_lt hp
    have h₁ := (role_createUninitializedPort hp₀).trans h₀
    have hport₁ : p ≠ s₀.createUninitializedPort.2.1 := hp₀.ne
    split
    next s₁ port₁ heq =>
      rw [heq] at h₁ hport₁
      have h₂ := (role_initializePort hport₀ s₁ s₁.name port₁).trans h₁
      split
      next s₂ heq =>
        rw [heq] at h₂
        exact (role_initializePort hport₁ s₂ s₂.name port₀).trans h₂
      next heq =>
        rw [heq] at h₂
        exact h₂
    next heq =>
      rw [heq] at h₁
      exact h₁
  next heq =>
    rw [heq] at h₀
    exact h₀

end Node

namespace System

variable {s s' : System α} {n m : NodeName} {p : PortName}

/-- The node that an action calls, if the call ends with `AcceptIncomingMessages`. -/
def attendedNode (s : System α) : Action α → Option NodeName
  | .sendMessage n _ _ _ | .closePort n _ => some n
  | .acceptMessage i => s.inFlight[i]?.map (·.1)
  | _ => none

theorem role_commit (s : System α) (ν : Node α) (n : NodeName) (p : PortName) :
    ((s.commit ν).node n).role p = if n = ν.name then ν.role p else (s.node n).role p := by
  rw [Node.role, getPort_commit]
  split_ifs <;> rfl

/-- A call on a node that does nothing to a port, or on another node. -/
theorem role_call (hname : ∀ n, (s.node n).name = n) {ν : Node α}
    (hν : ν.name = (s.start m).name) (hrole : n = m → ν.role p = (s.node n).role p) :
    ((s.commit ν).node n).role p = (s.node n).role p := by
  rw [role_commit]
  split_ifs with hn
  · exact hrole (hn.trans (hν.trans (hname m)))
  · rfl

theorem role_connect (hname : ∀ n, (s.node n).name = n) (hp : p < s.nextPortName)
    (n₀ n₁ : NodeName) : ((s.connect n₀ n₁).node n).role p = (s.node n).role p := by
  have hcreate {s : System α} (hname : ∀ n, (s.node n).name = n) (hp : p < s.nextPortName)
      (m : NodeName) : ((s.commit (s.start m).createUninitializedPort.1).node n).role p =
        (s.node n).role p := by
    refine role_call hname (Node.Kept.refl (s.start m)).createUninitializedPort.name ?_
    rintro rfl
    exact Node.role_createUninitializedPort (s := s.start n) hp
  have hset {s : System α} (hname : ∀ n, (s.node n).name = n) (m n' : NodeName)
      {q q' : PortName} (hpq : p ≠ q) :
      ((s.commit ((s.start m).initializePort q n' q').1).node n).role p = (s.node n).role p := by
    refine role_call hname ((Node.Kept.refl (s.start m)).initializePort q n' q').name ?_
    rintro rfl
    exact Node.role_initializePort hpq (s.start n) n' q'
  set s₁ := s.commit (s.start n₀).createUninitializedPort.1
  have hp₁ : p < s₁.nextPortName := (Nat.lt_succ_of_lt hp).trans_eq (nextPortName_create s n₀).symm
  have hname₁ := name_commit hname (s.start n₀).createUninitializedPort.1
  have hname₂ := name_commit hname₁ (s₁.start n₁).createUninitializedPort.1
  exact (hset (name_commit hname₂ _) n₁ n₀ hp₁.ne).trans ((hset hname₂ n₀ n₁ hp.ne).trans
    ((hcreate hname₁ hp₁ n₁).trans (hcreate hname hp n₀)))

/-- A call that nobody looks after leaves a port what it is, unless it is on the port's node, or a
    connection is lost. -/
theorem role_step (hname : ∀ n, (s.node n).name = n) {act : Action α} (hs : s.step act = some s')
    (hp : p < s.nextPortName) (hn : s.attendedNode act ≠ some n)
    (hlost : ∀ lost, act ≠ .lostConnectionToNode n lost) :
    (s'.node n).role p = (s.node n).role p := by
  rw [System.step.eq_def] at hs
  split_ifs at hs
  cases act with
  | createPortPair m =>
    obtain rfl := Option.some.inj hs
    refine role_call hname (Node.Kept.refl (s.start m)).createPortPair.name ?_
    rintro rfl
    exact Node.role_createPortPair (s := s.start n) hp
  | connect n₀ n₁ =>
    obtain rfl := Option.some.inj hs
    exact role_connect hname hp n₀ n₁
  | sendMessage m q payload ports =>
    obtain rfl := Option.some.inj hs
    have hcall := role_call (n := n) (p := p) hname
      ((Node.Kept.refl (s.start m)).sendMessage q (Message.newUserMessage payload ports)).1
      fun hnm => absurd (congrArg some hnm.symm) hn
    rw [System.sendMessage]
    split
    next heq =>
      rw [heq] at hcall
      exact hcall
    next heq =>
      rw [heq] at hcall
      exact hcall
  | getMessageIf m q selector =>
    obtain rfl := Option.some.inj hs
    have hcall := role_call (n := n) (p := p) hname ((Node.Kept.refl (s.start m)).getMessageIf q selector).name
      (by rintro rfl; exact Node.role_getMessageIf (s.start n) q selector p)
    rw [System.getMessageIf]
    split
    next heq =>
      rw [heq] at hcall
      exact hcall
    next heq =>
      rw [heq] at hcall
      exact hcall
  | closePort m q =>
    obtain rfl := Option.some.inj hs
    exact role_call hname ((Node.Kept.refl (s.start m)).closePortAux _ q).name
      fun hnm => absurd (congrArg some hnm.symm) hn
  | acceptMessage i =>
    simp only at hs
    split at hs
    · cases hs
    next m event hi =>
      obtain rfl := Option.some.inj hs
      refine role_call (s := { s with inFlight := s.inFlight.eraseIdx i }) hname
        ((Node.Kept.refl (s.start m)).acceptMessage event).name fun hnm => absurd ?_ hn
      rw [attendedNode, hi, hnm]
      rfl
  | lostConnectionToNode m lost =>
    obtain rfl := Option.some.inj hs
    refine role_call hname (m := m) (by rw [Node.lostConnectionToNode_eq]) ?_
    rintro rfl
    exact absurd rfl (hlost lost)

/-- A node that cannot shut down cleanly still cannot, after a call that nobody looks after. -/
theorem canShutdownCleanly_step (h : Reachable Lossy s) {act : Action α} (hG : s.Lossy act)
    (hs : s.step act = some s') (hn : s.attendedNode act ≠ some n)
    (hlost : ∀ lost, act ≠ .lostConnectionToNode n lost)
    (hclean : (s'.node n).canShutdownCleanly true = true) :
    (s.node n).canShutdownCleanly true = true := by
  obtain ⟨hname, hfresh⟩ := h.name_fresh
  rw [Node.canShutdownCleanly_iff] at hclean ⊢
  intro p state peer hrole
  have hp : p < s.nextPortName := by
    by_contra hle
    rw [Node.role, hfresh n p (not_lt.1 hle)] at hrole
    cases hrole
  have hrole' := (role_step hname hs hp hn hlost).trans hrole
  rcases hclean p state peer hrole' with hpeer | hstate
  · exact .inl (hpeer.trans (((h.step hG hs).name_fresh.1 n).trans (hname n).symm))
  · exact .inr hstate

theorem canShutdownCleanly_lostConnectionToNode (hname : ∀ n, (s.node n).name = n)
    (n lost : NodeName) :
    ((s.commit ((s.start n).lostConnectionToNode lost)).node n).canShutdownCleanly true =
      ((s.node n).lostConnectionToNode lost).canShutdownCleanly true := by
  rw [Bool.eq_iff_iff, Node.canShutdownCleanly_iff, Node.canShutdownCleanly_iff,
    Node.lostConnectionToNode_eq, Node.lostConnectionToNode_eq]
  have hself : n = (s.start n).name := (hname n).symm
  simp only [role_commit, name_commit hname, if_pos hself, hname]
  rfl

/-- With nothing in flight, every node can shut down cleanly. -/
theorem Reachable.canShutdownCleanly_of_honours
    (h : Reachable (fun s act => s.Honest act ∧ s.Acknowledges act ∧ s.Honours act) s)
    (hsmall : ∀ e, (s.sent e).length < 2 ^ 64 - 1) (hflight : s.inFlight = []) (n : NodeName) :
    (s.node n).canShutdownCleanly true = true := by
  obtain ⟨η, N, hS, hN, hminded⟩ :=
    (h.simulates (fun _ _ hG => hG.1) Net.Minded Net.Minded.init
      fun hS hN hI hact hm => hm.minded hS hN hact.2.1 hact.2.2 hI).1
  obtain ⟨lim, q⟩ := hS.sequence hN hsmall
  have hstill := hS.still hN q (h.mono fun _ _ hG => hG.1) hminded.carried hminded.tended hflight
  rw [Node.canShutdownCleanly_iff]
  intro p state peer hrole
  obtain ⟨port, hport, heq⟩ := Option.map_eq_some_iff.1 hrole
  obtain ⟨x, a, hx, -, -, hm⟩ := hS.exists_place hport
  have hbuffering := hstill.kind_ne_buffering hN.shape hx
  have hproxying := hstill.kind_ne_proxying hN.shape q hminded.answered hminded.vocal hx
  have hreceiving : port.state = .receiving := by
    rw [hm.state]
    cases hkind : a.kind with
    | receiving => rfl
    | buffering => exact absurd hkind hbuffering
    | proxying => exact absurd hkind hproxying
    | transit => exact absurd hkind hm.arrived
  exact .inr ((Prod.mk.inj heq).1.symm.trans hreceiving)

end System

end MojoEdk.Ports

namespace MojoEdk.Controller

open Ports

variable {α : Type*}

/-! ## Threads -/

/-- What a thread has to do in calls of controllers, one after the other. -/
inductive Routine
  | acceptIncomingMessages (n : NodeName)
  | attemptShutdownIfRequested (n : NodeName)
  /-- The callback is run. -/
  | run (callback : ℕ)
  deriving DecidableEq

namespace Routine

/-- The node that is looked at in the end: `AcceptIncomingMessages` ends with
    `AttemptShutdownIfRequested`. -/
def attends : Routine → Option NodeName
  | acceptIncomingMessages n | attemptShutdownIfRequested n => some n
  | run _ => none

/-- The callback that is to be run. -/
def callback : Routine → Option ℕ
  | run callback => some callback
  | _ => none

end Routine

/-- The nodes, with what their controllers keep to shut down, and the threads. Callbacks are
    numbered as they are given. The messages of a node to itself are in flight, too. -/
structure Shutdowns (α : Type*) where
  system : System α := {}
  shutdownCallback : NodeName → Option ℕ := fun _ => none
  thread : ℕ → List Routine := fun _ => []
  requests : ℕ := 0
  /-- History: the last callback that was given to a node. -/
  last : NodeName → Option ℕ := fun _ => none
  /-- History: the callbacks that were run. -/
  ran : List ℕ := []

namespace Shutdowns

/-- What a thread does. -/
inductive Input (α : Type*)
  /-- A call of a node or of its controller: `SendMessage`, `ClosePort`, `OnPortsMessage` or
      `DropPeer`, or one that is not followed by anything. -/
  | call (thread : ℕ) (action : Action α)
  /-- `AcceptIncomingMessages` accepts the `i`th event in flight. -/
  | acceptMessage (thread : ℕ) (i : ℕ)
  | requestShutdown (thread : ℕ) (n : NodeName)
  /-- What the thread is doing comes to its end. -/
  | next (thread : ℕ)

/-- The thread that takes a step. -/
def Input.thread : Input α → ℕ
  | call t _ | acceptMessage t _ | requestShutdown t _ | next t => t

variable (s : Shutdowns α)

/-- What is left to do after a call of a node. -/
def rest : Action α → List Routine
  | .sendMessage n _ _ _ | .closePort n _ => [.acceptIncomingMessages n]
  | .acceptMessage i =>
    match s.system.inFlight[i]? with
    | none => []
    -- `OnPortsMessage` attempts to shut down once more after `AcceptIncomingMessages`.
    | some (n, _) => [.acceptIncomingMessages n, .attemptShutdownIfRequested n]
  | _ => []

def setThread (t : ℕ) (routines : List Routine) : Shutdowns α :=
  { s with thread := Function.update s.thread t routines }

def setCallback (n : NodeName) (callback : Option ℕ) : Shutdowns α :=
  { s with shutdownCallback := Function.update s.shutdownCallback n callback }

/-- `AttemptShutdownIfRequested`, with what the thread does next. -/
def attemptShutdownIfRequested (t : ℕ) (n : NodeName) (routines : List Routine) : Shutdowns α :=
  match s.shutdownCallback n with
  | none => s.setThread t routines
  | some callback =>
    if !(s.system.node n).canShutdownCleanly true then s.setThread t routines
    else (s.setCallback n none).setThread t (.run callback :: routines)

/-- `RequestShutdown`. A callback that was kept is replaced. -/
def requestShutdown (t : ℕ) (n : NodeName) : Shutdowns α :=
  { s.setCallback n (some s.requests) with
    requests := s.requests + 1
    last := Function.update s.last n (some s.requests)
    }.setThread t [.attemptShutdownIfRequested n]

/-- A step of a thread, if it can take it. -/
def step : Input α → Option (Shutdowns α)
  | .call t action =>
    if s.thread t ≠ [] then none
    else (s.system.step action).map fun system =>
      { s with system := system }.setThread t (s.rest action)
  | .acceptMessage t i =>
    match s.thread t, s.system.inFlight[i]? with
    | .acceptIncomingMessages n :: _, some (m, _) =>
      if m ≠ n then none
      else (s.system.step (.acceptMessage i)).map fun system => { s with system := system }
    | _, _ => none
  | .requestShutdown t n => if s.thread t ≠ [] then none else some (s.requestShutdown t n)
  | .next t =>
    match s.thread t with
    | [] => none
    -- There were no messages left when the thread looked.
    | .acceptIncomingMessages n :: routines =>
      some (s.setThread t (.attemptShutdownIfRequested n :: routines))
    | .attemptShutdownIfRequested n :: routines =>
      some (s.attemptShutdownIfRequested t n routines)
    | .run callback :: routines =>
      some ({ s with ran := s.ran ++ [callback] }.setThread t routines)

/-- The action that is made. -/
def action : Input α → Option (Action α)
  | .call _ action => some action
  | .acceptMessage _ i => some (.acceptMessage i)
  | _ => none

/-- No node can shut down cleanly that could not before because a connection is lost, as long as a
    callback is kept for it. -/
def Spares : Action α → Prop
  | .lostConnectionToNode n lost => s.shutdownCallback n ≠ none →
    ((s.system.node n).lostConnectionToNode lost).canShutdownCleanly true = true →
      (s.system.node n).canShutdownCleanly true = true
  | _ => True

/-- The embedder makes actions on ports that it holds, and connections may get lost. -/
def Attends (i : Input α) : Prop := ∀ act ∈ action i, s.system.Lossy act ∧ s.Spares act

/-- As `Attends`, with connections that are not lost, and nothing that leaves a proxy behind. -/
def Collapses (i : Input α) : Prop := ∀ act ∈ action i,
  s.system.Honest act ∧ s.system.Acknowledges act ∧ s.system.Honours act

/-- A thread is going to look at a node. -/
def Attended (n : NodeName) : Prop := ∃ t, ∃ r ∈ s.thread t, r.attends = some n

/-- Where a callback may be. -/
inductive Owner
  | node (n : NodeName)
  | thread (t : ℕ)
  | ran
  deriving DecidableEq

/-- The callbacks that are kept, those that threads are to run, and those that were run. -/
def owns : Owner → List ℕ
  | .node n => (s.shutdownCallback n).toList
  | .thread t => (s.thread t).filterMap Routine.callback
  | .ran => s.ran

/-- A callback is to be run by a thread, or was run. -/
def Taken (callback : ℕ) : Prop := (∃ t, .run callback ∈ s.thread t) ∨ callback ∈ s.ran

structure Inv : Prop where
  reachable : System.Reachable System.Lossy s.system
  attended : ∀ n, s.shutdownCallback n ≠ none → ¬s.Attended n →
    (s.system.node n).canShutdownCleanly true = false
  exclusive : Exclusive s.owns
  lt : ∀ o, ∀ callback ∈ s.owns o, callback < s.requests
  last : ∀ n callback, s.last n = some callback →
    s.shutdownCallback n = some callback ∨ s.Taken callback

instance (act : Action α) : Decidable (s.Spares act) :=
  match act with
  | .lostConnectionToNode _ _ => inferInstanceAs (Decidable (_ → _ → _))
  | .createPortPair _ | .connect _ _ | .sendMessage _ _ _ _ | .getMessageIf _ _ _
  | .closePort _ _ | .acceptMessage _ => inferInstanceAs (Decidable True)

instance (i : Input α) : Decidable (s.Attends i) :=
  inferInstanceAs (Decidable (∀ act ∈ action i, _))

def machine (α : Type*) : Machine (Shutdowns α) (Input α) where
  init := {}
  step s i := s.step i

variable {s} {s' : Shutdowns α} {t : ℕ} {n : NodeName} {routines : List Routine}

theorem thread_setThread (s : Shutdowns α) (t : ℕ) (routines : List Routine) (t' : ℕ) :
    (s.setThread t routines).thread t' = if t' = t then routines else s.thread t' :=
  Function.update_apply ..

theorem owns_setThread (s : Shutdowns α) (t : ℕ) (routines : List Routine) :
    (s.setThread t routines).owns =
      Function.update s.owns (.thread t) (routines.filterMap Routine.callback) := by
  funext o
  rw [Function.update_apply]
  cases o with
  | thread t' =>
    rw [owns, thread_setThread]
    by_cases ht : t' = t
    · rw [if_pos ht, if_pos (congrArg _ ht)]
    · rw [if_neg ht, if_neg fun h => ht (Owner.thread.inj h)]
      rfl
  | node | ran => rfl

theorem shutdownCallback_setCallback (s : Shutdowns α) (n : NodeName) (callback : Option ℕ)
    (m : NodeName) : (s.setCallback n callback).shutdownCallback m =
      if m = n then callback else s.shutdownCallback m := Function.update_apply ..

theorem owns_setCallback (s : Shutdowns α) (n : NodeName) (callback : Option ℕ) :
    (s.setCallback n callback).owns = Function.update s.owns (.node n) callback.toList := by
  funext o
  rw [Function.update_apply]
  cases o with
  | node m =>
    rw [owns, shutdownCallback_setCallback]
    by_cases hm : m = n
    · rw [if_pos hm, if_pos (congrArg _ hm)]
    · rw [if_neg hm, if_neg fun h => hm (Owner.node.inj h)]
      rfl
  | thread | ran => rfl

/-- What is left to do after a call runs no callback. -/
theorem filterMap_rest (s : Shutdowns α) (action : Action α) :
    (s.rest action).filterMap Routine.callback = [] := by
  cases action with
  | acceptMessage i =>
    rw [rest]
    split
    · rfl
    · rfl
  | sendMessage | closePort | createPortPair | connect | getMessageIf | lostConnectionToNode => rfl

/-- A node that is called is looked at in the end. -/
theorem mem_rest {action : Action α} (hn : s.system.attendedNode action = some n) :
    .acceptIncomingMessages n ∈ s.rest action := by
  cases action with
  | sendMessage | closePort =>
    obtain rfl := Option.some.inj hn
    exact List.mem_cons_self
  | acceptMessage i =>
    obtain ⟨⟨m, event⟩, hi, rfl⟩ := Option.map_eq_some_iff.1 hn
    rw [rest, hi]
    exact List.mem_cons_self
  | createPortPair | connect | getMessageIf | lostConnectionToNode => cases hn

/-- Callbacks that are to be run are in the list. -/
theorem mem_run_iff {l l' : List Routine}
    (h : l.filterMap Routine.callback = l'.filterMap Routine.callback) {callback : ℕ} :
    .run callback ∈ l ↔ .run callback ∈ l' := by
  have hmem (l : List Routine) : .run callback ∈ l ↔ callback ∈ l.filterMap Routine.callback := by
    rw [List.mem_filterMap]
    constructor
    · exact fun hrun => ⟨_, hrun, rfl⟩
    · rintro ⟨r, hr, hcallback⟩
      cases r with
      | run c => exact Option.some.inj hcallback ▸ hr
      | acceptIncomingMessages | attemptShutdownIfRequested => cases hcallback
  rw [hmem, hmem, h]

/-- A thread that goes on looks at the nodes that it would have looked at. -/
theorem Attended.setThread (h : s.Attended n) (hr : ∀ r ∈ s.thread t, r.attends = some n →
    ∃ r' ∈ routines, r'.attends = some n) : (s.setThread t routines).Attended n := by
  obtain ⟨t', r, hmem, hn⟩ := h
  by_cases ht : t' = t
  · subst ht
    obtain ⟨r', hr', hn'⟩ := hr r hmem hn
    exact ⟨t', r', by rwa [thread_setThread, if_pos rfl], hn'⟩
  · exact ⟨t', r, by rwa [thread_setThread, if_neg ht], hn⟩

theorem Taken.setThread {callback : ℕ} (h : s.Taken callback)
    (hr : .run callback ∈ s.thread t → .run callback ∈ routines ∨ callback ∈ s.ran) :
    (s.setThread t routines).Taken callback := by
  rcases h with ⟨t', hrun⟩ | hran
  · by_cases ht : t' = t
    · rcases hr (ht ▸ hrun) with hrun | hran
      · exact .inl ⟨t, by rwa [thread_setThread, if_pos rfl]⟩
      · exact .inr hran
    · exact .inl ⟨t', by rwa [thread_setThread, if_neg ht]⟩
  · exact .inr hran

namespace Inv

theorem init : ({} : Shutdowns α).Inv where
  reachable := .init
  attended _ h := absurd rfl h
  exclusive := by
    have hnil : ({} : Shutdowns α).owns = fun _ => [] := by
      funext o
      cases o with
      | node | thread | ran => rfl
    exact hnil ▸ .nil
  lt o _ h := by
    cases o with
    | node | thread | ran => cases h
  last _ _ h := by cases h

/-- A step of the nodes, by a thread that goes on with the same callbacks to run. -/
theorem act (h : s.Inv) {action : Action α} (hG : s.system.Lossy action) (hspares : s.Spares action)
    {system : System α} (hs : s.system.step action = some system) {s' : Shutdowns α}
    (hsystem : s'.system = system) (hcallback : s'.shutdownCallback = s.shutdownCallback)
    (howns : s'.owns = s.owns) (hrequests : s'.requests = s.requests) (hlast : s'.last = s.last)
    (htaken : ∀ callback, s.Taken callback → s'.Taken callback)
    (hattended : ∀ n, s.Attended n ∨ s.system.attendedNode action = some n → s'.Attended n) :
    s'.Inv where
  reachable := hsystem ▸ h.reachable.step hG hs
  attended n hkept hnot := by
    rw [hcallback] at hkept
    rw [hsystem, Bool.eq_false_iff]
    intro hclean
    have hold := h.attended n hkept fun hn => hnot (hattended n (.inl hn))
    rw [Bool.eq_false_iff] at hold
    by_cases hlost : ∃ lost, action = .lostConnectionToNode n lost
    · obtain ⟨lost, rfl⟩ := hlost
      rw [System.step] at hs
      split_ifs at hs
      obtain rfl := Option.some.inj hs
      rw [System.canShutdownCleanly_lostConnectionToNode h.reachable.name_fresh.1] at hclean
      exact hold (hspares hkept hclean)
    · exact hold (System.canShutdownCleanly_step h.reachable hG hs
        (fun hn => hnot (hattended n (.inr hn))) (not_exists.1 hlost) hclean)
  exclusive := howns ▸ h.exclusive
  lt := by
    rw [howns, hrequests]
    exact h.lt
  last n callback hn := by
    rw [hlast] at hn
    rw [hcallback]
    exact (h.last n callback hn).imp_right (htaken callback)

/-- A thread goes on, and still looks at the nodes that could shut down. -/
theorem attended_setThread (h : s.Inv) (s' : Shutdowns α) (hsystem : s'.system = s.system)
    (hthread : s'.thread = s.thread)
    (hkept : ∀ n, s'.shutdownCallback n ≠ none → (s.system.node n).canShutdownCleanly true = true →
      (∃ r ∈ routines, r.attends = some n) ∨ s.shutdownCallback n ≠ none ∧
        ∀ r ∈ s.thread t, r.attends = some n → ∃ r' ∈ routines, r'.attends = some n)
    (n : NodeName) (hn : s'.shutdownCallback n ≠ none)
    (hnot : ¬(s'.setThread t routines).Attended n) :
    (s'.system.node n).canShutdownCleanly true = false := by
  rw [hsystem, Bool.eq_false_iff]
  intro hclean
  rcases hkept n hn hclean with ⟨r, hr, hattends⟩ | ⟨hold, hkeeps⟩
  · exact hnot ⟨t, r, by rwa [thread_setThread, if_pos rfl], hattends⟩
  · have hattended : s'.Attended n := by
      by_contra hno
      have hno' : ¬s.Attended n := by rwa [Attended, hthread] at hno
      exact absurd hclean (Bool.eq_false_iff.1 (h.attended n hold hno'))
    exact hnot (hattended.setThread (hthread ▸ hkeeps))

/-- A thread goes on with the same callbacks to run. -/
theorem setThread (h : s.Inv)
    (hrun : routines.filterMap Routine.callback = (s.thread t).filterMap Routine.callback)
    (hkept : ∀ n, s.shutdownCallback n ≠ none → (s.system.node n).canShutdownCleanly true = true →
      ∀ r ∈ s.thread t, r.attends = some n → ∃ r' ∈ routines, r'.attends = some n) :
    (s.setThread t routines).Inv := by
  have hsame : (s.setThread t routines).owns = s.owns := by
    rw [owns_setThread, hrun]
    exact Function.update_eq_self ..
  exact
    { reachable := h.reachable
      attended := h.attended_setThread s rfl rfl fun n hn hclean =>
        .inr ⟨hn, hkept n hn hclean⟩
      exclusive := hsame ▸ h.exclusive
      lt := hsame ▸ h.lt
      last := fun n callback hn => (h.last n callback hn).imp_right fun htaken =>
        htaken.setThread fun hmem => .inl ((mem_run_iff hrun).2 hmem) }

/-- The callback is taken, and is to be run. -/
theorem take (h : s.Inv) {callback : ℕ} (hkept : s.shutdownCallback n = some callback)
    (hrun : routines.filterMap Routine.callback = (s.thread t).filterMap Routine.callback)
    (hother : ∀ m, m ≠ n → ∀ r ∈ s.thread t, r.attends = some m → r ∈ routines) :
    ((s.setCallback n none).setThread t (.run callback :: routines)).Inv := by
  have hnode : s.owns (.node n) = [callback] := by
    rw [owns, hkept]
    rfl
  have hne : Owner.thread t ≠ .node n := by simp
  obtain ⟨hpop, hfresh⟩ := h.exclusive.pop hnode
  have howns : ((s.setCallback n none).setThread t (.run callback :: routines)).owns =
      Function.update (Function.update s.owns (.node n) []) (.thread t)
        (callback :: Function.update s.owns (.node n) [] (.thread t)) := by
    rw [owns_setThread, owns_setCallback, Function.update_of_ne hne]
    exact congrArg (Function.update _ _) (congrArg (List.cons callback) hrun)
  refine ⟨h.reachable, h.attended_setThread (s.setCallback n none) rfl rfl fun m hm _ => .inr ?_,
    howns ▸ hpop.cons hfresh, fun o c hc => ?_, fun m c hm => ?_⟩
  · rw [shutdownCallback_setCallback] at hm
    split_ifs at hm with hmn
    · exact absurd rfl hm
    · exact ⟨hm, fun r hr hattends =>
        ⟨r, List.mem_cons_of_mem _ (hother m hmn r hr hattends), hattends⟩⟩
  · rw [howns] at hc
    have hnil : ([] : List ℕ) ⊆ s.owns (.node n) := List.nil_subset _
    rcases mem_or_mem_of_mem_update hc with hc | hc
    · rcases List.mem_cons.1 hc with rfl | hc
      · exact h.lt (.node n) c (hnode ▸ List.mem_singleton_self c)
      · exact h.lt _ c (mem_of_mem_update hnil hc)
    · exact h.lt _ c (mem_of_mem_update hnil hc)
  · rcases h.last m c hm with hkeeps | htaken
    · by_cases hmn : m = n
      · obtain rfl : callback = c := Option.some.inj (hkept.symm.trans (hmn ▸ hkeeps))
        exact .inr (.inl ⟨t, by simp [thread_setThread]⟩)
      · exact .inl ((shutdownCallback_setCallback s n none m).trans ((if_neg hmn).trans hkeeps))
    · have htaken' : (s.setCallback n none).Taken c := htaken
      exact .inr (htaken'.setThread fun hmem =>
        .inl (List.mem_cons_of_mem _ ((mem_run_iff hrun).2 hmem)))

theorem attemptShutdownIfRequested (h : s.Inv)
    (ht : s.thread t = .attemptShutdownIfRequested n :: routines) :
    (s.attemptShutdownIfRequested t n routines).Inv := by
  have hrun : routines.filterMap Routine.callback = (s.thread t).filterMap Routine.callback := by
    rw [ht]
    rfl
  -- The other nodes are still looked at.
  have hother (m : NodeName) (hm : m ≠ n) (r : Routine) (hr : r ∈ s.thread t)
      (hattends : r.attends = some m) : r ∈ routines := by
    rw [ht] at hr
    rcases List.mem_cons.1 hr with rfl | hr
    · exact absurd (Option.some.inj hattends).symm hm
    · exact hr
  rw [Shutdowns.attemptShutdownIfRequested]
  split
  next hnone =>
    refine h.setThread hrun fun m hm _ r hr hattends => ⟨r, hother m ?_ r hr hattends, hattends⟩
    rintro rfl
    exact hm hnone
  next callback hkept =>
    split_ifs with hclean
    · -- The node was looked at, and cannot shut down cleanly.
      refine h.setThread hrun fun m _ hm r hr hattends =>
        ⟨r, hother m ?_ r hr hattends, hattends⟩
      rintro rfl
      rw [hm] at hclean
      cases hclean
    · exact h.take hkept hrun hother

theorem run {callback : ℕ} (h : s.Inv) (ht : s.thread t = .run callback :: routines) :
    ({ s with ran := s.ran ++ [callback] }.setThread t routines).Inv := by
  have hthread : s.owns (.thread t) = callback :: routines.filterMap Routine.callback := by
    rw [owns, ht]
    rfl
  have hne : Owner.ran ≠ .thread t := by simp
  have howns : ({ s with ran := s.ran ++ [callback] }.setThread t routines).owns =
      Function.update
        (Function.update s.owns (.thread t) (routines.filterMap Routine.callback)) .ran
        (s.ran ++ [callback]) := by
    have hran : owns { s with ran := s.ran ++ [callback] } =
        Function.update s.owns .ran (s.ran ++ [callback]) := by
      funext o
      cases o with
      | node | thread | ran => rfl
    rw [owns_setThread, hran, Function.update_comm hne]
  have hold {r : Routine} {m : NodeName} (hr : r ∈ s.thread t) (hattends : r.attends = some m) :
      r ∈ routines := by
    rw [ht] at hr
    rcases List.mem_cons.1 hr with rfl | hr
    · cases hattends
    · exact hr
  refine ⟨h.reachable, h.attended_setThread { s with ran := s.ran ++ [callback] } rfl rfl
    fun m hm _ => .inr ⟨hm, fun r hr hattends => ⟨r, hold hr hattends, hattends⟩⟩,
    howns ▸ h.exclusive.shift hthread hne, fun o c hc => ?_,
    fun m c hm => (h.last m c hm).imp_right fun htaken => ?_⟩
  · rw [howns] at hc
    have hsubset : routines.filterMap Routine.callback ⊆ s.owns (.thread t) :=
      hthread ▸ List.subset_cons_self _ _
    rcases mem_or_mem_of_mem_update hc with hc | hc
    · rcases List.mem_append.1 hc with hc | hc
      · exact h.lt .ran c hc
      · exact h.lt (.thread t) c (hthread ▸ List.mem_singleton.1 hc ▸ List.mem_cons_self)
    · exact h.lt _ c (mem_of_mem_update hsubset hc)
  · have htaken' : Taken { s with ran := s.ran ++ [callback] } c :=
      htaken.imp_right fun hran => List.mem_append_left _ hran
    refine htaken'.setThread fun hmem => ?_
    replace hmem : Routine.run c ∈ s.thread t := hmem
    rw [ht] at hmem
    rcases List.mem_cons.1 hmem with heq | hmem
    · obtain rfl := Routine.run.inj heq
      exact .inr (List.mem_append_right _ (List.mem_singleton_self c))
    · exact .inl hmem

theorem requestShutdown (h : s.Inv) (ht : s.thread t = []) (n : NodeName) :
    (s.requestShutdown t n).Inv := by
  have hfresh (o : Owner) : s.requests ∉ s.owns o := fun hmem => lt_irrefl _ (h.lt o _ hmem)
  have howns : (s.requestShutdown t n).owns = Function.update s.owns (.node n) [s.requests] := by
    have hthread : Function.update s.owns (.node n) [s.requests] (.thread t) = [] := by
      rw [Function.update_of_ne (by simp), owns, ht]
      rfl
    rw [Shutdowns.requestShutdown, owns_setThread]
    refine Eq.trans ?_ (Function.update_eq_self (.thread t) _)
    rw [hthread]
    exact congrArg (Function.update · _ _) (owns_setCallback s n (some s.requests))
  refine ⟨h.reachable, h.attended_setThread { s.setCallback n (some s.requests) with
      requests := s.requests + 1
      last := Function.update s.last n (some s.requests) } rfl rfl fun m hm _ => ?_, ?_,
    fun o c hc => ?_, fun m c hm => ?_⟩
  · -- The thread that asks is going to look at the node itself.
    by_cases hmn : m = n
    · exact .inl ⟨_, List.mem_cons_self, congrArg some hmn.symm⟩
    · refine .inr ⟨?_, fun r hr => ?_⟩
      · rwa [show _ = s.shutdownCallback m from
          (shutdownCallback_setCallback s n (some s.requests) m).trans (if_neg hmn)] at hm
      · rw [ht] at hr
        cases hr
  · rw [howns]
    refine h.exclusive.update (List.nodup_singleton _) fun c hc o hmem => ?_
    exact absurd (List.mem_singleton.1 hc ▸ hmem) (hfresh o)
  · rw [howns] at hc
    rcases mem_or_mem_of_mem_update hc with hc | hc
    · exact (List.mem_singleton.1 hc).trans_lt (Nat.lt_succ_self _)
    · exact (h.lt o c hc).trans (Nat.lt_succ_self _)
  · have hkept : (s.requestShutdown t n).shutdownCallback m =
        if m = n then some s.requests else s.shutdownCallback m :=
      shutdownCallback_setCallback s n (some s.requests) m
    replace hm : Function.update s.last n (some s.requests) m = some c := hm
    rw [Function.update_apply] at hm
    rw [hkept]
    split_ifs at hm ⊢ with hmn
    · exact .inl hm
    · have htaken (h : s.Taken c) : Taken { s.setCallback n (some s.requests) with
          requests := s.requests + 1
          last := Function.update s.last n (some s.requests) } c := h
      refine (h.last m c hm).imp_right fun h => (htaken h).setThread fun hmem => ?_
      replace hmem : Routine.run c ∈ s.thread t := hmem
      rw [ht] at hmem
      cases hmem

theorem step (h : s.Inv) {i : Input α} (hG : s.Attends i) (hs : s.step i = some s') : s'.Inv := by
  cases i with
  | call t action =>
    obtain ⟨hlossy, hspares⟩ := hG action rfl
    rw [Shutdowns.step] at hs
    split_ifs at hs with ht
    rw [not_not] at ht
    obtain ⟨system, hsystem, rfl⟩ := Option.map_eq_some_iff.1 hs
    -- The thread was idle, so that it owned no callback, and looked at no node.
    have hnone (r : Routine) : r ∉ s.thread t := by simp [ht]
    refine h.act hlossy hspares hsystem rfl rfl ?_ rfl rfl (fun c htaken => ?_) fun n hn => ?_
    · rw [owns_setThread, filterMap_rest]
      have hnil : [] = s.owns (.thread t) := by
        rw [owns, ht]
        rfl
      rw [hnil]
      exact Function.update_eq_self ..
    · have htaken' : Taken { s with system := system } c := htaken
      exact htaken'.setThread fun hmem => absurd hmem (hnone _)
    · rcases hn with hn | hn
      · have hn' : Attended { s with system := system } n := hn
        exact hn'.setThread fun r hr => absurd hr (hnone r)
      · exact ⟨t, _, by rw [thread_setThread, if_pos rfl]; exact mem_rest hn, rfl⟩
  | acceptMessage t i =>
    obtain ⟨hlossy, hspares⟩ := hG _ rfl
    rw [Shutdowns.step] at hs
    split at hs
    next n _ m _ ht hi =>
      split_ifs at hs with hmn
      obtain ⟨system, hsystem, rfl⟩ := Option.map_eq_some_iff.1 hs
      refine h.act hlossy hspares hsystem rfl rfl ?_ rfl rfl (fun c htaken => htaken)
        fun n' hn => ?_
      · funext o
        cases o with
        | node | thread | ran => rfl
      · rcases hn with hn | hn
        · exact hn
        · rw [System.attendedNode, hi] at hn
          obtain rfl := Option.some.inj hn
          exact ⟨t, .acceptIncomingMessages n, ht ▸ List.mem_cons_self,
            congrArg some (not_not.1 hmn).symm⟩
    next => cases hs
  | requestShutdown t n =>
    rw [Shutdowns.step] at hs
    split_ifs at hs with ht
    obtain rfl := Option.some.inj hs
    exact h.requestShutdown (not_not.1 ht) n
  | next t =>
    rw [Shutdowns.step] at hs
    split at hs
    next => cases hs
    next n routines ht =>
      obtain rfl := Option.some.inj hs
      refine h.setThread (by rw [ht]; rfl) fun m _ _ r hr hattends => ?_
      rw [ht] at hr
      rcases List.mem_cons.1 hr with rfl | hr
      · exact ⟨_, List.mem_cons_self, hattends⟩
      · exact ⟨r, List.mem_cons_of_mem _ hr, hattends⟩
    next n routines ht =>
      obtain rfl := Option.some.inj hs
      exact h.attemptShutdownIfRequested ht
    next callback routines ht =>
      obtain rfl := Option.some.inj hs
      exact h.run ht

end Inv

theorem inv_of_reachable (hs : (machine α).Reachable Attends s) : s.Inv :=
  hs.invariant (P := Inv) .init fun h hG hs => h.step hG hs

/-! ## Results -/

/-- A step of a thread is a step of the nodes, or leaves them alone. -/
theorem system_step {i : Input α} (hs : s.step i = some s') :
    (∃ act ∈ action i, s.system.step act = some s'.system) ∨ s'.system = s.system := by
  cases i with
  | call t act =>
    rw [Shutdowns.step] at hs
    split_ifs at hs
    obtain ⟨system, hsystem, rfl⟩ := Option.map_eq_some_iff.1 hs
    exact .inl ⟨act, rfl, hsystem⟩
  | acceptMessage t i =>
    rw [Shutdowns.step] at hs
    split at hs
    next =>
      split_ifs at hs
      obtain ⟨system, hsystem, rfl⟩ := Option.map_eq_some_iff.1 hs
      exact .inl ⟨_, rfl, hsystem⟩
    next => cases hs
  | requestShutdown t n =>
    rw [Shutdowns.step] at hs
    split_ifs at hs
    obtain rfl := Option.some.inj hs
    exact .inr rfl
  | next t =>
    right
    rw [Shutdowns.step] at hs
    split at hs
    next => cases hs
    next =>
      obtain rfl := Option.some.inj hs
      rfl
    next =>
      obtain rfl := Option.some.inj hs
      rw [Shutdowns.attemptShutdownIfRequested]
      split
      · rfl
      · split_ifs
        · rfl
        · rfl
    next =>
      obtain rfl := Option.some.inj hs
      rfl

theorem length_sent_step {i : Input α} (hs : s.step i = some s') (e : Ports.End) :
    (s'.system.sent e).length ≤ (s.system.sent e).length + 1 := by
  rcases system_step hs with ⟨act, -, hstep⟩ | hsame
  · exact System.length_sent_step hstep e
  · rw [hsame]
    exact Nat.le_succ _

/-- The nodes run on their own. -/
theorem reachable_system (hs : (machine α).Reachable Collapses s) :
    System.Reachable (fun s act => s.Honest act ∧ s.Acknowledges act ∧ s.Honours act) s.system :=
  hs.invariant (P := fun s => System.Reachable _ s.system) .init fun h hG hs => by
    rcases system_step hs with ⟨act, hact, hstep⟩ | hsame
    · exact h.step (hG act hact) hstep
    · exact hsame ▸ h

theorem attends_of_collapses {i : Input α} (h : s.Collapses i) : s.Attends i := by
  intro act hact
  obtain ⟨hhonest, -, -⟩ := h act hact
  refine ⟨System.lossy_of_honest hhonest, ?_⟩
  cases act with
  | lostConnectionToNode => exact hhonest.elim
  | createPortPair | connect | sendMessage | getMessageIf | closePort | acceptMessage => trivial

/-! ### Runs of one thread -/

theorem thread_step {i : Input α} (hs : s.step i = some s') {t' : ℕ} (ht : t' ≠ i.thread) :
    s'.thread t' = s.thread t' := by
  have hset (s : Shutdowns α) (routines : List Routine) :
      (s.setThread i.thread routines).thread t' = s.thread t' := by
    rw [thread_setThread, if_neg ht]
  cases i with
  | call t action =>
    rw [Shutdowns.step] at hs
    split_ifs at hs
    obtain ⟨system, -, rfl⟩ := Option.map_eq_some_iff.1 hs
    exact hset _ _
  | acceptMessage t i =>
    rw [Shutdowns.step] at hs
    split at hs
    next =>
      split_ifs at hs
      obtain ⟨system, -, rfl⟩ := Option.map_eq_some_iff.1 hs
      rfl
    next => cases hs
  | requestShutdown t n =>
    rw [Shutdowns.step] at hs
    split_ifs at hs
    obtain rfl := Option.some.inj hs
    exact hset _ _
  | next t =>
    rw [Shutdowns.step] at hs
    split at hs
    next => cases hs
    next =>
      obtain rfl := Option.some.inj hs
      exact hset _ _
    next =>
      obtain rfl := Option.some.inj hs
      rw [Shutdowns.attemptShutdownIfRequested]
      split
      · exact hset _ _
      · split_ifs
        · exact hset _ _
        · exact hset _ _
    next =>
      obtain rfl := Option.some.inj hs
      exact hset _ _

/-- If only one thread takes steps, the others have nothing to do. -/
theorem thread_eq_nil {G : Shutdowns α → Input α → Prop} {t : ℕ}
    (hG : ∀ s i, G s i → i.thread = t) (hs : (machine α).Reachable G s) {t' : ℕ} (ht : t' ≠ t) :
    s.thread t' = [] :=
  hs.invariant (P := fun s => s.thread t' = []) rfl fun {s i _} h hi hs =>
    (thread_step hs (hG s i hi ▸ ht)).trans h

/-- As `Collapses`, and announcements and closures come to ports that are there. One thread makes
    all the calls. -/
def CollapsesAlone (t : ℕ) (s : Shutdowns α) (i : Input α) : Prop := i.thread = t ∧
  ∀ act ∈ action i, s.system.Honest act ∧ s.system.Acknowledges act ∧ s.system.Finds act

instance (t : ℕ) (s : Shutdowns α) (i : Input α) : Decidable (CollapsesAlone t s i) :=
  inferInstanceAs (Decidable (_ ∧ ∀ act ∈ action i, _))

theorem reachable_of_alone {t : ℕ} (hs : (machine α).Reachable (CollapsesAlone t) s) :
    (machine α).Reachable Collapses s ∧ ∀ t', t' ≠ t → s.thread t' = [] := by
  refine ⟨hs.invariant (P := (machine α).Reachable Collapses) .init fun h hG hs => h.step ?_ hs,
    fun t' => thread_eq_nil (fun _ _ hG => hG.1) hs⟩
  intro act hact
  obtain ⟨hhonest, hack, hfinds⟩ := hG.2 act hact
  exact ⟨hhonest, hack, System.honours_of_finds hfinds⟩

/-! ### Results -/

/-- As long as a callback is kept for a node and no thread is going to look at it, the node cannot
    shut down cleanly. Callbacks are run once at most, and only those that were given. -/
theorem never_missed (hs : (machine α).Reachable Attends s) :
    (∀ n, s.shutdownCallback n ≠ none → ¬s.Attended n →
      (s.system.node n).canShutdownCleanly true = false) ∧
    s.ran.Nodup ∧ ∀ callback ∈ s.ran, callback < s.requests := by
  have h := inv_of_reachable hs
  exact ⟨h.attended, h.exclusive.nodup .ran, h.lt .ran⟩

/-- A port is sent to another node, and the shutdown of its node is requested while it buffers. -/
theorem never_missed_requested : ∃ s, ((machine ℕ).Reachable Attends s ∧
    s.shutdownCallback 1 ≠ none ∧ ¬s.Attended 1) ∧
    (s.system.node 1).canShutdownCleanly true = false := by
  obtain ⟨s, hs, hkept, hidle⟩ := Machine.exists_reachable (M := machine ℕ) (G := CollapsesAlone 0)
    (P := fun s => s.shutdownCallback 1 ≠ none ∧ s.thread 0 = [])
    [.call 0 (.connect 1 2), .call 0 (.createPortPair 1), .call 0 (.sendMessage 1 1 0 [4]), .next 0,
      .next 0, .requestShutdown 0 1, .next 0] (by decide +kernel)
  obtain ⟨hs, hother⟩ := reachable_of_alone hs
  have hs' : (machine ℕ).Reachable Attends s :=
    hs.invariant .init fun h hG hs => h.step (attends_of_collapses hG) hs
  have hnot : ¬s.Attended 1 := by
    rintro ⟨t, r, hr, -⟩
    by_cases ht : t = 0
    · rw [ht, hidle] at hr
      cases hr
    · rw [hother t ht] at hr
      cases hr
  exact ⟨s, ⟨hs', hkept, hnot⟩, (never_missed hs').1 1 hkept hnot⟩

/-- The connection to the other node is lost before the port is accepted there. -/
theorem missed : ∃ s, (machine ℕ).Reachable (fun s i => ∀ act ∈ action i, s.system.Lossy act) s ∧
    s.shutdownCallback 1 ≠ none ∧ s.thread 0 = [] ∧
    (s.system.node 1).canShutdownCleanly true = true :=
  Machine.exists_reachable (M := machine ℕ)
    (P := fun s : Shutdowns ℕ => s.shutdownCallback 1 ≠ none ∧ s.thread 0 = [] ∧
      (s.system.node 1).canShutdownCleanly true = true)
    [.call 0 (.connect 1 2), .call 0 (.createPortPair 1), .call 0 (.sendMessage 1 1 0 [4]), .next 0,
      .next 0, .requestShutdown 0 1, .next 0, .call 0 (.lostConnectionToNode 1 2)]
    (by decide +kernel)

/-- When nothing is in flight and no thread is at work, the last callback that was given to a node
    has been run, if not too many messages were sent. -/
theorem completes (hs : (machine α).Reachable Collapses s)
    (hsmall : ∀ e, (s.system.sent e).length < 2 ^ 64 - 1) (hflight : s.system.inFlight = [])
    (hidle : ∀ t, s.thread t = []) {n : NodeName} {callback : ℕ}
    (hlast : s.last n = some callback) : callback ∈ s.ran := by
  have h := hs.invariant (P := Inv) .init fun h hG hs => h.step (attends_of_collapses hG) hs
  rcases h.last n callback hlast with hkept | ⟨t, hrun⟩ | hran
  · -- The node could shut down, and nobody looks at it.
    have hclean := (reachable_system hs).canShutdownCleanly_of_honours hsmall hflight n
    have hnot : ¬s.Attended n := by
      rintro ⟨t, r, hr, -⟩
      rw [hidle] at hr
      cases hr
    exact absurd hclean (Bool.eq_false_iff.1 (h.attended n (by simp [hkept]) hnot))
  · rw [hidle] at hrun
    cases hrun
  · exact hran

/-- As before, and the proxy that the port leaves behind goes. -/
theorem completes_requested : ∃ s, ((machine ℕ).Reachable Collapses s ∧
    (∀ e, (s.system.sent e).length < 2 ^ 64 - 1) ∧ s.system.inFlight = [] ∧
    (∀ t, s.thread t = []) ∧ s.last 1 = some 0) ∧ 0 ∈ s.ran := by
  obtain ⟨s, hs, hlen, hflight, hidle, hlast⟩ := Machine.exists_reachable_le (M := machine ℕ)
    (G := CollapsesAlone 0) (f := fun e s => (s.system.sent e).length)
    (fun _ _ hs => length_sent_step hs _)
    (P := fun s => s.system.inFlight = [] ∧ s.thread 0 = [] ∧ s.last 1 = some 0)
    [.call 0 (.connect 1 2), .call 0 (.createPortPair 1), .call 0 (.sendMessage 1 1 0 [4]), .next 0,
      .next 0, .requestShutdown 0 1, .next 0, .call 0 (.acceptMessage 0), .next 0, .next 0, .next 0,
      .call 0 (.acceptMessage 0), .next 0, .next 0, .next 0, .call 0 (.acceptMessage 0), .next 0,
      .next 0, .next 0, .call 0 (.acceptMessage 0), .next 0, .next 0, .next 0,
      .call 0 (.acceptMessage 0), .next 0, .next 0, .next 0, .next 0] (by decide +kernel)
  obtain ⟨hs, hother⟩ := reachable_of_alone hs
  have hsmall : ∀ e, (s.system.sent e).length < 2 ^ 64 - 1 := fun e =>
    (hlen e).trans_lt (show 0 + 28 < 2 ^ 64 - 1 by decide)
  have hidle : ∀ t, s.thread t = [] := by
    intro t
    by_cases ht : t = 0
    · exact ht ▸ hidle
    · exact hother t ht
  exact ⟨s, ⟨hs, hsmall, hflight, hidle, hlast⟩, completes hs hsmall hflight hidle hlast⟩

end Shutdowns

end MojoEdk.Controller
