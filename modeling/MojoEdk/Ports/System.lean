import Mathlib.Logic.Function.Basic
import MojoEdk.Ports.Node

/-!
# Systems of nodes

Nodes joined by a transport that keeps every event until it is delivered, in any
order, and the runs of such a system: the embedder calls the nodes, and the
events in flight are given to the nodes they are forwarded to.

Along a run, a history is recorded that no operation reads: which end of which
pipe a port is (a port sent under a new name is still the same end), what was
sent and returned at each end, which ends are closed, which ports were left
locked, and which ports the embedder holds, i.e., those it created or was handed
with a message, until it sends or closes them.

An action is `Honest` if the embedder makes it on ports it holds; losing the
connection to a node is not. `Reachable G` are the states of the runs all of
whose actions satisfy the guard `G`.
-/

namespace MojoEdk.Ports

variable {α : Type*}

/-- An end of a pipe. -/
structure End where
  pipe : ℕ
  side : Bool
  deriving DecidableEq

namespace End

/-- The other end of the pipe. -/
def opp (e : End) : End := { e with side := !e.side }

@[simp] theorem opp_opp (e : End) : e.opp.opp = e := by simp [opp]

@[simp] theorem opp_pipe (e : End) : e.opp.pipe = e.pipe := rfl

@[simp] theorem opp_ne (e : End) : e.opp ≠ e := by
  intro h
  have := congrArg End.side h
  simp [opp] at this

@[simp] theorem ne_opp (e : End) : e ≠ e.opp := (opp_ne e).symm

end End

/-- The history of a run. -/
structure History (α : Type*) where
  /-- The number of pipes created. -/
  pipes : ℕ := 0
  /-- The end a port is. -/
  endOf : PortName → End := fun _ => ⟨0, false⟩
  /-- The ends closed. -/
  closed : End → Bool := fun _ => false
  /-- The messages sent from an end, numbered, in order. -/
  sent : End → List (UInt64 × α) := fun _ => []
  /-- The messages returned to the embedder at an end, in order. -/
  returned : End → List (UInt64 × α) := fun _ => []
  /-- The ports the embedder holds. -/
  held : List (NodeName × PortName) := []
  /-- The notifications of the embedder. -/
  statusChanged : List (NodeName × PortName) := []
  /-- The ports left locked. -/
  locked : List (NodeName × PortName) := []

/-- The nodes, the events in flight with the nodes they are forwarded to, and the
    failed assertions. -/
structure System (α : Type*) extends History α where
  node : NodeName → Node α := fun n => { name := n }
  inFlight : List (NodeName × Event α) := []
  nextPortName : PortName := 1
  oops : List Oops := []

/-- What happens in a run. -/
inductive Action (α : Type*)
  /-- `CreatePortPair` on a node. -/
  | createPortPair (n : NodeName)
  /-- A pipe between two nodes, by `CreateUninitializedPort` and `InitializePort`. -/
  | connect (n₀ n₁ : NodeName)
  /-- `SendMessage` of a fresh message with the ports attached. -/
  | sendMessage (n : NodeName) (p : PortName) (payload : α) (ports : List PortName)
  /-- `GetMessageIf`. -/
  | getMessageIf (n : NodeName) (p : PortName) (selector : Option (Message α → Bool))
  /-- `ClosePort`. -/
  | closePort (n : NodeName) (p : PortName)
  /-- `AcceptMessage` of the `i`th event in flight, on the node it is forwarded to. -/
  | acceptMessage (i : ℕ)
  /-- `LostConnectionToNode` on a node. -/
  | lostConnectionToNode (n lost : NodeName)

namespace History

/-- The ends of the ports after renamings. -/
def renamedEnds (renamed : List (PortName × PortName)) (endOf : PortName → End) :
    PortName → End :=
  renamed.foldl (fun f x => Function.update f x.2 (f x.1)) endOf

/-- The ends closed, after ports of given ends are. -/
def closedEnds (closedPorts : List PortName) (endOf : PortName → End) (closed : End → Bool) :
    End → Bool :=
  closedPorts.foldl (fun f p => Function.update f (endOf p) true) closed

end History

namespace System

/-- The node `n` as a call on it starts. -/
def start (s : System α) (n : NodeName) : Node α :=
  { s.node n with delegate := { nextPortName := s.nextPortName } }

/-- The ports of a node that were left locked. -/
def lockedAt (s : System α) (n : NodeName) : PortName → Bool := fun p => s.locked.contains (n, p)

/-- The system after a call left the node `ν`. -/
def commit (s : System α) (ν : Node α) : System α :=
  let endOf := History.renamedEnds ν.delegate.renamed s.endOf
  { s with
    node := Function.update s.node ν.name { ν with delegate := {} }
    inFlight := s.inFlight ++ ν.delegate.forwarded
    nextPortName := ν.delegate.nextPortName
    oops := s.oops ++ ν.delegate.oops
    endOf := endOf
    closed := History.closedEnds ν.delegate.closed endOf s.closed
    held := s.held.filter fun x => x.2 ∉ ν.delegate.closed
    statusChanged := s.statusChanged ++ ν.delegate.statusChanged.map (ν.name, ·)
    locked := s.locked ++ ν.delegate.locked.map (ν.name, ·) }

/-- History: a pipe was created, and the embedder holds its ends. -/
def addPipe (s : System α) (n₀ : NodeName) (p₀ : PortName) (n₁ : NodeName) (p₁ : PortName) :
    System α :=
  { s with
    pipes := s.pipes + 1
    endOf := Function.update (Function.update s.endOf p₀ ⟨s.pipes, false⟩) p₁ ⟨s.pipes, true⟩
    held := s.held ++ [(n₀, p₀), (n₁, p₁)] }

/-- History: a message was sent, and the ports attached with it. -/
def noteSent (s : System α) (n : NodeName) (e : End) (m : UInt64 × α) (ports : List PortName) :
    System α :=
  { s with
    sent := Function.update s.sent e (s.sent e ++ [m])
    held := s.held.filter fun x => ¬(x.1 = n ∧ x.2 ∈ ports) }

/-- History: a message was returned, and the ports attached with it. -/
def noteReturned (s : System α) (n : NodeName) (e : End) (m : Message α) : System α :=
  { s with
    returned := Function.update s.returned e (s.returned e ++ [(m.sequenceNum, m.payload)])
    held := s.held ++ m.ports.map (n, ·) }

/-- The number the next message sent from a port gets. -/
def nextNumber (s : System α) (n : NodeName) (p : PortName) : UInt64 :=
  (((s.node n).getPort p).map (·.nextSequenceNumToSend)).getD 0

/-- `SendMessage` of a fresh message. -/
def sendMessage (s : System α) (n : NodeName) (p : PortName) (payload : α)
    (ports : List PortName) : System α :=
  match (s.start n).sendMessage p (Message.newUserMessage payload ports) with
  | (ν, _, .ok) =>
    (s.commit ν).noteSent n (s.endOf p) (s.nextNumber n p, payload) ports
  | (ν, _, _) => s.commit ν

/-- `GetMessageIf`. -/
def getMessageIf (s : System α) (n : NodeName) (p : PortName)
    (selector : Option (Message α → Bool)) : System α :=
  match (s.start n).getMessageIf p selector with
  | (ν, some m, _) => (s.commit ν).noteReturned n (s.endOf p) m
  | (ν, none, _) => s.commit ν

/-- `CreatePortPair`. -/
def createPortPair (s : System α) (n : NodeName) : System α :=
  let (ν, p₀, p₁, _) := (s.start n).createPortPair
  (s.commit ν).addPipe n p₀ n p₁

/-- A pipe between two nodes. -/
def connect (s : System α) (n₀ n₁ : NodeName) : System α :=
  let (ν₀, p₀, _) := (s.start n₀).createUninitializedPort
  let s := s.commit ν₀
  let (ν₁, p₁, _) := (s.start n₁).createUninitializedPort
  let s := s.commit ν₁
  let s := s.commit ((s.start n₀).initializePort p₀ n₁ p₁).1
  let s := s.commit ((s.start n₁).initializePort p₁ n₀ p₀).1
  s.addPipe n₀ p₀ n₁ p₁

/-- The delivery of an event to a node. -/
def deliver (s : System α) (n : NodeName) (event : Event α) : System α :=
  s.commit ((s.start n).acceptMessage event).1

/-- The system after an action: none after a failed assertion, which is a crash,
    nor without the event to deliver. -/
def step (s : System α) (a : Action α) : Option (System α) :=
  if s.oops ≠ [] then none
  else
    match a with
    | .createPortPair n => some (s.createPortPair n)
    | .connect n₀ n₁ => some (s.connect n₀ n₁)
    | .sendMessage n p payload ports => some (s.sendMessage n p payload ports)
    | .getMessageIf n p selector => some (s.getMessageIf n p selector)
    | .closePort n p => some (s.commit ((s.start n).closePort p).1)
    | .acceptMessage i =>
      match s.inFlight[i]? with
      | none => none
      | some (n, event) => some ({ s with inFlight := s.inFlight.eraseIdx i }.deliver n event)
    | .lostConnectionToNode n lost => some (s.commit ((s.start n).lostConnectionToNode lost))

/-- The steps from a state to another one call `PortStatusChanged` for a port. -/
def Notifies (s s' : System α) (n : NodeName) (p : PortName) : Prop :=
  ∃ calls, s'.statusChanged = s.statusChanged ++ calls ∧ (n, p) ∈ calls

/-- A notification is not taken back. -/
theorem Notifies.append {s s' s'' : System α} {n : NodeName} {p : PortName}
    (h : s.Notifies s' n p) {calls : List (NodeName × PortName)}
    (h' : s''.statusChanged = s'.statusChanged ++ calls) : s.Notifies s'' n p := by
  obtain ⟨calls', hcalls', hp⟩ := h
  exact ⟨calls' ++ calls, by rw [h', hcalls', List.append_assoc], List.mem_append_left _ hp⟩

/-- The embedder makes an action on ports it holds, and loses no connection. -/
def Honest (s : System α) : Action α → Prop
  | .createPortPair _ | .connect _ _ | .acceptMessage _ => True
  | .sendMessage n p _ ports =>
    (n, p) ∈ s.held ∧ (∀ q ∈ ports, (n, q) ∈ s.held) ∧ ports.Nodup
  | .getMessageIf n p _ | .closePort n p => (n, p) ∈ s.held
  | .lostConnectionToNode _ _ => False

/-- As `Honest`, but connections may get lost. -/
def Lossy (s : System α) : Action α → Prop
  | .lostConnectionToNode _ _ => True
  | a => s.Honest a

/-- An embedder that is honest is so where connections are lost. -/
theorem lossy_of_honest {s : System α} {a : Action α} (h : s.Honest a) : s.Lossy a := by
  cases a with
  | lostConnectionToNode => exact h.elim
  | _ => exact h

/-- The states reached by the runs all of whose actions satisfy the guard. -/
inductive Reachable (G : System α → Action α → Prop) : System α → Prop
  | init : Reachable G {}
  | step {s s' : System α} {a : Action α} :
      Reachable G s → G s a → s.step a = some s' → Reachable G s'

/-- A run under a guard is one under a weaker guard. -/
theorem Reachable.mono {G G' : System α → Action α → Prop} (hG : ∀ s a, G s a → G' s a)
    {s : System α} (h : Reachable G s) : Reachable G' s := by
  induction h with
  | init => exact .init
  | step _ ha hs ih => exact ih.step (hG _ _ ha) hs

instance (s : System α) (a : Action α) : Decidable (s.Honest a) :=
  match a with
  | .createPortPair _ | .connect _ _ | .acceptMessage _ => inferInstanceAs (Decidable True)
  | .sendMessage n p _ ports =>
    inferInstanceAs (Decidable ((n, p) ∈ s.held ∧ (∀ q ∈ ports, (n, q) ∈ s.held) ∧ ports.Nodup))
  | .getMessageIf n p _ | .closePort n p => inferInstanceAs (Decidable ((n, p) ∈ s.held))
  | .lostConnectionToNode _ _ => inferInstanceAs (Decidable False)

instance (s : System α) (a : Action α) : Decidable (s.Lossy a) :=
  match a with
  | .lostConnectionToNode _ _ => inferInstanceAs (Decidable True)
  | .createPortPair n => inferInstanceAs (Decidable (s.Honest (.createPortPair n)))
  | .connect n₀ n₁ => inferInstanceAs (Decidable (s.Honest (.connect n₀ n₁)))
  | .sendMessage n p payload ports =>
    inferInstanceAs (Decidable (s.Honest (.sendMessage n p payload ports)))
  | .getMessageIf n p selector =>
    inferInstanceAs (Decidable (s.Honest (.getMessageIf n p selector)))
  | .closePort n p => inferInstanceAs (Decidable (s.Honest (.closePort n p)))
  | .acceptMessage i => inferInstanceAs (Decidable (s.Honest (.acceptMessage i)))

/-- The state after some actions, if all of them satisfy the guard. -/
def exec (G : System α → Action α → Prop) [∀ s a, Decidable (G s a)] (s : System α) :
    List (Action α) → Option (System α)
  | [] => some s
  | a :: as => if G s a then (s.step a).bind (exec G · as) else none

/-- What a run reaches from a reachable state is reachable. -/
theorem Reachable.exec {G : System α → Action α → Prop} [∀ s a, Decidable (G s a)]
    {s s' : System α} (hs : Reachable G s) {as : List (Action α)} (h : s.exec G as = some s') :
    Reachable G s' := by
  induction as generalizing s with
  | nil => exact Option.some.inj h ▸ hs
  | cons a as ih =>
    rw [System.exec] at h
    split_ifs at h with hG
    obtain ⟨s₁, hs₁, h⟩ := Option.bind_eq_some_iff.1 h
    exact ih (.step hs hG hs₁) h

/-- Only `SendMessage` sends, from the end of its port, and one message at most. -/
theorem sent_step {s s' : System α} {a : Action α} (h : s.step a = some s') :
    s'.sent = s.sent ∨ ∃ n p payload ports m, a = .sendMessage n p payload ports ∧
      s'.sent = Function.update s.sent (s.endOf p) (s.sent (s.endOf p) ++ [m]) := by
  rw [step.eq_def] at h
  split_ifs at h
  cases a with
  | sendMessage n p payload ports =>
    obtain rfl := Option.some.inj h
    rw [System.sendMessage]
    split
    · exact .inr ⟨n, p, payload, ports, _, rfl, rfl⟩
    · exact .inl rfl
  | getMessageIf n p selector =>
    obtain rfl := Option.some.inj h
    rw [System.getMessageIf]
    split <;> exact .inl rfl
  | acceptMessage i =>
    simp only at h
    split at h
    · cases h
    · obtain rfl := Option.some.inj h
      exact .inl rfl
  | createPortPair | connect | closePort | lostConnectionToNode =>
    obtain rfl := Option.some.inj h
    exact .inl rfl

/-- A step sends one message at most. -/
theorem length_sent_step {s s' : System α} {a : Action α} (h : s.step a = some s') (e : End) :
    (s'.sent e).length ≤ (s.sent e).length + 1 := by
  rcases sent_step h with hsent | ⟨n, p, payload, ports, m, -, hsent⟩
  · rw [hsent]
    exact Nat.le_succ _
  · rw [hsent, Function.update_apply]
    split_ifs with he
    · rw [he, List.length_append, List.length_singleton]
    · exact Nat.le_succ _

/-- A run sends no more messages than it has steps. -/
theorem length_sent_exec {G : System α → Action α → Prop} [∀ s a, Decidable (G s a)]
    {s s' : System α} {as : List (Action α)} (h : s.exec G as = some s') (e : End) :
    (s'.sent e).length ≤ (s.sent e).length + as.length := by
  induction as generalizing s with
  | nil => exact Option.some.inj h ▸ le_rfl
  | cons a as ih =>
    rw [System.exec] at h
    split_ifs at h
    obtain ⟨s₁, hs₁, h⟩ := Option.bind_eq_some_iff.1 h
    calc (s'.sent e).length
      _ ≤ (s₁.sent e).length + as.length := ih h
      _ ≤ (s.sent e).length + 1 + as.length := Nat.add_le_add_right (length_sent_step hs₁ e) _
      _ = (s.sent e).length + (a :: as).length := by rw [List.length_cons]; omega

/-- A state that some actions reach, with a property that can be checked. -/
theorem exists_reachable {G : System α → Action α → Prop} [∀ s a, Decidable (G s a)]
    {P : System α → Prop} [DecidablePred P] (as : List (Action α))
    (h : ((({} : System α).exec G as).any fun s => decide (P s)) = true) :
    ∃ s, Reachable G s ∧ (∀ e, (s.sent e).length ≤ as.length) ∧ P s := by
  cases hs : ({} : System α).exec G as with
  | none =>
    rw [hs] at h
    cases h
  | some s =>
    rw [hs] at h
    refine ⟨s, Reachable.init.exec hs, fun e => ?_, of_decide_eq_true h⟩
    simpa using length_sent_exec hs e

end System

end MojoEdk.Ports
