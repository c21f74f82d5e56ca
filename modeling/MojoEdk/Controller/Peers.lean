import MojoEdk.Controller.NodeController
import MojoEdk.Library.Machine

/-!
# Messages for peers

A node controller while messages are given to it by any threads, in any order of the
critical sections of its lock `peers_lock_`. `SendPeerMessage` looks the peer up in one
section and queues the message in another one, if the peer was not found. The first
message that is queued asks the parent for an introduction, and the parent is looked up
in two more sections. The I/O thread takes one task at a time.

Each message is given to the controller once, and its call goes on until the message is
written or queued (`Process.Calls`, `Process.Continues`).
-/

namespace MojoEdk.Controller

open Ports (NodeName kInvalidNodeName)

variable {C M : Type}

/-- A `SendPeerMessage` in progress, by what it does next. -/
inductive Call (C : Type)
  | getPeerChannel (name : NodeName)
  | portsMessage (name : NodeName) (channel : C)
  /-- The section in which the message is queued. -/
  | enqueue (name : NodeName)
  /-- The section of `GetParentChannel` in which `parent_name_` is read. -/
  | getParentName (name : NodeName)
  /-- The section of `GetParentChannel` in which the channel is looked up. -/
  | getParentChannel (name parentName : NodeName)
  | requestIntroduction (name : NodeName) (channel : C)

/-- The node that the message is for. -/
def Call.name : Call C → NodeName
  | .getPeerChannel name | .portsMessage name _ | .enqueue name | .getParentName name
  | .getParentChannel name _ | .requestIntroduction name _ => name

/-- The call has not given the message away yet. -/
def Call.HasMessage : Call C → Prop
  | .getPeerChannel _ | .portsMessage _ _ | .enqueue _ => True
  | _ => False

/-- The call is going to ask the parent of that name for an introduction. -/
def Call.Asks (parentName name : NodeName) : Call C → Prop
  | .getParentName n => n = name
  | .getParentChannel n p => n = name ∧ p = parentName
  | .requestIntroduction n _ => n = name
  | _ => False

/-- What happens at a node controller. -/
inductive Event (C M : Type)
  /-- A message is given to `ForwardMessage`. -/
  | forwardMessage (name : NodeName) (m : M)
  /-- The parent introduced a node, or failed to. -/
  | introduced (name : NodeName)
  | output (o : Output C M)

/-- The message that is given to the controller. -/
def Event.forwarded : Event C M → Option (NodeName × M)
  | .forwardMessage name m => some (name, m)
  | _ => none

/-- A node controller, with its calls in progress. A message is an object that is given
    away by the call, so the calls are told apart by their messages. -/
structure Process (C M : Type) where
  controller : NodeController C M
  /-- What the I/O thread has left to do. -/
  rest : Rest C := .done
  calls : M → Option (Call C) := fun _ => none
  /-- What happened, the latest first. -/
  history : List (Event C M) := []

namespace Process

/-- The critical sections, and what happens outside of them. -/
inductive Input (C M : Type)
  | forwardMessage (name : NodeName) (m : M)
  /-- What the `SendPeerMessage` of a message does next. -/
  | sendPeerMessage (m : M)
  /-- A task of the I/O thread. -/
  | run (task : NodeController.Task C)
  /-- What the task of the I/O thread does next. -/
  | resume

/-- The messages that were given to `ForwardMessage`, the latest first. -/
def forwarded (s : Process C M) : List (NodeName × M) :=
  s.history.filterMap Event.forwarded

section Machine

variable [DecidableEq M]

/-- `ForwardMessage`. -/
def forwardMessage (s : Process C M) (name : NodeName) (m : M) : Process C M :=
  if name = s.controller.name then { s with
    controller := { s.controller with
      incomingMessages := s.controller.incomingMessages ++ [m] }
    history := .forwardMessage name m :: s.history }
  else { s with
    calls := Function.update s.calls m (some (.getPeerChannel name))
    history := .forwardMessage name m :: s.history }

/-- `SendPeerMessage`, one step of it. -/
def sendPeerMessage (s : Process C M) (m : M) : Call C → Process C M
  | .getPeerChannel name =>
    match s.controller.getPeerChannel name with
    | some peer => { s with calls := Function.update s.calls m (some (.portsMessage name peer)) }
    | none => { s with calls := Function.update s.calls m (some (.enqueue name)) }
  | .portsMessage name channel => { s with
    calls := Function.update s.calls m none
    history := .output (.portsMessage channel name m) :: s.history }
  -- The peer may have been added since the lookup: the queue is not looked at again then.
  | .enqueue name =>
    let queue := s.controller.pendingPeerMessages name
    { s with
      controller := { s.controller with
        pendingPeerMessages :=
          Function.update s.controller.pendingPeerMessages name (queue ++ [m]) }
      calls := Function.update s.calls m
        -- Only the first message in a queue asks for an introduction.
        (if queue.isEmpty then some (.getParentName name) else none) }
  | .getParentName name => { s with
    calls := Function.update s.calls m (some (.getParentChannel name s.controller.parentName)) }
  | .getParentChannel name parentName =>
    match s.controller.getPeerChannel parentName with
    | some parent =>
      { s with calls := Function.update s.calls m (some (.requestIntroduction name parent)) }
    -- Without a parent, the message waits in the queue for whoever adds the peer.
    | none => { s with calls := Function.update s.calls m none }
  | .requestIntroduction name channel => { s with
    calls := Function.update s.calls m none
    history := .output (.requestIntroduction channel name) :: s.history }

/-- What the I/O thread did. -/
def perform (s : Process C M) (controller : NodeController C M) (outputs : List (Output C M))
    (rest : Rest C) : Process C M :=
  { s with
    controller := controller
    rest := rest
    history := (outputs.map .output).reverse ++ s.history }

/-- An `OnIntroduce` from the parent is noted. -/
def noteIntroduced (s : Process C M) (task : NodeController.Task C) : Process C M :=
  match task.introduces s.controller with
  | some name => { s with history := .introduced name :: s.history }
  | none => s

/-- A message is given away once. The I/O thread takes a task when it is done with
    the one before. -/
def step (s : Process C M) : Input C M → Option (Process C M)
  | .forwardMessage name m =>
    if m ∈ s.forwarded.map Prod.snd then none else some (s.forwardMessage name m)
  | .sendPeerMessage m => (s.calls m).map (s.sendPeerMessage m)
  | .run task =>
    match s.rest with
    | .done =>
      let (controller, outputs, rest) := s.controller.run task
      some ((s.noteIntroduced task).perform controller outputs rest)
    | _ => none
  | .resume =>
    match s.rest with
    | .done => none
    | rest =>
      let (controller, outputs) := s.controller.resume rest
      some (s.perform controller outputs .done)

/-- A node controller that knows of no other nodes. -/
def machine (C : Type) (M : Type) [DecidableEq M] (name : NodeName) :
    Machine (Process C M) (Input C M) where
  init := { controller := { name := name } }
  step := step

end Machine

/-- The inputs that connect a node to its parent, the node `1`. -/
def connectParent : List (Input Bool Unit) :=
  [.run (.connectToParent false), .run (.onAcceptChild kInvalidNodeName 1 7), .resume]

/-! ## Calls -/

/-- Calls are of messages that were given to the controller, each of them once. -/
structure Calls (s : Process C M) : Prop where
  forwarded : ∀ {m call}, s.calls m = some call → (call.name, m) ∈ s.forwarded
  nodup : (s.forwarded.map Prod.snd).Nodup

variable {s s' : Process C M}

/-- What a controller asks for forwards no message. -/
theorem forwarded_outputs (s : Process C M) (outputs : List (Output C M)) :
    forwarded { s with history := (outputs.map .output).reverse ++ s.history } = s.forwarded := by
  have hnil : ((outputs.map .output).reverse.filterMap Event.forwarded : List (NodeName × M)) =
      [] := by
    refine List.filterMap_eq_nil_iff.2 fun e he => ?_
    obtain ⟨o, -, rfl⟩ := List.mem_map.1 (List.mem_reverse.1 he)
    rfl
  rw [forwarded, List.filterMap_append, hnil]
  rfl

/-- Running a task forwards no message. -/
theorem forwarded_perform (s : Process C M) (task : NodeController.Task C)
    (controller : NodeController C M) (outputs : List (Output C M)) (rest : Rest C) :
    ((s.noteIntroduced task).perform controller outputs rest).forwarded = s.forwarded := by
  refine (forwarded_outputs (s.noteIntroduced task) outputs).trans ?_
  rw [noteIntroduced]
  cases task.introduces s.controller with
  | some name => rfl
  | none => rfl

/-- It does not matter whether a task is noted before it is performed. -/
theorem perform_noteIntroduced (s : Process C M) (task : NodeController.Task C)
    (controller : NodeController C M) (outputs : List (Output C M)) (rest : Rest C) :
    (s.noteIntroduced task).perform controller outputs rest = { s with
      controller := controller
      rest := rest
      history := (outputs.map .output).reverse ++ (s.noteIntroduced task).history } := by
  rw [noteIntroduced]
  cases task.introduces s.controller with
  | some name => rfl
  | none => rfl

section Steps

variable [DecidableEq M]

/-- What a call does when it goes on: it remains one of the same message, and takes nothing
    from the queues. -/
structure Continues (m : M) (call : Call C) (s s' : Process C M) : Prop where
  calls : ∃ next, s'.calls = Function.update s.calls m next ∧
    ∀ call', next = some call' → call'.name = call.name
  rest : s'.rest = s.rest
  name : s'.controller.name = s.controller.name
  queues : ∀ {n m'}, m' ∈ s.controller.pendingPeerMessages n →
    m' ∈ s'.controller.pendingPeerMessages n
  history : ∃ l, s'.history = l ++ s.history
  forwarded : s'.forwarded = s.forwarded

/-- A call goes on under its name. -/
theorem continues_of_name {m : M} {call call' : Call C} (h : call'.name = call.name) :
    Continues m call s { s with calls := Function.update s.calls m (some call') } :=
  ⟨⟨_, rfl, fun _ h' => Option.some.inj h' ▸ h⟩, rfl, rfl, id, ⟨[], rfl⟩, rfl⟩

/-- A call ends with something that it asks for. -/
theorem continues_of_output {m : M} {call : Call C} (o : Output C M) :
    Continues m call s { s with
      calls := Function.update s.calls m none
      history := .output o :: s.history } :=
  ⟨⟨none, rfl, fun _ h => by cases h⟩, rfl, rfl, id, ⟨[_], rfl⟩, rfl⟩

/-- Every section of `SendPeerMessage` goes on with the call, or ends it. -/
theorem continues_sendPeerMessage (s : Process C M) (m : M) (call : Call C) :
    Continues m call s (s.sendPeerMessage m call) := by
  cases call with
  | getPeerChannel name =>
    rw [sendPeerMessage]
    cases s.controller.getPeerChannel name with
    | some peer => exact continues_of_name rfl
    | none => exact continues_of_name rfl
  | portsMessage name channel => exact continues_of_output _
  | enqueue name =>
    refine ⟨⟨_, rfl, fun call' h => ?_⟩, rfl, rfl, fun {n m'} h => ?_, ⟨[], rfl⟩, rfl⟩
    · split_ifs at h
      cases h
      rfl
    · by_cases hn : n = name
      · subst hn
        refine (congrArg (m' ∈ ·) (Function.update_self n _ _)).mpr ?_
        exact List.mem_append_left _ h
      · exact NodeController.mem_update_of_ne hn _ h
  | getParentName name => exact continues_of_name rfl
  | getParentChannel name parentName =>
    rw [sendPeerMessage]
    cases s.controller.getPeerChannel parentName with
    | some parent => exact continues_of_name rfl
    | none => exact ⟨⟨none, rfl, fun _ h => by cases h⟩, rfl, rfl, id, ⟨[], rfl⟩, rfl⟩
  | requestIntroduction name channel => exact continues_of_output _

/-- A step is the start of a call, a section of one, or a task. -/
theorem step_cases {i : Input C M} (h : s.step i = some s') :
    (∃ name m, i = .forwardMessage name m ∧ m ∉ s.forwarded.map Prod.snd ∧
      s' = s.forwardMessage name m) ∨
    (∃ m call, i = .sendPeerMessage m ∧ s.calls m = some call ∧
      s' = s.sendPeerMessage m call) ∨
    (∃ task, i = .run task ∧ s.rest = .done ∧ s' = (s.noteIntroduced task).perform
      (s.controller.run task).1 (s.controller.run task).2.1 (s.controller.run task).2.2) ∨
    (i = .resume ∧ s' = s.perform (s.controller.resume s.rest).1
      (s.controller.resume s.rest).2 .done) := by
  cases i with
  | forwardMessage name m =>
    rw [step] at h
    split_ifs at h with hm
    exact .inl ⟨name, m, rfl, hm, (Option.some.inj h).symm⟩
  | sendPeerMessage m =>
    obtain ⟨call, hcall, rfl⟩ := Option.map_eq_some_iff.1 h
    exact .inr (.inl ⟨m, call, rfl, hcall, rfl⟩)
  | run task =>
    rw [step] at h
    cases hrest : s.rest with
    | done =>
      rw [hrest] at h
      exact .inr (.inr (.inl ⟨task, rfl, rfl, (Option.some.inj h).symm⟩))
    | _ =>
      rw [hrest] at h
      cases h
  | resume =>
    rw [step] at h
    refine .inr (.inr (.inr ⟨rfl, ?_⟩))
    cases hrest : s.rest with
    | done =>
      rw [hrest] at h
      cases h
    | _ =>
      rw [hrest] at h
      exact (Option.some.inj h).symm

/-- Every step preserves what holds of the calls. -/
theorem Calls.step {i : Input C M} (hs : Calls s) (h : s.step i = some s') : Calls s' := by
  rcases step_cases h with ⟨name, m, -, hm, rfl⟩ | ⟨m, call, -, hcall, rfl⟩ |
    ⟨task, -, -, rfl⟩ | ⟨-, rfl⟩
  · have hforwarded : (s.forwardMessage name m).forwarded = (name, m) :: s.forwarded := by
      rw [forwardMessage]
      split_ifs
      · rfl
      · rfl
    refine ⟨fun {m' call} hcall => ?_, ?_⟩
    · rw [hforwarded]
      rw [forwardMessage] at hcall
      split_ifs at hcall
      · exact List.mem_cons_of_mem _ (hs.forwarded hcall)
      · by_cases hm' : m' = m
        · subst hm'
          cases (Function.update_self m' _ s.calls).symm.trans hcall
          exact List.mem_cons_self
        · exact List.mem_cons_of_mem _
            (hs.forwarded ((Function.update_of_ne hm' _ _).symm.trans hcall))
    · rw [hforwarded, List.map_cons]
      exact List.nodup_cons.2 ⟨hm, hs.nodup⟩
  · have hgoes := continues_sendPeerMessage s m call
    obtain ⟨next, hcalls, hname⟩ := hgoes.calls
    refine ⟨fun {m' call'} hcall' => ?_, ?_⟩
    · rw [hgoes.forwarded]
      rw [hcalls] at hcall'
      by_cases hm : m' = m
      · subst hm
        rw [hname call' ((Function.update_self m' next s.calls).symm.trans hcall')]
        exact hs.forwarded hcall
      · exact hs.forwarded ((Function.update_of_ne hm _ _).symm.trans hcall')
    · rw [hgoes.forwarded]
      exact hs.nodup
  · refine ⟨fun hcall => ?_, ?_⟩
    · rw [forwarded_perform]
      rw [perform_noteIntroduced] at hcall
      exact hs.forwarded hcall
    · rw [forwarded_perform]
      exact hs.nodup
  · refine ⟨fun hcall => ?_, ?_⟩
    · exact (forwarded_outputs s _).symm ▸ hs.forwarded hcall
    · exact (forwarded_outputs s _).symm ▸ hs.nodup

end Steps

end Process

end MojoEdk.Controller
