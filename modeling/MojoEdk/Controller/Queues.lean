import MojoEdk.Controller.Peers
import Mathlib.Data.Fintype.Basic

/-!
# Queues for peers

Messages are queued for peers that are not connected (`pending_peer_messages_`), and the
first one asks the parent for an introduction. Nothing should be queued for a connected
peer, where nothing will ever take it out of the queue.

This is so as long as peers are connected when they can be (`Process.Timely`): not while
a call that has looked the peer up is going to queue its message, and, if the peer is the
parent, not after a call that looked for a parent in vain has left messages behind
(`Process.queues`). The controller does not wait for it (`Process.queues_left`).
-/

namespace MojoEdk.Controller

open Ports (NodeName kInvalidNodeName)

namespace Process

variable {C M : Type} {s s' : Process C M}

/-- A request for an introduction to the node was sent, and the parent introduced no
    node of that name since. -/
def unanswered (name : NodeName) : List (Event C M) → Bool
  | [] => false
  | .introduced n :: history => n ≠ name && unanswered name history
  | .output (.requestIntroduction _ n) :: history => n = name || unanswered name history
  | _ :: history => unanswered name history

theorem unanswered_output {name : NodeName} {history : List (Event C M)} (o : Output C M)
    (h : unanswered name history = true) : unanswered name (.output o :: history) = true := by
  cases o with
  | requestIntroduction channel n => exact Bool.or_eq_true_iff.2 (.inr h)
  | _ => exact h

theorem unanswered_outputs {name : NodeName} {history : List (Event C M)}
    (outputs : List (Output C M)) (h : unanswered name history = true) :
    unanswered name ((outputs.map .output).reverse ++ history) = true := by
  induction outputs generalizing history with
  | nil => exact h
  | cons o outputs ih =>
    rw [List.map_cons, List.reverse_cons, List.append_assoc]
    exact ih (unanswered_output o h)

/-- The introduction to a node was or will be asked for. -/
def Asked (s : Process C M) (parentName name : NodeName) : Prop :=
  unanswered name s.history = true ∨ ∃ m call, s.calls m = some call ∧ call.Asks parentName name

/-- No messages are left behind when the parent is connected. -/
def AllAsked (s : Process C M) (parentName : NodeName) : Prop :=
  ∀ name, name ≠ parentName → s.controller.pendingPeerMessages name ≠ [] →
    s.Asked parentName name

/-- A peer can be connected: no call has looked it up in vain and is going to queue its
    message. -/
def CanAdd (s : Process C M) (name : NodeName) : Prop :=
  s.controller.getPeerChannel name = none →
    (∀ m, s.calls m ≠ some (.enqueue name)) ∧
      (name = s.controller.parentName → s.AllAsked name)

/-- Peers are connected when they can be. -/
def Timely (s : Process C M) : Input C M → Prop
  | .run (.onAcceptChild _ parentName _) =>
    s.controller.bootstrapParentChannel.isSome → s.controller.parentName = kInvalidNodeName →
      (s.controller.getPeerChannel parentName).isSome → s.AllAsked parentName
  | .run task => ∀ name, task.adds s.controller = some name → s.CanAdd name
  | .resume =>
    match s.rest with
    | .addPeer name _ => s.CanAdd name
    | _ => True
  | _ => True

/-- What holds while peers are connected when they can be. -/
structure Queues (s : Process C M) : Prop where
  /-- Nothing is queued for a connected peer. -/
  connected : ∀ {name channel}, s.controller.peers name = some channel →
    s.controller.pendingPeerMessages name = []
  /-- Nothing will be. -/
  enqueue : ∀ {m name}, s.calls m = some (.enqueue name) → s.controller.peers name = none
  asked : ∀ {name}, s.controller.pendingPeerMessages name ≠ [] →
    s.controller.getParentChannel ≠ none → s.Asked s.controller.parentName name

/-- What the I/O thread does. Messages are not queued by it, a peer that it connects is
    one that can be, and if it connects the parent, the introductions were asked for. -/
theorem Queues.perform (hs : Queues s) {controller : NodeController C M} {rest : Rest C}
    {history : List (Event C M)}
    (hpending : ∀ name, controller.pendingPeerMessages name ≠ [] →
      controller.pendingPeerMessages name = s.controller.pendingPeerMessages name)
    (hpeers : ∀ name channel, controller.peers name = some channel →
      s.controller.peers name = some channel ∨
        (controller.pendingPeerMessages name = [] ∧ ∀ m, s.calls m ≠ some (.enqueue name)))
    (hparent : controller.getParentChannel ≠ none →
      (controller.parentName = s.controller.parentName ∧ s.controller.getParentChannel ≠ none) ∨
        s.AllAsked controller.parentName)
    (hhistory : ∀ name, controller.pendingPeerMessages name ≠ [] →
      unanswered name s.history = true → unanswered name history = true) :
    Queues { s with controller := controller, rest := rest, history := history } := by
  have hconnected {name : NodeName} {channel : C}
      (hpeer : controller.peers name = some channel) :
      controller.pendingPeerMessages name = [] := by
    by_contra hqueue
    rcases hpeers name channel hpeer with hold | ⟨hnil, -⟩
    · exact hqueue ((hpending name hqueue).trans (hs.connected hold))
    · exact hqueue hnil
  refine ⟨hconnected, fun {m name} hcall => ?_, fun {name} hqueue hchannel => ?_⟩
  · rw [Option.eq_none_iff_forall_ne_some]
    intro channel hpeer
    rcases hpeers name channel hpeer with hold | ⟨-, hnone⟩
    · cases (hs.enqueue hcall).symm.trans hold
    · exact hnone m hcall
  · have hasked : s.Asked controller.parentName name := by
      have hqueue' : s.controller.pendingPeerMessages name ≠ [] := by
        rw [← hpending name hqueue]
        exact hqueue
      rcases hparent hchannel with ⟨hname, hold⟩ | hall
      · rw [hname]
        exact hs.asked hqueue' hold
      · refine hall name (fun hname => hqueue ?_) hqueue'
        obtain ⟨channel, hpeer⟩ := Option.ne_none_iff_exists'.1 hchannel
        rw [hname]
        exact hconnected hpeer
    exact hasked.imp (hhistory name hqueue) id

section Steps

variable [DecidableEq M]

/-- The calls in progress, when one of them goes on. -/
theorem Asked.update {m : M} {parentName name : NodeName} (h : s.Asked parentName name)
    {next : Option (Call C)} {history : List (Event C M)}
    (hhistory : unanswered name s.history = true → unanswered name history = true)
    (hnext : ∀ call, s.calls m = some call → call.Asks parentName name →
      unanswered name history = true ∨ ∃ call', next = some call' ∧ call'.Asks parentName name)
    {controller : NodeController C M} :
    Asked { s with
      controller := controller
      calls := Function.update s.calls m next
      history := history } parentName name := by
  rcases h with h | ⟨m', call, hcall, hasks⟩
  · exact .inl (hhistory h)
  · by_cases hm : m' = m
    · subst hm
      rcases hnext call hcall hasks with h | ⟨call', rfl, hasks'⟩
      · exact .inl h
      · exact .inr ⟨m', call', Function.update_self _ _ _, hasks'⟩
    · exact .inr ⟨m', call, (Function.update_of_ne hm _ _).trans hcall, hasks⟩

/-- A call goes on, but does not queue its message. -/
theorem Queues.call (hs : Queues s) {m : M} {next : Option (Call C)}
    {history : List (Event C M)}
    (hhistory : ∀ name, unanswered name s.history = true → unanswered name history = true)
    (hnext : ∀ name, next = some (.enqueue name) → s.controller.peers name = none)
    (hasks : ∀ name call, s.calls m = some call → call.Asks s.controller.parentName name →
      s.controller.getParentChannel ≠ none → unanswered name history = true ∨
        ∃ call', next = some call' ∧ call'.Asks s.controller.parentName name) :
    Queues { s with calls := Function.update s.calls m next, history := history } := by
  refine ⟨hs.connected, fun {m' name} hcall => ?_, fun {name} hqueue hchannel => ?_⟩
  · by_cases hm : m' = m
    · subst hm
      refine hnext name (Eq.trans ?_ hcall)
      exact (Function.update_self m' next s.calls).symm
    · exact hs.enqueue ((Function.update_of_ne hm _ _).symm.trans hcall)
  · exact (hs.asked hqueue hchannel).update (hhistory name) fun call hcall hask =>
      hasks name call hcall hask hchannel

theorem Queues.sendPeerMessage (hs : Queues s) {m : M} {call : Call C}
    (hcall : s.calls m = some call) : Queues (s.sendPeerMessage m call) := by
  -- Of the calls in progress, the one that goes on is known.
  have hcases {P : Call C → Prop} (h : P call) (call' : Call C) (hcall' : s.calls m = some call') :
      P call' :=
    Option.some.inj (hcall.symm.trans hcall') ▸ h
  cases call with
  | getPeerChannel name =>
    rw [Process.sendPeerMessage]
    cases hpeer : s.controller.getPeerChannel name with
    | some peer =>
      exact hs.call (fun _ h => h) (fun _ h => by cases h) fun _ => hcases fun h => h.elim
    | none =>
      refine hs.call (fun _ h => h) (fun n h => ?_) fun _ => hcases fun h => h.elim
      cases h
      exact hpeer
  | portsMessage name channel =>
    exact hs.call (fun _ h => unanswered_output _ h) (fun _ h => by cases h)
      fun _ => hcases fun h => h.elim
  | enqueue name =>
    have hpeer := hs.enqueue hcall
    refine ⟨fun {n channel} hn => ?_, fun {m' n} hcall' => ?_, fun {n} hqueue hchannel => ?_⟩
    · have hne : n ≠ name := by
        rintro rfl
        cases hpeer.symm.trans hn
      exact (Function.update_of_ne hne _ _).trans (hs.connected hn)
    · by_cases hm : m' = m
      · subst hm
        have hnext := (Function.update_self m' _ s.calls).symm.trans hcall'
        split_ifs at hnext
        cases hnext
      · exact hs.enqueue ((Function.update_of_ne hm _ _).symm.trans hcall')
    · by_cases hfirst : n = name ∧ s.controller.pendingPeerMessages name = []
      · -- The first message asks for the introduction.
        refine .inr ⟨m, .getParentName name, ?_, hfirst.1.symm⟩
        refine (Function.update_self m _ s.calls).trans ?_
        rw [hfirst.2]
        rfl
      · refine (hs.asked ?_ hchannel).update id (hcases fun h => h.elim)
        by_cases hn : n = name
        · subst hn
          exact fun hnil => hfirst ⟨rfl, hnil⟩
        · exact ne_of_eq_of_ne (Function.update_of_ne hn _ _).symm hqueue
  | getParentName name =>
    refine hs.call (fun _ h => h) (fun _ h => by cases h) fun n => hcases fun h _ => ?_
    exact .inr ⟨_, rfl, h, rfl⟩
  | getParentChannel name parentName =>
    rw [Process.sendPeerMessage]
    cases hpeer : s.controller.getPeerChannel parentName with
    | some parent =>
      refine hs.call (fun _ h => h) (fun _ h => by cases h) fun n => hcases fun h _ => ?_
      exact .inr ⟨_, rfl, h.1⟩
    | none =>
      -- There is no parent to ask.
      refine hs.call (fun _ h => h) (fun _ h => by cases h) fun n => hcases fun h hchannel => ?_
      rw [h.2] at hpeer
      exact absurd hpeer hchannel
  | requestIntroduction name channel =>
    refine hs.call (fun _ h => unanswered_output _ h) (fun _ h => by cases h)
      fun n => hcases fun h _ => .inl ?_
    exact Bool.or_eq_true_iff.2 (.inl (decide_eq_true h))

theorem Queues.forwardMessage (hs : Queues s) (hcalls : Calls s) {name : NodeName} {m : M}
    (hm : m ∉ s.forwarded.map Prod.snd) : Queues (s.forwardMessage name m) := by
  have hcall {call : Call C} (h : s.calls m = some call) : False :=
    hm (List.mem_map.2 ⟨_, hcalls.forwarded h, rfl⟩)
  rw [Process.forwardMessage]
  split_ifs
  · exact ⟨hs.connected, hs.enqueue, fun hqueue hchannel => hs.asked hqueue hchannel⟩
  · exact hs.call (fun _ h => h) (fun _ h => by cases h) fun _ _ h => (hcall h).elim

end Steps

/-- A peer is added. -/
theorem Queues.addPeer (hs : Queues s) {controller : NodeController C M}
    (hquiet : s.controller.Quiet controller) {name : NodeName} (hadd : s.CanAdd name)
    (channel : C) (startChannel : Bool) {rest : Rest C} {history : List (Event C M)}
    (hhistory : ∀ n, n ≠ name → unanswered n s.history = true → unanswered n history = true) :
    Queues { s with
      controller := (controller.addPeer name channel startChannel).1
      rest := rest
      history := history } := by
  rcases controller.addPeer_cases name channel startChannel with ⟨hsome, heq⟩ | ⟨hnone, heq⟩
  · -- The peer is connected already, and nothing is queued for it.
    obtain ⟨c, hc⟩ := Option.isSome_iff_exists.1 hsome
    rw [hquiet.peers] at hc
    rw [heq]
    refine hs.perform (fun n _ => congrFun hquiet.pendingPeerMessages n)
      (fun n c h => .inl (hquiet.peers ▸ h)) (fun h => .inl ⟨hquiet.parentName, ?_⟩)
      fun n h => hhistory n fun hn => h ?_
    · rwa [NodeController.getParentChannel, NodeController.getPeerChannel, hquiet.peers,
        hquiet.parentName] at h
    · rw [hn, hquiet.pendingPeerMessages]
      exact hs.connected hc
  · rw [hquiet.peers] at hnone
    obtain ⟨hcalls, hparent⟩ := hadd hnone
    rw [heq]
    refine hs.perform (fun n h => ?_) (fun n c h => ?_) (fun h => ?_)
      fun n h => hhistory n fun hn => h ?_
    · have hn : n ≠ name := by
        rintro rfl
        exact h (Function.update_self _ _ _)
      exact (Function.update_of_ne hn _ _).trans (congrFun hquiet.pendingPeerMessages n)
    · by_cases hn : n = name
      · subst hn
        exact .inr ⟨Function.update_self _ _ _, hcalls⟩
      · rw [← hquiet.peers]
        exact .inl ((Function.update_of_ne hn _ _).symm.trans h)
    · by_cases hn : name = s.controller.parentName
      · refine .inr ?_
        rw [hquiet.parentName, ← hn]
        exact hparent hn
      · refine .inl ⟨hquiet.parentName, ?_⟩
        rw [← hquiet.parentName] at hn
        rw [NodeController.getParentChannel, NodeController.getPeerChannel, ← hquiet.peers,
          ← hquiet.parentName]
        exact ne_of_eq_of_ne (Function.update_of_ne (Ne.symm hn) _ _).symm h
    · rw [hn]
      exact Function.update_self _ _ _


theorem unanswered_noteIntroduced {name : NodeName} {task : NodeController.Task C}
    (h : unanswered name s.history = true)
    (hname : ∀ n, task.introduces s.controller = some n → n ≠ name)
    (outputs : List (Output C M)) :
    unanswered name ((outputs.map .output).reverse ++ (s.noteIntroduced task).history) =
      true := by
  refine unanswered_outputs outputs ?_
  rw [noteIntroduced]
  cases hintro : task.introduces s.controller with
  | some n => exact Bool.and_eq_true_iff.2 ⟨decide_eq_true (hname n hintro), h⟩
  | none => exact h

theorem Queues.run (hs : Queues s) {task : NodeController.Task C}
    (hG : s.Timely (.run task)) : Queues ((s.noteIntroduced task).perform
      (s.controller.run task).1 (s.controller.run task).2.1 (s.controller.run task).2.2) := by
  rw [perform_noteIntroduced]
  rcases s.controller.run_cases task with ⟨c, outputs, hquiet, hintro, heq⟩ |
    ⟨name, hintro, heq⟩ | ⟨name, rfl, heq⟩ |
    ⟨c, name, channel, startChannel, hadds, hintro, hquiet, heq⟩ |
    ⟨fromNode, parentName, token, channel, rfl, hchannel, hparent, heq⟩ | ⟨rfl, heq⟩
  · rw [heq]
    refine hs.perform (fun n _ => congrFun hquiet.pendingPeerMessages n)
      (fun n c h => .inl (hquiet.peers ▸ h)) (fun h => .inl ⟨hquiet.parentName, ?_⟩)
      fun n _ h => unanswered_noteIntroduced h (fun n hn => by cases hintro.symm.trans hn) _
    rwa [NodeController.getParentChannel, NodeController.getPeerChannel, hquiet.peers,
      hquiet.parentName] at h
  · rw [heq]
    have hpeers (n : NodeName) (h : Function.update s.controller.peers name none n ≠ none) :
        Function.update s.controller.peers name none n = s.controller.peers n := by
      refine Function.update_of_ne ?_ _ _
      rintro rfl
      exact h (Function.update_self _ _ _)
    refine hs.perform (fun n h => ?_) (fun n c h => .inl ?_) (fun h => .inl ⟨rfl, ?_⟩)
      fun n _ h => unanswered_noteIntroduced h (fun n hn => by cases hintro.symm.trans hn) _
    · refine Function.update_of_ne ?_ _ _
      rintro rfl
      exact h (Function.update_self _ _ _)
    · exact (hpeers n (ne_of_eq_of_ne h (Option.some_ne_none c))).symm.trans h
    · exact ne_of_eq_of_ne (hpeers _ h).symm h
  · rw [heq]
    have hne {n : NodeName}
        (h : Function.update s.controller.pendingPeerMessages name [] n ≠ []) : n ≠ name := by
      rintro rfl
      exact h (Function.update_self _ _ _)
    refine hs.perform (fun n h => Function.update_of_ne (hne h) _ _) (fun n c h => .inl h)
      (fun h => .inl ⟨rfl, h⟩) fun n hn h => unanswered_noteIntroduced h (fun n' hn' => ?_) _
    rw [← Option.some.inj ((if_pos rfl).symm.trans hn')]
    exact (hne hn).symm
  · rw [heq]
    refine hs.addPeer hquiet ?_ channel startChannel fun n hn h =>
      unanswered_noteIntroduced h (fun n' hn' heq => hn (heq ▸ hintro n' hn')) _
    cases task with
    | onAcceptChild fromNode parentName token => cases hadds
    | _ => exact hG name hadds
  · rw [heq]
    refine hs.perform (fun n _ => rfl) (fun n c h => .inl h) (fun h => .inr ?_)
      fun n _ h => unanswered_noteIntroduced h (fun n' hn' => by cases hn') _
    refine hG (by rw [hchannel]; rfl) hparent (Option.isSome_iff_ne_none.2 h)
  · rw [heq]
    exact hs.perform (fun n h => absurd rfl h) (fun n c h => by cases h)
      (fun h => absurd rfl h) fun n h => absurd rfl h

theorem Queues.resume (hs : Queues s) (hG : s.Timely .resume) :
    Queues (s.perform (s.controller.resume s.rest).1 (s.controller.resume s.rest).2 .done) := by
  rw [Timely] at hG
  have hsame (outputs : List (Output C M)) : Queues (s.perform s.controller outputs .done) :=
    hs.perform (fun n _ => rfl) (fun n c h => .inl h) (fun h => .inl ⟨rfl, h⟩)
      fun n _ h => unanswered_outputs outputs h
  cases hrest : s.rest with
  | done => exact hsame []
  | addPeer name channel =>
    rw [hrest] at hG
    exact hs.addPeer (.refl s.controller) hG channel false fun n _ h => unanswered_outputs _ h
  | lostConnectionToNode name => exact hsame [.lostConnectionToNode name]

/-- Nothing is queued for a connected peer, and introductions to the others were asked
    for, when no call is in progress: if peers are connected when they can be. -/
theorem queues [DecidableEq M] {name : NodeName} (h : (machine C M name).Reachable Timely s)
    (hcalls : ∀ m, s.calls m = none) :
    (∀ n, s.controller.pendingPeerMessages n ≠ [] → s.controller.getPeerChannel n = none) ∧
      ∀ n, s.controller.pendingPeerMessages n ≠ [] → s.controller.getParentChannel ≠ none →
        unanswered n s.history = true := by
  have hs : Calls s ∧ Queues s := by
    refine h.invariant (P := fun s => Calls s ∧ Queues s) ⟨⟨(fun h => by cases h),
      List.nodup_nil⟩, (fun h => by cases h), (fun h => by cases h), fun h => absurd rfl h⟩ ?_
    rintro s i s' ⟨hcalls, hs⟩ hG h
    refine ⟨hcalls.step h, ?_⟩
    rcases step_cases h with ⟨n, m, rfl, hm, rfl⟩ | ⟨m, call, rfl, hcall, rfl⟩ |
      ⟨task, rfl, -, rfl⟩ | ⟨rfl, rfl⟩
    · exact hs.forwardMessage hcalls hm
    · exact hs.sendPeerMessage hcall
    · exact hs.run hG
    · exact hs.resume hG
  refine ⟨fun n hqueue => ?_, fun n hqueue hparent => ?_⟩
  · rw [Option.eq_none_iff_forall_ne_some]
    exact fun channel hpeer => hqueue (hs.2.connected hpeer)
  · rcases hs.2.asked hqueue hparent with hasked | ⟨m, call, hcall, -⟩
    · exact hasked
    · cases (hcalls m).symm.trans hcall

theorem queues_asked : ∃ s, (machine Bool Unit 3).Reachable Timely s ∧
    (∀ m, s.calls m = none) ∧ s.controller.pendingPeerMessages 2 ≠ [] ∧
      s.controller.getPeerChannel 2 = none ∧ s.controller.getParentChannel ≠ none ∧
        unanswered 2 s.history = true := by
  have h₀ := Machine.Reachable.init (M := machine Bool Unit 3) (G := Timely)
  -- The parent, the node `1`, is connected while no message is queued.
  have h₁ := h₀.step (i := .run (.connectToParent false)) (by rintro _ ⟨⟩) rfl
  have h₂ := h₁.step (i := .run (.onAcceptChild kInvalidNodeName 1 7)) (by rintro - - ⟨⟩) rfl
  have h₃ := h₂.step (i := .resume)
    (by exact fun _ => ⟨(fun _ h => by cases h), fun _ _ _ h => absurd rfl h⟩) rfl
  -- A message for the node `2` asks for an introduction.
  have h₄ := h₃.step (i := .forwardMessage 2 ()) (by exact trivial) rfl
  have h₅ := h₄.step (i := .sendPeerMessage ()) (by exact trivial) rfl
  have h₆ := h₅.step (i := .sendPeerMessage ()) (by exact trivial) rfl
  have h₇ := h₆.step (i := .sendPeerMessage ()) (by exact trivial) rfl
  have h₈ := h₇.step (i := .sendPeerMessage ()) (by exact trivial) rfl
  have h₉ := h₈.step (i := .sendPeerMessage ()) (by exact trivial) rfl
  have hqueues := queues h₉ fun _ => rfl
  exact ⟨_, h₉, fun _ => rfl, List.cons_ne_nil _ _, hqueues.1 2 (List.cons_ne_nil _ _),
    Option.some_ne_none _, hqueues.2 2 (List.cons_ne_nil _ _) (Option.some_ne_none _)⟩

/-- Messages that stay behind. The node `2` is connected after a call has looked it up; or
    the parent is connected after a call has looked it up. -/
theorem queues_left : (∃ s, (machine Bool Unit 3).Reachable Machine.Any s ∧
      (∀ m, s.calls m = none) ∧ s.controller.pendingPeerMessages 2 ≠ [] ∧
        s.controller.getPeerChannel 2 ≠ none) ∧
    ∃ s, (machine Bool Unit 3).Reachable Machine.Any s ∧ (∀ m, s.calls m = none) ∧
      s.controller.pendingPeerMessages 2 ≠ [] ∧ s.controller.getParentChannel ≠ none ∧
        unanswered 2 s.history = false := by
  constructor
  · exact Machine.exists_reachable (connectParent ++ [.forwardMessage 2 (), .sendPeerMessage (),
      .run (.onIntroduce 1 2 (some true)), .sendPeerMessage (), .sendPeerMessage (),
      .sendPeerMessage (), .sendPeerMessage ()]) (by decide)
  · exact Machine.exists_reachable ([.forwardMessage 2 (), .sendPeerMessage (),
      .sendPeerMessage (), .sendPeerMessage (), .sendPeerMessage ()] ++ connectParent)
      (by decide)

end Process

end MojoEdk.Controller
