import MojoEdk.Controller.Peers

/-!
# Messages that are dropped

A message for another node is written to the channel of the node or waits in its queue.
When the node is lost, its messages are dropped and the loss is reported to the ports
(`Node::LostConnectionToNode`), which do not wait any longer.

An introduction that fails drops the messages as well, and this is not reported
(`Process.dropped_in_silence`). There are no others (`Process.accounted`).
-/

namespace MojoEdk.Controller

open Ports (NodeName)

namespace Process

variable {C M : Type} {s s' : Process C M}

section Accounted

variable [DecidableEq M]

/-- A message was written to the channel of the node it is for. -/
def written (name : NodeName) (m : M) (history : List (Event C M)) : Bool :=
  history.any fun
    | .output (.portsMessage _ n m') => n = name && m' = m
    | _ => false

/-- The loss of the node was reported, after a message for it was given to the
    controller. -/
def reported (name : NodeName) (m : M) : List (Event C M) → Bool
  | [] => false
  | .output (.lostConnectionToNode n) :: history =>
    (n = name && (history.filterMap Event.forwarded).contains (name, m)) ||
      reported name m history
  | _ :: history => reported name m history

/-- A `SendPeerMessage` in progress has the message. -/
def Held (s : Process C M) (m : M) : Prop := ∃ call, s.calls m = some call ∧ call.HasMessage

/-- A message is where it can be reached, or the loss of the node is known. -/
def Accounted (s : Process C M) (name : NodeName) (m : M) : Prop :=
  written name m s.history = true ∨ m ∈ s.controller.pendingPeerMessages name ∨
    reported name m s.history = true

/-- No introduction fails while messages wait for it, and the I/O thread is not shut
    down. -/
def Introducing (s : Process C M) : Input C M → Prop
  | .run (.onIntroduce fromNode name none) =>
    fromNode = s.controller.parentName → s.controller.pendingPeerMessages name = []
  | .run .dropAllPeers => False
  | _ => True

theorem written_append {name : NodeName} {m : M} {history : List (Event C M)}
    (h : written name m history = true) (l : List (Event C M)) :
    written name m (l ++ history) = true := by
  rw [written, List.any_append]
  exact Bool.or_eq_true_iff.2 (.inr h)

theorem reported_append {name : NodeName} {m : M} {history : List (Event C M)}
    (h : reported name m history = true) (l : List (Event C M)) :
    reported name m (l ++ history) = true := by
  induction l with
  | nil => exact h
  | cons e l ih =>
    cases e with
    | output o =>
      cases o with
      | lostConnectionToNode n => exact Bool.or_eq_true_iff.2 (.inr ih)
      | _ => exact ih
    | _ => exact ih

/-- Every message for another node is with its call, or accounted for, or about to be:
    the loss of its node is about to be reported. -/
def AllAccounted (name : NodeName) (s : Process C M) : Prop :=
  ∀ n m, (n, m) ∈ s.forwarded → n ≠ name →
    s.Held m ∨ s.Accounted n m ∨ s.rest = .lostConnectionToNode n

variable {name : NodeName}

/-- What the I/O thread does: it leaves messages in their queues, or writes them, or is
    about to report the loss of their node. -/
theorem AllAccounted.perform (hs : AllAccounted name s) (hcalls : s'.calls = s.calls)
    (hforwarded : s'.forwarded = s.forwarded) (hhistory : ∃ l, s'.history = l ++ s.history)
    (hpending : ∀ n m, m ∈ s.controller.pendingPeerMessages n →
      m ∈ s'.controller.pendingPeerMessages n ∨ written n m s'.history = true ∨
        s'.rest = .lostConnectionToNode n)
    (hrest : ∀ n m, (n, m) ∈ s.forwarded → s.rest = .lostConnectionToNode n →
      reported n m s'.history = true) : AllAccounted name s' := by
  intro n m hmem hn
  obtain ⟨l, hhistory⟩ := hhistory
  rw [hforwarded] at hmem
  rcases hs n m hmem hn with ⟨call, hcall, hheld⟩ | (hwritten | hqueue | hreported) | hlost
  · exact .inl ⟨call, (congrFun hcalls m).trans hcall, hheld⟩
  · exact .inr (.inl (.inl (hhistory ▸ written_append hwritten l)))
  · rcases hpending n m hqueue with h | h | h
    · exact .inr (.inl (.inr (.inl h)))
    · exact .inr (.inl (.inl h))
    · exact .inr (.inr h)
  · exact .inr (.inl (.inr (.inr (hhistory ▸ reported_append hreported l))))
  · exact .inr (.inl (.inr (.inr (hrest n m hmem hlost))))

theorem AllAccounted.forwardMessage (hs : AllAccounted name s) {n : NodeName} {m : M}
    (hname : s.controller.name = name) (hm : m ∉ s.forwarded.map Prod.snd) :
    AllAccounted name (s.forwardMessage n m) := by
  intro n' m' hmem hn'
  rw [Process.forwardMessage] at hmem ⊢
  split_ifs at hmem ⊢ with hlocal
  · rcases List.mem_cons.1 hmem with heq | hmem
    · cases heq
      exact absurd (hlocal.trans hname) hn'
    · exact hs n' m' hmem hn'
  · rcases List.mem_cons.1 hmem with heq | hold
    · cases heq
      exact .inl ⟨_, Function.update_self _ _ _, trivial⟩
    · have hne : m' ≠ m := by
        rintro rfl
        exact hm (List.mem_map.2 ⟨(n', m'), hold, rfl⟩)
      refine (hs n' m' hold hn').imp (fun h => ?_) id
      obtain ⟨call, hcall, hcall'⟩ := h
      exact ⟨call, (Function.update_of_ne hne _ _).trans hcall, hcall'⟩

/-- A call drops no message. -/
theorem Accounted.sendPeerMessage {n : NodeName} {m' : M} (h : s.Accounted n m') (m : M)
    (call : Call C) : (s.sendPeerMessage m call).Accounted n m' := by
  have hgoes := continues_sendPeerMessage s m call
  obtain ⟨l, hl⟩ := hgoes.history
  rw [Accounted, hl]
  exact h.imp (fun h => written_append h l) (.imp hgoes.queues fun h => reported_append h l)

/-- A call that gives its message away writes or queues it. -/
theorem held_sendPeerMessage {m : M} {call : Call C} (hcall : call.HasMessage) :
    (s.sendPeerMessage m call).Held m ∨ (s.sendPeerMessage m call).Accounted call.name m := by
  cases call with
  | getPeerChannel n =>
    rw [sendPeerMessage]
    cases s.controller.getPeerChannel n with
    | some peer => exact .inl ⟨_, Function.update_self _ _ _, trivial⟩
    | none => exact .inl ⟨_, Function.update_self _ _ _, trivial⟩
  | portsMessage n channel =>
    refine .inr (.inl (List.any_eq_true.2 ⟨_, List.mem_cons_self, ?_⟩))
    exact Bool.and_eq_true_iff.2 ⟨decide_eq_true rfl, decide_eq_true rfl⟩
  | enqueue n =>
    refine .inr (.inr (.inl ((congrArg (m ∈ ·) (Function.update_self n _ _)).mpr ?_)))
    exact List.mem_append_right _ List.mem_cons_self
  | _ => exact hcall.elim

theorem AllAccounted.sendPeerMessage (hs : AllAccounted name s) (hcalls : Calls s) {m : M}
    {call : Call C} (hcall : s.calls m = some call) :
    AllAccounted name (s.sendPeerMessage m call) := by
  intro n m' hmem hn
  have hgoes := continues_sendPeerMessage s m call
  rw [hgoes.forwarded] at hmem
  rw [hgoes.rest]
  rcases hs n m' hmem hn with ⟨call', hcall', hheld⟩ | haccounted
  · by_cases hm : m' = m
    · subst hm
      obtain rfl := Option.some.inj (hcall.symm.trans hcall')
      obtain ⟨rfl, -⟩ := Prod.ext_iff.1 (List.inj_on_of_nodup_map hcalls.nodup hmem
        (hcalls.forwarded hcall) rfl)
      exact (held_sendPeerMessage hheld).imp_right .inl
    · obtain ⟨next, hnext, -⟩ := hgoes.calls
      exact .inl ⟨call', (congrFun hnext m').trans ((Function.update_of_ne hm _ _).trans hcall'),
        hheld⟩
  · exact .inr (haccounted.imp_left fun h => h.sendPeerMessage m call)

theorem written_outputs {n : NodeName} {m : M} {channel : C} {outputs : List (Output C M)}
    (h : .portsMessage channel n m ∈ outputs) (history : List (Event C M)) :
    written n m ((outputs.map .output).reverse ++ history) = true := by
  refine List.any_eq_true.2 ⟨.output (.portsMessage channel n m), ?_, ?_⟩
  · exact List.mem_append_left _ (List.mem_reverse.2 (List.mem_map_of_mem h))
  · exact Bool.and_eq_true_iff.2 ⟨decide_eq_true rfl, decide_eq_true rfl⟩

/-- A message stays in its queue, unless it is written or the loss of its node is about to
    be reported. -/
theorem mem_step {i : Input C M} (hG : s.Introducing i) (h : s.step i = some s')
    {n : NodeName} {m : M} (hm : m ∈ s.controller.pendingPeerMessages n) :
    m ∈ s'.controller.pendingPeerMessages n ∨ written n m s'.history = true ∨
      s'.rest = .lostConnectionToNode n := by
  rcases step_cases h with ⟨n', m', -, -, rfl⟩ | ⟨m', call, -, -, rfl⟩ |
    ⟨task, rfl, -, rfl⟩ | ⟨-, rfl⟩
  · rw [forwardMessage]
    split_ifs
    · exact .inl hm
    · exact .inl hm
  · exact .inl ((continues_sendPeerMessage s m' call).queues hm)
  · rw [perform_noteIntroduced]
    rcases s.controller.run_cases task with ⟨c, outputs, hquiet, -, heq⟩ | ⟨n', -, heq⟩ |
      ⟨n', rfl, heq⟩ | ⟨c, n', channel, startChannel, -, -, hquiet, heq⟩ |
      ⟨fromNode, parentName, token, channel, rfl, -, -, heq⟩ | ⟨rfl, heq⟩
    · rw [heq, hquiet.pendingPeerMessages]
      exact .inl hm
    · rw [heq]
      by_cases hn : n = n'
      · exact .inr (.inr (hn ▸ rfl))
      · exact .inl (NodeController.mem_update_of_ne hn _ hm)
    · rw [heq]
      have hn : n ≠ n' := by
        rintro rfl
        rw [hG rfl] at hm
        cases hm
      exact .inl (NodeController.mem_update_of_ne hn _ hm)
    · rw [heq]
      rw [← hquiet.pendingPeerMessages] at hm
      exact (c.mem_addPeer n' channel startChannel hm).imp_right fun h =>
        .inl (written_outputs h _)
    · rw [heq]
      exact .inl hm
    · exact hG.elim
  · cases hrest : s.rest with
    | addPeer n' channel =>
      exact (s.controller.mem_addPeer n' channel false hm).imp_right fun h =>
        .inl (written_outputs h _)
    | _ => exact .inl hm

theorem AllAccounted.step {i : Input C M} (hs : AllAccounted name s) (hcalls : Calls s)
    (hname : s.controller.name = name) (hG : s.Introducing i) (h : s.step i = some s') :
    AllAccounted name s' := by
  have hpending (n : NodeName) (m : M) (hm : m ∈ s.controller.pendingPeerMessages n) :=
    mem_step hG h hm
  rcases step_cases h with ⟨n, m, -, hm, rfl⟩ | ⟨m, call, -, hcall, rfl⟩ |
    ⟨task, -, hrest, rfl⟩ | ⟨-, rfl⟩
  · exact hs.forwardMessage hname hm
  · exact hs.sendPeerMessage hcalls hcall
  · obtain ⟨l, hl⟩ : ∃ l, (s.noteIntroduced task).history = l ++ s.history := by
      rw [noteIntroduced]
      cases task.introduces s.controller with
      | some n => exact ⟨[_], rfl⟩
      | none => exact ⟨[], rfl⟩
    refine hs.perform ?_ (forwarded_perform _ _ _ _ _) ?_ hpending fun n m _ hlost => ?_
    · rw [perform_noteIntroduced]
    · rw [perform_noteIntroduced, hl, ← List.append_assoc]
      exact ⟨_, rfl⟩
    · cases hrest.symm.trans hlost
  · refine hs.perform rfl (forwarded_outputs _ _) ⟨_, rfl⟩ hpending fun n m hmem hlost => ?_
    rw [hlost]
    refine Bool.or_eq_true_iff.2 (.inl (Bool.and_eq_true_iff.2 ⟨decide_eq_true rfl, ?_⟩))
    exact List.contains_iff_mem.2 hmem

theorem name_step {i : Input C M} (h : s.step i = some s') :
    s'.controller.name = s.controller.name := by
  rcases step_cases h with ⟨n, m, -, -, rfl⟩ | ⟨m, call, -, -, rfl⟩ | ⟨task, -, -, rfl⟩ | ⟨-, rfl⟩
  · rw [forwardMessage]
    split_ifs
    · rfl
    · rfl
  · exact (continues_sendPeerMessage s m call).name
  · exact s.controller.name_run task
  · cases s.rest with
    | addPeer n channel => exact s.controller.name_addPeer n channel false
    | _ => rfl

/-- Messages are not dropped in silence. A message for another node has not been given away
    by its call, or was written to a channel of the node, or is queued, or the loss of the
    node was reported after it, or will be when the I/O thread goes on, before anything
    else. A queue that becomes empty was written or its node is lost. This is so if
    introductions do not fail while messages wait for them. -/
theorem accounted (h : (machine C M name).Reachable Introducing s) :
    (∀ n m, (n, m) ∈ s.forwarded → n ≠ name →
      s.Held m ∨ s.Accounted n m ∨ s.rest = .lostConnectionToNode n) ∧
    (∀ i s' n, Introducing s i → s.step i = some s' →
      s.controller.pendingPeerMessages n ≠ [] → s'.controller.pendingPeerMessages n = [] →
        (∀ m ∈ s.controller.pendingPeerMessages n, written n m s'.history = true) ∨
          s'.rest = .lostConnectionToNode n) ∧
    ∀ n, s.rest = .lostConnectionToNode n → (∀ task, s.step (.run task) = none) ∧
      ∃ s', s.step .resume = some s' ∧ s'.rest = .done ∧
        s'.history = .output (.lostConnectionToNode n) :: s.history := by
  have hs : (Calls s ∧ s.controller.name = name) ∧ AllAccounted name s := by
    refine h.invariant (P := fun s => (Calls s ∧ s.controller.name = name) ∧ AllAccounted name s)
      ⟨⟨⟨(fun h => by cases h), List.nodup_nil⟩, rfl⟩, fun n m h => by cases h⟩ ?_
    rintro s i s' ⟨⟨hcalls, hname⟩, hs⟩ hG h
    exact ⟨⟨hcalls.step h, (name_step h).trans hname⟩, hs.step hcalls hname hG h⟩
  refine ⟨hs.2, fun i s' n hG hstep _ hnil => ?_, fun n hrest => ⟨fun task => ?_, ?_⟩⟩
  · by_cases hlost : s'.rest = .lostConnectionToNode n
    · exact .inr hlost
    · refine .inl fun m hm => ?_
      rcases mem_step hG hstep hm with hm' | hwritten | hlost'
      · rw [hnil] at hm'
        cases hm'
      · exact hwritten
      · exact absurd hlost' hlost
  · rw [step, hrest]
  · rw [step, hrest]
    exact ⟨_, rfl, rfl, rfl⟩

end Accounted

instance [DecidableEq M] (s : Process C M) (i : Input C M) : Decidable (s.Introducing i) := by
  unfold Introducing
  split
  · infer_instance
  · infer_instance
  · infer_instance

/-- A message that was queued is written when the node `2` is introduced. -/
theorem accounted_written : ∃ s, (machine Bool Unit 3).Reachable Introducing s ∧
    (2, ()) ∈ s.forwarded ∧ (s.Held () ∨ s.Accounted 2 () ∨ s.rest = .lostConnectionToNode 2) ∧
      written 2 () s.history = true := by
  obtain ⟨s, hs, hmem, hwritten⟩ := Machine.exists_reachable (M := machine Bool Unit 3)
    (G := Introducing) (P := fun s => (2, ()) ∈ s.forwarded ∧ written 2 () s.history = true)
    (connectParent ++ [.forwardMessage 2 (), .sendPeerMessage (), .sendPeerMessage (),
      .run (.onIntroduce 1 2 (some true))]) (by decide)
  exact ⟨s, hs, hmem, (accounted hs).1 2 () hmem (by decide), hwritten⟩

/-- A message that is dropped when the introduction to the node `2` fails. The loss of the
    node is not reported. -/
theorem dropped_in_silence : ∃ s, (machine Bool Unit 3).Reachable Machine.Any s ∧
    (2, ()) ∈ s.forwarded ∧ s.calls () = none ∧ ¬ s.Accounted 2 () ∧ s.rest = .done := by
  obtain ⟨s, hs, hmem, hcalls, hwritten, hqueue, hreported, hrest⟩ :=
    Machine.exists_reachable (M := machine Bool Unit 3) (G := Machine.Any)
      (P := fun s => (2, ()) ∈ s.forwarded ∧ s.calls () = none ∧
        written 2 () s.history = false ∧ s.controller.pendingPeerMessages 2 = [] ∧
          reported 2 () s.history = false ∧ s.rest = .done)
      (connectParent ++ [.forwardMessage 2 (), .sendPeerMessage (), .sendPeerMessage (),
        .sendPeerMessage (), .sendPeerMessage (), .sendPeerMessage (),
        .run (.onIntroduce 1 2 none)]) (by decide)
  refine ⟨s, hs, hmem, hcalls, ?_, hrest⟩
  rw [Accounted, hwritten, hqueue, hreported]
  rintro (h | h | h)
  · cases h
  · cases h
  · cases h

end Process

end MojoEdk.Controller
