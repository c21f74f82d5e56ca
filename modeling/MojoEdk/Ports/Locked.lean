import MojoEdk.Ports.Every
import MojoEdk.Ports.Sending

/-!
# Ports that are left locked

Only a send that refuses a port, but not the first one that is attached, leaves ports locked
(`Node.Kept.sendMessage_of_unlocks`). In a run without such sends (`System.Careful`), no port is
ever left locked, and thus no call of the embedder waits for one
(`System.Reachable.locked_eq_nil`).
-/

namespace MojoEdk.Ports

variable {α : Type*}

namespace Node

variable {s : Node α} {p : PortName} {m : Message α}

/-- No port is locked before the first one that is attached. -/
theorem takeWhile_of_head_refused {peer : PortName} (hp : p ∉ m.ports)
    (hq : ∃ q ∈ m.ports.head?, s.sentPortError peer q ≠ none) (port : Port α) :
    (m.ports.takeWhile fun name => ((s.setPort p port).sentPortError peer name).isNone) = [] := by
  obtain ⟨q, hq, href⟩ := hq
  obtain ⟨rest, hports⟩ := List.head?_eq_some_iff.1 hq
  have hne : q ≠ p := fun h => hp (by rw [hports, h]; exact List.mem_cons_self)
  rw [hports, List.takeWhile_cons_of_neg]
  rw [sentPortError_setPort hne]
  simpa using href

/-- A send that refuses the first port attached, if any, leaves no port more locked. -/
theorem Kept.sendMessage_of_unlocks (h : s.Unlocks p m.ports) : s.Kept (s.sendMessage p m).1 := by
  by_cases href : s.Refuses p m
  · obtain ⟨hp, port, hport, hstate, hclosed, q, hq, hne⟩ := href
    obtain ⟨error, herror⟩ := exists_error.1 ⟨q, hq, hne⟩
    have hhead := (h hp port hport hstate hclosed).resolve_left fun haccepted =>
      hne (haccepted.1 q hq)
    obtain ⟨hsend, -⟩ := sendMessage_of_error hp hport hstate hclosed herror
    rw [hsend, Node.willSendMessage]
    split_ifs
    all_goals
      simp only [findSome?_sentPortError_setPort hp, herror, takeWhile_of_head_refused hp hhead]
      split_ifs
      · exact ⟨rfl, fun hoops => absurd (List.append_eq_nil_iff.1 hoops).2 (List.cons_ne_nil _ _)⟩
      · exact ⟨rfl, fun hoops => ⟨hoops, List.append_nil _⟩⟩
  · rcases sendMessage_of_not_refuses href with ⟨rv, hfail, -⟩ | hok
    · rw [hfail]
      exact .refl s
    · exact ((Kept.refl s).sendMessage p m).2 hok

end Node

namespace System

variable {s s' : System α} {ν : Node α} {act : Action α} {n : NodeName}

/-- The embedder makes an action on ports it holds. It may send a message whose ports are
    refused, unless a port attached before the one refused is locked by then. -/
def Careful (s : System α) (act : Action α) : Prop :=
  s.Honest act ∧ match act with
    | .sendMessage n p _ ports => (s.start n).Unlocks p ports
    | _ => True

instance (s : System α) (act : Action α) : Decidable (s.Careful act) :=
  match act with
  | .sendMessage n p payload ports =>
    inferInstanceAs (Decidable (s.Honest (.sendMessage n p payload ports) ∧
      (s.start n).Unlocks p ports))
  | .createPortPair n => inferInstanceAs (Decidable (s.Honest (.createPortPair n) ∧ True))
  | .connect n₀ n₁ => inferInstanceAs (Decidable (s.Honest (.connect n₀ n₁) ∧ True))
  | .getMessageIf n p selector =>
    inferInstanceAs (Decidable (s.Honest (.getMessageIf n p selector) ∧ True))
  | .closePort n p => inferInstanceAs (Decidable (s.Honest (.closePort n p) ∧ True))
  | .acceptMessage i => inferInstanceAs (Decidable (s.Honest (.acceptMessage i) ∧ True))
  | .lostConnectionToNode n lost =>
    inferInstanceAs (Decidable (s.Honest (.lostConnectionToNode n lost) ∧ True))

/-- No port is left locked, unless an assertion failed. -/
def Unlocked (s : System α) : Prop := s.oops = [] → s.locked = []

theorem Unlocked.commit (h : s.Unlocked) (hν : (s.start n).Kept ν) : (s.commit ν).Unlocked := by
  intro hoops
  obtain ⟨hs, hν'⟩ := List.append_eq_nil_iff.1 hoops
  have hlocked : ν.delegate.locked = [] := (hν.2 hν').2
  refine List.append_eq_nil_iff.2 ⟨h hs, ?_⟩
  rw [hlocked, List.map_nil]

/-- An action leaves no port locked. -/
theorem Unlocked.step (h : s.Unlocked) (hG : s.Careful act) (hs : s.step act = some s') :
    s'.Unlocked := by
  rw [System.step.eq_def] at hs
  split_ifs at hs
  cases act with
  | createPortPair n =>
    obtain rfl := Option.some.inj hs
    exact h.commit (.createPortPair (.refl _))
  | connect n₀ n₁ =>
    obtain rfl := Option.some.inj hs
    have hcreate : ∀ {s : System α}, s.Unlocked → ∀ n,
        (s.commit (s.start n).createUninitializedPort.1).Unlocked := fun hs n =>
      hs.commit (.createUninitializedPort (.refl _))
    have hinit : ∀ {s : System α}, s.Unlocked → ∀ n p n' p',
        (s.commit ((s.start n).initializePort p n' p').1).Unlocked := fun hs n p n' p' =>
      hs.commit (.initializePort (.refl _) p n' p')
    exact hinit (hinit (hcreate (hcreate h n₀) n₁) n₀ _ n₁ _) n₁ _ n₀ _
  | sendMessage n p payload ports =>
    obtain rfl := Option.some.inj hs
    have hsent := Node.Kept.sendMessage_of_unlocks (m := Message.newUserMessage payload ports) hG.2
    rw [System.sendMessage]
    split
    next heq =>
      rw [heq] at hsent
      exact h.commit hsent
    next heq =>
      rw [heq] at hsent
      exact h.commit hsent
  | getMessageIf n p selector =>
    obtain rfl := Option.some.inj hs
    have hread := (Node.Kept.refl (s.start n)).getMessageIf p selector
    rw [System.getMessageIf]
    split
    next heq =>
      rw [heq] at hread
      exact h.commit hread
    next heq =>
      rw [heq] at hread
      exact h.commit hread
  | closePort n p =>
    obtain rfl := Option.some.inj hs
    exact h.commit (.closePortAux (.refl _) _ p)
  | acceptMessage i =>
    simp only at hs
    split at hs
    · cases hs
    next n event _ =>
      obtain rfl := Option.some.inj hs
      exact Unlocked.commit (s := { s with inFlight := s.inFlight.eraseIdx i }) h
        (.acceptMessage (.refl _) event)
  | lostConnectionToNode => exact hG.1.elim

/-- No port is left locked as long as the embedder is careful. -/
theorem Reachable.locked_eq_nil (h : Reachable Careful s) : s.locked = [] := by
  have hunlocked : s.Unlocked := by
    induction h with
    | init => exact fun _ => rfl
    | step _ hG hs ih => exact ih.step hG hs
  exact hunlocked (h.simulates (fun _ _ hG => hG.1) (fun _ => True) trivial
    fun _ _ _ _ _ => trivial).2

end System

end MojoEdk.Ports
