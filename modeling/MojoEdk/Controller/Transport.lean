import MojoEdk.Controller.Network
import MojoEdk.Library.Exclusive
import MojoEdk.Ports.Delivery

/-!
# Networks deliver events

A network of node controllers (`Network`) does for its nodes what the events in flight of
`Ports.System` stand for: an event that is forwarded waits at one place at a time, in a
queue of a controller, with a call, or on its way in a channel, each of them on the way to
the node that it is for (`Network.Transports`). So the runs of networks are runs of
systems, and what is known of these holds for the nodes of a network.

Events are dropped with the connection to a node, and when an introduction fails. Other
steps drop none (`Network.Lossless`).
-/

namespace MojoEdk.Ports.System

variable {α : Type*}

/-- Events that are in flight already. -/
def prepend (s : System α) (l : List (NodeName × Event α)) : System α :=
  { s with inFlight := l ++ s.inFlight }

theorem commit_prepend (s : System α) (l : List (NodeName × Event α)) (ν : Node α) :
    (s.prepend l).commit ν = (s.commit ν).prepend l := by
  simp only [commit, prepend, List.append_assoc]

theorem deliver_prepend (s : System α) (l : List (NodeName × Event α)) (n : NodeName)
    (event : Event α) : (s.prepend l).deliver n event = (s.deliver n event).prepend l :=
  commit_prepend s l _

theorem sendMessage_prepend (s : System α) (l : List (NodeName × Event α)) (n : NodeName)
    (p : PortName) (payload : α) (ports : List PortName) :
    (s.prepend l).sendMessage n p payload ports = (s.sendMessage n p payload ports).prepend l := by
  have hstart : (s.prepend l).start n = s.start n := rfl
  rw [sendMessage, sendMessage, hstart]
  split
  · rw [commit_prepend]
    rfl
  · rw [commit_prepend]

theorem getMessageIf_prepend (s : System α) (l : List (NodeName × Event α)) (n : NodeName)
    (p : PortName) (selector : Option (Message α → Bool)) :
    (s.prepend l).getMessageIf n p selector = (s.getMessageIf n p selector).prepend l := by
  have hstart : (s.prepend l).start n = s.start n := rfl
  rw [getMessageIf, getMessageIf, hstart]
  split
  · rw [commit_prepend]
    rfl
  · rw [commit_prepend]

theorem connect_prepend (s : System α) (l : List (NodeName × Event α)) (n₀ n₁ : NodeName) :
    (s.prepend l).connect n₀ n₁ = (s.connect n₀ n₁).prepend l := by
  have hstart (t : System α) (n : NodeName) : (t.prepend l).start n = t.start n := rfl
  simp only [connect, hstart, commit_prepend]
  rfl

/-- What is in flight makes no difference to calls. -/
theorem step_prepend (s : System α) (l : List (NodeName × Event α)) {a : Action α}
    (ha : ∀ i, a ≠ .acceptMessage i) : (s.prepend l).step a = (s.step a).map (prepend · l) := by
  have hoops : (s.prepend l).oops = s.oops := rfl
  rw [step.eq_def, step.eq_def, hoops]
  split_ifs
  · rfl
  · cases a with
    | createPortPair n =>
      exact congrArg some (congrArg (fun t : System α => t.addPipe n _ n _) (commit_prepend s l _))
    | connect n₀ n₁ => exact congrArg some (connect_prepend s l n₀ n₁)
    | sendMessage n p payload ports =>
      exact congrArg some (sendMessage_prepend s l n p payload ports)
    | getMessageIf n p selector => exact congrArg some (getMessageIf_prepend s l n p selector)
    | closePort n p => exact congrArg some (commit_prepend s l _)
    | acceptMessage i => exact absurd rfl (ha i)
    | lostConnectionToNode n lost => exact congrArg some (commit_prepend s l _)

/-- An event that is in flight can be delivered. -/
theorem step_acceptMessage {s : System α} {i : ℕ} {n : NodeName} {event : Event α}
    (hoops : s.oops = []) (hi : s.inFlight[i]? = some (n, event)) :
    s.step (.acceptMessage i) =
      some ({ s with inFlight := s.inFlight.eraseIdx i }.deliver n event) := by
  rw [step.eq_def, if_neg (not_not_intro hoops)]
  dsimp only
  rw [hi]

end MojoEdk.Ports.System

namespace MojoEdk.Controller

open Ports (NodeName System Action)
open NodeChannel (NodeMessage)

variable {α : Type}

/-- Where a process has messages. -/
inductive Site
  | incomingMessages
  | call (m : ℕ)
  | pendingPeerMessages (name : NodeName)
  deriving DecidableEq

/-- Where messages are. -/
inductive Place
  | site (n : NodeName) (site : Site)
  /-- `AcceptIncomingMessages`, on a thread. -/
  | taken (n : NodeName) (thread : ℕ)
  /-- On the way from a handle to the other end. -/
  | wire (h : Handle)
  deriving DecidableEq

/-- The message that a call has. -/
def heldBy (m : ℕ) : Option (Call Handle) → List ℕ
  | some (.getPeerChannel _) | some (.portsMessage _ _) | some (.enqueue _) => [m]
  | _ => []

/-- The messages of a process. -/
def Process.owns (p : Process Handle ℕ) : Site → List ℕ
  | .incomingMessages => p.controller.incomingMessages
  | .call m => heldBy m (p.calls m)
  | .pendingPeerMessages name => p.controller.pendingPeerMessages name

/-- The message in a `PORTS_MESSAGE`. -/
def portsMessageOf : NodeMessage Handle ℕ → Option ℕ
  | .portsMessage m => some m
  | _ => none

namespace Network

/-- The messages at a place. -/
def owns (s : Network α) : Place → List ℕ
  | .site n site => (s.process n).owns site
  | .taken n thread => s.taken (n, thread)
  | .wire h => (s.wire h).filterMap portsMessageOf

/-- The messages that are written to a channel. -/
def written (outputs : List (Output Handle ℕ)) (h : Handle) : List ℕ :=
  (outputs.filterMap (writtenTo h)).filterMap portsMessageOf

/-- The node that the messages at a place are on the way to. -/
def destination (s : Network α) : Place → Option NodeName
  | .site n .incomingMessages => some n
  | .site n (.call m) => ((s.process n).calls m).map Call.name
  | .site _ (.pendingPeerMessages name) => some name
  | .taken n _ => some n
  | .wire h => s.owner h.other

/-- The messages are passed on, from place to place. None is made, and none is dropped
    `strict`ly. -/
structure Passes (strict : Prop) (s s' : Network α) : Prop where
  system : s'.system = s.system
  messages : s'.messages = s.messages
  exclusive : Exclusive s.owns → Exclusive s'.owns
  place : ∀ {p m}, m ∈ s'.owns p → ∃ q, m ∈ s.owns q ∧
    ∀ y, s.destination q = some y → s'.destination p = some y
  kept : strict → ∀ {q m}, m ∈ s.owns q → ∃ p, m ∈ s'.owns p

variable {s s' : Network α} {n : NodeName} {strict : Prop}

theorem Passes.trans {s₁ : Network α} (h : Passes strict s s₁) (h' : Passes strict s₁ s') :
    Passes strict s s' where
  system := h'.system.trans h.system
  messages := h'.messages.trans h.messages
  exclusive he := h'.exclusive (h.exclusive he)
  place hm := by
    obtain ⟨q, hq, hdest⟩ := h'.place hm
    obtain ⟨q', hq', hdest'⟩ := h.place hq
    exact ⟨q', hq', fun y hy => hdest y (hdest' y hy)⟩
  kept hstrict {q m} hm := by
    obtain ⟨p, hp⟩ := h.kept hstrict hm
    exact h'.kept hstrict hp

section Owns

variable (hsystem : s'.system = s.system) (hmessages : s'.messages = s.messages)
  (hdest : ∀ {p m}, m ∈ s'.owns p → m ∈ s.owns p → ∀ y, s.destination p = some y →
    s'.destination p = some y)

include hsystem hmessages hdest

/-- All messages stay where they are. -/
theorem passes_of_eq (howns : s'.owns = s.owns) : Passes strict s s' where
  system := hsystem
  messages := hmessages
  exclusive he := howns ▸ he
  place {p _} hm := ⟨p, howns ▸ hm, hdest hm (howns ▸ hm)⟩
  kept _ {q _} hm := ⟨q, howns ▸ hm⟩

/-- All messages at a place are dropped. -/
theorem passes_of_drop {a : Place} (howns : s'.owns = Function.update s.owns a [])
    (hstrict : strict → s.owns a = []) : Passes strict s s' where
  system := hsystem
  messages := hmessages
  exclusive he := howns ▸ he.drop a
  place {p m} hm := by
    have hm' := hm
    rw [howns] at hm'
    rcases mem_or_mem_of_mem_update hm' with hnil | hm'
    · cases hnil
    · exact ⟨p, hm', hdest hm hm'⟩
  kept hs {q m} hm := by
    refine ⟨q, ?_⟩
    have hq : q ≠ a := by
      rintro rfl
      rw [hstrict hs] at hm
      cases hm
    rwa [howns, Function.update_of_ne hq]

/-- All messages at a place are moved to another place, on the way to the same node. -/
theorem passes_of_move {a b : Place} (hab : a ≠ b)
    (howns : s'.owns = Function.update (Function.update s.owns a []) b (s.owns b ++ s.owns a))
    (hmove : ∀ m ∈ s.owns a, ∀ y, s.destination a = some y → s'.destination b = some y) :
    Passes strict s s' where
  system := hsystem
  messages := hmessages
  exclusive he := howns ▸ he.pass hab
  place {p m} hm := by
    have hm' := hm
    rw [howns] at hm'
    by_cases hp : p = b
    · subst hp
      rw [Function.update_self] at hm'
      rcases List.mem_append.1 hm' with hm' | hm'
      · exact ⟨p, hm', hdest hm hm'⟩
      · exact ⟨a, hm', hmove m hm'⟩
    · rw [Function.update_of_ne hp] at hm'
      rcases mem_or_mem_of_mem_update hm' with hnil | hm'
      · cases hnil
      · exact ⟨p, hm', hdest hm hm'⟩
  kept _ {q m} hm := by
    by_cases hq : q = a
    · subst hq
      refine ⟨b, ?_⟩
      rw [howns, Function.update_self]
      exact List.mem_append_right _ hm
    · refine ⟨q, ?_⟩
      rw [howns]
      by_cases hq' : q = b
      · subst hq'
        rw [Function.update_self]
        exact List.mem_append_left _ hm
      · rwa [Function.update_of_ne hq', Function.update_of_ne hq]

end Owns

theorem owns_update_site (p : Process Handle ℕ) (outputs : List (Output Handle ℕ)) (x : NodeName)
    (site : Site) : (s.update n p outputs).owns (.site x site) =
      if x = n then p.owns site else (s.process x).owns site := by
  rw [owns, update_eq]
  dsimp only
  rw [Function.update_apply]
  split_ifs
  · cases site with
    | _ => rfl
  · rfl

theorem owns_update_taken (p : Process Handle ℕ) (outputs : List (Output Handle ℕ)) (x : NodeName)
    (thread : ℕ) : (s.update n p outputs).owns (.taken x thread) = s.owns (.taken x thread) := by
  rw [owns, update_eq]
  rfl

theorem owns_update_wire (p : Process Handle ℕ) (outputs : List (Output Handle ℕ)) (h : Handle) :
    (s.update n p outputs).owns (.wire h) = s.owns (.wire h) ++ written outputs h := by
  rw [owns, wire_update, List.filterMap_append]
  rfl

/-- The calls of a process go on for the same nodes. -/
def Continues (q p : Process Handle ℕ) : Prop :=
  ∀ {k m}, m ∈ p.owns (.call k) → ∀ y, (q.calls k).map Call.name = some y →
    (p.calls k).map Call.name = some y

theorem destination_update {p : Process Handle ℕ} (hcalls : Continues (s.process n) p)
    (outputs : List (Output Handle ℕ)) {a : Place} {m : ℕ}
    (hm : m ∈ (s.update n p outputs).owns a) {y : NodeName} (hy : s.destination a = some y) :
    (s.update n p outputs).destination a = some y := by
  cases a with
  | site x site =>
    cases site with
    | call k =>
      rw [owns_update_site] at hm
      rw [destination, update_eq]
      dsimp only
      rw [Function.update_apply]
      split_ifs at hm ⊢ with hx
      · subst hx
        exact hcalls hm y hy
      · exact hy
    | _ => exact hy
  | taken x thread => exact hy
  | wire h =>
    rw [destination, update_eq]
    exact hy

/-- An update at a site is one of its process. -/
theorem update_site (f : Place → List ℕ) (n : NodeName) (site : Site) (l : List ℕ) (x : NodeName)
    (site' : Site) : Function.update f (.site n site) l (.site x site') =
      if x = n then Function.update (fun site => f (.site n site)) site l site'
      else f (.site x site') := by
  rw [Function.update_apply, Function.update_apply]
  by_cases hx : x = n
  · subst hx
    rw [if_pos rfl]
    by_cases hsite : site' = site
    · rw [if_pos hsite, if_pos (congrArg _ hsite)]
    · rw [if_neg hsite, if_neg fun heq => hsite (Place.site.inj heq).2]
  · rw [if_neg hx, if_neg fun heq => hx (Place.site.inj heq).1]

/-- A process changes what it has at a site. -/
theorem owns_update {p : Process Handle ℕ} {outputs : List (Output Handle ℕ)} {a : Site}
    {l : List ℕ} (howns : p.owns = Function.update (s.process n).owns a l)
    (hwritten : ∀ h, written outputs h = []) :
    (s.update n p outputs).owns = Function.update s.owns (.site n a) l := by
  funext c
  cases c with
  | site x site =>
    rw [owns_update_site, howns, update_site]
    rfl
  | taken x thread => exact owns_update_taken p outputs x thread
  | wire h =>
    rw [owns_update_wire, hwritten, List.append_nil]
    rfl

section Update

variable {p : Process Handle ℕ} {outputs : List (Output Handle ℕ)}
  (hcalls : Continues (s.process n) p)

include hcalls

/-- A process moves no message. -/
theorem passes_update (howns : p.owns = (s.process n).owns)
    (hwritten : ∀ h, written outputs h = []) : Passes strict s (s.update n p outputs) := by
  refine passes_of_eq (by rw [update_eq]) (by rw [update_eq])
    (fun hm _ y hy => destination_update hcalls outputs hm hy) (funext fun a => ?_)
  cases a with
  | site x site =>
    rw [owns_update_site, howns]
    split_ifs with hx
    · rw [hx]
      rfl
    · rfl
  | taken x thread => exact owns_update_taken p outputs x thread
  | wire h => rw [owns_update_wire, hwritten, List.append_nil]

theorem passes_update_drop {a : Site}
    (howns : p.owns = Function.update (s.process n).owns a [])
    (hwritten : ∀ h, written outputs h = []) (hstrict : strict → (s.process n).owns a = []) :
    Passes strict s (s.update n p outputs) :=
  passes_of_drop (a := .site n a) (by rw [update_eq]) (by rw [update_eq])
    (fun hm _ y hy => destination_update hcalls outputs hm hy) (owns_update howns hwritten) hstrict

/-- A process writes messages to a channel of the node that they are for. -/
theorem passes_update_write {a : Site} {h : Handle}
    (howns : p.owns = Function.update (s.process n).owns a [])
    (hwritten : ∀ d, written outputs d = if d = h then (s.process n).owns a else [])
    (hmove : ∀ y, s.destination (.site n a) = some y → s.owner h.other = some y) :
    Passes strict s (s.update n p outputs) := by
  have hdest (y : NodeName) (hy : s.destination (.site n a) = some y) :
      (s.update n p outputs).destination (.wire h) = some y := by
    rw [destination, update_eq]
    exact hmove y hy
  refine passes_of_move (a := .site n a) (b := .wire h) (by rw [update_eq]) (by rw [update_eq])
    (fun hm _ y hy => destination_update hcalls outputs hm hy) (fun heq => by cases heq)
    (funext fun c => ?_) fun _ _ => hdest
  cases c with
  | site x site' =>
    have hne : Place.site x site' ≠ .wire h := fun heq => by cases heq
    rw [owns_update_site, howns, Function.update_of_ne hne, update_site]
    rfl
  | taken x thread => exact owns_update_taken p outputs x thread
  | wire d =>
    rw [owns_update_wire, hwritten]
    by_cases hd : d = h
    · subst hd
      rw [if_pos rfl, Function.update_self]
      rfl
    · rw [if_neg hd, List.append_nil, Function.update_of_ne fun heq => hd (Place.wire.inj heq)]
      rfl

/-- A process moves messages from one of its sites to another one. -/
theorem passes_update_move {a b : Site} (hab : a ≠ b)
    (howns : p.owns = Function.update (Function.update (s.process n).owns a []) b
      ((s.process n).owns b ++ (s.process n).owns a))
    (hwritten : ∀ h, written outputs h = [])
    (hmove : ∀ y, s.destination (.site n a) = some y →
      (s.update n p outputs).destination (.site n b) = some y) :
    Passes strict s (s.update n p outputs) := by
  refine passes_of_move (a := .site n a) (b := .site n b) (by rw [update_eq])
    (by rw [update_eq]) (fun hm _ y hy => destination_update hcalls outputs hm hy)
    (fun heq => hab (Place.site.inj heq).2) (funext fun c => ?_) fun _ _ => hmove
  cases c with
  | site x site =>
    have hsites : (fun site => Function.update s.owns (.site n a) [] (.site n site)) =
        Function.update (s.process n).owns a [] := by
      funext site
      rw [update_site, if_pos rfl]
      rfl
    rw [owns_update_site, howns, update_site, hsites, update_site]
    by_cases hx : x = n
    · rw [if_pos hx, if_pos hx]
      rfl
    · rw [if_neg hx, if_neg hx, if_neg hx]
      rfl
  | taken x thread => exact owns_update_taken p outputs x thread
  | wire h =>
    rw [owns_update_wire, hwritten, List.append_nil]
    rfl

end Update

/-! ### Tasks -/

/-- What a task does to the messages of its process: nothing, or it drops those for a node,
    or writes them to the channel of a new peer. -/
inductive Handles (spares : Prop) (c c' : NodeController Handle ℕ)
    (outputs : List (Output Handle ℕ)) : Prop
  | quiet (hpending : c'.pendingPeerMessages = c.pendingPeerMessages)
    (hwritten : ∀ h, written outputs h = [])
  | drop (name : NodeName)
    (hpending : c'.pendingPeerMessages = Function.update c.pendingPeerMessages name [])
    (hwritten : ∀ h, written outputs h = []) (hspares : spares → c.pendingPeerMessages name = [])
  | write (name : NodeName) (channel : Handle) (hpeer : c'.peers name = some channel)
    (hpending : c'.pendingPeerMessages = Function.update c.pendingPeerMessages name [])
    (hwritten : ∀ h, written outputs h = if h = channel then c.pendingPeerMessages name else [])

/-- A task loses no node, and is no introduction that fails while messages wait for it. -/
def Spares (c : NodeController Handle ℕ) (task : NodeController.Task Handle) : Prop :=
  (∀ name, (c.run task).2.2 ≠ .lostConnectionToNode name) ∧
    ∀ name, task = .onIntroduce c.parentName name none → c.pendingPeerMessages name = []

theorem written_eq_nil {outputs : List (Output Handle ℕ)}
    (ho : ∀ o ∈ outputs, ∀ h m, message o ≠ some (h, .portsMessage m)) (h : Handle) :
    written outputs h = [] := by
  refine List.filterMap_eq_nil_iff.2 fun m hm => ?_
  obtain ⟨o, hmem, hm⟩ := List.mem_filterMap.1 hm
  cases m with
  | portsMessage m => exact absurd (writtenTo_eq_some hm) (ho o hmem h m)
  | _ => rfl

theorem written_portsMessages (channel : Handle) (name : NodeName) (ms : List ℕ) (h : Handle) :
    written (ms.map (.portsMessage channel name)) h = if h = channel then ms else [] := by
  rw [written, List.filterMap_map, List.filterMap_filterMap]
  by_cases hh : h = channel
  · subst hh
    rw [if_pos rfl]
    refine (List.filterMap_congr fun m _ => ?_).trans List.filterMap_some
    simp [writtenTo, message, portsMessageOf]
  · rw [if_neg hh]
    refine List.filterMap_eq_nil_iff.2 fun m _ => ?_
    simp [writtenTo, message, Ne.symm hh]

theorem handles_addPeer {spares : Prop} (c : NodeController Handle ℕ) (name : NodeName)
    (channel : Handle) (startChannel : Bool) :
    Handles spares c (c.addPeer name channel startChannel).1
      (c.addPeer name channel startChannel).2 := by
  rcases c.addPeer_cases name channel startChannel with ⟨-, heq⟩ | ⟨-, heq⟩
  · rw [heq]
    exact .quiet rfl fun _ => rfl
  · rw [heq]
    refine .write name channel (Function.update_self _ _ _) rfl fun h => ?_
    rw [← written_portsMessages channel name]
    split_ifs
    · rfl
    · rfl

theorem Handles.of_eq {spares : Prop} {c c₁ c' : NodeController Handle ℕ}
    {outputs : List (Output Handle ℕ)} (h : Handles spares c₁ c' outputs)
    (hc : c₁.pendingPeerMessages = c.pendingPeerMessages) : Handles spares c c' outputs := by
  cases h with
  | quiet hpending hwritten => exact .quiet (hpending.trans hc) hwritten
  | drop name hpending hwritten hspares =>
    rw [hc] at hpending hspares
    exact .drop name hpending hwritten hspares
  | write name channel hpeer hpending hwritten =>
    rw [hc] at hpending hwritten
    exact .write name channel hpeer hpending hwritten

theorem incomingMessages_addPeer (c : NodeController Handle ℕ) (name : NodeName) (channel : Handle)
    (startChannel : Bool) :
    (c.addPeer name channel startChannel).1.incomingMessages = c.incomingMessages := by
  rcases c.addPeer_cases name channel startChannel with ⟨-, heq⟩ | ⟨-, heq⟩
  · rw [heq]
  · rw [heq]

theorem handles_run (c : NodeController Handle ℕ) {task : NodeController.Task Handle}
    (ht : task ≠ .dropAllPeers) : (c.run task).1.incomingMessages = c.incomingMessages ∧
      Handles (Spares c task) c (c.run task).1 (c.run task).2.1 := by
  -- The tasks that refuse what they are told drop the peer, with the messages kept for it.
  have hdrop (fromNode : NodeName) (heq : c.run task = c.dropPeer fromNode) :
      (c.run task).1.incomingMessages = c.incomingMessages ∧
        Handles (Spares c task) c (c.run task).1 (c.run task).2.1 := by
    have hlost : (c.run task).2.2 = .lostConnectionToNode fromNode := by rw [heq]; rfl
    rw [heq]
    exact ⟨rfl, .drop fromNode rfl (fun _ => rfl) fun h => absurd hlost (h.1 fromNode)⟩
  cases task with
  | connectToChild channel token =>
    exact ⟨rfl, .quiet rfl (written_eq_nil (by simp [message, NodeController.run,
      NodeController.connectToChild]))⟩
  | connectToParent channel => exact ⟨rfl, .quiet rfl fun _ => rfl⟩
  | onAcceptChild fromNode parentName token =>
    rw [NodeController.run, NodeController.onAcceptChild] at hdrop ⊢
    cases hbootstrap : c.bootstrapParentChannel with
    | none =>
      rw [hbootstrap] at hdrop
      exact hdrop fromNode rfl
    | some channel =>
      rw [hbootstrap] at hdrop
      dsimp only at hdrop ⊢
      split_ifs at hdrop ⊢
      · exact hdrop fromNode rfl
      · exact ⟨rfl, .quiet rfl (written_eq_nil (by simp [message]))⟩
  | onAcceptParent fromNode token childName =>
    rw [NodeController.run, NodeController.onAcceptParent] at hdrop ⊢
    cases hpending : c.pendingChildren fromNode with
    | none =>
      rw [hpending] at hdrop
      exact hdrop fromNode rfl
    | some channel =>
      rw [hpending] at hdrop
      dsimp only at hdrop ⊢
      split_ifs at hdrop ⊢
      · exact hdrop fromNode rfl
      · exact ⟨incomingMessages_addPeer _ childName channel false,
          (handles_addPeer _ childName channel false).of_eq rfl⟩
  | onRequestIntroduction fromNode name newChannel =>
    rcases c.onRequestIntroduction_cases fromNode name newChannel with
      heq | heq | ⟨requestor, -, heq⟩ | ⟨requestor, newFriend, -, -, -, heq⟩
    · exact hdrop fromNode heq
    · rw [NodeController.run, heq]
      exact ⟨rfl, .quiet rfl fun _ => rfl⟩
    · rw [NodeController.run, heq]
      exact ⟨rfl, .quiet rfl (written_eq_nil (by simp [message]))⟩
    · rw [NodeController.run, heq]
      exact ⟨rfl, .quiet rfl (written_eq_nil (by simp [message]))⟩
  | onIntroduce fromNode name channelHandle =>
    by_cases hparent : fromNode = c.parentName
    · subst hparent
      cases channelHandle with
      | none =>
        have heq : c.run (.onIntroduce c.parentName name none) = ({ c with
            pendingPeerMessages := Function.update c.pendingPeerMessages name [] }, [], .done) :=
          if_neg (not_not_intro rfl)
        rw [heq]
        exact ⟨rfl, .drop name rfl (fun _ => rfl) fun h => h.2 name rfl⟩
      | some channel =>
        have heq : c.run (.onIntroduce c.parentName name (some channel)) =
            ((c.addPeer name channel true).1, (c.addPeer name channel true).2, .done) :=
          if_neg (not_not_intro rfl)
        rw [heq]
        exact ⟨incomingMessages_addPeer c name channel true, handles_addPeer c name channel true⟩
    · cases channelHandle with
      | none => exact hdrop fromNode (if_pos hparent)
      | some channel => exact hdrop fromNode (if_pos hparent)
  | onChannelError fromNode => exact hdrop fromNode rfl
  | dropAllPeers => exact absurd rfl ht

theorem passes_setRemoteNodeName (s : Network α) (o : Option (Handle × NodeName)) :
    Passes strict s (s.setRemoteNodeName o) := by
  rw [setRemoteNodeName_eq]
  exact passes_of_eq rfl rfl (fun _ _ _ hy => hy) rfl

/-- The I/O thread passes messages on. -/
theorem passes_perform {spares : Prop} {p : Process Handle ℕ}
    {outputs : List (Output Handle ℕ)} (hp : s.Party n p.controller p.rest)
    (hcalls : p.calls = (s.process n).calls)
    (hincoming : p.controller.incomingMessages = (s.process n).controller.incomingMessages)
    (h : Handles spares (s.process n).controller p.controller outputs)
    (hstrict : strict → spares) : Passes strict s (s.update n p outputs) := by
  have hcontinues : Continues (s.process n) p := fun _ y hy => by rwa [hcalls]
  have hpending {name : NodeName} (hp : p.controller.pendingPeerMessages =
      Function.update (s.process n).controller.pendingPeerMessages name []) :
      p.owns = Function.update (s.process n).owns (.pendingPeerMessages name) [] := by
    funext site
    cases site with
    | incomingMessages =>
      rw [Function.update_of_ne (by simp)]
      exact hincoming
    | call m =>
      rw [Function.update_of_ne (by simp), Process.owns, hcalls]
      rfl
    | pendingPeerMessages y =>
      rw [Process.owns, hp]
      by_cases hy : y = name
      · subst hy
        rw [Function.update_self, Function.update_self]
      · rw [Function.update_of_ne hy, Function.update_of_ne (by simpa using hy)]
        rfl
  cases h with
  | quiet hquiet hwritten =>
    refine passes_update hcontinues (funext fun site => ?_) hwritten
    cases site with
    | incomingMessages => exact hincoming
    | call m => rw [Process.owns, hcalls]; rfl
    | pendingPeerMessages y => exact congrFun hquiet y
  | drop name hdrop hwritten hspares =>
    exact passes_update_drop hcontinues (hpending hdrop) hwritten fun h => hspares (hstrict h)
  | write name channel hpeer hwrite hwritten =>
    refine passes_update_write hcontinues (hpending hwrite) hwritten fun y hy => ?_
    cases hy
    exact (hp.peer hpeer).1.2

theorem passes_run (hs : s.Inv) {task : NodeController.Task Handle} (ht : s.Admits n task)
    (h : s.run n task = some s') (hstrict : strict → Spares (s.process n).controller task) :
    Passes strict s s' := by
  rw [Network.run] at h
  split_ifs at h with hdone
  cases h
  have hs₁ := hs.setRemoteNodeName (n := n) fun channel name hname => hs.names ht hname
  have hnamed {channel : Handle} {name : NodeName}
      (hname : Network.names (s.process n).controller task = some (channel, name)) :=
    remoteNodeName_setRemoteNodeName (s := s) hname
  refine (passes_setRemoteNodeName s (Network.names (s.process n).controller task)).trans ?_
  rw [setRemoteNodeName_eq] at hs₁ hnamed ⊢
  obtain ⟨hp, -⟩ := keeps_run hs₁.inv hdone ht fun _ _ => hnamed
  have hne : task ≠ .dropAllPeers := by
    rintro rfl
    exact ht
  obtain ⟨hincoming, hhandles⟩ := handles_run (s.process n).controller hne
  exact passes_perform hp rfl hincoming hhandles hstrict

/-! ### Calls -/

theorem owns_calls (q : Process Handle ℕ) (m : ℕ) (next : Option (Call Handle)) :
    Process.owns { q with calls := Function.update q.calls m next } =
      Function.update q.owns (.call m) (heldBy m next) := by
  funext site
  cases site with
  | call k =>
    rw [Process.owns]
    dsimp only
    by_cases hk : k = m
    · subst hk
      rw [Function.update_self, Function.update_self]
    · rw [Function.update_of_ne hk, Function.update_of_ne (by simpa using hk)]
      rfl
  | incomingMessages =>
    rw [Function.update_of_ne (by simp)]
    rfl
  | pendingPeerMessages name =>
    rw [Function.update_of_ne (by simp)]
    rfl

theorem owns_enqueue (q : Process Handle ℕ) (name : NodeName) (m : ℕ) {next : Option (Call Handle)}
    (hnext : heldBy m next = []) : Process.owns { q with
      controller := { q.controller with
        pendingPeerMessages := Function.update q.controller.pendingPeerMessages name
          (q.controller.pendingPeerMessages name ++ [m]) }
      calls := Function.update q.calls m next } =
    Function.update (Function.update q.owns (.call m) []) (.pendingPeerMessages name)
      (q.owns (.pendingPeerMessages name) ++ [m]) := by
  rw [← hnext, ← owns_calls]
  funext site
  cases site with
  | pendingPeerMessages y =>
    by_cases hy : y = name
    · subst hy
      rw [Function.update_self]
      exact Function.update_self _ _ _
    · rw [Function.update_of_ne (by simpa using hy)]
      exact Function.update_of_ne hy _ _
  | incomingMessages =>
    rw [Function.update_of_ne (by simp)]
    rfl
  | call k =>
    rw [Function.update_of_ne (by simp)]
    rfl

/-- A call that goes on is for the same node. -/
theorem continues_call {q p : Process Handle ℕ} {m : ℕ} {call : Call Handle}
    (hcall : q.calls m = some call) (h : Process.Continues m call q p) : Continues q p := by
  obtain ⟨next, hnext, hname⟩ := h.calls
  intro k m' hm' y hy
  rw [Process.owns, hnext] at hm'
  rw [hnext]
  by_cases hk : k = m
  · subst hk
    rw [Function.update_self] at hm' ⊢
    rw [hcall] at hy
    cases next with
    | none => cases hm'
    | some call' =>
      rw [← hy]
      exact congrArg some (hname call' rfl)
  · rwa [Function.update_of_ne hk]

theorem passes_sendPeerMessage (hs : s.Inv) {m : ℕ} {call : Call Handle}
    (hcall : (s.process n).calls m = some call) : Passes strict s
      (s.update n ((s.process n).sendPeerMessage m call)
        (outputs ((s.process n).sendPeerMessage m call).history)) := by
  have hcontinues : Continues (s.process n) ((s.process n).sendPeerMessage m call) :=
    continues_call hcall (Process.continues_sendPeerMessage _ m call)
  have hquiet (h : Handle) : written (outputs (s.process n).history) h = [] := by
    rw [hs.history n]
    rfl
  have hheld : (s.process n).owns (.call m) = heldBy m (some call) := by
    rw [Process.owns, hcall]
  have hkept {next : Option (Call Handle)} (hnext : heldBy m next = heldBy m (some call)) :
      Process.owns { s.process n with calls := Function.update (s.process n).calls m next } =
        (s.process n).owns := by
    rw [owns_calls, hnext, ← hheld, Function.update_eq_self]
  -- The message stays with the call until it is written, or queued for the peer.
  cases call with
  | getPeerChannel name =>
    rw [Process.sendPeerMessage] at hcontinues ⊢
    cases hpeer : (s.process n).controller.getPeerChannel name with
    | some peer =>
      rw [hpeer] at hcontinues
      exact passes_update hcontinues (hkept rfl) hquiet
    | none =>
      rw [hpeer] at hcontinues
      exact passes_update hcontinues (hkept rfl) hquiet
  | portsMessage name channel =>
    refine passes_update_write (a := .call m) (h := channel) hcontinues ?_ (fun d => ?_)
      fun y hy => ?_
    · exact owns_calls (s.process n) m none
    · rw [Process.sendPeerMessage, hs.history n, hheld]
      exact written_portsMessages channel name [m] d
    · rw [destination, hcall] at hy
      cases hy
      exact (hs.calls hcall).2
  | enqueue name =>
    refine passes_update_move (a := .call m) (b := .pendingPeerMessages name) hcontinues
      (by simp) ?_ hquiet fun y hy => ?_
    · rw [hheld]
      refine owns_enqueue (s.process n) name m ?_
      split_ifs
      · rfl
      · rfl
    · rw [destination, hcall] at hy
      exact hy
  | getParentName name => exact passes_update hcontinues (hkept rfl) hquiet
  | getParentChannel name parentName =>
    rw [Process.sendPeerMessage] at hcontinues ⊢
    cases hpeer : (s.process n).controller.getPeerChannel parentName with
    | some parent =>
      rw [hpeer] at hcontinues
      exact passes_update hcontinues (hkept rfl) hquiet
    | none =>
      rw [hpeer] at hcontinues
      exact passes_update hcontinues (hkept rfl) hquiet
  | requestIntroduction name channel =>
    refine passes_update hcontinues (hkept rfl) fun h => ?_
    rw [Process.sendPeerMessage, hs.history n]
    exact written_eq_nil (by simp [outputs, message]) h

/-- `AcceptIncomingMessages` takes all messages at once. -/
theorem passes_takeIncoming (s : Network α) (n : NodeName) (thread : ℕ)
    (hnil : s.taken (n, thread) = []) :
    Passes strict s ({ s with
      taken := Function.update s.taken (n, thread)
        (s.process n).controller.incomingMessages }.update n { s.process n with
          controller := { (s.process n).controller with incomingMessages := [] } } []) := by
  refine passes_of_move (a := .site n .incomingMessages) (b := .taken n thread)
    (by rw [update_eq]) (by rw [update_eq]) (fun hm _ y hy => ?_) (fun heq => by cases heq)
    (funext fun c => ?_) fun _ _ y hy => hy
  · refine destination_update ?_ [] hm hy
    exact fun _ y hy => hy
  cases c with
  | site x site =>
    have hne : Place.site x site ≠ .taken n thread := fun heq => by cases heq
    rw [owns_update_site, Function.update_of_ne hne, update_site]
    split_ifs
    · cases site with
      | incomingMessages =>
        rw [Function.update_self]
        rfl
      | call m =>
        rw [Function.update_of_ne (by simp)]
        rfl
      | pendingPeerMessages name =>
        rw [Function.update_of_ne (by simp)]
        rfl
    · rfl
  | taken x k =>
    rw [owns_update_taken]
    change Function.update s.taken (n, thread) _ (x, k) = _
    by_cases hx : (x, k) = (n, thread)
    · cases hx
      have howns : s.owns (.taken n thread) = [] := hnil
      rw [Function.update_self, Function.update_self, howns]
      rfl
    · rw [Function.update_of_ne hx, Function.update_of_ne fun heq => hx (by cases heq; rfl)]
      rfl
  | wire h =>
    rw [owns_update_wire]
    exact List.append_nil _

/-! ## Events in flight -/

/-- The system in which what is forwarded is in flight. -/
def whole (s : Network α) (L : List (ℕ × NodeName × Ports.Event α)) : System α :=
  s.system.prepend (L.map Prod.snd)

/-- The messages that are in flight are at one place at most, on the way to their node. They
    are at some place as long as none is dropped. -/
structure Transports (strict : Prop) (L : List (ℕ × NodeName × Ports.Event α)) (s : Network α) :
    Prop where
  inFlight : s.system.inFlight = []
  nodup : (L.map Prod.fst).Nodup
  message : ∀ {m x}, (m, x) ∈ L → s.messages[m]? = some x
  exclusive : Exclusive s.owns
  place : ∀ {a m}, m ∈ s.owns a → ∃ x, (m, x) ∈ L ∧ s.destination a = some x.1
  kept : strict → ∀ {m x}, (m, x) ∈ L → ∃ a, m ∈ s.owns a

variable {L : List (ℕ × NodeName × Ports.Event α)}

theorem Transports.passes (h : Transports strict L s) (hp : Passes strict s s') :
    Transports strict L s' ∧ s'.whole L = s.whole L := by
  refine ⟨⟨hp.system ▸ h.inFlight, h.nodup, fun hm => hp.messages ▸ h.message hm,
    hp.exclusive h.exclusive, fun {a m} hm => ?_, fun hstrict {m x} hm => ?_⟩, ?_⟩
  · obtain ⟨b, hb, hdest⟩ := hp.place hm
    obtain ⟨x, hx, hy⟩ := h.place hb
    exact ⟨x, hx, hdest x.1 hy⟩
  · obtain ⟨a, ha⟩ := h.kept hstrict hm
    exact hp.kept hstrict ha
  · rw [whole, hp.system]
    rfl

/-- A message that is forwarded is put at one place. -/
theorem owns_forward (hname : (s.process n).controller.name = n) (x : NodeName × Ports.Event α)
    (hnew : s.messages.length ∉ s.owns (.site n (.call s.messages.length))) :
    ∃ a, (s.forward n x).owns = Function.update s.owns a (s.owns a ++ [s.messages.length]) ∧
      (s.forward n x).destination a = some x.1 ∧ ∀ b y, s.owns b ≠ [] →
        s.destination b = some y → (s.forward n x).destination b = some y := by
  generalize hm : s.messages.length = m at hnew
  have hnil : (s.process n).owns (.call m) = [] := by
    rw [owns, Process.owns, heldBy.eq_def] at hnew
    rw [Process.owns, heldBy.eq_def]
    split at hnew
    · exact absurd List.mem_cons_self hnew
    · exact absurd List.mem_cons_self hnew
    · exact absurd List.mem_cons_self hnew
    · rfl
  -- What other places hold is on the way to the same node as before.
  have hother (p : Process Handle ℕ) (hcalls : ∀ k, (s.process n).owns (.call k) ≠ [] → ∀ y,
      ((s.process n).calls k).map Call.name = some y → (p.calls k).map Call.name = some y)
      (b : Place) (y : NodeName) (hb : s.owns b ≠ []) (hy : s.destination b = some y) :
      ({ s with messages := s.messages ++ [x] }.update n p []).destination b = some y := by
    cases b with
    | site z site =>
      cases site with
      | call k =>
        rw [destination, update_eq]
        dsimp only
        rw [Function.update_apply]
        split_ifs with hz
        · subst hz
          exact hcalls k hb y hy
        · exact hy
      | _ => exact hy
    | taken z thread => exact hy
    | wire h => exact hy
  have hforward : s.forward n x = { s with messages := s.messages ++ [x] }.update n
      ((s.process n).forwardMessage x.1 m) [] := by rw [Network.forward, hm]
  rw [hforward, Process.forwardMessage]
  split_ifs with hlocal
  · refine ⟨.site n .incomingMessages, owns_update (s := { s with messages := s.messages ++ [x] })
      (funext fun site => ?_) fun _ => rfl, ?_, fun b y hb hy => ?_⟩
    · cases site with
      | incomingMessages =>
        rw [Function.update_self]
        rfl
      | call k =>
        rw [Function.update_of_ne (by simp)]
        rfl
      | pendingPeerMessages name =>
        rw [Function.update_of_ne (by simp)]
        rfl
    · rw [hlocal, hname]
      rfl
    · refine hother _ (fun k _ y hy => ?_) b y hb hy
      exact hy
  · refine ⟨.site n (.call m), owns_update (s := { s with messages := s.messages ++ [x] })
      ?_ fun _ => rfl, ?_, fun b y hb hy => ?_⟩
    · rw [owns, hnil]
      exact owns_calls (s.process n) m (some (.getPeerChannel x.1))
    · rw [destination, update_eq]
      simp only [Function.update_self, Option.map_some, Call.name]
    · refine hother _ (fun k hk y hy => ?_) b y hb hy
      have hkm : k ≠ m := by
        rintro rfl
        exact hk hnil
      dsimp only
      rwa [Function.update_of_ne hkm]

/-- A message that is forwarded is new. -/
theorem Transports.forward (h : Transports strict L s) (hs : s.Inv)
    (x : NodeName × Ports.Event α) :
    Transports strict (L ++ [(s.messages.length, x)]) (s.forward n x) := by
  have hfresh {y : NodeName × Ports.Event α} : (s.messages.length, y) ∉ L := fun hy =>
    absurd (List.getElem?_eq_some_iff.1 (h.message hy)).1 (lt_irrefl _)
  have hnone (a : Place) : s.messages.length ∉ s.owns a := fun hm => by
    obtain ⟨y, hy, -⟩ := h.place hm
    exact hfresh hy
  -- The message is put at one place.
  obtain ⟨a, howns, hdest, hother⟩ : ∃ a, (s.forward n x).owns =
      Function.update s.owns a (s.owns a ++ [s.messages.length]) ∧
      (s.forward n x).destination a = some x.1 ∧ ∀ b y, s.owns b ≠ [] →
        s.destination b = some y → (s.forward n x).destination b = some y :=
    owns_forward (hs.party n).name x (hnone _)
  refine ⟨?_, ?_, fun {m y} hy => ?_, howns ▸ h.exclusive.push hnone, fun {b m} hm => ?_,
    fun hstrict {m y} hy => ?_⟩
  · rw [Network.forward, update_eq]
    exact h.inFlight
  · rw [List.map_append, List.nodup_append]
    refine ⟨h.nodup, List.nodup_singleton _, fun m hm m' hm' heq => ?_⟩
    obtain ⟨⟨k, y⟩, hy, rfl⟩ := List.mem_map.1 hm
    rw [List.mem_singleton.1 hm'] at heq
    dsimp only at heq
    subst heq
    exact hfresh hy
  · have hmessages : (s.forward n x).messages = s.messages ++ [x] := by
      rw [Network.forward, update_eq]
    rw [hmessages]
    rcases List.mem_append.1 hy with hy | hy
    · have hm := h.message hy
      rw [List.getElem?_append_left (List.getElem?_eq_some_iff.1 hm).1, hm]
    · cases List.mem_singleton.1 hy
      rw [List.getElem?_concat_length]
  · rw [howns] at hm
    by_cases hb : b = a
    · subst hb
      rw [Function.update_self] at hm
      rcases List.mem_append.1 hm with hm | hm
      · obtain ⟨y, hy, hby⟩ := h.place hm
        exact ⟨y, List.mem_append_left _ hy, hother b y.1 (List.ne_nil_of_mem hm) hby⟩
      · rw [List.mem_singleton.1 hm]
        exact ⟨x, List.mem_append_right _ List.mem_cons_self, hdest⟩
    · rw [Function.update_of_ne hb] at hm
      obtain ⟨y, hy, hby⟩ := h.place hm
      exact ⟨y, List.mem_append_left _ hy, hother b y.1 (List.ne_nil_of_mem hm) hby⟩
  · rw [howns]
    rcases List.mem_append.1 hy with hy | hy
    · obtain ⟨b, hb⟩ := h.kept hstrict hy
      refine ⟨b, ?_⟩
      by_cases hba : b = a
      · subst hba
        rw [Function.update_self]
        exact List.mem_append_left _ hb
      · rwa [Function.update_of_ne hba]
    · cases List.mem_singleton.1 hy
      refine ⟨a, ?_⟩
      rw [Function.update_self]
      exact List.mem_append_right _ List.mem_cons_self

theorem Transports.handOver (h : Transports strict L s) (hs : s.Inv) (t : System α) :
    ∃ L', Transports strict L' (s.handOver n t) ∧
      (s.handOver n t).whole L' = t.prepend (L.map Prod.snd) := by
  have hforward (xs : List (NodeName × Ports.Event α)) {s : Network α}
      {L : List (ℕ × NodeName × Ports.Event α)} (h : Transports strict L s) (hs : s.Inv) :
      ∃ L', Transports strict L' (xs.foldl (Network.forward n) s) ∧
        (xs.foldl (Network.forward n) s).system = s.system ∧
          L'.map Prod.snd = L.map Prod.snd ++ xs := by
    induction xs generalizing s L with
    | nil => exact ⟨L, h, rfl, (List.append_nil _).symm⟩
    | cons x xs ih =>
      obtain ⟨L', h', hsystem, hL'⟩ := ih (h.forward hs x) (hs.forward x).inv
      refine ⟨L', h', hsystem.trans (by rw [Network.forward, update_eq]), hL'.trans ?_⟩
      rw [List.map_append, List.append_assoc]
      rfl
  have h₁ : Transports strict L { s with system := { t with inFlight := [] } } :=
    ⟨rfl, h.nodup, h.message, h.exclusive, h.place, h.kept⟩
  have hs₁ : s.Advances n { s with system := { t with inFlight := [] } } :=
    hs.of_eq rfl rfl rfl (fun _ => List.suffix_rfl) fun _ _ => List.prefix_rfl
  obtain ⟨L', h', hsystem, hL'⟩ := hforward t.inFlight h₁ hs₁.inv
  refine ⟨L', h', ?_⟩
  rw [whole, Network.handOver, hsystem, hL']
  simp only [System.prepend, List.append_nil]

/-- The first message at a place is taken from it, to be accepted. -/
theorem Transports.pop (h : Transports strict L s) {a : Place} {m : ℕ} {l : List ℕ}
    (ha : s.owns a = m :: l) (hsystem : s'.system = s.system) (hmessages : s'.messages = s.messages)
    (howns : s'.owns = Function.update s.owns a l)
    (hdest : ∀ b, s'.destination b = s.destination b) :
    ∃ i x, L[i]? = some (m, x) ∧ s.messages[m]? = some x ∧ s.destination a = some x.1 ∧
      Transports strict (L.eraseIdx i) s' := by
  obtain ⟨x, hx, hax⟩ := h.place (ha ▸ List.mem_cons_self)
  obtain ⟨i, hi⟩ := List.mem_iff_getElem?.1 hx
  obtain ⟨hexclusive, hnone⟩ := h.exclusive.pop ha
  -- There is one event for the message.
  have hmem {m' : ℕ} {x' : NodeName × Ports.Event α} :
      (m', x') ∈ L.eraseIdx i ↔ (m', x') ∈ L ∧ m' ≠ m := by
    rw [List.mem_eraseIdx_iff_getElem?]
    constructor
    · rintro ⟨j, hj, hj'⟩
      refine ⟨List.mem_of_getElem? hj', fun hm => hj ?_⟩
      have hlt : j < (L.map Prod.fst).length := by
        rw [List.length_map]
        exact (List.getElem?_eq_some_iff.1 hj').1
      refine (List.getElem?_inj hlt h.nodup).1 ?_
      rw [List.getElem?_map, List.getElem?_map, hi, hj', hm]
      rfl
    · rintro ⟨hx', hm⟩
      obtain ⟨j, hj⟩ := List.mem_iff_getElem?.1 hx'
      refine ⟨j, ?_, hj⟩
      rintro rfl
      cases hi.symm.trans hj
      exact hm rfl
  refine ⟨i, x, hi, h.message hx, hax, ⟨hsystem ▸ h.inFlight, ?_, ?_, howns ▸ hexclusive, ?_, ?_⟩⟩
  · rw [← List.eraseIdx_map]
    exact h.nodup.eraseIdx i
  · intro m' x' hx'
    rw [hmessages]
    exact h.message (hmem.1 hx').1
  · intro b m' hm'
    rw [howns] at hm'
    have hne : m' ≠ m := by
      rintro rfl
      exact hnone b hm'
    have hb : m' ∈ s.owns b := by
      by_cases hba : b = a
      · subst hba
        rw [Function.update_self] at hm'
        exact ha ▸ List.mem_cons_of_mem m hm'
      · rwa [Function.update_of_ne hba] at hm'
    obtain ⟨x', hx', hbx⟩ := h.place hb
    exact ⟨x', hmem.2 ⟨hx', hne⟩, (hdest b).trans hbx⟩
  · intro hstrict m' x' hx'
    obtain ⟨hx', hne⟩ := hmem.1 hx'
    obtain ⟨b, hb⟩ := h.kept hstrict hx'
    refine ⟨b, ?_⟩
    rw [howns]
    by_cases hba : b = a
    · subst hba
      rw [ha] at hb
      rw [Function.update_self]
      exact (List.mem_cons.1 hb).resolve_left hne
    · rwa [Function.update_of_ne hba]

theorem whole_acceptMessage (s : Network α) {i m : ℕ} {event : Ports.Event α}
    (hflight : s.system.inFlight = []) (hoops : s.system.oops = [])
    (hi : L[i]? = some (m, n, event)) : (s.whole L).step (.acceptMessage i) =
      some ((s.system.deliver n event).prepend ((L.eraseIdx i).map Prod.snd)) := by
  have hL : (s.whole L).inFlight = L.map Prod.snd := by
    rw [whole, System.prepend, hflight, List.append_nil]
  have hevent : (L.map Prod.snd)[i]? = some (n, event) := by
    rw [List.getElem?_map, hi]
    rfl
  have herase : { s.whole L with inFlight := (L.map Prod.snd).eraseIdx i } =
      s.system.prepend ((L.eraseIdx i).map Prod.snd) := by
    rw [List.eraseIdx_map, System.prepend, hflight, List.append_nil]
    rfl
  have hoops' : (s.whole L).oops = [] := hoops
  rw [System.step_acceptMessage hoops' (hL ▸ hevent), hL, herase, System.deliver_prepend]

/-- A message that is taken from its place is accepted by the node that it is for. -/
theorem Transports.accept {s₁ : Network α} (h : Transports strict L s) {a : Place} {m : ℕ}
    {l : List ℕ} (ha : s.owns a = m :: l) (hn : s.destination a = some n) (hs₁ : s₁.Inv)
    (hsystem : s₁.system = s.system) (hmessages : s₁.messages = s.messages)
    (howns : s₁.owns = Function.update s.owns a l)
    (hdest : ∀ b, s₁.destination b = s.destination b) (haccept : s₁.accept n m = some s') :
    ∃ L' i, Transports strict L' s' ∧
      (s.whole L).step (.acceptMessage i) = some (s'.whole L') := by
  obtain ⟨i, ⟨y, event⟩, hi, hm, hy, h₁⟩ := h.pop ha hsystem hmessages howns hdest
  cases hn.symm.trans hy
  rw [Network.accept, hmessages, hm] at haccept
  dsimp only at haccept
  split_ifs at haccept with hoops
  cases haccept
  obtain ⟨L', h', hwhole⟩ := h₁.handOver (n := y) hs₁ (s₁.system.deliver y event)
  refine ⟨L', i, h', ?_⟩
  rw [hsystem] at hoops
  rw [hwhole, hsystem]
  exact whole_acceptMessage s h.inFlight (not_not.1 hoops) hi

/-- Nothing is dropped: no connection is lost, and no introduction fails while messages wait
    for it. -/
def Lossless (s : Network α) (i : Input α) : Prop :=
  (match s.step i, i.process with
    | some s', some n => match (s'.process n).rest with
      | .lostConnectionToNode _ => False
      | _ => True
    | _, _ => True) ∧
  match i with
  | .receive n h => match s.wire h.other with
    | .introduce name none :: _ => (s.process n).controller.pendingPeerMessages name = []
    | _ => True
  | .resume n => match (s.process n).rest with
    | .lostConnectionToNode _ => False
    | _ => True
  | _ => True

/-- The embedder makes calls on ports it holds. -/
def Honest (s : Network α) (i : Input α) : Prop :=
  s.Sound i ∧ match i with
    | .call a => s.system.Honest a
    | _ => True

theorem Lossless.rest {i : Input α} (h : s.Lossless i) (hs : s.step i = some s')
    (hn : i.process = some n) (name : NodeName) :
    (s'.process n).rest ≠ .lostConnectionToNode name := by
  intro hrest
  have hlost := h.1
  rw [hs, hn] at hlost
  dsimp only at hlost
  rw [hrest] at hlost
  exact hlost

/-- What a step of a network is for the system: a step, or none. -/
structure Simulates (strict : Prop) (L : List (ℕ × NodeName × Ports.Event α)) (s s' : Network α)
    (L' : List (ℕ × NodeName × Ports.Event α)) : Prop where
  transports : Transports strict L' s'
  step : s'.whole L' = s.whole L ∨ ∃ a, (s.whole L).Lossy a ∧ (strict → (s.whole L).Honest a) ∧
    (s.whole L).step a = some (s'.whole L')

theorem Transports.simulates_passes (h : Transports strict L s) (hp : Passes strict s s') :
    Simulates strict L s s' L := by
  obtain ⟨h', hwhole⟩ := h.passes hp
  exact ⟨h', .inl hwhole⟩

theorem Transports.simulates_accept {s₁ : Network α} (h : Transports strict L s) {a : Place}
    {m : ℕ} {l : List ℕ} (ha : s.owns a = m :: l) (hn : s.destination a = some n) (hs₁ : s₁.Inv)
    (hsystem : s₁.system = s.system) (hmessages : s₁.messages = s.messages)
    (howns : s₁.owns = Function.update s.owns a l)
    (hdest : ∀ b, s₁.destination b = s.destination b) (haccept : s₁.accept n m = some s') :
    ∃ L', Simulates strict L s s' L' := by
  obtain ⟨L', i, h', hstep⟩ := h.accept ha hn hs₁ hsystem hmessages howns hdest haccept
  exact ⟨L', h', .inr ⟨.acceptMessage i, trivial, fun _ => trivial, hstep⟩⟩

/-- A call of the embedder. -/
theorem Transports.simulates_call (h : Transports strict L s) (hs : s.Inv) {a : Action α}
    (hn : caller a = some n) (hhonest : s.system.Honest a) {t : System α}
    (ht : s.system.step a = some t) : ∃ L', Simulates strict L s (s.handOver n t) L' := by
  obtain ⟨L', h', hwhole⟩ := h.handOver hs t
  have hne : ∀ i, a ≠ .acceptMessage i := by
    rintro i rfl
    cases hn
  have hhonest' : (s.whole L).Honest a := by
    cases a with
    | _ => exact hhonest
  refine ⟨L', h', .inr ⟨a, System.lossy_of_honest hhonest', fun _ => hhonest', ?_⟩⟩
  rw [whole, System.step_prepend _ _ hne, ht, hwhole]
  rfl

/-- The loss of a node is reported. -/
theorem Transports.simulates_lost (h : Transports strict L s) (hs : s.Inv) (hstrict : ¬strict)
    {name : NodeName} {t : System α}
    (ht : s.system.step (.lostConnectionToNode n name) = some t) :
    ∃ L', Simulates strict L s (s.handOver n t) L' := by
  obtain ⟨L', h', hwhole⟩ := h.handOver hs t
  refine ⟨L', h', .inr ⟨.lostConnectionToNode n name, trivial, fun h => absurd h hstrict, ?_⟩⟩
  rw [whole, System.step_prepend _ _ fun i heq => (by cases heq), ht, hwhole]
  rfl

/-! ## Steps -/

theorem passes_addPair (s : Network α) (server client : NodeName) (token : Option NodeName) :
    Passes strict s (s.addPair server client token) := by
  refine passes_of_eq rfl rfl (fun {a m} _ _ y hy => ?_) rfl
  cases a with
  | wire h => exact owner_of_pairs (List.prefix_append _ _) hy
  | site x site =>
    cases site with
    | _ => exact hy
  | taken x thread => exact hy

theorem rest_run {task : NodeController.Task Handle} (h : s.run n task = some s') :
    (s'.process n).rest = ((s.process n).controller.run task).2.2 := by
  rw [Network.run] at h
  split_ifs at h
  cases h
  rw [update_eq]
  simp only [Function.update_self]

/-- The task loses no node, if none is about to be reported after it. -/
theorem spares_of_run {task : NodeController.Task Handle} (h : s.run n task = some s')
    (hrest : ∀ name, (s'.process n).rest ≠ .lostConnectionToNode name)
    (hintroduce : ∀ name, task = .onIntroduce (s.process n).controller.parentName name none →
      (s.process n).controller.pendingPeerMessages name = []) :
    Spares (s.process n).controller task :=
  ⟨fun name => rest_run h ▸ hrest name, hintroduce⟩

/-- Messages between controllers carry no events of nodes. -/
theorem passes_onChannelMessage (hs : s.Inv) {h : Handle} (hh : s.Uses n h)
    {m : NodeMessage Handle ℕ} (hm : s.Truthful h.other m)
    (hstep : s.onChannelMessage n h m = some s') (hne : ∀ m', m ≠ .portsMessage m')
    (hrest : strict → ∀ name, (s'.process n).rest ≠ .lostConnectionToNode name)
    (hintroduce : strict → ∀ name, m = .introduce name none →
      (s.process n).controller.pendingPeerMessages name = []) : Passes strict s s' := by
  cases m with
  | acceptChild parentName token =>
    exact passes_run hs (hs.admits_onAcceptChild hh hm) hstep fun h =>
      spares_of_run hstep (hrest h) fun name heq => by cases heq
  | acceptParent token childName =>
    exact passes_run hs (hs.admits_onAcceptParent hm) hstep fun h =>
      spares_of_run hstep (hrest h) fun name heq => by cases heq
  | portsMessage m => exact absurd rfl (hne m)
  | requestIntroduction name =>
    have hs₁ : s.Advances n (s.addPair (s.remoteNodeName h) name none) :=
      hs.addPair fun t ht => by cases ht
    refine (passes_addPair s (s.remoteNodeName h) name none).trans ?_
    exact passes_run hs₁.inv (admits_onRequestIntroduction s _ name) hstep fun h =>
      spares_of_run hstep (hrest h) fun name heq => by cases heq
  | introduce name handle =>
    refine passes_run hs (hs.admits_onIntroduce hh hm) hstep fun h =>
      spares_of_run hstep (hrest h) fun name heq => hintroduce h name ?_
    obtain ⟨-, rfl, rfl⟩ := NodeController.Task.onIntroduce.inj heq
    rfl
  | requestPortConnection portName token => cases hstep
  | connectToPort token connecteePortName => cases hstep

/-- What is read from a channel is not on its way any more. -/
theorem owns_receive (s : Network α) (h : Handle) (ms : List (NodeMessage Handle ℕ)) :
    owns { s with wire := Function.update s.wire h ms } =
      Function.update s.owns (.wire h) (ms.filterMap portsMessageOf) := by
  funext a
  cases a with
  | wire d =>
    change (Function.update s.wire h ms d).filterMap portsMessageOf = _
    by_cases hd : d = h
    · subst hd
      rw [Function.update_self, Function.update_self]
    · rw [Function.update_of_ne hd, Function.update_of_ne fun heq => hd (Place.wire.inj heq)]
      rfl
  | site x site =>
    rw [Function.update_of_ne (by simp)]
    rfl
  | taken x thread =>
    rw [Function.update_of_ne (by simp)]
    rfl

/-- A message is read from a channel. An event is accepted, and other messages carry none. -/
theorem Transports.simulates_receive (h : Transports strict L s) (hs : s.Inv) {d : Handle}
    (hd : s.Uses n d) {m : NodeMessage Handle ℕ} {ms : List (NodeMessage Handle ℕ)}
    (hms : s.wire d.other = m :: ms)
    (hstep : { s with wire := Function.update s.wire d.other ms }.onChannelMessage n d m = some s')
    (hrest : strict → ∀ name, (s'.process n).rest ≠ .lostConnectionToNode name)
    (hintroduce : strict → ∀ name, m = .introduce name none →
      (s.process n).controller.pendingPeerMessages name = []) :
    ∃ L', Simulates strict L s s' L' := by
  have hm := hs.wire d.other m (hms ▸ List.mem_cons_self)
  have hs₁ : s.Advances n { s with wire := Function.update s.wire d.other ms } :=
    hs.receive (hs.owner_of_uses hd) hms
  have hdest (a : Place) :
      { s with wire := Function.update s.wire d.other ms }.destination a = s.destination a := by
    cases a with
    | site x site =>
      cases site with
      | _ => rfl
    | _ => rfl
  by_cases hports : ∃ k, m = .portsMessage k
  · obtain ⟨k, rfl⟩ := hports
    rw [Network.onChannelMessage] at hstep
    split_ifs at hstep
    refine h.simulates_accept (a := .wire d.other) (m := k) ?_ ?_ hs₁.inv rfl rfl
      (owns_receive s d.other ms) hdest hstep
    · rw [owns, hms]
      rfl
    · rw [destination, Handle.other_other]
      exact hs.owner_of_uses hd
  · have hne : ∀ k, m ≠ .portsMessage k := fun k hk => hports ⟨k, hk⟩
    have howns : owns { s with wire := Function.update s.wire d.other ms } = s.owns := by
      have hwire : s.owns (.wire d.other) = ms.filterMap portsMessageOf := by
        rw [owns, hms]
        cases m with
        | portsMessage k => exact absurd rfl (hne k)
        | _ => rfl
      rw [owns_receive, ← hwire, Function.update_eq_self]
    have hread : Passes strict s { s with wire := Function.update s.wire d.other ms } :=
      passes_of_eq rfl rfl (fun {a k} _ _ y hy => (hdest a).trans hy) howns
    exact ⟨L, h.simulates_passes
      (hread.trans (passes_onChannelMessage hs₁.inv hd hm hstep hne hrest hintroduce))⟩

/-- A message of a thread is accepted. -/
theorem Transports.simulates_acceptTaken (h : Transports strict L s) (hs : s.Inv) {thread m : ℕ}
    {ms : List ℕ} (hms : s.taken (n, thread) = m :: ms)
    (hstep : { s with taken := Function.update s.taken (n, thread) ms }.accept n m = some s') :
    ∃ L', Simulates strict L s s' L' := by
  have hs₁ : s.Advances n { s with taken := Function.update s.taken (n, thread) ms } :=
    hs.of_eq rfl rfl rfl (fun _ => List.suffix_rfl) fun _ _ => List.prefix_rfl
  refine h.simulates_accept (a := .taken n thread) hms rfl hs₁.inv rfl rfl (funext fun a => ?_)
    (fun a => ?_) hstep
  · cases a with
    | taken x k =>
      change Function.update s.taken (n, thread) ms (x, k) = _
      by_cases hx : (x, k) = (n, thread)
      · cases hx
        rw [Function.update_self, Function.update_self]
      · rw [Function.update_of_ne hx, Function.update_of_ne fun heq => hx (by cases heq; rfl)]
        rfl
    | site x site =>
      rw [Function.update_of_ne (by simp)]
      rfl
    | wire h =>
      rw [Function.update_of_ne (by simp)]
      rfl
  · cases a with
    | site x site =>
      cases site with
      | _ => rfl
    | _ => rfl

/-- The I/O thread goes on with a task: it adds a peer, or reports that a node is lost. -/
theorem Transports.simulates_resume (h : Transports strict L s) (hs : s.Inv)
    (hstrict : strict → s.Lossless (.resume n)) (hstep : s.step (.resume n) = some s') :
    ∃ L', Simulates strict L s s' L' := by
  rw [Network.step] at hstep
  have hc := hs.party n
  cases hrest : (s.process n).rest with
  | done =>
    rw [hrest] at hstep
    cases hstep
  | addPeer name channel =>
    rw [hrest] at hstep hc
    cases hstep
    obtain ⟨hjoins, hparent⟩ := hc.rest rfl
    refine ⟨L, h.simulates_passes ((passes_setRemoteNodeName s (some (channel, name))).trans ?_)⟩
    have hs₁ := hs.setRemoteNodeName_of_joins hjoins
    refine passes_perform ?_ rfl
      (incomingMessages_addPeer _ name channel false) (handles_addPeer _ name channel false)
      fun _ => trivial
    exact (hs₁.inv.party n).addPeer hjoins (Function.update_self _ _ _) (fun _ _ => hparent)
      false
  | lostConnectionToNode name =>
    rw [hrest] at hstep hc
    obtain ⟨t, ht, rfl⟩ := Option.map_eq_some_iff.1 hstep
    -- The node is told of the loss, which drops events, unless the run is to drop none.
    have hlost : ¬strict := fun h => by
      have hlossless := (hstrict h).2
      dsimp only at hlossless
      rw [hrest] at hlossless
      exact hlossless
    have hs₁ : s.Advances n (s.update n { s.process n with rest := .done } []) := by
      refine hs.update ?_ ?_ proper_nil
      · exact { hc with rest := fun hr => by cases hr }
      · exact hs.calls
    have hdone : Passes strict s (s.update n { s.process n with rest := .done } []) := by
      refine passes_update ?_ rfl fun _ => rfl
      exact fun _ y hy => hy
    obtain ⟨h₁, hwhole⟩ := h.passes hdone
    have hsystem : (s.update n { s.process n with rest := .done } []).system = s.system := by
      rw [update_eq]
    rw [← hsystem] at ht
    obtain ⟨L', h', hstep⟩ := h₁.simulates_lost hs₁.inv hlost ht
    rw [hwhole] at hstep
    exact ⟨L', h', hstep⟩

/-- A step of a network is a step of the system, or none. -/
theorem Transports.step (h : Transports strict L s) (hs : s.Inv) {i : Input α}
    (hG : s.Honest i) (hstrict : strict → s.Lossless i) (hstep : s.step i = some s') :
    ∃ L', Simulates strict L s s' L' := by
  obtain ⟨hG, hhonest⟩ := hG
  have hstep' := hstep
  cases i with
  | call a =>
    obtain ⟨n, hn, hstep⟩ := Option.bind_eq_some_iff.1 hstep
    obtain ⟨t, ht, rfl⟩ := Option.map_eq_some_iff.1 hstep
    exact h.simulates_call hs hn hhonest ht
  | takeIncoming n thread =>
    rw [Network.step] at hstep
    split_ifs at hstep with hnil
    cases hstep
    exact ⟨L, h.simulates_passes (passes_takeIncoming s n thread hnil)⟩
  | acceptTaken n thread =>
    rw [Network.step] at hstep
    split at hstep
    · cases hstep
    · rename_i m ms hms
      exact h.simulates_acceptTaken hs hms hstep
  | sendPeerMessage n m =>
    obtain ⟨call, hcall, rfl⟩ := Option.map_eq_some_iff.1 hstep
    exact ⟨L, h.simulates_passes (passes_sendPeerMessage hs hcall)⟩
  | connectToChild n child token =>
    have hs₁ := hs.addPair_child hG
    refine ⟨L, h.simulates_passes ((passes_addPair s n child (some token)).trans ?_)⟩
    exact passes_run hs₁.inv (hs.admits_connectToChild child token) hstep fun h =>
      spares_of_run hstep ((hstrict h).rest hstep' rfl) fun name heq => by cases heq
  | connectToParent n d =>
    obtain ⟨hclient, howner, htoken, -⟩ := hG
    have ht : s.Admits n (.connectToParent d) := ⟨hclient, howner, htoken⟩
    exact ⟨L, h.simulates_passes (passes_run hs ht hstep fun h =>
      spares_of_run hstep ((hstrict h).rest hstep' rfl) fun name heq => by cases heq)⟩
  | receive n d =>
    rw [Network.step] at hstep
    split_ifs at hstep with hd
    split at hstep
    · cases hstep
    · rename_i m ms hms
      refine h.simulates_receive hs hd hms hstep (fun h => (hstrict h).rest hstep' rfl)
        fun h name hname => ?_
      have hlossless := (hstrict h).2
      dsimp only at hlossless
      rw [hms, hname] at hlossless
      exact hlossless
  | channelError n d =>
    rw [Network.step] at hstep
    split_ifs at hstep with hd
    have ht : s.Admits n (.onChannelError (s.remoteNodeName d)) := trivial
    exact ⟨L, h.simulates_passes (passes_run hs ht hstep fun h =>
      spares_of_run hstep ((hstrict h).rest hstep' rfl) fun name heq => by cases heq)⟩
  | resume n => exact h.simulates_resume hs hstrict hstep

theorem transports_init : Transports strict [] (machine α).init where
  inFlight := rfl
  nodup := List.nodup_nil
  message h := by cases h
  exclusive := by
    have hnil : (machine α).init.owns = fun _ => [] := by
      funext a
      cases a with
      | site n site =>
        cases site with
        | _ => rfl
      | _ => rfl
    rw [hnil]
    exact .nil
  place {a m} hm := by
    cases a with
    | site n site =>
      cases site with
      | _ => cases hm
    | _ => cases hm
  kept _ {m x} h := by cases h

/-- The runs of a network are runs of the system. -/
theorem transports_of_reachable {G : Network α → Input α → Prop}
    (hG : ∀ {s i}, G s i → s.Honest i ∧ (strict → s.Lossless i)) (hs : (machine α).Reachable G s) :
    s.Inv ∧ ∃ L, Transports strict L s ∧
      System.Reachable (fun t a => t.Lossy a ∧ (strict → t.Honest a)) (s.whole L) := by
  induction hs with
  | init => exact ⟨inv_init, [], transports_init, .init⟩
  | step _ hi h ih =>
    obtain ⟨hinv, L, ht, hreach⟩ := ih
    obtain ⟨hhonest, hstrict⟩ := hG hi
    obtain ⟨n, -, hadvances⟩ := hinv.step hhonest.1 h
    obtain ⟨L', ht', hstep⟩ := ht.step hinv hhonest hstrict h
    refine ⟨hadvances.inv, L', ht', ?_⟩
    rcases hstep with heq | ⟨a, hlossy, hhonest', hstep⟩
    · rw [heq]
      exact hreach
    · exact hreach.step ⟨hlossy, hhonest'⟩ hstep

/-- A step sends one message from a port at most. -/
theorem length_sent_step
    (hs : (machine α).Reachable (fun s i => s.Honest i ∧ s.Lossless i) s) {i : Input α}
    (hi : s.Honest i ∧ s.Lossless i) (h : s.step i = some s') (e : Ports.End) :
    (s'.system.sent e).length ≤ (s.system.sent e).length + 1 := by
  have hG {s : Network α} {i : Input α} (h : s.Honest i ∧ s.Lossless i) :
      s.Honest i ∧ (True → s.Lossless i) := ⟨h.1, fun _ => h.2⟩
  obtain ⟨hinv, L, ht, -⟩ := transports_of_reachable hG hs
  obtain ⟨L', -, hstep⟩ := ht.step hinv hi.1 (fun _ => hi.2) h
  have hsent (s : Network α) (L : List (ℕ × NodeName × Ports.Event α)) :
      s.system.sent = (s.whole L).sent := rfl
  rw [hsent s L, hsent s' L']
  rcases hstep with heq | ⟨a, -, -, hstep⟩
  · rw [heq]
    exact Nat.le_succ _
  · exact System.length_sent_step hstep e

instance (s : Network α) (i : Input α) : Decidable (s.Honest i) := by
  unfold Honest
  cases i with
  | call a => exact inferInstanceAs (Decidable (_ ∧ s.system.Honest a))
  | _ => exact inferInstanceAs (Decidable (_ ∧ True))

instance (s : Network α) (i : Input α) : Decidable (s.Lossless i) := by
  refine @instDecidableAnd _ _ ?_ ?_
  · split
    · split
      · infer_instance
      · infer_instance
    · infer_instance
  · split
    · split
      · infer_instance
      · infer_instance
    · split
      · infer_instance
      · infer_instance
    · infer_instance

/-! ## Results -/

/-- What is forwarded by the nodes of a network is in flight in a system that has the same
    nodes, and that is reached by the same calls of the embedder, by accepted events, and by
    losses that are reported. An event that some controller, call, thread or channel still
    has is in flight, nothing else has it, and it is on the way to its node. -/
theorem refines_system (hs : (machine α).Reachable Honest s) :
    ∃ L : List (ℕ × NodeName × Ports.Event α),
      System.Reachable System.Lossy { s.system with inFlight := L.map Prod.snd } ∧
      (L.map Prod.fst).Nodup ∧ Exclusive s.owns ∧
      (∀ m x, (m, x) ∈ L → s.messages[m]? = some x) ∧
      ∀ a m, m ∈ s.owns a → ∃ x, (m, x) ∈ L ∧ s.destination a = some x.1 := by
  have hG {s : Network α} {i : Input α} (h : s.Honest i) :
      s.Honest i ∧ (False → s.Lossless i) := ⟨h, False.elim⟩
  obtain ⟨-, L, ht, hreach⟩ := transports_of_reachable hG hs
  refine ⟨L, ?_, ht.nodup, ht.exclusive, fun m x => ht.message, fun a m => ht.place⟩
  have hwhole : s.whole L = { s.system with inFlight := L.map Prod.snd } := by
    rw [whole, System.prepend, ht.inFlight, List.append_nil]
  rw [← hwhole]
  exact hreach.mono fun t a h => h.1

/-- The message that `2` has sent to `3` was written to the channel that leads to it. -/
theorem refines_system_introduction : ∃ s x, (machine ℕ).Reachable Honest s ∧
    0 ∈ s.owns (.wire ⟨2, true⟩) ∧ s.destination (.wire ⟨2, true⟩) = some x.1 ∧ x.1 = 3 ∧
      ∃ t : System ℕ, System.Reachable System.Lossy t ∧ x ∈ t.inFlight := by
  obtain ⟨s, hs, h0, hmessages⟩ := Machine.exists_reachable (M := machine ℕ) (G := Honest)
    (P := fun s => 0 ∈ s.owns (.wire ⟨2, true⟩) ∧ s.messages.map Prod.fst = [3])
    introduction.dropLast (by decide +kernel)
  obtain ⟨L, hL, -, -, hmessage, hplace⟩ := refines_system hs
  obtain ⟨x, hx, hdest⟩ := hplace _ _ h0
  have h3 : x.1 ∈ s.messages.map Prod.fst :=
    List.mem_map_of_mem (List.mem_of_getElem? (hmessage 0 x hx))
  rw [hmessages] at h3
  exact ⟨s, x, hs, h0, hdest, List.mem_singleton.1 h3, _, hL, List.mem_map_of_mem hx⟩

/-- Where a message of a pipe may be: returned, in the queue of a port, or an event at a place
    of the network. -/
inductive Spot
  | returned (i : ℕ)
  | queued (n : NodeName) (p : Ports.PortName) (i : ℕ)
  | event (a : Place) (m : ℕ)

/-- The message in an event, if it is for an end. -/
def userMessage (s : Network α) (e : Ports.End) : NodeName × Ports.Event α → Option (UInt64 × α)
  | (_, .user m) => if s.system.endOf m.portName = e then some (m.sequenceNum, m.payload) else none
  | _ => none

/-- The message to an end that is at a spot, if there is one. -/
def messageAt (s : Network α) (e : Ports.End) : Spot → Option (UInt64 × α)
  | .returned i => s.system.messageAt e (.returned i)
  | .queued n p i => s.system.messageAt e (.queued n p i)
  | .event a m => if m ∈ s.owns a then s.messages[m]?.bind (s.userMessage e) else none

theorem Transports.inFlight_whole (h : Transports strict L s) :
    (s.whole L).inFlight = L.map Prod.snd := by
  rw [whole, System.prepend, h.inFlight, List.append_nil]

theorem messageAt_flight (h : Transports strict L s) (e : Ports.End) (i : ℕ) :
    (s.whole L).messageAt e (.flight i) = L[i]?.bind fun y => s.userMessage e y.2 := by
  rw [System.messageAt, h.inFlight_whole, List.getElem?_map]
  cases L[i]? with
  | none => rfl
  | some y =>
    obtain ⟨m, n, event⟩ := y
    cases event with
    | _ => rfl

/-- An event that is at a place is in flight, once. -/
theorem Transports.exists_flight (h : Transports strict L s) {e : Ports.End} {a : Place} {m : ℕ}
    {v : UInt64 × α} (hv : s.messageAt e (.event a m) = some v) :
    ∃ i x, L[i]? = some (m, x) ∧ m ∈ s.owns a ∧ (s.whole L).messageAt e (.flight i) = some v := by
  rw [messageAt] at hv
  split_ifs at hv with ha
  obtain ⟨x, hx, -⟩ := h.place ha
  obtain ⟨i, hi⟩ := List.mem_iff_getElem?.1 hx
  refine ⟨i, x, hi, ha, ?_⟩
  rw [messageAt_flight h, hi]
  rw [h.message hx] at hv
  exact hv

/-- What is in flight is at a place, as long as nothing is dropped. -/
theorem Transports.exists_event (h : Transports True L s) {e : Ports.End} {i : ℕ} {v : UInt64 × α}
    (hv : (s.whole L).messageAt e (.flight i) = some v) :
    ∃ a m, s.messageAt e (.event a m) = some v := by
  rw [messageAt_flight h] at hv
  obtain ⟨⟨m, x⟩, hi, hv⟩ := Option.bind_eq_some_iff.1 hv
  have hx := List.mem_of_getElem? hi
  obtain ⟨a, ha⟩ := h.kept trivial hx
  refine ⟨a, m, ?_⟩
  rw [messageAt, if_pos ha, h.message hx]
  exact hv

/-- Where a message is in the system. -/
theorem Transports.exists_spot (h : Transports strict L s) {e : Ports.End} {σ : Spot}
    {v : UInt64 × α} (hv : s.messageAt e σ = some v) : ∃ τ, (s.whole L).messageAt e τ = some v := by
  cases σ with
  | returned i => exact ⟨.returned i, hv⟩
  | queued n p i => exact ⟨.queued n p i, hv⟩
  | event a m =>
    obtain ⟨i, x, -, -, hv⟩ := h.exists_flight hv
    exact ⟨.flight i, hv⟩

/-- Different spots are different in the system. -/
theorem Transports.spot_unique (h : Transports strict L s) {e : Ports.End} {v : UInt64 × α}
    (hunique : ∀ {τ₁ τ₂}, (s.whole L).messageAt e τ₁ = some v →
      (s.whole L).messageAt e τ₂ = some v → τ₁ = τ₂) {σ₁ σ₂ : Spot}
    (h₁ : s.messageAt e σ₁ = some v) (h₂ : s.messageAt e σ₂ = some v) : σ₁ = σ₂ := by
  have hreturned {i : ℕ} (hi : s.messageAt e (.returned i) = some v) :
      (s.whole L).messageAt e (.returned i) = some v := hi
  have hqueued {n : NodeName} {p : Ports.PortName} {i : ℕ}
      (hi : s.messageAt e (.queued n p i) = some v) :
      (s.whole L).messageAt e (.queued n p i) = some v := hi
  cases σ₁ with
  | returned i =>
    cases σ₂ with
    | returned j => cases hunique (hreturned h₁) (hreturned h₂); rfl
    | queued n p j => cases hunique (hreturned h₁) (hqueued h₂)
    | event a m =>
      obtain ⟨j, x, -, -, h₂⟩ := h.exists_flight h₂
      cases hunique (hreturned h₁) h₂
  | queued n p i =>
    cases σ₂ with
    | returned j => cases hunique (hqueued h₁) (hreturned h₂)
    | queued n p j => cases hunique (hqueued h₁) (hqueued h₂); rfl
    | event a m =>
      obtain ⟨j, x, -, -, h₂⟩ := h.exists_flight h₂
      cases hunique (hqueued h₁) h₂
  | event a m =>
    obtain ⟨i, x, hi, ha, h₁⟩ := h.exists_flight h₁
    cases σ₂ with
    | returned j => cases hunique h₁ (hreturned h₂)
    | queued n p j => cases hunique h₁ (hqueued h₂)
    | event b k =>
      obtain ⟨j, y, hj, hb, h₂⟩ := h.exists_flight h₂
      cases hunique h₁ h₂
      cases hi.symm.trans hj
      rw [h.exclusive.unique ha hb]

/-- In a run in which nothing is dropped, the messages sent to an open end arrive: each of
    them was returned, is in the queue of a port, or is in an event that is at some place of
    the network, and at one of these spots only. There are no others, and those returned are
    the first ones sent, in order. -/
theorem messages_arrive (hs : (machine α).Reachable (fun s i => s.Honest i ∧ s.Lossless i) s)
    (hsmall : ∀ e, (s.system.sent e).length < 2 ^ 64 - 1) {e : Ports.End}
    (he : e.pipe < s.system.pipes) (ho : s.system.closed e = false) :
    (∀ v ∈ s.system.sent e.opp, ∃! σ, s.messageAt e σ = some v) ∧
      (∀ σ v, s.messageAt e σ = some v → v ∈ s.system.sent e.opp) ∧
      s.system.returned e <+: s.system.sent e.opp := by
  have hG {s : Network α} {i : Input α} (h : s.Honest i ∧ s.Lossless i) :
      s.Honest i ∧ (True → s.Lossless i) := ⟨h.1, fun _ => h.2⟩
  obtain ⟨-, L, ht, hreach⟩ := transports_of_reachable hG hs
  have hhonest : System.Reachable System.Honest (s.whole L) :=
    hreach.mono fun t a h => h.2 trivial
  obtain ⟨η, N, lim, hS, hN, q⟩ := hhonest.sequence hsmall
  have hpipe : e.pipe < N.pipes := hS.refines.pipes ▸ he
  have hopen : N.closed e = false := hS.refines.closed ▸ ho
  refine ⟨fun v hv => ?_, fun σ v hσ => ?_, ?_⟩
  · obtain ⟨τ, hτ⟩ := hS.exists_messageAt hN q hpipe hopen hv
    have hunique {σ₁ σ₂ : Spot} (h₁ : s.messageAt e σ₁ = some v)
        (h₂ : s.messageAt e σ₂ = some v) : σ₁ = σ₂ :=
      ht.spot_unique (fun h₁ h₂ => hS.messageAt_unique hN q hpipe hopen h₁ h₂) h₁ h₂
    cases τ with
    | returned i => exact ⟨.returned i, hτ, fun σ hσ => hunique hσ hτ⟩
    | queued n p i => exact ⟨.queued n p i, hτ, fun σ hσ => hunique hσ hτ⟩
    | flight i =>
      obtain ⟨a, m, hevent⟩ := ht.exists_event hτ
      exact ⟨.event a m, hevent, fun σ hσ => hunique hσ hevent⟩
  · obtain ⟨τ, hτ⟩ := ht.exists_spot hσ
    exact hS.sent_of_messageAt hN q hτ
  · have hreturned := q.returned e
    rw [← hS.refines.sent, ← hS.refines.returned] at hreturned
    exact hreturned

/-- One message returned, and one on its way. -/
theorem messages_arrive_introduction : ∃ s,
    (machine ℕ).Reachable (fun s i => s.Honest i ∧ s.Lossless i) s ∧
    s.system.sent ⟨0, false⟩ = [(1, 7), (2, 8)] ∧ s.system.returned ⟨0, true⟩ = [(1, 7)] ∧
    ∀ v ∈ s.system.sent ⟨0, false⟩, ∃! σ, s.messageAt ⟨0, true⟩ σ = some v := by
  obtain ⟨s, hs, hlen, hp, ho, hsent, hret⟩ := Machine.exists_reachable_le (M := machine ℕ)
    (P := fun s => 0 < s.system.pipes ∧ s.system.closed ⟨0, true⟩ = false ∧
      s.system.sent ⟨0, false⟩ = [(1, 7), (2, 8)] ∧ s.system.returned ⟨0, true⟩ = [(1, 7)])
    (f := fun e s => (s.system.sent e).length) (fun hs hi h => length_sent_step hs hi h _)
    (introduction ++ [.call (.getMessageIf 3 2 none), .call (.sendMessage 2 1 8 [])])
    (by decide +kernel)
  have hsmall (e : Ports.End) : (s.system.sent e).length < 2 ^ 64 - 1 :=
    lt_of_le_of_lt (b := 23) (hlen e) (by decide)
  exact ⟨s, hs, hsent, hret, (messages_arrive hs hsmall hp ho).1⟩

end Network

end MojoEdk.Controller
