import MojoEdk.Ports.Basic
import Mathlib.Logic.Function.Basic
import Mathlib.Tactic.SplitIfs

/-!
# Node controllers

What a node controller (`node_controller.cc`) knows about other nodes: its peers with
their channels, the messages that wait for a peer to be connected, its parent, and the
children it has not heard of yet.

Peers are connected and dropped by tasks of the I/O thread (`Task`). A task is a
function on the state of the controller, up to the end of its critical section, with
the calls it makes on channels and on the node (`Output`) and what it has left to do
(`Rest`): `DropPeer` reports to the node after it has left the critical section, and
`OnAcceptChild` leaves the one of the parent's name before it enters the one of the
peers. What only the I/O thread writes does not change while a task reads it.

A `NodeChannel` is identified with the platform handle it was created for. The port
requests that `OnAcceptChild` passes on to the parent are not modelled, nor is the relay
of messages with handles through the parent, which is particular to Windows, nor that
`DropAllPeers` shuts down the channels it drops.
-/

namespace MojoEdk.Controller

open Ports (NodeName kInvalidNodeName)

/-- What a node controller asks of channels (`NodeChannel`) and of its node. -/
inductive Output (C M : Type)
  | start (channel : C)
  /-- `PortsMessage`, on the channel of the peer `name`. -/
  | portsMessage (channel : C) (name : NodeName) (m : M)
  | acceptChild (channel : C) (parentName token : NodeName)
  | acceptParent (channel : C) (token childName : NodeName)
  | requestIntroduction (channel : C) (name : NodeName)
  | introduce (channel : C) (name : NodeName) (handle : Option C)
  /-- `Node::LostConnectionToNode`. -/
  | lostConnectionToNode (name : NodeName)

/-- What a task of the I/O thread has left to do when it leaves a critical section. -/
inductive Rest (C : Type)
  | done
  | addPeer (name : NodeName) (channel : C)
  | lostConnectionToNode (name : NodeName)
  deriving DecidableEq

/-- `NodeController`. A queue that is empty stands for one that is not there. -/
structure NodeController (C M : Type) where
  name : NodeName
  peers : NodeName → Option C := fun _ => none
  pendingPeerMessages : NodeName → List M := fun _ => []
  pendingChildren : NodeName → Option C := fun _ => none
  parentName : NodeName := kInvalidNodeName
  bootstrapParentChannel : Option C := none
  /-- The messages for the node itself. -/
  incomingMessages : List M := []

namespace NodeController

variable {C M : Type}

/-- `GetPeerChannel`. -/
def getPeerChannel (s : NodeController C M) (name : NodeName) : Option C := s.peers name

/-- `GetParentChannel`. -/
def getParentChannel (s : NodeController C M) : Option C := s.getPeerChannel s.parentName

/-- `AddPeer`. Of two channels for a peer, the second one is closed. -/
def addPeer (s : NodeController C M) (name : NodeName) (channel : C) (startChannel : Bool) :
    NodeController C M × List (Output C M) :=
  if (s.peers name).isSome then (s, [])
  else ({ s with
      peers := Function.update s.peers name (some channel)
      pendingPeerMessages := Function.update s.pendingPeerMessages name [] },
    (if startChannel then [.start channel] else []) ++
      (s.pendingPeerMessages name).map (.portsMessage channel name))

/-- `DropPeer`, up to the end of its critical section. -/
def dropPeer (s : NodeController C M) (name : NodeName) :
    NodeController C M × List (Output C M) × Rest C :=
  ({ s with
      peers := Function.update s.peers name none
      pendingPeerMessages := Function.update s.pendingPeerMessages name []
      pendingChildren := Function.update s.pendingChildren name none },
    [], .lostConnectionToNode name)

/-- `ConnectToChildOnIOThread`, with the token that is drawn. -/
def connectToChild (s : NodeController C M) (channel : C) (token : NodeName) :
    NodeController C M × List (Output C M) × Rest C :=
  ({ s with
      pendingChildren :=
        if (s.pendingChildren token).isSome then s.pendingChildren
        else Function.update s.pendingChildren token (some channel) },
    [.start channel, .acceptChild channel s.name token], .done)

/-- `ConnectToParentOnIOThread`. -/
def connectToParent (s : NodeController C M) (channel : C) :
    NodeController C M × List (Output C M) × Rest C :=
  ({ s with bootstrapParentChannel := some channel }, [.start channel], .done)

/-- `OnAcceptChild`. -/
def onAcceptChild (s : NodeController C M) (fromNode parentName token : NodeName) :
    NodeController C M × List (Output C M) × Rest C :=
  match s.bootstrapParentChannel with
  | none => s.dropPeer fromNode
  | some parent =>
    if s.parentName ≠ kInvalidNodeName then s.dropPeer fromNode
    else ({ s with parentName := parentName, bootstrapParentChannel := none },
      [.acceptParent parent token s.name], .addPeer parentName parent)

/-- `OnAcceptParent`. -/
def onAcceptParent (s : NodeController C M) (fromNode token childName : NodeName) :
    NodeController C M × List (Output C M) × Rest C :=
  match s.pendingChildren fromNode with
  | none => s.dropPeer fromNode
  | some channel =>
    if token ≠ fromNode then s.dropPeer fromNode
    else
      let s := { s with pendingChildren := Function.update s.pendingChildren fromNode none }
      let (s, outputs) := s.addPeer childName channel false
      (s, outputs, .done)

/-- `OnRequestIntroduction`, with the `PlatformChannelPair` that it creates: the server
    and the client handle. -/
def onRequestIntroduction (s : NodeController C M) (fromNode name : NodeName)
    (newChannel : C × C) : NodeController C M × List (Output C M) × Rest C :=
  match s.getPeerChannel fromNode with
  | none => s.dropPeer fromNode
  | some requestor =>
    if fromNode = name ∨ name = kInvalidNodeName then s.dropPeer fromNode
    else if s.getParentChannel.isSome then (s, [], .done)
    else
      match s.getPeerChannel name with
      | none => (s, [.introduce requestor name none], .done)
      | some newFriend =>
        (s, [.introduce requestor name (some newChannel.1),
          .introduce newFriend fromNode (some newChannel.2)], .done)

/-- `OnIntroduce`. Without a handle, the messages for the node are dropped. -/
def onIntroduce (s : NodeController C M) (fromNode name : NodeName) (channelHandle : Option C) :
    NodeController C M × List (Output C M) × Rest C :=
  if fromNode ≠ s.parentName then s.dropPeer fromNode
  else
    match channelHandle with
    | none =>
      ({ s with pendingPeerMessages := Function.update s.pendingPeerMessages name [] }, [], .done)
    | some channel =>
      let (s, outputs) := s.addPeer name channel true
      (s, outputs, .done)

/-- `DropAllPeers`, when the I/O thread is shut down. -/
def dropAllPeers (s : NodeController C M) : NodeController C M × List (Output C M) × Rest C :=
  ({ s with
      peers := fun _ => none
      pendingPeerMessages := fun _ => []
      pendingChildren := fun _ => none
      bootstrapParentChannel := none },
    [], .done)

/-- The tasks of the I/O thread. -/
inductive Task (C : Type)
  | connectToChild (channel : C) (token : NodeName)
  | connectToParent (channel : C)
  | onAcceptChild (fromNode parentName token : NodeName)
  | onAcceptParent (fromNode token childName : NodeName)
  | onRequestIntroduction (fromNode name : NodeName) (newChannel : C × C)
  | onIntroduce (fromNode name : NodeName) (channelHandle : Option C)
  /-- `OnChannelError`, on the I/O thread or posted to it. -/
  | onChannelError (fromNode : NodeName)
  | dropAllPeers

/-- A task, up to the end of its (first) critical section. -/
def run (s : NodeController C M) : Task C → NodeController C M × List (Output C M) × Rest C
  | .connectToChild channel token => s.connectToChild channel token
  | .connectToParent channel => s.connectToParent channel
  | .onAcceptChild fromNode parentName token => s.onAcceptChild fromNode parentName token
  | .onAcceptParent fromNode token childName => s.onAcceptParent fromNode token childName
  | .onRequestIntroduction fromNode name newChannel =>
    s.onRequestIntroduction fromNode name newChannel
  | .onIntroduce fromNode name channelHandle => s.onIntroduce fromNode name channelHandle
  | .onChannelError fromNode => s.dropPeer fromNode
  | .dropAllPeers => s.dropAllPeers

/-- The peer that a task adds, unless it is one already. -/
def Task.adds (s : NodeController C M) : Task C → Option NodeName
  | .onAcceptParent fromNode token childName =>
    if (s.pendingChildren fromNode).isSome ∧ token = fromNode then some childName else none
  | .onIntroduce fromNode name (some _) =>
    if fromNode = s.parentName then some name else none
  | _ => none

/-- The node that a task of the parent introduces, or fails to. -/
def Task.introduces (s : NodeController C M) : Task C → Option NodeName
  | .onIntroduce fromNode name _ => if fromNode = s.parentName then some name else none
  | _ => none

/-- What a task has left to do. -/
def resume (s : NodeController C M) : Rest C → NodeController C M × List (Output C M)
  | .done => (s, [])
  | .addPeer name channel => s.addPeer name channel false
  | .lostConnectionToNode name => (s, [.lostConnectionToNode name])

/-! ## What tasks do -/

/-- The task neither connects peers nor drops messages. -/
structure Quiet (s s' : NodeController C M) : Prop where
  peers : s'.peers = s.peers
  pendingPeerMessages : s'.pendingPeerMessages = s.pendingPeerMessages
  parentName : s'.parentName = s.parentName
  name : s'.name = s.name

/-- A controller on which nothing was done. -/
theorem Quiet.refl (s : NodeController C M) : Quiet s s := ⟨rfl, rfl, rfl, rfl⟩

/-- A peer that is there already is left alone, and otherwise gets what was queued for it. -/
theorem addPeer_cases (s : NodeController C M) (name : NodeName) (channel : C)
    (startChannel : Bool) :
    ((s.peers name).isSome ∧ s.addPeer name channel startChannel = (s, [])) ∨
      (s.peers name = none ∧ s.addPeer name channel startChannel = ({ s with
          peers := Function.update s.peers name (some channel)
          pendingPeerMessages := Function.update s.pendingPeerMessages name [] },
        (if startChannel then [.start channel] else []) ++
          (s.pendingPeerMessages name).map (.portsMessage channel name))) := by
  cases hpeer : s.peers name with
  | none => exact .inr ⟨rfl, by rw [addPeer, hpeer]; rfl⟩
  | some c => exact .inl ⟨rfl, by rw [addPeer, hpeer]; rfl⟩

theorem mem_update_of_ne {queues : NodeName → List M} {n n' : NodeName} (hn : n ≠ n')
    (queue : List M) {m : M} (hm : m ∈ queues n) : m ∈ Function.update queues n' queue n := by
  rwa [Function.update_of_ne hn]

/-- The messages for a peer that is added are written to its channel. -/
theorem mem_addPeer (s : NodeController C M) (name : NodeName) (channel : C)
    (startChannel : Bool) {n : NodeName} {m : M} (hm : m ∈ s.pendingPeerMessages n) :
    m ∈ (s.addPeer name channel startChannel).1.pendingPeerMessages n ∨
      .portsMessage channel n m ∈ (s.addPeer name channel startChannel).2 := by
  rcases s.addPeer_cases name channel startChannel with ⟨-, heq⟩ | ⟨-, heq⟩
  · rw [heq]
    exact .inl hm
  · rw [heq]
    by_cases hn : n = name
    · subst hn
      exact .inr (List.mem_append_right _ (List.mem_map_of_mem hm))
    · exact .inl (mem_update_of_ne hn _ hm)

/-- A task, by what it does to the peers and to their messages. -/
theorem run_cases (s : NodeController C M) (task : Task C) :
    (∃ s' outputs, Quiet s s' ∧ task.introduces s = none ∧ s.run task = (s', outputs, .done)) ∨
    (∃ name, task.introduces s = none ∧ s.run task = s.dropPeer name) ∨
    (∃ name, task = .onIntroduce s.parentName name none ∧ s.run task =
      ({ s with pendingPeerMessages := Function.update s.pendingPeerMessages name [] },
        [], .done)) ∨
    (∃ s₁ name channel startChannel, task.adds s = some name ∧
      (∀ n, task.introduces s = some n → n = name) ∧ Quiet s s₁ ∧ s.run task =
        ((s₁.addPeer name channel startChannel).1, (s₁.addPeer name channel startChannel).2,
          .done)) ∨
    (∃ fromNode parentName token channel, task = .onAcceptChild fromNode parentName token ∧
      s.bootstrapParentChannel = some channel ∧ s.parentName = kInvalidNodeName ∧ s.run task =
        ({ s with parentName := parentName, bootstrapParentChannel := none },
          [.acceptParent channel token s.name], .addPeer parentName channel)) ∨
    (task = .dropAllPeers ∧ s.run task = s.dropAllPeers) := by
  cases task with
  | connectToChild channel token =>
    exact .inl ⟨(s.connectToChild channel token).1, _, ⟨rfl, rfl, rfl, rfl⟩, rfl, rfl⟩
  | connectToParent channel =>
    exact .inl ⟨(s.connectToParent channel).1, _, ⟨rfl, rfl, rfl, rfl⟩, rfl, rfl⟩
  | onAcceptChild fromNode parentName token =>
    cases hchannel : s.bootstrapParentChannel with
    | none => exact .inr (.inl ⟨fromNode, rfl, by rw [run, onAcceptChild, hchannel]⟩)
    | some channel =>
      by_cases hparent : s.parentName = kInvalidNodeName
      · refine .inr (.inr (.inr (.inr (.inl
          ⟨fromNode, parentName, token, channel, rfl, rfl, hparent, ?_⟩))))
        rw [run, onAcceptChild, hchannel]
        exact if_neg (not_not_intro hparent)
      · refine .inr (.inl ⟨fromNode, rfl, ?_⟩)
        rw [run, onAcceptChild, hchannel]
        exact if_pos hparent
  | onAcceptParent fromNode token childName =>
    cases hchannel : s.pendingChildren fromNode with
    | none => exact .inr (.inl ⟨fromNode, rfl, by rw [run, onAcceptParent, hchannel]⟩)
    | some channel =>
      by_cases htoken : token = fromNode
      · refine .inr (.inr (.inr (.inl ⟨{ s with
          pendingChildren := Function.update s.pendingChildren fromNode none },
          childName, channel, false, ?_, (fun _ h => by cases h), ⟨rfl, rfl, rfl, rfl⟩, ?_⟩)))
        · rw [Task.adds, hchannel]
          exact if_pos ⟨rfl, htoken⟩
        · rw [run, onAcceptParent, hchannel]
          exact if_neg (not_not_intro htoken)
      · refine .inr (.inl ⟨fromNode, rfl, ?_⟩)
        rw [run, onAcceptParent, hchannel]
        exact if_pos htoken
  | onRequestIntroduction fromNode name newChannel =>
    rw [run, onRequestIntroduction]
    cases s.getPeerChannel fromNode with
    | none => exact .inr (.inl ⟨fromNode, rfl, rfl⟩)
    | some requestor =>
      simp only
      split_ifs
      · exact .inr (.inl ⟨fromNode, rfl, rfl⟩)
      · exact .inl ⟨s, _, .refl s, rfl, rfl⟩
      · cases s.getPeerChannel name with
        | none => exact .inl ⟨s, _, .refl s, rfl, rfl⟩
        | some newFriend => exact .inl ⟨s, _, .refl s, rfl, rfl⟩
  | onIntroduce fromNode name channelHandle =>
    by_cases hparent : fromNode = s.parentName
    · subst hparent
      cases channelHandle with
      | none =>
        refine .inr (.inr (.inl ⟨name, rfl, ?_⟩))
        exact if_neg (not_not_intro rfl)
      | some channel =>
        refine .inr (.inr (.inr (.inl ⟨s, name, channel, true, if_pos rfl, fun n h => ?_,
          .refl s, if_neg (not_not_intro rfl)⟩)))
        exact Option.some.inj (h.symm.trans (if_pos rfl))
    · refine .inr (.inl ⟨fromNode, if_neg hparent, ?_⟩)
      cases channelHandle with
      | none => exact if_pos hparent
      | some channel => exact if_pos hparent
  | onChannelError fromNode => exact .inr (.inl ⟨fromNode, rfl, rfl⟩)
  | dropAllPeers => exact .inr (.inr (.inr (.inr (.inr ⟨rfl, rfl⟩))))

/-- A request from a stranger drops it, and one from a peer is answered. -/
theorem onRequestIntroduction_cases (s : NodeController C M) (fromNode name : NodeName)
    (newChannel : C × C) :
    s.onRequestIntroduction fromNode name newChannel = s.dropPeer fromNode ∨
    s.onRequestIntroduction fromNode name newChannel = (s, [], .done) ∨
    (∃ requestor, s.peers fromNode = some requestor ∧
      s.onRequestIntroduction fromNode name newChannel =
        (s, [.introduce requestor name none], .done)) ∨
    ∃ requestor newFriend, fromNode ≠ name ∧ s.peers fromNode = some requestor ∧
      s.peers name = some newFriend ∧ s.onRequestIntroduction fromNode name newChannel =
        (s, [.introduce requestor name (some newChannel.1),
          .introduce newFriend fromNode (some newChannel.2)], .done) := by
  rw [onRequestIntroduction]
  cases hrequestor : s.getPeerChannel fromNode with
  | none => exact .inl rfl
  | some requestor =>
    simp only
    split_ifs with hinvalid hparent
    · exact .inl rfl
    · exact .inr (.inl rfl)
    · cases hfriend : s.getPeerChannel name with
      | none => exact .inr (.inr (.inl ⟨requestor, hrequestor, rfl⟩))
      | some newFriend =>
        exact .inr (.inr (.inr ⟨requestor, newFriend, fun heq => hinvalid (.inl heq), hrequestor,
          hfriend, rfl⟩))

/-- A peer is added unless it is there already. -/
theorem peers_addPeer (s : NodeController C M) (name : NodeName) (channel : C)
    (startChannel : Bool) (n : NodeName) : (s.addPeer name channel startChannel).1.peers n =
      (s.peers n).or (if name = n then some channel else none) := by
  rcases s.addPeer_cases name channel startChannel with ⟨hsome, heq⟩ | ⟨hnone, heq⟩
  · rw [heq]
    by_cases hn : name = n
    · subst hn
      obtain ⟨c, hc⟩ := Option.isSome_iff_exists.1 hsome
      rw [hc, Option.some_or]
    · rw [if_neg hn, Option.or_none]
  · rw [heq]
    by_cases hn : name = n
    · subst hn
      rw [hnone, if_pos rfl, Option.none_or]
      exact Function.update_self _ _ _
    · rw [if_neg hn, Option.or_none]
      exact Function.update_of_ne (Ne.symm hn) _ _

/-- An introduction that drops no peer: of two channels for a node, the first one is
    kept. -/
theorem peers_onIntroduce {s s' : NodeController C M} {fromNode name : NodeName}
    {channelHandle : Option C} {outputs : List (Output C M)}
    (h : s.onIntroduce fromNode name channelHandle = (s', outputs, .done)) (n : NodeName) :
    s'.peers n = (s.peers n).or (if name = n then channelHandle else none) := by
  unfold onIntroduce at h
  split_ifs at h with hparent
  · cases h
  · cases channelHandle with
    | none =>
      cases h
      rw [ite_self, Option.or_none]
    | some channel =>
      cases h
      exact s.peers_addPeer name channel true n

theorem name_addPeer (s : NodeController C M) (name : NodeName) (channel : C)
    (startChannel : Bool) : (s.addPeer name channel startChannel).1.name = s.name := by
  rcases s.addPeer_cases name channel startChannel with ⟨-, heq⟩ | ⟨-, heq⟩
  · rw [heq]
  · rw [heq]

/-- A task leaves the name of a controller alone. -/
theorem name_run (s : NodeController C M) (task : Task C) : (s.run task).1.name = s.name := by
  rcases s.run_cases task with ⟨s', outputs, hquiet, -, heq⟩ | ⟨name, -, heq⟩ | ⟨name, -, heq⟩ |
    ⟨s₁, name, channel, startChannel, -, -, hquiet, heq⟩ | ⟨_, _, _, _, -, -, -, heq⟩ | ⟨-, heq⟩
  · rw [heq]
    exact hquiet.name
  · rw [heq]
    rfl
  · rw [heq]
  · rw [heq]
    exact (s₁.name_addPeer name channel startChannel).trans hquiet.name
  · rw [heq]
  · rw [heq]
    rfl

end NodeController

end MojoEdk.Controller
