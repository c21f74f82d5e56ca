import MojoEdk.Channel.NodeMessages
import MojoEdk.Controller.Peers
import MojoEdk.Ports.System

/-!
# Networks of node controllers

Processes, each with a node (`Ports.System`) and its controller (`Process`), that are joined
by channels. A channel is made for an end of a `PlatformChannelPair`, and what is written to
it is read at the other end, in order. The pairs are made by the embedder, for a process and
its child (`ConnectToChild`, `ConnectToParent`), or by a parent that introduces two
processes to each other.

The events that a node forwards are handed to its controller, which finds a channel for
each of them (`SendPeerMessage`), or queues it for the node itself
(`AcceptIncomingMessages`). A message is identified with its index among all that were ever
forwarded. What threads and processes do is interleaved at critical sections, and events
are accepted as a whole.

Nothing tells a process whom a channel leads to, but for the names in the messages that it
is sent. The main result here, `Network.peers_agree`, is that these names are right: a
process that is known as a peer under a name has this name, and messages are attributed to
the process that sent them.

Pipes between two nodes are made at once (`Action.connect`), and the port requests that do
so are not part of a network. Nor is that the I/O thread of a process is shut down.
-/

namespace MojoEdk.Controller

open Ports (NodeName kInvalidNodeName System Action)
open NodeChannel (NodeMessage)

/-- A platform handle: an end of a `PlatformChannelPair`. -/
structure Handle where
  pair : ℕ
  server : Bool
  deriving DecidableEq

/-- The other end. -/
def Handle.other (h : Handle) : Handle := { h with server := !h.server }

@[simp] theorem Handle.other_other (h : Handle) : h.other.other = h := by simp [Handle.other]

@[simp] theorem Handle.pair_other (h : Handle) : h.other.pair = h.pair := rfl

@[simp] theorem Handle.server_other (h : Handle) : h.other.server = !h.server := rfl

/-- History: the processes that a `PlatformChannelPair` was made for, and the token if it is
    for a child. -/
structure Pair where
  server : NodeName
  client : NodeName
  token : Option NodeName := none

/-- Processes, the channels between them, and what is on its way. -/
structure Network (α : Type) where
  /-- The nodes. What they forward is taken from them at once. -/
  system : System α := {}
  process : NodeName → Process Handle ℕ := fun n => { controller := { name := n } }
  /-- What was written to the channel of a handle and not read at the other end. -/
  wire : Handle → List (NodeMessage Handle ℕ) := fun _ => []
  /-- `remote_node_name_` of the `NodeChannel` of a handle. -/
  remoteNodeName : Handle → NodeName := fun _ => kInvalidNodeName
  /-- The messages that threads have taken from `incoming_messages_`. -/
  taken : NodeName × ℕ → List ℕ := fun _ => []
  /-- The events that were forwarded. The nodes they are for are history. -/
  messages : List (NodeName × Ports.Event α) := []
  pairs : List Pair := []

namespace Network

variable {α : Type}

/-! ## What a process does -/

/-- A message is written to the channel of a handle. -/
def write (s : Network α) (h : Handle) (m : NodeMessage Handle ℕ) : Network α :=
  { s with wire := Function.update s.wire h (s.wire h ++ [m]) }

/-- The message that a controller writes to a channel. -/
def message : Output Handle ℕ → Option (Handle × NodeMessage Handle ℕ)
  | .start _ | .lostConnectionToNode _ => none
  | .portsMessage channel _ m => some (channel, .portsMessage m)
  | .acceptChild channel parentName token => some (channel, .acceptChild parentName token)
  | .acceptParent channel token childName => some (channel, .acceptParent token childName)
  | .requestIntroduction channel name => some (channel, .requestIntroduction name)
  | .introduce channel name handle => some (channel, .introduce name handle)

/-- What a controller asks of a channel. -/
def post (s : Network α) (o : Output Handle ℕ) : Network α :=
  match message o with
  | some (channel, m) => s.write channel m
  | none => s

/-- A process after some step, with what it asks of channels. -/
def update (s : Network α) (n : NodeName) (p : Process Handle ℕ)
    (outputs : List (Output Handle ℕ)) : Network α :=
  outputs.foldl post { s with process := Function.update s.process n { p with history := [] } }

/-- A pair of handles is made. -/
def addPair (s : Network α) (server client : NodeName) (token : Option NodeName) : Network α :=
  { s with pairs := s.pairs ++ [⟨server, client, token⟩] }

/-- `SetRemoteNodeName`. -/
def setRemoteNodeName (s : Network α) : Option (Handle × NodeName) → Network α
  | some (channel, name) => { s with
    remoteNodeName := Function.update s.remoteNodeName channel name }
  | none => s

/-- The channel that a task names, and how: `ConnectToChildOnIOThread`, and `AddPeer`. -/
def names (s : NodeController Handle ℕ) : NodeController.Task Handle → Option (Handle × NodeName)
  | .connectToChild channel token => some (channel, token)
  | .onAcceptParent fromNode token childName =>
    if token = fromNode then (s.pendingChildren fromNode).map (·, childName) else none
  | .onIntroduce fromNode name (some channel) =>
    if fromNode = s.parentName then some (channel, name) else none
  | _ => none

/-- A task of the I/O thread, when it is done with the one before. -/
def run (s : Network α) (n : NodeName) (task : NodeController.Task Handle) : Option (Network α) :=
  let p := s.process n
  if p.rest = .done then
    let r := p.controller.run task
    some ((s.setRemoteNodeName (names p.controller task)).update n
      { p with controller := r.1, rest := r.2.2 } r.2.1)
  else none

/-- `ForwardMessage`, of a node. -/
def forward (n : NodeName) (s : Network α) (x : NodeName × Ports.Event α) : Network α :=
  { s with messages := s.messages ++ [x] }.update n
    ((s.process n).forwardMessage x.1 s.messages.length) []

/-- What a node forwards is handed to its controller. -/
def handOver (s : Network α) (n : NodeName) (t : System α) : Network α :=
  t.inFlight.foldl (forward n) { s with system := { t with inFlight := [] } }

/-- `AcceptMessage`. -/
def accept (s : Network α) (n : NodeName) (m : ℕ) : Option (Network α) :=
  match s.messages[m]? with
  | none => none
  | some (_, event) =>
    if s.system.oops ≠ [] then none else some (s.handOver n (s.system.deliver n event))

/-- A process has a channel: it has not heard of its parent, or of its child, or it is the
    channel of a peer. -/
def Uses (s : Network α) (n : NodeName) (h : Handle) : Prop :=
  let c := (s.process n).controller
  c.bootstrapParentChannel = some h ∨ c.pendingChildren (s.remoteNodeName h) = some h ∨
    c.peers (s.remoteNodeName h) = some h

instance (s : Network α) (n : NodeName) (h : Handle) : Decidable (s.Uses n h) :=
  inferInstanceAs (Decidable (_ ∨ _))

/-- `OnChannelMessage`. Introductions are made with the next pair. -/
def onChannelMessage (s : Network α) (n : NodeName) (h : Handle) :
    NodeMessage Handle ℕ → Option (Network α)
  | .acceptChild parentName token => s.run n (.onAcceptChild (s.remoteNodeName h) parentName token)
  | .acceptParent token childName => s.run n (.onAcceptParent (s.remoteNodeName h) token childName)
  | .portsMessage m => if (s.process n).rest = .done then s.accept n m else none
  | .requestIntroduction name =>
    (s.addPair (s.remoteNodeName h) name none).run n
      (.onRequestIntroduction (s.remoteNodeName h) name
        (⟨s.pairs.length, true⟩, ⟨s.pairs.length, false⟩))
  | .introduce name handle => s.run n (.onIntroduce (s.remoteNodeName h) name handle)
  -- Ports that are connected by tokens are left to `Bootstraps`.
  | .requestPortConnection _ _ | .connectToPort _ _ => none

/-! ## Steps -/

inductive Input (α : Type)
  /-- A call of the embedder on a node. -/
  | call (a : Action α)
  /-- `AcceptIncomingMessages`, on a thread: all messages are taken. -/
  | takeIncoming (n : NodeName) (thread : ℕ)
  /-- `AcceptIncomingMessages`, on a thread: the next message is accepted. -/
  | acceptTaken (n : NodeName) (thread : ℕ)
  /-- What the `SendPeerMessage` of a message does next. -/
  | sendPeerMessage (n : NodeName) (m : ℕ)
  /-- `ConnectToChild`, with a new pair and the token that is drawn. -/
  | connectToChild (n child token : NodeName)
  /-- `ConnectToParent`. -/
  | connectToParent (n : NodeName) (h : Handle)
  /-- The next message of a channel is read. -/
  | receive (n : NodeName) (h : Handle)
  /-- `OnChannelError`. -/
  | channelError (n : NodeName) (h : Handle)
  /-- What the task of the I/O thread does next. -/
  | resume (n : NodeName)

/-- The node of a call of the embedder. -/
def caller : Action α → Option NodeName
  | .createPortPair n | .connect n _ | .sendMessage n _ _ _ | .getMessageIf n _ _
  | .closePort n _ => some n
  | .acceptMessage _ | .lostConnectionToNode _ _ => none

/-- The process that takes a step. -/
def Input.process : Input α → Option NodeName
  | .call a => caller a
  | .takeIncoming n _ | .acceptTaken n _ | .sendPeerMessage n _ | .connectToChild n _ _
  | .connectToParent n _ | .receive n _ | .channelError n _ | .resume n => some n

/-- The outputs in a history, the first one first. -/
def outputs (history : List (Event Handle ℕ)) : List (Output Handle ℕ) :=
  history.reverse.filterMap fun | .output o => some o | _ => none

def step (s : Network α) : Input α → Option (Network α)
  | .call a => (caller a).bind fun n => (s.system.step a).map (s.handOver n)
  | .takeIncoming n thread =>
    if s.taken (n, thread) = [] then
      let p := s.process n
      some ({ s with
        taken := Function.update s.taken (n, thread) p.controller.incomingMessages }.update n
          { p with controller := { p.controller with incomingMessages := [] } } [])
    else none
  | .acceptTaken n thread =>
    match s.taken (n, thread) with
    | [] => none
    | m :: ms => { s with taken := Function.update s.taken (n, thread) ms }.accept n m
  | .sendPeerMessage n m =>
    ((s.process n).calls m).map fun call =>
      let p := (s.process n).sendPeerMessage m call
      s.update n p (outputs p.history)
  | .connectToChild n child token =>
    (s.addPair n child (some token)).run n
      (.connectToChild ⟨s.pairs.length, true⟩ token)
  | .connectToParent n h => s.run n (.connectToParent h)
  | .receive n h =>
    if s.Uses n h then
      match s.wire h.other with
      | [] => none
      | m :: ms => { s with wire := Function.update s.wire h.other ms }.onChannelMessage n h m
    else none
  | .channelError n h =>
    if s.Uses n h then s.run n (.onChannelError (s.remoteNodeName h)) else none
  | .resume n =>
    let p := s.process n
    match p.rest with
    | .done => none
    -- The end of `OnAcceptChild`.
    | .addPeer name channel =>
      let r := p.controller.addPeer name channel false
      some ((s.setRemoteNodeName (some (channel, name))).update n
        { p with controller := r.1, rest := .done } r.2)
    -- The end of `DropPeer`.
    | .lostConnectionToNode name =>
      (s.system.step (.lostConnectionToNode n name)).map fun t =>
        (s.update n { p with rest := .done } []).handOver n t

/-- Processes that know of no others. -/
def machine (α : Type) : Machine (Network α) (Input α) where
  init := {}
  step := step

/-! ## Whom a channel leads to -/

/-- The process that a handle was made for. -/
def owner (s : Network α) (h : Handle) : Option NodeName :=
  s.pairs[h.pair]?.map fun p => if h.server then p.server else p.client

/-- The token of a pair that was made for a child. -/
def tokenOf (s : Network α) (h : Handle) : Option NodeName := s.pairs[h.pair]?.bind (·.token)

/-- Tokens are never drawn twice. A process gets the handle for its parent from it, and
    connects to one parent. -/
def Sound (s : Network α) : Input α → Prop
  | .connectToChild n _ token => n ≠ kInvalidNodeName ∧ ∀ p ∈ s.pairs, p.token ≠ some token
  | .connectToParent n h => h.server = false ∧ s.owner h = some n ∧ (s.tokenOf h).isSome ∧
      (s.process n).controller.bootstrapParentChannel = none ∧
      (s.process n).controller.parentName = kInvalidNodeName
  | _ => True

instance (s : Network α) (i : Input α) : Decidable (s.Sound i) :=
  match i with
  | .connectToChild _ _ _ => inferInstanceAs (Decidable (_ ∧ _))
  | .connectToParent _ _ => inferInstanceAs (Decidable (_ ∧ _))
  | .call _ | .takeIncoming _ _ | .acceptTaken _ _ | .sendPeerMessage _ _ | .receive _ _
  | .channelError _ _ | .resume _ => inferInstanceAs (Decidable True)

/-- A handle is for one process, and the other end of the pair for another one. -/
def Joins (s : Network α) (h : Handle) (x y : NodeName) : Prop :=
  s.owner h = some x ∧ s.owner h.other = some y

/-- The names in a message on its way are right. -/
def Truthful (s : Network α) (h : Handle) : NodeMessage Handle ℕ → Prop
  | .acceptChild parentName token =>
    h.server = true ∧ s.owner h = some parentName ∧ s.tokenOf h = some token
  | .acceptParent token childName =>
    h.server = false ∧ s.owner h = some childName ∧ s.tokenOf h = some token
  | .introduce name (some d) =>
    ∃ x, s.owner h.other = some x ∧ s.Joins d x name ∧ s.tokenOf d = none
  | _ => True

/-- What a process knows of channels is right. -/
structure Party (s : Network α) (n : NodeName) (c : NodeController Handle ℕ) (rest : Rest Handle) :
    Prop where
  name : c.name = n
  peer : ∀ {y h}, c.peers y = some h → s.Joins h n y ∧ s.remoteNodeName h = y
  pending : ∀ {t h}, c.pendingChildren t = some h →
    h.server = true ∧ s.owner h = some n ∧ s.tokenOf h = some t
  bootstrap : ∀ {h}, c.bootstrapParentChannel = some h →
    h.server = false ∧ s.owner h = some n ∧ (s.tokenOf h).isSome
  /-- A process that has its parent as a peer knows the name of it. -/
  adopted : ∀ {y h}, c.peers y = some h → h.server = false → (s.tokenOf h).isSome →
    c.parentName ≠ kInvalidNodeName
  parent : c.parentName ≠ kInvalidNodeName →
    ∃ p ∈ s.pairs, p.token.isSome ∧ p.server = c.parentName ∧ p.client = n
  rest : ∀ {y h}, rest = .addPeer y h → s.Joins h n y ∧ c.parentName ≠ kInvalidNodeName

/-- The channel that a call has found is one of its process, and leads to the node that the
    message is for. -/
def Leads (s : Network α) (n : NodeName) : Call Handle → Prop
  | .portsMessage name channel => s.Joins channel n name
  | .requestIntroduction _ channel => s.owner channel = some n
  | _ => True

structure Inv (s : Network α) : Prop where
  party : ∀ n, s.Party n (s.process n).controller (s.process n).rest
  calls : ∀ {n m call}, (s.process n).calls m = some call → s.Leads n call
  wire : ∀ h, ∀ m ∈ s.wire h, s.Truthful h m
  /-- A token is for one pair. -/
  token : ∀ {h d t}, s.tokenOf h = some t → s.tokenOf d = some t → h.pair = d.pair
  parent : ∀ p ∈ s.pairs, p.token.isSome → p.server ≠ kInvalidNodeName
  history : ∀ n, (s.process n).history = []

variable {s s' : Network α} {n : NodeName}

/-! ### Pairs -/

/-- Pairs are only added. -/
theorem pair_of_pairs (hpairs : s.pairs <+: s'.pairs) {i : ℕ} {p : Pair}
    (hp : s.pairs[i]? = some p) : s'.pairs[i]? = some p := by
  obtain ⟨hi, rfl⟩ := List.getElem?_eq_some_iff.1 hp
  exact List.prefix_iff_getElem?.1 hpairs i hi

/-- An end of a pair keeps its owner. -/
theorem owner_of_pairs (hpairs : s.pairs <+: s'.pairs) {h : Handle} {x : NodeName}
    (hx : s.owner h = some x) : s'.owner h = some x := by
  obtain ⟨p, hp, rfl⟩ := Option.map_eq_some_iff.1 hx
  exact Option.map_eq_some_iff.2 ⟨p, pair_of_pairs hpairs hp, rfl⟩

/-- A pair has the token that it was made with. -/
theorem tokenOf_of_pairs (hpairs : s.pairs <+: s'.pairs) {h : Handle} {x : NodeName}
    (hx : s.owner h = some x) : s'.tokenOf h = s.tokenOf h := by
  obtain ⟨p, hp, -⟩ := Option.map_eq_some_iff.1 hx
  rw [tokenOf, tokenOf, hp, pair_of_pairs hpairs hp]

/-- What a channel joins stays joined. -/
theorem Joins.of_pairs (hpairs : s.pairs <+: s'.pairs) {h : Handle} {x y : NodeName}
    (hj : s.Joins h x y) : s'.Joins h x y :=
  ⟨owner_of_pairs hpairs hj.1, owner_of_pairs hpairs hj.2⟩

/-- What a message tells stays true. -/
theorem Truthful.of_pairs (hpairs : s.pairs <+: s'.pairs) {h : Handle} {m : NodeMessage Handle ℕ}
    (hm : s.Truthful h m) : s'.Truthful h m := by
  cases m with
  | acceptChild parentName token =>
    obtain ⟨hserver, howner, htoken⟩ := hm
    exact ⟨hserver, owner_of_pairs hpairs howner,
      (tokenOf_of_pairs hpairs howner).trans htoken⟩
  | acceptParent token childName =>
    obtain ⟨hserver, howner, htoken⟩ := hm
    exact ⟨hserver, owner_of_pairs hpairs howner,
      (tokenOf_of_pairs hpairs howner).trans htoken⟩
  | introduce name handle =>
    cases handle with
    | none => trivial
    | some d =>
      obtain ⟨x, howner, hjoins, htoken⟩ := hm
      exact ⟨x, owner_of_pairs hpairs howner, hjoins.of_pairs hpairs,
        (tokenOf_of_pairs hpairs hjoins.1).trans htoken⟩
  | _ => trivial

/-- A call that has a channel has it still. -/
theorem Leads.of_pairs (hpairs : s.pairs <+: s'.pairs) {call : Call Handle}
    (hcall : s.Leads n call) : s'.Leads n call := by
  cases call with
  | portsMessage name channel => exact Joins.of_pairs hpairs hcall
  | requestIntroduction name channel => exact owner_of_pairs hpairs hcall
  | _ => trivial

/-- What a process knows stays right when pairs are made, and when the channels of its peers
    keep their names. -/
theorem Party.of_pairs {c : NodeController Handle ℕ} {rest : Rest Handle}
    (hc : s.Party n c rest) (hpairs : s.pairs <+: s'.pairs)
    (hnames : ∀ {y h}, c.peers y = some h → s'.remoteNodeName h = s.remoteNodeName h) :
    s'.Party n c rest where
  name := hc.name
  peer hy := ⟨(hc.peer hy).1.of_pairs hpairs, (hnames hy).trans (hc.peer hy).2⟩
  pending ht := by
    obtain ⟨hserver, howner, htoken⟩ := hc.pending ht
    exact ⟨hserver, owner_of_pairs hpairs howner, (tokenOf_of_pairs hpairs howner).trans htoken⟩
  bootstrap hh := by
    obtain ⟨hserver, howner, htoken⟩ := hc.bootstrap hh
    exact ⟨hserver, owner_of_pairs hpairs howner, by rwa [tokenOf_of_pairs hpairs howner]⟩
  adopted hy hclient htoken := by
    rw [tokenOf_of_pairs hpairs (hc.peer hy).1.1] at htoken
    exact hc.adopted hy hclient htoken
  parent hparent := by
    obtain ⟨p, hp, hrest⟩ := hc.parent hparent
    exact ⟨p, hpairs.subset hp, hrest⟩
  rest hrest := ⟨(hc.rest hrest).1.of_pairs hpairs, (hc.rest hrest).2⟩

/-- The owner of one end of a new pair. -/
theorem owner_addPair_server (s : Network α) (server client : NodeName) (token : Option NodeName) :
    (s.addPair server client token).owner ⟨s.pairs.length, true⟩ = some server := by
  simp [owner, addPair]

/-- The owner of the other end. -/
theorem owner_addPair_client (s : Network α) (server client : NodeName) (token : Option NodeName) :
    (s.addPair server client token).owner ⟨s.pairs.length, false⟩ = some client := by
  simp [owner, addPair]

theorem tokenOf_addPair_self (s : Network α) (server client : NodeName) (token : Option NodeName)
    (b : Bool) : (s.addPair server client token).tokenOf ⟨s.pairs.length, b⟩ = token := by
  simp [tokenOf, addPair]

/-- Only a new pair has a new token. -/
theorem tokenOf_addPair {server client : NodeName} {token : Option NodeName} {h : Handle}
    {t : NodeName} (ht : (s.addPair server client token).tokenOf h = some t) :
    s.tokenOf h = some t ∨ h.pair = s.pairs.length ∧ token = some t := by
  obtain ⟨p, hp, hpt⟩ := Option.bind_eq_some_iff.1 ht
  rcases Nat.lt_or_ge h.pair s.pairs.length with hlt | hge
  · rw [addPair, List.getElem?_append_left hlt] at hp
    exact .inl (Option.bind_eq_some_iff.2 ⟨p, hp, hpt⟩)
  · rw [addPair, List.getElem?_append_right hge] at hp
    obtain ⟨hlength, hself⟩ := List.getElem?_eq_some_iff.1 hp
    rw [List.length_singleton, Nat.lt_one_iff] at hlength
    rw [List.getElem_singleton] at hself
    subst hself
    exact .inr ⟨by omega, hpt⟩

/-! ### What tasks do -/

/-- What a table holds after an update was there before, or is what was put there. -/
theorem eq_some_of_update {K V : Type} [DecidableEq K] {f : K → Option V} {x z : K} {o : Option V}
    {v : V} (h : Function.update f x o z = some v) : z = x ∧ o = some v ∨ f z = some v := by
  by_cases hz : z = x
  · subst hz
    rw [Function.update_self] at h
    exact .inl ⟨rfl, h⟩
  · rw [Function.update_of_ne hz] at h
    exact .inr h

/-- A process drops a peer. -/
theorem Party.dropPeer {c : NodeController Handle ℕ} {rest : Rest Handle}
    (hc : s.Party n c rest) (y : NodeName) :
    s.Party n (c.dropPeer y).1 (.lostConnectionToNode y) := by
  refine { hc with peer := ?_, pending := ?_, adopted := ?_, rest := fun hrest => by cases hrest }
  · intro z h hz
    rcases eq_some_of_update hz with ⟨-, hnone⟩ | hz
    · cases hnone
    · exact hc.peer hz
  · intro t h ht
    rcases eq_some_of_update ht with ⟨-, hnone⟩ | ht
    · cases hnone
    · exact hc.pending ht
  · intro z h hz
    rcases eq_some_of_update hz with ⟨-, hnone⟩ | hz
    · cases hnone
    · exact hc.adopted hz

/-- A peer is added that the channel leads to. -/
theorem Party.addPeer {c : NodeController Handle ℕ} {rest : Rest Handle}
    (hc : s.Party n c rest) {y : NodeName} {h : Handle} (hy : s.Joins h n y)
    (hname : s.remoteNodeName h = y)
    (hadopted : h.server = false → (s.tokenOf h).isSome → c.parentName ≠ kInvalidNodeName)
    (startChannel : Bool) : s.Party n (c.addPeer y h startChannel).1 .done := by
  rcases c.addPeer_cases y h startChannel with ⟨-, heq⟩ | ⟨-, heq⟩
  · rw [heq]
    exact { hc with rest := fun hrest => by cases hrest }
  · rw [heq]
    refine { hc with peer := ?_, adopted := ?_, rest := fun hrest => by cases hrest }
    · intro z d hz
      rcases eq_some_of_update hz with ⟨rfl, hself⟩ | hz
      · cases hself
        exact ⟨hy, hname⟩
      · exact hc.peer hz
    · intro z d hz
      rcases eq_some_of_update hz with ⟨rfl, hself⟩ | hz
      · cases hself
        exact hadopted
      · exact hc.adopted hz

/-- What a process asks of channels: the channels are its own, and the names are right. -/
def Proper (s : Network α) (n : NodeName) (outputs : List (Output Handle ℕ)) : Prop :=
  ∀ o ∈ outputs, ∀ h m, message o = some (h, m) → s.owner h = some n ∧ s.Truthful h m

/-- A process that writes nothing writes what is true. -/
theorem proper_nil : s.Proper n [] := fun _ h => by cases h

theorem proper_cons {o : Output Handle ℕ} {outputs : List (Output Handle ℕ)}
    (ho : ∀ h m, message o = some (h, m) → s.owner h = some n ∧ s.Truthful h m)
    (houtputs : s.Proper n outputs) : s.Proper n (o :: outputs) := by
  intro o' ho'
  rcases List.mem_cons.1 ho' with rfl | ho'
  · exact ho
  · exact houtputs o' ho'

/-- What was queued for a peer is sent over its channel. -/
theorem proper_addPeer (c : NodeController Handle ℕ) {y : NodeName} {h : Handle}
    (hn : s.owner h = some n) (startChannel : Bool) :
    s.Proper n (c.addPeer y h startChannel).2 := by
  intro o ho d m hm
  rcases c.addPeer_cases y h startChannel with ⟨-, heq⟩ | ⟨-, heq⟩
  · rw [heq] at ho
    cases ho
  · rw [heq] at ho
    rcases List.mem_append.1 ho with ho | ho
    · split_ifs at ho
      · rw [List.mem_singleton.1 ho] at hm
        cases hm
      · cases ho
    · obtain ⟨m', -, rfl⟩ := List.mem_map.1 ho
      cases hm
      exact ⟨hn, trivial⟩

/-- What is right for a task of a process: the channels that it is given lead where it is
    told. -/
def Admits (s : Network α) (n : NodeName) : NodeController.Task Handle → Prop
  | .connectToChild channel token =>
    channel.server = true ∧ s.owner channel = some n ∧ s.tokenOf channel = some token ∧
      ∀ x y, (s.process x).controller.peers y ≠ some channel
  | .connectToParent channel =>
    channel.server = false ∧ s.owner channel = some n ∧ (s.tokenOf channel).isSome
  | .onAcceptChild _ parentName token => ∀ channel,
    (s.process n).controller.bootstrapParentChannel = some channel →
    (s.process n).controller.parentName = kInvalidNodeName →
      s.owner channel.other = some parentName ∧ s.tokenOf channel = some token
  | .onAcceptParent fromNode token childName => ∀ channel,
    (s.process n).controller.pendingChildren fromNode = some channel → token = fromNode →
      s.owner channel.other = some childName
  | .onRequestIntroduction fromNode name newChannel =>
    s.Joins newChannel.1 fromNode name ∧ s.tokenOf newChannel.1 = none ∧
      s.Joins newChannel.2 name fromNode ∧ s.tokenOf newChannel.2 = none
  | .onIntroduce fromNode name (some channel) =>
    fromNode = (s.process n).controller.parentName →
      s.Joins channel n name ∧ s.tokenOf channel = none
  | .onIntroduce _ _ none | .onChannelError _ => True
  | .dropAllPeers => False

/-- The name that a task gives to a channel is right, if the channel is one of a peer. -/
theorem Inv.names (hs : s.Inv) {task : NodeController.Task Handle} (ht : s.Admits n task)
    {channel : Handle} {name : NodeName}
    (h : names (s.process n).controller task = some (channel, name)) :
    ∀ {x y}, (s.process x).controller.peers y = some channel → y = name := by
  intro x y hy
  have hjoins := ((hs.party x).peer hy).1
  cases task with
  | connectToChild c token =>
    cases h
    exact absurd hy (ht.2.2.2 x y)
  | onAcceptParent fromNode token childName =>
    rw [Network.names] at h
    split_ifs at h with htoken
    obtain ⟨c, hc, heq⟩ := Option.map_eq_some_iff.1 h
    cases heq
    exact Option.some.inj (hjoins.2.symm.trans (ht channel hc htoken))
  | onIntroduce fromNode z channelHandle =>
    cases channelHandle with
    | none => cases h
    | some c =>
      rw [Network.names] at h
      split_ifs at h with hparent
      cases h
      exact Option.some.inj (hjoins.2.symm.trans (ht hparent).1.2)
  | _ => cases h

/-- What a process knows after a task is right, and so is what it tells others. -/
def Keeps (s : Network α) (n : NodeName)
    (r : NodeController Handle ℕ × List (Output Handle ℕ) × Rest Handle) : Prop :=
  s.Party n r.1 r.2.2 ∧ s.Proper n r.2.1

/-- A peer that is dropped is not one any more. -/
theorem keeps_dropPeer {c : NodeController Handle ℕ} {rest : Rest Handle}
    (hc : s.Party n c rest) (y : NodeName) : s.Keeps n (c.dropPeer y) :=
  ⟨hc.dropPeer y, proper_nil⟩

/-- A child is asked for its name over the channel it was given. -/
theorem keeps_connectToChild {c : NodeController Handle ℕ} (hc : s.Party n c .done)
    {channel : Handle} {token : NodeName} (hserver : channel.server = true)
    (howner : s.owner channel = some n) (htoken : s.tokenOf channel = some token) :
    s.Keeps n (c.connectToChild channel token) := by
  refine ⟨{ hc with pending := fun {t h} ht => ?_ }, ?_⟩
  · dsimp only [NodeController.connectToChild] at ht
    split_ifs at ht
    · exact hc.pending ht
    · rcases eq_some_of_update ht with ⟨rfl, hself⟩ | ht
      · cases hself
        exact ⟨hserver, howner, htoken⟩
      · exact hc.pending ht
  · refine proper_cons (fun h m hm => by cases hm) (proper_cons (fun h m hm => ?_) proper_nil)
    cases hm
    exact ⟨howner, hserver, howner.trans (congrArg some hc.name.symm), htoken⟩

/-- A parent is waited for on the channel that was given. -/
theorem keeps_connectToParent {c : NodeController Handle ℕ} (hc : s.Party n c .done)
    {channel : Handle} (hclient : channel.server = false) (howner : s.owner channel = some n)
    (htoken : (s.tokenOf channel).isSome) : s.Keeps n (c.connectToParent channel) := by
  refine ⟨{ hc with bootstrap := fun {h} hh => ?_ }, ?_⟩
  · cases hh
    exact ⟨hclient, howner, htoken⟩
  · exact proper_cons (fun h m hm => by cases hm) proper_nil

/-- The process that has made the pair becomes the parent. -/
theorem keeps_onAcceptChild (hs : s.Inv) {c : NodeController Handle ℕ} (hc : s.Party n c .done)
    (fromNode : NodeName) {parentName token : NodeName}
    (h : ∀ channel, c.bootstrapParentChannel = some channel → c.parentName = kInvalidNodeName →
      s.owner channel.other = some parentName ∧ s.tokenOf channel = some token) :
    s.Keeps n (c.onAcceptChild fromNode parentName token) := by
  rw [NodeController.onAcceptChild]
  cases hbootstrap : c.bootstrapParentChannel with
  | none => exact keeps_dropPeer hc fromNode
  | some channel =>
    dsimp only
    split_ifs with hparent
    · exact keeps_dropPeer hc fromNode
    · obtain ⟨hother, htoken⟩ := h channel hbootstrap (not_not.1 hparent)
      obtain ⟨hclient, howner, hisSome⟩ := hc.bootstrap hbootstrap
      -- The pair of the channel was made by the parent, for this process.
      obtain ⟨p, hp, hpt⟩ := Option.bind_eq_some_iff.1 htoken
      have hmem : p ∈ s.pairs := List.mem_of_getElem? hp
      have hpisSome : p.token.isSome := Option.isSome_iff_exists.2 ⟨token, hpt⟩
      rw [owner, Handle.pair_other, hp, Handle.server_other, hclient] at hother
      cases hother
      rw [owner, hp, hclient] at howner
      cases howner
      have hvalid := hs.parent p hmem hpisSome
      refine ⟨{ hc with bootstrap := ?_, adopted := ?_, parent := ?_, rest := ?_ }, ?_⟩
      · intro h hh
        cases hh
      · intro z h hz _ _
        exact hvalid
      · intro _
        exact ⟨p, hmem, hpisSome, rfl, rfl⟩
      · intro z h hrest
        cases hrest
        refine ⟨⟨?_, ?_⟩, hvalid⟩
        · rw [owner, hp, hclient]
          rfl
        · rw [owner, Handle.pair_other, hp, Handle.server_other, hclient]
          rfl
      · refine proper_cons (fun h m hm => ?_) proper_nil
        cases hm
        have howner : s.owner channel = some p.client := by
          rw [owner, hp, hclient]
          rfl
        exact ⟨howner, hclient, howner.trans (congrArg some hc.name.symm), htoken⟩

/-- A child that tells its name over the right channel becomes a peer. -/
theorem keeps_onAcceptParent {c : NodeController Handle ℕ} (hc : s.Party n c .done)
    {fromNode token childName : NodeName}
    (h : ∀ channel, c.pendingChildren fromNode = some channel → token = fromNode →
      s.owner channel.other = some childName ∧ s.remoteNodeName channel = childName) :
    s.Keeps n (c.onAcceptParent fromNode token childName) := by
  rw [NodeController.onAcceptParent]
  cases hpending : c.pendingChildren fromNode with
  | none => exact keeps_dropPeer hc fromNode
  | some channel =>
    dsimp only
    split_ifs with htoken
    · exact keeps_dropPeer hc fromNode
    · obtain ⟨hother, hname⟩ := h channel hpending (not_not.1 htoken)
      obtain ⟨hserver, howner, -⟩ := hc.pending hpending
      have hdropped : s.Party n { c with
          pendingChildren := Function.update c.pendingChildren fromNode none } .done := by
        refine { hc with pending := fun {t d} ht => ?_ }
        rcases eq_some_of_update ht with ⟨-, hnone⟩ | ht
        · cases hnone
        · exact hc.pending ht
      refine ⟨hdropped.addPeer ⟨howner, hother⟩ hname (fun hclient => ?_) false,
        proper_addPeer _ howner false⟩
      rw [hserver] at hclient
      cases hclient

/-- Both processes are told the name of the other one. -/
theorem keeps_onRequestIntroduction {c : NodeController Handle ℕ} (hc : s.Party n c .done)
    {fromNode name : NodeName} {newChannel : Handle × Handle}
    (hserver : s.Joins newChannel.1 fromNode name ∧ s.tokenOf newChannel.1 = none)
    (hclient : s.Joins newChannel.2 name fromNode ∧ s.tokenOf newChannel.2 = none) :
    s.Keeps n (c.onRequestIntroduction fromNode name newChannel) := by
  rcases c.onRequestIntroduction_cases fromNode name newChannel with
    heq | heq | ⟨requestor, hrequestor, heq⟩ |
    ⟨requestor, newFriend, -, hrequestor, hnewFriend, heq⟩
  · rw [heq]
    exact keeps_dropPeer hc fromNode
  · rw [heq]
    exact ⟨hc, proper_nil⟩
  · rw [heq]
    refine ⟨hc, proper_cons (fun h m hm => ?_) proper_nil⟩
    cases hm
    exact ⟨(hc.peer hrequestor).1.1, trivial⟩
  · rw [heq]
    refine ⟨hc, proper_cons (fun h m hm => ?_) (proper_cons (fun h m hm => ?_) proper_nil)⟩
    · cases hm
      exact ⟨(hc.peer hrequestor).1.1, fromNode, (hc.peer hrequestor).1.2, hserver⟩
    · cases hm
      exact ⟨(hc.peer hnewFriend).1.1, name, (hc.peer hnewFriend).1.2, hclient⟩

/-- A process that is introduced becomes a peer over the channel given. -/
theorem keeps_onIntroduce {c : NodeController Handle ℕ} (hc : s.Party n c .done)
    {fromNode name : NodeName} {channelHandle : Option Handle}
    (h : ∀ channel, channelHandle = some channel → fromNode = c.parentName →
      s.Joins channel n name ∧ s.tokenOf channel = none ∧ s.remoteNodeName channel = name) :
    s.Keeps n (c.onIntroduce fromNode name channelHandle) := by
  unfold NodeController.onIntroduce
  split_ifs with hparent
  · cases channelHandle with
    | none => exact keeps_dropPeer hc fromNode
    | some channel => exact keeps_dropPeer hc fromNode
  · cases channelHandle with
    | none => exact ⟨{ hc with }, proper_nil⟩
    | some channel =>
      obtain ⟨hjoins, htoken, hname⟩ := h channel rfl (not_not.1 hparent)
      refine ⟨hc.addPeer hjoins hname (fun _ hisSome => ?_) true,
        proper_addPeer c hjoins.1 true⟩
      rw [htoken] at hisSome
      cases hisSome

/-- Every task leaves a process with what is true. -/
theorem keeps_run (hs : s.Inv) (hdone : (s.process n).rest = .done)
    {task : NodeController.Task Handle} (ht : s.Admits n task)
    (hnames : ∀ channel name, Network.names (s.process n).controller task = some (channel, name) →
      s.remoteNodeName channel = name) : s.Keeps n ((s.process n).controller.run task) := by
  have hc := hs.party n
  rw [hdone] at hc
  cases task with
  | connectToChild channel token =>
    obtain ⟨hserver, howner, htoken, -⟩ := ht
    exact keeps_connectToChild hc hserver howner htoken
  | connectToParent channel =>
    obtain ⟨hclient, howner, htoken⟩ := ht
    exact keeps_connectToParent hc hclient howner htoken
  | onAcceptChild fromNode parentName token => exact keeps_onAcceptChild hs hc fromNode ht
  | onAcceptParent fromNode token childName =>
    refine keeps_onAcceptParent hc fun channel hchannel htoken =>
      ⟨ht channel hchannel htoken, hnames channel childName ?_⟩
    rw [Network.names, if_pos htoken, hchannel]
    rfl
  | onRequestIntroduction fromNode name newChannel =>
    obtain ⟨hserver, hserver', hclient, hclient'⟩ := ht
    exact keeps_onRequestIntroduction hc ⟨hserver, hserver'⟩ ⟨hclient, hclient'⟩
  | onIntroduce fromNode name channelHandle =>
    refine keeps_onIntroduce hc fun channel hchannel hparent => ?_
    subst hchannel
    obtain ⟨hjoins, htoken⟩ := ht hparent
    exact ⟨hjoins, htoken, hnames channel name (if_pos hparent)⟩
  | onChannelError fromNode => exact keeps_dropPeer hc fromNode
  | dropAllPeers => exact ht.elim

/-! ### What a step does -/

/-- What is posted goes over the wire, and nowhere else. -/
theorem post_eq (s : Network α) (o : Output Handle ℕ) :
    s.post o = { s with wire := (s.post o).wire } := by
  rw [post]
  cases message o with
  | none => rfl
  | some x => rfl

/-- What is posted goes over the wire, message by message. -/
theorem posts_eq (s : Network α) (outputs : List (Output Handle ℕ)) :
    outputs.foldl post s = { s with wire := (outputs.foldl post s).wire } := by
  induction outputs generalizing s with
  | nil => rfl
  | cons o outputs ih =>
    rw [List.foldl_cons, ih, post_eq]

/-- A process changes, and what it asks for is posted. -/
theorem update_eq (s : Network α) (n : NodeName) (p : Process Handle ℕ)
    (outputs : List (Output Handle ℕ)) :
    s.update n p outputs = { s with
      process := Function.update s.process n { p with history := [] }
      wire := (s.update n p outputs).wire } := by
  rw [update, posts_eq]

/-- What is written to a channel. -/
def writtenTo (h : Handle) (o : Output Handle ℕ) : Option (NodeMessage Handle ℕ) :=
  (message o).bind fun x => if x.1 = h then some x.2 else none

/-- A message is written at the end of its channel. -/
theorem wire_post (s : Network α) (o : Output Handle ℕ) (h : Handle) :
    (s.post o).wire h = s.wire h ++ (writtenTo h o).toList := by
  rw [post, writtenTo]
  cases message o with
  | none => exact (List.append_nil _).symm
  | some x =>
    dsimp only [write, Option.bind_some]
    by_cases hx : x.1 = h
    · subst hx
      rw [Function.update_self, if_pos rfl]
      rfl
    · rw [Function.update_of_ne (Ne.symm hx), if_neg hx]
      exact (List.append_nil _).symm

/-- Messages are written in their order. -/
theorem wire_posts (s : Network α) (outputs : List (Output Handle ℕ)) (h : Handle) :
    (outputs.foldl post s).wire h = s.wire h ++ outputs.filterMap (writtenTo h) := by
  induction outputs generalizing s with
  | nil => exact (List.append_nil _).symm
  | cons o outputs ih =>
    rw [List.foldl_cons, ih, wire_post, List.append_assoc, List.filterMap_cons]
    cases writtenTo h o with
    | none => rfl
    | some m => rfl

/-- What a process asks for is written at the ends of its channels. -/
theorem wire_update (s : Network α) (n : NodeName) (p : Process Handle ℕ)
    (outputs : List (Output Handle ℕ)) (h : Handle) :
    (s.update n p outputs).wire h = s.wire h ++ outputs.filterMap (writtenTo h) :=
  wire_posts _ outputs h

theorem writtenTo_eq_some {h : Handle} {o : Output Handle ℕ} {m : NodeMessage Handle ℕ}
    (hm : writtenTo h o = some m) : message o = some (h, m) := by
  obtain ⟨x, hx, hm⟩ := Option.bind_eq_some_iff.1 hm
  split_ifs at hm with hh
  cases hm
  rw [hx, ← hh]

/-- A process has done something: what was right is right, and only the process has written
    to channels, or read what leads to it. -/
structure Advances (s : Network α) (n : NodeName) (s' : Network α) : Prop where
  inv : s'.Inv
  pairs : s.pairs <+: s'.pairs
  wire : ∀ {h}, s'.owner h ≠ some n → s'.wire h <:+ s.wire h
  reader : ∀ {h}, s'.owner h.other ≠ some n → s.wire h <+: s'.wire h

/-- Nothing is done. -/
theorem Inv.advances (hs : s.Inv) : s.Advances n s :=
  ⟨hs, List.prefix_rfl, fun _ => List.suffix_rfl, fun _ => List.prefix_rfl⟩

/-- One after the other. -/
theorem Advances.trans {s₁ : Network α} (h : s.Advances n s₁) (h' : s₁.Advances n s') :
    s.Advances n s' where
  inv := h'.inv
  pairs := h.pairs.trans h'.pairs
  wire hn := (h'.wire hn).trans (h.wire fun howner => hn (owner_of_pairs h'.pairs howner))
  reader hn := (h.reader fun howner => hn (owner_of_pairs h'.pairs howner)).trans (h'.reader hn)

/-- A process changes to one that has what is true, and tells what is true. -/
theorem Inv.update (hs : s.Inv) {p : Process Handle ℕ} (hp : s.Party n p.controller p.rest)
    (hcalls : ∀ {m call}, p.calls m = some call → s.Leads n call)
    {outputs : List (Output Handle ℕ)} (houtputs : s.Proper n outputs) :
    s.Advances n (s.update n p outputs) := by
  have hpairs : (s.update n p outputs).pairs = s.pairs := by rw [update_eq]
  have hprefix : s.pairs <+: (s.update n p outputs).pairs := hpairs ▸ List.prefix_rfl
  have hnames (h : Handle) : (s.update n p outputs).remoteNodeName h = s.remoteNodeName h := by
    rw [update_eq]
  have hprocess : (s.update n p outputs).process =
      Function.update s.process n { p with history := [] } := by rw [update_eq]
  have htoken (h : Handle) : (s.update n p outputs).tokenOf h = s.tokenOf h := by
    rw [tokenOf, tokenOf, hpairs]
  refine ⟨⟨fun x => ?_, fun {x m call} hcall => ?_, fun h m hm => ?_, fun {h d t} hh hd => ?_,
    fun q hq => ?_, fun x => ?_⟩, hprefix, fun {h} hn => ?_, fun {h} _ => ?_⟩
  · rw [hprocess]
    by_cases hx : x = n
    · subst hx
      rw [Function.update_self]
      exact hp.of_pairs hprefix fun _ => hnames _
    · rw [Function.update_of_ne hx]
      exact (hs.party x).of_pairs hprefix fun _ => hnames _
  · rw [hprocess] at hcall
    by_cases hx : x = n
    · subst hx
      rw [Function.update_self] at hcall
      exact (hcalls hcall).of_pairs hprefix
    · rw [Function.update_of_ne hx] at hcall
      exact (hs.calls hcall).of_pairs hprefix
  · rw [wire_update] at hm
    rcases List.mem_append.1 hm with hm | hm
    · exact (hs.wire h m hm).of_pairs hprefix
    · obtain ⟨o, ho, hm⟩ := List.mem_filterMap.1 hm
      exact (houtputs o ho h m (writtenTo_eq_some hm)).2.of_pairs hprefix
  · rw [htoken] at hh hd
    exact hs.token hh hd
  · rw [hpairs] at hq
    exact hs.parent q hq
  · rw [hprocess]
    by_cases hx : x = n
    · subst hx
      rw [Function.update_self]
    · rw [Function.update_of_ne hx]
      exact hs.history x
  · -- A process only writes to its own channels.
    rw [owner, hpairs] at hn
    have hnone : outputs.filterMap (writtenTo h) = [] := by
      refine List.filterMap_eq_nil_iff.2 fun o ho => Option.eq_none_iff_forall_ne_some.2 ?_
      exact fun m hm => hn (houtputs o ho h m (writtenTo_eq_some hm)).1
    rw [wire_update, hnone, List.append_nil]
  · rw [wire_update]
    exact List.prefix_append _ _

/-- A pair is made, with a token that is new. -/
theorem Inv.addPair (hs : s.Inv) {server client : NodeName} {token : Option NodeName}
    (htoken : ∀ t, token = some t → server ≠ kInvalidNodeName ∧ ∀ p ∈ s.pairs, p.token ≠ some t) :
    s.Advances n (s.addPair server client token) := by
  have hprefix : s.pairs <+: (s.addPair server client token).pairs := List.prefix_append _ _
  have hnew {h : Handle} {t : NodeName} (ht : token = some t) : s.tokenOf h ≠ some t := by
    intro hh
    obtain ⟨p, hp, hpt⟩ := Option.bind_eq_some_iff.1 hh
    exact (htoken t ht).2 p (List.mem_of_getElem? hp) hpt
  refine ⟨⟨fun x => (hs.party x).of_pairs hprefix fun _ => rfl,
    fun hcall => (hs.calls hcall).of_pairs hprefix,
    fun h m hm => (hs.wire h m hm).of_pairs hprefix, fun {h d t} hh hd => ?_,
    fun p hp hpt => ?_, hs.history⟩, hprefix, fun _ => List.suffix_rfl,
    fun _ => List.prefix_rfl⟩
  · rcases tokenOf_addPair hh with hh | ⟨hh, ht⟩
    · rcases tokenOf_addPair hd with hd | ⟨-, ht⟩
      · exact hs.token hh hd
      · exact absurd hh (hnew ht)
    · rcases tokenOf_addPair hd with hd | ⟨hd, -⟩
      · exact absurd hd (hnew ht)
      · exact hh.trans hd.symm
  · rcases List.mem_append.1 hp with hp | hp
    · exact hs.parent p hp hpt
    · rw [List.mem_singleton.1 hp] at hpt ⊢
      obtain ⟨t, ht⟩ := Option.isSome_iff_exists.1 hpt
      exact (htoken t ht).1

/-- The pair for a child has the token that is drawn for it. -/
theorem Inv.addPair_child (hs : s.Inv) {child token : NodeName}
    (hG : s.Sound (.connectToChild n child token)) :
    s.Advances n (s.addPair n child (some token)) := by
  refine hs.addPair fun t ht => ?_
  cases ht
  exact hG

/-- A channel is given a name that is its peer's. -/
theorem Inv.setRemoteNodeName (hs : s.Inv) {o : Option (Handle × NodeName)}
    (ho : ∀ channel name, o = some (channel, name) →
      ∀ {x y}, (s.process x).controller.peers y = some channel → y = name) :
    s.Advances n (s.setRemoteNodeName o) := by
  cases o with
  | none => exact hs.advances
  | some a =>
    obtain ⟨channel, name⟩ := a
    refine ⟨⟨fun x => (hs.party x).of_pairs List.prefix_rfl fun {y h} hy => ?_, hs.calls,
      hs.wire, hs.token, hs.parent, hs.history⟩, List.prefix_rfl, fun _ => List.suffix_rfl,
      fun _ => List.prefix_rfl⟩
    dsimp only [Network.setRemoteNodeName]
    by_cases hh : h = channel
    · subst hh
      rw [Function.update_self, ((hs.party x).peer hy).2]
      exact (ho h name rfl hy).symm
    · rw [Function.update_of_ne hh]

/-- The name of the process at the other end is right for whoever knows it. -/
theorem Inv.setRemoteNodeName_of_joins (hs : s.Inv) {channel : Handle} {name : NodeName}
    (hjoins : s.Joins channel n name) :
    s.Advances n (s.setRemoteNodeName (some (channel, name))) := by
  refine hs.setRemoteNodeName fun c y hy {x z} hz => ?_
  cases hy
  exact Option.some.inj (((hs.party x).peer hz).1.2.symm.trans hjoins.2)

theorem setRemoteNodeName_eq (s : Network α) (o : Option (Handle × NodeName)) :
    s.setRemoteNodeName o =
      { s with remoteNodeName := (s.setRemoteNodeName o).remoteNodeName } := by
  cases o with
  | none => rfl
  | some a => rfl

/-- A channel that is given a name has it. -/
theorem remoteNodeName_setRemoteNodeName {o : Option (Handle × NodeName)} {channel : Handle}
    {name : NodeName} (ho : o = some (channel, name)) :
    (s.setRemoteNodeName o).remoteNodeName channel = name := by
  subst ho
  exact Function.update_self _ _ _

/-- A task is run. -/
theorem Inv.run (hs : s.Inv) {task : NodeController.Task Handle} (ht : s.Admits n task)
    (h : s.run n task = some s') : s.Advances n s' := by
  rw [Network.run] at h
  split_ifs at h with hdone
  cases h
  have hs₁ := hs.setRemoteNodeName (n := n) fun channel name hname => hs.names ht hname
  have hnamed {channel : Handle} {name : NodeName}
      (hname : Network.names (s.process n).controller task = some (channel, name)) :=
    remoteNodeName_setRemoteNodeName (s := s) hname
  rw [setRemoteNodeName_eq] at hs₁ hnamed ⊢
  obtain ⟨hp, houtputs⟩ := keeps_run hs₁.inv hdone ht fun _ _ => hnamed
  refine hs₁.trans (hs₁.inv.update hp ?_ houtputs)
  exact hs₁.inv.calls

/-- What nothing that is known depends on may change. -/
theorem Inv.of_eq (hs : s.Inv) (hprocess : s'.process = s.process) (hpairs : s'.pairs = s.pairs)
    (hnames : s'.remoteNodeName = s.remoteNodeName) (hwire : ∀ h, s'.wire h <:+ s.wire h)
    (hreader : ∀ h, s.owner h.other ≠ some n → s.wire h <+: s'.wire h) : s.Advances n s' := by
  have hprefix : s.pairs <+: s'.pairs := hpairs ▸ List.prefix_rfl
  have htoken (h : Handle) : s'.tokenOf h = s.tokenOf h := by rw [tokenOf, tokenOf, hpairs]
  refine ⟨⟨fun x => ?_, fun {x m call} hcall => ?_,
    fun h m hm => (hs.wire h m ((hwire h).subset hm)).of_pairs hprefix, fun {h d t} hh hd => ?_,
    fun p hp => ?_, fun x => ?_⟩, hprefix, fun _ => hwire _, fun {h} hn => hreader h ?_⟩
  · rw [hprocess]
    exact (hs.party x).of_pairs hprefix fun _ => congrFun hnames _
  · rw [hprocess] at hcall
    exact (hs.calls hcall).of_pairs hprefix
  · rw [htoken] at hh hd
    exact hs.token hh hd
  · rw [hpairs] at hp
    exact hs.parent p hp
  · rw [hprocess]
    exact hs.history x
  · rwa [owner, hpairs] at hn

/-- A message is read, at the other end of the channel that it was written to. -/
theorem Inv.receive (hs : s.Inv) {h : Handle} (howner : s.owner h = some n)
    {m : NodeMessage Handle ℕ} {ms : List (NodeMessage Handle ℕ)}
    (hms : s.wire h.other = m :: ms) :
    s.Advances n { s with wire := Function.update s.wire h.other ms } := by
  refine hs.of_eq rfl rfl rfl (fun d => ?_) fun d hn => ?_
  · dsimp only
    by_cases hd : d = h.other
    · subst hd
      rw [Function.update_self, hms]
      exact List.suffix_cons m ms
    · rw [Function.update_of_ne hd]
  · have hd : d ≠ h.other := by
      rintro rfl
      rw [Handle.other_other] at hn
      exact hn howner
    dsimp only
    rw [Function.update_of_ne hd]

/-- A message that is forwarded waits, for its node or for its channel. -/
theorem Inv.forward (hs : s.Inv) (x : NodeName × Ports.Event α) :
    s.Advances n (s.forward n x) := by
  have hs₁ : s.Advances n { s with messages := s.messages ++ [x] } :=
    hs.of_eq rfl rfl rfl (fun _ => List.suffix_rfl) fun _ _ => List.prefix_rfl
  have hc := hs₁.inv.party n
  have hcalls {m : ℕ} {call : Call Handle} (hcall : (s.process n).calls m = some call) :=
    hs₁.inv.calls hcall
  refine hs₁.trans (hs₁.inv.update ?_ (fun {m call} hcall => ?_) proper_nil)
  · rw [Process.forwardMessage]
    split_ifs
    · exact { hc with }
    · exact hc
  · rw [Process.forwardMessage] at hcall
    split_ifs at hcall
    · exact hcalls hcall
    · rcases eq_some_of_update hcall with ⟨-, hself⟩ | hcall
      · cases hself
        trivial
      · exact hcalls hcall

/-- The nodes go on, and hand over the events they send. -/
theorem Inv.handOver (hs : s.Inv) (t : System α) : s.Advances n (s.handOver n t) := by
  have hs₁ : s.Advances n { s with system := { t with inFlight := [] } } :=
    hs.of_eq rfl rfl rfl (fun _ => List.suffix_rfl) fun _ _ => List.prefix_rfl
  rw [Network.handOver]
  generalize t.inFlight = xs at *
  generalize { s with system := { t with inFlight := [] } } = s₁ at *
  induction xs generalizing s₁ with
  | nil => exact hs₁
  | cons x xs ih => exact ih _ (hs₁.trans (hs₁.inv.forward x))

/-- A node is given an event. -/
theorem Inv.accept (hs : s.Inv) {m : ℕ} (h : s.accept n m = some s') : s.Advances n s' := by
  rw [Network.accept] at h
  split at h
  · cases h
  · split_ifs at h
    cases h
    exact hs.handOver _

/-- What a channel leads to, if a process has it: it is its own, and the names in the messages
    are right for it. -/
theorem Inv.owner_of_uses (hs : s.Inv) {h : Handle} (hh : s.Uses n h) : s.owner h = some n := by
  rcases hh with hbootstrap | hpending | hpeer
  · exact ((hs.party n).bootstrap hbootstrap).2.1
  · exact ((hs.party n).pending hpending).2.1
  · exact ((hs.party n).peer hpeer).1.1

/-- `OnAcceptChild` is about the channel that the message came from. -/
theorem Inv.admits_onAcceptChild (hs : s.Inv) {h : Handle} (hh : s.Uses n h)
    {parentName token : NodeName} (hm : s.Truthful h.other (.acceptChild parentName token)) :
    s.Admits n (.onAcceptChild (s.remoteNodeName h) parentName token) := by
  obtain ⟨hserver, howner, htoken⟩ := hm
  have hclient : h.server = false := by simpa using hserver
  intro channel hchannel hparent
  rcases hh with hbootstrap | hpending | hpeer
  · cases hbootstrap.symm.trans hchannel
    exact ⟨howner, htoken⟩
  · cases hclient.symm.trans ((hs.party n).pending hpending).1
  · have hisSome : (s.tokenOf h).isSome := Option.isSome_iff_exists.2 ⟨token, htoken⟩
    exact absurd hparent ((hs.party n).adopted hpeer hclient hisSome)

/-- `OnAcceptParent` is about the channel that the message came from: there is no other one
    with the token. -/
theorem Inv.admits_onAcceptParent (hs : s.Inv) {h : Handle} {token childName : NodeName}
    (hm : s.Truthful h.other (.acceptParent token childName)) :
    s.Admits n (.onAcceptParent (s.remoteNodeName h) token childName) := by
  obtain ⟨hclient, howner, htoken⟩ := hm
  intro channel hchannel htoken'
  obtain ⟨hserver, -, hpending⟩ := (hs.party n).pending hchannel
  rw [← htoken'] at hpending
  have hpair : channel.pair = h.pair := hs.token hpending htoken
  rw [← howner, owner, owner, Handle.pair_other, Handle.pair_other, Handle.server_other, hserver,
    hclient, hpair]
  rfl

/-- The handles of a new pair are for the processes that are introduced. -/
theorem admits_onRequestIntroduction (s : Network α) (fromNode name : NodeName) :
    (s.addPair fromNode name none).Admits n (.onRequestIntroduction fromNode name
      (⟨s.pairs.length, true⟩, ⟨s.pairs.length, false⟩)) :=
  ⟨⟨owner_addPair_server s _ _ _, owner_addPair_client s _ _ _⟩, tokenOf_addPair_self s _ _ _ true,
    ⟨owner_addPair_client s _ _ _, owner_addPair_server s _ _ _⟩,
    tokenOf_addPair_self s _ _ _ false⟩

/-- An introduction that is true may be taken. -/
theorem Inv.admits_onIntroduce (hs : s.Inv) {h : Handle} (hh : s.Uses n h) {name : NodeName}
    {handle : Option Handle} (hm : s.Truthful h.other (.introduce name handle)) :
    s.Admits n (.onIntroduce (s.remoteNodeName h) name handle) := by
  cases handle with
  | none => trivial
  | some d =>
    obtain ⟨x, howner, hjoins, htoken⟩ := hm
    rw [Handle.other_other, hs.owner_of_uses hh] at howner
    cases howner
    exact fun _ => ⟨hjoins, htoken⟩

/-- A new pair may be used to connect to a child. -/
theorem Inv.admits_connectToChild (hs : s.Inv) (child token : NodeName) :
    (s.addPair n child (some token)).Admits n (.connectToChild ⟨s.pairs.length, true⟩ token) := by
  refine ⟨rfl, owner_addPair_server s _ _ _, tokenOf_addPair_self s _ _ _ true, ?_⟩
  intro x y hy
  obtain ⟨p, hp, -⟩ := Option.map_eq_some_iff.1 ((hs.party x).peer hy).1.1
  exact absurd (List.getElem?_eq_some_iff.1 hp).1 (lt_irrefl _)

/-- A message that is read is handled. -/
theorem Inv.onChannelMessage (hs : s.Inv) {h : Handle} (hh : s.Uses n h)
    {m : NodeMessage Handle ℕ} (hm : s.Truthful h.other m)
    (hstep : s.onChannelMessage n h m = some s') : s.Advances n s' := by
  cases m with
  | acceptChild parentName token => exact hs.run (hs.admits_onAcceptChild hh hm) hstep
  | acceptParent token childName => exact hs.run (hs.admits_onAcceptParent hm) hstep
  | portsMessage m =>
    rw [Network.onChannelMessage] at hstep
    split_ifs at hstep
    exact hs.accept hstep
  | requestIntroduction name =>
    have hs₁ : s.Advances n (s.addPair (s.remoteNodeName h) name none) :=
      hs.addPair fun t ht => by cases ht
    exact hs₁.trans (hs₁.inv.run (admits_onRequestIntroduction s _ name) hstep)
  | introduce name handle => exact hs.run (hs.admits_onIntroduce hh hm) hstep
  | requestPortConnection portName token => cases hstep
  | connectToPort token connecteePortName => cases hstep

/-- A call goes on. It takes its channels from the peers of its process. -/
theorem Inv.sendPeerMessage (hs : s.Inv) {m : ℕ} {call : Call Handle}
    (hcall : (s.process n).calls m = some call) :
    let p := (s.process n).sendPeerMessage m call
    s.Party n p.controller p.rest ∧ (∀ {m' call'}, p.calls m' = some call' → s.Leads n call') ∧
      s.Proper n (outputs p.history) := by
  have hc := hs.party n
  have hnext {next : Option (Call Handle)} (hnext : ∀ call', next = some call' → s.Leads n call')
      {m' : ℕ} {call' : Call Handle}
      (h : Function.update (s.process n).calls m next m' = some call') : s.Leads n call' := by
    rcases eq_some_of_update h with ⟨-, hself⟩ | h
    · exact hnext call' hself
    · exact hs.calls h
  have hquiet : s.Proper n (outputs (s.process n).history) := by
    rw [hs.history n]
    exact proper_nil
  have hleads := hs.calls hcall
  cases call with
  | getPeerChannel name =>
    rw [Process.sendPeerMessage]
    cases hpeer : (s.process n).controller.getPeerChannel name with
    | some peer =>
      refine ⟨hc, hnext fun call' h => ?_, hquiet⟩
      cases h
      exact (hc.peer hpeer).1
    | none =>
      refine ⟨hc, hnext fun call' h => ?_, hquiet⟩
      cases h
      trivial
  | portsMessage name channel =>
    refine ⟨hc, hnext fun call' h => (by cases h), ?_⟩
    rw [Process.sendPeerMessage, hs.history n]
    refine proper_cons (fun h m' hm => ?_) proper_nil
    cases hm
    exact ⟨hleads.1, trivial⟩
  | enqueue name =>
    refine ⟨{ hc with }, hnext fun call' h => ?_, hquiet⟩
    split_ifs at h
    cases h
    trivial
  | getParentName name =>
    refine ⟨hc, hnext fun call' h => ?_, hquiet⟩
    cases h
    trivial
  | getParentChannel name parentName =>
    rw [Process.sendPeerMessage]
    cases hpeer : (s.process n).controller.getPeerChannel parentName with
    | some parent =>
      refine ⟨hc, hnext fun call' h => ?_, hquiet⟩
      cases h
      exact (hc.peer hpeer).1.1
    | none => exact ⟨hc, hnext fun call' h => (by cases h), hquiet⟩
  | requestIntroduction name channel =>
    refine ⟨hc, hnext fun call' h => (by cases h), ?_⟩
    rw [Process.sendPeerMessage, hs.history n]
    refine proper_cons (fun h m' hm => ?_) proper_nil
    cases hm
    exact ⟨hleads, trivial⟩

/-- Every sound step is one of some process, and keeps what is true. -/
theorem Inv.step (hs : s.Inv) {i : Input α} (hG : s.Sound i) (h : s.step i = some s') :
    ∃ n, i.process = some n ∧ s.Advances n s' := by
  cases i with
  | call a =>
    obtain ⟨n, hn, h⟩ := Option.bind_eq_some_iff.1 h
    obtain ⟨t, -, rfl⟩ := Option.map_eq_some_iff.1 h
    exact ⟨n, hn, hs.handOver t⟩
  | takeIncoming n thread =>
    rw [Network.step] at h
    split_ifs at h
    cases h
    have hs₁ : s.Advances n { s with
        taken := Function.update s.taken (n, thread)
          (s.process n).controller.incomingMessages } :=
      hs.of_eq rfl rfl rfl (fun _ => List.suffix_rfl) fun _ _ => List.prefix_rfl
    refine ⟨n, rfl, hs₁.trans (hs₁.inv.update ?_ ?_ proper_nil)⟩
    · exact { hs₁.inv.party n with }
    · exact hs₁.inv.calls
  | acceptTaken n thread =>
    rw [Network.step] at h
    split at h
    · cases h
    · rename_i m ms hms
      have hs₁ : s.Advances n { s with taken := Function.update s.taken (n, thread) ms } :=
        hs.of_eq rfl rfl rfl (fun _ => List.suffix_rfl) fun _ _ => List.prefix_rfl
      exact ⟨n, rfl, hs₁.trans (hs₁.inv.accept h)⟩
  | sendPeerMessage n m =>
    obtain ⟨call, hcall, rfl⟩ := Option.map_eq_some_iff.1 h
    obtain ⟨hp, hcalls, houtputs⟩ := hs.sendPeerMessage hcall
    exact ⟨n, rfl, hs.update hp hcalls houtputs⟩
  | connectToChild n child token =>
    have hs₁ := hs.addPair_child hG
    exact ⟨n, rfl, hs₁.trans (hs₁.inv.run (hs.admits_connectToChild child token) h)⟩
  | connectToParent n d =>
    obtain ⟨hclient, howner, htoken, -⟩ := hG
    have ht : s.Admits n (.connectToParent d) := ⟨hclient, howner, htoken⟩
    exact ⟨n, rfl, hs.run ht h⟩
  | receive n d =>
    rw [Network.step] at h
    split_ifs at h with hd
    split at h
    · cases h
    · rename_i m ms hms
      have hm := hs.wire d.other m (hms ▸ List.mem_cons_self)
      have hs₁ : s.Advances n { s with wire := Function.update s.wire d.other ms } :=
        hs.receive (hs.owner_of_uses hd) hms
      exact ⟨n, rfl, hs₁.trans (hs₁.inv.onChannelMessage hd hm h)⟩
  | channelError n d =>
    rw [Network.step] at h
    split_ifs at h
    have ht : s.Admits n (.onChannelError (s.remoteNodeName d)) := trivial
    exact ⟨n, rfl, hs.run ht h⟩
  | resume n =>
    rw [Network.step] at h
    have hc := hs.party n
    cases hrest : (s.process n).rest with
    | done =>
      rw [hrest] at h
      cases h
    | addPeer name channel =>
      rw [hrest] at h hc
      cases h
      obtain ⟨hjoins, hparent⟩ := hc.rest rfl
      -- The name is set before the peer is added, so that both steps keep the invariant.
      have hs₁ := hs.setRemoteNodeName_of_joins hjoins
      refine ⟨n, rfl, hs₁.trans (hs₁.inv.update ?_ ?_ (proper_addPeer _ hjoins.1 false))⟩
      · exact (hs₁.inv.party n).addPeer hjoins (Function.update_self _ _ _) (fun _ _ => hparent)
          false
      · exact hs₁.inv.calls
    | lostConnectionToNode name =>
      rw [hrest] at h hc
      obtain ⟨t, -, rfl⟩ := Option.map_eq_some_iff.1 h
      have hs₁ : s.Advances n (s.update n { s.process n with rest := .done } []) := by
        refine hs.update ?_ ?_ proper_nil
        · exact { hc with rest := fun hr => by cases hr }
        · exact hs.calls
      exact ⟨n, rfl, hs₁.trans (hs₁.inv.handOver t)⟩

/-- Nothing is connected at first. -/
theorem inv_init : (machine α).init.Inv where
  party n := by
    refine ⟨rfl, ?_, ?_, ?_, ?_, ?_, ?_⟩
    · intro y h hy
      cases hy
    · intro t h ht
      cases ht
    · intro h hh
      cases hh
    · intro y h hy
      cases hy
    · intro hparent
      exact absurd rfl hparent
    · intro y h hrest
      cases hrest
  calls hcall := by cases hcall
  wire h m hm := by cases hm
  token hh := by cases hh
  parent p hp := by cases hp
  history n := rfl

/-- What is true of the network is so in every reachable state. -/
theorem inv_of_reachable (hs : (machine α).Reachable Sound s) : s.Inv :=
  hs.invariant inv_init fun hs hG h => by
    obtain ⟨n, -, hs⟩ := hs.step hG h
    exact hs.inv

/-- The names that processes have for each other are right. The channel of a peer of that name
    leads to it, and at the other end is not known under another name than that of the
    process. A process that has a parent got its handle from it. Only the process that
    a handle was made for writes to the channel, and only the one that the other handle of the
    pair was made for reads what was written, in order. -/
theorem peers_agree (hs : (machine α).Reachable Sound s) :
    (∀ x y h, (s.process x).controller.peers y = some h →
      s.remoteNodeName h = y ∧ s.owner h = some x ∧ s.owner h.other = some y ∧
        ∀ z w, (s.process z).controller.peers w = some h.other → z = y ∧ w = x) ∧
    (∀ x, (s.process x).controller.parentName ≠ kInvalidNodeName →
      ∃ p ∈ s.pairs, p.token.isSome ∧ p.server = (s.process x).controller.parentName ∧
        p.client = x) ∧
    ∀ i s', s.Sound i → s.step i = some s' → s.pairs <+: s'.pairs ∧
      ∀ h, (s'.owner h ≠ i.process → s'.wire h <:+ s.wire h) ∧
        (s'.owner h.other ≠ i.process → s.wire h <+: s'.wire h) := by
  have hinv := inv_of_reachable hs
  refine ⟨fun x y h hy => ?_, fun x hx => (hinv.party x).parent hx, fun i s' hG h => ?_⟩
  · obtain ⟨⟨hx, hy'⟩, hname⟩ := (hinv.party x).peer hy
    refine ⟨hname, hx, hy', fun z w hz => ?_⟩
    obtain ⟨hz', hw⟩ := ((hinv.party z).peer hz).1
    rw [Handle.other_other] at hw
    exact ⟨Option.some.inj (hz'.symm.trans hy'), Option.some.inj (hw.symm.trans hx)⟩
  · obtain ⟨n, hn, hadvances⟩ := hinv.step hG h
    rw [hn]
    exact ⟨hadvances.pairs, fun h => ⟨hadvances.wire, hadvances.reader⟩⟩

/-- The node `1` has the children `2` and `3`. The node `2` sends a message to `3`, and is
    introduced to it. -/
def introduction : List (Input ℕ) :=
  [.connectToChild 1 2 10, .connectToParent 2 ⟨0, false⟩, .receive 2 ⟨0, false⟩, .resume 2,
    .receive 1 ⟨0, true⟩,
    .connectToChild 1 3 11, .connectToParent 3 ⟨1, false⟩, .receive 3 ⟨1, false⟩, .resume 3,
    .receive 1 ⟨1, true⟩,
    .call (.connect 2 3), .call (.sendMessage 2 1 7 []), .sendPeerMessage 2 0,
    .sendPeerMessage 2 0, .sendPeerMessage 2 0, .sendPeerMessage 2 0, .sendPeerMessage 2 0,
    .receive 1 ⟨0, true⟩, .receive 3 ⟨1, false⟩, .receive 2 ⟨0, false⟩, .receive 3 ⟨2, false⟩]

theorem peers_agree_introduction : ∃ s, (machine ℕ).Reachable Sound s ∧
    (s.process 3).controller.peers 2 = some ⟨2, false⟩ ∧ s.remoteNodeName ⟨2, false⟩ = 2 ∧
      s.owner ⟨2, true⟩ = some 2 := by
  obtain ⟨s, hs, hpeer⟩ := Machine.exists_reachable (M := machine ℕ) (G := Sound)
    (P := fun s => (s.process 3).controller.peers 2 = some ⟨2, false⟩) introduction
    (by decide +kernel)
  obtain ⟨hname, -, howner, -⟩ := (peers_agree hs).1 3 2 _ hpeer
  exact ⟨s, hs, hpeer, hname, howner⟩

end Network

end MojoEdk.Controller
