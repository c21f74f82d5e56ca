import MojoEdk.Library.Machine
import MojoEdk.Ports.Node

/-!
# Closing a port while a message arrives

One thread closes a port, and another one accepts a user message that is addressed to it.
What runs under one lock is one step: `ClosePort` marks the port and collects the ports that
are attached to its unread messages, then it erases the port, then it goes to the ports that
it collected, one after the other. `OnUserMessage` looks the port up, binds the ports of the
message, and then gives the message to the port that it found, which may be closed by then,
and erased.

A thread that has a reference to a port uses the port after it is erased. Such ports are kept
apart from the table (`Objects`).

The message is never given to a closed port, and no port that it brings is left behind, as
long as it is taken by a port that is receiving (`closed_or_collected`).
-/

namespace MojoEdk.Ports

/-- `PortRef`: the name of a port, and which of the ports that had this name it is. -/
structure PortRef where
  name : PortName
  id : ℕ
  deriving DecidableEq

/-- The ports of a node that threads may refer to: those in the table, and those that were
    erased from it. -/
structure Objects (α : Type*) where
  node : Node α
  ids : PortName → ℕ := fun _ => 0
  erased : PortRef → Option (Port α) := fun _ => none

variable {α : Type*}

namespace Objects

/-- The port is the one in the table. -/
def Live (s : Objects α) (ref : PortRef) : Prop :=
  s.ids ref.name = ref.id ∧ (s.node.getPort ref.name).isSome

instance (s : Objects α) : DecidablePred s.Live := fun _ => inferInstanceAs (Decidable (_ ∧ _))

/-- `GetPort`. -/
def lookup (s : Objects α) (name : PortName) : Option PortRef :=
  (s.node.getPort name).map fun _ => ⟨name, s.ids name⟩

/-- `PortRef::port`. -/
def get (s : Objects α) (ref : PortRef) : Option (Port α) :=
  if s.Live ref then s.node.getPort ref.name else s.erased ref

/-- A port changes. -/
def set (s : Objects α) (ref : PortRef) (port : Port α) : Objects α :=
  if s.Live ref then { s with node := s.node.setPort ref.name port }
  else { s with erased := Function.update s.erased ref (some port) }

/-- `ErasePort`. -/
def erase (s : Objects α) (name : PortName) : Objects α :=
  match s.node.getPort name with
  | none => s
  | some port =>
    { s with
      node := s.node.erasePort name
      erased := Function.update s.erased ⟨name, s.ids name⟩ (some port) }

/-- `AcceptPort`. There is no state after it if the name is not free, which is checked. -/
def acceptPort (s : Objects α) (name : PortName) (d : PortDescriptor) : Option (Objects α) :=
  match s.node.acceptPort name d with
  | (node, .ok) => some { s with node := node, ids := Function.update s.ids name (s.ids name + 1) }
  | _ => none

end Objects

/-- Where a thread is that calls `ClosePort`, with the names of the ports that it is to close
    next. -/
inductive Closer (α : Type*)
  | mark (ref : PortRef) (names : List PortName)
  | erase (name : PortName) (peerNodeName : NodeName) (event : Event α) (names : List PortName)
  | look (names : List PortName)
  deriving DecidableEq

/-- The names of the ports that are to be closed next. -/
def Closer.names : Closer α → List PortName
  | .mark _ names => names
  | .erase _ _ _ names => names
  | .look names => names

/-- Where a thread is that calls `OnUserMessage`, with the port that it found, and the ports
    that it is to bind. It returns if it has no ports to close in the end. -/
inductive Accepting (α : Type*)
  | getPort
  | bind (port : Option PortRef) (ports : List (PortName × PortDescriptor))
  | closing (closing : Closer α)
  deriving DecidableEq

/-- The two threads. The ports that were bound, the messages whose ports were collected, and
    whether a message was given to a closed port are history. -/
structure Threads (α : Type*) where
  objects : Objects α
  closing : Closer α
  accepting : Accepting α := .getPort
  bound : List PortRef := []
  collected : List (Message α) := []
  appendedToClosed : Bool := false

namespace Threads

/-- The first section of `ClosePort`. -/
def mark (s : Threads α) (ref : PortRef) (names : List PortName) : Closer α × Threads α :=
  match s.objects.get ref with
  | none => (.look names, s)
  | some port =>
    match port.state with
    | .uninitialized => (.look names, { s with objects := s.objects.erase ref.name })
    -- The port is closed under its lock, but only erased in the next section.
    | .receiving =>
      (.erase ref.name port.peerNodeName
        (.observeClosure port.peerPortName (port.nextSequenceNumToSend - 1))
        (port.messageQueue.getReferencedPorts ++ names),
      { s with
        objects := s.objects.set ref { port with state := .closed }
        collected := s.collected ++ port.messageQueue.heap })
    | _ => (.look names, s)

/-- A section of `ClosePort`. -/
def stepClosing (s : Threads α) : Closer α → Option (Closer α × Threads α)
  | .mark ref names => some (s.mark ref names)
  | .erase name peerNodeName event names =>
    let objects := s.objects.erase name
    some (.look names, { s with
      objects := { objects with node := objects.node.forwardMessage peerNodeName event } })
  | .look [] => none
  | .look (name :: names) =>
    match s.objects.lookup name with
    | none => some (.look names, s)
    | some ref => some (.mark ref names, s)

/-- `OnUserMessage`: the message is given to a port that can accept it. -/
def append (s : Threads α) (ref : PortRef) (port : Port α) (m : Message α) : Threads α :=
  let (queue, hasNextMessage) := port.messageQueue.acceptMessage m
  let port := { port with messageQueue := queue }
  let objects := s.objects.set ref port
  let node :=
    match port.state with
    | .buffering => objects.node
    | .proxying =>
      match objects.node.forwardMessages port m.portName with
      | (node, .ok) => node.maybeRemoveProxy m.portName
      | (node, _) => node
    | _ => if hasNextMessage then objects.node.portStatusChanged m.portName else objects.node
  { s with
    objects := { objects with node := node }
    accepting := .closing (.look [])
    appendedToClosed := s.appendedToClosed || port.state == .closed }

/-- A section of `OnUserMessage`. -/
def stepAccepting (s : Threads α) (m : Message α) : Option (Threads α) :=
  match s.accepting with
  | .getPort =>
    some { s with accepting := .bind (s.objects.lookup m.portName) (m.ports.zip m.descriptors) }
  | .bind ref ((name, d) :: ports) =>
    (s.objects.acceptPort name d).map fun objects =>
      { s with
        objects := objects
        accepting := .bind ref ports
        bound := ⟨name, objects.ids name⟩ :: s.bound }
  | .bind ref [] =>
    -- The reference found in the first section is still good for a port that was erased since.
    match ref.bind fun ref => (s.objects.get ref).map fun port => (ref, port) with
    | none => some { s with accepting := .closing (.look m.ports) }
    | some (ref, port) =>
      if port.canAcceptMoreMessages then some (s.append ref port m)
      else some { s with accepting := .closing (.look m.ports) }
  | .closing closing =>
    (s.stepClosing closing).map fun (closing, s) => { s with accepting := .closing closing }

/-- The threads. -/
inductive Thread
  | closePort
  | acceptMessage

def step (m : Message α) (s : Threads α) : Thread → Option (Threads α)
  | .closePort =>
    (s.stepClosing s.closing).map fun (closing, s) => { s with closing := closing }
  | .acceptMessage => s.stepAccepting m

/-- `ClosePort` for the port of a message, and `OnUserMessage` for the message, on a node. -/
def machine (node : Node α) (m : Message α) : Machine (Threads α) Thread where
  init := { objects := { node := node }, closing := .mark ⟨m.portName, 0⟩ [] }
  step := step m

/-- Both calls have returned. -/
def Returned (s : Threads α) : Prop := s.closing = .look [] ∧ s.accepting = .closing (.look [])

instance [DecidableEq α] (s : Threads α) : Decidable s.Returned := inferInstanceAs (Decidable (_ ∧ _))

/-- The port was closed. -/
def Closed (s : Threads α) (ref : PortRef) : Prop :=
  ∃ port, s.objects.get ref = some port ∧ port.state = .closed

instance (s : Threads α) (ref : PortRef) : Decidable (s.Closed ref) :=
  decidable_of_iff (∃ port ∈ s.objects.get ref, port.state = .closed) Iff.rfl

/-- If the message is next given to a port that can accept it, then the port is receiving. -/
def TakenByReceiving (m : Message α) (s : Threads α) : Accepting α → Prop
  | .bind (some ref) [] => ∀ port ∈ s.objects.get ref, port.canAcceptMoreMessages = true →
      port.state = .receiving ∨ port.state ≠ .closed ∧ m.ports = []
  | _ => True

instance (m : Message α) (s : Threads α) : DecidablePred (TakenByReceiving m s)
  | .getPort => isTrue trivial
  | .bind none _ => isTrue trivial
  | .bind (some _) (_ :: _) => isTrue trivial
  | .bind (some _) [] => inferInstanceAs (Decidable (∀ _ ∈ _, _ = _ → _ ∨ _ ∧ _))
  | .closing _ => isTrue trivial

/-- A port takes the message only while it is receiving. A message that has no ports may also
    be taken by a port that is not closed. -/
def Receiving (m : Message α) (s : Threads α) : Thread → Prop
  | .closePort => True
  | .acceptMessage => TakenByReceiving m s s.accepting

instance (m : Message α) (s : Threads α) : DecidablePred (Receiving m s)
  | .closePort => isTrue trivial
  | .acceptMessage => inferInstanceAs (Decidable (TakenByReceiving m s s.accepting))

end Threads

/-! ## Objects -/

namespace Objects

variable {s s' : Objects α} {ref ref' : PortRef} {name : PortName} {port : Port α}

/-- A reference that is live is to the port of its name. -/
theorem get_of_live (h : s.Live ref) : s.get ref = s.node.getPort ref.name := if_pos h

theorem live_set (s : Objects α) (ref ref' : PortRef) (port : Port α) :
    (s.set ref port).Live ref' ↔ s.Live ref' := by
  rw [set]
  split_ifs with h
  · rw [Live, Live, Node.getPort_setPort]
    refine and_congr_right fun _ => ?_
    split_ifs with hname
    · rw [hname]
      exact iff_of_true rfl h.2
    · rfl
  · rfl

/-- A port that is written through a reference is the one of the node if the reference is live.
    -/
theorem getPort_set (s : Objects α) (ref : PortRef) (port : Port α) (name : PortName) :
    (s.set ref port).node.getPort name =
      if s.Live ref ∧ name = ref.name then some port else s.node.getPort name := by
  rw [set]
  by_cases h : s.Live ref
  · rw [if_pos h, Node.getPort_setPort]
    simp only [h, true_and]
  · rw [if_neg h, if_neg fun h' => h h'.1]

/-- A port is what was written last through its reference. -/
theorem get_set (s : Objects α) (ref ref' : PortRef) (port : Port α) :
    (s.set ref port).get ref' = if ref' = ref then some port else s.get ref' := by
  rw [get, get]
  simp only [live_set, getPort_set]
  by_cases hlive : s.Live ref'
  · rw [if_pos hlive, if_pos hlive]
    refine if_congr ⟨fun h => ?_, fun h => h ▸ ⟨h ▸ hlive, rfl⟩⟩ rfl rfl
    -- Two ports in the table that have one name are the same.
    have hid : ref'.id = ref.id := hlive.1.symm.trans ((congrArg s.ids h.2).trans h.1.1)
    cases ref
    cases ref'
    exact congrArg₂ PortRef.mk h.2 hid
  · rw [if_neg hlive, if_neg hlive, set]
    split_ifs with h heq heq
    · exact absurd (heq ▸ h) hlive
    · rfl
    · exact (Function.update_apply ..).trans (if_pos heq)
    · exact (Function.update_apply ..).trans (if_neg heq)

theorem getPort_erase (s : Objects α) (name name' : PortName) :
    (s.erase name).node.getPort name' = if name' = name then none else s.node.getPort name' := by
  rw [erase]
  split
  next h =>
    split_ifs with hname
    · rw [hname, h]
    · rfl
  next => exact Node.getPort_erasePort ..

theorem ids_erase (s : Objects α) (name : PortName) : (s.erase name).ids = s.ids := by
  rw [erase]
  split <;> rfl

/-- The references to a port that is erased are not live any more. -/
theorem live_erase : (s.erase name).Live ref ↔ s.Live ref ∧ ref.name ≠ name := by
  rw [Live, Live, ids_erase, getPort_erase]
  split_ifs with hname
  · simp [hname]
  · simp [hname]

/-- A port that is erased can be referred to still. -/
theorem get_erase (s : Objects α) (name : PortName) (ref : PortRef) :
    (s.erase name).get ref = s.get ref := by
  cases h : s.node.getPort name with
  | none => rw [erase, h]
  | some port =>
    have herased : (s.erase name).erased = Function.update s.erased ⟨name, s.ids name⟩ (some port) := by
      rw [erase, h]
    rw [get, get]
    simp only [live_erase, herased]
    by_cases hlive : s.Live ref
    · by_cases hname : ref.name = name
      · have href : ref = ⟨name, s.ids name⟩ := by
          cases ref
          exact congrArg₂ PortRef.mk hname (hlive.1.symm.trans (congrArg s.ids hname))
        rw [if_neg fun h' => h'.2 hname, if_pos hlive, hname, h, href, Function.update_self]
      · rw [if_pos ⟨hlive, hname⟩, if_pos hlive, getPort_erase, if_neg hname]
    · have href : ref ≠ ⟨name, s.ids name⟩ := fun heq =>
        hlive ⟨by rw [heq], by rw [heq, h]; rfl⟩
      rw [if_neg fun h' => hlive h'.1, if_neg hlive, Function.update_of_ne href]

/-- A port that is looked up is live. -/
theorem lookup_eq_some : s.lookup name = some ref ↔ ref.name = name ∧ s.Live ref := by
  rw [lookup, Option.map_eq_some_iff]
  constructor
  · rintro ⟨port, hport, rfl⟩
    exact ⟨rfl, rfl, by rw [hport]; rfl⟩
  · rintro ⟨rfl, hid, hsome⟩
    obtain ⟨port, hport⟩ := Option.isSome_iff_exists.1 hsome
    exact ⟨port, hport, by rw [hid]⟩

theorem lookup_eq_none : s.lookup name = none ↔ s.node.getPort name = none := Option.map_eq_none_iff

/-- A port is bound to a name that is free, and the other ports are as before. -/
theorem acceptPort_cases {d : PortDescriptor} (h : s.acceptPort name d = some s') :
    s.node.getPort name = none ∧
      s'.ids = Function.update s.ids name (s.ids name + 1) ∧ s'.erased = s.erased ∧
      ∃ port, port.state = .receiving ∧
        ∀ q, s'.node.getPort q = if q = name then some port else s.node.getPort q := by
  rw [acceptPort, Node.acceptPort, Node.addPortWithName] at h
  cases hport : s.node.getPort name with
  | some port =>
    rw [hport] at h
    cases h
  | none =>
    rw [hport] at h
    cases h
    exact ⟨rfl, rfl, rfl, _, rfl, fun q => Node.getPort_setPort ..⟩

section AcceptPort

variable {d : PortDescriptor}

/-- A reference stays live when another port is bound. -/
theorem live_acceptPort (h : s.acceptPort name d = some s') (hlive : s.Live ref) :
    s'.Live ref := by
  obtain ⟨hnone, hids, -, port, -, hport⟩ := acceptPort_cases h
  have hname : ref.name ≠ name := by
    rintro rfl
    have hsome := hlive.2
    rw [hnone] at hsome
    cases hsome
  rw [Live, hids, hport, Function.update_of_ne hname, if_neg hname]
  exact hlive

/-- The other ports are not touched when one is bound. -/
theorem get_acceptPort (h : s.acceptPort name d = some s') (href : ref ≠ ⟨name, s'.ids name⟩) :
    s'.get ref = s.get ref := by
  obtain ⟨hnone, hids, herased, port, -, hport⟩ := acceptPort_cases h
  by_cases hlive : s.Live ref
  · have hname : ref.name ≠ name := by
      rintro rfl
      have hsome := hlive.2
      rw [hnone] at hsome
      cases hsome
    rw [get_of_live (live_acceptPort h hlive), get_of_live hlive, hport, if_neg hname]
  · have hlive' : ¬s'.Live ref := fun hlive' => by
      by_cases hname : ref.name = name
      · exact href (by rw [← hname, hlive'.1])
      · rw [Live, hids, hport, Function.update_of_ne hname, if_neg hname] at hlive'
        exact hlive hlive'
    rw [get, get, if_neg hlive, if_neg hlive', herased]

/-- A port that is bound is receiving. -/
theorem get_acceptPort_self (h : s.acceptPort name d = some s') :
    s'.Live ⟨name, s'.ids name⟩ ∧
      ∃ port, s'.get ⟨name, s'.ids name⟩ = some port ∧ port.state = .receiving := by
  obtain ⟨-, -, -, port, hstate, hport⟩ := acceptPort_cases h
  have hlive : s'.Live ⟨name, s'.ids name⟩ := by
    refine ⟨rfl, ?_⟩
    rw [hport, if_pos rfl]
    rfl
  refine ⟨hlive, port, ?_, hstate⟩
  rw [get_of_live hlive, hport, if_pos rfl]

end AcceptPort

end Objects

/-! ## Closing -/

namespace Threads

variable {s s' : Threads α} {m : Message α} {ref x : PortRef} {names : List PortName}

/-- The port is in the table, and receiving. -/
def Open (s : Threads α) (x : PortRef) : Prop :=
  s.objects.Live x ∧ ∃ port, s.objects.get x = some port ∧ port.state = .receiving

/-- Ports are closed and erased, and no port is opened. -/
structure Shrinks (s s' : Threads α) : Prop where
  ids : s'.objects.ids = s.objects.ids
  getPort : ∀ name port, s'.objects.node.getPort name = some port →
    s.objects.node.getPort name = some port ∨ port.state = .closed
  get : ∀ ref, s'.objects.get ref = s.objects.get ref ∨
    ∃ port port', s.objects.get ref = some port ∧ port.state = .receiving ∧
      s'.objects.get ref = some port' ∧ port'.state = .closed
  bound : s'.bound = s.bound
  collected : s.collected ⊆ s'.collected
  appendedToClosed : s'.appendedToClosed = s.appendedToClosed
  live : ∀ ref, s.objects.Live ref → s'.objects.Live ref ∨ s'.objects.node.getPort ref.name = none
  none : ∀ name, s.objects.node.getPort name = none → s'.objects.node.getPort name = none

theorem Shrinks.refl (s : Threads α) : Shrinks s s :=
  ⟨rfl, fun _ _ h => .inl h, fun _ => .inl rfl, rfl, List.Subset.refl _, rfl, fun _ h => .inl h,
    fun _ h => h⟩

/-- A port is erased. -/
theorem shrinks_erase (s : Threads α) (name : PortName) :
    Shrinks s { s with objects := s.objects.erase name } where
  ids := Objects.ids_erase ..
  getPort q port hport := by
    rw [Objects.getPort_erase] at hport
    split_ifs at hport
    exact .inl hport
  get ref := .inl (Objects.get_erase ..)
  bound := rfl
  collected := List.Subset.refl _
  appendedToClosed := rfl
  live ref hlive := by
    by_cases hname : ref.name = name
    · exact .inr (by rw [Objects.getPort_erase, if_pos hname])
    · exact .inl (Objects.live_erase.2 ⟨hlive, hname⟩)
  none q hq := by
    rw [Objects.getPort_erase, hq, ite_self]

/-- A port that is receiving is marked. -/
theorem shrinks_close {port : Port α} (hport : s.objects.get ref = some port)
    (hstate : port.state = .receiving) (messages : List (Message α)) :
    Shrinks s { s with
      objects := s.objects.set ref { port with state := .closed }
      collected := s.collected ++ messages } where
  ids := by
    change (s.objects.set ref _).ids = _
    rw [Objects.set]
    split_ifs <;> rfl
  getPort q port' hport' := by
    rw [Objects.getPort_set] at hport'
    split_ifs at hport'
    · cases hport'
      exact .inr rfl
    · exact .inl hport'
  get ref' := by
    rw [Objects.get_set]
    split_ifs with href
    · exact .inr ⟨port, _, href ▸ hport, hstate, rfl, rfl⟩
    · exact .inl rfl
  bound := rfl
  collected := List.subset_append_left ..
  appendedToClosed := rfl
  live ref' hlive := .inl ((Objects.live_set ..).2 hlive)
  none q hq := by
    rw [Objects.getPort_set, hq]
    refine if_neg fun h => ?_
    have hsome := h.1.2
    rw [← h.2, hq] at hsome
    cases hsome

/-- The first section of `ClosePort` does nothing, erases a port that was not initialized, or
    marks a port. -/
theorem mark_cases (s : Threads α) (ref : PortRef) (names : List PortName) :
    (s.mark ref names = (.look names, s) ∧ ∀ port, s.objects.get ref = some port →
      port.state ≠ .receiving) ∨
    (∃ port, s.objects.get ref = some port ∧ port.state = .uninitialized ∧
      s.mark ref names = (.look names, { s with objects := s.objects.erase ref.name })) ∨
    ∃ port, s.objects.get ref = some port ∧ port.state = .receiving ∧
      s.mark ref names = (.erase ref.name port.peerNodeName
          (.observeClosure port.peerPortName (port.nextSequenceNumToSend - 1))
          (port.messageQueue.getReferencedPorts ++ names),
        { s with
          objects := s.objects.set ref { port with state := .closed }
          collected := s.collected ++ port.messageQueue.heap }) := by
  rw [mark]
  cases hport : s.objects.get ref with
  | none => exact .inl ⟨rfl, fun _ h => by cases h⟩
  | some port =>
    cases hstate : port.state with
    | uninitialized => exact .inr (.inl ⟨port, rfl, hstate, by simp [hstate]⟩)
    | receiving => exact .inr (.inr ⟨port, rfl, hstate, by simp [hstate]⟩)
    -- `ClosePort` fails on all others.
    | buffering | proxying | closed =>
      refine .inl ⟨by simp [hstate], fun port' h => ?_⟩
      cases h
      rw [hstate]
      nofun

/-- A port that was closed stays so. -/
theorem Shrinks.closed (h : Shrinks s s') (hx : s.Closed x) : s'.Closed x := by
  obtain ⟨port, hport, hstate⟩ := hx
  rcases h.get x with heq | ⟨-, port', -, -, hport', hstate'⟩
  · exact ⟨port, heq.trans hport, hstate⟩
  · exact ⟨port', hport', hstate'⟩

theorem Shrinks.not_receiving (h : Shrinks s s')
    (hx : ∀ port, s.objects.get x = some port → port.state ≠ .receiving) (port : Port α)
    (hport : s'.objects.get x = some port) : port.state ≠ .receiving := by
  rcases h.get x with heq | ⟨port₁, -, hport₁, hstate₁, -⟩
  · exact hx port (heq ▸ hport)
  · exact absurd hstate₁ (hx port₁ hport₁)

/-- A section finds what it expects: the port that is to be marked is in the table, or its name
    is free, and the port that is to be erased is closed. -/
def Safe (s : Threads α) : Closer α → Prop
  | .mark ref _ => s.objects.Live ref ∨ s.objects.get ref = none ∨
      s.objects.node.getPort ref.name = none
  | .erase name _ _ _ => ∀ port, s.objects.node.getPort name = some port → port.state = .closed
  | .look _ => True

/-- A thread is about to close the port. -/
def Handled (c : Closer α) (x : PortRef) : Prop :=
  x.name ∈ c.names ∨ ∃ names, c = .mark x names

/-- Nobody else has erased the port that is to be marked or erased. -/
def Placed (s : Threads α) : Closer α → Prop
  | .mark ref _ => s.objects.Live ref ∨ ref.id = 0 ∧ s.objects.get ref = none
  | .erase name _ _ _ => (s.objects.node.getPort name).isSome
  | .look _ => True

/-- What a section of `ClosePort` leads to. -/
structure Closes (s s' : Threads α) (c c' : Closer α) : Prop where
  shrinks : Shrinks s s'
  stays : s'.closing = s.closing ∧ s'.accepting = s.accepting
  opened : ∀ x, s.Open x → s'.Open x ∨ s'.Closed x
  safe : s'.Safe c'
  placed : s.Placed c → s'.Placed c'
  handled : ∀ x, s.Closed x ∨ s.Open x → Handled c x → s'.Closed x ∨ Handled c' x

/-- Two ports in the table that have one name are the same. -/
theorem eq_of_live (hx : s.objects.Live x) (href : s.objects.Live ref) (h : x.name = ref.name) :
    x = ref := by
  cases x
  cases ref
  exact congrArg₂ PortRef.mk h (hx.1.symm.trans ((congrArg s.objects.ids h).trans href.1))

/-- A port that is open stays so when one is erased that is not receiving. -/
theorem opened_erase {name : PortName}
    (h : ∀ port, s.objects.node.getPort name = some port → port.state ≠ .receiving)
    (hx : s.Open x) : Open { s with objects := s.objects.erase name } x := by
  obtain ⟨hlive, port, hport, hstate⟩ := hx
  refine ⟨Objects.live_erase.2 ⟨hlive, ?_⟩, port, (Objects.get_erase ..).trans hport, hstate⟩
  rintro rfl
  exact h port ((Objects.get_of_live hlive).symm.trans hport) hstate

/-- `ClosePort` marks the port as closed, under its lock. -/
theorem closes_mark (hsafe : s.Safe (.mark ref names)) :
    Closes s (s.mark ref names).2 (.mark ref names) (s.mark ref names).1 := by
  rcases s.mark_cases ref names with ⟨heq, hnot⟩ | ⟨port, hport, hstate, heq⟩ |
    ⟨port, hport, hstate, heq⟩
  · rw [heq]
    refine ⟨.refl s, ⟨rfl, rfl⟩, fun x hx => .inl hx, trivial, fun _ => trivial,
      fun x hx hhandled => ?_⟩
    rcases hhandled with hmem | ⟨_, h⟩
    · exact .inr (.inl hmem)
    · cases h
      refine .inl (hx.resolve_right fun hopen => ?_)
      obtain ⟨-, port, hport, hstate⟩ := hopen
      exact hnot port hport hstate
  · -- The port that is erased was not initialized.
    have hnot (port' : Port α) (hport' : s.objects.node.getPort ref.name = some port') :
        port'.state ≠ .receiving := by
      rcases hsafe with hlive | hnone | hnone
      · obtain rfl := Option.some.inj
          (hport.symm.trans ((Objects.get_of_live hlive).trans hport'))
        rw [hstate]
        nofun
      · rw [hnone] at hport
        cases hport
      · rw [hnone] at hport'
        cases hport'
    rw [heq]
    refine ⟨shrinks_erase s ref.name, ⟨rfl, rfl⟩, fun x hx => .inl (opened_erase hnot hx), trivial,
      fun _ => trivial, fun x hx hhandled => ?_⟩
    rcases hhandled with hmem | ⟨_, h⟩
    · exact .inr (.inl hmem)
    · cases h
      refine .inl ((shrinks_erase s ref.name).closed (hx.resolve_right fun hopen => ?_))
      obtain ⟨-, port', hport', hstate'⟩ := hopen
      obtain rfl := Option.some.inj (hport.symm.trans hport')
      rw [hstate] at hstate'
      cases hstate'
  · rw [heq]
    have hclosed : Closed { s with
        objects := s.objects.set ref { port with state := .closed }
        collected := s.collected ++ port.messageQueue.heap } ref :=
      ⟨_, (Objects.get_set ..).trans (if_pos rfl), rfl⟩
    refine ⟨shrinks_close hport hstate _, ⟨rfl, rfl⟩, fun x hx => ?_, fun port' hport' => ?_,
      fun hplaced => ?_, fun x hx hhandled => ?_⟩
    · by_cases href : x = ref
      · exact .inr (href ▸ hclosed)
      · obtain ⟨hlive, port', hport', hstate'⟩ := hx
        exact .inl ⟨(Objects.live_set ..).2 hlive, port',
          (Objects.get_set ..).trans ((if_neg href).trans hport'), hstate'⟩
    · rw [Objects.getPort_set] at hport'
      split_ifs at hport' with h
      · cases hport'
        rfl
      · -- A port that is not in the table is marked: its name is free.
        rcases hsafe with hlive | hnone | hnone
        · exact absurd ⟨hlive, rfl⟩ h
        · rw [hnone] at hport
          cases hport
        · rw [hnone] at hport'
          cases hport'
    · rcases hplaced with hlive | ⟨-, hnone⟩
      · exact ((Objects.live_set ..).2 hlive).2
      · rw [hnone] at hport
        cases hport
    · rcases hhandled with hmem | ⟨_, h⟩
      · exact .inr (.inl (List.mem_append_right _ hmem))
      · cases h
        exact .inl hclosed

/-- Each section of `ClosePort` closes what it is to close. -/
theorem closes_stepClosing {c c' : Closer α} (hsafe : s.Safe c)
    (h : s.stepClosing c = some (c', s')) : Closes s s' c c' := by
  cases c with
  | mark ref names =>
    have hmark := closes_mark hsafe
    rw [show s.mark ref names = (c', s') from Option.some.inj h] at hmark
    exact hmark
  | erase name peerNodeName event names =>
    cases h
    have hshrinks := shrinks_erase s name
    refine ⟨⟨hshrinks.ids, hshrinks.getPort, hshrinks.get, rfl, hshrinks.collected, rfl,
      hshrinks.live, hshrinks.none⟩, ⟨rfl, rfl⟩, fun x hx => .inl ?_, trivial, fun _ => trivial,
      fun x hx hhandled => ?_⟩
    · exact opened_erase (fun port hport => by rw [hsafe port hport]; nofun) hx
    · rcases hhandled with hmem | ⟨_, heq⟩
      · exact .inr (.inl hmem)
      · cases heq
  | look names =>
    cases names with
    | nil => cases h
    | cons name names =>
      rw [stepClosing] at h
      cases hlookup : s.objects.lookup name with
      | none =>
        rw [hlookup] at h
        cases h
        refine ⟨.refl s, ⟨rfl, rfl⟩, fun x hx => .inl hx, trivial, fun _ => trivial,
          fun x hx hhandled => ?_⟩
        rcases hhandled with hmem | ⟨_, heq⟩
        · rcases List.mem_cons.1 hmem with hname | hmem
          · -- A port that is open would have been found.
            refine .inl (hx.resolve_right fun hopen => ?_)
            have hsome := hopen.1.2
            rw [hname, Objects.lookup_eq_none.1 hlookup] at hsome
            cases hsome
          · exact .inr (.inl hmem)
        · cases heq
      | some ref =>
        rw [hlookup] at h
        cases h
        obtain ⟨rfl, hlive⟩ := Objects.lookup_eq_some.1 hlookup
        refine ⟨.refl s, ⟨rfl, rfl⟩, fun x hx => .inl hx, .inl hlive, fun _ => .inl hlive,
          fun x hx hhandled => ?_⟩
        rcases hhandled with hmem | ⟨_, heq⟩
        · rcases List.mem_cons.1 hmem with hname | hmem
          · refine hx.imp_right fun hopen => .inr ⟨names, ?_⟩
            rw [eq_of_live hopen.1 hlive hname]
          · exact .inr (.inl hmem)
        · cases heq

/-! ## Invariant -/

/-- A section is safe still after ports were closed and erased. -/
theorem Shrinks.safe (h : Shrinks s s') {c : Closer α} (hc : s.Safe c) : s'.Safe c := by
  cases c with
  | mark ref names =>
    rcases hc with hlive | hnone | hnone
    · exact (h.live ref hlive).imp_right .inr
    · refine .inr (.inl ?_)
      rcases h.get ref with heq | ⟨port, -, hport, -⟩
      · rw [heq, hnone]
      · rw [hnone] at hport
        cases hport
    · exact .inr (.inr (h.none _ hnone))
  | erase name peerNodeName event names =>
    intro port hport
    exact (h.getPort name port hport).elim (hc port) id
  | look names => trivial

/-- `ClosePort` has not marked the port of the message yet, and the message is in its queue. -/
def Queued (m : Message α) (s : Threads α) : Prop :=
  (∃ names, s.closing = .mark ⟨m.portName, 0⟩ names) ∧
    ∃ port, s.objects.get ⟨m.portName, 0⟩ = some port ∧ port.state = .receiving ∧
      m ∈ port.messageQueue.heap

/-- The ports that were bound are open or closed. Once there is nothing left to bind, they are
    closed, or the thread is about to close them, or the message was taken, and it is in the
    queue until its ports are collected. -/
structure Inv (m : Message α) (s : Threads α) : Prop where
  appended : s.appendedToClosed = false
  closing : s.Safe s.closing
  accepting : ∀ c, s.accepting = .closing c → s.Safe c
  placed : s.Placed s.closing ∨ ∃ c, s.accepting = .closing c
  bound : ∀ x ∈ s.bound, s.Closed x ∨ s.Open x
  names : ∀ x ∈ s.bound, x.name ∈ m.ports
  ports : ∀ ref ports, s.accepting = .bind ref ports → ∀ x ∈ ports, x.1 ∈ m.ports
  fresh : s.accepting = .getPort → s.objects.ids m.portName = 0
  found : ∀ ref ports, s.accepting = .bind (some ref) ports → ref = ⟨m.portName, 0⟩
  first : (∃ names, s.closing = .mark ⟨m.portName, 0⟩ names) ∨
    ∀ port, s.objects.get ⟨m.portName, 0⟩ = some port → port.state ≠ .receiving
  left : ∀ c, s.accepting = .closing c → (∀ x ∈ s.bound, s.Closed x ∨ Handled c x) ∨
    m ∈ s.collected ∨ c = .look [] ∧ Queued m s

/-- Neither call has begun. -/
theorem Inv.init (node : Node α) (m : Message α) : Inv m (machine node m).init where
  appended := rfl
  closing := by
    by_cases hlive : (machine node m).init.objects.Live ⟨m.portName, 0⟩
    · exact .inl hlive
    · exact .inr (.inl (if_neg hlive))
  accepting := nofun
  placed := by
    by_cases hlive : (machine node m).init.objects.Live ⟨m.portName, 0⟩
    · exact .inl (.inl hlive)
    · exact .inl (.inr ⟨rfl, if_neg hlive⟩)
  bound := fun _ hx => absurd hx List.not_mem_nil
  names := fun _ hx => absurd hx List.not_mem_nil
  ports := nofun
  fresh _ := rfl
  found := nofun
  first := .inl ⟨[], rfl⟩
  left := nofun

/-- What `ClosePort` marks is not receiving any more, and its messages were collected. -/
theorem mark_collects (s : Threads α) (ref : PortRef) (names : List PortName) :
    (∀ port, (s.mark ref names).2.objects.get ref = some port → port.state ≠ .receiving) ∧
      ∀ port, s.objects.get ref = some port → port.state = .receiving →
        port.messageQueue.heap ⊆ (s.mark ref names).2.collected := by
  rcases s.mark_cases ref names with ⟨heq, hnot⟩ | ⟨port, hport, hstate, heq⟩ |
    ⟨port, hport, hstate, heq⟩
  · rw [heq]
    exact ⟨hnot, fun port hport hstate => absurd hstate (hnot port hport)⟩
  · rw [heq]
    refine ⟨fun port' hport' => ?_, fun port' hport' hstate' => ?_⟩
    · rw [Objects.get_erase, hport] at hport'
      cases hport'
      rw [hstate]
      nofun
    · rw [hport] at hport'
      cases hport'
      rw [hstate] at hstate'
      cases hstate'
  · rw [heq]
    refine ⟨fun port' hport' => ?_, fun port' hport' _ => ?_⟩
    · rw [Objects.get_set, if_pos rfl] at hport'
      cases hport'
      nofun
    · rw [hport] at hport'
      cases hport'
      exact List.subset_append_right ..

/-- A section of `ClosePort`. -/
theorem Inv.stepClosePort (h : Inv m s) (hs' : s.step m .closePort = some s') : Inv m s' := by
  obtain ⟨⟨c, s₁⟩, hstep, rfl⟩ := Option.map_eq_some_iff.1 hs'
  have hc := closes_stepClosing h.closing hstep
  have haccepting : s₁.accepting = s.accepting := hc.stays.2
  -- If the first section of `ClosePort` was next, it was run.
  have hmark (names : List PortName) (hmark : s.closing = .mark ⟨m.portName, 0⟩ names) :
      s.mark ⟨m.portName, 0⟩ names = (c, s₁) := by
    rw [hmark] at hstep
    exact Option.some.inj hstep
  refine ⟨hc.shrinks.appendedToClosed.trans h.appended, hc.safe, fun c' hc' => ?_, ?_,
    fun x hx => ?_, fun x hx => ?_, fun ref ports hports => ?_, fun hfresh => ?_,
    fun ref ports hports => ?_, .inr fun port hport => ?_, fun c' hc' => ?_⟩
  · exact hc.shrinks.safe (h.accepting c' (haccepting ▸ hc'))
  · exact h.placed.imp hc.placed fun ⟨c', hc'⟩ => ⟨c', haccepting.trans hc'⟩
  · rcases h.bound x (hc.shrinks.bound ▸ hx) with hclosed | hopen
    · exact .inl (hc.shrinks.closed hclosed)
    · exact (hc.opened x hopen).symm
  · exact h.names x (hc.shrinks.bound ▸ hx)
  · exact h.ports ref ports (haccepting ▸ hports)
  · rw [← h.fresh (haccepting ▸ hfresh)]
    exact congrFun hc.shrinks.ids _
  · exact h.found ref ports (haccepting ▸ hports)
  · rcases h.first with ⟨names, hnames⟩ | hnot
    · have hcollects := (s.mark_collects ⟨m.portName, 0⟩ names).1
      rw [hmark names hnames] at hcollects
      exact hcollects port hport
    · exact hc.shrinks.not_receiving hnot port hport
  · rcases h.left c' (haccepting ▸ hc') with hall | hcollected |
      ⟨-, ⟨names, hnames⟩, port, hport, hstate, hmem⟩
    · refine .inl fun x hx => ?_
      exact (hall x (hc.shrinks.bound ▸ hx)).imp_left hc.shrinks.closed
    · exact .inr (.inl (hc.shrinks.collected hcollected))
    · have hcollects := (s.mark_collects ⟨m.portName, 0⟩ names).2 port hport hstate hmem
      rw [hmark names hnames] at hcollects
      exact .inr (.inl hcollects)

/-- The ports that are attached are bound, one after the other. -/
theorem Inv.stepBind (h : Inv m s) {found : Option PortRef} {name : PortName}
    {d : PortDescriptor} {ports : List (PortName × PortDescriptor)} {objects : Objects α}
    (haccepting : s.accepting = .bind found ((name, d) :: ports))
    (hobjects : s.objects.acceptPort name d = some objects) :
    Inv m { s with
      objects := objects
      accepting := .bind found ports
      bound := ⟨name, objects.ids name⟩ :: s.bound } := by
  obtain ⟨hfree, hids, -, bound, -, hbound⟩ := Objects.acceptPort_cases hobjects
  obtain ⟨hlive, hopen⟩ := Objects.get_acceptPort_self hobjects
  -- The port that is bound is a new one, and no reference to it was there.
  have hid (ref : PortRef) (href : ref.id = 0) : ref ≠ ⟨name, objects.ids name⟩ := by
    rintro rfl
    rw [hids, Function.update_self] at href
    cases href
  have hget (ref : PortRef) (href : ref.id = 0) : objects.get ref = s.objects.get ref :=
    Objects.get_acceptPort hobjects (hid ref href)
  -- The thread that closes ports holds on to what is still there: another port.
  have hplaced : s.Placed s.closing := h.placed.resolve_right fun ⟨c, hc⟩ => by
    rw [haccepting] at hc
    cases hc
  have hbind : Placed { s with
      objects := objects
      accepting := .bind found ports
      bound := ⟨name, objects.ids name⟩ :: s.bound } s.closing := by
    cases hclosing : s.closing with
    | mark ref names =>
      rw [hclosing] at hplaced
      refine hplaced.imp (Objects.live_acceptPort hobjects) fun ⟨href, hnone⟩ => ?_
      exact ⟨href, (hget ref href).trans hnone⟩
    | erase name' peerNodeName event names =>
      rw [hclosing] at hplaced
      change (objects.node.getPort name').isSome
      rw [hbound]
      split_ifs
      · rfl
      · exact hplaced
    | look names => trivial
  refine ⟨h.appended, ?_, nofun, .inl hbind, fun x hx => ?_, fun x hx => ?_, fun ref' ports' hports => ?_,
    nofun, fun ref' ports' hports => ?_, ?_, nofun⟩
  · cases hclosing : s.closing with
    | mark ref names =>
      rw [hclosing] at hbind
      exact hbind.imp_right fun hnone => .inl hnone.2
    | erase name' peerNodeName event names =>
      intro port hport
      change objects.node.getPort name' = some port at hport
      have hsafe := h.closing
      rw [hclosing] at hplaced hsafe
      have hname : name' ≠ name := by
        rintro rfl
        change (s.objects.node.getPort name').isSome at hplaced
        rw [hfree] at hplaced
        cases hplaced
      rw [hbound, if_neg hname] at hport
      exact hsafe port hport
    | look names => trivial
  · -- The ports bound before are where they were.
    by_cases hnew : x = ⟨name, objects.ids name⟩
    · rw [hnew]
      exact .inr ⟨hlive, hopen⟩
    · have heq : objects.get x = s.objects.get x := Objects.get_acceptPort hobjects hnew
      rcases h.bound x ((List.mem_cons.1 hx).resolve_left hnew) with ⟨port, hport, hstate⟩ |
        ⟨hx', port, hport, hstate⟩
      · exact .inl ⟨port, heq.trans hport, hstate⟩
      · exact .inr ⟨Objects.live_acceptPort hobjects hx', port, heq.trans hport, hstate⟩
  · rcases List.mem_cons.1 hx with rfl | hx
    · exact h.ports _ _ haccepting (name, d) List.mem_cons_self
    · exact h.names x hx
  · cases hports
    exact fun x hx => h.ports _ _ haccepting x (List.mem_cons_of_mem _ hx)
  · cases hports
    exact h.found _ _ haccepting
  · refine h.first.imp_right fun hnot port hport => ?_
    exact hnot port ((hget _ rfl).symm.trans hport)

theorem mem_pushHeap_self (m : Message α) (heap : List (Message α)) :
    m ∈ MessageQueue.pushHeap m heap := by
  induction heap with
  | nil => exact List.mem_singleton_self m
  | cons m' heap ih =>
    rw [MessageQueue.pushHeap]
    split_ifs
    · exact List.mem_cons_self
    · exact List.mem_cons_of_mem m' ih

/-- What a port that is receiving does with a message that it can accept. -/
theorem append_spec (s : Threads α) (ref : PortRef) {port : Port α} (m : Message α)
    (hstate : port.state = .receiving) :
    ∃ port', port'.state = .receiving ∧ m ∈ port'.messageQueue.heap ∧
      (∀ x, (s.append ref port m).objects.Live x ↔ s.objects.Live x) ∧
      (∀ x, (s.append ref port m).objects.get x =
        if x = ref then some port' else s.objects.get x) ∧
      (s.append ref port m).closing = s.closing ∧
      (s.append ref port m).accepting = .closing (.look []) ∧
      (s.append ref port m).bound = s.bound ∧
      (s.append ref port m).appendedToClosed = s.appendedToClosed := by
  have hmem : m ∈ (port.messageQueue.acceptMessage m).1.heap := mem_pushHeap_self m _
  refine ⟨{ port with messageQueue := (port.messageQueue.acceptMessage m).1 }, hstate, hmem, ?_⟩
  have hset := fun x => Objects.get_set s.objects ref x
    { port with messageQueue := (port.messageQueue.acceptMessage m).1 }
  have hlive := fun x => Objects.live_set s.objects ref x
    { port with messageQueue := (port.messageQueue.acceptMessage m).1 }
  have happended : (s.appendedToClosed || port.state == .closed) = s.appendedToClosed := by
    rw [hstate]
    exact Bool.or_false _
  rw [append]
  dsimp only
  split
  next h => exact absurd (hstate.symm.trans h) nofun
  next h => exact absurd (hstate.symm.trans h) nofun
  next => split_ifs <;> exact ⟨hlive, hset, rfl, rfl, rfl, happended⟩

/-- The message is taken by a port that is receiving. -/
theorem Inv.stepAppend (h : Inv m s) {port : Port α} (haccepting : s.accepting = .bind (some ref) [])
    (hport : s.objects.get ref = some port) (hstate : port.state = .receiving) :
    Inv m (s.append ref port m) := by
  obtain ⟨port', hstate', hmem, hlive, hget, hclosing, haccepting', hbound, happended⟩ :=
    s.append_spec ref m hstate
  obtain rfl := h.found ref [] haccepting
  -- The port is receiving, so `ClosePort` has not marked it yet.
  obtain ⟨names, hnames⟩ := h.first.resolve_right fun hnot => hnot port hport hstate
  have hplaced : s.objects.Live ⟨m.portName, 0⟩ := by
    have hplaced := h.placed.resolve_right fun ⟨c, hc⟩ => by
      rw [haccepting] at hc
      cases hc
    rw [hnames] at hplaced
    refine hplaced.resolve_right fun hnone => ?_
    rw [hport] at hnone
    cases hnone.2
  refine ⟨happended.trans h.appended, ?_, fun c hc => ?_, .inr ⟨_, haccepting'⟩, fun x hx => ?_,
    fun x hx => h.names x (hbound ▸ hx), ?_, ?_, ?_, .inl ⟨names, hclosing.trans hnames⟩, fun c hc => ?_⟩
  · rw [hclosing, hnames]
    exact .inl ((hlive _).2 hplaced)
  · rw [haccepting'] at hc
    cases hc
    trivial
  · rcases h.bound x (hbound ▸ hx) with ⟨port₁, hport₁, hstate₁⟩ | ⟨hx', port₁, hport₁, hstate₁⟩
    · refine .inl ⟨port₁, ?_, hstate₁⟩
      rw [hget, if_neg, hport₁]
      rintro rfl
      obtain rfl := Option.some.inj (hport.symm.trans hport₁)
      rw [hstate] at hstate₁
      cases hstate₁
    · by_cases href : x = ⟨m.portName, 0⟩
      · exact .inr ⟨(hlive x).2 hx', port', (hget x).trans (if_pos href), hstate'⟩
      · exact .inr ⟨(hlive x).2 hx', port₁, (hget x).trans ((if_neg href).trans hport₁), hstate₁⟩
  · rw [haccepting']
    nofun
  · rw [haccepting']
    nofun
  · rw [haccepting']
    nofun
  · rw [haccepting'] at hc
    cases hc
    exact .inr (.inr ⟨rfl, ⟨names, hclosing.trans hnames⟩, port', (hget _).trans (if_pos rfl),
      hstate', hmem⟩)

/-- A section of the closing of a message that is rejected. -/
theorem Inv.stepReject (h : Inv m s) :
    Inv m { s with accepting := .closing (.look m.ports) } where
  appended := h.appended
  closing := h.closing
  accepting c hc := by
    cases hc
    trivial
  placed := .inr ⟨_, rfl⟩
  bound := h.bound
  names := h.names
  ports := nofun
  fresh := nofun
  found := nofun
  first := h.first
  left c hc := by
    cases hc
    exact .inl fun x hx => .inr (.inl (h.names x hx))

/-- A section of `OnUserMessage`. -/
theorem Inv.stepAcceptMessage (h : Inv m s) (hports : m.ports ≠ [])
    (hreceiving : Receiving m s .acceptMessage) (hs' : s.step m .acceptMessage = some s') :
    Inv m s' := by
  rw [step, stepAccepting] at hs'
  split at hs'
  -- `GetPort`: the reference that the message is queued by.
  next haccepting =>
    cases hs'
    have hplaced : s.Placed s.closing := h.placed.resolve_right fun ⟨c, hc⟩ => by
      rw [haccepting] at hc
      cases hc
    refine ⟨h.appended, h.closing, nofun, .inl hplaced, h.bound, h.names,
      fun ref ports hbind => ?_, nofun, fun ref ports hbind => ?_, h.first, nofun⟩
    · cases hbind
      exact fun x hx => (List.of_mem_zip hx).1
    · injection hbind with hlookup
      obtain ⟨hname, hid, -⟩ := Objects.lookup_eq_some.1 hlookup
      rw [hname, h.fresh haccepting] at hid
      cases ref
      exact congrArg₂ PortRef.mk hname hid.symm
  next found name d ports haccepting =>
    obtain ⟨objects, hobjects, rfl⟩ := Option.map_eq_some_iff.1 hs'
    exact h.stepBind haccepting hobjects
  -- The last section: the message is queued, or its ports are to be closed.
  next found haccepting =>
    split at hs'
    next =>
      cases hs'
      exact h.stepReject
    next ref port hfound =>
      obtain ⟨ref', hfound', hport'⟩ := Option.bind_eq_some_iff.1 hfound
      obtain ⟨port', hport, heq⟩ := Option.map_eq_some_iff.1 hport'
      cases heq
      rw [hfound'] at haccepting
      split_ifs at hs' with haccept
      · cases hs'
        rw [Receiving, haccepting] at hreceiving
        have hstate := (hreceiving port hport haccept).resolve_right fun hno => hports hno.2
        exact h.stepAppend haccepting hport hstate
      · cases hs'
        exact h.stepReject
  -- A section of a nested `ClosePort`.
  next c haccepting =>
    obtain ⟨⟨c', s₁⟩, hstep, rfl⟩ := Option.map_eq_some_iff.1 hs'
    have hc := closes_stepClosing (h.accepting c haccepting) hstep
    have hclosing : s₁.closing = s.closing := hc.stays.1
    refine ⟨hc.shrinks.appendedToClosed.trans h.appended, ?_, fun c'' hc'' => ?_, .inr ⟨c', rfl⟩,
      fun x hx => ?_, fun x hx => h.names x (hc.shrinks.bound ▸ hx), nofun, nofun, nofun, ?_,
      fun c'' hc'' => ?_⟩
    · rw [hclosing]
      exact hc.shrinks.safe h.closing
    · cases hc''
      exact hc.safe
    · rcases h.bound x (hc.shrinks.bound ▸ hx) with hclosed | hopen
      · exact .inl (hc.shrinks.closed hclosed)
      · exact (hc.opened x hopen).symm
    · rw [hclosing]
      exact h.first.imp_right hc.shrinks.not_receiving
    · cases hc''
      rcases h.left c haccepting with hall | hcollected | ⟨rfl, -⟩
      · refine .inl fun x hx => ?_
        have hx' : x ∈ s.bound := hc.shrinks.bound ▸ hx
        rcases hall x hx' with hclosed | hhandled
        · exact .inl (hc.shrinks.closed hclosed)
        · exact hc.handled x (h.bound x hx') hhandled
      · exact .inr (.inl (hc.shrinks.collected hcollected))
      · cases hstep

/-- A section of `ClosePort` binds no port. -/
theorem frame_stepClosing {c c' : Closer α} (h : s.stepClosing c = some (c', s')) :
    s'.bound = s.bound ∧ s'.appendedToClosed = s.appendedToClosed ∧ s'.accepting = s.accepting := by
  cases c with
  | mark ref names =>
    have heq : s.mark ref names = (c', s') := Option.some.inj h
    rcases s.mark_cases ref names with ⟨h, -⟩ | ⟨_, -, -, h⟩ | ⟨_, -, -, h⟩ <;> rw [heq] at h <;>
      cases h <;> exact ⟨rfl, rfl, rfl⟩
  | erase name peerNodeName event names =>
    cases h
    exact ⟨rfl, rfl, rfl⟩
  | look names =>
    cases names with
    | nil => cases h
    | cons name names =>
      rw [stepClosing] at h
      split at h <;> cases h <;> exact ⟨rfl, rfl, rfl⟩

/-- A message that has no ports binds none, and is not given to a closed port. -/
theorem unbound_of_reachable {node : Node α} (hports : m.ports = [])
    (hs : (machine node m).Reachable (Receiving m) s) :
    s.appendedToClosed = false ∧ s.bound = [] := by
  -- Without ports, nothing is bound, and only a port that is not closed is appended to.
  have hinv : s.appendedToClosed = false ∧ s.bound = [] ∧
      ∀ ref ports, s.accepting = .bind ref ports → ports = [] := by
    refine hs.invariant (P := fun s => s.appendedToClosed = false ∧ s.bound = [] ∧
      ∀ ref ports, s.accepting = .bind ref ports → ports = []) ⟨rfl, rfl, nofun⟩
      fun {s i s'} ⟨happended, hbound, hbind⟩ hreceiving hs' => ?_
    cases i with
    | closePort =>
      obtain ⟨⟨c, s₁⟩, hstep, rfl⟩ := Option.map_eq_some_iff.1 hs'
      obtain ⟨hbound', happended', haccepting⟩ := frame_stepClosing hstep
      exact ⟨happended'.trans happended, hbound'.trans hbound, fun ref ports h =>
        hbind ref ports (haccepting ▸ h)⟩
    | acceptMessage =>
      change s.stepAccepting m = some s' at hs'
      rw [stepAccepting] at hs'
      split at hs'
      next =>
        cases hs'
        refine ⟨happended, hbound, fun ref ports h => ?_⟩
        cases h
        rw [hports]
        rfl
      next haccepting => cases hbind _ _ haccepting
      next found haccepting =>
        split at hs'
        next =>
          cases hs'
          exact ⟨happended, hbound, nofun⟩
        next ref port hfound =>
          obtain ⟨ref', hfound', hport'⟩ := Option.bind_eq_some_iff.1 hfound
          obtain ⟨port', hport, heq⟩ := Option.map_eq_some_iff.1 hport'
          cases heq
          rw [hfound'] at haccepting
          split_ifs at hs' with haccept
          · cases hs'
            rw [Receiving, haccepting] at hreceiving
            refine ⟨?_, hbound, nofun⟩
            change (s.appendedToClosed || port.state == .closed) = false
            rw [happended, Bool.false_or, beq_eq_false_iff_ne]
            rcases hreceiving port hport haccept with hstate | ⟨hstate, -⟩
            · rw [hstate]
              nofun
            · exact hstate
          · cases hs'
            exact ⟨happended, hbound, nofun⟩
      next =>
        obtain ⟨⟨c, s₁⟩, hstep, rfl⟩ := Option.map_eq_some_iff.1 hs'
        obtain ⟨hbound', happended', -⟩ := frame_stepClosing hstep
        exact ⟨happended'.trans happended, hbound'.trans hbound, nofun⟩
  exact ⟨hinv.1, hinv.2.1⟩

/-- In any interleaving of the sections of `ClosePort` and `OnUserMessage`, as long as a port
    takes the message only while it is receiving, no message is appended to the queue of a
    closed port. Once both have returned, the ports that were bound are closed, or the message
    was in the queue when the ports that are attached were collected. -/
theorem closed_or_collected {node : Node α} (hs : (machine node m).Reachable (Receiving m) s) :
    s.appendedToClosed = false ∧
      (s.Returned → (∀ x ∈ s.bound, s.Closed x) ∨ m ∈ s.collected) := by
  by_cases hports : m.ports = []
  · obtain ⟨happended, hbound⟩ := unbound_of_reachable hports hs
    exact ⟨happended, fun _ => .inl (by rw [hbound]; exact fun x hx => absurd hx List.not_mem_nil)⟩
  have hinv : Inv m s := hs.invariant (Inv.init node m) fun {s i s'} h hreceiving hstep => by
    cases i with
    | closePort => exact h.stepClosePort hstep
    | acceptMessage => exact h.stepAcceptMessage hports hreceiving hstep
  refine ⟨hinv.appended, fun ⟨hclosing, haccepting⟩ => ?_⟩
  rcases hinv.left _ haccepting with hall | hcollected | ⟨-, ⟨names, hnames⟩, -⟩
  · refine .inl fun x hx => (hall x hx).resolve_right ?_
    rintro (hmem | ⟨names, hmark⟩)
    · exact List.not_mem_nil hmem
    · cases hmark
  · exact .inr hcollected
  · rw [hclosing] at hnames
    cases hnames

/-- A node with a port that is receiving. -/
def receiver : Node ℕ :=
  { name := 1 : Node ℕ }.setPort 5 { (Port.new 1 1 : Port ℕ) with
    state := .receiving, peerNodeName := 2, peerPortName := 6 }

/-- A message for the port, from a node that sends a port with it. -/
def parcel : Message ℕ where
  portName := 5
  sequenceNum := 1
  descriptors := [⟨3, 4, 2, 8, 1, 1, 0, false⟩]
  ports := [7]
  payload := 0

/-- The message is taken before the port is closed. -/
theorem closed_or_collected_taken : ∃ s : Threads ℕ,
    (machine receiver parcel).Reachable (Receiving parcel) s ∧ s.bound ≠ [] ∧
      ((∀ x ∈ s.bound, s.Closed x) ∨ parcel ∈ s.collected) := by
  obtain ⟨s, hs, hreturned, hbound⟩ := Machine.exists_reachable
    (M := machine receiver parcel) (G := Receiving parcel) (P := fun s => s.Returned ∧ s.bound ≠ [])
    [.acceptMessage, .acceptMessage, .acceptMessage, .closePort, .closePort, .closePort,
      .closePort, .closePort] (by decide)
  exact ⟨s, hs, hbound, (closed_or_collected hs).2 hreturned⟩

/-- The port is closed between the lookup and the message: the port that came with the message
    is left behind. -/
theorem not_closed_or_collected : ∃ s : Threads ℕ,
    (machine receiver parcel).Reachable Machine.Any s ∧ s.Returned ∧ s.appendedToClosed = true ∧
      ¬((∀ x ∈ s.bound, s.Closed x) ∨ parcel ∈ s.collected) :=
  Machine.exists_reachable (M := machine receiver parcel) (G := Machine.Any)
    (P := fun s => s.Returned ∧ s.appendedToClosed = true ∧
      ¬((∀ x ∈ s.bound, s.Closed x) ∨ parcel ∈ s.collected))
    [.acceptMessage, .closePort, .acceptMessage, .acceptMessage, .closePort] (by decide)

end Threads

end MojoEdk.Ports
