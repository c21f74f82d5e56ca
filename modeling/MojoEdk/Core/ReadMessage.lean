import MojoEdk.Core.Creation
import MojoEdk.Core.Decoding
import MojoEdk.Core.Handles
import MojoEdk.Ports.Every

/-!
# Reading a message

`MessagePipeDispatcher::ReadMessage` takes the next message of a port if the buffers of
the caller are large enough, or if it may be discarded, then makes dispatchers of it, and
adds them to the handle table. A message that is taken has ports, which are to be closed if
no dispatcher is returned that owns them.

What can still fail is seen after the message is taken. `Core::AddDispatchersFromTransit`
closes the dispatchers if there are no handles for them, but nobody closes the ports of a
message that is discarded, or a dispatcher of which cannot be made, and a message that is
lost because of it was not to be discarded (`not_accounts`). `accounts_iff` says when
`ReadMessage` accounts for the ports.
-/

namespace MojoEdk.Ports.Node

variable {α : Type*}

/-- The message that a port has next. -/
def queueNext (s : Node α) (p : PortName) : Option (Message α) :=
  (s.getPort p).bind fun port => (port.messageQueue.getNextMessageIf none).1

/-- The message that `GetMessageIf` calls its selector with. -/
def nextMessage (s : Node α) (p : PortName) : Option (Message α) :=
  (s.getPort p).bind fun port =>
    if port.state = .receiving ∧ port.canAcceptMoreMessages then
      (port.messageQueue.getNextMessageIf none).1
    else none

/-- `NodeController::ClosePort` of some ports, which has to succeed. -/
def closeAll : List PortName → Node α → Option (Node α)
  | [], s => some s
  | p :: ps, s =>
    match s.closePort p with
    | (s, .ok) => closeAll ps s
    | _ => none

variable {s ν : Node α} {p : PortName} {m : Message α}

/-- What holds of every port holds of every port that is left. -/
theorem Every.closeAll {P : PortName → Port α → Prop} {ps : List PortName} (h : s.Every P)
    (hclose : s.closeAll ps = some ν) : ν.Every P := by
  induction ps generalizing s with
  | nil => exact Option.some.inj hclose ▸ h
  | cons q ps ih =>
    rw [Node.closeAll] at hclose
    split at hclose
    next s' heq =>
      have hs' : (s.closePort q).1 = s' := congrArg Prod.fst heq
      exact ih (hs' ▸ Every.closePortAux h _ q) hclose
    next => cases hclose

/-! ## What is taken -/

/-- A port took a message: the next one has another number. -/
def Took (p : PortName) (m : Message α) (s : Node α) : Prop :=
  s.Every fun q port => q = p → port.messageQueue.nextSequenceNum = m.sequenceNum + 1

theorem sequenceNum_of_next {q : MessageQueue α} (h : (q.getNextMessageIf none).1 = some m) :
    m.sequenceNum = q.nextSequenceNum := by
  rw [MessageQueue.getNextMessageIf] at h
  split at h
  · cases h
  · split_ifs at h with hnext
    cases h
    exact eq_of_beq (Bool.and_eq_true_iff.1 hnext).1

/-- A message that was taken is not the next one any more. -/
theorem Took.queueNext_ne (h : s.Took p m) : s.queueNext p ≠ some m := by
  rw [queueNext]
  cases hport : s.getPort p with
  | none => simp
  | some port =>
    intro hnext
    have hseq := sequenceNum_of_next hnext
    rw [h p port hport rfl] at hseq
    grind

theorem Took.setSignalable (h : s.Took p m) (names : List PortName) :
    (s.setSignalable names).Took p m :=
  Every.foldl (fun s name hs => by
    split
    next => exact hs
    next port hport =>
      refine Every.setPort ?_ fun hq => hs name port hport hq
      split_ifs
      · exact hs
      · exact hs) names h

theorem Took.closeAll {ps : List PortName} (h : s.Took p m) (hclose : s.closeAll ps = some ν) :
    ν.Took p m := Every.closeAll h hclose

theorem queueNext_of_nextMessage (h : s.nextMessage p = some m) : s.queueNext p = some m := by
  rw [nextMessage, Option.bind_eq_some_iff] at h
  obtain ⟨port, hport, hnext⟩ := h
  split_ifs at hnext
  rw [queueNext, hport]
  exact hnext

/-- A queue hands out its next message, if it is selected. -/
theorem getNextMessageIf_some {q : MessageQueue α} (selector : Message α → Bool)
    (h : (q.getNextMessageIf none).1 = some m) : q.getNextMessageIf (some selector) =
      if selector m then (some m, (q.getNextMessageIf none).2) else (none, q) := by
  simp only [MessageQueue.getNextMessageIf.eq_def] at h ⊢
  cases hq : q.heap with
  | nil =>
    rw [hq] at h
    cases h
  | cons m' heap =>
    simp only [hq, Option.all_none, Bool.and_true, Option.all_some] at h ⊢
    cases hseq : m'.sequenceNum == q.nextSequenceNum with
    | false =>
      rw [hseq] at h
      cases h
    | true =>
      rw [hseq] at h
      cases h
      simp only [Bool.true_and, if_true]

theorem getMessageIf_of_some (selector : Message α → Bool) (h : s.nextMessage p = some m) :
    (selector m = false → s.getMessageIf p (some selector) = (s, none, .ok)) ∧
      (selector m = true → ∃ ν, s.getMessageIf p (some selector) = (ν, some m, .ok) ∧
        ν.Took p m) := by
  rw [nextMessage, Option.bind_eq_some_iff] at h
  obtain ⟨port, hport, hnext⟩ := h
  split_ifs at hnext with hcan
  have hget := getNextMessageIf_some selector hnext
  rw [getMessageIf, hport]
  simp only [hcan.1, hcan.2, ne_eq, not_true_eq_false, if_false, Bool.not_true, Bool.false_eq_true,
    hget]
  refine ⟨fun hf => by rw [hf]; rfl, fun ht => ?_⟩
  rw [ht]
  refine ⟨_, rfl, Took.setSignalable (fun q port' hq hqp => ?_) m.ports⟩
  rw [getPort_setPort, if_pos hqp] at hq
  cases hq
  have hseq := sequenceNum_of_next hnext
  rw [MessageQueue.getNextMessageIf.eq_def] at hnext ⊢
  split at hnext
  · cases hnext
  · split_ifs at hnext with hsel
    rw [if_pos hsel, hseq]

theorem getMessageIf_of_none (selector : Message α → Bool) (h : s.nextMessage p = none) :
    (s.getMessageIf p (some selector)).1 = s ∧ (s.getMessageIf p (some selector)).2.1 = none := by
  rw [getMessageIf]
  cases hport : s.getPort p with
  | none => exact ⟨rfl, rfl⟩
  | some port =>
    rw [nextMessage, hport, Option.bind_some] at h
    dsimp only
    split_ifs with hstate hmore
    · exact ⟨rfl, rfl⟩
    · exact ⟨rfl, rfl⟩
    · rw [not_not] at hstate
      rw [Bool.not_eq_true', Bool.not_eq_false] at hmore
      rw [if_pos ⟨hstate, hmore⟩] at h
      have hnone : port.messageQueue.getNextMessageIf (some selector) =
          (none, port.messageQueue) := by
        rw [MessageQueue.getNextMessageIf.eq_def] at h ⊢
        cases hq : port.messageQueue.heap with
        | nil => rfl
        | cons m' heap =>
          rw [hq] at h
          simp only [Option.all_none, Bool.and_true] at h ⊢
          cases hseq : m'.sequenceNum == port.messageQueue.nextSequenceNum with
          | false => rfl
          | true =>
            rw [hseq] at h
            cases h
      rw [hnone]
      exact ⟨rfl, rfl⟩

/-! ## What is closed -/

/-- A port that a node does not have. -/
theorem getPort_eq_none_iff : s.getPort p = none ↔ s.Every fun q _ => q ≠ p := by
  constructor
  · intro h q port hq hqp
    rw [hqp, h] at hq
    cases hq
  · intro h
    cases hport : s.getPort p with
    | none => rfl
    | some port => exact absurd rfl (h p port hport)

theorem getPort_closePort (hclose : s.closePort p = (ν, .ok)) : ν.getPort p = none := by
  have herase : (s.erasePort p).Every fun q _ => q ≠ p :=
    getPort_eq_none_iff.1 ((getPort_erasePort s p p).trans (if_pos rfl))
  rw [closePort, closePortAux] at hclose
  split at hclose
  next => cases hclose
  next port hport =>
    split at hclose
    next => exact (Prod.mk.inj hclose).1 ▸ getPort_eq_none_iff.2 herase
    next =>
      refine getPort_eq_none_iff.2 ((Prod.mk.inj hclose).1 ▸ ?_)
      refine Every.foldl (fun s name hs => ?_) _ herase
      split
      · exact hs.closePortAux _ name
      · exact hs
    next => cases hclose

/-- Ports that were closed are gone. -/
theorem getPort_closeAll {ps : List PortName} (hclose : s.closeAll ps = some ν) :
    ∀ q ∈ ps, ν.getPort q = none := by
  induction ps generalizing s with
  | nil => simp
  | cons p ps ih =>
    rw [Node.closeAll] at hclose
    split at hclose
    next s' heq =>
      intro q hq
      rcases List.mem_cons.1 hq with rfl | hq
      · have hgone := getPort_eq_none_iff.1 (getPort_closePort heq)
        exact getPort_eq_none_iff.2 (hgone.closeAll hclose)
      · exact ih hclose q hq
    next => cases hclose

end MojoEdk.Ports.Node

namespace MojoEdk.Core

open Ports (PortName)

variable {P H : Type}

/-! ## Dispatchers of a message -/

/-- The ports that `Close` of a dispatcher closes. -/
def Dispatcher.ownedPorts (d : Dispatcher P H) : List P :=
  if d.isClosed || d.inTransit then [] else d.portToClose.toList

/-- Dispatchers that share a buffer with others. -/
def Dispatcher.hasBuffer : Dispatcher P H → Bool
  | .dataPipeProducer _ | .dataPipeConsumer _ | .sharedBuffer _ => true
  | .messagePipe _ | .platformHandle _ | .waitSet _ => false

namespace PortsMessage

variable (m : PortsMessage P H)

def bytesAvailable : ℕ := (m.payload.length + (2 ^ 32 - m.headerSize)) % 2 ^ 32

/-- What the selector of `ReadMessage` asserts. -/
def HasHeader : Prop :=
  sizeofMessageHeader ≤ m.payload.length ∧ m.headerSize ≤ m.payload.length

instance : Decidable m.HasHeader := inferInstanceAs (Decidable (_ ∧ _))

/-- `Dispatcher::Deserialize`, as `ReadMessage` calls it. Where what is stored is right, it
    fails if the port of a data pipe is not known, or the buffer cannot be created: `fails`
    says for which dispatchers. -/
def deserialize (fails : ℕ → Bool) (i : ℕ) (p : Position) : Option (Dispatcher P H) :=
  let dh := m.dispatcherHeader i
  (Dispatcher.deserialize dh.type (m.payload.slice p.dispatcherData dh.numBytes)
    (m.ports.slice p.portIndex dh.numPorts)
    (m.handles.slice p.platformHandleIndex dh.numPlatformHandles)).filter
      fun d => !(d.hasBuffer && fails i)

/-- The loop of `ReadMessage` over the dispatchers: none of them if one cannot be
    deserialized. -/
def deserializeDispatchers (fails : ℕ → Bool) :
    ℕ → (i : ℕ) → Position → Option (Option (List (Dispatcher P H)))
  | 0, _, _ => some (some [])
  | n + 1, i, p =>
    let next := p.next (m.dispatcherHeader i)
    if next.dispatcherData ≤ m.payload.length ∧ next.portIndex ≤ m.ports.length ∧
        next.platformHandleIndex ≤ m.numHandles then
      match m.deserialize fails i p with
      | none => some none
      | some d => (deserializeDispatchers fails n (i + 1) next).map (·.map (d :: ·))
    else none

end PortsMessage

/-! ## Reading -/

/-- The payload of a user message of a port, and the handles of its channel message. -/
structure Payload (H : Type) where
  bytes : List UInt8
  handles : List (Option H)

/-- The message as a `PortsMessage`. -/
def portsMessage (m : Ports.Message (Payload H)) : PortsMessage PortName H where
  payload := m.payload.bytes
  ports := m.ports
  numHandles := m.payload.handles.length
  handles := m.payload.handles

/-- Every entry of a handle table is for a dispatcher, and the next handle has 32 bits. -/
structure HandleTable.Valid (t : HandleTable P H) : Prop where
  next_lt : t.nextAvailableHandle < 2 ^ 32
  entry_lt : ∀ handle e, t.handles handle = some e → e.dispatcher < t.numDispatchers

/-- What `ReadMessage` changes. -/
structure Reader (H : Type) where
  node : Ports.Node (Payload H)
  table : HandleTable PortName H
  valid : table.Valid

/-- What `ReadMessage` returns, with what it stores for its arguments. -/
structure ReadResult where
  result : MojoResult
  numBytes : Option ℕ
  numHandles : Option ℕ
  bytes : List UInt8 := []
  handles : List ℕ := []
  /-- History: the ports that were closed. -/
  closed : List PortName := []

theorem HandleTable.Valid.insert {t : HandleTable P H} (h : t.Valid) (d : Dispatcher P H) :
    (t.insert d).Valid where
  next_lt := Nat.mod_lt _ (by decide)
  entry_lt handle e he := by
    simp only [HandleTable.insert] at he ⊢
    by_cases hh : handle = t.nextAvailableHandle
    · rw [hh, Function.update_self] at he
      cases hold : t.handles t.nextAvailableHandle with
      | none =>
        rw [hold, Option.none_or, Option.some.injEq] at he
        exact he ▸ Nat.lt_succ_self _
      | some e' =>
        rw [hold, Option.some_or, Option.some.injEq] at he
        exact he ▸ (h.entry_lt _ e' hold).trans (Nat.lt_succ_self _)
    · rw [Function.update_of_ne hh] at he
      exact (h.entry_lt handle e he).trans (Nat.lt_succ_self _)

theorem HandleTable.Valid.insertAll {t : HandleTable P H} (h : t.Valid)
    (ds : List (Dispatcher P H)) : (t.insertAll ds).2.Valid := by
  induction ds generalizing t with
  | nil => exact h
  | cons d ds ih => exact ih (h.insert d)

theorem HandleTable.Valid.addDispatchersFromTransit {t : HandleTable P H} (h : t.Valid)
    (ds : List (Dispatcher P H)) : (t.addDispatchersFromTransit ds).2.2.Valid := by
  rw [HandleTable.addDispatchersFromTransit]
  split_ifs
  · exact h
  · exact h
  · exact h.insertAll ds

/-- `Core::AddDispatchersFromTransit`: the handles of the dispatchers, or the ports that are
    closed with them. -/
def Reader.addDispatchersFromTransit (s : Reader H) (ds : List (Dispatcher PortName H)) :
    Option (Bool × List ℕ × List PortName × Reader H) :=
  if (s.table.addDispatchersFromTransit ds).1 then
    some (true, (s.table.addDispatchersFromTransit ds).2.1, [],
      { s with
        table := (s.table.addDispatchersFromTransit ds).2.2
        valid := s.valid.addDispatchersFromTransit ds })
  else
    (s.node.closeAll (ds.flatMap (·.ownedPorts))).map fun node =>
      (false, [], ds.flatMap (·.ownedPorts), { s with node := node })

namespace MessagePipe

/-- `ReadMessage`, after it took a message for which there is enough space. -/
def receive (fails : ℕ → Bool) (r : ReadResult) (m : PortsMessage PortName H) (s : Reader H) :
    Option (ReadResult × Reader H) :=
  if 0 < m.numDispatchers then
    (m.deserializeDispatchers fails m.numDispatchers 0 m.start).bind fun
      | none => some ({ r with result := .unknown }, s)
      | some ds =>
        (s.addDispatchersFromTransit ds).map fun (ok, handles, closed, s) =>
          if ok then
            ({ r with
                result := .ok, bytes := m.payload.drop m.headerSize, handles := handles }, s)
          else ({ r with result := .unknown, closed := closed }, s)
  else some ({ r with result := .ok, bytes := m.payload.drop m.headerSize }, s)

/-- `ReadMessage`. The selector of `GetMessageIf` asserts that the message has a header, and
    `GetMessageIf` that its ports are receiving. -/
def readMessage (fails : ℕ → Bool) (numBytes numHandles : Option ℕ) (mayDiscard : Bool)
    (d : MessagePipe PortName) (s : Reader H) : Option (ReadResult × Reader H) :=
  if d.portClosed || d.inTransit then some (⟨.invalidArgument, numBytes, numHandles, [], [], []⟩, s)
  else
    -- The selector sees the next message, whether it is taken or left in the queue.
    let next := (s.node.nextMessage d.port).map portsMessage
    let noSpace := next.any fun m => NoSpace m numBytes numHandles
    let (node, message, rv) := s.node.getMessageIf d.port
      (some fun m => !decide (NoSpace (portsMessage m) numBytes numHandles) || mayDiscard)
    if next.all (·.HasHeader) &&
        message.all fun m => m.ports.all fun p => (s.node.getPort p).any (·.state = .receiving) then
      let r := {
        result := .unknown
        numBytes := next.elim numBytes fun m => numBytes.map fun _ => m.bytesAvailable
        numHandles := next.elim numHandles fun m => numHandles.map fun _ => m.numDispatchers }
      let s := { s with node := node }
      if rv ≠ .ok ∧ rv ≠ .errorPortPeerClosed then some ({ r with result := .invalidArgument }, s)
      -- With `MAY_DISCARD`, the message is gone by now.
      else if noSpace then some ({ r with result := .resourceExhausted }, s)
      else
        match message with
        | none =>
          some ({ r with result := if rv = .ok then .shouldWait else .failedPrecondition }, s)
        | some m => receive fails r (portsMessage m) s
    else none

end MessagePipe

/-! ## New handles -/

namespace HandleTable

variable {t : HandleTable P H} {ds : List (Dispatcher P H)}

/-- The handle of a dispatcher that is added. -/
def newHandle (t : HandleTable P H) (i : ℕ) : ℕ := (t.nextAvailableHandle + i) % 2 ^ 32

theorem newHandle_insert (d : Dispatcher P H) (i : ℕ) :
    (t.insert d).newHandle i = t.newHandle (i + 1) := by
  simp only [newHandle, insert, Nat.mod_add_mod, Nat.add_assoc, Nat.add_comm 1 i]

/-- Other handles stand for what they did. -/
theorem handles_insertAll_of_ne (hlt : t.nextAvailableHandle < 2 ^ 32) {handle : ℕ}
    (h : ∀ i < ds.length, handle ≠ t.newHandle i) :
    (t.insertAll ds).2.handles handle = t.handles handle := by
  induction ds generalizing t with
  | nil => rfl
  | cons d ds ih =>
    refine (ih (t := t.insert d) (Nat.mod_lt _ (by decide)) fun i hi => ?_).trans ?_
    · rw [newHandle_insert]
      exact h (i + 1) (Nat.succ_lt_succ hi)
    · refine Function.update_of_ne ?_ _ _
      have hne := h 0 (Nat.succ_pos _)
      rwa [newHandle, Nat.add_zero, Nat.mod_eq_of_lt hlt] at hne

theorem newHandle_inj {i j : ℕ} (hi : i < 2 ^ 32) (hj : j < 2 ^ 32)
    (h : t.newHandle i = t.newHandle j) : i = j := by
  simp only [newHandle] at h
  omega

/-- The handle of a dispatcher stands for it, unless it stood for another one. -/
theorem handles_insertAll (hlt : t.nextAvailableHandle < 2 ^ 32) (hlen : ds.length ≤ 2 ^ 32) {i : ℕ}
    (hi : i < ds.length) : (t.insertAll ds).2.handles (t.newHandle i) =
      (t.handles (t.newHandle i)).or (some ⟨t.numDispatchers + i, false⟩) := by
  induction ds generalizing t i with
  | nil => exact absurd hi (Nat.not_lt_zero i)
  | cons d ds ih =>
    rw [List.length_cons] at hlen hi
    cases i with
    | zero =>
      refine (handles_insertAll_of_ne (t := t.insert d) (Nat.mod_lt _ (by decide))
        fun j hj heq => ?_).trans ?_
      · rw [newHandle_insert] at heq
        exact absurd (newHandle_inj (by omega) (by omega) heq) (by omega)
      · rw [newHandle, Nat.add_zero, Nat.mod_eq_of_lt hlt]
        exact Function.update_self _ _ _
    | succ i =>
      have hrest := ih (t := t.insert d) (i := i) (Nat.mod_lt _ (by decide)) (by omega) (by omega)
      rw [newHandle_insert] at hrest
      refine hrest.trans ?_
      have hne : t.newHandle (i + 1) ≠ t.nextAvailableHandle := fun heq => by
        have hzero : t.newHandle (i + 1) = t.newHandle 0 := by
          rw [heq, newHandle, Nat.add_zero, Nat.mod_eq_of_lt hlt]
        exact absurd (newHandle_inj (by omega) (by omega) hzero) (by omega)
      rw [show (t.insert d).handles (t.newHandle (i + 1)) = t.handles (t.newHandle (i + 1)) from
        Function.update_of_ne hne _ _]
      simp only [insert, Nat.add_assoc, Nat.add_comm 1 i]

theorem dispatchers_insertAll (ds : List (Dispatcher P H)) :
    (∀ o < t.numDispatchers, (t.insertAll ds).2.dispatchers o = t.dispatchers o) ∧
      ∀ (i : ℕ) d, ds[i]? = some d → (t.insertAll ds).2.dispatchers (t.numDispatchers + i) = d := by
  induction ds generalizing t with
  | nil => exact ⟨fun _ _ => rfl, by simp⟩
  | cons d ds ih =>
    obtain ⟨hold, hnew⟩ := ih (t := t.insert d)
    refine ⟨fun o ho => ?_, fun i d' hd => ?_⟩
    · exact (hold o (ho.trans (Nat.lt_succ_self _))).trans (Function.update_of_ne ho.ne _ _)
    · cases i with
      | zero =>
        rw [List.getElem?_cons_zero, Option.some.injEq] at hd
        exact hd ▸ (hold _ (Nat.lt_succ_self _)).trans (Function.update_self _ _ _)
      | succ i =>
        rw [List.getElem?_cons_succ] at hd
        have hnext := hnew i d' hd
        rwa [show (t.insert d).numDispatchers = t.numDispatchers + 1 from rfl, Nat.add_assoc,
          Nat.add_comm 1 i] at hnext

end HandleTable

/-! ## The dispatchers that are made -/

theorem Dispatcher.ownedPorts_deserialize {type : ℕ} {bytes : List UInt8} {ports : List P}
    {handles : List (Option H)} {d : Dispatcher P H}
    (h : Dispatcher.deserialize type bytes ports handles = some d) : d.ownedPorts = ports := by
  rw [Dispatcher.deserialize] at h
  split_ifs at h
  · rw [deserializeMessagePipe.eq_def] at h
    split at h
    · split_ifs at h
      cases h
      rfl
    · cases h
  · rw [deserializeSharedBuffer.eq_def] at h
    split at h
    · split_ifs at h
      cases h
      rfl
    · cases h
  · obtain ⟨x, hx, rfl⟩ := Option.map_eq_some_iff.1 h
    rw [deserializeDataPipe.eq_def] at hx
    split at hx
    · split_ifs at hx
      cases hx
      rfl
    · cases hx
  · obtain ⟨x, hx, rfl⟩ := Option.map_eq_some_iff.1 h
    rw [deserializeDataPipe.eq_def] at hx
    split at hx
    · split_ifs at hx
      cases hx
      rfl
    · cases hx
  · rw [deserializePlatformHandle.eq_def] at h
    split at h
    · cases h
      rfl
    · cases h

namespace PortsMessage

variable {m : PortsMessage P H} {fails : ℕ → Bool}

/-- What `Deserialize` makes of a dispatcher of a message. -/
def dispatcherAt (m : PortsMessage P H) (fails : ℕ → Bool) (i : ℕ) : Option (Dispatcher P H) :=
  m.deserialize fails i (m.position i)

/-- The ports of a dispatcher of a message. -/
def portsAt (m : PortsMessage P H) (i : ℕ) : List P :=
  m.ports.slice (m.position i).portIndex (m.dispatcherHeader i).numPorts

theorem ownedPorts_dispatcherAt {i : ℕ} {d : Dispatcher P H} (h : m.dispatcherAt fails i = some d) :
    d.ownedPorts = m.portsAt i :=
  Dispatcher.ownedPorts_deserialize (Option.filter_eq_some_iff.1 h).1

/-- The loop makes the dispatchers one after the other, and stops where one cannot be made. -/
theorem deserializeDispatchers_spec (fails : ℕ → Bool) (n i : ℕ) :
    (∀ ds, m.deserializeDispatchers fails n i (m.position i) = some (some ds) →
      List.Forall₂ (fun j d => m.dispatcherAt fails j = some d) (List.range' i n) ds) ∧
    (m.deserializeDispatchers fails n i (m.position i) = some none →
      ∃ j ∈ List.range' i n, m.dispatcherAt fails j = none) := by
  induction n generalizing i with
  | zero =>
    refine ⟨fun ds h => ?_, fun h => by cases h⟩
    cases h
    exact .nil
  | succ n ih =>
    rw [deserializeDispatchers, ← position_succ, ← dispatcherAt, List.range'_succ]
    obtain ⟨hsome, hnone⟩ := ih (i + 1)
    split_ifs
    · cases hd : m.dispatcherAt fails i with
      | none => exact ⟨fun ds h => (by cases h), fun _ => ⟨i, List.mem_cons_self, hd⟩⟩
      | some d =>
        dsimp only
        refine ⟨fun ds h => ?_, fun h => ?_⟩
        · obtain ⟨o, ho, hmap⟩ := Option.map_eq_some_iff.1 h
          obtain ⟨ds', rfl, rfl⟩ := Option.map_eq_some_iff.1 hmap
          exact .cons hd (hsome ds' ho)
        · obtain ⟨o, ho, hmap⟩ := Option.map_eq_some_iff.1 h
          rw [Option.map_eq_none_iff] at hmap
          obtain ⟨j, hj, hj'⟩ := hnone (hmap ▸ ho)
          exact ⟨j, List.mem_cons_of_mem _ hj, hj'⟩
    · exact ⟨fun ds h => (by cases h), fun h => by cases h⟩

end PortsMessage

/-! ## What is accounted for -/

variable {fails : ℕ → Bool} {numBytes numHandles : Option ℕ} {mayDiscard : Bool}
  {d : MessagePipe PortName} {s s' : Reader H} {r r' : ReadResult} {m : PortsMessage PortName H}

/-- `AddDispatchersFromTransit` finds no handles for a number of dispatchers. -/
def HandleTable.Refuses (t : HandleTable PortName H) (n : ℕ) : Prop :=
  t.nextAvailableHandle = MOJO_HANDLE_INVALID ∨
    (t.nextAvailableHandle + n) % 2 ^ 64 < t.nextAvailableHandle

theorem HandleTable.fst_addDispatchersFromTransit (t : HandleTable PortName H)
    (ds : List (Dispatcher PortName H)) :
    (t.addDispatchersFromTransit ds).1 = false ↔ t.Refuses ds.length := by
  rw [addDispatchersFromTransit, Refuses]
  split_ifs with hnext hsum
  · exact iff_of_true rfl (Or.inl hnext)
  · exact iff_of_true rfl (Or.inr hsum)
  · exact iff_of_false (by decide) (not_or.2 ⟨hnext, hsum⟩)

/-- The dispatchers of a message. -/
def Makes (fails : ℕ → Bool) (m : PortsMessage PortName H) (ds : List (Dispatcher PortName H)) :
    Prop :=
  List.Forall₂ (fun i d => m.dispatcherAt fails i = some d) (List.range m.numDispatchers) ds

theorem Makes.length {ds : List (Dispatcher PortName H)} (h : Makes fails m ds) :
    ds.length = m.numDispatchers := by
  rw [← List.Forall₂.length_eq h, List.length_range]

theorem Makes.getElem? {ds : List (Dispatcher PortName H)} (h : Makes fails m ds) {i : ℕ}
    (hi : i < m.numDispatchers) : ∃ d, ds[i]? = some d ∧ m.dispatcherAt fails i = some d := by
  have hlt : i < ds.length := h.length.symm ▸ hi
  refine ⟨ds[i], List.getElem?_eq_getElem hlt, ?_⟩
  have hget := List.Forall₂.get h (by rwa [List.length_range]) hlt
  rwa [List.get_eq_getElem, List.get_eq_getElem, List.getElem_range] at hget

theorem Makes.ne_none {ds : List (Dispatcher PortName H)} (h : Makes fails m ds) :
    ∀ i < m.numDispatchers, m.dispatcherAt fails i ≠ none := by
  intro i hi
  obtain ⟨d, -, hat⟩ := h.getElem? hi
  rw [hat]
  exact Option.some_ne_none d

theorem Makes.mem_ownedPorts {ds : List (Dispatcher PortName H)} (h : Makes fails m ds)
    {p : PortName} : p ∈ ds.flatMap (·.ownedPorts) ↔ ∃ i < m.numDispatchers, p ∈ m.portsAt i := by
  rw [List.mem_flatMap]
  constructor
  · rintro ⟨d, hd, hp⟩
    obtain ⟨i, hi, rfl⟩ := List.getElem_of_mem hd
    rw [h.length] at hi
    obtain ⟨d, hd, hat⟩ := h.getElem? hi
    rw [List.getElem?_eq_getElem (h.length.symm ▸ hi), Option.some.injEq] at hd
    rw [hd, PortsMessage.ownedPorts_dispatcherAt hat] at hp
    exact ⟨i, hi, hp⟩
  · rintro ⟨i, hi, hp⟩
    obtain ⟨d, hd, hat⟩ := h.getElem? hi
    exact ⟨d, List.mem_of_getElem? hd, (PortsMessage.ownedPorts_dispatcherAt hat).symm ▸ hp⟩

namespace MessagePipe

/-- What `ReadMessage` does with a message that it took, if there is space for it: the
    dispatchers cannot all be made, or there are no handles for them, or they get some. -/
theorem receive_cases (h : receive fails r m s = some (r', s')) :
    ((∃ i < m.numDispatchers, m.dispatcherAt fails i = none) ∧
      r'.result = .unknown ∧ r'.handles = r.handles ∧ r'.closed = r.closed ∧ s' = s) ∨
    (∃ ds, Makes fails m ds ∧ 0 < m.numDispatchers ∧ s.table.Refuses m.numDispatchers ∧
      r'.result = .unknown ∧ r'.handles = r.handles ∧ r'.closed = ds.flatMap (·.ownedPorts) ∧
      s.node.closeAll (ds.flatMap (·.ownedPorts)) = some s'.node) ∨
    ∃ ds, Makes fails m ds ∧ (0 < m.numDispatchers → ¬s.table.Refuses m.numDispatchers) ∧
      r'.result = .ok ∧ (r'.handles = (s.table.insertAll ds).1 ∨ ds = [] ∧ r'.handles = r.handles) ∧
      r'.closed = r.closed ∧ s'.node = s.node ∧ s'.table = (s.table.insertAll ds).2 := by
  rw [receive] at h
  split_ifs at h with hn
  · have hstart : m.start = m.position 0 := by
      simp only [PortsMessage.position, Finset.range_zero, Finset.sum_empty, Nat.add_zero]
      rfl
    obtain ⟨hsome, hnone⟩ := m.deserializeDispatchers_spec fails m.numDispatchers 0
    obtain ⟨o, ho, hreceive⟩ := Option.bind_eq_some_iff.1 h
    rw [hstart] at ho
    rw [← List.range_eq_range'] at hsome hnone
    cases o with
    | none =>
      obtain ⟨i, hi, hi'⟩ := hnone ho
      cases hreceive
      exact .inl ⟨⟨i, List.mem_range.1 hi, hi'⟩, rfl, rfl, rfl, rfl⟩
    | some ds =>
      have hmakes : Makes fails m ds := hsome ds ho
      dsimp only at hreceive
      rw [Reader.addDispatchersFromTransit] at hreceive
      cases hok : (s.table.addDispatchersFromTransit ds).1 with
      | false =>
        have hrefuses := (s.table.fst_addDispatchersFromTransit ds).1 hok
        rw [hmakes.length] at hrefuses
        rw [hok, if_neg Bool.false_ne_true, Option.map_map] at hreceive
        obtain ⟨ν, hν, heq⟩ := Option.map_eq_some_iff.1 hreceive
        cases heq
        exact .inr (.inl ⟨ds, hmakes, hn, hrefuses, rfl, rfl, rfl, hν⟩)
      | true =>
        have hrefuses : ¬s.table.Refuses m.numDispatchers := by
          rw [← hmakes.length, ← HandleTable.fst_addDispatchersFromTransit, hok]
          exact Bool.noConfusion
        rw [hok, if_pos rfl, Option.map_some] at hreceive
        cases hreceive
        have hadd : s.table.addDispatchersFromTransit ds = (true, s.table.insertAll ds) := by
          rw [← hmakes.length, HandleTable.Refuses, not_or] at hrefuses
          rw [HandleTable.addDispatchersFromTransit, if_neg hrefuses.1, if_neg hrefuses.2]
        exact .inr (.inr ⟨ds, hmakes, fun _ => hrefuses, rfl, .inl (congrArg (·.2.1) hadd), rfl,
          rfl, congrArg (·.2.2) hadd⟩)
  · cases h
    rw [Nat.pos_iff_ne_zero, not_not] at hn
    refine .inr (.inr ⟨[], ?_, fun hpos => absurd hn hpos.ne', rfl, .inr ⟨rfl, rfl⟩, rfl, rfl, rfl⟩)
    rw [Makes, hn]
    exact .nil

/-- What `ReadMessage` takes: nothing, or the next message. -/
theorem readMessage_cases (h : readMessage fails numBytes numHandles mayDiscard d s =
      some (r, s')) :
    ((d.portClosed || d.inTransit) = true ∨ s.node.nextMessage d.port = none) ∧ s' = s ∨
    (d.portClosed || d.inTransit) = false ∧ ∃ m, s.node.nextMessage d.port = some m ∧
      ((NoSpace (portsMessage m) numBytes numHandles ∧ mayDiscard = false ∧ s' = s) ∨
      ∃ ν, ν.Took d.port m ∧
        ((NoSpace (portsMessage m) numBytes numHandles ∧ mayDiscard = true ∧ r.handles = [] ∧
          r.closed = [] ∧ s' = { s with node := ν }) ∨
        ¬NoSpace (portsMessage m) numBytes numHandles ∧ ∃ r₀ : ReadResult, r₀.handles = [] ∧
          r₀.closed = [] ∧
          receive fails r₀ (portsMessage m) { s with node := ν } = some (r, s'))) := by
  rw [readMessage] at h
  cases hclosed : d.portClosed || d.inTransit with
  | true =>
    rw [hclosed, if_pos rfl] at h
    cases h
    exact .inl ⟨.inl rfl, rfl⟩
  | false =>
    rw [hclosed, if_neg Bool.false_ne_true] at h
    cases hnext : s.node.nextMessage d.port with
    | none =>
      refine .inl ⟨.inr rfl, ?_⟩
      obtain ⟨hnode, hmessage⟩ := Ports.Node.getMessageIf_of_none (fun m =>
        !decide (NoSpace (portsMessage m) numBytes numHandles) || mayDiscard) hnext
      dsimp only at h
      rw [hnode, hmessage, hnext] at h
      split_ifs at h
      · cases h
        rfl
      · cases h
        rfl
      · cases h
        rfl
      · cases h
        rfl
    | some m =>
      refine .inr ⟨rfl, m, rfl, ?_⟩
      obtain ⟨hrefused, htaken⟩ := Ports.Node.getMessageIf_of_some (fun m =>
        !decide (NoSpace (portsMessage m) numBytes numHandles) || mayDiscard) hnext
      dsimp only at h
      rw [hnext] at h
      by_cases hspace : NoSpace (portsMessage m) numBytes numHandles
      · cases mayDiscard with
        | false =>
          rw [hrefused (by simp [hspace])] at h
          split_ifs at h with _ hrv hno
          · exact absurd rfl hrv.1
          · cases h
            exact .inl ⟨hspace, rfl, rfl⟩
          · exact absurd (decide_eq_true hspace) hno
          · exact absurd (decide_eq_true hspace) hno
        | true =>
          obtain ⟨ν, hν, htook⟩ := htaken (by simp)
          rw [hν] at h
          dsimp only at h
          split_ifs at h with _ hrv hno
          · exact absurd rfl hrv.1
          · cases h
            exact .inr ⟨ν, htook, .inl ⟨hspace, rfl, rfl, rfl, rfl⟩⟩
          · exact absurd (decide_eq_true hspace) hno
      · obtain ⟨ν, hν, htook⟩ := htaken (by simp [hspace])
        rw [hν] at h
        dsimp only at h
        split_ifs at h with _ hrv hno
        · exact absurd rfl hrv.1
        · exact absurd (of_decide_eq_true hno) hspace
        · exact .inr ⟨ν, htook, .inr ⟨hspace, _, rfl, rfl, h⟩⟩

/-- A port is owned by a new dispatcher whose handle is returned. -/
def Returned (s : Reader H) (r : ReadResult) (s' : Reader H) (p : PortName) : Prop :=
  ∃ handle ∈ r.handles, ∃ o, s.table.numDispatchers ≤ o ∧
    s'.table.handles handle = some ⟨o, false⟩ ∧ p ∈ (s'.table.dispatchers o).ownedPorts

/-- A port was closed, and its node does not have it any more. -/
def Closed (r : ReadResult) (s' : Reader H) (p : PortName) : Prop :=
  p ∈ r.closed ∧ s'.node.getPort p = none

/-- `ReadMessage` accounts for the ports of the message that is the next one: if it is not the
    next one any more, each of them is returned or closed, and an error leaves it where it is
    unless it may be discarded. -/
def Accounts (mayDiscard : Bool) (d : MessagePipe PortName) (s : Reader H) (r : ReadResult)
    (s' : Reader H) : Prop :=
  ∀ m, s.node.queueNext d.port = some m →
    (s'.node.queueNext d.port ≠ some m → ∀ p ∈ m.ports, Returned s r s' p ∨ Closed r s' p) ∧
    (r.result ≠ .ok → mayDiscard = false → s'.node.queueNext d.port = some m)

/-- The ports of a message can be accounted for. -/
structure Accountable (fails : ℕ → Bool) (numBytes numHandles : Option ℕ) (mayDiscard : Bool)
    (t : HandleTable PortName H) (m : PortsMessage PortName H) : Prop where
  /-- A message that is discarded for lack of space has no port. -/
  noSpace : NoSpace m numBytes numHandles → mayDiscard = true → m.ports = []
  /-- Neither does one with a dispatcher that cannot be made, and it may be discarded. -/
  notMade : ¬NoSpace m numBytes numHandles →
    (∃ i < m.numDispatchers, m.dispatcherAt fails i = none) → mayDiscard = true ∧ m.ports = []
  /-- If there are no handles, it may be discarded, and each port is one of a dispatcher. -/
  noHandles : ¬NoSpace m numBytes numHandles →
    (∀ i < m.numDispatchers, m.dispatcherAt fails i ≠ none) → 0 < m.numDispatchers →
    t.Refuses m.numDispatchers →
    mayDiscard = true ∧ ∀ p ∈ m.ports, ∃ i < m.numDispatchers, p ∈ m.portsAt i
  /-- Otherwise each port is one of a dispatcher whose handle is not taken. -/
  returned : ¬NoSpace m numBytes numHandles →
    (∀ i < m.numDispatchers, m.dispatcherAt fails i ≠ none) →
    (0 < m.numDispatchers → ¬t.Refuses m.numDispatchers) →
    ∀ p ∈ m.ports, ∃ i < m.numDispatchers, p ∈ m.portsAt i ∧ t.handles (t.newHandle i) = none

theorem numDispatchers_lt (m : PortsMessage PortName H) : m.numDispatchers < 2 ^ 32 := by
  have hlen : (m.payload.slice 0 4).length ≤ 4 := by
    rw [List.slice]
    exact List.length_take_le 4 _
  exact (ofLeBytes_lt _).trans_le (Nat.pow_le_pow_right (by decide) hlen)

/-- The ports that are returned are those of the dispatchers whose handles were not taken. -/
theorem returned_iff {ds : List (Dispatcher PortName H)} (hmakes : Makes fails m ds)
    (hhandles : r.handles = (s.table.insertAll ds).1 ∨ ds = [] ∧ r.handles = [])
    (htable : s'.table = (s.table.insertAll ds).2) {p : PortName} :
    Returned s r s' p ↔ ∃ i < m.numDispatchers, p ∈ m.portsAt i ∧
      s.table.handles (s.table.newHandle i) = none := by
  have hlen : ds.length ≤ 2 ^ 32 := hmakes.length.trans_le (numDispatchers_lt m).le
  have hmem : ∀ handle, handle ∈ r.handles ↔ ∃ i < m.numDispatchers, s.table.newHandle i = handle := by
    intro handle
    rcases hhandles with heq | ⟨rfl, heq⟩
    · rw [heq, Handles.insertAll_fst ds s.valid.next_lt, hmakes.length, List.mem_map]
      simp only [List.mem_range, HandleTable.newHandle]
    · rw [heq, ← hmakes.length]
      simp
  rw [Returned, htable]
  constructor
  · rintro ⟨handle, hhandle, o, ho, hentry, hp⟩
    obtain ⟨i, hi, rfl⟩ := (hmem handle).1 hhandle
    rw [HandleTable.handles_insertAll s.valid.next_lt hlen (hmakes.length.symm ▸ hi)] at hentry
    cases hold : s.table.handles (s.table.newHandle i) with
    | some e =>
      rw [hold, Option.some_or, Option.some.injEq] at hentry
      have hlt := s.valid.entry_lt _ e hold
      rw [hentry] at hlt
      exact absurd hlt (Nat.not_lt.2 ho)
    | none =>
      rw [hold, Option.none_or, Option.some.injEq, Entry.mk.injEq] at hentry
      obtain ⟨d, hd, hat⟩ := hmakes.getElem? hi
      rw [← hentry.1, (HandleTable.dispatchers_insertAll ds).2 i d hd,
        PortsMessage.ownedPorts_dispatcherAt hat] at hp
      exact ⟨i, hi, hp, hold⟩
  · rintro ⟨i, hi, hp, hold⟩
    refine ⟨s.table.newHandle i, (hmem _).2 ⟨i, hi, rfl⟩, s.table.numDispatchers + i,
      Nat.le_add_right _ _, ?_, ?_⟩
    · rw [HandleTable.handles_insertAll s.valid.next_lt hlen (hmakes.length.symm ▸ hi), hold,
        Option.none_or]
    · obtain ⟨d, hd, hat⟩ := hmakes.getElem? hi
      rw [(HandleTable.dispatchers_insertAll ds).2 i d hd,
        PortsMessage.ownedPorts_dispatcherAt hat]
      exact hp

theorem not_returned (h : r.handles = []) {p : PortName} : ¬Returned s r s' p := by
  rintro ⟨handle, hhandle, -⟩
  rw [h] at hhandle
  cases hhandle

theorem not_closed (h : r.closed = []) {p : PortName} : ¬Closed r s' p := by
  rintro ⟨hp, -⟩
  rw [h] at hp
  cases hp

/-- Nothing is asked of a message that is still the next one. -/
theorem accounts_self (d : MessagePipe PortName) (s : Reader H) (r : ReadResult) :
    Accounts mayDiscard d s r s := fun _ hnext => ⟨fun h => absurd hnext h, fun _ _ => hnext⟩

/-- What is asked of a message that was taken. -/
theorem accounts_took {m : Ports.Message (Payload H)} (hnext : s.node.nextMessage d.port = some m)
    (htook : s'.node.Took d.port m) : Accounts mayDiscard d s r s' ↔
      (∀ p ∈ m.ports, Returned s r s' p ∨ Closed r s' p) ∧ (r.result ≠ .ok → mayDiscard = true) := by
  have hqueue := Ports.Node.queueNext_of_nextMessage hnext
  constructor
  · intro h
    obtain ⟨hports, herror⟩ := h m hqueue
    refine ⟨hports htook.queueNext_ne, fun hok => ?_⟩
    by_contra hdiscard
    exact htook.queueNext_ne (herror hok (Bool.eq_false_iff.2 hdiscard))
  · rintro ⟨hports, herror⟩ m' hm'
    rw [hqueue, Option.some.injEq] at hm'
    subst hm'
    refine ⟨fun _ => hports, fun hok hdiscard => ?_⟩
    rw [herror hok] at hdiscard
    cases hdiscard

/-- A message that has space is accounted for if and only if what the loop and the handle
    table do allows it. -/
theorem accounts_receive {m : Ports.Message (Payload H)} {ν : Ports.Node (Payload H)}
    {r₀ : ReadResult} (hnext : s.node.nextMessage d.port = some m)
    (htook : ν.Took d.port m) (hspace : ¬NoSpace (portsMessage m) numBytes numHandles)
    (hhandles : r₀.handles = []) (hclosed : r₀.closed = [])
    (h : receive fails r₀ (portsMessage m) { s with node := ν } = some (r, s')) :
    Accounts mayDiscard d s r s' ↔
      Accountable fails numBytes numHandles mayDiscard s.table (portsMessage m) := by
  obtain ⟨⟨i, hi, hnone⟩, herror, hhandles', hclosed', rfl⟩ |
    ⟨ds, hmakes, hpos, hrefuses, herror, hhandles', hclosed', hclose⟩ |
    ⟨ds, hmakes, hrefuses, hok, hhandles', hclosed', hnode, htable⟩ := receive_cases h
  · -- A dispatcher cannot be made, so that the ports are those of nobody.
    have hports : (∀ p ∈ m.ports, Returned s r { s with node := ν } p ∨
        Closed r { s with node := ν } p) ↔ m.ports = [] := by
      rw [List.eq_nil_iff_forall_not_mem]
      exact forall₂_congr fun p _ => iff_of_false (not_or.2
        ⟨not_returned (hhandles'.trans hhandles), not_closed (hclosed'.trans hclosed)⟩) not_false
    rw [accounts_took hnext htook, hports]
    constructor
    · rintro ⟨hnil, hdiscard⟩
      exact {
        noSpace := fun hno => absurd hno hspace
        notMade := fun _ _ => ⟨hdiscard (by rw [herror]; decide), hnil⟩
        noHandles := fun _ hmade => absurd hnone (hmade i hi)
        returned := fun _ hmade => absurd hnone (hmade i hi) }
    · intro hcan
      obtain ⟨hdiscard, hnil⟩ := hcan.notMade hspace ⟨i, hi, hnone⟩
      exact ⟨hnil, fun _ => hdiscard⟩
  · -- The dispatchers are closed, and their ports with them.
    have hports : (∀ p ∈ m.ports, Returned s r s' p ∨ Closed r s' p) ↔
        ∀ p ∈ m.ports, ∃ i < (portsMessage m).numDispatchers, p ∈ (portsMessage m).portsAt i := by
      refine forall₂_congr fun p _ => ?_
      rw [or_iff_right (not_returned (hhandles'.trans hhandles)), ← hmakes.mem_ownedPorts, Closed,
        hclosed']
      exact ⟨fun hp => hp.1, fun hp => ⟨hp, Ports.Node.getPort_closeAll hclose p hp⟩⟩
    rw [accounts_took hnext (Ports.Node.Took.closeAll htook hclose), hports]
    constructor
    · rintro ⟨hall, hdiscard⟩
      exact {
        noSpace := fun hno => absurd hno hspace
        notMade := fun _ ⟨i, hi, hnone⟩ => absurd hnone (hmakes.ne_none i hi)
        noHandles := fun _ _ _ _ => ⟨hdiscard (by rw [herror]; decide), hall⟩
        returned := fun _ _ hnot => absurd hrefuses (hnot hpos) }
    · intro hcan
      obtain ⟨hdiscard, hall⟩ := hcan.noHandles hspace hmakes.ne_none hpos hrefuses
      exact ⟨hall, fun _ => hdiscard⟩
  · -- The dispatchers get handles, but those that were taken stand for others.
    have hports : (∀ p ∈ m.ports, Returned s r s' p ∨ Closed r s' p) ↔
        ∀ p ∈ m.ports, ∃ i < (portsMessage m).numDispatchers, p ∈ (portsMessage m).portsAt i ∧
          s.table.handles (s.table.newHandle i) = none := by
      refine forall₂_congr fun p _ => ?_
      rw [or_iff_left (not_closed (hclosed'.trans hclosed))]
      exact returned_iff hmakes (hhandles'.imp_right fun h => ⟨h.1, h.2.trans hhandles⟩) htable
    rw [accounts_took hnext (hnode ▸ htook), hports]
    constructor
    · rintro ⟨hall, -⟩
      exact {
        noSpace := fun hno => absurd hno hspace
        notMade := fun _ ⟨i, hi, hnone⟩ => absurd hnone (hmakes.ne_none i hi)
        noHandles := fun _ _ hpos hyes => absurd hyes (hrefuses hpos)
        returned := fun _ _ _ => hall }
    · intro hcan
      exact ⟨hcan.returned hspace hmakes.ne_none hrefuses, fun h => absurd hok h⟩

/-- `ReadMessage` accounts for the ports of the next message if and only if it does not look
    at it, or if they can be accounted for. -/
theorem accounts_iff (fails : ℕ → Bool) (numBytes numHandles : Option ℕ) (mayDiscard : Bool)
    (d : MessagePipe PortName) (s : Reader H) {r : ReadResult} {s' : Reader H}
    (h : readMessage fails numBytes numHandles mayDiscard d s = some (r, s')) :
    Accounts mayDiscard d s r s' ↔
      ((d.portClosed || d.inTransit) = false → ∀ m, s.node.nextMessage d.port = some m →
        Accountable fails numBytes numHandles mayDiscard s.table (portsMessage m)) := by
  obtain ⟨hnone, rfl⟩ | ⟨hopen, m, hnext, hcase⟩ := readMessage_cases h
  · refine iff_of_true (accounts_self d s' r) fun hopen m hnext => ?_
    rcases hnone with hclosed | hnone
    · exact absurd (hclosed.symm.trans hopen) Bool.noConfusion
    · exact absurd (hnone.symm.trans hnext) (Option.some_ne_none m).symm
  · have hiff : ((d.portClosed || d.inTransit) = false → ∀ m, s.node.nextMessage d.port = some m →
        Accountable fails numBytes numHandles mayDiscard s.table (portsMessage m)) ↔
        Accountable fails numBytes numHandles mayDiscard s.table (portsMessage m) :=
      ⟨fun hall => hall hopen m hnext, fun hm _ m' hm' => Option.some.inj (hnext.symm.trans hm') ▸ hm⟩
    rw [hiff]
    obtain ⟨hspace, hdiscard, rfl⟩ | ⟨ν, htook, hcase⟩ := hcase
    · refine iff_of_true (accounts_self d s' r) {
        noSpace := fun _ hyes => absurd (hdiscard.symm.trans hyes) Bool.noConfusion
        notMade := fun hno => absurd hspace hno
        noHandles := fun hno => absurd hspace hno
        returned := fun hno => absurd hspace hno }
    · obtain ⟨hspace, hdiscard, hhandles, hclosed, rfl⟩ | ⟨hspace, r₀, hhandles, hclosed, hreceive⟩ :=
        hcase
      · -- The message is discarded, with its ports.
        rw [accounts_took hnext htook]
        constructor
        · rintro ⟨hports, -⟩
          refine {
            noSpace := fun _ _ => List.eq_nil_iff_forall_not_mem.2 fun p hp => ?_
            notMade := fun hno => absurd hspace hno
            noHandles := fun hno => absurd hspace hno
            returned := fun hno => absurd hspace hno }
          exact (hports p hp).elim (not_returned hhandles) (not_closed hclosed)
        · intro hcan
          refine ⟨fun p hp => ?_, fun _ => hdiscard⟩
          have hnil : m.ports = [] := hcan.noSpace hspace hdiscard
          rw [hnil] at hp
          cases hp
      · exact accounts_receive hnext htook hspace hhandles hclosed hreceive

/-- A message with a message pipe, the port of which is 2. -/
def pipeMessage : Ports.Message (Payload ℕ) where
  portName := 1
  sequenceNum := 1
  descriptors := [{}]
  ports := [2]
  payload := {
    bytes := messageHeader 1 40 ++ dispatcherHeader 1 ⟨16, 1, 0⟩ ++ List.replicate 16 0
    handles := [] }

/-- A process with that message in the queue of port 1. -/
def pipeReader : Reader ℕ where
  node :=
    (({ name := 1 } : Ports.Node (Payload ℕ)).setPort 1 {
      Ports.Port.new 1 1 with
      state := .receiving
      messageQueue := { heap := [pipeMessage], nextSequenceNum := 1 } }).setPort 2
        { Ports.Port.new 1 1 with state := .receiving }
  table := {}
  valid := ⟨by decide, fun _ _ h => by cases h⟩

/-- A message that is discarded for lack of space leaves the port of its message pipe open,
    in the hands of nobody. -/
theorem not_accounts : ∃ r s', readMessage (fun _ => false) none none true
    ⟨1, 0, 0, false, false, false⟩ pipeReader = some (r, s') ∧ r.result = .resourceExhausted ∧
      s'.node.Receives 2 ∧ ¬Accounts true ⟨1, 0, 0, false, false, false⟩ pipeReader r s' := by
  refine ⟨_, _, rfl, rfl, ⟨_, rfl, rfl⟩, fun h => ?_⟩
  obtain ⟨htaken, -⟩ := h pipeMessage rfl
  have hgone : some pipeMessage ≠ none := Option.some_ne_none _
  exact (htaken hgone.symm 2 (by decide)).elim (not_returned rfl) (not_closed rfl)

/-- With enough space, it is returned. -/
theorem accounts_iff_pipe : ∃ r s', readMessage (fun _ => false) (some 0) (some 1) false
    ⟨1, 0, 0, false, false, false⟩ pipeReader = some (r, s') ∧
      (Accounts false ⟨1, 0, 0, false, false, false⟩ pipeReader r s' ↔
        (false = false → ∀ m, pipeReader.node.nextMessage 1 = some m →
          Accountable (fun _ => false) (some 0) (some 1) false pipeReader.table (portsMessage m))) :=
  ⟨_, _, rfl, accounts_iff _ _ _ _ _ _ rfl⟩

end MessagePipe

end MojoEdk.Core
