import MojoEdk.Core.MessagePipe
import MojoEdk.Library.Checked

/-!
# Decoding messages of a node channel

What is read of a payload that a channel dispatches (`node_channel.cc`), on the way to
the node: `OnChannelMessage`, `GetPortsMessageData`, `Message::Parse`, which computes
the sizes of the parts of an event, and `AcceptMessage`, which reads the event and, of a
user message, the name and the descriptor of each port until one is not accepted. None
of them compares a size with the length of the payload, except for an assertion in
`Parse`.

The exact condition under which all of this stays in the payload is `WellSized`. It is
about the length of the payload, its type, the type of the event and the number of ports.
-/

namespace MojoEdk.NodeChannel

open Checked MojoEdk.Core

/-! ## Types of messages and events -/

/-- `MessageType`. -/
inductive MessageType
  | acceptChild
  | acceptParent
  | portsMessage
  | requestPortConnection
  | connectToPort
  | requestIntroduction
  | introduce
  deriving DecidableEq

def MessageType.ofValue : ℕ → Option MessageType
  | 0 => some .acceptChild
  | 1 => some .acceptParent
  | 2 => some .portsMessage
  | 3 => some .requestPortConnection
  | 4 => some .connectToPort
  | 5 => some .requestIntroduction
  | 6 => some .introduce
  | _ => none

/-- `EventType`. -/
inductive EventType
  | user
  | portAccepted
  | observeProxy
  | observeProxyAck
  | observeClosure
  deriving DecidableEq

def EventType.ofValue : ℕ → Option EventType
  | 0 => some .user
  | 1 => some .portAccepted
  | 2 => some .observeProxy
  | 3 => some .observeProxyAck
  | 4 => some .observeClosure
  | _ => none

/-- The sizes of `AcceptChildData`, `AcceptParentData`, `RequestPortConnectionData`,
    `ConnectToPortData` and `IntroductionData`. -/
def MessageType.sizeofData : MessageType → ℕ
  | .acceptChild | .acceptParent | .connectToPort => 32
  | .requestPortConnection | .requestIntroduction | .introduce => 16
  | .portsMessage => 0

/-- The sizes of the data that follows the header of an event. -/
def EventType.sizeofData : EventType → ℕ
  | .user => sizeofUserEventData
  | .portAccepted => 0
  | .observeProxy => 64
  | .observeProxyAck | .observeClosure => 8

/-! ## Checked decoding -/

/-- The sizes that `Parse` returns. -/
structure Sizes where
  numHeaderBytes : ℕ
  numPayloadBytes : ℕ
  numPortsBytes : ℕ

/-- The type of an event, in the data of a message. -/
def eventType (data : List UInt8) : Option EventType := EventType.ofValue (ofLeBytes (data.slice 0 4))

/-- The number of ports of a user message. -/
def numPorts (data : List UInt8) : ℕ := ofLeBytes (data.slice (sizeofEventHeader + 8) 4)

/-- `Message::Parse`. A type that is not one of an event is a fatal error. The number of
    ports has 32 bits, and the products fit into 64. -/
def checkedParse (data : List UInt8) : Checked (Option (EventType × Sizes)) := do
  access data.length 0 4
  match eventType data with
  | none => pure none
  | some .user => do
    access data.length (sizeofEventHeader + 8) 4
    let numHeaderBytes :=
      sizeofEventHeader + sizeofUserEventData + numPorts data * sizeofPortDescriptor
    let numPortsBytes := numPorts data * sizeofPortName
    -- `num_payload_bytes` is what is left, and its computation wraps if there are too few bytes.
    subtract data.length numHeaderBytes
    subtract (data.length - numHeaderBytes) numPortsBytes
    pure (some (.user, ⟨numHeaderBytes, data.length - numHeaderBytes - numPortsBytes,
      numPortsBytes⟩))
  | some type => pure (some (type, ⟨sizeofEventHeader + type.sizeofData, 0, 0⟩))

/-- The loop of `OnUserMessage` over the ports, given which of them `AcceptPort` will
    accept. -/
def checkedAcceptPorts (accepts : ℕ → Bool) (data : List UInt8) (sizes : Sizes) :
    ℕ → (i : ℕ) → Checked PUnit
  | 0, _ => pure ⟨⟩
  | n + 1, i => do
    access data.length (sizes.numHeaderBytes + i * sizeofPortName) sizeofPortName
    access data.length (sizeofEventHeader + sizeofUserEventData + i * sizeofPortDescriptor)
      sizeofPortDescriptor
    if accepts i then checkedAcceptPorts accepts data sizes n (i + 1) else pure ⟨⟩

/-- `AcceptMessage`. -/
def checkedAcceptMessage (accepts : ℕ → Bool) (data : List UInt8) (type : EventType)
    (sizes : Sizes) : Checked PUnit := do
  access data.length 0 sizeofEventHeader
  access data.length sizeofEventHeader type.sizeofData
  if type = .user then
    checkedAcceptPorts accepts data sizes (sizes.numPortsBytes / sizeofPortName) 0
  else pure ⟨⟩

/-- `OnPortsMessage`: the number of bytes of the event, and the sizes of its parts. -/
def checkedOnPortsMessage (accepts : ℕ → Bool) (payload : List UInt8) :
    Checked (Option (ℕ × Sizes)) := do
  subtract payload.length sizeofNodeChannelHeader
  let data := payload.drop sizeofNodeChannelHeader
  let parsed ← checkedParse data
  match parsed with
  | none => pure none
  | some (type, sizes) => do
    checkedAcceptMessage accepts data type sizes
    pure (some (data.length, sizes))

/-- The type of a message of a node channel. -/
def messageType (payload : List UInt8) : Option MessageType :=
  MessageType.ofValue (ofLeBytes (payload.slice 0 4))

/-- `OnChannelMessage`: what is parsed if the message has an event. -/
def checkedOnChannelMessage (accepts : ℕ → Bool) (payload : List UInt8) :
    Checked (Option (ℕ × Sizes)) := do
  access payload.length 0 4
  match messageType payload with
  | none => pure none
  | some .portsMessage => do
    access payload.length 0 payload.length
    checkedOnPortsMessage accepts payload
  | some .requestPortConnection => do
    access payload.length sizeofNodeChannelHeader MessageType.requestPortConnection.sizeofData
    subtract payload.length MessageType.requestPortConnection.sizeofData
    -- The token is what follows the data, without a terminator.
    let tokenSize := payload.length - MessageType.requestPortConnection.sizeofData
    subtract tokenSize sizeofNodeChannelHeader
    access payload.length
      (sizeofNodeChannelHeader + MessageType.requestPortConnection.sizeofData)
      (tokenSize - sizeofNodeChannelHeader)
    pure none
  | some type => do
    access payload.length sizeofNodeChannelHeader type.sizeofData
    pure none

/-- The parts of an event make up the event. -/
def AddUp (parsed : Option (ℕ × Sizes)) : Prop :=
  ∀ numBytes sizes, parsed = some (numBytes, sizes) →
    sizes.numHeaderBytes + sizes.numPayloadBytes + sizes.numPortsBytes = numBytes

/-- What is read of a payload is in it, and the parts of an event make up the event. -/
def Decoded (accepts : ℕ → Bool) (payload : List UInt8) : Prop :=
  (checkedOnChannelMessage accepts payload).Gives AddUp

/-! ## Lengths -/

/-- The data of a ports message has the length that its event needs. -/
def WellSizedEvent (data : List UInt8) : Prop :=
  4 ≤ data.length ∧
  match eventType data with
  | none => True
  | some .user => sizeofEventHeader + sizeofUserEventData +
      numPorts data * (sizeofPortDescriptor + sizeofPortName) ≤ data.length
  | some type => data.length = sizeofEventHeader + type.sizeofData

/-- A payload has the length that its message needs. -/
def WellSized (payload : List UInt8) : Prop :=
  4 ≤ payload.length ∧
  match messageType payload with
  | none => True
  | some .portsMessage => sizeofNodeChannelHeader ≤ payload.length ∧
      WellSizedEvent (payload.drop sizeofNodeChannelHeader)
  | some type => sizeofNodeChannelHeader + type.sizeofData ≤ payload.length

/-! ## Results -/

variable {accepts : ℕ → Bool} {data payload : List UInt8}

theorem sound_checkedAcceptPorts {sizes : Sizes} {n i : ℕ}
    (hnames : sizes.numHeaderBytes + (i + n) * sizeofPortName ≤ data.length)
    (hdescriptors : sizeofEventHeader + sizeofUserEventData + (i + n) * sizeofPortDescriptor ≤
      data.length) :
    (checkedAcceptPorts accepts data sizes n i).Sound := by
  induction n generalizing i with
  | zero => exact sound_pure _
  | succ n ih =>
    simp only [sizeofPortName, sizeofPortDescriptor] at hnames hdescriptors
    have hrest := ih (i := i + 1) (by simp only [sizeofPortName]; omega)
      (by simp only [sizeofPortDescriptor]; omega)
    rw [checkedAcceptPorts]
    simp only [sound_bind, sound_access, sizeofPortName, sizeofPortDescriptor]
    refine ⟨by omega, by omega, ?_⟩
    split_ifs
    · exact hrest
    · exact sound_pure _

theorem addUp_none : AddUp none := nofun

theorem addUp_some {numBytes : ℕ} {sizes : Sizes} : AddUp (some (numBytes, sizes)) ↔
    sizes.numHeaderBytes + sizes.numPayloadBytes + sizes.numPortsBytes = numBytes :=
  ⟨fun h => h _ _ rfl, by rintro h _ _ ⟨⟩; exact h⟩

/-- A user message that is large enough for its ports is read in bounds. -/
theorem sound_checkedAcceptMessage_user {n numPayloadBytes : ℕ}
    (h : sizeofEventHeader + sizeofUserEventData + n * (sizeofPortDescriptor + sizeofPortName) ≤
      data.length) :
    (checkedAcceptMessage accepts data .user
      ⟨sizeofEventHeader + sizeofUserEventData + n * sizeofPortDescriptor, numPayloadBytes,
        n * sizeofPortName⟩).Sound := by
  simp only [sizeofEventHeader, sizeofUserEventData, sizeofPortDescriptor, sizeofPortName] at h
  simp only [checkedAcceptMessage, sound_bind, sound_access, if_true, EventType.sizeofData,
    sizeofEventHeader, sizeofUserEventData, sizeofPortDescriptor, sizeofPortName]
  refine ⟨by omega, by omega, sound_checkedAcceptPorts ?_ ?_⟩
  · simp only [sizeofPortName]
    omega
  · simp only [sizeofEventHeader, sizeofUserEventData, sizeofPortDescriptor]
    omega

theorem gives_onPortsMessage_iff (accepts : ℕ → Bool) (payload : List UInt8) :
    (checkedOnPortsMessage accepts payload).Gives AddUp ↔
      sizeofNodeChannelHeader ≤ payload.length ∧
        WellSizedEvent (payload.drop sizeofNodeChannelHeader) := by
  generalize hdata : payload.drop sizeofNodeChannelHeader = data
  unfold Gives checkedOnPortsMessage checkedParse WellSizedEvent
  simp only [hdata]
  rcases htype : eventType data with _ | type
  · simp [addUp_none]
  -- A user event has a variable number of ports.
  rcases type
  · simp only [sound_bind, sound_access, sound_subtract, sound_pure, value_bind, value_pure,
      addUp_some]
    constructor
    · rintro ⟨⟨hpayload, ⟨htype, -, hheader, hports, -⟩, -⟩, -⟩
      refine ⟨hpayload, by omega, ?_⟩
      rw [Nat.mul_add]
      omega
    · rintro ⟨hpayload, htype, hsize⟩
      refine ⟨⟨hpayload, ⟨by omega, ?_, ?_, ?_, trivial⟩, sound_checkedAcceptMessage_user hsize,
        trivial⟩, ?_⟩
      all_goals
        simp only [sizeofEventHeader, sizeofUserEventData, sizeofPortDescriptor,
          sizeofPortName] at hsize ⊢
        omega
  -- The data of the other events is of a fixed size.
  all_goals
    simp only [sound_bind, sound_access, sound_subtract, sound_pure, value_bind, value_pure,
      addUp_some, checkedAcceptMessage, EventType.sizeofData, reduceCtorEq, if_false,
      sizeofEventHeader, and_true]
    omega

/-- Whatever the payload is, it is decoded in bounds if and only if it has the length that
    its message needs. -/
theorem decoded_iff_wellSized (accepts : ℕ → Bool) (payload : List UInt8) :
    Decoded accepts payload ↔ WellSized payload := by
  unfold Decoded checkedOnChannelMessage WellSized
  rcases htype : messageType payload with _ | type
  · simp [Gives, addUp_none]
  rcases type
  case portsMessage =>
    have hparse := gives_onPortsMessage_iff accepts payload
    simp only [Gives, sound_bind, sound_access, value_bind, Nat.zero_add, le_refl,
      true_and] at hparse ⊢
    rw [and_assoc, hparse]
  case requestPortConnection =>
    simp only [Gives, sound_bind, sound_access, sound_subtract, sound_pure, value_bind, value_pure,
      addUp_none, and_true, MessageType.sizeofData, sizeofNodeChannelHeader]
    omega
  all_goals
    simp only [Gives, sound_bind, sound_access, sound_pure, value_bind, value_pure, addUp_none,
      and_true, Nat.zero_add]

/-- An empty payload is dispatched, and its type is read. A user event says that it has
    two ports, and there is no room for them. -/
theorem not_decoded :
    ¬Decoded (fun _ => true) [] ∧
    ¬Decoded (fun _ => true) (leBytes 8 2 ++ leBytes 24 0 ++ leBytes 8 1 ++ leBytes 8 2) := by
  constructor <;> exact fun h => absurd h.1 (by decide)

end MojoEdk.NodeChannel
