import MojoEdk.Channel.NodeChannel
import MojoEdk.Library.Memory
import MojoEdk.Ports.Basic

/-!
# Messages of ports on a node channel

An event is built in the memory of a channel message, behind the header of the channel and
that of the node channel (`ports_message.cc`, `message.cc`, `node_channel.cc`). Its sections
follow each other: a header, which has the descriptors of the ports of a user message, the
names of these ports, and the payload. Their sizes are not sent. Whoever receives the
message computes them from the type of the event and the number of ports
(`Message::Parse`).

The main result, `receive_build`, is that every event that fits is received as it was sent,
with sections of the same sizes.

A name is a number of 128 bits: its two words, the lower one first.
-/

namespace MojoEdk.NodeChannel

open MojoEdk.Core Ports

variable {H : Type*}

/-! ## Channel messages -/

/-- `Channel::Message`, without its header but for the number of handles. -/
structure ChannelMessage (H : Type*) where
  payload : List UInt8
  numHandles : ℕ
  handleVector : Option (List H) := none

namespace ChannelMessage

/-- The constructor, which asserts that the sizes fit into the header. The payload is what
    memory holds. -/
def new (mem : ℕ → UInt8) (payloadSize numHandles : ℕ) : Option (ChannelMessage H) :=
  if payloadSize + Channel.sizeofHeader < 2 ^ 32 ∧ numHandles < 2 ^ 16 then
    some { payload := (List.range payloadSize).map mem, numHandles := numHandles }
  else none

/-- `SetHandles`. -/
def setHandles (m : ChannelMessage H) (handles : Option (List H)) : Option (ChannelMessage H) :=
  if m.numHandles = 0 then if (handles.map (·.length)).getD 0 = 0 then some m else none
  else if handles.map (·.length) = some m.numHandles then some { m with handleVector := handles }
  else none

/-- `handles`, as many as there are. -/
def handles (m : ChannelMessage H) : List H :=
  if m.numHandles = 0 then [] else m.handleVector.getD []

end ChannelMessage

/-! ## Building messages -/

/-- The value of a type of an event. -/
def EventType.value : EventType → ℕ
  | .user => 0
  | .portAccepted => 1
  | .observeProxy => 2
  | .observeProxyAck => 3
  | .observeClosure => 4

/-- The value of `PORTS_MESSAGE`. -/
def portsMessageValue : ℕ := 2

/-- `CreatePortsMessage`: the header of the node channel, and its padding. -/
def createPortsMessage (mem : ℕ → UInt8) (payloadSize numHandles : ℕ) :
    Option (ChannelMessage H) :=
  (ChannelMessage.new mem (sizeofNodeChannelHeader + payloadSize) numHandles).map fun m =>
    { m with payload := (m.payload.splice 0 (leBytes 4 portsMessageValue)).splice 4 (leBytes 4 0) }

/-- `PortsMessage`. -/
structure PortsMessage (H : Type*) where
  sizes : Sizes
  channelMessage : ChannelMessage H

namespace PortsMessage

/-- The memory from `start_` on. -/
def data (m : PortsMessage H) : List UInt8 :=
  m.channelMessage.payload.drop sizeofNodeChannelHeader

/-- The message after a call that stores something behind `start_`. -/
def modify (m : PortsMessage H) (f : List UInt8 → List UInt8) : PortsMessage H :=
  { m with channelMessage := { m.channelMessage with
    payload := m.channelMessage.payload.take sizeofNodeChannelHeader ++ f m.data } }

/-- `InitializeUserMessageHeader`. -/
def initializeUserMessageHeader (m : PortsMessage H) (numPorts : ℕ) : PortsMessage H :=
  m.modify fun start => ((start.splice 0 (List.replicate m.sizes.numHeaderBytes 0)).splice 0
    (leBytes 4 EventType.user.value)).splice (sizeofEventHeader + 8) (leBytes 4 numPorts)

/-- `NewUserMessage`. -/
def newUserMessage (mem : ℕ → UInt8) (numPayloadBytes numPorts numHandles : ℕ) :
    Option (PortsMessage H) :=
  let sizes : Sizes := {
    numHeaderBytes := sizeofEventHeader + sizeofUserEventData + numPorts * sizeofPortDescriptor
    numPayloadBytes := numPayloadBytes
    numPortsBytes := numPorts * sizeofPortName }
  (createPortsMessage mem (sizes.numHeaderBytes + sizes.numPortsBytes + numPayloadBytes)
    numHandles).map fun channelMessage =>
      initializeUserMessageHeader ⟨sizes, channelMessage⟩ numPorts

/-- `AllocMessage`. -/
def allocMessage (mem : ℕ → UInt8) (numHeaderBytes : ℕ) : Option (PortsMessage H) :=
  (createPortsMessage mem numHeaderBytes 0).map fun channelMessage =>
    ⟨⟨numHeaderBytes, 0, 0⟩, channelMessage⟩

/-- `NewInternalMessage_Helper`. -/
def newInternalMessage (mem : ℕ → UInt8) (portName : PortName) (type : EventType)
    (data : List UInt8) : Option (PortsMessage H) :=
  (allocMessage mem (sizeofEventHeader + data.length)).map fun m =>
    m.modify fun start => (((start.splice 8 (leBytes 16 portName)).splice 0
      (leBytes 4 type.value)).splice 4 (leBytes 4 0)).splice sizeofEventHeader data

end PortsMessage

/-- The fields of a `PortDescriptor`. The padding behind them is not written. -/
def portDescriptor (d : PortDescriptor) : List UInt8 :=
  leBytes 16 d.peerNodeName ++ (leBytes 16 d.peerPortName ++ (leBytes 16 d.referringNodeName ++
    (leBytes 16 d.referringPortName ++ (leBytes 8 d.nextSequenceNumToSend.toNat ++
      (leBytes 8 d.nextSequenceNumToReceive.toNat ++ (leBytes 8 d.lastSequenceNumToReceive.toNat ++
        leBytes 1 d.peerClosed.toNat))))))

/-- `ObserveProxyEventData`. -/
def observeProxyEventData (d : ObserveProxyEventData) : List UInt8 :=
  leBytes 16 d.proxyNodeName ++ (leBytes 16 d.proxyPortName ++ (leBytes 16 d.proxyToNodeName ++
    leBytes 16 d.proxyToPortName))

/-- The payload and the platform handles of a user message. -/
abbrev Contents (H : Type*) := List UInt8 × List H

namespace PortsMessage

/-- What is stored in a user message after it is created: the payload and the handles by the
    embedder, the rest by `WillSendMessage_Locked` and `WillSendPort_Locked`. -/
def fill (m : PortsMessage H) (message : Message (Contents H)) : Option (PortsMessage H) :=
  let m := m.modify (·.splice (m.sizes.numHeaderBytes + m.sizes.numPortsBytes) message.payload.1)
  (m.channelMessage.setHandles (some message.payload.2)).map fun channelMessage =>
    { m with channelMessage := channelMessage }.modify fun start =>
      (((start.splice sizeofEventHeader (leBytes 8 message.sequenceNum.toNat)).storeAll
        m.sizes.numHeaderBytes sizeofPortName (message.ports.map (leBytes 16))).storeAll
        (sizeofEventHeader + sizeofUserEventData) sizeofPortDescriptor
          (message.descriptors.map portDescriptor)).splice 8 (leBytes 16 message.portName)

/-- How an event is built. -/
def build (mem : ℕ → UInt8) : Event (Contents H) → Option (PortsMessage H)
  | .user m =>
    (newUserMessage mem m.payload.1.length m.ports.length m.payload.2.length).bind (·.fill m)
  | .portAccepted p => newInternalMessage mem p .portAccepted []
  | .observeProxy p d => newInternalMessage mem p .observeProxy (observeProxyEventData d)
  | .observeProxyAck p n => newInternalMessage mem p .observeProxyAck (leBytes 8 n.toNat)
  | .observeClosure p n => newInternalMessage mem p .observeClosure (leBytes 8 n.toNat)

end PortsMessage

/-! ## Receiving messages -/

/-- `OnChannelMessage` of a `PORTS_MESSAGE`: a copy of the payload, with the header of the node
    channel. -/
def onChannelMessage (mem : ℕ → UInt8) (payload : List UInt8) (handles : Option (List H)) :
    Option (ChannelMessage H) :=
  if messageType payload = some .portsMessage then
    (ChannelMessage.new mem payload.length ((handles.map (·.length)).getD 0)).bind fun m =>
      (m.setHandles handles).map fun m => { m with payload := m.payload.splice 0 payload }
  else none

/-- `OnPortsMessage`: `GetPortsMessageData`, then `Parse`, which asserts that an internal event
    is a header only. -/
def onPortsMessage (channelMessage : ChannelMessage H) : Option (PortsMessage H) :=
  let data := channelMessage.payload.drop sizeofNodeChannelHeader
  (checkedParse data).value.bind fun (type, sizes) =>
    if type = .user ∨ data.length = sizes.numHeaderBytes then some ⟨sizes, channelMessage⟩ else none

namespace PortsMessage

/-- What is received when a message is sent. The channel takes the handles of a message, and
    gives as many as its header tells. -/
def receive (mem : ℕ → UInt8) (m : PortsMessage H) : Option (PortsMessage H) :=
  (onChannelMessage mem m.channelMessage.payload
    (if m.channelMessage.numHandles = 0 then none else m.channelMessage.handleVector)).bind
      onPortsMessage

/-! ## Reading messages -/

/-- `num_ports`. -/
def numPorts (m : PortsMessage H) : ℕ := m.sizes.numPortsBytes / sizeofPortName

/-- A name. -/
def readName (start : List UInt8) (offset : ℕ) : ℕ := ofLeBytes (start.slice offset 16)

/-- `GetPortDescriptors` at an index. -/
def readPortDescriptor (start : List UInt8) (offset : ℕ) : PortDescriptor where
  peerNodeName := readName start offset
  peerPortName := readName start (offset + 16)
  referringNodeName := readName start (offset + 32)
  referringPortName := readName start (offset + 48)
  nextSequenceNumToSend := readUInt64 start (offset + 64)
  nextSequenceNumToReceive := readUInt64 start (offset + 72)
  lastSequenceNumToReceive := readUInt64 start (offset + 80)
  peerClosed := readUInt8 start (offset + 88) != 0

/-- `GetEventData` of an `ObserveProxyEventData`. -/
def readObserveProxyEventData (start : List UInt8) (offset : ℕ) : ObserveProxyEventData where
  proxyNodeName := readName start offset
  proxyPortName := readName start (offset + 16)
  proxyToNodeName := readName start (offset + 32)
  proxyToPortName := readName start (offset + 48)

/-- The event that a message is: what `AcceptMessage` and the embedder read of it. -/
def event (m : PortsMessage H) : Option (Event (Contents H)) :=
  let portName := readName m.data 8
  (eventType m.data).map fun
    | .user => .user {
        portName := portName
        sequenceNum := readUInt64 m.data sizeofEventHeader
        descriptors := (List.range m.numPorts).map fun i => readPortDescriptor m.data
          (sizeofEventHeader + sizeofUserEventData + i * sizeofPortDescriptor)
        ports := (List.range m.numPorts).map fun i =>
          readName m.data (m.sizes.numHeaderBytes + i * sizeofPortName)
        payload := (m.data.slice (m.sizes.numHeaderBytes + m.sizes.numPortsBytes)
          m.sizes.numPayloadBytes, m.channelMessage.handles) }
    | .portAccepted => .portAccepted portName
    | .observeProxy => .observeProxy portName (readObserveProxyEventData m.data sizeofEventHeader)
    | .observeProxyAck => .observeProxyAck portName (readUInt64 m.data sizeofEventHeader)
    | .observeClosure => .observeClosure portName (readUInt64 m.data sizeofEventHeader)

end PortsMessage

/-! ## Events that fit -/

/-- The names of a descriptor have 128 bits. -/
structure FitsDescriptor (d : PortDescriptor) : Prop where
  peerNodeName : d.peerNodeName < 2 ^ 128
  peerPortName : d.peerPortName < 2 ^ 128
  referringNodeName : d.referringNodeName < 2 ^ 128
  referringPortName : d.referringPortName < 2 ^ 128

/-- A user message has names of 128 bits, a descriptor for each port, and a size and a number of
    handles that fit into the header of a channel message. -/
structure FitsMessage (m : Message (Contents H)) : Prop where
  portName : m.portName < 2 ^ 128
  ports : ∀ p ∈ m.ports, p < 2 ^ 128
  descriptors : ∀ d ∈ m.descriptors, FitsDescriptor d
  length : m.descriptors.length = m.ports.length
  size : channelMessageSize m.payload.1.length m.ports.length < 2 ^ 32
  handles : m.payload.2.length < 2 ^ 16

/-- An event fits into a message. -/
def Fits : Event (Contents H) → Prop
  | .user m => FitsMessage m
  | .portAccepted p | .observeProxyAck p _ | .observeClosure p _ => p < 2 ^ 128
  | .observeProxy p d => p < 2 ^ 128 ∧ d.proxyNodeName < 2 ^ 128 ∧ d.proxyPortName < 2 ^ 128 ∧
      d.proxyToNodeName < 2 ^ 128 ∧ d.proxyToPortName < 2 ^ 128

/-! ## Fields -/

section Fields

variable {l : List UInt8} {i : ℕ}

theorem readName_eq {name : ℕ} (h : l.Holds i (leBytes 16 name)) (hname : name < 2 ^ 128) :
    PortsMessage.readName l i = name := h.ofLeBytes_slice (hname.trans_eq (by norm_num))

theorem readUInt64_eq {n : UInt64} (h : l.Holds i (leBytes 8 n.toNat)) : readUInt64 l i = n := by
  rw [readUInt64, h.ofLeBytes_slice n.toNat_lt, UInt64.ofNat_toNat]

theorem readBool_eq {b : Bool} (h : l.Holds i (leBytes 1 b.toNat)) :
    (readUInt8 l i != 0) = b := by
  rw [readUInt8, h.ofLeBytes_slice (by cases b <;> decide)]
  cases b <;> rfl

theorem eventType_eq {type : EventType} (h : l.Holds 0 (leBytes 4 type.value)) :
    eventType l = some type := by
  rw [eventType, h.ofLeBytes_slice (by cases type <;> decide)]
  cases type <;> rfl

@[simp] theorem length_portDescriptor (d : PortDescriptor) : (portDescriptor d).length = 89 := rfl

theorem readPortDescriptor_eq {d : PortDescriptor} (h : l.Holds i (portDescriptor d))
    (hd : FitsDescriptor d) : PortsMessage.readPortDescriptor l i = d := by
  simp only [portDescriptor, List.holds_append, length_leBytes, Nat.add_assoc, Nat.reduceAdd] at h
  obtain ⟨h₁, h₂, h₃, h₄, h₅, h₆, h₇, h₈⟩ := h
  rw [PortsMessage.readPortDescriptor, readName_eq h₁ hd.peerNodeName,
    readName_eq h₂ hd.peerPortName, readName_eq h₃ hd.referringNodeName,
    readName_eq h₄ hd.referringPortName, readUInt64_eq h₅, readUInt64_eq h₆, readUInt64_eq h₇,
    readBool_eq h₈]

theorem readObserveProxyEventData_eq {d : ObserveProxyEventData}
    (h : l.Holds i (observeProxyEventData d)) (h₁ : d.proxyNodeName < 2 ^ 128)
    (h₂ : d.proxyPortName < 2 ^ 128) (h₃ : d.proxyToNodeName < 2 ^ 128)
    (h₄ : d.proxyToPortName < 2 ^ 128) : PortsMessage.readObserveProxyEventData l i = d := by
  simp only [observeProxyEventData, List.holds_append, length_leBytes, Nat.add_assoc,
    Nat.reduceAdd] at h
  rw [PortsMessage.readObserveProxyEventData, readName_eq h.1 h₁, readName_eq h.2.1 h₂,
    readName_eq h.2.2.1 h₃, readName_eq h.2.2.2 h₄]

end Fields

/-! ## Sizes -/

/-- The sizes of a user message are computed from the number of its ports. -/
theorem value_checkedParse_user {data : List UInt8} {n numPayloadBytes : ℕ}
    (htype : data.Holds 0 (leBytes 4 EventType.user.value))
    (hnum : data.Holds (sizeofEventHeader + 8) (leBytes 4 n)) (hn : n < 2 ^ 32)
    (hlen : data.length = sizeofEventHeader + sizeofUserEventData + n * sizeofPortDescriptor +
      n * sizeofPortName + numPayloadBytes) :
    (checkedParse data).value = some (.user, ⟨sizeofEventHeader + sizeofUserEventData +
      n * sizeofPortDescriptor, numPayloadBytes, n * sizeofPortName⟩) := by
  have hports : numPorts data = n := hnum.ofLeBytes_slice (hn.trans_eq (by norm_num))
  have hpayload : data.length - (sizeofEventHeader + sizeofUserEventData +
      n * sizeofPortDescriptor) - n * sizeofPortName = numPayloadBytes := by omega
  rw [checkedParse, eventType_eq htype]
  simp only [Checked.value_bind, Checked.value_pure, hports, hpayload]

/-- An internal event is a header. -/
theorem value_checkedParse_internal {data : List UInt8} {type : EventType}
    (htype : data.Holds 0 (leBytes 4 type.value)) (hne : type ≠ .user) :
    (checkedParse data).value = some (type, ⟨sizeofEventHeader + type.sizeofData, 0, 0⟩) := by
  rw [checkedParse, eventType_eq htype]
  cases type with
  | user => exact absurd rfl hne
  | portAccepted | observeProxy | observeProxyAck | observeClosure => rfl

/-! ## What is built -/

namespace PortsMessage

variable {m : PortsMessage H} {numBytes : ℕ}

/-- A message with an event of a number of bytes, which a channel can send. -/
structure Sendable (m : PortsMessage H) (numBytes : ℕ) : Prop where
  length : m.channelMessage.payload.length = sizeofNodeChannelHeader + numBytes
  type : m.channelMessage.payload.Holds 0 (leBytes 4 portsMessageValue)
  size : sizeofNodeChannelHeader + numBytes + Channel.sizeofHeader < 2 ^ 32
  numHandles : m.channelMessage.numHandles < 2 ^ 16

/-- The handles are as many as the header says. -/
def HasHandles (m : ChannelMessage H) : Prop :=
  if m.numHandles = 0 then m.handleVector = none
  else m.handleVector.map (·.length) = some m.numHandles

theorem createPortsMessage_spec (mem : ℕ → UInt8) {payloadSize numHandles : ℕ} (sizes : Sizes)
    (hsize : sizeofNodeChannelHeader + payloadSize + Channel.sizeofHeader < 2 ^ 32)
    (hhandles : numHandles < 2 ^ 16) : ∃ channelMessage : ChannelMessage H,
      createPortsMessage mem payloadSize numHandles = some channelMessage ∧
      Sendable ⟨sizes, channelMessage⟩ payloadSize ∧ channelMessage.numHandles = numHandles ∧
      channelMessage.handleVector = none := by
  refine ⟨_, by rw [createPortsMessage, ChannelMessage.new, if_pos ⟨hsize, hhandles⟩]; rfl, ?_, rfl,
    rfl⟩
  have hlen : ((List.range (sizeofNodeChannelHeader + payloadSize)).map mem).length =
      8 + payloadSize := by
    rw [List.length_map, List.length_range]
    rfl
  have hlen₁ : (((List.range (sizeofNodeChannelHeader + payloadSize)).map mem).splice 0
      (leBytes 4 portsMessageValue)).length = 8 + payloadSize := by
    rw [List.length_splice (by rw [hlen, length_leBytes]; omega), hlen]
  refine ⟨?_, ?_, hsize, hhandles⟩
  · rw [List.length_splice (by rw [hlen₁, length_leBytes]; omega), hlen₁]
    rfl
  · exact (List.holds_splice_self _ _ (Nat.zero_le _)).splice (by rw [hlen₁]; omega) (.inl le_rfl)

theorem length_data (h : m.Sendable numBytes) : m.data.length = numBytes := by
  rw [data, List.length_drop, h.length, Nat.add_sub_cancel_left]

theorem data_modify (h : m.Sendable numBytes) (f : List UInt8 → List UInt8) :
    (m.modify f).data = f m.data := by
  have hlen : (m.channelMessage.payload.take sizeofNodeChannelHeader).length =
      sizeofNodeChannelHeader := by
    rw [List.length_take, h.length]
    omega
  rw [data, modify, List.drop_append_of_le_length hlen.ge, List.drop_eq_nil_of_le hlen.le,
    List.nil_append]

/-- What is stored behind the header leaves a message that can be sent. -/
theorem Sendable.modify (h : m.Sendable numBytes) {f : List UInt8 → List UInt8}
    (hf : (f m.data).length = numBytes) : (m.modify f).Sendable numBytes where
  length := by
    rw [PortsMessage.modify, List.length_append, hf, List.length_take, h.length]
    omega
  type := by
    have htype := h.type
    rw [List.Holds, length_leBytes] at htype ⊢
    rw [PortsMessage.modify, List.slice_append_of_le (by
      rw [List.length_take, h.length, sizeofNodeChannelHeader]; omega), ← htype, List.slice,
      List.slice, List.drop_zero, List.drop_zero, List.take_take]
    rfl
  size := h.size
  numHandles := h.numHandles

/-- A channel message is received as it is. -/
theorem onChannelMessage_eq (mem : ℕ → UInt8) {channelMessage : ChannelMessage H}
    (htype : messageType channelMessage.payload = some .portsMessage)
    (hsize : channelMessage.payload.length + Channel.sizeofHeader < 2 ^ 32)
    (hnum : channelMessage.numHandles < 2 ^ 16) (hhandles : HasHandles channelMessage) :
    onChannelMessage mem channelMessage.payload
      (if channelMessage.numHandles = 0 then none else channelMessage.handleVector) =
        some channelMessage := by
  obtain ⟨payload, numHandles, handleVector⟩ := channelMessage
  have hcopy : ((List.range payload.length).map mem).splice 0 payload = payload :=
    List.splice_zero_of_length (by rw [List.length_map, List.length_range])
  dsimp only at htype hsize hnum ⊢
  rw [HasHandles] at hhandles
  split_ifs at hhandles ⊢ with hzero
  · -- There is no handle, and no vector of them.
    obtain rfl : handleVector = none := hhandles
    obtain rfl : numHandles = 0 := hzero
    rw [onChannelMessage, if_pos htype, ChannelMessage.new, if_pos ⟨hsize, hnum⟩]
    exact congrArg (fun bytes => some (⟨bytes, 0, none⟩ : ChannelMessage H)) hcopy
  · have hlen : handleVector.map (·.length) = some numHandles := hhandles
    rw [onChannelMessage, if_pos htype, hlen, Option.getD_some, ChannelMessage.new,
      if_pos ⟨hsize, hnum⟩, Option.bind_some, ChannelMessage.setHandles, if_neg hzero, if_pos hlen]
    exact congrArg (fun bytes => some (⟨bytes, numHandles, handleVector⟩ : ChannelMessage H)) hcopy

/-- A message is received as it is, if it is parsed so. -/
theorem receive_eq (mem : ℕ → UInt8) (h : m.Sendable numBytes)
    (hhandles : HasHandles m.channelMessage)
    (hparse : onPortsMessage m.channelMessage = some m) : m.receive mem = some m := by
  have htype : messageType m.channelMessage.payload = some .portsMessage := by
    rw [messageType, h.type.ofLeBytes_slice (by decide)]
    rfl
  have hsize : m.channelMessage.payload.length + Channel.sizeofHeader < 2 ^ 32 := by
    rw [h.length]
    exact h.size
  rw [receive, onChannelMessage_eq mem htype hsize h.numHandles hhandles, Option.bind_some, hparse]

/-- The sizes that are parsed are those of the message. -/
theorem onPortsMessage_eq (type : EventType)
    (hparse : (checkedParse m.data).value = some (type, m.sizes))
    (hlen : type = .user ∨ m.data.length = m.sizes.numHeaderBytes) :
    onPortsMessage m.channelMessage = some m := by
  rw [onPortsMessage]
  change Option.bind (checkedParse m.data).value _ = _
  rw [hparse, Option.bind_some]
  exact if_pos hlen

/-! ### Internal events -/

/-- What `NewInternalMessage_Helper` stores. -/
theorem holds_internal {start : List UInt8} (p : PortName) (type : EventType) (data : List UInt8)
    (hlen : start.length = sizeofEventHeader + data.length) :
    let stored := (((start.splice 8 (leBytes 16 p)).splice 0 (leBytes 4 type.value)).splice 4
      (leBytes 4 0)).splice sizeofEventHeader data
    stored.length = start.length ∧ stored.Holds 0 (leBytes 4 type.value) ∧
      stored.Holds 8 (leBytes 16 p) ∧ stored.Holds sizeofEventHeader data := by
  simp only [sizeofEventHeader] at hlen ⊢
  have h₁ : (start.splice 8 (leBytes 16 p)).length = start.length :=
    List.length_splice (by rw [length_leBytes]; omega)
  have h₂ : ((start.splice 8 (leBytes 16 p)).splice 0 (leBytes 4 type.value)).length =
      start.length := (List.length_splice (by rw [h₁, length_leBytes]; omega)).trans h₁
  have h₃ : (((start.splice 8 (leBytes 16 p)).splice 0 (leBytes 4 type.value)).splice 4
      (leBytes 4 0)).length = start.length :=
    (List.length_splice (by rw [h₂, length_leBytes]; omega)).trans h₂
  have hname := List.holds_splice_self start (leBytes 16 p) (i := 8) (by omega)
  have htype := List.holds_splice_self (start.splice 8 (leBytes 16 p)) (leBytes 4 type.value)
    (Nat.zero_le _)
  refine ⟨(List.length_splice (by rw [h₃]; omega)).trans h₃, ?_, ?_,
    List.holds_splice_self _ _ (by omega)⟩
  · refine (htype.splice (by omega) (.inl ?_)).splice (by omega) (.inl ?_)
    · rw [length_leBytes]
    · rw [length_leBytes]
      omega
  · refine ((hname.splice (Nat.zero_le _) (.inr ?_)).splice (by omega) (.inr ?_)).splice (by omega)
      (.inl ?_)
    · rw [length_leBytes]
      omega
    · rw [length_leBytes]
    · rw [length_leBytes]

theorem newInternalMessage_spec (mem : ℕ → UInt8) (p : PortName) {type : EventType}
    {data : List UInt8}
    (hdata : data.length = type.sizeofData) (hsize : type.sizeofData ≤ 64) :
    ∃ m : PortsMessage H, newInternalMessage mem p type data = some m ∧
      m.Sendable (sizeofEventHeader + type.sizeofData) ∧ HasHandles m.channelMessage ∧
      m.sizes = ⟨sizeofEventHeader + type.sizeofData, 0, 0⟩ ∧
      m.data.Holds 0 (leBytes 4 type.value) ∧ m.data.Holds 8 (leBytes 16 p) ∧
      m.data.Holds sizeofEventHeader data := by
  have hroom : sizeofNodeChannelHeader + (sizeofEventHeader + type.sizeofData) +
      Channel.sizeofHeader < 2 ^ 32 := by
    simp only [sizeofNodeChannelHeader, sizeofEventHeader, Channel.sizeofHeader]
    omega
  obtain ⟨channelMessage, hcreate, hsend, hnum, hvector⟩ :=
    createPortsMessage_spec (H := H) mem ⟨sizeofEventHeader + type.sizeofData, 0, 0⟩ hroom
      (show 0 < 2 ^ 16 by decide)
  obtain ⟨hlen, htype, hname, hrest⟩ := holds_internal p type data
    ((length_data hsend).trans (by rw [hdata]))
  refine ⟨_, by rw [newInternalMessage, allocMessage, hdata, hcreate]; rfl, hsend.modify
    (hlen.trans (length_data hsend)), ?_, rfl, ?_⟩
  · rw [HasHandles]
    exact (if_pos hnum).mpr hvector
  · rw [data_modify hsend]
    exact ⟨htype, hname, hrest⟩

/-! ### User messages -/

/-- What `InitializeUserMessageHeader` stores. -/
theorem holds_initialize {start : List UInt8} {numHeaderBytes : ℕ} (n : ℕ)
    (hlen : numHeaderBytes ≤ start.length)
    (hheader : sizeofEventHeader + sizeofUserEventData ≤ numHeaderBytes) :
    let stored := ((start.splice 0 (List.replicate numHeaderBytes 0)).splice 0
      (leBytes 4 EventType.user.value)).splice (sizeofEventHeader + 8) (leBytes 4 n)
    stored.length = start.length ∧ stored.Holds 0 (leBytes 4 EventType.user.value) ∧
      stored.Holds (sizeofEventHeader + 8) (leBytes 4 n) := by
  simp only [sizeofEventHeader, sizeofUserEventData] at hheader ⊢
  have h₁ : (start.splice 0 (List.replicate numHeaderBytes 0)).length = start.length :=
    List.length_splice (by rw [List.length_replicate]; omega)
  have h₂ : ((start.splice 0 (List.replicate numHeaderBytes 0)).splice 0
      (leBytes 4 EventType.user.value)).length = start.length :=
    (List.length_splice (by rw [h₁, length_leBytes]; omega)).trans h₁
  refine ⟨(List.length_splice (by rw [h₂, length_leBytes]; omega)).trans h₂, ?_,
    List.holds_splice_self _ _ (by omega)⟩
  refine (List.holds_splice_self _ _ (Nat.zero_le _)).splice (by omega) (.inl ?_)
  rw [length_leBytes]
  omega

/-- What is stored in a user message, behind its type and the number of its ports. -/
structure HoldsMessage (l : List UInt8) (message : Message (Contents H)) : Prop where
  type : l.Holds 0 (leBytes 4 EventType.user.value)
  portName : l.Holds 8 (leBytes 16 message.portName)
  sequenceNum : l.Holds sizeofEventHeader (leBytes 8 message.sequenceNum.toNat)
  numPorts : l.Holds (sizeofEventHeader + 8) (leBytes 4 message.ports.length)
  descriptors : ∀ (i : ℕ) d, message.descriptors[i]? = some d → l.Holds
    (sizeofEventHeader + sizeofUserEventData + i * sizeofPortDescriptor) (portDescriptor d)
  ports : ∀ (i : ℕ) p, message.ports[i]? = some p → l.Holds
    (sizeofEventHeader + sizeofUserEventData + message.ports.length * sizeofPortDescriptor +
      i * sizeofPortName) (leBytes 16 p)
  payload : l.Holds (sizeofEventHeader + sizeofUserEventData +
    message.ports.length * sizeofPortDescriptor + message.ports.length * sizeofPortName)
      message.payload.1

/-- The payload and the sequence number of a user message are stored. -/
theorem holds_contents {l : List UInt8} (payload : List UInt8) (number : ℕ) {i numPorts : ℕ}
    (hi : 40 ≤ i) (hlen : i + payload.length ≤ l.length)
    (htype : l.Holds 0 (leBytes 4 EventType.user.value))
    (hnum : l.Holds 32 (leBytes 4 numPorts)) :
    let stored := (l.splice i payload).splice 24 (leBytes 8 number)
    stored.length = l.length ∧ stored.Holds 0 (leBytes 4 EventType.user.value) ∧
      stored.Holds 32 (leBytes 4 numPorts) ∧ stored.Holds 24 (leBytes 8 number) ∧
      stored.Holds i payload := by
  have h₁ := List.length_splice (l := l) (w := payload) (i := i) (by omega)
  have hpayload := List.holds_splice_self l payload (i := i) (by omega)
  replace htype := htype.splice (v := payload) (j := i) (by omega)
    (.inl (by rw [length_leBytes]; omega))
  replace hnum := hnum.splice (v := payload) (j := i) (by omega)
    (.inl (by rw [length_leBytes]; omega))
  generalize l.splice i payload = l₁ at *
  have h₂ := List.length_splice (l := l₁) (w := leBytes 8 number) (i := 24)
    (by rw [length_leBytes]; omega)
  refine ⟨h₂.trans h₁, htype.splice (by omega) (.inl (by rw [length_leBytes]; omega)),
    hnum.splice (by omega) (.inr (by rw [length_leBytes])),
    List.holds_splice_self _ _ (by omega), hpayload.splice (by omega) (.inr ?_)⟩
  rw [length_leBytes]
  omega

theorem holds_fill {l : List UInt8} (message : Message (Contents H)) {numHeaderBytes : ℕ}
    (hheader : numHeaderBytes = sizeofEventHeader + sizeofUserEventData +
      message.ports.length * sizeofPortDescriptor)
    (hlen : l.length = numHeaderBytes + message.ports.length * sizeofPortName +
      message.payload.1.length) (hdescriptors : message.descriptors.length = message.ports.length)
    (htype : l.Holds 0 (leBytes 4 EventType.user.value))
    (hnum : l.Holds (sizeofEventHeader + 8) (leBytes 4 message.ports.length)) :
    let stored := (((((l.splice (numHeaderBytes + message.ports.length * sizeofPortName)
        message.payload.1).splice sizeofEventHeader (leBytes 8 message.sequenceNum.toNat)).storeAll
      numHeaderBytes sizeofPortName (message.ports.map (leBytes 16))).storeAll
      (sizeofEventHeader + sizeofUserEventData) sizeofPortDescriptor
        (message.descriptors.map portDescriptor)).splice 8 (leBytes 16 message.portName))
    stored.length = l.length ∧ HoldsMessage stored message := by
  subst hheader
  simp only [sizeofEventHeader, sizeofUserEventData, sizeofPortName, sizeofPortDescriptor] at *
  have hnames : ∀ w ∈ message.ports.map (leBytes 16), w.length ≤ 16 := by
    simp only [List.mem_map]
    rintro _ ⟨p, -, rfl⟩
    exact (length_leBytes 16 p).le
  have hfields : ∀ w ∈ message.descriptors.map portDescriptor, w.length ≤ 96 := by
    simp only [List.mem_map]
    rintro _ ⟨d, -, rfl⟩
    exact (length_portDescriptor d).le.trans (by decide)
  have hnames' : (message.ports.map (leBytes 16)).length = message.ports.length := List.length_map _
  have hfields' : (message.descriptors.map portDescriptor).length = message.ports.length :=
    (List.length_map _).trans hdescriptors
  -- The payload and the sequence number.
  obtain ⟨h₂, htype, hnum, hsequence, hpayload⟩ := holds_contents
    message.payload.1 message.sequenceNum.toNat
    (i := 24 + 16 + message.ports.length * 96 + message.ports.length * 16) (by omega) (by omega)
    htype hnum
  generalize (l.splice (24 + 16 + message.ports.length * 96 + message.ports.length * 16)
    message.payload.1).splice 24 (leBytes 8 message.sequenceNum.toNat) = l₂ at *
  -- The names of the ports.
  have hroom : 24 + 16 + message.ports.length * 96 + (message.ports.map (leBytes 16)).length * 16 ≤
      l₂.length := by rw [hnames']; omega
  have h₃ := List.length_storeAll hnames hroom
  have hports : ∀ (i : ℕ) w, (message.ports.map (leBytes 16))[i]? = some w →
      (l₂.storeAll _ 16 _).Holds (24 + 16 + message.ports.length * 96 + i * 16) w :=
    fun i w hw => List.holds_storeAll hnames hroom hw
  replace htype := htype.storeAll hnames hroom (.inl (by rw [length_leBytes]; omega))
  replace hnum := hnum.storeAll hnames hroom (.inl (by rw [length_leBytes]; omega))
  replace hsequence := hsequence.storeAll hnames hroom (.inl (by rw [length_leBytes]; omega))
  replace hpayload := hpayload.storeAll hnames hroom (.inr (by rw [hnames']))
  generalize l₂.storeAll (24 + 16 + message.ports.length * 96) 16 (message.ports.map (leBytes 16)) =
    l₃ at *
  -- The descriptors.
  have hroom' : 24 + 16 + (message.descriptors.map portDescriptor).length * 96 ≤ l₃.length := by
    rw [hfields']
    omega
  have h₄ := List.length_storeAll hfields hroom'
  have hdescriptor : ∀ (i : ℕ) w, (message.descriptors.map portDescriptor)[i]? = some w →
      (l₃.storeAll _ 96 _).Holds (24 + 16 + i * 96) w :=
    fun i w hw => List.holds_storeAll hfields hroom' hw
  replace htype := htype.storeAll hfields hroom' (.inl (by rw [length_leBytes]; omega))
  replace hnum := hnum.storeAll hfields hroom' (.inl (by rw [length_leBytes]; omega))
  replace hsequence := hsequence.storeAll hfields hroom' (.inl (by rw [length_leBytes]; omega))
  replace hpayload := hpayload.storeAll hfields hroom' (.inr (by rw [hfields']; omega))
  replace hports : ∀ (i : ℕ) w, (message.ports.map (leBytes 16))[i]? = some w →
      (l₃.storeAll _ 96 _).Holds (24 + 16 + message.ports.length * 96 + i * 16) w :=
    fun i w hw => (hports i w hw).storeAll hfields hroom' (.inr (by rw [hfields']; omega))
  generalize l₃.storeAll (24 + 16) 96 (message.descriptors.map portDescriptor) = l₄ at *
  -- The name of the port that it is for.
  have h₅ := List.length_splice (l := l₄) (w := leBytes 16 message.portName) (i := 8)
    (by rw [length_leBytes]; omega)
  refine ⟨by omega, ?_⟩
  exact {
    type := htype.splice (by omega) (.inl (by rw [length_leBytes]; omega))
    portName := List.holds_splice_self _ _ (by omega)
    sequenceNum := hsequence.splice (by omega) (.inr (by rw [length_leBytes]))
    numPorts := hnum.splice (by omega) (.inr (by rw [length_leBytes]; omega))
    descriptors := fun i d hd => (hdescriptor i _ (by rw [List.getElem?_map, hd]; rfl)).splice
      (by omega) (.inr (by rw [length_leBytes]; omega))
    ports := fun i p hp => (hports i _ (by rw [List.getElem?_map, hp]; rfl)).splice (by omega)
      (.inr (by rw [length_leBytes]; omega))
    payload := hpayload.splice (by omega) (.inr (by rw [length_leBytes]; omega)) }

/-- The handles of a new message are set. -/
theorem setHandles_spec (channelMessage : ChannelMessage H) {handles : List H}
    (hnum : channelMessage.numHandles = handles.length) (hvector : channelMessage.handleVector = none) :
    ∃ vector, channelMessage.setHandles (some handles) =
        some { channelMessage with handleVector := vector } ∧
      ∀ payload, HasHandles (H := H) ⟨payload, channelMessage.numHandles, vector⟩ ∧
        ChannelMessage.handles ⟨payload, channelMessage.numHandles, vector⟩ = handles := by
  by_cases hzero : channelMessage.numHandles = 0
  · obtain rfl : handles = [] := List.eq_nil_of_length_eq_zero (hnum.symm.trans hzero)
    refine ⟨none, ?_, fun payload => ⟨?_, if_pos hzero⟩⟩
    · rw [ChannelMessage.setHandles, if_pos hzero, ← hvector]
      rfl
    · rw [HasHandles]
      exact (if_pos hzero).mpr rfl
  · refine ⟨some handles, ?_, fun payload => ⟨?_, if_neg hzero⟩⟩
    · rw [ChannelMessage.setHandles, if_neg hzero, hnum]
      exact if_pos rfl
    · rw [HasHandles]
      exact (if_neg hzero).mpr (congrArg some hnum.symm)

/-- The sizes of a user message. -/
def userSizes (numPayloadBytes n : ℕ) : Sizes where
  numHeaderBytes := sizeofEventHeader + sizeofUserEventData + n * sizeofPortDescriptor
  numPayloadBytes := numPayloadBytes
  numPortsBytes := n * sizeofPortName

theorem newUserMessage_spec (mem : ℕ → UInt8) {numPayloadBytes n numHandles : ℕ}
    (hsize : channelMessageSize numPayloadBytes n < 2 ^ 32) (hhandles : numHandles < 2 ^ 16) :
    ∃ m : PortsMessage H, newUserMessage mem numPayloadBytes n numHandles = some m ∧
      m.Sendable (sizeofEventHeader + sizeofUserEventData + n * sizeofPortDescriptor +
        n * sizeofPortName + numPayloadBytes) ∧ m.sizes = userSizes numPayloadBytes n ∧
      m.channelMessage.numHandles = numHandles ∧ m.channelMessage.handleVector = none ∧
      m.data.Holds 0 (leBytes 4 EventType.user.value) ∧
      m.data.Holds (sizeofEventHeader + 8) (leBytes 4 n) := by
  rw [channelMessageSize] at hsize
  have hroom : sizeofNodeChannelHeader + (sizeofEventHeader + sizeofUserEventData +
      n * sizeofPortDescriptor + n * sizeofPortName + numPayloadBytes) + Channel.sizeofHeader <
        2 ^ 32 := by omega
  obtain ⟨channelMessage, hcreate, hsend, hnum, hvector⟩ := createPortsMessage_spec (H := H)
    mem (userSizes numPayloadBytes n) hroom hhandles
  have hlen := length_data hsend
  have hheader : sizeofEventHeader + sizeofUserEventData + n * sizeofPortDescriptor ≤
      (data ⟨userSizes numPayloadBytes n, channelMessage⟩).length := by
    rw [hlen]
    omega
  obtain ⟨hlen₀, htype, hports⟩ := holds_initialize n hheader (Nat.le_add_right _ _)
  refine ⟨initializeUserMessageHeader ⟨userSizes numPayloadBytes n, channelMessage⟩ n, ?_,
    hsend.modify (hlen₀.trans hlen), rfl, hnum, hvector, ?_⟩
  · rw [newUserMessage, hcreate]
    rfl
  · rw [initializeUserMessageHeader, data_modify hsend]
    exact ⟨htype, hports⟩

theorem build_user (mem : ℕ → UInt8) {message : Message (Contents H)} (h : FitsMessage message) :
    ∃ m : PortsMessage H, build mem (.user message) = some m ∧
      m.Sendable (sizeofEventHeader + sizeofUserEventData +
        message.ports.length * sizeofPortDescriptor + message.ports.length * sizeofPortName +
        message.payload.1.length) ∧ HasHandles m.channelMessage ∧
      m.sizes = userSizes message.payload.1.length message.ports.length ∧
      HoldsMessage m.data message ∧ m.channelMessage.handles = message.payload.2 := by
  obtain ⟨m, hnew, hsend, hsizes, hnum, hvector, htype, hports⟩ :=
    newUserMessage_spec (H := H) mem h.size h.handles
  have hlen := length_data hsend
  obtain ⟨hlen', hholds⟩ := holds_fill message rfl
    (hlen.trans (by rw [Nat.add_assoc])) h.length htype hports
  have hoffset : sizeofEventHeader + sizeofUserEventData +
      message.ports.length * sizeofPortDescriptor + message.ports.length * sizeofPortName =
        m.sizes.numHeaderBytes + m.sizes.numPortsBytes := by
    rw [hsizes]
    rfl
  have hpayload : (m.data.splice (m.sizes.numHeaderBytes + m.sizes.numPortsBytes)
      message.payload.1).length = m.data.length := List.length_splice (by rw [← hoffset, hlen])
  -- The message with its payload, then with its handles.
  have hsend₁ := hsend.modify (f := (·.splice (m.sizes.numHeaderBytes + m.sizes.numPortsBytes)
    message.payload.1)) (hpayload.trans hlen)
  obtain ⟨vector, hset, hvector'⟩ := setHandles_spec (m.modify
    (·.splice (m.sizes.numHeaderBytes + m.sizes.numPortsBytes) message.payload.1)).channelMessage
      hnum hvector
  have hsend₂ : Sendable { m.modify (·.splice (m.sizes.numHeaderBytes + m.sizes.numPortsBytes)
      message.payload.1) with channelMessage := { (m.modify (·.splice
        (m.sizes.numHeaderBytes + m.sizes.numPortsBytes) message.payload.1)).channelMessage with
          handleVector := vector } } _ := ⟨hsend₁.length, hsend₁.type, hsend₁.size, hsend₁.numHandles⟩
  have hdata := data_modify hsend (·.splice (m.sizes.numHeaderBytes + m.sizes.numPortsBytes)
    message.payload.1)
  have hheader : m.sizes.numHeaderBytes = sizeofEventHeader + sizeofUserEventData +
      message.ports.length * sizeofPortDescriptor := by
    rw [hsizes]
    rfl
  rw [hoffset, ← hdata, ← hheader] at hlen' hholds
  refine ⟨_, ?_, hsend₂.modify (f := fun start =>
    (((start.splice sizeofEventHeader (leBytes 8 message.sequenceNum.toNat)).storeAll
      m.sizes.numHeaderBytes sizeofPortName (message.ports.map (leBytes 16))).storeAll
      (sizeofEventHeader + sizeofUserEventData) sizeofPortDescriptor
        (message.descriptors.map portDescriptor)).splice 8 (leBytes 16 message.portName))
      (hlen'.trans hlen), (hvector' _).1, hsizes, ?_, (hvector' _).2⟩
  · rw [build, hnew, Option.bind_some, fill, hset]
    rfl
  · rw [data_modify hsend₂]
    exact hholds

/-- What is stored in a user message is read. -/
theorem event_user {message : Message (Contents H)} {m : PortsMessage H} (h : FitsMessage message)
    (hsizes : m.sizes = userSizes message.payload.1.length message.ports.length)
    (hdata : HoldsMessage m.data message) (hhandles : m.channelMessage.handles = message.payload.2) :
    m.event = some (.user message) := by
  have hnum : m.numPorts = message.ports.length := by
    rw [numPorts, hsizes]
    exact Nat.mul_div_cancel _ (by decide)
  have hdescriptors : (List.range m.numPorts).map (fun i => readPortDescriptor m.data
      (sizeofEventHeader + sizeofUserEventData + i * sizeofPortDescriptor)) = message.descriptors :=
    List.map_range_eq (h.length.trans hnum.symm) fun i d hd =>
      readPortDescriptor_eq (hdata.descriptors i d hd) (h.descriptors d (List.mem_of_getElem? hd))
  have hports : (List.range m.numPorts).map (fun i => readName m.data
      (m.sizes.numHeaderBytes + i * sizeofPortName)) = message.ports := by
    rw [hsizes]
    exact List.map_range_eq hnum.symm fun i p hp =>
      readName_eq (hdata.ports i p hp) (h.ports p (List.mem_of_getElem? hp))
  have hpayload : m.data.slice (m.sizes.numHeaderBytes + m.sizes.numPortsBytes)
      m.sizes.numPayloadBytes = message.payload.1 := by
    rw [hsizes]
    exact hdata.payload
  rw [event, eventType_eq hdata.type, Option.map_some]
  simp only [hdescriptors, hports, hpayload, hhandles, readName_eq hdata.portName h.portName,
    readUInt64_eq hdata.sequenceNum]

/-- Every event that fits is built, and received as it was sent: what is received is the same
    event, with sections of the same sizes, whatever memory holds on either side. -/
theorem receive_build (mem mem' : ℕ → UInt8) (e : Event (Contents H)) (h : Fits e) :
    ∃ m, build mem e = some m ∧ m.event = some e ∧
      ∃ m', m.receive mem' = some m' ∧ m'.event = some e ∧ m'.sizes = m.sizes := by
  have hinternal : ∀ (p : PortName) (type : EventType) (data : List UInt8),
      data.length = type.sizeofData → type.sizeofData ≤ 64 → type ≠ .user →
      ∃ m : PortsMessage H, newInternalMessage mem p type data = some m ∧
        m.receive mem' = some m ∧ eventType m.data = some type ∧
        m.data.Holds 8 (leBytes 16 p) ∧ m.data.Holds sizeofEventHeader data := by
    intro p type data hdata hsize hne
    obtain ⟨m, hnew, hsend, hhandles, hsizes, htype, hname, hrest⟩ :=
      newInternalMessage_spec mem p hdata hsize
    refine ⟨m, hnew, receive_eq mem' hsend hhandles (onPortsMessage_eq type ?_ (.inr ?_)),
      eventType_eq htype, hname, hrest⟩
    · rw [value_checkedParse_internal htype hne, hsizes]
    · rw [length_data hsend, hsizes]
  cases e with
  | user message =>
    obtain ⟨m, hbuild, hsend, hhandles, hsizes, hdata, hall⟩ := build_user mem h
    have hevent := event_user h hsizes hdata hall
    have hlt : message.ports.length < 2 ^ 32 := by
      have hsize := FitsMessage.size h
      simp only [channelMessageSize, sizeofPortDescriptor] at hsize
      omega
    have hparse : (checkedParse m.data).value = some (.user, m.sizes) := by
      rw [hsizes]
      exact value_checkedParse_user hdata.type hdata.numPorts hlt (length_data hsend)
    have hreceive := receive_eq mem' hsend hhandles (onPortsMessage_eq .user hparse (.inl rfl))
    exact ⟨m, hbuild, hevent, m, hreceive, hevent, rfl⟩
  | portAccepted p =>
    obtain ⟨m, hnew, hreceive, htype, hname, -⟩ := hinternal p .portAccepted
      [] rfl (by decide) (by decide)
    have hevent : m.event = some (.portAccepted p) := by
      rw [event, htype, readName_eq hname h]
      rfl
    exact ⟨m, hnew, hevent, m, hreceive, hevent, rfl⟩
  | observeProxy p d =>
    obtain ⟨hp, h₁, h₂, h₃, h₄⟩ := h
    obtain ⟨m, hnew, hreceive, htype, hname, hdata⟩ := hinternal p .observeProxy
      (observeProxyEventData d) rfl (by decide) (by decide)
    have hevent : m.event = some (.observeProxy p d) := by
      rw [event, htype, readName_eq hname hp]
      exact congrArg (fun x => some (Event.observeProxy p x))
        (readObserveProxyEventData_eq hdata h₁ h₂ h₃ h₄)
    exact ⟨m, hnew, hevent, m, hreceive, hevent, rfl⟩
  | observeProxyAck p n =>
    obtain ⟨m, hnew, hreceive, htype, hname, hdata⟩ := hinternal p .observeProxyAck
      (leBytes 8 n.toNat) rfl (by decide) (by decide)
    have hevent : m.event = some (.observeProxyAck p n) := by
      rw [event, htype, readName_eq hname h]
      exact congrArg (fun x => some (Event.observeProxyAck p x)) (readUInt64_eq hdata)
    exact ⟨m, hnew, hevent, m, hreceive, hevent, rfl⟩
  | observeClosure p n =>
    obtain ⟨m, hnew, hreceive, htype, hname, hdata⟩ := hinternal p .observeClosure
      (leBytes 8 n.toNat) rfl (by decide) (by decide)
    have hevent : m.event = some (.observeClosure p n) := by
      rw [event, htype, readName_eq hname h]
      exact congrArg (fun x => some (Event.observeClosure p x)) (readUInt64_eq hdata)
    exact ⟨m, hnew, hevent, m, hreceive, hevent, rfl⟩

/-- A user message with two ports, three bytes and a handle. -/
def twoPorts : Event (Contents ℕ) :=
  .user ⟨3, 5, [{}, { peerNodeName := 9, peerClosed := true }], [7, 8], ([1, 2, 3], [10])⟩

theorem receive_build_two : ∃ m, build (fun _ => 0) twoPorts = some m ∧ m.event = some twoPorts ∧
    ∃ m', m.receive (fun _ => 255) = some m' ∧ m'.event = some twoPorts ∧ m'.sizes = m.sizes :=
  receive_build _ _ _ (show FitsMessage _ from {
    portName := by decide
    ports := by decide
    descriptors := by
      intro d hd
      rw [List.mem_cons, List.mem_singleton] at hd
      rcases hd with rfl | rfl <;> exact ⟨by decide, by decide, by decide, by decide⟩
    length := rfl
    size := by decide
    handles := by decide })

end PortsMessage

end MojoEdk.NodeChannel
