import MojoEdk.Channel.Connection
import MojoEdk.Channel.PortsMessage

/-!
# Messages of node channels

The messages that nodes send each other (`node_channel.cc`): those that make up a family
of nodes and connect their ports, and those of ports, which are built elsewhere
(`PortsMessage`). A message is a header, which has the type, and data that depends on it.

Each of them is built by a method of the sender (`build`), and leads to a call of the
delegate of the receiver (`dispatch`). The call is the one that was meant
(`dispatch_build`). With the events that are in the messages of ports (`send`, `receive`),
and since a connection is a queue, a node receives what the other one sends, in order
(`conversation`).

Relayed messages, which are particular to Windows, are not modelled.
-/

namespace MojoEdk.NodeChannel

open MojoEdk.Core Ports

/-- What a node tells another one. `H` are the handles and `M` the messages of ports. -/
inductive NodeMessage (H M : Type*)
  | acceptChild (parentName token : NodeName)
  | acceptParent (token childName : NodeName)
  | portsMessage (m : M)
  | requestPortConnection (connectorPortName : PortName) (token : List UInt8)
  | connectToPort (connectorPortName connecteePortName : PortName)
  | requestIntroduction (name : NodeName)
  | introduce (name : NodeName) (handle : Option H)
  deriving DecidableEq

/-- What `OnChannelMessage` does: a call of the delegate, or `OnChannelError`. -/
inductive Dispatch (H : Type*)
  | call (m : NodeMessage H (ChannelMessage H))
  | channelError

variable {H : Type*}

/-! ## Building messages -/

/-- The value of a type. -/
def MessageType.value : MessageType → ℕ
  | .acceptChild => 0
  | .acceptParent => 1
  | .portsMessage => 2
  | .requestPortConnection => 3
  | .connectToPort => 4
  | .requestIntroduction => 5
  | .introduce => 6

/-- `CreateMessage`: the header, and its padding. -/
def createMessage (mem : ℕ → UInt8) (type : MessageType) (payloadSize numHandles : ℕ) :
    Option (ChannelMessage H) :=
  (ChannelMessage.new mem (sizeofNodeChannelHeader + payloadSize) numHandles).map fun m =>
    { m with payload := (m.payload.splice 0 (leBytes 4 type.value)).splice 4 (leBytes 4 0) }

/-- A message with data. -/
def controlMessage (mem : ℕ → UInt8) (type : MessageType) (data : List UInt8) (numHandles : ℕ) :
    Option (ChannelMessage H) :=
  (createMessage mem type data.length numHandles).map fun m =>
    { m with payload := m.payload.splice sizeofNodeChannelHeader data }

/-- `AcceptChild`. -/
def acceptChild (mem : ℕ → UInt8) (parentName token : NodeName) : Option (ChannelMessage H) :=
  controlMessage mem .acceptChild (leBytes 16 parentName ++ leBytes 16 token) 0

/-- `AcceptParent`. -/
def acceptParent (mem : ℕ → UInt8) (token childName : NodeName) : Option (ChannelMessage H) :=
  controlMessage mem .acceptParent (leBytes 16 token ++ leBytes 16 childName) 0

/-- `RequestPortConnection`. The token follows the data. -/
def requestPortConnection (mem : ℕ → UInt8) (connectorPortName : PortName)
    (token : List UInt8) : Option (ChannelMessage H) :=
  controlMessage mem .requestPortConnection (leBytes 16 connectorPortName ++ token) 0

/-- `ConnectToPort`. -/
def connectToPort (mem : ℕ → UInt8) (connectorPortName connecteePortName : PortName) :
    Option (ChannelMessage H) :=
  controlMessage mem .connectToPort
    (leBytes 16 connectorPortName ++ leBytes 16 connecteePortName) 0

/-- `RequestIntroduction`. -/
def requestIntroduction (mem : ℕ → UInt8) (name : NodeName) : Option (ChannelMessage H) :=
  controlMessage mem .requestIntroduction (leBytes 16 name) 0

/-- `Introduce`. Without a handle, the peer cannot be introduced. -/
def introduce (mem : ℕ → UInt8) (name : NodeName) (handle : Option H) :
    Option (ChannelMessage H) :=
  (controlMessage mem .introduce (leBytes 16 name) (if handle.isSome then 1 else 0)).bind
    (·.setHandles (handle.map ([·])))

/-- How a message is built. One of ports is passed on as it is. -/
def build (mem : ℕ → UInt8) : NodeMessage H (ChannelMessage H) → Option (ChannelMessage H)
  | .acceptChild parentName token => acceptChild mem parentName token
  | .acceptParent token childName => acceptParent mem token childName
  | .portsMessage m => some m
  | .requestPortConnection connectorPortName token =>
    requestPortConnection mem connectorPortName token
  | .connectToPort connectorPortName connecteePortName =>
    connectToPort mem connectorPortName connecteePortName
  | .requestIntroduction name => requestIntroduction mem name
  | .introduce name handle => introduce mem name handle

/-! ## Receiving messages -/

/-- `OnChannelMessage`. The size of a token is what is left of the payload. -/
def dispatch (mem : ℕ → UInt8) (payload : List UInt8) (handles : Option (List H)) :
    Option (Dispatch H) :=
  let name (i : ℕ) := PortsMessage.readName payload (sizeofNodeChannelHeader + i)
  match messageType payload with
  -- A type that is unknown is an error of the channel.
  | none => some .channelError
  | some .acceptChild => some (.call (.acceptChild (name 0) (name 16)))
  | some .acceptParent => some (.call (.acceptParent (name 0) (name 16)))
  | some .portsMessage =>
    (onChannelMessage mem payload handles).map fun m => .call (.portsMessage m)
  | some .requestPortConnection =>
    let sizeofData := MessageType.requestPortConnection.sizeofData
    let tokenSize := payload.length - sizeofData - sizeofNodeChannelHeader
    some (.call (.requestPortConnection (name 0)
      (payload.slice (sizeofNodeChannelHeader + sizeofData) tokenSize)))
  | some .connectToPort => some (.call (.connectToPort (name 0) (name 16)))
  | some .requestIntroduction => some (.call (.requestIntroduction (name 0)))
  | some .introduce => some (.call (.introduce (name 0) (handles.getD []).head?))

/-- The handles that a channel gives along with a message: none, if the header says so. -/
def ChannelMessage.received (m : ChannelMessage H) : Option (List H) :=
  if m.numHandles = 0 then none else m.handleVector

/-! ## Messages that fit -/

/-- A channel message of ports, with as many handles as its header says. -/
structure FitsPorts (m : ChannelMessage H) : Prop where
  type : messageType m.payload = some .portsMessage
  size : m.payload.length + Channel.sizeofHeader < 2 ^ 32
  numHandles : m.numHandles < 2 ^ 16
  handles : PortsMessage.HasHandles m

/-- Names have 128 bits, and the size of a message fits into its header. -/
def NodeMessage.Fits : NodeMessage H (ChannelMessage H) → Prop
  | .acceptChild name name' | .acceptParent name name' | .connectToPort name name' =>
    name < 2 ^ 128 ∧ name' < 2 ^ 128
  | .portsMessage m => FitsPorts m
  | .requestPortConnection name token => name < 2 ^ 128 ∧ token.length < 2 ^ 32 - 32
  | .requestIntroduction name | .introduce name _ => name < 2 ^ 128

/-! ## What is built -/

/-- The type of a message. -/
def NodeMessage.type {M : Type*} : NodeMessage H M → MessageType
  | .acceptChild _ _ => .acceptChild
  | .acceptParent _ _ => .acceptParent
  | .portsMessage _ => .portsMessage
  | .requestPortConnection _ _ => .requestPortConnection
  | .connectToPort _ _ => .connectToPort
  | .requestIntroduction _ => .requestIntroduction
  | .introduce _ _ => .introduce

/-- What follows the header, but for a message of ports. -/
def NodeMessage.data {M : Type*} : NodeMessage H M → List UInt8
  | .acceptChild name name' | .acceptParent name name' | .connectToPort name name' =>
    leBytes 16 name ++ leBytes 16 name'
  | .portsMessage _ => []
  | .requestPortConnection name token => leBytes 16 name ++ token
  | .requestIntroduction name | .introduce name _ => leBytes 16 name

/-- The handles that come along, but for a message of ports. -/
def NodeMessage.handleVector {M : Type*} : NodeMessage H M → Option (List H)
  | .introduce _ handle => handle.map ([·])
  | _ => none

section Build

variable {type : MessageType} {data : List UInt8} {numHandles : ℕ}

/-- A header and data that are stored one after the other make up a memory of their size. -/
theorem splice_header {l header padding : List UInt8} (hlen : l.length = 8 + data.length)
    (hheader : header.length = 4) (hpadding : padding.length = 4) :
    ((l.splice 0 header).splice 4 padding).splice 8 data = header ++ (padding ++ data) := by
  obtain ⟨a, l', rfl, ha, hl'⟩ := List.exists_append_of_length
    (show l.length = 4 + (4 + data.length) by omega)
  obtain ⟨b, c, rfl, hb, hc⟩ := List.exists_append_of_length hl'
  have h₁ : (a ++ (b ++ c)).splice 0 header = header ++ (b ++ c) :=
    List.splice_append (a := []) rfl (ha.trans hheader.symm)
  have h₂ : (header ++ (b ++ c)).splice 4 padding = header ++ (padding ++ c) :=
    List.splice_append hheader.symm (hb.trans hpadding.symm)
  have h₃ := List.splice_append (a := header ++ padding) (b := []) (i := 8)
    (by rw [List.length_append, hheader, hpadding]) hc
  rw [h₁, h₂]
  simpa only [List.append_nil, List.append_assoc] using h₃

/-- A message is its header and its data. -/
theorem controlMessage_eq (mem : ℕ → UInt8) (type : MessageType)
    (hsize : data.length < 2 ^ 32 - 16) (hhandles : numHandles < 2 ^ 16) :
    controlMessage (H := H) mem type data numHandles =
      some ⟨leBytes 4 type.value ++ (leBytes 4 0 ++ data), numHandles, none⟩ := by
  have hroom : sizeofNodeChannelHeader + data.length + Channel.sizeofHeader < 2 ^ 32 := by
    simp only [sizeofNodeChannelHeader, Channel.sizeofHeader]
    omega
  rw [controlMessage, createMessage, ChannelMessage.new, if_pos ⟨hroom, hhandles⟩]
  simp only [Option.map_some, sizeofNodeChannelHeader]
  rw [splice_header (by rw [List.length_map, List.length_range]) (length_leBytes _ _)
    (length_leBytes _ _)]

theorem messageType_append (type : MessageType) (data : List UInt8) :
    messageType (leBytes 4 type.value ++ data) = some type := by
  have hslice : (leBytes 4 type.value ++ data).slice 0 4 = leBytes 4 type.value := by
    rw [List.slice_append_of_le (by rw [length_leBytes])]
    exact List.take_of_length_le (length_leBytes _ _).le
  rw [messageType, hslice, ofLeBytes_leBytes (by cases type <;> decide)]
  cases type with
  | _ => rfl

/-- A name is read where it is. -/
theorem readName_append {before after : List UInt8} {i name : ℕ} (hi : i = before.length)
    (hname : name < 2 ^ 128) :
    PortsMessage.readName (before ++ (leBytes 16 name ++ after)) i = name := by
  rw [PortsMessage.readName, List.slice_append_middle hi (length_leBytes 16 name).symm]
  exact ofLeBytes_leBytes (hname.trans_eq (by norm_num))

/-- The first name of a message. -/
theorem readName_first (type : MessageType) {name : ℕ} (hname : name < 2 ^ 128)
    (after : List UInt8) : PortsMessage.readName
      (leBytes 4 type.value ++ (leBytes 4 0 ++ (leBytes 16 name ++ after)))
      (sizeofNodeChannelHeader + 0) = name := by
  rw [← List.append_assoc]
  exact readName_append (by simp [sizeofNodeChannelHeader]) hname

/-- The name that follows the first one. -/
theorem readName_second (type : MessageType) (name : ℕ) {name' : ℕ} (hname : name' < 2 ^ 128) :
    PortsMessage.readName
      (leBytes 4 type.value ++ (leBytes 4 0 ++ (leBytes 16 name ++ leBytes 16 name')))
      (sizeofNodeChannelHeader + 16) = name' := by
  have hread : PortsMessage.readName
      ((leBytes 4 type.value ++ (leBytes 4 0 ++ leBytes 16 name)) ++ (leBytes 16 name' ++ []))
      (sizeofNodeChannelHeader + 16) = name' :=
    readName_append (by simp [sizeofNodeChannelHeader]) hname
  simpa only [List.append_assoc, List.append_nil] using hread

/-- A message is as long as its data and its header. -/
theorem wellSized_append (type : MessageType) (htype : type ≠ .portsMessage)
    (hdata : type.sizeofData ≤ data.length) :
    WellSized (leBytes 4 type.value ++ (leBytes 4 0 ++ data)) := by
  rw [WellSized, messageType_append, List.length_append, List.length_append, length_leBytes,
    length_leBytes]
  refine ⟨by omega, ?_⟩
  cases type with
  | portsMessage => exact absurd rfl htype
  | _ =>
    simp only [sizeofNodeChannelHeader]
    omega

end Build

/-! ## Results -/

/-- A message is built of a header and its data, unless it is one of ports. -/
theorem build_eq (mem : ℕ → UInt8) {m : NodeMessage H (ChannelMessage H)} (h : m.Fits)
    (hm : m.type ≠ .portsMessage) : ∃ c, build mem m = some c ∧
      c.payload = leBytes 4 m.type.value ++ (leBytes 4 0 ++ m.data) ∧
      c.received = m.handleVector ∧ PortsMessage.HasHandles c := by
  have hsize : m.data.length < 2 ^ 32 - 16 := by
    cases m with
    | requestPortConnection name token =>
      have := h.2
      rw [NodeMessage.data, List.length_append, length_leBytes]
      omega
    | _ => simp [NodeMessage.data]
  have hcontrol (n : ℕ) (hn : n < 2 ^ 16) : controlMessage (H := H) mem m.type m.data n =
      some ⟨leBytes 4 m.type.value ++ (leBytes 4 0 ++ m.data), n, none⟩ :=
    controlMessage_eq mem m.type hsize hn
  cases m with
  | portsMessage m => exact absurd rfl hm
  | introduce name handle =>
    cases handle with
    | none =>
      refine ⟨⟨_, 0, none⟩, ?_, rfl, rfl, rfl⟩
      exact congrArg (Option.bind · (·.setHandles none)) (hcontrol 0 (by decide))
    | some handle =>
      refine ⟨⟨_, 1, some [handle]⟩, ?_, rfl, rfl, rfl⟩
      exact congrArg (Option.bind · (·.setHandles (some [handle]))) (hcontrol 1 (by decide))
  | acceptChild | acceptParent | requestPortConnection | connectToPort | requestIntroduction =>
    exact ⟨_, hcontrol 0 (by decide), rfl, rfl, rfl⟩

/-- A message of the receiver is the one that was meant. -/
theorem dispatch_eq (mem : ℕ → UInt8) {m : NodeMessage H (ChannelMessage H)} (h : m.Fits)
    (hm : m.type ≠ .portsMessage) :
    dispatch mem (leBytes 4 m.type.value ++ (leBytes 4 0 ++ m.data)) m.handleVector =
      some (.call m) := by
  rw [dispatch, messageType_append]
  cases m with
  | acceptChild name name' | acceptParent name name' | connectToPort name name' =>
    simp only [NodeMessage.type, NodeMessage.data, readName_first _ h.1, readName_second _ _ h.2]
  | portsMessage m => exact absurd rfl hm
  | requestPortConnection name token =>
    have hlen : (leBytes 4 MessageType.requestPortConnection.value ++ (leBytes 4 0 ++
        (leBytes 16 name ++ token))).length - 16 - 8 = token.length := by
      simp only [List.length_append, length_leBytes]
      omega
    have htoken : (leBytes 4 MessageType.requestPortConnection.value ++ (leBytes 4 0 ++
        (leBytes 16 name ++ token))).slice (8 + 16) token.length = token := by
      have hslice := List.slice_append_middle (A := UInt8) (b := [])
        (a := leBytes 4 MessageType.requestPortConnection.value ++ (leBytes 4 0 ++ leBytes 16 name))
        (g := token) (i := 8 + 16) (by simp) rfl
      simpa only [List.append_assoc, List.append_nil] using hslice
    simp only [NodeMessage.type, NodeMessage.data, readName_first _ h.1]
    simp only [MessageType.sizeofData, sizeofNodeChannelHeader, hlen, htoken]
  | requestIntroduction name =>
    have hread := readName_first .requestIntroduction h []
    rw [List.append_nil] at hread
    simp only [NodeMessage.type, NodeMessage.data, hread]
  | introduce name handle =>
    have hread := readName_first .introduce h []
    rw [List.append_nil] at hread
    cases handle with
    | _ =>
      simp only [NodeMessage.type, NodeMessage.data, hread]
      rfl

/-- What is built has handles if its header says so, and it leads to the call that was meant. -/
theorem dispatch_of_build {mem : ℕ → UInt8} {m : NodeMessage H (ChannelMessage H)} (h : m.Fits)
    (hc : build mem m = some c) (mem' : ℕ → UInt8) :
    PortsMessage.HasHandles c ∧ dispatch mem' c.payload c.received = some (.call m) := by
  by_cases hm : m.type = .portsMessage
  · cases m with
    | portsMessage m =>
      obtain rfl := Option.some.inj hc
      refine ⟨h.handles, ?_⟩
      rw [dispatch, h.type]
      simp only [ChannelMessage.received,
        PortsMessage.onChannelMessage_eq mem' h.type h.size h.numHandles h.handles, Option.map_some]
    | _ => cases hm
  · obtain ⟨c', hc', hpayload, hreceived, hhandles⟩ := build_eq mem h hm
    obtain rfl := Option.some.inj (hc.symm.trans hc')
    exact ⟨hhandles, by rw [hpayload, hreceived, dispatch_eq mem' h hm]⟩

/-- A message that fits is built, and the delegate of the receiver is called with it. What is
    read of it is in its payload. -/
theorem dispatch_build (mem mem' : ℕ → UInt8) (m : NodeMessage H (ChannelMessage H))
    (h : m.Fits) : ∃ c, build mem m = some c ∧ dispatch mem' c.payload c.received = some (.call m) ∧
      (m.type ≠ .portsMessage → WellSized c.payload) := by
  by_cases hm : m.type = .portsMessage
  · cases m with
    | portsMessage m =>
      have hc : build mem (.portsMessage m) = some m := rfl
      exact ⟨m, hc, (dispatch_of_build h hc mem').2, fun hne => absurd hm hne⟩
    | _ => cases hm
  · obtain ⟨c, hc, hpayload, -⟩ := build_eq mem h hm
    refine ⟨c, hc, (dispatch_of_build h hc mem').2, fun _ => ?_⟩
    rw [hpayload]
    refine wellSized_append _ hm ?_
    cases m with
    | _ => simp [NodeMessage.type, NodeMessage.data, MessageType.sizeofData]

/-- A request with a token of three bytes. -/
theorem dispatch_build_token : ∃ c : ChannelMessage ℕ,
    build (fun _ => 255) (.requestPortConnection 5 [7, 8, 9]) = some c ∧
      dispatch (fun _ => 0) c.payload c.received =
        some (.call (.requestPortConnection 5 [7, 8, 9])) ∧ WellSized c.payload := by
  obtain ⟨c, hc, hdispatch, hsized⟩ := dispatch_build (H := ℕ) (fun _ => 255) (fun _ => 0)
    (.requestPortConnection 5 [7, 8, 9]) ⟨by decide, by decide⟩
  exact ⟨c, hc, hdispatch, hsized (by decide)⟩

/-! ## Events -/

/-- A message with the messages of ports replaced. -/
def NodeMessage.mapPorts {M N : Type*} (f : M → Option N) :
    NodeMessage H M → Option (NodeMessage H N)
  | .acceptChild parentName token => some (.acceptChild parentName token)
  | .acceptParent token childName => some (.acceptParent token childName)
  | .portsMessage m => (f m).map .portsMessage
  | .requestPortConnection connectorPortName token =>
    some (.requestPortConnection connectorPortName token)
  | .connectToPort connectorPortName connecteePortName =>
    some (.connectToPort connectorPortName connecteePortName)
  | .requestIntroduction name => some (.requestIntroduction name)
  | .introduce name handle => some (.introduce name handle)

/-- How a message is sent, or an event in one. -/
def send (mem : ℕ → UInt8) (m : NodeMessage H (Event (Contents H))) : Option (ChannelMessage H) :=
  (m.mapPorts fun e => (PortsMessage.build mem e).map (·.channelMessage)).bind (build mem)

/-- What a message is received as. -/
def receive (mem : ℕ → UInt8) (payload : List UInt8) (handles : Option (List H)) :
    Option (NodeMessage H (Event (Contents H))) :=
  match dispatch mem payload handles with
  | some (.call m) => m.mapPorts fun m => (onPortsMessage m).bind (·.event)
  | _ => none

/-- A message fits, and the event in it. -/
def NodeMessage.FitsEvent : NodeMessage H (Event (Contents H)) → Prop
  | .acceptChild name name' | .acceptParent name name' | .connectToPort name name' =>
    name < 2 ^ 128 ∧ name' < 2 ^ 128
  | .portsMessage e => NodeChannel.Fits e
  | .requestPortConnection name token => name < 2 ^ 128 ∧ token.length < 2 ^ 32 - 32
  | .requestIntroduction name | .introduce name _ => name < 2 ^ 128

/-- A message that can be sent fits. -/
theorem FitsPorts.of_sendable {m : PortsMessage H} {numBytes : ℕ} (h : m.Sendable numBytes)
    (hhandles : PortsMessage.HasHandles m.channelMessage) : FitsPorts m.channelMessage where
  type := by
    rw [messageType, h.type.ofLeBytes_slice (by decide)]
    rfl
  size := by
    rw [h.length]
    exact h.size
  numHandles := h.numHandles
  handles := hhandles

/-- An internal event is received as it is. -/
theorem newInternalMessage_fits (mem : ℕ → UInt8) (p : PortName) (type : EventType)
    (data : List UInt8) (hdata : data.length = type.sizeofData) (hsize : type.sizeofData ≤ 64)
    (hne : type ≠ .user) : ∃ m : PortsMessage H, PortsMessage.newInternalMessage mem p type data =
      some m ∧ FitsPorts m.channelMessage ∧ onPortsMessage m.channelMessage = some m ∧
      eventType m.data = some type ∧ m.data.Holds 8 (leBytes 16 p) ∧
      m.data.Holds sizeofEventHeader data := by
  obtain ⟨m, hnew, hsend, hhandles, hsizes, htype, hname, hrest⟩ :=
    PortsMessage.newInternalMessage_spec mem p hdata hsize
  refine ⟨m, hnew, .of_sendable hsend hhandles, PortsMessage.onPortsMessage_eq type ?_ (.inr ?_),
    eventType_eq htype, hname, hrest⟩
  · rw [value_checkedParse_internal htype hne, hsizes]
  · rw [PortsMessage.length_data hsend, hsizes]

/-- An event that fits is in a channel message that fits, and it is the event in there. -/
theorem fitsPorts_build (mem : ℕ → UInt8) {e : Event (Contents H)} (h : Fits e) :
    ∃ m, PortsMessage.build mem e = some m ∧ FitsPorts m.channelMessage ∧
      (onPortsMessage m.channelMessage).bind (·.event) = some e := by
  cases e with
  | user message =>
    obtain ⟨m, hbuild, hsend, hhandles, hsizes, hdata, hall⟩ := PortsMessage.build_user mem h
    have hlt : message.ports.length < 2 ^ 32 := by
      have hsize := FitsMessage.size h
      simp only [channelMessageSize, sizeofPortDescriptor] at hsize
      omega
    have hparse : (checkedParse m.data).value = some (.user, m.sizes) := by
      rw [hsizes]
      exact value_checkedParse_user hdata.type hdata.numPorts hlt (PortsMessage.length_data hsend)
    refine ⟨m, hbuild, .of_sendable hsend hhandles, ?_⟩
    rw [PortsMessage.onPortsMessage_eq .user hparse (.inl rfl)]
    exact PortsMessage.event_user h hsizes hdata hall
  | portAccepted p =>
    obtain ⟨m, hnew, hfits, hparse, htype, hname, -⟩ := newInternalMessage_fits (H := H) mem p
      .portAccepted [] rfl (by decide) (by decide)
    refine ⟨m, hnew, hfits, ?_⟩
    rw [hparse, Option.bind_some, PortsMessage.event, htype, readName_eq hname h]
    rfl
  | observeProxy p d =>
    obtain ⟨hp, h₁, h₂, h₃, h₄⟩ := h
    obtain ⟨m, hnew, hfits, hparse, htype, hname, hdata⟩ := newInternalMessage_fits (H := H) mem p
      .observeProxy (observeProxyEventData d) rfl (by decide) (by decide)
    refine ⟨m, hnew, hfits, ?_⟩
    rw [hparse, Option.bind_some, PortsMessage.event, htype, readName_eq hname hp, Option.map_some,
      readObserveProxyEventData_eq hdata h₁ h₂ h₃ h₄]
  | observeProxyAck p n =>
    obtain ⟨m, hnew, hfits, hparse, htype, hname, hdata⟩ := newInternalMessage_fits (H := H) mem p
      .observeProxyAck (leBytes 8 n.toNat) rfl (by decide) (by decide)
    refine ⟨m, hnew, hfits, ?_⟩
    rw [hparse, Option.bind_some, PortsMessage.event, htype, readName_eq hname h, Option.map_some,
      readUInt64_eq hdata]
  | observeClosure p n =>
    obtain ⟨m, hnew, hfits, hparse, htype, hname, hdata⟩ := newInternalMessage_fits (H := H) mem p
      .observeClosure (leBytes 8 n.toNat) rfl (by decide) (by decide)
    refine ⟨m, hnew, hfits, ?_⟩
    rw [hparse, Option.bind_some, PortsMessage.event, htype, readName_eq hname h, Option.map_some,
      readUInt64_eq hdata]

/-- A message that is not one of ports is the same, whatever these are. -/
theorem mapPorts_control {m : NodeMessage H (Event (Contents H))} (h : m.FitsEvent)
    (hm : m.type ≠ .portsMessage) (f : Event (Contents H) → Option (ChannelMessage H)) :
    ∃ m' : NodeMessage H (ChannelMessage H), m.mapPorts f = some m' ∧ m'.Fits ∧
      m'.type ≠ .portsMessage ∧ ∀ g, m'.mapPorts g = some m := by
  cases m with
  | portsMessage => exact absurd rfl hm
  | _ => exact ⟨_, rfl, h, hm, fun _ => rfl⟩

/-- A message that fits is sent, and received as it is. -/
theorem receive_send (mem mem' : ℕ → UInt8) {m : NodeMessage H (Event (Contents H))}
    (h : m.FitsEvent) : ∃ c, send mem m = some c ∧ PortsMessage.HasHandles c ∧
      receive mem' c.payload c.received = some m := by
  by_cases hm : m.type = .portsMessage
  · cases m with
    | portsMessage e =>
      obtain ⟨p, hbuild, hfits, hevent⟩ := fitsPorts_build mem h
      have hc : build mem (.portsMessage p.channelMessage) = some p.channelMessage := rfl
      obtain ⟨hhandles, hdispatch⟩ := dispatch_of_build (by exact hfits) hc mem'
      refine ⟨p.channelMessage, ?_, hhandles, ?_⟩
      · rw [send, NodeMessage.mapPorts, hbuild]
        rfl
      · rw [receive, hdispatch]
        simp only [NodeMessage.mapPorts, hevent, Option.map_some]
    | _ => cases hm
  · obtain ⟨m', hmap, hfits, hm', hback⟩ :=
      mapPorts_control h hm fun e => (PortsMessage.build mem e).map (·.channelMessage)
    obtain ⟨c, hc, -⟩ := build_eq mem hfits hm'
    obtain ⟨hhandles, hdispatch⟩ := dispatch_of_build hfits hc mem'
    refine ⟨c, ?_, hhandles, ?_⟩
    · rw [send, hmap, Option.bind_some, hc]
    · rw [receive, hdispatch]
      exact hback _

/-! ## Conversations -/

/-- The handles that a channel gives along, if there are any. -/
def vector (handles : List H) : Option (List H) := if handles.isEmpty then none else some handles

/-- The payload and the handles that a channel carries are those of a message. -/
def Carries (mem : ℕ → UInt8) (m : NodeMessage H (Event (Contents H)))
    (content : List UInt8 × List H) : Prop :=
  m.FitsEvent ∧ ∃ c, send mem m = some c ∧ content = (c.payload, c.received.getD [])

/-- A message has handles if its header says so. -/
theorem vector_received (hc : PortsMessage.HasHandles c) :
    vector (c.received.getD []) = c.received := by
  rw [PortsMessage.HasHandles] at hc
  rw [ChannelMessage.received]
  split_ifs at hc ⊢ with hzero
  · rfl
  · obtain ⟨handles, hvector, hlen⟩ := Option.map_eq_some_iff.1 hc
    rw [hvector, Option.getD_some, vector, if_neg]
    rw [List.isEmpty_iff]
    rintro rfl
    exact hzero hlen.symm

/-- What a channel carries is received as it was sent. -/
theorem Carries.receive {mem : ℕ → UInt8} {m : NodeMessage H (Event (Contents H))}
    {content : List UInt8 × List H} (h : Carries mem m content) (mem' : ℕ → UInt8) :
    receive mem' content.1 (vector content.2) = some m := by
  obtain ⟨hfits, c, hc, rfl⟩ := h
  obtain ⟨c', hc', hhandles, hreceive⟩ := receive_send mem mem' hfits
  obtain rfl := Option.some.inj (hc.symm.trans hc')
  rw [vector_received hhandles, hreceive]

/-- When a node channel writes messages that fit (`NodeMessage.FitsEvent`), in channel messages
    that the other end accepts (`Channel.Connection.Fits`), then the node there receives them, and
    the events in them, in order, each of them as soon as its last byte is read. -/
theorem conversation {S : Channel.Socket} {c : Channel.Connection H}
    (h : (Channel.Connection.machine S H).Reachable Channel.Connection.Fits c)
    (hblock : (true, .wouldBlock) ∉ c.writer.answers) {mem : ℕ → UInt8}
    {ms : List (NodeMessage H (Event (Contents H)))} (hms : List.Forall₂ (Carries mem) ms c.sent)
    (mem' : ℕ → UInt8) : ∃ k ≤ ms.length,
      c.reader.messages.map (fun x => receive mem' x.1 (vector x.2)) = (ms.take k).map some ∧
      ∀ j ≤ ms.length, j ≤ k ↔ Channel.size (c.sent.take j) ≤ c.numRead := by
  obtain ⟨k, hk, hmessages, hsize⟩ := (Channel.Connection.inv_of_reachable h).messages_eq hblock
  rw [← hms.length_eq] at hk hsize
  refine ⟨k, hk, ?_, hsize⟩
  rw [hmessages]
  -- Each message by itself.
  have htake := List.forall₂_take k hms
  generalize ms.take k = ms' at htake
  generalize c.sent.take k = sent at htake
  induction htake with
  | nil => rfl
  | cons hm _ ih => rw [List.map_cons, List.map_cons, ih, hm.receive]

/-- An introduction with a handle, and an event that is not read to its end. -/
theorem conversation_introduce : ∃ c : Channel.Connection ℕ,
    ((Channel.Connection.machine Channel.Writer.slowSocket ℕ).Reachable Channel.Connection.Fits c ∧
      (true, .wouldBlock) ∉ c.writer.answers ∧ List.Forall₂ (Carries fun _ => 0)
        [.introduce 5 (some 7), .portsMessage (.observeClosure 6 9)] c.sent) ∧
    ∃ k ≤ 2, c.reader.messages.map (fun x => receive (fun _ => 255) x.1 (vector x.2)) =
        (List.take k [.introduce 5 (some 7), .portsMessage (.observeClosure 6 9)]).map some ∧
      ∀ j ≤ 2, j ≤ k ↔ Channel.size (c.sent.take j) ≤ c.numRead := by
  let closure : List UInt8 := leBytes 4 2 ++ (leBytes 4 0 ++ (leBytes 4 4 ++ (leBytes 4 0 ++
    (leBytes 16 6 ++ leBytes 8 9))))
  obtain ⟨c, hc, hblock, hsent⟩ := Machine.exists_reachable
    (M := Channel.Connection.machine Channel.Writer.slowSocket ℕ) (G := Channel.Connection.Fits)
    (P := fun c => (true, .wouldBlock) ∉ c.writer.answers ∧ c.sent =
      [(leBytes 4 6 ++ (leBytes 4 0 ++ leBytes 16 5), [7]), (closure, [])])
    [.write true (leBytes 4 6 ++ (leBytes 4 0 ++ leBytes 16 5)) [7], .write true closure [],
      .canWrite, .read 0 40] (by decide +kernel)
  have hms : List.Forall₂ (Carries fun _ => 0)
      [.introduce 5 (some 7), .portsMessage (.observeClosure 6 9)] c.sent := by
    rw [hsent]
    exact .cons ⟨by simp [NodeMessage.FitsEvent], ⟨_, 1, some [7]⟩, rfl, rfl⟩
      (.cons ⟨by simp [NodeMessage.FitsEvent, Fits], ⟨_, 0, none⟩, rfl, rfl⟩ .nil)
  exact ⟨c, ⟨hc, hblock, hms⟩, conversation hc hblock hms _⟩

end MojoEdk.NodeChannel
