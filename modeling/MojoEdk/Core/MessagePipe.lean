import MojoEdk.Channel.Reading
import MojoEdk.Core.Dispatcher

/-!
# Messages of a message pipe

How a message with dispatchers is laid out (`message_pipe_dispatcher.cc`). Its payload
is a header, a header for each dispatcher, the states of the dispatchers and the body.
The ports and the platform handles of all dispatchers are stored apart from it, one
after the other. `WriteMessage` fills in these four arrays, each at its own offset, and
`ReadMessage` goes over them in the same way.

The main result, `roundTrip_iff`, is that what is written is read, whatever the ports
are renamed to on the way, unless there are too many platform handles for the header of
a channel message, or the message is too large for it.
-/

namespace MojoEdk.Core

variable {P H : Type}

/-! ## Layouts -/

/-- The size of `MessageHeader`. -/
def sizeofMessageHeader : ℕ := 8

/-- The size of `DispatcherHeader`. -/
def sizeofDispatcherHeader : ℕ := 16

/-- The size of the `Header` of a node channel. -/
def sizeofNodeChannelHeader : ℕ := 8

def sizeofEventHeader : ℕ := 24

def sizeofUserEventData : ℕ := 16

def sizeofPortDescriptor : ℕ := 96

def sizeofPortName : ℕ := 16

/-- The size of a channel message with a user message in it. -/
def channelMessageSize (numPayloadBytes numPorts : ℕ) : ℕ :=
  Channel.sizeofHeader + (sizeofNodeChannelHeader + (sizeofEventHeader + sizeofUserEventData +
    numPorts * sizeofPortDescriptor + numPorts * sizeofPortName + numPayloadBytes))

/-- A `MessageHeader`. -/
def messageHeader (numDispatchers headerSize : ℕ) : List UInt8 :=
  leBytes 4 numDispatchers ++ leBytes 4 headerSize

/-- A `DispatcherHeader`. -/
def dispatcherHeader (type : ℕ) (info : Dispatcher.Info) : List UInt8 :=
  leBytes 4 type ++ leBytes 4 info.numBytes ++ leBytes 4 info.numPorts ++
    leBytes 4 info.numHandles

/-! ## Messages -/

/-- `PortsMessage`: the payload and the ports of a user message, and the handles of the
    channel message, with their number in its header. -/
structure PortsMessage (P H : Type) where
  payload : List UInt8
  ports : List P
  numHandles : ℕ
  handles : List (Option H)

/-- What memory holds that is not initialized. -/
structure Memory (P : Type) where
  byte : ℕ → UInt8
  port : ℕ → P

namespace PortsMessage

/-- `NewUserMessage`. The size and the number of handles have to fit into the header of
    the channel message. -/
def newUserMessage (mem : Memory P) (numPayloadBytes numPorts numHandles : ℕ) :
    Option (PortsMessage P H) :=
  if channelMessageSize numPayloadBytes numPorts < 2 ^ 32 ∧ numHandles < 2 ^ 16 then
    some {
      payload := (List.range numPayloadBytes).map mem.byte
      ports := (List.range numPorts).map mem.port
      numHandles := numHandles
      handles := [] }
  else none

/-- `SetHandles`. -/
def setHandles (m : PortsMessage P H) (handles : List (Option H)) : Option (PortsMessage P H) :=
  if m.numHandles = 0 then if handles.length = 0 then some m else none
  else if handles.length = m.numHandles then some { m with handles := handles }
  else none

/-- A hop gives new names to the ports of a message, depending on their positions. -/
def rename (m : PortsMessage P H) (hop : ℕ → P → P) : PortsMessage P H :=
  { m with ports := m.ports.mapIdx hop }

end PortsMessage

/-! ## Writing -/

/-- A dispatcher that is attached to a message, and what `DuplicatePlatformHandle` will
    return for it. -/
abbrev Attached (P H : Type) := Dispatcher P H × Option H

/-- What the loop of `WriteMessage` fills in. -/
structure Buffers (P H : Type) where
  payload : List UInt8
  ports : List P
  handles : List (Option H)

/-- The loop of `WriteMessage` over the dispatchers. It returns whether all of them
    could be serialized, and the dispatchers after that. -/
def serializeLoop : List (Attached P H × Dispatcher.Info) → (i dispatcherData portIndex
    handleIndex : ℕ) → Buffers P H → Option (Bool × Buffers P H × List (Dispatcher P H))
  | [], _, _, _, _, b => some (true, b, [])
  | ((d, dup), info) :: ds, i, dispatcherData, portIndex, handleIndex, b =>
    let payload := b.payload.splice (sizeofMessageHeader + i * sizeofDispatcherHeader)
      (dispatcherHeader d.type.toNat info)
    (d.endSerialize dup (payload.slice dispatcherData info.numBytes)).bind fun s =>
      let b := {
        payload := payload.splice dispatcherData s.destination
        ports := b.ports.splice portIndex s.ports
        handles := b.handles.splice handleIndex s.handles }
      -- One dispatcher that fails ends the loop. Those before it are serialized by then.
      if s.ok then
        (serializeLoop ds (i + 1) (dispatcherData + info.numBytes) (portIndex + info.numPorts)
          (handleIndex + info.numHandles) b).map fun (ok, b, ds) => (ok, b, s.dispatcher :: ds)
      else some (false, b, s.dispatcher :: ds.map (·.1.1))

/-- `WriteMessage` up to the call of `SendMessage`: the message, if all dispatchers
    could be serialized, and the dispatchers. -/
def serialize (mem : Memory P) (body : List UInt8) (ds : List (Attached P H)) :
    Option (Option (PortsMessage P H) × List (Dispatcher P H)) := do
  let infos ← ds.mapM (·.1.startSerialize)
  let headerSize := sizeofMessageHeader + ds.length * sizeofDispatcherHeader +
    (infos.map (·.numBytes)).sum
  let message ← PortsMessage.newUserMessage mem (headerSize + body.length)
    (infos.map (·.numPorts)).sum (infos.map (·.numHandles)).sum
  let (ok, b, ds') ← serializeLoop (ds.zip infos) 0
    (sizeofMessageHeader + ds.length * sizeofDispatcherHeader) 0 0 {
      payload := message.payload.splice 0 (messageHeader ds.length headerSize)
      ports := message.ports
      handles := List.replicate (infos.map (·.numHandles)).sum none }
  if ok then
    let message ← PortsMessage.setHandles
      { message with payload := b.payload, ports := b.ports } b.handles
    some (some { message with payload := message.payload.splice headerSize body }, ds')
  else some (none, ds')

/-! ## Reading -/

/-- The loop of `ReadMessage` over the dispatchers: none of them if one cannot be
    deserialized. -/
def deserializeLoop (m : PortsMessage P H) : ℕ → (i dispatcherData portIndex
    platformHandleIndex : ℕ) → Option (Option (List (Dispatcher P H)))
  | 0, _, _, _, _ => some (some [])
  | n + 1, i, dispatcherData, portIndex, platformHandleIndex =>
    -- The sizes are those the sender gave, and are checked against what has arrived.
    let dh := m.payload.slice (sizeofMessageHeader + i * sizeofDispatcherHeader)
      sizeofDispatcherHeader
    let type := ofLeBytes (dh.slice 0 4)
    let numBytes := ofLeBytes (dh.slice 4 4)
    let numPorts := ofLeBytes (dh.slice 8 4)
    let numPlatformHandles := ofLeBytes (dh.slice 12 4)
    if dispatcherData + numBytes ≤ m.payload.length ∧ portIndex + numPorts ≤ m.ports.length ∧
        platformHandleIndex + numPlatformHandles ≤ m.numHandles then
      match Dispatcher.deserialize type (m.payload.slice dispatcherData numBytes)
        (m.ports.slice portIndex numPorts)
        (m.handles.slice platformHandleIndex numPlatformHandles) with
      | none => some none
      | some d =>
        (deserializeLoop m n (i + 1) (dispatcherData + numBytes) (portIndex + numPorts)
          (platformHandleIndex + numPlatformHandles)).map (·.map (d :: ·))
    else none

/-- `ReadMessage` of the next message, with buffers for a number of bytes and handles:
    the body and the dispatchers that are added to the handle table. -/
def readMessage (numBytes numHandles : Option ℕ) (m : PortsMessage P H) :
    Option (MojoResult × List UInt8 × List (Dispatcher P H)) :=
  let numDispatchers := ofLeBytes (m.payload.slice 0 4)
  let headerSize := ofLeBytes (m.payload.slice 4 4)
  if sizeofMessageHeader ≤ m.payload.length ∧ headerSize ≤ m.payload.length then
    -- A difference of 32-bit numbers.
    let bytesAvailable := (m.payload.length + (2 ^ 32 - headerSize)) % 2 ^ 32
    let bytesToRead := (numBytes.map (min · bytesAvailable)).getD 0
    let handlesToRead := (numHandles.map (min · numDispatchers)).getD 0
    if bytesToRead < bytesAvailable ∨ handlesToRead < numDispatchers then
      some (.resourceExhausted, [], [])
    else
      (deserializeLoop m numDispatchers 0
        (sizeofMessageHeader + numDispatchers * sizeofDispatcherHeader) 0 0).map fun
        | none => (.unknown, [], [])
        | some ds => (.ok, m.payload.drop headerSize, ds)
  else none

/-! ## What is written -/

/-- Bytes of which a dispatcher is made that has the state of a given one. -/
structure Encoded (a : Attached P H) (bytes : List UInt8) : Prop where
  length : bytes.length = a.1.info.numBytes
  deserialize : ∀ ports : List P, ports.length = a.1.info.numPorts → ∃ d : Dispatcher P H,
    Dispatcher.deserialize a.1.type.toNat bytes ports (a.1.sentHandles a.2) = some d ∧
      d.state = a.1.state ∧ d.ports = ports ∧ d.handles = a.1.sentHandles a.2

/-- The headers of dispatchers. -/
def headers (ds : List (Attached P H)) : List UInt8 :=
  ds.flatMap fun a => dispatcherHeader a.1.type.toNat a.1.info

def portsOf (ds : List (Attached P H)) : List P := ds.flatMap (·.1.ports)

def sentHandlesOf (ds : List (Attached P H)) : List (Option H) :=
  ds.flatMap fun a => a.1.sentHandles a.2

def numBytesOf (ds : List (Attached P H)) : ℕ := (ds.map (·.1.info.numBytes)).sum

variable {ds : List (Attached P H)}

@[simp] theorem length_dispatcherHeader (type : ℕ) (info : Dispatcher.Info) :
    (dispatcherHeader type info).length = 16 := rfl

theorem length_headers (ds : List (Attached P H)) :
    (headers ds).length = ds.length * sizeofDispatcherHeader := by
  induction ds with
  | nil => rfl
  | cons a ds ih =>
    rw [headers, List.flatMap_cons, List.length_append, length_dispatcherHeader, ← headers, ih,
      List.length_cons, Nat.succ_mul, Nat.add_comm]
    rfl

theorem Dispatcher.length_ports (d : Dispatcher P H) : d.ports.length = d.info.numPorts := by
  cases d <;> rfl

theorem Dispatcher.length_sentHandles (d : Dispatcher P H) (dup : Option H) :
    (d.sentHandles dup).length = d.info.numHandles := by
  cases d <;> rfl

theorem length_portsOf (ds : List (Attached P H)) :
    (portsOf ds).length = (ds.map (·.1.info.numPorts)).sum := by
  rw [portsOf, List.length_flatMap]
  exact congrArg List.sum (List.map_congr_left fun a _ => a.1.length_ports)

theorem length_sentHandlesOf (ds : List (Attached P H)) :
    (sentHandlesOf ds).length = (ds.map (·.1.info.numHandles)).sum := by
  rw [sentHandlesOf, List.length_flatMap]
  exact congrArg List.sum (List.map_congr_left fun a _ => a.1.length_sentHandles a.2)

section Layout

variable {pre header gap mid x y tail : List UInt8} {off n : ℕ}

/-- The state of a dispatcher is behind the headers and the states before it. -/
theorem slice_state (hoff : off = (pre ++ (header ++ (gap ++ mid))).length) (hn : n = x.length) :
    (pre ++ (header ++ (gap ++ (mid ++ (x ++ tail))))).slice off n = x := by
  have hassoc : pre ++ (header ++ (gap ++ (mid ++ (x ++ tail)))) =
      (pre ++ (header ++ (gap ++ mid))) ++ (x ++ tail) := by
    simp only [List.append_assoc]
  rw [hassoc]
  exact List.slice_append_middle hoff hn

theorem splice_state (hoff : off = (pre ++ (header ++ (gap ++ mid))).length)
    (hx : x.length = y.length) :
    (pre ++ (header ++ (gap ++ (mid ++ (x ++ tail))))).splice off y =
      pre ++ (header ++ (gap ++ (mid ++ (y ++ tail)))) := by
  have hassoc (z : List UInt8) : pre ++ (header ++ (gap ++ (mid ++ (z ++ tail)))) =
      (pre ++ (header ++ (gap ++ mid))) ++ (z ++ tail) := by
    simp only [List.append_assoc]
  rw [hassoc, hassoc]
  exact List.splice_append hoff hx

end Layout

/-- The loop fills in what comes next in each of the arrays. Before it are the headers
    and states of the dispatchers that are written, after it the gaps for the others. -/
theorem serializeLoop_eq (hds : ∀ a ∈ ds, a.1.Transferable a.2) {i off : ℕ}
    {pre gap₁ mid gap₂ rest : List UInt8} {ports portGap : List P}
    {handles handleGap : List (Option H)}
    (hpre : pre.length = sizeofMessageHeader + i * sizeofDispatcherHeader)
    (hgap₁ : gap₁.length = ds.length * sizeofDispatcherHeader)
    (hoff : off = pre.length + gap₁.length + mid.length) (hgap₂ : gap₂.length = numBytesOf ds)
    (hports : portGap.length = (portsOf ds).length)
    (hhandles : handleGap.length = (sentHandlesOf ds).length) :
    ∃ states ds', List.Forall₂ Encoded ds states ∧
      serializeLoop (ds.map fun a => (a, a.1.info)) i off ports.length handles.length
        ⟨pre ++ (gap₁ ++ (mid ++ (gap₂ ++ rest))), ports ++ portGap, handles ++ handleGap⟩ =
      some (true, ⟨pre ++ (headers ds ++ (mid ++ (states.flatten ++ rest))),
        ports ++ portsOf ds, handles ++ sentHandlesOf ds⟩, ds') := by
  induction ds generalizing i off pre gap₁ mid gap₂ ports portGap handles handleGap with
  | nil =>
    rw [List.length_eq_zero_iff.1 (hgap₁.trans (Nat.zero_mul _)),
      List.length_eq_zero_iff.1 hgap₂, List.length_eq_zero_iff.1 hports,
      List.length_eq_zero_iff.1 hhandles]
    exact ⟨[], [], .nil, rfl⟩
  | cons a ds ih =>
    rw [List.length_cons, Nat.succ_mul, Nat.add_comm] at hgap₁
    obtain ⟨g, gap₁, rfl, hg, hgap₁⟩ := List.exists_append_of_length hgap₁
    rw [numBytesOf, List.map_cons, List.sum_cons] at hgap₂
    obtain ⟨s, gap₂, rfl, hs, hgap₂⟩ := List.exists_append_of_length hgap₂
    rw [portsOf, List.flatMap_cons, List.length_append] at hports
    obtain ⟨p, portGap, rfl, hp, hports⟩ := List.exists_append_of_length hports
    rw [sentHandlesOf, List.flatMap_cons, List.length_append] at hhandles
    obtain ⟨h, handleGap, rfl, hh, hhandles⟩ := List.exists_append_of_length hhandles
    obtain ⟨r, hr, hok, hlen, hrports, hrhandles, hread⟩ :=
      Dispatcher.deserialize_endSerialize (hds a List.mem_cons_self) hs
    have hheader : (pre ++ ((g ++ gap₁) ++ (mid ++ ((s ++ gap₂) ++ rest)))).splice
        (sizeofMessageHeader + i * sizeofDispatcherHeader)
          (dispatcherHeader a.1.type.toNat a.1.info) =
        pre ++ (dispatcherHeader a.1.type.toNat a.1.info ++
          (gap₁ ++ (mid ++ (s ++ (gap₂ ++ rest))))) := by
      rw [List.append_assoc g, List.append_assoc s]
      exact List.splice_append hpre.symm hg
    have hoff' : off = (pre ++ (dispatcherHeader a.1.type.toNat a.1.info ++
        (gap₁ ++ mid))).length := by
      rw [hoff, List.length_append, List.length_append, List.length_append, List.length_append, hg,
        length_dispatcherHeader, sizeofDispatcherHeader]
      omega
    have hslice : (pre ++ (dispatcherHeader a.1.type.toNat a.1.info ++
        (gap₁ ++ (mid ++ (s ++ (gap₂ ++ rest)))))).slice off a.1.info.numBytes = s :=
      slice_state hoff' hs.symm
    have hstate : (pre ++ (dispatcherHeader a.1.type.toNat a.1.info ++
        (gap₁ ++ (mid ++ (s ++ (gap₂ ++ rest)))))).splice off r.destination =
        pre ++ (dispatcherHeader a.1.type.toNat a.1.info ++
          (gap₁ ++ (mid ++ (r.destination ++ (gap₂ ++ rest))))) :=
      splice_state hoff' (hs.trans hlen.symm)
    have hports' : (ports ++ (p ++ portGap)).splice ports.length r.ports =
        ports ++ (a.1.ports ++ portGap) := by
      rw [hrports]
      exact List.splice_append rfl hp
    have hhandles' : (handles ++ (h ++ handleGap)).splice handles.length r.handles =
        handles ++ (a.1.sentHandles a.2 ++ handleGap) := by
      rw [hrhandles]
      exact List.splice_append rfl hh
    obtain ⟨states, ds', hstates, hloop⟩ := @ih (fun b hb => hds b (List.mem_cons_of_mem a hb))
      (i + 1) (off + a.1.info.numBytes) (pre ++ dispatcherHeader a.1.type.toNat a.1.info) gap₁
      (mid ++ r.destination) gap₂ (ports ++ a.1.ports) portGap (handles ++ a.1.sentHandles a.2)
      handleGap (by
        rw [List.length_append, hpre, length_dispatcherHeader, Nat.succ_mul, sizeofDispatcherHeader]
        omega) hgap₁ (by
        rw [hoff', List.length_append, List.length_append, List.length_append, List.length_append,
          List.length_append, hlen]
        omega) hgap₂ hports hhandles
    refine ⟨r.destination :: states, r.dispatcher :: ds', .cons ⟨hlen, hread⟩ hstates, ?_⟩
    rw [List.map_cons, serializeLoop]
    simp only [hheader, hslice, hr, Option.bind_some, hstate, hports', hhandles', hok, if_true]
    rw [List.length_append, List.length_append, Dispatcher.length_ports,
      Dispatcher.length_sentHandles] at hloop
    simp only [List.append_assoc] at hloop
    rw [hloop]
    simp only [Option.map_some, headers, portsOf, sentHandlesOf, List.flatMap_cons,
      List.flatten_cons, List.append_assoc]

/-! ## What is read -/

/-- The fields of the header of a dispatcher. -/
theorem ofLeBytes_dispatcherHeader (d : Dispatcher P H) :
    ofLeBytes ((dispatcherHeader d.type.toNat d.info).slice 0 4) = d.type.toNat ∧
    ofLeBytes ((dispatcherHeader d.type.toNat d.info).slice 4 4) = d.info.numBytes ∧
    ofLeBytes ((dispatcherHeader d.type.toNat d.info).slice 8 4) = d.info.numPorts ∧
    ofLeBytes ((dispatcherHeader d.type.toNat d.info).slice 12 4) = d.info.numHandles := by
  have hbounds : d.type.toNat < 256 ^ 4 ∧ d.info.numBytes < 256 ^ 4 ∧
      d.info.numPorts < 256 ^ 4 ∧ d.info.numHandles < 256 ^ 4 := by
    cases d <;> simp [Dispatcher.type, DispatcherType.toNat, Dispatcher.info, sizeofMessagePipe,
      sizeofDataPipe, sizeofSharedBuffer]
  exact ⟨ofLeBytes_leBytes hbounds.1, ofLeBytes_leBytes hbounds.2.1,
    ofLeBytes_leBytes hbounds.2.2.1, ofLeBytes_leBytes hbounds.2.2.2⟩

/-- What the dispatchers that are read have of those that were written. -/
structure Received (ds : List (Attached P H)) (ports : List P) (ds' : List (Dispatcher P H)) :
    Prop where
  state : ds'.map (·.state) = ds.map (·.1.state)
  numPorts : ds'.map (·.ports.length) = ds.map (·.1.ports.length)
  ports : ds'.flatMap (·.ports) = ports
  handles : ds'.map (·.handles) = ds.map fun a => a.1.sentHandles a.2

/-- The loop takes from each of the arrays what comes next. -/
theorem deserializeLoop_eq {m : PortsMessage P H} {states : List (List UInt8)}
    (hstates : List.Forall₂ Encoded ds states) {i off : ℕ} {pre mid rest : List UInt8}
    {ports portsLeft : List P} {handles : List (Option H)}
    (hpre : pre.length = sizeofMessageHeader + i * sizeofDispatcherHeader)
    (hoff : off = pre.length + (headers ds).length + mid.length)
    (hpayload : m.payload = pre ++ (headers ds ++ (mid ++ (states.flatten ++ rest))))
    (hports : m.ports = ports ++ portsLeft) (hnumPorts : portsLeft.length = (portsOf ds).length)
    (hhandles : m.handles = handles ++ sentHandlesOf ds)
    (hnumHandles : m.numHandles = m.handles.length) :
    ∃ ds', deserializeLoop m ds.length i off ports.length handles.length = some (some ds') ∧
      Received ds portsLeft ds' := by
  induction hstates generalizing i off pre mid ports portsLeft handles with
  | nil =>
    obtain rfl := List.length_eq_zero_iff.1 hnumPorts
    exact ⟨[], rfl, rfl, rfl, rfl, rfl⟩
  | @cons a bytes ds states ha hstates ih =>
    rw [portsOf, List.flatMap_cons, List.length_append] at hnumPorts
    obtain ⟨p, portsLeft, rfl, hp, hnumPorts⟩ := List.exists_append_of_length hnumPorts
    rw [sentHandlesOf, List.flatMap_cons, ← sentHandlesOf] at hhandles
    rw [headers, List.flatMap_cons, ← headers] at hpayload hoff
    rw [List.flatten_cons, List.append_assoc, List.append_assoc] at hpayload
    obtain ⟨d, hd, hstate, hdports, hdhandles⟩ :=
      ha.deserialize p (hp.trans a.1.length_ports)
    have hdh : m.payload.slice (sizeofMessageHeader + i * sizeofDispatcherHeader)
        sizeofDispatcherHeader = dispatcherHeader a.1.type.toNat a.1.info := by
      rw [hpayload]
      exact List.slice_append_middle hpre.symm rfl
    have hoff' : off = (pre ++ (dispatcherHeader a.1.type.toNat a.1.info ++
        (headers ds ++ mid))).length := by
      rw [hoff]
      simp only [List.length_append]
      omega
    have hslice : m.payload.slice off a.1.info.numBytes = bytes := by
      rw [hpayload]
      exact slice_state hoff' ha.length.symm
    have hpslice : m.ports.slice ports.length a.1.info.numPorts = p := by
      rw [hports]
      exact List.slice_append_middle rfl (hp.trans a.1.length_ports).symm
    have hhslice : m.handles.slice handles.length a.1.info.numHandles =
        a.1.sentHandles a.2 := by
      rw [hhandles]
      exact List.slice_append_middle rfl (a.1.length_sentHandles a.2).symm
    have hfits : off + a.1.info.numBytes ≤ m.payload.length ∧
        ports.length + a.1.info.numPorts ≤ m.ports.length ∧
        handles.length + a.1.info.numHandles ≤ m.numHandles := by
      rw [hnumHandles, hpayload, hports, hhandles, hoff']
      simp only [List.length_append, ha.length, hp, a.1.length_ports, a.1.length_sentHandles]
      omega
    obtain ⟨ds', hloop, hreceived⟩ := @ih (i + 1) (off + a.1.info.numBytes)
      (pre ++ dispatcherHeader a.1.type.toNat a.1.info) (mid ++ bytes) (ports ++ p) portsLeft
      (handles ++ a.1.sentHandles a.2) (by
        rw [List.length_append, hpre, length_dispatcherHeader, Nat.succ_mul, sizeofDispatcherHeader]
        omega) (by
        rw [hoff']
        simp only [List.length_append, ha.length]
        omega) (by
        rw [hpayload]
        simp only [List.append_assoc]) (by rw [hports, List.append_assoc]) hnumPorts
      (by rw [hhandles, List.append_assoc])
    obtain ⟨htype, hbytes, hnp, hnh⟩ := ofLeBytes_dispatcherHeader a.1
    refine ⟨d :: ds', ?_, ?_⟩
    · rw [List.length_append, List.length_append, hp, a.1.length_ports,
        a.1.length_sentHandles] at hloop
      rw [List.length_cons, deserializeLoop]
      simp only [hdh, htype, hbytes, hnp, hnh, hfits, and_self, if_true, hslice, hpslice, hhslice,
        hd, hloop, Option.map_some]
    · exact {
        state := by rw [List.map_cons, List.map_cons, hstate, hreceived.state]
        numPorts := by rw [List.map_cons, List.map_cons, hdports, hp, hreceived.numPorts]
        ports := by rw [List.flatMap_cons, hdports, hreceived.ports]
        handles := by rw [List.map_cons, List.map_cons, hdhandles, hreceived.handles] }

/-! ## Round trips -/

theorem mapM_startSerialize (hds : ∀ a ∈ ds, a.1.Transferable a.2) :
    ds.mapM (·.1.startSerialize) = some (ds.map (·.1.info)) := by
  induction ds with
  | nil => rfl
  | cons a ds ih =>
    rw [List.mapM_cons, Dispatcher.startSerialize_eq (hds a List.mem_cons_self),
      ih fun b hb => hds b (List.mem_cons_of_mem a hb)]
    rfl

/-- A dispatcher that starts to be serialized tells its sizes. -/
theorem info_of_startSerialize {d : Dispatcher P H} {info : Dispatcher.Info}
    (h : d.startSerialize = some info) : info = d.info := by
  cases d with
  | messagePipe | sharedBuffer | platformHandle | waitSet => exact (Option.some.inj h).symm
  | dataPipeProducer d =>
    rw [Dispatcher.startSerialize] at h
    split_ifs at h
    exact (Option.some.inj h).symm
  | dataPipeConsumer d =>
    rw [Dispatcher.startSerialize] at h
    split_ifs at h
    exact (Option.some.inj h).symm

theorem infos_of_mapM {infos : List Dispatcher.Info}
    (h : ds.mapM (·.1.startSerialize) = some infos) : infos = ds.map (·.1.info) := by
  induction ds generalizing infos with
  | nil => exact (Option.some.inj h).symm
  | cons a ds ih =>
    rw [List.mapM_cons] at h
    obtain ⟨info, hinfo, h⟩ := Option.bind_eq_some_iff.1 h
    obtain ⟨infos', hinfos, h⟩ := Option.bind_eq_some_iff.1 h
    rw [← Option.some.inj h, List.map_cons, info_of_startSerialize hinfo, ih hinfos]

/-- The size of what precedes the body. -/
def headerSize (ds : List (Attached P H)) : ℕ :=
  sizeofMessageHeader + ds.length * sizeofDispatcherHeader + numBytesOf ds

/-- The number of platform handles that are sent. -/
def numHandlesOf (ds : List (Attached P H)) : ℕ := (ds.map (·.1.info.numHandles)).sum

/-- The message, and its number of platform handles, fit into the header of a channel
    message. -/
def Fits (body : List UInt8) (ds : List (Attached P H)) : Prop :=
  channelMessageSize (headerSize ds + body.length) (portsOf ds).length < 2 ^ 32 ∧
    numHandlesOf ds < 2 ^ 16

/-- `serialize` of dispatchers that can be sent. -/
theorem serialize_eq_bind (mem : Memory P) (body : List UInt8)
    (hds : ∀ a ∈ ds, a.1.Transferable a.2) : serialize mem body ds =
      (PortsMessage.newUserMessage mem (headerSize ds + body.length) (portsOf ds).length
        (numHandlesOf ds)).bind fun message =>
      (serializeLoop (ds.map fun a => (a, a.1.info)) 0
        (sizeofMessageHeader + ds.length * sizeofDispatcherHeader) 0 0 {
          payload := message.payload.splice 0 (messageHeader ds.length (headerSize ds))
          ports := message.ports
          handles := List.replicate (numHandlesOf ds) none }).bind fun (ok, b, ds') =>
      if ok then
        (PortsMessage.setHandles { message with payload := b.payload, ports := b.ports }
          b.handles).bind fun message =>
        some (some { message with payload := message.payload.splice (headerSize ds) body }, ds')
      else some (none, ds') := by
  have hzip : ds.zip (ds.map (·.1.info)) = ds.map fun a => (a, a.1.info) :=
    List.map_prod_left_eq_zip.symm
  rw [serialize, mapM_startSerialize hds, length_portsOf, headerSize, numBytesOf, numHandlesOf]
  simp only [List.map_map, Option.bind_eq_bind, Option.bind_some, Function.comp_def, hzip]

theorem serialize_of_not_fits (mem : Memory P) {body : List UInt8}
    (hds : ∀ a ∈ ds, a.1.Transferable a.2) (h : ¬ Fits body ds) :
    serialize mem body ds = none := by
  rw [Fits] at h
  rw [serialize_eq_bind mem body hds, PortsMessage.newUserMessage, if_neg h, Option.bind_none]

theorem length_flatten_states {states : List (List UInt8)}
    (h : List.Forall₂ Encoded ds states) : states.flatten.length = numBytesOf ds := by
  induction h with
  | nil => rfl
  | cons ha _ ih =>
    rw [List.flatten_cons, List.length_append, ha.length, ih, numBytesOf, numBytesOf,
      List.map_cons, List.sum_cons]

/-- What is written. -/
theorem serialize_eq (mem : Memory P) {body : List UInt8}
    (hds : ∀ a ∈ ds, a.1.Transferable a.2) (h : Fits body ds) :
    ∃ states ds', List.Forall₂ Encoded ds states ∧ serialize mem body ds =
      some (some {
        payload := messageHeader ds.length (headerSize ds) ++
          (headers ds ++ ([] ++ (states.flatten ++ body)))
        ports := portsOf ds
        numHandles := numHandlesOf ds
        handles := sentHandlesOf ds }, ds') := by
  -- The parts of the payload, before anything is written to it.
  have hlength : ((List.range (headerSize ds + body.length)).map mem.byte).length =
      headerSize ds + body.length := by
    rw [List.length_map, List.length_range]
  obtain ⟨gap, rest, hpayload, hgap, hrest⟩ := List.exists_append_of_length hlength
  obtain ⟨gap, gap₂, rfl, hgap, hgap₂⟩ := List.exists_append_of_length hgap
  obtain ⟨gap₀, gap₁, rfl, hgap₀, hgap₁⟩ := List.exists_append_of_length hgap
  have hheader : ((List.range (headerSize ds + body.length)).map mem.byte).splice 0
      (messageHeader ds.length (headerSize ds)) =
      messageHeader ds.length (headerSize ds) ++ (gap₁ ++ ([] ++ (gap₂ ++ rest))) := by
    rw [hpayload, List.append_assoc, List.append_assoc]
    exact List.splice_append (a := []) rfl hgap₀
  obtain ⟨states, ds', hstates, hloop⟩ := @serializeLoop_eq _ _ ds hds 0
    (sizeofMessageHeader + ds.length * sizeofDispatcherHeader)
    (messageHeader ds.length (headerSize ds)) gap₁ [] gap₂ rest []
    ((List.range (portsOf ds).length).map mem.port) []
    (List.replicate (numHandlesOf ds) none) rfl hgap₁ (by rw [hgap₁]; rfl) hgap₂
    (by rw [List.length_map, List.length_range]) (by rw [List.length_replicate, length_sentHandlesOf, numHandlesOf])
  refine ⟨states, ds', hstates, ?_⟩
  have hset (payload : List UInt8) (ports : List P) : PortsMessage.setHandles
      ⟨payload, ports, numHandlesOf ds, []⟩ (sentHandlesOf ds) =
        some ⟨payload, ports, numHandlesOf ds, sentHandlesOf ds⟩ := by
    have hlen : (sentHandlesOf ds).length = numHandlesOf ds := length_sentHandlesOf ds
    rw [PortsMessage.setHandles]
    split_ifs with hzero hnil
    · rw [List.length_eq_zero_iff.1 hnil]
    · exact absurd (hlen.trans hzero) hnil
    · rfl
  have hbody : (messageHeader ds.length (headerSize ds) ++
      (headers ds ++ ([] ++ (states.flatten ++ rest)))).splice (headerSize ds) body =
      messageHeader ds.length (headerSize ds) ++
        (headers ds ++ ([] ++ (states.flatten ++ body))) := by
    have hat : headerSize ds = (messageHeader ds.length (headerSize ds) ++
        (headers ds ++ states.flatten)).length := by
      rw [List.length_append, List.length_append, length_headers, length_flatten_states hstates,
        headerSize, ← Nat.add_assoc]
      rfl
    have h := List.splice_append (b := []) hat hrest
    simpa only [List.append_assoc, List.append_nil, List.nil_append] using h
  rw [Fits] at h
  rw [serialize_eq_bind mem body hds, PortsMessage.newUserMessage, if_pos h, Option.bind_some,
    hheader]
  refine (congrArg (Option.bind · _) hloop).trans ?_
  simp only [List.nil_append] at hbody ⊢
  simp only [if_true, hset, Option.bind_some, hbody]

/-- A message whose ports are renamed by hops is read as it was written, with buffers
    that are large enough. -/
theorem readMessage_eq {body : List UInt8} {states : List (List UInt8)}
    (hstates : List.Forall₂ Encoded ds states) (h : Fits body ds) {ports : List P}
    (hports : ports.length = (portsOf ds).length) {numBytes numHandles : ℕ}
    (hbytes : body.length ≤ numBytes) (hhandles : ds.length ≤ numHandles) :
    ∃ ds', readMessage (some numBytes) (some numHandles) {
        payload := messageHeader ds.length (headerSize ds) ++
          (headers ds ++ ([] ++ (states.flatten ++ body)))
        ports := ports
        numHandles := numHandlesOf ds
        handles := sentHandlesOf ds } = some (.ok, body, ds') ∧ Received ds ports ds' := by
  have hsize : headerSize ds + body.length < 2 ^ 32 := by
    have hlt := h.1
    rw [channelMessageSize] at hlt
    omega
  have hds : ds.length < 256 ^ 4 := by
    rw [headerSize, sizeofDispatcherHeader] at hsize
    omega
  have hhs : headerSize ds < 256 ^ 4 := by omega
  have hn : ofLeBytes ((messageHeader ds.length (headerSize ds)).slice 0 4) = ds.length :=
    ofLeBytes_leBytes hds
  have hs : ofLeBytes ((messageHeader ds.length (headerSize ds)).slice 4 4) = headerSize ds :=
    ofLeBytes_leBytes hhs
  have hat : (messageHeader ds.length (headerSize ds) ++
      (headers ds ++ ([] ++ states.flatten))).length = headerSize ds := by
    rw [List.length_append, List.length_append, length_headers, List.nil_append,
      length_flatten_states hstates, headerSize, ← Nat.add_assoc]
    rfl
  have hassoc : messageHeader ds.length (headerSize ds) ++
      (headers ds ++ ([] ++ (states.flatten ++ body))) =
      (messageHeader ds.length (headerSize ds) ++ (headers ds ++ ([] ++ states.flatten))) ++
        body := by
    simp only [List.append_assoc]
  have hlen : (messageHeader ds.length (headerSize ds) ++
      (headers ds ++ ([] ++ (states.flatten ++ body)))).length = headerSize ds + body.length := by
    rw [hassoc, List.length_append, hat]
  have hdrop : (messageHeader ds.length (headerSize ds) ++
      (headers ds ++ ([] ++ (states.flatten ++ body)))).drop (headerSize ds) = body := by
    rw [hassoc]
    exact List.drop_left' hat
  obtain ⟨ds', hloop, hreceived⟩ := @deserializeLoop_eq _ _ ds {
      payload := messageHeader ds.length (headerSize ds) ++
        (headers ds ++ ([] ++ (states.flatten ++ body)))
      ports := ports
      numHandles := numHandlesOf ds
      handles := sentHandlesOf ds } states hstates 0
    (sizeofMessageHeader + ds.length * sizeofDispatcherHeader)
    (messageHeader ds.length (headerSize ds)) [] body [] ports [] rfl
    (by rw [length_headers]; rfl) rfl rfl hports rfl (length_sentHandlesOf ds).symm
  refine ⟨ds', ?_, hreceived⟩
  have havailable : (headerSize ds + body.length + (2 ^ 32 - headerSize ds)) % 2 ^ 32 =
      body.length := by
    omega
  have hslice (i : ℕ) (hi : i + 4 ≤ 8) : (messageHeader ds.length (headerSize ds) ++
      (headers ds ++ ([] ++ (states.flatten ++ body)))).slice i 4 =
      (messageHeader ds.length (headerSize ds)).slice i 4 :=
    List.slice_append_of_le hi
  rw [readMessage]
  simp only [hslice 0 (by decide), hslice 4 (by decide), hn, hs, hlen, havailable,
    Option.map_some, Option.getD_some, min_eq_right hbytes, min_eq_right hhandles, lt_irrefl,
    or_self, if_false, hdrop]
  rw [if_pos ⟨by rw [headerSize]; omega, Nat.le_add_right _ _⟩]
  exact congrArg (Option.map _) hloop

/-- A message is read as it was written: for any hops that rename the ports of the
    message position by position, `ReadMessage`, with buffers that are large enough,
    returns the body and dispatchers with the states of those that were sent, each with
    its ports, as they were renamed, and its platform handles. -/
def RoundTrip (mem : Memory P) (body : List UInt8) (ds : List (Attached P H)) : Prop :=
  ∃ m ds₁, serialize mem body ds = some (some m, ds₁) ∧
    ∀ (hops : List (ℕ → P → P)) (numBytes numHandles : ℕ), body.length ≤ numBytes →
      ds.length ≤ numHandles → ∃ ds',
        readMessage (some numBytes) (some numHandles) (hops.foldl PortsMessage.rename m) =
          some (.ok, body, ds') ∧
        Received ds (hops.foldl (fun ports hop => ports.mapIdx hop) (portsOf ds)) ds'

/-- Hops only change the names of ports. -/
theorem foldl_rename (hops : List (ℕ → P → P)) (m : PortsMessage P H) :
    hops.foldl PortsMessage.rename m =
      { m with ports := hops.foldl (fun ports hop => ports.mapIdx hop) m.ports } := by
  induction hops generalizing m with
  | nil => rfl
  | cons hop hops ih => exact ih (m.rename hop)

theorem length_foldl_mapIdx (hops : List (ℕ → P → P)) (ports : List P) :
    (hops.foldl (fun ports hop => ports.mapIdx hop) ports).length = ports.length := by
  induction hops generalizing ports with
  | nil => rfl
  | cons hop hops ih =>
    rw [List.foldl_cons, ih, List.length_mapIdx]

/-- What is written is read, exactly if the message fits into a channel message. -/
theorem roundTrip_iff (mem : Memory P) (body : List UInt8) (ds : List (Attached P H))
    (hds : ∀ a ∈ ds, a.1.Transferable a.2) : RoundTrip mem body ds ↔ Fits body ds := by
  constructor
  · rintro ⟨m, ds₁, hserialize, -⟩
    by_contra h
    rw [serialize_of_not_fits mem hds h] at hserialize
    cases hserialize
  · intro h
    obtain ⟨states, ds₁, hstates, hserialize⟩ := serialize_eq mem hds h
    refine ⟨_, ds₁, hserialize, fun hops numBytes numHandles hbytes hhandles => ?_⟩
    rw [foldl_rename]
    exact readMessage_eq hstates h (length_foldl_mapIdx hops _) hbytes hhandles

/-- A shared buffer, a message pipe and a platform handle. -/
def mixed : List (Attached ℕ ℕ) :=
  [(.sharedBuffer { sharedBuffer := some ⟨some 3, 64⟩, inTransit := true }, some 4),
    (.messagePipe { port := 5, pipeId := 6, endpoint := 1, inTransit := true }, none),
    (.platformHandle { platformHandle := some 7, inTransit := true }, none)]

theorem roundTrip_iff_mixed : RoundTrip ⟨fun _ => 0, fun _ => 0⟩ [1, 2, 3] mixed ∧
    Fits [1, 2, 3] mixed := by
  have hds : ∀ a ∈ mixed, a.1.Transferable a.2 := by
    rw [mixed, List.forall_mem_cons, List.forall_mem_cons, List.forall_mem_singleton]
    exact ⟨⟨⟨_, rfl, by decide⟩, rfl⟩, trivial, rfl⟩
  have hfits : Fits [1, 2, 3] mixed := ⟨by decide, by decide⟩
  exact ⟨(roundTrip_iff _ _ mixed hds).2 hfits, hfits⟩

/-- A platform handle that is sent. -/
def attachedHandle : Attached ℕ ℕ :=
  (.platformHandle { platformHandle := some 7, inTransit := true }, none)

/-- A message with more platform handles than the header of a channel message can tell
    is not written: an assertion fails. -/
theorem not_roundTrip_handles :
    ¬ RoundTrip ⟨fun _ => 0, fun _ => 0⟩ [] (List.replicate (2 ^ 16) attachedHandle) := by
  rintro ⟨m, ds₁, h, -⟩
  rw [serialize_of_not_fits] at h
  · cases h
  · intro a ha
    rw [List.eq_of_mem_replicate ha]
    exact rfl
  · intro hfits
    have hlt := hfits.2
    rw [numHandlesOf, List.map_replicate, List.sum_replicate_nat] at hlt
    exact absurd hlt (by decide)

end MojoEdk.Core
