import MojoEdk.Core.MessagePipe
import MojoEdk.Library.Checked
import Mathlib.Algebra.BigOperators.Group.Finset.Basic

/-!
# Decoding messages of a message pipe

What `ReadMessage` accesses of a message that was received (`message_pipe_dispatcher.cc`),
whose payload may be anything. The selector reads the header, and the loop a header for
each dispatcher, until one of them is rejected. `Deserialize` of a dispatcher
(`checkedDeserialize`) compares the counts in its header with those of its type before
it reads anything. Nothing else is checked: not that there is a header, not that the
headers and the states of the dispatchers end before the body, nor that there are as many
ports and platform handles as the headers say.

The exact condition under which all of this stays in the message is `Decodable`.
-/

namespace MojoEdk.Core

open Checked

variable {P H : Type} {m : PortsMessage P H}

/-- What is outside of the message: whether `GetPort` and
    `CreateSharedBufferFromHandle` succeed for a dispatcher, and whether there are handles
    left for all of them. -/
structure Surroundings where
  getPort : ℕ → Bool
  createSharedBuffer : ℕ → Bool
  addDispatchers : Bool

/-! ## Headers -/

/-- `DispatcherHeader`. -/
structure DispatcherHeader where
  type : ℕ
  numBytes : ℕ
  numPorts : ℕ
  numPlatformHandles : ℕ

namespace PortsMessage

def numDispatchers (m : PortsMessage P H) : ℕ := ofLeBytes (m.payload.slice 0 4)

def headerSize (m : PortsMessage P H) : ℕ := ofLeBytes (m.payload.slice 4 4)

/-- The header of a dispatcher. -/
def dispatcherHeader (m : PortsMessage P H) (i : ℕ) : DispatcherHeader :=
  let dh := m.payload.slice (sizeofMessageHeader + i * sizeofDispatcherHeader)
    sizeofDispatcherHeader
  { type := ofLeBytes (dh.slice 0 4)
    numBytes := ofLeBytes (dh.slice 4 4)
    numPorts := ofLeBytes (dh.slice 8 4)
    numPlatformHandles := ofLeBytes (dh.slice 12 4) }

end PortsMessage

namespace DispatcherHeader

/-- The counts are those of a message pipe, a data pipe and a platform handle. -/
def IsMessagePipe (dh : DispatcherHeader) : Prop :=
  dh.numPorts = 1 ∧ dh.numPlatformHandles = 0 ∧ dh.numBytes = sizeofMessagePipe

def IsDataPipe (dh : DispatcherHeader) : Prop :=
  dh.numPorts = 1 ∧ dh.numPlatformHandles = 1 ∧ dh.numBytes = sizeofDataPipe

def IsPlatformHandle (dh : DispatcherHeader) : Prop :=
  dh.numBytes = 0 ∧ dh.numPorts = 0 ∧ dh.numPlatformHandles = 1

instance : DecidablePred IsMessagePipe :=
  fun _ => inferInstanceAs (Decidable (_ ∧ _ ∧ _))

instance : DecidablePred IsDataPipe :=
  fun _ => inferInstanceAs (Decidable (_ ∧ _ ∧ _))

instance : DecidablePred IsPlatformHandle :=
  fun _ => inferInstanceAs (Decidable (_ ∧ _ ∧ _))

end DispatcherHeader

/-! ## Checked reading -/

/-- Where the loop of `ReadMessage` is in the arrays of a message. -/
structure Position where
  dispatcherData : ℕ
  portIndex : ℕ
  platformHandleIndex : ℕ

/-- The position after a dispatcher. -/
def Position.next (p : Position) (dh : DispatcherHeader) : Position where
  dispatcherData := p.dispatcherData + dh.numBytes
  portIndex := p.portIndex + dh.numPorts
  platformHandleIndex := p.platformHandleIndex + dh.numPlatformHandles

/-- `Deserialize` of a message pipe, a data pipe, a shared buffer and a platform handle:
    whether there is a dispatcher. If the port is not found then there is none. For a message
    pipe, the code checks that it is found (`CHECK_EQ`) and does not return otherwise. -/
def checkedMessagePipe (env : Surroundings) (m : PortsMessage P H) (i : ℕ) (p : Position)
    (dh : DispatcherHeader) : Checked Bool :=
  if dh.IsMessagePipe then do
    access m.ports.length p.portIndex 1
    if env.getPort i then do
      access m.headerSize p.dispatcherData dh.numBytes
      pure true
    else pure false
  else pure false

def checkedDataPipe (env : Surroundings) (m : PortsMessage P H) (i : ℕ) (p : Position)
    (dh : DispatcherHeader) : Checked Bool :=
  if dh.IsDataPipe then do
    access m.ports.length p.portIndex 1
    if env.getPort i then do
      access m.numHandles p.platformHandleIndex 1
      access m.headerSize p.dispatcherData dh.numBytes
      pure (env.createSharedBuffer i)
    else pure false
  else pure false

def checkedSharedBuffer (env : Surroundings) (m : PortsMessage P H) (i : ℕ) (p : Position)
    (dh : DispatcherHeader) : Checked Bool :=
  if dh.numBytes = sizeofSharedBuffer then do
    access m.headerSize p.dispatcherData dh.numBytes
    if readUInt64 (m.payload.slice p.dispatcherData dh.numBytes) 0 = 0 then pure false
    else if m.numHandles = 0 ∨ dh.numPlatformHandles ≠ 1 ∨ dh.numPorts ≠ 0 then pure false
    else do
      access m.numHandles p.platformHandleIndex 1
      pure (env.createSharedBuffer i)
  else pure false

def checkedPlatformHandle (m : PortsMessage P H) (p : Position) (dh : DispatcherHeader) :
    Checked Bool :=
  if dh.IsPlatformHandle then do
    access m.numHandles p.platformHandleIndex 1
    pure true
  else pure false

/-- `Dispatcher::Deserialize`. -/
def checkedDeserialize (env : Surroundings) (m : PortsMessage P H) (i : ℕ) (p : Position)
    (dh : DispatcherHeader) : Checked Bool :=
  if dh.type = DispatcherType.messagePipe.toNat then checkedMessagePipe env m i p dh
  else if dh.type = DispatcherType.sharedBuffer.toNat then checkedSharedBuffer env m i p dh
  else if dh.type = DispatcherType.dataPipeConsumer.toNat then checkedDataPipe env m i p dh
  else if dh.type = DispatcherType.dataPipeProducer.toNat then checkedDataPipe env m i p dh
  else if dh.type = DispatcherType.platformHandle.toNat then checkedPlatformHandle m p dh
  else pure false

/-- The loop over the headers of the dispatchers: whether all of them were made. -/
def checkedLoop (env : Surroundings) (m : PortsMessage P H) :
    ℕ → (i : ℕ) → Position → Checked Bool
  | 0, _, _ => pure true
  | n + 1, i, p => do
    access m.headerSize (sizeofMessageHeader + i * sizeofDispatcherHeader) sizeofDispatcherHeader
    access m.ports.length p.portIndex 0
    access m.numHandles p.platformHandleIndex 0
    let made ← checkedDeserialize env m i p (m.dispatcherHeader i)
    if made then checkedLoop env m n (i + 1) (p.next (m.dispatcherHeader i)) else pure false

/-- There is too little space for the next message in the buffers of the caller. -/
def NoSpace (m : PortsMessage P H) (numBytes numHandles : Option ℕ) : Prop :=
  let bytesAvailable := (m.payload.length + (2 ^ 32 - m.headerSize)) % 2 ^ 32
  (numBytes.map (min · bytesAvailable)).getD 0 < bytesAvailable ∨
    (numHandles.map (min · m.numDispatchers)).getD 0 < m.numDispatchers

instance (m : PortsMessage P H) (numBytes numHandles : Option ℕ) :
    Decidable (NoSpace m numBytes numHandles) := inferInstanceAs (Decidable (_ ∨ _))

/-- Where the states of the dispatchers start. -/
def PortsMessage.start (m : PortsMessage P H) : Position where
  dispatcherData := sizeofMessageHeader + m.numDispatchers * sizeofDispatcherHeader
  portIndex := 0
  platformHandleIndex := 0

/-- `ReadMessage` of the next message: the selector, the loop over the dispatchers, and
    the copy of the body. -/
def checkedReadMessage (env : Surroundings) (numBytes numHandles : Option ℕ)
    (m : PortsMessage P H) : Checked MojoResult := do
  access m.payload.length 0 sizeofMessageHeader
  subtract (m.payload.length % 2 ^ 32) m.headerSize
  if NoSpace m numBytes numHandles then pure .resourceExhausted
  else do
    let made ← checkedLoop env m m.numDispatchers 0 m.start
    if !made then pure .unknown
    else if m.numDispatchers > 0 ∧ !env.addDispatchers then pure .unknown
    else do
      subtract m.payload.length m.headerSize
      access m.payload.length m.headerSize (m.payload.length - m.headerSize)
      pure .ok

/-! ## Messages that can be decoded -/

namespace PortsMessage

/-- The position before a dispatcher, if the ones before it were made. -/
def position (m : PortsMessage P H) (i : ℕ) : Position where
  dispatcherData := m.start.dispatcherData + ∑ j ∈ Finset.range i, (m.dispatcherHeader j).numBytes
  portIndex := ∑ j ∈ Finset.range i, (m.dispatcherHeader j).numPorts
  platformHandleIndex := ∑ j ∈ Finset.range i, (m.dispatcherHeader j).numPlatformHandles

/-- The header of a dispatcher is the one of a message pipe, a data pipe, a shared
    buffer and a platform handle. -/
def IsMessagePipe (m : PortsMessage P H) (i : ℕ) : Prop :=
  (m.dispatcherHeader i).type = DispatcherType.messagePipe.toNat ∧
    (m.dispatcherHeader i).IsMessagePipe

def IsDataPipe (m : PortsMessage P H) (i : ℕ) : Prop :=
  ((m.dispatcherHeader i).type = DispatcherType.dataPipeConsumer.toNat ∨
    (m.dispatcherHeader i).type = DispatcherType.dataPipeProducer.toNat) ∧
  (m.dispatcherHeader i).IsDataPipe

def IsSharedBuffer (m : PortsMessage P H) (i : ℕ) : Prop :=
  (m.dispatcherHeader i).type = DispatcherType.sharedBuffer.toNat ∧
    (m.dispatcherHeader i).numBytes = sizeofSharedBuffer

def IsPlatformHandle (m : PortsMessage P H) (i : ℕ) : Prop :=
  (m.dispatcherHeader i).type = DispatcherType.platformHandle.toNat ∧
    (m.dispatcherHeader i).IsPlatformHandle

/-- The rest of the header and the state of a shared buffer are right, too. -/
def SharesBuffer (m : PortsMessage P H) (i : ℕ) : Prop :=
  m.IsSharedBuffer i ∧
    readUInt64 (m.payload.slice (m.position i).dispatcherData sizeofSharedBuffer) 0 ≠ 0 ∧
    m.numHandles ≠ 0 ∧ (m.dispatcherHeader i).numPlatformHandles = 1 ∧
    (m.dispatcherHeader i).numPorts = 0

/-- `Deserialize` of a dispatcher reads its port, reads its state, takes its platform
    handle. -/
def ReadsPort (m : PortsMessage P H) (i : ℕ) : Prop := m.IsMessagePipe i ∨ m.IsDataPipe i

def ReadsState (env : Surroundings) (m : PortsMessage P H) (i : ℕ) : Prop :=
  (m.ReadsPort i ∧ env.getPort i) ∨ m.IsSharedBuffer i

def TakesHandle (env : Surroundings) (m : PortsMessage P H) (i : ℕ) : Prop :=
  (m.IsDataPipe i ∧ env.getPort i) ∨ m.SharesBuffer i ∨ m.IsPlatformHandle i

/-- `Deserialize` makes the dispatcher. -/
def Made (env : Surroundings) (m : PortsMessage P H) (i : ℕ) : Prop :=
  (m.IsMessagePipe i ∧ env.getPort i) ∨
    ((m.IsDataPipe i ∧ env.getPort i ∨ m.SharesBuffer i) ∧ env.createSharedBuffer i) ∨
    m.IsPlatformHandle i

/-- What is accessed for a dispatcher is there: its header and its state lie before the
    body, its port and its platform handle are ones of the message. -/
structure Fits (env : Surroundings) (m : PortsMessage P H) (i : ℕ) : Prop where
  header : sizeofMessageHeader + (i + 1) * sizeofDispatcherHeader ≤ m.headerSize
  portIndex : (m.position i).portIndex ≤ m.ports.length
  platformHandleIndex : (m.position i).platformHandleIndex ≤ m.numHandles
  port : m.ReadsPort i → (m.position i).portIndex + 1 ≤ m.ports.length
  state : m.ReadsState env i →
    (m.position i).dispatcherData + (m.dispatcherHeader i).numBytes ≤ m.headerSize
  handle : m.TakesHandle env i → (m.position i).platformHandleIndex + 1 ≤ m.numHandles

/-- A message can be decoded: there is a header, the body is part of the payload, and if
    the caller has space for the message, everything is there for each dispatcher up to
    the first that is not made. -/
structure Decodable (env : Surroundings) (numBytes numHandles : Option ℕ)
    (m : PortsMessage P H) : Prop where
  header : sizeofMessageHeader ≤ m.payload.length
  headerSize : m.headerSize ≤ m.payload.length % 2 ^ 32
  fits : ¬NoSpace m numBytes numHandles →
    ∀ i < m.numDispatchers, (∀ j < i, m.Made env j) → m.Fits env i

theorem position_succ (m : PortsMessage P H) (i : ℕ) :
    m.position (i + 1) = (m.position i).next (m.dispatcherHeader i) := by
  simp only [position, Position.next, Finset.sum_range_succ, Nat.add_assoc]

end PortsMessage

/-! ## The accesses of `Deserialize` -/

theorem DispatcherType.toNat_inj {a b : DispatcherType} : a.toNat = b.toNat ↔ a = b := by
  cases a <;> cases b <;> simp [DispatcherType.toNat]

section Deserialize

variable (env : Surroundings) (m : PortsMessage P H) (i : ℕ) (p : Position) (dh : DispatcherHeader)

theorem checkedMessagePipe_spec :
    ((checkedMessagePipe env m i p dh).Sound ↔ (dh.IsMessagePipe →
      p.portIndex + 1 ≤ m.ports.length ∧
        (env.getPort i → p.dispatcherData + dh.numBytes ≤ m.headerSize))) ∧
    ((checkedMessagePipe env m i p dh).value = true ↔ dh.IsMessagePipe ∧ env.getPort i) := by
  rw [checkedMessagePipe]
  split_ifs with h hport
  · simp [h, hport]
  · simp [h, hport]
  · simp [h]

theorem checkedDataPipe_spec :
    ((checkedDataPipe env m i p dh).Sound ↔ (dh.IsDataPipe →
      p.portIndex + 1 ≤ m.ports.length ∧ (env.getPort i →
        p.platformHandleIndex + 1 ≤ m.numHandles ∧
          p.dispatcherData + dh.numBytes ≤ m.headerSize))) ∧
    ((checkedDataPipe env m i p dh).value = true ↔
      dh.IsDataPipe ∧ env.getPort i ∧ env.createSharedBuffer i) := by
  rw [checkedDataPipe]
  split_ifs with h hport
  · simp [h, hport]
  · simp [h, hport]
  · simp [h]

theorem checkedSharedBuffer_spec :
    ((checkedSharedBuffer env m i p dh).Sound ↔ (dh.numBytes = sizeofSharedBuffer →
      p.dispatcherData + dh.numBytes ≤ m.headerSize ∧
        (readUInt64 (m.payload.slice p.dispatcherData sizeofSharedBuffer) 0 ≠ 0 ∧
          m.numHandles ≠ 0 ∧ dh.numPlatformHandles = 1 ∧ dh.numPorts = 0 →
            p.platformHandleIndex + 1 ≤ m.numHandles))) ∧
    ((checkedSharedBuffer env m i p dh).value = true ↔ dh.numBytes = sizeofSharedBuffer ∧
      (readUInt64 (m.payload.slice p.dispatcherData sizeofSharedBuffer) 0 ≠ 0 ∧
        m.numHandles ≠ 0 ∧ dh.numPlatformHandles = 1 ∧ dh.numPorts = 0) ∧
      env.createSharedBuffer i) := by
  rw [checkedSharedBuffer]
  split_ifs with h hstate hcounts
  · rw [h] at hstate
    simp [h, hstate]
  · have hnot : ¬(m.numHandles ≠ 0 ∧ dh.numPlatformHandles = 1 ∧ dh.numPorts = 0) := by tauto
    simp [h, hnot]
  · have hcounts : m.numHandles ≠ 0 ∧ dh.numPlatformHandles = 1 ∧ dh.numPorts = 0 := by tauto
    rw [h] at hstate
    simp [h, hstate, hcounts]
  · simp [h]

theorem checkedPlatformHandle_spec :
    ((checkedPlatformHandle m p dh).Sound ↔
      (dh.IsPlatformHandle → p.platformHandleIndex + 1 ≤ m.numHandles)) ∧
    ((checkedPlatformHandle m p dh).value = true ↔ dh.IsPlatformHandle) := by
  rw [checkedPlatformHandle]
  split_ifs with h
  · simp [h]
  · simp [h]

/-- The accesses of `Deserialize`, and its result. -/
theorem checkedDeserialize_spec :
    ((checkedDeserialize env m i (m.position i) (m.dispatcherHeader i)).Sound ↔
      (m.ReadsPort i → (m.position i).portIndex + 1 ≤ m.ports.length) ∧
      (m.ReadsState env i →
        (m.position i).dispatcherData + (m.dispatcherHeader i).numBytes ≤ m.headerSize) ∧
      (m.TakesHandle env i → (m.position i).platformHandleIndex + 1 ≤ m.numHandles)) ∧
    ((checkedDeserialize env m i (m.position i) (m.dispatcherHeader i)).value = true ↔
      m.Made env i) := by
  simp only [PortsMessage.ReadsPort, PortsMessage.ReadsState, PortsMessage.TakesHandle,
    PortsMessage.Made, PortsMessage.SharesBuffer, PortsMessage.IsMessagePipe,
    PortsMessage.IsDataPipe, PortsMessage.IsSharedBuffer, PortsMessage.IsPlatformHandle]
  rw [checkedDeserialize]
  split_ifs with h1 h2 h3 h4 h5
  · obtain ⟨hsound, hvalue⟩ := checkedMessagePipe_spec env m i (m.position i) (m.dispatcherHeader i)
    simp [hsound, hvalue, h1, DispatcherType.toNat_inj, imp_and]
  · obtain ⟨hsound, hvalue⟩ :=
      checkedSharedBuffer_spec env m i (m.position i) (m.dispatcherHeader i)
    simp [hsound, hvalue, h2, DispatcherType.toNat_inj, imp_and, and_assoc]
  · obtain ⟨hsound, hvalue⟩ := checkedDataPipe_spec env m i (m.position i) (m.dispatcherHeader i)
    simp [hsound, hvalue, h3, DispatcherType.toNat_inj, imp_and, and_assoc, and_comm]
  · obtain ⟨hsound, hvalue⟩ := checkedDataPipe_spec env m i (m.position i) (m.dispatcherHeader i)
    simp [hsound, hvalue, h4, DispatcherType.toNat_inj, imp_and, and_assoc, and_comm]
  · obtain ⟨hsound, hvalue⟩ := checkedPlatformHandle_spec m (m.position i) (m.dispatcherHeader i)
    simp [hsound, hvalue, h5, DispatcherType.toNat_inj]
  · simp [h1, h2, h3, h4, h5]

end Deserialize

/-! ## Reading and its checked version -/

/-- Everything outside of the message succeeds. -/
def Surroundings.good : Surroundings := ⟨fun _ => true, fun _ => true, true⟩

section Deserialize

variable {bytes : List UInt8} {ports : List P} {handles : List (Option H)}

theorem isSome_deserializeMessagePipe :
    (Dispatcher.deserializeMessagePipe bytes ports handles).isSome ↔
      ports.length = 1 ∧ handles.length = 0 ∧ bytes.length = sizeofMessagePipe := by
  rcases ports with _ | ⟨port, _ | ⟨_, _⟩⟩ <;> rcases handles with _ | ⟨_, _⟩ <;>
    simp [Dispatcher.deserializeMessagePipe]

theorem isSome_deserializeDataPipe :
    (Dispatcher.deserializeDataPipe bytes ports handles).isSome ↔
      ports.length = 1 ∧ handles.length = 1 ∧ bytes.length = sizeofDataPipe := by
  rcases ports with _ | ⟨port, _ | ⟨_, _⟩⟩ <;> rcases handles with _ | ⟨_, _ | ⟨_, _⟩⟩ <;>
    simp [Dispatcher.deserializeDataPipe]

theorem isSome_deserializeSharedBuffer :
    (Dispatcher.deserializeSharedBuffer bytes ports handles).isSome ↔
      bytes.length = sizeofSharedBuffer ∧ readUInt64 bytes 0 ≠ 0 ∧ handles.length = 1 ∧
        ports.length = 0 := by
  rcases ports with _ | ⟨port, _⟩ <;> rcases handles with _ | ⟨_, _ | ⟨_, _⟩⟩ <;>
    simp only [Dispatcher.deserializeSharedBuffer]
  case nil.cons.nil => split_ifs <;> simp [*]
  all_goals simp

theorem isSome_deserializePlatformHandle :
    (Dispatcher.deserializePlatformHandle bytes ports handles).isSome ↔
      bytes.length = 0 ∧ ports.length = 0 ∧ handles.length = 1 := by
  rcases bytes with _ | ⟨_, _⟩ <;> rcases ports with _ | ⟨port, _⟩ <;>
    rcases handles with _ | ⟨_, _ | ⟨_, _⟩⟩ <;> simp [Dispatcher.deserializePlatformHandle]

/-- A dispatcher is made of the state, the ports and the handles that its header names
    if and only if `Deserialize` makes one. -/
theorem isSome_deserialize {i : ℕ} {p : Position} {dh : DispatcherHeader}
    (hbytes : m.payload.slice p.dispatcherData dh.numBytes = bytes)
    (hlen : bytes.length = dh.numBytes) (hports : ports.length = dh.numPorts)
    (hhandles : handles.length = dh.numPlatformHandles)
    (hle : dh.numPlatformHandles ≤ m.numHandles) :
    (Dispatcher.deserialize dh.type bytes ports handles).isSome ↔
      (checkedDeserialize .good m i p dh).value = true := by
  -- The count that the source tests is the one of the message, not of the dispatcher.
  have hzero : dh.numPlatformHandles = 1 → m.numHandles ≠ 0 := by omega
  rw [Dispatcher.deserialize, checkedDeserialize]
  split_ifs
  · rw [isSome_deserializeMessagePipe, (checkedMessagePipe_spec ..).2, hports, hhandles, hlen]
    simp [DispatcherHeader.IsMessagePipe, Surroundings.good]
  · rw [isSome_deserializeSharedBuffer, (checkedSharedBuffer_spec ..).2, hports, hhandles, hlen]
    constructor
    · rintro ⟨hsize, hstate, hone, hnone⟩
      rw [← hbytes, hsize] at hstate
      exact ⟨hsize, ⟨hstate, hzero hone, hone, hnone⟩, rfl⟩
    · rintro ⟨hsize, ⟨hstate, -, hone, hnone⟩, -⟩
      rw [← hbytes, hsize]
      exact ⟨rfl, hstate, hone, hnone⟩
  · rw [Option.isSome_map, isSome_deserializeDataPipe, (checkedDataPipe_spec ..).2, hports,
      hhandles, hlen]
    simp [DispatcherHeader.IsDataPipe, Surroundings.good]
  · rw [Option.isSome_map, isSome_deserializeDataPipe, (checkedDataPipe_spec ..).2, hports,
      hhandles, hlen]
    simp [DispatcherHeader.IsDataPipe, Surroundings.good]
  · rw [isSome_deserializePlatformHandle, (checkedPlatformHandle_spec ..).2, hports, hhandles,
      hlen]
    rfl
  · simp

end Deserialize

/-- A turn of the loop of `ReadMessage`. -/
theorem deserializeLoop_succ (m : PortsMessage P H) (n i : ℕ) (p : Position) :
    deserializeLoop m (n + 1) i p.dispatcherData p.portIndex p.platformHandleIndex =
      if p.dispatcherData + (m.dispatcherHeader i).numBytes ≤ m.payload.length ∧
          p.portIndex + (m.dispatcherHeader i).numPorts ≤ m.ports.length ∧
          p.platformHandleIndex + (m.dispatcherHeader i).numPlatformHandles ≤ m.numHandles then
        match Dispatcher.deserialize (m.dispatcherHeader i).type
          (m.payload.slice p.dispatcherData (m.dispatcherHeader i).numBytes)
          (m.ports.slice p.portIndex (m.dispatcherHeader i).numPorts)
          (m.handles.slice p.platformHandleIndex (m.dispatcherHeader i).numPlatformHandles) with
        | none => some none
        | some d =>
          let next := p.next (m.dispatcherHeader i)
          (deserializeLoop m n (i + 1) next.dispatcherData next.portIndex
            next.platformHandleIndex).map (·.map (d :: ·))
      else none := rfl

theorem deserializeLoop_eq_checkedLoop (hm : m.handles.length = m.numHandles) (n : ℕ) {i : ℕ}
    {p : Position} {r : Option (List (Dispatcher P H))}
    (h : deserializeLoop m n i p.dispatcherData p.portIndex p.platformHandleIndex = some r) :
    (checkedLoop .good m n i p).value = r.isSome := by
  induction n generalizing i p r with
  | zero =>
    cases h
    rfl
  | succ n ih =>
    rw [deserializeLoop_succ] at h
    split_ifs at h with hle
    obtain ⟨hbytes, hports, hhandles⟩ := hle
    have hmade := isSome_deserialize (i := i) rfl (List.length_slice hbytes)
      (List.length_slice hports) (List.length_slice (hhandles.trans_eq hm.symm))
      ((Nat.le_add_left ..).trans hhandles)
    simp only [checkedLoop, value_bind]
    -- The loop ends at the first dispatcher that cannot be made.
    split at h
    next hnone =>
      cases h
      rw [hnone] at hmade
      rw [if_neg fun hvalue => absurd (hmade.2 hvalue) (by simp)]
      rfl
    next d hd =>
      rw [hd] at hmade
      obtain ⟨r', hr', rfl⟩ := Option.map_eq_some_iff.1 h
      rw [if_pos (hmade.1 rfl), ih hr', Option.isSome_map]

/-- Where the assertions of `ReadMessage` hold, the checked version has its result. -/
theorem readMessage_eq_checkedReadMessage (hm : m.handles.length = m.numHandles)
    {numBytes numHandles : Option ℕ} {result : MojoResult} {body : List UInt8}
    {ds : List (Dispatcher P H)}
    (h : readMessage numBytes numHandles m = some (result, body, ds)) :
    (checkedReadMessage .good numBytes numHandles m).value = result := by
  change (if sizeofMessageHeader ≤ m.payload.length ∧ m.headerSize ≤ m.payload.length then
    if NoSpace m numBytes numHandles then some (MojoResult.resourceExhausted, [], [])
    else (deserializeLoop m m.numDispatchers 0 m.start.dispatcherData m.start.portIndex
      m.start.platformHandleIndex).map _
    else none) = _ at h
  simp only [checkedReadMessage, value_bind]
  split_ifs at h with hheader hspace
  · cases h
    rw [if_pos hspace]
    rfl
  · obtain ⟨r, hr, hresult⟩ := Option.map_eq_some_iff.1 h
    rw [if_neg hspace, value_bind, deserializeLoop_eq_checkedLoop hm _ (p := m.start) hr]
    cases r with
    | none =>
      cases hresult
      rfl
    | some ds' =>
      cases hresult
      simp [Surroundings.good]

/-! ## Results -/

/-- A turn of the loop accesses what `Fits` says. -/
theorem sound_checkedLoop_succ (env : Surroundings) (m : PortsMessage P H) (n i : ℕ) :
    (checkedLoop env m (n + 1) i (m.position i)).Sound ↔ m.Fits env i ∧
      (m.Made env i → (checkedLoop env m n (i + 1) (m.position (i + 1))).Sound) := by
  obtain ⟨hsound, hvalue⟩ := checkedDeserialize_spec env m i
  -- What comes after is only read if the dispatcher was made.
  have hrest : (if (checkedDeserialize env m i (m.position i) (m.dispatcherHeader i)).value
        then checkedLoop env m n (i + 1) ((m.position i).next (m.dispatcherHeader i))
        else pure false : Checked Bool).Sound ↔
      (m.Made env i → (checkedLoop env m n (i + 1) (m.position (i + 1))).Sound) := by
    rw [m.position_succ]
    split_ifs with hmade
    · exact ⟨fun h _ => h, fun h => h (hvalue.1 hmade)⟩
    · exact ⟨fun _ h => absurd (hvalue.2 h) hmade, fun _ => sound_pure _⟩
  have hheader : sizeofMessageHeader + (i + 1) * sizeofDispatcherHeader =
      sizeofMessageHeader + i * sizeofDispatcherHeader + sizeofDispatcherHeader := by ring
  rw [checkedLoop]
  simp only [sound_bind, sound_access, hsound, hrest]
  constructor
  · rintro ⟨h1, h2, h3, ⟨h4, h5, h6⟩, h⟩
    exact ⟨⟨hheader.trans_le h1, h2, h3, h4, h5, h6⟩, h⟩
  · rintro ⟨hfits, h⟩
    exact ⟨hheader.symm.trans_le hfits.header, hfits.portIndex, hfits.platformHandleIndex,
      ⟨hfits.port, hfits.state, hfits.handle⟩, h⟩

/-- The loop from a dispatcher on stays in the message if and only if it does so for each
    dispatcher up to the first that is not made. -/
theorem sound_checkedLoop (env : Surroundings) (m : PortsMessage P H) (n i : ℕ) :
    (checkedLoop env m n i (m.position i)).Sound ↔
      ∀ k, i ≤ k → k < i + n → (∀ j, i ≤ j → j < k → m.Made env j) → m.Fits env k := by
  induction n generalizing i with
  | zero => exact ⟨fun _ k hik hk => absurd hk (by omega), fun _ => sound_pure _⟩
  | succ n ih =>
    rw [sound_checkedLoop_succ, ih]
    constructor
    · rintro ⟨hfits, h⟩ k hik hk hmade
      obtain rfl | hlt := hik.eq_or_lt
      · exact hfits
      · exact h (hmade i le_rfl hlt) k hlt (by omega) fun j hj => hmade j (by omega)
    · refine fun h => ⟨h i le_rfl (by omega) fun j hij hji => absurd hji (by omega), ?_⟩
      intro hmade k hik hk hmade'
      refine h k (by omega) (by omega) fun j hij hjk => ?_
      obtain rfl | hlt := hij.eq_or_lt
      · exact hmade
      · exact hmade' j hlt hjk

/-- `ReadMessage` stays in a message and does not wrap around, up to the point where it
    reports an error, if and only if the message can be decoded. -/
theorem sound_checkedReadMessage_iff (env : Surroundings) (numBytes numHandles : Option ℕ)
    (m : PortsMessage P H) :
    (checkedReadMessage env numBytes numHandles m).Sound ↔
      m.Decodable env numBytes numHandles := by
  have hloop := sound_checkedLoop env m m.numDispatchers 0
  simp only [Nat.zero_le, Nat.zero_add, true_implies] at hloop
  rw [checkedReadMessage]
  simp only [sound_bind, sound_access, sound_subtract, Nat.zero_add]
  constructor
  · rintro ⟨hheader, hsize, hrest⟩
    refine ⟨hheader, hsize, fun hspace => hloop.1 ?_⟩
    rw [if_neg hspace, sound_bind] at hrest
    exact hrest.1
  · rintro ⟨hheader, hsize, hfits⟩
    refine ⟨hheader, hsize, ?_⟩
    have hle : m.headerSize ≤ m.payload.length := hsize.trans (Nat.mod_le ..)
    by_cases hspace : NoSpace m numBytes numHandles
    · rw [if_pos hspace]
      exact sound_pure _
    · rw [if_neg hspace, sound_bind]
      refine ⟨hloop.2 (hfits hspace), ?_⟩
      -- After the loop, only the body is read: it starts at the size of the header.
      split_ifs
      · exact sound_pure _
      · exact sound_pure _
      · simp only [sound_bind, sound_access, sound_subtract, sound_pure, and_true]
        exact ⟨hle, by omega⟩

/-- An empty payload is accepted from a channel, and its header is read. -/
theorem not_sound_checkedReadMessage :
    ¬(checkedReadMessage ⟨fun _ => true, fun _ => true, true⟩ (some 100) (some 100)
      (⟨[], [], 0, []⟩ : PortsMessage Unit Unit)).Sound ∧
    ¬(checkedReadMessage ⟨fun _ => true, fun _ => true, true⟩ (some 100) (some 100)
      (⟨messageHeader 1 8 ++ dispatcherHeader 1 ⟨16, 1, 0⟩, [], 0, []⟩ :
        PortsMessage Unit Unit)).Sound := by
  decide

end MojoEdk.Core
