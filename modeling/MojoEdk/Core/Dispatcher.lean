import MojoEdk.Library.Bytes

/-!
# Dispatchers

What a handle stands for (`dispatcher.h` and its subclasses), as far as it is sent in
messages. A dispatcher in transit was attached to a message that is being written. It
is written in two steps: `StartSerialize` tells the size of its state and the numbers
of its ports and platform handles, and `EndSerialize` stores them. Then it is closed
(`CompleteTransitAndClose`), or stays as it was (`CancelTransit`). The one who reads
the message makes a dispatcher of what was stored (`Deserialize`).

A platform handle is `none` if it is not valid. A call that fails an assertion, or
follows a null pointer, returns nothing. To duplicate the handle of a shared buffer
may fail: what that returns is an argument of `EndSerialize`.
-/

namespace MojoEdk.Core

/-- `MojoResult`, as far as it is used here. -/
inductive MojoResult
  | ok
  | invalidArgument
  | busy
  | resourceExhausted
  | failedPrecondition
  | outOfRange
  | shouldWait
  | unknown
  | unimplemented
  | alreadyExists
  | cancelled
  | deadlineExceeded
  deriving DecidableEq

/-- `MojoCreateDataPipeOptions`. -/
structure DataPipeOptions where
  structSize : UInt32
  flags : UInt32
  elementNumBytes : UInt32
  capacityNumBytes : UInt32
  deriving DecidableEq

/-- `PlatformSharedBuffer`, which has a size other than zero. -/
structure PlatformSharedBuffer (H : Type*) where
  handle : Option H
  numBytes : UInt64
  deriving DecidableEq

/-- `MessagePipeDispatcher`. -/
structure MessagePipe (P : Type*) where
  port : P
  pipeId : UInt64
  endpoint : UInt8
  inTransit : Bool := false
  portTransferred : Bool := false
  portClosed : Bool := false
  deriving DecidableEq

/-- `DataPipeProducerDispatcher` and `DataPipeConsumerDispatcher`. The offset is where
    to write or to read (`write_offset_`, `read_offset_`), and the amount what can be
    written or read (`available_capacity_`, `bytes_available_`). -/
structure DataPipe (P H : Type*) where
  controlPort : P
  options : DataPipeOptions
  pipeId : UInt64
  sharedRingBuffer : Option (PlatformSharedBuffer H)
  peerClosed : Bool := false
  offset : UInt32 := 0
  amount : UInt32 := 0
  inTwoPhase : Bool := false
  /-- Of a consumer. -/
  twoPhaseMaxBytesRead : UInt32 := 0
  inTransit : Bool := false
  transferred : Bool := false
  isClosed : Bool := false
  bufferHandleForTransit : Option H := none
  deriving DecidableEq

/-- `SharedBufferDispatcher`. -/
structure SharedBuffer (H : Type*) where
  sharedBuffer : Option (PlatformSharedBuffer H)
  inTransit : Bool := false
  handleForTransit : Option H := none
  deriving DecidableEq

/-- `PlatformHandleDispatcher`. -/
structure PlatformHandle (H : Type*) where
  platformHandle : Option H
  isClosed : Bool := false
  inTransit : Bool := false
  deriving DecidableEq

/-- `Dispatcher`. -/
inductive Dispatcher (P H : Type*)
  | messagePipe (d : MessagePipe P)
  | dataPipeProducer (d : DataPipe P H)
  | dataPipeConsumer (d : DataPipe P H)
  | sharedBuffer (d : SharedBuffer H)
  | platformHandle (d : PlatformHandle H)
  | waitSet (isClosed : Bool)
  deriving DecidableEq

/-- `Dispatcher::Type`. -/
inductive DispatcherType
  | messagePipe
  | dataPipeProducer
  | dataPipeConsumer
  | sharedBuffer
  | waitSet
  | platformHandle
  deriving DecidableEq

/-- The value of a type in a `DispatcherHeader`, as 32 bits. -/
def DispatcherType.toNat : DispatcherType → ℕ
  | .messagePipe => 1
  | .dataPipeProducer => 2
  | .dataPipeConsumer => 3
  | .sharedBuffer => 4
  | .waitSet => 5
  | .platformHandle => 2 ^ 32 - 1

/-! ## Layouts -/

def sizeofMessagePipe : ℕ := 16

def sizeofDataPipe : ℕ := 40

def sizeofSharedBuffer : ℕ := 8

/-- `MojoCreateDataPipeOptions` in memory. -/
def DataPipeOptions.toBytes (o : DataPipeOptions) : List UInt8 :=
  leBytes 4 o.structSize.toNat ++ leBytes 4 o.flags.toNat ++ leBytes 4 o.elementNumBytes.toNat ++
    leBytes 4 o.capacityNumBytes.toNat

/-- A field of 32 bits. -/
def readUInt32 (bytes : List UInt8) (offset : ℕ) : UInt32 :=
  UInt32.ofNat (ofLeBytes (bytes.slice offset 4))

/-- A field of 64 bits. -/
def readUInt64 (bytes : List UInt8) (offset : ℕ) : UInt64 :=
  UInt64.ofNat (ofLeBytes (bytes.slice offset 8))

/-- A field of 8 bits. -/
def readUInt8 (bytes : List UInt8) (offset : ℕ) : UInt8 :=
  UInt8.ofNat (ofLeBytes (bytes.slice offset 1))

def readOptions (bytes : List UInt8) : DataPipeOptions where
  structSize := readUInt32 bytes 0
  flags := readUInt32 bytes 4
  elementNumBytes := readUInt32 bytes 8
  capacityNumBytes := readUInt32 bytes 12

namespace Dispatcher

variable {P H : Type*}

/-- `GetType`. -/
def type : Dispatcher P H → DispatcherType
  | .messagePipe _ => .messagePipe
  | .dataPipeProducer _ => .dataPipeProducer
  | .dataPipeConsumer _ => .dataPipeConsumer
  | .sharedBuffer _ => .sharedBuffer
  | .platformHandle _ => .platformHandle
  | .waitSet _ => .waitSet

/-! ## Transit -/

/-- `BeginTransit`, and whether it succeeds. -/
def beginTransit : Dispatcher P H → Bool × Dispatcher P H
  | .messagePipe d =>
    if d.inTransit then (false, .messagePipe d)
    else (true, .messagePipe { d with inTransit := true })
  | .dataPipeProducer d =>
    if d.inTransit then (false, .dataPipeProducer d)
    -- The memory of a two-phase write is in use, so that the pipe stays here.
    else (!d.inTwoPhase, .dataPipeProducer { d with inTransit := !d.inTwoPhase })
  | .dataPipeConsumer d =>
    if d.inTransit then (false, .dataPipeConsumer d)
    else (!d.inTwoPhase, .dataPipeConsumer { d with inTransit := !d.inTwoPhase })
  | .sharedBuffer d =>
    if d.inTransit then (false, .sharedBuffer d)
    else (d.sharedBuffer.isSome, .sharedBuffer { d with inTransit := d.sharedBuffer.isSome })
  | .platformHandle d =>
    if d.inTransit then (false, .platformHandle d)
    else (!d.isClosed, .platformHandle { d with inTransit := !d.isClosed })
  | .waitSet isClosed => (false, .waitSet isClosed)

/-- `Close`. The port of a pipe is closed with it unless it was transferred. -/
def close : Dispatcher P H → MojoResult × Dispatcher P H
  | .messagePipe d =>
    if d.portClosed || d.inTransit then (.invalidArgument, .messagePipe d)
    else (.ok, .messagePipe { d with portClosed := true })
  | .dataPipeProducer d =>
    if d.isClosed || d.inTransit then (.invalidArgument, .dataPipeProducer d)
    else (.ok, .dataPipeProducer { d with isClosed := true, sharedRingBuffer := none })
  | .dataPipeConsumer d =>
    if d.isClosed || d.inTransit then (.invalidArgument, .dataPipeConsumer d)
    else (.ok, .dataPipeConsumer { d with isClosed := true, sharedRingBuffer := none })
  | .sharedBuffer d =>
    if d.sharedBuffer.isNone || d.inTransit then (.invalidArgument, .sharedBuffer d)
    else (.ok, .sharedBuffer { d with sharedBuffer := none })
  | .platformHandle d =>
    if d.isClosed || d.inTransit then (.invalidArgument, .platformHandle d)
    else (.ok, .platformHandle { d with isClosed := true, platformHandle := none })
  | .waitSet isClosed =>
    if isClosed then (.invalidArgument, .waitSet isClosed) else (.ok, .waitSet true)

/-- `CompleteTransitAndClose`. -/
def completeTransitAndClose : Dispatcher P H → Option (Dispatcher P H)
  | .messagePipe d =>
    -- The port belongs to the message now, and is not closed with the dispatcher.
    some (close (.messagePipe { d with inTransit := false, portTransferred := true })).2
  | .dataPipeProducer d =>
    if d.inTransit then
      some (close (.dataPipeProducer
        { d with inTransit := false, transferred := true, bufferHandleForTransit := none })).2
    else none
  | .dataPipeConsumer d =>
    if d.inTransit then
      some (close (.dataPipeConsumer
        { d with inTransit := false, transferred := true, bufferHandleForTransit := none })).2
    else none
  | .sharedBuffer d =>
    some (.sharedBuffer
      { d with inTransit := false, sharedBuffer := none, handleForTransit := none })
  | .platformHandle d =>
    some (.platformHandle { d with inTransit := false, isClosed := true, platformHandle := none })
  | .waitSet isClosed => some (.waitSet isClosed)

/-- `CancelTransit`. A message pipe and a consumer also read the status of their port, which
    takes its lock. The messages that a consumer finds there are read as at any other time,
    and not followed here. -/
def cancelTransit : Dispatcher P H → Option (Dispatcher P H)
  -- What is read of the port does not change the dispatcher.
  | .messagePipe d => some (.messagePipe { d with inTransit := false })
  | .dataPipeProducer d =>
    if d.inTransit then
      some (.dataPipeProducer { d with inTransit := false, bufferHandleForTransit := none })
    else none
  | .dataPipeConsumer d =>
    if d.inTransit then
      some (.dataPipeConsumer { d with inTransit := false, bufferHandleForTransit := none })
    else none
  | .sharedBuffer d => some (.sharedBuffer { d with inTransit := false, handleForTransit := none })
  | .platformHandle d => some (.platformHandle { d with inTransit := false })
  | .waitSet isClosed => some (.waitSet isClosed)

/-! ## Serialization -/

/-- `DispatcherInfo`. -/
structure Info where
  numBytes : ℕ
  numPorts : ℕ
  numHandles : ℕ

/-- `StartSerialize`. -/
def startSerialize : Dispatcher P H → Option Info
  | .messagePipe _ => some ⟨sizeofMessagePipe, 1, 0⟩
  | .dataPipeProducer d | .dataPipeConsumer d =>
    if d.inTransit then some ⟨sizeofDataPipe, 1, 1⟩ else none
  | .sharedBuffer _ => some ⟨sizeofSharedBuffer, 0, 1⟩
  | .platformHandle _ => some ⟨0, 0, 1⟩
  | .waitSet _ => some ⟨0, 0, 0⟩

/-- What `EndSerialize` stores, and what it returns. -/
structure Serialized (P H : Type*) where
  ok : Bool
  destination : List UInt8
  ports : List P
  handles : List (Option H)
  dispatcher : Dispatcher P H

/-- What `EndSerialize` of a data pipe stores in memory. -/
def storeDataPipe (d : DataPipe P H) (destination : List UInt8) : List UInt8 :=
  ((((destination.splice 0 d.options.toBytes).splice 16 (leBytes 8 d.pipeId.toNat)).splice 24
    (leBytes 1 d.peerClosed.toNat)).splice 28 (leBytes 4 d.offset.toNat)).splice 32
    (leBytes 4 d.amount.toNat)

/-- `EndSerialize`, where `dup` is what `DuplicatePlatformHandle` returns. -/
def endSerialize (dup : Option H) (destination : List UInt8) :
    Dispatcher P H → Option (Serialized P H)
  | .messagePipe d => some {
      ok := true
      destination := (destination.splice 0 (leBytes 8 d.pipeId.toNat)).splice 8
        (leBytes 1 d.endpoint.toNat)
      ports := [d.port]
      handles := []
      dispatcher := .messagePipe d }
  | .dataPipeProducer d =>
    if d.inTransit && d.sharedRingBuffer.isSome then some {
      ok := true
      destination := storeDataPipe d destination
      ports := [d.controlPort]
      handles := [dup]
      dispatcher := .dataPipeProducer { d with bufferHandleForTransit := dup } }
    else none
  | .dataPipeConsumer d =>
    if d.inTransit && d.sharedRingBuffer.isSome then some {
      ok := true
      destination := storeDataPipe d destination
      ports := [d.controlPort]
      handles := [dup]
      dispatcher := .dataPipeConsumer { d with bufferHandleForTransit := dup } }
    else none
  | .sharedBuffer d => d.sharedBuffer.map fun buffer => {
      ok := dup.isSome
      destination := destination.splice 0 (leBytes 8 buffer.numBytes.toNat)
      ports := []
      handles := [dup]
      dispatcher :=
        -- A buffer whose handle cannot be duplicated is given up.
        if dup.isSome then .sharedBuffer { d with handleForTransit := dup }
        else .sharedBuffer { d with sharedBuffer := none, handleForTransit := none } }
  | .platformHandle d => some {
      ok := !d.isClosed
      destination := destination
      ports := []
      handles := [if d.isClosed then none else d.platformHandle]
      dispatcher := .platformHandle d }
  | .waitSet isClosed => some {
      ok := true
      destination := destination
      ports := []
      handles := []
      dispatcher := .waitSet isClosed }

/-- What `Deserialize` makes of the state of a data pipe. The mapping of the buffer
    is assumed to succeed. -/
def readDataPipe (bytes : List UInt8) (port : P) (handle : Option H) : DataPipe P H where
  controlPort := port
  options := readOptions bytes
  pipeId := readUInt64 bytes 16
  sharedRingBuffer := some ⟨handle, (readOptions bytes).capacityNumBytes.toUInt64⟩
  peerClosed := readUInt8 bytes 24 != 0
  offset := readUInt32 bytes 28
  amount := readUInt32 bytes 32

/-- `MessagePipeDispatcher::Deserialize`, where `GetPort` succeeds. -/
def deserializeMessagePipe (bytes : List UInt8) :
    List P → List (Option H) → Option (Dispatcher P H)
  | [port], [] =>
    if bytes.length = sizeofMessagePipe then
      some (.messagePipe
        { port := port, pipeId := readUInt64 bytes 0, endpoint := readUInt8 bytes 8 })
    else none
  | _, _ => none

/-- `Deserialize` of a data pipe, where `GetPort` and `CreateSharedBufferFromHandle`
    succeed. -/
def deserializeDataPipe (bytes : List UInt8) :
    List P → List (Option H) → Option (DataPipe P H)
  | [port], [handle] =>
    if bytes.length = sizeofDataPipe then some (readDataPipe bytes port handle) else none
  | _, _ => none

/-- `SharedBufferDispatcher::Deserialize`, where `CreateSharedBufferFromHandle`
    succeeds. -/
def deserializeSharedBuffer (bytes : List UInt8) :
    List P → List (Option H) → Option (Dispatcher P H)
  | [], [handle] =>
    if bytes.length = sizeofSharedBuffer then
      if readUInt64 bytes 0 = 0 then none
      else some (.sharedBuffer { sharedBuffer := some ⟨handle, readUInt64 bytes 0⟩ })
    else none
  | _, _ => none

/-- `PlatformHandleDispatcher::Deserialize`. -/
def deserializePlatformHandle :
    List UInt8 → List P → List (Option H) → Option (Dispatcher P H)
  | [], [], [handle] => some (.platformHandle { platformHandle := handle })
  | _, _, _ => none

/-- `Deserialize`. -/
def deserialize (type : ℕ) (bytes : List UInt8) (ports : List P) (handles : List (Option H)) :
    Option (Dispatcher P H) :=
  if type = DispatcherType.messagePipe.toNat then deserializeMessagePipe bytes ports handles
  else if type = DispatcherType.sharedBuffer.toNat then
    deserializeSharedBuffer bytes ports handles
  else if type = DispatcherType.dataPipeConsumer.toNat then
    (deserializeDataPipe bytes ports handles).map .dataPipeConsumer
  else if type = DispatcherType.dataPipeProducer.toNat then
    (deserializeDataPipe bytes ports handles).map .dataPipeProducer
  else if type = DispatcherType.platformHandle.toNat then
    deserializePlatformHandle bytes ports handles
  else none

/-! ## Round trips -/

/-- The type of a dispatcher and the state that is serialized. -/
inductive State
  | messagePipe (pipeId : UInt64) (endpoint : UInt8)
  | dataPipeProducer (options : DataPipeOptions) (pipeId : UInt64) (peerClosed : Bool)
      (offset amount : UInt32)
  | dataPipeConsumer (options : DataPipeOptions) (pipeId : UInt64) (peerClosed : Bool)
      (offset amount : UInt32)
  | sharedBuffer (numBytes : Option UInt64)
  | platformHandle
  | waitSet
  deriving DecidableEq

def state : Dispatcher P H → State
  | .messagePipe d => .messagePipe d.pipeId d.endpoint
  | .dataPipeProducer d => .dataPipeProducer d.options d.pipeId d.peerClosed d.offset d.amount
  | .dataPipeConsumer d => .dataPipeConsumer d.options d.pipeId d.peerClosed d.offset d.amount
  | .sharedBuffer d => .sharedBuffer (d.sharedBuffer.map (·.numBytes))
  | .platformHandle _ => .platformHandle
  | .waitSet _ => .waitSet

/-- The ports of a dispatcher. -/
def ports : Dispatcher P H → List P
  | .messagePipe d => [d.port]
  | .dataPipeProducer d | .dataPipeConsumer d => [d.controlPort]
  | .sharedBuffer _ | .platformHandle _ | .waitSet _ => []

/-- The platform handles that a dispatcher holds. -/
def handles : Dispatcher P H → List (Option H)
  | .messagePipe _ | .waitSet _ => []
  | .dataPipeProducer d | .dataPipeConsumer d => [d.sharedRingBuffer.bind (·.handle)]
  | .sharedBuffer d => [d.sharedBuffer.bind (·.handle)]
  | .platformHandle d => [d.platformHandle]

/-- The platform handles that `EndSerialize` stores. -/
def sentHandles (dup : Option H) : Dispatcher P H → List (Option H)
  | .messagePipe _ | .waitSet _ => []
  | .dataPipeProducer _ | .dataPipeConsumer _ | .sharedBuffer _ => [dup]
  | .platformHandle d => [d.platformHandle]

/-- What `StartSerialize` tells. -/
def info : Dispatcher P H → Info
  | .messagePipe _ => ⟨sizeofMessagePipe, 1, 0⟩
  | .dataPipeProducer _ | .dataPipeConsumer _ => ⟨sizeofDataPipe, 1, 1⟩
  | .sharedBuffer _ => ⟨sizeofSharedBuffer, 0, 1⟩
  | .platformHandle _ => ⟨0, 0, 1⟩
  | .waitSet _ => ⟨0, 0, 0⟩

/-- A dispatcher that can be sent: it is of a type that can, in transit, and has what
    it sends. A shared buffer has a size, and its handle can be duplicated. -/
def Transferable (dup : Option H) : Dispatcher P H → Prop
  | .messagePipe _ => True
  | .dataPipeProducer d | .dataPipeConsumer d =>
    d.inTransit = true ∧ d.sharedRingBuffer.isSome = true
  | .sharedBuffer d => (∃ buffer, d.sharedBuffer = some buffer ∧ buffer.numBytes ≠ 0) ∧
    dup.isSome = true
  | .platformHandle d => d.isClosed = false
  | .waitSet _ => False

variable {dup : Option H} {d : Dispatcher P H}

/-- A dispatcher that can be sent starts to be serialized. -/
theorem startSerialize_eq (h : d.Transferable dup) : d.startSerialize = some d.info := by
  cases d with
  | messagePipe | sharedBuffer | platformHandle | waitSet => rfl
  | dataPipeProducer d => exact if_pos h.1
  | dataPipeConsumer d => exact if_pos h.1

end Dispatcher

section Fields

variable {bytes : List UInt8} {i j : ℕ}

/-- A field that was stored. -/
theorem ofLeBytes_splice {n v : ℕ} (hv : v < 256 ^ n) (hi : i ≤ bytes.length) :
    ofLeBytes ((bytes.splice i (leBytes n v)).slice i n) = v := by
  have h := List.slice_splice_self (w := leBytes n v) hi
  rw [length_leBytes] at h
  rw [h, ofLeBytes_leBytes hv]

/-- A number is read as it was written. -/
theorem readUInt64_splice (v : UInt64) (hi : i ≤ bytes.length) :
    readUInt64 (bytes.splice i (leBytes 8 v.toNat)) i = v := by
  rw [readUInt64, ofLeBytes_splice v.toNat_lt hi, UInt64.ofNat_toNat]

theorem readUInt32_splice (v : UInt32) (hi : i ≤ bytes.length) :
    readUInt32 (bytes.splice i (leBytes 4 v.toNat)) i = v := by
  rw [readUInt32, ofLeBytes_splice v.toNat_lt hi, UInt32.ofNat_toNat]

theorem readUInt8_splice (v : UInt8) (hi : i ≤ bytes.length) :
    readUInt8 (bytes.splice i (leBytes 1 v.toNat)) i = v := by
  rw [readUInt8, ofLeBytes_splice v.toNat_lt hi, UInt8.ofNat_toNat]

/-- What is written after a number leaves it alone. -/
theorem readUInt64_splice_of_le {w : List UInt8} (h : j + 8 ≤ i) (hi : i ≤ bytes.length) :
    readUInt64 (bytes.splice i w) j = readUInt64 bytes j := by
  rw [readUInt64, List.slice_splice_of_le h hi, readUInt64]

theorem readUInt32_splice_of_le {w : List UInt8} (h : j + 4 ≤ i) (hi : i ≤ bytes.length) :
    readUInt32 (bytes.splice i w) j = readUInt32 bytes j := by
  rw [readUInt32, List.slice_splice_of_le h hi, readUInt32]

theorem readUInt8_splice_of_le {w : List UInt8} (h : j + 1 ≤ i) (hi : i ≤ bytes.length) :
    readUInt8 (bytes.splice i w) j = readUInt8 bytes j := by
  rw [readUInt8, List.slice_splice_of_le h hi, readUInt8]

/-- What is written after the options leaves them alone. -/
theorem readOptions_splice_of_le {w : List UInt8} (h : 16 ≤ i) (hi : i ≤ bytes.length) :
    readOptions (bytes.splice i w) = readOptions bytes := by
  rw [readOptions, readUInt32_splice_of_le (by omega) hi, readUInt32_splice_of_le (by omega) hi,
    readUInt32_splice_of_le (by omega) hi, readUInt32_splice_of_le (by omega) hi, readOptions]

@[simp] theorem length_toBytes (o : DataPipeOptions) : o.toBytes.length = 16 := rfl

/-- Options are read as they were written. -/
theorem readOptions_splice (o : DataPipeOptions) :
    readOptions (bytes.splice 0 o.toBytes) = o := by
  have hread {j : ℕ} (v : UInt32) (hj : j + 4 ≤ 16)
      (h : o.toBytes.slice j 4 = leBytes 4 v.toNat) :
      readUInt32 (bytes.splice 0 o.toBytes) j = v := by
    rw [readUInt32, List.splice, List.take_zero, List.nil_append, List.slice_append_of_le hj, h,
      ofLeBytes_leBytes v.toNat_lt, UInt32.ofNat_toNat]
  rw [readOptions, hread o.structSize (by decide) rfl, hread o.flags (by decide) rfl,
    hread o.elementNumBytes (by decide) rfl, hread o.capacityNumBytes (by decide) rfl]

end Fields

namespace Dispatcher

variable {P H : Type*} {dup : Option H} {d : Dispatcher P H} {destination : List UInt8}

/-- The state of a data pipe has its size. -/
theorem length_storeDataPipe (d : DataPipe P H) (h : destination.length = sizeofDataPipe) :
    (storeDataPipe d destination).length = sizeofDataPipe := by
  rw [sizeofDataPipe] at h ⊢
  simp [storeDataPipe, List.length_splice_eq, h]

/-- A data pipe that was sent and is given a port and a buffer. -/
def received (d : DataPipe P H) (port : P) (handle : Option H) : DataPipe P H where
  controlPort := port
  options := d.options
  pipeId := d.pipeId
  sharedRingBuffer := some ⟨handle, d.options.capacityNumBytes.toUInt64⟩
  peerClosed := d.peerClosed
  offset := d.offset
  amount := d.amount

/-- What is stored of a data pipe is read. -/
theorem readDataPipe_storeDataPipe (d : DataPipe P H) (h : destination.length = sizeofDataPipe)
    (port : P) (handle : Option H) :
    readDataPipe (storeDataPipe d destination) port handle = received d port handle := by
  rw [sizeofDataPipe] at h
  have hoptions : readOptions (storeDataPipe d destination) = d.options := by
    rw [storeDataPipe]
    simp [readOptions_splice_of_le, readOptions_splice, List.length_splice_eq, h]
  have hpipeId : readUInt64 (storeDataPipe d destination) 16 = d.pipeId := by
    rw [storeDataPipe]
    simp [readUInt64_splice_of_le, readUInt64_splice, List.length_splice_eq, h]
  have hpeerClosed : readUInt8 (storeDataPipe d destination) 24 = d.peerClosed.toUInt8 := by
    have hbool : d.peerClosed.toNat = d.peerClosed.toUInt8.toNat := by cases d.peerClosed <;> rfl
    rw [storeDataPipe, hbool]
    simp [readUInt8_splice_of_le, readUInt8_splice, List.length_splice_eq, h]
  have hoffset : readUInt32 (storeDataPipe d destination) 28 = d.offset := by
    rw [storeDataPipe]
    simp [readUInt32_splice_of_le, readUInt32_splice, List.length_splice_eq, h]
  have hamount : readUInt32 (storeDataPipe d destination) 32 = d.amount := by
    rw [storeDataPipe]
    simp [readUInt32_splice, List.length_splice_eq, h]
  have hbool : (d.peerClosed.toUInt8 != 0) = d.peerClosed := by cases d.peerClosed <;> rfl
  rw [readDataPipe, hoptions, hpipeId, hpeerClosed, hoffset, hamount, hbool, received]

/-- A data pipe is deserialized as it was stored. -/
theorem deserializeDataPipe_storeDataPipe (d : DataPipe P H)
    (h : destination.length = sizeofDataPipe) (port : P) (handle : Option H) :
    deserializeDataPipe (storeDataPipe d destination) [port] [handle] =
      some (received d port handle) := by
  rw [deserializeDataPipe, if_pos (length_storeDataPipe d h), readDataPipe_storeDataPipe d h]

/-- What a dispatcher stores has the size that it told before, and a dispatcher with
    the same state is made of it, which is given its ports and handles. -/
theorem deserialize_endSerialize (h : d.Transferable dup)
    (hlen : destination.length = d.info.numBytes) :
    ∃ s, d.endSerialize dup destination = some s ∧ s.ok = true ∧
      s.destination.length = d.info.numBytes ∧ s.ports = d.ports ∧
      s.handles = d.sentHandles dup ∧
      ∀ ports' : List P, ports'.length = d.info.numPorts →
        ∃ d' : Dispatcher P H,
          deserialize d.type.toNat s.destination ports' (d.sentHandles dup) = some d' ∧
          d'.state = d.state ∧ d'.ports = ports' ∧ d'.handles = d.sentHandles dup := by
  cases d with
  | messagePipe d =>
    have hlen : destination.length = 16 := hlen
    refine ⟨_, rfl, rfl, ?_, rfl, rfl, fun ports' hports => ?_⟩
    · simp [hlen, info, sizeofMessagePipe]
    · obtain ⟨port, rfl⟩ := List.length_eq_one_iff.1 hports
      refine ⟨.messagePipe { port := port, pipeId := d.pipeId, endpoint := d.endpoint }, ?_, rfl,
        rfl, rfl⟩
      rw [deserialize, type, if_pos rfl, sentHandles]
      simp [deserializeMessagePipe, sizeofMessagePipe, hlen, readUInt64_splice_of_le, readUInt64_splice,
        readUInt8_splice]
  | dataPipeProducer d =>
    have hsome : d.inTransit && d.sharedRingBuffer.isSome := by rw [h.1, h.2]; rfl
    refine ⟨_, if_pos hsome, rfl, length_storeDataPipe d hlen, rfl, rfl, fun ports' hports => ?_⟩
    obtain ⟨port, rfl⟩ := List.length_eq_one_iff.1 hports
    refine ⟨.dataPipeProducer (received d port dup), ?_, rfl, rfl, rfl⟩
    rw [deserialize, type, if_neg (by decide), if_neg (by decide), if_neg (by decide), if_pos rfl, sentHandles,
      deserializeDataPipe_storeDataPipe d hlen, Option.map_some]
  | dataPipeConsumer d =>
    have hsome : d.inTransit && d.sharedRingBuffer.isSome := by rw [h.1, h.2]; rfl
    refine ⟨_, if_pos hsome, rfl, length_storeDataPipe d hlen, rfl, rfl, fun ports' hports => ?_⟩
    obtain ⟨port, rfl⟩ := List.length_eq_one_iff.1 hports
    refine ⟨.dataPipeConsumer (received d port dup), ?_, rfl, rfl, rfl⟩
    rw [deserialize, type, if_neg (by decide), if_neg (by decide), if_pos rfl, sentHandles,
      deserializeDataPipe_storeDataPipe d hlen, Option.map_some]
  | sharedBuffer d =>
    obtain ⟨⟨buffer, hbuffer, hzero⟩, hdup⟩ := h
    have hlen : destination.length = 8 := hlen
    have hstored : (destination.splice 0 (leBytes 8 buffer.numBytes.toNat)).length = 8 := by
      simp [hlen]
    refine ⟨_, congrArg (Option.map _) hbuffer, hdup, hstored, rfl, rfl, fun ports' hports => ?_⟩
    obtain rfl : ports' = [] := List.length_eq_zero_iff.1 hports
    refine ⟨.sharedBuffer { sharedBuffer := some ⟨dup, buffer.numBytes⟩ }, ?_, ?_, rfl, rfl⟩
    · rw [deserialize, type, if_neg (by decide), if_pos rfl]
      simp only [deserializeSharedBuffer, sizeofSharedBuffer, hstored, if_true, sentHandles,
        readUInt64_splice buffer.numBytes (Nat.zero_le destination.length), if_neg hzero]
    · rw [state, state, hbuffer, Option.map_some, Option.map_some]
  | platformHandle d =>
    have hopen : d.isClosed = false := h
    obtain rfl : destination = [] := List.length_eq_zero_iff.1 hlen
    refine ⟨_, rfl, ?_, rfl, rfl, ?_, fun ports' hports => ?_⟩
    · rw [hopen]
      rfl
    · rw [hopen]
      rfl
    · obtain rfl : ports' = [] := List.length_eq_zero_iff.1 hports
      refine ⟨.platformHandle { platformHandle := d.platformHandle }, ?_, rfl, rfl, rfl⟩
      rw [deserialize, type, if_neg (by decide), if_neg (by decide), if_neg (by decide),
        if_neg (by decide), if_pos rfl]
      rfl
  | waitSet => exact h.elim

end Dispatcher

end MojoEdk.Core
