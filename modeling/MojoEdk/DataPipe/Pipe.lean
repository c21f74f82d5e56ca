import MojoEdk.DataPipe.Dispatchers
import MojoEdk.Library.Machine

/-!
# Data pipes

A data pipe with its two ends, which are used, transferred and closed by their holders
in any order. The control messages are delivered in order, each of them once, and the
ends share one ring of memory (`Pipe`).

An end that is sent to another process is written to a message (`EndSerialize`), and
then, either the message is not sent (`CancelTransit`), or the dispatcher is closed
(`CompleteTransitAndClose`) and another one is made where the message is read
(`Deserialize`). Control messages for an end that is on its way get to it later.

A call is one step. In the code, the control message is sent after the lock of the dispatcher
is released (`NotifyWrite`, `NotifyRead`): calls on one end whose messages overtake each other
are not modelled.

The bytes that are produced and consumed are recorded, and no call reads the record. They are
those that the calls report (`Pipe.produced_writeData`, `Pipe.consumed_readData`), or are told
in the second phase (`Pipe.produced_endWriteData`, `Pipe.consumed_endReadData`). To end a write
in two phases produces what is in the ring then.
-/

namespace MojoEdk.DataPipe

open MojoEdk.Core

variable {P H : Type*}

/-- The ends of a data pipe. -/
inductive Side
  | producer
  | consumer
  deriving DecidableEq

/-- The other end. -/
def Side.opp : Side → Side
  | .producer => .consumer
  | .consumer => .producer

theorem Side.opp_opp (side : Side) : side.opp.opp = side := by cases side <;> rfl

theorem Side.ne_opp (side : Side) : side ≠ side.opp := by cases side <;> exact nofun

theorem Side.eq_or_eq_opp (side side' : Side) : side' = side ∨ side' = side.opp := by
  cases side <;> cases side' <;> simp [opp]

/-- The command in the control messages for an end. -/
def Side.command : Side → DataPipeCommand
  | .producer => .dataWasRead
  | .consumer => .dataWasWritten

/-- The dispatcher of an end. -/
def Side.dispatcher : Side → DataPipe P H → Dispatcher P H
  | .producer => .dataPipeProducer
  | .consumer => .dataPipeConsumer

/-- The data pipe that a dispatcher is an end of. -/
def dataPipe : Dispatcher P H → Option (DataPipe P H)
  | .dataPipeProducer d | .dataPipeConsumer d => some d
  | _ => none

/-- Where an end is. -/
inductive Endpoint (P H : Type*)
  | live (d : DataPipe P H)
  /-- In transit, and written to a message that is not sent yet. -/
  | serialized (d : DataPipe P H) (state : List UInt8)
  /-- In a message that was sent. -/
  | sent (state : List UInt8)
  | closed

namespace Endpoint

/-- The dispatcher that is open. -/
def dispatcher : Endpoint P H → Option (DataPipe P H)
  | live d | serialized d _ => some d
  | sent _ | closed => none

/-- The end after a call on its dispatcher. -/
def set (d : DataPipe P H) : Endpoint P H → Endpoint P H
  | live _ => live d
  | serialized _ state => serialized d state
  | e => e

end Endpoint

/-- The control messages for an end, in the order they were sent in. -/
structure Channel where
  /-- Those that the control port has, which come first. -/
  queue : List DataPipeControlMessage := []
  inFlight : List DataPipeControlMessage := []

namespace Channel

def messages (c : Channel) : List DataPipeControlMessage := c.queue ++ c.inFlight

/-- `SendDataPipeControlMessage`, of the number of bytes if there is one. -/
def send (c : Channel) (command : DataPipeCommand) : Option UInt32 → Channel
  | none => c
  | some numBytes => { c with inFlight := c.inFlight ++ [⟨command, numBytes⟩] }

/-- The next message gets to the control port. -/
def deliver (c : Channel) : Option Channel :=
  match c.inFlight with
  | [] => none
  | m :: inFlight => some ⟨c.queue ++ [m], inFlight⟩

/-- The messages of a control port that is sent follow it. -/
def withdraw (c : Channel) : Channel := ⟨[], c.messages⟩

end Channel

/-- A data pipe. -/
structure Pipe (P H : Type*) where
  buffer : ℕ → UInt8 := fun _ => 0
  endpoint : Side → Endpoint P H
  /-- The control messages for an end. -/
  channel : Side → Channel := fun _ => {}
  /-- The memory that `BeginWriteData` exposed, until `EndWriteData`. -/
  window : Option (ℕ × ℕ) := none
  produced : List UInt8 := []
  consumed : List UInt8 := []

/-- What happens to a data pipe. -/
inductive Action (P H : Type*)
  | writeData (elements : ℕ → UInt8) (numBytes : UInt32) (allOrNone : Bool)
  | beginWriteData
  /-- The holder of the producer writes a byte to the memory exposed. -/
  | store (i : ℕ) (byte : UInt8)
  | endWriteData (numBytesWritten : UInt32)
  | readData (elements : ℕ → UInt8) (numBytes : UInt32) (flags : ReadDataFlags)
  | beginReadData (flags : ReadDataFlags)
  | endReadData (numBytesRead : UInt32)
  /-- A control message gets to the control port of an end. -/
  | deliver (side : Side)
  /-- `UpdateSignalsStateNoLock`, called by `OnPortStatusChanged` or `AddAwakable`. -/
  | updateSignalsState (side : Side)
  | beginTransit (side : Side)
  /-- `EndSerialize`, where `dup` is the handle sent. -/
  | endSerialize (side : Side) (dup : Option H) (destination : List UInt8)
  | cancelTransit (side : Side)
  | completeTransitAndClose (side : Side)
  | deserialize (side : Side) (port : P) (handle : Option H)
  | close (side : Side)
  /-- The message that has the end is thrown away. -/
  | discard (side : Side)

/-- An end is closed. -/
def Action.closes : Action P H → Bool
  | .close _ | .discard _ => true
  | _ => false

namespace Pipe

/-- The data pipe with an end changed. -/
def setEndpoint (s : Pipe P H) (side : Side) (e : Endpoint P H) : Pipe P H :=
  { s with endpoint := Function.update s.endpoint side e }

/-- The data pipe with the messages for an end changed. -/
def setChannel (s : Pipe P H) (side : Side) (c : Channel) : Pipe P H :=
  { s with channel := Function.update s.channel side c }

/-- An end is what was written last. -/
theorem endpoint_setEndpoint (s : Pipe P H) (side side' : Side) (e : Endpoint P H) :
    (s.setEndpoint side e).endpoint side' = if side' = side then e else s.endpoint side' :=
  Function.update_apply ..

@[simp] theorem channel_setEndpoint (s : Pipe P H) (side : Side) (e : Endpoint P H) :
    (s.setEndpoint side e).channel = s.channel := rfl

/-- A channel is what was written last. -/
theorem channel_setChannel (s : Pipe P H) (side side' : Side) (c : Channel) :
    (s.setChannel side c).channel side' = if side' = side then c else s.channel side' :=
  Function.update_apply ..

@[simp] theorem endpoint_setChannel (s : Pipe P H) (side : Side) (c : Channel) :
    (s.setChannel side c).endpoint = s.endpoint := rfl

/-- The data pipe after a call on the dispatcher of an end, and its message for the
    peer. -/
def call (s : Pipe P H) (side : Side) (d : DataPipe P H) (notified : Option UInt32) : Pipe P H :=
  (s.setEndpoint side ((s.endpoint side).set d)).setChannel side.opp
    ((s.channel side.opp).send side.opp.command notified)

/-- The number of bytes in a control message. -/
def count (notified : Option UInt32) : ℕ := notified.elim 0 UInt32.toNat

/-- `WriteData`. -/
def writeData (s : Pipe P H) (elements : ℕ → UInt8) (numBytes : UInt32) (allOrNone : Bool)
    (d : DataPipe P H) : Pipe P H :=
  let w := d.writeData s.buffer elements numBytes allOrNone
  { s.call .producer w.dispatcher w.notified with
    buffer := w.memory
    produced := s.produced ++ Memory.load elements 0 (count w.notified) }

/-- `BeginWriteData`. -/
def beginWriteData (s : Pipe P H) (d : DataPipe P H) : Pipe P H :=
  let (_, d', window) := d.beginWriteData
  { s.call .producer d' none with window := window.or s.window }

/-- `EndWriteData`. -/
def endWriteData (s : Pipe P H) (numBytesWritten : UInt32) (d : DataPipe P H) : Pipe P H :=
  let (_, d', notified) := d.endWriteData numBytesWritten
  { s.call .producer d' notified with
    window := if d'.inTwoPhase then s.window else none
    produced := s.produced ++ Memory.load s.buffer d.offset.toNat (count notified) }

/-- `ReadData`. The bytes that are discarded are consumed, but not copied. -/
def readData (s : Pipe P H) (elements : ℕ → UInt8) (numBytes : UInt32) (flags : ReadDataFlags)
    (d : DataPipe P H) : Pipe P H :=
  let r := d.readData s.buffer elements numBytes flags
  { s.call .consumer r.dispatcher r.notified with
    consumed := s.consumed ++
      if flags.discard then
        Ring.load d.options.capacityNumBytes.toNat s.buffer d.offset.toNat (count r.notified)
      else Memory.load r.memory 0 (count r.notified) }

/-- `BeginReadData`. -/
def beginReadData (s : Pipe P H) (flags : ReadDataFlags) (d : DataPipe P H) : Pipe P H :=
  s.call .consumer (d.beginReadData flags).2.1 none

/-- `EndReadData`. -/
def endReadData (s : Pipe P H) (numBytesRead : UInt32) (d : DataPipe P H) : Pipe P H :=
  let (_, d', notified) := d.endReadData numBytesRead
  { s.call .consumer d' notified with
    consumed := s.consumed ++ Memory.load s.buffer d.offset.toNat (count notified) }

/-- The peer of an end is closed, and no message of it is to come but those that the
    control port has. -/
def drained (s : Pipe P H) (side : Side) : Bool :=
  match s.endpoint side.opp with
  | .closed => (s.channel side).inFlight.isEmpty
  | _ => false

/-- `UpdateSignalsStateNoLock`. -/
def updateSignalsState (s : Pipe P H) (side : Side) (d : DataPipe P H) : Pipe P H :=
  let (queue, d') :=
    match side with
    | .producer => d.updateProducer (s.drained side) (s.channel side).queue
    | .consumer => d.updateConsumer (s.drained side) (s.channel side).queue
  (s.setEndpoint side ((s.endpoint side).set d')).setChannel side
    { s.channel side with queue := queue }

/-- `CancelTransit`, after which the consumer looks at its control port. -/
def cancelTransit (s : Pipe P H) (side : Side) (d : DataPipe P H) : Option (Pipe P H) :=
  ((side.dispatcher d).cancelTransit.bind dataPipe).map fun d' =>
    match side with
    | .producer => s.setEndpoint .producer (.live d')
    | .consumer => (s.setEndpoint .consumer (.live d')).updateSignalsState .consumer d'

/-- `Close`, which takes the memory from the holder of the end. -/
def close (s : Pipe P H) (side : Side) (d : DataPipe P H) : Pipe P H :=
  if (side.dispatcher d).close.1 = .ok then
    { s.setEndpoint side .closed with
      window := match side with
        | .producer => none
        | .consumer => s.window }
  else s

/-- The data pipe after an action: none if it is not possible then. -/
def step (s : Pipe P H) : Action P H → Option (Pipe P H)
  | .writeData elements numBytes allOrNone =>
    (s.endpoint .producer).dispatcher.map (s.writeData elements numBytes allOrNone)
  | .beginWriteData => (s.endpoint .producer).dispatcher.map s.beginWriteData
  | .store i byte =>
    match s.window with
    | none => none
    | some (offset, size) =>
      -- The caller of a two-phase write stores what it likes, within what it was given.
      if i < size then some { s with buffer := Function.update s.buffer (offset + i) byte }
      else none
  | .endWriteData numBytesWritten =>
    (s.endpoint .producer).dispatcher.map (s.endWriteData numBytesWritten)
  | .readData elements numBytes flags =>
    (s.endpoint .consumer).dispatcher.map (s.readData elements numBytes flags)
  | .beginReadData flags => (s.endpoint .consumer).dispatcher.map (s.beginReadData flags)
  | .endReadData numBytesRead =>
    (s.endpoint .consumer).dispatcher.map (s.endReadData numBytesRead)
  | .deliver side =>
    match (s.endpoint side).dispatcher with
    | none => none
    | some _ => (s.channel side).deliver.map (s.setChannel side)
  | .updateSignalsState side => (s.endpoint side).dispatcher.map (s.updateSignalsState side)
  | .beginTransit side =>
    (s.endpoint side).dispatcher.bind fun d =>
      (dataPipe (side.dispatcher d).beginTransit.2).map fun d' =>
        s.setEndpoint side ((s.endpoint side).set d')
  | .endSerialize side dup destination =>
    match s.endpoint side with
    | .live d =>
      if destination.length = sizeofDataPipe then
        ((side.dispatcher d).endSerialize dup destination).bind fun w =>
          (dataPipe w.dispatcher).map fun d' =>
            s.setEndpoint side (.serialized d' w.destination)
      else none
    | _ => none
  | .cancelTransit side => (s.endpoint side).dispatcher.bind (s.cancelTransit side)
  | .completeTransitAndClose side =>
    match s.endpoint side with
    | .serialized d state =>
      (side.dispatcher d).completeTransitAndClose.map fun _ =>
        -- What was on its way to the control port goes along with it.
        (s.setEndpoint side (.sent state)).setChannel side (s.channel side).withdraw
    | _ => none
  | .deserialize side port handle =>
    match s.endpoint side with
    | .sent state =>
      (Dispatcher.deserializeDataPipe state [port] [handle]).map fun d =>
        s.setEndpoint side (.live d)
    | _ => none
  | .close side =>
    match s.endpoint side with
    | .live d => some (s.close side d)
    | _ => none
  | .discard side =>
    match s.endpoint side with
    | .sent _ => some (s.setEndpoint side .closed)
    | _ => none

/-! ## What is recorded -/

/-- What `WriteData` reports with `MOJO_RESULT_OK` is produced, and nothing else. -/
theorem produced_writeData (s : Pipe P H) (d : DataPipe P H) (elements : ℕ → UInt8)
    (numBytes : UInt32) (allOrNone : Bool) :
    let w := d.writeData s.buffer elements numBytes allOrNone
    (s.writeData elements numBytes allOrNone d).produced = s.produced ++
      if w.rv = .ok ∧ numBytes ≠ 0 then Memory.load elements 0 w.numBytes.toNat else [] := by
  intro w
  have hnotified := d.notified_writeData s.buffer elements numBytes allOrNone
  change s.produced ++ Memory.load elements 0 (count w.notified) = _
  rw [show w.notified = _ from hnotified]
  split_ifs <;> rfl

/-- What `EndWriteData` is told is produced if it returns `MOJO_RESULT_OK`. -/
theorem produced_endWriteData (s : Pipe P H) (d : DataPipe P H) (numBytesWritten : UInt32) :
    (s.endWriteData numBytesWritten d).produced = s.produced ++
      if (d.endWriteData numBytesWritten).1 = .ok then
        Memory.load s.buffer d.offset.toNat numBytesWritten.toNat else [] := by
  change s.produced ++ Memory.load s.buffer d.offset.toNat
    (count (d.endWriteData numBytesWritten).2.2) = _
  rw [d.notified_endWriteData]
  split_ifs <;> rfl

/-- What `ReadData` reports with `MOJO_RESULT_OK` is consumed, unless it only peeks or queries. -/
theorem consumed_readData (s : Pipe P H) (d : DataPipe P H) (elements : ℕ → UInt8)
    (numBytes : UInt32) (flags : ReadDataFlags) :
    let r := d.readData s.buffer elements numBytes flags
    (s.readData elements numBytes flags d).consumed = s.consumed ++
      if r.rv = .ok ∧ flags.query = false ∧ flags.peek = false then
        if flags.discard then
          Ring.load d.options.capacityNumBytes.toNat s.buffer d.offset.toNat r.numBytes.toNat
        else Memory.load r.memory 0 r.numBytes.toNat
      else [] := by
  intro r
  have hnotified := d.notified_readData s.buffer elements numBytes flags
  change s.consumed ++ (if flags.discard then
      Ring.load d.options.capacityNumBytes.toNat s.buffer d.offset.toNat (count r.notified)
    else Memory.load r.memory 0 (count r.notified)) = _
  rw [show r.notified = _ from hnotified]
  split_ifs with hdiscard <;> rfl

/-- What `EndReadData` is told is consumed if it returns `MOJO_RESULT_OK`. -/
theorem consumed_endReadData (s : Pipe P H) (d : DataPipe P H) (numBytesRead : UInt32) :
    (s.endReadData numBytesRead d).consumed = s.consumed ++
      if (d.endReadData numBytesRead).1 = .ok then
        Memory.load s.buffer d.offset.toNat numBytesRead.toNat else [] := by
  change s.consumed ++ Memory.load s.buffer d.offset.toNat
    (count (d.endReadData numBytesRead).2.2) = _
  rw [d.notified_endReadData]
  split_ifs <;> rfl
/-! ## Moves -/

/-- What the actions do, each where it is possible. -/
inductive Moves (s : Pipe P H) : Action P H → Pipe P H → Prop
  | writeData {d elements numBytes allOrNone}
      (hd : (s.endpoint .producer).dispatcher = some d) :
      Moves s (.writeData elements numBytes allOrNone)
        (s.writeData elements numBytes allOrNone d)
  | beginWriteData {d} (hd : (s.endpoint .producer).dispatcher = some d) :
      Moves s .beginWriteData (s.beginWriteData d)
  | store {w i byte} (hw : s.window = some w) (hi : i < w.2) :
      Moves s (.store i byte) { s with buffer := Function.update s.buffer (w.1 + i) byte }
  | endWriteData {d numBytesWritten} (hd : (s.endpoint .producer).dispatcher = some d) :
      Moves s (.endWriteData numBytesWritten) (s.endWriteData numBytesWritten d)
  | readData {d elements numBytes flags} (hd : (s.endpoint .consumer).dispatcher = some d) :
      Moves s (.readData elements numBytes flags) (s.readData elements numBytes flags d)
  | beginReadData {d flags} (hd : (s.endpoint .consumer).dispatcher = some d) :
      Moves s (.beginReadData flags) (s.beginReadData flags d)
  | endReadData {d numBytesRead} (hd : (s.endpoint .consumer).dispatcher = some d) :
      Moves s (.endReadData numBytesRead) (s.endReadData numBytesRead d)
  | deliver {side c} (hc : (s.channel side).deliver = some c) :
      Moves s (.deliver side) (s.setChannel side c)
  | updateSignalsState {side d} (hd : (s.endpoint side).dispatcher = some d) :
      Moves s (.updateSignalsState side) (s.updateSignalsState side d)
  | beginTransit {side d d'} (hd : (s.endpoint side).dispatcher = some d)
      (hd' : dataPipe (side.dispatcher d).beginTransit.2 = some d') :
      Moves s (.beginTransit side) (s.setEndpoint side ((s.endpoint side).set d'))
  | endSerialize {side dup destination d w d'} (hlive : s.endpoint side = .live d)
      (hlen : destination.length = sizeofDataPipe)
      (hw : (side.dispatcher d).endSerialize dup destination = some w)
      (hd' : dataPipe w.dispatcher = some d') :
      Moves s (.endSerialize side dup destination)
        (s.setEndpoint side (.serialized d' w.destination))
  | cancelTransit {side d s'} (hd : (s.endpoint side).dispatcher = some d)
      (hs' : s.cancelTransit side d = some s') : Moves s (.cancelTransit side) s'
  | completeTransitAndClose {side d state} (he : s.endpoint side = .serialized d state) :
      Moves s (.completeTransitAndClose side)
        ((s.setEndpoint side (.sent state)).setChannel side (s.channel side).withdraw)
  | deserialize {side state port handle d} (he : s.endpoint side = .sent state)
      (hd : Dispatcher.deserializeDataPipe state [port] [handle] = some d) :
      Moves s (.deserialize side port handle) (s.setEndpoint side (.live d))
  | close {side d} (hlive : s.endpoint side = .live d) : Moves s (.close side) (s.close side d)
  | discard {side state} (he : s.endpoint side = .sent state) :
      Moves s (.discard side) (s.setEndpoint side .closed)

/-- A step is one of the moves. -/
theorem moves_of_step {s s' : Pipe P H} {a : Action P H} (hs' : s.step a = some s') :
    s.Moves a s' := by
  cases a with
  | writeData elements numBytes allOrNone =>
    obtain ⟨d, hd, rfl⟩ := Option.map_eq_some_iff.1 hs'
    exact .writeData hd
  | beginWriteData =>
    obtain ⟨d, hd, rfl⟩ := Option.map_eq_some_iff.1 hs'
    exact .beginWriteData hd
  | store i byte =>
    simp only [step] at hs'
    split at hs'
    · cases hs'
    · rename_i offset size hw
      split_ifs at hs' with hi
      obtain rfl := Option.some.inj hs'
      exact .store hw hi
  | endWriteData numBytesWritten =>
    obtain ⟨d, hd, rfl⟩ := Option.map_eq_some_iff.1 hs'
    exact .endWriteData hd
  | readData elements numBytes flags =>
    obtain ⟨d, hd, rfl⟩ := Option.map_eq_some_iff.1 hs'
    exact .readData hd
  | beginReadData flags =>
    obtain ⟨d, hd, rfl⟩ := Option.map_eq_some_iff.1 hs'
    exact .beginReadData hd
  | endReadData numBytesRead =>
    obtain ⟨d, hd, rfl⟩ := Option.map_eq_some_iff.1 hs'
    exact .endReadData hd
  | deliver side =>
    simp only [step] at hs'
    split at hs'
    · cases hs'
    · obtain ⟨c, hc, rfl⟩ := Option.map_eq_some_iff.1 hs'
      exact .deliver hc
  | updateSignalsState side =>
    obtain ⟨d, hd, rfl⟩ := Option.map_eq_some_iff.1 hs'
    exact .updateSignalsState hd
  | beginTransit side =>
    obtain ⟨d, hd, hs'⟩ := Option.bind_eq_some_iff.1 hs'
    obtain ⟨d', hd', rfl⟩ := Option.map_eq_some_iff.1 hs'
    exact .beginTransit hd hd'
  | endSerialize side dup destination =>
    simp only [step] at hs'
    split at hs'
    · rename_i d hlive
      split_ifs at hs' with hlen
      obtain ⟨w, hw, hs'⟩ := Option.bind_eq_some_iff.1 hs'
      obtain ⟨d', hd', rfl⟩ := Option.map_eq_some_iff.1 hs'
      exact .endSerialize hlive hlen hw hd'
    · cases hs'
  | cancelTransit side =>
    obtain ⟨d, hd, hs'⟩ := Option.bind_eq_some_iff.1 hs'
    exact .cancelTransit hd hs'
  | completeTransitAndClose side =>
    simp only [step] at hs'
    split at hs'
    · rename_i d state he
      obtain ⟨-, -, rfl⟩ := Option.map_eq_some_iff.1 hs'
      exact .completeTransitAndClose he
    · cases hs'
  | deserialize side port handle =>
    simp only [step] at hs'
    split at hs'
    · rename_i state he
      obtain ⟨d, hd, rfl⟩ := Option.map_eq_some_iff.1 hs'
      exact .deserialize he hd
    · cases hs'
  | close side =>
    simp only [step] at hs'
    split at hs'
    · rename_i d hlive
      obtain rfl := Option.some.inj hs'
      exact .close hlive
    · cases hs'
  | discard side =>
    simp only [step] at hs'
    split at hs'
    · rename_i state he
      obtain rfl := Option.some.inj hs'
      exact .discard he
    · cases hs'

/-- `CreateDataPipe`: the options of the data pipe, for those that are given. -/
def createOptions (options : Option DataPipeOptions) : Except MojoResult DataPipeOptions :=
  if options.any (·.structSize ≠ 16) then .error .invalidArgument
  else .ok {
    structSize := 16
    flags := (options.map (·.flags)).getD 0
    elementNumBytes := (options.map (·.elementNumBytes)).getD 1
    capacityNumBytes :=
      match options with
      | some o => if o.capacityNumBytes ≠ 0 then o.capacityNumBytes else 64 * 1024
      | none => 64 * 1024 }

/-- The options that are accepted have a capacity. -/
theorem capacity_pos_of_createOptions {options : Option DataPipeOptions} {o : DataPipeOptions}
    (h : createOptions options = .ok o) : 0 < o.capacityNumBytes.toNat := by
  rw [createOptions.eq_def] at h
  split_ifs at h
  obtain rfl := Except.ok.inj h
  cases options with
  | none => decide
  | some o =>
    simp only
    split_ifs with hcapacity
    · exact Nat.pos_of_ne_zero fun hzero => hcapacity (UInt32.toNat_inj.1 hzero)
    · decide

/-- An end as `CreateDataPipe` makes it: the ring is mapped. -/
def createEndpoint (options : DataPipeOptions) (port : P) (ring : PlatformSharedBuffer H)
    (pipeId : UInt64) (amount : UInt32) : Endpoint P H :=
  .live
    { controlPort := port
      options := options
      pipeId := pipeId
      sharedRingBuffer := some ring
      amount := amount }

/-- A data pipe as `CreateDataPipe` makes it. -/
def create (options : DataPipeOptions) (port₀ port₁ : P) (ring : PlatformSharedBuffer H)
    (pipeId : UInt64) : Pipe P H where
  endpoint
    | .producer => createEndpoint options port₀ ring pipeId options.capacityNumBytes
    | .consumer => createEndpoint options port₁ ring pipeId 0

/-- The data pipe as a machine. -/
def machine (options : DataPipeOptions) (port₀ port₁ : P) (ring : PlatformSharedBuffer H)
    (pipeId : UInt64) : Machine (Pipe P H) (Action P H) where
  init := create options port₀ port₁ ring pipeId
  step := step

/-- No end is closed, nor thrown away. -/
def Kept (_ : Pipe P H) (a : Action P H) : Prop := a.closes = false

instance (s : Pipe P H) (a : Action P H) : Decidable (s.Kept a) :=
  inferInstanceAs (Decidable (_ = _))

end Pipe

end MojoEdk.DataPipe
