import MojoEdk.Core.Dispatcher
import MojoEdk.Library.Ring

/-!
# Data pipe dispatchers

The calls on the two ends of a data pipe (`data_pipe_producer_dispatcher.cc`,
`data_pipe_consumer_dispatcher.cc`). The data is in a ring of shared memory. The ends
tell each other how many bytes they wrote and read, in control messages, and each of
them keeps its own offset into the ring and its own count of the bytes that it may
write or read.

Debug checks are not modelled, as they are not compiled into a release.
-/

namespace MojoEdk.Core

/-- `DataPipeCommand`. -/
inductive DataPipeCommand
  | dataWasWritten
  | dataWasRead
  deriving DecidableEq

/-- `DataPipeControlMessage`. -/
structure DataPipeControlMessage where
  command : DataPipeCommand
  numBytes : UInt32
  deriving DecidableEq

/-- `MojoReadDataFlags`. -/
structure ReadDataFlags where
  allOrNone : Bool := false
  discard : Bool := false
  query : Bool := false
  peek : Bool := false

namespace DataPipe

variable {P H : Type*}

/-- What a call did: its result, `*num_bytes`, the dispatcher, the memory that it
    stores in, and the number of bytes in the control message that it sends. -/
structure Access (P H : Type*) where
  rv : MojoResult
  numBytes : UInt32
  dispatcher : DataPipe P H
  memory : ℕ → UInt8
  notified : Option UInt32 := none

/-! ## Writing -/

/-- `WriteData`: the copies to the ring. -/
def copyToRing (d : DataPipe P H) (data elements : ℕ → UInt8) (numBytesToWrite : UInt32) :
    ℕ → UInt8 :=
  let tailBytesToWrite := min (d.options.capacityNumBytes - d.offset) numBytesToWrite
  let headBytesToWrite := numBytesToWrite - tailBytesToWrite
  let data := Memory.copy data d.offset.toNat elements 0 tailBytesToWrite.toNat
  if headBytesToWrite > 0 then
    Memory.copy data 0 elements tailBytesToWrite.toNat headBytesToWrite.toNat
  else data

/-- `WriteData`. -/
def writeData (d : DataPipe P H) (data elements : ℕ → UInt8) (numBytes : UInt32)
    (allOrNone : Bool) : Access P H :=
  let rest (rv : MojoResult) : Access P H :=
    { rv := rv, numBytes := numBytes, dispatcher := d, memory := data }
  if d.sharedRingBuffer.isNone || d.inTransit then rest .invalidArgument
  else if d.inTwoPhase then rest .busy
  else if d.peerClosed then rest .failedPrecondition
  else if numBytes % d.options.elementNumBytes ≠ 0 then rest .invalidArgument
  else if numBytes = 0 then rest .ok
  -- All or nothing is checked against the capacity, not against the room there is.
  else if (if allOrNone then numBytes else 0) > d.options.capacityNumBytes then rest .outOfRange
  else if min numBytes d.amount = 0 then rest .shouldWait
  else
    let numBytesToWrite := min numBytes d.amount
    { rv := .ok
      numBytes := numBytesToWrite
      dispatcher := { d with
        amount := d.amount - numBytesToWrite
        offset := (d.offset + numBytesToWrite) % d.options.capacityNumBytes }
      memory := d.copyToRing data elements numBytesToWrite
      notified := some numBytesToWrite }

/-- `BeginWriteData`: the dispatcher, and the offset and the size of the memory that
    the caller may write to. -/
def beginWriteData (d : DataPipe P H) : MojoResult × DataPipe P H × Option (ℕ × ℕ) :=
  if d.sharedRingBuffer.isNone || d.inTransit then (.invalidArgument, d, none)
  else if d.inTwoPhase then (.busy, d, none)
  else if d.peerClosed then (.failedPrecondition, d, none)
  else if d.amount = 0 then (.shouldWait, d, none)
  else (.ok, { d with inTwoPhase := true },
    some (d.offset.toNat, (min (d.options.capacityNumBytes - d.offset) d.amount).toNat))

/-- `EndWriteData`: the dispatcher, and the number of bytes in the control message. -/
def endWriteData (d : DataPipe P H) (numBytesWritten : UInt32) :
    MojoResult × DataPipe P H × Option UInt32 :=
  if d.isClosed || d.inTransit then (.invalidArgument, d, none)
  else if !d.inTwoPhase then (.failedPrecondition, d, none)
  else if numBytesWritten > d.amount || numBytesWritten % d.options.elementNumBytes ≠ 0 ||
      d.offset + numBytesWritten > d.options.capacityNumBytes then
    -- The write is over, although nothing was written.
    (.invalidArgument, { d with inTwoPhase := false }, none)
  else (.ok, { d with
    amount := d.amount - numBytesWritten
    offset := (d.offset + numBytesWritten) % d.options.capacityNumBytes
    inTwoPhase := false }, some numBytesWritten)

/-! ## Reading -/

/-- `ReadData`: the copies from the ring. -/
def copyFromRing (d : DataPipe P H) (data elements : ℕ → UInt8) (bytesToRead : UInt32) :
    ℕ → UInt8 :=
  let tailBytesToCopy := min (d.options.capacityNumBytes - d.offset) bytesToRead
  let headBytesToCopy := bytesToRead - tailBytesToCopy
  let elements :=
    if tailBytesToCopy > 0 then
      Memory.copy elements 0 data d.offset.toNat tailBytesToCopy.toNat
    else elements
  if headBytesToCopy > 0 then
    Memory.copy elements tailBytesToCopy.toNat data 0 headBytesToCopy.toNat
  else elements

/-- `ReadData`. -/
def readData (d : DataPipe P H) (data elements : ℕ → UInt8) (numBytes : UInt32)
    (flags : ReadDataFlags) : Access P H :=
  let rest (rv : MojoResult) : Access P H :=
    { rv := rv, numBytes := numBytes, dispatcher := d, memory := elements }
  if d.sharedRingBuffer.isNone || d.inTransit then rest .invalidArgument
  else if d.inTwoPhase then rest .busy
  else if flags.query then
    if flags.peek || flags.discard then rest .invalidArgument
    -- The number of bytes asked for is not looked at.
    else { rest .ok with numBytes := d.amount }
  else if flags.discard && flags.peek then rest .invalidArgument
  else if numBytes % d.options.elementNumBytes ≠ 0 then rest .invalidArgument
  else if (if flags.allOrNone then numBytes else 0) > d.amount then
    -- No more bytes will come from a producer that is gone.
    rest (if d.peerClosed then .failedPrecondition else .outOfRange)
  else if min numBytes d.amount = 0 then
    rest (if d.peerClosed then .failedPrecondition else .shouldWait)
  else
    let bytesToRead := min numBytes d.amount
    let elements := if flags.discard then elements else d.copyFromRing data elements bytesToRead
    if flags.discard || !flags.peek then
      { rv := .ok
        numBytes := bytesToRead
        dispatcher := { d with
          offset := (d.offset + bytesToRead) % d.options.capacityNumBytes
          amount := d.amount - bytesToRead }
        memory := elements
        notified := some bytesToRead }
    else { rv := .ok, numBytes := bytesToRead, dispatcher := d, memory := elements }

/-- `BeginReadData`: the dispatcher, and the offset and the size of the memory that the
    caller may read. -/
def beginReadData (d : DataPipe P H) (flags : ReadDataFlags) :
    MojoResult × DataPipe P H × Option (ℕ × ℕ) :=
  if d.sharedRingBuffer.isNone || d.inTransit then (.invalidArgument, d, none)
  else if d.inTwoPhase then (.busy, d, none)
  else if flags.discard || flags.query || flags.peek then (.invalidArgument, d, none)
  else if d.amount = 0 then
    (if d.peerClosed then .failedPrecondition else .shouldWait, d, none)
  else
    let bytesToRead := min d.amount (d.options.capacityNumBytes - d.offset)
    (.ok, { d with inTwoPhase := true, twoPhaseMaxBytesRead := bytesToRead },
      some (d.offset.toNat, bytesToRead.toNat))

/-- `EndReadData`: the dispatcher, and the number of bytes in the control message. -/
def endReadData (d : DataPipe P H) (numBytesRead : UInt32) :
    MojoResult × DataPipe P H × Option UInt32 :=
  if !d.inTwoPhase then (.failedPrecondition, d, none)
  else if d.inTransit then (.invalidArgument, d, none)
  else
    let d' : DataPipe P H := { d with inTwoPhase := false, twoPhaseMaxBytesRead := 0 }
    if numBytesRead > d.twoPhaseMaxBytesRead ||
        numBytesRead % d.options.elementNumBytes ≠ 0 then
      (.invalidArgument, d', none)
    else (.ok, { d' with
      offset := (d.offset + numBytesRead) % d.options.capacityNumBytes
      amount := d.amount - numBytesRead }, some numBytesRead)

/-! ## Control messages -/

/-- The loop of `UpdateSignalsStateNoLock` over the messages of the control port, where
    `drained` says that the peer is closed and no message is to come after these: the
    messages that are left, and the dispatcher. A message that claims too many bytes
    ends the loop, and the consumer takes its peer for closed then. -/
def processMessages (command : DataPipeCommand) (closedByExcess drained : Bool) :
    List DataPipeControlMessage → DataPipe P H → List DataPipeControlMessage × DataPipe P H
  | [], d => ([], { d with peerClosed := d.peerClosed || drained })
  | m :: messages, d =>
    if m.command ≠ command then (messages, { d with peerClosed := true })
    else if d.amount.toNat + m.numBytes.toNat > d.options.capacityNumBytes.toNat then
      (messages, { d with peerClosed := d.peerClosed || closedByExcess })
    else processMessages command closedByExcess drained messages
      { d with amount := d.amount + m.numBytes }

/-- `UpdateSignalsStateNoLock`, where `GetStatus` succeeds. -/
def updateSignalsState (command : DataPipeCommand) (closedByExcess drained : Bool)
    (messages : List DataPipeControlMessage) (d : DataPipe P H) :
    List DataPipeControlMessage × DataPipe P H :=
  let d := { d with peerClosed := d.peerClosed || (drained && messages.isEmpty) }
  if !messages.isEmpty && !d.inTransit then
    processMessages command closedByExcess drained messages d
  else (messages, d)

/-- `DataPipeProducerDispatcher::UpdateSignalsStateNoLock`. -/
def updateProducer (drained : Bool) (messages : List DataPipeControlMessage) (d : DataPipe P H) :
    List DataPipeControlMessage × DataPipe P H :=
  updateSignalsState .dataWasRead false drained messages d

/-- `DataPipeConsumerDispatcher::UpdateSignalsStateNoLock`. -/
def updateConsumer (drained : Bool) (messages : List DataPipeControlMessage) (d : DataPipe P H) :
    List DataPipeControlMessage × DataPipe P H :=
  updateSignalsState .dataWasWritten true drained messages d

/-! ## What the calls do -/

section Specs

variable {d : DataPipe P H} {data elements : ℕ → UInt8} {n : UInt32}

theorem min_le_of_right (m n : UInt32) : min m n ≤ n := by
  rw [UInt32.le_iff_toNat_le, UInt32.toNat_min]
  exact min_le_right ..

theorem min_eq_zero_iff {m n : UInt32} : min m n = 0 ↔ m = 0 ∨ n = 0 := by
  simp only [← UInt32.toNat_inj, UInt32.toNat_min, UInt32.toNat_zero]
  omega

theorem min_eq_left_iff {m n : UInt32} : min m n = m ↔ m ≤ n := by
  rw [← UInt32.toNat_inj, UInt32.toNat_min, UInt32.le_iff_toNat_le]
  omega

theorem ne_zero_of_toNat_pos (h : 0 < n.toNat) : n ≠ 0 :=
  UInt32.pos_iff_ne_zero.1 (UInt32.lt_iff_toNat_lt.2 h)

/-- The bytes up to the end of the ring. -/
theorem toNat_tail (hoff : d.offset ≤ d.options.capacityNumBytes) :
    (min (d.options.capacityNumBytes - d.offset) n).toNat =
      min (d.options.capacityNumBytes.toNat - d.offset.toNat) n.toNat := by
  rw [UInt32.toNat_min, UInt32.toNat_sub_of_le _ _ hoff]

/-- The rest of them. -/
theorem toNat_head (m n : UInt32) : (n - min m n).toNat = n.toNat - (min m n).toNat :=
  UInt32.toNat_sub_of_le _ _ (min_le_of_right m n)

theorem toNat_eq_zero_of_not_pos (h : ¬n > 0) : n.toNat = 0 :=
  Nat.eq_zero_of_not_pos fun hpos => h (UInt32.lt_iff_toNat_lt.2 hpos)

theorem copyToRing_eq (hoff : d.offset ≤ d.options.capacityNumBytes) :
    d.copyToRing data elements n =
      Ring.store d.options.capacityNumBytes.toNat data d.offset.toNat elements n.toNat := by
  simp only [copyToRing, Ring.store, ← toNat_tail hoff, ← toNat_head]
  split_ifs with h
  · rfl
  · rw [toNat_eq_zero_of_not_pos h, Memory.copy_zero]

theorem copyFromRing_eq (hoff : d.offset ≤ d.options.capacityNumBytes) :
    d.copyFromRing data elements n =
      Ring.fetch d.options.capacityNumBytes.toNat elements data d.offset.toNat n.toNat := by
  simp only [copyFromRing, Ring.fetch, ← toNat_tail hoff, ← toNat_head]
  split_ifs with htail hhead hhead
  · rfl
  · rw [toNat_eq_zero_of_not_pos hhead, Memory.copy_zero]
  · rw [toNat_eq_zero_of_not_pos htail, Memory.copy_zero]
  · rw [toNat_eq_zero_of_not_pos htail, toNat_eq_zero_of_not_pos hhead, Memory.copy_zero,
      Memory.copy_zero]

/-- An end that wrote or read some bytes. -/
def advance (d : DataPipe P H) (n : UInt32) : DataPipe P H :=
  { d with
    amount := d.amount - n
    offset := (d.offset + n) % d.options.capacityNumBytes }

/-- `WriteData` fails, has nothing to do, or writes what there is room for. -/
theorem writeData_outcomes (d : DataPipe P H) (data elements : ℕ → UInt8) (numBytes : UInt32)
    (allOrNone : Bool) :
    (∃ rv, (rv = .ok → numBytes = 0) ∧ (rv = .shouldWait → d.amount = 0) ∧
      d.writeData data elements numBytes allOrNone =
        { rv := rv, numBytes := numBytes, dispatcher := d, memory := data }) ∨
    (d.inTransit = false ∧ d.inTwoPhase = false ∧ numBytes % d.options.elementNumBytes = 0 ∧
      d.writeData data elements numBytes allOrNone =
        { rv := .ok
          numBytes := min numBytes d.amount
          dispatcher := d.advance (min numBytes d.amount)
          memory := d.copyToRing data elements (min numBytes d.amount)
          notified := some (min numBytes d.amount) }) := by
  rw [writeData.eq_def]
  generalize (if allOrNone then numBytes else 0) = minNumBytesToWrite
  by_cases h : (d.sharedRingBuffer.isNone || d.inTransit) = true
  · exact .inl ⟨.invalidArgument, nofun, nofun, if_pos h⟩
  by_cases hphase : d.inTwoPhase = true
  · exact .inl ⟨.busy, nofun, nofun, (if_neg h).trans (if_pos hphase)⟩
  simp only [if_neg h, if_neg hphase]
  simp only [Bool.or_eq_true, not_or, Bool.not_eq_true] at h hphase
  split
  · exact .inl ⟨.failedPrecondition, nofun, nofun, rfl⟩
  split
  · exact .inl ⟨.invalidArgument, nofun, nofun, rfl⟩
  rename_i hmod
  split
  · exact .inl ⟨.ok, fun _ => ‹_›, nofun, rfl⟩
  rename_i hzero
  split
  · exact .inl ⟨.outOfRange, nofun, nofun, rfl⟩
  split
  · rename_i hmin
    exact .inl ⟨.shouldWait, nofun, fun _ => (min_eq_zero_iff.1 hmin).resolve_left hzero, rfl⟩
  · exact .inr ⟨h.2, hphase, not_not.1 hmod, rfl⟩

/-- `WriteData` does nothing, or writes some bytes. -/
theorem writeData_cases (d : DataPipe P H) (data elements : ℕ → UInt8) (numBytes : UInt32)
    (allOrNone : Bool) :
    (let w := d.writeData data elements numBytes allOrNone
     w.dispatcher = d ∧ w.memory = data ∧ w.notified = none) ∨
    ∃ n, n ≤ d.amount ∧ d.inTransit = false ∧ d.inTwoPhase = false ∧
      (let w := d.writeData data elements numBytes allOrNone
       w.dispatcher = d.advance n ∧ w.memory = d.copyToRing data elements n ∧
         w.notified = some n) := by
  obtain ⟨rv, -, -, hw⟩ | ⟨htransit, hphase, -, hw⟩ :=
    d.writeData_outcomes data elements numBytes allOrNone
  · rw [hw]
    exact .inl ⟨rfl, rfl, rfl⟩
  · rw [hw]
    exact .inr ⟨_, min_le_of_right .., htransit, hphase, rfl, rfl, rfl⟩

/-- `WriteData` notifies its peer of what it reports, if it is asked to write anything. -/
theorem notified_writeData (d : DataPipe P H) (data elements : ℕ → UInt8) (numBytes : UInt32)
    (allOrNone : Bool) :
    let w := d.writeData data elements numBytes allOrNone
    w.notified = if w.rv = .ok ∧ numBytes ≠ 0 then some w.numBytes else none := by
  rw [writeData.eq_def]
  generalize (if allOrNone then numBytes else 0) = minNumBytesToWrite
  dsimp only
  split_ifs <;> simp_all

/-- `BeginWriteData` does nothing, or exposes what is free up to the end of the ring. -/
theorem beginWriteData_cases (d : DataPipe P H) :
    (d.beginWriteData.2.1 = d ∧ d.beginWriteData.2.2 = none) ∨
    (d.inTransit = false ∧ d.inTwoPhase = false ∧
      d.beginWriteData.2.1 = { d with inTwoPhase := true } ∧ d.beginWriteData.2.2 =
        some (d.offset.toNat, (min (d.options.capacityNumBytes - d.offset) d.amount).toNat)) := by
  rw [beginWriteData.eq_def]
  split_ifs <;> first
    | exact .inl ⟨rfl, rfl⟩
    | skip
  refine .inr ⟨?_, ?_, rfl, rfl⟩ <;> simp_all

/-- `EndWriteData` does nothing, gives the write up, or ends it. -/
theorem endWriteData_cases (d : DataPipe P H) (numBytesWritten : UInt32) :
    (let w := d.endWriteData numBytesWritten
     (w.2.1 = d ∨ d.inTransit = false ∧ w.2.1 = { d with inTwoPhase := false }) ∧
       w.2.2 = none) ∨
    (numBytesWritten ≤ d.amount ∧
      d.offset + numBytesWritten ≤ d.options.capacityNumBytes ∧
      d.inTransit = false ∧ d.inTwoPhase = true ∧
      (let w := d.endWriteData numBytesWritten
       w.2.1 = { d.advance numBytesWritten with inTwoPhase := false } ∧
         w.2.2 = some numBytesWritten)) := by
  rw [endWriteData.eq_def]
  simp only [Bool.or_eq_true, Bool.not_eq_true', decide_eq_true_eq]
  split_ifs with h₁ h₂ h₃
  · exact .inl ⟨.inl rfl, rfl⟩
  · exact .inl ⟨.inl rfl, rfl⟩
  · exact .inl ⟨.inr ⟨Bool.eq_false_iff.2 (not_or.1 h₁).2, rfl⟩, rfl⟩
  · simp only [not_or, Bool.not_eq_true, Bool.not_eq_false, UInt32.not_lt] at h₁ h₂ h₃
    exact .inr ⟨h₃.1.1, h₃.2, h₁.2, h₂, rfl, rfl⟩

theorem notified_endWriteData (d : DataPipe P H) (numBytesWritten : UInt32) :
    (d.endWriteData numBytesWritten).2.2 =
      if (d.endWriteData numBytesWritten).1 = .ok then some numBytesWritten else none := by
  rw [endWriteData.eq_def]
  split_ifs <;> first | rfl | contradiction

/-- `ReadData` fails, tells how many bytes there are, or reads what there is. -/
theorem readData_outcomes (d : DataPipe P H) (data elements : ℕ → UInt8) (numBytes : UInt32)
    (flags : ReadDataFlags) :
    (∃ rv n, (rv = .ok → n = d.amount ∧ flags.query = true) ∧
      (rv = .shouldWait → numBytes = 0 ∨ d.amount = 0) ∧
      d.readData data elements numBytes flags =
        { rv := rv, numBytes := n, dispatcher := d, memory := elements }) ∨
    (d.inTransit = false ∧ d.inTwoPhase = false ∧ numBytes % d.options.elementNumBytes = 0 ∧
      flags.query = false ∧ (flags.discard && flags.peek) = false ∧
      let n := min numBytes d.amount
      let memory := if flags.discard then elements else d.copyFromRing data elements n
      d.readData data elements numBytes flags =
        if flags.discard || !flags.peek then
          { rv := .ok
            numBytes := n
            dispatcher := d.advance n
            memory := memory
            notified := some n }
        else { rv := .ok, numBytes := n, dispatcher := d, memory := memory }) := by
  rw [readData.eq_def]
  generalize (if flags.allOrNone then numBytes else 0) = minNumBytesToRead
  by_cases h : (d.sharedRingBuffer.isNone || d.inTransit) = true
  · exact .inl ⟨.invalidArgument, numBytes, nofun, nofun, if_pos h⟩
  by_cases hphase : d.inTwoPhase = true
  · exact .inl ⟨.busy, numBytes, nofun, nofun, (if_neg h).trans (if_pos hphase)⟩
  simp only [if_neg h, if_neg hphase]
  simp only [Bool.or_eq_true, not_or, Bool.not_eq_true] at h hphase
  split
  · rename_i hquery
    split
    · exact .inl ⟨.invalidArgument, numBytes, nofun, nofun, rfl⟩
    · exact .inl ⟨.ok, d.amount, fun _ => ⟨rfl, hquery⟩, nofun, rfl⟩
  rename_i hquery
  split
  · exact .inl ⟨.invalidArgument, numBytes, nofun, nofun, rfl⟩
  rename_i hboth
  split
  · exact .inl ⟨.invalidArgument, numBytes, nofun, nofun, rfl⟩
  rename_i hmod
  split
  · exact .inl ⟨if d.peerClosed then .failedPrecondition else .outOfRange, numBytes,
      by split <;> nofun, by split <;> nofun, rfl⟩
  split
  · rename_i hmin
    exact .inl ⟨if d.peerClosed then .failedPrecondition else .shouldWait, numBytes,
      by split <;> nofun, fun _ => min_eq_zero_iff.1 hmin, rfl⟩
  · exact .inr ⟨h.2, hphase, not_not.1 hmod, Bool.eq_false_iff.2 hquery, Bool.eq_false_iff.2 hboth,
      rfl⟩

/-- `ReadData` leaves the pipe as it is, or reads some bytes. -/
theorem readData_cases (d : DataPipe P H) (data elements : ℕ → UInt8) (numBytes : UInt32)
    (flags : ReadDataFlags) :
    (let r := d.readData data elements numBytes flags
     r.dispatcher = d ∧ r.notified = none) ∨
    ∃ n, n ≤ d.amount ∧ d.inTransit = false ∧ d.inTwoPhase = false ∧
      (let r := d.readData data elements numBytes flags
       r.dispatcher = d.advance n ∧ r.notified = some n ∧
         (flags.discard = false → r.memory = d.copyFromRing data elements n)) := by
  obtain ⟨rv, n, -, -, hr⟩ | ⟨htransit, hphase, -, -, -, hr⟩ :=
    d.readData_outcomes data elements numBytes flags
  · rw [hr]
    exact .inl ⟨rfl, rfl⟩
  · rw [hr]
    split
    · exact .inr ⟨_, min_le_of_right .., htransit, hphase, rfl, rfl,
        fun hdiscard => by simp [hdiscard]⟩
    · exact .inl ⟨rfl, rfl⟩

/-- `ReadData` notifies its peer of what it reports, unless it only peeks or asks. -/
theorem notified_readData (d : DataPipe P H) (data elements : ℕ → UInt8) (numBytes : UInt32)
    (flags : ReadDataFlags) :
    let r := d.readData data elements numBytes flags
    r.notified =
      if r.rv = .ok ∧ flags.query = false ∧ flags.peek = false then some r.numBytes else none := by
  obtain ⟨rv, n, hok, -, hr⟩ | ⟨-, -, -, hquery, hboth, hr⟩ :=
    d.readData_outcomes data elements numBytes flags
  · rw [hr]
    refine (if_neg ?_).symm
    rintro ⟨hrv, hquery, -⟩
    rw [(hok hrv).2] at hquery
    cases hquery
  · rw [hr]
    dsimp only
    cases hpeek : flags.peek with
    | true =>
      rw [hpeek, Bool.and_true] at hboth
      simp [hboth]
    | false => simp [hquery]

/-- `BeginReadData` does nothing, or exposes what can be read up to the end of the
    ring. -/
theorem beginReadData_cases (d : DataPipe P H) (flags : ReadDataFlags) :
    (d.beginReadData flags).2.1 = d ∨
    (d.inTransit = false ∧ (d.beginReadData flags).2.1 = { d with
      inTwoPhase := true
      twoPhaseMaxBytesRead := min d.amount (d.options.capacityNumBytes - d.offset) }) := by
  rw [beginReadData.eq_def]
  split_ifs <;> first
    | exact .inl rfl
    | skip
  refine .inr ⟨?_, rfl⟩
  simp_all

/-- `EndReadData` does nothing, gives the read up, or ends it. -/
theorem endReadData_cases (d : DataPipe P H) (numBytesRead : UInt32) :
    (let r := d.endReadData numBytesRead
     (r.2.1 = d ∨ d.inTransit = false ∧ r.2.1 = { d with
       inTwoPhase := false, twoPhaseMaxBytesRead := 0 }) ∧ r.2.2 = none) ∨
    (numBytesRead ≤ d.twoPhaseMaxBytesRead ∧ d.inTransit = false ∧ d.inTwoPhase = true ∧
      (let r := d.endReadData numBytesRead
       r.2.1 = { d.advance numBytesRead with
         inTwoPhase := false, twoPhaseMaxBytesRead := 0 } ∧ r.2.2 = some numBytesRead)) := by
  rw [endReadData.eq_def]
  simp only [Bool.or_eq_true, Bool.not_eq_true', decide_eq_true_eq]
  split_ifs with h₁ h₂ h₃
  · exact .inl ⟨.inl rfl, rfl⟩
  · exact .inl ⟨.inl rfl, rfl⟩
  · exact .inl ⟨.inr ⟨Bool.eq_false_iff.2 h₂, rfl⟩, rfl⟩
  · simp only [not_or, Bool.not_eq_true, Bool.not_eq_false, UInt32.not_lt] at h₁ h₂ h₃
    exact .inr ⟨h₃.1, h₂, h₁, rfl, rfl⟩

theorem notified_endReadData (d : DataPipe P H) (numBytesRead : UInt32) :
    (d.endReadData numBytesRead).2.2 =
      if (d.endReadData numBytesRead).1 = .ok then some numBytesRead else none := by
  rw [endReadData.eq_def]
  dsimp only
  split_ifs <;> first | rfl | contradiction

/-- The number of bytes that messages tell of. -/
def totalBytes (messages : List DataPipeControlMessage) : ℕ :=
  (messages.map (·.numBytes.toNat)).sum

@[simp] theorem totalBytes_nil : totalBytes [] = 0 := rfl

@[simp] theorem totalBytes_cons (m : DataPipeControlMessage)
    (messages : List DataPipeControlMessage) :
    totalBytes (m :: messages) = m.numBytes.toNat + totalBytes messages := rfl

@[simp] theorem totalBytes_append (messages messages' : List DataPipeControlMessage) :
    totalBytes (messages ++ messages') = totalBytes messages + totalBytes messages' := by
  rw [totalBytes, List.map_append, List.sum_append]
  rfl

/-- Messages of the peer that tell of no more bytes than there can be are all
    processed. -/
theorem processMessages_eq {command : DataPipeCommand} (closedByExcess drained : Bool)
    {messages : List DataPipeControlMessage} (d : DataPipe P H)
    (hcommand : ∀ m ∈ messages, m.command = command)
    (hamount : d.amount.toNat + totalBytes messages ≤ d.options.capacityNumBytes.toNat) :
    ∃ amount, processMessages command closedByExcess drained messages d =
        ([], { d with amount := amount, peerClosed := d.peerClosed || drained }) ∧
      amount.toNat = d.amount.toNat + totalBytes messages := by
  induction messages generalizing d with
  | nil => exact ⟨d.amount, rfl, rfl⟩
  | cons m messages ih =>
    rw [totalBytes_cons] at hamount
    have hlt := d.options.capacityNumBytes.toNat_lt
    have hadd : (d.amount + m.numBytes).toNat = d.amount.toNat + m.numBytes.toNat := by
      rw [UInt32.toNat_add, Nat.mod_eq_of_lt (by omega)]
    have hamount' : (d.amount + m.numBytes).toNat + totalBytes messages ≤
        d.options.capacityNumBytes.toNat := by
      rw [hadd]
      omega
    obtain ⟨amount, h, htotal⟩ := ih { d with amount := d.amount + m.numBytes }
      (fun m' hm' => hcommand m' (List.mem_cons_of_mem m hm')) hamount'
    refine ⟨amount, ?_, ?_⟩
    · rw [processMessages, if_neg (not_not.2 (hcommand m List.mem_cons_self)), if_neg (by omega), h]
    · rw [htotal, hadd, totalBytes_cons]
      omega

/-- `UpdateSignalsStateNoLock` does not lose bytes that messages of the peer tell of,
    and leaves an end in transit as it is. It may just learn of a closure, if no message is
    left. -/
theorem updateSignalsState_cases {command : DataPipeCommand} (closedByExcess drained : Bool)
    {messages : List DataPipeControlMessage} (d : DataPipe P H)
    (hcommand : ∀ m ∈ messages, m.command = command)
    (hamount : d.amount.toNat + totalBytes messages ≤ d.options.capacityNumBytes.toNat) :
    ∃ messages' amount peerClosed,
      updateSignalsState command closedByExcess drained messages d =
        (messages', { d with amount := amount, peerClosed := peerClosed }) ∧
      (messages' = messages ∧ amount = d.amount ∨ messages' = [] ∧ d.inTransit = false ∧
        amount.toNat = d.amount.toNat + totalBytes messages) ∧
      (peerClosed = true → d.peerClosed = true ∨ drained = true ∧ messages' = []) ∧
      (d.inTransit = false → messages' = []) := by
  rw [updateSignalsState]
  simp only
  split_ifs with h
  · simp only [Bool.and_eq_true, Bool.not_eq_true'] at h
    obtain ⟨amount, heq, htotal⟩ := processMessages_eq closedByExcess drained
      { d with peerClosed := d.peerClosed || (drained && messages.isEmpty) }
      hcommand hamount
    refine ⟨[], amount, _, heq, .inr ⟨rfl, h.2, htotal⟩, fun hclosed => ?_, fun _ => rfl⟩
    simp only [h.1, Bool.and_false, Bool.or_false, Bool.or_eq_true] at hclosed
    exact hclosed.imp_right fun hdrained => ⟨hdrained, rfl⟩
  · refine ⟨messages, d.amount, _, rfl, .inl ⟨rfl, rfl⟩, fun hclosed => ?_, fun htransit => ?_⟩
    · simp only [Bool.or_eq_true, Bool.and_eq_true, List.isEmpty_iff] at hclosed
      exact hclosed
    · simp only [htransit, Bool.not_false, Bool.and_true, Bool.not_eq_true, Bool.not_eq_false',
        List.isEmpty_iff] at h
      exact h

end Specs

end DataPipe

end MojoEdk.Core
