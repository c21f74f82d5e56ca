import MojoEdk.DataPipe.Pipe
import MojoEdk.Library.Checked

/-!
# Received data pipes

An end of a data pipe that was made of a state received from another process, which may
have stored anything there: `Deserialize` checks the sizes of what it is given, not the
options, the offset and the amount. The calls on the end, and what they divide, subtract
and copy (`Call.checked`), in any order and with any control messages in between.

Everything goes right if the state is one of a data pipe: the offset is below the
capacity, the amount is at most the capacity, and elements have a size unless no call
gets to divide by it (`Usable`).
-/

namespace MojoEdk.Core.DataPipe

variable {P H : Type} {d : DataPipe P H}

/-- `InitializeNoLock`, given whether the ring could be mapped. -/
def initializeNoLock (mapped : Bool) (d : DataPipe P H) : DataPipe P H :=
  if mapped then d else { d with sharedRingBuffer := none }

/-! ## Checked calls -/

/-- The copies between the ring and the memory of the caller. -/
def checkedCopy (d : DataPipe P H) (numBytes : UInt32) (always : Bool) : Checked PUnit := do
  Checked.subtract d.options.capacityNumBytes.toNat d.offset.toNat
  let tail := min (d.options.capacityNumBytes - d.offset) numBytes
  Checked.subtract numBytes.toNat tail.toNat
  Checked.accessIf (always ∨ tail > 0) d.options.capacityNumBytes.toNat d.offset.toNat tail.toNat
  Checked.accessIf (numBytes - tail > 0) d.options.capacityNumBytes.toNat 0 (numBytes - tail).toNat

/-- The end after some bytes were written or read. -/
def checkedAdvance (d : DataPipe P H) (n : UInt32) : Checked (DataPipe P H) := do
  Checked.subtract d.amount.toNat n.toNat
  Checked.divide d.options.capacityNumBytes.toNat
  pure (d.advance n)

/-- `WriteData`. -/
def checkedWriteData (d : DataPipe P H) (numBytes : UInt32) (allOrNone : Bool) :
    Checked (DataPipe P H) :=
  if d.sharedRingBuffer.isNone || d.inTransit then pure d
  else if d.inTwoPhase then pure d
  else if d.peerClosed then pure d
  else do
    Checked.divide d.options.elementNumBytes.toNat
    if numBytes % d.options.elementNumBytes ≠ 0 then pure d
    else if numBytes = 0 then pure d
    else if (if allOrNone then numBytes else 0) > d.options.capacityNumBytes then pure d
    else if min numBytes d.amount = 0 then pure d
    else
      d.checkedCopy (min numBytes d.amount) true
      d.checkedAdvance (min numBytes d.amount)

/-- `BeginWriteData`, and the write of the caller to the memory it is given. -/
def checkedBeginWriteData (d : DataPipe P H) : Checked (DataPipe P H) :=
  if d.sharedRingBuffer.isNone || d.inTransit then pure d
  else if d.inTwoPhase then pure d
  else if d.peerClosed then pure d
  else if d.amount = 0 then pure d
  else do
    Checked.subtract d.options.capacityNumBytes.toNat d.offset.toNat
    Checked.access d.options.capacityNumBytes.toNat d.offset.toNat
      (min (d.options.capacityNumBytes - d.offset) d.amount).toNat
    pure { d with inTwoPhase := true }

/-- `EndWriteData`. -/
def checkedEndWriteData (d : DataPipe P H) (numBytesWritten : UInt32) : Checked (DataPipe P H) :=
  if d.isClosed || d.inTransit then pure d
  else if !d.inTwoPhase then pure d
  else if numBytesWritten > d.amount then pure { d with inTwoPhase := false }
  else do
    Checked.divide d.options.elementNumBytes.toNat
    if numBytesWritten % d.options.elementNumBytes ≠ 0 ∨
        d.offset + numBytesWritten > d.options.capacityNumBytes then
      pure { d with inTwoPhase := false }
    else
      let d' ← d.checkedAdvance numBytesWritten
      pure { d' with inTwoPhase := false }

/-- `ReadData`. -/
def checkedReadData (d : DataPipe P H) (numBytes : UInt32) (flags : ReadDataFlags) :
    Checked (DataPipe P H) :=
  if d.sharedRingBuffer.isNone || d.inTransit then pure d
  else if d.inTwoPhase then pure d
  else if flags.query then pure d
  else if flags.discard && flags.peek then pure d
  else do
    Checked.divide d.options.elementNumBytes.toNat
    if numBytes % d.options.elementNumBytes ≠ 0 then pure d
    else if (if flags.allOrNone then numBytes else 0) > d.amount then pure d
    else if min numBytes d.amount = 0 then pure d
    else
      if flags.discard then pure ⟨⟩ else d.checkedCopy (min numBytes d.amount) false
      if flags.discard || !flags.peek then d.checkedAdvance (min numBytes d.amount) else pure d

/-- `BeginReadData`, and the read of the caller from the memory it is given. -/
def checkedBeginReadData (d : DataPipe P H) (flags : ReadDataFlags) : Checked (DataPipe P H) :=
  if d.sharedRingBuffer.isNone || d.inTransit then pure d
  else if d.inTwoPhase then pure d
  else if flags.discard || flags.query || flags.peek then pure d
  else if d.amount = 0 then pure d
  else do
    Checked.subtract d.options.capacityNumBytes.toNat d.offset.toNat
    let bytesToRead := min d.amount (d.options.capacityNumBytes - d.offset)
    Checked.access d.options.capacityNumBytes.toNat d.offset.toNat bytesToRead.toNat
    pure { d with inTwoPhase := true, twoPhaseMaxBytesRead := bytesToRead }

/-- `EndReadData`. -/
def checkedEndReadData (d : DataPipe P H) (numBytesRead : UInt32) : Checked (DataPipe P H) :=
  if !d.inTwoPhase then pure d
  else if d.inTransit then pure d
  else if numBytesRead > d.twoPhaseMaxBytesRead then
    pure { d with inTwoPhase := false, twoPhaseMaxBytesRead := 0 }
  else do
    Checked.divide d.options.elementNumBytes.toNat
    if numBytesRead % d.options.elementNumBytes ≠ 0 then
      pure { d with inTwoPhase := false, twoPhaseMaxBytesRead := 0 }
    else
      let d' ← d.checkedAdvance numBytesRead
      pure { d' with inTwoPhase := false, twoPhaseMaxBytesRead := 0 }

/-! ## The calls and their checked versions -/

/-- The checks change nothing that is computed. -/
theorem value_checkedAdvance (n : UInt32) : (d.checkedAdvance n).value = d.advance n := rfl

theorem value_checkedWriteData (data elements : ℕ → UInt8) (numBytes : UInt32) (allOrNone : Bool) :
    (d.checkedWriteData numBytes allOrNone).value =
      (d.writeData data elements numBytes allOrNone).dispatcher := by
  rw [checkedWriteData, writeData.eq_def]
  simp only [apply_ite Checked.value, apply_ite Access.dispatcher, Checked.value_bind,
    Checked.value_pure, value_checkedAdvance]
  rfl

theorem value_checkedBeginWriteData : d.checkedBeginWriteData.value = d.beginWriteData.2.1 := by
  rw [checkedBeginWriteData, beginWriteData.eq_def]
  split_ifs <;> rfl

theorem value_checkedEndWriteData (numBytesWritten : UInt32) :
    (d.checkedEndWriteData numBytesWritten).value = (d.endWriteData numBytesWritten).2.1 := by
  rw [checkedEndWriteData, endWriteData.eq_def]
  simp only [apply_ite Checked.value, Checked.value_bind, Checked.value_pure,
    value_checkedAdvance, Bool.or_eq_true, decide_eq_true_eq]
  split_ifs <;> first | rfl | tauto

theorem value_checkedReadData (data elements : ℕ → UInt8) (numBytes : UInt32)
    (flags : ReadDataFlags) :
    (d.checkedReadData numBytes flags).value =
      (d.readData data elements numBytes flags).dispatcher := by
  rw [checkedReadData, readData.eq_def]
  simp only [apply_ite Checked.value, apply_ite Access.dispatcher, Checked.value_bind,
    Checked.value_pure, value_checkedAdvance, ite_self]
  rfl

theorem value_checkedBeginReadData (flags : ReadDataFlags) :
    (d.checkedBeginReadData flags).value = (d.beginReadData flags).2.1 := by
  rw [checkedBeginReadData, beginReadData.eq_def]
  split_ifs <;> rfl

theorem value_checkedEndReadData (numBytesRead : UInt32) :
    (d.checkedEndReadData numBytesRead).value = (d.endReadData numBytesRead).2.1 := by
  rw [checkedEndReadData, endReadData.eq_def]
  simp only [apply_ite Checked.value, Checked.value_bind, Checked.value_pure,
    value_checkedAdvance, Bool.or_eq_true, decide_eq_true_eq]
  split_ifs <;> first | rfl | tauto

/-! ## The range of the offset and the amount -/

/-- The offset is below the capacity, and the amount at most the capacity. -/
structure Ranged (d : DataPipe P H) : Prop where
  offset_lt : d.offset.toNat < d.options.capacityNumBytes.toNat
  amount_le : d.amount.toNat ≤ d.options.capacityNumBytes.toNat

/-- The copies stay in the ring. -/
theorem Ranged.sound_checkedCopy (h : d.Ranged) {n : UInt32} (hn : n ≤ d.amount) (always : Bool) :
    (d.checkedCopy n always).Sound := by
  have hoff := h.offset_lt
  have hamount := h.amount_le
  have hle : d.offset ≤ d.options.capacityNumBytes := UInt32.le_iff_toNat_le.2 hoff.le
  have htail := toNat_tail (n := n) hle
  have hhead := toNat_head (d.options.capacityNumBytes - d.offset) n
  rw [UInt32.le_iff_toNat_le] at hn
  simp only [checkedCopy, Checked.sound_bind, Checked.sound_subtract, Checked.sound_accessIf]
  refine ⟨hoff.le, ?_, fun _ => ?_, fun _ => ?_⟩
  · omega
  · omega
  · omega

/-- The memory that is exposed up to the end of the ring. -/
theorem Ranged.tail_le (h : d.Ranged) (n : UInt32) :
    d.offset.toNat + (min (d.options.capacityNumBytes - d.offset) n).toNat ≤
      d.options.capacityNumBytes.toNat := by
  have hoff := h.offset_lt
  rw [toNat_tail (UInt32.le_iff_toNat_le.2 hoff.le)]
  omega

theorem min_le_of_left (m n : UInt32) : min m n ≤ m := by
  rw [UInt32.le_iff_toNat_le, UInt32.toNat_min]
  exact min_le_left ..

/-- The bytes up to the end of the ring, or all that are asked for, are in the ring. -/
theorem Ranged.exposed_le (h : d.Ranged) (n : UInt32) :
    d.offset.toNat + (min n (d.options.capacityNumBytes - d.offset)).toNat ≤
      d.options.capacityNumBytes.toNat := by
  have htail := h.tail_le n
  rw [UInt32.toNat_min] at htail ⊢
  rwa [min_comm]

/-- The offset moves by no more bytes than there are. -/
theorem Ranged.sound_checkedAdvance (h : d.Ranged) {n : UInt32} (hn : n ≤ d.amount) :
    (d.checkedAdvance n).Sound := by
  have hoff := h.offset_lt
  simp only [checkedAdvance, Checked.sound_bind, Checked.sound_subtract, Checked.sound_divide,
    Checked.sound_pure, and_true]
  exact ⟨UInt32.le_iff_toNat_le.1 hn, by omega⟩

/-- The offset and the amount stay within the capacity. -/
theorem Ranged.advance (h : d.Ranged) {n : UInt32} (hn : n ≤ d.amount) : (d.advance n).Ranged where
  offset_lt := by
    have hoff := h.offset_lt
    change ((d.offset + n) % d.options.capacityNumBytes).toNat < d.options.capacityNumBytes.toNat
    rw [UInt32.toNat_mod]
    exact Nat.mod_lt _ (by omega)
  amount_le := by
    change (d.amount - n).toNat ≤ d.options.capacityNumBytes.toNat
    rw [UInt32.toNat_sub_of_le _ _ hn]
    exact (Nat.sub_le ..).trans h.amount_le

/-- Control messages do not raise the amount above the capacity. -/
theorem Ranged.processMessages (h : d.Ranged) (command : DataPipeCommand)
    (closedByExcess drained : Bool) (messages : List DataPipeControlMessage) :
    ∃ amount peerClosed, (processMessages command closedByExcess drained messages d).2 =
        { d with amount := amount, peerClosed := peerClosed } ∧
      d.amount.toNat ≤ amount.toNat ∧ amount.toNat ≤ d.options.capacityNumBytes.toNat ∧
      (d.peerClosed → peerClosed) := by
  induction messages generalizing d with
  | nil => exact ⟨d.amount, _, rfl, le_rfl, h.amount_le, fun hc => by simp [hc]⟩
  | cons m messages ih =>
    rw [DataPipe.processMessages]
    split_ifs with hcommand hexcess
    · exact ⟨d.amount, true, rfl, le_rfl, h.amount_le, fun _ => rfl⟩
    · exact ⟨d.amount, _, rfl, le_rfl, h.amount_le, fun hc => by simp [hc]⟩
    · have hlt := d.options.capacityNumBytes.toNat_lt
      -- The sum was checked against the capacity, and does not wrap.
      have hadd : (d.amount + m.numBytes).toNat = d.amount.toNat + m.numBytes.toNat := by
        rw [UInt32.toNat_add, Nat.mod_eq_of_lt (by omega)]
      obtain ⟨amount, peerClosed, heq, hle, hcap, hclosed⟩ :=
        ih (d := { d with amount := d.amount + m.numBytes })
          ⟨h.offset_lt, hadd.trans_le (not_lt.1 hexcess)⟩
      refine ⟨amount, peerClosed, heq, le_trans ?_ hle, hcap, hclosed⟩
      rw [hadd]
      exact Nat.le_add_right ..

/-- Control messages change the amount, and whether the peer is closed. -/
theorem Ranged.updateSignalsState (h : d.Ranged) (command : DataPipeCommand)
    (closedByExcess drained : Bool) (messages : List DataPipeControlMessage) :
    ∃ amount peerClosed, (updateSignalsState command closedByExcess drained messages d).2 =
        { d with amount := amount, peerClosed := peerClosed } ∧
      d.amount.toNat ≤ amount.toNat ∧ amount.toNat ≤ d.options.capacityNumBytes.toNat ∧
      (d.peerClosed → peerClosed) := by
  rw [DataPipe.updateSignalsState]
  simp only
  split_ifs with hmessages
  · have h' : Ranged { d with peerClosed := d.peerClosed || (drained && messages.isEmpty) } :=
      ⟨h.offset_lt, h.amount_le⟩
    obtain ⟨amount, peerClosed, heq, hle, hcap, hclosed⟩ :=
      h'.processMessages command closedByExcess drained messages
    exact ⟨amount, peerClosed, heq, hle, hcap, fun hc => hclosed (by simp [hc])⟩
  · exact ⟨d.amount, _, rfl, le_rfl, h.amount_le, fun hc => by simp [hc]⟩

end MojoEdk.Core.DataPipe

namespace MojoEdk.DataPipe

open MojoEdk.Core MojoEdk.Core.DataPipe

variable {P H : Type} {d : Core.DataPipe P H} {side : Side}

/-! ## Calls in any order -/

/-- A call on an end, or control messages for it. -/
inductive Call : Side → Type
  | writeData (numBytes : UInt32) (allOrNone : Bool) : Call .producer
  | beginWriteData : Call .producer
  | endWriteData (numBytesWritten : UInt32) : Call .producer
  | readData (numBytes : UInt32) (flags : ReadDataFlags) : Call .consumer
  | beginReadData (flags : ReadDataFlags) : Call .consumer
  | endReadData (numBytesRead : UInt32) : Call .consumer
  | updateSignalsState {side : Side} (drained : Bool) (messages : List DataPipeControlMessage) :
      Call side

/-- `UpdateSignalsStateNoLock` of an end. -/
def Side.updateSignalsState (side : Side) (drained : Bool)
    (messages : List DataPipeControlMessage) (d : Core.DataPipe P H) : Core.DataPipe P H :=
  match side with
  | .producer => (updateProducer drained messages d).2
  | .consumer => (updateConsumer drained messages d).2

/-- The end after a call, and what the call does. -/
def Call.checked (d : Core.DataPipe P H) : Call side → Checked (Core.DataPipe P H)
  | .writeData numBytes allOrNone => d.checkedWriteData numBytes allOrNone
  | .beginWriteData => d.checkedBeginWriteData
  | .endWriteData numBytesWritten => d.checkedEndWriteData numBytesWritten
  | .readData numBytes flags => d.checkedReadData numBytes flags
  | .beginReadData flags => d.checkedBeginReadData flags
  | .endReadData numBytesRead => d.checkedEndReadData numBytesRead
  | .updateSignalsState drained messages => pure (side.updateSignalsState drained messages d)

/-- The offset and the amount stay in range along the calls, and none of the calls does
    anything wrong. -/
def Safe (d : Core.DataPipe P H) : List (Call side) → Prop
  | [] => d.Ranged
  | call :: calls => d.Ranged ∧ (call.checked d).Sound ∧ Safe (call.checked d).value calls

/-- No call divides by the size of the elements: there is no ring, or the end is a
    producer that knows its peer is closed. -/
def Idle (side : Side) (d : Core.DataPipe P H) : Prop :=
  d.sharedRingBuffer = none ∨ side = .producer ∧ d.peerClosed = true

/-- A state in which an end can be used. -/
def Usable (side : Side) (d : Core.DataPipe P H) : Prop :=
  d.offset < d.options.capacityNumBytes ∧ d.amount ≤ d.options.capacityNumBytes ∧
    (d.options.elementNumBytes ≠ 0 ∨ Idle side d)

/-- The invariant of an end that is used. -/
structure Inv (side : Side) (d : Core.DataPipe P H) : Prop where
  ranged : d.Ranged
  element : d.options.elementNumBytes.toNat ≠ 0 ∨ (Idle side d ∧ d.inTwoPhase = false)
  window : side = .consumer → d.inTwoPhase → d.twoPhaseMaxBytesRead ≤ d.amount

/-- A call that gets to the ring divides by the size of an element, which is not 0. -/
theorem Inv.element_of_ring (h : Inv side d)
    (hring : ¬(d.sharedRingBuffer.isNone || d.inTransit) = true)
    (hpeer : side = .producer → d.peerClosed = false) : d.options.elementNumBytes.toNat ≠ 0 := by
  refine h.element.resolve_right ?_
  rintro ⟨hnone | ⟨hside, hclosed⟩, -⟩
  · rw [hnone] at hring
    exact hring rfl
  · rw [hpeer hside] at hclosed
    cases hclosed

/-- A call in two phases got to the ring before. -/
theorem Inv.element_of_inTwoPhase (h : Inv side d) (hphase : d.inTwoPhase = true) :
    d.options.elementNumBytes.toNat ≠ 0 := by
  refine h.element.resolve_right fun hidle => ?_
  rw [hphase] at hidle
  cases hidle.2

/-- An end that wrote or read some bytes. -/
theorem Inv.advance (h : Inv side d) {n : UInt32} (hn : n ≤ d.amount)
    (hphase : d.inTwoPhase = false) : Inv side (d.advance n) where
  ranged := h.ranged.advance hn
  element := h.element
  window _ hphase' := by
    rw [show (d.advance n).inTwoPhase = d.inTwoPhase from rfl, hphase] at hphase'
    cases hphase'

/-- An end that ended a write or a read in two phases. -/
theorem Inv.endTwoPhase (h : Inv side d) {d' : Core.DataPipe P H} (hranged : d'.Ranged)
    (hphase : d.inTwoPhase = true) (hoptions : d'.options = d.options)
    (hphase' : d'.inTwoPhase = false) : Inv side d' where
  ranged := hranged
  element := .inl (hoptions ▸ h.element_of_inTwoPhase hphase)
  window _ hp := by
    rw [hphase'] at hp
    cases hp

/-- `WriteData` is sound. -/
theorem Inv.writeData {d : Core.DataPipe P H} (h : Inv .producer d) (numBytes : UInt32)
    (allOrNone : Bool) : (d.checkedWriteData numBytes allOrNone).Gives (Inv .producer) := by
  have hd := Checked.gives_pure h
  have hn := min_le_of_right numBytes d.amount
  refine .ite (fun _ => hd) fun hring => .ite (fun _ => hd) fun hphase => .ite (fun _ => hd)
    fun hclosed => ?_
  refine .seq (Checked.sound_divide.2 (h.element_of_ring hring fun _ => by simpa using hclosed)) ?_
  refine .ite (fun _ => hd) fun _ => .ite (fun _ => hd) fun _ => .ite (fun _ => hd)
    fun _ => .ite (fun _ => hd) fun _ => ?_
  refine .seq (h.ranged.sound_checkedCopy hn _) ⟨h.ranged.sound_checkedAdvance hn, ?_⟩
  exact h.advance hn (by simpa using hphase)

/-- `BeginWriteData` is sound. -/
theorem Inv.beginWriteData {d : Core.DataPipe P H} (h : Inv .producer d) :
    d.checkedBeginWriteData.Gives (Inv .producer) := by
  have hd := Checked.gives_pure h
  refine .ite (fun _ => hd) fun hring => .ite (fun _ => hd) fun _ => .ite (fun _ => hd)
    fun hclosed => .ite (fun _ => hd) fun _ => ?_
  refine .seq (Checked.sound_subtract.2 h.ranged.offset_lt.le) ?_
  refine .seq (Checked.sound_access.2 (h.ranged.tail_le _)) (Checked.gives_pure ?_)
  exact
    { ranged := ⟨h.ranged.offset_lt, h.ranged.amount_le⟩
      element := .inl (h.element_of_ring hring fun _ => by simpa using hclosed)
      window := nofun }

/-- `EndWriteData` is sound. -/
theorem Inv.endWriteData {d : Core.DataPipe P H} (h : Inv .producer d) (numBytesWritten : UInt32) :
    (d.checkedEndWriteData numBytesWritten).Gives (Inv .producer) := by
  have hd := Checked.gives_pure h
  refine .ite (fun _ => hd) fun _ => .ite (fun _ => hd) fun hphase => ?_
  replace hphase : d.inTwoPhase = true := by simpa using hphase
  have hend : (pure { d with inTwoPhase := false } : Checked (Core.DataPipe P H)).Gives
      (Inv .producer) :=
    Checked.gives_pure (h.endTwoPhase ⟨h.ranged.offset_lt, h.ranged.amount_le⟩ hphase rfl rfl)
  refine .ite (fun _ => hend) fun hle => ?_
  replace hle : numBytesWritten ≤ d.amount := UInt32.not_lt.1 hle
  refine .seq (Checked.sound_divide.2 (h.element_of_inTwoPhase hphase)) (.ite (fun _ => hend)
    fun _ => .seq (h.ranged.sound_checkedAdvance hle) (Checked.gives_pure ?_))
  have hadv := h.ranged.advance hle
  exact h.endTwoPhase ⟨hadv.offset_lt, hadv.amount_le⟩ hphase rfl rfl

/-- `ReadData` is sound. -/
theorem Inv.readData {d : Core.DataPipe P H} (h : Inv .consumer d) (numBytes : UInt32)
    (flags : ReadDataFlags) : (d.checkedReadData numBytes flags).Gives (Inv .consumer) := by
  have hd := Checked.gives_pure h
  have hn := min_le_of_right numBytes d.amount
  refine .ite (fun _ => hd) fun hring => .ite (fun _ => hd) fun hphase => .ite (fun _ => hd)
    fun _ => .ite (fun _ => hd) fun _ => ?_
  refine .seq (Checked.sound_divide.2 (h.element_of_ring hring nofun)) ?_
  refine .ite (fun _ => hd) fun _ => .ite (fun _ => hd) fun _ => .ite (fun _ => hd) fun _ => ?_
  have hrest : (if flags.discard || !flags.peek then d.checkedAdvance (min numBytes d.amount)
      else pure d : Checked (Core.DataPipe P H)).Gives (Inv .consumer) :=
    .ite (fun _ => ⟨h.ranged.sound_checkedAdvance hn, h.advance hn (by simpa using hphase)⟩)
      fun _ => hd
  exact .ite (fun _ => hrest) fun _ => .seq (h.ranged.sound_checkedCopy hn _) hrest

/-- `BeginReadData` is sound. -/
theorem Inv.beginReadData {d : Core.DataPipe P H} (h : Inv .consumer d) (flags : ReadDataFlags) :
    (d.checkedBeginReadData flags).Gives (Inv .consumer) := by
  have hd := Checked.gives_pure h
  refine .ite (fun _ => hd) fun hring => .ite (fun _ => hd) fun _ => .ite (fun _ => hd)
    fun _ => .ite (fun _ => hd) fun _ => ?_
  refine .seq (Checked.sound_subtract.2 h.ranged.offset_lt.le) ?_
  refine .seq (Checked.sound_access.2 ?_) (Checked.gives_pure ?_)
  · exact h.ranged.exposed_le _
  · exact
      { ranged := ⟨h.ranged.offset_lt, h.ranged.amount_le⟩
        element := .inl (h.element_of_ring hring nofun)
        window := fun _ _ => min_le_of_left d.amount _ }

/-- `EndReadData` is sound. -/
theorem Inv.endReadData {d : Core.DataPipe P H} (h : Inv .consumer d) (numBytesRead : UInt32) :
    (d.checkedEndReadData numBytesRead).Gives (Inv .consumer) := by
  have hd := Checked.gives_pure h
  refine .ite (fun _ => hd) fun hphase => .ite (fun _ => hd) fun _ => ?_
  replace hphase : d.inTwoPhase = true := by simpa using hphase
  have hend : (pure { d with inTwoPhase := false, twoPhaseMaxBytesRead := 0 } :
      Checked (Core.DataPipe P H)).Gives (Inv .consumer) :=
    Checked.gives_pure (h.endTwoPhase ⟨h.ranged.offset_lt, h.ranged.amount_le⟩ hphase rfl rfl)
  refine .ite (fun _ => hend) fun hle => ?_
  -- What is read was exposed, and more can only have become available since.
  replace hle : numBytesRead ≤ d.amount :=
    UInt32.le_trans (UInt32.not_lt.1 hle) (h.window rfl hphase)
  refine .seq (Checked.sound_divide.2 (h.element_of_inTwoPhase hphase)) (.ite (fun _ => hend)
    fun _ => .seq (h.ranged.sound_checkedAdvance hle) (Checked.gives_pure ?_))
  have hadv := h.ranged.advance hle
  exact h.endTwoPhase ⟨hadv.offset_lt, hadv.amount_le⟩ hphase rfl rfl

/-- Control messages leave an end usable. -/
theorem Inv.updateSignalsState (h : Inv side d) (drained : Bool)
    (messages : List DataPipeControlMessage) :
    Inv side (side.updateSignalsState drained messages d) := by
  have hcases : ∃ amount peerClosed, side.updateSignalsState drained messages d =
        { d with amount := amount, peerClosed := peerClosed } ∧
      d.amount.toNat ≤ amount.toNat ∧ amount.toNat ≤ d.options.capacityNumBytes.toNat ∧
      (d.peerClosed → peerClosed) := by
    cases side with
    | producer => exact h.ranged.updateSignalsState ..
    | consumer => exact h.ranged.updateSignalsState ..
  obtain ⟨amount, peerClosed, heq, hle, hcap, hclosed⟩ := hcases
  rw [heq]
  refine ⟨⟨h.ranged.offset_lt, hcap⟩, h.element.imp_right fun hidle => ⟨?_, hidle.2⟩,
    fun hside hphase => UInt32.le_trans (h.window hside hphase) (UInt32.le_iff_toNat_le.2 hle)⟩
  exact hidle.1.imp_right fun hpeer => ⟨hpeer.1, hclosed hpeer.2⟩

/-- Every call is sound, and leaves an end usable. -/
theorem Inv.checked (h : Inv side d) (call : Call side) : (call.checked d).Gives (Inv side) := by
  cases call with
  | writeData numBytes allOrNone => exact h.writeData numBytes allOrNone
  | beginWriteData => exact h.beginWriteData
  | endWriteData numBytesWritten => exact h.endWriteData numBytesWritten
  | readData numBytes flags => exact h.readData numBytes flags
  | beginReadData flags => exact h.beginReadData flags
  | endReadData numBytesRead => exact h.endReadData numBytesRead
  | updateSignalsState drained messages =>
    exact Checked.gives_pure (h.updateSignalsState drained messages)

/-- Every sequence of calls is sound. -/
theorem Inv.safe (h : Inv side d) (calls : List (Call side)) : Safe d calls := by
  induction calls generalizing d with
  | nil => exact h.ranged
  | cons call calls ih =>
    obtain ⟨hsound, hinv⟩ := h.checked call
    exact ⟨h.ranged, hsound, ih hinv⟩

/-! ## Results -/

variable {bytes : List UInt8} {ports : List P} {handles : List (Option H)}

/-- An end that was received is open, and nothing was begun on it. -/
theorem inTransit_and_inTwoPhase_of_deserialize
    (hd : Dispatcher.deserializeDataPipe bytes ports handles = some d) (mapped : Bool) :
    (d.initializeNoLock mapped).inTransit = false ∧
      (d.initializeNoLock mapped).inTwoPhase = false := by
  unfold Dispatcher.deserializeDataPipe at hd
  split at hd
  · split_ifs at hd
    cases hd
    cases mapped
    · exact ⟨rfl, rfl⟩
    · exact ⟨rfl, rfl⟩
  · cases hd

/-- An end that is usable, and not in use, is safe to call. -/
theorem Inv.of_usable (h : Usable side d) (hphase : d.inTwoPhase = false) : Inv side d where
  ranged := ⟨UInt32.lt_iff_toNat_lt.1 h.1, UInt32.le_iff_toNat_le.1 h.2.1⟩
  element := h.2.2.imp (fun hne h0 => hne (UInt32.toNat_inj.1 h0)) fun hidle => ⟨hidle, hphase⟩
  window _ hp := by
    rw [hphase] at hp
    cases hp

/-- A call that divides by the size of the elements. -/
theorem element_or_idle_of_safe (h : ∀ calls : List (Call side), Safe d calls)
    (htransit : d.inTransit = false) (hphase : d.inTwoPhase = false) :
    d.options.elementNumBytes ≠ 0 ∨ Idle side d := by
  refine or_iff_not_imp_right.2 fun hidle hzero => ?_
  obtain ⟨hring, hpeer⟩ := not_or.1 hidle
  have hring' : d.sharedRingBuffer.isNone = false := by
    rwa [← Bool.not_eq_true, Option.isNone_iff_eq_none]
  cases side with
  | producer =>
    have hpeer' : d.peerClosed = false := by simpa using hpeer
    -- A write of no bytes divides by the size of an element all the same.
    have hsound := (h [.writeData 0 false]).2.1
    simp only [Call.checked, checkedWriteData, hring', htransit, hphase, hpeer', Bool.or_self,
      Bool.false_eq_true, if_false, Checked.sound_bind, Checked.sound_divide] at hsound
    exact hsound.1 (by rw [hzero]; rfl)
  | consumer =>
    have hsound := (h [.readData 0 {}]).2.1
    simp only [Call.checked, checkedReadData, hring', htransit, hphase, Bool.or_self,
      Bool.and_self, Bool.false_eq_true, if_false, Checked.sound_bind,
      Checked.sound_divide] at hsound
    exact hsound.1 (by rw [hzero]; rfl)

/-- Every call on an end that was received, whatever was called before, stays in the
    ring and divides by no zero if and only if the received state is usable. -/
theorem safe_iff_usable (hd : Dispatcher.deserializeDataPipe bytes ports handles = some d)
    (mapped : Bool) :
    (∀ calls : List (Call side), Safe (d.initializeNoLock mapped) calls) ↔
      Usable side (d.initializeNoLock mapped) := by
  obtain ⟨htransit, hphase⟩ := inTransit_and_inTwoPhase_of_deserialize hd mapped
  refine ⟨fun h => ?_, fun h => (Inv.of_usable h hphase).safe⟩
  obtain ⟨hoffset, hamount⟩ : (d.initializeNoLock mapped).Ranged := h []
  exact ⟨UInt32.lt_iff_toNat_lt.2 hoffset, UInt32.le_iff_toNat_le.2 hamount,
    element_or_idle_of_safe h htransit hphase⟩

/-- A state with a ring of 16 bytes. -/
def receivedState (offset amount : UInt8) : List UInt8 :=
  [16, 0, 0, 0, 0, 0, 0, 0, 1, 0, 0, 0, 16, 0, 0, 0, 7, 0, 0, 0, 0, 0, 0, 0,
    0, 0, 0, 0, offset, 0, 0, 0, amount, 0, 0, 0, 0, 0, 0, 0]

/-- The end that is made of it. -/
def receivedEnd (offset amount : UInt8) : Core.DataPipe Unit Unit :=
  Dispatcher.readDataPipe (receivedState offset amount) () none

theorem deserialize_receivedState (offset amount : UInt8) :
    Dispatcher.deserializeDataPipe (receivedState offset amount) [()] [none] =
      some (receivedEnd offset amount) := rfl

/-- Bytes at the end of the ring and at its start can be read, in any way. -/
theorem safe_received :
    Dispatcher.deserializeDataPipe (receivedState 14 4) [()] [none] = some (receivedEnd 14 4) ∧
      ∀ calls : List (Call .consumer), Safe ((receivedEnd 14 4).initializeNoLock true) calls :=
  ⟨rfl, (safe_iff_usable (deserialize_receivedState 14 4) true).2
    ⟨by decide, by decide, .inl (by decide)⟩⟩

/-- A state that is accepted has its offset behind the ring, and to read a byte is to
    copy it from there. -/
theorem not_safe_received :
    Dispatcher.deserializeDataPipe (receivedState 100 4) [()] [none] = some (receivedEnd 100 4) ∧
      ¬((Call.readData 1 {}).checked ((receivedEnd 100 4).initializeNoLock true)).Sound ∧
      ¬Safe ((receivedEnd 100 4).initializeNoLock true) [Call.readData 1 {}] := by
  have hsound : ¬((Call.readData 1 {}).checked
      ((receivedEnd 100 4).initializeNoLock true)).Sound := by decide
  exact ⟨rfl, hsound, fun h => hsound h.2.1⟩

end MojoEdk.DataPipe
