import MojoEdk.DataPipe.Multiples

/-!
# All or none

A call that is to transfer all of the bytes or none (`AllOrNone`). A consumer tests the
number against the bytes that it may read, and every read is as it is meant to be. A
producer tests it against the capacity of the pipe, not against the bytes that are free,
and writes a part if there is room for a part only (`Pipe.allOrNone_iff`).
-/

namespace MojoEdk.DataPipe

open MojoEdk.Core MojoEdk.Core.DataPipe

variable {P H : Type*}

/-! ## Calls -/

/-- What `WriteData` does if it writes all of the bytes. -/
def writeAll (d : DataPipe P H) (data elements : ℕ → UInt8) (numBytes : UInt32) : Access P H where
  rv := .ok
  numBytes := numBytes
  dispatcher := d.advance numBytes
  memory := Ring.store d.options.capacityNumBytes.toNat data d.offset.toNat elements numBytes.toNat
  notified := some numBytes

/-- What `ReadData` does if it reads all of the bytes. -/
def readAll (d : DataPipe P H) (data elements : ℕ → UInt8) (numBytes : UInt32)
    (flags : ReadDataFlags) : Access P H where
  rv := .ok
  numBytes := numBytes
  dispatcher := if flags.peek then d else d.advance numBytes
  memory := if flags.discard then elements else
    Ring.fetch d.options.capacityNumBytes.toNat elements data d.offset.toNat numBytes.toNat
  notified := if flags.peek then none else some numBytes

/-- A call does all of it, or fails and changes nothing: the dispatcher, the memory that it
    stores in and `*num_bytes` are as before, and no control message is sent. -/
def AllOrNone (call all : Access P H) (d : DataPipe P H) (memory : ℕ → UInt8)
    (numBytes : UInt32) : Prop :=
  call = all ∨ ∃ rv, rv ≠ .ok ∧
    call = { rv := rv, numBytes := numBytes, dispatcher := d, memory := memory }

/-- There is room for a part of the bytes only, and nothing else is in the way of writing. -/
structure WritesPart (d : DataPipe P H) (numBytes : UInt32) : Prop where
  mapped : d.sharedRingBuffer.isSome
  inTransit : d.inTransit = false
  inTwoPhase : d.inTwoPhase = false
  peerClosed : d.peerClosed = false
  capacity : numBytes ≤ d.options.capacityNumBytes
  pos : 0 < d.amount
  lt : d.amount < numBytes

section Calls

variable {d : DataPipe P H} {data elements : ℕ → UInt8} {numBytes : UInt32}

/-- A call that fails and changes nothing. -/
theorem allOrNone_of_failed {all : Access P H} {memory : ℕ → UInt8} {rv : MojoResult}
    (h : rv ≠ .ok) : AllOrNone { rv := rv, numBytes := numBytes, dispatcher := d, memory := memory }
      all d memory numBytes :=
  .inr ⟨rv, h, rfl⟩

theorem writeData_allOrNone_iff (hoff : d.offset ≤ d.options.capacityNumBytes)
    (hpos : 0 < numBytes) (hmod : numBytes % d.options.elementNumBytes = 0) :
    AllOrNone (d.writeData data elements numBytes true) (writeAll d data elements numBytes) d data
      numBytes ↔ ¬WritesPart d numBytes := by
  have hne : numBytes ≠ 0 := UInt32.pos_iff_ne_zero.1 hpos
  rw [writeData.eq_def]
  simp only [if_true]
  split_ifs with hmapped hphase hclosed hmod' hcapacity hmin
  · refine iff_of_true (allOrNone_of_failed (by decide)) fun h => ?_
    simp [h.inTransit, ← Option.not_isSome, h.mapped] at hmapped
  · refine iff_of_true (allOrNone_of_failed (by decide)) fun h => ?_
    rw [h.inTwoPhase] at hphase
    cases hphase
  · refine iff_of_true (allOrNone_of_failed (by decide)) fun h => ?_
    rw [h.peerClosed] at hclosed
    cases hclosed
  · exact absurd hmod hmod'
  · exact iff_of_true (allOrNone_of_failed (by decide)) fun h => UInt32.not_lt.2 h.capacity hcapacity
  · refine iff_of_true (allOrNone_of_failed (by decide)) fun h => ?_
    exact UInt32.pos_iff_ne_zero.1 h.pos ((min_eq_zero_iff.1 hmin).resolve_left hne)
  · by_cases hlt : d.amount < numBytes
    · -- The bytes that there is room for are written.
      have hpart : min numBytes d.amount ≠ numBytes := fun h =>
        UInt32.not_lt.2 (min_eq_left_iff.1 h) hlt
      refine iff_of_false ?_ (not_not.2 ?_)
      · rintro (hall | ⟨rv, hrv, hfailed⟩)
        · exact hpart (congrArg Access.numBytes hall)
        · exact hrv (congrArg Access.rv hfailed).symm
      · simp only [Bool.or_eq_true, not_or, Bool.not_eq_true, Option.isNone_eq_false_iff] at hmapped
        refine ⟨hmapped.1, hmapped.2, by simpa using hphase, by simpa using hclosed,
          UInt32.not_lt.1 hcapacity, UInt32.pos_iff_ne_zero.2 fun h => hmin ?_, hlt⟩
        exact min_eq_zero_iff.2 (.inr h)
    · rw [min_eq_left_iff.2 (UInt32.not_lt.1 hlt), copyToRing_eq hoff]
      exact iff_of_true (.inl rfl) fun h => hlt h.lt

theorem readData_allOrNone (hoff : d.offset ≤ d.options.capacityNumBytes)
    (hpos : 0 < numBytes) {flags : ReadDataFlags} (hall : flags.allOrNone = true)
    (hquery : flags.query = false) :
    AllOrNone (d.readData data elements numBytes flags) (readAll d data elements numBytes flags) d
      elements numBytes := by
  have hne : numBytes ≠ 0 := UInt32.pos_iff_ne_zero.1 hpos
  rw [readData.eq_def]
  simp only [hall, hquery, if_true, Bool.false_eq_true, if_false]
  split_ifs with hmapped hphase hflags hmod hlt hclosed hmin hclosed hread hdiscard hdiscard
  · exact allOrNone_of_failed (by decide)
  · exact allOrNone_of_failed (by decide)
  · exact allOrNone_of_failed (by decide)
  · exact allOrNone_of_failed (by decide)
  · exact allOrNone_of_failed (by decide)
  · exact allOrNone_of_failed (by decide)
  · exact allOrNone_of_failed (by decide)
  · exact allOrNone_of_failed (by decide)
  · have hpeek : flags.peek = false := by simpa [hdiscard] using hflags
    left
    simp only [readAll, hdiscard, hpeek, min_eq_left_iff.2 (UInt32.not_lt.1 hlt), if_true,
      Bool.false_eq_true, if_false]
    rfl
  · have hpeek : flags.peek = false := by simpa [hdiscard] using hread
    left
    simp only [readAll, hdiscard, hpeek, min_eq_left_iff.2 (UInt32.not_lt.1 hlt),
      copyFromRing_eq hoff, Bool.false_eq_true, if_false]
    rfl
  · exact absurd (by simp [hdiscard]) hread
  · have hpeek : flags.peek = true := by simpa [hdiscard] using hread
    left
    simp only [readAll, hdiscard, hpeek, min_eq_left_iff.2 (UInt32.not_lt.1 hlt),
      copyFromRing_eq hoff, Bool.false_eq_true, if_false, if_true]

end Calls

namespace Pipe

variable {o : DataPipeOptions} {s : Pipe P H}

section Runs

variable {port₀ port₁ : P} {ring : PlatformSharedBuffer H} {pipeId : UInt64}

/-- The offset of an end is one of the ring: every number of bytes is a multiple of one. -/
theorem offset_le_of_reachable (ho : 0 < o.capacityNumBytes.toNat)
    {G : Pipe P H → Action P H → Prop} (hs : (machine o port₀ port₁ ring pipeId).Reachable G s)
    {side : Side} {d : DataPipe P H} (hd : (s.endpoint side).dispatcher = some d) :
    d.options = o ∧ d.offset ≤ o.capacityNumBytes := by
  have hgrain : Grain o 1 := ⟨ho, one_dvd _, fun n _ _ => one_dvd n, .inl (one_dvd _)⟩
  have h := multiple_of_reachable hgrain hs hd
  exact ⟨h.options, UInt32.le_iff_toNat_le.2 h.offset_lt.le⟩

/-- A write of all bytes or none is one, unless there is room for a part of them only. A read
    always is. -/
theorem allOrNone {options : Option DataPipeOptions} (ho : createOptions options = .ok o)
    (hs : (machine o port₀ port₁ ring pipeId).Reachable Machine.Any s) (elements : ℕ → UInt8)
    {numBytes : UInt32} (hpos : 0 < numBytes) (hmod : numBytes % o.elementNumBytes = 0) :
    (∀ d, (s.endpoint .producer).dispatcher = some d →
      (AllOrNone (d.writeData s.buffer elements numBytes true)
        (writeAll d s.buffer elements numBytes) d s.buffer numBytes ↔ ¬WritesPart d numBytes)) ∧
    ∀ d, (s.endpoint .consumer).dispatcher = some d → ∀ flags : ReadDataFlags,
      flags.allOrNone = true → flags.query = false →
        AllOrNone (d.readData s.buffer elements numBytes flags)
          (readAll d s.buffer elements numBytes flags) d elements numBytes := by
  have hcapacity := capacity_pos_of_createOptions ho
  refine ⟨fun d hd => ?_, fun d hd flags hall hquery => ?_⟩
  · obtain ⟨hoptions, hoff⟩ := offset_le_of_reachable hcapacity hs hd
    exact writeData_allOrNone_iff (hoptions ▸ hoff) hpos (hoptions ▸ hmod)
  · obtain ⟨hoptions, hoff⟩ := offset_le_of_reachable hcapacity hs hd
    exact readData_allOrNone (hoptions ▸ hoff) hpos hall hquery

/-- A ring of four bytes, of which three are written: the fourth is written, and two are read. -/
theorem allOrNone_four : ∃ (s : Pipe Unit Unit) (d d' : DataPipe Unit Unit),
    (machine ⟨16, 0, 1, 4⟩ () () ⟨none, 4⟩ 0).Reachable Machine.Any s ∧
      (s.endpoint .producer).dispatcher = some d ∧ (s.endpoint .consumer).dispatcher = some d' ∧
      AllOrNone (d.writeData s.buffer (fun _ => 7) 1 true) (writeAll d s.buffer (fun _ => 7) 1) d
        s.buffer 1 ∧
      AllOrNone (d'.readData s.buffer (fun _ => 0) 2 { allOrNone := true })
        (readAll d' s.buffer (fun _ => 0) 2 { allOrNone := true }) d' (fun _ => 0) 2 := by
  obtain ⟨s, hs, hproducer, hconsumer⟩ := Machine.exists_reachable
    (M := machine ⟨16, 0, 1, 4⟩ () () ⟨none, 4⟩ 0) (G := Machine.Any)
    (P := fun s : Pipe Unit Unit =>
      ((s.endpoint .producer).dispatcher.map fun d => (d.amount, d.offset)) = some (1, 3) ∧
      ((s.endpoint .consumer).dispatcher.map fun d => (d.amount, d.offset)) = some (3, 0))
    [.writeData (fun i => UInt8.ofNat (i + 1)) 3 true, .deliver .consumer,
      .updateSignalsState .consumer]
    (by decide +kernel)
  obtain ⟨d, hd, hfields⟩ := Option.map_eq_some_iff.1 hproducer
  obtain ⟨d', hd', -⟩ := Option.map_eq_some_iff.1 hconsumer
  have hcreate : createOptions (some ⟨16, 0, 1, 4⟩) = .ok ⟨16, 0, 1, 4⟩ := rfl
  have hamount : d.amount = 1 := (Prod.mk.inj hfields).1
  have hone : (0 : UInt32) < 1 ∧ (1 : UInt32) % 1 = 0 := by decide
  have htwo : (0 : UInt32) < 2 ∧ (2 : UInt32) % 1 = 0 := by decide
  have hwrite := (allOrNone hcreate hs (fun _ => 7) hone.1 hone.2).1 d hd
  refine ⟨s, d, d', hs, hd, hd', hwrite.2 fun h => ?_, ?_⟩
  · have := h.lt
    rw [hamount] at this
    exact absurd this (by decide)
  · exact (allOrNone hcreate hs (fun _ => 0) htwo.1 htwo.2).2 d' hd' _ rfl rfl

/-- A ring of four bytes, of which three are written: of two bytes, one is written. -/
theorem not_allOrNone : ∃ (s : Pipe Unit Unit) (d : DataPipe Unit Unit),
    (machine ⟨16, 0, 1, 4⟩ () () ⟨none, 4⟩ 0).Reachable Machine.Any s ∧
      (s.endpoint .producer).dispatcher = some d ∧ (0 : UInt32) < 2 ∧ (2 : UInt32) % 1 = 0 ∧
      ((d.writeData s.buffer (fun _ => 7) 2 true).rv = .ok ∧
        (d.writeData s.buffer (fun _ => 7) 2 true).numBytes = 1) ∧
      ¬AllOrNone (d.writeData s.buffer (fun _ => 7) 2 true) (writeAll d s.buffer (fun _ => 7) 2) d
        s.buffer 2 := by
  obtain ⟨s, hs, hproducer⟩ := Machine.exists_reachable
    (M := machine ⟨16, 0, 1, 4⟩ () () ⟨none, 4⟩ 0) (G := Machine.Any)
    (P := fun s : Pipe Unit Unit => ((s.endpoint .producer).dispatcher.map fun d =>
      ((d.writeData s.buffer (fun _ => 7) 2 true).rv,
        (d.writeData s.buffer (fun _ => 7) 2 true).numBytes)) = some (.ok, 1))
    [.writeData (fun i => UInt8.ofNat (i + 1)) 3 true]
    (by decide +kernel)
  obtain ⟨d, hd, hfields⟩ := Option.map_eq_some_iff.1 hproducer
  obtain ⟨hrv, hnum⟩ := Prod.mk.inj hfields
  refine ⟨s, d, hs, hd, by decide, by decide, ⟨hrv, hnum⟩, ?_⟩
  rintro (hall | ⟨rv, hfail, hfailed⟩)
  · rw [hall] at hnum
    exact absurd hnum (by decide : ¬(2 : UInt32) = 1)
  · rw [hfailed] at hrv
    exact hfail hrv

end Runs

end Pipe

end MojoEdk.DataPipe
