import MojoEdk.DataPipe.Agreement

/-!
# Turns of data pipes

A data pipe that is used in turns: the producer writes, the consumer reads all of it, and
each is told what the other did. What the ends know then does not depend on the bytes
(`Pipe.exists_turn`).
-/

namespace MojoEdk.Core.DataPipe

variable {P H : Type*} {d : DataPipe P H} {numBytes : UInt32}

/-- An end that can be called, and whose peer is open. -/
structure Ready (d : DataPipe P H) : Prop where
  mapped : d.sharedRingBuffer.isNone = false
  inTransit : d.inTransit = false
  inTwoPhase : d.inTwoPhase = false
  peerClosed : d.peerClosed = false
  isClosed : d.isClosed = false

theorem Ready.writeData (h : d.Ready) (data elements : ℕ → UInt8)
    (hmod : numBytes % d.options.elementNumBytes = 0) (hmin : min numBytes d.amount ≠ 0) :
    let w := d.writeData data elements numBytes false
    w.dispatcher = d.advance (min numBytes d.amount) ∧
      w.notified = some (min numBytes d.amount) := by
  have hzero : numBytes ≠ 0 := by
    rintro rfl
    exact hmin (by rw [← UInt32.toNat_inj, UInt32.toNat_min, UInt32.toNat_zero, Nat.zero_min])
  rw [writeData.eq_def]
  simp only
  rw [if_neg (by simp [h.mapped, h.inTransit]), if_neg (by simp [h.inTwoPhase]),
    if_neg (by simp [h.peerClosed]), if_neg (not_not.2 hmod), if_neg hzero, if_neg (by simp),
    if_neg hmin]
  exact ⟨rfl, rfl⟩

theorem Ready.beginWriteData (h : d.Ready) (hamount : d.amount ≠ 0) :
    d.beginWriteData = (.ok, { d with inTwoPhase := true }, some (d.offset.toNat,
      (min (d.options.capacityNumBytes - d.offset) d.amount).toNat)) := by
  rw [beginWriteData.eq_def, if_neg (by simp [h.mapped, h.inTransit]),
    if_neg (by simp [h.inTwoPhase]), if_neg (by simp [h.peerClosed]), if_neg hamount]

/-- A write in two phases that was begun ends, if the sum of the offset and the number of bytes
    seems to be in the ring. -/
theorem Ready.endWriteData (h : d.Ready) (hle : numBytes ≤ d.amount)
    (hmod : numBytes % d.options.elementNumBytes = 0)
    (hend : d.offset + numBytes ≤ d.options.capacityNumBytes) :
    ({ d with inTwoPhase := true }.endWriteData numBytes).1 = .ok := by
  rw [endWriteData.eq_def, if_neg (by simp [h.isClosed, h.inTransit]), if_neg (by simp),
    if_neg (by simp [UInt32.not_lt.2 hle, hmod, UInt32.not_lt.2 hend])]

theorem Ready.readData (h : d.Ready) (data elements : ℕ → UInt8)
    (hmod : numBytes % d.options.elementNumBytes = 0) (hmin : min numBytes d.amount ≠ 0) :
    let r := d.readData data elements numBytes {}
    r.dispatcher = d.advance (min numBytes d.amount) ∧
      r.notified = some (min numBytes d.amount) := by
  rw [readData.eq_def]
  simp only
  rw [if_neg (by simp [h.mapped, h.inTransit]), if_neg (by simp [h.inTwoPhase]), if_neg (by simp),
    if_neg (by simp), if_neg (not_not.2 hmod), if_neg (by simp), if_neg hmin, if_pos (by simp)]
  exact ⟨rfl, rfl⟩

/-- The peer tells of some bytes. -/
theorem Ready.updateSignalsState (h : d.Ready) (command : DataPipeCommand) (closedByExcess : Bool)
    (hle : d.amount.toNat + numBytes.toNat ≤ d.options.capacityNumBytes.toNat) :
    updateSignalsState command closedByExcess false [⟨command, numBytes⟩] d =
      ([], { d with amount := d.amount + numBytes }) := by
  simp only [DataPipe.updateSignalsState, List.isEmpty_cons, h.inTransit, Bool.not_false,
    Bool.and_self, if_true, Bool.or_false, processMessages, ne_eq,
    not_true_eq_false, if_false, if_neg (Nat.not_lt.2 hle), gt_iff_lt]

end MojoEdk.Core.DataPipe

namespace MojoEdk.DataPipe

open MojoEdk.Core MojoEdk.Core.DataPipe

variable {P H : Type*}

/-- What an end knows after it wrote or read some bytes. -/
def View.advance (v : View) (n : UInt32) : View :=
  { v with
    amount := v.amount - n
    offset := (v.offset + n) % v.options.capacityNumBytes }

/-- To write or read, as much as there is of a number of bytes. -/
def Side.transfer : Side → UInt32 → Action P H
  | .producer, numBytes => .writeData (fun _ => 0) numBytes false
  | .consumer, numBytes => .readData (fun _ => 0) numBytes {}

namespace Pipe

variable {s s' : Pipe P H} {known : Side → View} {channel : Side → Channel} {side : Side}
  {d d' : DataPipe P H} {numBytes n : UInt32}

/-- Both ends can be called, know this, and are about to be told that. -/
structure Stands (s : Pipe P H) (known : Side → View) (channel : Side → Channel) : Prop where
  ready : ∀ side, ∃ d, s.endpoint side = .live d ∧ d.Ready ∧ view d = known side
  channel : s.channel = channel

/-- A dispatcher is changed. -/
theorem Stands.setEndpoint (h : s.Stands known channel) (hready : d'.Ready)
    (hendpoint : s'.endpoint = Function.update s.endpoint side (.live d'))
    {channel' : Side → Channel} (hchannel : s'.channel = channel') :
    s'.Stands (Function.update known side (view d')) channel' := by
  refine ⟨fun side' => ?_, hchannel⟩
  rw [hendpoint, Function.update_apply, Function.update_apply]
  split_ifs
  · exact ⟨d', rfl, hready, rfl⟩
  · exact h.ready side'

/-- An end writes or reads. -/
theorem Stands.step_transfer (h : s.Stands known channel) (side : Side)
    (hmod : numBytes % (known side).options.elementNumBytes = 0)
    (hmin : min numBytes (known side).amount = n) (hn : n ≠ 0) :
    ∃ s', s.step (side.transfer numBytes) = some s' ∧
      s'.Stands (Function.update known side ((known side).advance n))
        (Function.update channel side.opp ((channel side.opp).send side.opp.command (some n))) ∧
      s'.index side = s.index side + n.toNat ∧ s'.index side.opp = s.index side.opp := by
  obtain ⟨d, hlive, hready, hview⟩ := h.ready side
  rw [← hview] at hmod hmin ⊢
  subst hmin
  have hready' : (d.advance (min numBytes d.amount)).Ready :=
    ⟨hready.mapped, hready.inTransit, hready.inTwoPhase, hready.peerClosed,
      hready.isClosed⟩
  cases side with
  | producer =>
    obtain ⟨hdispatcher, hnotified⟩ := hready.writeData s.buffer (fun _ => 0) hmod hn
    refine ⟨s.writeData (fun _ => 0) numBytes false d, ?_, ?_, ?_, rfl⟩
    · simp only [step, Side.transfer, hlive, Endpoint.dispatcher, Option.map_some]
    · refine h.setEndpoint hready' ?_ ?_
      · simp only [Pipe.writeData, hdispatcher, call, hlive]
        rfl
      · simp only [Pipe.writeData, hnotified, call, ← h.channel]
        rfl
    · simp only [index, Pipe.writeData, hnotified, count, Option.elim_some, List.length_append,
        Memory.length_load]
      rfl
  | consumer =>
    obtain ⟨hdispatcher, hnotified⟩ := hready.readData s.buffer (fun _ => 0) hmod hn
    refine ⟨s.readData (fun _ => 0) numBytes {} d, ?_, ?_, ?_, rfl⟩
    · simp only [step, Side.transfer, hlive, Endpoint.dispatcher, Option.map_some]
    · refine h.setEndpoint hready' ?_ ?_
      · simp only [Pipe.readData, hdispatcher, call, hlive]
        rfl
      · simp only [Pipe.readData, hnotified, call, ← h.channel]
        rfl
    · simp only [index, Pipe.readData, hnotified, count, Option.elim_some, List.length_append,
        Bool.false_eq_true, if_false, Memory.length_load]
      rfl

section Runs

variable {o : DataPipeOptions} {port₀ port₁ : P} {ring : PlatformSharedBuffer H} {pipeId : UInt64}

/-- The control message for an end is delivered and processed. -/
theorem Stands.exists_told (hs : (machine o port₀ port₁ ring pipeId).Reachable Machine.Any s)
    (h : s.Stands known channel) (side : Side)
    (hchannel : channel side = ⟨[], [⟨side.command, n⟩]⟩)
    (hle : (known side).amount.toNat + n.toNat ≤ (known side).options.capacityNumBytes.toNat) :
    ∃ s', (machine o port₀ port₁ ring pipeId).Reachable Machine.Any s' ∧
      s'.Stands (Function.update known side { known side with amount := (known side).amount + n })
        (Function.update channel side {}) ∧ s'.index = s.index := by
  obtain ⟨d, hlive, hready, hview⟩ := h.ready side
  obtain ⟨d', hlive', -⟩ := h.ready side.opp
  rw [← hview] at hle ⊢
  have hdeliver : s.step (.deliver side) =
      some (s.setChannel side ⟨[⟨side.command, n⟩], []⟩) := by
    simp only [step, hlive, Endpoint.dispatcher, h.channel, hchannel, Channel.deliver,
      Option.map_some, List.nil_append]
  have hs₁ := hs.step (i := Action.deliver side) trivial hdeliver
  have hdrained : (s.setChannel side ⟨[⟨side.command, n⟩], []⟩).drained side = false := by
    simp only [drained, endpoint_setChannel, hlive']
  obtain ⟨closedByExcess, heq⟩ :=
    updateSignalsState_eq (s.setChannel side ⟨[⟨side.command, n⟩], []⟩) side d
  have hqueue : ((s.setChannel side ⟨[⟨side.command, n⟩], []⟩).channel side) =
      ⟨[⟨side.command, n⟩], []⟩ := by
    rw [channel_setChannel, if_pos rfl]
  rw [hdrained, hqueue, hready.updateSignalsState _ _ hle] at heq
  refine ⟨(s.setChannel side ⟨[⟨side.command, n⟩], []⟩).updateSignalsState side d,
    hs₁.step (i := Action.updateSignalsState side) trivial ?_, ?_, ?_⟩
  · simp only [machine, step, endpoint_setChannel, hlive, Endpoint.dispatcher, Option.map_some]
  · have hready' : Ready { d with amount := d.amount + n } :=
      ⟨hready.mapped, hready.inTransit, hready.inTwoPhase, hready.peerClosed,
      hready.isClosed⟩
    refine h.setEndpoint hready' ?_ ?_
    · rw [heq, endpoint_setChannel, endpoint_setChannel, hlive]
      rfl
    · rw [heq, ← h.channel]
      funext side'
      simp only [channel_setChannel, channel_setEndpoint, Function.update_apply]
      split_ifs
      · rfl
      · rfl
  · funext side'
    rw [heq]
    cases side' with
    | producer | consumer => rfl

/-- What the ends know when all that was written has been read. -/
def settled (o : DataPipeOptions) (offset : UInt32) : Side → View
  | .producer => ⟨o, offset, o.capacityNumBytes⟩
  | .consumer => ⟨o, offset, 0⟩

theorem stands_create (o : DataPipeOptions) (port₀ port₁ : P) (ring : PlatformSharedBuffer H)
    (pipeId : UInt64) : (create o port₀ port₁ ring pipeId).Stands (settled o 0) fun _ => {} := by
  refine ⟨fun side => ?_, rfl⟩
  cases side with
  | producer | consumer => exact ⟨_, rfl, ⟨rfl, rfl, rfl, rfl, rfl⟩, rfl⟩

/-- The producer writes, the consumer reads all of it, and both are told. -/
theorem Stands.exists_turn {offset : UInt32}
    (hs : (machine o port₀ port₁ ring pipeId).Reachable Machine.Any s)
    (h : s.Stands (settled o offset) fun _ => {}) (hmod : numBytes % o.elementNumBytes = 0)
    (hmin : min numBytes o.capacityNumBytes = n) (hn : n ≠ 0) :
    ∃ s', (machine o port₀ port₁ ring pipeId).Reachable Machine.Any s' ∧
      s'.Stands (settled o ((offset + n) % o.capacityNumBytes)) (fun _ => {}) ∧
      s'.produced.length = s.produced.length + n.toNat := by
  have hle : n.toNat ≤ o.capacityNumBytes.toNat := by
    rw [← hmin, UInt32.toNat_min]
    exact min_le_right ..
  obtain ⟨s₁, hstep₁, h₁, hindex₁, -⟩ := h.step_transfer .producer hmod hmin hn
  have hs₁ := hs.step (i := Side.producer.transfer numBytes) trivial hstep₁
  obtain ⟨s₂, hs₂, h₂, hindex₂⟩ := h₁.exists_told hs₁ .consumer rfl
    ((Nat.zero_add n.toNat).trans_le hle)
  -- The consumer has been told of all that was written.
  have hmin₂ : min numBytes (0 + n) = n := by
    rw [UInt32.zero_add, ← UInt32.toNat_inj, UInt32.toNat_min, ← hmin, UInt32.toNat_min]
    omega
  obtain ⟨s₃, hstep₃, h₃, -, hindex₃⟩ := h₂.step_transfer .consumer hmod hmin₂ hn
  have hs₃ := hs₂.step (i := Side.consumer.transfer numBytes) trivial hstep₃
  have hsub : (o.capacityNumBytes - n).toNat = o.capacityNumBytes.toNat - n.toNat :=
    UInt32.toNat_sub_of_le _ _ (UInt32.le_iff_toNat_le.2 hle)
  obtain ⟨s₄, hs₄, h₄, hindex₄⟩ := h₃.exists_told hs₃ .producer rfl
    ((congrArg (· + n.toNat) hsub).trans_le (Nat.sub_add_cancel hle).le)
  refine ⟨s₄, hs₄, ?_, ?_⟩
  · convert h₄ using 1
    · funext side
      cases side with
      | producer =>
        have hamount : o.capacityNumBytes = o.capacityNumBytes - n + n := by
          rw [UInt32.sub_add_cancel]
        exact congrArg (View.mk o _) hamount
      | consumer =>
        have hamount : 0 = 0 + n - n := by rw [UInt32.zero_add, UInt32.sub_self]
        exact congrArg (View.mk o _) hamount
    · funext side
      cases side with
      | producer | consumer => rfl
  · calc s₄.produced.length
      _ = s₃.produced.length := congrFun hindex₄ .producer
      _ = s₂.produced.length := hindex₃
      _ = s₁.produced.length := congrFun hindex₂ .producer
      _ = s.produced.length + n.toNat := hindex₁

end Runs

end Pipe

end MojoEdk.DataPipe
