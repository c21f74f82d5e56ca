import MojoEdk.DataPipe.ControlPort

/-!
# Stale data pipes

An end that is in use, and that no notification is on its way to, is to have taken all
messages from its control port: what it counts reflects everything that was received, and no
call is told to wait for what was announced (`ObservedPipe.Current`).

A message that is accepted while the end is in transit, or that is in the port before the
observer is set, is signaled too early or not at all. The consumer looks at its port in
`CancelTransit`. The producer does not, nor does either end in `Deserialize`, and those are the
only steps after which an end is stale (`ObservedPipe.current_iff`).
-/

namespace MojoEdk.DataPipe

open MojoEdk.Core MojoEdk.Core.DataPipe

variable {P H : Type*}

/-- A call on an end, if it is one for some bytes, is told to wait. -/
def ShouldWait : Side → DataPipe P H → Prop
  | .producer, d =>
    d.beginWriteData.1 = .shouldWait ∨ ∃ data elements numBytes allOrNone,
      (d.writeData data elements numBytes allOrNone).rv = .shouldWait
  | .consumer, d =>
    (∃ flags, (d.beginReadData flags).1 = .shouldWait) ∨ ∃ data elements numBytes flags,
      numBytes ≠ 0 ∧ (d.readData data elements numBytes flags).rv = .shouldWait

/-- An end that has to wait has nothing to write or read. -/
theorem ShouldWait.amount {side : Side} {d : DataPipe P H} (h : ShouldWait side d) :
    d.amount = 0 := by
  cases side with
  | producer =>
    obtain h | ⟨data, elements, numBytes, allOrNone, h⟩ := h
    · rw [beginWriteData.eq_def] at h
      split_ifs at h with _ _ _ hamount
      exact hamount
    · obtain ⟨rv, -, hwait, hw⟩ | ⟨-, -, -, hw⟩ :=
        d.writeData_outcomes data elements numBytes allOrNone
      · rw [hw] at h
        exact hwait h
      · rw [hw] at h
        cases h
  | consumer =>
    obtain ⟨flags, h⟩ | ⟨data, elements, numBytes, flags, hzero, h⟩ := h
    · rw [beginReadData.eq_def] at h
      split_ifs at h with _ _ _ hamount
      exact hamount
    · obtain ⟨rv, n, -, hwait, hr⟩ | ⟨-, -, -, -, -, hr⟩ :=
        d.readData_outcomes data elements numBytes flags
      · rw [hr] at h
        exact (hwait h).resolve_left hzero
      · rw [hr] at h
        split at h
        · cases h
        · cases h

namespace ObservedPipe

variable {o : DataPipeOptions} {s s' : ObservedPipe P H} {side : Side} {d d' : DataPipe P H}

/-- An end has taken what its port had, counts it, and does not wait for it. -/
structure UpToDate (o : DataPipeOptions) (s : Pipe P H) (side : Side) (d : DataPipe P H) :
    Prop where
  queue : (s.channel side).queue = []
  counted : d.amount.toNat + totalBytes (s.channel side).inFlight + s.index side = s.limit o side
  waits : ShouldWait side d → totalBytes (s.channel side).inFlight + s.index side = s.limit o side

/-- Every end that is in use is up to date, unless it is about to be notified. -/
def Current (o : DataPipeOptions) (s : ObservedPipe P H) : Prop :=
  ∀ side d, s.pipe.endpoint side = .live d → d.inTransit = false →
    (s.port side).notifications = 0 → UpToDate o s.pipe side d

/-- The port of an end has messages, and nothing tells the end, which is in use. -/
def Stale (s : ObservedPipe P H) (side : Side) : Prop :=
  ∃ d, s.pipe.endpoint side = .live d ∧ d.inTransit = false ∧
    (s.port side).notifications = 0 ∧ (s.pipe.channel side).queue ≠ []

/-- All is as it should be if no end is stale. -/
theorem current_iff_not_stale (h : Inv o s) : s.Current o ↔ ∀ side, ¬s.Stale side := by
  constructor
  · rintro hcurrent side ⟨d, hlive, htransit, hnone, hqueue⟩
    exact hqueue (hcurrent side d hlive htransit hnone).queue
  · intro hstale side d hlive htransit hnone
    have hqueue : (s.pipe.channel side).queue = [] := by
      by_contra hne
      exact hstale side ⟨d, hlive, htransit, hnone, hne⟩
    have hknows := h.counts.knows side (knowledge d) (by
      rw [hlive]
      exact List.mem_singleton_self _)
    have hamount : d.amount.toNat + totalBytes (s.pipe.channel side).messages +
      s.pipe.index side = s.pipe.limit o side := hknows.amount
    rw [Channel.messages, hqueue, List.nil_append] at hamount
    refine ⟨hqueue, hamount, fun hwait => ?_⟩
    rw [hwait.amount, UInt32.toNat_zero, Nat.zero_add] at hamount
    exact hamount

/-! ## Steps -/

/-- A notification is on its way to an end, unless its port has no messages. -/
def Signaled (s : ObservedPipe P H) (side : Side) : Prop :=
  (s.pipe.channel side).queue = [] ∨ 0 < (s.port side).notifications

/-- An end that does not look at its port when it gets into use is signaled. -/
def Prompt (s : ObservedPipe P H) : Event P H → Prop
  | .action (.cancelTransit .producer) => s.Signaled .producer
  | .action (.deserialize side _ _) => s.Signaled side
  | _ => True

/-- An end stays stale if nothing comes for it. -/
theorem stale_of_stale (hstale : s'.Stale side)
    (hqueue : (s'.pipe.channel side).queue = (s.pipe.channel side).queue)
    (hport : (s'.port side).notifications = (s.port side).notifications)
    (hlive : ∀ d', s'.pipe.endpoint side = .live d' → d'.inTransit = false →
      ∃ d, s.pipe.endpoint side = .live d ∧ d.inTransit = false) : s.Stale side := by
  obtain ⟨d', hd', htransit', hnone, hne⟩ := hstale
  obtain ⟨d, hd, htransit⟩ := hlive d' hd' htransit'
  exact ⟨d, hd, htransit, hport ▸ hnone, hqueue ▸ hne⟩

/-- Nothing changes but for one end. -/
structure Others (s s' : ObservedPipe P H) (side : Side) : Prop where
  endpoint : s'.pipe.endpoint side.opp = s.pipe.endpoint side.opp
  channel : s'.pipe.channel side.opp = s.pipe.channel side.opp
  port : s'.port side.opp = s.port side.opp

/-- A step on one side leaves the other one as stale as it was. -/
theorem Others.not_stale (hs : Others s s' side) (h : ∀ side, ¬s.Stale side) :
    (∀ side, ¬s'.Stale side) ↔ ¬s'.Stale side := by
  refine ⟨fun h' => h' side, fun h' side' hstale => ?_⟩
  obtain rfl | rfl := Side.eq_or_eq_opp side side'
  · exact h' hstale
  · refine h _ (stale_of_stale hstale ?_ ?_ ?_)
    · rw [hs.channel]
    · rw [hs.port]
    · rw [hs.endpoint]
      exact fun d hd htransit => ⟨d, hd, htransit⟩

/-- An end that is not live is not stale. -/
theorem not_stale_of_not_live (h : ∀ d, s.pipe.endpoint side ≠ .live d) : ¬s.Stale side := by
  rintro ⟨d, hlive, -⟩
  exact h d hlive

/-- An end that looks at its control port leaves the other one alone. -/
theorem others_updateSignals (s : ObservedPipe P H) (side : Side) (d : DataPipe P H) :
    Others s (s.updateSignals side d) side where
  endpoint := Function.update_of_ne (Side.ne_opp side).symm ..
  channel := Function.update_of_ne (Side.ne_opp side).symm ..
  port := rfl

/-- `UpdateSignalsStateNoLock` takes all messages, unless the end is in transit. -/
theorem Inv.not_stale_updateSignals (h : Inv o s)
    (hd : (s.pipe.endpoint side).dispatcher = some d) : ¬(s.updateSignals side d).Stale side := by
  rintro ⟨d₀, hlive, htransit, -, hne⟩
  obtain ⟨queue, amount, peerClosed, heq, -, -, hqueue⟩ :=
    h.counts.updateSignals_cases hd (s.drained side)
  rw [ObservedPipe.updateSignals, pipe_setPipe, heq] at hlive hne
  rw [Pipe.endpoint_setChannel, Pipe.endpoint_setEndpoint, if_pos rfl] at hlive
  rw [Pipe.channel_setChannel, if_pos rfl] at hne
  obtain ⟨-, rfl⟩ := Endpoint.eq_live_of_set hd hlive
  exact hne (hqueue htransit)

/-- An end that is waited for has looked at its control port. -/
theorem Inv.not_stale_addAwakable (h : Inv o s) (hstale : ∀ side, ¬s.Stale side)
    (hd : (s.pipe.endpoint side).dispatcher = some d) (side' : Side) :
    ¬(s.addAwakable side d).Stale side' := by
  rw [ObservedPipe.addAwakable]
  split_ifs
  · exact hstale side'
  · exact ((others_updateSignals s side d).not_stale hstale).2 (h.not_stale_updateSignals hd) side'

/-- A notification is for one end. -/
theorem others_portStatusChanged (s : ObservedPipe P H) (side : Side) :
    Others s (s.portStatusChanged side) side := by
  rw [ObservedPipe.portStatusChanged]
  split
  · exact ⟨rfl, rfl, rfl⟩
  · exact others_updateSignals s side _

/-- An end that is notified has looked at its control port. -/
theorem Inv.not_stale_portStatusChanged (h : Inv o s) : ¬(s.portStatusChanged side).Stale side := by
  rw [ObservedPipe.portStatusChanged]
  split
  · rename_i hnone
    refine not_stale_of_not_live fun d hlive => ?_
    rw [hlive] at hnone
    cases hnone
  · exact h.not_stale_updateSignals ‹_›

/-- A port is the one of one end. -/
theorem others_setPort (s : ObservedPipe P H) (side : Side) (p : ControlPort) :
    Others s (s.setPort side p) side where
  endpoint := rfl
  channel := rfl
  port := Function.update_of_ne (Side.ne_opp side).symm ..

/-- One after the other. -/
theorem Others.trans {s'' : ObservedPipe P H} (hs : Others s s' side) (hs' : Others s' s'' side) :
    Others s s'' side where
  endpoint := hs'.endpoint.trans hs.endpoint
  channel := hs'.channel.trans hs.channel
  port := hs'.port.trans hs.port

theorem others_setEndpoint (s : ObservedPipe P H) (side : Side) (e : Endpoint P H) :
    Others s (s.setPipe (s.pipe.setEndpoint side e)) side where
  endpoint := Function.update_of_ne (Side.ne_opp side).symm ..
  channel := rfl
  port := rfl

theorem others_setChannel (s : ObservedPipe P H) (side : Side) (c : Channel) :
    Others s (s.setPipe (s.pipe.setChannel side c)) side where
  endpoint := rfl
  channel := Function.update_of_ne (Side.ne_opp side).symm ..
  port := rfl

/-- An end that gets into use is stale unless it is signaled. -/
theorem not_stale_setEndpoint_live (htransit : d.inTransit = false) :
    ¬(s.setPipe (s.pipe.setEndpoint side (.live d))).Stale side ↔ s.Signaled side := by
  have hself : (s.pipe.setEndpoint side (.live d)).endpoint side = .live d := by
    rw [Pipe.endpoint_setEndpoint, if_pos rfl]
  constructor
  · intro hstale
    by_contra hsignaled
    obtain ⟨hne, hzero⟩ := not_or.1 hsignaled
    exact hstale ⟨d, hself, htransit, Nat.eq_zero_of_not_pos hzero, hne⟩
  · rintro hsignaled ⟨d', -, -, hnone, hne⟩
    rcases hsignaled with hempty | hpos
    · exact hne hempty
    · exact absurd hnone hpos.ne'

/-- A port without an end in use is not stale. -/
theorem not_stale_setPort (h : ∀ d, s.pipe.endpoint side ≠ .live d) (p : ControlPort) :
    ¬(s.setPort side p).Stale side := not_stale_of_not_live h

/-- A step after which no end is stale is prompt, and the other way around. -/
theorem Inv.not_stale_step_iff (h : Inv o s) (hstale : ∀ side, ¬s.Stale side) {e : Event P H}
    (hs' : s.step e = some s') : (∀ side, ¬s'.Stale side) ↔ s.Prompt e := by
  cases moves_of_step hs' with
  | @deliver side c hopen hc =>
    refine iff_of_true ?_ trivial
    refine (((others_setChannel s side c).trans (others_setPort ..)).not_stale hstale).2 ?_
    rintro ⟨d, hlive, -, hnone, -⟩
    have hsignalable := h.signalable side d (by
      rw [show s.pipe.endpoint side = .live d from hlive]
      rfl)
    rw [port_setPort, if_pos rfl, ControlPort.acceptMessage, if_pos hsignalable] at hnone
    cases hnone
  | addAwakable hd => exact iff_of_true (h.not_stale_addAwakable hstale hd) trivial
  | @cancelTransit side d s' hd hs' =>
    obtain ⟨d', hd', rfl⟩ := Option.map_eq_some_iff.1 hs'
    obtain ⟨htransit, rfl⟩ := Pipe.cancelTransit_eq_some hd'
    have hothers := others_setEndpoint s side (.live { d with
      inTransit := false, bufferHandleForTransit := none })
    cases side with
    | producer =>
      rw [hothers.not_stale hstale]
      exact not_stale_setEndpoint_live rfl
    | consumer =>
      refine iff_of_true ?_ trivial
      have hset : Inv o (s.setPipe (s.pipe.setEndpoint .consumer (.live { d with
          inTransit := false, bufferHandleForTransit := none }))) :=
        h.setPipe (h.counts.cancelTransit hd) (Endpoint.ne_closed hd) rfl
          fun _ _ => h.signalable .consumer d hd
      refine ((hothers.trans (others_updateSignals ..)).not_stale hstale).2 ?_
      refine hset.not_stale_updateSignals ?_
      rw [pipe_setPipe, Pipe.endpoint_setEndpoint, if_pos rfl]
      rfl
  | @completeTransitAndClose side d state he =>
    have hothers := ((others_setEndpoint s side (.sent state)).trans (others_setChannel _ side
      (s.pipe.channel side).withdraw)).trans (others_setPort _ side (s.port side).acceptPort)
    refine iff_of_true ((hothers.not_stale hstale).2 (not_stale_setPort (fun d hlive => ?_) _))
      trivial
    rw [pipe_setPipe, Pipe.endpoint_setChannel, pipe_setPipe, Pipe.endpoint_setEndpoint,
      if_pos rfl] at hlive
    cases hlive
  | @deserialize side state port handle d hsignalable he hd =>
    rw [(others_setEndpoint s side (.live d)).not_stale hstale]
    refine not_stale_setEndpoint_live ?_
    simp only [Dispatcher.deserializeDataPipe] at hd
    split_ifs at hd
    obtain rfl := Option.some.inj hd
    rfl
  | @plain a pipe ha hpipe =>
    obtain ⟨-, hplain⟩ := h.counts.plain ha hpipe
    have hprompt : s.Prompt (.action a) := by
      cases a <;> trivial
    refine iff_of_true (fun side hstale' => hstale side ?_) hprompt
    exact stale_of_stale hstale' (hplain.queue side) rfl (hplain.live side)
  | @observeClosure side hclosed =>
    refine iff_of_true (((others_setPort s side _).not_stale hstale).2 ?_) trivial
    rintro ⟨d, -, -, hnone, -⟩
    rw [port_setPort, if_pos rfl] at hnone
    cases hnone
  | @portStatusChanged side n hn =>
    have hset : Inv o (s.setPort side { s.port side with notifications := n }) :=
      h.setPort (h.closed side) (h.signalable side)
    have hothers := (others_setPort s side { s.port side with notifications := n }).trans
      (others_portStatusChanged _ side)
    exact iff_of_true ((hothers.not_stale hstale).2 hset.not_stale_portStatusChanged) trivial
  | @getMessage side state he =>
    refine iff_of_true (((others_setPort s side _).not_stale hstale).2
      (not_stale_setPort (fun d hlive => ?_) _)) trivial
    rw [he] at hlive
    cases hlive
  | @forward side state he =>
    have hothers := (others_setChannel s side (s.pipe.channel side).withdraw).trans
      (others_setPort _ side (s.port side).acceptPort)
    refine iff_of_true ((hothers.not_stale hstale).2 (not_stale_setPort (fun d hlive => ?_) _))
      trivial
    rw [pipe_setPipe, Pipe.endpoint_setChannel, he] at hlive
    cases hlive

/-! ## Runs -/

section Runs

variable {port₀ port₁ : P} {ring : PlatformSharedBuffer H} {pipeId : UInt64}

/-- In a run, the ends are up to date after every step, if and only if every step is prompt. -/
theorem current_iff (events : List (Event P H)) :
    (machine o port₀ port₁ ring pipeId).Every (fun _ _ s' => s'.Current o)
        (create o port₀ port₁ ring pipeId) events ↔
      (machine o port₀ port₁ ring pipeId).Every (fun s e _ => s.Prompt e)
        (create o port₀ port₁ ring pipeId) events := by
  have hiff {s s' : ObservedPipe P H} {e : Event P H} (h : Inv o s ∧ ∀ side, ¬s.Stale side)
      (hs' : s.step e = some s') : s'.Current o ↔ s.Prompt e := by
    rw [current_iff_not_stale (h.1.step hs')]
    exact h.1.not_stale_step_iff h.2 hs'
  refine Machine.every_congr (I := fun s => Inv o s ∧ ∀ side, ¬s.Stale side) hiff ?_ ?_ events
  · intro s e s' h hprompt hs'
    exact ⟨h.1.step hs', (h.1.not_stale_step_iff h.2 hs').2 hprompt⟩
  · refine ⟨inv_create o, ?_⟩
    rintro side ⟨-, -, -, -, hne⟩
    exact hne rfl

/-- A producer whose transfer is canceled, and that was notified of the bytes that were read
    before that, and a consumer that is deserialized after the message was accepted that tells of
    bytes that were written: both are told to wait. -/
theorem not_current : (∃ s : ObservedPipe Unit Unit,
      (machine ⟨16, 0, 1, 4⟩ () () ⟨none, 4⟩ 0).Reachable Machine.Any s ∧
      ¬s.Current ⟨16, 0, 1, 4⟩ ∧ s.pipe.produced.length = 4 ∧ s.pipe.consumed.length = 4 ∧
      ∃ d, s.pipe.endpoint .producer = .live d ∧ d.inTransit = false ∧
        (d.writeData s.pipe.buffer (fun _ => 0) 4 false).rv = .shouldWait) ∧
    ∃ s : ObservedPipe Unit Unit,
      (machine ⟨16, 0, 1, 4⟩ () () ⟨none, 4⟩ 0).Reachable Machine.Any s ∧
      ¬s.Current ⟨16, 0, 1, 4⟩ ∧ s.pipe.produced.length = 4 ∧ s.pipe.consumed.length = 0 ∧
      ∃ d, s.pipe.endpoint .consumer = .live d ∧ d.inTransit = false ∧
        (d.readData s.pipe.buffer (fun _ => 0) 4 {}).rv = .shouldWait := by
  constructor
  · obtain ⟨s, hs, huse, hnone, hne, hproduced, hconsumed⟩ := Machine.exists_reachable
      (M := machine ⟨16, 0, 1, 4⟩ () () ⟨none, 4⟩ 0) (G := Machine.Any)
      (P := fun s : ObservedPipe Unit Unit =>
        (s.pipe.endpoint .producer).inUse (fun d =>
          (d.writeData s.pipe.buffer (fun _ => 0) 4 false).rv = .shouldWait) = true ∧
        (s.port .producer).notifications = 0 ∧ (s.pipe.channel .producer).queue ≠ [] ∧
        s.pipe.produced.length = 4 ∧ s.pipe.consumed.length = 4)
      [.action (.writeData (fun _ => 0) 4 false), .action (.deliver .consumer),
        .portStatusChanged .consumer, .action (.readData (fun _ => 0) 4 {}),
        .action (.beginTransit .producer), .action (.deliver .producer),
        .portStatusChanged .producer, .action (.cancelTransit .producer)]
      (by decide +kernel)
    obtain ⟨d, hlive, htransit, hwait⟩ := Endpoint.live_of_inUse huse
    exact ⟨s, hs, fun h => hne (h .producer d hlive htransit hnone).queue, hproduced, hconsumed,
      d, hlive, htransit, of_decide_eq_true hwait⟩
  · obtain ⟨s, hs, huse, hnone, hne, hproduced, hconsumed⟩ := Machine.exists_reachable
      (M := machine ⟨16, 0, 1, 4⟩ () () ⟨none, 4⟩ 0) (G := Machine.Any)
      (P := fun s : ObservedPipe Unit Unit =>
        (s.pipe.endpoint .consumer).inUse (fun d =>
          (d.readData s.pipe.buffer (fun _ => 0) 4 {}).rv = .shouldWait) = true ∧
        (s.port .consumer).notifications = 0 ∧ (s.pipe.channel .consumer).queue ≠ [] ∧
        s.pipe.produced.length = 4 ∧ s.pipe.consumed.length = 0)
      [.action (.writeData (fun _ => 0) 4 false), .action (.beginTransit .consumer),
        .action (.endSerialize .consumer none (List.replicate 40 0)),
        .action (.completeTransitAndClose .consumer), .action (.deliver .consumer),
        .getMessage .consumer, .action (.deserialize .consumer () none)]
      (by decide +kernel)
    obtain ⟨d, hlive, htransit, hwait⟩ := Endpoint.live_of_inUse huse
    exact ⟨s, hs, fun h => hne (h .consumer d hlive htransit hnone).queue, hproduced, hconsumed,
      d, hlive, htransit, of_decide_eq_true hwait⟩

end Runs

end ObservedPipe

end MojoEdk.DataPipe
