import MojoEdk.DataPipe.Counts

/-!
# Control ports of data pipes

A data pipe with the ports that its ends get their control messages from. A message that a
port accepts is there from then on, also if the end is in a message and has no dispatcher. The
dispatcher gets to know of it when it looks: in `OnPortStatusChanged`, to which a
notification leads if there is an observer by then, in `AddAwakable`, and, for a consumer, in
`CancelTransit`.

* A port that was transferred is not signalable until `GetMessageIf` hands out the message
  with the end, and has no observer until `Deserialize` sets it.
* That the peer is closed may be observed at any time after it was, also before the last of
  its messages is accepted.
* A dispatcher whose port was sent only waits to be closed, and what it takes its peer for then
  is not modelled.

However late the closure is observed, an end that knows of it has counted all that the peer
has told (`ObservedPipe.counted_of_peerClosed`).
-/

namespace MojoEdk.DataPipe

open MojoEdk.Core MojoEdk.Core.DataPipe

variable {P H : Type*}

/-- The port of an end. -/
structure ControlPort where
  /-- A message that is accepted leads to a notification. -/
  signalable : Bool := true
  /-- The closure of the peer was observed. -/
  peerClosed : Bool := false
  /-- The calls of `PortStatusChanged` that did not get to the observer yet. -/
  notifications : ℕ := 0
  deriving DecidableEq

namespace ControlPort

/-- `AcceptMessage`, of the next message. -/
def acceptMessage (p : ControlPort) : ControlPort :=
  if p.signalable then { p with notifications := p.notifications + 1 } else p

/-- `OnObserveClosure`. -/
def observeClosure (p : ControlPort) : ControlPort :=
  { p with peerClosed := true, notifications := p.notifications + 1 }

/-- `AcceptPort`, of the port as it was sent. Notifications of the port that was sent do not
    get to an end any more. -/
def acceptPort (p : ControlPort) : ControlPort :=
  { p with signalable := false, notifications := 0 }

@[simp] theorem peerClosed_acceptMessage (p : ControlPort) :
    p.acceptMessage.peerClosed = p.peerClosed := by
  rw [acceptMessage]
  split_ifs <;> rfl

@[simp] theorem signalable_acceptMessage (p : ControlPort) :
    p.acceptMessage.signalable = p.signalable := by
  rw [acceptMessage]
  split_ifs <;> rfl

end ControlPort

/-- A check of the dispatcher of an end that is in use. -/
def Endpoint.inUse (check : DataPipe P H → Bool) : Endpoint P H → Bool
  | live d => !d.inTransit && check d
  | serialized _ _ | sent _ | closed => false

/-- A dispatcher that is in use is live, and not in transit. -/
theorem Endpoint.live_of_inUse {check : DataPipe P H → Bool} {e : Endpoint P H}
    (h : e.inUse check = true) : ∃ d, e = live d ∧ d.inTransit = false ∧ check d = true := by
  cases e with
  | live d =>
    rw [inUse, Bool.and_eq_true, Bool.not_eq_true'] at h
    exact ⟨d, rfl, h.1, h.2⟩
  | serialized | sent | closed => cases h

/-- A data pipe with the ports of its ends. -/
structure ObservedPipe (P H : Type*) where
  pipe : Pipe P H
  port : Side → ControlPort := fun _ => {}

/-- What happens to a data pipe with its ports. -/
inductive Event (P H : Type*)
  /-- To update the signals is to add an awakable. -/
  | action (a : Action P H)
  /-- The closure of the peer is observed. -/
  | observeClosure (side : Side)
  /-- A notification gets to the observer, if there is one. -/
  | portStatusChanged (side : Side)
  /-- `GetMessageIf` hands out the message that has the end. -/
  | getMessage (side : Side)
  /-- The message that has the end is sent on, with the port that it is in. -/
  | forward (side : Side)

namespace ObservedPipe

/-- The pipe changed, but for the ports. -/
def setPipe (s : ObservedPipe P H) (pipe : Pipe P H) : ObservedPipe P H := { s with pipe := pipe }

/-- The pipe with a port changed. -/
def setPort (s : ObservedPipe P H) (side : Side) (p : ControlPort) : ObservedPipe P H :=
  { s with port := Function.update s.port side p }

/-- `GetStatus` does not report that messages can be received, once those that the port has
    were taken. -/
def drained (s : ObservedPipe P H) (side : Side) : Bool :=
  (s.port side).peerClosed && (s.pipe.channel side).inFlight.isEmpty

/-- `UpdateSignalsStateNoLock`. -/
def updateSignals (s : ObservedPipe P H) (side : Side) (d : DataPipe P H) : ObservedPipe P H :=
  s.setPipe (s.pipe.updateSignals side (s.drained side) d)

/-- `AddAwakable`, up to where the signals are up to date. -/
def addAwakable (s : ObservedPipe P H) (side : Side) (d : DataPipe P H) : ObservedPipe P H :=
  if d.sharedRingBuffer.isNone || d.inTransit then s else s.updateSignals side d

/-- `CancelTransit`, after which the consumer looks at its control port. -/
def cancelTransit (s : ObservedPipe P H) (side : Side) (d : DataPipe P H) :
    Option (ObservedPipe P H) :=
  ((side.dispatcher d).cancelTransit.bind dataPipe).map fun d' =>
    let s := s.setPipe (s.pipe.setEndpoint side (.live d'))
    match side with
    | .producer => s
    | .consumer => s.updateSignals .consumer d'

/-- `PortStatusChanged`: the observer is the dispatcher, if there is one. -/
def portStatusChanged (s : ObservedPipe P H) (side : Side) : ObservedPipe P H :=
  match (s.pipe.endpoint side).dispatcher with
  | none => s
  | some d => s.updateSignals side d

/-- The data pipe after an event: none if it is not possible then. -/
def step (s : ObservedPipe P H) : Event P H → Option (ObservedPipe P H)
  | .action (.deliver side) =>
    match s.pipe.endpoint side with
    | .closed => none
    | _ => (s.pipe.channel side).deliver.map fun c =>
      (s.setPipe (s.pipe.setChannel side c)).setPort side (s.port side).acceptMessage
  | .action (.updateSignalsState side) =>
    (s.pipe.endpoint side).dispatcher.map (s.addAwakable side)
  | .action (.cancelTransit side) =>
    (s.pipe.endpoint side).dispatcher.bind (s.cancelTransit side)
  | .action (.completeTransitAndClose side) =>
    (s.pipe.step (.completeTransitAndClose side)).map fun pipe =>
      (s.setPipe pipe).setPort side (s.port side).acceptPort
  | .action (.deserialize side port handle) =>
    if (s.port side).signalable then
      (s.pipe.step (.deserialize side port handle)).map s.setPipe
    else none
  | .action a => (s.pipe.step a).map s.setPipe
  | .observeClosure side =>
    match s.pipe.endpoint side.opp with
    | .closed =>
      -- `ObserveClosure` comes once.
      if (s.port side).peerClosed then none
      else some (s.setPort side (s.port side).observeClosure)
    | _ => none
  | .portStatusChanged side =>
    match (s.port side).notifications with
    | 0 => none
    | n + 1 =>
      some ((s.setPort side { s.port side with notifications := n }).portStatusChanged side)
  | .getMessage side =>
    match s.pipe.endpoint side with
    -- The message that the port came with is read.
    | .sent _ => some (s.setPort side { s.port side with signalable := true })
    | _ => none
  | .forward side =>
    match s.pipe.endpoint side with
    | .sent _ =>
      -- Only a port whose message was not read yet is forwarded with it.
      if (s.port side).signalable then none
      else some ((s.setPipe (s.pipe.setChannel side (s.pipe.channel side).withdraw)).setPort side
        (s.port side).acceptPort)
    | _ => none

/-- What the events do, each where it is possible. -/
inductive Moves (s : ObservedPipe P H) : Event P H → ObservedPipe P H → Prop
  | deliver {side c} (hopen : s.pipe.endpoint side ≠ .closed)
      (hc : (s.pipe.channel side).deliver = some c) :
      Moves s (.action (.deliver side))
        ((s.setPipe (s.pipe.setChannel side c)).setPort side (s.port side).acceptMessage)
  | addAwakable {side d} (hd : (s.pipe.endpoint side).dispatcher = some d) :
      Moves s (.action (.updateSignalsState side)) (s.addAwakable side d)
  | cancelTransit {side d s'} (hd : (s.pipe.endpoint side).dispatcher = some d)
      (hs' : s.cancelTransit side d = some s') : Moves s (.action (.cancelTransit side)) s'
  | completeTransitAndClose {side d state} (he : s.pipe.endpoint side = .serialized d state) :
      Moves s (.action (.completeTransitAndClose side))
        ((s.setPipe ((s.pipe.setEndpoint side (.sent state)).setChannel side
          (s.pipe.channel side).withdraw)).setPort side (s.port side).acceptPort)
  | deserialize {side state port handle d} (hsignalable : (s.port side).signalable = true)
      (he : s.pipe.endpoint side = .sent state)
      (hd : Dispatcher.deserializeDataPipe state [port] [handle] = some d) :
      Moves s (.action (.deserialize side port handle))
        (s.setPipe (s.pipe.setEndpoint side (.live d)))
  | plain {a pipe} (ha : a.usesPort = false) (hpipe : s.pipe.step a = some pipe) :
      Moves s (.action a) (s.setPipe pipe)
  | observeClosure {side} (hclosed : s.pipe.endpoint side.opp = .closed) :
      Moves s (.observeClosure side) (s.setPort side (s.port side).observeClosure)
  | portStatusChanged {side n} (hn : (s.port side).notifications = n + 1) :
      Moves s (.portStatusChanged side)
        ((s.setPort side { s.port side with notifications := n }).portStatusChanged side)
  | getMessage {side state} (he : s.pipe.endpoint side = .sent state) :
      Moves s (.getMessage side) (s.setPort side { s.port side with signalable := true })
  | forward {side state} (he : s.pipe.endpoint side = .sent state) :
      Moves s (.forward side)
        ((s.setPipe (s.pipe.setChannel side (s.pipe.channel side).withdraw)).setPort side
          (s.port side).acceptPort)

/-- A step is one of the moves. -/
theorem moves_of_step {s s' : ObservedPipe P H} {e : Event P H} (hs' : s.step e = some s') :
    s.Moves e s' := by
  cases e with
  | action a =>
    cases a with
    | deliver side =>
      simp only [step] at hs'
      split at hs'
      · cases hs'
      · rename_i hopen
        obtain ⟨c, hc, rfl⟩ := Option.map_eq_some_iff.1 hs'
        exact .deliver hopen hc
    | updateSignalsState side =>
      obtain ⟨d, hd, rfl⟩ := Option.map_eq_some_iff.1 hs'
      exact .addAwakable hd
    | cancelTransit side =>
      obtain ⟨d, hd, hs'⟩ := Option.bind_eq_some_iff.1 hs'
      exact .cancelTransit hd hs'
    | completeTransitAndClose side =>
      obtain ⟨pipe, hpipe, rfl⟩ := Option.map_eq_some_iff.1 hs'
      cases Pipe.moves_of_step hpipe with
      | completeTransitAndClose he => exact .completeTransitAndClose he
    | deserialize side port handle =>
      simp only [step] at hs'
      split_ifs at hs' with hsignalable
      obtain ⟨pipe, hpipe, rfl⟩ := Option.map_eq_some_iff.1 hs'
      cases Pipe.moves_of_step hpipe with
      | deserialize he hd => exact .deserialize hsignalable he hd
    | writeData | beginWriteData | store | endWriteData | readData | beginReadData | endReadData
    | beginTransit | endSerialize | close | discard =>
      obtain ⟨pipe, hpipe, rfl⟩ := Option.map_eq_some_iff.1 hs'
      exact .plain rfl hpipe
  | observeClosure side =>
    simp only [step] at hs'
    split at hs'
    · rename_i hclosed
      split_ifs at hs'
      obtain rfl := Option.some.inj hs'
      exact .observeClosure hclosed
    · cases hs'
  | portStatusChanged side =>
    simp only [step] at hs'
    split at hs'
    · cases hs'
    · rename_i n hn
      obtain rfl := Option.some.inj hs'
      exact .portStatusChanged hn
  | getMessage side =>
    simp only [step] at hs'
    split at hs'
    · rename_i state he
      obtain rfl := Option.some.inj hs'
      exact .getMessage he
    · cases hs'
  | forward side =>
    simp only [step] at hs'
    split at hs'
    · rename_i state he
      split_ifs at hs'
      obtain rfl := Option.some.inj hs'
      exact .forward he
    · cases hs'

/-- A data pipe as `CreateDataPipe` makes it: both ends observe their ports. -/
def create (options : DataPipeOptions) (port₀ port₁ : P) (ring : PlatformSharedBuffer H)
    (pipeId : UInt64) : ObservedPipe P H where
  pipe := Pipe.create options port₀ port₁ ring pipeId

/-- The data pipe with its ports as a machine. -/
def machine (options : DataPipeOptions) (port₀ port₁ : P) (ring : PlatformSharedBuffer H)
    (pipeId : UInt64) : Machine (ObservedPipe P H) (Event P H) where
  init := create options port₀ port₁ ring pipeId
  step := step

/-! ## What holds in every state -/

section Invariant

variable {o : DataPipeOptions} {s s' : ObservedPipe P H} {side : Side} {d d' : DataPipe P H}

/-- The ends count what they are told, a closure is observed of a peer that is closed, and the
    messages for a dispatcher are signaled. -/
structure Inv (o : DataPipeOptions) (s : ObservedPipe P H) : Prop where
  counts : s.pipe.Counts o
  closed : ∀ side, (s.port side).peerClosed = true → s.pipe.endpoint side.opp = .closed
  signalable : ∀ side d, (s.pipe.endpoint side).dispatcher = some d →
    (s.port side).signalable = true

@[simp] theorem pipe_setPipe (s : ObservedPipe P H) (pipe : Pipe P H) :
    (s.setPipe pipe).pipe = pipe := rfl

@[simp] theorem port_setPipe (s : ObservedPipe P H) (pipe : Pipe P H) :
    (s.setPipe pipe).port = s.port := rfl

/-- A port is what was written last. -/
theorem port_setPort (s : ObservedPipe P H) (side side' : Side) (p : ControlPort) :
    (s.setPort side p).port side' = if side' = side then p else s.port side' :=
  Function.update_apply ..

/-- An end that is open changes. -/
theorem Inv.setPipe (h : Inv o s) {pipe : Pipe P H} {e : Endpoint P H} (hcounts : pipe.Counts o)
    (hopen : s.pipe.endpoint side ≠ .closed)
    (hendpoint : pipe.endpoint = Function.update s.pipe.endpoint side e)
    (hsignalable : ∀ d, e.dispatcher = some d → (s.port side).signalable = true) :
    Inv o (s.setPipe pipe) where
  counts := hcounts
  closed side' hclosed := by
    have hpeer := h.closed side' hclosed
    rw [ObservedPipe.setPipe, hendpoint, Function.update_of_ne, hpeer]
    rintro rfl
    exact hopen hpeer
  signalable side' d hd := by
    rw [ObservedPipe.setPipe, hendpoint, Function.update_apply] at hd
    split_ifs at hd with hside
    · exact hside ▸ hsignalable d hd
    · exact h.signalable side' d hd

/-- Control messages get nearer to an end. -/
theorem Inv.setChannel (h : Inv o s) {c : Channel}
    (hc : c.messages = (s.pipe.channel side).messages) :
    Inv o (s.setPipe (s.pipe.setChannel side c)) :=
  { h with counts := h.counts.setChannel hc }

/-- A port changes, and tells of no more than what is so. -/
theorem Inv.setPort (h : Inv o s) {p : ControlPort}
    (hclosed : p.peerClosed = true → s.pipe.endpoint side.opp = .closed)
    (hsignalable : ∀ d, (s.pipe.endpoint side).dispatcher = some d → p.signalable = true) :
    Inv o (s.setPort side p) where
  counts := h.counts
  closed side' hclosed' := by
    rw [port_setPort] at hclosed'
    split_ifs at hclosed' with hside
    · exact hside ▸ hclosed hclosed'
    · exact h.closed side' hclosed'
  signalable side' d hd := by
    rw [port_setPort]
    split_ifs with hside
    · exact hsignalable d (hside ▸ hd)
    · exact h.signalable side' d hd

/-- A port reports that no message is to come only once the other end is closed. -/
theorem Inv.closed_of_drained (h : Inv o s) (hdrained : s.drained side = true) :
    s.pipe.endpoint side.opp = .closed ∧ (s.pipe.channel side).inFlight = [] := by
  rw [drained, Bool.and_eq_true, List.isEmpty_iff] at hdrained
  exact ⟨h.closed side hdrained.1, hdrained.2⟩

/-- A dispatcher looks at its control port. -/
theorem Inv.updateSignals (h : Inv o s) (hd : (s.pipe.endpoint side).dispatcher = some d) :
    Inv o (s.updateSignals side d) :=
  h.setPipe (h.counts.updateSignals hd h.closed_of_drained) (Endpoint.ne_closed hd) rfl
    fun _ _ => h.signalable side d hd

/-- A dispatcher looks at its control port when it is waited for. -/
theorem Inv.addAwakable (h : Inv o s) (hd : (s.pipe.endpoint side).dispatcher = some d) :
    Inv o (s.addAwakable side d) := by
  rw [ObservedPipe.addAwakable]
  split_ifs
  · exact h
  · exact h.updateSignals hd

/-- A dispatcher looks at its control port when it is notified. -/
theorem Inv.portStatusChanged (h : Inv o s) : Inv o (s.portStatusChanged side) := by
  rw [ObservedPipe.portStatusChanged]
  split
  · exact h
  · exact h.updateSignals ‹_›

/-- A dispatcher that leaves transit looks at its control port, if it is a consumer. -/
theorem Inv.cancelTransit (h : Inv o s) (hd : (s.pipe.endpoint side).dispatcher = some d)
    (hs' : s.cancelTransit side d = some s') : Inv o s' := by
  obtain ⟨d', hd', rfl⟩ := Option.map_eq_some_iff.1 hs'
  obtain ⟨htransit, rfl⟩ := Pipe.cancelTransit_eq_some hd'
  have hset : Inv o (s.setPipe (s.pipe.setEndpoint side (.live { d with
      inTransit := false, bufferHandleForTransit := none }))) :=
    h.setPipe (h.counts.cancelTransit hd) (Endpoint.ne_closed hd) rfl
      fun _ _ => h.signalable side d hd
  cases side with
  | producer => exact hset
  | consumer =>
    refine hset.updateSignals ?_
    rw [pipe_setPipe, Pipe.endpoint_setEndpoint, if_pos rfl]
    rfl

/-- What holds of a data pipe and its ports is preserved. -/
theorem Inv.step (h : Inv o s) {e : Event P H} (hs' : s.step e = some s') : Inv o s' := by
  cases moves_of_step hs' with
  | deliver hopen hc =>
    refine (h.setChannel (Channel.messages_deliver hc)).setPort (fun hclosed => ?_) fun d hd => ?_
    · rw [ControlPort.peerClosed_acceptMessage] at hclosed
      exact h.closed _ hclosed
    · rw [ControlPort.signalable_acceptMessage]
      exact h.signalable _ d hd
  | addAwakable hd => exact h.addAwakable hd
  | cancelTransit hd hs' => exact h.cancelTransit hd hs'
  | @completeTransitAndClose side d state he =>
    have hset := h.setPipe (h.counts.completeTransitAndClose he) (by rw [he]; nofun) rfl nofun
    refine hset.setPort (hset.closed side) fun d' hd' => ?_
    rw [pipe_setPipe, Pipe.endpoint_setChannel, Pipe.endpoint_setEndpoint, if_pos rfl] at hd'
    cases hd'
  | deserialize hsignalable he hd =>
    exact h.setPipe (h.counts.deserialize he hd) (by rw [he]; nofun) rfl fun _ _ => hsignalable
  | plain ha hpipe =>
    obtain ⟨hcounts, hplain⟩ := h.counts.plain ha hpipe
    refine ⟨hcounts, fun side hclosed => hplain.closed _ (h.closed side hclosed), ?_⟩
    intro side d' hd'
    obtain ⟨d, hd⟩ := hplain.dispatcher side d' hd'
    exact h.signalable side d hd
  | observeClosure hclosed => exact h.setPort (fun _ => hclosed) (h.signalable _)
  | @portStatusChanged side n hn =>
    have hset : Inv o (s.setPort side { s.port side with notifications := n }) :=
      h.setPort (h.closed side) (h.signalable side)
    exact hset.portStatusChanged
  | getMessage he => exact h.setPort (h.closed _) fun _ _ => rfl
  | @forward side state he =>
    have hset := h.setChannel (Channel.messages_withdraw (s.pipe.channel side))
    refine hset.setPort (hset.closed side) fun d hd => ?_
    rw [pipe_setPipe, Pipe.endpoint_setChannel, he] at hd
    cases hd

theorem inv_create (o : DataPipeOptions) {port₀ port₁ : P} {ring : PlatformSharedBuffer H}
    {pipeId : UInt64} : Inv o (create o port₀ port₁ ring pipeId) where
  counts := Pipe.counts_create o
  closed := nofun
  signalable _ _ _ := rfl

/-- A consumer that knows that its peer is closed has counted all that the producer wrote. -/
theorem counted_of_peerClosed {port₀ port₁ : P} {ring : PlatformSharedBuffer H} {pipeId : UInt64}
    (hs : (machine o port₀ port₁ ring pipeId).Reachable Machine.Any s)
    (hlive : s.pipe.endpoint .consumer = .live d) (hclosed : d.peerClosed = true) :
    s.pipe.consumed.length + d.amount.toNat = s.pipe.produced.length := by
  have h : Inv o s := hs.invariant (inv_create o) fun h _ hstep => h.step hstep
  have hd : (s.pipe.endpoint .consumer).dispatcher = some d := by rw [hlive]; rfl
  have hknows := h.counts.knows .consumer _ (Endpoint.knowledge_mem hd)
  obtain ⟨-, hnone⟩ := hknows.closed hclosed
  have hamount := hknows.amount
  rw [hnone, totalBytes_nil] at hamount
  calc s.pipe.consumed.length + d.amount.toNat
    _ = d.amount.toNat + 0 + s.pipe.consumed.length := by rw [Nat.add_zero, Nat.add_comm]
    _ = s.pipe.produced.length := hamount

/-- The producer writes three bytes and is closed, which the consumer gets to know of after it
    was sent, and has read one of them. -/
theorem counted_of_peerClosed_three : ∃ (s : ObservedPipe Unit Unit) (d : DataPipe Unit Unit),
    s.pipe.endpoint .consumer = .live d ∧ d.peerClosed = true ∧
      s.pipe.produced = [1, 2, 3] ∧ s.pipe.consumed = [1] ∧ 1 + d.amount.toNat = 3 := by
  obtain ⟨s, hs, huse, hproduced, hconsumed⟩ := Machine.exists_reachable
    (M := machine ⟨16, 0, 1, 4⟩ () () ⟨none, 4⟩ 0) (G := Machine.Any)
    (P := fun s : ObservedPipe Unit Unit =>
      (s.pipe.endpoint .consumer).inUse DataPipe.peerClosed = true ∧
        s.pipe.produced = [1, 2, 3] ∧ s.pipe.consumed = [1])
    [.action (.writeData (fun i => UInt8.ofNat (i + 1)) 3 false), .action (.close .producer),
      .action (.beginTransit .consumer),
      .action (.endSerialize .consumer none (List.replicate 40 0)),
      .action (.completeTransitAndClose .consumer), .observeClosure .consumer,
      .action (.deliver .consumer), .getMessage .consumer,
      .action (.deserialize .consumer () none), .portStatusChanged .consumer,
      .action (.readData (fun _ => 0) 1 {})]
    (by decide +kernel)
  obtain ⟨d, he, -, hclosed⟩ := Endpoint.live_of_inUse huse
  have hcounted := counted_of_peerClosed hs he hclosed
  rw [hproduced, hconsumed] at hcounted
  exact ⟨s, d, he, hclosed, hproduced, hconsumed, hcounted⟩

end Invariant

end ObservedPipe

end MojoEdk.DataPipe
