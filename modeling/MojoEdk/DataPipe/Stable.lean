import MojoEdk.DataPipe.Conservation

/-!
# What the calls on a data pipe keep

A property of the dispatchers of the ends and one of the numbers in the control messages,
that each call on an end keeps (`Stable`), hold in every state of a data pipe: also of a
dispatcher that is made of the state of another one, which was sent in a message. There is
no bound on the capacity, and offsets may overflow.
-/

namespace MojoEdk.DataPipe

open MojoEdk.Core MojoEdk.Core.DataPipe

variable {P H : Type*} {D : Side → DataPipe P H → Prop} {M : UInt32 → Prop}

/-- After a call, a property of the dispatcher, and one of the number it tells its peer. -/
def Leaves (D : DataPipe P H → Prop) (M : UInt32 → Prop) (d : DataPipe P H)
    (notified : Option UInt32) : Prop :=
  D d ∧ ∀ n ∈ notified, M n

/-- A property of the dispatchers, and one of the numbers in control messages, that the calls
    keep. -/
structure Stable (D : Side → DataPipe P H → Prop) (M : UInt32 → Prop) : Prop where
  /-- It is about the ring, and about the call in two phases. -/
  congr : ∀ {side d d'}, D side d → view d' = view d → d'.inTwoPhase = d.inTwoPhase →
    d'.twoPhaseMaxBytesRead = d.twoPhaseMaxBytesRead → D side d'
  /-- It holds of a dispatcher with the same state. -/
  sent : ∀ {side d d'}, D side d → view d' = view d → d'.inTwoPhase = false →
    d'.twoPhaseMaxBytesRead = 0 → D side d'
  told : ∀ {side d n}, D side d → M n →
    d.amount.toNat + n.toNat ≤ d.options.capacityNumBytes.toNat →
      D side { d with amount := d.amount + n }
  writeData : ∀ {d} (data elements : ℕ → UInt8) (numBytes : UInt32) (allOrNone : Bool),
    D .producer d → let w := d.writeData data elements numBytes allOrNone
      Leaves (D .producer) M w.dispatcher w.notified
  beginWriteData : ∀ {d}, D .producer d → D .producer d.beginWriteData.2.1
  endWriteData : ∀ {d} (numBytesWritten : UInt32), D .producer d →
    let w := d.endWriteData numBytesWritten
    Leaves (D .producer) M w.2.1 w.2.2
  readData : ∀ {d} (data elements : ℕ → UInt8) (numBytes : UInt32) (flags : ReadDataFlags),
    D .consumer d → let r := d.readData data elements numBytes flags
      Leaves (D .consumer) M r.dispatcher r.notified
  beginReadData : ∀ {d} (flags : ReadDataFlags), D .consumer d →
    D .consumer (d.beginReadData flags).2.1
  endReadData : ∀ {d} (numBytesRead : UInt32), D .consumer d →
    let r := d.endReadData numBytesRead
    Leaves (D .consumer) M r.2.1 r.2.2

namespace Endpoint

/-- The state of the end in a message. -/
def state : Endpoint P H → Option (List UInt8)
  | serialized _ state | sent state => some state
  | live _ | closed => none

theorem state_set (e : Endpoint P H) (d : DataPipe P H) : (e.set d).state = e.state := by
  cases e <;> rfl

/-- A dispatcher that is written is the one that is there then. -/
theorem dispatcher_set {e : Endpoint P H} {d d' : DataPipe P H}
    (h : (e.set d).dispatcher = some d') : d' = d := by
  cases e with
  | live | serialized => exact (Option.some.inj h).symm
  | sent | closed => cases h

end Endpoint

namespace Pipe

variable {s s' : Pipe P H} {side : Side} {d d' : DataPipe P H}

/-- What holds of the dispatchers, of those that are made of a state in a message, and of the
    control messages. -/
structure Keeps (D : Side → DataPipe P H → Prop) (M : UInt32 → Prop) (s : Pipe P H) : Prop where
  dispatcher : ∀ side d, (s.endpoint side).dispatcher = some d → D side d
  state : ∀ side state, (s.endpoint side).state = some state → ∀ d, view d = viewState state →
    d.inTwoPhase = false → d.twoPhaseMaxBytesRead = 0 → D side d
  messages : ∀ side, ∀ m ∈ (s.channel side).messages, M m.numBytes

namespace Keeps

/-- An end is written of which it holds, as a dispatcher or as the state of one in a message. -/
theorem setEndpoint (h : s.Keeps D M) {e : Endpoint P H}
    (hdispatcher : ∀ d, e.dispatcher = some d → D side d)
    (hstate : ∀ state, e.state = some state → ∀ d, view d = viewState state →
      d.inTwoPhase = false → d.twoPhaseMaxBytesRead = 0 → D side d) :
    (s.setEndpoint side e).Keeps D M where
  dispatcher side' d hd := by
    rw [endpoint_setEndpoint] at hd
    split_ifs at hd with hside
    · exact hside ▸ hdispatcher d hd
    · exact h.dispatcher side' d hd
  state side' state he := by
    rw [endpoint_setEndpoint] at he
    split_ifs at he with hside
    · exact hside ▸ hstate state he
    · exact h.state side' state he
  messages := h.messages

/-- A call changes the dispatcher of an end. -/
theorem set (h : s.Keeps D M) (hd : D side d) :
    (s.setEndpoint side ((s.endpoint side).set d)).Keeps D M := by
  refine h.setEndpoint (fun d' hd' => ?_) fun state he => ?_
  · rw [Endpoint.dispatcher_set hd']
    exact hd
  · rw [Endpoint.state_set] at he
    exact h.state side state he

/-- The control messages of a channel change. -/
theorem setChannel (h : s.Keeps D M) {c : Channel} (hc : ∀ m ∈ c.messages, M m.numBytes) :
    (s.setChannel side c).Keeps D M where
  dispatcher := h.dispatcher
  state := h.state
  messages side' m hm := by
    rw [channel_setChannel] at hm
    split_ifs at hm
    · exact hc m hm
    · exact h.messages side' m hm

/-- A call on a dispatcher leaves it in a state of which it holds, and the message it sends. -/
theorem call (h : s.Keeps D M) {notified : Option UInt32} (hd : Leaves (D side) M d notified) :
    (s.call side d notified).Keeps D M := by
  refine (h.set hd.1).setChannel fun m hm => ?_
  cases notified with
  | none => exact h.messages _ m hm
  | some n =>
    rw [Channel.messages_send, List.mem_append, List.mem_singleton] at hm
    rcases hm with hm | rfl
    · exact h.messages _ m hm
    · exact hd.2 n rfl

/-- Nothing else of the pipe matters. -/
theorem congr (h : s.Keeps D M) (hendpoint : s'.endpoint = s.endpoint)
    (hchannel : s'.channel = s.channel) : s'.Keeps D M where
  dispatcher := hendpoint ▸ h.dispatcher
  state := hendpoint ▸ h.state
  messages := hchannel ▸ h.messages

end Keeps

end Pipe

namespace Stable

variable {s s' : Pipe P H} {side : Side} {d d' : DataPipe P H}

/-- Every control message that is processed preserves it. -/
theorem processMessages (hD : Stable D M) {command : DataPipeCommand}
    (closedByExcess drained : Bool) {messages : List DataPipeControlMessage}
    (hM : ∀ m ∈ messages, M m.numBytes) (hd : D side d) :
    let u := Core.DataPipe.processMessages command closedByExcess drained messages d
    D side u.2 ∧ u.1 ⊆ messages := by
  induction messages generalizing d with
  | nil => exact ⟨hD.congr hd rfl rfl rfl, List.Subset.refl _⟩
  | cons m messages ih =>
    rw [Core.DataPipe.processMessages]
    split_ifs with hcommand hle
    · exact ⟨hD.congr hd rfl rfl rfl, List.subset_cons_self ..⟩
    · exact ⟨hD.congr hd rfl rfl rfl, List.subset_cons_self ..⟩
    · have hm := hM m List.mem_cons_self
      obtain ⟨hd', hsub⟩ := ih (fun m' hm' => hM m' (List.mem_cons_of_mem m hm'))
        (hD.told hd hm (Nat.le_of_not_lt hle))
      exact ⟨hd', fun m' hm' => List.mem_cons_of_mem m (hsub hm')⟩

/-- The control messages there are preserve it, and so does a closure. -/
theorem updateSignalsState (hD : Stable D M) (h : s.Keeps D M) (hd : D side d) :
    (s.updateSignalsState side d).Keeps D M := by
  obtain ⟨closedByExcess, heq⟩ := Pipe.updateSignalsState_eq s side d
  have hqueue : ∀ m ∈ (s.channel side).queue, M m.numBytes := fun m hm =>
    h.messages side m (List.mem_append_left _ hm)
  have hupdate :
      let u := Core.DataPipe.updateSignalsState side.command closedByExcess (s.drained side)
        (s.channel side).queue d
      D side u.2 ∧ u.1 ⊆ (s.channel side).queue := by
    rw [Core.DataPipe.updateSignalsState]
    simp only
    split_ifs
    · exact hD.processMessages _ _ hqueue (hD.congr hd rfl rfl rfl)
    · exact ⟨hD.congr hd rfl rfl rfl, List.Subset.refl _⟩
  rw [heq]
  refine (h.set hupdate.1).setChannel fun m hm => ?_
  rcases List.mem_append.1 hm with hm | hm
  · exact hqueue m (hupdate.2 hm)
  · exact h.messages side m (List.mem_append_right _ hm)

/-- A dispatcher that leaves transit looks at its control port, if it is a consumer. -/
theorem cancelTransit (hD : Stable D M) (h : s.Keeps D M) (hd : D side d)
    (hs' : s.cancelTransit side d = some s') : s'.Keeps D M := by
  obtain ⟨d', hd', rfl⟩ := Option.map_eq_some_iff.1 hs'
  obtain ⟨-, rfl⟩ := Pipe.cancelTransit_eq_some hd'
  have hset : ∀ {side}, D side d → (s.setEndpoint side (.live { d with
      inTransit := false, bufferHandleForTransit := none })).Keeps D M := fun hd =>
    h.setEndpoint (fun d' hd' => Option.some.inj hd' ▸ hD.congr hd rfl rfl rfl) nofun
  cases side with
  | producer => exact hset hd
  | consumer => exact hD.updateSignalsState (hset hd) (hD.congr hd rfl rfl rfl)

/-- A dispatcher is written to a message, with all that its state tells. -/
theorem endSerialize (hD : Stable D M) (h : s.Keeps D M) (hd : D side d) {dup : Option H}
    {destination : List UInt8} (hlen : destination.length = sizeofDataPipe)
    {w : Dispatcher.Serialized P H}
    (hw : (side.dispatcher d).endSerialize dup destination = some w)
    (hd' : dataPipe w.dispatcher = some d') :
    (s.setEndpoint side (.serialized d' w.destination)).Keeps D M := by
  obtain ⟨-, hdestination, hdispatcher⟩ := Pipe.endSerialize_eq_some hw
  obtain rfl := Option.some.inj (hdispatcher.symm.trans hd')
  refine h.setEndpoint (fun d' hd' => ?_) fun state he d' hview hphase hmax => ?_
  · exact Option.some.inj hd' ▸ hD.congr hd rfl rfl rfl
  · obtain rfl := Option.some.inj he
    rw [hdestination, viewState_storeDataPipe d hlen] at hview
    exact hD.sent hd hview hphase hmax

/-- Every step preserves what is stable. -/
theorem step (hD : Stable D M) (h : s.Keeps D M) {a : Action P H} (hs' : s.step a = some s') :
    s'.Keeps D M := by
  cases Pipe.moves_of_step hs' with
  | writeData hd =>
    exact (h.call (hD.writeData _ _ _ _ (h.dispatcher _ _ hd))).congr rfl rfl
  | beginWriteData hd =>
    have hbegin := hD.beginWriteData (h.dispatcher _ _ hd)
    have hnone : Leaves (D .producer) M _ none := ⟨hbegin, by simp⟩
    exact (h.call hnone).congr rfl rfl
  | store hw hi => exact h.congr rfl rfl
  | endWriteData hd => exact (h.call (hD.endWriteData _ (h.dispatcher _ _ hd))).congr rfl rfl
  | readData hd => exact (h.call (hD.readData _ _ _ _ (h.dispatcher _ _ hd))).congr rfl rfl
  | @beginReadData d flags hd =>
    have hbegin := hD.beginReadData flags (h.dispatcher _ _ hd)
    have hnone : Leaves (D .consumer) M (d.beginReadData flags).2.1 none := ⟨hbegin, by simp⟩
    exact h.call hnone
  | endReadData hd => exact (h.call (hD.endReadData _ (h.dispatcher _ _ hd))).congr rfl rfl
  | @deliver side c hc =>
    exact h.setChannel (Channel.messages_deliver hc ▸ h.messages side)
  | updateSignalsState hd => exact hD.updateSignalsState h (h.dispatcher _ _ hd)
  | beginTransit hd hd' =>
    obtain rfl | ⟨-, -, rfl⟩ := Pipe.dataPipe_beginTransit hd'
    · exact h.set (h.dispatcher _ _ hd)
    · exact h.set (hD.congr (h.dispatcher _ _ hd) rfl rfl rfl)
  | endSerialize hlive hlen hw hd' =>
    exact hD.endSerialize h (h.dispatcher _ _ (by rw [hlive]; rfl)) hlen hw hd'
  | cancelTransit hd hs' => exact hD.cancelTransit h (h.dispatcher _ _ hd) hs'
  | @completeTransitAndClose side d state he =>
    refine (h.setEndpoint (e := .sent state) (fun _ h => by cases h) fun state' hstate => ?_).setChannel ?_
    · exact h.state side state' (by rw [he]; exact hstate)
    · exact h.messages side
  | @deserialize side state port handle d he hd =>
    refine h.setEndpoint (fun d' hd' => ?_) fun _ h => by cases h
    obtain rfl := Option.some.inj hd'
    simp only [Dispatcher.deserializeDataPipe] at hd
    split_ifs at hd
    obtain rfl := Option.some.inj hd
    exact h.state side state (by rw [he]; rfl) _ rfl rfl rfl
  | @close side d hlive =>
    rw [Pipe.close.eq_def]
    split_ifs
    · exact (h.setEndpoint (e := .closed) (fun _ h => by cases h) fun _ h => by cases h).congr rfl rfl
    · exact h
  | discard he => exact h.setEndpoint (fun _ h => by cases h) fun _ h => by cases h

/-- What is stable, and holds of a new data pipe, holds in every reachable state. -/
theorem keeps_of_reachable (hD : Stable D M) {o : DataPipeOptions} {port₀ port₁ : P}
    {ring : PlatformSharedBuffer H} {pipeId : UInt64} {G : Pipe P H → Action P H → Prop}
    (hs : (Pipe.machine o port₀ port₁ ring pipeId).Reachable G s)
    (hcreate : (Pipe.create o port₀ port₁ ring pipeId).Keeps D M) : s.Keeps D M :=
  hs.invariant hcreate fun h _ hstep => hD.step h hstep

end Stable

end MojoEdk.DataPipe
