import MojoEdk.DataPipe.Stable

/-!
# Counts of data pipes

What the ends of a data pipe count is exact in a ring of any size: an offset may overflow,
an amount does not. And an end that knows that its peer is closed knows all that there was to
know before, as no control message for it is left (`Pipe.Counts`). This holds of a
dispatcher and of the state of one in a message.

A step changes one end, and then it has to be shown what the end knows
(`Pipe.Counts.replace`), or it writes or reads some bytes (`Pipe.Counts.advance`).
-/

namespace MojoEdk.DataPipe

open MojoEdk.Core MojoEdk.Core.DataPipe

variable {P H : Type*}

/-- What an end of a data pipe knows of it, and of its peer. -/
structure Knowledge extends View where
  peerClosed : Bool

/-- What a dispatcher knows. -/
def knowledge (d : DataPipe P H) : Knowledge := ⟨view d, d.peerClosed⟩

/-- What the state of a dispatcher in a message tells. -/
def knowledgeState (state : List UInt8) : Knowledge := ⟨viewState state, readUInt8 state 24 != 0⟩

/-- What a dispatcher knows is in its state. -/
theorem knowledgeState_storeDataPipe (d : DataPipe P H) {destination : List UInt8}
    (h : destination.length = sizeofDataPipe) :
    knowledgeState (Dispatcher.storeDataPipe d destination) = knowledge d := by
  have hclosed := congrArg DataPipe.peerClosed
    (Dispatcher.readDataPipe_storeDataPipe d h d.controlPort none)
  simp only [Dispatcher.readDataPipe] at hclosed
  rw [knowledgeState, viewState_storeDataPipe d h, hclosed, knowledge, Dispatcher.received]

/-- No more bytes can be read in two phases than there are. -/
def Within (d : DataPipe P H) : Prop := d.inTwoPhase = true → d.twoPhaseMaxBytesRead ≤ d.amount

/-- What a call on an end may do: it leaves the end as it is, it changes something else than
    what the end knows, or some bytes were written or read. -/
inductive Tells (d d' : DataPipe P H) : Option UInt32 → Prop
  | same (h : d' = d) : Tells d d' none
  | quiet (htransit : d.inTransit = false) (htransit' : d'.inTransit = false)
    (hknowledge : knowledge d' = knowledge d) : Tells d d' none
  | told {n : UInt32} (htransit : d.inTransit = false) (htransit' : d'.inTransit = false)
    (hn : n ≤ d.amount) (hknowledge : knowledge d' = knowledge (d.advance n)) :
    Tells d d' (some n)

section Tells

variable {d d' : DataPipe P H} {notified : Option UInt32}

/-- A call neither starts a transit nor ends one. -/
theorem Tells.inTransit (h : Tells d d' notified) : d'.inTransit = d.inTransit := by
  cases h with
  | same h => rw [h]
  | quiet htransit htransit' | told htransit htransit' => rw [htransit, htransit']

/-- `WriteData` tells of the bytes that it writes. -/
theorem tells_writeData (d : DataPipe P H) (data elements : ℕ → UInt8) (numBytes : UInt32)
    (allOrNone : Bool) :
    Tells d (d.writeData data elements numBytes allOrNone).dispatcher
      (d.writeData data elements numBytes allOrNone).notified := by
  obtain ⟨hdispatcher, -, hnotified⟩ | ⟨n, hn, htransit, -, hdispatcher, -, hnotified⟩ :=
    writeData_cases d data elements numBytes allOrNone
  · rw [hnotified]
    exact .same hdispatcher
  · rw [hnotified, hdispatcher]
    exact .told htransit htransit hn rfl

/-- `BeginWriteData` tells of nothing. -/
theorem tells_beginWriteData (d : DataPipe P H) : Tells d d.beginWriteData.2.1 none := by
  obtain ⟨hdispatcher, -⟩ | ⟨htransit, -, hdispatcher, -⟩ := beginWriteData_cases d
  · exact .same hdispatcher
  · rw [hdispatcher]
    exact .quiet htransit htransit rfl

/-- `EndWriteData` tells of the bytes that were written. -/
theorem tells_endWriteData (d : DataPipe P H) (numBytesWritten : UInt32) :
    Tells d (d.endWriteData numBytesWritten).2.1 (d.endWriteData numBytesWritten).2.2 := by
  obtain ⟨hdispatcher | ⟨htransit, hdispatcher⟩, hnotified⟩ | ⟨hn, -, htransit, -,
    hdispatcher, hnotified⟩ := endWriteData_cases d numBytesWritten
  · rw [hnotified]
    exact .same hdispatcher
  · rw [hnotified, hdispatcher]
    exact .quiet htransit htransit rfl
  · rw [hnotified, hdispatcher]
    exact .told htransit htransit hn rfl

/-- `ReadData` tells of the bytes that it takes. -/
theorem tells_readData (d : DataPipe P H) (data elements : ℕ → UInt8) (numBytes : UInt32)
    (flags : ReadDataFlags) :
    Tells d (d.readData data elements numBytes flags).dispatcher
      (d.readData data elements numBytes flags).notified := by
  obtain ⟨hdispatcher, hnotified⟩ | ⟨n, hn, htransit, -, hdispatcher, hnotified, -⟩ :=
    readData_cases d data elements numBytes flags
  · rw [hnotified]
    exact .same hdispatcher
  · rw [hnotified, hdispatcher]
    exact .told htransit htransit hn rfl

/-- `BeginReadData` tells of nothing. -/
theorem tells_beginReadData (d : DataPipe P H) (flags : ReadDataFlags) :
    Tells d (d.beginReadData flags).2.1 none := by
  obtain hdispatcher | ⟨htransit, hdispatcher⟩ := beginReadData_cases d flags
  · exact .same hdispatcher
  · rw [hdispatcher]
    exact .quiet htransit htransit rfl

/-- `EndReadData` tells of the bytes that were taken. -/
theorem tells_endReadData (h : Within d) (numBytesRead : UInt32) :
    Tells d (d.endReadData numBytesRead).2.1 (d.endReadData numBytesRead).2.2 := by
  obtain ⟨hdispatcher | ⟨htransit, hdispatcher⟩, hnotified⟩ | ⟨hn, htransit, hphase,
    hdispatcher, hnotified⟩ := endReadData_cases d numBytesRead
  · rw [hnotified]
    exact .same hdispatcher
  · rw [hnotified, hdispatcher]
    exact .quiet htransit htransit rfl
  · rw [hnotified, hdispatcher]
    exact .told htransit htransit (UInt32.le_trans hn (h hphase)) rfl

/-- Nothing is read in two phases, so that nothing is too much. -/
theorem within_of_not_inTwoPhase (h : d.inTwoPhase = false) : Within d := by
  intro hphase
  rw [h] at hphase
  cases hphase

theorem Within.readData (h : Within d) (data elements : ℕ → UInt8) (numBytes : UInt32)
    (flags : ReadDataFlags) : Within (d.readData data elements numBytes flags).dispatcher := by
  obtain ⟨hdispatcher, -⟩ | ⟨n, -, -, hphase, hdispatcher, -, -⟩ :=
    readData_cases d data elements numBytes flags
  · rwa [hdispatcher]
  · rw [hdispatcher]
    exact within_of_not_inTwoPhase hphase

theorem Within.beginReadData (h : Within d) (flags : ReadDataFlags) :
    Within (d.beginReadData flags).2.1 := by
  obtain hdispatcher | ⟨-, hdispatcher⟩ := beginReadData_cases d flags
  · rwa [hdispatcher]
  · rw [hdispatcher]
    intro
    rw [UInt32.le_iff_toNat_le, UInt32.toNat_min]
    exact min_le_left ..

theorem Within.endReadData (h : Within d) (numBytesRead : UInt32) :
    Within (d.endReadData numBytesRead).2.1 := by
  obtain ⟨hdispatcher | ⟨-, hdispatcher⟩, -⟩ | ⟨-, -, -, hdispatcher, -⟩ :=
    endReadData_cases d numBytesRead
  · rwa [hdispatcher]
  · rw [hdispatcher]
    exact within_of_not_inTwoPhase rfl
  · rw [hdispatcher]
    exact within_of_not_inTwoPhase rfl

end Tells

/-- The action has to do with a control port. -/
def Action.usesPort : Action P H → Bool
  | .deliver _ | .updateSignalsState _ | .cancelTransit _ | .completeTransitAndClose _
  | .deserialize .. => true
  | _ => false

namespace Endpoint

/-- What is known at an end: by the dispatcher, and by who gets the message. -/
def knowledge : Endpoint P H → List Knowledge
  | live d => [DataPipe.knowledge d]
  | serialized d state => [DataPipe.knowledge d, knowledgeState state]
  | sent state => [knowledgeState state]
  | closed => []

/-- What a dispatcher knows is known at its end. -/
theorem knowledge_mem {e : Endpoint P H} {d : DataPipe P H} (h : e.dispatcher = some d) :
    DataPipe.knowledge d ∈ e.knowledge := by
  cases e with
  | live => exact List.mem_singleton.2 (congrArg DataPipe.knowledge (Option.some.inj h)).symm
  | serialized =>
    rw [← Option.some.inj h]
    exact List.mem_cons_self
  | sent | closed => cases h

/-- What is known after a call. -/
theorem knowledge_set {e : Endpoint P H} {d : DataPipe P H} {k : Knowledge}
    (h : k ∈ (e.set d).knowledge) : k = DataPipe.knowledge d ∨ k ∈ e.knowledge := by
  cases e with
  | live => exact .inl (List.mem_singleton.1 h)
  | serialized d₀ state => exact (List.mem_cons.1 h).imp_right (List.mem_cons_of_mem _)
  | sent | closed => exact .inr h

/-- No more bytes can be read in two phases than there are. -/
def Phased (e : Endpoint P H) : Prop := ∀ d, e.dispatcher = some d → Within d

/-- An end that is live once a dispatcher is written was live before. -/
theorem eq_live_of_set {e : Endpoint P H} {d d' d₀ : DataPipe P H} (hd : e.dispatcher = some d)
    (h : e.set d' = live d₀) : e = live d ∧ d₀ = d' := by
  cases e with
  | live => exact ⟨congrArg live (Option.some.inj hd), (live.inj h).symm⟩
  | serialized | sent | closed => cases h

/-- An end with a dispatcher is not closed. -/
theorem ne_closed {e : Endpoint P H} {d : DataPipe P H} (h : e.dispatcher = some d) :
    e ≠ closed := by
  rintro rfl
  cases h

end Endpoint

namespace Pipe

variable {o : DataPipeOptions} {s s' : Pipe P H} {side : Side} {d d' : DataPipe P H}
  {k : Knowledge} {n : UInt32}

/-- What an end knows is true, but for what it is about to be told. If it knows that its peer
    is closed, it is told nothing any more. -/
structure Knows (o : DataPipeOptions) (s : Pipe P H) (side : Side) (k : Knowledge) : Prop where
  options : k.options = o
  amount : k.amount.toNat + totalBytes (s.channel side).messages + s.index side = s.limit o side
  closed : k.peerClosed = true →
    s.endpoint side.opp = .closed ∧ (s.channel side).messages = []

/-- What holds of a data pipe whose offsets may overflow. -/
structure Counts (o : DataPipeOptions) (s : Pipe P H) : Prop where
  knows : ∀ side, ∀ k ∈ (s.endpoint side).knowledge, s.Knows o side k
  commands : ∀ side, ∀ m ∈ (s.channel side).messages, m.command = side.command
  frozen : ∀ side, (s.endpoint side).Frozen
  phased : (s.endpoint .consumer).Phased
  length_le : s.consumed.length ≤ s.produced.length
  room : s.produced.length ≤ s.consumed.length + o.capacityNumBytes.toNat

/-- How much an end may have counted depends on what was written and read only. -/
theorem limit_congr (h : s'.index = s.index) (side : Side) : s'.limit o side = s.limit o side := by
  have hproducer := congrFun h .producer
  have hconsumer := congrFun h .consumer
  cases side with
  | producer => exact congrArg (· + o.capacityNumBytes.toNat) hconsumer
  | consumer => exact hproducer

/-- What an end knows stays right, if the other one does as much and the messages are the same.
    -/
theorem Knows.congr (hk : s.Knows o side k) (hindex : s'.index = s.index)
    (hmessages : (s'.channel side).messages = (s.channel side).messages)
    (hendpoint : s.endpoint side.opp = .closed → s'.endpoint side.opp = .closed) :
    s'.Knows o side k := by
  refine ⟨hk.options, ?_, fun hclosed => ?_⟩
  · rw [hmessages, hindex, limit_congr hindex, hk.amount]
  · obtain ⟨hpeer, hnone⟩ := hk.closed hclosed
    exact ⟨hendpoint hpeer, hmessages.trans hnone⟩

/-- Nothing else of the pipe matters. -/
theorem Counts.congr (h : Counts o s) (hendpoint : s'.endpoint = s.endpoint)
    (hchannel : s'.channel = s.channel) (hindex : s'.index = s.index) : Counts o s' where
  knows side k hk := by
    rw [hendpoint] at hk
    exact (h.knows side k hk).congr hindex (by rw [hchannel]) fun hclosed => by
      rw [hendpoint, hclosed]
  commands := hchannel ▸ h.commands
  frozen := hendpoint ▸ h.frozen
  phased := hendpoint ▸ h.phased
  length_le := by
    have hproducer : s'.produced.length = s.produced.length := congrFun hindex .producer
    have hconsumer : s'.consumed.length = s.consumed.length := congrFun hindex .consumer
    rw [hproducer, hconsumer]
    exact h.length_le
  room := by
    have hproducer : s'.produced.length = s.produced.length := congrFun hindex .producer
    have hconsumer : s'.consumed.length = s.consumed.length := congrFun hindex .consumer
    rw [hproducer, hconsumer]
    exact h.room

/-- The ends are told of no more bytes than there can be. -/
theorem Counts.amount_add_le (h : Counts o s) (hk : s.Knows o side k) :
    k.amount.toNat + totalBytes (s.channel side).messages ≤ o.capacityNumBytes.toNat := by
  have := hk.amount
  have := h.length_le
  have := h.room
  cases side with
  | producer | consumer =>
    simp only [index, limit] at *
    omega

/-- An end that is open changes, and the messages for it. -/
theorem Counts.replace (h : Counts o s) (side : Side) (hopen : s.endpoint side ≠ .closed)
    (hendpoint : s'.endpoint side.opp = s.endpoint side.opp)
    (hchannel : s'.channel side.opp = s.channel side.opp) (hindex : s'.index = s.index)
    (hknows : ∀ k ∈ (s'.endpoint side).knowledge, s'.Knows o side k)
    (hcommands : ∀ m ∈ (s'.channel side).messages, m ∈ (s.channel side).messages)
    (hfrozen : (s'.endpoint side).Frozen)
    (hphased : side = .consumer → (s'.endpoint side).Phased) : Counts o s' := by
  have hproducer : s'.produced.length = s.produced.length := congrFun hindex .producer
  have hconsumer : s'.consumed.length = s.consumed.length := congrFun hindex .consumer
  refine ⟨?_, ?_, ?_, ?_, ?_, ?_⟩
  · intro side' k hk
    obtain rfl | rfl := Side.eq_or_eq_opp side side'
    · exact hknows k hk
    · rw [hendpoint] at hk
      -- The peer is not told of a closure of this end.
      refine (h.knows _ k hk).congr hindex (by rw [hchannel]) fun hclosed => ?_
      rw [Side.opp_opp] at hclosed
      exact absurd hclosed hopen
  · intro side' m hm
    obtain rfl | rfl := Side.eq_or_eq_opp side side'
    · exact h.commands _ m (hcommands m hm)
    · rw [hchannel] at hm
      exact h.commands _ m hm
  · intro side'
    obtain rfl | rfl := Side.eq_or_eq_opp side side'
    · exact hfrozen
    · rw [hendpoint]
      exact h.frozen _
  · cases side with
    | producer =>
      have hpeer : s'.endpoint .consumer = s.endpoint .consumer := hendpoint
      rw [hpeer]
      exact h.phased
    | consumer => exact hphased rfl
  · rw [hproducer, hconsumer]
    exact h.length_le
  · rw [hproducer, hconsumer]
    exact h.room

/-- An end changes, but not what it knows. -/
theorem Counts.setEndpoint (h : Counts o s) (hopen : s.endpoint side ≠ .closed)
    {e : Endpoint P H} (hknowledge : ∀ k ∈ e.knowledge, k ∈ (s.endpoint side).knowledge)
    (hfrozen : e.Frozen) (hphased : side = .consumer → e.Phased) :
    Counts o (s.setEndpoint side e) := by
  have hself : (s.setEndpoint side e).endpoint side = e := by rw [endpoint_setEndpoint, if_pos rfl]
  have hpeer : (s.setEndpoint side e).endpoint side.opp = s.endpoint side.opp := by
    rw [endpoint_setEndpoint, if_neg (Side.ne_opp side).symm]
  refine h.replace side hopen hpeer rfl rfl ?_ (fun m hm => hm) ?_ ?_
  · intro k hk
    rw [hself] at hk
    exact (h.knows side k (hknowledge k hk)).congr rfl rfl fun hclosed => hpeer.trans hclosed
  · rwa [hself]
  · rwa [hself]

/-- Control messages get nearer to an end. -/
theorem Counts.setChannel (h : Counts o s) {c : Channel}
    (hc : c.messages = (s.channel side).messages) : Counts o (s.setChannel side c) := by
  have hmessages (side' : Side) : ((s.setChannel side c).channel side').messages =
      (s.channel side').messages := by
    rw [channel_setChannel]
    split_ifs with hside
    · rw [hc, hside]
    · rfl
  refine { h with knows := ?_, commands := ?_ }
  · intro side' k hk
    exact (h.knows side' k hk).congr rfl (hmessages side') fun hclosed => hclosed
  · intro side'
    rw [hmessages]
    exact h.commands side'

/-! ## Bytes that are written or read -/

/-- An end wrote or read some bytes, and tells its peer. -/
theorem Counts.advance (h : Counts o s) (hs : Advances s s' side d n)
    (hknowledge : ∀ k ∈ (s'.endpoint side).knowledge, k = knowledge (d.advance n))
    (hphased : side = .consumer → (s'.endpoint side).Phased) : Counts o s' := by
  obtain ⟨d', hendpoint, -⟩ := hs.endpoint
  have hd : (s.endpoint side).dispatcher = some d := by rw [hs.live]; rfl
  have hknows := h.knows side _ (Endpoint.knowledge_mem hd)
  have hamount : d.amount.toNat + totalBytes (s.channel side).messages + s.index side =
    s.limit o side := hknows.amount
  have hle := UInt32.le_iff_toNat_le.1 hs.le
  have hself : s'.channel side = s.channel side := by
    rw [hs.channel, Function.update_of_ne (Side.ne_opp side)]
  have hpeer : s'.endpoint side.opp = s.endpoint side.opp := by
    rw [hendpoint, Function.update_of_ne (Side.ne_opp side).symm]
  refine ⟨?_, ?_, ?_, ?_, ?_, ?_⟩
  · intro side' k hk
    obtain rfl | rfl := Side.eq_or_eq_opp side side'
    · rw [hknowledge k hk]
      refine ⟨hknows.options, ?_, fun hclosed => ?_⟩
      · have hsub : (d.amount - n).toNat = d.amount.toNat - n.toNat :=
          UInt32.toNat_sub_of_le _ _ hs.le
        rw [hself, hs.index, hs.limit, knowledge, view, advance]
        simp only
        rw [hsub]
        omega
      · rw [hpeer, hself]
        exact hknows.closed hclosed
    · rw [hpeer] at hk
      have hk' := h.knows _ k hk
      refine ⟨hk'.options, ?_, fun hclosed => ?_⟩
      · rw [hs.channel, Function.update_self, Channel.messages_send, totalBytes_append,
          totalBytes_cons, totalBytes_nil, hs.index_opp, hs.limit_opp, ← hk'.amount]
        simp only
        omega
      · -- The peer does not take this end for closed, which is open.
        obtain ⟨hself', -⟩ := hk'.closed hclosed
        rw [Side.opp_opp, hs.live] at hself'
        cases hself'
  · intro side' m hm
    rw [hs.channel, Function.update_apply] at hm
    split_ifs at hm with hside
    · rw [Channel.messages_send, List.mem_append, List.mem_singleton] at hm
      subst hside
      rcases hm with hm | rfl
      · exact h.commands _ m hm
      · rfl
    · exact h.commands side' m hm
  · intro side'
    rw [hendpoint, Function.update_apply]
    split_ifs
    · exact Endpoint.frozen_live d'
    · exact h.frozen side'
  · cases side with
    | producer =>
      have hconsumer : s'.endpoint .consumer = s.endpoint .consumer := hpeer
      rw [hconsumer]
      exact h.phased
    | consumer => exact hphased rfl
  all_goals
    have hindex := hs.index
    have hindex' := hs.index_opp
    have := h.length_le
    have := h.room
    cases side with
    | producer | consumer =>
      simp only [index, limit, Side.opp] at *
      omega

/-! ## The calls -/

/-- The data pipe after a call on the dispatcher of an end. -/
structure Called (s s' : Pipe P H) (side : Side) (d d' : DataPipe P H)
    (notified : Option UInt32) : Prop where
  dispatcher : (s.endpoint side).dispatcher = some d
  tells : Tells d d' notified
  within : side = .consumer → Within d → Within d'
  endpoint : s'.endpoint = (s.call side d' notified).endpoint
  channel : s'.channel = (s.call side d' notified).channel
  index : s'.index side = s.index side + count notified
  index_opp : s'.index side.opp = s.index side.opp

theorem called_writeData (hd : (s.endpoint .producer).dispatcher = some d) (elements : ℕ → UInt8)
    (numBytes : UInt32) (allOrNone : Bool) :
    ∃ d' notified,
      Called s (s.writeData elements numBytes allOrNone d) .producer d d' notified := by
  refine ⟨_, _, hd, tells_writeData d s.buffer elements numBytes allOrNone, nofun, rfl, rfl, ?_,
    rfl⟩
  simp only [index, Pipe.writeData, List.length_append, Memory.length_load]

theorem called_beginWriteData (hd : (s.endpoint .producer).dispatcher = some d) :
    ∃ d' notified, Called s (s.beginWriteData d) .producer d d' notified :=
  ⟨_, none, hd, tells_beginWriteData d, nofun, rfl, rfl, rfl, rfl⟩

theorem called_endWriteData (hd : (s.endpoint .producer).dispatcher = some d)
    (numBytesWritten : UInt32) :
    ∃ d' notified, Called s (s.endWriteData numBytesWritten d) .producer d d' notified := by
  refine ⟨_, _, hd, tells_endWriteData d numBytesWritten, nofun, rfl, rfl, ?_, rfl⟩
  simp only [index, Pipe.endWriteData, List.length_append, Memory.length_load]

theorem called_readData (hd : (s.endpoint .consumer).dispatcher = some d) (elements : ℕ → UInt8)
    (numBytes : UInt32) (flags : ReadDataFlags) :
    ∃ d' notified, Called s (s.readData elements numBytes flags d) .consumer d d' notified := by
  refine ⟨_, _, hd, tells_readData d s.buffer elements numBytes flags,
    fun _ h => h.readData s.buffer elements numBytes flags, rfl, rfl, ?_, rfl⟩
  simp only [index, Pipe.readData, List.length_append]
  split_ifs
  · rw [Ring.length_load]
  · rw [Memory.length_load]

theorem called_beginReadData (hd : (s.endpoint .consumer).dispatcher = some d)
    (flags : ReadDataFlags) :
    ∃ d' notified, Called s (s.beginReadData flags d) .consumer d d' notified :=
  ⟨_, none, hd, tells_beginReadData d flags, fun _ h => h.beginReadData flags, rfl, rfl, rfl, rfl⟩

/-- No more is taken in two phases than there is. -/
theorem called_endReadData (hd : (s.endpoint .consumer).dispatcher = some d) (hwithin : Within d)
    (numBytesRead : UInt32) :
    ∃ d' notified, Called s (s.endReadData numBytesRead d) .consumer d d' notified := by
  refine ⟨_, _, hd, tells_endReadData hwithin numBytesRead, fun _ h => h.endReadData numBytesRead,
    rfl, rfl, ?_, rfl⟩
  simp only [index, Pipe.endReadData, List.length_append, Memory.length_load]

/-- A call that tells of what it does preserves the counts. -/
theorem Counts.called (h : Counts o s) {notified : Option UInt32}
    (hs : Called s s' side d d' notified) : Counts o s' := by
  have hindex (hzero : count notified = 0) : s'.index = s.index := by
    funext side'
    obtain rfl | rfl := Side.eq_or_eq_opp side side'
    · rw [hs.index, hzero, Nat.add_zero]
    · exact hs.index_opp
  have hphased (hlive : s.endpoint side = .live d) : side = .consumer →
      (Endpoint.live d').Phased := by
    rintro rfl d₀ ⟨rfl⟩
    exact hs.within rfl (h.phased d hs.dispatcher)
  have hendpoint := hs.endpoint
  have hchannel := hs.channel
  cases hs.tells with
  | same hd' =>
    rw [hd', call_none hs.dispatcher] at hendpoint hchannel
    exact h.congr hendpoint hchannel (hindex rfl)
  | quiet htransit htransit' hknowledge =>
    have hlive := Endpoint.eq_live (h.frozen side) hs.dispatcher htransit
    rw [call_of_live hlive] at hendpoint hchannel
    have hset : Counts o (s.setEndpoint side (.live d')) := by
      refine h.setEndpoint (Endpoint.ne_closed hs.dispatcher) ?_ (Endpoint.frozen_live d')
        (hphased hlive)
      intro k hk
      rw [List.mem_singleton.1 hk, hknowledge]
      exact Endpoint.knowledge_mem hs.dispatcher
    exact hset.congr hendpoint hchannel (hindex rfl)
  | @told n htransit htransit' hn hknowledge =>
    have hlive := Endpoint.eq_live (h.frozen side) hs.dispatcher htransit
    have hself : s'.endpoint side = .live d' := by
      rw [hendpoint, call, endpoint_setChannel, endpoint_setEndpoint, if_pos rfl, hlive,
        Endpoint.set]
    have hview : view d' = view (d.advance n) := congrArg Knowledge.toView hknowledge
    refine h.advance (advances_call hlive hn hview hendpoint hchannel hs.index hs.index_opp) ?_ ?_
    · intro k hk
      rw [hself] at hk
      rw [List.mem_singleton.1 hk, hknowledge]
    · rw [hself]
      exact hphased hlive

/-! ## Transfers -/

/-- A dispatcher changes, but for what it knows and for what it is in the middle of. -/
theorem Counts.set (h : Counts o s) (hd : (s.endpoint side).dispatcher = some d)
    (hknowledge : knowledge d' = knowledge d) (hwithin : Within d → Within d')
    (hfrozen : ((s.endpoint side).set d').Frozen) :
    Counts o (s.setEndpoint side ((s.endpoint side).set d')) := by
  refine h.setEndpoint (Endpoint.ne_closed hd) (fun k hk => ?_) hfrozen ?_
  · obtain rfl | hk := Endpoint.knowledge_set hk
    · rw [hknowledge]
      exact Endpoint.knowledge_mem hd
    · exact hk
  · rintro rfl d₀ hd₀
    rw [Endpoint.dispatcher_set hd₀]
    exact hwithin (h.phased d hd)

/-- An end enters transit. -/
theorem Counts.beginTransit (h : Counts o s) (hd : (s.endpoint side).dispatcher = some d)
    (hd' : dataPipe (side.dispatcher d).beginTransit.2 = some d') :
    Counts o (s.setEndpoint side ((s.endpoint side).set d')) := by
  obtain rfl | ⟨htransit, -, rfl⟩ := dataPipe_beginTransit hd'
  · refine h.set hd rfl id ?_
    rw [Endpoint.set_of_dispatcher hd]
    exact h.frozen side
  · have hlive := Endpoint.eq_live (h.frozen side) hd htransit
    refine h.set hd rfl id ?_
    rw [hlive]
    exact Endpoint.frozen_live _

/-- An end is written to a message, with all it knows. -/
theorem Counts.endSerialize (h : Counts o s) (hlive : s.endpoint side = .live d) {dup : Option H}
    {destination : List UInt8} (hlen : destination.length = sizeofDataPipe)
    {w : Dispatcher.Serialized P H}
    (hw : (side.dispatcher d).endSerialize dup destination = some w)
    (hd' : dataPipe w.dispatcher = some d') :
    Counts o (s.setEndpoint side (.serialized d' w.destination)) := by
  obtain ⟨htransit, hdestination, hdispatcher⟩ := endSerialize_eq_some hw
  obtain rfl := Option.some.inj (hdispatcher.symm.trans hd')
  have hd : (s.endpoint side).dispatcher = some d := by rw [hlive]; rfl
  have hmem := Endpoint.knowledge_mem hd
  refine h.setEndpoint (Endpoint.ne_closed hd) (fun k hk => ?_) ?_ ?_
  · rw [hdestination, Endpoint.knowledge, knowledgeState_storeDataPipe d hlen] at hk
    rcases List.mem_cons.1 hk with rfl | hk
    · exact hmem
    · rw [List.mem_singleton.1 hk]
      exact hmem
  · rintro d₀ state ⟨rfl⟩
    exact htransit
  · rintro rfl d₀ ⟨rfl⟩
    exact h.phased d hd

/-- An end leaves transit. -/
theorem Counts.cancelTransit (h : Counts o s) (hd : (s.endpoint side).dispatcher = some d) :
    Counts o (s.setEndpoint side (.live { d with
      inTransit := false, bufferHandleForTransit := none })) := by
  have hmem := Endpoint.knowledge_mem hd
  refine h.setEndpoint (Endpoint.ne_closed hd) (fun k hk => ?_) (Endpoint.frozen_live _) ?_
  · rw [List.mem_singleton.1 hk]
    exact hmem
  · rintro rfl d₀ ⟨rfl⟩ hphase
    exact h.phased d hd hphase

/-- An end is gone with its message. -/
theorem Counts.completeTransitAndClose (h : Counts o s) {state : List UInt8}
    (he : s.endpoint side = .serialized d state) :
    Counts o ((s.setEndpoint side (.sent state)).setChannel side (s.channel side).withdraw) := by
  have hset : Counts o (s.setEndpoint side (.sent state)) := by
    refine h.setEndpoint (Endpoint.ne_closed (by rw [he]; rfl)) ?_ (Endpoint.frozen_sent state)
      fun _ _ => nofun
    intro k hk
    rw [he]
    exact List.mem_cons_of_mem _ hk
  exact hset.setChannel (Channel.messages_withdraw _)

/-- An end is read from a message, with all that the one sent knew. -/
theorem Counts.deserialize (h : Counts o s) {state : List UInt8}
    (he : s.endpoint side = .sent state) {port : P} {handle : Option H}
    (hd : Dispatcher.deserializeDataPipe state [port] [handle] = some d) :
    Counts o (s.setEndpoint side (.live d)) := by
  simp only [Dispatcher.deserializeDataPipe] at hd
  split_ifs at hd
  obtain rfl := Option.some.inj hd
  refine h.setEndpoint (by rw [he]; simp) ?_ (Endpoint.frozen_live _) ?_
  · rw [he]
    exact fun k hk => hk
  · rintro - d₀ ⟨rfl⟩
    exact within_of_not_inTwoPhase rfl

/-- An end that is closed knows nothing. -/
theorem Counts.setClosed (h : Counts o s) (hopen : s.endpoint side ≠ .closed) :
    Counts o (s.setEndpoint side .closed) :=
  h.setEndpoint hopen nofun Endpoint.frozen_closed fun _ _ => nofun

/-- An end is closed, and the other one is to be told. -/
theorem Counts.close (h : Counts o s) (hlive : s.endpoint side = .live d) :
    Counts o (s.close side d) := by
  rw [Pipe.close.eq_def]
  split_ifs
  · exact (h.setClosed (by rw [hlive]; simp)).congr rfl rfl rfl
  · exact h

/-! ## Control messages -/

/-- `UpdateSignalsStateNoLock`, given whether `GetStatus` and `GetMessageIf` report that no
    message is to come but those that the control port has. -/
def updateSignals (s : Pipe P H) (side : Side) (drained : Bool) (d : DataPipe P H) : Pipe P H :=
  let (queue, d') :=
    match side with
    | .producer => d.updateProducer drained (s.channel side).queue
    | .consumer => d.updateConsumer drained (s.channel side).queue
  (s.setEndpoint side ((s.endpoint side).set d')).setChannel side
    { s.channel side with queue := queue }

/-- What a pipe does by itself is this with what the control channel reports. -/
theorem updateSignalsState_eq_updateSignals (s : Pipe P H) (side : Side) (d : DataPipe P H) :
    s.updateSignalsState side d = s.updateSignals side (s.drained side) d := by
  cases side <;> rfl

/-- The messages that there are are processed, unless the end is in transit, and the end
    learns of a closure if there are none then. -/
theorem Counts.updateSignals_cases (h : Counts o s) (hd : (s.endpoint side).dispatcher = some d)
    (drained : Bool) :
    ∃ queue amount peerClosed, s.updateSignals side drained d =
        (s.setEndpoint side ((s.endpoint side).set
          { d with amount := amount, peerClosed := peerClosed })).setChannel side
            { s.channel side with queue := queue } ∧
      (queue = (s.channel side).queue ∧ amount = d.amount ∨ queue = [] ∧ d.inTransit = false ∧
        amount.toNat = d.amount.toNat + totalBytes (s.channel side).queue) ∧
      (peerClosed = true → d.peerClosed = true ∨ drained = true ∧ queue = []) ∧
      (d.inTransit = false → queue = []) := by
  have hknows := h.knows side _ (Endpoint.knowledge_mem hd)
  have hoptions : d.options = o := hknows.options
  have hle : d.amount.toNat + totalBytes (s.channel side).messages ≤
    o.capacityNumBytes.toNat := h.amount_add_le hknows
  rw [Channel.messages, totalBytes_append] at hle
  have hcommand : ∀ m ∈ (s.channel side).queue, m.command = side.command := fun m hm =>
    h.commands side m (List.mem_append_left _ hm)
  cases side with
  | producer =>
    obtain ⟨queue, amount, peerClosed, hupdate, hrest⟩ := updateSignalsState_cases
      false drained d hcommand (by rw [hoptions]; omega)
    refine ⟨queue, amount, peerClosed, ?_, hrest⟩
    simp only [updateSignals, updateProducer]
    rw [show DataPipeCommand.dataWasRead = Side.producer.command from rfl, hupdate]
  | consumer =>
    obtain ⟨queue, amount, peerClosed, hupdate, hrest⟩ := updateSignalsState_cases
      true drained d hcommand (by rw [hoptions]; omega)
    refine ⟨queue, amount, peerClosed, ?_, hrest⟩
    simp only [updateSignals, updateConsumer]
    rw [show DataPipeCommand.dataWasWritten = Side.consumer.command from rfl, hupdate]

/-- The control messages there are processed, and the closure if there is one. -/
theorem Counts.updateSignals (h : Counts o s) (hd : (s.endpoint side).dispatcher = some d)
    {drained : Bool} (hdrained : drained = true →
      s.endpoint side.opp = .closed ∧ (s.channel side).inFlight = []) :
    Counts o (s.updateSignals side drained d) := by
  have hknows := h.knows side _ (Endpoint.knowledge_mem hd)
  have hamount : d.amount.toNat + totalBytes (s.channel side).messages + s.index side =
    s.limit o side := hknows.amount
  rw [Channel.messages, totalBytes_append] at hamount
  obtain ⟨queue, amount, peerClosed, heq, hqueue, hclosed, -⟩ := h.updateSignals_cases hd drained
  have hle : d.amount.toNat ≤ amount.toNat := by
    rcases hqueue with ⟨-, rfl⟩ | ⟨-, -, htotal⟩
    · exact le_rfl
    · omega
  -- What is left of the messages, and what the end counts.
  have hrest : amount.toNat + totalBytes (queue ++ (s.channel side).inFlight) + s.index side =
      s.limit o side := by
    rw [totalBytes_append]
    rcases hqueue with ⟨rfl, rfl⟩ | ⟨rfl, -, htotal⟩
    · omega
    · rw [totalBytes_nil]
      omega
  have hempty : (s.channel side).messages = [] → queue ++ (s.channel side).inFlight = [] := by
    intro hnone
    obtain ⟨hnone, hnone'⟩ := List.append_eq_nil_iff.1 hnone
    rcases hqueue with ⟨rfl, -⟩ | ⟨rfl, -⟩
    · rw [hnone, hnone', List.append_nil]
    · rw [hnone', List.append_nil]
  rw [heq]
  refine h.replace side (Endpoint.ne_closed hd) ?_ ?_ rfl ?_ ?_ ?_ ?_
  · rw [endpoint_setChannel, endpoint_setEndpoint, if_neg (Side.ne_opp side).symm]
  · rw [channel_setChannel, if_neg (Side.ne_opp side).symm, channel_setEndpoint]
  · intro k hk
    rw [endpoint_setChannel, endpoint_setEndpoint, if_pos rfl] at hk
    -- What another process is told stays true, as no message is processed then.
    have hk : k = knowledge { d with amount := amount, peerClosed := peerClosed } ∨
        k ∈ (s.endpoint side).knowledge ∧ queue = (s.channel side).queue := by
      rcases hqueue with ⟨rfl, -⟩ | ⟨-, htransit, -⟩
      · exact (Endpoint.knowledge_set hk).imp_right fun hk => ⟨hk, rfl⟩
      · rw [Endpoint.eq_live (h.frozen side) hd htransit, Endpoint.set] at hk
        exact .inl (List.mem_singleton.1 hk)
    rcases hk with rfl | ⟨hk, rfl⟩
    · refine ⟨hknows.options, ?_, fun hpeer => ?_⟩
      · rw [channel_setChannel, if_pos rfl]
        exact hrest
      · rw [endpoint_setChannel, endpoint_setEndpoint, if_neg (Side.ne_opp side).symm,
          channel_setChannel, if_pos rfl]
        rcases hclosed hpeer with hpeer | ⟨hdrained', rfl⟩
        · obtain ⟨hpeer, hnone⟩ := hknows.closed hpeer
          exact ⟨hpeer, hempty hnone⟩
        · exact hdrained hdrained'
    · refine (h.knows side k hk).congr rfl ?_ fun hpeer => ?_
      · rw [channel_setChannel, if_pos rfl]
      · rw [endpoint_setChannel, endpoint_setEndpoint, if_neg (Side.ne_opp side).symm, hpeer]
  · intro m hm
    rw [channel_setChannel, if_pos rfl] at hm
    rcases List.mem_append.1 hm with hm | hm
    · rcases hqueue with ⟨rfl, -⟩ | ⟨rfl, -⟩
      · exact List.mem_append_left _ hm
      · cases hm
    · exact List.mem_append_right _ hm
  · rw [endpoint_setChannel, endpoint_setEndpoint, if_pos rfl]
    exact Endpoint.frozen_set (h.frozen side) hd rfl
  · rintro rfl d₀ hd₀
    rw [endpoint_setChannel, endpoint_setEndpoint, if_pos rfl] at hd₀
    rw [Endpoint.dispatcher_set hd₀]
    exact fun hphase => UInt32.le_trans (h.phased d hd hphase) (UInt32.le_iff_toNat_le.2 hle)

/-! ## Steps -/

theorem counts_create (o : DataPipeOptions) {port₀ port₁ : P} {ring : PlatformSharedBuffer H}
    {pipeId : UInt64} : Counts o (create o port₀ port₁ ring pipeId) where
  knows side k hk := by
    cases side with
    | producer | consumer =>
      rw [List.mem_singleton.1 hk]
      exact ⟨rfl, (Nat.zero_add _).symm, nofun⟩
  commands _ _ hm := by cases hm
  frozen side := by cases side <;> exact Endpoint.frozen_live _
  phased := by
    rintro d ⟨rfl⟩
    exact within_of_not_inTwoPhase rfl
  length_le := Nat.le_refl 0
  room := Nat.zero_le _

/-- What an action leaves alone that does not use a control port. -/
structure Plain (s s' : Pipe P H) : Prop where
  queue : ∀ side, (s'.channel side).queue = (s.channel side).queue
  closed : ∀ side, s.endpoint side = .closed → s'.endpoint side = .closed
  dispatcher : ∀ side d', (s'.endpoint side).dispatcher = some d' →
    ∃ d, (s.endpoint side).dispatcher = some d
  live : ∀ side d', s'.endpoint side = .live d' → d'.inTransit = false →
    ∃ d, s.endpoint side = .live d ∧ d.inTransit = false

/-- A call that closes nothing, and processes no message. -/
theorem plain_of_eq (hendpoint : s'.endpoint = s.endpoint) (hchannel : s'.channel = s.channel) :
    s.Plain s' where
  queue side := by rw [hchannel]
  closed side h := by rwa [hendpoint]
  dispatcher side d' hd' := ⟨d', hendpoint ▸ hd'⟩
  live side d' hd' htransit := ⟨d', hendpoint ▸ hd', htransit⟩

/-- An end changes. -/
theorem plain_of_endpoint {e : Endpoint P H} (hopen : s.endpoint side ≠ .closed)
    (hendpoint : s'.endpoint = Function.update s.endpoint side e)
    (hqueue : ∀ side, (s'.channel side).queue = (s.channel side).queue)
    (hdispatcher : ∀ d', e.dispatcher = some d' → ∃ d, (s.endpoint side).dispatcher = some d)
    (hlive : ∀ d', e = .live d' → d'.inTransit = false →
      ∃ d, s.endpoint side = .live d ∧ d.inTransit = false) : s.Plain s' := by
  refine ⟨hqueue, ?_, ?_, ?_⟩
  · intro side' hclosed
    rw [hendpoint, Function.update_of_ne, hclosed]
    rintro rfl
    exact hopen hclosed
  · intro side' d' hd'
    rw [hendpoint, Function.update_apply] at hd'
    split_ifs at hd' with hside
    · exact hside ▸ hdispatcher d' hd'
    · exact ⟨d', hd'⟩
  · intro side' d' hd' htransit
    rw [hendpoint, Function.update_apply] at hd'
    split_ifs at hd' with hside
    · exact hside ▸ hlive d' hd' htransit
    · exact ⟨d', hd', htransit⟩

/-- An end is closed, and no message is processed. -/
theorem plain_of_closed (hopen : s.endpoint side ≠ .closed)
    (hendpoint : s'.endpoint = Function.update s.endpoint side .closed)
    (hqueue : ∀ side, (s'.channel side).queue = (s.channel side).queue) : s.Plain s' :=
  plain_of_endpoint hopen hendpoint hqueue (fun _ h => by cases h) fun _ h _ => by cases h

theorem Called.plain {notified : Option UInt32} (hs : Called s s' side d d' notified) :
    s.Plain s' := by
  refine plain_of_endpoint (Endpoint.ne_closed hs.dispatcher) hs.endpoint ?_
    (fun _ _ => ⟨d, hs.dispatcher⟩) ?_
  · intro side'
    rw [hs.channel, call, channel_setChannel]
    split_ifs with hside
    · rw [hside]
      cases notified <;> rfl
    · rfl
  · intro d₀ hd₀ htransit
    obtain ⟨hlive, rfl⟩ := Endpoint.eq_live_of_set hs.dispatcher hd₀
    exact ⟨d, hlive, hs.tells.inTransit ▸ htransit⟩

/-- What holds of a data pipe is preserved by the actions that do not use a control port,
    which leave the messages there. -/
theorem Counts.plain (h : Counts o s) {a : Action P H} (ha : a.usesPort = false)
    (hs' : s.step a = some s') : Counts o s' ∧ s.Plain s' := by
  have hcalled {side : Side} {d d' : DataPipe P H} {notified : Option UInt32}
      (hs : Called s s' side d d' notified) : Counts o s' ∧ s.Plain s' := ⟨h.called hs, hs.plain⟩
  cases moves_of_step hs' with
  | writeData hd =>
    obtain ⟨_, _, hs⟩ := called_writeData hd ..
    exact hcalled hs
  | beginWriteData hd =>
    obtain ⟨_, _, hs⟩ := called_beginWriteData hd
    exact hcalled hs
  | store => exact ⟨h.congr rfl rfl rfl, plain_of_eq rfl rfl⟩
  | endWriteData hd =>
    obtain ⟨_, _, hs⟩ := called_endWriteData hd _
    exact hcalled hs
  | readData hd =>
    obtain ⟨_, _, hs⟩ := called_readData hd ..
    exact hcalled hs
  | beginReadData hd =>
    obtain ⟨_, _, hs⟩ := called_beginReadData hd _
    exact hcalled hs
  | endReadData hd =>
    obtain ⟨_, _, hs⟩ := called_endReadData hd (h.phased _ hd) _
    exact hcalled hs
  | @beginTransit side d d' hd hd' =>
    refine ⟨h.beginTransit hd hd', plain_of_endpoint (Endpoint.ne_closed hd) rfl (fun _ => rfl)
      (fun _ _ => ⟨d, hd⟩) fun d₀ hd₀ htransit => ?_⟩
    obtain ⟨hlive, rfl⟩ := Endpoint.eq_live_of_set hd hd₀
    obtain rfl | ⟨-, -, rfl⟩ := dataPipe_beginTransit hd'
    · exact ⟨d₀, hlive, htransit⟩
    · cases htransit
  | @endSerialize side dup destination d w d' hlive hlen hw hd' =>
    have hd : (s.endpoint side).dispatcher = some d := by rw [hlive]; rfl
    exact ⟨h.endSerialize hlive hlen hw hd', plain_of_endpoint (Endpoint.ne_closed hd) rfl
      (fun _ => rfl) (fun _ _ => ⟨d, hd⟩) fun _ h _ => by cases h⟩
  | @close side d hlive =>
    refine ⟨h.close hlive, ?_⟩
    rw [Pipe.close.eq_def]
    split_ifs
    · exact plain_of_closed (by rw [hlive]; simp) rfl fun _ => rfl
    · exact plain_of_eq rfl rfl
  | @discard side state he =>
    have hopen : s.endpoint side ≠ .closed := by rw [he]; simp
    exact ⟨h.setClosed hopen, plain_of_closed hopen rfl fun _ => rfl⟩
  | deliver | updateSignalsState | cancelTransit | completeTransitAndClose | deserialize => cases ha

end Pipe

end MojoEdk.DataPipe
