import Mathlib.Data.List.Infix
import MojoEdk.DataPipe.Pipe

/-!
# Agreement of the ends of data pipes

Each end of a data pipe knows its place in the stream of bytes: the producer at the end
of what was produced, the consumer at the end of what was consumed. What an end may
still write or read, together with what the control messages on their way to it tell of,
reaches up to the place of its peer, for the producer one turn of the ring later
(`Pipe.Agrees`). This holds of a dispatcher, of the state of one in a message, and of
both while the message is not sent.

So the ring holds the bytes that were produced and not consumed, and the producer has
no access to their places (`Pipe.Inv`). The calls on the ends keep it so.
-/

namespace MojoEdk.DataPipe

open MojoEdk.Core MojoEdk.Core.DataPipe

variable {P H : Type*}

/-- What an end of a data pipe knows of it. -/
structure View where
  options : DataPipeOptions
  offset : UInt32
  amount : UInt32

/-- What a dispatcher knows. -/
def view (d : DataPipe P H) : View := ⟨d.options, d.offset, d.amount⟩

/-- What the state of a dispatcher in a message tells. -/
def viewState (state : List UInt8) : View :=
  ⟨readOptions state, readUInt32 state 28, readUInt32 state 32⟩

/-- What a dispatcher sees of the ring is in its state. -/
theorem viewState_storeDataPipe (d : DataPipe P H) {destination : List UInt8}
    (h : destination.length = sizeofDataPipe) :
    viewState (Dispatcher.storeDataPipe d destination) = view d := by
  have hread := Dispatcher.readDataPipe_storeDataPipe d h d.controlPort none
  have hview := congrArg view hread
  exact hview

namespace Endpoint

/-- What is known at an end: by the dispatcher, and by who gets the message. -/
def views : Endpoint P H → List View
  | live d => [view d]
  | serialized d state => [view d, viewState state]
  | sent state => [viewState state]
  | closed => []

/-- What is known at an end, unless it is closed. -/
def knows : Endpoint P H → Option View
  | live d | serialized d _ => some (view d)
  | sent state => some (viewState state)
  | closed => none

/-- What an end knows is one of its views. -/
theorem mem_views_of_knows {e : Endpoint P H} {v : View} (h : e.knows = some v) :
    v ∈ e.views := by
  cases e with
  | live | sent => exact List.mem_singleton.2 (Option.some.inj h).symm
  | serialized =>
    rw [← Option.some.inj h]
    exact List.mem_cons_self
  | closed => cases h

/-- The dispatcher does not change while its state is in a message. -/
def Frozen (e : Endpoint P H) : Prop :=
  ∀ d state, e = serialized d state → d.inTransit = true

theorem view_mem_views {e : Endpoint P H} {d : DataPipe P H} (h : e.dispatcher = some d) :
    view d ∈ e.views := by
  cases e with
  | live => exact List.mem_singleton.2 (congrArg view (Option.some.inj h)).symm
  | serialized =>
    rw [← Option.some.inj h]
    exact List.mem_cons_self
  | sent | closed => cases h

theorem set_of_dispatcher {e : Endpoint P H} {d : DataPipe P H} (h : e.dispatcher = some d) :
    e.set d = e := by
  cases e with
  | live | serialized => rw [← Option.some.inj h, set]
  | sent | closed => cases h

/-- A dispatcher that is not in transit is live. -/
theorem eq_live {e : Endpoint P H} {d : DataPipe P H} (he : e.Frozen)
    (h : e.dispatcher = some d) (hd : d.inTransit = false) : e = live d := by
  cases e with
  | live => exact congrArg live (Option.some.inj h)
  | serialized d' state =>
    have := he d' state rfl
    rw [Option.some.inj h, hd] at this
    cases this
  | sent | closed => cases h

theorem frozen_live (d : DataPipe P H) : (live d).Frozen := fun _ _ h => by cases h

theorem frozen_sent (state : List UInt8) : (sent state : Endpoint P H).Frozen :=
  fun _ _ h => by cases h

theorem frozen_closed : (closed : Endpoint P H).Frozen := fun _ _ h => by cases h

/-- A call does not take a dispatcher out of transit. -/
theorem frozen_set {e : Endpoint P H} {d d' : DataPipe P H} (he : e.Frozen)
    (hd : e.dispatcher = some d) (htransit : d'.inTransit = d.inTransit) : (e.set d').Frozen := by
  cases e with
  | live => exact frozen_live d'
  | serialized d₀ state =>
    rintro d₁ state' ⟨rfl⟩
    rw [htransit, ← Option.some.inj hd]
    exact he d₀ state rfl
  | sent => exact frozen_sent _
  | closed => exact frozen_closed

end Endpoint

namespace Channel

variable {c : Channel}

/-- A message that is delivered is still one of the channel. -/
theorem messages_deliver {c' : Channel} (h : c.deliver = some c') : c'.messages = c.messages := by
  rw [deliver] at h
  split at h
  · cases h
  · obtain rfl := Option.some.inj h
    rename_i heq
    simp only [messages, heq, List.append_assoc, List.singleton_append]

/-- A message that is sent is the last one of the channel. -/
theorem messages_send (c : Channel) (command : DataPipeCommand) (n : UInt32) :
    (c.send command (some n)).messages = c.messages ++ [⟨command, n⟩] := by
  simp only [send, messages, List.append_assoc]

/-- A message that is withdrawn is not lost. -/
theorem messages_withdraw (c : Channel) : c.withdraw.messages = c.messages := rfl

end Channel

namespace Pipe

variable {o : DataPipeOptions} {s s' : Pipe P H} {side : Side} {d d' : DataPipe P H} {v : View}
  {n : UInt32}

/-- The place of an end in the stream. -/
def index (s : Pipe P H) : Side → ℕ
  | .producer => s.produced.length
  | .consumer => s.consumed.length

/-- How far an end may get. -/
def limit (o : DataPipeOptions) (s : Pipe P H) : Side → ℕ
  | .producer => s.consumed.length + o.capacityNumBytes.toNat
  | .consumer => s.produced.length

/-- What an end knows is true, but for what it is about to be told. -/
structure Agrees (o : DataPipeOptions) (s : Pipe P H) (side : Side) (v : View) : Prop where
  options : v.options = o
  offset : v.offset.toNat = s.index side % o.capacityNumBytes.toNat
  amount : v.amount.toNat + totalBytes (s.channel side).messages + s.index side = s.limit o side

/-- The memory that is exposed for writing is free. -/
def Exposed (o : DataPipeOptions) (e : Endpoint P H) (w : ℕ × ℕ) : Prop :=
  ∃ d, e = .live d ∧ d.inTwoPhase = true ∧ d.inTransit = false ∧ w.1 = d.offset.toNat ∧
    w.2 ≤ d.amount.toNat ∧ w.1 + w.2 ≤ o.capacityNumBytes.toNat

/-- The memory that is exposed for reading can be read. -/
def Readable (o : DataPipeOptions) (e : Endpoint P H) : Prop :=
  ∀ d, e.dispatcher = some d → d.inTwoPhase = true →
    d.twoPhaseMaxBytesRead ≤ d.amount ∧
    d.offset.toNat + d.twoPhaseMaxBytesRead.toNat ≤ o.capacityNumBytes.toNat

/-- What holds of a data pipe. -/
structure Inv (o : DataPipeOptions) (s : Pipe P H) : Prop where
  agrees : ∀ side, ∀ v ∈ (s.endpoint side).views, s.Agrees o side v
  commands : ∀ side, ∀ m ∈ (s.channel side).messages, m.command = side.command
  frozen : ∀ side, (s.endpoint side).Frozen
  exposed : ∀ w, s.window = some w → Exposed o (s.endpoint .producer) w
  readable : Readable o (s.endpoint .consumer)
  consumed : s.consumed <+: s.produced
  room : s.produced.length ≤ s.consumed.length + o.capacityNumBytes.toNat
  holds : Ring.Holds o.capacityNumBytes.toNat s.buffer s.produced s.consumed.length

/-- A view that agrees does so as long as the counts and the messages stay. -/
theorem Agrees.congr (hv : s.Agrees o side v) (hindex : s'.index side = s.index side)
    (hlimit : s'.limit o side = s.limit o side)
    (hmessages : (s'.channel side).messages = (s.channel side).messages) :
    s'.Agrees o side v := by
  refine ⟨hv.options, ?_, ?_⟩
  · rw [hindex, hv.offset]
  · rw [hmessages, hindex, hlimit, hv.amount]

/-! ## An end on its own -/

/-- An end is changed, but not what it knows. -/
theorem Inv.setEndpoint (h : Inv o s) {e : Endpoint P H} {window : Option (ℕ × ℕ)}
    (hviews : ∀ v ∈ e.views, v ∈ (s.endpoint side).views) (hfrozen : e.Frozen)
    (hexposed : ∀ w, window = some w → Exposed o ((s.setEndpoint side e).endpoint .producer) w)
    (hreadable : Readable o ((s.setEndpoint side e).endpoint .consumer)) :
    Inv o { s.setEndpoint side e with window := window } := by
  refine { h with agrees := ?_, frozen := ?_, exposed := hexposed, readable := hreadable }
  · intro side' v hv
    simp only [endpoint_setEndpoint] at hv
    split_ifs at hv with hside
    · subst hside
      exact (h.agrees side' v (hviews v hv)).congr rfl rfl rfl
    · exact (h.agrees side' v hv).congr rfl rfl rfl
  · intro side'
    simp only [endpoint_setEndpoint]
    split_ifs
    · exact hfrozen
    · exact h.frozen side'

/-- The producer changes, but no more of what it sees. -/
theorem Inv.setProducer (h : Inv o s) {e : Endpoint P H} {window : Option (ℕ × ℕ)}
    (hviews : ∀ v ∈ e.views, v ∈ (s.endpoint .producer).views) (hfrozen : e.Frozen)
    (hexposed : ∀ w, window = some w → Exposed o e w) :
    Inv o { s.setEndpoint .producer e with window := window } :=
  h.setEndpoint hviews hfrozen hexposed h.readable

/-- The consumer changes, but no more of what it sees. -/
theorem Inv.setConsumer (h : Inv o s) {e : Endpoint P H}
    (hviews : ∀ v ∈ e.views, v ∈ (s.endpoint .consumer).views) (hfrozen : e.Frozen)
    (hreadable : Readable o e) : Inv o (s.setEndpoint .consumer e) :=
  h.setEndpoint hviews hfrozen h.exposed hreadable

/-- Control messages get nearer to an end. -/
theorem Inv.setChannel (h : Inv o s) {c : Channel} (hc : c.messages = (s.channel side).messages) :
    Inv o (s.setChannel side c) := by
  have hmessages (side' : Side) : ((s.setChannel side c).channel side').messages =
      (s.channel side').messages := by
    rw [channel_setChannel]
    split_ifs with hside
    · rw [hc, hside]
    · rfl
  refine { h with agrees := ?_, commands := ?_ }
  · intro side' v hv
    exact (h.agrees side' v hv).congr rfl rfl (hmessages side')
  · intro side'
    rw [hmessages]
    exact h.commands side'

/-! ## Bytes that are written or read -/

/-- The capacities for which the offsets do not overflow. -/
def Sized (o : DataPipeOptions) : Prop :=
  0 < o.capacityNumBytes.toNat ∧ o.capacityNumBytes.toNat ≤ 2 ^ 31

/-- An end may write or read all there is, and the sum that is its next offset does not
    overflow. -/
def NoOverflow (s : Pipe P H) : Prop :=
  ∀ side d, (s.endpoint side).dispatcher = some d → d.offset.toNat + d.amount.toNat < 2 ^ 32

/-- No more is read than was written. -/
theorem Inv.length_le (h : Inv o s) : s.consumed.length ≤ s.produced.length :=
  h.consumed.length_le

/-- The ends are told of no more bytes than there can be. -/
theorem Inv.amount_add_le (h : Inv o s) (hv : s.Agrees o side v) :
    v.amount.toNat + totalBytes (s.channel side).messages ≤ o.capacityNumBytes.toNat := by
  have := hv.amount
  have := h.length_le
  have := h.room
  cases side with
  | producer | consumer =>
    simp only [index, limit] at *
    omega

/-- No end counts more bytes than the ring has. -/
theorem Inv.amount_le (h : Inv o s) (hv : s.Agrees o side v) :
    v.amount.toNat ≤ o.capacityNumBytes.toNat :=
  (Nat.le_add_right ..).trans (h.amount_add_le hv)

/-- An offset is in the ring. -/
theorem Agrees.offset_lt (ho : 0 < o.capacityNumBytes.toNat) (hv : s.Agrees o side v) :
    v.offset.toNat < o.capacityNumBytes.toNat := by
  rw [hv.offset]
  exact Nat.mod_lt _ ho

/-- There are no overflows in a ring that is not too large. -/
theorem Inv.noOverflow (ho : Sized o) (h : Inv o s) : s.NoOverflow := by
  intro side d hd
  have hagrees := h.agrees side _ (Endpoint.view_mem_views hd)
  have hlt : d.offset.toNat < o.capacityNumBytes.toNat := hagrees.offset_lt ho.1
  have hle : d.amount.toNat ≤ o.capacityNumBytes.toNat := h.amount_le hagrees
  have hsize := ho.2
  omega

/-- What an end knows after it wrote or read some bytes. -/
theorem Agrees.agrees_advance (hd : s.Agrees o side (view d))
    (hsum : d.offset.toNat + d.amount.toNat < 2 ^ 32) (hn : n ≤ d.amount)
    (hindex : s'.index side = s.index side + n.toNat)
    (hlimit : s'.limit o side = s.limit o side) (hchannel : s'.channel side = s.channel side) :
    s'.Agrees o side (view (d.advance n)) := by
  have hle := UInt32.le_iff_toNat_le.1 hn
  refine ⟨hd.options, ?_, ?_⟩
  · have hoptions : d.options = o := hd.options
    have hoffset : d.offset.toNat = s.index side % o.capacityNumBytes.toNat := hd.offset
    rw [hindex, view, advance, hoptions]
    simp only
    rw [UInt32.toNat_mod, UInt32.toNat_add, Nat.mod_eq_of_lt (a := d.offset.toNat + n.toNat)
      (by omega), hoffset, Nat.mod_add_mod]
  · have : d.amount.toNat + totalBytes (s.channel side).messages + s.index side =
      s.limit o side := hd.amount
    rw [hchannel, hindex, hlimit, view, advance]
    simp only
    rw [UInt32.toNat_sub_of_le _ _ hn]
    omega

/-- What an end knows while its peer writes or reads some bytes. -/
theorem Agrees.told (hv : s.Agrees o side v) (hindex : s'.index side = s.index side)
    (hlimit : s'.limit o side = s.limit o side + n.toNat)
    (hchannel : s'.channel side = (s.channel side).send side.command (some n)) :
    s'.Agrees o side v := by
  refine ⟨hv.options, ?_, ?_⟩
  · rw [hindex, hv.offset]
  · rw [hindex, hlimit, hchannel, Channel.messages_send, totalBytes_append, totalBytes_cons,
      totalBytes_nil, ← hv.amount]
    simp only
    omega

/-- An end wrote or read some bytes, and tells its peer. -/
structure Advances (s s' : Pipe P H) (side : Side) (d : DataPipe P H)
    (n : UInt32) : Prop where
  live : s.endpoint side = .live d
  le : n ≤ d.amount
  endpoint : ∃ d', s'.endpoint = Function.update s.endpoint side (.live d') ∧
    view d' = view (d.advance n)
  channel : s'.channel = Function.update s.channel side.opp
    ((s.channel side.opp).send side.opp.command (some n))
  index : s'.index side = s.index side + n.toNat
  index_opp : s'.index side.opp = s.index side.opp

/-- The end that writes or reads changes nothing about its own limit. -/
theorem Advances.limit (hs : Advances s s' side d n) : s'.limit o side = s.limit o side := by
  have := hs.index_opp
  cases side with
  | producer | consumer => simp_all [Side.opp, Pipe.index, Pipe.limit]

/-- What one end writes or reads is more that the other may. -/
theorem Advances.limit_opp (hs : Advances s s' side d n) :
    s'.limit o side.opp = s.limit o side.opp + n.toNat := by
  have := hs.index
  cases side with
  | producer => simp_all [Side.opp, Pipe.index, Pipe.limit]
  | consumer =>
    simp only [Side.opp, Pipe.index, Pipe.limit] at *
    omega

/-- Both ends still agree then. -/
theorem Inv.agrees_of_advances (hsum : s.NoOverflow) (h : Inv o s) (hs : Advances s s' side d n) :
    ∀ side', ∀ v ∈ (s'.endpoint side').views, s'.Agrees o side' v := by
  intro side' v hv
  obtain ⟨d', hendpoint, hview⟩ := hs.endpoint
  rw [hendpoint, Function.update_apply] at hv
  split_ifs at hv with hside
  · subst hside
    rw [List.mem_singleton.1 hv, hview]
    have hd : (s.endpoint side').dispatcher = some d := by rw [hs.live]; rfl
    have hagrees := h.agrees side' _ (Endpoint.view_mem_views hd)
    refine hagrees.agrees_advance (hsum side' d hd) hs.le hs.index hs.limit ?_
    rw [hs.channel, Function.update_of_ne (Side.ne_opp side')]
  · obtain rfl : side' = side.opp := by
      cases side <;> cases side' <;> first | rfl | exact absurd rfl hside
    refine (h.agrees side.opp v hv).told hs.index_opp hs.limit_opp ?_
    rw [hs.channel, Function.update_self]

theorem Inv.commands_of_advances (h : Inv o s) (hs : Advances s s' side d n) :
    ∀ side', ∀ m ∈ (s'.channel side').messages, m.command = side'.command := by
  intro side' m hm
  rw [hs.channel, Function.update_apply] at hm
  split_ifs at hm with hside
  · rw [Channel.messages_send, List.mem_append, List.mem_singleton] at hm
    subst hside
    rcases hm with hm | rfl
    · exact h.commands _ m hm
    · rfl
  · exact h.commands side' m hm

theorem Inv.frozen_of_advances (h : Inv o s) (hs : Advances s s' side d n) :
    ∀ side', (s'.endpoint side').Frozen := by
  intro side'
  obtain ⟨d', hendpoint, -⟩ := hs.endpoint
  rw [hendpoint, Function.update_apply]
  split_ifs
  · exact Endpoint.frozen_live d'
  · exact h.frozen side'

/-- Bytes are produced, where their places got their values, and the places of the
    bytes that are not consumed kept theirs. -/
theorem Inv.produce (hsum : s.NoOverflow) (h : Inv o s) (hs : Advances s s' .producer d n)
    {bytes : List UInt8} (hbytes : bytes.length = n.toNat)
    (hproduced : s'.produced = s.produced ++ bytes) (hconsumed : s'.consumed = s.consumed)
    (hwindow : s'.window = none)
    (hkept : ∀ k, s.consumed.length ≤ k → k < s.produced.length →
      s'.buffer (k % o.capacityNumBytes.toNat) = s.buffer (k % o.capacityNumBytes.toNat))
    (hstored : ∀ k (hk : k < bytes.length),
      s'.buffer ((s.produced.length + k) % o.capacityNumBytes.toNat) = bytes[k]) :
    Inv o s' := by
  obtain ⟨d', hendpoint, -⟩ := hs.endpoint
  refine
    { agrees := h.agrees_of_advances hsum hs
      commands := h.commands_of_advances hs
      frozen := h.frozen_of_advances hs
      exposed := fun w hw => by rw [hwindow] at hw; cases hw
      readable := ?_
      consumed := ?_
      room := ?_
      holds := ?_ }
  · rw [hendpoint, Function.update_of_ne (by decide)]
    exact h.readable
  · rw [hconsumed, hproduced]
    exact h.consumed.trans (List.prefix_append ..)
  · have hd : view d ∈ (s.endpoint .producer).views := by
      rw [hs.live]
      exact List.mem_singleton_self _
    have hamount : d.amount.toNat + totalBytes (s.channel .producer).messages +
      s.produced.length = s.consumed.length + o.capacityNumBytes.toNat :=
        (h.agrees .producer _ hd).amount
    have := UInt32.le_iff_toNat_le.1 hs.le
    rw [hproduced, hconsumed, List.length_append]
    omega
  · rw [hproduced, hconsumed]
    exact (h.holds.congr hkept).append hstored

/-- Bytes are consumed, those that are in the next places. -/
theorem Inv.consume (hsum : s.NoOverflow) (h : Inv o s) (hs : Advances s s' .consumer d n)
    {bytes : List UInt8} (hbytes : bytes.length = n.toNat)
    (hproduced : s'.produced = s.produced) (hconsumed : s'.consumed = s.consumed ++ bytes)
    (hwindow : s'.window = s.window) (hbuffer : s'.buffer = s.buffer)
    (hreadable : Readable o (s'.endpoint .consumer))
    (hread : ∀ k (hk : k < bytes.length),
      bytes[k] = s.buffer ((s.consumed.length + k) % o.capacityNumBytes.toNat)) :
    Inv o s' := by
  obtain ⟨d', hendpoint, -⟩ := hs.endpoint
  have hd : view d ∈ (s.endpoint .consumer).views := by
    rw [hs.live]
    exact List.mem_singleton_self _
  have hamount : d.amount.toNat + totalBytes (s.channel .consumer).messages +
    s.consumed.length = s.produced.length := (h.agrees .consumer _ hd).amount
  have hle := UInt32.le_iff_toNat_le.1 hs.le
  refine
    { agrees := h.agrees_of_advances hsum hs
      commands := h.commands_of_advances hs
      frozen := h.frozen_of_advances hs
      exposed := ?_
      readable := hreadable
      consumed := ?_
      room := ?_
      holds := ?_ }
  · intro w hw
    rw [hendpoint, Function.update_of_ne (by decide)]
    exact h.exposed w (hwindow ▸ hw)
  · obtain ⟨rest, hrest⟩ := h.consumed
    have hnext := h.holds.take_drop (by omega) hbytes hread
    rw [← hrest, List.drop_left] at hnext
    rw [hconsumed, hproduced, ← hrest, List.prefix_append_right_inj, ← hnext]
    exact List.take_prefix ..
  · have := h.room
    rw [hproduced, hconsumed, List.length_append]
    omega
  · rw [hproduced, hconsumed, hbuffer]
    exact h.holds.mono (by rw [List.length_append]; omega)

/-! ## The calls -/

theorem call_none (hd : (s.endpoint side).dispatcher = some d) : s.call side d none = s := by
  simp only [call, Pipe.setEndpoint, Pipe.setChannel, Channel.send, Endpoint.set_of_dispatcher hd,
    Function.update_eq_self]

/-- A call that wrote or read some bytes. -/
theorem advances_call (hlive : s.endpoint side = .live d) (hn : n ≤ d.amount)
    (hview : view d' = view (d.advance n))
    (hendpoint : s'.endpoint = (s.call side d' (some n)).endpoint)
    (hchannel : s'.channel = (s.call side d' (some n)).channel)
    (hindex : s'.index side = s.index side + n.toNat)
    (hindex' : s'.index side.opp = s.index side.opp) : Advances s s' side d n where
  live := hlive
  le := hn
  endpoint := ⟨d', by rw [hendpoint, call, hlive]; rfl, hview⟩
  channel := hchannel
  index := hindex
  index_opp := hindex'

/-- The copies of `WriteData` go to places that are free. -/
theorem Inv.copyToRing_mod (ho : 0 < o.capacityNumBytes.toNat) (h : Inv o s)
    (hd : (s.endpoint .producer).dispatcher = some d) (hn : n ≤ d.amount) (elements : ℕ → UInt8)
    {k : ℕ} (hk : s.consumed.length ≤ k) (hlt : k < s.produced.length) :
    d.copyToRing s.buffer elements n (k % o.capacityNumBytes.toNat) =
      s.buffer (k % o.capacityNumBytes.toNat) := by
  have hagrees := h.agrees .producer _ (Endpoint.view_mem_views hd)
  have hoff : d.offset.toNat < o.capacityNumBytes.toNat := hagrees.offset_lt ho
  have hoptions : d.options = o := hagrees.options
  have hoffset : d.offset.toNat = s.produced.length % o.capacityNumBytes.toNat := hagrees.offset
  have hamount : d.amount.toNat + totalBytes (s.channel .producer).messages +
    s.produced.length = s.consumed.length + o.capacityNumBytes.toNat := hagrees.amount
  have hle := UInt32.le_iff_toNat_le.1 hn
  rw [copyToRing_eq (UInt32.le_iff_toNat_le.2 (hoptions ▸ hoff.le)), hoptions, hoffset]
  exact Ring.store_mod_of_lt hlt (by omega)

/-- They store the bytes that are produced. -/
theorem Inv.copyToRing_add_mod (ho : 0 < o.capacityNumBytes.toNat) (h : Inv o s)
    (hd : (s.endpoint .producer).dispatcher = some d) (hn : n ≤ d.amount) (elements : ℕ → UInt8)
    {k : ℕ} (hk : k < n.toNat) :
    d.copyToRing s.buffer elements n ((s.produced.length + k) % o.capacityNumBytes.toNat) =
      elements k := by
  have hagrees := h.agrees .producer _ (Endpoint.view_mem_views hd)
  have hoff : d.offset.toNat < o.capacityNumBytes.toNat := hagrees.offset_lt ho
  have hoptions : d.options = o := hagrees.options
  have hoffset : d.offset.toNat = s.produced.length % o.capacityNumBytes.toNat := hagrees.offset
  have hle : n.toNat ≤ o.capacityNumBytes.toNat :=
    (UInt32.le_iff_toNat_le.1 hn).trans (h.amount_le hagrees)
  rw [copyToRing_eq (UInt32.le_iff_toNat_le.2 (hoptions ▸ hoff.le)), hoptions, hoffset,
    ← Nat.mod_add_mod, Ring.store_add_mod (Nat.mod_lt _ ho) hle hk]

/-- `WriteData` keeps the ends agreed. -/
theorem Inv.writeData (ho : 0 < o.capacityNumBytes.toNat) (hsum : s.NoOverflow) (h : Inv o s)
    (hd : (s.endpoint .producer).dispatcher = some d) (elements : ℕ → UInt8) (numBytes : UInt32)
    (allOrNone : Bool) : Inv o (s.writeData elements numBytes allOrNone d) := by
  obtain ⟨hdispatcher, hmemory, hnotified⟩ | ⟨n, hn, htransit, hphase, hdispatcher, hmemory,
    hnotified⟩ := writeData_cases d s.buffer elements numBytes allOrNone
  · simp only [Pipe.writeData, hdispatcher, hmemory, hnotified, call_none hd, count]
    simpa [Memory.load] using h
  have hlive := Endpoint.eq_live (h.frozen .producer) hd htransit
  have hbuffer : (s.writeData elements numBytes allOrNone d).buffer =
    d.copyToRing s.buffer elements n := hmemory
  have hproduced : (s.writeData elements numBytes allOrNone d).produced =
      s.produced ++ Memory.load elements 0 n.toNat := by
    simp only [Pipe.writeData, hnotified, count, Option.elim_some]
  refine h.produce hsum (advances_call hlive hn rfl ?_ ?_ ?_ rfl) (Memory.length_load ..) hproduced
    rfl ?_ ?_ ?_
  · simp only [Pipe.writeData, hdispatcher, hnotified]
  · simp only [Pipe.writeData, hdispatcher, hnotified]
  · rw [index, hproduced, List.length_append, Memory.length_load]
    rfl
  · -- There is no window, as no write in two phases goes on.
    cases hw : s.window with
    | none => exact hw
    | some w =>
      obtain ⟨d₀, hlive', hphase', -⟩ := h.exposed w hw
      rw [hlive] at hlive'
      cases hlive'
      rw [hphase] at hphase'
      cases hphase'
  · intro k hk hlt
    rw [hbuffer]
    exact h.copyToRing_mod ho hd hn elements hk hlt
  · intro k hk
    rw [Memory.length_load] at hk
    rw [hbuffer, Memory.getElem_load, Nat.zero_add]
    exact h.copyToRing_add_mod ho hd hn elements hk

/-- A dispatcher that sees what the one before it saw. -/
theorem views_live (hlive : s.endpoint side = .live d) (hview : view d' = view d) :
    ∀ v ∈ (Endpoint.live d').views, v ∈ (s.endpoint side).views := by
  intro v hv
  rw [List.mem_singleton.1 hv, hview, hlive]
  exact List.mem_singleton_self _

/-- A call that changes a dispatcher not in transit, and sends nothing. -/
theorem call_of_live (hlive : s.endpoint side = .live d) (d' : DataPipe P H) :
    s.call side d' none = s.setEndpoint side (.live d') := by
  simp only [call, Pipe.setChannel, Channel.send, hlive, Endpoint.set]
  rw [show s.channel side.opp = (s.setEndpoint side (.live d')).channel side.opp from rfl,
    Function.update_eq_self]

/-- `BeginWriteData` keeps the ends agreed. -/
theorem Inv.beginWriteData (ho : 0 < o.capacityNumBytes.toNat) (h : Inv o s)
    (hd : (s.endpoint .producer).dispatcher = some d) : Inv o (s.beginWriteData d) := by
  rw [Pipe.beginWriteData]
  obtain ⟨hdispatcher, hwindow⟩ | ⟨htransit, hphase, hdispatcher, hwindow⟩ :=
    beginWriteData_cases d
  · simp only [hdispatcher, hwindow, call_none hd, Option.none_or]
    exact h
  have hlive := Endpoint.eq_live (h.frozen .producer) hd htransit
  have hagrees := h.agrees .producer _ (Endpoint.view_mem_views hd)
  have hoff : d.offset.toNat < o.capacityNumBytes.toNat := hagrees.offset_lt ho
  have hoptions : d.options = o := hagrees.options
  simp only [hdispatcher, hwindow, call_of_live hlive, Option.some_or]
  refine h.setProducer (views_live hlive rfl) (Endpoint.frozen_live _) ?_
  rintro w ⟨rfl⟩
  have htail := toNat_tail (n := d.amount) (UInt32.le_iff_toNat_le.2 (hoptions ▸ hoff.le))
  rw [hoptions] at htail
  refine ⟨_, rfl, rfl, htransit, rfl, ?_, ?_⟩
  · simp only [hoptions, htail]
    exact min_le_right ..
  · simp only [hoptions, htail]
    omega

/-- The memory may be taken from the holder of the producer. -/
theorem Inv.setWindow (h : Inv o s) {window : Option (ℕ × ℕ)}
    (hwindow : ∀ w, window = some w → s.window = some w) : Inv o { s with window := window } :=
  { h with
    agrees := fun side v hv => (h.agrees side v hv).congr rfl rfl rfl
    exposed := fun w hw => h.exposed w (hwindow w hw) }

/-- `EndWriteData` keeps the ends agreed. -/
theorem Inv.endWriteData (ho : 0 < o.capacityNumBytes.toNat) (hsum : s.NoOverflow) (h : Inv o s)
    (hd : (s.endpoint .producer).dispatcher = some d) (numBytesWritten : UInt32) :
    Inv o (s.endWriteData numBytesWritten d) := by
  have hagrees := h.agrees .producer _ (Endpoint.view_mem_views hd)
  have hoptions : d.options = o := hagrees.options
  obtain ⟨hdispatcher | ⟨htransit, hdispatcher⟩, hnotified⟩ | ⟨hn, hle, htransit, hphase,
    hdispatcher, hnotified⟩ := endWriteData_cases d numBytesWritten
  · simp only [Pipe.endWriteData, hdispatcher, hnotified, call_none hd, count, Option.elim_none]
    simp only [Memory.load, List.range_zero, List.map_nil, List.append_nil]
    refine h.setWindow fun w hw => ?_
    split_ifs at hw
    exact hw
  · have hlive := Endpoint.eq_live (h.frozen .producer) hd htransit
    simp only [Pipe.endWriteData, hdispatcher, hnotified, call_of_live hlive, count,
      Option.elim_none]
    simp only [Memory.load, List.range_zero, List.map_nil, List.append_nil]
    exact h.setProducer (views_live hlive rfl) (Endpoint.frozen_live _) fun w hw => by cases hw
  · have hlive := Endpoint.eq_live (h.frozen .producer) hd htransit
    have hoff : d.offset.toNat < o.capacityNumBytes.toNat := hagrees.offset_lt ho
    have hoffset : d.offset.toNat = s.produced.length % o.capacityNumBytes.toNat :=
      hagrees.offset
    have hamount : d.amount.toNat ≤ o.capacityNumBytes.toNat := h.amount_le hagrees
    have hn' := UInt32.le_iff_toNat_le.1 hn
    have hle' : d.offset.toNat + numBytesWritten.toNat ≤ o.capacityNumBytes.toNat := by
      have := hsum .producer d hd
      have := UInt32.le_iff_toNat_le.1 hle
      rw [UInt32.toNat_add, hoptions, Nat.mod_eq_of_lt (by omega)] at this
      exact this
    have hproduced : (s.endWriteData numBytesWritten d).produced =
        s.produced ++ Memory.load s.buffer d.offset.toNat numBytesWritten.toNat := by
      simp only [Pipe.endWriteData, hnotified, count, Option.elim_some]
    have hview : view { d.advance numBytesWritten with inTwoPhase := false } =
      view (d.advance numBytesWritten) := rfl
    refine h.produce hsum (advances_call hlive hn hview ?_ ?_ ?_ rfl) (Memory.length_load ..)
      hproduced rfl ?_ (fun _ _ _ => rfl) ?_
    · simp only [Pipe.endWriteData, hdispatcher, hnotified]
    · simp only [Pipe.endWriteData, hdispatcher, hnotified]
    · rw [index, hproduced, List.length_append, Memory.length_load]
      rfl
    · simp only [Pipe.endWriteData, hdispatcher]
      rfl
    · intro k hk
      rw [Memory.length_load] at hk
      rw [Memory.getElem_load, ← Nat.mod_add_mod, ← hoffset, Nat.mod_eq_of_lt (by omega)]
      rfl

/-- The places of the bytes that are not consumed are not exposed. -/
theorem Inv.ne_of_exposed (h : Inv o s) {w : ℕ × ℕ} (hw : s.window = some w) {i k : ℕ}
    (hi : i < w.2) (hk : s.consumed.length ≤ k) (hlt : k < s.produced.length) :
    k % o.capacityNumBytes.toNat ≠ w.1 + i := by
  obtain ⟨d, hlive, -, -, hoff, hsize, hle⟩ := h.exposed w hw
  have hagrees := h.agrees .producer (view d) (by rw [hlive]; exact List.mem_singleton_self _)
  have hoffset : d.offset.toNat = s.produced.length % o.capacityNumBytes.toNat := hagrees.offset
  have hamount : d.amount.toNat + totalBytes (s.channel .producer).messages +
    s.produced.length = s.consumed.length + o.capacityNumBytes.toNat := hagrees.amount
  have hplace : w.1 + i = (s.produced.length + i) % o.capacityNumBytes.toNat := by
    rw [← Nat.mod_add_mod, ← hoffset, ← hoff, Nat.mod_eq_of_lt (by omega)]
  rw [hplace]
  exact Ring.mod_ne (by omega) (by omega)

/-- A byte is stored where the producer may write. -/
theorem Inv.store (h : Inv o s) {w : ℕ × ℕ} (hw : s.window = some w) {i : ℕ} (hi : i < w.2)
    (byte : UInt8) : Inv o { s with buffer := Function.update s.buffer (w.1 + i) byte } :=
  { h with
    agrees := fun side v hv => (h.agrees side v hv).congr rfl rfl rfl
    holds := h.holds.congr fun _ hk hlt =>
      Function.update_of_ne (h.ne_of_exposed hw hi hk hlt) .. }

theorem readable_of_not_inTwoPhase (hd : d.inTwoPhase = false) : Readable o (.live d) := by
  rintro d' ⟨rfl⟩ hphase
  rw [hd] at hphase
  cases hphase

/-- `ReadData` keeps the ends agreed. -/
theorem Inv.readData (ho : 0 < o.capacityNumBytes.toNat) (hsum : s.NoOverflow) (h : Inv o s)
    (hd : (s.endpoint .consumer).dispatcher = some d) (elements : ℕ → UInt8) (numBytes : UInt32)
    (flags : ReadDataFlags) : Inv o (s.readData elements numBytes flags d) := by
  obtain ⟨hdispatcher, hnotified⟩ | ⟨n, hn, htransit, hphase, hdispatcher, hnotified,
    hmemory⟩ := readData_cases d s.buffer elements numBytes flags
  · simp only [Pipe.readData, hdispatcher, hnotified, call_none hd, count, Option.elim_none]
    simpa [Memory.load, Ring.load] using h
  have hlive := Endpoint.eq_live (h.frozen .consumer) hd htransit
  have hagrees := h.agrees .consumer _ (Endpoint.view_mem_views hd)
  have hoff : d.offset.toNat < o.capacityNumBytes.toNat := hagrees.offset_lt ho
  have hoptions : d.options = o := hagrees.options
  have hoffset : d.offset.toNat = s.consumed.length % o.capacityNumBytes.toNat := hagrees.offset
  have hle : n.toNat ≤ o.capacityNumBytes.toNat :=
    (UInt32.le_iff_toNat_le.1 hn).trans (h.amount_le hagrees)
  have hread : ∃ bytes : List UInt8, bytes.length = n.toNat ∧
      (s.readData elements numBytes flags d).consumed = s.consumed ++ bytes ∧
      ∀ k (hk : k < bytes.length),
        bytes[k] = s.buffer ((s.consumed.length + k) % o.capacityNumBytes.toNat) := by
    simp only [Pipe.readData, hnotified, count, Option.elim_some]
    refine ⟨_, ?_, rfl, ?_⟩
    · split_ifs
      · rw [Ring.length_load]
      · rw [Memory.length_load]
    · intro k hk
      split_ifs at hk ⊢ with hdiscard
      · rw [Ring.getElem_load, hoptions, hoffset, Nat.mod_add_mod]
      · rw [Memory.length_load] at hk
        rw [Memory.getElem_load, Nat.zero_add, hmemory (Bool.eq_false_iff.2 hdiscard),
          copyFromRing_eq (UInt32.le_iff_toNat_le.2 (hoptions ▸ hoff.le)), hoptions,
          Ring.fetch_apply hoff hle _ hk, hoffset, Nat.mod_add_mod]
  obtain ⟨bytes, hbytes, hconsumed, hread⟩ := hread
  refine h.consume hsum (advances_call hlive hn rfl ?_ ?_ ?_ rfl) hbytes rfl hconsumed rfl rfl ?_
    hread
  · simp only [Pipe.readData, hdispatcher, hnotified]
  · simp only [Pipe.readData, hdispatcher, hnotified]
  · rw [index, hconsumed, List.length_append, hbytes]
    rfl
  · simp only [Pipe.readData, hdispatcher, call, hlive, Endpoint.set]
    exact readable_of_not_inTwoPhase hphase

/-- `BeginReadData` keeps the ends agreed. -/
theorem Inv.beginReadData (ho : 0 < o.capacityNumBytes.toNat) (h : Inv o s)
    (hd : (s.endpoint .consumer).dispatcher = some d) (flags : ReadDataFlags) :
    Inv o (s.beginReadData flags d) := by
  rw [Pipe.beginReadData]
  obtain hdispatcher | ⟨htransit, hdispatcher⟩ := beginReadData_cases d flags
  · rw [hdispatcher, call_none hd]
    exact h
  have hlive := Endpoint.eq_live (h.frozen .consumer) hd htransit
  have hagrees := h.agrees .consumer _ (Endpoint.view_mem_views hd)
  have hoff : d.offset.toNat < o.capacityNumBytes.toNat := hagrees.offset_lt ho
  have hoptions : d.options = o := hagrees.options
  rw [hdispatcher, call_of_live hlive]
  refine h.setConsumer (views_live hlive rfl) (Endpoint.frozen_live _) ?_
  rintro d' ⟨rfl⟩ -
  simp only [hoptions, UInt32.le_iff_toNat_le, UInt32.toNat_min,
    UInt32.toNat_sub_of_le _ _ (UInt32.le_iff_toNat_le.2 hoff.le)]
  omega

/-- `EndReadData` keeps the ends agreed. -/
theorem Inv.endReadData (ho : 0 < o.capacityNumBytes.toNat) (hsum : s.NoOverflow) (h : Inv o s)
    (hd : (s.endpoint .consumer).dispatcher = some d) (numBytesRead : UInt32) :
    Inv o (s.endReadData numBytesRead d) := by
  have hagrees := h.agrees .consumer _ (Endpoint.view_mem_views hd)
  obtain ⟨hdispatcher | ⟨htransit, hdispatcher⟩, hnotified⟩ | ⟨hn, htransit, hphase,
    hdispatcher, hnotified⟩ := endReadData_cases d numBytesRead
  · simp only [Pipe.endReadData, hdispatcher, hnotified, call_none hd, count, Option.elim_none]
    simpa [Memory.load] using h
  · have hlive := Endpoint.eq_live (h.frozen .consumer) hd htransit
    simp only [Pipe.endReadData, hdispatcher, hnotified, call_of_live hlive, count,
      Option.elim_none]
    simp only [Memory.load, List.range_zero, List.map_nil, List.append_nil]
    exact h.setConsumer (views_live hlive rfl) (Endpoint.frozen_live _)
      (readable_of_not_inTwoPhase rfl)
  · have hlive := Endpoint.eq_live (h.frozen .consumer) hd htransit
    obtain ⟨hmax, hle⟩ := h.readable d hd hphase
    have hoff : d.offset.toNat < o.capacityNumBytes.toNat := hagrees.offset_lt ho
    have hoffset : d.offset.toNat = s.consumed.length % o.capacityNumBytes.toNat :=
      hagrees.offset
    have hn' := UInt32.le_iff_toNat_le.1 hn
    have hconsumed : (s.endReadData numBytesRead d).consumed =
        s.consumed ++ Memory.load s.buffer d.offset.toNat numBytesRead.toNat := by
      simp only [Pipe.endReadData, hnotified, count, Option.elim_some]
    have hview : view { d.advance numBytesRead with
      inTwoPhase := false, twoPhaseMaxBytesRead := 0 } = view (d.advance numBytesRead) := rfl
    refine h.consume hsum (advances_call hlive (UInt32.le_trans hn hmax) hview ?_ ?_ ?_ rfl)
      (Memory.length_load ..) rfl hconsumed rfl rfl ?_ ?_
    · simp only [Pipe.endReadData, hdispatcher, hnotified]
    · simp only [Pipe.endReadData, hdispatcher, hnotified]
    · rw [index, hconsumed, List.length_append, Memory.length_load]
      rfl
    · simp only [Pipe.endReadData, hdispatcher, call, hlive, Endpoint.set]
      exact readable_of_not_inTwoPhase rfl
    · intro k hk
      rw [Memory.length_load] at hk
      rw [Memory.getElem_load, ← Nat.mod_add_mod, ← hoffset, Nat.mod_eq_of_lt (by omega)]

/-! ## Control messages -/

/-- A dispatcher changes, but for what it knows and for what it is in the middle of. -/
theorem Inv.set (h : Inv o s) (hd : (s.endpoint side).dispatcher = some d)
    (hview : view d' = view d) (htransit : d'.inTransit = d.inTransit)
    (hphase : d'.inTwoPhase = d.inTwoPhase)
    (hmax : d'.twoPhaseMaxBytesRead = d.twoPhaseMaxBytesRead) :
    Inv o (s.setEndpoint side ((s.endpoint side).set d')) := by
  have hviews : ∀ v ∈ ((s.endpoint side).set d').views, v ∈ (s.endpoint side).views := by
    cases he : s.endpoint side with
    | live =>
      rw [he] at hd
      simp only [Endpoint.set, Endpoint.views, hview, Option.some.inj hd]
      exact fun v hv => hv
    | serialized d₀ state =>
      rw [he] at hd
      simp only [Endpoint.set, Endpoint.views, hview, Option.some.inj hd]
      exact fun v hv => hv
    | sent | closed => exact fun v hv => hv
  have hfrozen := Endpoint.frozen_set (h.frozen side) hd htransit
  obtain ⟨hoptions, hoffset, hamount⟩ := View.mk.inj hview
  cases side with
  | producer =>
    refine h.setProducer hviews hfrozen fun w hw => ?_
    obtain ⟨d₀, hlive, hphase₀, htransit₀, hoff, hsize⟩ := h.exposed w hw
    rw [hlive] at hd ⊢
    obtain rfl := Option.some.inj hd
    exact ⟨d', rfl, hphase.trans hphase₀, htransit.trans htransit₀, hoff.trans (by rw [hoffset]),
      by rw [hamount]; exact hsize⟩
  | consumer =>
    refine h.setConsumer hviews hfrozen fun d₀ hd₀ hphase₀ => ?_
    have hset : ((s.endpoint .consumer).set d').dispatcher = some d' := by
      cases he : s.endpoint .consumer with
      | live | serialized => rfl
      | sent | closed =>
        rw [he] at hd
        cases hd
    obtain rfl := Option.some.inj (hset.symm.trans hd₀)
    rw [hmax, hamount, hoffset]
    exact h.readable d hd (hphase ▸ hphase₀)

/-- The messages that a control port has are processed. -/
theorem Inv.receive (h : Inv o s) (hlive : s.endpoint side = .live d) {amount : UInt32}
    (hamount : amount.toNat = d.amount.toNat + totalBytes (s.channel side).queue)
    (peerClosed : Bool) :
    Inv o ((s.setEndpoint side (.live
      { d with amount := amount, peerClosed := peerClosed })).setChannel side
        { s.channel side with queue := [] }) := by
  have hagrees := h.agrees side (view d) (by rw [hlive]; exact List.mem_singleton_self _)
  have hle : d.amount.toNat ≤ amount.toNat := by omega
  refine { h with agrees := ?_, commands := ?_, frozen := ?_, exposed := ?_, readable := ?_ }
  · intro side' v hv
    rw [endpoint_setChannel, endpoint_setEndpoint] at hv
    split_ifs at hv with hside
    · subst hside
      have hold : d.amount.toNat + totalBytes (s.channel side').messages + s.index side' =
        s.limit o side' := hagrees.amount
      rw [Channel.messages, totalBytes_append] at hold
      rw [List.mem_singleton.1 hv]
      refine ⟨hagrees.options, hagrees.offset, ?_⟩
      rw [channel_setChannel, if_pos rfl, Channel.messages, List.nil_append]
      calc amount.toNat + totalBytes (s.channel side').inFlight + s.index side'
        _ = s.limit o side' := by omega
    · refine (h.agrees side' v hv).congr rfl rfl ?_
      rw [channel_setChannel, if_neg hside, channel_setEndpoint]
  · intro side' m hm
    rw [channel_setChannel, channel_setEndpoint] at hm
    split_ifs at hm with hside
    · subst hside
      exact h.commands side' m (List.mem_append_right _ hm)
    · exact h.commands side' m hm
  · intro side'
    rw [endpoint_setChannel, endpoint_setEndpoint]
    split_ifs
    · exact Endpoint.frozen_live _
    · exact h.frozen side'
  · intro w hw
    have hexposed := h.exposed w hw
    rw [endpoint_setChannel, endpoint_setEndpoint]
    split_ifs with hside
    · subst hside
      obtain ⟨d₀, hlive₀, hphase, htransit, hoff, hsize, hend⟩ := hexposed
      obtain rfl : d = d₀ := Endpoint.live.inj (hlive.symm.trans hlive₀)
      exact ⟨_, rfl, hphase, htransit, hoff, hsize.trans hle, hend⟩
    · exact hexposed
  · have hreadable := h.readable
    rw [endpoint_setChannel, endpoint_setEndpoint]
    split_ifs with hside
    · subst hside
      rintro d' ⟨rfl⟩ hphase
      obtain ⟨hmax, hend⟩ := hreadable d (by rw [hlive]; rfl) hphase
      exact ⟨UInt32.le_trans hmax (UInt32.le_iff_toNat_le.2 hle), hend⟩
    · exact hreadable

theorem updateSignalsState_eq (s : Pipe P H) (side : Side) (d : DataPipe P H) :
    ∃ closedByExcess, s.updateSignalsState side d =
      let (queue, d') := Core.DataPipe.updateSignalsState side.command closedByExcess
        (s.drained side) (s.channel side).queue d
      (s.setEndpoint side ((s.endpoint side).set d')).setChannel side
        { s.channel side with queue := queue } := by
  cases side with
  | producer => exact ⟨false, rfl⟩
  | consumer => exact ⟨true, rfl⟩

/-- Control messages keep the ends agreed. -/
theorem Inv.updateSignalsState (h : Inv o s) (hd : (s.endpoint side).dispatcher = some d) :
    Inv o (s.updateSignalsState side d) := by
  have hagrees := h.agrees side _ (Endpoint.view_mem_views hd)
  have hoptions : d.options = o := hagrees.options
  have hle : d.amount.toNat + totalBytes (s.channel side).messages ≤
    o.capacityNumBytes.toNat := h.amount_add_le hagrees
  rw [Channel.messages, totalBytes_append] at hle
  obtain ⟨closedByExcess, heq⟩ := updateSignalsState_eq s side d
  obtain ⟨queue, amount, peerClosed, hupdate, ⟨rfl, rfl⟩ | ⟨rfl, htransit, hamount⟩, -⟩ :=
    updateSignalsState_cases closedByExcess (s.drained side) d
      (fun m hm => h.commands side m (List.mem_append_left _ hm)) (by rw [hoptions]; omega)
  · rw [heq, hupdate]
    have hset : Inv o (s.setEndpoint side
      ((s.endpoint side).set { d with peerClosed := peerClosed })) := h.set hd rfl rfl rfl rfl
    refine hset.setChannel ?_
    rfl
  · have hlive := Endpoint.eq_live (h.frozen side) hd htransit
    rw [heq, hupdate]
    simp only [hlive, Endpoint.set]
    exact h.receive hlive hamount peerClosed

end Pipe

end MojoEdk.DataPipe
