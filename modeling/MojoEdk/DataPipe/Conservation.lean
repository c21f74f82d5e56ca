import MojoEdk.DataPipe.Agreement

/-!
# Conservation in data pipes

Whatever is done to a data pipe, its ends agree, also on their way to another process:
no byte is lost or counted twice, and the bytes come out in the order they went in
(`Pipe.conservation`).
-/

namespace MojoEdk.DataPipe

open MojoEdk.Core MojoEdk.Core.DataPipe

variable {P H : Type*}

namespace Pipe

variable {o : DataPipeOptions} {s s' : Pipe P H} {side : Side} {d d' : DataPipe P H}

/-! ## Transfers -/

/-- `BeginTransit` of an end that is in the middle of a call in two phases fails. -/
theorem dataPipe_beginTransit {side : Side}
    (h : dataPipe (side.dispatcher d).beginTransit.2 = some d') :
    d' = d ∨ d.inTransit = false ∧ d.inTwoPhase = false ∧ d' = { d with inTransit := true } := by
  cases side with
  | producer | consumer =>
    simp only [Side.dispatcher, Dispatcher.beginTransit] at h
    split_ifs at h with htransit
    · exact .inl (Option.some.inj h).symm
    · obtain rfl := Option.some.inj h
      cases hphase : d.inTwoPhase with
      | true =>
        left
        cases d
        simp_all
      | false => exact .inr ⟨Bool.eq_false_iff.2 htransit, rfl, rfl⟩

theorem Inv.beginTransit (h : Inv o s) (hd : (s.endpoint side).dispatcher = some d)
    (hd' : dataPipe (side.dispatcher d).beginTransit.2 = some d') :
    Inv o (s.setEndpoint side ((s.endpoint side).set d')) := by
  obtain rfl | ⟨htransit, hphase, rfl⟩ := dataPipe_beginTransit hd'
  · exact h.set hd rfl rfl rfl rfl
  have hlive := Endpoint.eq_live (h.frozen side) hd htransit
  simp only [hlive, Endpoint.set]
  cases side with
  | producer =>
    refine h.setProducer (views_live hlive rfl) (Endpoint.frozen_live _) fun w hw => ?_
    obtain ⟨d₀, hlive₀, hphase₀, -⟩ := h.exposed w hw
    obtain rfl := Endpoint.live.inj (hlive.symm.trans hlive₀)
    rw [hphase] at hphase₀
    cases hphase₀
  | consumer =>
    exact h.setConsumer (views_live hlive rfl) (Endpoint.frozen_live _)
      (readable_of_not_inTwoPhase hphase)

/-- Memory is exposed only by a dispatcher that is not in transit. -/
theorem Inv.window_eq_none (h : Inv o s)
    (hlive : ∀ d, s.endpoint .producer = .live d → d.inTransit = true) : s.window = none := by
  cases hw : s.window with
  | none => rfl
  | some w =>
    obtain ⟨d, hd, -, htransit, -⟩ := h.exposed w hw
    rw [hlive d hd] at htransit
    cases htransit

theorem Inv.window_of_inTransit (h : Inv o s)
    (hd : (s.endpoint .producer).dispatcher = some d) (htransit : d.inTransit = true) :
    s.window = none := by
  refine h.window_eq_none fun d' hd' => ?_
  rw [hd'] at hd
  rw [Option.some.inj hd]
  exact htransit

theorem Inv.window_of_sent (h : Inv o s) {state : List UInt8}
    (he : s.endpoint .producer = .sent state) : s.window = none := by
  refine h.window_eq_none fun d hd => ?_
  rw [he] at hd
  cases hd

/-- What `EndSerialize` stores is what the dispatcher knows. -/
theorem endSerialize_eq_some {side : Side} {dup : Option H} {destination : List UInt8}
    {w : Dispatcher.Serialized P H}
    (h : (side.dispatcher d).endSerialize dup destination = some w) :
    d.inTransit = true ∧ w.destination = Dispatcher.storeDataPipe d destination ∧
      dataPipe w.dispatcher = some { d with bufferHandleForTransit := dup } := by
  cases side with
  | producer | consumer =>
    simp only [Side.dispatcher, Dispatcher.endSerialize] at h
    split_ifs at h with htransit
    obtain rfl := Option.some.inj h
    exact ⟨(Bool.and_eq_true _ _ ▸ htransit).1, rfl, rfl⟩

theorem Inv.endSerialize (h : Inv o s) (hlive : s.endpoint side = .live d) {dup : Option H}
    {destination : List UInt8} (hlen : destination.length = sizeofDataPipe)
    {w : Dispatcher.Serialized P H}
    (hw : (side.dispatcher d).endSerialize dup destination = some w)
    (hd' : dataPipe w.dispatcher = some d') :
    Inv o (s.setEndpoint side (.serialized d' w.destination)) := by
  obtain ⟨htransit, hdestination, hdispatcher⟩ := endSerialize_eq_some hw
  obtain rfl := Option.some.inj (hdispatcher.symm.trans hd')
  have hviews : ∀ v ∈ (Endpoint.serialized (P := P) (H := H)
      { d with bufferHandleForTransit := dup } w.destination).views,
      v ∈ (s.endpoint side).views := by
    intro v hv
    rw [hdestination, Endpoint.views, viewState_storeDataPipe d hlen] at hv
    rw [hlive]
    rcases List.mem_cons.1 hv with rfl | hv
    · exact List.mem_singleton_self _
    · exact hv
  have hfrozen : (Endpoint.serialized { d with bufferHandleForTransit := dup }
      w.destination).Frozen := by
    rintro d₀ state ⟨rfl⟩
    exact htransit
  have hd : (s.endpoint side).dispatcher = some d := by rw [hlive]; rfl
  cases side with
  | producer =>
    refine h.setProducer hviews hfrozen fun w hw => ?_
    rw [h.window_of_inTransit hd htransit] at hw
    cases hw
  | consumer =>
    refine h.setConsumer hviews hfrozen ?_
    rintro d₀ ⟨rfl⟩ hphase
    exact h.readable d hd hphase

theorem cancelTransit_eq_some {side : Side}
    (h : (side.dispatcher d).cancelTransit.bind dataPipe = some d') :
    d.inTransit = true ∧
      d' = { d with inTransit := false, bufferHandleForTransit := none } := by
  cases side with
  | producer | consumer =>
    simp only [Side.dispatcher, Dispatcher.cancelTransit] at h
    split_ifs at h with htransit
    · exact ⟨htransit, (Option.some.inj h).symm⟩
    · cases h

theorem Inv.cancelTransit (h : Inv o s) (hd : (s.endpoint side).dispatcher = some d)
    (hs' : s.cancelTransit side d = some s') : Inv o s' := by
  obtain ⟨d', hd', rfl⟩ := Option.map_eq_some_iff.1 hs'
  obtain ⟨htransit, rfl⟩ := cancelTransit_eq_some hd'
  have hviews : ∀ v ∈ (Endpoint.live { d with
      inTransit := false, bufferHandleForTransit := none }).views,
      v ∈ (s.endpoint side).views := by
    intro v hv
    have hmem := Endpoint.view_mem_views hd
    rw [List.mem_singleton.1 hv]
    exact hmem
  cases side with
  | producer =>
    refine h.setProducer hviews (Endpoint.frozen_live _) fun w hw => ?_
    rw [h.window_of_inTransit hd htransit] at hw
    cases hw
  | consumer =>
    have hset : Inv o (s.setEndpoint .consumer (.live { d with
        inTransit := false, bufferHandleForTransit := none })) := by
      refine h.setConsumer hviews (Endpoint.frozen_live _) ?_
      rintro d₀ ⟨rfl⟩ hphase
      exact h.readable d hd hphase
    refine hset.updateSignalsState ?_
    rw [endpoint_setEndpoint, if_pos rfl]
    rfl

/-- An end leaves its dispatcher. -/
theorem Inv.leave (h : Inv o s) {e : Endpoint P H}
    (hviews : ∀ v ∈ e.views, v ∈ (s.endpoint side).views) (hfrozen : e.Frozen)
    (hdispatcher : e.dispatcher = none)
    (hwindow : side = .producer → s.window = none) : Inv o (s.setEndpoint side e) := by
  cases side with
  | producer =>
    refine h.setProducer hviews hfrozen fun w hw => ?_
    rw [hwindow rfl] at hw
    cases hw
  | consumer =>
    refine h.setConsumer hviews hfrozen fun d hd => ?_
    rw [hdispatcher] at hd
    cases hd

theorem Inv.completeTransitAndClose (h : Inv o s) {state : List UInt8}
    (he : s.endpoint side = .serialized d state) :
    Inv o ((s.setEndpoint side (.sent state)).setChannel side (s.channel side).withdraw) := by
  have hset : Inv o (s.setEndpoint side (.sent state)) := by
    refine h.leave ?_ (Endpoint.frozen_sent state) rfl ?_
    · intro v hv
      rw [he]
      exact List.mem_cons_of_mem _ hv
    · rintro rfl
      exact h.window_of_inTransit (by rw [he]; rfl) (h.frozen _ d state he)
  exact hset.setChannel (Channel.messages_withdraw _)

theorem Inv.deserialize (h : Inv o s) {state : List UInt8} (he : s.endpoint side = .sent state)
    {port : P} {handle : Option H}
    (hd : Dispatcher.deserializeDataPipe state [port] [handle] = some d) :
    Inv o (s.setEndpoint side (.live d)) := by
  simp only [Dispatcher.deserializeDataPipe] at hd
  split_ifs at hd
  obtain rfl := Option.some.inj hd
  have hviews : ∀ v ∈ (Endpoint.live (Dispatcher.readDataPipe state port handle)).views,
      v ∈ (s.endpoint side).views := by
    rw [he]
    exact fun v hv => hv
  cases side with
  | producer =>
    refine h.setProducer hviews (Endpoint.frozen_live _) fun w hw => ?_
    rw [h.window_of_sent he] at hw
    cases hw
  | consumer =>
    exact h.setConsumer hviews (Endpoint.frozen_live _) (readable_of_not_inTwoPhase rfl)

theorem Inv.close (h : Inv o s) (d : DataPipe P H) : Inv o (s.close side d) := by
  rw [Pipe.close.eq_def]
  split_ifs
  · cases side with
    | producer => exact h.setProducer nofun Endpoint.frozen_closed nofun
    | consumer => exact h.setConsumer nofun Endpoint.frozen_closed nofun
  · exact h

/-! ## Runs -/

/-- What holds of a data pipe is preserved. -/
theorem Inv.step (ho : 0 < o.capacityNumBytes.toNat) (hsum : s.NoOverflow) (h : Inv o s)
    {a : Action P H} (hs' : s.step a = some s') : Inv o s' := by
  cases moves_of_step hs' with
  | writeData hd => exact h.writeData ho hsum hd ..
  | beginWriteData hd => exact h.beginWriteData ho hd
  | store hw hi => exact h.store hw hi _
  | endWriteData hd => exact h.endWriteData ho hsum hd _
  | readData hd => exact h.readData ho hsum hd ..
  | beginReadData hd => exact h.beginReadData ho hd _
  | endReadData hd => exact h.endReadData ho hsum hd _
  | deliver hc => exact h.setChannel (Channel.messages_deliver hc)
  | updateSignalsState hd => exact h.updateSignalsState hd
  | beginTransit hd hd' => exact h.beginTransit hd hd'
  | endSerialize hlive hlen hw hd' => exact h.endSerialize hlive hlen hw hd'
  | cancelTransit hd hs' => exact h.cancelTransit hd hs'
  | completeTransitAndClose he => exact h.completeTransitAndClose he
  | deserialize he hd => exact h.deserialize he hd
  | close => exact h.close _
  | discard he =>
    refine h.leave nofun Endpoint.frozen_closed rfl ?_
    rintro rfl
    exact h.window_of_sent he

section Runs

variable {port₀ port₁ : P} {ring : PlatformSharedBuffer H} {pipeId : UInt64}

theorem inv_create (o : DataPipeOptions) : Inv o (create o port₀ port₁ ring pipeId) where
  agrees side v hv := by
    cases side with
    | producer =>
      rw [List.mem_singleton.1 hv]
      exact ⟨rfl, (Nat.zero_mod _).symm, (Nat.zero_add _).symm⟩
    | consumer =>
      rw [List.mem_singleton.1 hv]
      exact ⟨rfl, (Nat.zero_mod _).symm, rfl⟩
  commands _ _ hm := by cases hm
  frozen side := by cases side <;> exact Endpoint.frozen_live _
  exposed _ hw := by cases hw
  readable := readable_of_not_inTwoPhase rfl
  consumed := List.prefix_rfl
  room := Nat.zero_le _
  holds := Ring.Holds.nil _ _ _

theorem inv_of_reachable (ho : Sized o) {G : Pipe P H → Action P H → Prop}
    (hs : (machine o port₀ port₁ ring pipeId).Reachable G s) : Inv o s :=
  hs.invariant (inv_create o) fun h _ hstep => h.step ho.1 (h.noOverflow ho) hstep

/-- A byte that was produced and not consumed is at a place of the ring. -/
def Unconsumed (o : DataPipeOptions) (s : Pipe P H) (place : ℕ) : Prop :=
  ∃ k, s.consumed.length ≤ k ∧ k < s.produced.length ∧ k % o.capacityNumBytes.toNat = place

/-- No end is closed. -/
def Open (s : Pipe P H) : Prop := ∀ side, ∃ v, (s.endpoint side).knows = some v

theorem Open.setEndpoint (h : s.Open) {e : Endpoint P H} (he : ∃ v, e.knows = some v) :
    (s.setEndpoint side e).Open := by
  intro side'
  rw [endpoint_setEndpoint]
  split_ifs
  · exact he
  · exact h side'

theorem Open.set (h : s.Open) (d : DataPipe P H) :
    ∃ v, ((s.endpoint side).set d).knows = some v := by
  have := h side
  cases he : s.endpoint side with
  | live | serialized | sent => exact ⟨_, rfl⟩
  | closed =>
    rw [he] at this
    obtain ⟨_, hv⟩ := this
    cases hv

/-- An end is closed by its holder, or with the message that has it. -/
theorem Open.step (h : s.Open) {a : Action P H} (ha : s.Kept a) (hs' : s.step a = some s') :
    s'.Open := by
  cases moves_of_step hs' with
  | writeData | beginWriteData | endWriteData | readData | beginReadData | endReadData
  | updateSignalsState | beginTransit => exact h.setEndpoint (h.set _)
  | store | deliver => exact h
  | endSerialize | completeTransitAndClose | deserialize => exact h.setEndpoint ⟨_, rfl⟩
  | @cancelTransit side d _ hd hs' =>
    obtain ⟨d', hd', rfl⟩ := Option.map_eq_some_iff.1 hs'
    cases side with
    | producer => exact h.setEndpoint ⟨_, rfl⟩
    | consumer =>
      have hlive : (s.setEndpoint .consumer (.live d')).Open := h.setEndpoint ⟨_, rfl⟩
      exact hlive.setEndpoint (hlive.set _)
  | close | discard => cases ha

/-- Nothing is stored at the places of the bytes that are not consumed. -/
theorem Inv.buffer_step (ho : 0 < o.capacityNumBytes.toNat) (h : Inv o s) {a : Action P H}
    (hs' : s.step a = some s') {place : ℕ} (hplace : s.Unconsumed o place) :
    s'.buffer place = s.buffer place := by
  obtain ⟨k, hk, hlt, rfl⟩ := hplace
  cases moves_of_step hs' with
  | @writeData d elements numBytes allOrNone hd =>
    obtain ⟨-, hmemory, -⟩ | ⟨n, hn, -, -, -, hmemory, -⟩ :=
      writeData_cases d s.buffer elements numBytes allOrNone
    · exact congrFun hmemory _
    · exact (congrFun hmemory _).trans (h.copyToRing_mod ho hd hn elements hk hlt)
  | store hw hi => exact Function.update_of_ne (h.ne_of_exposed hw hi hk hlt) ..
  | @cancelTransit side d _ hd hs' =>
    obtain ⟨d', hd', rfl⟩ := Option.map_eq_some_iff.1 hs'
    cases side with
    | producer | consumer => rfl
  | close =>
    rw [Pipe.close.eq_def]
    split_ifs <;> rfl
  | beginWriteData | endWriteData | readData | beginReadData | endReadData | deliver
  | updateSignalsState | beginTransit | endSerialize | completeTransitAndClose | deserialize
  | discard => rfl

/-- What is known at the ends of a data pipe that are not closed, with what they are
    about to be told, is the capacity of the ring. The bytes that are consumed are the
    first of those produced, and the others are in the ring, in places that the producer
    neither stores to nor exposes. -/
theorem conservation (hcapacity : 1 ≤ o.capacityNumBytes.toNat)
    (hcapacity' : o.capacityNumBytes.toNat ≤ 2 ^ 31)
    (hs : (machine o port₀ port₁ ring pipeId).Reachable Kept s) :
    ∃ p c, (s.endpoint .producer).knows = some p ∧ (s.endpoint .consumer).knows = some c ∧
      p.amount.toNat + c.amount.toNat + totalBytes (s.channel .consumer).messages +
        totalBytes (s.channel .producer).messages = o.capacityNumBytes.toNat ∧
      p.offset.toNat ≡ c.offset.toNat + c.amount.toNat +
        totalBytes (s.channel .consumer).messages [MOD o.capacityNumBytes.toNat] ∧
      s.consumed <+: s.produced ∧
      Ring.Holds o.capacityNumBytes.toNat s.buffer s.produced s.consumed.length ∧
      (∀ w, s.window = some w → ∀ i < w.2, ¬s.Unconsumed o (w.1 + i)) ∧
      ∀ a s', s.step a = some s' → ∀ place, s.Unconsumed o place →
        s'.buffer place = s.buffer place := by
  have ho : Sized o := ⟨hcapacity, hcapacity'⟩
  have h := inv_of_reachable ho hs
  have hopen : s.Open :=
    hs.invariant (fun side => by cases side <;> exact ⟨_, rfl⟩) fun h ha hstep => h.step ha hstep
  obtain ⟨p, hp⟩ := hopen .producer
  obtain ⟨c, hc⟩ := hopen .consumer
  have hproducer := h.agrees .producer p (Endpoint.mem_views_of_knows hp)
  have hconsumer := h.agrees .consumer c (Endpoint.mem_views_of_knows hc)
  have hpamount : p.amount.toNat + totalBytes (s.channel .producer).messages +
    s.produced.length = s.consumed.length + o.capacityNumBytes.toNat := hproducer.amount
  have hcamount : c.amount.toNat + totalBytes (s.channel .consumer).messages +
    s.consumed.length = s.produced.length := hconsumer.amount
  refine ⟨p, c, hp, hc, ?_, ?_, h.consumed, h.holds, ?_, ?_⟩
  · omega
  · have hpoffset : p.offset.toNat = s.produced.length % o.capacityNumBytes.toNat :=
      hproducer.offset
    have hcoffset : c.offset.toNat = s.consumed.length % o.capacityNumBytes.toNat :=
      hconsumer.offset
    rw [Nat.ModEq, hpoffset, hcoffset, Nat.mod_mod, Nat.add_assoc, Nat.mod_add_mod, ← hcamount]
    congr 1
    omega
  · rintro w hw i hi ⟨k, hk, hlt, hplace⟩
    exact h.ne_of_exposed hw hi hk hlt hplace
  · exact fun a s' hs' place hplace => h.buffer_step ho.1 hs' hplace

/-- A run around a ring of four bytes, in which the consumer is sent. -/
theorem conservation_four : ∃ s : Pipe Unit Unit,
    (machine ⟨16, 0, 1, 4⟩ () () ⟨none, 4⟩ 0).Reachable Kept s ∧
      (s.produced = [1, 2, 3, 1, 2] ∧ s.consumed = [1, 2]) ∧
      ∃ p c, (s.endpoint .producer).knows = some p ∧ (s.endpoint .consumer).knows = some c ∧
        p.amount.toNat + c.amount.toNat + totalBytes (s.channel .consumer).messages +
          totalBytes (s.channel .producer).messages = 4 := by
  obtain ⟨s, hs, hbytes⟩ := Machine.exists_reachable
    (M := machine ⟨16, 0, 1, 4⟩ () () ⟨none, 4⟩ 0) (G := Kept)
    (P := fun s : Pipe Unit Unit => s.produced = [1, 2, 3, 1, 2] ∧ s.consumed = [1, 2])
    [.writeData (fun i => UInt8.ofNat (i + 1)) 3 false, .deliver .consumer,
      .beginTransit .consumer, .endSerialize .consumer none (List.replicate 40 0),
      .completeTransitAndClose .consumer, .deserialize .consumer () none, .deliver .consumer,
      .updateSignalsState .consumer, .readData (fun _ => 0) 2 {}, .deliver .producer,
      .updateSignalsState .producer, .writeData (fun i => UInt8.ofNat (i + 1)) 2 true]
    (by decide +kernel)
  obtain ⟨p, c, hp, hc, hamount, -⟩ := conservation (by decide) (by decide) hs
  exact ⟨s, hs, hbytes, p, c, hp, hc, hamount⟩

end Runs

end Pipe

end MojoEdk.DataPipe
