import MojoEdk.Core.MessagePipe
import MojoEdk.Core.Transit
import MojoEdk.Ports.Basic

/-!
# Writing a message with handles

`Core::WriteMessage` puts the handles in transit, lets the dispatcher of the pipe
write the message, and then removes the handles or makes them available again,
depending on what that returned (`core.cc`, `message_pipe_dispatcher.cc`).

If a dispatcher cannot be serialized then the message is not sent, but the dispatcher
of the pipe returns `MOJO_RESULT_OK` all the same. Shared buffers cannot be serialized
when their handle cannot be duplicated. That is the only way in which a call that
succeeds does not send the message, or a call that fails does not leave the handles as
they were (`successMeansSent_iff`), as long as the call returns. Whether it does depends on
the locks of the ports, which are left out here.
-/

namespace MojoEdk.Core

variable {P H : Type}

def kMaxHandlesPerMessage : ℕ := 1024 * 1024

/-! ## The calls -/

/-- `MessagePipeDispatcher::WriteMessage`, where `sendMessage` is what the node returns
    for a message: the result, whether the message was accepted, and the dispatchers. -/
def MessagePipe.writeMessage (d : MessagePipe P) (mem : Memory P) (body : List UInt8)
    (ds : List (Attached P H)) (sendMessage : PortsMessage P H → Ports.Result) :
    Option (MojoResult × Bool × List (Dispatcher P H)) :=
  if d.portClosed || d.inTransit then some (.invalidArgument, false, ds.map (·.1))
  else (serialize mem body ds).bind fun
    | (none, ds) => some (.ok, false, ds)
    | (some message, ds) =>
      match sendMessage message with
      | .ok => some (.ok, true, ds)
      | .errorPortUnknown | .errorPortStateUnexpected | .errorPortCannotSendPeer =>
        some (.invalidArgument, false, ds)
      | .errorPortPeerClosed => some (.failedPrecondition, false, ds)
      | .errorPortExists | .errorPortCannotSendSelf => none

/-- `WriteMessage` of a dispatcher, which is that of a message pipe or fails. -/
def Dispatcher.writeMessage (mem : Memory P) (body : List UInt8) (ds : List (Attached P H))
    (sendMessage : PortsMessage P H → Ports.Result) :
    Dispatcher P H → Option (MojoResult × Bool × List (Dispatcher P H))
  | .messagePipe d => d.writeMessage mem body ds sendMessage
  | _ => some (.invalidArgument, false, ds.map (·.1))

namespace HandleTable

/-- Dispatchers in transit after something was called on them. -/
def setDispatchers (t : HandleTable P H) (ds : List DispatcherInTransit)
    (xs : List (Dispatcher P H)) : HandleTable P H :=
  (ds.zip xs).foldl (fun t (d, x) =>
    { t with dispatchers := Function.update t.dispatchers d.dispatcher x }) t

/-- `Core::WriteMessage`, where `dup` is what `DuplicatePlatformHandle` returns for a
    dispatcher: the result, whether the message was accepted, and the table. -/
def writeMessage (t : HandleTable P H) (mem : Memory P) (messagePipeHandle : ℕ)
    (body : List UInt8) (handles : List ℕ) (dup : ℕ → Option H)
    (sendMessage : PortsMessage P H → Ports.Result) :
    Option (MojoResult × Bool × HandleTable P H) :=
  match t.handles messagePipeHandle with
  | none => some (.invalidArgument, false, t)
  | some e =>
    if handles.isEmpty then
      ((t.dispatchers e.dispatcher).writeMessage mem body [] sendMessage).map fun (rv, sent, _) =>
        (rv, sent, t)
    else if kMaxHandlesPerMessage < handles.length then some (.resourceExhausted, false, t)
    else if messagePipeHandle ∈ handles then some (.busy, false, t)
    else
      -- A failure leaves the handles seen so far in transit, which is canceled.
      match beginTransit handles t [] with
      | (.ok, ds, t) =>
        ((t.dispatchers e.dispatcher).writeMessage mem body
          (ds.map fun d => (t.dispatchers d.dispatcher, dup d.dispatcher)) sendMessage).bind
          fun (rv, sent, xs) =>
            let t := t.setDispatchers ds xs
            (if rv = .ok then t.completeTransitAndClose ds else t.cancelTransit ds).map fun t =>
              (rv, sent, t)
      | (rv, ds, t) => (t.cancelTransit ds).map fun t => (rv, false, t)

end HandleTable

/-! ## Success means sent -/

namespace Dispatcher

/-- Whether `EndSerialize` returns true. -/
def serializes (a : Attached P H) : Bool :=
  match a.1 with
  | .sharedBuffer _ => a.2.isSome
  | .platformHandle d => !d.isClosed
  | .messagePipe _ | .dataPipeProducer _ | .dataPipeConsumer _ | .waitSet _ => true

/-- A dispatcher but for the handle that is only there in transit. -/
def released : Dispatcher P H → Dispatcher P H
  | .dataPipeProducer d => .dataPipeProducer { d with bufferHandleForTransit := none }
  | .dataPipeConsumer d => .dataPipeConsumer { d with bufferHandleForTransit := none }
  | .sharedBuffer d => .sharedBuffer { d with handleForTransit := none }
  | .messagePipe d => .messagePipe d
  | .platformHandle d => .platformHandle d
  | .waitSet isClosed => .waitSet isClosed

end Dispatcher

/-- What a call of `Core::WriteMessage` should do: it succeeds if and only if the
    message was accepted. Then the handles are removed and their dispatchers closed.
    Otherwise the table and the dispatchers are as they were. -/
structure SuccessMeansSent (t : HandleTable P H) (handles : List ℕ) (rv : MojoResult)
    (sent : Bool) (t' : HandleTable P H) : Prop where
  ok_iff : rv = .ok ↔ sent = true
  transferred : sent = true → (∀ handle ∈ handles, t'.handles handle = none ∧
      ∀ e, t.handles handle = some e → (t'.dispatchers e.dispatcher).isClosed = true) ∧
    ∀ handle ∉ handles, t'.handles handle = t.handles handle
  kept : sent = false → t'.handles = t.handles ∧
    ∀ o, (t'.dispatchers o).released = (t.dispatchers o).released

/-- A call that fails before anything is serialized: the handle is not that of a message
    pipe that can be written to, or the handles cannot be put in transit. -/
def Rejected (t : HandleTable P H) (messagePipeHandle : ℕ) (handles : List ℕ) : Prop :=
  (∀ e d, t.handles messagePipeHandle = some e → t.dispatchers e.dispatcher = .messagePipe d →
    (d.portClosed || d.inTransit) = true) ∨
  handles ≠ [] ∧ (kMaxHandlesPerMessage < handles.length ∨ messagePipeHandle ∈ handles ∨
    (t.beginTransit handles []).1 ≠ .ok)

/-- The handles of the shared buffers that are attached can be duplicated. -/
def Duplicable (t : HandleTable P H) (handles : List ℕ) (dup : ℕ → Option H) : Prop :=
  ∀ handle ∈ handles, ∀ e d, t.handles handle = some e →
    t.dispatchers e.dispatcher = .sharedBuffer d → (dup e.dispatcher).isSome = true

/-! ## What serializing does to dispatchers -/

theorem endSerialize_dispatcher {d : Dispatcher P H} {dup : Option H} {destination : List UInt8}
    {r : Dispatcher.Serialized P H} (h : d.endSerialize dup destination = some r) :
    r.ok = Dispatcher.serializes (d, dup) ∧ r.dispatcher.inTransit = d.inTransit ∧
      (r.ok = true → r.dispatcher.released = d.released) := by
  cases d with
  | messagePipe d =>
    obtain rfl := Option.some.inj h
    exact ⟨rfl, rfl, fun _ => rfl⟩
  | dataPipeProducer d =>
    rw [Dispatcher.endSerialize] at h
    split_ifs at h
    obtain rfl := Option.some.inj h
    exact ⟨rfl, rfl, fun _ => rfl⟩
  | dataPipeConsumer d =>
    rw [Dispatcher.endSerialize] at h
    split_ifs at h
    obtain rfl := Option.some.inj h
    exact ⟨rfl, rfl, fun _ => rfl⟩
  | sharedBuffer d =>
    rw [Dispatcher.endSerialize] at h
    obtain ⟨buffer, -, rfl⟩ := Option.map_eq_some_iff.1 h
    cases dup with
    | none => exact ⟨rfl, rfl, fun hok => by cases hok⟩
    | some dup => exact ⟨rfl, rfl, fun _ => rfl⟩
  | platformHandle d =>
    obtain rfl := Option.some.inj h
    exact ⟨rfl, rfl, fun _ => rfl⟩
  | waitSet isClosed =>
    obtain rfl := Option.some.inj h
    exact ⟨rfl, rfl, fun _ => rfl⟩

/-- A dispatcher after it was serialized, or not if another one could not be. -/
structure Handled (ok : Bool) (d x : Dispatcher P H) : Prop where
  inTransit : x.inTransit = d.inTransit
  released : ok = true → x.released = d.released

theorem handled_refl (ok : Bool) (ds : List (Dispatcher P H)) : List.Forall₂ (Handled ok) ds ds := by
  induction ds with
  | nil => exact .nil
  | cons d ds ih => exact .cons ⟨rfl, fun _ => rfl⟩ ih

theorem serializeLoop_dispatchers {l : List (Attached P H × Dispatcher.Info)} {i off pi hi : ℕ}
    {b b' : Buffers P H} {ok : Bool} {xs : List (Dispatcher P H)}
    (h : serializeLoop l i off pi hi b = some (ok, b', xs)) :
    List.Forall₂ (Handled ok) (l.map (·.1.1)) xs ∧
      (ok = true ↔ ∀ a ∈ l, Dispatcher.serializes a.1 = true) := by
  induction l generalizing i off pi hi b xs with
  | nil =>
    obtain ⟨rfl, -, rfl⟩ : true = ok ∧ b = b' ∧ [] = xs := by simpa [serializeLoop] using h
    exact ⟨.nil, by simp⟩
  | cons a l ih =>
    obtain ⟨⟨d, dup⟩, info⟩ := a
    rw [serializeLoop] at h
    obtain ⟨r, hr, h⟩ := Option.bind_eq_some_iff.1 h
    obtain ⟨hok, hin, hreleased⟩ := endSerialize_dispatcher hr
    simp only at h
    split_ifs at h with hr'
    · obtain ⟨⟨ok', b₁, ys⟩, hloop, hys⟩ := Option.map_eq_some_iff.1 h
      obtain ⟨rfl, rfl, rfl⟩ : ok' = ok ∧ b₁ = b' ∧ r.dispatcher :: ys = xs := by simpa using hys
      obtain ⟨hforall, hall⟩ := ih hloop
      refine ⟨.cons ⟨hin, fun _ => hreleased hr'⟩ hforall, ?_⟩
      rw [hall, List.forall_mem_cons, ← hok, hr', eq_self_iff_true, true_and]
    · obtain ⟨rfl, -, rfl⟩ := by simpa using h
      refine ⟨.cons ⟨hin, fun hfalse => by cases hfalse⟩ (handled_refl false _), ?_⟩
      rw [List.forall_mem_cons, ← hok]
      constructor
      · intro hfalse
        cases hfalse
      · exact fun hall => absurd hall.1 hr'

theorem length_mapM_startSerialize {ds : List (Attached P H)} {infos : List Dispatcher.Info}
    (h : ds.mapM (·.1.startSerialize) = some infos) : infos.length = ds.length := by
  induction ds generalizing infos with
  | nil =>
    obtain rfl : [] = infos := Option.some.inj h
    rfl
  | cons a ds ih =>
    rw [List.mapM_cons] at h
    obtain ⟨info, -, h⟩ := Option.bind_eq_some_iff.1 h
    obtain ⟨infos', hinfos, h⟩ := Option.bind_eq_some_iff.1 h
    obtain rfl : info :: infos' = infos := Option.some.inj h
    rw [List.length_cons, List.length_cons, ih hinfos]

/-- There is a message if and only if all dispatchers could be serialized. -/
theorem serialize_dispatchers {mem : Memory P} {body : List UInt8} {ds : List (Attached P H)}
    {message : Option (PortsMessage P H)} {xs : List (Dispatcher P H)}
    (h : serialize mem body ds = some (message, xs)) :
    List.Forall₂ (Handled message.isSome) (ds.map (·.1)) xs ∧
      (message.isSome = true ↔ ∀ a ∈ ds, Dispatcher.serializes a = true) := by
  rw [serialize] at h
  obtain ⟨infos, hinfos, h⟩ := Option.bind_eq_some_iff.1 h
  obtain ⟨m, -, h⟩ := Option.bind_eq_some_iff.1 h
  obtain ⟨⟨ok, b, ys⟩, hloop, h⟩ := Option.bind_eq_some_iff.1 h
  have hzip : (ds.zip infos).map (·.1) = ds :=
    List.map_fst_zip (length_mapM_startSerialize hinfos).ge
  obtain ⟨hforall, hall⟩ := serializeLoop_dispatchers hloop
  have hmap : (ds.zip infos).map (·.1.1) = ds.map (·.1) := by
    conv_rhs => rw [← hzip, List.map_map]
    rfl
  have hmem : (∀ a ∈ ds.zip infos, Dispatcher.serializes a.1 = true) ↔
      ∀ a ∈ ds, Dispatcher.serializes a = true := by
    conv_rhs => rw [← hzip]
    rw [List.forall_mem_map]
  rw [hmap] at hforall
  rw [hmem] at hall
  simp only at h
  split_ifs at h with hok
  · obtain ⟨m', -, h⟩ := Option.bind_eq_some_iff.1 h
    obtain ⟨rfl, rfl⟩ := Prod.mk.inj (Option.some.inj h)
    rw [hok] at hforall hall
    exact ⟨hforall, hall⟩
  · obtain ⟨rfl, rfl⟩ := Prod.mk.inj (Option.some.inj h)
    rw [Bool.eq_false_iff.2 hok] at hforall hall
    exact ⟨hforall, hall⟩

theorem setDispatchers_eq {R : DispatcherInTransit → Dispatcher P H → Prop}
    {t : HandleTable P H} {ds : List DispatcherInTransit} {xs : List (Dispatcher P H)}
    (hR : List.Forall₂ R ds xs) (hnodup : (ds.map (·.dispatcher)).Nodup) :
    (t.setDispatchers ds xs).handles = t.handles ∧
    (∀ d ∈ ds, R d ((t.setDispatchers ds xs).dispatchers d.dispatcher)) ∧
    ∀ o ∉ ds.map (·.dispatcher), (t.setDispatchers ds xs).dispatchers o = t.dispatchers o := by
  induction hR generalizing t with
  | nil => exact ⟨rfl, by simp, fun _ _ => rfl⟩
  | @cons d x ds xs hd hR ih =>
    obtain ⟨hnot, hnodup⟩ := List.nodup_cons.1 hnodup
    obtain ⟨hhandles, hin, hout⟩ := ih (t := { t with
      dispatchers := Function.update t.dispatchers d.dispatcher x }) hnodup
    refine ⟨hhandles, fun c hc => ?_, fun o ho => ?_⟩
    · rcases List.mem_cons.1 hc with rfl | hc
      · have heq : (t.setDispatchers (c :: ds) (x :: xs)).dispatchers c.dispatcher = x :=
          (hout _ hnot).trans (Function.update_self _ _ _)
        rw [heq]
        exact hd
      · exact hin c hc
    · rw [List.map_cons, List.mem_cons, not_or] at ho
      exact (hout o ho.2).trans (Function.update_of_ne ho.1 _ _)

/-! ## The calls, case by case -/

/-- What `WriteMessage` of a message pipe returns: it is closed or in transit; or a
    dispatcher could not be serialized, and it succeeds; or the message was passed to
    the node, and it succeeds if that accepted it. -/
theorem writeMessage_cases {d : MessagePipe P} {mem : Memory P} {body : List UInt8}
    {ds : List (Attached P H)} {sendMessage : PortsMessage P H → Ports.Result} {rv : MojoResult}
    {sent : Bool} {xs : List (Dispatcher P H)}
    (h : d.writeMessage mem body ds sendMessage = some (rv, sent, xs)) :
    ((d.portClosed || d.inTransit) = true ∧ rv ≠ .ok ∧ sent = false ∧ xs = ds.map (·.1)) ∨
    ((d.portClosed || d.inTransit) = false ∧
      ((rv = .ok ∧ sent = false ∧ ¬ ∀ a ∈ ds, Dispatcher.serializes a = true) ∨
      ((rv = .ok ↔ sent = true) ∧ (∀ a ∈ ds, Dispatcher.serializes a = true) ∧
        List.Forall₂ (Handled true) (ds.map (·.1)) xs))) := by
  rw [MessagePipe.writeMessage] at h
  split_ifs at h with hclosed
  · obtain ⟨rfl, rfl, rfl⟩ : .invalidArgument = rv ∧ false = sent ∧ ds.map (·.1) = xs := by
      simpa using h
    exact .inl ⟨hclosed, by decide, rfl, rfl⟩
  · refine .inr ⟨Bool.eq_false_iff.2 hclosed, ?_⟩
    obtain ⟨⟨message, ys⟩, hserialize, h⟩ := Option.bind_eq_some_iff.1 h
    obtain ⟨hforall, hall⟩ := serialize_dispatchers hserialize
    cases message with
    | none =>
      obtain ⟨rfl, rfl, rfl⟩ : .ok = rv ∧ false = sent ∧ ys = xs := by simpa using h
      refine .inl ⟨rfl, rfl, fun hserializes => ?_⟩
      cases hall.2 hserializes
    | some m =>
      have hrv : (rv = .ok ↔ sent = true) ∧ ys = xs := by
        simp only at h
        split at h
        · obtain ⟨rfl, rfl, rfl⟩ : .ok = rv ∧ true = sent ∧ ys = xs := by simpa using h
          exact ⟨by decide, rfl⟩
        · obtain ⟨rfl, rfl, rfl⟩ : .invalidArgument = rv ∧ false = sent ∧ ys = xs := by
            simpa using h
          exact ⟨by decide, rfl⟩
        · obtain ⟨rfl, rfl, rfl⟩ : .invalidArgument = rv ∧ false = sent ∧ ys = xs := by
            simpa using h
          exact ⟨by decide, rfl⟩
        · obtain ⟨rfl, rfl, rfl⟩ : .invalidArgument = rv ∧ false = sent ∧ ys = xs := by
            simpa using h
          exact ⟨by decide, rfl⟩
        · obtain ⟨rfl, rfl, rfl⟩ : .failedPrecondition = rv ∧ false = sent ∧ ys = xs := by
            simpa using h
          exact ⟨by decide, rfl⟩
        · cases h
        · cases h
      exact .inr ⟨hrv.1, hall.1 rfl, hrv.2 ▸ hforall⟩

namespace Dispatcher

variable {d x y : Dispatcher P H}

/-- A dispatcher that was put in transit and serialized, and then was not sent. -/
theorem released_cancelTransit (hd : d.inTransit = false)
    (hx : x.released = (d.setInTransit true).released) (h : x.cancelTransit = some y) :
    y.released = d.released := by
  have hy : y.released = x.released.setInTransit false := by
    cases x with
    | messagePipe | sharedBuffer | platformHandle | waitSet =>
      obtain rfl := Option.some.inj h
      rfl
    | dataPipeProducer | dataPipeConsumer =>
      rw [cancelTransit] at h
      split_ifs at h
      obtain rfl := Option.some.inj h
      rfl
  have hd' : (d.setInTransit true).released.setInTransit false =
      (d.setInTransit d.inTransit).released := by
    rw [hd]
    cases d <;> rfl
  rw [hy, hx, hd', setInTransit_self]

theorem isClosed_close (h : d.inTransit = false) : d.close.2.isClosed = true := by
  cases d with
  | messagePipe d =>
    rw [close, show d.inTransit = false from h, Bool.or_false]
    split_ifs with hclosed
    · exact hclosed
    · rfl
  | dataPipeProducer d | dataPipeConsumer d =>
    rw [close, show d.inTransit = false from h, Bool.or_false]
    split_ifs with hclosed
    · exact hclosed
    · rfl
  | sharedBuffer d =>
    rw [close, show d.inTransit = false from h, Bool.or_false]
    split_ifs with hclosed
    · exact hclosed
    · rfl
  | platformHandle d =>
    rw [close, show d.inTransit = false from h, Bool.or_false]
    split_ifs with hclosed
    · exact hclosed
    · rfl
  | waitSet isClosed =>
    rw [close]
    split_ifs with hclosed
    · exact hclosed
    · rfl

theorem isClosed_completeTransitAndClose (hx : x.inTransit = true)
    (h : x.completeTransitAndClose = some y) : y.isClosed = true := by
  cases x with
  | messagePipe x =>
    obtain rfl := Option.some.inj h
    exact isClosed_close rfl
  | dataPipeProducer x =>
    rw [completeTransitAndClose, if_pos (by exact hx)] at h
    obtain rfl := Option.some.inj h
    exact isClosed_close rfl
  | dataPipeConsumer x =>
    rw [completeTransitAndClose, if_pos (by exact hx)] at h
    obtain rfl := Option.some.inj h
    exact isClosed_close rfl
  | sharedBuffer | platformHandle =>
    obtain rfl := Option.some.inj h
    rfl
  | waitSet => cases hx

/-- All that is in transit can be serialized, but for shared buffers. -/
theorem serializes_setInTransit (h : d.beginTransit.1 = true) (dup : Option H) :
    serializes (d.setInTransit true, dup) = true ↔ ∀ b, d = .sharedBuffer b → dup.isSome = true := by
  cases d with
  | sharedBuffer b => exact ⟨fun hdup _ _ => hdup, fun hdup => hdup b rfl⟩
  | platformHandle w =>
    rw [beginTransit_eq] at h
    split_ifs at h
    exact ⟨fun _ _ hb => (by cases hb), fun _ => h⟩
  | messagePipe | dataPipeProducer | dataPipeConsumer | waitSet =>
    exact ⟨fun _ _ hb => (by cases hb), fun _ => rfl⟩

end Dispatcher

namespace HandleTable

variable {t t₁ t₂ t' : HandleTable P H} {ds : List DispatcherInTransit}

/-- Dispatchers in transit after they were serialized. -/
theorem held_setDispatchers (hbegan : Began ds t t₁) {ok : Bool} {xs : List (Dispatcher P H)}
    (hxs : List.Forall₂ (Handled ok) (ds.map fun d => t₁.dispatchers d.dispatcher) xs) :
    Held ds (t₁.setDispatchers ds xs) ∧ (t₁.setDispatchers ds xs).handles = t₁.handles ∧
    (∀ d ∈ ds, Handled ok (t₁.dispatchers d.dispatcher)
      ((t₁.setDispatchers ds xs).dispatchers d.dispatcher)) ∧
    ∀ o ∉ ds.map (·.dispatcher), (t₁.setDispatchers ds xs).dispatchers o = t₁.dispatchers o := by
  obtain ⟨hhandles, hin, hout⟩ := setDispatchers_eq (t := t₁)
    (List.forall₂_map_left_iff.1 hxs) hbegan.nodup_dispatchers
  refine ⟨⟨hbegan.nodup_handles, hbegan.nodup_dispatchers, fun d hd => ?_, fun d hd => ?_⟩,
    hhandles, hin, hout⟩
  · rw [hhandles]
    exact hbegan.held.entry d hd
  · rw [(hin d hd).inTransit]
    exact hbegan.held.inTransit d hd

/-- What was put in transit, and serialized, and then was not sent, is as it was. -/
theorem kept_of_cancelTransit (hbegan : Began ds t t₁) (hheld : Held ds t₂)
    (hhandles : t₂.handles = t₁.handles)
    (hin : ∀ d ∈ ds, Handled true (t₁.dispatchers d.dispatcher) (t₂.dispatchers d.dispatcher))
    (hout : ∀ o ∉ ds.map (·.dispatcher), t₂.dispatchers o = t₁.dispatchers o)
    (h : cancelTransit ds t₂ = some t') :
    t'.handles = t.handles ∧ ∀ o, (t'.dispatchers o).released = (t.dispatchers o).released := by
  obtain ⟨t'', ht'', hended⟩ := cancelTransit_eq hheld
  obtain rfl := Option.some.inj (ht''.symm.trans h)
  constructor
  · funext handle
    by_cases hmem : handle ∈ ds.map (·.localHandle)
    · obtain ⟨d, hd, rfl⟩ := List.mem_map.1 hmem
      rw [hended.entry d hd, hbegan.entry d hd]
    · rw [hended.handles handle hmem, hhandles, hbegan.handles, if_neg hmem]
  · intro o
    by_cases hmem : o ∈ ds.map (·.dispatcher)
    · obtain ⟨d, hd, rfl⟩ := List.mem_map.1 hmem
      have hx := (hin d hd).released rfl
      rw [hbegan.dispatchers, if_pos hmem] at hx
      exact Dispatcher.released_cancelTransit
        (Dispatcher.beginTransit_of_true (hbegan.can d hd)).1 hx (hended.called d hd)
    · rw [hended.dispatchers o hmem, hout o hmem, hbegan.dispatchers, if_neg hmem]

/-- What was put in transit and sent is gone. -/
theorem transferred_of_completeTransitAndClose (hbegan : Began ds t t₁) (hheld : Held ds t₂)
    (hhandles : t₂.handles = t₁.handles) (h : completeTransitAndClose ds t₂ = some t') :
    (∀ handle ∈ ds.map (·.localHandle), t'.handles handle = none ∧
      ∀ e, t.handles handle = some e → (t'.dispatchers e.dispatcher).isClosed = true) ∧
    ∀ handle ∉ ds.map (·.localHandle), t'.handles handle = t.handles handle := by
  obtain ⟨t'', ht'', hended⟩ := completeTransitAndClose_eq hheld
  obtain rfl := Option.some.inj (ht''.symm.trans h)
  refine ⟨fun handle hmem => ?_, fun handle hmem => ?_⟩
  · obtain ⟨d, hd, rfl⟩ := List.mem_map.1 hmem
    refine ⟨hended.entry d hd, fun e he => ?_⟩
    rw [hbegan.entry d hd] at he
    obtain rfl := Option.some.inj he
    exact Dispatcher.isClosed_completeTransitAndClose (hheld.inTransit d hd) (hended.called d hd)
  · rw [hended.handles handle hmem, hhandles, hbegan.handles, if_neg hmem]

end HandleTable

section Spec

variable {t t' : HandleTable P H} {mem : Memory P} {pipe : ℕ} {body : List UInt8}
  {handles : List ℕ} {dup : ℕ → Option H} {sendMessage : PortsMessage P H → Ports.Result}
  {rv : MojoResult} {sent : Bool}

/-- What a call does, depending on whether it is rejected, and on whether the handles of
    shared buffers can be duplicated. -/
def Outcome (t : HandleTable P H) (pipe : ℕ) (handles : List ℕ) (dup : ℕ → Option H)
    (rv : MojoResult) (sent : Bool) (t' : HandleTable P H) : Prop :=
  (Rejected t pipe handles ∧ SuccessMeansSent t handles rv sent t') ∨
  (¬ Rejected t pipe handles ∧ ¬ Duplicable t handles dup ∧ rv = .ok ∧ sent = false) ∨
  (Duplicable t handles dup ∧ SuccessMeansSent t handles rv sent t')

theorem successMeansSent_of_kept (hrv : rv ≠ .ok)
    (hkept : t'.handles = t.handles ∧
      ∀ o, (t'.dispatchers o).released = (t.dispatchers o).released) :
    SuccessMeansSent t handles rv false t' where
  ok_iff := ⟨fun hok => absurd hok hrv, fun h => by cases h⟩
  transferred := fun h => by cases h
  kept := fun _ => hkept

/-- A dispatcher that is not a message pipe, or one that is closed or in transit. -/
theorem writeMessage_of_rejected {d : Dispatcher P H} {ds : List (Attached P H)}
    {xs : List (Dispatcher P H)}
    (hd : ∀ m, d = .messagePipe m → (m.portClosed || m.inTransit) = true)
    (h : d.writeMessage mem body ds sendMessage = some (rv, sent, xs)) :
    rv ≠ .ok ∧ sent = false ∧ xs = ds.map (·.1) := by
  cases d with
  | messagePipe m =>
    rcases writeMessage_cases h with ⟨-, hrest⟩ | ⟨hopen, -⟩
    · exact hrest
    · rw [hd m rfl] at hopen
      cases hopen
  | dataPipeProducer | dataPipeConsumer | sharedBuffer | platformHandle | waitSet =>
    obtain ⟨rfl, rfl, rfl⟩ : .invalidArgument = rv ∧ false = sent ∧ ds.map (·.1) = xs := by
      simpa [Dispatcher.writeMessage] using h
    exact ⟨by decide, rfl, rfl⟩

/-- The dispatcher of the pipe is not put in transit with the handles attached. -/
theorem pipe_of_began (ht : CoreState.TableInv t) {e : Entry} (he : t.handles pipe = some e)
    (hpipe : pipe ∉ handles) {ds : List DispatcherInTransit} {t₁ : HandleTable P H}
    (hbegan : HandleTable.Began ds t t₁) (hds : ds.map (·.localHandle) = handles) :
    t₁.dispatchers e.dispatcher = t.dispatchers e.dispatcher := by
  rw [hbegan.dispatchers, if_neg]
  intro hmem
  obtain ⟨d, hd, heq⟩ := List.mem_map.1 hmem
  have := ht.injective (hbegan.entry d hd) he heq
  exact hpipe (hds ▸ this ▸ List.mem_map.2 ⟨d, hd, rfl⟩)

/-- What is in transit can be serialized if the handles of shared buffers can be duplicated. -/
theorem serializes_iff_duplicable (dup : ℕ → Option H) {ds : List DispatcherInTransit}
    {t₁ : HandleTable P H} (hbegan : HandleTable.Began ds t t₁) (hds : ds.map (·.localHandle) = handles) :
    (∀ a ∈ ds.map fun d => (t₁.dispatchers d.dispatcher, dup d.dispatcher),
      Dispatcher.serializes a = true) ↔ Duplicable t handles dup := by
  rw [List.forall_mem_map]
  have hone (d : DispatcherInTransit) (hd : d ∈ ds) : Dispatcher.serializes
      (t₁.dispatchers d.dispatcher, dup d.dispatcher) = true ↔
      ∀ b, t.dispatchers d.dispatcher = .sharedBuffer b → (dup d.dispatcher).isSome = true := by
    rw [hbegan.dispatchers, if_pos (List.mem_map.2 ⟨d, hd, rfl⟩)]
    exact Dispatcher.serializes_setInTransit (hbegan.can d hd) _
  constructor
  · intro h handle hmem e' b he' hb
    rw [← hds] at hmem
    obtain ⟨d, hd, rfl⟩ := List.mem_map.1 hmem
    rw [hbegan.entry d hd] at he'
    obtain rfl := Option.some.inj he'
    exact (hone d hd).1 (h d hd) b hb
  · intro h d hd
    refine (hone d hd).2 fun b hb => ?_
    exact h d.localHandle (hds ▸ List.mem_map.2 ⟨d, hd, rfl⟩) _ b (hbegan.entry d hd) hb

/-- A call whose handles were put in transit. -/
theorem outcome_of_began (ht : CoreState.TableInv t) {e : Entry} (he : t.handles pipe = some e)
    (hmax : ¬ kMaxHandlesPerMessage < handles.length)
    (hpipe : pipe ∉ handles) {ds : List DispatcherInTransit} {t₁ : HandleTable P H}
    (hbegan : HandleTable.Began ds t t₁) (hds : ds.map (·.localHandle) = handles)
    (hok : (t.beginTransit handles []).1 = .ok) {xs : List (Dispatcher P H)}
    (hwrite : (t₁.dispatchers e.dispatcher).writeMessage mem body
      (ds.map fun d => (t₁.dispatchers d.dispatcher, dup d.dispatcher)) sendMessage =
        some (rv, sent, xs))
    (hend : (if rv = .ok then (t₁.setDispatchers ds xs).completeTransitAndClose ds
      else (t₁.setDispatchers ds xs).cancelTransit ds) = some t') :
    Outcome t pipe handles dup rv sent t' := by
  rw [pipe_of_began ht he hpipe hbegan hds] at hwrite
  have hserializes := serializes_iff_duplicable dup hbegan hds
  have hrest : handles ≠ [] ∧ (kMaxHandlesPerMessage < handles.length ∨ pipe ∈ handles ∨
      (t.beginTransit handles []).1 ≠ .ok) → False := by
    rintro ⟨-, h | h | h⟩
    · exact hmax h
    · exact hpipe h
    · exact h hok
  have hattached : (ds.map fun d => (t₁.dispatchers d.dispatcher, dup d.dispatcher)).map (·.1) =
      ds.map fun d => t₁.dispatchers d.dispatcher := List.map_map
  by_cases hrejected : ∀ m, t.dispatchers e.dispatcher = .messagePipe m →
      (m.portClosed || m.inTransit) = true
  · obtain ⟨hrv, rfl, rfl⟩ := writeMessage_of_rejected hrejected hwrite
    obtain ⟨hheld, hhandles, hin, hout⟩ := HandleTable.held_setDispatchers hbegan
      (handled_refl true (ds.map fun d => t₁.dispatchers d.dispatcher))
    rw [if_neg hrv, hattached] at hend
    refine .inl ⟨.inl fun e' m he' hm => ?_, successMeansSent_of_kept hrv
      (HandleTable.kept_of_cancelTransit hbegan hheld hhandles hin hout hend)⟩
    rw [he] at he'
    exact hrejected m (Option.some.inj he' ▸ hm)
  · obtain ⟨m, hm⟩ := not_forall.1 hrejected
    obtain ⟨hm, hopen⟩ := Classical.not_imp.1 hm
    rw [hm] at hwrite
    have hnot : ¬ Rejected t pipe handles := by
      rintro (h | h)
      · exact hopen (h e m he hm)
      · exact hrest h
    rcases writeMessage_cases hwrite with
      ⟨hclosed, -⟩ | ⟨-, ⟨hrv, hsent, hnone⟩ | ⟨hrv, hall, hforall⟩⟩
    · exact absurd hclosed hopen
    · exact .inr (.inl ⟨hnot, fun h => hnone (hserializes.2 h), hrv, hsent⟩)
    · obtain ⟨hheld, hhandles, hin, hout⟩ :=
        HandleTable.held_setDispatchers hbegan (hattached ▸ hforall)
      refine .inr (.inr ⟨hserializes.1 hall, hrv, fun hsent => ?_, fun hsent => ?_⟩)
      · rw [if_pos (hrv.2 hsent)] at hend
        rw [← hds]
        exact HandleTable.transferred_of_completeTransitAndClose hbegan hheld hhandles hend
      · have hrv' : rv ≠ .ok := fun hok => by rw [hrv.1 hok] at hsent; cases hsent
        rw [if_neg hrv'] at hend
        exact HandleTable.kept_of_cancelTransit hbegan hheld hhandles hin hout hend

theorem outcome_of_writeMessage (ht : CoreState.TableInv t)
    (h : t.writeMessage mem pipe body handles dup sendMessage = some (rv, sent, t')) :
    Outcome t pipe handles dup rv sent t' := by
  rw [HandleTable.writeMessage] at h
  cases he : t.handles pipe with
  | none =>
    obtain ⟨rfl, rfl, rfl⟩ : .invalidArgument = rv ∧ false = sent ∧ t = t' := by
      simpa [he] using h
    refine .inl ⟨.inl fun e _ he' => ?_, successMeansSent_of_kept (by decide) ⟨rfl, fun _ => rfl⟩⟩
    rw [he] at he'
    cases he'
  | some e =>
    simp only [he] at h
    split_ifs at h with hempty hmax hpipe
    · -- Nothing is attached.
      obtain rfl := List.isEmpty_iff.1 hempty
      obtain ⟨⟨rv', sent', xs⟩, hwrite, hr⟩ := Option.map_eq_some_iff.1 h
      obtain ⟨rfl, rfl, rfl⟩ : rv' = rv ∧ sent' = sent ∧ t = t' := by simpa using hr
      by_cases hrejected : ∀ m, t.dispatchers e.dispatcher = .messagePipe m →
          (m.portClosed || m.inTransit) = true
      · obtain ⟨hrv, rfl, -⟩ := writeMessage_of_rejected hrejected hwrite
        refine .inl ⟨.inl fun e' m he' hm => ?_,
          successMeansSent_of_kept hrv ⟨rfl, fun _ => rfl⟩⟩
        rw [he] at he'
        exact hrejected m (Option.some.inj he' ▸ hm)
      · obtain ⟨m, hm⟩ := not_forall.1 hrejected
        obtain ⟨hm, hopen⟩ := Classical.not_imp.1 hm
        rw [hm] at hwrite
        rcases writeMessage_cases hwrite with
          ⟨hclosed, -⟩ | ⟨-, ⟨-, -, hnone⟩ | ⟨hrv, -, -⟩⟩
        · exact absurd hclosed hopen
        · exact absurd (List.forall_mem_nil _) hnone
        · exact .inr (.inr ⟨fun _ hmem => (by cases hmem), hrv,
            fun _ => ⟨fun _ hmem => (by cases hmem), fun _ _ => rfl⟩,
            fun _ => ⟨rfl, fun _ => rfl⟩⟩)
    · obtain ⟨rfl, rfl, rfl⟩ : .resourceExhausted = rv ∧ false = sent ∧ t = t' := by
        simpa using h
      exact .inl ⟨.inr ⟨fun hnil => hempty (List.isEmpty_iff.2 hnil), .inl hmax⟩,
        successMeansSent_of_kept (by decide) ⟨rfl, fun _ => rfl⟩⟩
    · obtain ⟨rfl, rfl, rfl⟩ : .busy = rv ∧ false = sent ∧ t = t' := by simpa using h
      exact .inl ⟨.inr ⟨fun hnil => hempty (List.isEmpty_iff.2 hnil), .inr (.inl hpipe)⟩,
        successMeansSent_of_kept (by decide) ⟨rfl, fun _ => rfl⟩⟩
    · have hne : handles ≠ [] := fun hnil => hempty (List.isEmpty_iff.2 hnil)
      obtain ⟨ds, t₁, hbegan, hresult, hall⟩ := HandleTable.beginTransit_spec handles t []
      rw [List.nil_append] at hresult
      rw [← Prod.mk.eta (p := HandleTable.beginTransit handles t []), hresult] at h
      cases hrv : (HandleTable.beginTransit handles t []).1 with
      | ok =>
        simp only [hrv] at h
        obtain ⟨⟨rv', sent', xs⟩, hwrite, h⟩ := Option.bind_eq_some_iff.1 h
        obtain ⟨t₂, hend, hr⟩ := Option.map_eq_some_iff.1 h
        obtain ⟨rfl, rfl, rfl⟩ : rv' = rv ∧ sent' = sent ∧ t₂ = t' := by simpa using hr
        exact outcome_of_began ht he hmax hpipe hbegan (hall hrv) hrv hwrite hend
      | _ =>
        simp only [hrv] at h
        obtain ⟨t₂, hcancel, hr⟩ := Option.map_eq_some_iff.1 h
        obtain ⟨rfl, rfl, rfl⟩ := by simpa using hr
        refine .inl ⟨.inr ⟨hne, .inr (.inr (by rw [hrv]; decide))⟩,
          successMeansSent_of_kept (by decide) ?_⟩
        exact HandleTable.kept_of_cancelTransit hbegan hbegan.held rfl
          (fun _ _ => ⟨rfl, fun _ => rfl⟩) (fun _ _ => rfl) hcancel

/-- In every state that is reached, a call of `Core::WriteMessage` that returns succeeds
    if and only if the message was accepted, and keeps the handles otherwise, exactly
    if it is rejected before anything is serialized, or the handles of the shared
    buffers that are attached can be duplicated. -/
theorem successMeansSent_iff {s : CoreState P H}
    (hs : (CoreState.machine P H).Reachable CoreState.HandlesLeft s)
    (h : s.table.writeMessage mem pipe body handles dup sendMessage = some (rv, sent, t')) :
    SuccessMeansSent s.table handles rv sent t' ↔
      Rejected s.table pipe handles ∨ Duplicable s.table handles dup := by
  constructor
  · intro hsent
    rcases outcome_of_writeMessage (CoreState.inv_of_reachable hs).table h with
      ⟨hrejected, -⟩ | ⟨-, -, hok, hfalse⟩ | ⟨hdup, -⟩
    · exact .inl hrejected
    · rw [hsent.ok_iff.1 hok] at hfalse
      cases hfalse
    · exact .inr hdup
  · intro hcond
    rcases outcome_of_writeMessage (CoreState.inv_of_reachable hs).table h with
      ⟨-, hsent⟩ | ⟨hrejected, hdup, -⟩ | ⟨-, hsent⟩
    · exact hsent
    · exact absurd hcond (not_or.2 ⟨hrejected, hdup⟩)
    · exact hsent

/-- A message pipe and a shared buffer. -/
def pipeAndBuffer : List (CoreState.Input ℕ ℕ) :=
  [.addDispatcher (.messagePipe { port := 5, pipeId := 6, endpoint := 1 }),
    .addDispatcher (.sharedBuffer { sharedBuffer := some ⟨some 3, 64⟩ })]

/-- The handle of a shared buffer cannot be duplicated. The call succeeds and the buffer
    is gone, but the message was not sent. -/
theorem success_not_sent : ∃ s : CoreState ℕ ℕ,
    (CoreState.machine ℕ ℕ).Reachable CoreState.HandlesLeft s ∧ s.table.handles 2 = some ⟨1, false⟩ ∧
    ∃ t', s.table.writeMessage ⟨fun _ => 0, fun _ => 0⟩ 1 [42] [2] (fun _ => none)
        (fun _ => .ok) = some (.ok, false, t') ∧ t'.handles 2 = none ∧
      ¬ SuccessMeansSent s.table [2] .ok false t' := by
  obtain ⟨s, hs, hentry, h⟩ := Machine.exists_reachable (M := CoreState.machine ℕ ℕ)
    (G := CoreState.HandlesLeft) (P := fun s => s.table.handles 2 = some ⟨1, false⟩ ∧
      (s.table.writeMessage ⟨fun _ => 0, fun _ => 0⟩ 1 [42] [2] (fun _ => none)
        (fun _ => .ok)).map (fun r => (r.1, r.2.1, r.2.2.handles 2)) = some (.ok, false, none))
    pipeAndBuffer (by decide)
  obtain ⟨⟨rv, sent, t'⟩, hwrite, hr⟩ := Option.map_eq_some_iff.1 h
  obtain ⟨rfl, rfl, hnone⟩ : rv = .ok ∧ sent = false ∧ t'.handles 2 = none := by simpa using hr
  exact ⟨s, hs, hentry, t', hwrite, hnone, fun hsent => by cases hsent.ok_iff.1 rfl⟩

end Spec

end MojoEdk.Core
