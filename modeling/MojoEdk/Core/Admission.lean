import MojoEdk.Core.WriteMessage

/-!
# Messages that a receiver accepts

A call of `Core::WriteMessage` limits the number of handles, and nothing else. The size of
the message adds up through the headers of five layers, and the receiver fails the whole
channel if it is larger than `kMaxChannelMessageSize`, or if there are more platform
handles than a channel carries. The sizes are compared with the widths of the fields of
the header in assertions only, so the calls are modelled here as they are in a build
without assertions (`writeMessageRelease`).

The main result, `admissible_iff`, says in terms of the body and of the types of the
handles which of the messages that are sent are accepted.
-/

namespace MojoEdk.Core

variable {P H : Type}

/-! ## The calls without assertions -/

/-- A user message and the size of the channel message it is in. -/
structure ChannelMessage (P H : Type) where
  size : ℕ
  message : PortsMessage P H

/-- `NewUserMessage`. The number of handles is stored in 16 bits. -/
def newUserMessageRelease (mem : Memory P) (numPayloadBytes numPorts numHandles : ℕ) :
    ChannelMessage P H where
  size := channelMessageSize numPayloadBytes numPorts
  message := {
    payload := (List.range numPayloadBytes).map mem.byte
    ports := (List.range numPorts).map mem.port
    numHandles := numHandles % 2 ^ 16
    handles := [] }

/-- `WriteMessage` up to the call of `SendMessage`. -/
def serializeRelease (mem : Memory P) (body : List UInt8) (ds : List (Attached P H)) :
    Option (Option (ChannelMessage P H) × List (Dispatcher P H)) := do
  let infos ← ds.mapM (·.1.startSerialize)
  let headerSize := sizeofMessageHeader + ds.length * sizeofDispatcherHeader +
    (infos.map (·.numBytes)).sum
  let ⟨size, message⟩ := newUserMessageRelease mem (headerSize + body.length)
    (infos.map (·.numPorts)).sum (infos.map (·.numHandles)).sum
  let (ok, b, ds') ← serializeLoop (ds.zip infos) 0
    (sizeofMessageHeader + ds.length * sizeofDispatcherHeader) 0 0 {
      payload := message.payload.splice 0 (messageHeader ds.length headerSize)
      ports := message.ports
      handles := List.replicate (infos.map (·.numHandles)).sum none }
  if ok then
    let message ← PortsMessage.setHandles
      { message with payload := b.payload, ports := b.ports } b.handles
    some (some ⟨size, { message with payload := message.payload.splice headerSize body }⟩, ds')
  else some (none, ds')

/-- `MessagePipeDispatcher::WriteMessage`: the result, the message if it was accepted, and
    the dispatchers. -/
def MessagePipe.writeMessageRelease (d : MessagePipe P) (mem : Memory P) (body : List UInt8)
    (ds : List (Attached P H)) (sendMessage : PortsMessage P H → Ports.Result) :
    Option (MojoResult × Option (ChannelMessage P H) × List (Dispatcher P H)) :=
  if d.portClosed || d.inTransit then some (.invalidArgument, none, ds.map (·.1))
  else (serializeRelease mem body ds).bind fun
    -- `cancel_transit` is set, but the result is still `MOJO_RESULT_OK`.
    | (none, ds) => some (.ok, none, ds)
    | (some m, ds) =>
      match sendMessage m.message with
      | .ok => some (.ok, some m, ds)
      | .errorPortUnknown | .errorPortStateUnexpected | .errorPortCannotSendPeer =>
        some (.invalidArgument, none, ds)
      | .errorPortPeerClosed => some (.failedPrecondition, none, ds)
      | .errorPortExists | .errorPortCannotSendSelf => none

def Dispatcher.writeMessageRelease (mem : Memory P) (body : List UInt8)
    (ds : List (Attached P H)) (sendMessage : PortsMessage P H → Ports.Result) :
    Dispatcher P H → Option (MojoResult × Option (ChannelMessage P H) × List (Dispatcher P H))
  | .messagePipe d => d.writeMessageRelease mem body ds sendMessage
  | _ => some (.invalidArgument, none, ds.map (·.1))

/-- `Core::WriteMessage`. -/
def HandleTable.writeMessageRelease (t : HandleTable P H) (mem : Memory P)
    (messagePipeHandle : ℕ) (body : List UInt8) (handles : List ℕ) (dup : ℕ → Option H)
    (sendMessage : PortsMessage P H → Ports.Result) :
    Option (MojoResult × Option (ChannelMessage P H) × HandleTable P H) :=
  match t.handles messagePipeHandle with
  | none => some (.invalidArgument, none, t)
  | some e =>
    if handles.isEmpty then
      ((t.dispatchers e.dispatcher).writeMessageRelease mem body [] sendMessage).map
        fun (rv, m, _) => (rv, m, t)
    else if kMaxHandlesPerMessage < handles.length then some (.resourceExhausted, none, t)
    else if messagePipeHandle ∈ handles then some (.busy, none, t)
    else
      -- A failure leaves the handles seen so far in transit, which is canceled.
      match beginTransit handles t [] with
      | (.ok, ds, t) =>
        ((t.dispatchers e.dispatcher).writeMessageRelease mem body
          (ds.map fun d => (t.dispatchers d.dispatcher, dup d.dispatcher)) sendMessage).bind
          fun (rv, m, xs) =>
            let t := t.setDispatchers ds xs
            (if rv = .ok then t.completeTransitAndClose ds else t.cancelTransit ds).map fun t =>
              (rv, m, t)
      | (rv, ds, t) => (t.cancelTransit ds).map fun t => (rv, none, t)

/-! ## Both builds -/

section Builds

variable {mem : Memory P} {body : List UInt8} {sendMessage : PortsMessage P H → Ports.Result}
  {rv : MojoResult} {sent : Bool}

/-- Where the assertions hold, they make no difference. -/
theorem serializeRelease_of_serialize {ds : List (Attached P H)}
    {message : Option (PortsMessage P H)} {xs : List (Dispatcher P H)}
    (h : serialize mem body ds = some (message, xs)) :
    ∃ size, serializeRelease mem body ds = some (message.map (ChannelMessage.mk size), xs) := by
  rw [serialize] at h
  obtain ⟨infos, hinfos, h⟩ := Option.bind_eq_some_iff.1 h
  obtain ⟨m, hm, h⟩ := Option.bind_eq_some_iff.1 h
  rw [PortsMessage.newUserMessage] at hm
  split_ifs at hm with hfits
  obtain rfl := Option.some.inj hm
  -- The assertion says that the size fits, so that nothing is cut off.
  have hmod := Nat.mod_eq_of_lt hfits.2
  refine ⟨channelMessageSize (sizeofMessageHeader + ds.length * sizeofDispatcherHeader +
    (infos.map (·.numBytes)).sum + body.length) (infos.map (·.numPorts)).sum, ?_⟩
  obtain ⟨⟨ok, b, ys⟩, hloop, h⟩ := Option.bind_eq_some_iff.1 h
  rw [serializeRelease, hinfos]
  simp only [newUserMessageRelease, hmod, Option.bind_eq_bind, Option.bind_some]
  rw [hloop, Option.bind_some]
  cases ok with
  | false =>
    cases h
    rfl
  | true =>
    obtain ⟨m, hset, h⟩ := Option.bind_eq_some_iff.1 h
    cases h
    simp only [if_true, hset, Option.bind_some, Option.map_some]

theorem writeMessageRelease_of_dispatcher {d : Dispatcher P H} {ds : List (Attached P H)}
    {xs : List (Dispatcher P H)} (h : d.writeMessage mem body ds sendMessage = some (rv, sent, xs)) :
    ∃ m, d.writeMessageRelease mem body ds sendMessage = some (rv, m, xs) ∧ m.isSome = sent := by
  cases d with
  | messagePipe d =>
    rw [Dispatcher.writeMessage, MessagePipe.writeMessage] at h
    rw [Dispatcher.writeMessageRelease, MessagePipe.writeMessageRelease]
    split_ifs at h ⊢
    · cases h
      exact ⟨none, rfl, rfl⟩
    · obtain ⟨⟨message, ys⟩, hserialize, h⟩ := Option.bind_eq_some_iff.1 h
      obtain ⟨size, hrelease⟩ := serializeRelease_of_serialize hserialize
      rw [hrelease, Option.bind_some]
      cases message with
      | none =>
        cases h
        exact ⟨none, rfl, rfl⟩
      | some message =>
        simp only [Option.map_some] at h ⊢
        cases hsend : sendMessage message <;> simp only [hsend] at h ⊢ <;> cases h <;>
          exact ⟨_, rfl, rfl⟩
  | dataPipeProducer | dataPipeConsumer | sharedBuffer | platformHandle | waitSet =>
    cases h
    exact ⟨none, rfl, rfl⟩

/-- Where the assertions hold, `Core::WriteMessage` does the same without them. -/
theorem writeMessageRelease_of_writeMessage {t t' : HandleTable P H} {pipe : ℕ}
    {handles : List ℕ} {dup : ℕ → Option H}
    (h : t.writeMessage mem pipe body handles dup sendMessage = some (rv, sent, t')) :
    ∃ m, t.writeMessageRelease mem pipe body handles dup sendMessage = some (rv, m, t') ∧
      m.isSome = sent := by
  rw [HandleTable.writeMessage] at h
  rw [HandleTable.writeMessageRelease]
  cases he : t.handles pipe with
  | none =>
    rw [he] at h
    cases h
    exact ⟨none, rfl, rfl⟩
  | some e =>
    simp only [he] at h ⊢
    split_ifs at h ⊢
    · obtain ⟨⟨rv', sent', xs⟩, hwrite, hr⟩ := Option.map_eq_some_iff.1 h
      cases hr
      obtain ⟨m, hm, hsome⟩ := writeMessageRelease_of_dispatcher hwrite
      exact ⟨m, by rw [hm]; rfl, hsome⟩
    · cases h
      exact ⟨none, rfl, rfl⟩
    · cases h
      exact ⟨none, rfl, rfl⟩
    · rcases hbegin : HandleTable.beginTransit handles t [] with ⟨rv', ds, t₁⟩
      simp only [hbegin] at h ⊢
      -- Transit begins for all of the handles, or is cancelled for those it began for.
      cases rv' with
      | ok =>
        obtain ⟨⟨rv', sent', xs⟩, hwrite, h⟩ := Option.bind_eq_some_iff.1 h
        obtain ⟨t₂, hend, hr⟩ := Option.map_eq_some_iff.1 h
        cases hr
        obtain ⟨m, hm, hsome⟩ := writeMessageRelease_of_dispatcher hwrite
        refine ⟨m, ?_, hsome⟩
        simp only [hm, Option.bind_some, hend, Option.map_some]
      | _ =>
        obtain ⟨t₂, hcancel, hr⟩ := Option.map_eq_some_iff.1 h
        cases hr
        refine ⟨none, ?_, rfl⟩
        simp only [hcancel, Option.map_some]

end Builds

/-! ## What is admitted and what is accepted -/

/-- The message does not exceed what the receiver takes: its size, which also has to fit
    into the header, and its platform handles. -/
structure Admissible (kPlatformChannelMaxNumHandles : ℕ) (m : ChannelMessage P H) : Prop where
  size_le : m.size ≤ Channel.kMaxChannelMessageSize
  size_lt : m.size < 2 ^ 32
  handles_lt : m.message.handles.length < 2 ^ 16
  handles_le : m.message.handles.length ≤ kPlatformChannelMaxNumHandles

/-- What a dispatcher adds to the size of a message. -/
def Dispatcher.Info.size (info : Dispatcher.Info) : ℕ :=
  sizeofDispatcherHeader + info.numBytes + info.numPorts * (sizeofPortDescriptor + sizeofPortName)

/-- What will be told of the dispatcher of a handle. -/
def HandleTable.info (t : HandleTable P H) (handle : ℕ) : Dispatcher.Info :=
  ((t.handles handle).map fun e => (t.dispatchers e.dispatcher).info).getD ⟨0, 0, 0⟩

/-- The body and the handles are few enough. -/
def Within (kPlatformChannelMaxNumHandles : ℕ) (t : HandleTable P H) (body : List UInt8)
    (handles : List ℕ) : Prop :=
  channelMessageSize sizeofMessageHeader 0 + body.length +
      (handles.map fun handle => (t.info handle).size).sum ≤ Channel.kMaxChannelMessageSize ∧
    (handles.map fun handle => (t.info handle).numHandles).sum ≤ kPlatformChannelMaxNumHandles

/-! ## Sizes -/

variable {mem : Memory P} {body : List UInt8} {sendMessage : PortsMessage P H → Ports.Result}
  {m : ChannelMessage P H} {rv : MojoResult}

theorem length_handles_of_endSerialize {d : Dispatcher P H} {dup : Option H}
    {destination : List UInt8} {s : Dispatcher.Serialized P H}
    (h : d.endSerialize dup destination = some s) : s.handles.length = d.info.numHandles := by
  cases d with
  | messagePipe | platformHandle | waitSet =>
    cases h
    rfl
  | dataPipeProducer d =>
    rw [Dispatcher.endSerialize] at h
    split_ifs at h
    cases h
    rfl
  | dataPipeConsumer d =>
    rw [Dispatcher.endSerialize] at h
    split_ifs at h
    cases h
    rfl
  | sharedBuffer d =>
    obtain ⟨buffer, -, rfl⟩ := Option.map_eq_some_iff.1 h
    rfl

/-- The loop fills in the handles, and does not change their number. -/
theorem length_handles_of_serializeLoop {ds : List (Attached P H)} {i off pi hi : ℕ}
    {b b' : Buffers P H} {ok : Bool} {xs : List (Dispatcher P H)}
    (h : serializeLoop (ds.map fun a => (a, a.1.info)) i off pi hi b = some (ok, b', xs))
    (hlen : hi + (ds.map (·.1.info.numHandles)).sum ≤ b.handles.length) :
    b'.handles.length = b.handles.length := by
  induction ds generalizing i off pi hi b ok xs with
  | nil =>
    cases h
    rfl
  | cons a ds ih =>
    rw [List.map_cons, serializeLoop] at h
    rw [List.map_cons, List.sum_cons] at hlen
    obtain ⟨s, hs, h⟩ := Option.bind_eq_some_iff.1 h
    -- What a dispatcher writes has the length it announced.
    have hsplice : (b.handles.splice hi s.handles).length = b.handles.length := by
      refine List.length_splice ?_
      rw [length_handles_of_endSerialize hs]
      omega
    simp only at h
    split_ifs at h
    · obtain ⟨⟨ok', b'', xs'⟩, hloop, hr⟩ := Option.map_eq_some_iff.1 h
      cases hr
      refine (ih hloop ?_).trans hsplice
      rw [hsplice]
      omega
    · cases h
      exact hsplice

/-- The size of a message that is sent, and the number of its handles, which is small
    enough for the header as `SetHandles` compares the two. -/
theorem serializeRelease_spec {ds : List (Attached P H)} {xs : List (Dispatcher P H)}
    (h : serializeRelease mem body ds = some (some m, xs)) :
    m.size = channelMessageSize (headerSize ds + body.length) (portsOf ds).length ∧
      m.message.handles.length = numHandlesOf ds ∧ numHandlesOf ds < 2 ^ 16 := by
  rw [serializeRelease] at h
  obtain ⟨infos, hinfos, h⟩ := Option.bind_eq_some_iff.1 h
  obtain ⟨⟨ok, b, ys⟩, hloop, h⟩ := Option.bind_eq_some_iff.1 h
  obtain rfl := infos_of_mapM hinfos
  have hzip : ds.zip (ds.map (·.1.info)) = ds.map fun a => (a, a.1.info) :=
    List.map_prod_left_eq_zip.symm
  rw [hzip] at hloop
  simp only [List.map_map, Function.comp_def] at hloop h
  have hhandles : b.handles.length = numHandlesOf ds :=
    (length_handles_of_serializeLoop hloop (by simp)).trans List.length_replicate
  cases ok with
  | false => cases h
  | true =>
    obtain ⟨message, hset, h⟩ := Option.bind_eq_some_iff.1 h
    obtain ⟨hm, -⟩ := Prod.mk.inj (Option.some.inj h)
    obtain rfl := Option.some.inj hm
    refine ⟨by rw [length_portsOf]; rfl, ?_⟩
    rw [PortsMessage.setHandles] at hset
    change (if numHandlesOf ds % 2 ^ 16 = 0 then if b.handles.length = 0 then _ else _
      else if b.handles.length = numHandlesOf ds % 2 ^ 16 then _ else _) = _ at hset
    have hmod := Nat.mod_lt (numHandlesOf ds) (show 0 < 2 ^ 16 by decide)
    -- `SetHandles` checks the count, which was cut to 16 bits.
    split_ifs at hset with hzero hnil hlen
    · cases hset
      exact ⟨(hhandles.symm.trans hnil).symm, by omega⟩
    · cases hset
      exact ⟨hhandles, by omega⟩

theorem size_eq (body : List UInt8) (ds : List (Attached P H)) :
    channelMessageSize (headerSize ds + body.length) (portsOf ds).length =
      channelMessageSize sizeofMessageHeader 0 + body.length +
        (ds.map fun a => a.1.info.size).sum := by
  have hsum : ds.length * sizeofDispatcherHeader + numBytesOf ds +
      (portsOf ds).length * (sizeofPortDescriptor + sizeofPortName) =
        (ds.map fun a => a.1.info.size).sum := by
    rw [length_portsOf]
    induction ds with
    | nil => rfl
    | cons a ds ih =>
      simp only [numBytesOf, List.map_cons, List.sum_cons, List.length_cons,
        Dispatcher.Info.size] at ih ⊢
      rw [← ih]
      ring
  rw [← hsum]
  simp only [channelMessageSize, headerSize]
  ring

/-- A message that was accepted by the node was serialized. -/
theorem serialize_of_writeMessageRelease {d : Dispatcher P H} {ds : List (Attached P H)}
    {xs : List (Dispatcher P H)}
    (h : d.writeMessageRelease mem body ds sendMessage = some (rv, some m, xs)) :
    ∃ ys, serializeRelease mem body ds = some (some m, ys) := by
  cases d with
  | messagePipe d =>
    rw [Dispatcher.writeMessageRelease, MessagePipe.writeMessageRelease] at h
    split_ifs at h
    · cases h
    · obtain ⟨⟨message, ys⟩, hserialize, h⟩ := Option.bind_eq_some_iff.1 h
      cases message with
      | none => cases h
      | some m' =>
        simp only at h
        split at h
        · obtain ⟨-, hm, -⟩ : _ ∧ some m' = some m ∧ _ := by simpa using h
          exact ⟨ys, hm ▸ hserialize⟩
        all_goals cases h
  | dataPipeProducer | dataPipeConsumer | sharedBuffer | platformHandle | waitSet => cases h

theorem info_setInTransit (d : Dispatcher P H) (b : Bool) : (d.setInTransit b).info = d.info := by
  cases d <;> rfl

/-- A call that sends a message has serialized the dispatchers of the handles. -/
theorem attached_of_writeMessageRelease {t t' : HandleTable P H} {pipe : ℕ} {handles : List ℕ}
    {dup : ℕ → Option H}
    (h : t.writeMessageRelease mem pipe body handles dup sendMessage = some (rv, some m, t')) :
    ∃ ds : List (Attached P H), ds.map (·.1.info) = handles.map t.info ∧
      ∃ ys, serializeRelease mem body ds = some (some m, ys) := by
  rw [HandleTable.writeMessageRelease] at h
  cases he : t.handles pipe with
  | none =>
    rw [he] at h
    cases h
  | some e =>
    simp only [he] at h
    split_ifs at h with hempty hmax hpipe
    · obtain ⟨⟨rv', m', xs⟩, hwrite, hr⟩ := Option.map_eq_some_iff.1 h
      cases hr
      exact ⟨[], by rw [List.isEmpty_iff.1 hempty]; rfl, serialize_of_writeMessageRelease hwrite⟩
    · cases h
    · cases h
    · obtain ⟨ds, t₁, hbegan, hresult, hall⟩ := HandleTable.beginTransit_spec handles t []
      rw [List.nil_append] at hresult
      rw [← Prod.mk.eta (p := HandleTable.beginTransit handles t []), hresult] at h
      split at h
      next ds' t₂ heq =>
        obtain ⟨hrv, hds⟩ := Prod.mk.inj heq
        obtain ⟨rfl, rfl⟩ := Prod.mk.inj hds
        obtain ⟨⟨rv', m', xs⟩, hwrite, h⟩ := Option.bind_eq_some_iff.1 h
        obtain ⟨t₃, -, hr⟩ := Option.map_eq_some_iff.1 h
        cases hr
        refine ⟨_, ?_, serialize_of_writeMessageRelease hwrite⟩
        rw [← hall hrv, List.map_map, List.map_map]
        refine List.map_congr_left fun d hd => ?_
        -- A dispatcher has the same type before it is put in transit.
        simp only [Function.comp_apply, HandleTable.info, hbegan.entry d hd, Option.map_some,
          Option.getD_some]
        rw [hbegan.dispatchers, if_pos (List.mem_map_of_mem hd), info_setInTransit]
      next =>
        obtain ⟨t₃, -, hr⟩ := Option.map_eq_some_iff.1 h
        cases hr

/-! ## Results -/

/-- Of a call of `Core::WriteMessage` that succeeds and sends a message, the receiver
    accepts the message if and only if the body and the handles are few enough. -/
theorem admissible_iff {t t' : HandleTable P H} {pipe : ℕ} {handles : List ℕ}
    {dup : ℕ → Option H} (kPlatformChannelMaxNumHandles : ℕ)
    (h : t.writeMessageRelease mem pipe body handles dup sendMessage = some (.ok, some m, t')) :
    Admissible kPlatformChannelMaxNumHandles m ↔
      Within kPlatformChannelMaxNumHandles t body handles := by
  obtain ⟨ds, hds, ys, hserialize⟩ := attached_of_writeMessageRelease h
  obtain ⟨hsize, hhandles, hlt⟩ := serializeRelease_spec hserialize
  rw [size_eq] at hsize
  -- What was announced is what the handles add.
  have hsizes : (ds.map fun a => a.1.info.size).sum =
      (handles.map fun handle => (t.info handle).size).sum := by
    have h := congrArg (fun l => (l.map Dispatcher.Info.size).sum) hds
    simp only [List.map_map] at h
    exact h
  have hnums : numHandlesOf ds = (handles.map fun handle => (t.info handle).numHandles).sum := by
    have h := congrArg (fun l => (l.map Dispatcher.Info.numHandles).sum) hds
    simp only [List.map_map] at h
    exact h
  rw [hsizes] at hsize
  rw [Within, ← hsize, ← hnums, ← hhandles]
  have hmax : Channel.kMaxChannelMessageSize < 2 ^ 32 := by decide
  exact ⟨fun h => ⟨h.size_le, h.handles_le⟩,
    fun h => ⟨h.1, h.1.trans_lt hmax, hhandles.trans_lt hlt, h.2⟩⟩

/-- A table with two message pipes. -/
def twoPipes : HandleTable ℕ ℕ :=
  ((HandleTable.addDispatcher {} (.messagePipe { port := 5, pipeId := 6, endpoint := 1 })).2
    |>.addDispatcher (.messagePipe { port := 7, pipeId := 8, endpoint := 0 })).2

/-- A message pipe is sent over another one. -/
theorem admissible_twoPipes : ∃ (m : ChannelMessage ℕ ℕ) (t' : HandleTable ℕ ℕ),
    twoPipes.writeMessageRelease ⟨fun _ => 0, fun _ => 0⟩ 1 [42] [2] (fun _ => none)
      (fun _ => .ok) = some (.ok, some m, t') ∧ Admissible 128 m := by
  have h : (twoPipes.writeMessageRelease ⟨fun _ => 0, fun _ => 0⟩ 1 [42] [2] (fun _ => none)
      (fun _ => .ok)).map (fun r => (r.1, r.2.1.isSome)) = some (.ok, true) := by decide
  obtain ⟨⟨rv, message, t'⟩, hwrite, hr⟩ := Option.map_eq_some_iff.1 h
  obtain ⟨rfl, hsome⟩ : rv = .ok ∧ message.isSome = true := by simpa using hr
  obtain ⟨m, rfl⟩ := Option.isSome_iff_exists.1 hsome
  exact ⟨m, t', hwrite, (admissible_iff 128 hwrite).2 (by unfold Within; decide)⟩

/-- A message without handles is sent whatever its size is. -/
theorem writeMessageRelease_body (body : List UInt8) : ∃ message : PortsMessage ℕ ℕ,
    twoPipes.writeMessageRelease ⟨fun _ => 0, fun _ => 0⟩ 1 body [] (fun _ => none)
      (fun _ => .ok) = some (.ok, some ⟨channelMessageSize (sizeofMessageHeader + body.length) 0,
        message⟩, twoPipes) :=
  ⟨_, rfl⟩

/-- A body of 256 MiB is sent, and the receiver does not accept it. -/
theorem not_admissible_body : ∃ (m : ChannelMessage ℕ ℕ) (t' : HandleTable ℕ ℕ),
    twoPipes.writeMessageRelease ⟨fun _ => 0, fun _ => 0⟩ 1
      (List.replicate (256 * 1024 * 1024) 0) [] (fun _ => none) (fun _ => .ok) =
      some (.ok, some m, t') ∧ ∀ k, ¬Admissible k m := by
  obtain ⟨message, h⟩ := writeMessageRelease_body (List.replicate (256 * 1024 * 1024) 0)
  refine ⟨_, _, h, fun k hk => ?_⟩
  have hsize := hk.size_le
  rw [List.length_replicate] at hsize
  exact absurd hsize (show ¬channelMessageSize (sizeofMessageHeader + 256 * 1024 * 1024) 0 ≤
    Channel.kMaxChannelMessageSize by decide)

end MojoEdk.Core
