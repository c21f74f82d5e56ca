import MojoEdk.Channel.Reading
import MojoEdk.Channel.Writing

/-!
# Connected channels

A channel writes messages to a socket (`Writer`), and the channel at the other end of it
reads them (`Reader`). A read takes the next bytes off the wire, however many, with the
handles that come along with them.

Between the two, the messages are bytes. Nothing is left of their boundaries on the wire,
as a write may be accepted in part and a read may end anywhere. But the bytes of messages
that fit can be cut in one way only (`cut_flatMap_take`), so that the connection is a
queue: messages are dispatched in the order in which they were written, each with its own
handles, and as soon as its last byte is read (`Connection.fifo`).

Handles are lost when a call that passes them would block (`Writer.handles_lost`), which is
excluded here.
-/

namespace MojoEdk.Channel

variable {H : Type*}

/-! ## Messages -/

/-- `Channel::Message`, as its constructor and `SetHandles` make it of a payload and handles. -/
def Message.new (payload : List UInt8) (handles : List H) : Message H where
  data := leBytes 4 (sizeofHeader + payload.length) ++
    (leBytes 2 handles.length ++ (leBytes 2 0 ++ payload))
  handles := handles
  data_ne_nil := List.ne_nil_of_length_pos (by simp)

/-- A payload and handles fit into a message: the other end accepts it, and the header
    counts the handles. -/
def FitsMessage (c : List UInt8 × List H) : Prop :=
  sizeofHeader + c.1.length ≤ kMaxChannelMessageSize ∧ c.2.length < 2 ^ 16

instance (c : List UInt8 × List H) : Decidable (FitsMessage c) :=
  inferInstanceAs (Decidable (_ ∧ _))

/-- The bytes of messages, with their handles. -/
def stream (cs : List (List UInt8 × List H)) : List (UInt8 × List H) :=
  cs.flatMap fun c => (Message.new c.1 c.2).stream

/-- The number of bytes of messages. -/
def size (cs : List (List UInt8 × List H)) : ℕ := (cs.map fun c => sizeofHeader + c.1.length).sum

/-! ## The connection -/

/-- A channel that is written to and one that reads from it. -/
structure Connection (H : Type*) where
  writer : Writer H := {}
  reader : Reader H := {}
  /-- The number of bytes that were read. -/
  numRead : ℕ := 0
  /-- The reader has stopped, after an error. -/
  failed : Bool := false
  /-- The payloads and the handles of the messages passed to `Write`. -/
  sent : List (List UInt8 × List H) := []

namespace Connection

inductive Input (H : Type*)
  /-- `Write`, on the IO thread or another one. -/
  | write (io : Bool) (payload : List UInt8) (handles : List H)
  /-- The socket is writable. -/
  | canWrite
  /-- A task `WaitForWriteOnIOThread` that was posted. -/
  | waitForWrite
  /-- A read, with the hint for its size and the number of bytes that it gets. -/
  | read (bufferCapacity numBytes : ℕ)

/-- `PlatformChannelRecvmsg`: the next bytes of the wire, and the handles that come along. -/
def recvmsg (c : Connection H) (bufferCapacity numBytes : ℕ) : Read H :=
  let bytes := c.writer.wire.slice c.numRead numBytes
  ⟨bufferCapacity, bytes.map Prod.fst, bytes.flatMap Prod.snd⟩

def step (S : Socket) (c : Connection H) : Input H → Option (Connection H)
  | .write io payload handles =>
    (c.writer.step S (.write io (.new payload handles))).map fun writer =>
      { c with writer := writer, sent := c.sent ++ [(payload, handles)] }
  | .canWrite => (c.writer.step S .canWrite).map ({ c with writer := · })
  | .waitForWrite => (c.writer.step S .waitForWrite).map ({ c with writer := · })
  | .read bufferCapacity numBytes =>
    if c.failed ∨ numBytes = 0 ∨ c.writer.wire.length < c.numRead + numBytes ∨
      requiredCapacity bufferCapacity < numBytes then none
    else (c.reader.read (c.recvmsg bufferCapacity numBytes) 0).map fun (reader, ok, _) =>
      { c with reader := reader, numRead := c.numRead + numBytes, failed := !ok }

def machine (S : Socket) (H : Type*) : Machine (Connection H) (Input H) where
  init := {}
  step := step S

/-- The messages written fit. -/
def Fits (_ : Connection H) : Input H → Prop
  | .write _ payload handles => FitsMessage (payload, handles)
  | _ => True

instance (c : Connection H) (i : Input H) : Decidable (c.Fits i) :=
  match i with
  | .write _ payload handles => inferInstanceAs (Decidable (FitsMessage (payload, handles)))
  | .canWrite | .waitForWrite | .read _ _ => inferInstanceAs (Decidable True)

end Connection

/-! ## Cutting what was written -/

section Cut

variable {c : List UInt8 × List H} {cs : List (List UInt8 × List H)}

theorem map_fst_stream_new (payload : List UInt8) (handles : List H) :
    (Message.new payload handles).stream.map Prod.fst = (Message.new payload handles).data :=
  map_fst_withHandles _ _

theorem flatMap_snd_withHandles {bytes : List UInt8} (hne : bytes ≠ []) (handles : List H) :
    (withHandles bytes handles).flatMap Prod.snd = handles := by
  obtain ⟨b, bytes, rfl⟩ := List.exists_cons_of_ne_nil hne
  rw [withHandles, List.flatMap_cons, List.flatMap_map]
  simp

theorem length_data_new (payload : List UInt8) (handles : List H) :
    (Message.new payload handles).data.length = sizeofHeader + payload.length := by
  simp only [Message.new, List.length_append, length_leBytes, sizeofHeader]
  omega

theorem length_stream_new (payload : List UInt8) (handles : List H) :
    (Message.new payload handles).stream.length = sizeofHeader + payload.length := by
  rw [← length_data_new payload handles, ← map_fst_stream_new, List.length_map]

theorem length_stream (cs : List (List UInt8 × List H)) : (stream cs).length = size cs := by
  rw [stream, size, List.length_flatMap]
  simp only [length_stream_new]

/-- The header of a message, and its payload. -/
theorem header_new (hc : FitsMessage c) :
    numBytes (Message.new c.1 c.2).data = sizeofHeader + c.1.length ∧
    numHandles (Message.new c.1 c.2).data = c.2.length ∧
    (Message.new c.1 c.2).data.slice sizeofHeader c.1.length = c.1 := by
  have hbytes : sizeofHeader + c.1.length < 256 ^ 4 := hc.1.trans_lt (by decide)
  refine ⟨?_, ?_, ?_⟩
  · rw [numBytes, Message.new, List.slice_append_of_le (by simp)]
    exact (congrArg ofLeBytes (List.take_of_length_le (by simp))).trans (ofLeBytes_leBytes hbytes)
  · rw [numHandles, Message.new, List.slice_append_middle (by simp) (by simp)]
    exact ofLeBytes_leBytes (hc.2.trans_eq (by norm_num))
  · have hdata : (Message.new c.1 c.2).data = (leBytes 4 (sizeofHeader + c.1.length) ++
        (leBytes 2 c.2.length ++ leBytes 2 0)) ++ (c.1 ++ []) := by
      simp only [Message.new, List.append_assoc, List.append_nil]
    rw [hdata]
    exact List.slice_append_middle (by simp [sizeofHeader]) rfl

theorem not_invalid_new (hc : FitsMessage c) (v : List UInt8) :
    ¬Invalid ((Message.new c.1 c.2).data ++ v) := by
  rw [invalid_append (by rw [length_data_new]; exact Nat.le_add_right ..), Invalid,
    (header_new hc).1]
  have := hc.1
  omega

/-- A message is cut off. -/
theorem cut_new (hc : FitsMessage c) (v : List UInt8) : cut ((Message.new c.1 c.2).data ++ v) =
    { cut v with messages := (c.1, c.2.length) :: (cut v).messages } := by
  obtain ⟨hbytes, hhandles, hpayload⟩ := header_new hc
  have hlen := length_data_new c.1 c.2
  have hinv := not_invalid_new hc []
  rw [List.append_nil] at hinv
  rw [cut_of_complete (by omega) hinv (by omega), hbytes, hhandles,
    Nat.add_sub_cancel_left, hpayload, ← hlen, List.drop_length, List.nil_append]

/-- Nothing is cut off a part of a message. -/
theorem cut_part (hc : FitsMessage c) {u : List UInt8} (hu : u <+: (Message.new c.1 c.2).data)
    (hlen : u.length < sizeofHeader + c.1.length) :
    (cut u).messages = [] ∧ (cut u).invalid = false := by
  obtain ⟨v, hv⟩ := hu
  by_cases hshort : u.length < sizeofHeader
  · rw [cut_of_short hshort]
    exact ⟨rfl, rfl⟩
  · have hinv := not_invalid_new hc []
    rw [List.append_nil, ← hv, invalid_append (not_lt.1 hshort)] at hinv
    have hbytes := (header_new hc).1
    rw [← hv, numBytes_append (not_lt.1 hshort)] at hbytes
    rw [cut_of_incomplete hshort hinv (by omega)]
    exact ⟨rfl, rfl⟩

/-- However far the bytes of some messages go, those that are complete are cut off. -/
theorem cut_prefix (hcs : ∀ c ∈ cs, FitsMessage c) {p : List (UInt8 × List H)}
    (hp : p <+: stream cs) : ∃ k ≤ cs.length,
      (cut (p.map Prod.fst)).messages = (cs.take k).map (fun c => (c.1, c.2.length)) ∧
      (cut (p.map Prod.fst)).invalid = false ∧ stream (cs.take k) <+: p ∧
      ∀ j ≤ cs.length, j ≤ k ↔ size (cs.take j) ≤ p.length := by
  induction cs generalizing p with
  | nil =>
    obtain rfl : p = [] := List.prefix_nil.1 hp
    refine ⟨0, le_rfl, ?_, ?_, List.nil_prefix, by simp [size]⟩
    all_goals rw [List.map_nil, cut_of_short (by decide)]
    rfl
  | cons c cs ih =>
    obtain ⟨hc, hcs⟩ := List.forall_mem_cons.1 hcs
    have hlen := length_stream_new c.1 c.2
    have hp' : p <+: (Message.new c.1 c.2).stream ++ stream cs := hp
    rcases Nat.lt_or_ge p.length (sizeofHeader + c.1.length) with hlt | hge
    · -- The first message is incomplete.
      have hpart : p <+: (Message.new c.1 c.2).stream :=
        List.prefix_of_prefix_length_le hp' (List.prefix_append _ _) (by omega)
      have hfst := hpart.map Prod.fst
      rw [map_fst_stream_new] at hfst
      obtain ⟨hmessages, hinvalid⟩ := cut_part hc hfst (by rwa [List.length_map])
      refine ⟨0, Nat.zero_le _, hmessages, hinvalid, List.nil_prefix, fun j _ => ?_⟩
      cases j with
      | zero => simp [size]
      | succ j =>
        rw [List.take_succ_cons, size, List.map_cons, List.sum_cons]
        omega
    · obtain ⟨q, rfl⟩ : (Message.new c.1 c.2).stream <+: p :=
        List.prefix_of_prefix_length_le (List.prefix_append _ _) hp' (by omega)
      obtain ⟨k, hk, hmessages, hinvalid, hprefix, hsize⟩ :=
        ih hcs ((List.prefix_append_right_inj _).1 hp')
      have hcut := cut_new hc (q.map Prod.fst)
      rw [← map_fst_stream_new, ← List.map_append] at hcut
      rw [hcut]
      refine ⟨k + 1, Nat.succ_le_succ hk, ?_, hinvalid, ?_, fun j hj => ?_⟩
      · rw [List.take_succ_cons, List.map_cons, hmessages]
      · exact (List.prefix_append_right_inj _).2 hprefix
      · cases j with
        | zero => simp [size]
        | succ j =>
          rw [List.take_succ_cons, size, List.map_cons, List.sum_cons, List.length_append, hlen,
            Nat.add_le_add_iff_left, Nat.succ_le_succ_iff]
          exact hsize j (Nat.le_of_succ_le_succ hj)

/-- Handles come along with their messages. -/
theorem flatMap_snd_stream (cs : List (List UInt8 × List H)) :
    (stream cs).flatMap Prod.snd = cs.flatMap Prod.snd := by
  rw [stream, List.flatMap_assoc]
  exact List.flatMap_congr fun c _ => flatMap_snd_withHandles (Message.data_ne_nil _) _

theorem needed_map (cs : List (List UInt8 × List H)) :
    needed (cs.map fun c => (c.1, c.2.length)) = (cs.flatMap Prod.snd).length := by
  rw [needed, List.map_map, List.length_flatMap]
  rfl

/-- Messages are given back their handles. -/
theorem attach_map (cs : List (List UInt8 × List H)) (handles : List H) :
    attach (cs.map fun c => (c.1, c.2.length)) (cs.flatMap Prod.snd ++ handles) = cs := by
  induction cs with
  | nil => rfl
  | cons c cs ih =>
    rw [List.map_cons, List.flatMap_cons, List.append_assoc, attach, List.take_left,
      List.drop_left, ih]

/-- The complete messages of a part of what was written, with their handles. -/
theorem attach_prefix (hcs : ∀ c ∈ cs, FitsMessage c) {p : List (UInt8 × List H)}
    (hp : p <+: stream cs) : (cut (p.map Prod.fst)).invalid = false ∧
    needed (cut (p.map Prod.fst)).messages ≤ (p.flatMap Prod.snd).length ∧
    ∃ k ≤ cs.length, attach (cut (p.map Prod.fst)).messages (p.flatMap Prod.snd) = cs.take k ∧
      ∀ j ≤ cs.length, j ≤ k ↔ size (cs.take j) ≤ p.length := by
  obtain ⟨k, hk, hmessages, hinvalid, ⟨q, rfl⟩, hsize⟩ := cut_prefix hcs hp
  rw [List.flatMap_append, flatMap_snd_stream, hmessages, needed_map, List.length_append]
  exact ⟨hinvalid, Nat.le_add_right _ _, k, hk, attach_map _ _, hsize⟩

end Cut

/-! ## What was written stays on the wire -/

namespace Writer

variable {S : Socket} {w w' w'' : Writer H}

/-- More is on the wire, and the socket has given more answers. -/
structure Extends (w w' : Writer H) : Prop where
  wire : w.wire <+: w'.wire
  answers : w.answers <+: w'.answers
  written : w'.written = w.written

/-- The messages that are passed to `Write`. -/
def Input.messages : Input H → List (Message H)
  | .write _ m => [m]
  | .canWrite | .waitForWrite => []

theorem Extends.refl (w : Writer H) : Extends w w := ⟨List.prefix_rfl, List.prefix_rfl, rfl⟩

theorem Extends.trans (h : Extends w w') (h' : Extends w' w'') : Extends w w'' :=
  ⟨h.wire.trans h'.wire, h.answers.trans h'.answers, h'.written.trans h.written⟩

theorem Extends.of_send {bytes : List UInt8} {handles : List H} {result : SendResult}
    (h : w.send S bytes handles = some (result, w')) : Extends w w' := by
  rw [send] at h
  split_ifs at h
  obtain ⟨-, rfl⟩ := Prod.mk.inj (Option.some.inj h)
  exact ⟨List.prefix_append _ _, List.prefix_append _ _, rfl⟩

theorem Extends.of_waitForWrite (w : Writer H) (io : Bool) :
    Extends w (w.waitForWriteOnIOThreadNoLock io) := by
  obtain ⟨_, _, heq⟩ := waitForWrite_eq w io
  rw [heq]
  exact ⟨List.prefix_rfl, List.prefix_rfl, rfl⟩

theorem Extends.of_writeLoop {io : Bool} {fuel : ℕ} {v : MessageView H} {ok : Bool}
    (h : writeLoop S io fuel w v = some (ok, w')) : Extends w w' := by
  induction fuel generalizing w v with
  | zero =>
    obtain ⟨-, rfl⟩ := Prod.mk.inj (Option.some.inj h)
    exact .refl w
  | succ fuel ih =>
    rw [writeLoop] at h
    obtain ⟨⟨result, w₁⟩, hsend, h⟩ := Option.bind_eq_some_iff.1 h
    have hext := Extends.of_send hsend
    cases result with
    | error =>
      obtain ⟨-, rfl⟩ := Prod.mk.inj (Option.some.inj h)
      exact hext
    | wouldBlock =>
      obtain ⟨-, rfl⟩ := Prod.mk.inj (Option.some.inj h)
      have hwaits := Extends.of_waitForWrite { w₁ with
        outgoingMessages := w₁.outgoingMessages ++ [v.takeHandles] } io
      exact hext.trans ⟨hwaits.wire, hwaits.answers, hwaits.written⟩
    | accepted n =>
      simp only at h
      split_ifs at h
      · exact hext.trans (ih h)
      · obtain ⟨-, rfl⟩ := Prod.mk.inj (Option.some.inj h)
        exact hext

theorem Extends.of_flushLoop {vs : List (MessageView H)} {ok : Bool}
    (h : flushLoop S vs w = some (ok, w')) : Extends w w' := by
  induction vs generalizing w with
  | nil =>
    obtain ⟨-, rfl⟩ := Prod.mk.inj (Option.some.inj h)
    exact .refl w
  | cons v vs ih =>
    rw [flushLoop] at h
    obtain ⟨⟨ok₁, w₁⟩, hwrite, h⟩ := Option.bind_eq_some_iff.1 h
    have hext : Extends w w₁ := .of_writeLoop hwrite
    cases ok₁ with
    | false =>
      obtain ⟨-, rfl⟩ := Prod.mk.inj (Option.some.inj h)
      exact hext
    | true =>
      simp only [Bool.not_true, if_neg Bool.false_ne_true] at h
      cases hq : w₁.outgoingMessages with
      | nil =>
        simp only [hq] at h
        exact hext.trans (ih h)
      | cons v₁ rest =>
        simp only [hq] at h
        obtain ⟨-, rfl⟩ := Prod.mk.inj (Option.some.inj h)
        exact ⟨hext.wire, hext.answers, hext.written⟩

theorem extends_step {i : Input H} (h : w.step S i = some w') :
    w.wire <+: w'.wire ∧ w.answers <+: w'.answers ∧ w'.written = w.written ++ i.messages := by
  cases i with
  | write io m =>
    rw [Writer.step, write] at h
    simp only at h
    split_ifs at h
    · obtain rfl := Option.some.inj h
      exact ⟨List.prefix_rfl, List.prefix_rfl, rfl⟩
    · obtain ⟨⟨ok, w₁⟩, hwrite, rfl⟩ := Option.map_eq_some_iff.1 h
      have hext := Extends.of_writeLoop hwrite
      cases ok with
      | _ => exact ⟨hext.wire, hext.answers, hext.written⟩
    · obtain rfl := Option.some.inj h
      exact ⟨List.prefix_rfl, List.prefix_rfl, rfl⟩
  | canWrite =>
    obtain ⟨⟨ok, w₁⟩, hflush, rfl⟩ := Option.map_eq_some_iff.1 h
    have hext := Extends.of_flushLoop hflush
    have hwritten := hext.written.trans (List.append_nil w.written).symm
    cases ok with
    | _ => exact ⟨hext.wire, hext.answers, hwritten⟩
  | waitForWrite =>
    rw [Writer.step] at h
    split_ifs at h
    obtain rfl := Option.some.inj h
    have hext := Extends.of_waitForWrite { w with waitTasks := w.waitTasks - 1 } true
    exact ⟨hext.wire, hext.answers, hext.written.trans (List.append_nil _).symm⟩

end Writer

/-! ## The connection is a queue -/

namespace Connection

variable {S : Socket} {c c' : Connection H}

/-- What the reader has of the stream it has read a part of. -/
structure Reads (r : Reader H) (p : List (UInt8 × List H)) : Prop where
  valid : r.readBuffer.Valid
  delegate : r.delegate = true
  occupiedBytes : r.readBuffer.occupiedBytes = (cut (p.map Prod.fst)).rest
  incomingPlatformHandles : r.incomingPlatformHandles =
    (p.flatMap Prod.snd).drop (needed (cut (p.map Prod.fst)).messages)
  messages : r.messages = attach (cut (p.map Prod.fst)).messages (p.flatMap Prod.snd)

/-- What holds of a connection at any time. -/
structure Inv (c : Connection H) : Prop where
  writer : Writer.Inv id c.writer
  written : c.writer.written = c.sent.map fun m => Message.new m.1 m.2
  fits : ∀ m ∈ c.sent, FitsMessage m
  numRead : c.numRead ≤ c.writer.wire.length
  reader : (true, .wouldBlock) ∉ c.writer.answers →
    c.failed = false ∧ Reads c.reader (c.writer.wire.take c.numRead)

theorem reads_init : Reads ({} : Reader H) [] := by
  have hcut : cut [] = ⟨[], [], false⟩ := cut_of_short (by decide)
  refine ⟨ReadBuffer.valid_new, rfl, ?_, ?_, ?_⟩
  all_goals rw [List.map_nil, hcut]
  · rfl
  · rfl
  · rfl

theorem inv_init : Inv ({} : Connection H) :=
  ⟨Writer.inv_init, rfl, by simp, le_rfl, fun _ => ⟨rfl, reads_init⟩⟩

/-- The wire is a part of what was written. -/
theorem Inv.prefix_stream (hc : Inv c) (hblock : (true, .wouldBlock) ∉ c.writer.answers) :
    c.writer.wire <+: stream c.sent := by
  have hwire := hc.writer.wire fun hmem => absurd hmem hblock
  rw [List.map_id, List.map_id, hc.written, List.flatMap_map] at hwire
  exact hwire

/-- What is written is read later. -/
theorem Inv.extend (hc : Inv c) {i : Writer.Input H} {writer : Writer H}
    (h : c.writer.step S i = some writer) (sent : List (List UInt8 × List H))
    (hmessages : i.messages = sent.map fun m => Message.new m.1 m.2)
    (hfits : ∀ m ∈ sent, FitsMessage m) :
    Inv { c with writer := writer, sent := c.sent ++ sent } := by
  obtain ⟨hwire, hanswers, hwritten⟩ := Writer.extends_step h
  refine ⟨hc.writer.step h, ?_, ?_, hc.numRead.trans hwire.length_le, fun hblock => ?_⟩
  · rw [hwritten, hc.written, hmessages, List.map_append]
  · exact List.forall_mem_append.2 ⟨hc.fits, hfits⟩
  · obtain ⟨hfailed, hreads⟩ := hc.reader fun hmem => hblock (hanswers.subset hmem)
    refine ⟨hfailed, ?_⟩
    obtain ⟨rest, hrest⟩ := hwire
    simp only [← hrest]
    rwa [List.take_append_of_le_length hc.numRead]

/-- What comes next is read, as long as its headers are valid and its handles arrive. -/
theorem Reads.read {r : Reader H} {p q : List (UInt8 × List H)} (hr : Reads r p)
    (hinvalid : ∀ l, l <+: p ++ q → (cut (l.map Prod.fst)).invalid = false ∧
      needed (cut (l.map Prod.fst)).messages ≤ (l.flatMap Prod.snd).length)
    {bufferCapacity : ℕ} (hfits : q.length ≤ requiredCapacity bufferCapacity) (hint : ℕ) :
    ∃ r' hint', r.read ⟨bufferCapacity, q.map Prod.fst, q.flatMap Prod.snd⟩ hint =
      some (r', true, hint') ∧ Reads r' (p ++ q) := by
  obtain ⟨hp, hneeded⟩ := hinvalid p (List.prefix_append p q)
  obtain ⟨hpq, hneeded'⟩ := hinvalid (p ++ q) List.prefix_rfl
  rw [List.map_append] at hpq hneeded'
  rw [List.flatMap_append, List.length_append] at hneeded'
  obtain ⟨hmessages, hrest, hinv⟩ := cut_append (p.map Prod.fst) (q.map Prod.fst) hp
  rw [hmessages, needed_append] at hneeded'
  have hhandles : needed (cut (r.readBuffer.occupiedBytes ++ q.map Prod.fst)).messages ≤
      (r.incomingPlatformHandles ++ q.flatMap Prod.snd).length := by
    rw [hr.occupiedBytes, hr.incomingPlatformHandles, List.length_append, List.length_drop]
    omega
  obtain ⟨r', hint', hread, hv', hd', hocc', hin', hmsg'⟩ :=
    Reader.read_eq (d := ⟨bufferCapacity, q.map Prod.fst, q.flatMap Prod.snd⟩) hr.valid hr.delegate
      ((List.length_map _).trans_le hfits) hhandles hint
  simp only [hr.occupiedBytes, hr.incomingPlatformHandles, ← hinv, ← hrest, hpq]
    at hread hocc' hin' hmsg'
  refine ⟨r', hint', hread, hv', hd', ?_, ?_, ?_⟩
  · rw [hocc', List.map_append]
  · rw [hin', ← List.drop_append_of_le_length hneeded, ← List.flatMap_append, List.drop_drop,
      ← needed_append, ← hmessages, List.map_append]
  · -- Handles that were left go to the messages that are complete now.
    rw [hmsg', hr.messages, ← List.drop_append_of_le_length hneeded, List.map_append, hmessages,
      attach_append, List.flatMap_append, attach_of_le hneeded]

theorem Inv.read (hc : Inv c) {bufferCapacity numBytes : ℕ}
    (hle : c.numRead + numBytes ≤ c.writer.wire.length)
    (hfits : numBytes ≤ requiredCapacity bufferCapacity) {reader : Reader H} {ok : Bool} {hint : ℕ}
    (h : c.reader.read (c.recvmsg bufferCapacity numBytes) 0 = some (reader, ok, hint)) :
    Inv { c with reader := reader, numRead := c.numRead + numBytes, failed := !ok } := by
  refine ⟨hc.writer, hc.written, hc.fits, hle, fun hblock => ?_⟩
  obtain ⟨-, hreads⟩ := hc.reader hblock
  have htake : c.writer.wire.take (c.numRead + numBytes) =
      c.writer.wire.take c.numRead ++ c.writer.wire.slice c.numRead numBytes := List.take_add
  have hlen : (c.writer.wire.slice c.numRead numBytes).length ≤ requiredCapacity bufferCapacity :=
    (List.length_slice hle).trans_le hfits
  obtain ⟨r', hint', hread, hreads'⟩ := hreads.read (fun l hl => by
    rw [← htake] at hl
    obtain ⟨hinvalid, hneeded, -⟩ := attach_prefix hc.fits
      (hl.trans ((List.take_prefix _ _).trans (hc.prefix_stream hblock)))
    exact ⟨hinvalid, hneeded⟩) hlen 0
  rw [recvmsg, hread] at h
  obtain ⟨rfl, hresult⟩ := Prod.mk.inj (Option.some.inj h)
  obtain ⟨rfl, -⟩ := Prod.mk.inj hresult
  exact ⟨rfl, htake ▸ hreads'⟩

theorem Inv.step {i : Input H} (hc : Inv c) (hG : c.Fits i) (h : c.step S i = some c') :
    Inv c' := by
  cases i with
  | write io payload handles =>
    obtain ⟨writer, hw, rfl⟩ := Option.map_eq_some_iff.1 h
    exact hc.extend hw [(payload, handles)] rfl (List.forall_mem_singleton.2 hG)
  | canWrite =>
    obtain ⟨writer, hw, rfl⟩ := Option.map_eq_some_iff.1 h
    simpa using hc.extend hw [] rfl (by simp)
  | waitForWrite =>
    obtain ⟨writer, hw, rfl⟩ := Option.map_eq_some_iff.1 h
    simpa using hc.extend hw [] rfl (by simp)
  | read bufferCapacity numBytes =>
    rw [Connection.step] at h
    split_ifs at h with hcan
    obtain ⟨⟨reader, ok, hint⟩, hread, rfl⟩ := Option.map_eq_some_iff.1 h
    simp only [not_or, not_lt] at hcan
    exact hc.read hcan.2.2.1 hcan.2.2.2 hread

theorem inv_of_reachable (h : (machine S H).Reachable Fits c) : Inv c :=
  h.invariant inv_init fun hc hG hstep => hc.step hG hstep

/-- The first ones of the messages written are dispatched, those whose last byte was read. -/
theorem Inv.messages_eq (hc : Inv c) (hblock : (true, .wouldBlock) ∉ c.writer.answers) :
    ∃ k ≤ c.sent.length, c.reader.messages = c.sent.take k ∧
      ∀ j ≤ c.sent.length, j ≤ k ↔ size (c.sent.take j) ≤ c.numRead := by
  obtain ⟨-, hreads⟩ := hc.reader hblock
  obtain ⟨-, -, k, hk, hattach, hsize⟩ :=
    attach_prefix hc.fits ((List.take_prefix c.numRead _).trans (hc.prefix_stream hblock))
  rw [List.length_take, min_eq_left hc.numRead] at hsize
  exact ⟨k, hk, hreads.messages.trans hattach, hsize⟩

/-- If the messages written fit (`Connection.Fits`), and as long as no call that passes
    handles is answered by `EAGAIN`, the reader does not fail, and the messages that it
    dispatches are those written, in order, with their handles. It has dispatched a message
    exactly if it has read the last byte of it. If everything was sent and read, then these
    are all messages. -/
theorem fifo (h : (machine S H).Reachable Fits c)
    (hblock : (true, .wouldBlock) ∉ c.writer.answers) :
    c.failed = false ∧ c.reader.messages <+: c.sent ∧
      (∀ k ≤ c.sent.length, k ≤ c.reader.messages.length ↔ size (c.sent.take k) ≤ c.numRead) ∧
      ((∀ b, (b, .error) ∉ c.writer.answers) → c.writer.outgoingMessages = [] →
        c.numRead = c.writer.wire.length → c.reader.messages = c.sent) := by
  have hc := inv_of_reachable h
  obtain ⟨k, hk, hmessages, hsize⟩ := hc.messages_eq hblock
  have hlen : c.reader.messages.length = k := by
    rw [hmessages, List.length_take, min_eq_left hk]
  refine ⟨(hc.reader hblock).1, hmessages ▸ List.take_prefix _ _, hlen.symm ▸ hsize,
    fun herror hout hread => ?_⟩
  -- Everything that was to be sent is on the wire.
  have hstream := hc.writer.stream (fun hmem => absurd hmem hblock)
    (hc.writer.rejectWrites_eq_false herror)
  rw [List.map_id, List.map_id, hout, List.flatMap_nil, List.append_nil, hc.written,
    List.flatMap_map] at hstream
  have hall : c.sent.length ≤ k := (hsize _ le_rfl).2 (by
    rw [List.take_length, ← length_stream, hread, hstream]
    exact le_rfl)
  rw [hmessages]
  exact List.take_of_length_le hall

/-- A message with a handle, sent in two parts and read in two others, and a second message,
    which is sent and not read. -/
theorem fifo_parts : ∃ c : Connection ℕ, ((machine Writer.slowSocket ℕ).Reachable Fits c ∧
    (true, .wouldBlock) ∉ c.writer.answers) ∧ c.sent = [([42], [7]), ([], [])] ∧
    c.reader.messages <+: c.sent ∧
    ∀ k ≤ c.sent.length, k ≤ c.reader.messages.length ↔ size (c.sent.take k) ≤ c.numRead := by
  obtain ⟨c, hc, hblock, hsent⟩ := Machine.exists_reachable (M := machine Writer.slowSocket ℕ)
    (G := Fits)
    (P := fun c => (true, .wouldBlock) ∉ c.writer.answers ∧ c.sent = [([42], [7]), ([], [])])
    [.write true [42] [7], .write true [] [], .read 0 2, .canWrite, .read 0 7] (by decide +kernel)
  obtain ⟨-, hprefix, hexact, -⟩ := fifo hc hblock
  exact ⟨c, ⟨hc, hblock⟩, hsent, hprefix, hexact⟩

end Connection

end MojoEdk.Channel
