import MojoEdk.Library.Machine
import Mathlib.Data.List.Infix
import Mathlib.Data.List.Flatten
import Mathlib.Tactic.Common

/-!
# Writing to a channel

How a channel passes its messages to a socket that may accept only a part of what is
written, or nothing (`channel_posix.cc`). What is not accepted is queued until the
socket is writable.

A socket answers as an arbitrary function of the number of calls made before, and of
whether handles are passed. What it accepts, with the handles that come along, is
recorded on the `wire`, and so are its answers and the messages passed to `Write`.

* `Writer.outgoing_stream`: nothing is lost, repeated or reordered, and the channel
  waits for the socket when there is something to write.
* `Writer.handles_transmitted`: handles go along with the first byte of their message.
  This fails when a call that passes handles would block, as they are not passed again
  (`Writer.handles_lost`).
-/

namespace MojoEdk.Channel

/-! ## The socket -/

/-- What a call to write to a socket returns: the number of bytes accepted, less one,
    or `EAGAIN`, or another error. -/
inductive SendResult
  | accepted (n : ℕ)
  | wouldBlock
  | error
  deriving DecidableEq

/-- A socket. Its answers depend on the number of calls, and on whether handles are
    passed. -/
structure Socket where
  kPlatformChannelMaxNumHandles : ℕ
  send : ℕ → Bool → SendResult

/-! ## Messages -/

/-- `Channel::Message`, with its header. -/
structure Message (H : Type*) where
  data : List UInt8
  handles : List H
  data_ne_nil : data ≠ []

/-- `MessageView`: a message, part of which may have been sent. -/
structure MessageView (H : Type*) where
  message : List UInt8
  offset : ℕ
  handles : List H
  offset_lt : offset < message.length

variable {H : Type*}

/-- Bytes that are sent at once, with the handles that go along with the first. -/
def withHandles : List UInt8 → List H → List (UInt8 × List H)
  | [], _ => []
  | b :: bytes, handles => (b, handles) :: bytes.map fun b => (b, [])

namespace MessageView

/-- The constructor `MessageView`. -/
def ofMessage (m : Message H) : MessageView H where
  message := m.data
  offset := 0
  handles := m.handles
  offset_lt := List.length_pos_iff.2 m.data_ne_nil

/-- `data`. -/
def data (v : MessageView H) : List UInt8 := v.message.drop v.offset

/-- `data_num_bytes`. -/
def dataNumBytes (v : MessageView H) : ℕ := v.message.length - v.offset

/-- `advance_data_offset`, which asserts that something is left. -/
def advanceDataOffset (v : MessageView H) (numBytes : ℕ) (h : numBytes < v.dataNumBytes) :
    MessageView H where
  message := v.message
  offset := v.offset + numBytes
  handles := v.handles
  offset_lt := by
    rw [dataNumBytes] at h
    omega

/-- `TakeHandles`. -/
def takeHandles (v : MessageView H) : MessageView H := { v with handles := [] }

/-- What is to be sent of a view. -/
def stream (v : MessageView H) : List (UInt8 × List H) := withHandles v.data v.handles

end MessageView

/-- What is to be sent of a message. -/
def Message.stream (m : Message H) : List (UInt8 × List H) := withHandles m.data m.handles

/-! ## The channel -/

/-- What `ChannelPosix` writes, and what it has written. -/
structure Writer (H : Type*) where
  outgoingMessages : List (MessageView H) := []
  pendingWrite : Bool := false
  rejectWrites : Bool := false
  /-- There is a `write_watcher_`: the channel is started and not shut down. -/
  writeWatcher : Bool := true
  /-- The tasks `WaitForWriteOnIOThread` that are posted. -/
  waitTasks : ℕ := 0
  /-- The calls of `OnError`, posted or made. -/
  errors : ℕ := 0
  /-- The bytes that the socket accepted. -/
  wire : List (UInt8 × List H) := []
  /-- The calls to the socket, whether handles were passed, and its answers. -/
  answers : List (Bool × SendResult) := []
  /-- The messages passed to `Write`. -/
  written : List (Message H) := []

namespace Writer

variable (S : Socket) (w : Writer H)

/-- `WaitForWriteOnIOThreadNoLock`, on the IO thread or another one. -/
def waitForWriteOnIOThreadNoLock (io : Bool) : Writer H :=
  if w.pendingWrite then w
  else if !w.writeWatcher then w
  else if io then { w with pendingWrite := true }
  else { w with waitTasks := w.waitTasks + 1 }

/-- `PlatformChannelSendmsgWithHandles` if there are handles and `PlatformChannelWrite`
    otherwise. The former asserts that there are not too many: no state comes after a message
    with more handles than that. -/
def send (bytes : List UInt8) (handles : List H) : Option (SendResult × Writer H) :=
  if S.kPlatformChannelMaxNumHandles < handles.length then none
  else
    let result := S.send w.answers.length !handles.isEmpty
    let accepted := match result with
      | .accepted n => bytes.take (n + 1)
      | .wouldBlock | .error => []
    some (result, { w with
      wire := w.wire ++ withHandles accepted handles
      answers := w.answers ++ [(!handles.isEmpty, result)] })

/-- The loop of `WriteNoLock`, which writes one byte at least in every iteration. -/
def writeLoop (io : Bool) : ℕ → Writer H → MessageView H → Option (Bool × Writer H)
  | 0, w, _ => some (true, w)
  | fuel + 1, w, v => (w.send S v.data v.handles).bind fun (result, w) =>
    match result with
    | .error => some (false, w)
    | .wouldBlock =>
      let w := { w with outgoingMessages := w.outgoingMessages ++ [v.takeHandles] }
      some (true, w.waitForWriteOnIOThreadNoLock io)
    | .accepted n =>
      if h : n + 1 < v.takeHandles.dataNumBytes then
        writeLoop io fuel w (v.takeHandles.advanceDataOffset (n + 1) h)
      else some (true, w)

/-- `WriteNoLock`. -/
def writeNoLock (io : Bool) (v : MessageView H) : Option (Bool × Writer H) :=
  writeLoop S io v.dataNumBytes w v

/-- `Write`. -/
def write (io : Bool) (m : Message H) : Option (Writer H) :=
  let w := { w with written := w.written ++ [m] }
  if w.rejectWrites then some w
  else if w.outgoingMessages.isEmpty then
    (w.writeNoLock S io (.ofMessage m)).map fun (ok, w) =>
      if ok then w else { w with rejectWrites := true, errors := w.errors + 1 }
  else some { w with outgoingMessages := w.outgoingMessages ++ [.ofMessage m] }

/-- The loop of `FlushOutgoingMessagesNoLock`, over the messages that were queued. -/
def flushLoop : List (MessageView H) → Writer H → Option (Bool × Writer H)
  | [], w => some (true, w)
  | v :: messages, w => (w.writeNoLock S true v).bind fun (ok, w) =>
    if !ok then some (false, w)
    else match w.outgoingMessages with
      | [] => flushLoop messages w
      | v :: _ => some (true, { w with outgoingMessages := v :: messages })

/-- `FlushOutgoingMessagesNoLock`. -/
def flushOutgoingMessagesNoLock : Option (Bool × Writer H) :=
  flushLoop S w.outgoingMessages { w with outgoingMessages := [] }

/-- `OnFileCanWriteWithoutBlocking`. -/
def onFileCanWriteWithoutBlocking : Option (Writer H) :=
  let w := { w with pendingWrite := false }
  (w.flushOutgoingMessagesNoLock S).map fun (ok, w) =>
    if ok then w else { w with rejectWrites := true, errors := w.errors + 1 }

/-- What happens to a channel. -/
inductive Input (H : Type*)
  /-- `Write`, on the IO thread or another one. -/
  | write (io : Bool) (m : Message H)
  /-- The socket is writable. -/
  | canWrite
  /-- A task `WaitForWriteOnIOThread` that was posted. -/
  | waitForWrite

def step : Input H → Option (Writer H)
  | .write io m => w.write S io m
  | .canWrite => w.onFileCanWriteWithoutBlocking S
  | .waitForWrite =>
    if w.waitTasks = 0 then none
    else
      let w := { w with waitTasks := w.waitTasks - 1 }
      some (w.waitForWriteOnIOThreadNoLock true)

/-- A channel that is started, with nothing written. -/
def machine (S : Socket) (H : Type*) : Machine (Writer H) (Input H) where
  init := {}
  step := step S

/-! ## What is sent -/

end Writer

section Stream

variable {β : Type*} {f : UInt8 × List H → β}

theorem map_fst_withHandles (bytes : List UInt8) (handles : List H) :
    (withHandles bytes handles).map Prod.fst = bytes := by
  cases bytes with
  | nil => rfl
  | cons b bytes =>
    rw [withHandles, List.map_cons, List.map_map]
    exact congrArg (b :: ·) (List.map_id bytes)

theorem withHandles_nil (bytes : List UInt8) :
    withHandles bytes ([] : List H) = bytes.map fun b => (b, []) := by
  cases bytes with
  | nil => rfl
  | cons => rfl

/-- Handles go along with the first part. -/
theorem withHandles_append {first : List UInt8} (hne : first ≠ []) (rest : List UInt8)
    (handles : List H) :
    withHandles (first ++ rest) handles = withHandles first handles ++ withHandles rest [] := by
  obtain ⟨b, bytes, rfl⟩ := List.exists_cons_of_ne_nil hne
  rw [List.cons_append, withHandles, withHandles, withHandles_nil, List.map_append,
    List.cons_append]

/-- If handles were lost, then `f` does not tell whether there are any. -/
def Blind (f : UInt8 × List H → β) (answers : List (Bool × SendResult)) : Prop :=
  (true, .wouldBlock) ∈ answers → ∀ b handles, f (b, handles) = f (b, [])

theorem blind_fst (answers : List (Bool × SendResult)) :
    Blind (Prod.fst : UInt8 × List H → UInt8) answers := fun _ _ _ => rfl

theorem Blind.mono {answers answers' : List (Bool × SendResult)} (h : Blind f answers')
    (hsub : answers <+: answers') : Blind f answers := fun hmem => h (hsub.subset hmem)

theorem map_withHandles (h : ∀ b handles, f (b, handles) = f (b, [])) (bytes : List UInt8)
    (handles : List H) : (withHandles bytes []).map f = (withHandles bytes handles).map f := by
  cases bytes with
  | nil => rfl
  | cons b bytes => rw [withHandles, withHandles, List.map_cons, List.map_cons, h b handles]

namespace MessageView

variable (v : MessageView H)

theorem length_data : v.data.length = v.dataNumBytes := List.length_drop

theorem dataNumBytes_pos : 0 < v.dataNumBytes := Nat.sub_pos_of_lt v.offset_lt

theorem dataNumBytes_advance {n : ℕ} (h : n < v.takeHandles.dataNumBytes) :
    (v.takeHandles.advanceDataOffset n h).dataNumBytes = v.dataNumBytes - n :=
  Nat.sub_add_eq _ _ _

/-- What is left of a view after the first bytes. -/
theorem stream_advance {n : ℕ} (h : n < v.takeHandles.dataNumBytes) (hn : n ≠ 0) :
    withHandles (v.data.take n) v.handles ++ (v.takeHandles.advanceDataOffset n h).stream =
      v.stream := by
  have hne : v.data.take n ≠ [] := by
    rw [Ne, List.take_eq_nil_iff, not_or, ← List.length_eq_zero_iff, length_data]
    exact ⟨hn, v.dataNumBytes_pos.ne'⟩
  have hdrop : (v.takeHandles.advanceDataOffset n h).data = v.data.drop n := by
    rw [data, data, List.drop_drop]
    rfl
  rw [stream, hdrop, stream]
  conv_rhs => rw [← List.take_append_drop n v.data]
  exact (withHandles_append hne _ _).symm

theorem stream_ofMessage (m : Message H) : (ofMessage m).stream = m.stream := rfl

end MessageView

end Stream

namespace Writer

variable {S : Socket} {w w' : Writer H} {β : Type*} {f : UInt8 × List H → β}

theorem waits_waitForWrite (io : Bool) (h : w.writeWatcher = true) :
    (w.waitForWriteOnIOThreadNoLock io).pendingWrite = true ∨
      0 < (w.waitForWriteOnIOThreadNoLock io).waitTasks := by
  rw [waitForWriteOnIOThreadNoLock, h]
  cases hp : w.pendingWrite with
  | true => exact .inl hp
  | false =>
    cases io with
    | true => exact .inl rfl
    | false => exact .inr (Nat.succ_pos _)

/-- To wait is all that changes. -/
theorem waitForWrite_eq (w : Writer H) (io : Bool) : ∃ pending tasks,
    w.waitForWriteOnIOThreadNoLock io =
      { w with pendingWrite := pending, waitTasks := tasks } := by
  rw [waitForWriteOnIOThreadNoLock]
  split_ifs
  · exact ⟨_, _, rfl⟩
  · exact ⟨_, _, rfl⟩
  · exact ⟨_, _, rfl⟩
  · exact ⟨_, _, rfl⟩

/-- What it means to send views, one after the other, from a state on in which nothing
    is queued: up to what `f` tells, they are on the wire or queued, and if an error
    occurs, then a part of them is on the wire. -/
structure Sends (f : UInt8 × List H → β) (vs : List (MessageView H)) (w : Writer H)
    (ok : Bool) (w' : Writer H) : Prop where
  written : w'.written = w.written
  rejectWrites : w'.rejectWrites = w.rejectWrites
  writeWatcher : w'.writeWatcher = w.writeWatcher
  answers : w.answers <+: w'.answers
  failed : ok = false → w'.outgoingMessages = [] ∧ ∃ b, (b, .error) ∈ w'.answers
  stream : Blind f w'.answers → ok = true →
    (w'.wire ++ w'.outgoingMessages.flatMap (·.stream)).map f =
      (w.wire ++ vs.flatMap (·.stream)).map f
  wire : Blind f w'.answers → w'.wire.map f <+: (w.wire ++ vs.flatMap (·.stream)).map f
  waits : w'.outgoingMessages ≠ [] → w'.pendingWrite = true ∨ 0 < w'.waitTasks

theorem Sends.nil (h : w.outgoingMessages = []) : Sends f [] w true w where
  written := rfl
  rejectWrites := rfl
  writeWatcher := rfl
  answers := List.prefix_rfl
  failed := fun hok => by cases hok
  stream := fun _ _ => by rw [h]
  wire := fun _ => by rw [List.flatMap_nil, List.append_nil]
  waits := fun hne => absurd h hne

/-- First one view, then others. -/
theorem Sends.cons {v : MessageView H} {vs : List (MessageView H)} {w₁ : Writer H} {ok : Bool}
    (h₁ : Sends f [v] w true w₁) (hw₁ : w₁.outgoingMessages = []) (h : Sends f vs w₁ ok w') :
    Sends f (v :: vs) w ok w' := by
  have hfirst (hb : Blind f w'.answers) : (w₁.wire ++ vs.flatMap (·.stream)).map f =
      (w.wire ++ (v :: vs).flatMap (·.stream)).map f := by
    have := h₁.stream (hb.mono h.answers) rfl
    rw [hw₁, List.flatMap_nil, List.append_nil, List.flatMap_singleton] at this
    rw [List.map_append, this, ← List.map_append, List.flatMap_cons, List.append_assoc]
  exact {
    written := h.written.trans h₁.written
    rejectWrites := h.rejectWrites.trans h₁.rejectWrites
    writeWatcher := h.writeWatcher.trans h₁.writeWatcher
    answers := h₁.answers.trans h.answers
    failed := h.failed
    stream := fun hb hok => (h.stream hb hok).trans (hfirst hb)
    wire := fun hb => hfirst hb ▸ h.wire hb
    waits := h.waits }

/-- A view that is queued again is put before those that were not sent. -/
theorem Sends.requeue {v v₁ : MessageView H} {vs : List (MessageView H)} {w₁ : Writer H}
    (h₁ : Sends f [v] w true w₁) (hw₁ : w₁.outgoingMessages = [v₁]) :
    Sends f (v :: vs) w true { w₁ with outgoingMessages := v₁ :: vs } := by
  have hstream (hb : Blind f w₁.answers) : (w₁.wire ++ (v₁ :: vs).flatMap (·.stream)).map f =
      (w.wire ++ (v :: vs).flatMap (·.stream)).map f := by
    have := h₁.stream hb rfl
    rw [hw₁, List.flatMap_singleton, List.flatMap_singleton] at this
    rw [List.flatMap_cons, List.flatMap_cons, ← List.append_assoc, ← List.append_assoc,
      List.map_append, this, ← List.map_append]
  exact {
    written := h₁.written
    rejectWrites := h₁.rejectWrites
    writeWatcher := h₁.writeWatcher
    answers := h₁.answers
    failed := fun hok => by cases hok
    stream := fun hb _ => hstream hb
    wire := fun hb => by
      rw [← hstream hb, List.map_append]
      exact List.prefix_append _ _
    waits := fun _ => h₁.waits (by rw [hw₁]; exact List.cons_ne_nil _ _) }

/-- A view that would block is queued, without its handles. -/
theorem sends_wouldBlock {v : MessageView H} (io : Bool)
    (hwatch : w.writeWatcher = true) :
    Sends f [v] w true (waitForWriteOnIOThreadNoLock { w with
      answers := w.answers ++ [(!v.handles.isEmpty, .wouldBlock)]
      outgoingMessages := [v.takeHandles] } io) := by
  have hwaits := waits_waitForWrite (w := { w with
    answers := w.answers ++ [(!v.handles.isEmpty, .wouldBlock)]
    outgoingMessages := [v.takeHandles] }) io hwatch
  obtain ⟨pending, tasks, h⟩ := waitForWrite_eq { w with
    answers := w.answers ++ [(!v.handles.isEmpty, .wouldBlock)]
    outgoingMessages := [v.takeHandles] } io
  rw [h] at hwaits ⊢
  have hstream (hb : Blind f (w.answers ++ [(!v.handles.isEmpty, .wouldBlock)])) :
      v.takeHandles.stream.map f = v.stream.map f := by
    cases hh : v.handles with
    | nil => rw [MessageView.stream, MessageView.stream, hh]; rfl
    | cons _ _ =>
      -- The handles are lost, so that `f` cannot tell.
      refine map_withHandles (hb ?_) v.data v.handles
      rw [hh]
      exact List.mem_append_right _ List.mem_cons_self
  exact {
    written := rfl
    rejectWrites := rfl
    writeWatcher := rfl
    answers := List.prefix_append _ _
    failed := fun hok => by cases hok
    stream := fun hb _ => by
      rw [List.flatMap_singleton, List.flatMap_singleton, List.map_append, List.map_append,
        hstream hb]
    wire := fun _ => by
      rw [List.map_append]
      exact List.prefix_append _ _
    waits := fun _ => hwaits }

/-- What is sent of a view before the rest of it. -/
theorem Sends.advance {v v₁ : MessageView H} {ok : Bool} {bytes : List (UInt8 × List H)}
    {answer : Bool × SendResult} (hv : bytes ++ v₁.stream = v.stream)
    (h : Sends f [v₁] { w with wire := w.wire ++ bytes, answers := w.answers ++ [answer] } ok w') :
    Sends f [v] w ok w' := by
  have hstream : w.wire ++ bytes ++ [v₁].flatMap (·.stream) =
      w.wire ++ [v].flatMap (·.stream) := by
    rw [List.flatMap_singleton, List.flatMap_singleton, List.append_assoc, hv]
  exact {
    written := h.written
    rejectWrites := h.rejectWrites
    writeWatcher := h.writeWatcher
    answers := (List.prefix_append _ _).trans h.answers
    failed := h.failed
    stream := fun hb hok => hstream ▸ h.stream hb hok
    wire := fun hb => hstream ▸ h.wire hb
    waits := h.waits }

theorem sends_writeLoop (io : Bool) {fuel : ℕ} {v : MessageView H} {ok : Bool}
    (hfuel : v.dataNumBytes ≤ fuel) (hout : w.outgoingMessages = [])
    (hwatch : w.writeWatcher = true) (h : writeLoop S io fuel w v = some (ok, w')) :
    Sends f [v] w ok w' ∧ w'.outgoingMessages.length ≤ 1 := by
  induction fuel generalizing w v with
  | zero => exact absurd hfuel v.dataNumBytes_pos.not_ge
  | succ fuel ih =>
    rw [writeLoop] at h
    obtain ⟨⟨result, w₁⟩, hsend, h⟩ := Option.bind_eq_some_iff.1 h
    rw [send] at hsend
    split_ifs at hsend
    obtain ⟨hresult, rfl⟩ := Prod.mk.inj (Option.some.inj hsend)
    rw [hresult] at h
    cases result with
    | error =>
      obtain ⟨rfl, rfl⟩ := Prod.mk.inj (Option.some.inj h)
      refine ⟨⟨rfl, rfl, rfl, List.prefix_append _ _, fun _ => ⟨hout, ?_⟩, ?_, ?_, ?_⟩, ?_⟩
      · exact ⟨_, List.mem_append_right _ List.mem_cons_self⟩
      · exact fun _ hok => by cases hok
      · intro _
        rw [withHandles, List.append_nil, List.map_append]
        exact List.prefix_append _ _
      · exact fun hne => absurd hout hne
      · exact hout ▸ Nat.zero_le 1
    | wouldBlock =>
      obtain ⟨rfl, rfl⟩ := Prod.mk.inj (Option.some.inj h)
      rw [withHandles, List.append_nil, hout, List.nil_append]
      refine ⟨sends_wouldBlock io hwatch, ?_⟩
      obtain ⟨_, _, hw⟩ := waitForWrite_eq { w with
        answers := w.answers ++ [(!v.handles.isEmpty, .wouldBlock)]
        outgoingMessages := [v.takeHandles] } io
      rw [hw]
      exact le_rfl
    | accepted n =>
      simp only at h
      split_ifs at h with hlt
      · -- A part was accepted: the loop goes on with the rest.
        have hfuel₁ : (v.takeHandles.advanceDataOffset (n + 1) hlt).dataNumBytes ≤ fuel := by
          rw [MessageView.dataNumBytes_advance]
          omega
        obtain ⟨hsends, hlen⟩ := ih hfuel₁ (by exact hout) (by exact hwatch) h
        exact ⟨hsends.advance (v.stream_advance hlt (Nat.succ_ne_zero n)), hlen⟩
      · obtain ⟨rfl, rfl⟩ := Prod.mk.inj (Option.some.inj h)
        have htake : v.data.take (n + 1) = v.data :=
          List.take_of_length_le (v.length_data.trans_le (Nat.le_of_not_lt hlt))
        rw [htake]
        refine ⟨⟨rfl, rfl, rfl, List.prefix_append _ _, ?_, ?_, ?_, ?_⟩, ?_⟩
        · exact fun hok => by cases hok
        · intro _ _
          rw [hout, List.flatMap_nil, List.append_nil, List.flatMap_singleton]
          rfl
        · intro _
          rw [List.flatMap_singleton]
          exact List.prefix_rfl
        · exact fun hne => absurd hout hne
        · exact hout ▸ Nat.zero_le 1

theorem sends_writeNoLock {io : Bool} {v : MessageView H} {ok : Bool}
    (hout : w.outgoingMessages = []) (hwatch : w.writeWatcher = true)
    (h : w.writeNoLock S io v = some (ok, w')) :
    Sends f [v] w ok w' ∧ w'.outgoingMessages.length ≤ 1 :=
  sends_writeLoop io le_rfl hout hwatch h

theorem sends_flushLoop {vs : List (MessageView H)} {ok : Bool} (hout : w.outgoingMessages = [])
    (hwatch : w.writeWatcher = true) (h : flushLoop S vs w = some (ok, w')) :
    Sends f vs w ok w' := by
  induction vs generalizing w with
  | nil =>
    obtain ⟨rfl, rfl⟩ := Prod.mk.inj (Option.some.inj h)
    exact .nil hout
  | cons v vs ih =>
    rw [flushLoop] at h
    obtain ⟨⟨ok₁, w₁⟩, hwrite, h⟩ := Option.bind_eq_some_iff.1 h
    obtain ⟨hsends, hlen⟩ := sends_writeNoLock (f := f) hout hwatch hwrite
    cases ok₁ with
    | false =>
      -- What was to be sent after the view is dropped.
      obtain ⟨rfl, rfl⟩ := Prod.mk.inj (Option.some.inj h)
      refine ⟨hsends.written, hsends.rejectWrites, hsends.writeWatcher, hsends.answers,
        hsends.failed, ?_, ?_, hsends.waits⟩
      · exact fun _ hok => by cases hok
      · intro hb
        refine (hsends.wire hb).trans ?_
        rw [List.flatMap_singleton, List.flatMap_cons, ← List.append_assoc]
        exact (List.prefix_append _ _).map f
    | true =>
      simp only [Bool.not_true, if_neg Bool.false_ne_true] at h
      cases hq : w₁.outgoingMessages with
      | nil =>
        simp only [hq] at h
        exact hsends.cons hq (ih hq (hsends.writeWatcher.trans hwatch) h)
      | cons v₁ rest =>
        rw [hq, List.length_cons] at hlen
        obtain rfl : rest = [] := List.length_eq_zero_iff.1 (by omega)
        simp only [hq] at h
        obtain ⟨rfl, rfl⟩ := Prod.mk.inj (Option.some.inj h)
        exact hsends.requeue hq

/-! ## Runs -/

/-- What holds of a channel at any time. -/
structure Inv (f : UInt8 × List H → β) (w : Writer H) : Prop where
  writeWatcher : w.writeWatcher = true
  rejected : w.rejectWrites = true → w.outgoingMessages = [] ∧ ∃ b, (b, .error) ∈ w.answers
  stream : Blind f w.answers → w.rejectWrites = false →
    (w.wire ++ w.outgoingMessages.flatMap (·.stream)).map f =
      (w.written.flatMap (·.stream)).map f
  wire : Blind f w.answers → w.wire.map f <+: (w.written.flatMap (·.stream)).map f
  waits : w.outgoingMessages ≠ [] → w.pendingWrite = true ∨ 0 < w.waitTasks

theorem inv_init : Inv f ({} : Writer H) where
  writeWatcher := rfl
  rejected := fun h => by cases h
  stream := fun _ _ => rfl
  wire := fun _ => List.nil_prefix
  waits := fun h => absurd rfl h

/-- The views that are to be sent are sent. -/
theorem Sends.inv {vs : List (MessageView H)} {ok : Bool} (h : Sends f vs w ok w')
    (hwatch : w.writeWatcher = true) (hr : w.rejectWrites = false)
    (hstream : Blind f w.answers →
      (w.wire ++ vs.flatMap (·.stream)).map f = (w.written.flatMap (·.stream)).map f) :
    Inv f (if ok then w' else { w' with rejectWrites := true, errors := w'.errors + 1 }) := by
  have hwire (hb : Blind f w'.answers) :
      w'.wire.map f <+: (w'.written.flatMap (·.stream)).map f := by
    rw [h.written, ← hstream (hb.mono h.answers)]
    exact h.wire hb
  cases ok with
  | false =>
    obtain ⟨hout, herror⟩ := h.failed rfl
    exact {
      writeWatcher := h.writeWatcher.trans hwatch
      rejected := fun _ => ⟨hout, herror⟩
      stream := fun _ hr => by cases hr
      wire := hwire
      waits := fun hne => absurd hout hne }
  | true =>
    have hr' : w'.rejectWrites = false := h.rejectWrites.trans hr
    exact {
      writeWatcher := h.writeWatcher.trans hwatch
      rejected := fun hr => by cases hr'.symm.trans hr
      stream := fun hb _ => by
        rw [if_pos rfl, h.stream hb rfl, hstream (hb.mono h.answers), h.written]
      wire := hwire
      waits := h.waits }

theorem Inv.rejectWrites_eq_false (hw : Inv f w) (herror : ∀ b, (b, .error) ∉ w.answers) :
    w.rejectWrites = false := by
  cases hr : w.rejectWrites with
  | false => rfl
  | true =>
    obtain ⟨b, hb⟩ := (hw.rejected hr).2
    exact absurd hb (herror b)

theorem Inv.write (hw : Inv f w) {io : Bool} {m : Message H} (h : w.write S io m = some w') :
    Inv f w' := by
  have hwritten : ((w.written ++ [m]).flatMap (·.stream)).map f =
      (w.written.flatMap (·.stream)).map f ++ m.stream.map f := by
    rw [List.flatMap_append, List.flatMap_singleton, List.map_append]
  rw [Writer.write] at h
  simp only at h
  split_ifs at h with hr hout
  · obtain rfl := Option.some.inj h
    refine ⟨hw.writeWatcher, hw.rejected, ?_, ?_, hw.waits⟩
    · exact fun _ hr' => by cases hr.symm.trans hr'
    · intro hb
      rw [hwritten]
      exact (hw.wire hb).trans (List.prefix_append _ _)
  · -- Nothing is queued: the message is written.
    rw [List.isEmpty_iff] at hout
    obtain ⟨⟨ok, w₁⟩, hwrite, rfl⟩ := Option.map_eq_some_iff.1 h
    have hsends := (sends_writeNoLock (f := f) (by exact hout) (by exact hw.writeWatcher) hwrite).1
    refine hsends.inv hw.writeWatcher (Bool.eq_false_iff.2 hr) fun hb => ?_
    have := hw.stream hb (Bool.eq_false_iff.2 hr)
    rw [hout, List.flatMap_nil, List.append_nil] at this
    rw [hwritten, ← this, List.flatMap_singleton, List.map_append, MessageView.stream_ofMessage]
  · obtain rfl := Option.some.inj h
    have hr := Bool.eq_false_iff.2 hr
    have hstream (hb : Blind f w.answers) :
        (w.wire ++ (w.outgoingMessages ++ [MessageView.ofMessage m]).flatMap (·.stream)).map f =
          ((w.written ++ [m]).flatMap (·.stream)).map f := by
      rw [hwritten, ← hw.stream hb hr, List.flatMap_append, List.flatMap_singleton,
        ← List.append_assoc, List.map_append, MessageView.stream_ofMessage]
    refine ⟨hw.writeWatcher, ?_, fun hb _ => hstream hb, ?_, fun _ => hw.waits ?_⟩
    · exact fun hr' => by cases hr.symm.trans hr'
    · intro hb
      rw [← hstream hb, List.map_append]
      exact List.prefix_append _ _
    · exact fun hnil => hout (List.isEmpty_iff.2 hnil)

theorem Inv.onFileCanWrite (hw : Inv f w) (h : w.onFileCanWriteWithoutBlocking S = some w') :
    Inv f w' := by
  obtain ⟨⟨ok, w₁⟩, hflush, rfl⟩ := Option.map_eq_some_iff.1 h
  rw [flushOutgoingMessagesNoLock] at hflush
  cases hr : w.rejectWrites with
  | true =>
    -- Nothing is left to be sent after an error.
    have hout := (hw.rejected hr).1
    simp only [hout, flushLoop] at hflush
    obtain ⟨rfl, rfl⟩ := Prod.mk.inj (Option.some.inj hflush)
    exact {
      writeWatcher := hw.writeWatcher
      rejected := fun _ => ⟨rfl, (hw.rejected hr).2⟩
      stream := fun _ hr' => by cases hr.symm.trans hr'
      wire := hw.wire
      waits := fun hne => absurd rfl hne }
  | false =>
    have hsends := sends_flushLoop (f := f) rfl (by exact hw.writeWatcher) hflush
    exact hsends.inv hw.writeWatcher hr fun hb => hw.stream hb hr

theorem Inv.waitForWrite (hw : Inv f w) (tasks : ℕ) :
    Inv f (waitForWriteOnIOThreadNoLock { w with waitTasks := tasks } true) := by
  have hwaits := waits_waitForWrite (w := { w with waitTasks := tasks }) true hw.writeWatcher
  obtain ⟨pending, tasks', heq⟩ := waitForWrite_eq { w with waitTasks := tasks } true
  rw [heq] at hwaits ⊢
  exact ⟨hw.writeWatcher, hw.rejected, hw.stream, hw.wire, fun _ => hwaits⟩

theorem Inv.step (hw : Inv f w) {i : Input H} (h : w.step S i = some w') : Inv f w' := by
  cases i with
  | write io m => exact hw.write h
  | canWrite => exact hw.onFileCanWrite h
  | waitForWrite =>
    rw [Writer.step] at h
    split_ifs at h
    obtain rfl := Option.some.inj h
    exact hw.waitForWrite _

theorem inv_of_reachable (h : (machine S H).Reachable Machine.Any w) : Inv f w :=
  h.invariant inv_init fun hw _ hstep => hw.step hstep

/-- As long as no error other than `EAGAIN` occurs, the bytes that the socket accepted
    and those that are queued are those of the messages passed to `Write`, in order.
    Whenever something is queued, the channel waits for the socket, or a task that will
    do so is posted. A run ends when a message with more than
    `kPlatformChannelMaxNumHandles` handles is to be sent: nothing is said of what comes
    after that. -/
theorem outgoing_stream (h : (machine S H).Reachable Machine.Any w)
    (herror : ∀ b, (b, .error) ∉ w.answers) :
    w.wire.map Prod.fst ++ w.outgoingMessages.flatMap (·.data) = w.written.flatMap (·.data) ∧
      (w.outgoingMessages ≠ [] → w.pendingWrite = true ∨ 0 < w.waitTasks) := by
  have hw : Inv Prod.fst w := inv_of_reachable h
  have hstream := hw.stream (blind_fst _) (hw.rejectWrites_eq_false herror)
  rw [List.map_append, List.map_flatMap, List.map_flatMap] at hstream
  refine ⟨?_, hw.waits⟩
  simpa only [MessageView.stream, Message.stream, map_fst_withHandles] using hstream

/-- A socket that accepts three bytes, then no more for once, then anything. -/
def slowSocket : Socket where
  kPlatformChannelMaxNumHandles := 128
  send := fun n _ => match n with
    | 0 => .accepted 2
    | 1 => .wouldBlock
    | _ => .accepted 7

/-- A message with a handle, that is only its header. -/
def emptyMessage : Message ℕ := ⟨[8, 0, 0, 0, 1, 0, 0, 0], [7], List.cons_ne_nil _ _⟩

/-- A message of which a part is on the wire. -/
theorem outgoing_stream_part : ∃ w : Writer ℕ,
    (machine slowSocket ℕ).Reachable Machine.Any w ∧
      (w.wire.map Prod.fst = [8, 0, 0] ∧ (∀ b, (b, .error) ∉ w.answers)) ∧
      w.wire.map Prod.fst ++ w.outgoingMessages.flatMap (·.data) = w.written.flatMap (·.data) ∧
      (w.outgoingMessages ≠ [] → w.pendingWrite = true ∨ 0 < w.waitTasks) := by
  obtain ⟨w, hw, hP⟩ := Machine.exists_reachable (M := machine slowSocket ℕ) (G := Machine.Any)
    (P := fun w => w.wire.map Prod.fst = [8, 0, 0] ∧ ∀ b, (b, .error) ∉ w.answers)
    [.write true emptyMessage] (by decide)
  exact ⟨w, hw, hP, outgoing_stream hw hP.2⟩

/-- As long as no call that passes handles is answered by `EAGAIN`, what is on the wire
    is the beginning of what is to be sent, where the handles of a message go along with
    its first byte. As long as no other error occurs, the rest is queued, with the
    handles that are not on the wire. Here, too, a run ends when a message with more than
    `kPlatformChannelMaxNumHandles` handles is to be sent. -/
theorem handles_transmitted (h : (machine S H).Reachable Machine.Any w)
    (hblock : (true, .wouldBlock) ∉ w.answers) :
    w.wire <+: w.written.flatMap (·.stream) ∧
      ((∀ b, (b, .error) ∉ w.answers) →
        w.wire ++ w.outgoingMessages.flatMap (·.stream) = w.written.flatMap (·.stream)) := by
  have hw : Inv id w := inv_of_reachable h
  have hb : Blind (H := H) id w.answers := fun hmem => absurd hmem hblock
  have hwire := hw.wire hb
  rw [List.map_id, List.map_id] at hwire
  refine ⟨hwire, fun herror => ?_⟩
  have hstream := hw.stream hb (hw.rejectWrites_eq_false herror)
  rwa [List.map_id, List.map_id] at hstream

/-- A message whose handle went along with the first three bytes. -/
theorem handles_transmitted_part : ∃ w : Writer ℕ,
    (machine slowSocket ℕ).Reachable Machine.Any w ∧
      (w.wire = [(8, [7]), (0, []), (0, [])] ∧ (true, .wouldBlock) ∉ w.answers) ∧
      w.wire <+: w.written.flatMap (·.stream) ∧
      ((∀ b, (b, .error) ∉ w.answers) →
        w.wire ++ w.outgoingMessages.flatMap (·.stream) = w.written.flatMap (·.stream)) := by
  obtain ⟨w, hw, hP⟩ := Machine.exists_reachable (M := machine slowSocket ℕ) (G := Machine.Any)
    (P := fun w => w.wire = [(8, [7]), (0, []), (0, [])] ∧ (true, .wouldBlock) ∉ w.answers)
    [.write true emptyMessage] (by decide)
  exact ⟨w, hw, hP, handles_transmitted hw hP.2⟩

/-- A socket that is full, and later is not. -/
def fullSocket : Socket where
  kPlatformChannelMaxNumHandles := 128
  send := fun n _ => match n with
    | 0 => .wouldBlock
    | _ => .accepted 7

/-- The socket is full when a message is written and is writable later. The message is
    sent, without its handle. -/
theorem handles_lost : ∃ w : Writer ℕ, (machine fullSocket ℕ).Reachable Machine.Any w ∧
    (∀ b, (b, .error) ∉ w.answers) ∧ w.outgoingMessages.length = 0 ∧
    w.wire = [(8, []), (0, []), (0, []), (0, []), (1, []), (0, []), (0, []), (0, [])] ∧
    ¬ w.wire <+: w.written.flatMap (·.stream) :=
  Machine.exists_reachable (M := machine fullSocket ℕ) (G := Machine.Any)
    [.write true emptyMessage, .canWrite] (by decide)

end Writer

end MojoEdk.Channel
