import MojoEdk.Library.Bytes

/-!
# Reading from a channel

How a channel cuts the bytes that it reads into messages (`channel.cc`). The bytes
of a read are stored behind those that wait in a buffer (`ReadBuffer`); the handles
that come along are queued (`ChannelPosix`). Then `OnReadComplete` gives every
message that is complete to the delegate, with as many handles as its header tells.

What a channel delivers is specified by `cut`, which cuts a whole stream at the sizes
in its headers. The two agree however the stream is divided into reads
(`Reader.reads_eq`), as `cut` can be resumed where it stopped (`cut_append`).

Sizes are not bounded: a buffer holds at most one message that is incomplete, of
`kMaxChannelMessageSize`, and one read. Numbers are little-endian.
-/

namespace MojoEdk.Channel

def kReadBufferSize : ℕ := 4096

def kMaxUnusedReadBufferCapacity : ℕ := 256 * 1024

def kMaxChannelMessageSize : ℕ := 256 * 1024 * 1024

/-! ## Headers -/

/-- The size of `Message::Header`. -/
def sizeofHeader : ℕ := 8

/-- `Header::num_bytes`. -/
def numBytes (bytes : List UInt8) : ℕ := ofLeBytes (bytes.slice 0 4)

/-- `Header::num_handles`. -/
def numHandles (bytes : List UInt8) : ℕ := ofLeBytes (bytes.slice 4 2)

/-- The size in a header is that of no message. -/
def Invalid (bytes : List UInt8) : Prop :=
  numBytes bytes < sizeofHeader ∨ kMaxChannelMessageSize < numBytes bytes

instance (bytes : List UInt8) : Decidable (Invalid bytes) := inferInstanceAs (Decidable (_ ∨ _))

/-! ## The read buffer -/

/-- `Channel::ReadBuffer`: discarded bytes, then occupied bytes, then unoccupied
    ones. The number of occupied bytes includes the discarded ones, and the size of
    the buffer is the length of its data. -/
structure ReadBuffer where
  data : List UInt8
  numDiscardedBytes : ℕ := 0
  numOccupiedBytes : ℕ := 0

namespace ReadBuffer

/-- `AlignedAlloc`, the contents of which are not specified. -/
def alloc (size : ℕ) : List UInt8 := List.replicate size 0

/-- The constructor `ReadBuffer`. -/
def new : ReadBuffer where
  data := alloc kReadBufferSize

/-- `num_occupied_bytes`. -/
def occupied (b : ReadBuffer) : ℕ := b.numOccupiedBytes - b.numDiscardedBytes

/-- The occupied bytes. -/
def occupiedBytes (b : ReadBuffer) : List UInt8 := b.data.slice b.numDiscardedBytes b.occupied

/-- `Reserve`. -/
def reserve (b : ReadBuffer) (numBytes : ℕ) : ReadBuffer :=
  if b.numOccupiedBytes + numBytes > b.data.length then
    let size := max (b.data.length * 2) (b.numOccupiedBytes + numBytes)
    { b with data := (alloc size).splice 0 (b.data.slice 0 b.numOccupiedBytes) }
  else b

/-- What is read is stored where `Reserve` returned. -/
def fill (b : ReadBuffer) (bytes : List UInt8) : ReadBuffer :=
  { b with data := b.data.splice b.numOccupiedBytes bytes }

/-- `Claim`. -/
def claim (b : ReadBuffer) (numBytes : ℕ) : ReadBuffer :=
  { b with numOccupiedBytes := b.numOccupiedBytes + numBytes }

/-- `Discard`. -/
def discard (b : ReadBuffer) (numBytes : ℕ) : ReadBuffer :=
  let b := { b with numDiscardedBytes := b.numDiscardedBytes + numBytes }
  let b :=
    if b.numDiscardedBytes = b.numOccupiedBytes then
      { b with numDiscardedBytes := 0, numOccupiedBytes := 0 }
    else b
  if b.numDiscardedBytes > kMaxUnusedReadBufferCapacity then
    let numPreservedBytes := b.numOccupiedBytes - b.numDiscardedBytes
    { data := (alloc (max numPreservedBytes kReadBufferSize)).splice 0
        (b.data.slice b.numDiscardedBytes numPreservedBytes)
      numDiscardedBytes := 0
      numOccupiedBytes := numPreservedBytes }
  else b

/-- What the operations of a buffer keep, and its assertions ask for. -/
structure Valid (b : ReadBuffer) : Prop where
  discarded_le : b.numDiscardedBytes ≤ b.numOccupiedBytes
  occupied_le : b.numOccupiedBytes ≤ b.data.length

variable {b : ReadBuffer} {n : ℕ} {bytes : List UInt8}

theorem valid_new : new.Valid := ⟨le_rfl, Nat.zero_le _⟩

theorem Valid.length_occupiedBytes (h : b.Valid) : b.occupiedBytes.length = b.occupied := by
  have h1 := h.discarded_le
  have h2 := h.occupied_le
  exact List.length_slice (by rw [occupied]; omega)

@[simp] theorem length_alloc (size : ℕ) : (alloc size).length = size := List.length_replicate

theorem Valid.reserve (h : b.Valid) (n : ℕ) : (b.reserve n).Valid ∧
    (b.reserve n).numOccupiedBytes + n ≤ (b.reserve n).data.length ∧
    (b.reserve n).occupiedBytes = b.occupiedBytes ∧
    (b.reserve n).numOccupiedBytes = b.numOccupiedBytes ∧
    (b.reserve n).numDiscardedBytes = b.numDiscardedBytes := by
  have hdis := h.discarded_le
  have hocc := h.occupied_le
  rw [ReadBuffer.reserve]
  split_ifs with hlt
  · -- A larger buffer, with a copy of what is occupied and discarded.
    have hlen : (b.data.slice 0 b.numOccupiedBytes).length = b.numOccupiedBytes :=
      List.length_slice (by omega)
    have hsize : ((alloc (max (b.data.length * 2) (b.numOccupiedBytes + n))).splice 0
        (b.data.slice 0 b.numOccupiedBytes)).length =
          max (b.data.length * 2) (b.numOccupiedBytes + n) := by
      rw [List.length_splice (by rw [length_alloc, hlen]; omega), length_alloc]
    refine ⟨⟨hdis, ?_⟩, ?_, ?_, rfl, rfl⟩
    · change b.numOccupiedBytes ≤ List.length _
      rw [hsize]
      omega
    · rw [hsize]
      exact le_max_right _ _
    · change List.slice _ b.numDiscardedBytes (b.numOccupiedBytes - b.numDiscardedBytes) = _
      rw [List.slice_splice_zero (by rw [hlen]; omega), List.slice_slice (by omega), Nat.zero_add,
        occupiedBytes, occupied]
  · exact ⟨h, by omega, rfl, rfl, rfl⟩

/-- Bytes that were read are occupied, after those before. -/
theorem Valid.fill_claim (h : b.Valid) (hroom : b.numOccupiedBytes + bytes.length ≤ b.data.length) :
    ((b.fill bytes).claim bytes.length).Valid ∧
      ((b.fill bytes).claim bytes.length).occupiedBytes = b.occupiedBytes ++ bytes := by
  have hdis := h.discarded_le
  have hocc := h.occupied_le
  refine ⟨⟨Nat.le_add_right_of_le hdis, ?_⟩, ?_⟩
  · change b.numOccupiedBytes + bytes.length ≤ (b.data.splice b.numOccupiedBytes bytes).length
    rw [List.length_splice hroom]
    exact hroom
  · change (b.data.splice b.numOccupiedBytes bytes).slice b.numDiscardedBytes
      (b.numOccupiedBytes + bytes.length - b.numDiscardedBytes) = _
    rw [Nat.sub_add_comm hdis, ← List.slice_append_slice, Nat.add_sub_cancel' hdis,
      List.slice_splice_of_le (by omega) hocc, List.slice_splice_self hocc]
    rfl

/-- Discarding drops the first occupied bytes, wherever the rest is moved. -/
theorem Valid.discard (h : b.Valid) (hn : n ≤ b.occupied) :
    (b.discard n).Valid ∧ (b.discard n).occupiedBytes = b.occupiedBytes.drop n := by
  have hdis := h.discarded_le
  have hocc := h.occupied_le
  rw [occupied] at hn
  have hrest : b.occupiedBytes.drop n =
      b.data.slice (b.numDiscardedBytes + n) (b.numOccupiedBytes - (b.numDiscardedBytes + n)) := by
    rw [occupiedBytes, List.slice, List.drop_take, List.drop_drop, List.slice, occupied]
    congr 1
    omega
  rw [ReadBuffer.discard, hrest]
  by_cases hall : b.numDiscardedBytes + n = b.numOccupiedBytes
  · -- The buffer is reused from the beginning.
    simp only [hall, if_true]
    rw [if_neg (Nat.not_lt_zero _)]
    refine ⟨⟨le_rfl, Nat.zero_le _⟩, ?_⟩
    rw [Nat.sub_self, List.slice, List.take_zero]
    rfl
  · simp only [hall, if_false]
    split_ifs with hmax
    · -- What is left is moved to a smaller buffer.
      have hlen : (b.data.slice (b.numDiscardedBytes + n)
          (b.numOccupiedBytes - (b.numDiscardedBytes + n))).length =
            b.numOccupiedBytes - (b.numDiscardedBytes + n) := List.length_slice (by omega)
      refine ⟨⟨Nat.zero_le _, ?_⟩, ?_⟩
      · rw [List.length_splice (by rw [length_alloc, hlen]; omega), length_alloc]
        exact le_max_left _ _
      · change List.slice _ 0 (b.numOccupiedBytes - (b.numDiscardedBytes + n) - 0) = _
        rw [Nat.sub_zero, List.slice_splice_zero (by rw [hlen]; omega), List.slice_slice (by omega),
          Nat.add_zero]
    · have hle : b.numDiscardedBytes + n ≤ b.numOccupiedBytes := by omega
      exact ⟨⟨hle, hocc⟩, rfl⟩

end ReadBuffer

/-! ## Reading -/

variable {H : Type*}

/-- The capacity that `GetReadBuffer` grants. -/
def requiredCapacity (bufferCapacity : ℕ) : ℕ :=
  if bufferCapacity = 0 then kReadBufferSize else bufferCapacity

/-- What a channel reads with: the buffer, the handles that were received and not yet
    given to a message, whether there is a delegate, and the calls of its
    `OnChannelMessage`, each with the payload and the handles. -/
structure Reader (H : Type*) where
  readBuffer : ReadBuffer := .new
  incomingPlatformHandles : List H := []
  delegate : Bool := true
  messages : List (List UInt8 × List H) := []

/-- What an iteration of the loop of `OnReadComplete` does. -/
inductive Iteration (H : Type*)
  /-- The header is invalid. -/
  | invalid
  /-- The message is incomplete: how many bytes it lacks. -/
  | incomplete (hint : ℕ)
  /-- The handles of the message did not arrive. -/
  | noHandles
  /-- The message was dispatched, if there is a delegate, and discarded. -/
  | dispatched (r : Reader H)

namespace Reader

variable (r : Reader H)

/-- `GetReadBuffer`, with the capacity it grants. -/
def getReadBuffer (bufferCapacity : ℕ) : Reader H :=
  { r with readBuffer := r.readBuffer.reserve (requiredCapacity bufferCapacity) }

/-- `GetReadPlatformHandles`. -/
def getReadPlatformHandles (numHandles : ℕ) : Option (List H × Reader H) :=
  if r.incomingPlatformHandles.length < numHandles then none
  else some (r.incomingPlatformHandles.take numHandles,
    { r with incomingPlatformHandles := r.incomingPlatformHandles.drop numHandles })

/-- The handles of a message, which are not asked for if there are none. -/
def takeHandles (numHandles : ℕ) : Option (List H × Reader H) :=
  if numHandles > 0 then r.getReadPlatformHandles numHandles else some ([], r)

/-- `Delegate::OnChannelMessage`, if there is a delegate. -/
def onChannelMessage (payload : List UInt8) (handles : List H) : Reader H :=
  if r.delegate then { r with messages := r.messages ++ [(payload, handles)] } else r

/-- The body of the loop of `OnReadComplete`. -/
def iteration : Iteration H :=
  let bytes := r.readBuffer.occupiedBytes
  if Invalid bytes then .invalid
  else if r.readBuffer.occupied < numBytes bytes then
    .incomplete (numBytes bytes - r.readBuffer.occupied)
  else
    let payload := bytes.slice sizeofHeader (numBytes bytes - sizeofHeader)
    match r.takeHandles (numHandles bytes) with
    | none => .noHandles
    | some (handles, r) =>
      let r := r.onChannelMessage payload handles
      .dispatched { r with readBuffer := r.readBuffer.discard (numBytes bytes) }

/-- The loop of `OnReadComplete`: whether it returns true, and the hint for the next
    read. It does not end if it runs out of `fuel`. -/
def loop : ℕ → Reader H → Bool → ℕ → Option (Reader H × Bool × ℕ)
  | 0, _, _, _ => none
  | fuel + 1, r, didDispatchMessage, hint =>
    if r.readBuffer.occupied < sizeofHeader then
      some (r, true, if didDispatchMessage then 0 else kReadBufferSize)
    else
      match r.iteration with
      | .invalid => some (r, false, hint)
      | .incomplete hint => some (r, true, hint)
      | .noHandles => some (r, true, if didDispatchMessage then 0 else kReadBufferSize)
      | .dispatched r' => loop fuel r' (didDispatchMessage || r.delegate) hint

/-- `OnReadComplete`. -/
def onReadComplete (bytesRead hint : ℕ) : Option (Reader H × Bool × ℕ) :=
  let r := { r with readBuffer := r.readBuffer.claim bytesRead }
  loop (r.readBuffer.occupied / sizeofHeader + 1) r false hint

end Reader

/-- A read: the capacity asked for, the bytes, and the handles that came along. -/
structure Read (H : Type*) where
  bufferCapacity : ℕ
  bytes : List UInt8
  handles : List H

/-- A read is no larger than the capacity granted. -/
def Read.Fits (d : Read H) : Prop := d.bytes.length ≤ requiredCapacity d.bufferCapacity

instance (d : Read H) : Decidable d.Fits := inferInstanceAs (Decidable (_ ≤ _))

namespace Reader

/-- A read into the buffer that `GetReadBuffer` returns, and `OnReadComplete`. -/
def read (r : Reader H) (d : Read H) (hint : ℕ) : Option (Reader H × Bool × ℕ) :=
  let r := r.getReadBuffer d.bufferCapacity
  { r with
    readBuffer := r.readBuffer.fill d.bytes
    incomingPlatformHandles := r.incomingPlatformHandles ++ d.handles
  }.onReadComplete d.bytes.length hint

/-- Reads one after the other, up to an error. -/
def reads : Reader H → List (Read H) → ℕ → Option (Reader H × Bool)
  | r, [], _ => some (r, true)
  | r, d :: ds, hint =>
    match r.read d hint with
    | none => none
    | some (r, false, _) => some (r, false)
    | some (r, true, hint) => r.reads ds hint

end Reader

/-! ## Cutting a stream -/

/-- What a stream is cut into: the payloads, each with a number of handles, what is
    left, and whether this starts with an invalid header. -/
structure Cut where
  messages : List (List UInt8 × ℕ)
  rest : List UInt8
  invalid : Bool

/-- A stream, cut at the sizes in its headers. -/
def cut (stream : List UInt8) : Cut :=
  if stream.length < sizeofHeader then ⟨[], stream, false⟩
  -- A header that is invalid ends the stream, whatever follows.
  else if Invalid stream then ⟨[], stream, true⟩
  else if stream.length < numBytes stream then ⟨[], stream, false⟩
  else
    let c := cut (stream.drop (numBytes stream))
    { c with messages :=
        (stream.slice sizeofHeader (numBytes stream - sizeofHeader), numHandles stream) ::
          c.messages }
termination_by stream.length
decreasing_by
  rename_i h hi _
  simp only [Invalid, sizeofHeader] at h hi
  rw [List.length_drop]
  omega

section Equations

variable {u : List UInt8}

theorem cut_of_short (h : u.length < sizeofHeader) : cut u = ⟨[], u, false⟩ := by
  rw [cut.eq_def, if_pos h]

theorem cut_of_invalid (h : ¬u.length < sizeofHeader) (hi : Invalid u) : cut u = ⟨[], u, true⟩ := by
  rw [cut.eq_def, if_neg h, if_pos hi]

theorem cut_of_incomplete (h : ¬u.length < sizeofHeader) (hi : ¬Invalid u)
    (hp : u.length < numBytes u) : cut u = ⟨[], u, false⟩ := by
  rw [cut.eq_def, if_neg h, if_neg hi, if_pos hp]

end Equations

/-- The number of handles of messages. -/
def needed (messages : List (List UInt8 × ℕ)) : ℕ := (messages.map (·.2)).sum

/-- The handles, given to the messages in order. -/
def attach : List (List UInt8 × ℕ) → List H → List (List UInt8 × List H)
  | [], _ => []
  | (payload, n) :: messages, handles =>
    (payload, handles.take n) :: attach messages (handles.drop n)

theorem attach_append (ms ms' : List (List UInt8 × ℕ)) (handles : List H) :
    attach (ms ++ ms') handles = attach ms handles ++ attach ms' (handles.drop (needed ms)) := by
  induction ms generalizing handles with
  | nil => simp [needed, attach]
  | cons m ms ih =>
    rw [List.cons_append, attach, attach, ih, List.cons_append, List.drop_drop]
    rfl

/-- Handles that come later go to later messages. -/
theorem attach_of_le {ms : List (List UInt8 × ℕ)} {handles : List H}
    (h : needed ms ≤ handles.length) (handles' : List H) :
    attach ms (handles ++ handles') = attach ms handles := by
  induction ms generalizing handles with
  | nil => rfl
  | cons m ms ih =>
    rw [needed, List.map_cons, List.sum_cons] at h
    have hle : m.2 ≤ handles.length := Nat.le_of_add_right_le h
    rw [attach, attach, List.take_append_of_le_length hle, List.drop_append_of_le_length hle, ih]
    rw [List.length_drop, needed]
    omega

theorem needed_append (ms ms' : List (List UInt8 × ℕ)) :
    needed (ms ++ ms') = needed ms + needed ms' := by
  rw [needed, List.map_append, List.sum_append]
  rfl

section Header

variable {u v : List UInt8}

theorem numBytes_append (h : sizeofHeader ≤ u.length) : numBytes (u ++ v) = numBytes u := by
  rw [sizeofHeader] at h
  rw [numBytes, numBytes, List.slice_append_of_le (by omega)]

theorem numHandles_append (h : sizeofHeader ≤ u.length) : numHandles (u ++ v) = numHandles u := by
  rw [sizeofHeader] at h
  rw [numHandles, numHandles, List.slice_append_of_le (by omega)]

theorem invalid_append (h : sizeofHeader ≤ u.length) : Invalid (u ++ v) ↔ Invalid u := by
  rw [Invalid, Invalid, numBytes_append h]

end Header

/-- A message that is complete in a first part of a stream is cut off. -/
theorem cut_of_complete {u : List UInt8} (hlen : ¬u.length < sizeofHeader) (hinv : ¬Invalid u)
    (hpart : ¬u.length < numBytes u) (v : List UInt8) :
    cut (u ++ v) = { cut (u.drop (numBytes u) ++ v) with messages :=
      (u.slice sizeofHeader (numBytes u - sizeofHeader), numHandles u) ::
        (cut (u.drop (numBytes u) ++ v)).messages } := by
  have hle : sizeofHeader ≤ u.length := not_lt.1 hlen
  have hlong : u.length ≤ (u ++ v).length := by
    rw [List.length_append]
    exact Nat.le_add_right ..
  have hslice : (u ++ v).slice sizeofHeader (numBytes u - sizeofHeader) =
      u.slice sizeofHeader (numBytes u - sizeofHeader) := by
    simp only [Invalid] at hinv
    exact List.slice_append_of_le (by omega)
  rw [cut.eq_def (u ++ v), if_neg (by omega), if_neg (mt (invalid_append hle).1 hinv),
    numBytes_append hle, numHandles_append hle, if_neg (by omega), hslice,
    List.drop_append_of_le_length (not_lt.1 hpart)]

/-- The cut of a stream goes on from the cut of a first part of it. -/
theorem cut_append (u v : List UInt8) (h : (cut u).invalid = false) :
    (cut (u ++ v)).messages = (cut u).messages ++ (cut ((cut u).rest ++ v)).messages ∧
      (cut (u ++ v)).rest = (cut ((cut u).rest ++ v)).rest ∧
      (cut (u ++ v)).invalid = (cut ((cut u).rest ++ v)).invalid := by
  induction u using cut.induct with
  | case1 u hlen =>
    rw [cut_of_short hlen]
    exact ⟨rfl, rfl, rfl⟩
  | case2 u hlen hinv =>
    rw [cut_of_invalid hlen hinv] at h
    cases h
  | case3 u hlen hinv hpart =>
    rw [cut_of_incomplete hlen hinv hpart]
    exact ⟨rfl, rfl, rfl⟩
  | case4 u hlen hinv hpart ih =>
    have hcut := cut_of_complete hlen hinv hpart []
    rw [List.append_nil, List.append_nil] at hcut
    rw [hcut] at h ⊢
    rw [cut_of_complete hlen hinv hpart]
    obtain ⟨h1, h2, h3⟩ := ih h
    exact ⟨congrArg (_ :: ·) h1, h2, h3⟩

/-- Nothing is cut after an invalid header. -/
theorem cut_append_of_invalid (u v : List UInt8) (h : (cut u).invalid = true) :
    (cut (u ++ v)).messages = (cut u).messages ∧ (cut (u ++ v)).invalid = true := by
  induction u using cut.induct with
  | case1 u hlen =>
    rw [cut_of_short hlen] at h
    cases h
  | case2 u hlen hinv =>
    have hlen' : ¬(u ++ v).length < sizeofHeader := by
      rw [List.length_append]
      omega
    rw [cut_of_invalid hlen hinv,
      cut_of_invalid hlen' ((invalid_append (not_lt.1 hlen)).2 hinv)]
    exact ⟨rfl, rfl⟩
  | case3 u hlen hinv hpart =>
    rw [cut_of_incomplete hlen hinv hpart] at h
    cases h
  | case4 u hlen hinv hpart ih =>
    have hcut := cut_of_complete hlen hinv hpart []
    rw [List.append_nil, List.append_nil] at hcut
    rw [hcut] at h ⊢
    rw [cut_of_complete hlen hinv hpart]
    obtain ⟨h1, h2⟩ := ih h
    exact ⟨congrArg (_ :: ·) h1, h2⟩

/-- Nothing can be cut off what is left. -/
theorem cut_rest (u : List UInt8) (h : (cut u).invalid = false) :
    (cut (cut u).rest).messages = [] ∧ (cut (cut u).rest).invalid = false := by
  obtain ⟨h1, -, h3⟩ := cut_append u [] h
  rw [List.append_nil, List.append_nil] at h1 h3
  exact ⟨List.self_eq_append_right.1 h1, h3 ▸ h⟩

/-! ## Reading cuts the stream -/

namespace Reader

variable {r : Reader H}

theorem readBuffer_onChannelMessage (payload : List UInt8) (handles : List H) :
    (r.onChannelMessage payload handles).readBuffer = r.readBuffer := by
  rw [onChannelMessage]
  split_ifs <;> rfl

theorem takeHandles_of_le {n : ℕ} (h : n ≤ r.incomingPlatformHandles.length) :
    r.takeHandles n = some (r.incomingPlatformHandles.take n,
      { r with incomingPlatformHandles := r.incomingPlatformHandles.drop n }) := by
  rw [takeHandles, getReadPlatformHandles]
  split_ifs with hpos hlt
  · exact absurd hlt (not_lt.2 h)
  · rfl
  · rw [Nat.eq_zero_of_not_pos hpos]
    rfl

theorem readBuffer_of_takeHandles {n : ℕ} {x : List H × Reader H} (h : r.takeHandles n = some x) :
    x.2.readBuffer = r.readBuffer := by
  rw [takeHandles, getReadPlatformHandles] at h
  split_ifs at h <;> exact Option.some.inj h ▸ rfl

/-- A message that is complete, and its handles too, is dispatched. -/
theorem iteration_of_complete (hv : r.readBuffer.Valid) (hd : r.delegate = true)
    (hinv : ¬Invalid r.readBuffer.occupiedBytes)
    (hpart : ¬r.readBuffer.occupied < numBytes r.readBuffer.occupiedBytes)
    (hhandles : numHandles r.readBuffer.occupiedBytes ≤ r.incomingPlatformHandles.length) :
    ∃ r', r.iteration = .dispatched r' ∧ r'.readBuffer.Valid ∧ r'.delegate = true ∧
      r'.readBuffer.occupiedBytes =
        r.readBuffer.occupiedBytes.drop (numBytes r.readBuffer.occupiedBytes) ∧
      r'.incomingPlatformHandles =
        r.incomingPlatformHandles.drop (numHandles r.readBuffer.occupiedBytes) ∧
      r'.messages = r.messages ++ [(r.readBuffer.occupiedBytes.slice sizeofHeader
        (numBytes r.readBuffer.occupiedBytes - sizeofHeader),
          r.incomingPlatformHandles.take (numHandles r.readBuffer.occupiedBytes))] := by
  obtain ⟨hv', hocc⟩ := hv.discard (not_lt.1 hpart)
  rw [iteration, if_neg hinv, if_neg hpart, takeHandles_of_le hhandles]
  refine ⟨_, rfl, ?_⟩
  simp only [onChannelMessage, hd, if_true]
  exact ⟨hv', trivial, hocc, trivial, trivial⟩

/-- An iteration that goes on discards a header at least. -/
theorem occupied_of_dispatched (hv : r.readBuffer.Valid) {r' : Reader H}
    (h : r.iteration = .dispatched r') :
    r'.readBuffer.Valid ∧ r'.readBuffer.occupied + sizeofHeader ≤ r.readBuffer.occupied := by
  rw [iteration] at h
  by_cases hinv : Invalid r.readBuffer.occupiedBytes
  · rw [if_pos hinv] at h
    cases h
  by_cases hpart : r.readBuffer.occupied < numBytes r.readBuffer.occupiedBytes
  · rw [if_neg hinv, if_pos hpart] at h
    cases h
  rw [if_neg hinv, if_neg hpart] at h
  cases htake : r.takeHandles (numHandles r.readBuffer.occupiedBytes) with
  | none =>
    rw [htake] at h
    cases h
  | some x =>
    rw [htake] at h
    obtain rfl := Iteration.dispatched.inj h
    simp only [readBuffer_onChannelMessage, readBuffer_of_takeHandles htake]
    obtain ⟨hv', hocc⟩ := hv.discard (not_lt.1 hpart)
    have hlen := congrArg List.length hocc
    rw [hv'.length_occupiedBytes, List.length_drop, hv.length_occupiedBytes] at hlen
    simp only [Invalid] at hinv
    exact ⟨hv', by omega⟩

/-- The loop gives the delegate what the occupied bytes are cut into. -/
theorem loop_eq {fuel : ℕ} (hfuel : r.readBuffer.occupied < fuel * sizeofHeader)
    (hv : r.readBuffer.Valid) (hd : r.delegate = true)
    (hhandles : needed (cut r.readBuffer.occupiedBytes).messages ≤
      r.incomingPlatformHandles.length) (did : Bool) (hint : ℕ) :
    ∃ r' hint', loop fuel r did hint =
        some (r', !(cut r.readBuffer.occupiedBytes).invalid, hint') ∧
      r'.readBuffer.Valid ∧ r'.delegate = true ∧
      r'.readBuffer.occupiedBytes = (cut r.readBuffer.occupiedBytes).rest ∧
      r'.incomingPlatformHandles =
        r.incomingPlatformHandles.drop (needed (cut r.readBuffer.occupiedBytes).messages) ∧
      r'.messages = r.messages ++
        attach (cut r.readBuffer.occupiedBytes).messages r.incomingPlatformHandles := by
  induction fuel generalizing r did with
  | zero => exact absurd hfuel (by omega)
  | succ fuel ih =>
    have hlen := hv.length_occupiedBytes
    rw [loop]
    by_cases hshort : r.readBuffer.occupied < sizeofHeader
    · -- No header is complete: the loop ends.
      rw [if_pos hshort, cut_of_short (hlen ▸ hshort)]
      exact ⟨r, _, rfl, hv, hd, rfl, rfl, (List.append_nil _).symm⟩
    rw [if_neg hshort]
    by_cases hinv : Invalid r.readBuffer.occupiedBytes
    · rw [cut_of_invalid (hlen ▸ hshort) hinv, iteration, if_pos hinv]
      exact ⟨r, _, rfl, hv, hd, rfl, rfl, (List.append_nil _).symm⟩
    by_cases hpart : r.readBuffer.occupied < numBytes r.readBuffer.occupiedBytes
    · rw [cut_of_incomplete (hlen ▸ hshort) hinv (hlen ▸ hpart), iteration, if_neg hinv,
        if_pos hpart]
      exact ⟨r, _, rfl, hv, hd, rfl, rfl, (List.append_nil _).symm⟩
    · -- A message is complete: the loop goes on with the bytes after it.
      have hcut := cut_of_complete (hlen ▸ hshort) hinv (hlen ▸ hpart) []
      rw [List.append_nil, List.append_nil] at hcut
      rw [hcut] at hhandles ⊢
      rw [needed, List.map_cons, List.sum_cons] at hhandles
      obtain ⟨r₁, hr₁, hv₁, hd₁, hocc₁, hin₁, hmsg₁⟩ :=
        iteration_of_complete hv hd hinv hpart (Nat.le_of_add_right_le hhandles)
      have hless := (occupied_of_dispatched hv hr₁).2
      have hfuel₁ : r₁.readBuffer.occupied < fuel * sizeofHeader := by
        rw [Nat.succ_mul] at hfuel
        omega
      have hhandles₁ : needed (cut r₁.readBuffer.occupiedBytes).messages ≤
          r₁.incomingPlatformHandles.length := by
        rw [hocc₁, hin₁, List.length_drop, needed]
        omega
      obtain ⟨r', hint', hloop, hv', hd', hocc', hin', hmsg'⟩ :=
        ih hfuel₁ hv₁ hd₁ hhandles₁ (did || r.delegate)
      rw [hocc₁] at hloop hocc' hin' hmsg'
      refine ⟨r', hint', ?_, hv', hd', hocc', ?_, ?_⟩
      · rw [hr₁]
        exact hloop
      · rw [hin', hin₁, List.drop_drop]
        rfl
      · rw [hmsg', hmsg₁, hin₁, List.append_assoc]
        rfl

/-- A read, and what it completes. -/
theorem read_eq (hv : r.readBuffer.Valid) (hd : r.delegate = true) {d : Read H} (hfits : d.Fits)
    (hhandles : needed (cut (r.readBuffer.occupiedBytes ++ d.bytes)).messages ≤
      (r.incomingPlatformHandles ++ d.handles).length) (hint : ℕ) :
    ∃ r' hint', r.read d hint =
        some (r', !(cut (r.readBuffer.occupiedBytes ++ d.bytes)).invalid, hint') ∧
      r'.readBuffer.Valid ∧ r'.delegate = true ∧
      r'.readBuffer.occupiedBytes = (cut (r.readBuffer.occupiedBytes ++ d.bytes)).rest ∧
      r'.incomingPlatformHandles = (r.incomingPlatformHandles ++ d.handles).drop
        (needed (cut (r.readBuffer.occupiedBytes ++ d.bytes)).messages) ∧
      r'.messages = r.messages ++ attach (cut (r.readBuffer.occupiedBytes ++ d.bytes)).messages
        (r.incomingPlatformHandles ++ d.handles) := by
  obtain ⟨hv₁, hroom, hocc, -, -⟩ := hv.reserve (requiredCapacity d.bufferCapacity)
  have hle : (r.readBuffer.reserve (requiredCapacity d.bufferCapacity)).numOccupiedBytes +
      d.bytes.length ≤ (r.readBuffer.reserve (requiredCapacity d.bufferCapacity)).data.length :=
    (Nat.add_le_add_left hfits _).trans hroom
  obtain ⟨hv₂, hocc₂⟩ := hv₁.fill_claim hle
  rw [hocc] at hocc₂
  rw [← hocc₂] at hhandles ⊢
  refine loop_eq (r := { r with
    readBuffer := ((r.readBuffer.reserve (requiredCapacity d.bufferCapacity)).fill
      d.bytes).claim d.bytes.length
    incomingPlatformHandles := r.incomingPlatformHandles ++ d.handles }) ?_ hv₂ hd hhandles ..
  exact Nat.lt_mul_of_div_lt (Nat.lt_succ_self _) (by decide)

/-- The handles of the messages that are complete have arrived. -/
def HandlesArrive (r : Reader H) (ds : List (Read H)) : Prop :=
  ∀ k, needed (cut (r.readBuffer.occupiedBytes ++ (ds.take k).flatMap (·.bytes))).messages ≤
    (r.incomingPlatformHandles ++ (ds.take k).flatMap (·.handles)).length

/-- Reads one after the other, from a state on in which no message is complete. -/
theorem reads_eq {ds : List (Read H)} (hfits : ∀ d ∈ ds, d.Fits) (hv : r.readBuffer.Valid)
    (hd : r.delegate = true) (hrest : (cut r.readBuffer.occupiedBytes).messages = [] ∧
      (cut r.readBuffer.occupiedBytes).invalid = false)
    (hhandles : r.HandlesArrive ds) (hint : ℕ) :
    ∃ r', r.reads ds hint =
        some (r', !(cut (r.readBuffer.occupiedBytes ++ ds.flatMap (·.bytes))).invalid) ∧
      r'.messages = r.messages ++
        attach (cut (r.readBuffer.occupiedBytes ++ ds.flatMap (·.bytes))).messages
          (r.incomingPlatformHandles ++ ds.flatMap (·.handles)) := by
  induction ds generalizing r hint with
  | nil =>
    rw [List.flatMap_nil, List.append_nil, hrest.1, hrest.2]
    exact ⟨r, rfl, (List.append_nil _).symm⟩
  | cons d ds ih =>
    have hone := hhandles 1
    rw [List.take_succ_cons, List.take_zero, List.flatMap_cons, List.flatMap_cons,
      List.flatMap_nil, List.flatMap_nil, List.append_nil, List.append_nil] at hone
    obtain ⟨r₁, hint₁, hread, hv₁, hd₁, hocc₁, hin₁, hmsg₁⟩ :=
      read_eq hv hd (hfits d List.mem_cons_self) hone hint
    rw [List.flatMap_cons, List.flatMap_cons, ← List.append_assoc, ← List.append_assoc]
    set u := r.readBuffer.occupiedBytes ++ d.bytes with hu
    set handles := r.incomingPlatformHandles ++ d.handles with hh
    rw [reads, hread]
    cases hinv : (cut u).invalid with
    | true =>
      -- The channel stops here, and so does the cut.
      obtain ⟨h1, h2⟩ := cut_append_of_invalid u (ds.flatMap (·.bytes)) hinv
      rw [h1, h2, attach_of_le hone]
      exact ⟨r₁, rfl, hmsg₁⟩
    | false =>
      obtain ⟨h1, -, h3⟩ := cut_append u (ds.flatMap (·.bytes)) hinv
      have hrest₁ := cut_rest u hinv
      rw [← hocc₁] at hrest₁ h1 h3
      have harrive : r₁.HandlesArrive ds := by
        intro k
        have hk := hhandles (k + 1)
        rw [List.take_succ_cons, List.flatMap_cons, List.flatMap_cons, ← List.append_assoc,
          ← List.append_assoc, ← hu, ← hh] at hk
        rw [(cut_append u _ hinv).1, needed_append, List.length_append] at hk
        rw [hocc₁, hin₁, List.length_append, List.length_drop]
        omega
      obtain ⟨r', hreads, hmsg⟩ :=
        ih (fun d' hd' => hfits d' (List.mem_cons_of_mem d hd')) hv₁ hd₁ hrest₁ harrive hint₁
      refine ⟨r', by rw [h3]; exact hreads, ?_⟩
      rw [hmsg, hmsg₁, h1, attach_append, attach_of_le hone, List.append_assoc, hin₁,
        List.drop_append_of_le_length hone]

/-- A channel that is read from, however the stream is divided into reads, gives the
    delegate the messages that the stream is cut into, each with its handles, as long
    as these arrive in time, and reports an error at the first invalid header. Every
    iteration of the loop discards a header at least. -/
theorem framing :
    (∀ (ds : List (Read H)) (hint : ℕ), (∀ d ∈ ds, d.Fits) → HandlesArrive {} ds →
      ∃ r, reads {} ds hint = some (r, !(cut (ds.flatMap (·.bytes))).invalid) ∧
        r.messages = attach (cut (ds.flatMap (·.bytes))).messages (ds.flatMap (·.handles))) ∧
    ∀ r r' : Reader H, r.readBuffer.Valid → r.iteration = .dispatched r' →
      r'.readBuffer.Valid ∧ r'.readBuffer.occupied + sizeofHeader ≤ r.readBuffer.occupied := by
  refine ⟨fun ds hint hfits hhandles => ?_, fun r r' hv h => occupied_of_dispatched hv h⟩
  have hempty : (cut ({} : Reader H).readBuffer.occupiedBytes).messages = [] ∧
      (cut ({} : Reader H).readBuffer.occupiedBytes).invalid = false := by
    have hnil : ({} : Reader H).readBuffer.occupiedBytes = [] := rfl
    rw [hnil, cut_of_short (by decide)]
    exact ⟨rfl, rfl⟩
  obtain ⟨r, hreads, hmsg⟩ := reads_eq hfits ReadBuffer.valid_new rfl hempty hhandles hint
  exact ⟨r, hreads, hmsg⟩

/-- A message with a handle, divided in its header. -/
theorem framing_divided : ∃ r : Reader ℕ,
    reads {} [⟨0, [9, 0, 0, 0, 1], []⟩, ⟨0, [0, 0, 0, 42], [7]⟩] 0 = some (r, true) ∧
      r.messages = [([42], [7])] := by
  have hnil : cut [] = ⟨[], [], false⟩ := cut_of_short (by decide)
  have hpart : cut [9, 0, 0, 0, 1] = ⟨[], [9, 0, 0, 0, 1], false⟩ := cut_of_short (by decide)
  have hcut : cut [9, 0, 0, 0, 1, 0, 0, 0, 42] = ⟨[([42], 1)], [], false⟩ := by
    have h := cut_of_complete (u := [9, 0, 0, 0, 1, 0, 0, 0, 42]) (by decide) (by decide)
      (by decide) []
    have hdrop : [9, 0, 0, 0, 1, 0, 0, 0, 42].drop (numBytes [9, 0, 0, 0, 1, 0, 0, 0, 42]) =
        ([] : List UInt8) := by decide
    rw [hdrop, List.append_nil, List.append_nil, hnil] at h
    exact h
  obtain ⟨r, hreads, hmsg⟩ := (framing (H := ℕ)).1
    [⟨0, [9, 0, 0, 0, 1], []⟩, ⟨0, [0, 0, 0, 42], [7]⟩] 0 (by decide) (by
      intro k
      match k with
      | 0 => exact (congrArg (needed ·.messages) hnil).le
      | 1 => exact (congrArg (needed ·.messages) hpart).le
      | k + 2 =>
        rw [List.take_of_length_le (Nat.le_add_left 2 k)]
        exact (congrArg (needed ·.messages) hcut).le)
  refine ⟨r, ?_, ?_⟩
  · rw [hreads]
    exact congrArg (fun c : Cut => some (r, !c.invalid)) hcut
  · rw [hmsg]
    exact congrArg (attach ·.messages [7]) hcut

end Reader

end MojoEdk.Channel
