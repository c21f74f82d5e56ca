import MojoEdk.Channel.Reading

/-!
# Batches of reads

When a socket is readable, `ChannelPosix` reads in a loop, as long as a read fills the
buffer, more bytes are wanted, and the batch is not large yet. The loop does not forget the
size of a read when the next one would block. If the message that is incomplete lacks just
as many bytes as the last read had, the loop goes on until they arrive
(`Batch.not_ends_half`). Otherwise each iteration that does not leave the loop reads
something (`Batch.ends_iff`).
-/

namespace MojoEdk.Channel

def kMaxBatchReadCapacity : ℕ := 256 * 1024

/-- What `PlatformChannelRecvmsg` returns: bytes and handles, nothing, as the other end is
    closed, or an error, which may be that the call would block. -/
inductive Recvmsg (H : Type)
  | bytes (bytes : List UInt8) (handles : List H)
  | closed
  | wouldBlock
  | error

/-- The results of the calls of `PlatformChannelRecvmsg`, each with a capacity. -/
structure ReadSocket (H : Type) where
  recvmsg : ℕ → ℕ → Recvmsg H
  recvmsg_bytes : ∀ i capacity bytes handles, recvmsg i capacity = .bytes bytes handles →
    bytes ≠ [] ∧ bytes.length ≤ capacity

/-- The state of the loop of `OnFileCanReadWithoutBlocking`. -/
structure Batch (H : Type) where
  reader : Reader H
  nextReadSize : ℕ := 0
  totalBytesRead : ℕ := 0
  bytesRead : ℕ := 0

/-- Whether the loop goes on after an iteration, or is left, perhaps with a read error. -/
inductive BatchOutcome (H : Type)
  | goOn (b : Batch H)
  | leave (b : Batch H) (readError : Bool)

variable {H : Type}

namespace Batch

/-- The capacity of the next read. -/
def bufferCapacity (b : Batch H) : ℕ := requiredCapacity b.nextReadSize

/-- The condition of the loop, after a read with a capacity. -/
def check (b : Batch H) (bufferCapacity : ℕ) : BatchOutcome H :=
  if b.bytesRead = bufferCapacity ∧ b.totalBytesRead < kMaxBatchReadCapacity ∧ 0 < b.nextReadSize
  then .goOn b else .leave b false

/-- An iteration of the loop. -/
def iteration (socket : ReadSocket H) (i : ℕ) (b : Batch H) : Option (BatchOutcome H) :=
  match socket.recvmsg i b.bufferCapacity with
  | .bytes bytes handles =>
    (b.reader.read ⟨b.nextReadSize, bytes, handles⟩ b.nextReadSize).map fun (reader, ok, hint) =>
      let b' : Batch H :=
        { reader := reader
          nextReadSize := hint
          totalBytesRead := b.totalBytesRead + bytes.length
          bytesRead := bytes.length }
      if ok then b'.check b.bufferCapacity else .leave b' true
  | .wouldBlock =>
    -- `bytes_read` is that of the read before: the condition is checked with it.
    some ({ b with reader := b.reader.getReadBuffer b.nextReadSize }.check b.bufferCapacity)
  | .closed | .error =>
    some (.leave { b with reader := b.reader.getReadBuffer b.nextReadSize } true)

/-- The state before an iteration, if the loop was not left before. -/
def before (socket : ReadSocket H) (r : Reader H) : ℕ → Option (Batch H)
  | 0 => some { reader := r }
  | i + 1 =>
    (before socket r i).bind fun b =>
      match b.iteration socket i with
      | some (.goOn b') => some b'
      | _ => none

/-! ## What is to be expected -/

/-- The loop reads something in each iteration that does not leave it, and is left when a
    call would block. So it is left in the end, after no more iterations than bytes that were
    read, or that a batch has. -/
structure Ends (socket : ReadSocket H) (r : Reader H) : Prop where
  reads : ∀ i b b', before socket r i = some b → b.iteration socket i = some (.goOn b') →
    ∃ bytes handles, socket.recvmsg i b.bufferCapacity = .bytes bytes handles ∧ bytes ≠ [] ∧
      b'.totalBytesRead = b.totalBytesRead + bytes.length
  leaves : ∀ i b, before socket r i = some b →
    socket.recvmsg i b.bufferCapacity = .wouldBlock →
    ∃ b', b.iteration socket i = some (.leave b' false)
  count : ∀ i b, before socket r i = some b →
    i ≤ b.totalBytesRead ∧ (0 < i → i < kMaxBatchReadCapacity)
  returns : ∃ i b b' readError, before socket r i = some b ∧
    b.iteration socket i = some (.leave b' readError)

/-- No call would block that has the capacity of the last read. -/
def NotRepeated (socket : ReadSocket H) (r : Reader H) : Prop :=
  ∀ i b, before socket r i = some b → socket.recvmsg i b.bufferCapacity = .wouldBlock →
    b.bytesRead ≠ b.bufferCapacity

/-! ## Reading returns -/

end Batch

namespace Reader

variable {r : Reader H}

theorem exists_loop {fuel : ℕ} (hfuel : r.readBuffer.occupied < fuel * sizeofHeader)
    (hv : r.readBuffer.Valid) (did : Bool) (hint : ℕ) :
    ∃ r' ok hint', loop fuel r did hint = some (r', ok, hint') ∧ r'.readBuffer.Valid := by
  induction fuel generalizing r did with
  | zero => omega
  | succ fuel ih =>
    rw [loop]
    by_cases hshort : r.readBuffer.occupied < sizeofHeader
    · rw [if_pos hshort]
      exact ⟨r, _, _, rfl, hv⟩
    · rw [if_neg hshort]
      cases hiteration : r.iteration with
      | invalid => exact ⟨r, _, _, rfl, hv⟩
      | incomplete hint' => exact ⟨r, _, _, rfl, hv⟩
      | noHandles => exact ⟨r, _, _, rfl, hv⟩
      | dispatched r₁ =>
        obtain ⟨hv₁, hless⟩ := occupied_of_dispatched hv hiteration
        rw [Nat.succ_mul] at hfuel
        exact ih (by omega) hv₁ _

/-- A read that fits returns, whatever the messages and the handles. -/
theorem exists_read (hv : r.readBuffer.Valid) {d : Read H} (hfits : d.Fits) (hint : ℕ) :
    ∃ r' ok hint', r.read d hint = some (r', ok, hint') ∧ r'.readBuffer.Valid := by
  obtain ⟨hv₁, hroom, -⟩ := hv.reserve (requiredCapacity d.bufferCapacity)
  obtain ⟨hv₂, -⟩ := hv₁.fill_claim ((Nat.add_le_add_left hfits _).trans hroom)
  exact exists_loop (r := { r with
    readBuffer := ((r.readBuffer.reserve (requiredCapacity d.bufferCapacity)).fill
      d.bytes).claim d.bytes.length
    incomingPlatformHandles := r.incomingPlatformHandles ++ d.handles })
    (Nat.lt_mul_of_div_lt (Nat.lt_succ_self _) (by decide)) hv₂ false hint

end Reader

namespace Batch

variable {socket : ReadSocket H} {r : Reader H} {b b' : Batch H} {i : ℕ}

/-! ## Iterations -/

/-- What holds before an iteration that is not the first. -/
structure Going (b : Batch H) : Prop where
  lt : b.totalBytesRead < kMaxBatchReadCapacity
  pos : 0 < b.nextReadSize

theorem check_eq_goOn {capacity : ℕ} (h : b.check capacity = .goOn b') :
    b' = b ∧ b.bytesRead = capacity ∧ Going b := by
  rw [check] at h
  split_ifs at h with hcheck
  obtain rfl := BatchOutcome.goOn.inj h
  exact ⟨rfl, hcheck.1, hcheck.2.1, hcheck.2.2⟩

/-- An iteration that does not leave the loop read something, or the last read had the same
    capacity. -/
theorem iteration_goOn (h : b.iteration socket i = some (.goOn b')) : Going b' ∧
    ((∃ bytes handles, socket.recvmsg i b.bufferCapacity = .bytes bytes handles ∧ bytes ≠ [] ∧
      b'.totalBytesRead = b.totalBytesRead + bytes.length) ∨
    socket.recvmsg i b.bufferCapacity = .wouldBlock ∧ b.bytesRead = b.bufferCapacity) := by
  rw [iteration] at h
  cases hrecv : socket.recvmsg i b.bufferCapacity with
  | bytes bytes handles =>
    rw [hrecv] at h
    obtain ⟨⟨reader, ok, hint⟩, -, hb⟩ := Option.map_eq_some_iff.1 h
    dsimp only at hb
    split_ifs at hb
    obtain ⟨rfl, -, hgoing⟩ := check_eq_goOn hb
    exact ⟨hgoing, .inl ⟨bytes, handles, rfl, (socket.recvmsg_bytes _ _ _ _ hrecv).1, rfl⟩⟩
  | wouldBlock =>
    rw [hrecv] at h
    obtain ⟨rfl, hcapacity, hgoing⟩ := check_eq_goOn (Option.some.inj h)
    exact ⟨hgoing, .inr ⟨rfl, hcapacity⟩⟩
  | closed =>
    rw [hrecv] at h
    cases h
  | error =>
    rw [hrecv] at h
    cases h

/-- An iteration returns. -/
theorem exists_iteration (hv : b.reader.readBuffer.Valid) (socket : ReadSocket H) (i : ℕ) :
    ∃ outcome, b.iteration socket i = some outcome ∧
      ∀ b', outcome = .goOn b' → b'.reader.readBuffer.Valid := by
  have hreserve := (hv.reserve b.bufferCapacity).1
  rw [iteration]
  cases hrecv : socket.recvmsg i b.bufferCapacity with
  | bytes bytes handles =>
    have hfits : (⟨b.nextReadSize, bytes, handles⟩ : Read H).Fits :=
      (socket.recvmsg_bytes _ _ _ _ hrecv).2
    obtain ⟨reader, ok, hint, hread, hv'⟩ := Reader.exists_read hv hfits b.nextReadSize
    dsimp only
    rw [hread]
    refine ⟨_, rfl, fun b' hb' => ?_⟩
    dsimp only at hb'
    split_ifs at hb'
    obtain ⟨rfl, -⟩ := check_eq_goOn hb'
    exact hv'
  | wouldBlock =>
    refine ⟨_, rfl, fun b' hb' => ?_⟩
    obtain ⟨rfl, -⟩ := check_eq_goOn hb'
    exact hreserve
  | closed => exact ⟨_, rfl, nofun⟩
  | error => exact ⟨_, rfl, nofun⟩

theorem before_succ_eq_some (h : before socket r (i + 1) = some b') :
    ∃ b, before socket r i = some b ∧ b.iteration socket i = some (.goOn b') := by
  obtain ⟨b, hb, hgo⟩ := Option.bind_eq_some_iff.1 h
  refine ⟨b, hb, ?_⟩
  split at hgo
  next b₁ hb₁ => rwa [← Option.some.inj hgo]
  next => cases hgo

theorem before_valid (hr : r.readBuffer.Valid) (h : before socket r i = some b) :
    b.reader.readBuffer.Valid := by
  induction i generalizing b with
  | zero => exact Option.some.inj h ▸ hr
  | succ i ih =>
    obtain ⟨b₀, hb₀, hgo⟩ := before_succ_eq_some h
    obtain ⟨outcome, houtcome, hvalid⟩ := exists_iteration (ih hb₀) socket i
    exact hvalid b (Option.some.inj (houtcome.symm.trans hgo))

/-- Before the first iteration nothing was read, and the capacity is not zero. -/
theorem going_of_bytesRead (h : before socket r i = some b) (hb : b.bytesRead = b.bufferCapacity) :
    Going b := by
  cases i with
  | zero =>
    obtain rfl := Option.some.inj h
    cases hb
  | succ i =>
    obtain ⟨b₀, -, hgo⟩ := before_succ_eq_some h
    exact (iteration_goOn hgo).1

theorem le_totalBytesRead (hnot : NotRepeated socket r) (h : before socket r i = some b) :
    i ≤ b.totalBytesRead ∧ (0 < i → i < kMaxBatchReadCapacity) := by
  induction i generalizing b with
  | zero => exact ⟨Nat.zero_le _, fun h => absurd h (lt_irrefl 0)⟩
  | succ i ih =>
    obtain ⟨b₀, hb₀, hgo⟩ := before_succ_eq_some h
    obtain ⟨hgoing, ⟨bytes, handles, -, hne, htotal⟩ | ⟨hblock, hsame⟩⟩ := iteration_goOn hgo
    · have hpos := List.length_pos_of_ne_nil hne
      have hle := (ih hb₀).1
      have hlt := hgoing.lt
      exact ⟨by omega, fun _ => by omega⟩
    · exact absurd hsame (hnot i b₀ hb₀ hblock)

/-- The loop is left within the iterations that a batch may have. -/
theorem exists_leave (hr : r.readBuffer.Valid) (hnot : NotRepeated socket r) :
    ∃ i b b' readError, before socket r i = some b ∧
      b.iteration socket i = some (.leave b' readError) := by
  by_contra hnever
  push Not at hnever
  have hall (i : ℕ) : ∃ b, before socket r i = some b := by
    induction i with
    | zero => exact ⟨_, rfl⟩
    | succ i ih =>
      obtain ⟨b, hb⟩ := ih
      obtain ⟨outcome, houtcome, -⟩ := exists_iteration (before_valid hr hb) socket i
      cases outcome with
      | goOn b' => exact ⟨b', by rw [before, hb, Option.bind_some, houtcome]⟩
      | leave b' readError => exact absurd houtcome (hnever i b b' readError hb)
  obtain ⟨b, hb⟩ := hall kMaxBatchReadCapacity
  exact absurd ((le_totalBytesRead hnot hb).2 (by decide)) (lt_irrefl _)

/-- The loop ends as it should if and only if no call would block that has the capacity of the
    last read. -/
theorem ends_iff (hr : r.readBuffer.Valid) : Ends socket r ↔ NotRepeated socket r := by
  constructor
  · intro h i b hb hblock hsame
    obtain ⟨b', hleave⟩ := h.leaves i b hb hblock
    have hgoing := going_of_bytesRead hb hsame
    rw [iteration, hblock] at hleave
    rw [check, if_pos ⟨hsame, hgoing.lt, hgoing.pos⟩] at hleave
    cases hleave
  · intro hnot
    refine ⟨fun i b b' hb hgo => ?_, fun i b hb hblock => ?_, fun i b => le_totalBytesRead hnot,
      exists_leave hr hnot⟩
    · exact (iteration_goOn hgo).2.resolve_right fun h => hnot i b hb h.1 h.2
    · rw [iteration, hblock]
      rw [check, if_neg fun h => hnot i b hb hblock h.1]
      exact ⟨_, rfl⟩

/-- A socket from which nothing can be read. -/
def silent : ReadSocket ℕ where
  recvmsg _ _ := .wouldBlock
  recvmsg_bytes := nofun

theorem ends_iff_silent : Ends silent {} :=
  (ends_iff ReadBuffer.valid_new).2 fun i b hb _ => by
    have hnone (i : ℕ) : before silent {} (i + 1) = none := by
      induction i with
      | zero => rfl
      | succ i ih =>
        rw [before, ih]
        rfl
    cases i with
    | zero =>
      obtain rfl := Option.some.inj hb
      decide
    | succ i =>
      rw [hnone] at hb
      cases hb

/-- A socket from which half of a message can be read, of 8192 bytes. -/
def half : ReadSocket ℕ where
  recvmsg i capacity :=
    if i = 0 ∧ capacity = 4096 then .bytes (leBytes 4 8192 ++ List.replicate 4092 0) []
    else .wouldBlock
  recvmsg_bytes i capacity bytes handles h := by
    split_ifs at h with hi
    obtain ⟨rfl, -⟩ := Recvmsg.bytes.inj h
    refine ⟨List.append_ne_nil_of_left_ne_nil (by decide) _, ?_⟩
    rw [hi.2, List.length_append, length_leBytes, List.length_replicate]

/-- The loop goes on for ever. -/
theorem not_ends_half : (∀ i, (before half {} i).isSome = true) ∧ ¬Ends half {} := by
  have hone : ((before half {} 1).any fun b =>
      b.bytesRead = 4096 ∧ b.nextReadSize = 4096 ∧ b.totalBytesRead = 4096) = true := by
    decide +kernel
  have hall (i : ℕ) : ∃ b, before half {} (i + 1) = some b ∧
      b.bytesRead = 4096 ∧ b.nextReadSize = 4096 ∧ b.totalBytesRead = 4096 := by
    induction i with
    | zero =>
      obtain ⟨b, hb, hsizes⟩ := (Option.any_eq_true _ _).1 hone
      exact ⟨b, hb, of_decide_eq_true hsizes⟩
    | succ i ih =>
      obtain ⟨b, hb, hread, hnext, htotal⟩ := ih
      have hgo : b.iteration half (i + 1) =
          some (.goOn { b with reader := b.reader.getReadBuffer b.nextReadSize }) := by
        have hblock : half.recvmsg (i + 1) b.bufferCapacity = .wouldBlock := by
          rw [half]
          dsimp only
          exact if_neg fun h => Nat.succ_ne_zero i h.1
        rw [iteration, hblock]
        dsimp only
        rw [check, if_pos]
        rw [bufferCapacity, hnext, hread, htotal]
        decide
      refine ⟨{ b with reader := b.reader.getReadBuffer b.nextReadSize }, ?_, hread, hnext, htotal⟩
      rw [before, hb, Option.bind_some, hgo]
  refine ⟨fun i => ?_, fun h => ?_⟩
  · cases i with
    | zero => rfl
    | succ i =>
      obtain ⟨b, hb, -⟩ := hall i
      rw [hb]
      rfl
  · obtain ⟨i, b, b', readError, hb, hleave⟩ := h.returns
    obtain ⟨b₁, hb₁, -⟩ := hall i
    obtain ⟨b₀, hb₀, hgo⟩ := before_succ_eq_some hb₁
    obtain rfl := Option.some.inj (hb.symm.trans hb₀)
    cases hleave.symm.trans hgo

end Batch

end MojoEdk.Channel
