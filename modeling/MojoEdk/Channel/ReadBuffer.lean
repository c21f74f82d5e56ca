import MojoEdk.Channel.Reading
import MojoEdk.Library.Machine
import MojoEdk.Library.Memory

/-!
# The read buffer as a queue

`Channel::ReadBuffer` of `channel.cc`, with sizes that are machine words (`SizedReadBuffer`),
and its caller, which writes to the region that it was given (`Session`). Whatever is reserved,
written, claimed and discarded, the occupied bytes are those that were claimed, in order, without
those that were discarded, and the region that `Reserve` returned is in the allocation, after the
occupied bytes (`Session.Refines`).

That is so if, and only if, `Reserve` is never given a size that wraps when the number of occupied
bytes is added to it (`Session.refines_iff`): such a size is taken for a small one, and the buffer
is not enlarged. The buffer is private to `Channel`, where `Reserve` is called with
`kReadBufferSize` or with the hint of `OnReadComplete`, which is at most
`kMaxChannelMessageSize`: these do not wrap (`Session.refines_of_hinted`), and the buffer does
what the one does whose sizes are not bounded (`SizedReadBuffer.Uses.agrees`).
-/

namespace MojoEdk.Channel

/-- `AlignedAlloc`: a block of the size, the contents of which are not specified. It does not
    return if there is no memory. -/
abbrev AlignedAlloc := (size : UInt64) → Option (Block UInt8 size.toNat)

/-- No block has half of all addresses, or more. -/
def AlignedAlloc.Bounded (alignedAlloc : AlignedAlloc) : Prop :=
  ∀ size, (alignedAlloc size).isSome → size.toNat < 2 ^ 63

/-- `Channel::ReadBuffer`, with its allocation. -/
structure SizedReadBuffer where
  size : UInt64
  data : Block UInt8 size.toNat
  numDiscardedBytes : UInt64 := 0
  numOccupiedBytes : UInt64 := 0

namespace SizedReadBuffer

/-- The constructor `ReadBuffer`, in the block that it allocates. -/
def new (data : Block UInt8 (UInt64.ofNat kReadBufferSize).toNat) : SizedReadBuffer where
  size := UInt64.ofNat kReadBufferSize
  data := data

/-- `num_occupied_bytes`. -/
def occupied (b : SizedReadBuffer) : UInt64 := b.numOccupiedBytes - b.numDiscardedBytes

/-- The bytes at `occupied_bytes`. -/
def occupiedBytes (b : SizedReadBuffer) : List UInt8 :=
  b.data.data.slice b.numDiscardedBytes.toNat b.occupied.toNat

/-- `Reserve`, which returns the address `numOccupiedBytes` in the allocation. -/
def reserve (b : SizedReadBuffer) (alignedAlloc : AlignedAlloc) (numBytes : UInt64) :
    Option SizedReadBuffer :=
  if b.numOccupiedBytes + numBytes > b.size then do
    let size := max (b.size * 2) (b.numOccupiedBytes + numBytes)
    let newData ← alignedAlloc size
    let newData ← b.data.copyTo 0 b.numOccupiedBytes.toNat newData
    some { b with size := size, data := newData }
  else some b

/-- The size that `GetReadBuffer` reserves. -/
def requiredCapacity (bufferCapacity : UInt64) : UInt64 :=
  if bufferCapacity = 0 then UInt64.ofNat kReadBufferSize else bufferCapacity

/-- What is written to the allocation, at an address. -/
def write (b : SizedReadBuffer) (address : ℕ) (bytes : List UInt8) : Option SizedReadBuffer :=
  (b.data.store address bytes).map fun data => { b with data := data }

/-- `Claim`. -/
def claim (b : SizedReadBuffer) (numBytes : UInt64) : SizedReadBuffer :=
  { b with numOccupiedBytes := b.numOccupiedBytes + numBytes }

/-- The first half of `Discard`: if nothing is left then the buffer is reused from the
    beginning. -/
def advance (b : SizedReadBuffer) (numBytes : UInt64) : SizedReadBuffer :=
  if b.numDiscardedBytes + numBytes = b.numOccupiedBytes then
    { b with numDiscardedBytes := 0, numOccupiedBytes := 0 }
  else { b with numDiscardedBytes := b.numDiscardedBytes + numBytes }

/-- The second half of `Discard`: what is left is moved to a smaller block if a lot of bytes
    are discarded in front of it. -/
def compact (b : SizedReadBuffer) (alignedAlloc : AlignedAlloc) : Option SizedReadBuffer :=
  if b.numDiscardedBytes > UInt64.ofNat kMaxUnusedReadBufferCapacity then do
    let numPreservedBytes := b.numOccupiedBytes - b.numDiscardedBytes
    let size := max numPreservedBytes (UInt64.ofNat kReadBufferSize)
    let newData ← alignedAlloc size
    let newData ← b.data.copyTo b.numDiscardedBytes.toNat numPreservedBytes.toNat newData
    some { size := size, data := newData, numOccupiedBytes := numPreservedBytes }
  else some b

/-- `Discard`. -/
def discard (b : SizedReadBuffer) (alignedAlloc : AlignedAlloc) (numBytes : UInt64) :
    Option SizedReadBuffer :=
  (b.advance numBytes).compact alignedAlloc

/-- What the operations keep. -/
structure Valid (b : SizedReadBuffer) : Prop where
  discarded_le : b.numDiscardedBytes ≤ b.numOccupiedBytes
  occupied_le : b.numOccupiedBytes ≤ b.size

variable {b b' : SizedReadBuffer} {alignedAlloc : AlignedAlloc} {n : UInt64} {bytes : List UInt8}

/-- The size added to what is occupied does not wrap. -/
def Fits (b : SizedReadBuffer) (numBytes : UInt64) : Prop :=
  b.numOccupiedBytes.toNat + numBytes.toNat < 2 ^ 64

theorem valid_new (data : Block UInt8 (UInt64.ofNat kReadBufferSize).toNat) : (new data).Valid :=
  ⟨UInt64.le_refl _, UInt64.le_iff_toNat_le.2 (Nat.zero_le _)⟩

theorem le_toNat_max (m n : UInt64) : m.toNat ≤ (max m n).toNat ∧ n.toNat ≤ (max m n).toNat := by
  rw [show max m n = if m ≤ n then n else m from rfl]
  split_ifs with hle
  · exact ⟨UInt64.le_iff_toNat_le.1 hle, le_rfl⟩
  · exact ⟨le_rfl, (not_le.1 (mt UInt64.le_iff_toNat_le.2 hle)).le⟩

theorem Valid.toNat_occupied (h : b.Valid) :
    b.occupied.toNat = b.numOccupiedBytes.toNat - b.numDiscardedBytes.toNat :=
  UInt64.toNat_sub_of_le _ _ h.discarded_le

/-- Nothing is occupied. -/
theorem occupiedBytes_of_eq (h : b.numDiscardedBytes = b.numOccupiedBytes) :
    b.occupiedBytes = [] := by
  rw [occupiedBytes, occupied, h, UInt64.sub_self, UInt64.toNat_zero, List.slice, List.take_zero]

theorem toNat_add (h : b.Fits n) :
    (b.numOccupiedBytes + n).toNat = b.numOccupiedBytes.toNat + n.toNat := by
  rw [UInt64.toNat_add]
  exact Nat.mod_eq_of_lt h

theorem counters_of_reserve (hs : b.reserve alignedAlloc n = some b') :
    b'.numDiscardedBytes = b.numDiscardedBytes ∧ b'.numOccupiedBytes = b.numOccupiedBytes := by
  rw [SizedReadBuffer.reserve] at hs
  split_ifs at hs
  · obtain ⟨newData, -, hs⟩ := Option.bind_eq_some_iff.1 hs
    obtain ⟨data, -, hs⟩ := Option.bind_eq_some_iff.1 hs
    obtain rfl := Option.some.inj hs
    exact ⟨rfl, rfl⟩
  · obtain rfl := Option.some.inj hs
    exact ⟨rfl, rfl⟩

/-- A size that does not wrap is reserved, and nothing else changes. -/
theorem Valid.reserve (h : b.Valid) (hfits : b.Fits n)
    (hs : b.reserve alignedAlloc n = some b') : b'.Valid ∧
      b'.numOccupiedBytes.toNat + n.toNat ≤ b'.size.toNat ∧
      b'.occupiedBytes = b.occupiedBytes := by
  have hdis := UInt64.le_iff_toNat_le.1 h.discarded_le
  have hadd := toNat_add hfits
  rw [SizedReadBuffer.reserve] at hs
  split_ifs at hs with hlt
  · -- A larger block, with a copy of what is occupied and discarded.
    obtain ⟨newData, -, hs⟩ := Option.bind_eq_some_iff.1 hs
    obtain ⟨data, hcopy, hs⟩ := Option.bind_eq_some_iff.1 hs
    obtain rfl := Option.some.inj hs
    have hsize : b.numOccupiedBytes.toNat + n.toNat ≤
        (max (b.size * 2) (b.numOccupiedBytes + n)).toNat := by
      rw [← hadd]
      exact (le_toNat_max _ _).2
    refine ⟨⟨h.discarded_le, UInt64.le_iff_toNat_le.2 (Nat.le_trans (Nat.le_add_right _ _) hsize)⟩,
      hsize, ?_⟩
    change data.data.slice b.numDiscardedBytes.toNat b.occupied.toNat = _
    rw [Block.slice_of_copyTo hcopy (by rw [h.toNat_occupied]; omega), Nat.zero_add, occupiedBytes]
  · obtain rfl := Option.some.inj hs
    refine ⟨h, ?_, rfl⟩
    rw [← hadd]
    exact UInt64.le_iff_toNat_le.1 (UInt64.not_lt.1 hlt)

/-- What is written after the occupied bytes does not change them. -/
theorem Valid.write (h : b.Valid) {address : ℕ} (haddress : b.numOccupiedBytes.toNat ≤ address)
    (hs : b.write address bytes = some b') : b'.Valid ∧
      b'.numOccupiedBytes = b.numOccupiedBytes ∧ b'.size = b.size ∧
      b'.occupiedBytes = b.occupiedBytes ∧ b'.data.data.slice address bytes.length = bytes := by
  have hdis := UInt64.le_iff_toNat_le.1 h.discarded_le
  obtain ⟨data, hstore, rfl⟩ := Option.map_eq_some_iff.1 hs
  obtain ⟨hle, hdata⟩ := Block.store_eq_some hstore
  have haddress' : address ≤ b.data.data.length := by
    rw [b.data.length_data]
    omega
  refine ⟨⟨h.discarded_le, h.occupied_le⟩, rfl, rfl, ?_, ?_⟩
  · change data.data.slice b.numDiscardedBytes.toNat b.occupied.toNat = _
    rw [hdata, List.slice_splice_of_le (by rw [h.toNat_occupied]; omega) haddress', occupiedBytes]
  · change data.data.slice address bytes.length = bytes
    rw [hdata, List.slice_splice_self haddress']

/-- What is claimed is occupied, after what was before. -/
theorem Valid.claim (h : b.Valid)
    (hroom : b.numOccupiedBytes.toNat + n.toNat ≤ b.size.toNat) : (b.claim n).Valid ∧
      (b.claim n).numOccupiedBytes.toNat = b.numOccupiedBytes.toNat + n.toNat ∧
      (b.claim n).occupiedBytes =
        b.occupiedBytes ++ b.data.data.slice b.numOccupiedBytes.toNat n.toNat := by
  have hdis := UInt64.le_iff_toNat_le.1 h.discarded_le
  have hadd := toNat_add (b := b) (n := n) (hroom.trans_lt b.size.toNat_lt)
  have hvalid : (b.claim n).Valid := by
    refine ⟨UInt64.le_iff_toNat_le.2 ?_, UInt64.le_iff_toNat_le.2 ?_⟩
    · exact hadd ▸ hdis.trans (Nat.le_add_right _ _)
    · exact hadd ▸ hroom
  refine ⟨hvalid, hadd, ?_⟩
  rw [occupiedBytes, hvalid.toNat_occupied]
  change b.data.data.slice b.numDiscardedBytes.toNat
    ((b.numOccupiedBytes + n).toNat - b.numDiscardedBytes.toNat) = _
  rw [hadd, Nat.sub_add_comm hdis, ← List.slice_append_slice, Nat.add_sub_cancel' hdis,
    occupiedBytes, h.toNat_occupied]

theorem Valid.advance (h : b.Valid) (hn : n ≤ b.occupied) : (b.advance n).Valid ∧
    (b.advance n).occupiedBytes = b.occupiedBytes.drop n.toNat := by
  have hdis := UInt64.le_iff_toNat_le.1 h.discarded_le
  have hn := UInt64.le_iff_toNat_le.1 hn
  rw [h.toNat_occupied] at hn
  have hadd : (b.numDiscardedBytes + n).toNat = b.numDiscardedBytes.toNat + n.toNat := by
    rw [UInt64.toNat_add]
    have := b.numOccupiedBytes.toNat_lt
    exact Nat.mod_eq_of_lt (by omega)
  -- What is left.
  have hrest : b.occupiedBytes.drop n.toNat =
      b.data.data.slice (b.numDiscardedBytes + n).toNat
        (b.numOccupiedBytes - (b.numDiscardedBytes + n)).toNat := by
    rw [UInt64.toNat_sub_of_le _ _ (UInt64.le_iff_toNat_le.2 (by omega)), hadd, occupiedBytes,
      h.toNat_occupied, List.slice, List.drop_take, List.drop_drop, List.slice]
    congr 1
    omega
  rw [SizedReadBuffer.advance, hrest]
  split_ifs with hall
  · refine ⟨⟨UInt64.le_refl _, UInt64.le_iff_toNat_le.2 (Nat.zero_le _)⟩, ?_⟩
    rw [occupiedBytes_of_eq rfl, hall, UInt64.sub_self, UInt64.toNat_zero, List.slice,
      List.take_zero]
  · refine ⟨⟨UInt64.le_iff_toNat_le.2 ?_, h.occupied_le⟩, rfl⟩
    change (b.numDiscardedBytes + n).toNat ≤ b.numOccupiedBytes.toNat
    omega

theorem Valid.compact (h : b.Valid) (hs : b.compact alignedAlloc = some b') : b'.Valid ∧
    b'.occupiedBytes = b.occupiedBytes := by
  rw [SizedReadBuffer.compact] at hs
  split_ifs at hs with hmax
  · obtain ⟨newData, -, hs⟩ := Option.bind_eq_some_iff.1 hs
    obtain ⟨data, hcopy, hs⟩ := Option.bind_eq_some_iff.1 hs
    obtain rfl := Option.some.inj hs
    refine ⟨⟨UInt64.le_iff_toNat_le.2 (Nat.zero_le _), ?_⟩, ?_⟩
    · exact UInt64.le_iff_toNat_le.2 (le_toNat_max _ _).1
    · change data.data.slice 0 (b.numOccupiedBytes - b.numDiscardedBytes - 0).toNat = _
      rw [UInt64.sub_zero, Block.slice_of_copyTo hcopy (Nat.zero_add _).le, Nat.add_zero]
      rfl
  · obtain rfl := Option.some.inj hs
    exact ⟨h, rfl⟩

/-- What is discarded is dropped, wherever the rest is moved. -/
theorem Valid.discard (h : b.Valid) (hn : n ≤ b.occupied)
    (hs : b.discard alignedAlloc n = some b') : b'.Valid ∧
      b'.occupiedBytes = b.occupiedBytes.drop n.toNat := by
  obtain ⟨hvalid, hbytes⟩ := h.advance hn
  obtain ⟨hvalid', hbytes'⟩ := hvalid.compact hs
  exact ⟨hvalid', hbytes'.trans hbytes⟩

/-- What is reserved is copied to an allocation that it fits in. -/
theorem Valid.isSome_reserve (h : b.Valid) (halloc : ∀ size, (alignedAlloc size).isSome) :
    (b.reserve alignedAlloc n).isSome := by
  rw [SizedReadBuffer.reserve]
  split_ifs with hlt
  · have hlt := UInt64.lt_iff_toNat_lt.1 hlt
    have hocc := UInt64.le_iff_toNat_le.1 h.occupied_le
    have hsize := (le_toNat_max (b.size * 2) (b.numOccupiedBytes + n)).2
    obtain ⟨newData, hnew⟩ := Option.isSome_iff_exists.1
      (halloc (max (b.size * 2) (b.numOccupiedBytes + n)))
    have hcopy : (b.data.copyTo 0 b.numOccupiedBytes.toNat newData).isSome :=
      Block.isSome_copyTo (by omega) (by omega)
    obtain ⟨data, hdata⟩ := Option.isSome_iff_exists.1 hcopy
    simp only [hnew, hdata, Option.bind_some, Option.bind_eq_bind, Option.isSome_some]
  · rfl

theorem Valid.isSome_compact (h : b.Valid) (halloc : ∀ size, (alignedAlloc size).isSome) :
    (b.compact alignedAlloc).isSome := by
  rw [SizedReadBuffer.compact]
  split_ifs with hmax
  · have hdis := UInt64.le_iff_toNat_le.1 h.discarded_le
    have hocc := UInt64.le_iff_toNat_le.1 h.occupied_le
    have hsub : (b.numOccupiedBytes - b.numDiscardedBytes).toNat =
      b.numOccupiedBytes.toNat - b.numDiscardedBytes.toNat := h.toNat_occupied
    have hsize := (le_toNat_max (b.numOccupiedBytes - b.numDiscardedBytes)
      (UInt64.ofNat kReadBufferSize)).1
    obtain ⟨newData, hnew⟩ := Option.isSome_iff_exists.1
      (halloc (max (b.numOccupiedBytes - b.numDiscardedBytes) (UInt64.ofNat kReadBufferSize)))
    have hcopy : (b.data.copyTo b.numDiscardedBytes.toNat
        (b.numOccupiedBytes - b.numDiscardedBytes).toNat newData).isSome :=
      Block.isSome_copyTo (by omega) hsize
    obtain ⟨data, hdata⟩ := Option.isSome_iff_exists.1 hcopy
    simp only [hnew, hdata, Option.bind_some, Option.bind_eq_bind, Option.isSome_some]
  · rfl

theorem Valid.isSome_discard (h : b.Valid) (hn : n ≤ b.occupied)
    (halloc : ∀ size, (alignedAlloc size).isSome) : (b.discard alignedAlloc n).isSome :=
  (h.advance hn).1.isSome_compact halloc

/-- The size of the buffer is that of a block that was allocated. -/
theorem size_lt_of_reserve (hsize : b.size.toNat < 2 ^ 63) (halloc : alignedAlloc.Bounded)
    (hs : b.reserve alignedAlloc n = some b') : b'.size.toNat < 2 ^ 63 := by
  rw [SizedReadBuffer.reserve] at hs
  split_ifs at hs
  · obtain ⟨newData, hnew, hs⟩ := Option.bind_eq_some_iff.1 hs
    obtain ⟨data, -, hs⟩ := Option.bind_eq_some_iff.1 hs
    obtain rfl := Option.some.inj hs
    exact halloc _ (Option.isSome_iff_exists.2 ⟨newData, hnew⟩)
  · obtain rfl := Option.some.inj hs
    exact hsize

theorem size_lt_of_discard (hsize : b.size.toNat < 2 ^ 63) (halloc : alignedAlloc.Bounded)
    (hs : b.discard alignedAlloc n = some b') : b'.size.toNat < 2 ^ 63 := by
  have hadvance : (b.advance n).size = b.size := by
    rw [SizedReadBuffer.advance]
    split_ifs <;> rfl
  rw [SizedReadBuffer.discard, SizedReadBuffer.compact] at hs
  split_ifs at hs
  · obtain ⟨newData, hnew, hs⟩ := Option.bind_eq_some_iff.1 hs
    obtain ⟨data, -, hs⟩ := Option.bind_eq_some_iff.1 hs
    obtain rfl := Option.some.inj hs
    exact halloc _ (Option.isSome_iff_exists.2 ⟨newData, hnew⟩)
  · obtain rfl := Option.some.inj hs
    rwa [hadvance]

/-- The size of a message does not wrap when it is added to what is occupied. -/
theorem Valid.fits (h : b.Valid) (hsize : b.size.toNat < 2 ^ 63)
    (hn : n.toNat ≤ kMaxChannelMessageSize) : b.Fits n := by
  have hocc := UInt64.le_iff_toNat_le.1 h.occupied_le
  have hmax : kMaxChannelMessageSize < 2 ^ 63 := by decide
  rw [Fits]
  omega

/-! ## The buffer with sizes that are not bounded -/

/-- A buffer and one with sizes that are not bounded have the same counters and the same occupied
    bytes. -/
structure Agrees (b : SizedReadBuffer) (r : ReadBuffer) : Prop where
  valid : b.Valid
  valid_right : r.Valid
  discarded_eq : b.numDiscardedBytes.toNat = r.numDiscardedBytes
  occupied_eq : b.numOccupiedBytes.toNat = r.numOccupiedBytes
  occupiedBytes_eq : b.occupiedBytes = r.occupiedBytes

variable {r : ReadBuffer}

theorem agrees_new (data : Block UInt8 (UInt64.ofNat kReadBufferSize).toNat) :
    (new data).Agrees .new where
  valid := valid_new data
  valid_right := ReadBuffer.valid_new
  discarded_eq := rfl
  occupied_eq := rfl
  occupiedBytes_eq := occupiedBytes_of_eq rfl

/-- A read of no more bytes than are reserved. -/
theorem Agrees.read (h : b.Agrees r) (hfits : b.Fits n) (hroom : bytes.length ≤ n.toNat)
    {b₁ b₂ : SizedReadBuffer} {m : UInt64} (hm : m.toNat = bytes.length)
    (hreserve : b.reserve alignedAlloc n = some b₁)
    (hwrite : b₁.write b₁.numOccupiedBytes.toNat bytes = some b₂) :
    (b₂.claim m).Agrees (((r.reserve n.toNat).fill bytes).claim bytes.length) := by
  obtain ⟨hdis, hocc⟩ := counters_of_reserve hreserve
  obtain ⟨hvalid₁, hroom₁, hbytes₁⟩ := h.valid.reserve hfits hreserve
  obtain ⟨hvalid₂, hocc₂, hsize₂, hbytes₂, hwritten⟩ := hvalid₁.write le_rfl hwrite
  obtain ⟨hvalid, hoccupied, hclaimed⟩ := hvalid₂.claim (n := m)
    (by rw [hocc₂, hsize₂]; omega)
  obtain ⟨hright, hroom', hbytes', hocc', hdis'⟩ := h.valid_right.reserve n.toNat
  have hfill : (r.reserve n.toNat).numOccupiedBytes + bytes.length ≤
      (r.reserve n.toNat).data.length := by omega
  obtain ⟨hright', hclaimed'⟩ := hright.fill_claim hfill
  obtain ⟨data, -, rfl⟩ := Option.map_eq_some_iff.1 hwrite
  exact
    { valid := hvalid
      valid_right := hright'
      discarded_eq := by
        change b₁.numDiscardedBytes.toNat = (r.reserve n.toNat).numDiscardedBytes
        rw [hdis, hdis', h.discarded_eq]
      occupied_eq := by
        change _ = (r.reserve n.toNat).numOccupiedBytes + bytes.length
        rw [hoccupied, hm, hocc₂, hocc, hocc', h.occupied_eq]
      occupiedBytes_eq := by
        rw [hclaimed, hclaimed', hbytes₂, hbytes₁, hbytes', h.occupiedBytes_eq, hocc₂, hm,
          hwritten] }

/-- The counters after `Discard` do not depend on sizes. -/
theorem Agrees.counters_discard (h : b.Agrees r) (hn : n ≤ b.occupied)
    (hs : b.discard alignedAlloc n = some b') :
    b'.numDiscardedBytes.toNat = (r.discard n.toNat).numDiscardedBytes ∧
      b'.numOccupiedBytes.toNat = (r.discard n.toNat).numOccupiedBytes := by
  have hdis := h.discarded_eq
  have hocc := h.occupied_eq
  have hle := UInt64.le_iff_toNat_le.1 h.valid.discarded_le
  have hn := UInt64.le_iff_toNat_le.1 hn
  rw [h.valid.toNat_occupied] at hn
  have hadd : (b.numDiscardedBytes + n).toNat = r.numDiscardedBytes + n.toNat := by
    have hlt := b.numOccupiedBytes.toNat_lt
    rw [UInt64.toNat_add, Nat.mod_eq_of_lt (by omega), hdis]
  have hall : b.numDiscardedBytes + n = b.numOccupiedBytes ↔
      r.numDiscardedBytes + n.toNat = r.numOccupiedBytes := by
    rw [← UInt64.toNat_inj, hadd, hocc]
  have hmax : b.numDiscardedBytes + n > UInt64.ofNat kMaxUnusedReadBufferCapacity ↔
      r.numDiscardedBytes + n.toNat > kMaxUnusedReadBufferCapacity := by
    rw [gt_iff_lt, UInt64.lt_iff_toNat_lt, hadd]
    rfl
  rw [SizedReadBuffer.discard, SizedReadBuffer.advance] at hs
  rw [ReadBuffer.discard]
  by_cases hr : r.numDiscardedBytes + n.toNat = r.numOccupiedBytes
  · have hzero : ¬(0 : UInt64) > UInt64.ofNat kMaxUnusedReadBufferCapacity := by decide
    rw [if_pos (hall.2 hr), SizedReadBuffer.compact, if_neg hzero] at hs
    simp only [hr, if_true]
    rw [if_neg (Nat.not_lt_zero _)]
    obtain rfl := Option.some.inj hs
    exact ⟨rfl, rfl⟩
  · rw [if_neg (mt hall.1 hr), SizedReadBuffer.compact] at hs
    simp only [hr, if_false]
    split_ifs at hs with hlt
    · rw [if_pos (hmax.1 hlt)]
      obtain ⟨newData, -, hs⟩ := Option.bind_eq_some_iff.1 hs
      obtain ⟨data, -, hs⟩ := Option.bind_eq_some_iff.1 hs
      obtain rfl := Option.some.inj hs
      refine ⟨rfl, ?_⟩
      change (b.numOccupiedBytes - (b.numDiscardedBytes + n)).toNat = _
      rw [UInt64.toNat_sub_of_le _ _ (UInt64.le_iff_toNat_le.2 (by omega)), hadd, hocc]
    · rw [if_neg (mt hmax.2 hlt)]
      obtain rfl := Option.some.inj hs
      exact ⟨hadd, hocc⟩

theorem Agrees.discard (h : b.Agrees r) (hn : n ≤ b.occupied)
    (hs : b.discard alignedAlloc n = some b') : b'.Agrees (r.discard n.toNat) := by
  obtain ⟨hvalid, hbytes⟩ := h.valid.discard hn hs
  have hle := UInt64.le_iff_toNat_le.1 hn
  rw [h.valid.toNat_occupied, h.occupied_eq, h.discarded_eq] at hle
  obtain ⟨hright, hbytes'⟩ := h.valid_right.discard (n := n.toNat) hle
  exact
    { valid := hvalid
      valid_right := hright
      discarded_eq := (h.counters_discard hn hs).1
      occupied_eq := (h.counters_discard hn hs).2
      occupiedBytes_eq := by rw [hbytes, hbytes', h.occupiedBytes_eq] }

/-- A buffer that is used to read messages, and one with sizes that are not bounded that is used
    in the same way. -/
inductive Uses : SizedReadBuffer → ReadBuffer → Prop
  | new (data : Block UInt8 (UInt64.ofNat kReadBufferSize).toNat) : Uses (new data) .new
  | read {b b₁ b₂ : SizedReadBuffer} {r : ReadBuffer} {alignedAlloc : AlignedAlloc} {n m : UInt64}
      {bytes : List UInt8} : Uses b r → alignedAlloc.Bounded →
      n.toNat ≤ kMaxChannelMessageSize → bytes.length ≤ n.toNat → m.toNat = bytes.length →
      b.reserve alignedAlloc n = some b₁ → b₁.write b₁.numOccupiedBytes.toNat bytes = some b₂ →
      Uses (b₂.claim m) (((r.reserve n.toNat).fill bytes).claim bytes.length)
  | discard {b b' : SizedReadBuffer} {r : ReadBuffer} {alignedAlloc : AlignedAlloc} {n : UInt64} :
      Uses b r → alignedAlloc.Bounded → n ≤ b.occupied → b.discard alignedAlloc n = some b' →
      Uses b' (r.discard n.toNat)

theorem Uses.agrees (h : b.Uses r) : b.Agrees r ∧ b.size.toNat < 2 ^ 63 := by
  induction h with
  | new data => exact ⟨agrees_new data, (by decide : kReadBufferSize < 2 ^ 63)⟩
  | read _ halloc hn hroom hm hreserve hwrite ih =>
    refine ⟨ih.1.read (ih.1.valid.fits ih.2 hn) hroom hm hreserve hwrite, ?_⟩
    have hsize := size_lt_of_reserve ih.2 halloc hreserve
    obtain ⟨data, -, rfl⟩ := Option.map_eq_some_iff.1 hwrite
    exact hsize
  | discard _ halloc hn hs ih => exact ⟨ih.1.discard hn hs, size_lt_of_discard ih.2 halloc hs⟩

end SizedReadBuffer

/-! ## Sessions -/

/-- The calls, and what the caller writes to the region that it was given. -/
inductive Call
  /-- `GetReadBuffer`. -/
  | getReadBuffer (bufferCapacity : UInt64)
  | reserve (numBytes : UInt64)
  | write (bytes : List UInt8)
  | claim (numBytes : UInt64)
  | discard (numBytes : UInt64)

/-- A buffer with its caller, that knows the address and the size of the region that it was
    given, and what it wrote there. The queue consists of the bytes that were claimed and not
    discarded. -/
structure Session where
  buffer : SizedReadBuffer
  address : ℕ := 0
  room : ℕ := 0
  written : List UInt8 := []
  queue : List UInt8 := []

namespace Session

/-- What the caller is given by `Reserve`. -/
def reserve (s : Session) (alignedAlloc : AlignedAlloc) (numBytes : UInt64) : Option Session :=
  (s.buffer.reserve alignedAlloc numBytes).map fun buffer =>
    { s with
      buffer := buffer
      address := buffer.numOccupiedBytes.toNat
      room := numBytes.toNat
      written := [] }

/-- What the caller may do: no more is written than was reserved, no more is claimed than was
    written, and no more is discarded than is occupied. -/
def Permits (s : Session) : Call → Prop
  | .getReadBuffer _ | .reserve _ => True
  | .write bytes => bytes.length ≤ s.room
  | .claim numBytes => numBytes.toNat ≤ s.written.length
  | .discard numBytes => numBytes ≤ s.buffer.occupied

instance (s : Session) : DecidablePred s.Permits
  | .getReadBuffer _ | .reserve _ => inferInstanceAs (Decidable True)
  | .write _ | .claim _ => inferInstanceAs (Decidable (_ ≤ _))
  | .discard numBytes => inferInstanceAs (Decidable (numBytes ≤ s.buffer.occupied))

/-- A call, with what is allocated for it. After `Discard` there is no region: it is not safe to
    assume that it is still valid. -/
def call (s : Session) (alignedAlloc : AlignedAlloc) : Call → Option Session
  | .getReadBuffer bufferCapacity =>
    s.reserve alignedAlloc (SizedReadBuffer.requiredCapacity bufferCapacity)
  | .reserve numBytes => s.reserve alignedAlloc numBytes
  | .write bytes =>
    (s.buffer.write s.address bytes).map fun buffer => { s with buffer := buffer, written := bytes }
  | .claim numBytes =>
    some
      -- What is written beyond the bytes claimed stays in the region.
      { buffer := s.buffer.claim numBytes
        address := s.address + numBytes.toNat
        room := s.room - numBytes.toNat
        written := s.written.drop numBytes.toNat
        queue := s.queue ++ s.written.take numBytes.toNat }
  | .discard numBytes =>
    (s.buffer.discard alignedAlloc numBytes).map fun buffer =>
      { buffer := buffer
        address := buffer.numOccupiedBytes.toNat
        queue := s.queue.drop numBytes.toNat }

/-- The buffer of a channel that was just created, in the block that was allocated for it. -/
def machine (data : Block UInt8 (UInt64.ofNat kReadBufferSize).toNat) :
    Machine Session (Call × AlignedAlloc) where
  init := { buffer := .new data }
  step s i := if s.Permits i.1 then s.call i.2 i.1 else none

/-- The buffer is a queue, and the region is in the allocation, after what is occupied. Whatever
    is permitted is defined, if memory is allocated. -/
structure Refines (s : Session) : Prop where
  valid : s.buffer.Valid
  isSome_call : ∀ c, s.Permits c → ∀ alignedAlloc : AlignedAlloc,
    (∀ size, (alignedAlloc size).isSome) → (s.call alignedAlloc c).isSome
  within : s.address + s.room ≤ s.buffer.size.toNat
  occupied_le : s.buffer.numOccupiedBytes.toNat ≤ s.address
  occupiedBytes_eq : s.buffer.occupiedBytes = s.queue

/-- A call of `Reserve` has a size that does not wrap when it is added to what is occupied. -/
def Fits (s : Session) : Call → Prop
  | .getReadBuffer bufferCapacity =>
    s.buffer.Fits (SizedReadBuffer.requiredCapacity bufferCapacity)
  | .reserve numBytes => s.buffer.Fits numBytes
  | .write _ | .claim _ | .discard _ => True

/-- The region is where the next byte is claimed, and what was written is there. -/
structure Inv (s : Session) : Prop where
  valid : s.buffer.Valid
  within : s.address + s.room ≤ s.buffer.size.toNat
  address_eq : s.buffer.numOccupiedBytes.toNat = s.address
  written_le : s.written.length ≤ s.room
  slice_written : s.buffer.data.data.slice s.address s.written.length = s.written
  occupiedBytes_eq : s.buffer.occupiedBytes = s.queue

variable {s s' : Session} {alignedAlloc : AlignedAlloc} {n : UInt64} {bytes : List UInt8}

theorem Inv.isSome_call (h : s.Inv) {c : Call} (hc : s.Permits c)
    (halloc : ∀ size, (alignedAlloc size).isSome) : (s.call alignedAlloc c).isSome := by
  have hwithin := h.within
  cases c with
  | getReadBuffer | reserve => exact Option.isSome_map.trans (h.valid.isSome_reserve halloc)
  | write bytes =>
    have hc : bytes.length ≤ s.room := hc
    exact Option.isSome_map.trans
      (Option.isSome_map.trans (Block.isSome_store (by omega)))
  | claim => rfl
  | discard => exact Option.isSome_map.trans (h.valid.isSome_discard hc halloc)

theorem Inv.refines (h : s.Inv) : s.Refines where
  valid := h.valid
  isSome_call := fun _ hc _ halloc => h.isSome_call hc halloc
  within := h.within
  occupied_le := h.address_eq.le
  occupiedBytes_eq := h.occupiedBytes_eq

theorem inv_init (data : Block UInt8 (UInt64.ofNat kReadBufferSize).toNat) :
    (machine data).init.Inv where
  valid := SizedReadBuffer.valid_new data
  within := Nat.zero_le _
  address_eq := rfl
  written_le := le_rfl
  slice_written := List.take_zero
  occupiedBytes_eq := SizedReadBuffer.occupiedBytes_of_eq rfl

theorem Inv.reserve (h : s.Inv) (hfits : s.buffer.Fits n)
    (hs : s.reserve alignedAlloc n = some s') : s'.Inv := by
  obtain ⟨buffer, hreserve, rfl⟩ := Option.map_eq_some_iff.1 hs
  obtain ⟨hvalid, hroom, hbytes⟩ := h.valid.reserve hfits hreserve
  exact
    { valid := hvalid
      within := hroom
      address_eq := rfl
      written_le := Nat.zero_le _
      slice_written := List.take_zero
      occupiedBytes_eq := hbytes.trans h.occupiedBytes_eq }

theorem Inv.write (h : s.Inv) (hroom : bytes.length ≤ s.room) {buffer : SizedReadBuffer}
    (hs : s.buffer.write s.address bytes = some buffer) :
    Inv { s with buffer := buffer, written := bytes } := by
  obtain ⟨hvalid, hocc, hsize, hbytes, hwritten⟩ := h.valid.write h.address_eq.le hs
  exact
    { valid := hvalid
      within := hsize ▸ h.within
      address_eq := hocc ▸ h.address_eq
      written_le := hroom
      slice_written := hwritten
      occupiedBytes_eq := hbytes.trans h.occupiedBytes_eq }

/-- The bytes that are claimed are those that were written. -/
theorem Inv.claim (h : s.Inv) (hn : n.toNat ≤ s.written.length) : Inv
    { buffer := s.buffer.claim n
      address := s.address + n.toNat
      room := s.room - n.toNat
      written := s.written.drop n.toNat
      queue := s.queue ++ s.written.take n.toNat } := by
  have hwithin := h.within
  have hwritten := h.written_le
  have haddress := h.address_eq
  obtain ⟨hvalid, hocc, hbytes⟩ := h.valid.claim (n := n) (by omega)
  have hslice {j m : ℕ} (hm : j + m ≤ s.written.length) :
      s.buffer.data.data.slice (s.address + j) m = s.written.slice j m := by
    rw [← List.slice_slice hm, h.slice_written]
  exact
    { valid := hvalid
      within := by
        change s.address + n.toNat + (s.room - n.toNat) ≤ s.buffer.size.toNat
        omega
      address_eq := hocc.trans (by rw [haddress])
      written_le := by
        rw [List.length_drop]
        change s.written.length - n.toNat ≤ s.room - n.toNat
        omega
      slice_written := by
        rw [List.length_drop]
        refine (hslice (by omega)).trans ?_
        rw [List.slice, List.take_of_length_le (by rw [List.length_drop])]
      occupiedBytes_eq := by
        rw [hbytes, h.occupiedBytes_eq, haddress, ← Nat.add_zero s.address,
          hslice (by omega), List.slice, List.drop_zero] }

theorem Inv.discard (h : s.Inv) (hn : n ≤ s.buffer.occupied) {buffer : SizedReadBuffer}
    (hs : s.buffer.discard alignedAlloc n = some buffer) : Inv
      { buffer := buffer
        address := buffer.numOccupiedBytes.toNat
        queue := s.queue.drop n.toNat } := by
  obtain ⟨hvalid, hbytes⟩ := h.valid.discard hn hs
  exact
    { valid := hvalid
      within := UInt64.le_iff_toNat_le.1 hvalid.occupied_le
      address_eq := rfl
      written_le := le_rfl
      slice_written := List.take_zero
      occupiedBytes_eq := by rw [hbytes, h.occupiedBytes_eq] }

theorem Inv.call (h : s.Inv) {c : Call} (hc : s.Permits c) (hfits : s.Fits c)
    (hs : s.call alignedAlloc c = some s') : s'.Inv := by
  cases c with
  | getReadBuffer | reserve => exact h.reserve hfits hs
  | write bytes =>
    obtain ⟨buffer, hwrite, rfl⟩ := Option.map_eq_some_iff.1 hs
    exact h.write hc hwrite
  | claim =>
    obtain rfl := Option.some.inj hs
    exact h.claim hc
  | discard =>
    obtain ⟨buffer, hdiscard, rfl⟩ := Option.map_eq_some_iff.1 hs
    exact h.discard hc hdiscard

/-- A call that a channel makes: the capacity is 0 or a hint of `OnReadComplete`. -/
def Hinted : Call → Prop
  | .getReadBuffer bufferCapacity => bufferCapacity.toNat ≤ kMaxChannelMessageSize
  | .reserve numBytes => numBytes.toNat ≤ kMaxChannelMessageSize
  | .write _ | .claim _ | .discard _ => True

theorem Inv.fits_of_hinted (h : s.Inv) (hsize : s.buffer.size.toNat < 2 ^ 63) {c : Call}
    (hc : Hinted c) : s.Fits c := by
  cases c with
  | getReadBuffer bufferCapacity =>
    refine h.valid.fits hsize ?_
    rw [SizedReadBuffer.requiredCapacity]
    split_ifs
    · decide
    · exact hc
  | reserve => exact h.valid.fits hsize hc
  | write | claim | discard => trivial

theorem size_lt_of_call (hsize : s.buffer.size.toNat < 2 ^ 63) (halloc : alignedAlloc.Bounded)
    {c : Call} (hs : s.call alignedAlloc c = some s') : s'.buffer.size.toNat < 2 ^ 63 := by
  cases c with
  | getReadBuffer | reserve =>
    obtain ⟨buffer, hreserve, rfl⟩ := Option.map_eq_some_iff.1 hs
    exact SizedReadBuffer.size_lt_of_reserve hsize halloc hreserve
  | write =>
    obtain ⟨buffer, hwrite, rfl⟩ := Option.map_eq_some_iff.1 hs
    obtain ⟨data, -, rfl⟩ := Option.map_eq_some_iff.1 hwrite
    exact hsize
  | claim =>
    obtain rfl := Option.some.inj hs
    exact hsize
  | discard =>
    obtain ⟨buffer, hdiscard, rfl⟩ := Option.map_eq_some_iff.1 hs
    exact SizedReadBuffer.size_lt_of_discard hsize halloc hdiscard

/-- The calls that a channel makes never reserve a size that wraps. -/
theorem refines_of_hinted {data : Block UInt8 (UInt64.ofNat kReadBufferSize).toNat}
    (hs : (machine data).Reachable (fun _ i => Hinted i.1 ∧ i.2.Bounded) s) : s.Refines := by
  have hinv : s.Inv ∧ s.buffer.size.toNat < 2 ^ 63 :=
    hs.invariant (P := fun s => s.Inv ∧ s.buffer.size.toNat < 2 ^ 63)
      ⟨inv_init data, (by decide : kReadBufferSize < 2 ^ 63)⟩ fun {s i s'} h hG hstep => by
        change (if s.Permits i.1 then s.call i.2 i.1 else none) = some s' at hstep
        split_ifs at hstep with hpermits
        exact ⟨h.1.call hpermits (h.1.fits_of_hinted h.2 hG.1) hstep,
          size_lt_of_call h.2 hG.2 hstep⟩
  exact hinv.1.refines

/-- A region of `n` bytes that is in the allocation was reserved with a size that does not
    wrap. -/
theorem Refines.fits_of_reserve (h : s'.Refines) (hs : s.reserve alignedAlloc n = some s') :
    s.buffer.Fits n := by
  obtain ⟨buffer, hreserve, rfl⟩ := Option.map_eq_some_iff.1 hs
  have hwithin : buffer.numOccupiedBytes.toNat + n.toNat ≤ buffer.size.toNat := h.within
  rw [(SizedReadBuffer.counters_of_reserve hreserve).2] at hwithin
  exact hwithin.trans_lt buffer.size.toNat_lt

theorem Refines.fits (h : s'.Refines) {c : Call} (hs : s.call alignedAlloc c = some s') :
    s.Fits c := by
  cases c with
  | getReadBuffer | reserve => exact h.fits_of_reserve hs
  | write | claim | discard => trivial

/-- In a run, the buffer is a queue after every call, if and only if `Reserve` is never given a
    size that wraps. -/
theorem refines_iff (data : Block UInt8 (UInt64.ofNat kReadBufferSize).toNat)
    (calls : List (Call × AlignedAlloc)) :
    ((machine data).init.Refines ∧
        (machine data).Every (fun _ _ s' => s'.Refines) (machine data).init calls) ↔
      (machine data).Every (fun s i _ => s.Fits i.1) (machine data).init calls := by
  have hcall {s s' : Session} {i : Call × AlignedAlloc} (hs : (machine data).step s i = some s') :
      s.Permits i.1 ∧ s.call i.2 i.1 = some s' := by
    change (if s.Permits i.1 then s.call i.2 i.1 else none) = some s' at hs
    split_ifs at hs with hpermits
    exact ⟨hpermits, hs⟩
  have hstep {s s' : Session} {i : Call × AlignedAlloc} (h : s.Inv) (hfits : s.Fits i.1)
      (hs : (machine data).step s i = some s') : s'.Inv :=
    h.call (hcall hs).1 hfits (hcall hs).2
  rw [and_iff_right (inv_init data).refines]
  refine Machine.every_congr (I := Inv) ?_ hstep (inv_init data) calls
  intro s i s' h hs
  exact ⟨fun hrefines => hrefines.fits (hcall hs).2, fun hfits => (hstep h hfits hs).refines⟩

/-- One byte is occupied, and then as many are reserved that the size wraps: the region is not in
    the allocation. -/
theorem not_refines : ∃ s : Session,
    (machine ⟨List.replicate _ 0, List.length_replicate⟩).Reachable Machine.Any s ∧ ¬s.Refines ∧
      s.buffer.size = 4096 ∧ s.address = 1 ∧ s.room = 2 ^ 64 - 1 := by
  obtain ⟨s, hs, hsize, haddress, hroom⟩ := Machine.exists_reachable
    (M := machine ⟨List.replicate _ 0, List.length_replicate⟩) (G := Machine.Any)
    (P := fun s => s.buffer.size = 4096 ∧ s.address = 1 ∧ s.room = 2 ^ 64 - 1)
    [(.reserve 1, fun _ => none), (.write [0], fun _ => none), (.claim 1, fun _ => none),
      (.reserve (2 ^ 64 - 1), fun _ => none)]
    (by decide +kernel)
  refine ⟨s, hs, fun h => ?_, hsize, haddress, hroom⟩
  have hwithin := h.within
  rw [hsize, haddress, hroom] at hwithin
  exact absurd hwithin (by decide)

end Session

end MojoEdk.Channel
