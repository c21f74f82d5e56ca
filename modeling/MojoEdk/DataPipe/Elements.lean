import MojoEdk.DataPipe.Multiples
import MojoEdk.DataPipe.Received
import MojoEdk.DataPipe.Turns

/-!
# Elements of data pipes

What the ends of a data pipe transfer is to be whole elements (`Pipe.MovesElements`). A call
tests the number it is given, but transfers what there is, if that is less, and
`CreateDataPipe` tests nothing. Elements stay whole if the capacity is a multiple of their
size, and if in addition their size is a power of two or the capacity is not so large that
offsets overflow (`Pipe.movesElements_iff`).
-/

namespace MojoEdk.DataPipe

open MojoEdk.Core MojoEdk.Core.DataPipe

namespace Pipe

variable {P H : Type} {o : DataPipeOptions} {s : Pipe P H}

/-- The numbers of bytes are of whole elements, and no call divides by zero. -/
structure MovesElements (o : DataPipeOptions) (s : Pipe P H) : Prop where
  amount : ∀ side d, (s.endpoint side).dispatcher = some d →
    o.elementNumBytes.toNat ∣ d.amount.toNat
  transfers : ∀ side d, (s.endpoint side).dispatcher = some d →
    ∀ n, Transfers d side n → o.elementNumBytes.toNat ∣ n
  remainder : ∀ side d, (s.endpoint side).dispatcher = some d →
    ∀ call : Call side, .division 0 ∉ (call.checked d).operations

theorem grain_elements (hpos : 0 < o.capacityNumBytes.toNat)
    (hdvd : o.elementNumBytes.toNat ∣ o.capacityNumBytes.toNat)
    (hoverflow : o.elementNumBytes.toNat ∣ 2 ^ 32 ∨
      2 * o.capacityNumBytes.toNat < 2 ^ 32 + o.elementNumBytes.toNat) :
    Grain o o.elementNumBytes.toNat :=
  ⟨hpos, hdvd, fun _ hn _ => hn, hoverflow⟩

/-- An end in the ring, with elements that have a size, divides by no zero. -/
theorem division_notMem {side : Side} {d : DataPipe P H} {m : ℕ} (h : Multiple o m side d)
    (helement : 0 < o.elementNumBytes.toNat) (call : Call side) :
    .division 0 ∉ (call.checked d).operations := by
  have hinv : DataPipe.Inv side d :=
    { ranged := ⟨h.options ▸ h.offset_lt, h.options ▸ h.amount_le⟩
      element := .inl (h.options ▸ helement.ne')
      window := h.window }
  intro hmem
  exact (hinv.checked call).1 _ hmem rfl

theorem movesElements_of_multiple
    (h : ∀ side d, (s.endpoint side).dispatcher = some d →
      Multiple o o.elementNumBytes.toNat side d)
    (hm : Grain o o.elementNumBytes.toNat) (helement : 0 < o.elementNumBytes.toNat) :
    s.MovesElements o where
  amount side d hd := (h side d hd).amount
  transfers side d hd _ ht := (h side d hd).dvd_of_transfers hm ht
  remainder side d hd call := division_notMem (h side d hd) helement call

/-- What is offered for writing ends at a multiple of the size of elements. -/
theorem MovesElements.dvd_offset (h : s.MovesElements o) {offset : UInt32}
    {channel : Side → Channel} (hs : s.Stands (settled o offset) channel)
    (hlt : offset.toNat < o.capacityNumBytes.toNat)
    (hdvd : o.elementNumBytes.toNat ∣ o.capacityNumBytes.toNat) :
    o.elementNumBytes.toNat ∣ offset.toNat := by
  obtain ⟨d, hlive, hready, hview⟩ := hs.ready .producer
  obtain ⟨hoptions, hoffset, hamount⟩ := View.mk.inj hview
  have hamount' : d.amount ≠ 0 := by
    rintro hzero
    rw [← hamount, hzero] at hlt
    cases hlt
  have hoffer := h.transfers .producer d (by rw [hlive]; rfl) _
    (.beginWriteData (congrArg (·.2.2) (hready.beginWriteData hamount')))
  have hle : d.offset ≤ d.options.capacityNumBytes := by
    rw [hoptions, hoffset]
    exact UInt32.le_iff_toNat_le.2 hlt.le
  rw [toNat_tail hle, hoptions, hoffset, hamount, Nat.min_eq_left (Nat.sub_le ..)] at hoffer
  exact (Nat.dvd_sub_iff_right hlt.le hdvd).1 hoffer

section Runs

variable {port₀ port₁ : P} {ring : PlatformSharedBuffer H} {pipeId : UInt64}

/-- A write of no bytes divides by the size of an element all the same. -/
theorem element_pos (h : (create o port₀ port₁ ring pipeId).MovesElements o) :
    0 < o.elementNumBytes.toNat := by
  refine Nat.pos_of_ne_zero fun hzero => ?_
  have hdivision := h.remainder .producer _ rfl (.writeData 0 false)
  exact hdivision (hzero ▸ List.mem_cons_self)

/-- Two turns, of all but an element, and of all: the offset overflows. -/
theorem element_dvd_of_overflow (helement : 0 < o.elementNumBytes.toNat)
    (hdvd : o.elementNumBytes.toNat ∣ o.capacityNumBytes.toNat)
    (hle : 2 ^ 32 + o.elementNumBytes.toNat ≤ 2 * o.capacityNumBytes.toNat)
    (h : ∀ s, (machine o port₀ port₁ ring pipeId).Reachable Machine.Any s → s.MovesElements o) :
    o.elementNumBytes.toNat ∣ 2 ^ 32 := by
  have hlt := o.capacityNumBytes.toNat_lt
  have hsub : (o.capacityNumBytes - o.elementNumBytes).toNat =
      o.capacityNumBytes.toNat - o.elementNumBytes.toNat :=
    UInt32.toNat_sub_of_le _ _ (UInt32.le_iff_toNat_le.2 (by omega))
  have hmod : (o.capacityNumBytes - o.elementNumBytes) % o.elementNumBytes = 0 :=
    mod_eq_zero_iff.2 (hsub ▸ Nat.dvd_sub hdvd dvd_rfl)
  have hmin : min (o.capacityNumBytes - o.elementNumBytes) o.capacityNumBytes =
      o.capacityNumBytes - o.elementNumBytes :=
    min_eq_left_iff.2 (UInt32.le_iff_toNat_le.2 (hsub ▸ Nat.sub_le ..))
  obtain ⟨s₁, hs₁, h₁, -⟩ := (stands_create o port₀ port₁ ring pipeId).exists_turn .init hmod hmin
    (ne_zero_of_toNat_pos (by omega))
  obtain ⟨s₂, hs₂, h₂, -⟩ := h₁.exists_turn hs₁ (mod_eq_zero_iff.2 hdvd)
    (min_eq_left_iff.2 UInt32.le_rfl) (ne_zero_of_toNat_pos (by omega))
  have hoffset := (h s₂ hs₂).dvd_offset h₂ (by
    rw [UInt32.toNat_mod]
    exact Nat.mod_lt _ (by omega)) hdvd
  simp only [UInt32.toNat_mod, UInt32.toNat_add, UInt32.zero_add, hsub] at hoffset
  rw [Nat.dvd_mod_iff hdvd, Nat.mod_eq_of_lt (by omega : o.capacityNumBytes.toNat -
    o.elementNumBytes.toNat < o.capacityNumBytes.toNat)] at hoffset
  have hsum : o.elementNumBytes.toNat ∣
      o.capacityNumBytes.toNat - o.elementNumBytes.toNat + o.capacityNumBytes.toNat :=
    Nat.dvd_add (Nat.dvd_sub hdvd dvd_rfl) hdvd
  have hwrap : (o.capacityNumBytes.toNat - o.elementNumBytes.toNat + o.capacityNumBytes.toNat) %
      2 ^ 32 = o.capacityNumBytes.toNat - o.elementNumBytes.toNat + o.capacityNumBytes.toNat -
        2 ^ 32 := by
    omega
  rw [hwrap] at hoffset
  exact (Nat.dvd_sub_iff_right (by omega) hsum).1 hoffset

/-- All that is transferred, whatever is done to the data pipe, is whole elements if and only
    if the capacity is, and either the size of an element divides `2 ^ 32` or no sum of an
    offset and a number of bytes reaches that. -/
theorem movesElements_iff {options : Option DataPipeOptions} (ho : createOptions options = .ok o) :
    (∀ s, (machine o port₀ port₁ ring pipeId).Reachable Machine.Any s → s.MovesElements o) ↔
      0 < o.elementNumBytes.toNat ∧ o.elementNumBytes.toNat ∣ o.capacityNumBytes.toNat ∧
        (o.elementNumBytes.toNat ∣ 2 ^ 32 ∨
          2 * o.capacityNumBytes.toNat < 2 ^ 32 + o.elementNumBytes.toNat) := by
  constructor
  · intro h
    have hcreate := h _ .init
    have helement := element_pos hcreate
    -- The producer starts with the capacity.
    have hdvd : o.elementNumBytes.toNat ∣ o.capacityNumBytes.toNat :=
      hcreate.amount .producer _ rfl
    refine ⟨helement, hdvd, ?_⟩
    by_contra hcon
    obtain ⟨hpow, hle⟩ := not_or.1 hcon
    exact hpow (element_dvd_of_overflow helement hdvd (Nat.not_lt.1 hle) h)
  · rintro ⟨helement, hdvd, hoverflow⟩ s hs
    have hm := grain_elements (capacity_pos_of_createOptions ho) hdvd hoverflow
    exact movesElements_of_multiple (fun side d hd => multiple_of_reachable hm hs hd) hm helement

/-- Elements of four bytes, in a ring of a thousand of them. -/
theorem movesElements_four : ∃ o, createOptions (some ⟨16, 0, 4, 4000⟩) = .ok o ∧
    ∀ s : Pipe Unit Unit, (machine o () () ⟨none, 4000⟩ 0).Reachable Machine.Any s →
      s.MovesElements o := by
  have ho : createOptions (some ⟨16, 0, 4, 4000⟩) = .ok ⟨16, 0, 4, 4000⟩ := rfl
  exact ⟨_, ho, (movesElements_iff ho).2 ⟨by decide, by decide, .inl (by decide)⟩⟩

/-- Elements of a hundred bytes, in a ring of the default size: of 656 elements, 655 are written,
    and 36 bytes of the next one. -/
theorem not_movesElements : ∃ (o : DataPipeOptions) (s : Pipe Unit Unit) (d : DataPipe Unit Unit),
    createOptions (some ⟨16, 0, 100, 0⟩) = .ok o ∧
      (machine o () () ⟨none, 65536⟩ 0).Reachable Machine.Any s ∧
      (s.endpoint .producer).dispatcher = some d ∧
      ((d.writeData s.buffer (fun _ => 7) 65600 false).rv = .ok ∧
        (d.writeData s.buffer (fun _ => 7) 65600 false).numBytes = 65536) ∧
      ¬s.MovesElements o := by
  refine ⟨⟨16, 0, 100, 65536⟩, _, _, rfl, .init, rfl, ⟨by decide, by decide⟩, fun h => ?_⟩
  have hdvd : 100 ∣ 65536 := h.amount .producer _ rfl
  exact absurd hdvd (by decide)

end Runs

end Pipe

end MojoEdk.DataPipe
