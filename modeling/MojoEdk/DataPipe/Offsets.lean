import MojoEdk.DataPipe.Multiples
import MojoEdk.DataPipe.Turns

/-!
# Offsets of data pipes

The offsets of the ends are to be the numbers of the bytes that were written and read, in the
ring, and a write in two phases that does not end in the ring is to fail
(`Pipe.ExactOffsets`). The sum of an offset and a number of bytes has 32 bits, as the capacity
has, and is correct as long as it does not overflow. Where it can overflow depends on the
steps in which the offsets go around the ring (`Pipe.exactOffsets_iff`): with elements of one
byte, that is where the capacity is more than half of what 32 bits can hold.
-/

namespace MojoEdk.DataPipe

open MojoEdk.Core MojoEdk.Core.DataPipe

namespace Pipe

variable {P H : Type*} {o : DataPipeOptions} {s : Pipe P H}

/-- The offsets are the numbers of bytes written and read, in the ring, and no write in two
    phases ends behind it. -/
structure ExactOffsets (o : DataPipeOptions) (s : Pipe P H) : Prop where
  offset : ∀ side d, (s.endpoint side).dispatcher = some d →
    d.offset.toNat = s.index side % o.capacityNumBytes.toNat
  rejects : ∀ d, (s.endpoint .producer).dispatcher = some d → ∀ n : UInt32,
    o.capacityNumBytes.toNat < d.offset.toNat + n.toNat → (d.endWriteData n).1 ≠ .ok

/-- No sum of an offset and a number of bytes reaches `2 ^ 32`. The offsets are multiples of
    the greatest common divisor, and elements as large as the ring do not move them. -/
def Fits (o : DataPipeOptions) : Prop :=
  o.capacityNumBytes ≤ o.elementNumBytes ∨ 2 * o.capacityNumBytes.toNat <
    2 ^ 32 + o.elementNumBytes.toNat.gcd o.capacityNumBytes.toNat

theorem fits_of_sized (ho : Sized o) : Fits o := by
  have := Nat.gcd_pos_of_pos_right o.elementNumBytes.toNat ho.1
  have := ho.2
  right
  omega

theorem Fits.exists_grain (h : Fits o) (hpos : 0 < o.capacityNumBytes.toNat) :
    ∃ m, Grain o m ∧ 2 * o.capacityNumBytes.toNat < 2 ^ 32 + m := by
  rcases h with hle | hlt
  · have hoverflow : 2 * o.capacityNumBytes.toNat < 2 ^ 32 + o.capacityNumBytes.toNat := by
      have := o.capacityNumBytes.toNat_lt
      omega
    refine ⟨o.capacityNumBytes.toNat, ⟨hpos, dvd_rfl, ?_, .inr hoverflow⟩, hoverflow⟩
    -- No element, or one that takes the whole ring.
    intro n hn hfits
    rcases Nat.eq_zero_or_pos n with rfl | hpos'
    · exact dvd_zero _
    · have := Nat.le_of_dvd hpos' hn
      have := UInt32.le_iff_toNat_le.1 hle
      obtain rfl : n = o.capacityNumBytes.toNat := by omega
      exact dvd_rfl
  · exact ⟨_, ⟨hpos, Nat.gcd_dvd_right .., fun n hn _ => (Nat.gcd_dvd_left ..).trans hn, .inr hlt⟩,
      hlt⟩

section Runs

variable {port₀ port₁ : P} {ring : PlatformSharedBuffer H} {pipeId : UInt64}

theorem noOverflow_of_reachable (hfits : Fits o) (hpos : 0 < o.capacityNumBytes.toNat)
    {G : Pipe P H → Action P H → Prop}
    (hs : (machine o port₀ port₁ ring pipeId).Reachable G s) : s.NoOverflow := by
  obtain ⟨m, hm, hlt⟩ := hfits.exists_grain hpos
  intro side d hd
  have h := multiple_of_reachable hm hs hd
  have hoffset := h.offset_add_le hm
  have hamount := h.amount_le
  omega

/-- The ends agree in a ring of any size, if there is no overflow. -/
theorem inv_of_fits (hfits : Fits o) (hpos : 0 < o.capacityNumBytes.toNat)
    {G : Pipe P H → Action P H → Prop}
    (hs : (machine o port₀ port₁ ring pipeId).Reachable G s) : Inv o s := by
  induction hs with
  | init => exact inv_create o
  | step hs _ hstep ih => exact ih.step hpos (noOverflow_of_reachable hfits hpos hs) hstep

theorem Inv.exactOffsets (h : Inv o s) (hsum : s.NoOverflow) : s.ExactOffsets o where
  offset side d hd := (h.agrees side _ (Endpoint.view_mem_views hd)).offset
  rejects d hd n hn hrv := by
    have hoptions : d.options = o := (h.agrees .producer _ (Endpoint.view_mem_views hd)).options
    have hsum := hsum .producer d hd
    rw [Core.DataPipe.endWriteData.eq_def] at hrv
    split_ifs at hrv with hclosed hphase hcount
    simp only [Bool.or_eq_true, decide_eq_true_eq, not_or, UInt32.not_lt] at hcount
    obtain ⟨⟨hle, -⟩, hend⟩ := hcount
    rw [UInt32.le_iff_toNat_le] at hle hend
    rw [UInt32.toNat_add, Nat.mod_eq_of_lt (by omega), hoptions] at hend
    omega

/-- Turns of one element each. -/
theorem exists_turns (helement : 0 < o.elementNumBytes.toNat)
    (hlt : o.elementNumBytes < o.capacityNumBytes) (port₀ port₁ : P)
    (ring : PlatformSharedBuffer H) (pipeId : UInt64) (j : ℕ) :
    ∃ s offset, (machine o port₀ port₁ ring pipeId).Reachable Machine.Any s ∧
      s.Stands (settled o offset) (fun _ => {}) ∧
      s.produced.length = j * o.elementNumBytes.toNat := by
  induction j with
  | zero => exact ⟨_, 0, .init, stands_create .., (Nat.zero_mul _).symm⟩
  | succ j ih =>
    obtain ⟨s, offset, hs, hstands, hlength⟩ := ih
    obtain ⟨s', hs', hstands', hlength'⟩ := hstands.exists_turn hs (mod_eq_zero_iff.2 dvd_rfl)
      (min_eq_left_iff.2 (UInt32.le_of_lt hlt)) (ne_zero_of_toNat_pos helement)
    refine ⟨s', _, hs', hstands', ?_⟩
    rw [hlength', hlength, Nat.succ_mul]

/-- A number of whole elements that is nearly as large as can be asked for. -/
theorem exists_request (e : UInt32) (he : 0 < e.toNat) :
    ∃ n : UInt32, n % e = 0 ∧ 2 ^ 32 ≤ n.toNat + e.toNat := by
  have hle : e.toNat * ((2 ^ 32 - 1) / e.toNat) ≤ 2 ^ 32 - 1 := Nat.mul_div_le ..
  have hn : (UInt32.ofNat (e.toNat * ((2 ^ 32 - 1) / e.toNat))).toNat =
      e.toNat * ((2 ^ 32 - 1) / e.toNat) := by
    rw [UInt32.toNat_ofNat', Nat.mod_eq_of_lt (by omega)]
  refine ⟨_, mod_eq_zero_iff.2 (hn ▸ Nat.dvd_mul_right ..), ?_⟩
  have := Nat.div_add_mod (2 ^ 32 - 1) e.toNat
  have := Nat.mod_lt (2 ^ 32 - 1) he
  omega

/-- A sum that overflows is wrong in a large ring. -/
theorem overflow_ne {capacity sum : ℕ} (hcapacity : 2 ^ 31 < capacity) (hlt : capacity < 2 ^ 32)
    (hle : 2 ^ 32 ≤ sum) (hsum : sum < 2 ^ 32 + 2 ^ 32) :
    sum % 2 ^ 32 % capacity ≠ sum % capacity := by
  intro heq
  have hmod : sum % 2 ^ 32 = sum - 2 ^ 32 := by omega
  rw [hmod] at heq
  have hdvd : capacity ∣ 2 ^ 32 := by
    have := (Nat.modEq_iff_dvd' (Nat.sub_le ..)).1 heq
    rwa [Nat.sub_sub_self hle] at this
  obtain ⟨k, hk⟩ := hdvd
  rcases Nat.lt_or_ge k 2 with hk' | hk'
  · have := Nat.mul_le_mul_left capacity (Nat.le_of_lt_succ hk')
    omega
  · have := Nat.mul_le_mul_left capacity hk'
    omega

theorem lt_of_not_fits (h : ¬Fits o) : 0 < o.elementNumBytes.toNat ∧
    o.elementNumBytes < o.capacityNumBytes ∧
    2 ^ 32 + o.elementNumBytes.toNat.gcd o.capacityNumBytes.toNat ≤
      2 * o.capacityNumBytes.toNat := by
  obtain ⟨hlt, hle⟩ := not_or.1 h
  refine ⟨Nat.pos_of_ne_zero fun hzero => ?_, UInt32.not_le.1 hlt, Nat.le_of_not_lt hle⟩
  have := o.capacityNumBytes.toNat_lt
  rw [hzero, Nat.gcd_zero_left] at hle
  omega

/-- A write at the last offset, of nearly as much as can be asked for, overflows. -/
theorem exists_overflow (hfits : ¬Fits o) {offset : ℕ} (hoffset : offset =
    o.capacityNumBytes.toNat - o.elementNumBytes.toNat.gcd o.capacityNumBytes.toNat) :
    ∃ numBytes : UInt32, numBytes % o.elementNumBytes = 0 ∧
      2 ^ 32 ≤ offset + (min numBytes o.capacityNumBytes).toNat := by
  obtain ⟨helement, hlt, hle⟩ := lt_of_not_fits hfits
  rw [UInt32.lt_iff_toNat_lt] at hlt
  obtain ⟨numBytes, hmod, hrequest⟩ := exists_request o.elementNumBytes helement
  refine ⟨numBytes, hmod, ?_⟩
  -- Elements and the ring differ by a multiple of the divisor.
  have hdvd : o.elementNumBytes.toNat.gcd o.capacityNumBytes.toNat ∣
      o.capacityNumBytes.toNat - o.elementNumBytes.toNat :=
    Nat.dvd_sub (Nat.gcd_dvd_right ..) (Nat.gcd_dvd_left ..)
  have := Nat.le_of_dvd (by omega) hdvd
  rw [UInt32.toNat_min]
  omega

theorem exists_not_exactOffsets (hfits : ¬Fits o) (port₀ port₁ : P)
    (ring : PlatformSharedBuffer H) (pipeId : UInt64) :
    ∃ s, (machine o port₀ port₁ ring pipeId).Reachable Machine.Any s ∧ ¬s.ExactOffsets o := by
  by_contra hcon
  have hexact : ∀ s, (machine o port₀ port₁ ring pipeId).Reachable Machine.Any s →
      s.ExactOffsets o := by
    intro s hs
    by_contra hne
    exact hcon ⟨s, hs, hne⟩
  obtain ⟨helement, hlt, hle⟩ := lt_of_not_fits hfits
  have hsize := o.capacityNumBytes.toNat_lt
  have hgcd := Nat.gcd_pos_of_pos_left o.capacityNumBytes.toNat helement
  -- The ends stand at the last offset.
  obtain ⟨j, hj⟩ := Ring.exists_mul_mod_eq helement (UInt32.lt_iff_toNat_lt.1 hlt)
  obtain ⟨s, offset, hs, hstands, hlength⟩ := exists_turns helement hlt port₀ port₁ ring pipeId j
  have hoffset : offset.toNat = j * o.elementNumBytes.toNat % o.capacityNumBytes.toNat := by
    obtain ⟨d, hlive, -, hview⟩ := hstands.ready .producer
    rw [← hlength, ← (View.mk.inj hview).2.1]
    exact (hexact s hs).offset .producer d (by rw [hlive]; rfl)
  obtain ⟨numBytes, hmod, hoverflow⟩ := exists_overflow hfits (hoffset.trans hj)
  obtain ⟨n, hmin⟩ : ∃ n, min numBytes o.capacityNumBytes = n := ⟨_, rfl⟩
  rw [hmin] at hoverflow
  obtain ⟨s', hstep, hstands', hindex, -⟩ := hstands.step_transfer .producer hmod hmin
    (ne_zero_of_toNat_pos (by omega))
  have hs' := hs.step (i := Side.producer.transfer numBytes) trivial hstep
  obtain ⟨d', hlive', -, hview'⟩ := hstands'.ready .producer
  have hoffset' : d'.offset = (offset + n) % o.capacityNumBytes := (View.mk.inj hview').2.1
  have hexact' := (hexact s' hs').offset .producer d' (by rw [hlive']; rfl)
  have hlength' : s'.index .producer = j * o.elementNumBytes.toNat + n.toNat := by
    rw [hindex, ← hlength]
    rfl
  rw [hoffset', hlength', ← Nat.mod_add_mod, ← hoffset, UInt32.toNat_mod, UInt32.toNat_add]
    at hexact'
  have hn : n.toNat < 2 ^ 32 := n.toNat_lt
  exact overflow_ne (by omega) hsize hoverflow (by omega) hexact'

/-- The offsets are correct, whatever is done to the data pipe, if and only if the sum of an
    offset and a number of bytes never reaches `2 ^ 32`. -/
theorem exactOffsets_iff {options : Option DataPipeOptions} (ho : createOptions options = .ok o) :
    (∀ s, (machine o port₀ port₁ ring pipeId).Reachable Machine.Any s → s.ExactOffsets o) ↔
      Fits o := by
  constructor
  · intro h
    by_contra hfits
    obtain ⟨s, hs, hne⟩ := exists_not_exactOffsets hfits port₀ port₁ ring pipeId
    exact hne (h s hs)
  · intro hfits s hs
    have hpos := capacity_pos_of_createOptions ho
    exact (inv_of_fits hfits hpos hs).exactOffsets (noOverflow_of_reachable hfits hpos hs)

/-- A ring of half of what 32 bits can hold. -/
theorem exactOffsets_half : ∃ o, createOptions (some ⟨16, 0, 1, 2147483648⟩) = .ok o ∧
    ∀ s : Pipe Unit Unit, (machine o () () ⟨none, 2147483648⟩ 0).Reachable Machine.Any s →
      s.ExactOffsets o := by
  have ho : createOptions (some ⟨16, 0, 1, 2147483648⟩) = .ok ⟨16, 0, 1, 2147483648⟩ := rfl
  exact ⟨_, ho, (exactOffsets_iff ho).2 (fits_of_sized ⟨by decide, by decide⟩)⟩

/-- A ring of three gigabytes. After two writes of two of them each, the offset is zero. After one,
    two gigabytes are accepted as written in two phases, though there is one to the end. -/
theorem not_exactOffsets : ∃ o, createOptions (some ⟨16, 0, 1, 3221225472⟩) = .ok o ∧
    (∃ (s : Pipe Unit Unit) (d : DataPipe Unit Unit),
      (machine o () () ⟨none, 3221225472⟩ 0).Reachable Machine.Any s ∧
      (s.endpoint .producer).dispatcher = some d ∧ s.produced.length = 2 ^ 32 ∧ d.offset = 0 ∧
      ¬s.ExactOffsets o) ∧
    ∃ (s : Pipe Unit Unit) (d : DataPipe Unit Unit),
      (machine o () () ⟨none, 3221225472⟩ 0).Reachable Machine.Any s ∧
      (s.endpoint .producer).dispatcher = some d ∧ d.offset = 2147483648 ∧
      (d.endWriteData 2147483648).1 = .ok := by
  have ho : createOptions (some ⟨16, 0, 1, 3221225472⟩) = .ok ⟨16, 0, 1, 3221225472⟩ := rfl
  have hmod : (2147483648 : UInt32) % 1 = 0 := by decide
  have hmin : min (2147483648 : UInt32) 3221225472 = 2147483648 := by decide
  have hne : (2147483648 : UInt32) ≠ 0 := by decide
  have hcreate := stands_create ⟨16, 0, 1, 3221225472⟩ () () (⟨none, 3221225472⟩ :
    PlatformSharedBuffer Unit) 0
  obtain ⟨s₁, hs₁, h₁, hlength₁⟩ := hcreate.exists_turn .init hmod hmin hne
  obtain ⟨d₁, hlive₁, hready₁, hview₁⟩ := h₁.ready .producer
  obtain ⟨hoptions₁, hoffset₁, hamount₁⟩ := View.mk.inj hview₁
  refine ⟨_, ho, ?_, ?_⟩
  · obtain ⟨s₂, hs₂, h₂, hlength₂⟩ := h₁.exists_turn hs₁ hmod hmin hne
    obtain ⟨d₂, hlive₂, -, hview₂⟩ := h₂.ready .producer
    have hoffset₂ : d₂.offset = 0 := (View.mk.inj hview₂).2.1
    have hd₂ : (s₂.endpoint .producer).dispatcher = some d₂ := by rw [hlive₂]; rfl
    have hlength : s₂.produced.length = 2 ^ 32 := by
      rw [hlength₂, hlength₁]
      rfl
    refine ⟨s₂, d₂, hs₂, hd₂, hlength, hoffset₂, fun hexact => ?_⟩
    have hoffset := hexact.offset .producer d₂ hd₂
    rw [hoffset₂, index, hlength] at hoffset
    exact absurd hoffset (by decide)
  · have hbegin := hready₁.beginWriteData (by rw [hamount₁]; decide)
    have hstep : s₁.step .beginWriteData = some (s₁.beginWriteData d₁) := by
      simp only [step, hlive₁, Endpoint.dispatcher, Option.map_some]
    refine ⟨s₁.beginWriteData d₁, { d₁ with inTwoPhase := true },
      hs₁.step (i := Action.beginWriteData) trivial hstep, ?_, hoffset₁, ?_⟩
    · simp only [Pipe.beginWriteData, hbegin, call, hlive₁]
      rfl
    · refine hready₁.endWriteData ?_ ?_ ?_
      · rw [hamount₁]
        decide
      · rw [hoptions₁]
        decide
      · rw [hoptions₁, hoffset₁]
        decide

end Runs

end Pipe

end MojoEdk.DataPipe
