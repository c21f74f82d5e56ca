import MojoEdk.DataPipe.Stable

/-!
# Multiples in data pipes

A call on an end of a data pipe transfers what the caller asks for, in whole elements, or
all there is, if that is less. So all numbers of bytes are multiples of a number that
divides the capacity, if whole elements are, as far as they fit into the ring (`Grain`).
Offsets stay multiples of it if the sum of an offset and a number of bytes does not
overflow, or does no harm when it does.
-/

namespace MojoEdk.DataPipe

open MojoEdk.Core MojoEdk.Core.DataPipe

variable {P H : Type*} {o : DataPipeOptions} {m : ℕ} {side : Side} {d d' : DataPipe P H}

/-! ## Transfers -/

/-- The numbers of bytes that the calls on an end transfer, and of those that they offer. -/
inductive Transfers (d : DataPipe P H) : Side → ℕ → Prop
  | writeData (data elements : ℕ → UInt8) (numBytes : UInt32) (allOrNone : Bool)
      (h : (d.writeData data elements numBytes allOrNone).rv = .ok) :
      Transfers d .producer (d.writeData data elements numBytes allOrNone).numBytes.toNat
  | beginWriteData {offset size : ℕ} (h : d.beginWriteData.2.2 = some (offset, size)) :
      Transfers d .producer size
  | endWriteData (numBytesWritten : UInt32) (h : (d.endWriteData numBytesWritten).1 = .ok) :
      Transfers d .producer numBytesWritten.toNat
  | readData (data elements : ℕ → UInt8) (numBytes : UInt32) (flags : ReadDataFlags)
      (h : (d.readData data elements numBytes flags).rv = .ok) :
      Transfers d .consumer (d.readData data elements numBytes flags).numBytes.toNat
  | beginReadData {flags : ReadDataFlags} {offset size : ℕ}
      (h : (d.beginReadData flags).2.2 = some (offset, size)) : Transfers d .consumer size
  | endReadData (numBytesRead : UInt32) (h : (d.endReadData numBytesRead).1 = .ok) :
      Transfers d .consumer numBytesRead.toNat

/-- All numbers of bytes in a data pipe are multiples of `m`, if no overflow is in the way. -/
structure Grain (o : DataPipeOptions) (m : ℕ) : Prop where
  pos : 0 < o.capacityNumBytes.toNat
  capacity : m ∣ o.capacityNumBytes.toNat
  /-- Whole elements that fit into the ring. -/
  elements : ∀ n, o.elementNumBytes.toNat ∣ n → n ≤ o.capacityNumBytes.toNat → m ∣ n
  overflow : m ∣ 2 ^ 32 ∨ 2 * o.capacityNumBytes.toNat < 2 ^ 32 + m

/-- What an end knows are multiples of `m`, and places in the ring. -/
structure Multiple (o : DataPipeOptions) (m : ℕ) (side : Side) (d : DataPipe P H) : Prop where
  options : d.options = o
  offset_lt : d.offset.toNat < o.capacityNumBytes.toNat
  amount_le : d.amount.toNat ≤ o.capacityNumBytes.toNat
  offset : m ∣ d.offset.toNat
  amount : m ∣ d.amount.toNat
  window : side = .consumer → d.inTwoPhase = true → d.twoPhaseMaxBytesRead ≤ d.amount

theorem mod_eq_zero_iff {n k : UInt32} : n % k = 0 ↔ k.toNat ∣ n.toNat := by
  rw [← UInt32.toNat_inj, UInt32.toNat_mod, UInt32.toNat_zero, Nat.dvd_iff_mod_eq_zero]

/-- `WriteData` writes what is asked for or what there is room for, and tells of it. -/
theorem numBytes_writeData {data elements : ℕ → UInt8} {numBytes : UInt32} {allOrNone : Bool}
    {w : Access P H} (hw : d.writeData data elements numBytes allOrNone = w) :
    (w.rv = .ok → w.numBytes = 0 ∨
      numBytes % d.options.elementNumBytes = 0 ∧ w.numBytes = min numBytes d.amount) ∧
    ∀ n, w.notified = some n → w.rv = .ok ∧ w.numBytes = n := by
  obtain ⟨rv, hzero, -, hrest⟩ | ⟨-, -, hmod, hwritten⟩ :=
    d.writeData_outcomes data elements numBytes allOrNone
  · obtain rfl := hrest.symm.trans hw
    exact ⟨fun hrv => .inl (hzero hrv), nofun⟩
  · obtain rfl := hwritten.symm.trans hw
    exact ⟨fun _ => .inr ⟨hmod, rfl⟩, fun n hn => ⟨rfl, Option.some.inj hn⟩⟩

/-- `ReadData` reads what is asked for or what there is, or says how much there is. -/
theorem numBytes_readData {data elements : ℕ → UInt8} {numBytes : UInt32} {flags : ReadDataFlags}
    {r : Access P H} (hr : d.readData data elements numBytes flags = r) :
    (r.rv = .ok → r.numBytes = d.amount ∨
      numBytes % d.options.elementNumBytes = 0 ∧ r.numBytes = min numBytes d.amount) ∧
    ∀ n, r.notified = some n → r.rv = .ok ∧ r.numBytes = n := by
  obtain ⟨rv, n, hamount, -, hrest⟩ | ⟨-, -, hmod, -, -, hread⟩ :=
    d.readData_outcomes data elements numBytes flags
  · obtain rfl := hrest.symm.trans hr
    exact ⟨fun hrv => .inl (hamount hrv).1, nofun⟩
  · obtain rfl := hread.symm.trans hr
    split
    · exact ⟨fun _ => .inr ⟨hmod, rfl⟩, fun n hn => ⟨rfl, Option.some.inj hn⟩⟩
    · exact ⟨fun _ => .inr ⟨hmod, rfl⟩, nofun⟩

/-- A call tells its peer of what it transferred. -/
theorem transfers_of_writeData {data elements : ℕ → UInt8} {numBytes n : UInt32} {allOrNone : Bool}
    (h : (d.writeData data elements numBytes allOrNone).notified = some n) :
    Transfers d .producer n.toNat := by
  obtain ⟨hrv, hn⟩ := (numBytes_writeData rfl).2 n h
  rw [← hn]
  exact .writeData data elements numBytes allOrNone hrv

theorem transfers_of_readData {data elements : ℕ → UInt8} {numBytes n : UInt32}
    {flags : ReadDataFlags} (h : (d.readData data elements numBytes flags).notified = some n) :
    Transfers d .consumer n.toNat := by
  obtain ⟨hrv, hn⟩ := (numBytes_readData rfl).2 n h
  rw [← hn]
  exact .readData data elements numBytes flags hrv

theorem transfers_of_endWriteData {numBytesWritten n : UInt32}
    (h : (d.endWriteData numBytesWritten).2.2 = some n) : Transfers d .producer n.toNat := by
  have hw : (d.endWriteData numBytesWritten).1 = .ok ∧ numBytesWritten = n := by
    rw [endWriteData.eq_def] at h ⊢
    split_ifs at h ⊢
    exact ⟨rfl, Option.some.inj h⟩
  rw [← hw.2]
  exact .endWriteData numBytesWritten hw.1

theorem transfers_of_endReadData {numBytesRead n : UInt32}
    (h : (d.endReadData numBytesRead).2.2 = some n) : Transfers d .consumer n.toNat := by
  have hr : (d.endReadData numBytesRead).1 = .ok ∧ numBytesRead = n := by
    rw [endReadData.eq_def] at h ⊢
    split_ifs at h ⊢
    exact ⟨rfl, Option.some.inj h⟩
  rw [← hr.2]
  exact .endReadData numBytesRead hr.1

namespace Multiple

variable {n : UInt32}

/-- The next multiple is in the ring, or at its end. -/
theorem offset_add_le (hm : Grain o m) (h : Multiple o m side d) :
    d.offset.toNat + m ≤ o.capacityNumBytes.toNat := by
  have hlt := h.offset_lt
  have hle := Nat.le_of_dvd (by omega) (Nat.dvd_sub hm.capacity h.offset)
  omega

theorem dvd_offset_add (hm : Grain o m) (h : Multiple o m side d) (hn : m ∣ n.toNat)
    (hle : n ≤ d.amount) : m ∣ (d.offset + n).toNat := by
  have hsum : m ∣ d.offset.toNat + n.toNat := Nat.dvd_add h.offset hn
  rw [UInt32.toNat_add]
  rcases hm.overflow with hdvd | hlt
  · exact (Nat.dvd_mod_iff hdvd).2 hsum
  · have hoff := h.offset_add_le hm
    have hamount := h.amount_le
    rw [UInt32.le_iff_toNat_le] at hle
    rwa [Nat.mod_eq_of_lt (by omega)]

/-- An end that transferred some bytes. -/
theorem advance (hm : Grain o m) (h : Multiple o m side d) (hn : m ∣ n.toNat)
    (hle : n ≤ d.amount) (hview : view d' = view (d.advance n))
    (hphase : side = .consumer → d'.inTwoPhase = false) : Multiple o m side d' := by
  obtain ⟨hoptions, hoffset, hamount⟩ := View.mk.inj hview
  have hamount' : d'.amount.toNat = d.amount.toNat - n.toNat := by
    rw [hamount]
    exact UInt32.toNat_sub_of_le _ _ hle
  have hoffset' : d'.offset.toNat = (d.offset + n).toNat % o.capacityNumBytes.toNat := by
    rw [hoffset, Core.DataPipe.advance, UInt32.toNat_mod, h.options]
  refine ⟨hoptions.trans h.options, ?_, ?_, ?_, ?_, ?_⟩
  · rw [hoffset']
    exact Nat.mod_lt _ hm.pos
  · rw [hamount']
    exact (Nat.sub_le ..).trans h.amount_le
  · rw [hoffset']
    exact (Nat.dvd_mod_iff hm.capacity).2 (h.dvd_offset_add hm hn hle)
  · rw [hamount']
    exact Nat.dvd_sub h.amount hn
  · intro hside hphase'
    rw [hphase hside] at hphase'
    cases hphase'

theorem congr (h : Multiple o m side d) (hview : view d' = view d)
    (hwindow : side = .consumer → d'.inTwoPhase = true → d'.twoPhaseMaxBytesRead ≤ d.amount) :
    Multiple o m side d' := by
  obtain ⟨hoptions, hoffset, hamount⟩ := View.mk.inj hview
  refine ⟨hoptions.trans h.options, ?_, ?_, ?_, ?_, ?_⟩
  · exact hoffset ▸ h.offset_lt
  · exact hamount ▸ h.amount_le
  · exact hoffset ▸ h.offset
  · exact hamount ▸ h.amount
  · exact hamount ▸ hwindow

/-- All there is, or the whole elements asked for. -/
theorem dvd_min (hm : Grain o m) (h : Multiple o m side d)
    (hn : n % d.options.elementNumBytes = 0) : m ∣ (min n d.amount).toNat := by
  rw [mod_eq_zero_iff, h.options] at hn
  rw [UInt32.toNat_min]
  rcases Nat.le_total n.toNat d.amount.toNat with hle | hle
  · rw [Nat.min_eq_left hle]
    exact hm.elements _ hn (hle.trans h.amount_le)
  · rw [Nat.min_eq_right hle]
    exact h.amount

/-- What there is up to the end of the ring. -/
theorem dvd_tail (hm : Grain o m) (h : Multiple o m side d) :
    m ∣ (min (d.options.capacityNumBytes - d.offset) d.amount).toNat := by
  have hle : d.offset ≤ d.options.capacityNumBytes := by
    rw [h.options]
    exact UInt32.le_iff_toNat_le.2 h.offset_lt.le
  rw [toNat_tail hle, h.options]
  rcases Nat.le_total (o.capacityNumBytes.toNat - d.offset.toNat) d.amount.toNat with hmin | hmin
  · rw [Nat.min_eq_left hmin]
    exact Nat.dvd_sub hm.capacity h.offset
  · rw [Nat.min_eq_right hmin]
    exact h.amount

/-- What the calls transfer and offer are multiples too. -/
theorem dvd_of_transfers (hm : Grain o m) (h : Multiple o m side d) {n : ℕ}
    (ht : Transfers d side n) : m ∣ n := by
  cases ht with
  | writeData data elements numBytes allOrNone hrv =>
    obtain hzero | ⟨hmod, hmin⟩ := (numBytes_writeData rfl).1 hrv
    · rw [hzero]
      exact dvd_zero m
    · rw [hmin]
      exact h.dvd_min hm hmod
  | beginWriteData hw =>
    rw [beginWriteData.eq_def] at hw
    split_ifs at hw
    obtain ⟨-, rfl⟩ := Prod.mk.inj (Option.some.inj hw)
    exact h.dvd_tail hm
  | endWriteData numBytesWritten hrv =>
    rw [endWriteData.eq_def] at hrv
    split_ifs at hrv with hclosed hphase hcount
    simp only [Bool.or_eq_true, decide_eq_true_eq, not_or, UInt32.not_lt, not_not] at hcount
    obtain ⟨⟨hle, hmod⟩, -⟩ := hcount
    rw [mod_eq_zero_iff, h.options] at hmod
    exact hm.elements _ hmod ((UInt32.le_iff_toNat_le.1 hle).trans h.amount_le)
  | readData data elements numBytes flags hrv =>
    obtain hamount | ⟨hmod, hmin⟩ := (numBytes_readData rfl).1 hrv
    · rw [hamount]
      exact h.amount
    · rw [hmin]
      exact h.dvd_min hm hmod
  | beginReadData hr =>
    rw [beginReadData.eq_def] at hr
    split_ifs at hr
    obtain ⟨-, rfl⟩ := Prod.mk.inj (Option.some.inj hr)
    rw [UInt32.toNat_min, Nat.min_comm, ← UInt32.toNat_min]
    exact h.dvd_tail hm
  | endReadData numBytesRead hrv =>
    rw [endReadData.eq_def] at hrv
    split_ifs at hrv with hphase htransit hcount
    simp only [Bool.or_eq_true, decide_eq_true_eq, not_or, UInt32.not_lt, not_not] at hcount
    obtain ⟨hle, hmod⟩ := hcount
    rw [mod_eq_zero_iff, h.options] at hmod
    have hwindow := h.window rfl (by simpa using hphase)
    have hamount := UInt32.le_iff_toNat_le.1 (UInt32.le_trans hle hwindow)
    exact hm.elements _ hmod (hamount.trans h.amount_le)

end Multiple

/-! ## Runs -/

theorem Multiple.leaves (hm : Grain o m) (h : Multiple o m side d) {notified : Option UInt32}
    (hd' : Multiple o m side d') (hn : ∀ n, notified = some n → Transfers d side n.toNat) :
    Leaves (Multiple o m side) (fun n => m ∣ n.toNat) d' notified :=
  ⟨hd', fun n hnotified => h.dvd_of_transfers hm (hn n hnotified)⟩

/-- The calls keep it. -/
theorem stable_multiple (hm : Grain o m) :
    Stable (Multiple (P := P) (H := H) o m) fun n => m ∣ n.toNat where
  congr hd hview hphase hmax := hd.congr hview fun hside hphase' => by
    rw [hmax]
    exact hd.window hside (hphase ▸ hphase')
  sent hd hview hphase _ := hd.congr hview fun _ hphase' => by
    rw [hphase] at hphase'
    cases hphase'
  told := by
    intro side d n hd hn hle
    have hlt := d.options.capacityNumBytes.toNat_lt
    have hadd : (d.amount + n).toNat = d.amount.toNat + n.toNat := by
      rw [UInt32.toNat_add, Nat.mod_eq_of_lt (by omega)]
    refine ⟨hd.options, hd.offset_lt, ?_, hd.offset, ?_, fun hside hphase => ?_⟩
    · rw [hadd, ← hd.options]
      exact hle
    · rw [hadd]
      exact Nat.dvd_add hd.amount hn
    · refine UInt32.le_trans (hd.window hside hphase) (UInt32.le_iff_toNat_le.2 ?_)
      rw [hadd]
      exact Nat.le_add_right ..
  writeData := by
    intro d data elements numBytes allOrNone hd
    refine hd.leaves hm ?_ fun n => transfers_of_writeData
    obtain ⟨hdispatcher, -⟩ | ⟨n, hle, -, -, hdispatcher, -, hnotified⟩ :=
      writeData_cases d data elements numBytes allOrNone
    · rwa [hdispatcher]
    · have hn := hd.dvd_of_transfers hm (transfers_of_writeData hnotified)
      exact hd.advance hm hn hle (by rw [hdispatcher]) nofun
  beginWriteData := by
    intro d hd
    obtain ⟨hdispatcher, -⟩ | ⟨-, -, hdispatcher, -⟩ := beginWriteData_cases d
    · rwa [hdispatcher]
    · exact hd.congr (by rw [hdispatcher]; rfl) nofun
  endWriteData := by
    intro d numBytesWritten hd
    refine hd.leaves hm ?_ fun n => transfers_of_endWriteData
    obtain ⟨hdispatcher | ⟨-, hdispatcher⟩, -⟩ | ⟨hle, -, -, -, hdispatcher, hnotified⟩ :=
      endWriteData_cases d numBytesWritten
    · rwa [hdispatcher]
    · exact hd.congr (by rw [hdispatcher]; rfl) nofun
    · have hn := hd.dvd_of_transfers hm (transfers_of_endWriteData hnotified)
      exact hd.advance hm hn hle (by rw [hdispatcher]; rfl) nofun
  readData := by
    intro d data elements numBytes flags hd
    refine hd.leaves hm ?_ fun n => transfers_of_readData
    obtain ⟨hdispatcher, -⟩ | ⟨n, hle, -, hphase, hdispatcher, hnotified, -⟩ :=
      readData_cases d data elements numBytes flags
    · rwa [hdispatcher]
    · have hn := hd.dvd_of_transfers hm (transfers_of_readData hnotified)
      exact hd.advance hm hn hle (by rw [hdispatcher]) fun _ => by rw [hdispatcher]; exact hphase
  beginReadData := by
    intro d flags hd
    obtain hdispatcher | ⟨-, hdispatcher⟩ := beginReadData_cases d flags
    · rwa [hdispatcher]
    · refine hd.congr (by rw [hdispatcher]; rfl) fun _ _ => ?_
      rw [hdispatcher, UInt32.le_iff_toNat_le, UInt32.toNat_min]
      exact min_le_left ..
  endReadData := by
    intro d numBytesRead hd
    refine hd.leaves hm ?_ fun n => transfers_of_endReadData
    obtain ⟨hdispatcher | ⟨-, hdispatcher⟩, -⟩ | ⟨hle, -, hphase, hdispatcher, hnotified⟩ :=
      endReadData_cases d numBytesRead
    · rwa [hdispatcher]
    · refine hd.congr (by rw [hdispatcher]; rfl) fun _ hphase => ?_
      rw [hdispatcher] at hphase
      cases hphase
    · have hn := hd.dvd_of_transfers hm (transfers_of_endReadData hnotified)
      exact hd.advance hm hn (UInt32.le_trans hle (hd.window rfl hphase)) (by rw [hdispatcher]; rfl)
        fun _ => by rw [hdispatcher]

namespace Pipe

variable {s : Pipe P H} {port₀ port₁ : P} {ring : PlatformSharedBuffer H} {pipeId : UInt64}

theorem multiple_of_reachable (hm : Grain o m) {G : Pipe P H → Action P H → Prop}
    (hs : (machine o port₀ port₁ ring pipeId).Reachable G s)
    (hd : (s.endpoint side).dispatcher = some d) : Multiple o m side d := by
  refine ((stable_multiple hm).keeps_of_reachable hs ?_).dispatcher side d hd
  refine ⟨fun side d hd => ?_, fun side state he => ?_, fun side message hmessage => ?_⟩
  · cases side with
    | producer =>
      obtain rfl := Option.some.inj hd
      exact ⟨rfl, hm.pos, le_rfl, dvd_zero m, hm.capacity, nofun⟩
    | consumer =>
      obtain rfl := Option.some.inj hd
      exact ⟨rfl, hm.pos, Nat.zero_le _, dvd_zero m, dvd_zero m, nofun⟩
  · cases side with
    | producer | consumer => cases he
  · cases hmessage

end Pipe

end MojoEdk.DataPipe
