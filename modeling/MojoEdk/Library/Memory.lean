import MojoEdk.Library.Bytes

/-!
# What a memory holds

A memory holds a list at an offset if it is what is read there (`List.Holds`). It does so
after the list is stored, and as long as what is stored later is before it or after it.
Several lists are stored at equal distances by `List.storeAll`.

A `Block` is a memory of a given size. To store something outside of it, or to copy from there
(`Block.copyTo`), is undefined.
-/

namespace List

variable {A : Type*} {l w v : List A} {ws : List (List A)} {i j k n : ℕ}

/-- A memory holds a list at an offset. -/
def Holds (l : List A) (i : ℕ) (w : List A) : Prop := l.slice i w.length = w

theorem Holds.slice_eq (h : l.Holds i w) (hn : w.length = n) : l.slice i n = w := hn ▸ h

theorem holds_append : l.Holds i (w ++ v) ↔ l.Holds i w ∧ l.Holds (i + w.length) v := by
  rw [Holds, length_append, ← slice_append_slice]
  constructor
  · intro h
    have hlen : (l.slice i w.length ++ l.slice (i + w.length) v.length).length = (w ++ v).length :=
      congrArg length h
    rw [length_append, length_append] at hlen
    have hw : (l.slice i w.length).length ≤ w.length := length_take_le ..
    have hv : (l.slice (i + w.length) v.length).length ≤ v.length := length_take_le ..
    exact append_inj h (by omega)
  · rintro ⟨hw, hv⟩
    rw [hw, hv]

/-- What is stored is held. -/
theorem holds_splice_self (l w : List A) (h : i ≤ l.length) : (l.splice i w).Holds i w :=
  slice_splice_self h

/-- What is before or after is still held. -/
theorem Holds.splice (h : l.Holds i w) (hj : j ≤ l.length)
    (hd : i + w.length ≤ j ∨ j + v.length ≤ i) : (l.splice j v).Holds i w := by
  rcases hd with hd | hd
  · exact (slice_splice_of_le hd hj).trans h
  · exact (slice_splice_of_ge hd hj).trans h

/-- To store over all of a memory. -/
theorem splice_zero_of_length (h : w.length = l.length) : l.splice 0 w = w := by
  rw [List.splice, take_zero, nil_append, Nat.zero_add, h, drop_length, append_nil]

/-- Lists are stored one after the other from an offset on, at a distance of `k`. -/
def storeAll : List A → (i k : ℕ) → List (List A) → List A
  | l, _, _, [] => l
  | l, i, k, w :: ws => storeAll (l.splice i w) (i + k) k ws

theorem length_storeAll (hk : ∀ w ∈ ws, w.length ≤ k) (h : i + ws.length * k ≤ l.length) :
    (l.storeAll i k ws).length = l.length := by
  induction ws generalizing i l with
  | nil => rfl
  | cons w ws ih =>
    have hw := hk w mem_cons_self
    rw [length_cons, Nat.succ_mul] at h
    have hlen : (l.splice i w).length = l.length := length_splice (by omega)
    rw [storeAll, ih (fun v hv => hk v (mem_cons_of_mem w hv)) (by rw [hlen]; omega), hlen]

/-- What is before or after all of them is still held. -/
theorem Holds.storeAll (hv : l.Holds j v) (hk : ∀ w ∈ ws, w.length ≤ k)
    (h : i + ws.length * k ≤ l.length) (hd : j + v.length ≤ i ∨ i + ws.length * k ≤ j) :
    (l.storeAll i k ws).Holds j v := by
  induction ws generalizing i l with
  | nil => exact hv
  | cons w ws ih =>
    have hw := hk w mem_cons_self
    rw [length_cons, Nat.succ_mul] at h hd
    have hlen : (l.splice i w).length = l.length := length_splice (by omega)
    exact ih (hv.splice (by omega) (by omega)) (fun u hu => hk u (mem_cons_of_mem w hu))
      (by rw [hlen]; omega) (by omega)

/-- Each of them is held where it was stored. -/
theorem holds_storeAll (hk : ∀ w ∈ ws, w.length ≤ k) (h : i + ws.length * k ≤ l.length)
    (hn : ws[n]? = some w) : (l.storeAll i k ws).Holds (i + n * k) w := by
  induction ws generalizing i l n with
  | nil => cases hn
  | cons u ws ih =>
    have hu := hk u mem_cons_self
    rw [length_cons, Nat.succ_mul] at h
    have hlen : (l.splice i u).length = l.length := length_splice (by omega)
    have hk' : ∀ w ∈ ws, w.length ≤ k := fun w hw => hk w (mem_cons_of_mem u hw)
    cases n with
    | zero =>
      rw [getElem?_cons_zero, Option.some.injEq] at hn
      rw [Nat.zero_mul, Nat.add_zero, ← hn]
      exact (holds_splice_self l u (by omega)).storeAll hk' (by rw [hlen]; omega) (by omega)
    | succ n =>
      rw [getElem?_cons_succ] at hn
      rw [Nat.succ_mul, Nat.add_comm (n * k), ← Nat.add_assoc]
      exact ih hk' (by rw [hlen]; omega) hn

/-- A number is read where its bytes are held. -/
theorem Holds.ofLeBytes_slice {l : List UInt8} {n v : ℕ} (h : l.Holds i (leBytes n v))
    (hv : v < 256 ^ n) : ofLeBytes (l.slice i n) = v := by
  rw [h.slice_eq (length_leBytes n v), ofLeBytes_leBytes hv]

/-- A list is read element by element. -/
theorem map_range_eq {f : ℕ → A} (hlen : l.length = n) (hf : ∀ i x, l[i]? = some x → f i = x) :
    (range n).map f = l := by
  refine ext_getElem (by rw [length_map, length_range, hlen]) fun i _ hi => ?_
  rw [getElem_map, getElem_range]
  exact hf i _ (getElem?_eq_getElem hi)

end List

namespace MojoEdk

/-- A block of memory. -/
structure Block (A : Type*) (n : ℕ) where
  data : List A
  length_data : data.length = n

namespace Block

variable {A : Type*} {m n i j k l : ℕ} {w : List A} {b b' : Block A n} {dst dst' : Block A m}

/-- To store a list at an offset. -/
def store (b : Block A n) (i : ℕ) (w : List A) : Option (Block A n) :=
  if h : i + w.length ≤ n then
    some ⟨b.data.splice i w, by rw [List.length_splice (by rwa [b.length_data]), b.length_data]⟩
  else none

theorem store_eq_some (h : b.store i w = some b') :
    i + w.length ≤ n ∧ b'.data = b.data.splice i w := by
  rw [store] at h
  split_ifs at h with hle
  exact ⟨hle, congrArg data (Option.some.inj h).symm⟩

/-- `memcpy` of `k` elements from an offset to the beginning of another block. -/
def copyTo (b : Block A n) (i k : ℕ) (dst : Block A m) : Option (Block A m) :=
  if i + k ≤ n then dst.store 0 (b.data.slice i k) else none

/-- What was copied is read in the other block. -/
theorem slice_of_copyTo (h : b.copyTo i k dst = some dst') (hl : j + l ≤ k) :
    dst'.data.slice j l = b.data.slice (i + j) l := by
  rw [copyTo] at h
  split_ifs at h with hik
  have hlen : (b.data.slice i k).length = k := List.length_slice (by rwa [b.length_data])
  rw [(store_eq_some h).2, List.slice_splice_zero (by rwa [hlen]), List.slice_slice hl]

theorem isSome_store (h : i + w.length ≤ n) : (b.store i w).isSome := by
  rw [store, dif_pos h]
  rfl

/-- What is in one block, and is not larger than the other, is copied. -/
theorem isSome_copyTo (h : i + k ≤ n) (hk : k ≤ m) : (b.copyTo i k dst).isSome := by
  rw [copyTo, if_pos h]
  have hlen : (b.data.slice i k).length = k := List.length_slice (by rwa [b.length_data])
  exact isSome_store (by rwa [hlen, Nat.zero_add])

end Block

end MojoEdk
