import Mathlib.Data.Int.GCD
import Mathlib.Data.List.Range
import Mathlib.Data.Nat.ModEq

/-!
# Rings

Memory that is used as a ring of `n` cells. The items of a stream go to the cells in
turn, so that item `k` is in cell `k % n` until item `k + n` takes its place. A ring
`Holds` the items of the stream from an index on, those that were not taken out yet.

Items are moved by copies of consecutive cells (`Memory.copy`), of which two are needed
where the last cell is followed by the first one (`Ring.store`, `Ring.fetch`).
-/

namespace MojoEdk

variable {A : Type*}

namespace Memory

/-- A memory after `len` cells of another one, from `j` on, are copied to its cells
    from `i` on. -/
def copy (mem : ℕ → A) (i : ℕ) (src : ℕ → A) (j len : ℕ) : ℕ → A :=
  fun k => if i ≤ k ∧ k < i + len then src (j + (k - i)) else mem k

@[simp] theorem copy_zero (mem : ℕ → A) (i : ℕ) (src : ℕ → A) (j : ℕ) :
    copy mem i src j 0 = mem := by
  funext k
  rw [copy, if_neg (by omega)]

/-- The contents of `len` cells from `i` on. -/
def load (mem : ℕ → A) (i len : ℕ) : List A :=
  (List.range len).map fun k => mem (i + k)

@[simp] theorem length_load (mem : ℕ → A) (i len : ℕ) : (load mem i len).length = len := by
  rw [load, List.length_map, List.length_range]

theorem getElem_load (mem : ℕ → A) {i len k : ℕ} (hk : k < (load mem i len).length) :
    (load mem i len)[k] = mem (i + k) := by
  simp only [load, List.getElem_map, List.getElem_range]

end Memory

namespace Ring

open Memory (copy)

variable {n a len off : ℕ} {mem mem' src : ℕ → A} {stream items : List A}

/-- Indices that are less than a turn apart have different cells. -/
theorem mod_ne {k k' : ℕ} (h : k < k') (hn : k' < k + n) : k % n ≠ k' % n := by
  intro hmod
  have hdvd : n ∣ k' - k := (Nat.modEq_iff_dvd' h.le).1 hmod
  have := Nat.le_of_dvd (by omega) hdvd
  omega

/-- Steps of one size around a ring get to every cell that a multiple of the greatest common
    divisor leads to, so to the last one of these. -/
theorem exists_mul_mod_eq {e : ℕ} (he : 0 < e) (hlt : e < n) :
    ∃ j, j * e % n = n - e.gcd n := by
  have hgcd : e.gcd n < n := (Nat.gcd_le_left n he).trans_lt hlt
  have hpos : 0 < e.gcd n := Nat.gcd_pos_of_pos_left n he
  obtain ⟨m, -, hm⟩ := Nat.exists_mul_mod_eq_gcd hgcd
  refine ⟨(n / e.gcd n - 1) * m, ?_⟩
  calc (n / e.gcd n - 1) * m * e % n
    _ = (n / e.gcd n - 1) * (e * m % n) % n := by rw [Nat.mul_mod_mod, mul_assoc, mul_comm m e]
    _ = (n - e.gcd n) % n := by rw [hm, Nat.sub_mul, Nat.div_mul_cancel (Nat.gcd_dvd_right e n),
        Nat.one_mul]
    _ = n - e.gcd n := Nat.mod_eq_of_lt (by omega)

/-- The ring holds the items of the stream from index `a` on. -/
def Holds (n : ℕ) (mem : ℕ → A) (stream : List A) (a : ℕ) : Prop :=
  ∀ k (hk : k < stream.length), a ≤ k → mem (k % n) = stream[k]

/-- Nothing is held before there are items. -/
theorem Holds.nil (n : ℕ) (mem : ℕ → A) (a : ℕ) : Holds n mem [] a :=
  fun _ hk => absurd hk (Nat.not_lt_zero _)

/-- Items are taken out. -/
theorem Holds.mono {b : ℕ} (h : Holds n mem stream a) (hab : a ≤ b) : Holds n mem stream b :=
  fun k hk hb => h k hk (hab.trans hb)

/-- What is not the cell of an item that is held may change. -/
theorem Holds.congr (h : Holds n mem stream a)
    (hmem : ∀ k, a ≤ k → k < stream.length → mem' (k % n) = mem (k % n)) :
    Holds n mem' stream a := by
  intro k hk ha
  rw [hmem k ha hk]
  exact h k hk ha

/-- Items are added, where their cells got their values. -/
theorem Holds.append (h : Holds n mem stream a)
    (hitems : ∀ k (hk : k < items.length), mem ((stream.length + k) % n) = items[k]) :
    Holds n mem (stream ++ items) a := by
  intro k hk ha
  by_cases hlt : k < stream.length
  · rw [List.getElem_append_left hlt]
    exact h k hlt ha
  · have hle : stream.length ≤ k := Nat.le_of_not_lt hlt
    rw [List.length_append] at hk
    have := hitems (k - stream.length) (by omega)
    rw [Nat.add_sub_cancel' hle] at this
    rw [List.getElem_append_right hle, this]

/-- What is in the cells of the next items. -/
theorem Holds.take_drop (h : Holds n mem stream a) (hlen : a + len ≤ stream.length)
    (hitems : items.length = len)
    (hmem : ∀ k (hk : k < items.length), items[k] = mem ((a + k) % n)) :
    (stream.drop a).take len = items := by
  apply List.ext_getElem
  · rw [List.length_take, List.length_drop]
    omega
  · intro k hk hk'
    rw [List.getElem_take, List.getElem_drop, hmem k hk']
    exact (h (a + k) (by omega) (Nat.le_add_right a k)).symm

/-! ## Copies that go around -/

/-- `len` items of `src` stored to the ring, from a cell on. -/
def store (n : ℕ) (mem : ℕ → A) (off : ℕ) (src : ℕ → A) (len : ℕ) : ℕ → A :=
  let tail := min (n - off) len
  copy (copy mem off src 0 tail) 0 src tail (len - tail)

/-- The items in `len` cells of the ring, from a cell on. -/
def load (n : ℕ) (mem : ℕ → A) (off len : ℕ) : List A :=
  (List.range len).map fun k => mem ((off + k) % n)

@[simp] theorem length_load (n : ℕ) (mem : ℕ → A) (off len : ℕ) :
    (load n mem off len).length = len := by
  rw [load, List.length_map, List.length_range]

theorem getElem_load (mem : ℕ → A) {k : ℕ} (hk : k < (load n mem off len).length) :
    (load n mem off len)[k] = mem ((off + k) % n) := by
  simp only [load, List.getElem_map, List.getElem_range]

/-- `len` items of the ring copied to `dst`, from a cell on. -/
def fetch (n : ℕ) (dst : ℕ → A) (mem : ℕ → A) (off : ℕ) (len : ℕ) : ℕ → A :=
  let tail := min (n - off) len
  copy (copy dst 0 mem off tail) tail mem 0 (len - tail)

theorem add_mod_eq (hoff : off < n) {i : ℕ} (hi : i < n) :
    (off + i) % n = if off + i < n then off + i else off + i - n := by
  split_ifs with h
  · exact Nat.mod_eq_of_lt h
  · rw [Nat.mod_eq_sub_mod (Nat.le_of_not_lt h), Nat.mod_eq_of_lt (by omega)]

theorem store_add_mod (hoff : off < n) (hlen : len ≤ n) {i : ℕ} (hi : i < len) :
    store n mem off src len ((off + i) % n) = src i := by
  rw [add_mod_eq hoff (by omega)]
  simp only [store, copy]
  split_ifs <;> first | omega | exact congrArg src (by omega)

/-- The cells of the items after those stored keep their values. -/
theorem store_add_mod_of_le (hoff : off < n) {i : ℕ} (hi : len ≤ i) (hn : i < n) :
    store n mem off src len ((off + i) % n) = mem ((off + i) % n) := by
  rw [add_mod_eq hoff hn]
  simp only [store, copy]
  split_ifs <;> first | omega | rfl

/-- So do the cells of the items before, up to a turn. -/
theorem store_mod_of_lt {k p : ℕ} (hk : k < p) (hlen : p + len ≤ k + n) :
    store n mem (p % n) src len (k % n) = mem (k % n) := by
  have hn : 0 < n := by omega
  have hmod : k % n = (p % n + (k + n - p)) % n := by
    rw [Nat.mod_add_mod, Nat.add_sub_cancel' (by omega), Nat.add_mod_right]
  rw [hmod]
  exact store_add_mod_of_le (Nat.mod_lt _ hn) (by omega) (by omega)

theorem fetch_apply (hoff : off < n) (hlen : len ≤ n) (dst : ℕ → A) {i : ℕ} (hi : i < len) :
    fetch n dst mem off len i = mem ((off + i) % n) := by
  rw [add_mod_eq hoff (by omega)]
  simp only [fetch, copy]
  split_ifs <;> first | omega | exact congrArg mem (by omega)

end Ring

end MojoEdk
