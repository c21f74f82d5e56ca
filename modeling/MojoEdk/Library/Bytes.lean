import Mathlib.Data.List.Basic
import Mathlib.Tactic.Ring

/-!
# Bytes

Numbers as little-endian bytes, and memory as lists of bytes: what is stored at an
offset (`List.splice`), and what is read from there (`List.slice`).
-/

/-- The `n` lowest bytes of a number, the lowest first. -/
def leBytes : ℕ → ℕ → List UInt8
  | 0, _ => []
  | n + 1, v => UInt8.ofNat v :: leBytes n (v / 256)

/-- The number with given bytes, the lowest first. -/
def ofLeBytes : List UInt8 → ℕ
  | [] => 0
  | b :: bs => b.toNat + 256 * ofLeBytes bs

@[simp] theorem length_leBytes (n v : ℕ) : (leBytes n v).length = n := by
  induction n generalizing v with
  | zero => rfl
  | succ n ih => rw [leBytes, List.length_cons, ih]

theorem ofLeBytes_leBytes {n v : ℕ} (h : v < 256 ^ n) : ofLeBytes (leBytes n v) = v := by
  induction n generalizing v with
  | zero => exact (Nat.lt_one_iff.1 h).symm
  | succ n ih =>
    have hdiv : v / 256 < 256 ^ n := Nat.div_lt_of_lt_mul (by rwa [← Nat.pow_succ'])
    rw [leBytes, ofLeBytes, ih hdiv, UInt8.toNat_ofNat']
    exact Nat.mod_add_div v 256

theorem ofLeBytes_lt (bytes : List UInt8) : ofLeBytes bytes < 256 ^ bytes.length := by
  induction bytes with
  | nil => exact Nat.one_pos
  | cons b bytes ih =>
    have hb := b.toNat_lt
    rw [ofLeBytes, List.length_cons, Nat.pow_succ]
    omega

namespace List

variable {A : Type*} {l w : List A} {i j n : ℕ}

/-- What is at an offset of a memory. -/
def slice (l : List A) (i n : ℕ) : List A := (l.drop i).take n

/-- A memory after `w` is stored at an offset. -/
def splice (l : List A) (i : ℕ) (w : List A) : List A := l.take i ++ w ++ l.drop (i + w.length)

theorem length_slice (h : i + n ≤ l.length) : (l.slice i n).length = n := by
  rw [slice, length_take, length_drop]
  omega

theorem length_splice_eq (l : List A) (i : ℕ) (w : List A) :
    (l.splice i w).length = min i l.length + w.length + (l.length - (i + w.length)) := by
  rw [splice, length_append, length_append, length_take, length_drop]

@[simp] theorem length_splice (h : i + w.length ≤ l.length) : (l.splice i w).length = l.length := by
  rw [length_splice_eq]
  omega

/-- What is stored is read. -/
theorem slice_splice_self (h : i ≤ l.length) : (l.splice i w).slice i w.length = w := by
  rw [slice, splice, append_assoc, drop_append_of_le_length (by rw [length_take]; omega),
    drop_eq_nil_of_le (length_take_le i l), nil_append, take_left']
  rfl

/-- What is before is not touched. -/
theorem slice_splice_of_le (h : j + n ≤ i) (hi : i ≤ l.length) :
    (l.splice i w).slice j n = l.slice j n := by
  rw [slice, splice, append_assoc, drop_append_of_le_length (by rw [length_take]; omega),
    take_append_of_le_length (by rw [length_drop, length_take]; omega), drop_take, take_take,
    min_eq_left (by omega), slice]

/-- What is after is not touched. -/
theorem slice_splice_of_ge (h : i + w.length ≤ j) (hi : i ≤ l.length) :
    (l.splice i w).slice j n = l.slice j n := by
  have hlen : (l.take i ++ w).length = i + w.length := by
    rw [length_append, length_take, min_eq_left hi]
  rw [slice, splice, drop_append, hlen, drop_eq_nil_of_le (by rw [hlen]; exact h), nil_append,
    drop_drop, Nat.add_sub_cancel' h, slice]

/-- A part of a part. -/
theorem slice_slice {m : ℕ} (h : j + m ≤ n) : (l.slice i n).slice j m = l.slice (i + j) m := by
  rw [slice, slice, drop_take, take_take, drop_drop, min_eq_left (by omega), slice]

/-- A part of what is stored at the beginning. -/
theorem slice_splice_zero (h : j + n ≤ w.length) : (l.splice 0 w).slice j n = w.slice j n := by
  have hself : (l.splice 0 w).slice 0 w.length = w := slice_splice_self (Nat.zero_le _)
  calc (l.splice 0 w).slice j n
    _ = ((l.splice 0 w).slice 0 w.length).slice j n := by rw [slice_slice h, Nat.zero_add]
    _ = w.slice j n := by rw [hself]

theorem slice_append_of_le {l' : List A} (h : i + n ≤ l.length) :
    (l ++ l').slice i n = l.slice i n := by
  rw [slice, drop_append_of_le_length (by omega),
    take_append_of_le_length (by rw [length_drop]; omega), slice]

theorem slice_append_slice (l : List A) (i n m : ℕ) :
    l.slice i n ++ l.slice (i + n) m = l.slice i (n + m) := by
  rw [slice, slice, slice, take_add, drop_drop]

theorem exists_append_of_length {m : ℕ} (h : l.length = n + m) :
    ∃ a b, l = a ++ b ∧ a.length = n ∧ b.length = m := by
  refine ⟨l.take n, l.drop n, (take_append_drop n l).symm, ?_, ?_⟩
  · rw [length_take]
    omega
  · rw [length_drop]
    omega

/-- To store something where something else of its length is. -/
theorem splice_append {a g b : List A} (hi : i = a.length) (hw : g.length = w.length) :
    (a ++ (g ++ b)).splice i w = a ++ (w ++ b) := by
  subst hi
  rw [splice, take_left, ← hw, drop_append, drop_eq_nil_of_le (Nat.le_add_right _ _), nil_append,
    Nat.add_sub_cancel_left, drop_left, append_assoc]

theorem slice_append_middle {a g b : List A} (hi : i = a.length) (hn : n = g.length) :
    (a ++ (g ++ b)).slice i n = g := by
  subst hi hn
  rw [slice, drop_left, take_left]

end List
