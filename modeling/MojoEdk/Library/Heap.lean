import Mathlib.Data.List.Sort

/-!
# Heaps

Binary heaps in a list, as the standard algorithms maintain them (`HeapAlgorithms`): the
children of the element at `i` are those at `2 * i + 1` and `2 * i + 2`, and none of them
comes before it. The first element is thus the one with the lowest key
(`IsHeap.head_le`).
-/

namespace MojoEdk

variable {α κ : Type*} [LinearOrder κ] {key : α → κ} {x y : α} {xs : List α}

/-- No element has a lower key than its parent. -/
def IsHeap (key : α → κ) (xs : List α) : Prop :=
  ∀ i x y, 0 < i → xs[(i - 1) / 2]? = some x → xs[i]? = some y → key x ≤ key y

theorem IsHeap.nil : IsHeap key [] := by
  intro i x y _ _ hy
  cases hy

/-- The head of a heap is the least. -/
theorem IsHeap.head_le (h : IsHeap key (x :: xs)) (hy : y ∈ x :: xs) : key x ≤ key y := by
  obtain ⟨i, hi⟩ := List.mem_iff_getElem?.1 hy
  induction i using Nat.strong_induction_on generalizing y with
  | _ i ih =>
    cases i with
    | zero =>
      rw [List.getElem?_cons_zero] at hi
      exact (congrArg key (Option.some.inj hi)).le
    | succ i =>
      have hlt : i / 2 < i + 1 := Nat.lt_succ_of_le (Nat.div_le_self i 2)
      have hlength : i + 1 < (x :: xs).length := (List.getElem?_eq_some_iff.1 hi).1
      have hparent : (x :: xs)[i / 2]? = some (x :: xs)[i / 2] :=
        List.getElem?_eq_getElem (hlt.trans hlength)
      calc key x
        _ ≤ key (x :: xs)[i / 2] := ih _ hlt (List.getElem_mem _) hparent
        _ ≤ key y := h (i + 1) _ y (Nat.succ_pos i) hparent hi

/-- What is sorted is a heap. -/
theorem isHeap_of_pairwise (h : xs.Pairwise fun x y => key x ≤ key y) : IsHeap key xs := by
  intro i x y hi hx hy
  obtain ⟨hlt, rfl⟩ := List.getElem?_eq_some_iff.1 hx
  obtain ⟨hlt', rfl⟩ := List.getElem?_eq_some_iff.1 hy
  exact List.pairwise_iff_getElem.1 h _ _ hlt hlt' (by omega)

/-- `std::push_heap` and `std::pop_heap`: the first is called when an element was appended to
    a heap, the second moves the first element to the back of what stays a heap. -/
structure HeapAlgorithms (key : α → κ) where
  pushHeap : List α → List α
  popHeap : List α → List α
  push_perm : ∀ xs x, IsHeap key xs → (pushHeap (xs ++ [x])).Perm (x :: xs)
  isHeap_push : ∀ xs x, IsHeap key xs → IsHeap key (pushHeap (xs ++ [x]))
  pop_spec : ∀ x xs, IsHeap key (x :: xs) →
    ∃ ys, popHeap (x :: xs) = ys ++ [x] ∧ ys.Perm xs ∧ IsHeap key ys

end MojoEdk
