import Mathlib.Data.List.Nodup
import Mathlib.Data.Multiset.MapFold

/-!
# Lists of the elements of a multiset

A list of values that a multiset is mapped to comes from a list of its elements,
in the same order. An element of lists that are together without duplicates is at
one index of one of them.
-/

namespace Multiset

variable {A B C : Type*}

/-- A list whose elements are the images of those of a multiset. -/
theorem exists_list_map_eq {f : A → C} {g : B → C} {xs : List A} {S : Multiset B}
    (h : (xs.map f : Multiset C) = S.map g) :
    ∃ ys : List B, (ys : Multiset B) = S ∧ xs.map f = ys.map g := by
  induction xs generalizing S with
  | nil =>
    have hS : S = 0 := map_eq_zero.1 h.symm
    exact ⟨[], hS.symm, rfl⟩
  | cons x xs ih =>
    rw [List.map_cons, ← cons_coe] at h
    have hmem : f x ∈ S.map g := h ▸ mem_cons_self _ _
    obtain ⟨y, hy, hyx⟩ := mem_map.1 hmem
    obtain ⟨T, rfl⟩ := exists_cons_of_mem hy
    rw [map_cons, hyx, cons_inj_right] at h
    obtain ⟨ys, rfl, hys⟩ := ih h
    exact ⟨y :: ys, rfl, by rw [List.map_cons, List.map_cons, hyx, hys]⟩

end Multiset

namespace List

variable {A B : Type*}

/-- Where an element is, in lists that are together without duplicates. -/
theorem index_unique_of_nodup_flatMap {f : A → List B} {xs : List A} (h : (xs.flatMap f).Nodup)
    {i i' j j' : ℕ} {x x' : A} {b : B} (hi : xs[i]? = some x) (hi' : xs[i']? = some x')
    (hj : (f x)[j]? = some b) (hj' : (f x')[j']? = some b) : i = i' ∧ j = j' := by
  obtain ⟨hnd, hpair⟩ := nodup_flatMap.1 h
  obtain ⟨hlt, rfl⟩ := getElem?_eq_some_iff.1 hi
  obtain ⟨hlt', rfl⟩ := getElem?_eq_some_iff.1 hi'
  have hdis := pairwise_iff_getElem.1 hpair
  have hii : i = i' := by
    rcases lt_trichotomy i i' with hii | hii | hii
    · exact absurd (mem_of_getElem? hj') (hdis i i' hlt hlt' hii (mem_of_getElem? hj))
    · exact hii
    · exact absurd (mem_of_getElem? hj) (hdis i' i hlt' hlt hii (mem_of_getElem? hj'))
  subst hii
  obtain ⟨hj₁, -⟩ := getElem?_eq_some_iff.1 hj
  exact ⟨rfl, (getElem?_inj hj₁ (hnd _ (getElem_mem hlt))).1 (hj.trans hj'.symm)⟩

end List
