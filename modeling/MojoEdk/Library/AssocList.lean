import Mathlib.Data.List.AList

/-!
# Association lists

What `AList` lacks for modelling a table that a loop walks through: keeping,
changing or deleting every entry (`AList.retain`), and the number of entries,
which bounds how often entries can be deleted.
-/

namespace AList

variable {K : Type*} [DecidableEq K] {V : Type*}

/-- The entries with every value replaced by what `f` gives, or deleted. -/
def retain (f : K → V → Option V) (t : AList fun _ : K => V) : AList fun _ : K => V where
  entries := t.entries.filterMap fun x => (f x.1 x.2).map (Sigma.mk x.1)
  nodupKeys := by
    have h := t.nodupKeys
    rw [List.nodupKeys_iff_pairwise] at h ⊢
    refine List.Pairwise.filterMap _ (fun x y hxy x' hx' y' hy' => ?_) h
    simp only [Option.map_eq_some_iff] at hx' hy'
    obtain ⟨_, _, rfl⟩ := hx'
    obtain ⟨_, _, rfl⟩ := hy'
    exact hxy

theorem lookup_retain (f : K → V → Option V) (t : AList fun _ : K => V) (k : K) :
    (t.retain f).lookup k = (t.lookup k).bind (f k) := by
  ext v
  rw [Option.bind_eq_some_iff, ← Option.mem_def, mem_lookup_iff]
  simp only [retain, List.mem_filterMap, Option.map_eq_some_iff, Sigma.mk.injEq]
  constructor
  · rintro ⟨⟨k', w⟩, hw, v', hv, rfl, hv'⟩
    exact ⟨w, mem_lookup_iff.2 hw, eq_of_heq hv' ▸ hv⟩
  · rintro ⟨w, hw, hv⟩
    exact ⟨⟨k, w⟩, mem_lookup_iff.1 hw, v, hv, rfl, HEq.rfl⟩

/-- Deleting a present entry makes the table smaller. -/
theorem length_erase_lt {t : AList fun _ : K => V} {k : K} {v : V} (h : t.lookup k = some v) :
    (t.erase k).entries.length < t.entries.length := by
  have hk : k ∈ t.keys := mem_keys.1 (lookup_isSome.1 (h ▸ rfl))
  have hlen : ∀ t : AList fun _ : K => V, t.entries.length = t.keys.length :=
    fun t => (List.length_map _).symm
  rw [hlen, hlen, keys_erase, List.length_erase_of_mem hk]
  exact Nat.sub_lt (List.length_pos_of_mem hk) Nat.one_pos

end AList
