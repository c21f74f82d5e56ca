import Mathlib.Data.Finset.Card
import Mathlib.Logic.Relation

/-!
# Depth-first search

A search of a directed graph that notes a vertex before it goes to its successors
(`dfs`), with a bound on how deep it goes. If the bound exceeds the number of vertices left,
the search notes each vertex once that can be reached from where it starts, and no other
(`dfs_spec`).
-/

namespace MojoEdk

variable {V : Type*} (succ : V → List V)

/-- From a vertex to another, along the edges of the graph. -/
def Reaches : V → V → Prop := Relation.ReflTransGen fun v w => w ∈ succ v

/-- What the vertices noted are after those that can be reached from some others are. -/
structure Explores (noted : List V) (vs : List V) (noted' : List V) : Prop where
  subset : noted ⊆ noted'
  nodup : noted.Nodup → noted'.Nodup
  reaches : ∀ w ∈ noted', w ∈ noted ∨ ∃ v ∈ vs, Reaches succ v w
  mem : vs ⊆ noted'
  /-- What is noted meanwhile is noted with its successors. -/
  closed : ∀ w ∈ noted', w ∉ noted → succ w ⊆ noted'

variable {succ} {noted noted' noted'' vs : List V} {v : V}

namespace Explores

theorem refl (noted : List V) : Explores succ noted [] noted where
  subset := List.Subset.refl _
  nodup h := h
  reaches _ h := .inl h
  mem := List.nil_subset _
  closed _ h h' := absurd h h'

/-- A vertex that is noted already. -/
theorem of_mem (h : v ∈ noted) : Explores succ noted [v] noted where
  subset := List.Subset.refl _
  nodup h := h
  reaches _ h := .inl h
  mem := List.cons_subset.2 ⟨h, List.nil_subset _⟩
  closed _ h h' := absurd h h'

theorem cons (h : Explores succ noted [v] noted') (h' : Explores succ noted' vs noted'') :
    Explores succ noted (v :: vs) noted'' where
  subset := List.Subset.trans h.subset h'.subset
  nodup hn := h'.nodup (h.nodup hn)
  reaches w hw := by
    rcases h'.reaches w hw with hw | ⟨u, hu, huw⟩
    · refine (h.reaches w hw).imp_right fun ⟨u, hu, huw⟩ => ⟨v, List.mem_cons_self, ?_⟩
      rwa [List.mem_singleton.1 hu] at huw
    · exact .inr ⟨u, List.mem_cons_of_mem _ hu, huw⟩
  mem := List.cons_subset.2 ⟨h'.subset (h.mem List.mem_cons_self), h'.mem⟩
  closed w hw hnew := by
    by_cases hw' : w ∈ noted'
    · exact List.Subset.trans (h.closed w hw' hnew) h'.subset
    · exact h'.closed w hw hw'

/-- A vertex is noted, and then those that can be reached from its successors. -/
theorem enter (hv : v ∉ noted) (h : Explores succ (noted ++ [v]) (succ v) noted') :
    Explores succ noted [v] noted' where
  subset := List.Subset.trans (List.subset_append_left _ _) h.subset
  nodup hn := h.nodup (List.nodup_append.2 ⟨hn, List.nodup_singleton v, by
    rintro w hw u hu rfl
    exact hv (List.mem_singleton.1 hu ▸ hw)⟩)
  reaches w hw := by
    rcases h.reaches w hw with hw | ⟨u, hu, huw⟩
    · rcases List.mem_append.1 hw with hw | hw
      · exact .inl hw
      · exact .inr ⟨v, List.mem_cons_self, List.mem_singleton.1 hw ▸ .refl⟩
    · exact .inr ⟨v, List.mem_cons_self, .head hu huw⟩
  mem := List.cons_subset.2
    ⟨h.subset (List.mem_append_right _ List.mem_cons_self), List.nil_subset _⟩
  closed w hw hnew := by
    by_cases hwv : w = v
    · rw [hwv]
      exact h.mem
    · exact h.closed w hw (by simp [hnew, hwv])

/-- From no vertex noted, those that are noted in the end can be reached. -/
theorem mem_iff (h : Explores succ [] [v] noted') {w : V} : w ∈ noted' ↔ Reaches succ v w := by
  constructor
  · intro hw
    rcases h.reaches w hw with hw | ⟨u, hu, huw⟩
    · cases hw
    · rwa [List.mem_singleton.1 hu] at huw
  · intro hw
    induction hw with
    | refl => exact h.mem List.mem_cons_self
    | tail _ hw ih => exact h.closed _ ih List.not_mem_nil hw

end Explores

variable [DecidableEq V] (succ)

/-- The vertices noted, after a search from a vertex. -/
def dfs : ℕ → List V → V → List V
  | 0, noted, _ => noted
  | depth + 1, noted, v =>
    if v ∈ noted then noted else (succ v).foldl (dfs depth) (noted ++ [v])

variable {succ}

/-- Searches from some vertices, one after the other, each as deep as needed. -/
theorem explores_foldl {S : Finset V} {f : List V → V → List V} {depth : ℕ}
    (hf : ∀ noted v, v ∈ S → (S.filter (· ∉ noted)).card < depth →
      Explores succ noted [v] (f noted v))
    (hvs : ∀ v ∈ vs, v ∈ S) (hdepth : (S.filter (· ∉ noted)).card < depth) :
    Explores succ noted vs (vs.foldl f noted) := by
  induction vs generalizing noted with
  | nil => exact .refl noted
  | cons v vs ih =>
    obtain ⟨hv, hvs⟩ := List.forall_mem_cons.1 hvs
    have hfirst := hf noted v hv hdepth
    refine hfirst.cons (ih hvs (lt_of_le_of_lt (Finset.card_le_card fun w hw => ?_) hdepth))
    obtain ⟨hw, hnew⟩ := Finset.mem_filter.1 hw
    exact Finset.mem_filter.2 ⟨hw, fun h => hnew (hfirst.subset h)⟩

/-- A search that may go as deep as there are vertices left notes what it can reach. -/
theorem dfs_spec {S : Finset V} (hS : ∀ v ∈ S, ∀ w ∈ succ v, w ∈ S) {depth : ℕ} (hv : v ∈ S)
    (hdepth : (S.filter (· ∉ noted)).card < depth) :
    Explores succ noted [v] (dfs succ depth noted v) := by
  induction depth generalizing noted v with
  | zero => exact absurd hdepth (Nat.not_lt_zero _)
  | succ depth ih =>
    rw [dfs]
    split_ifs with hmem
    · exact .of_mem hmem
    · refine .enter hmem (explores_foldl (fun noted v hv h => ih hv h) (hS v hv) ?_)
      -- The vertex that is noted is no longer left.
      refine lt_of_lt_of_le (Finset.card_lt_card ?_) (Nat.lt_succ_iff.1 hdepth)
      refine Finset.ssubset_iff_subset_ne.2 ⟨fun w hw => ?_, fun heq => ?_⟩
      · obtain ⟨hw, hnew⟩ := Finset.mem_filter.1 hw
        exact Finset.mem_filter.2 ⟨hw, fun h => hnew (List.mem_append_left _ h)⟩
      · have hleft : v ∈ S.filter (· ∉ noted) := Finset.mem_filter.2 ⟨hv, hmem⟩
        rw [← heq] at hleft
        exact (Finset.mem_filter.1 hleft).2 (List.mem_append_right _ List.mem_cons_self)

end MojoEdk
