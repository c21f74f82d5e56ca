import Mathlib.Data.List.Nodup

/-!
# Exclusive ownership

Owners that have resources, such that nothing has two owners, nor one owner twice.
An owner may take what nobody else has (`Exclusive.update`). This is also how resources
are handed over: what an owner has dropped, nobody has (`Exclusive.notMem_update`). Owners
that are queues pass all that they have on (`Exclusive.pass`), and take and give one thing at
a time (`Exclusive.push`, `Exclusive.pop`, `Exclusive.shift`).
-/

namespace MojoEdk

variable {O R : Type*}

/-- Every resource is owned once at most. -/
structure Exclusive (owns : O → List R) : Prop where
  nodup : ∀ o, (owns o).Nodup
  unique : ∀ {o o' r}, r ∈ owns o → r ∈ owns o' → o = o'

theorem Exclusive.nil : Exclusive fun _ : O => ([] : List R) :=
  ⟨fun _ => List.nodup_nil, fun h => by cases h⟩

variable [DecidableEq O] {owns : O → List R} {o : O}

theorem mem_or_mem_of_mem_update {l : List R} {o' : O} {r : R}
    (h : r ∈ Function.update owns o l o') : r ∈ l ∨ r ∈ owns o' := by
  by_cases ho : o' = o
  · subst ho
    rw [Function.update_self] at h
    exact .inl h
  · rw [Function.update_of_ne ho] at h
    exact .inr h

theorem mem_of_mem_update {l : List R} (hl : l ⊆ owns o) {o' : O} {r : R}
    (h : r ∈ Function.update owns o l o') : r ∈ owns o' := by
  by_cases ho : o' = o
  · subst ho
    rw [Function.update_self] at h
    exact hl h
  · rwa [Function.update_of_ne ho] at h

theorem mem_update_append_iff {l : List R} {o' : O} {r : R} :
    r ∈ Function.update owns o (owns o ++ l) o' ↔ r ∈ owns o' ∨ o' = o ∧ r ∈ l := by
  by_cases ho : o' = o
  · subst ho
    rw [Function.update_self, List.mem_append, and_iff_right rfl]
  · rw [Function.update_of_ne ho, or_iff_left fun h => ho h.1]

theorem mem_update_or_of_cons {a : R} {l : List R} (ho : owns o = a :: l) {o' : O} {r : R}
    (h : r ∈ owns o') : r ∈ Function.update owns o l o' ∨ o' = o ∧ r = a := by
  by_cases ho' : o' = o
  · subst ho'
    rw [ho] at h
    rw [Function.update_self]
    exact (List.mem_cons.1 h).symm.imp_right fun h => ⟨rfl, h⟩
  · rw [Function.update_of_ne ho']
    exact .inl h

namespace Exclusive

theorem update (h : Exclusive owns) {l : List R} (hnodup : l.Nodup)
    (hl : ∀ r ∈ l, ∀ o', r ∈ owns o' → o' = o) : Exclusive (Function.update owns o l) := by
  -- What the others have is not among the new resources.
  have hother {o' : O} {r : R} (ho : o' ≠ o) (hr : r ∈ Function.update owns o l o') :
      r ∈ owns o' ∧ r ∉ l := by
    rw [Function.update_of_ne ho] at hr
    exact ⟨hr, fun hrl => ho (hl r hrl o' hr)⟩
  refine ⟨fun o' => ?_, fun {o₁ o₂ r} h₁ h₂ => ?_⟩
  · by_cases ho : o' = o
    · subst ho
      rwa [Function.update_self]
    · rw [Function.update_of_ne ho]
      exact h.nodup o'
  · by_cases ho₁ : o₁ = o
    · subst ho₁
      rw [Function.update_self] at h₁
      by_contra hne
      exact (hother (Ne.symm hne) h₂).2 h₁
    · by_cases ho₂ : o₂ = o
      · subst ho₂
        rw [Function.update_self] at h₂
        exact absurd h₂ (hother ho₁ h₁).2
      · exact h.unique (hother ho₁ h₁).1 (hother ho₂ h₂).1

theorem notMem_update (h : Exclusive owns) {r : R} (hr : r ∈ owns o) (o' : O) :
    r ∉ Function.update owns o [] o' := by
  intro hr'
  by_cases ho : o' = o
  · subst ho
    rw [Function.update_self] at hr'
    cases hr'
  · rw [Function.update_of_ne ho] at hr'
    exact ho (h.unique hr' hr)

theorem drop (h : Exclusive owns) (o : O) : Exclusive (Function.update owns o []) :=
  h.update List.nodup_nil fun _ hr => by cases hr

/-- An owner hands one thing over to another one, and drops the others. -/
theorem handOver (h : Exclusive owns) {r : R} (hr : r ∈ owns o) {o' : O} (ho : o' ≠ o) :
    Exclusive (Function.update (Function.update owns o []) o' (owns o' ++ [r])) := by
  refine (h.drop o).update ?_ fun r' hr' o₁ h₁ => ?_
  · refine List.nodup_append.2 ⟨h.nodup o', List.nodup_singleton r, fun r' h₁ r'' h₂ heq => ?_⟩
    rw [List.mem_singleton.1 h₂] at heq
    exact ho (h.unique h₁ (heq ▸ hr))
  · rcases List.mem_append.1 hr' with hr' | hr'
    · rcases mem_or_mem_of_mem_update h₁ with h₁ | h₁
      · cases h₁
      · exact h.unique h₁ hr'
    · rw [List.mem_singleton.1 hr'] at h₁
      exact absurd h₁ (h.notMem_update hr o₁)

/-- An owner passes all that it has on to another one. -/
theorem pass (h : Exclusive owns) {o' : O} (ho : o ≠ o') :
    Exclusive (Function.update (Function.update owns o []) o' (owns o' ++ owns o)) := by
  refine (h.drop o).update ?_ fun r hr o₁ h₁ => ?_
  · refine List.nodup_append.2 ⟨h.nodup o', h.nodup o, fun r h₁ r' h₂ heq => ?_⟩
    exact ho (h.unique (heq ▸ h₂) h₁)
  · rcases List.mem_append.1 hr with hr | hr
    · rcases mem_or_mem_of_mem_update h₁ with h₁ | h₁
      · cases h₁
      · exact h.unique h₁ hr
    · exact absurd h₁ (h.notMem_update hr o₁)

/-- An owner gets something that is new. -/
theorem push (h : Exclusive owns) {r : R} (hr : ∀ o', r ∉ owns o') :
    Exclusive (Function.update owns o (owns o ++ [r])) := by
  refine h.update ?_ fun r' hr' o' h' => ?_
  · exact List.nodup_append.2 ⟨h.nodup o, List.nodup_singleton r, fun r₁ h₁ r₂ h₂ heq =>
      hr o (List.mem_singleton.1 h₂ ▸ heq ▸ h₁)⟩
  · rcases List.mem_append.1 hr' with hr' | hr'
    · exact h.unique h' hr'
    · exact absurd (List.mem_singleton.1 hr' ▸ h') (hr o')

/-- As `push`, at the front. -/
theorem cons (h : Exclusive owns) {r : R} (hr : ∀ o', r ∉ owns o') :
    Exclusive (Function.update owns o (r :: owns o)) := by
  refine h.update (List.nodup_cons.2 ⟨hr o, h.nodup o⟩) fun r' hr' o' h' => ?_
  rcases List.mem_cons.1 hr' with rfl | hr'
  · exact absurd h' (hr o')
  · exact h.unique h' hr'

/-- An owner gives away the first thing that it has. -/
theorem pop (h : Exclusive owns) {r : R} {l : List R} (ho : owns o = r :: l) :
    Exclusive (Function.update owns o l) ∧ ∀ o', r ∉ Function.update owns o l o' := by
  have hnodup := h.nodup o
  rw [ho] at hnodup
  obtain ⟨hr, hl⟩ := List.nodup_cons.1 hnodup
  have hmem {r' : R} (hr' : r' ∈ l) : r' ∈ owns o := ho ▸ List.mem_cons_of_mem r hr'
  refine ⟨h.update hl fun r' hr' o' h' => h.unique h' (hmem hr'), fun o' hr' => ?_⟩
  by_cases ho' : o' = o
  · subst ho'
    rw [Function.update_self] at hr'
    exact hr hr'
  · rw [Function.update_of_ne ho'] at hr'
    exact ho' (h.unique hr' (ho ▸ List.mem_cons_self))

/-- An owner hands the first thing that it has over to another one. -/
theorem shift (h : Exclusive owns) {r : R} {l : List R} (ho : owns o = r :: l) {o' : O}
    (hne : o' ≠ o) : Exclusive (Function.update (Function.update owns o l) o' (owns o' ++ [r])) := by
  obtain ⟨hpop, hr⟩ := h.pop ho
  have hpush := hpop.push (o := o') hr
  rwa [Function.update_of_ne hne] at hpush

/-- What an owner hands over to another one is still there. -/
theorem exists_mem_update_append_iff {l l' : List R} (hmem : ∀ r, r ∈ owns o ↔ r ∈ l ∨ r ∈ l')
    {o' : O} (hne : o' ≠ o) (r : R) :
    (∃ o₁, r ∈ Function.update (Function.update owns o l) o' (owns o' ++ l') o₁) ↔
      ∃ o₁, r ∈ owns o₁ := by
  constructor
  · rintro ⟨o₁, h⟩
    rcases mem_or_mem_of_mem_update h with h | h
    · rcases List.mem_append.1 h with h | h
      · exact ⟨o', h⟩
      · exact ⟨o, (hmem r).2 (.inr h)⟩
    · rcases mem_or_mem_of_mem_update h with h | h
      · exact ⟨o, (hmem r).2 (.inl h)⟩
      · exact ⟨o₁, h⟩
  · rintro ⟨o₁, h⟩
    by_cases h' : o₁ = o'
    · subst h'
      exact ⟨o₁, by rw [Function.update_self]; exact List.mem_append_left _ h⟩
    · by_cases h₁ : o₁ = o
      · subst h₁
        rcases (hmem r).1 h with h | h
        · exact ⟨o₁, by rwa [Function.update_of_ne h', Function.update_self]⟩
        · exact ⟨o', by rw [Function.update_self]; exact List.mem_append_right _ h⟩
      · exact ⟨o₁, by rwa [Function.update_of_ne h', Function.update_of_ne h₁]⟩

theorem mem_of_mem_handOver {r r' : R} (hr : r ∈ owns o) {o' o₁ : O}
    (h : r' ∈ Function.update (Function.update owns o []) o' (owns o' ++ [r]) o₁) :
    ∃ o₂, r' ∈ owns o₂ := by
  rcases mem_or_mem_of_mem_update h with h | h
  · rcases List.mem_append.1 h with h | h
    · exact ⟨o', h⟩
    · exact ⟨o, List.mem_singleton.1 h ▸ hr⟩
  · exact ⟨o₁, (mem_or_mem_of_mem_update h).elim (fun h => by cases h) id⟩

end Exclusive

end MojoEdk
