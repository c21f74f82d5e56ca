import Mathlib.Data.Nat.Notation
import Mathlib.Data.Option.Basic
import Mathlib.Tactic.SplitIfs

/-!
# Machines

A machine takes steps that are determined by its inputs. A step that has no state
after it is not taken: the input is not possible, or the process is gone.

Runs are restricted by a guard on inputs, which may depend on the state. What holds
initially and is preserved by the steps the guard admits, holds in every state that
is reached by such steps (`Machine.Reachable.invariant`). States that are reached by
given inputs are computed (`Machine.exec`, `Machine.exists_reachable`), and so is how much
a measure can have grown (`Machine.exists_reachable_le`). What every step of a run satisfies
(`Machine.Every`) may be replaced by what is equivalent to it as long as an invariant holds
(`Machine.every_congr`).
-/

namespace MojoEdk

/-- A machine with states `σ` and inputs `ι`. -/
structure Machine (σ ι : Type*) where
  init : σ
  step : σ → ι → Option σ

namespace Machine

variable {σ ι : Type*} {M : Machine σ ι} {G : σ → ι → Prop} {s s' : σ}

/-- The states that are reached by steps that the guard admits. -/
inductive Reachable (M : Machine σ ι) (G : σ → ι → Prop) : σ → Prop
  | init : Reachable M G M.init
  | step {s s' : σ} {i : ι} (hs : Reachable M G s) (hG : G s i) (h : M.step s i = some s') :
    Reachable M G s'

/-- Any step is admitted. -/
def Any (_ : σ) (_ : ι) : Prop := True

instance (s : σ) (i : ι) : Decidable (Any s i) := inferInstanceAs (Decidable True)

theorem Reachable.invariant {P : σ → Prop} (hs : M.Reachable G s) (init : P M.init)
    (step : ∀ {s i s'}, P s → G s i → M.step s i = some s' → P s') : P s := by
  induction hs with
  | init => exact init
  | step _ hG h ih => exact step ih hG h

/-- The state after some inputs, if the guard admits all of them. -/
def exec (M : Machine σ ι) (G : σ → ι → Prop) [∀ s i, Decidable (G s i)] (s : σ) :
    List ι → Option σ
  | [] => some s
  | i :: is => if G s i then (M.step s i).bind (exec M G · is) else none

theorem Reachable.exec [∀ s i, Decidable (G s i)] (hs : M.Reachable G s) {is : List ι}
    (h : M.exec G s is = some s') : M.Reachable G s' := by
  induction is generalizing s with
  | nil => exact Option.some.inj h ▸ hs
  | cons i is ih =>
    rw [Machine.exec] at h
    split_ifs at h with hG
    obtain ⟨s₁, hs₁, h⟩ := Option.bind_eq_some_iff.1 h
    exact ih (.step hs hG hs₁) h

/-- A state that some inputs reach, with a property that can be checked. -/
theorem exists_reachable [∀ s i, Decidable (G s i)] {P : σ → Prop} [DecidablePred P]
    (is : List ι) (h : ((M.exec G M.init is).any fun s => decide (P s)) = true) :
    ∃ s, M.Reachable G s ∧ P s := by
  cases hs : M.exec G M.init is with
  | none =>
    rw [hs] at h
    cases h
  | some s =>
    rw [hs] at h
    exact ⟨s, Reachable.init.exec hs, of_decide_eq_true h⟩

/-- What grows by one at most with every step. -/
theorem Reachable.exec_le [∀ s i, Decidable (G s i)] {f : σ → ℕ}
    (hf : ∀ {s i s'}, M.Reachable G s → G s i → M.step s i = some s' → f s' ≤ f s + 1)
    (hs : M.Reachable G s) {is : List ι} (h : M.exec G s is = some s') :
    f s' ≤ f s + is.length := by
  induction is generalizing s with
  | nil => exact Option.some.inj h ▸ Nat.le_refl _
  | cons i is ih =>
    rw [Machine.exec] at h
    split_ifs at h with hG
    obtain ⟨s₁, hs₁, h⟩ := Option.bind_eq_some_iff.1 h
    calc f s'
      _ ≤ f s₁ + is.length := ih (.step hs hG hs₁) h
      _ ≤ f s + 1 + is.length := Nat.add_le_add_right (hf hs hG hs₁) _
      _ = f s + (i :: is).length := by rw [List.length_cons]; omega

/-- A state that some inputs reach, with measures that have not grown much. -/
theorem exists_reachable_le [∀ s i, Decidable (G s i)] {P : σ → Prop} [DecidablePred P]
    {ε : Type*} {f : ε → σ → ℕ}
    (hf : ∀ {e s i s'}, M.Reachable G s → G s i → M.step s i = some s' → f e s' ≤ f e s + 1)
    (is : List ι) (h : ((M.exec G M.init is).any fun s => decide (P s)) = true) :
    ∃ s, M.Reachable G s ∧ (∀ e, f e s ≤ f e M.init + is.length) ∧ P s := by
  cases hs : M.exec G M.init is with
  | none =>
    rw [hs] at h
    cases h
  | some s =>
    rw [hs] at h
    exact ⟨s, Reachable.init.exec hs, fun e => Reachable.init.exec_le hf hs,
      of_decide_eq_true h⟩

/-- Every step that inputs cause satisfies a property. -/
def Every (M : Machine σ ι) (P : σ → ι → σ → Prop) (s : σ) : List ι → Prop
  | [] => True
  | i :: is => ∀ s', M.step s i = some s' → P s i s' ∧ Every M P s' is

variable {P Q : σ → ι → σ → Prop}

theorem every_congr {I : σ → Prop}
    (hiff : ∀ {s i s'}, I s → M.step s i = some s' → (P s i s' ↔ Q s i s'))
    (hstep : ∀ {s i s'}, I s → Q s i s' → M.step s i = some s' → I s') (hs : I s) (is : List ι) :
    M.Every P s is ↔ M.Every Q s is := by
  induction is generalizing s with
  | nil => exact Iff.rfl
  | cons i is ih =>
    constructor
    · intro h s' hs'
      obtain ⟨hP, hrest⟩ := h s' hs'
      have hQ := (hiff hs hs').1 hP
      exact ⟨hQ, (ih (hstep hs hQ hs')).1 hrest⟩
    · intro h s' hs'
      obtain ⟨hQ, hrest⟩ := h s' hs'
      exact ⟨(hiff hs hs').2 hQ, (ih (hstep hs hQ hs')).2 hrest⟩

/-- After some of the inputs, the others follow. -/
theorem Every.of_exec {is js : List ι} (h : M.Every P s (is ++ js))
    (hs : M.exec Any s is = some s') : M.Every P s' js := by
  induction is generalizing s with
  | nil => exact Option.some.inj hs ▸ h
  | cons i is ih =>
    rw [Machine.exec, if_pos (by trivial)] at hs
    obtain ⟨s₁, hs₁, hs⟩ := Option.bind_eq_some_iff.1 hs
    exact ih (h s₁ hs₁).2 hs

end Machine

end MojoEdk
