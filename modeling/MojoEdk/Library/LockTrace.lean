import Mathlib.Data.List.Count
import Mathlib.Data.List.Nodup
import Mathlib.Logic.Function.Basic

/-!
# Traces of locks

What a call does to some locks, as a list of acquisitions and releases (`LockOp`). A lock
is held or free: to acquire a lock that is held, or to release one that is free, goes wrong
(`LockOp.run`). A trace is `Balanced` if it never does, as long as the locks it acquires are
free before, and releases what it acquires.

Where releases are not checked, a trace may go on that is not balanced: it waits for ever for
a lock that is held, and otherwise ends (`LockOp.await`), perhaps with more locks held, or with
the locks as they were (`LockOp.Restores`).
-/

namespace MojoEdk

/-- What is done to a lock. -/
inductive LockOp (L : Type*)
  | acquire (l : L)
  | release (l : L)
  deriving DecidableEq

namespace LockOp

variable {L : Type*} [DecidableEq L] {held : L → Bool} {ops : List (LockOp L)}

/-- The locks held afterwards: none if the lock to acquire is held, or the one to release
    is free. -/
def step (held : L → Bool) : LockOp L → Option (L → Bool)
  | acquire l => if held l then none else some (Function.update held l true)
  | release l => if held l then some (Function.update held l false) else none

/-- The locks held after a trace. -/
def run (held : L → Bool) : List (LockOp L) → Option (L → Bool)
  | [] => some held
  | op :: ops => (op.step held).bind (run · ops)

/-- The locks held after a trace: none if it waits for a lock that is held. To release a lock
    that is free does nothing. -/
def await (held : L → Bool) : List (LockOp L) → Option (L → Bool)
  | [] => some held
  | acquire l :: ops => if held l then none else await (Function.update held l true) ops
  | release l :: ops => await (Function.update held l false) ops

/-- A trace that goes well, and leaves the locks as they were. -/
structure Balanced (ops : List (LockOp L)) : Prop where
  run : ∀ held, (∀ l, acquire l ∈ ops → held l = false) → run held ops = some held
  released : ∀ l, ops.count (release l) = ops.count (acquire l)

theorem run_append (ops' : List (LockOp L)) :
    run held (ops ++ ops') = (run held ops).bind (run · ops') := by
  induction ops generalizing held with
  | nil => rfl
  | cons op ops ih =>
    rw [List.cons_append, run, run, Option.bind_assoc]
    exact Option.bind_congr fun held' _ => ih

/-- Locks that are free are acquired one after the other. -/
theorem run_acquire {ls : List L} (hls : ls.Nodup) (h : ∀ l ∈ ls, held l = false) :
    run held (ls.map acquire) = some fun l => decide (l ∈ ls) || held l := by
  induction ls generalizing held with
  | nil => simp [run]
  | cons l ls ih =>
    obtain ⟨hl, hls⟩ := List.nodup_cons.1 hls
    have hfree : ∀ k ∈ ls, Function.update held l true k = false := by
      intro k hk
      rw [Function.update_of_ne (ne_of_mem_of_not_mem hk hl)]
      exact h k (List.mem_cons_of_mem _ hk)
    rw [List.map_cons, run, step, h l List.mem_cons_self, if_neg Bool.false_ne_true,
      Option.bind_some, ih hls hfree]
    refine congrArg some (funext fun k => ?_)
    by_cases hk : k = l
    · simp [hk]
    · simp [hk]

/-- Locks that are held are released one after the other. -/
theorem run_release {ls : List L} (hls : ls.Nodup) (h : ∀ l ∈ ls, held l = true) :
    run held (ls.map release) = some fun l => held l && !decide (l ∈ ls) := by
  induction ls generalizing held with
  | nil => simp [run]
  | cons l ls ih =>
    obtain ⟨hl, hls⟩ := List.nodup_cons.1 hls
    have hheld : ∀ k ∈ ls, Function.update held l false k = true := by
      intro k hk
      rw [Function.update_of_ne (ne_of_mem_of_not_mem hk hl)]
      exact h k (List.mem_cons_of_mem _ hk)
    rw [List.map_cons, run, step, h l List.mem_cons_self, if_pos rfl, Option.bind_some,
      ih hls hheld]
    refine congrArg some (funext fun k => ?_)
    by_cases hk : k = l
    · simp [hk]
    · simp [hk]

/-- Locks that are acquired one after the other are distinct. -/
theorem nodup_of_run {ls : List L} {held' : L → Bool}
    (h : run held (ls.map acquire ++ ops) = some held') :
    ls.Nodup ∧ ∀ l ∈ ls, held l = false := by
  induction ls generalizing held with
  | nil => exact ⟨List.nodup_nil, by simp⟩
  | cons l ls ih =>
    rw [List.map_cons, List.cons_append, run, step] at h
    split_ifs at h with hl
    · cases h
    · obtain ⟨hnodup, hfree⟩ := ih h
      have hmem : l ∉ ls := fun hm => by
        have := hfree l hm
        rw [Function.update_self] at this
        cases this
      refine ⟨List.nodup_cons.2 ⟨hmem, hnodup⟩, List.forall_mem_cons.2 ⟨by simpa using hl, ?_⟩⟩
      intro k hk
      have := hfree k hk
      rwa [Function.update_of_ne (ne_of_mem_of_not_mem hk hmem)] at this

/-- A lock is acquired as often as it is in the list. -/
theorem count_map_acquire (ls : List L) (l : L) :
    (ls.map acquire).count (acquire l) = ls.count l :=
  List.count_map_of_injective ls acquire (fun _ _ => acquire.inj) l

/-- A lock is released as often as it is in the list. -/
theorem count_map_release (ls : List L) (l : L) :
    (ls.map release).count (release l) = ls.count l :=
  List.count_map_of_injective ls release (fun _ _ => release.inj) l

theorem count_release_map_acquire (ls : List L) (l : L) :
    (ls.map acquire).count (release l) = 0 := by
  refine List.count_eq_zero.2 fun h => ?_
  obtain ⟨_, _, hl⟩ := List.mem_map.1 h
  cases hl

theorem count_acquire_map_release (ls : List L) (l : L) :
    (ls.map release).count (acquire l) = 0 := by
  refine List.count_eq_zero.2 fun h => ?_
  obtain ⟨_, _, hl⟩ := List.mem_map.1 h
  cases hl

/-- To acquire some locks and to release them again is balanced if they are distinct. -/
theorem balanced_iff_nodup (ls : List L) :
    Balanced (ls.map acquire ++ ls.map release) ↔ ls.Nodup := by
  constructor
  · intro h
    exact (nodup_of_run (h.run (fun _ => false) fun _ _ => rfl)).1
  · intro hls
    refine ⟨fun held hfree => ?_, fun l => ?_⟩
    · have hfree : ∀ l ∈ ls, held l = false :=
        fun l hl => hfree l (List.mem_append_left _ (List.mem_map_of_mem hl))
      have hheld : ∀ l ∈ ls, (decide (l ∈ ls) || held l) = true := fun l hl => by simp [hl]
      rw [run_append, run_acquire hls hfree, Option.bind_some, run_release hls hheld]
      refine congrArg some (funext fun l => ?_)
      by_cases hl : l ∈ ls
      · simp [hl, hfree l hl]
      · simp [hl]
    · rw [List.count_append, List.count_append, count_release_map_acquire, count_map_release,
        count_map_acquire, count_acquire_map_release, Nat.zero_add, Nat.add_zero]

/-- To acquire some locks, and to release the last one as often, is balanced if there is
    no other one. -/
theorem balanced_replicate_iff (ls : List L) (l : L) :
    Balanced (ls.map acquire ++ acquire l :: List.replicate (ls.length + 1) (release l)) ↔
      ls = [] := by
  constructor
  · intro h
    have hrun := h.run (fun _ => false) fun _ _ => rfl
    rw [List.append_cons, ← List.map_singleton (f := acquire), ← List.map_append] at hrun
    have hnodup := (nodup_of_run hrun).1
    cases ls with
    | nil => rfl
    | cons k ls =>
      exfalso
      -- Another lock is acquired, and not released.
      have hkl : k ≠ l := by
        rintro rfl
        exact (List.nodup_cons.1 hnodup).1 (by simp)
      have hcount := h.released k
      rw [List.count_append, List.count_append, count_release_map_acquire,
        count_map_acquire] at hcount
      simp [List.count_replicate, Ne.symm hkl] at hcount
  · rintro rfl
    exact (balanced_iff_nodup [l]).2 (List.nodup_singleton l)

/-! ## Waiting -/

theorem await_append (ops' : List (LockOp L)) :
    await held (ops ++ ops') = (await held ops).bind (await · ops') := by
  induction ops generalizing held with
  | nil => rfl
  | cons op ops ih =>
    cases op with
    | acquire l =>
      rw [List.cons_append, await, await]
      split_ifs
      · rfl
      · exact ih
    | release l => exact ih

/-- A trace that goes well does not wait. -/
theorem await_of_run {held' : L → Bool} (h : run held ops = some held') :
    await held ops = some held' := by
  induction ops generalizing held with
  | nil => exact h
  | cons op ops ih =>
    rw [run] at h
    obtain ⟨held₁, hstep, h⟩ := Option.bind_eq_some_iff.1 h
    cases op with
    | acquire l =>
      rw [step] at hstep
      split_ifs at hstep with hl
      obtain rfl := Option.some.inj hstep
      rw [await, if_neg hl]
      exact ih h
    | release l =>
      rw [step] at hstep
      split_ifs at hstep
      obtain rfl := Option.some.inj hstep
      exact ih h

/-- What acquires some locks does not wait if they are distinct and free. -/
theorem isSome_await_acquire (ls : List L) :
    (await held (ls.map acquire)).isSome ↔ ls.Nodup ∧ ∀ l ∈ ls, held l = false := by
  induction ls generalizing held with
  | nil => simp [await]
  | cons l ls ih =>
    rw [List.map_cons, await]
    split_ifs with hl
    · simp [hl]
    · rw [ih, List.nodup_cons, List.forall_mem_cons]
      constructor
      · rintro ⟨hls, hfree⟩
        have hmem : l ∉ ls := fun hm => by
          have := hfree l hm
          rw [Function.update_self] at this
          cases this
        refine ⟨⟨hmem, hls⟩, by simpa using hl, fun k hk => ?_⟩
        have := hfree k hk
        rwa [Function.update_of_ne (ne_of_mem_of_not_mem hk hmem)] at this
      · rintro ⟨⟨hmem, hls⟩, -, hfree⟩
        refine ⟨hls, fun k hk => ?_⟩
        rw [Function.update_of_ne (ne_of_mem_of_not_mem hk hmem)]
        exact hfree k hk

/-- The locks that are acquired are held. -/
theorem await_acquire {ls : List L} (hls : ls.Nodup) (h : ∀ l ∈ ls, held l = false) :
    await held (ls.map acquire) = some fun l => decide (l ∈ ls) || held l :=
  await_of_run (run_acquire hls h)

/-- To release locks never waits. -/
theorem await_release (ls : List L) :
    await held (ls.map release) = some fun l => held l && !decide (l ∈ ls) := by
  induction ls generalizing held with
  | nil => simp [await]
  | cons l ls ih =>
    rw [List.map_cons, await, ih]
    refine congrArg some (funext fun k => ?_)
    by_cases hk : k = l
    · simp [hk]
    · simp [hk]

/-- A lock that is released again and again is free. -/
theorem await_replicate_release (n : ℕ) (l : L) :
    await held (List.replicate (n + 1) (release l)) = some (Function.update held l false) := by
  induction n generalizing held with
  | zero => rfl
  | succ n ih =>
    rw [List.replicate_succ, await, ih, Function.update_idem]

/-- Locks that are acquired one after the other, each released at once. -/
def each (ls : List L) : List (LockOp L) := ls.flatMap fun l => [acquire l, release l]

omit [DecidableEq L] in
theorem each_append (ls ls' : List L) : each (ls ++ ls') = each ls ++ each ls' :=
  List.flatMap_append

/-- Each of the locks has to be free, and is free again afterwards. -/
theorem await_each (ls : List L) :
    await held (each ls) = if ∀ l ∈ ls, held l = false then some held else none := by
  induction ls with
  | nil => simp [each, await]
  | cons l ls ih =>
    rw [each, List.flatMap_cons, ← each, List.cons_append, List.cons_append, List.nil_append, await,
      await]
    split_ifs with hl hall hall
    · rw [hall l List.mem_cons_self] at hl
      cases hl
    · rfl
    · rw [Function.update_idem, ← Bool.eq_false_iff.2 hl, Function.update_eq_self, ih,
        if_pos fun k hk => hall k (List.mem_cons_of_mem _ hk)]
    · rw [Function.update_idem, ← Bool.eq_false_iff.2 hl, Function.update_eq_self, ih, if_neg]
      exact fun hrest => hall (List.forall_mem_cons.2 ⟨Bool.eq_false_iff.2 hl, hrest⟩)

/-- A trace that ends, with the locks as they were, if some of them are free before. -/
def Restores (free : List L) (ops : List (LockOp L)) : Prop :=
  ∀ held : L → Bool, (∀ l ∈ free, held l = false) → await held ops = some held

variable {free ls : List L}

theorem restores_nil : Restores free ([] : List (LockOp L)) := fun _ _ => rfl

/-- Locks that are free can be taken one by one. -/
theorem restores_each (h : ls ⊆ free) : Restores free (each ls) := fun held hfree => by
  rw [await_each, if_pos fun l hl => hfree l (h hl)]

/-- What locks and releases some of them afterwards changes nothing. -/
theorem restores_append_each (h : ls ⊆ free) : Restores free (ops ++ each ls) ↔ Restores free ops := by
  refine forall₂_congr fun held hfree => ?_
  rw [await_append]
  constructor
  · intro hawait
    obtain ⟨held', hops, hls⟩ := Option.bind_eq_some_iff.1 hawait
    rw [await_each] at hls
    split_ifs at hls
    rw [hops, hls]
  · intro hops
    rw [hops, Option.bind_some, await_each, if_pos fun l hl => hfree l (h hl)]

end LockOp

end MojoEdk
