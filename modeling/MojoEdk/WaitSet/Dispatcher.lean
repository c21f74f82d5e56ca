import MojoEdk.Library.AssocList
import Mathlib.Order.Basic

/-!
# Wait sets

A wait set (`wait_set_dispatcher.cc`) waits for dispatchers to be ready. A dispatcher that
is added is registered in its own list of awakables. When it is awoken, it is removed from
that list and put in a queue (`WakeDispatcher`). `GetReadyDispatchers` takes dispatchers
from the queue and returns them, and keeps them in a second queue. The next time it is
called, these are registered again, or are awoken at once if they are ready still.

The sections of the operations that run under one lock each. A lookup of a dispatcher that
is not found dereferences the end of the map; then there is no result.
-/

namespace MojoEdk.WaitSet

/-- `MojoResult`, as far as wait sets use it. -/
inductive Result
  | ok
  | cancelled
  | invalidArgument
  | notFound
  | alreadyExists
  | failedPrecondition
  | shouldWait
  deriving DecidableEq

/-- `MojoHandleSignals`. -/
abbrev Signals := UInt32

/-- `WaitState`, without the dispatcher, which is the key in the map. -/
structure WaitState where
  signals : Signals
  context : ℕ
  deriving DecidableEq

variable {D : Type*} [DecidableEq D]

/-- `WaitSetDispatcher`. The list of its own awakables is left out. -/
structure WaitSetDispatcher (D : Type*) where
  isClosed : Bool := false
  waitingDispatchers : AList fun _ : D => WaitState := ∅
  awokenQueue : List (D × Result) := []
  processedDispatchers : List D := []

namespace WaitSetDispatcher

variable {w w' : WaitSetDispatcher D} {d : D}

/-- The dispatcher is waited for. -/
def Waiting (w : WaitSetDispatcher D) (d : D) : Prop := d ∈ w.waitingDispatchers

instance : DecidablePred w.Waiting := fun d => inferInstanceAs (Decidable (d ∈ w.waitingDispatchers))

/-! ## Sections -/

/-- `WakeDispatcher`. -/
def wakeDispatcher (w : WaitSetDispatcher D) (result : Result) (d : D) : WaitSetDispatcher D :=
  { w with
    awokenQueue := w.awokenQueue ++ [(d, if result = .alreadyExists then .ok else result)] }

/-- The map with another dispatcher, at the end of `AddWaitingDispatcher`. -/
def insertWaiting (w : WaitSetDispatcher D) (d : D) (state : WaitState) : WaitSetDispatcher D :=
  { w with waitingDispatchers := w.waitingDispatchers.insert d state }

/-- The map without a dispatcher. -/
def eraseWaiting (w : WaitSetDispatcher D) (d : D) : WaitSetDispatcher D :=
  { w with waitingDispatchers := w.waitingDispatchers.erase d }

/-- The queues without a dispatcher, at the end of `RemoveWaitingDispatcher`. -/
def eraseQueued (w : WaitSetDispatcher D) (d : D) : WaitSetDispatcher D :=
  { w with
    awokenQueue := w.awokenQueue.filter (·.1 ≠ d)
    processedDispatchers := w.processedDispatchers.filter (· ≠ d) }

/-- The map is cleared, then the queues, in `Close`. -/
def clearWaiting (w : WaitSetDispatcher D) : WaitSetDispatcher D :=
  { w with waitingDispatchers := ∅ }

def clearQueued (w : WaitSetDispatcher D) : WaitSetDispatcher D :=
  { w with awokenQueue := [], processedDispatchers := [] }

/-- The last section of `GetReadyDispatchers`, with a bound on the number of dispatchers:
    the dispatchers that are returned, their results and contexts. -/
def popAwoken : ℕ → WaitSetDispatcher D → Option (List (D × Result × ℕ) × WaitSetDispatcher D)
  | 0, w => some ([], w)
  | n + 1, w =>
    match w.awokenQueue with
    | [] => some ([], w)
    | (d, result) :: queue =>
      -- `DCHECK`: what is in the queue is a waiting dispatcher.
      match w.waitingDispatchers.lookup d with
      | none => none
      | some state =>
        let w :=
          if result ≠ .cancelled then
            { w with awokenQueue := queue, processedDispatchers := w.processedDispatchers ++ [d] }
          -- A dispatcher that was closed leaves the set, and is reported for the last time.
          else { w with awokenQueue := queue }.eraseWaiting d
        (popAwoken n w).map fun (ready, w) => ((d, result, state.context) :: ready, w)

/-! ## Places in the queues -/

/-- How often a dispatcher is in the queues. -/
def queued (w : WaitSetDispatcher D) (d : D) : ℕ :=
  (w.awokenQueue.map (·.1)).count d + w.processedDispatchers.count d

/-- A dispatcher at the front of the queue is queued. -/
theorem queued_pos_of_mem_take {n : ℕ} (h : d ∈ (w.awokenQueue.take n).map (·.1)) :
    0 < w.queued d :=
  Nat.add_pos_left (List.count_pos_iff.2 (List.map_subset _ (List.take_subset _ _) h)) _

/-- A dispatcher that is woken is queued once more. -/
theorem queued_wakeDispatcher (w : WaitSetDispatcher D) (result : Result) (d d' : D) :
    (w.wakeDispatcher result d).queued d' = w.queued d' + if d = d' then 1 else 0 := by
  simp only [queued, wakeDispatcher, List.map_append, List.map_cons, List.map_nil,
    List.count_append, List.count_singleton, beq_iff_eq]
  omega

/-- A dispatcher that is erased from the queues is in none. -/
theorem queued_eraseQueued_self (w : WaitSetDispatcher D) (d : D) :
    (w.eraseQueued d).queued d = 0 := by
  rw [queued, Nat.add_eq_zero_iff, List.count_eq_zero, List.count_eq_zero]
  simp [eraseQueued]

theorem queued_eraseQueued_of_ne (w : WaitSetDispatcher D) {d d' : D} (h : d' ≠ d) :
    (w.eraseQueued d).queued d' = w.queued d' := by
  have hmap : ((w.awokenQueue.filter (·.1 ≠ d)).map (·.1)) =
      (w.awokenQueue.map (·.1)).filter (· ≠ d) := by
    rw [List.filter_map]
    rfl
  simp only [queued, eraseQueued]
  rw [hmap, List.count_filter (by simpa using h), List.count_filter (by simpa using h)]

/-- A dispatcher that is added waits. -/
theorem waiting_insertWaiting (w : WaitSetDispatcher D) (d d' : D) (state : WaitState) :
    (w.insertWaiting d state).Waiting d' ↔ d' = d ∨ w.Waiting d' := AList.mem_insert _

/-- A dispatcher that is removed does not wait any more. -/
theorem waiting_eraseWaiting (w : WaitSetDispatcher D) (d d' : D) :
    (w.eraseWaiting d).Waiting d' ↔ d' ≠ d ∧ w.Waiting d' := by
  rw [Waiting, eraseWaiting, AList.mem_erase]
  rfl

omit [DecidableEq D] in
theorem not_waiting_clearWaiting (w : WaitSetDispatcher D) (d : D) : ¬w.clearWaiting.Waiting d :=
  AList.notMem_empty d

/-- A dispatcher waits if there is a state for it. -/
theorem waiting_iff : w.Waiting d ↔ ∃ state, w.waitingDispatchers.lookup d = some state := by
  rw [Waiting, ← AList.lookup_isSome, Option.isSome_iff_exists]

/-! ## Taking dispatchers from the queue -/

/-- The wait set after one dispatcher was taken from its queue. -/
def pop (w : WaitSetDispatcher D) (d : D) (result : Result) (queue : List (D × Result)) :
    WaitSetDispatcher D :=
  if result ≠ .cancelled then
    { w with awokenQueue := queue, processedDispatchers := w.processedDispatchers ++ [d] }
  else { w with awokenQueue := queue }.eraseWaiting d

/-- The first dispatcher of the queue is popped, and the rest of the loop follows. -/
theorem popAwoken_cons {n : ℕ} {result : Result} {queue : List (D × Result)} {state : WaitState}
    (hqueue : w.awokenQueue = (d, result) :: queue)
    (hstate : w.waitingDispatchers.lookup d = some state) :
    popAwoken (n + 1) w = (popAwoken n (w.pop d result queue)).map fun (ready, w) =>
      ((d, result, state.context) :: ready, w) := by
  rw [popAwoken, hqueue]
  simp only [hstate]
  rfl

section Pop

variable {result : Result} {queue : List (D × Result)}

theorem awokenQueue_pop : (w.pop d result queue).awokenQueue = queue := by
  rw [pop]
  split_ifs <;> rfl

theorem isClosed_pop : (w.pop d result queue).isClosed = w.isClosed := by
  rw [pop]
  split_ifs <;> rfl

/-- A dispatcher that is taken stays queued, or it was cancelled and is not waited for. -/
theorem pop_cases (hqueue : w.awokenQueue = (d, result) :: queue) :
    ((∀ d', (w.pop d result queue).queued d' = w.queued d') ∧
      (w.pop d result queue).waitingDispatchers = w.waitingDispatchers) ∨
    ((∀ d', d' ≠ d → (w.pop d result queue).queued d' = w.queued d') ∧
      (w.pop d result queue).queued d + 1 = w.queued d ∧
      (w.pop d result queue).waitingDispatchers = w.waitingDispatchers.erase d) := by
  rw [pop]
  split_ifs with h
  · refine .inl ⟨fun d' => ?_, rfl⟩
    simp only [queued, hqueue, List.map_cons, List.count_cons, List.count_append, List.count_nil]
    omega
  · refine .inr ⟨fun d' hne => ?_, ?_, rfl⟩
    · simp [queued, hqueue, eraseWaiting, hne.symm]
    · simp only [queued, hqueue, eraseWaiting, List.map_cons, List.count_cons_self]
      omega

end Pop

/-- What the last section of `GetReadyDispatchers` does when it takes at most `n` dispatchers
    from the front of the queue: all of them are still in the queues, except for those that
    were cancelled, which are not waited for any more. -/
structure Popped (n : ℕ) (w w' : WaitSetDispatcher D) : Prop where
  isClosed : w'.isClosed = w.isClosed
  awokenQueue : w'.awokenQueue = w.awokenQueue.drop n
  lookup : ∀ d state, w'.waitingDispatchers.lookup d = some state →
    w.waitingDispatchers.lookup d = some state
  erased : ∀ d, w.Waiting d → ¬w'.Waiting d →
    d ∈ (w.awokenQueue.take n).map (·.1) ∧ w'.queued d = 0 ∧ w.queued d = 1
  queued : ∀ d, w'.Waiting d ∨ ¬w.Waiting d → w'.queued d = w.queued d

namespace Popped

variable {n : ℕ} {w' : WaitSetDispatcher D} {result : Result} {queue : List (D × Result)}

/-- Nothing is taken. -/
theorem refl (hqueue : w.awokenQueue.drop n = w.awokenQueue) : w.Popped n w where
  isClosed := rfl
  awokenQueue := hqueue.symm
  lookup _ _ h := h
  erased _ h h' := absurd h h'
  queued _ _ := rfl

theorem waiting (h : w.Popped n w') (hd : w'.Waiting d) : w.Waiting d := by
  obtain ⟨state, hstate⟩ := waiting_iff.1 hd
  exact waiting_iff.2 ⟨state, h.lookup d state hstate⟩

theorem queued_le (h : w.Popped n w') (d : D) : w'.queued d ≤ w.queued d := by
  by_cases hd : w.Waiting d ∧ ¬w'.Waiting d
  · exact (h.erased d hd.1 hd.2).2.1.trans_le (Nat.zero_le _)
  · exact (h.queued d (by tauto)).le

/-- One dispatcher is taken, and then others. -/
theorem cons (hqueue : w.awokenQueue = (d, result) :: queue) (hwaiting : w.Waiting d)
    (hone : w.queued d ≤ 1) (h : (w.pop d result queue).Popped n w') : w.Popped (n + 1) w' := by
  have hawoken : (w.pop d result queue).awokenQueue = queue := awokenQueue_pop
  obtain ⟨hclosed, hqueue', hlookup, herased, hkept⟩ := h
  rw [hawoken] at hqueue'
  simp only [hawoken] at herased
  rcases pop_cases hqueue with ⟨hcount, hmap⟩ | ⟨hcount, hself, hmap⟩
  · -- The dispatcher stays in the queues, and is waited for as before.
    rw [hmap] at hlookup
    simp only [hcount, Waiting, hmap] at herased hkept
    refine ⟨hclosed.trans isClosed_pop, ?_, hlookup, fun d' h h' => ?_, hkept⟩
    · rw [hqueue', hqueue, List.drop_succ_cons]
    · rw [hqueue, List.take_succ_cons, List.map_cons]
      exact ⟨List.mem_cons_of_mem _ (herased d' h h').1, (herased d' h h').2⟩
  · -- The dispatcher was cancelled: it is in no queue, and is not waited for.
    have hpop (d' : D) : (w.pop d result queue).Waiting d' ↔ d' ≠ d ∧ w.Waiting d' := by
      rw [Waiting, hmap, AList.mem_erase]
      rfl
    have hgone : ¬w'.Waiting d := by
      intro hd
      obtain ⟨state, hstate⟩ := waiting_iff.1 hd
      have hnone := hlookup d state hstate
      rw [hmap, AList.lookup_erase] at hnone
      cases hnone
    refine ⟨hclosed.trans isClosed_pop, ?_, fun d' state h => ?_, fun d' h h' => ?_, fun d' h => ?_⟩
    · rw [hqueue', hqueue, List.drop_succ_cons]
    · have hne : d' ≠ d := by
        rintro rfl
        exact hgone (waiting_iff.2 ⟨state, h⟩)
      rw [← AList.lookup_erase_ne hne, ← hmap]
      exact hlookup d' state h
    · rw [hqueue, List.take_succ_cons, List.map_cons]
      by_cases hne : d' = d
      · subst hne
        have heq := hkept d' (.inr fun h => ((hpop d').1 h).1 rfl)
        exact ⟨List.mem_cons_self, by omega, by omega⟩
      · have hd' := herased d' ((hpop d').2 ⟨hne, h⟩) h'
        rw [hcount d' hne] at hd'
        exact ⟨List.mem_cons_of_mem _ hd'.1, hd'.2⟩
    · have hne : d' ≠ d := by
        rintro rfl
        exact h.elim hgone fun h => h hwaiting
      rw [← hcount d' hne]
      exact hkept d' (h.imp_right fun hnot h => hnot ((hpop d').1 h).2)

end Popped

/-- The others at the front of the queue are queued and waited for as before. -/
theorem front_pop {n : ℕ} {result : Result} {queue : List (D × Result)} {d' : D}
    (hqueue : w.awokenQueue = (d, result) :: queue) (hone : w.queued d ≤ 1)
    (hd' : d' ∈ (queue.take n).map (·.1)) :
    (w.pop d result queue).queued d' = w.queued d' ∧
      ((w.pop d result queue).Waiting d' ↔ w.Waiting d') := by
  rcases pop_cases hqueue with ⟨hcount, hmap⟩ | ⟨hcount, hself, hmap⟩
  · rw [hcount, Waiting, hmap]
    exact ⟨rfl, Iff.rfl⟩
  · have hne : d' ≠ d := by
      rintro rfl
      have hpos : 0 < (w.pop d' result queue).queued d' := by
        rw [queued, awokenQueue_pop]
        exact Nat.add_pos_left (List.count_pos_iff.2 (List.map_subset _
          (List.take_subset _ _) hd')) _
      omega
    rw [hcount d' hne, Waiting, hmap, AList.mem_erase]
    exact ⟨rfl, and_iff_right hne⟩

/-- The last section of `GetReadyDispatchers` finds the dispatchers that it takes, if each of
    them is waited for and queued once: they are those at the front of the queue. -/
theorem popAwoken_spec (n : ℕ) (w : WaitSetDispatcher D)
    (hone : ∀ d ∈ (w.awokenQueue.take n).map (·.1), w.queued d ≤ 1)
    (hwaiting : ∀ d ∈ (w.awokenQueue.take n).map (·.1), w.Waiting d) :
    ∃ ready w', popAwoken n w = some (ready, w') ∧
      ready.map (·.1) = (w.awokenQueue.take n).map (·.1) ∧ w.Popped n w' := by
  induction n generalizing w with
  | zero => exact ⟨[], w, rfl, rfl, .refl rfl⟩
  | succ n ih =>
    cases hqueue : w.awokenQueue with
    | nil =>
      refine ⟨[], w, ?_, rfl, .refl (by rw [hqueue]; rfl)⟩
      rw [popAwoken, hqueue]
    | cons x queue =>
      obtain ⟨d, result⟩ := x
      rw [hqueue] at hone hwaiting
      simp only [List.take_succ_cons, List.map_cons, List.forall_mem_cons] at hone hwaiting
      obtain ⟨state, hstate⟩ := waiting_iff.1 hwaiting.1
      have hawoken : (w.pop d result queue).awokenQueue = queue := awokenQueue_pop
      obtain ⟨ready, w', hpop, hready, hpopped⟩ := ih (w.pop d result queue)
        (by
          rw [hawoken]
          exact fun d' hd' => (front_pop hqueue hone.1 hd').1.trans_le (hone.2 d' hd'))
        (by
          rw [hawoken]
          exact fun d' hd' => (front_pop hqueue hone.1 hd').2.2 (hwaiting.2 d' hd'))
      refine ⟨(d, result, state.context) :: ready, w', ?_, ?_, .cons hqueue hwaiting.1 hone.1 hpopped⟩
      · rw [popAwoken_cons hqueue hstate, hpop, Option.map_some]
      · rw [List.map_cons, hready, hawoken, List.take_succ_cons, List.map_cons]

end WaitSetDispatcher

end MojoEdk.WaitSet
