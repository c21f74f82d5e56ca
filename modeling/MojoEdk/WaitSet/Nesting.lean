import MojoEdk.Library.Acyclic
import MojoEdk.Library.Machine
import MojoEdk.WaitSet.Signals
import Mathlib.Data.Fintype.Card

/-!
# Nested wait sets

A wait set may wait for other wait sets. To wake a wait set is to put an id in its queue,
and then, under its `awakable_lock_`, to wake those that wait for it, and so on
(`wakeDispatcher`). A wait set whose `awakable_lock_` is held cannot be woken again: the
thread waits for itself.

`AddWaitingDispatcher` refuses to add a wait set to itself, but two wait sets may be added
to each other. As long as no call of it closes a cycle, everything that wakes wait sets
comes to its end (`not_stuck`).
-/

namespace MojoEdk.WaitSet

open Relation

/-- Wait sets `W`, the other dispatchers `L` they wait for, and the lists of awakables of
    all of them, with the signals that are waited for. -/
structure Network (W L : Type) where
  sets : W → WaitSetDispatcher (W ⊕ L) := fun _ => {}
  awakables : W ⊕ L → List (W × Signals) := fun _ => []
  stuck : Bool := false

namespace Network

variable {W L : Type} [DecidableEq W] [DecidableEq L] {n n' : Network W L} {w : W} {d : W ⊕ L}

/-! ## Waking -/

/-- One of the wait sets changes. -/
def update (n : Network W L) (w : W) (f : WaitSetDispatcher (W ⊕ L) → WaitSetDispatcher (W ⊕ L)) :
    Network W L :=
  { n with sets := Function.update n.sets w (f (n.sets w)) }

/-- One of the lists of awakables changes. -/
def setAwakables (n : Network W L) (d : W ⊕ L) (l : List (W × Signals)) : Network W L :=
  { n with awakables := Function.update n.awakables d l }

/-- The signals are satisfied when there is something in the queues. -/
def Readable (signals : Signals) : Prop := signals &&& MOJO_HANDLE_SIGNAL_READABLE ≠ 0

instance : DecidablePred Readable := fun _ => inferInstanceAs (Decidable (_ ≠ _))

/-- `WakeDispatcher`, while the `awakable_lock_` of some wait sets is held. The awakables
    that are awoken are those whose signals are satisfied, and they are removed from the
    list. There is no result if a lock is needed that is held. A chain of wait sets is at
    most as long as there are wait sets. -/
def wakeDispatcher : ℕ → List W → W → Result → W ⊕ L → Network W L → Option (Network W L)
  | 0, _, _, _, _, _ => none
  | fuel + 1, held, w, result, d, n =>
    if w ∈ held then none
    else
      let n := n.update w (·.wakeDispatcher result d)
      let awoken := (n.awakables (.inl w)).filter fun a => Readable a.2
      let rest := (n.awakables (.inl w)).filter fun a => ¬Readable a.2
      awoken.foldlM (fun n a => wakeDispatcher fuel (w :: held) a.1 .ok (.inl w) n)
        (n.setAwakables (.inl w) rest)

/-! ## Operations -/

section Operations

variable [Fintype W]

/-- `WakeDispatcher`, called with no `awakable_lock_` held. -/
def wake (n : Network W L) (w : W) (result : Result) (d : W ⊕ L) : Option (Network W L) :=
  wakeDispatcher (Fintype.card W + 1) [] w result d n

/-- A wait set has something in its queues. -/
def isReady (n : Network W L) (w : W) : Bool :=
  !(n.sets w).awokenQueue.isEmpty || !(n.sets w).processedDispatchers.isEmpty

/-- `AddAwakable`. The result of another dispatcher than a wait set is given. -/
def addAwakable (n : Network W L) (signals : Signals) (result : Result) : W ⊕ L → Result
  | .inl x =>
    if n.isReady x ∧ Readable signals then .alreadyExists
    else if Readable signals then .ok else .failedPrecondition
  | .inr _ => result

/-- The awakable of a wait set is added to the list of a dispatcher, the wait set is
    woken, or the dispatcher is closed. -/
def register (n : Network W L) (w : W) (d : W ⊕ L) (signals : Signals) (result : Result) :
    Option (Network W L) :=
  match n.addAwakable signals result d with
  | .ok => some (n.setAwakables d ((w, signals) :: n.awakables d))
  | .invalidArgument => some n
  | result => n.wake w result d

/-- `RemoveAwakable`. -/
def removeAwakable (n : Network W L) (w : W) (d : W ⊕ L) : Network W L :=
  n.setAwakables d ((n.awakables d).filter (·.1 ≠ w))

/-- `AddWaitingDispatcher`. -/
def addWaitingDispatcher (n : Network W L) (w : W) (d : W ⊕ L) (state : WaitState)
    (result : Result) : Option (Network W L) :=
  if d = .inl w ∨ (n.sets w).isClosed ∨ (n.sets w).Waiting d then some n
  else if n.addAwakable state.signals result d = .invalidArgument then some n
  else (n.register w d state.signals result).map (·.update w (·.insertWaiting d state))

/-- `RemoveWaitingDispatcher`. -/
def removeWaitingDispatcher (n : Network W L) (w : W) (d : W ⊕ L) : Option (Network W L) :=
  if (n.sets w).Waiting d then
    some ((n.removeAwakable w d).update w fun s => (s.eraseWaiting d).eraseQueued d)
  else some n

/-- The loop of `GetReadyDispatchers` over the dispatchers that were returned the last
    time. -/
def requeue (w : W) (results : L → Result) : List (W ⊕ L) → Network W L → Option (Network W L)
  | [], n => some n
  | d :: pending, n =>
    match (n.sets w).waitingDispatchers.lookup d with
    | none => none
    | some state =>
      let result := d.elim (fun _ => .ok) results
      if n.addAwakable state.signals result d = .invalidArgument then
        requeue w results pending (n.update w (·.eraseWaiting d))
      else (n.register w d state.signals result).bind (requeue w results pending)

/-- `GetReadyDispatchers`. -/
def getReadyDispatchers (n : Network W L) (w : W) (count : ℕ) (results : L → Result) :
    Option (Network W L) := do
  let n' ← requeue w results (n.sets w).processedDispatchers
    (n.update w fun s => { s with processedDispatchers := [] })
  let (_, s) ← (n'.sets w).popAwoken count
  some (n'.update w fun _ => s)

/-- `Close`. The awakables of the wait set are cancelled under its `awakable_lock_`. -/
def close (n : Network W L) (w : W) : Option (Network W L) :=
  if (n.sets w).isClosed then some n
  else do
    let n' ← (n.awakables (.inl w)).foldlM
      (fun n a => wakeDispatcher (Fintype.card W + 1) [w] a.1 .cancelled (.inl w) n)
      ((n.update w fun s => { s with isClosed := true }).setAwakables (.inl w) [])
    some { n'.update w (·.clearWaiting.clearQueued) with
      awakables := fun d =>
        if (n'.sets w).Waiting d then (n'.awakables d).filter (·.1 ≠ w) else n'.awakables d }

/-- A dispatcher that is not a wait set awakes a wait set. -/
def awake (n : Network W L) (l : L) (w : W) (result : Result) : Option (Network W L) :=
  if w ∈ (n.awakables (.inr l)).map (·.1) then
    (n.setAwakables (.inr l) ((n.awakables (.inr l)).eraseP (·.1 = w))).wake w result (.inr l)
  else some n

/-- The operations. -/
inductive Input (W L : Type)
  | add (w : W) (d : W ⊕ L) (state : WaitState) (result : Result)
  | remove (w : W) (d : W ⊕ L)
  | getReady (w : W) (count : ℕ) (results : L → Result)
  | close (w : W)
  | awake (l : L) (w : W) (result : Result)

def run (n : Network W L) : Input W L → Option (Network W L)
  | .add w d state result => n.addWaitingDispatcher w d state result
  | .remove w d => n.removeWaitingDispatcher w d
  | .getReady w count results => n.getReadyDispatchers w count results
  | .close w => n.close w
  | .awake l w result => n.awake l w result

/-- An operation that has no result is stuck, and nothing happens after it. -/
def step (n : Network W L) (i : Input W L) : Option (Network W L) :=
  if n.stuck then none else some ((n.run i).getD { n with stuck := true })

def machine (W L : Type) [DecidableEq W] [DecidableEq L] [Fintype W] :
    Machine (Network W L) (Input W L) where
  init := {}
  step := step

end Operations

/-! ## Places and links -/

/-- How often a dispatcher is registered for a wait set, or in its queues. -/
def places (n : Network W L) (w : W) (d : W ⊕ L) : ℕ :=
  ((n.awakables d).map (·.1)).count w + (n.sets w).queued d

/-- A wait set waits for another one. -/
def WaitsOn (n : Network W L) (w x : W) : Prop := (n.sets w).Waiting (.inl x)

instance : DecidableRel n.WaitsOn := fun w x =>
  inferInstanceAs (Decidable ((n.sets w).Waiting (.inl x)))

/-- No wait set waits for itself, along any chain, and whoever is awoken by a wait set
    waits for it. -/
structure Linked (n : Network W L) : Prop where
  acyclic : Acyclic n.WaitsOn
  waits : ∀ x y, y ∈ (n.awakables (.inl x)).map (·.1) → n.WaitsOn y x

/-- A network in which there are more dispatchers in some places. -/
structure Placed (n n' : Network W L) (f : W → W ⊕ L → ℕ) : Prop where
  places : ∀ w d, n'.places w d = n.places w d + f w d
  waiting : ∀ w, (n'.sets w).waitingDispatchers = (n.sets w).waitingDispatchers
  stuck : n'.stuck = n.stuck

/-- Wait sets were woken: no awakable was added to the list of a wait set. -/
structure Woken (n n' : Network W L) (f : W → W ⊕ L → ℕ) : Prop extends Placed n n' f where
  awakables : ∀ x y, y ∈ (n'.awakables (.inl x)).map (·.1) → y ∈ (n.awakables (.inl x)).map (·.1)

/-- The place of a dispatcher for a wait set. -/
def single (w : W) (d : W ⊕ L) (w' : W) (d' : W ⊕ L) : ℕ := if w' = w ∧ d' = d then 1 else 0

theorem Placed.waitsOn {f : W → W ⊕ L → ℕ} (h : Placed n n' f) : n'.WaitsOn = n.WaitsOn := by
  funext w x
  rw [WaitsOn, WaitsOn, WaitSetDispatcher.Waiting, h.waiting]
  rfl

theorem Woken.refl (n : Network W L) : Woken n n fun _ _ => 0 where
  places _ _ := rfl
  waiting _ := rfl
  stuck := rfl
  awakables _ _ h := h

theorem Woken.trans {n'' : Network W L} {f g : W → W ⊕ L → ℕ} (h : Woken n n' f)
    (h' : Woken n' n'' g) : Woken n n'' fun w d => f w d + g w d where
  places w d := by rw [h'.places, h.places, Nat.add_assoc]
  waiting w := (h'.waiting w).trans (h.waiting w)
  stuck := h'.stuck.trans h.stuck
  awakables x y hy := h.awakables x y (h'.awakables x y hy)

theorem Woken.linked {f : W → W ⊕ L → ℕ} (h : Woken n n' f) (hn : n.Linked) : n'.Linked where
  acyclic := by
    rw [h.waitsOn]
    exact hn.acyclic
  waits x y hy := by
    rw [h.waitsOn]
    exact hn.waits x y (h.awakables x y hy)

/-- Awakables of a wait set are awoken one after the other. -/
theorem foldlM_woken {x : W} {g : Network W L → W × Signals → Option (Network W L)}
    (l : List (W × Signals)) (hn : n.Linked)
    (hg : ∀ a ∈ l, ∀ n₁, n₁.Linked → n₁.WaitsOn = n.WaitsOn →
      ∃ n₂, g n₁ a = some n₂ ∧ Woken n₁ n₂ (single a.1 (.inl x))) :
    ∃ n', l.foldlM g n = some n' ∧
      Woken n n' fun w d => if d = .inl x then (l.map (·.1)).count w else 0 := by
  induction l generalizing n with
  | nil => exact ⟨n, rfl, by simpa using Woken.refl n⟩
  | cons a l ih =>
    obtain ⟨n₁, hn₁, hwoken⟩ := hg a List.mem_cons_self n hn rfl
    obtain ⟨n', hn', hwoken'⟩ := ih (hwoken.linked hn) fun b hb n₂ hn₂ heq =>
      hg b (List.mem_cons_of_mem a hb) n₂ hn₂ (heq.trans hwoken.waitsOn)
    refine ⟨n', ?_, ?_⟩
    · rw [List.foldlM_cons, hn₁]
      exact hn'
    · -- The places of the entries add up.
      convert hwoken.trans hwoken' using 3 with w d
      rw [List.map_cons, List.count_cons, single]
      by_cases hd : d = .inl x
      · simp only [hd, if_true, and_true, beq_iff_eq]
        rw [Nat.add_comm]
        simp only [eq_comm]
      · simp [hd]

omit [DecidableEq L] in
theorem sets_update (n : Network W L) (w w' : W)
    (f : WaitSetDispatcher (W ⊕ L) → WaitSetDispatcher (W ⊕ L)) :
    (n.update w f).sets w' = if w' = w then f (n.sets w) else n.sets w' :=
  Function.update_apply ..

theorem awakables_setAwakables (n : Network W L) (d d' : W ⊕ L) (l : List (W × Signals)) :
    (n.setAwakables d l).awakables d' = if d' = d then l else n.awakables d' :=
  Function.update_apply ..

theorem places_update (n : Network W L) (w w' : W) (d' : W ⊕ L)
    (f : WaitSetDispatcher (W ⊕ L) → WaitSetDispatcher (W ⊕ L)) :
    (n.update w f).places w' d' = ((n.awakables d').map (·.1)).count w' +
      if w' = w then (f (n.sets w)).queued d' else (n.sets w').queued d' := by
  rw [places, sets_update]
  split_ifs <;> rfl

theorem places_update_of_queued (n : Network W L)
    {f : WaitSetDispatcher (W ⊕ L) → WaitSetDispatcher (W ⊕ L)}
    (hf : ∀ d', (f (n.sets w)).queued d' = (n.sets w).queued d') (w' : W) (d' : W ⊕ L) :
    (n.update w f).places w' d' = n.places w' d' := by
  rw [places_update, places, hf]
  split_ifs with hw
  · rw [hw]
  · rfl

theorem places_setAwakables (n : Network W L) (d d' : W ⊕ L) (l : List (W × Signals)) (w' : W) :
    (n.setAwakables d l).places w' d' =
      (if d' = d then (l.map (·.1)).count w' else ((n.awakables d').map (·.1)).count w') +
        (n.sets w').queued d' := by
  rw [places, awakables_setAwakables]
  split_ifs <;> rfl

omit [DecidableEq L] in
/-- All awakables of one wait set are removed from a list. -/
theorem count_filter_ne (l : List (W × Signals)) (w w' : W) :
    ((l.filter (·.1 ≠ w)).map (·.1)).count w' = if w' = w then 0 else (l.map (·.1)).count w' := by
  have hmap : (l.filter (·.1 ≠ w)).map (·.1) = (l.map (·.1)).filter (· ≠ w) := by
    rw [List.filter_map]
    rfl
  rw [hmap]
  split_ifs with hw
  · rw [List.count_eq_zero]
    simp [hw]
  · exact List.count_filter (by simpa using hw)

/-- An id is put in the queue of a wait set. -/
theorem woken_push (n : Network W L) (w : W) (result : Result) (d : W ⊕ L) :
    Woken n (n.update w (·.wakeDispatcher result d)) (single w d) where
  places w' d' := by
    rw [places_update, places, single, WaitSetDispatcher.queued_wakeDispatcher]
    by_cases hw : w' = w
    · subst hw
      simp only [if_true, true_and, eq_comm]
      omega
    · simp [hw]
  waiting w' := by
    rw [sets_update]
    split_ifs with hw
    · rw [hw]
      rfl
    · rfl
  stuck := rfl
  awakables _ _ h := h

/-- Some awakables of a wait set are taken from its list, and are awoken one after the
    other. -/
theorem detach_woken {x : W} {g : Network W L → W × Signals → Option (Network W L)}
    {taken rest : List (W × Signals)} (hn : n.Linked)
    (hsplit : ∀ y, (taken.map (·.1)).count y + (rest.map (·.1)).count y =
      ((n.awakables (.inl x)).map (·.1)).count y)
    (hg : ∀ a ∈ taken, ∀ n₁, n₁.Linked → n₁.WaitsOn = n.WaitsOn →
      ∃ n₂, g n₁ a = some n₂ ∧ Woken n₁ n₂ (single a.1 (.inl x))) :
    ∃ n', taken.foldlM g (n.setAwakables (.inl x) rest) = some n' ∧ Woken n n' fun _ _ => 0 := by
  -- What is taken from the list is awoken, and what is left was there before.
  have hsub (y z : W) (hz : z ∈ ((n.setAwakables (.inl x) rest).awakables (.inl y)).map (·.1)) :
      z ∈ (n.awakables (.inl y)).map (·.1) := by
    rw [awakables_setAwakables] at hz
    split_ifs at hz with hy
    · obtain rfl := Sum.inl.inj hy
      rw [← List.count_pos_iff, ← hsplit]
      exact Nat.add_pos_right _ (List.count_pos_iff.2 hz)
    · exact hz
  have hlinked : (n.setAwakables (.inl x) rest).Linked :=
    ⟨hn.acyclic, fun y z hz => hn.waits y z (hsub y z hz)⟩
  obtain ⟨n', hn', hwoken⟩ := foldlM_woken taken hlinked hg
  refine ⟨n', hn', ⟨⟨fun w d => ?_, hwoken.waiting, hwoken.stuck⟩,
    fun y z hz => hsub y z (hwoken.awakables y z hz)⟩⟩
  -- An entry that leaves the list gets into the queue of its wait set.
  rw [hwoken.places, places_setAwakables, places]
  by_cases hd : d = .inl x
  · rw [if_pos hd, if_pos hd, hd, ← hsplit]
    omega
  · rw [if_neg hd, if_neg hd]

section Wake

variable [Fintype W]

/-- In a linked network, a wait set that is woken wakes others along a chain that does not
    come back to it, and everything that is awoken has moved to a queue. -/
theorem wakeDispatcher_spec {fuel : ℕ} {held : List W} (hn : n.Linked)
    (hheld : ∀ x ∈ held, TransGen (Function.swap n.WaitsOn) x w) (hnodup : held.Nodup)
    (hfuel : Fintype.card W < fuel + held.length) (result : Result) :
    ∃ n', wakeDispatcher fuel held w result d n = some n' ∧ Woken n n' (single w d) := by
  induction fuel generalizing held w result d n with
  | zero => exact absurd hfuel (by have := hnodup.length_le_card; omega)
  | succ fuel ih =>
    have hw : w ∉ held := fun hmem => hn.acyclic w (transGen_swap.1 (hheld w hmem))
    have hpush := woken_push n w result d
    have hsplit (y : W) :
        (((n.awakables (.inl w)).filter fun a => Readable a.2).map (·.1)).count y +
          (((n.awakables (.inl w)).filter fun a => ¬Readable a.2).map (·.1)).count y =
        ((n.awakables (.inl w)).map (·.1)).count y := by
      rw [← List.count_append, ← List.map_append]
      simp only [decide_not]
      exact ((List.filter_append_perm _ _).map _).count_eq y
    obtain ⟨n', hn', hwoken⟩ := detach_woken
      (g := fun n a => wakeDispatcher fuel (w :: held) a.1 .ok (.inl w) n) (hpush.linked hn) hsplit
      fun a ha n₁ hn₁ heq => by
        -- What waits for the wait set is at the end of a longer chain.
        have hwaits : Function.swap n₁.WaitsOn w a.1 := by
          rw [heq, hpush.waitsOn]
          exact hn.waits w a.1 (List.mem_map_of_mem (List.mem_of_mem_filter ha))
        refine ih hn₁ (fun x hx => ?_) (List.nodup_cons.2 ⟨hw, hnodup⟩) ?_ .ok
        · rcases List.mem_cons.1 hx with rfl | hx
          · exact .single hwaits
          · have hchain := hheld x hx
            rw [← hpush.waitsOn, ← heq] at hchain
            exact hchain.tail hwaits
        · rw [List.length_cons]
          omega
    refine ⟨n', ?_, by simpa using hpush.trans hwoken⟩
    rw [wakeDispatcher, if_neg hw]
    exact hn'

/-- A wait set is woken, and everything comes to its end. -/
theorem wake_spec (hn : n.Linked) (w : W) (result : Result) (d : W ⊕ L) :
    ∃ n', n.wake w result d = some n' ∧ Woken n n' (single w d) :=
  wakeDispatcher_spec hn (fun _ hx => by cases hx) List.nodup_nil (Nat.lt_succ_self _) result

end Wake

/-! ## Invariant -/

/-- Each dispatcher has at most one place for a wait set, and only if the wait set waits
    for it. Dispatchers that were taken from the queues, and are not registered again
    yet, are counted. -/
structure Inv (n : Network W L) (pending : W → W ⊕ L → ℕ) : Prop where
  one : ∀ w d, n.places w d + pending w d ≤ 1
  known : ∀ w d, 0 < n.places w d + pending w d → (n.sets w).Waiting d
  acyclic : Acyclic n.WaitsOn
  stuck : n.stuck = false

section Taken

variable {D : Type} [DecidableEq D]

/-- The dispatchers that were taken from the queues of a wait set. -/
def taken (w : W) (l : List D) (w' : W) (d : D) : ℕ := if w' = w then l.count d else 0

theorem taken_cons (w : W) (d : D) (l : List D) (w' : W) (d' : D) :
    taken w (d :: l) w' d' = taken w l w' d' + if w' = w ∧ d' = d then 1 else 0 := by
  rw [taken, taken, List.count_cons]
  by_cases hw : w' = w
  · simp only [hw, if_true, true_and, beq_iff_eq]
    simp only [eq_comm]
  · simp [hw]

end Taken

variable {pending f : W → W ⊕ L → ℕ}

theorem Inv.init : Inv ({} : Network W L) fun _ _ => 0 where
  one _ _ := Nat.zero_le _
  known _ _ h := absurd h (Nat.lt_irrefl 0)
  acyclic w hw := by
    obtain ⟨x, hx, -⟩ := TransGen.head'_iff.1 hw
    exact absurd hx (AList.notMem_empty _)
  stuck := rfl

theorem Inv.linked (h : Inv n pending) : n.Linked where
  acyclic := h.acyclic
  waits x y hy := by
    have hpos : 0 < ((n.awakables (.inl x)).map (·.1)).count y := List.count_pos_iff.2 hy
    refine h.known y (.inl x) ?_
    rw [places]
    omega

/-- Dispatchers that were pending have a place again. -/
theorem Inv.placed (h : Inv n fun w d => pending w d + f w d) (hf : Placed n n' f) :
    Inv n' pending where
  one w d := by
    have := h.one w d
    rw [hf.places]
    omega
  known w d hpos := by
    rw [hf.places] at hpos
    rw [WaitSetDispatcher.Waiting, hf.waiting]
    exact h.known w d (by omega)
  acyclic := by
    rw [hf.waitsOn]
    exact h.acyclic
  stuck := hf.stuck.trans h.stuck

/-- Dispatchers lose their places, and are waited for no more then. -/
theorem Inv.mono {pending' : W → W ⊕ L → ℕ} (h : Inv n pending)
    (hle : ∀ w d, n'.places w d + pending' w d ≤ n.places w d + pending w d)
    (hwaiting : ∀ w d, (n'.sets w).Waiting d → (n.sets w).Waiting d)
    (hknown : ∀ w d, (n.sets w).Waiting d → 0 < n'.places w d + pending' w d →
      (n'.sets w).Waiting d) (hstuck : n'.stuck = n.stuck) : Inv n' pending' where
  one w d := (hle w d).trans (h.one w d)
  known w d hpos := hknown w d (h.known w d (hpos.trans_le (hle w d))) hpos
  acyclic := h.acyclic.mono fun w x hx => hwaiting w (.inl x) hx
  stuck := hstuck.trans h.stuck

/-- No wait set is added that waits, directly or through others, for the wait set that it
    is added to. Calls that are refused do not count. -/
def NoCycle (n : Network W L) : Input W L → Prop
  | .add w (.inl x) _ _ => x = w ∨ (n.sets w).isClosed ∨ ¬TransGen n.WaitsOn x w
  | _ => True

variable [Fintype W]

/-- A dispatcher that is not closed has one more place. -/
theorem register_spec (hn : n.Linked) {signals : Signals} {result : Result}
    (h : n.addAwakable signals result d ≠ .invalidArgument) :
    ∃ n', n.register w d signals result = some n' ∧ Placed n n' (single w d) := by
  rw [register]
  split
  next =>
    refine ⟨_, rfl, fun w' d' => ?_, fun _ => rfl, rfl⟩
    rw [places_setAwakables, places, single]
    by_cases hd : d' = d
    · simp only [hd, if_true, and_true, List.map_cons, List.count_cons, beq_iff_eq]
      simp only [eq_comm]
      omega
    · simp [hd]
  next heq => exact absurd heq h
  next =>
    obtain ⟨n', hn', hwoken⟩ := wake_spec hn w (n.addAwakable signals result d) d
    exact ⟨n', hn', hwoken.toPlaced⟩

theorem Inv.addWaitingDispatcher (h : Inv n fun _ _ => 0) (state : WaitState) (result : Result)
    (hcycle : n.NoCycle (.add w d state result)) :
    ∃ n', n.addWaitingDispatcher w d state result = some n' ∧ Inv n' fun _ _ => 0 := by
  rw [Network.addWaitingDispatcher]
  split_ifs with hskip hinvalid
  · exact ⟨n, rfl, h⟩
  · exact ⟨n, rfl, h⟩
  obtain ⟨n₁, hn₁, hplaced⟩ := register_spec (w := w) h.linked hinvalid
  obtain ⟨hself, hopen, hnew⟩ : d ≠ .inl w ∧ ¬(n.sets w).isClosed = true ∧ ¬(n.sets w).Waiting d := by
    simpa only [not_or] using hskip
  refine ⟨n₁.update w (·.insertWaiting d state), by rw [hn₁]; rfl, ?_⟩
  have hplaces (w' : W) (d' : W ⊕ L) : (n₁.update w (·.insertWaiting d state)).places w' d' =
      n.places w' d' + single w d w' d' := by
    rw [← hplaced.places]
    exact places_update_of_queued n₁ (fun _ => rfl) w' d'
  have hwaiting (w' : W) (d' : W ⊕ L) :
      ((n₁.update w (·.insertWaiting d state)).sets w').Waiting d' ↔
        (n.sets w').Waiting d' ∨ w' = w ∧ d' = d := by
    rw [sets_update]
    split_ifs with hw
    · rw [hw, WaitSetDispatcher.waiting_insertWaiting, WaitSetDispatcher.Waiting, hplaced.waiting]
      exact or_comm.trans (or_congr_right (by simp))
    · rw [WaitSetDispatcher.Waiting, hplaced.waiting]
      exact (or_iff_left fun hd => hw hd.1).symm
  refine ⟨fun w' d' => ?_, fun w' d' hpos => ?_, ?_, hplaced.stuck.trans h.stuck⟩
  · rw [hplaces, single]
    have hone := h.one w' d'
    split_ifs with heq
    · have hfree : ¬0 < n.places w' d' + 0 := fun hpos => hnew (heq.1 ▸ heq.2 ▸ h.known w' d' hpos)
      omega
    · omega
  · rw [hwaiting]
    rw [hplaces, single] at hpos
    split_ifs at hpos with heq
    · exact .inr heq
    · exact .inl (h.known w' d' hpos)
  · -- Only a wait set that is added is a new pair of the relation.
    cases d with
    | inr l =>
      refine h.acyclic.mono fun y z hyz => ?_
      exact ((hwaiting y (.inl z)).1 hyz).resolve_right fun heq => by cases heq.2
    | inl x =>
      refine h.acyclic.add (a := w) (b := x) (fun y z hyz => ?_) fun hpath => ?_
      · exact ((hwaiting y (.inl z)).1 hyz).imp_right fun heq => ⟨heq.1, Sum.inl.inj heq.2⟩
      · have hne : x ≠ w := fun heq => hself (congrArg _ heq)
        rcases hcycle with heq | hclosed | hcycle
        · exact hne heq
        · exact hopen hclosed
        · exact hcycle ((reflTransGen_iff_eq_or_transGen.1 hpath).resolve_left hne.symm)

omit [Fintype W] in
theorem Inv.removeWaitingDispatcher (h : Inv n fun _ _ => 0) (w : W) (d : W ⊕ L) :
    ∃ n', n.removeWaitingDispatcher w d = some n' ∧ Inv n' fun _ _ => 0 := by
  rw [Network.removeWaitingDispatcher]
  split_ifs with hd
  swap
  · exact ⟨n, rfl, h⟩
  refine ⟨_, rfl, ?_⟩
  -- The dispatcher leaves the list that it is in, and the queues of the wait set.
  have hplaces (w' : W) (d' : W ⊕ L) :
      ((n.removeAwakable w d).update w fun s => (s.eraseWaiting d).eraseQueued d).places w' d' =
        if w' = w ∧ d' = d then 0 else n.places w' d' := by
    have hcount : ((((n.removeAwakable w d).awakables d').map (·.1)).count w') =
        if w' = w ∧ d' = d then 0 else ((n.awakables d').map (·.1)).count w' := by
      rw [removeAwakable, awakables_setAwakables]
      by_cases hd' : d' = d
      · rw [if_pos hd', count_filter_ne]
        simp only [hd', and_true]
      · simp [hd']
    rw [places_update, hcount, places]
    by_cases hw : w' = w
    · rw [if_pos hw]
      by_cases hd' : d' = d
      · rw [if_pos ⟨hw, hd'⟩, if_pos ⟨hw, hd'⟩, hd', WaitSetDispatcher.queued_eraseQueued_self]
      · rw [if_neg fun heq => hd' heq.2, if_neg fun heq => hd' heq.2, hw,
          WaitSetDispatcher.queued_eraseQueued_of_ne _ hd']
        rfl
    · rw [if_neg hw, if_neg fun heq => hw heq.1, if_neg fun heq => hw heq.1]
      rfl
  have hwaiting (w' : W) (d' : W ⊕ L) :
      (((n.removeAwakable w d).update w fun s => (s.eraseWaiting d).eraseQueued d).sets w').Waiting
        d' ↔ ¬(w' = w ∧ d' = d) ∧ (n.sets w').Waiting d' := by
    rw [sets_update]
    split_ifs with hw
    · rw [hw]
      simp only [true_and]
      exact WaitSetDispatcher.waiting_eraseWaiting _ _ _
    · simp [hw, removeAwakable, setAwakables]
  refine h.mono (fun w' d' => ?_) (fun w' d' hd' => ((hwaiting w' d').1 hd').2)
    (fun w' d' hd' hpos => ?_) rfl
  · rw [hplaces]
    split_ifs <;> omega
  · rw [hplaces] at hpos
    refine (hwaiting w' d').2 ⟨fun heq => ?_, hd'⟩
    rw [if_pos heq] at hpos
    exact absurd hpos (Nat.lt_irrefl 0)

/-- The dispatchers that were taken from the queues have places again, or are waited for
    no more. -/
theorem requeue_spec (w : W) (results : L → Result) (l : List (W ⊕ L))
    (h : Inv n (taken w l)) :
    ∃ n', requeue w results l n = some n' ∧ Inv n' fun _ _ => 0 := by
  induction l generalizing n with
  | nil =>
    have hnone : taken (D := W ⊕ L) w [] = fun _ _ => 0 := by
      funext w' d'
      exact ite_self 0
    exact ⟨n, rfl, hnone ▸ h⟩
  | cons d l ih =>
    replace h : Inv n fun w' d' => taken w l w' d' + single w d w' d' := by
      convert h using 3 with w' d'
      exact (taken_cons w d l w' d').symm
    have hsingle : single w d w d = 1 := if_pos ⟨rfl, rfl⟩
    have hone := h.one w d
    obtain ⟨state, hstate⟩ := WaitSetDispatcher.waiting_iff.1 (h.known w d (by omega))
    simp only [requeue, hstate]
    split_ifs with hinvalid
    · -- The dispatcher is closed: it has no place any more.
      have hplaces := n.places_update_of_queued (w := w) (f := (·.eraseWaiting d)) fun _ => rfl
      have hwaiting (w' : W) (d' : W ⊕ L) :
          ((n.update w (·.eraseWaiting d)).sets w').Waiting d' ↔
            ¬(w' = w ∧ d' = d) ∧ (n.sets w').Waiting d' := by
        rw [sets_update]
        split_ifs with hw
        · rw [hw, WaitSetDispatcher.waiting_eraseWaiting]
          simp only [true_and]
        · simp [hw]
      refine ih (h.mono (fun w' d' => ?_) (fun w' d' hd' => ((hwaiting w' d').1 hd').2)
        (fun w' d' hd' hpos => (hwaiting w' d').2 ⟨?_, hd'⟩) rfl)
      · rw [hplaces]
        omega
      · rintro ⟨rfl, rfl⟩
        rw [hplaces] at hpos
        omega
    · obtain ⟨n₁, hn₁, hplaced⟩ := register_spec (w := w) h.linked hinvalid
      rw [hn₁]
      exact ih (h.placed hplaced)

theorem Inv.getReadyDispatchers (h : Inv n fun _ _ => 0) (w : W) (count : ℕ)
    (results : L → Result) :
    ∃ n', n.getReadyDispatchers w count results = some n' ∧ Inv n' fun _ _ => 0 := by
  have hinit : Inv (n.update w fun s => { s with processedDispatchers := [] })
      (taken w (n.sets w).processedDispatchers) := by
    have hwaiting (w' : W) (d' : W ⊕ L) : ((n.update w fun s =>
        { s with processedDispatchers := [] }).sets w').Waiting d' ↔ (n.sets w').Waiting d' := by
      rw [sets_update]
      split_ifs with hw
      · rw [hw]
        rfl
      · rfl
    refine h.mono (fun w' d' => ?_) (fun w' d' => (hwaiting w' d').1)
      (fun w' d' hd' _ => (hwaiting w' d').2 hd') rfl
    rw [places_update, places, taken]
    split_ifs with hw
    · simp only [hw, WaitSetDispatcher.queued, List.count_nil]
      omega
    · omega
  obtain ⟨n₁, hn₁, hinv⟩ := requeue_spec w results (n.sets w).processedDispatchers hinit
  obtain ⟨ready, s, hpop, -, hpopped⟩ :=
    WaitSetDispatcher.popAwoken_spec count (n₁.sets w)
      (fun d _ => (Nat.le_add_left _ _).trans (hinv.one w d))
      (fun d hd => hinv.known w d
        (Nat.add_pos_left (Nat.add_pos_right _ (WaitSetDispatcher.queued_pos_of_mem_take hd)) _))
  refine ⟨n₁.update w fun _ => s, ?_, ?_⟩
  · rw [Network.getReadyDispatchers, hn₁]
    simp [hpop]
  refine hinv.mono (fun w' d => ?_) (fun w' d hd => ?_) (fun w' d hd hpos => ?_) rfl
  · rw [places_update, places]
    split_ifs with hw
    · rw [hw]
      have := hpopped.queued_le d
      omega
    · exact le_rfl
  · rw [sets_update] at hd
    split_ifs at hd with hw
    · rw [hw]
      exact hpopped.waiting hd
    · exact hd
  · rw [sets_update]
    rw [places_update] at hpos
    split_ifs with hw
    · -- What is not waited for any more was taken, and has no other place.
      subst hw
      refine not_not.1 fun hnot => ?_
      obtain ⟨-, hzero, hcount⟩ := hpopped.erased d hd hnot
      have hone := hinv.one w' d
      rw [places] at hone
      rw [if_pos rfl] at hpos
      omega
    · exact hd

omit [Fintype W] in
/-- The last sections of `Close`: nothing has a place for the wait set any more. -/
theorem Inv.clear (h : Inv n fun _ _ => 0) (w : W) :
    Inv { n.update w (·.clearWaiting.clearQueued) with
      awakables := fun d =>
        if (n.sets w).Waiting d then (n.awakables d).filter (·.1 ≠ w) else n.awakables d }
      fun _ _ => 0 := by
  have hcount (w' : W) (d : W ⊕ L) :
      ((if (n.sets w).Waiting d then (n.awakables d).filter (·.1 ≠ w) else n.awakables d).map
        (·.1)).count w' = if w' = w then 0 else ((n.awakables d).map (·.1)).count w' := by
    split_ifs with hd hw hw
    · rw [count_filter_ne, if_pos hw]
    · rw [count_filter_ne, if_neg hw]
    · -- What is not waited for was not registered.
      have hfree := mt (h.known w d) hd
      rw [places] at hfree
      rw [hw]
      omega
    · rfl
  have hplaces (w' : W) (d : W ⊕ L) : places { n.update w (·.clearWaiting.clearQueued) with
      awakables := fun d =>
        if (n.sets w).Waiting d then (n.awakables d).filter (·.1 ≠ w) else n.awakables d } w' d =
      if w' = w then 0 else n.places w' d := by
    rw [places, hcount, places]
    change _ + ((n.update w (·.clearWaiting.clearQueued)).sets w').queued d = _
    rw [sets_update]
    split_ifs <;> rfl
  refine h.mono (fun w' d => ?_) (fun w' d hd => ?_) (fun w' d hd hpos => ?_) rfl
  · rw [hplaces]
    split_ifs
    · exact Nat.zero_le _
    · exact le_rfl
  · change ((n.update w (·.clearWaiting.clearQueued)).sets w').Waiting d at hd
    rw [sets_update] at hd
    split_ifs at hd
    · exact absurd hd (WaitSetDispatcher.not_waiting_clearWaiting (n.sets w) d)
    · exact hd
  · rw [hplaces] at hpos
    change ((n.update w (·.clearWaiting.clearQueued)).sets w').Waiting d
    rw [sets_update]
    split_ifs at hpos ⊢
    · exact absurd hpos (Nat.lt_irrefl 0)
    · exact hd

theorem Inv.close (h : Inv n fun _ _ => 0) (w : W) :
    ∃ n', n.close w = some n' ∧ Inv n' fun _ _ => 0 := by
  rw [Network.close]
  split_ifs with hclosed
  · exact ⟨n, rfl, h⟩
  have hbegun : Woken n (n.update w fun s => { s with isClosed := true }) fun _ _ => 0 := by
    refine ⟨⟨n.places_update_of_queued fun _ => rfl, fun w' => ?_, rfl⟩, fun _ _ hy => hy⟩
    rw [sets_update]
    split_ifs with hw
    · rw [hw]
    · rfl
  -- All entries of the list are awoken.
  have hsplit (y : W) : ((n.awakables (.inl w)).map (·.1)).count y +
      (([] : List (W × Signals)).map (·.1)).count y =
        ((n.awakables (.inl w)).map (·.1)).count y := rfl
  obtain ⟨n₁, hn₁, hwoken⟩ := detach_woken (hbegun.linked h.linked)
    (g := fun n a => wakeDispatcher (Fintype.card W + 1) [w] a.1 .cancelled (.inl w) n)
    hsplit fun a ha n₂ hn₂ heq => by
      refine wakeDispatcher_spec hn₂ (fun x hx => ?_) (List.nodup_singleton w)
        (Nat.lt_succ_of_lt (Nat.lt_succ_self _)) .cancelled
      -- The only lock held is the one of the wait set that is closed, on which the others wait.
      obtain rfl := List.mem_singleton.1 hx
      refine .single ?_
      change n₂.WaitsOn a.1 x
      rw [heq, hbegun.waitsOn]
      exact h.linked.waits x a.1 (List.mem_map_of_mem ha)
  have hinv : Inv n₁ fun _ _ => 0 := h.placed (hbegun.trans hwoken).toPlaced
  exact ⟨_, by rw [hn₁]; rfl, hinv.clear w⟩

theorem Inv.awake (h : Inv n fun _ _ => 0) (l : L) (w : W) (result : Result) :
    ∃ n', n.awake l w result = some n' ∧ Inv n' fun _ _ => 0 := by
  rw [Network.awake]
  split_ifs with hw
  swap
  · exact ⟨n, rfl, h⟩
  have herase : ((n.awakables (.inr l)).eraseP (·.1 = w)).map (·.1) =
      ((n.awakables (.inr l)).map (·.1)).erase w := by
    rw [List.erase_eq_eraseP', List.eraseP_map]
    rfl
  -- Between the list and the queue, the entry is in no place.
  have hinv : Inv (n.setAwakables (.inr l) ((n.awakables (.inr l)).eraseP (·.1 = w)))
      fun w' d' => 0 + single w (.inr l) w' d' := by
    refine h.mono (fun w' d' => ?_) (fun _ _ hd' => hd') (fun _ _ hd' _ => hd') rfl
    rw [places_setAwakables, places, single]
    by_cases hd' : d' = .inr l
    · rw [if_pos hd', herase, List.count_erase, hd']
      have hpos := List.count_pos_iff.2 hw
      by_cases hw' : w' = w
      · simp only [hw', BEq.rfl, if_true, true_and]
        omega
      · simp [hw', eq_comm (a := w)]
    · simp [hd']
  obtain ⟨n', hn', hwoken⟩ := wake_spec hinv.linked w result (.inr l)
  exact ⟨n', hn', hinv.placed hwoken.toPlaced⟩

theorem Inv.run (h : Inv n fun _ _ => 0) {i : Input W L} (hcycle : n.NoCycle i) :
    ∃ n', n.run i = some n' ∧ Inv n' fun _ _ => 0 := by
  cases i with
  | add w d state result => exact h.addWaitingDispatcher state result hcycle
  | remove w d => exact h.removeWaitingDispatcher w d
  | getReady w count results => exact h.getReadyDispatchers w count results
  | close w => exact h.close w
  | awake l w result => exact h.awake l w result

/-- After any operations none of which closes a cycle, every wait set that was woken has
    woken those that wait for it, and no wait set was woken while it was being woken. -/
theorem not_stuck (hn : (machine W L).Reachable NoCycle n) : n.stuck = false := by
  refine (hn.invariant (P := fun n => Inv n fun _ _ => 0) Inv.init fun h hcycle hstep => ?_).stuck
  obtain ⟨n', hn', hinv⟩ := h.run hcycle
  change (if _ then none else _) = _ at hstep
  rw [h.stuck, if_neg Bool.false_ne_true, hn'] at hstep
  cases hstep
  exact hinv

/-- One wait set waits for another one, which a message pipe awakes. -/
theorem not_stuck_nested : ∃ n : Network Bool Unit, (machine Bool Unit).Reachable NoCycle n ∧
    n.isReady false = true ∧ n.stuck = false := by
  have hpipe : (machine Bool Unit).Reachable NoCycle _ :=
    .step .init (i := .add true (.inr ()) ⟨1, 0⟩ .ok) trivial rfl
  have hnested : (machine Bool Unit).Reachable NoCycle _ :=
    .step hpipe (i := .add false (.inl true) ⟨1, 0⟩ .ok) (.inr (.inr fun hpath => by
      obtain ⟨x, hx, -⟩ := TransGen.head'_iff.1 hpath
      revert x
      decide)) rfl
  have hawoken : (machine Bool Unit).Reachable NoCycle _ :=
    .step hnested (i := .awake () true .ok) trivial rfl
  exact ⟨_, hawoken, by decide, not_stuck hawoken⟩

/-- Two wait sets wait for each other. When one of them is woken, it wakes the other one,
    which wakes the first one again. -/
theorem stuck_cycle : ∃ n : Network Bool Unit,
    (machine Bool Unit).Reachable Machine.Any n ∧ n.stuck = true :=
  Machine.exists_reachable (M := machine Bool Unit) (G := Machine.Any) (P := fun n => n.stuck = true)
    [.add false (.inl true) ⟨1, 0⟩ .ok, .add true (.inl false) ⟨1, 0⟩ .ok,
      .add true (.inr ()) ⟨1, 0⟩ .ok, .awake () true .ok] (by decide)

end Network

end MojoEdk.WaitSet
