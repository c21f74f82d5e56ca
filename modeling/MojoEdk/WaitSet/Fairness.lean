import MojoEdk.WaitSet.Partition
import Mathlib.Algebra.Order.Floor.Div

/-!
# Turns

Dispatchers that stay ready take turns. They are in the two queues, in an order
(`Waits.order`) that only `GetReadyDispatchers` changes: the dispatchers that it returns go
to the back (`Ready.getReadyDispatchers`). Others that were woken before may be in the way
(`Waits.others`), even if they are not ready any more, but each of them only once. If no
others are woken meanwhile, all that stay ready are thus returned in as few calls as the count
allows for these and the others together (`Turns.mem_of_card_add_le`).
-/

namespace MojoEdk.WaitSet

variable {D : Type*} [DecidableEq D]

namespace Waits

variable {s s' s₁ : Waits D} {d : D} {R : Finset D} {map : AList fun _ : D => WaitState}
  {pending : List D}

/-! ## Ready dispatchers -/

/-- The wait set waits for some dispatchers, and their signals are satisfied. -/
def Ready (R : Finset D) (s : Waits D) : Prop :=
  ∀ d ∈ R, ∃ state, s.waitSet.waitingDispatchers.lookup d = some state ∧
    (s.pipes d).signalsState.Satisfies state.signals

instance : Decidable (Ready R s) :=
  decidable_of_iff (∀ d ∈ R, (s.waitSet.waitingDispatchers.lookup d).any fun state =>
    (s.pipes d).signalsState.Satisfies state.signals) (by simp [Ready, Option.any_eq_true])

/-- No update makes one of the dispatchers unready. -/
def KeepReady (R : Finset D) (s : Waits D) (updates : D → Option HandleSignalsState) : Prop :=
  ∀ d ∈ R, ∀ state ∈ updates d, ∀ w, s.waitSet.waitingDispatchers.lookup d = some w →
    state.Satisfies w.signals

/-- The order of some dispatchers in the queues. -/
def order (R : Finset D) (s : Waits D) : List D :=
  (s.waitSet.awokenQueue.map (·.1) ++ s.waitSet.processedDispatchers).filter (· ∈ R)

/-- The other dispatchers in the queue that `GetReadyDispatchers` takes dispatchers from. -/
def others (R : Finset D) (s : Waits D) : List D :=
  (s.waitSet.awokenQueue.map (·.1)).filter (· ∉ R)

/-- A call of `GetReadyDispatchers` wakes no others when it registers those again that it
    returned the last time. -/
def WakesNoOthers (R : Finset D) (s : Waits D) (updates : D → Option HandleSignalsState) : Prop :=
  ∀ s₁, requeue updates s.waitSet.processedDispatchers
    { s with waitSet := { s.waitSet with processedDispatchers := [] } } = some s₁ →
    (others R s₁).Sublist (others R s)

instance {updates : D → Option HandleSignalsState} : Decidable (WakesNoOthers R s updates) :=
  decidable_of_iff ((requeue updates s.waitSet.processedDispatchers
    { s with waitSet := { s.waitSet with processedDispatchers := [] } }).all fun s₁ =>
      (others R s₁).isSublist (others R s)) (by simp [WakesNoOthers, Option.all_eq_true])

/-- What `GetReadyDispatchers` returns in so many calls with the same count, while some
    dispatchers are ready all the time and no others are woken. Anything else may happen
    between two calls. -/
inductive Turns (R : Finset D) (count : ℕ) (s : Waits D) : ℕ → List D → Waits D → Prop
  | start : Ready R s → Turns R count s 0 [] s
  | getReady {n : ℕ} {served : List D} {s' s'' : Waits D}
      {updates : D → Option HandleSignalsState} {ready : List (D × Result × ℕ)} :
      Turns R count s n served s' → KeepReady R s' updates → WakesNoOthers R s' updates →
      s'.getReadyDispatchers count updates = some (ready, s'') → Ready R s'' →
      Turns R count s (n + 1) (served ++ ready.map (·.1)) s''
  | other {n : ℕ} {served : List D} {s' s'' : Waits D} {i : Input D} :
      Turns R count s n served s' → (∀ count updates, i ≠ .getReady count updates) →
      s'.step i = some s'' → (others R s'').Sublist (others R s') → Ready R s'' →
      Turns R count s n served s''

theorem Ready.available (h : Ready R s) (hd : d ∈ R) :
    (s.pipes d).isClosed = false ∧ (s.pipes d).inTransit = false := by
  obtain ⟨state, -, hstate⟩ := h d hd
  rw [PipeEnd.signalsState] at hstate
  split_ifs at hstate with hclosed
  · exact absurd hstate (HandleSignalsState.not_satisfies_empty _)
  · simpa using hclosed

theorem Ready.satisfies (h : Ready R s) (hd : d ∈ R) : ∃ state,
    s.waitSet.waitingDispatchers.lookup d = some state ∧
      (s.pipes d).state.Satisfies state.signals := by
  obtain ⟨state, hlookup, hstate⟩ := h d hd
  refine ⟨state, hlookup, ?_⟩
  rwa [PipeEnd.signalsState, (h.available hd).1, (h.available hd).2, Bool.or_false,
    if_neg Bool.false_ne_true] at hstate

/-- What is ready is not registered. -/
theorem Ready.registered_eq_nil (h : Ready R s) (hinv : Inv s.waitSet.waitingDispatchers s pending)
    (hd : d ∈ R) : (s.pipes d).registered = [] := by
  obtain ⟨state, hlookup, hstate⟩ := h.satisfies hd
  refine List.eq_nil_iff_forall_not_mem.2 fun signals hsignals => ?_
  obtain ⟨⟨state', hlookup', rfl⟩, hnot⟩ := hinv.registered d signals hsignals
  obtain rfl := Option.some.inj (hlookup.symm.trans hlookup')
  exact hnot hstate

/-- What is ready is in one of the queues, once. -/
theorem Ready.order_perm (h : Ready R s) (hsound : Sound s) : (order R s).Perm R.toList := by
  refine List.perm_iff_count.2 fun d => ?_
  rw [order]
  by_cases hd : d ∈ R
  · have hone := hsound.one d
    obtain ⟨state, hlookup, -⟩ := h d hd
    have hmem : d ∈ s.waitSet.waitingDispatchers := WaitSetDispatcher.waiting_iff.2 ⟨state, hlookup⟩
    rw [places, h.registered_eq_nil hsound hd, if_pos hmem, WaitSetDispatcher.queued] at hone
    rw [List.count_filter (by simpa using hd), List.count_append,
      List.count_eq_one_of_mem R.nodup_toList (Finset.mem_toList.2 hd)]
    simpa using hone
  · rw [List.count_eq_zero.2 (by simp [hd]), List.count_eq_zero.2 (by simpa using hd)]

/-! ## What is put in the queue -/

omit [DecidableEq D] in
theorem awokenQueue_wakeDispatcher (s : Waits D) (d : D) (results : List Result) :
    (s.wakeDispatcher d results).waitSet.awokenQueue = s.waitSet.awokenQueue ++
      results.map fun result => (d, if result = .alreadyExists then .ok else result) := by
  rw [wakeDispatcher]
  dsimp only
  induction results generalizing s with
  | nil => simp
  | cons result results ih =>
    rw [List.foldl_cons]
    have hrest := ih { s with waitSet := s.waitSet.wakeDispatcher result d }
    dsimp only at hrest
    rw [hrest, WaitSetDispatcher.wakeDispatcher]
    simp

/-- A step that only concerns one dispatcher: it may be put in the queue, any number of times,
    and is cancelled only if it is closed. -/
structure Concerns (d : D) (s s' : Waits D) : Prop where
  pipes : ∀ d', d' ≠ d → s'.pipes d' = s.pipes d'
  isClosed : (s.pipes d).isClosed = true → (s'.pipes d).isClosed = true
  awoken : ∃ results : List Result,
    s'.waitSet.awokenQueue = s.waitSet.awokenQueue ++ results.map (d, ·) ∧
      (.cancelled ∈ results → (s'.pipes d).isClosed = true)
  processed : s'.waitSet.processedDispatchers = s.waitSet.processedDispatchers

omit [DecidableEq D] in
theorem Concerns.refl (d : D) (s : Waits D) : Concerns d s s :=
  ⟨fun _ _ => rfl, id, ⟨[], (List.append_nil _).symm, nofun⟩, rfl⟩

omit [DecidableEq D] in
theorem Concerns.trans (h : Concerns d s s₁) (h' : Concerns d s₁ s') : Concerns d s s' where
  pipes d' hd' := (h'.pipes d' hd').trans (h.pipes d' hd')
  isClosed := h'.isClosed ∘ h.isClosed
  awoken := by
    obtain ⟨results, hqueue, hclosed⟩ := h.awoken
    obtain ⟨results', hqueue', hclosed'⟩ := h'.awoken
    refine ⟨results ++ results', ?_, fun hmem => ?_⟩
    · rw [hqueue', hqueue, List.map_append, List.append_assoc]
    · exact (List.mem_append.1 hmem).elim (h'.isClosed ∘ hclosed) hclosed'
  processed := h'.processed.trans h.processed

theorem concerns_setPipe {p : PipeEnd} (hp : (s.pipes d).isClosed = true → p.isClosed = true) :
    Concerns d s (s.setPipe d p) where
  pipes d' hd' := by rw [pipes_setPipe, if_neg hd']
  isClosed h := by rw [pipes_setPipe, if_pos rfl, hp h]
  awoken := ⟨[], (List.append_nil _).symm, nofun⟩
  processed := rfl

omit [DecidableEq D] in
theorem concerns_wakeDispatcher {results : List Result}
    (h : .cancelled ∈ results → (s.pipes d).isClosed = true) :
    Concerns d s (s.wakeDispatcher d results) where
  pipes _ _ := rfl
  isClosed := id
  awoken := by
    refine ⟨results.map fun result => if result = .alreadyExists then .ok else result, ?_,
      fun hmem => h ?_⟩
    · rw [awokenQueue_wakeDispatcher, List.map_map]
      rfl
    · obtain ⟨result, hresult, hif⟩ := List.mem_map.1 hmem
      split_ifs at hif
      rwa [← hif]
  processed := processedDispatchers_foldl_wakeDispatcher ..

theorem concerns_changeState (s : Waits D) (d : D) (state : HandleSignalsState) :
    Concerns d s (s.changeState d state) := by
  rw [changeState]
  refine (concerns_setPipe ?_).trans (concerns_wakeDispatcher fun hmem => ?_)
  · exact id
  obtain ⟨signals, -, hawake⟩ := List.mem_filterMap.1 hmem
  rw [awakeForStateChange] at hawake
  split_ifs at hawake <;> cases hawake

theorem concerns_update (s : Waits D) (d : D) (update : Option HandleSignalsState) :
    Concerns d s (update.elim s (s.changeState d)) := by
  cases update with
  | none => exact .refl d s
  | some state => exact concerns_changeState s d state

theorem concerns_register (s : Waits D) (d : D) (signals : Signals)
    (update : Option HandleSignalsState) : Concerns d s (s.register d signals update) := by
  have hupdate := concerns_update s d update
  rw [register]
  obtain ⟨-, heq⟩ | ⟨-, heq | heq | ⟨-, heq⟩⟩ := s.addAwakable_cases d signals update
  · rw [heq]
    exact .refl d s
  · rw [heq]
    exact hupdate.trans (concerns_wakeDispatcher (by simp))
  · rw [heq]
    exact hupdate.trans (concerns_wakeDispatcher (by simp))
  · rw [heq]
    exact hupdate.trans (concerns_setPipe id)

theorem concerns_closePipe (s : Waits D) (d : D) (state : HandleSignalsState) :
    Concerns d s (s.closePipe d state) := by
  rw [closePipe]
  split_ifs
  · exact .refl d s
  · refine (concerns_setPipe fun _ => rfl).trans (concerns_wakeDispatcher fun _ => ?_)
    rw [pipes_setPipe, if_pos rfl]

/-- A dispatcher is cancelled only if it is closed. -/
def CancelledClosed (s : Waits D) : Prop :=
  ∀ e ∈ s.waitSet.awokenQueue, e.2 = .cancelled → (s.pipes e.1).isClosed = true

theorem Concerns.cancelledClosed (h : Concerns d s s') (hs : CancelledClosed s) :
    CancelledClosed s' := by
  obtain ⟨results, hqueue, hclosed⟩ := h.awoken
  intro e he hcancelled
  rw [hqueue] at he
  obtain he | he := List.mem_append.1 he
  · by_cases hd : e.1 = d
    · exact hd ▸ h.isClosed (hd ▸ hs e he hcancelled)
    · rw [h.pipes e.1 hd]
      exact hs e he hcancelled
  · obtain ⟨result, hresult, rfl⟩ := List.mem_map.1 he
    exact hclosed (hcancelled ▸ hresult)

/-- Other dispatchers do not change the order. -/
theorem Concerns.order_eq (h : Concerns d s s') (hd : d ∉ R) : order R s' = order R s := by
  obtain ⟨results, hqueue, -⟩ := h.awoken
  simp [order, hqueue, h.processed, hd]

/-! ## Requeuing -/

theorem Ready.of_concerns (h : Ready R s) (hc : Concerns d s s') (hk : Kept s s')
    (hd : d ∈ R → ∀ state, s.waitSet.waitingDispatchers.lookup d = some state →
      (s'.pipes d).state.Satisfies state.signals) : Ready R s' := by
  intro d' hd'
  obtain ⟨state, hlookup, hsatisfied⟩ := h d' hd'
  refine ⟨state, by rwa [hk.waiting], ?_⟩
  by_cases hne : d' = d
  · subst hne
    have havailable : ((s'.pipes d').isClosed || (s'.pipes d').inTransit) = false := by
      rw [hk.available, (h.available hd').1, (h.available hd').2, Bool.or_false]
    rw [PipeEnd.signalsState, havailable, if_neg Bool.false_ne_true]
    exact hd hd' state hlookup
  · rwa [hc.pipes d' hne]

/-- A dispatcher that is ready is not registered again, but awoken at once. -/
theorem Ready.addAwakable (h : Ready R s) (hd : d ∈ R) {state : WaitState}
    (hstate : s.waitSet.waitingDispatchers.lookup d = some state)
    {update : Option HandleSignalsState}
    (hupdate : ∀ new ∈ update, new.Satisfies state.signals) :
    ((update.elim s (s.changeState d)).pipes d).state.Satisfies state.signals ∧
    s.addAwakable d state.signals update = (.alreadyExists, update.elim s (s.changeState d)) := by
  obtain ⟨hopen, htransit⟩ := h.available hd
  have hsatisfied : ((update.elim s (s.changeState d)).pipes d).state.Satisfies state.signals := by
    cases update with
    | none =>
      obtain ⟨state', hlookup, hsatisfied⟩ := h.satisfies hd
      obtain rfl := Option.some.inj (hstate.symm.trans hlookup)
      exact hsatisfied
    | some new =>
      have hnew := hupdate new rfl
      simpa [Waits.changeState, Waits.wakeDispatcher, pipes_setPipe] using hnew
  refine ⟨hsatisfied, ?_⟩
  rw [Waits.addAwakable, hopen, htransit, Bool.or_false, if_neg Bool.false_ne_true]
  exact if_pos hsatisfied

theorem Ready.register (h : Ready R s) (hinv : Inv s.waitSet.waitingDispatchers s (d :: pending))
    (hd : d ∈ R) {state : WaitState} (hstate : s.waitSet.waitingDispatchers.lookup d = some state)
    {update : Option HandleSignalsState} (hupdate : ∀ new ∈ update, new.Satisfies state.signals) :
    Ready R (s.register d state.signals update) ∧
      (s.register d state.signals update).waitSet.awokenQueue.map (·.1) =
        s.waitSet.awokenQueue.map (·.1) ++ [d] := by
  obtain ⟨hsatisfied, hadd⟩ := h.addAwakable hd hstate hupdate
  have hvalid : (s.addAwakable d state.signals update).1 ≠ .invalidArgument := by
    rw [hadd]
    exact nofun
  have hkept := (hinv.register hstate hvalid).2
  have hc := concerns_register s d state.signals update
  rw [Waits.register, hadd] at hkept hc ⊢
  refine ⟨h.of_concerns hc hkept fun _ state' hstate' => ?_, ?_⟩
  · obtain rfl := Option.some.inj (hstate.symm.trans hstate')
    exact hsatisfied
  · -- The dispatcher is not registered, so that an update wakes nothing.
    have hqueue : (update.elim s (s.changeState d)).waitSet.awokenQueue = s.waitSet.awokenQueue := by
      cases update with
      | none => rfl
      | some new =>
        refine (awokenQueue_wakeDispatcher ..).trans ?_
        rw [h.registered_eq_nil hinv hd]
        exact List.append_nil _
    rw [awokenQueue_wakeDispatcher, hqueue, List.map_append]
    rfl

/-- The dispatchers that were returned the last time are put in the queue in the same order,
    as far as they are ready still. -/
theorem filter_requeue {updates : D → Option HandleSignalsState}
    (hinv : Inv s.waitSet.waitingDispatchers s pending) (hready : Ready R s)
    (hkeep : KeepReady R s updates) (hs₁ : requeue updates pending s = some s₁) :
    (s₁.waitSet.awokenQueue.map (·.1)).filter (· ∈ R) =
      (s.waitSet.awokenQueue.map (·.1) ++ pending).filter (· ∈ R) := by
  induction pending generalizing s with
  | nil =>
    obtain rfl := Option.some.inj hs₁
    rw [List.append_nil]
  | cons d pending ih =>
    rw [requeue] at hs₁
    cases hstate : s.waitSet.waitingDispatchers.lookup d with
    | none =>
      rw [hstate] at hs₁
      cases hs₁
    | some state =>
      simp only [hstate] at hs₁
      have hupdate (hd : d ∈ R) (new : HandleSignalsState) (hnew : new ∈ updates d) :
          new.Satisfies state.signals := hkeep d hd new hnew state hstate
      split_ifs at hs₁ with hinvalid
      · -- What leaves the map was not ready.
        have hd : d ∉ R := fun hd => by
          rw [(hready.addAwakable hd hstate (hupdate hd)).2] at hinvalid
          cases hinvalid
        have hne {d' : D} (hd' : d' ∈ R) : d' ≠ d := fun h => hd (h ▸ hd')
        rw [ih (s := { s with waitSet := s.waitSet.eraseWaiting d })
          (hinv.eraseWaiting (WaitSetDispatcher.waiting_iff.2 ⟨state, hstate⟩))
          (fun d' hd' => ?_) (fun d' hd' new hnew w hw => ?_) hs₁]
        · simp [WaitSetDispatcher.eraseWaiting, hd]
        · obtain ⟨state', hlookup, hsatisfied⟩ := hready d' hd'
          exact ⟨state', (AList.lookup_erase_ne (hne hd')).trans hlookup, hsatisfied⟩
        · exact hkeep d' hd' new hnew w ((AList.lookup_erase_ne (hne hd')).symm.trans hw)
      · obtain ⟨hinv', hkept⟩ := hinv.register hstate hinvalid
        rw [← hkept.waiting] at hinv'
        have hkeep' : KeepReady R (s.register d state.signals (updates d)) updates := by
          intro d' hd' new hnew w hw
          rw [hkept.waiting] at hw
          exact hkeep d' hd' new hnew w hw
        by_cases hd : d ∈ R
        · obtain ⟨hready', hqueue⟩ := hready.register hinv hd hstate (hupdate hd)
          rw [ih hinv' hready' hkeep' hs₁, hqueue, List.append_assoc, List.singleton_append]
        · have hc := concerns_register s d state.signals (updates d)
          obtain ⟨results, hqueue, -⟩ := hc.awoken
          rw [ih hinv' (hready.of_concerns hc hkept fun h => absurd h hd) hkeep' hs₁, hqueue]
          simp [hd]

/-! ## Cancelled dispatchers -/

theorem CancelledClosed.requeue {updates : D → Option HandleSignalsState}
    (h : CancelledClosed s) (hs₁ : requeue updates pending s = some s₁) : CancelledClosed s₁ := by
  induction pending generalizing s with
  | nil => exact Option.some.inj hs₁ ▸ h
  | cons d pending ih =>
    rw [Waits.requeue] at hs₁
    cases hstate : s.waitSet.waitingDispatchers.lookup d with
    | none =>
      rw [hstate] at hs₁
      cases hs₁
    | some state =>
      simp only [hstate] at hs₁
      split_ifs at hs₁
      · exact ih (s := { s with waitSet := s.waitSet.eraseWaiting d }) h hs₁
      · exact ih ((concerns_register ..).cancelledClosed h) hs₁

theorem CancelledClosed.step (h : CancelledClosed s) (hsound : Sound s) {i : Input D}
    (hstep : s.step i = some s') : CancelledClosed s' := by
  cases i with
  | add d state update =>
    cases hstep
    rw [addWaitingDispatcher]
    split_ifs
    · exact h
    · exact h
    · exact (concerns_register s d state.signals update).cancelledClosed h
  | remove d =>
    cases hstep
    rw [removeWaitingDispatcher]
    split_ifs
    · intro e he hcancelled
      obtain ⟨he, hne⟩ := List.mem_filter.1 he
      change ((s.setPipe d _).pipes e.1).isClosed = true
      rw [pipes_setPipe, if_neg (by simpa using hne)]
      exact h e he hcancelled
    · exact h
  | getReady count updates =>
    obtain ⟨s₁, ready, waitSet, heq, hrequeue, -, -, -, hdrop, -⟩ :=
      getReadyDispatchers_spec hsound count updates
    rw [Waits.step, heq] at hstep
    cases hstep
    have hs₁ : CancelledClosed s₁ := CancelledClosed.requeue
      (s := { s with waitSet := { s.waitSet with processedDispatchers := [] } }) h hrequeue
    intro e he
    rw [show (⟨waitSet, s₁.pipes⟩ : Waits D).waitSet.awokenQueue = _ from hdrop] at he
    exact hs₁ e (List.mem_of_mem_drop he)
  | close =>
    cases hstep
    rw [Waits.close]
    split_ifs
    · exact h
    · rintro _ ⟨⟩
  | changeState d state =>
    cases hstep
    exact (concerns_changeState s d state).cancelledClosed h
  | lessen d state =>
    rw [Waits.step] at hstep
    split_ifs at hstep
    cases hstep
    exact (concerns_setPipe (d := d) (by exact id)).cancelledClosed h
  | closePipe d state =>
    cases hstep
    exact (concerns_closePipe s d state).cancelledClosed h
  | beginTransit d =>
    cases hstep
    exact (concerns_setPipe (d := d) (by exact id)).cancelledClosed h
  | cancelTransit d update =>
    cases hstep
    exact ((concerns_setPipe (d := d) (by exact id)).trans (concerns_update _ d update)).cancelledClosed h
  | completeTransitAndClose d state =>
    cases hstep
    exact ((concerns_setPipe (d := d) (by exact id)).trans (concerns_closePipe _ d state)).cancelledClosed h

/-- Those that are not cancelled go from the one queue to the other. -/
theorem processedDispatchers_popAwoken {n : ℕ} {w w' : WaitSetDispatcher D}
    {ready : List (D × Result × ℕ)} (h : w.popAwoken n = some (ready, w'))
    (hresult : ∀ e ∈ w.awokenQueue, e.1 ∈ R → e.2 ≠ .cancelled) :
    w'.processedDispatchers.filter (· ∈ R) = w.processedDispatchers.filter (· ∈ R) ++
      ((w.awokenQueue.take n).map (·.1)).filter (· ∈ R) := by
  induction n generalizing w ready with
  | zero =>
    obtain ⟨-, rfl⟩ := Prod.mk.inj (Option.some.inj h)
    simp
  | succ n ih =>
    rw [WaitSetDispatcher.popAwoken] at h
    cases hqueue : w.awokenQueue with
    | nil =>
      rw [hqueue] at h
      obtain ⟨-, rfl⟩ := Prod.mk.inj (Option.some.inj h)
      simp
    | cons e queue =>
      obtain ⟨d, result⟩ := e
      rw [hqueue] at h hresult
      obtain ⟨hne, hqueue'⟩ := List.forall_mem_cons.1 hresult
      cases hstate : w.waitingDispatchers.lookup d with
      | none =>
        simp only [hstate] at h
        cases h
      | some state =>
        simp only [hstate] at h
        obtain ⟨⟨rest, w₁⟩, hpop, heq⟩ := Option.map_eq_some_iff.1 h
        obtain ⟨-, rfl⟩ := Prod.mk.inj heq
        by_cases hd : d ∈ R
        · rw [if_pos (hne hd)] at hpop
          rw [ih hpop hqueue']
          simp [hd]
        · -- Whether another dispatcher is cancelled makes no difference.
          split_ifs at hpop
          · rw [ih hpop hqueue']
            simp [hd]
          · rw [ih hpop hqueue']
            simp [hd, WaitSetDispatcher.eraseWaiting]

/-! ## Turns -/

/-- Some of a queue is taken from its front: it is as many of the dispatchers in the order as
    are returned, and either that is all of them, or the call returns as many dispatchers as it
    may, so that it takes the rest from the others. -/
theorem take_queue (R : Finset D) (queue : List D) (count : ℕ) : ∃ i,
    (queue.take count).filter (· ∈ R) = (queue.filter (· ∈ R)).take i ∧
    (queue.drop count).filter (· ∈ R) = (queue.filter (· ∈ R)).drop i ∧
    ((queue.filter (· ∈ R)).length ≤ i ∨
      ((queue.drop count).filter (· ∉ R)).length + count ≤
        (queue.filter (· ∉ R)).length + i) := by
  have hparts := List.filter_append (p := (· ∈ R)) (queue.take count) (queue.drop count)
  rw [List.take_append_drop] at hparts
  refine ⟨((queue.take count).filter (· ∈ R)).length, ?_, ?_, ?_⟩
  · rw [hparts, List.take_left]
  · rw [hparts, List.drop_left]
  by_cases hcount : count ≤ queue.length
  · right
    have hothers := List.filter_append (p := (· ∉ R)) (queue.take count) (queue.drop count)
    rw [List.take_append_drop] at hothers
    have hlength := (queue.take count).length_eq_length_filter_add (· ∈ R)
    rw [List.length_take, min_eq_left hcount] at hlength
    rw [hothers, List.length_append]
    simp only [decide_not] at hlength ⊢
    omega
  · left
    rw [List.take_of_length_le (not_le.1 hcount).le]

/-- `GetReadyDispatchers` returns those at the front, and they go to the back. It takes them all,
    or returns as many dispatchers as it may. -/
theorem Ready.getReadyDispatchers (h : Ready R s) (hsound : Sound s) (hclosed : CancelledClosed s)
    {count : ℕ} {updates : D → Option HandleSignalsState} (hkeep : KeepReady R s updates)
    (hothers : WakesNoOthers R s updates) {ready : List (D × Result × ℕ)}
    (hget : s.getReadyDispatchers count updates = some (ready, s')) : ∃ i,
    (ready.map (·.1)).filter (· ∈ R) = (order R s).take i ∧
      order R s' = (order R s).drop i ++ (order R s).take i ∧
      ((order R s).length ≤ i ∨
        (others R s').length + count ≤ (others R s).length + i) := by
  obtain ⟨s₁, ready', waitSet, heq, hrequeue, hrequeued, hpop, hready, hdrop, -⟩ :=
    getReadyDispatchers_spec hsound count updates
  obtain ⟨rfl, rfl⟩ := Prod.mk.inj (Option.some.inj (hget.symm.trans heq))
  have htaken : Inv s.waitSet.waitingDispatchers
      { s with waitSet := { s.waitSet with processedDispatchers := [] } }
      s.waitSet.processedDispatchers := hsound.takeProcessed
  have horder : (s₁.waitSet.awokenQueue.map (·.1)).filter (· ∈ R) = order R s :=
    filter_requeue (s := { s with waitSet := { s.waitSet with processedDispatchers := [] } })
      htaken h hkeep hrequeue
  have hresult : ∀ e ∈ s₁.waitSet.awokenQueue, e.1 ∈ R → e.2 ≠ .cancelled := by
    intro e he hmem hcancelled
    have hs₁ := CancelledClosed.requeue
      (s := { s with waitSet := { s.waitSet with processedDispatchers := [] } })
      hclosed hrequeue e he hcancelled
    have havailable := hrequeued.available e.1
    dsimp only at havailable
    rw [hs₁, (h.available hmem).1, (h.available hmem).2] at havailable
    cases havailable
  have hprocessed := processedDispatchers_popAwoken hpop hresult
  rw [hrequeued.processed, List.filter_nil, List.nil_append] at hprocessed
  obtain ⟨i, htake, hdropped, hcount⟩ := take_queue R (s₁.waitSet.awokenQueue.map (·.1)) count
  rw [horder] at htake hdropped hcount
  refine ⟨i, by rw [hready, List.map_take, htake], ?_, hcount.imp_right fun hcount => ?_⟩
  · rw [order]
    dsimp only
    rw [hdrop, List.filter_append, hprocessed, List.map_drop, List.map_take, htake, hdropped]
  · have hle := (hothers s₁ hrequeue).length_le
    rw [others] at hle ⊢
    dsimp only
    rw [hdrop, List.map_drop]
    omega

theorem order_changeState (h : Ready R s) (hsound : Sound s) (d : D)
    (state : HandleSignalsState) : order R (s.changeState d state) = order R s := by
  by_cases hd : d ∈ R
  · have hqueue : (s.changeState d state).waitSet.awokenQueue = s.waitSet.awokenQueue := by
      refine (awokenQueue_wakeDispatcher ..).trans ?_
      rw [h.registered_eq_nil hsound hd]
      exact List.append_nil _
    rw [order, order, hqueue, (kept_changeState s d state).processed]
  · exact (concerns_changeState s d state).order_eq hd

/-- A dispatcher that stays ready is not closed. -/
theorem order_closePipe (h : Ready R s) {state : HandleSignalsState}
    (h' : Ready R (s.closePipe d state)) : order R (s.closePipe d state) = order R s := by
  refine (concerns_closePipe s d state).order_eq fun hd => ?_
  have hopen := (h'.available hd).1
  rw [closePipe, (h.available hd).1, (h.available hd).2, Bool.or_false,
    if_neg Bool.false_ne_true] at hopen
  change ((s.setPipe d _).pipes d).isClosed = false at hopen
  rw [pipes_setPipe, if_pos rfl] at hopen
  cases hopen

/-- What is ready is not in transit. -/
theorem Ready.leaveTransit (h : Ready R s) (d : D) :
    Ready R (s.setPipe d { s.pipes d with inTransit := false }) := by
  intro d' hd'
  obtain ⟨state, hlookup, hsatisfied⟩ := h d' hd'
  refine ⟨state, hlookup, ?_⟩
  have htransit := (h.available hd').2
  rw [pipes_setPipe]
  split_ifs with hd
  · subst hd
    rwa [PipeEnd.signalsState, htransit] at hsatisfied
  · exact hsatisfied

theorem order_eraseQueued (hd : d ∉ R) : order R
    { s with waitSet := (s.waitSet.eraseWaiting d).eraseQueued d
             pipes := (s.setPipe d { s.pipes d with registered := [] }).pipes } = order R s := by
  have hne (d' : D) : (decide (d' ∈ R) && decide (d' ≠ d)) = decide (d' ∈ R) := by
    by_cases hd' : d' ∈ R
    · have hne : d' ≠ d := fun h => hd (h ▸ hd')
      simp [hd', hne]
    · simp [hd']
  simp only [order, WaitSetDispatcher.eraseQueued, WaitSetDispatcher.eraseWaiting,
    List.filter_append, List.filter_map, List.filter_filter, Function.comp_def, hne]

/-- Nothing but `GetReadyDispatchers` changes the order. -/
theorem Ready.order_step (h : Ready R s) (hsound : Sound s) {i : Input D}
    (hi : ∀ count updates, i ≠ .getReady count updates) (hstep : s.step i = some s')
    (h' : Ready R s') : order R s' = order R s := by
  cases i with
  | add d state update =>
    cases hstep
    rw [addWaitingDispatcher]
    split_ifs with hskip
    · rfl
    · rfl
    · refine (concerns_register s d state.signals update).order_eq fun hd => ?_
      obtain ⟨state', hlookup, -⟩ := h d hd
      exact hskip (.inr (WaitSetDispatcher.waiting_iff.2 ⟨state', hlookup⟩))
  | remove d =>
    cases hstep
    rw [removeWaitingDispatcher] at h' ⊢
    split_ifs at h' ⊢ with hwaiting
    · have hd : d ∉ R := fun hd => by
        obtain ⟨state, hlookup, -⟩ := h' d hd
        have hnone : (s.waitSet.waitingDispatchers.erase d).lookup d = some state := hlookup
        rw [AList.lookup_erase] at hnone
        cases hnone
      exact order_eraseQueued hd
    · rfl
  | getReady count updates => exact absurd rfl (hi count updates)
  | close =>
    cases hstep
    rw [Waits.close] at h' ⊢
    split_ifs at h' ⊢
    · rfl
    · have hnone : ∀ d, d ∉ R := fun d hd => by
        obtain ⟨state, hlookup, -⟩ := h' d hd
        cases hlookup
      rw [order, order, List.filter_eq_nil_iff.2 (by simp [hnone]),
        List.filter_eq_nil_iff.2 (by simp [hnone])]
  | changeState d state =>
    cases hstep
    exact order_changeState h hsound d state
  | lessen d state =>
    rw [Waits.step] at hstep
    split_ifs at hstep
    cases hstep
    rfl
  | closePipe d state =>
    cases hstep
    exact order_closePipe h h'
  | beginTransit d =>
    cases hstep
    rfl
  | cancelTransit d update =>
    cases hstep
    have hcancel : Sound (s.setPipe d { s.pipes d with inTransit := false }) :=
      Inv.setPipe hsound rfl fun _ => id
    cases update with
    | none => rfl
    | some state => exact order_changeState (h.leaveTransit d) hcancel d state
  | completeTransitAndClose d state =>
    cases hstep
    exact order_closePipe (h.leaveTransit d) h'

/-- What is kept while the dispatchers take turns: those that are not at the front any more have
    been served. If there are some at the front then each call returned as many dispatchers as it
    could. -/
structure Served (R : Finset D) (most : ℕ) (front : List D) (served : List D) (s : Waits D) :
    Prop where
  sound : Sound s
  cancelledClosed : CancelledClosed s
  ready : Ready R s
  order : ∃ back, order R s = front ++ back
  mem : ∀ d ∈ R, d ∉ front → d ∈ served
  length : front = [] ∨ front.length + (others R s).length ≤ most

/-- A call of `GetReadyDispatchers` serves some that are at the front. -/
theorem Served.getReadyDispatchers {most count : ℕ} {front served : List D}
    (h : Served R (most + count) front served s) {updates : D → Option HandleSignalsState}
    (hkeep : KeepReady R s updates) (hothers : WakesNoOthers R s updates)
    {ready : List (D × Result × ℕ)}
    (hget : s.getReadyDispatchers count updates = some (ready, s')) (hready : Ready R s') :
    ∃ front', Served R most front' (served ++ ready.map (·.1)) s' := by
  have hstep : s.step (.getReady count updates) = some s' := by
    rw [Waits.step, hget]
    rfl
  obtain ⟨i, hserved, horder, hcount⟩ :=
    h.ready.getReadyDispatchers h.sound h.cancelledClosed hkeep hothers hget
  obtain ⟨back, hback⟩ := h.order
  refine ⟨front.drop i, h.sound.step hstep, h.cancelledClosed.step h.sound hstep, hready, ?_,
    fun d hd hnot => ?_, ?_⟩
  · rw [horder, hback, List.drop_append, List.append_assoc]
    exact ⟨_, rfl⟩
  · rw [List.mem_append]
    by_cases hmem : d ∈ front
    · -- What is at the front no longer has been returned now.
      right
      have htake : d ∈ (Waits.order R s).take i := by
        rw [hback, List.take_append]
        rw [← List.take_append_drop i front, List.mem_append] at hmem
        exact List.mem_append_left _ (hmem.resolve_right hnot)
      rw [← hserved] at htake
      exact (List.mem_filter.1 htake).1
    · exact .inl (h.mem d hd hmem)
  · rcases le_or_gt front.length i with hall | hsome
    · exact .inl (List.drop_eq_nil_of_le hall)
    · right
      have hne : front ≠ [] := fun hnil => by
        rw [hnil] at hsome
        exact Nat.not_lt_zero _ hsome
      have hmost := h.length.resolve_left hne
      have hlength : front.length ≤ (Waits.order R s).length := by
        rw [hback, List.length_append]
        exact Nat.le_add_right _ _
      have hless := hcount.resolve_left (not_le.2 (hsome.trans_le hlength))
      rw [List.length_drop]
      omega

/-- Those that are at the front get fewer with every call. -/
theorem Turns.served {count n : ℕ} {served : List D} (h : Turns R count s n served s')
    (hsound : Sound s) (hclosed : CancelledClosed s) (most : ℕ)
    (hmost : R.card + (others R s).length ≤ most + count * n) :
    ∃ front, Served R most front served s' := by
  induction h generalizing most with
  | start hready =>
    have hperm := hready.order_perm hsound
    refine ⟨order R s, hsound, hclosed, hready, ⟨[], (List.append_nil _).symm⟩,
      fun d hd hnot => absurd (hperm.mem_iff.2 (Finset.mem_toList.2 hd)) hnot, .inr ?_⟩
    rw [hperm.length_eq, Finset.length_toList]
    simpa using hmost
  | getReady _ hkeep hothers hget hready ih =>
    obtain ⟨front, hserved⟩ := ih (most + count) (by rw [Nat.mul_succ] at hmost; omega)
    exact hserved.getReadyDispatchers hkeep hothers hget hready
  | other _ hi hstep hothers hready ih =>
    obtain ⟨front, hserved⟩ := ih most hmost
    refine ⟨front, hserved.sound.step hstep, hserved.cancelledClosed.step hserved.sound hstep, hready,
      ?_, hserved.mem, hserved.length.imp_right fun hlength => ?_⟩
    · rw [hserved.ready.order_step hserved.sound hi hstep hready]
      exact hserved.order
    · exact (Nat.add_le_add_left hothers.length_le _).trans hlength

/-- Dispatchers that stay ready, while no others are woken, are all returned in any
    `⌈(k + m) / count⌉` calls of `GetReadyDispatchers`, where `k` is their number, and `m` the
    number of others that are in the queue at the start. -/
theorem Turns.mem_of_card_add_le {states : D → HandleSignalsState} {count n : ℕ} {served : List D}
    (hs : (machine states).Reachable Machine.Any s) (hcount : 1 ≤ count)
    (h : Turns R count s n served s') (hn : (R.card + (others R s).length) ⌈/⌉ count ≤ n) :
    (∀ d ∈ R, d ∈ served) ∧
      ∀ updates, ∃ ready s'', s'.getReadyDispatchers count updates = some (ready, s'') := by
  have hinv : Sound s ∧ CancelledClosed s :=
    Machine.Reachable.invariant (P := fun s => Sound s ∧ CancelledClosed s) hs
      ⟨sound_init states, nofun⟩ fun h _ hstep => ⟨h.1.step hstep, h.2.step h.1 hstep⟩
  obtain ⟨front, hserved⟩ := h.served hinv.1 hinv.2 0 (by
    rw [Nat.zero_add]
    exact (ceilDiv_le_iff_le_mul hcount).1 hn)
  have hfront : front = [] := hserved.length.elim id fun hle =>
    List.length_eq_zero_iff.1 (by omega)
  refine ⟨fun d hd => hserved.mem d hd (by rw [hfront]; exact List.not_mem_nil), fun updates => ?_⟩
  obtain ⟨s₁, ready, waitSet, heq, -⟩ := getReadyDispatchers_spec hserved.sound count updates
  exact ⟨ready, _, heq⟩

/-- Two dispatchers are readable, of which one has just been returned, behind another one that
    was readable before. All are returned one by one. -/
theorem Turns.mem_of_card_add_le_two : ∃ (s s' : Waits ℕ) (served : List ℕ),
    (machine fun _ => ⟨0, MOJO_HANDLE_SIGNAL_READABLE⟩).Reachable Machine.Any s ∧
      others {1, 2} s = [3] ∧ Turns {1, 2} 1 s 3 served s' ∧
      ∀ d ∈ ({1, 2} : Finset ℕ), d ∈ served := by
  obtain ⟨s, hs, hstale, hready, hothers, hget⟩ := Machine.exists_reachable
    (M := machine fun _ : ℕ => ⟨0, MOJO_HANDLE_SIGNAL_READABLE⟩) (G := Machine.Any)
    (P := fun s => others {1, 2} s = [3] ∧ Ready {1, 2} s ∧ WakesNoOthers {1, 2} s (fun _ => none) ∧
      (s.getReadyDispatchers 1 fun _ => none).any fun r =>
        Ready {1, 2} r.2 ∧ WakesNoOthers {1, 2} r.2 (fun _ => none) ∧
          (r.2.getReadyDispatchers 1 fun _ => none).any fun r =>
            Ready {1, 2} r.2 ∧ WakesNoOthers {1, 2} r.2 (fun _ => none) ∧
              (r.2.getReadyDispatchers 1 fun _ => none).any fun r => Ready {1, 2} r.2)
    [.add 1 ⟨1, 10⟩ none, .add 2 ⟨1, 20⟩ none, .add 3 ⟨1, 30⟩ none, .changeState 1 ⟨1, 1⟩,
      .getReady 5 fun _ => none, .changeState 3 ⟨1, 1⟩, .lessen 3 ⟨0, 1⟩, .changeState 2 ⟨1, 1⟩]
    (by decide)
  obtain ⟨⟨ready, s₁⟩, hs₁, h₁⟩ := (Option.any_eq_true _ _).1 hget
  obtain ⟨hready₁, hothers₁, hget₁⟩ := of_decide_eq_true h₁
  obtain ⟨⟨ready', s₂⟩, hs₂, h₂⟩ := (Option.any_eq_true _ _).1 hget₁
  obtain ⟨hready₂, hothers₂, hget₂⟩ := of_decide_eq_true h₂
  obtain ⟨⟨ready'', s₃⟩, hs₃, h₃⟩ := (Option.any_eq_true _ _).1 hget₂
  have hkeep (s : Waits ℕ) : KeepReady {1, 2} s fun _ => none := fun _ _ _ h => by cases h
  have hturns : Turns {1, 2} 1 s 3 _ s₃ :=
    .getReady (.getReady (.getReady (.start hready) (hkeep s) hothers hs₁ hready₁) (hkeep s₁)
      hothers₁ hs₂ hready₂) (hkeep s₂) hothers₂ hs₃ (of_decide_eq_true h₃)
  exact ⟨s, s₃, _, hs, hstale, hturns,
    (Turns.mem_of_card_add_le hs le_rfl hturns (by rw [hstale]; decide)).1⟩

/-- A dispatcher is readable, behind another one that was woken before and is not any more. One
    call returns one dispatcher, which is the other one. -/
theorem Turns.not_mem_of_card_le : ∃ (s s' : Waits ℕ) (served : List ℕ),
    (machine fun _ => ⟨0, MOJO_HANDLE_SIGNAL_READABLE⟩).Reachable Machine.Any s ∧
      Turns {1} 1 s 1 served s' ∧ ({1} : Finset ℕ).card ⌈/⌉ (1 : ℕ) ≤ 1 ∧ 1 ∉ served := by
  obtain ⟨s, hs, hready, hothers, hget⟩ := Machine.exists_reachable
    (M := machine fun _ : ℕ => ⟨0, MOJO_HANDLE_SIGNAL_READABLE⟩) (G := Machine.Any)
    (P := fun s => Ready {1} s ∧ WakesNoOthers {1} s (fun _ => none) ∧
      (s.getReadyDispatchers 1 fun _ => none).any fun r =>
        Ready {1} r.2 ∧ r.1.map (·.1) = [2])
    [.add 1 ⟨1, 10⟩ none, .add 2 ⟨1, 20⟩ none, .changeState 2 ⟨1, 1⟩, .lessen 2 ⟨0, 1⟩,
      .changeState 1 ⟨1, 1⟩] (by decide)
  obtain ⟨⟨ready, s₁⟩, hs₁, h₁⟩ := (Option.any_eq_true _ _).1 hget
  obtain ⟨hready₁, hserved⟩ := of_decide_eq_true h₁
  have hkeep : KeepReady {1} s fun _ => none := fun _ _ _ h => by cases h
  refine ⟨s, s₁, _, hs, .getReady (.start hready) hkeep hothers hs₁ hready₁, by decide, ?_⟩
  rw [hserved]
  decide

end Waits

end MojoEdk.WaitSet
