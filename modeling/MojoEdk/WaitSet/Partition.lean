import MojoEdk.Library.Machine
import MojoEdk.WaitSet.Signals

/-!
# Wait sets of pipes

A wait set that waits for ends of message pipes and data pipes, whose signals change as they
like, and which are closed and sent away. Each operation is taken as atomic.

Each dispatcher that is waited for is in one place: it is registered in its own list of
awakables, or it is in one of the two queues (`Inv.one`). What is registered is not
satisfied (`Inv.registered`). So whatever is satisfied is in the queues, and
`GetReadyDispatchers` returns it (`partition_and_complete`).
-/

namespace MojoEdk.WaitSet

/-- The end of a pipe, as the wait set sees it: the entries of the wait set in the list of
    awakables are their signals. -/
structure PipeEnd where
  isClosed : Bool := false
  inTransit : Bool := false
  state : HandleSignalsState := {}
  registered : List Signals := []

/-- The state of a dispatcher that `AddAwakable` reports. -/
def PipeEnd.signalsState (p : PipeEnd) : HandleSignalsState :=
  if p.isClosed || p.inTransit then {} else p.state

/-- `AwakableList::AwakeForStateChange`: the result with which an entry is awoken. -/
def awakeForStateChange (state : HandleSignalsState) (signals : Signals) : Option Result :=
  if state.Satisfies signals then some .ok
  else if ¬state.CanSatisfy signals then some .failedPrecondition
  else none

/-- A wait set, and the ends of pipes. -/
structure Waits (D : Type*) where
  waitSet : WaitSetDispatcher D := {}
  pipes : D → PipeEnd

variable {D : Type*} [DecidableEq D]

namespace Waits

/-! ## Operations -/

def setPipe (s : Waits D) (d : D) (p : PipeEnd) : Waits D :=
  { s with pipes := Function.update s.pipes d p }

/-- `WakeDispatcher`, for each entry that is awoken. -/
def wakeDispatcher (s : Waits D) (d : D) (results : List Result) : Waits D :=
  { s with waitSet := results.foldl (fun w result => w.wakeDispatcher result d) s.waitSet }

/-- The state of a dispatcher changes, and its awakables are told. -/
def changeState (s : Waits D) (d : D) (state : HandleSignalsState) : Waits D :=
  let p := s.pipes d
  (s.setPipe d { p with
    state := state
    registered := p.registered.filter fun signals => (awakeForStateChange state signals).isNone
    }).wakeDispatcher d (p.registered.filterMap (awakeForStateChange state))

/-- `AddAwakable`. The ends of data pipes update their state before (`update`). -/
def addAwakable (s : Waits D) (d : D) (signals : Signals) (update : Option HandleSignalsState) :
    Result × Waits D :=
  if (s.pipes d).isClosed || (s.pipes d).inTransit then (.invalidArgument, s)
  else
    let s := update.elim s (s.changeState d)
    let p := s.pipes d
    if p.state.Satisfies signals then (.alreadyExists, s)
    else if ¬p.state.CanSatisfy signals then (.failedPrecondition, s)
    else (.ok, s.setPipe d { p with registered := signals :: p.registered })

/-- What is done with the result of `AddAwakable`. -/
def register (s : Waits D) (d : D) (signals : Signals) (update : Option HandleSignalsState) :
    Waits D :=
  match s.addAwakable d signals update with
  | (.ok, s) => s
  | (.invalidArgument, s) => s
  | (result, s) => s.wakeDispatcher d [result]

/-- `AddWaitingDispatcher`. -/
def addWaitingDispatcher (s : Waits D) (d : D) (state : WaitState)
    (update : Option HandleSignalsState) : Waits D :=
  if s.waitSet.isClosed ∨ s.waitSet.Waiting d then s
  else if (s.addAwakable d state.signals update).1 = .invalidArgument then s
  else
    let s := s.register d state.signals update
    { s with waitSet := s.waitSet.insertWaiting d state }

/-- `RemoveWaitingDispatcher`. -/
def removeWaitingDispatcher (s : Waits D) (d : D) : Waits D :=
  if s.waitSet.Waiting d then
    let s := s.setPipe d { s.pipes d with registered := [] }
    { s with waitSet := (s.waitSet.eraseWaiting d).eraseQueued d }
  else s

/-- The loop of `GetReadyDispatchers` over the dispatchers that were returned the last
    time. -/
def requeue (updates : D → Option HandleSignalsState) : List D → Waits D → Option (Waits D)
  | [], s => some s
  | d :: pending, s =>
    match s.waitSet.waitingDispatchers.lookup d with
    | none => none
    | some state =>
      if (s.addAwakable d state.signals (updates d)).1 = .invalidArgument then
        requeue updates pending { s with waitSet := s.waitSet.eraseWaiting d }
      else requeue updates pending (s.register d state.signals (updates d))

/-- `GetReadyDispatchers`: the dispatchers, with their results and contexts. There is no
    result if a dispatcher is looked up that is not found. -/
def getReadyDispatchers (s : Waits D) (count : ℕ) (updates : D → Option HandleSignalsState) :
    Option (List (D × Result × ℕ) × Waits D) := do
  let s' ← requeue updates s.waitSet.processedDispatchers
    { s with waitSet := { s.waitSet with processedDispatchers := [] } }
  let (ready, waitSet) ← s'.waitSet.popAwoken count
  some (ready, { s' with waitSet := waitSet })

/-- `Close` of a wait set. -/
def close (s : Waits D) : Waits D :=
  if s.waitSet.isClosed then s
  else
    { waitSet := { s.waitSet with isClosed := true }.clearWaiting.clearQueued
      pipes := fun d =>
        if s.waitSet.Waiting d then { s.pipes d with registered := [] } else s.pipes d }

/-- `CloseNoLock` of a dispatcher, which has another state then. -/
def closePipe (s : Waits D) (d : D) (state : HandleSignalsState) : Waits D :=
  let p := s.pipes d
  if p.isClosed || p.inTransit then s
  else
    (s.setPipe d { p with isClosed := true, state := state, registered := [] }).wakeDispatcher d
      (p.registered.map fun _ => .cancelled)

/-- What happens to a wait set and to pipes. The signals of a dispatcher are changed, and its
    awakables are told, or they are not told and no signal is satisfied that was not before. -/
inductive Input (D : Type*)
  | add (d : D) (state : WaitState) (update : Option HandleSignalsState)
  | remove (d : D)
  | getReady (count : ℕ) (updates : D → Option HandleSignalsState)
  | close
  | changeState (d : D) (state : HandleSignalsState)
  | lessen (d : D) (state : HandleSignalsState)
  | closePipe (d : D) (state : HandleSignalsState)
  | beginTransit (d : D)
  | cancelTransit (d : D) (update : Option HandleSignalsState)
  | completeTransitAndClose (d : D) (state : HandleSignalsState)

def step (s : Waits D) : Input D → Option (Waits D)
  | .add d state update => some (s.addWaitingDispatcher d state update)
  | .remove d => some (s.removeWaitingDispatcher d)
  | .getReady count updates => (s.getReadyDispatchers count updates).map (·.2)
  | .close => some s.close
  | .changeState d state => some (s.changeState d state)
  | .lessen d state =>
    -- Nobody is awoken when less is satisfied than before.
    if (s.pipes d).state.Lessens state then some (s.setPipe d { s.pipes d with state := state })
    else none
  | .closePipe d state => some (s.closePipe d state)
  | .beginTransit d => some (s.setPipe d { s.pipes d with inTransit := true })
  | .cancelTransit d update =>
    let s := s.setPipe d { s.pipes d with inTransit := false }
    some (update.elim s (s.changeState d))
  | .completeTransitAndClose d state =>
    some ((s.setPipe d { s.pipes d with inTransit := false }).closePipe d state)

/-- Wait sets of pipes that are in given states in the beginning. -/
def machine (states : D → HandleSignalsState) : Machine (Waits D) (Input D) where
  init := { pipes := fun d => { state := states d } }
  step := step

/-! ## Invariant -/

variable {s s' : Waits D} {d : D} {map : AList fun _ : D => WaitState} {pending : List D}

/-- How often a dispatcher is registered, or in the queues. -/
def places (s : Waits D) (d : D) : ℕ := (s.pipes d).registered.length + s.waitSet.queued d

/-- What holds between the operations, and while dispatchers that were taken from the queues
    are pending: each dispatcher in the map is in one place, and if it is registered, its
    signals are not satisfied. -/
structure Inv (map : AList fun _ : D => WaitState) (s : Waits D) (pending : List D) : Prop where
  one : ∀ d, s.places d + pending.count d = if d ∈ map then 1 else 0
  registered : ∀ d, ∀ signals ∈ (s.pipes d).registered,
    (∃ state, map.lookup d = some state ∧ state.signals = signals) ∧
      ¬(s.pipes d).state.Satisfies signals

theorem pipes_setPipe (s : Waits D) (d d' : D) (p : PipeEnd) :
    (s.setPipe d p).pipes d' = if d' = d then p else s.pipes d' := Function.update_apply ..

section WakeDispatcher

variable (w : WaitSetDispatcher D) (d : D) (results : List Result)

theorem queued_foldl_wakeDispatcher (d' : D) :
    (results.foldl (fun w result => w.wakeDispatcher result d) w).queued d' =
      w.queued d' + if d = d' then results.length else 0 := by
  induction results generalizing w with
  | nil => simp
  | cons result results ih =>
    rw [List.foldl_cons, ih, WaitSetDispatcher.queued_wakeDispatcher]
    split_ifs with hd
    · rw [List.length_cons]
      omega
    · rfl

omit [DecidableEq D] in
theorem waitingDispatchers_foldl_wakeDispatcher :
    (results.foldl (fun w result => w.wakeDispatcher result d) w).waitingDispatchers =
      w.waitingDispatchers := by
  induction results generalizing w with
  | nil => rfl
  | cons result results ih => exact ih _

omit [DecidableEq D] in
theorem processedDispatchers_foldl_wakeDispatcher :
    (results.foldl (fun w result => w.wakeDispatcher result d) w).processedDispatchers =
      w.processedDispatchers := by
  induction results generalizing w with
  | nil => rfl
  | cons result results ih => exact ih _

end WakeDispatcher

/-- Entries are awoken, or kept. -/
theorem length_awoken (state : HandleSignalsState) (registered : List Signals) :
    (registered.filter fun signals => (awakeForStateChange state signals).isNone).length +
      (registered.filterMap (awakeForStateChange state)).length = registered.length := by
  induction registered with
  | nil => rfl
  | cons signals registered ih =>
    cases h : awakeForStateChange state signals with
    | none => simp [h]; omega
    | some result => simp [h]; omega

/-- A dispatcher has other entries, and others of them are awoken. -/
theorem Inv.wakePipe {pending' : List D} (h : Inv map s pending) {p : PipeEnd}
    (results : List Result)
    (hlength : p.registered.length + results.length + pending'.count d =
      (s.pipes d).registered.length + pending.count d)
    (hpending : ∀ d', d' ≠ d → pending'.count d' = pending.count d')
    (hregistered : ∀ signals ∈ p.registered,
      (∃ state, map.lookup d = some state ∧ state.signals = signals) ∧ ¬p.state.Satisfies signals) :
    Inv map ((s.setPipe d p).wakeDispatcher d results) pending' where
  one d' := by
    have hone := h.one d'
    rw [places] at hone ⊢
    change ((s.setPipe d p).pipes d').registered.length +
      (results.foldl (fun w result => w.wakeDispatcher result d) s.waitSet).queued d' + _ = _
    rw [pipes_setPipe, queued_foldl_wakeDispatcher]
    by_cases hd : d' = d
    · -- What leaves the list of the dispatcher gets into the queue.
      subst hd
      rw [if_pos rfl, if_pos rfl]
      omega
    · rw [if_neg hd, if_neg (Ne.symm hd), hpending d' hd]
      omega
  registered d' := by
    change ∀ signals ∈ ((s.setPipe d p).pipes d').registered, _ ∧
      ¬((s.setPipe d p).pipes d').state.Satisfies signals
    rw [pipes_setPipe]
    split_ifs with hd
    · rw [hd]
      exact hregistered
    · exact h.registered d'

/-- The map and the second queue are the same, and the same dispatchers can be waited for. -/
structure Kept (s s' : Waits D) : Prop where
  waiting : s'.waitSet.waitingDispatchers = s.waitSet.waitingDispatchers
  processed : s'.waitSet.processedDispatchers = s.waitSet.processedDispatchers
  available : ∀ d, ((s'.pipes d).isClosed || (s'.pipes d).inTransit) =
    ((s.pipes d).isClosed || (s.pipes d).inTransit)

omit [DecidableEq D] in
theorem Kept.refl (s : Waits D) : Kept s s := ⟨rfl, rfl, fun _ => rfl⟩

omit [DecidableEq D] in
theorem Kept.trans {s'' : Waits D} (h : Kept s s') (h' : Kept s' s'') : Kept s s'' where
  waiting := h'.waiting.trans h.waiting
  processed := h'.processed.trans h.processed
  available d := (h'.available d).trans (h.available d)

theorem kept_wakePipe (s : Waits D) {p : PipeEnd} (results : List Result)
    (hp : (p.isClosed || p.inTransit) = ((s.pipes d).isClosed || (s.pipes d).inTransit)) :
    Kept s ((s.setPipe d p).wakeDispatcher d results) where
  waiting := waitingDispatchers_foldl_wakeDispatcher ..
  processed := processedDispatchers_foldl_wakeDispatcher ..
  available d' := by
    change (((s.setPipe d p).pipes d').isClosed || ((s.setPipe d p).pipes d').inTransit) = _
    rw [pipes_setPipe]
    split_ifs with hd
    · rw [hd, hp]
    · rfl

theorem Inv.changeState (h : Inv map s pending) (d : D) (state : HandleSignalsState) :
    Inv map (s.changeState d state) pending := by
  refine h.wakePipe _ ?_ (fun _ _ => rfl) fun signals hsignals => ?_
  · rw [length_awoken]
  · obtain ⟨hmem, hnone⟩ := List.mem_filter.1 hsignals
    refine ⟨(h.registered d signals hmem).1, fun hsatisfied => ?_⟩
    rw [awakeForStateChange, if_pos hsatisfied] at hnone
    cases hnone

theorem kept_changeState (s : Waits D) (d : D) (state : HandleSignalsState) :
    Kept s (s.changeState d state) := kept_wakePipe s _ rfl

theorem setPipe_self (s : Waits D) (d : D) : s.setPipe d (s.pipes d) = s := by
  rw [setPipe, Function.update_eq_self]

/-- A dispatcher that is pending is awoken. -/
theorem Inv.wake (h : Inv map s (d :: pending)) (result : Result) :
    Inv map (s.wakeDispatcher d [result]) pending := by
  rw [← setPipe_self s d]
  refine h.wakePipe _ ?_ (fun d' hd' => ?_) (h.registered d)
  · rw [List.count_cons_self, List.length_singleton]
    omega
  · exact (List.count_cons_of_ne (Ne.symm hd')).symm

/-- A dispatcher that is pending is registered. -/
theorem Inv.addEntry (h : Inv map s (d :: pending)) {state : WaitState}
    (hstate : map.lookup d = some state) (hsatisfied : ¬(s.pipes d).state.Satisfies state.signals) :
    Inv map (s.setPipe d { s.pipes d with
      registered := state.signals :: (s.pipes d).registered }) pending := by
  refine h.wakePipe [] ?_ (fun d' hd' => ?_) fun signals hsignals => ?_
  · rw [List.count_cons_self, List.length_cons, List.length_nil]
    omega
  · exact (List.count_cons_of_ne (Ne.symm hd')).symm
  · rcases List.mem_cons.1 hsignals with rfl | hsignals
    · exact ⟨⟨state, hstate, rfl⟩, hsatisfied⟩
    · exact h.registered d signals hsignals

theorem addAwakable_cases (s : Waits D) (d : D) (signals : Signals)
    (update : Option HandleSignalsState) :
    (((s.pipes d).isClosed || (s.pipes d).inTransit) = true ∧
      s.addAwakable d signals update = (.invalidArgument, s)) ∨
    ((s.pipes d).isClosed || (s.pipes d).inTransit) = false ∧
      (let s' := update.elim s (s.changeState d)
       s.addAwakable d signals update = (.alreadyExists, s') ∨
       s.addAwakable d signals update = (.failedPrecondition, s') ∨
       ¬(s'.pipes d).state.Satisfies signals ∧ s.addAwakable d signals update =
        (.ok, s'.setPipe d { s'.pipes d with registered := signals :: (s'.pipes d).registered })) := by
  rw [addAwakable]
  by_cases hclosed : ((s.pipes d).isClosed || (s.pipes d).inTransit) = true
  · rw [if_pos hclosed]
    exact .inl ⟨hclosed, rfl⟩
  · rw [if_neg hclosed]
    refine .inr ⟨Bool.eq_false_iff.2 hclosed, ?_⟩
    dsimp only
    split_ifs with hsatisfied hcan
    · exact .inl rfl
    · exact .inr (.inr ⟨hsatisfied, rfl⟩)
    · exact .inr (.inl rfl)

/-- A dispatcher that is pending has a place again. -/
theorem Inv.register (h : Inv map s (d :: pending)) {state : WaitState}
    (hstate : map.lookup d = some state) {update : Option HandleSignalsState}
    (hvalid : (s.addAwakable d state.signals update).1 ≠ .invalidArgument) :
    Inv map (s.register d state.signals update) pending ∧
      Kept s (s.register d state.signals update) := by
  have hupdate : Inv map (update.elim s (s.changeState d)) (d :: pending) ∧
      Kept s (update.elim s (s.changeState d)) := by
    cases update with
    | none => exact ⟨h, .refl s⟩
    | some new => exact ⟨h.changeState d new, kept_changeState s d new⟩
  have hwake (result : Result) :
      Kept s ((update.elim s (s.changeState d)).wakeDispatcher d [result]) := by
    refine hupdate.2.trans ?_
    conv_rhs => rw [← setPipe_self (update.elim s (s.changeState d)) d]
    exact kept_wakePipe _ _ rfl
  rw [Waits.register]
  -- An id that is not registered is awoken with the result.
  rcases s.addAwakable_cases d state.signals update with ⟨-, heq⟩ | ⟨-, heq | heq | ⟨hnot, heq⟩⟩
  · rw [heq] at hvalid
    exact absurd rfl hvalid
  · rw [heq]
    exact ⟨hupdate.1.wake .alreadyExists, hwake .alreadyExists⟩
  · rw [heq]
    exact ⟨hupdate.1.wake .failedPrecondition, hwake .failedPrecondition⟩
  · rw [heq]
    exact ⟨hupdate.1.addEntry hstate hnot, hupdate.2.trans (kept_wakePipe _ [] rfl)⟩

/-! ## Steps -/

/-- The invariant of a wait set with its own map, between the operations. -/
def Sound (s : Waits D) : Prop := Inv s.waitSet.waitingDispatchers s []

theorem sound_init (states : D → HandleSignalsState) : Sound (machine states).init where
  one _ := (if_neg (AList.notMem_empty _)).symm
  registered _ _ h := absurd h List.not_mem_nil

/-- What is not in the map is in no place. -/
theorem Inv.places_eq_zero (h : Inv map s pending) (hd : d ∉ map) :
    (s.pipes d).registered = [] ∧ s.waitSet.queued d = 0 ∧ pending.count d = 0 := by
  have hone := h.one d
  rw [if_neg hd, places] at hone
  exact ⟨List.eq_nil_of_length_eq_zero (by omega), by omega, by omega⟩

theorem Sound.addWaitingDispatcher (h : Sound s) (d : D) (state : WaitState)
    (update : Option HandleSignalsState) : Sound (s.addWaitingDispatcher d state update) := by
  rw [Waits.addWaitingDispatcher]
  split_ifs with hskip hinvalid
  · exact h
  · exact h
  have hnew : d ∉ s.waitSet.waitingDispatchers := (not_or.1 hskip).2
  -- The dispatcher is in the map, and pending, before it has a place.
  have hpending : Inv (s.waitSet.waitingDispatchers.insert d state) s [d] := by
    refine ⟨fun d' => ?_, fun d' signals hsignals => ?_⟩
    · have hone := h.one d'
      rw [List.count_nil] at hone
      by_cases hd : d' = d
      · rw [hd] at hone ⊢
        rw [if_neg hnew] at hone
        rw [List.count_singleton_self, if_pos (AList.mem_insert _ |>.2 (.inl rfl))]
        omega
      · rw [List.count_singleton, if_neg (by simpa using Ne.symm hd), hone]
        simp only [AList.mem_insert, hd, false_or]
    · have hd : d' ≠ d := by
        rintro rfl
        rw [(h.places_eq_zero hnew).1] at hsignals
        cases hsignals
      rw [AList.lookup_insert_ne hd]
      exact h.registered d' signals hsignals
  obtain ⟨hinv, hkept⟩ := hpending.register (AList.lookup_insert _) hinvalid
  change Inv ((s.register d state.signals update).waitSet.waitingDispatchers.insert d state) _ _
  rw [hkept.waiting]
  exact ⟨hinv.one, hinv.registered⟩

/-- A dispatcher leaves the map and all its places. -/
theorem Inv.erase {pending' : List D} (h : Inv map s pending) (d : D)
    (hself : s'.places d + pending'.count d = 0)
    (hplaces : ∀ d', d' ≠ d → s'.places d' + pending'.count d' = s.places d' + pending.count d')
    (hpipes : ∀ d', d' ≠ d → s'.pipes d' = s.pipes d') : Inv (map.erase d) s' pending' where
  one d' := by
    by_cases hd : d' = d
    · rw [hd, hself, if_neg fun hmem => (AList.mem_erase.1 hmem).1 rfl]
    · rw [hplaces d' hd, h.one]
      simp only [AList.mem_erase, ne_eq, hd, not_false_eq_true, true_and]
  registered d' signals hsignals := by
    have hd : d' ≠ d := by
      rintro rfl
      rw [places] at hself
      have := List.length_pos_of_mem hsignals
      omega
    rw [AList.lookup_erase_ne hd]
    rw [hpipes d' hd] at hsignals ⊢
    exact h.registered d' signals hsignals

theorem Sound.removeWaitingDispatcher (h : Sound s) (d : D) :
    Sound (s.removeWaitingDispatcher d) := by
  rw [Waits.removeWaitingDispatcher]
  split_ifs with hd
  swap
  · exact h
  have hpipes (d' : D) (hne : d' ≠ d) : (s.setPipe d { s.pipes d with registered := [] }).pipes d' =
      s.pipes d' := by
    rw [pipes_setPipe, if_neg hne]
  refine Inv.erase h d ?_ (fun d' hne => ?_) hpipes
  · change ((s.setPipe d _).pipes d).registered.length +
      ((s.waitSet.eraseWaiting d).eraseQueued d).queued d = 0
    rw [pipes_setPipe, if_pos rfl, WaitSetDispatcher.queued_eraseQueued_self]
    rfl
  · change ((s.setPipe d _).pipes d').registered.length +
      ((s.waitSet.eraseWaiting d).eraseQueued d).queued d' + 0 = _
    rw [hpipes d' hne, WaitSetDispatcher.queued_eraseQueued_of_ne _ hne]
    rfl

theorem Sound.close (h : Sound s) : Sound s.close := by
  rw [Waits.close]
  split_ifs with hclosed
  · exact h
  have hregistered (d : D) : (if s.waitSet.Waiting d then { s.pipes d with registered := [] }
      else s.pipes d).registered = [] := by
    split_ifs with hd
    · rfl
    · exact (h.places_eq_zero hd).1
  refine ⟨fun d => ?_, fun d signals hsignals => ?_⟩
  · rw [places, hregistered]
    exact (if_neg (AList.notMem_empty d)).symm
  · rw [hregistered] at hsignals
    cases hsignals

/-- Another state or other flags, which no entry depends on. -/
theorem Inv.setPipe (h : Inv map s pending) {p : PipeEnd}
    (hregistered : p.registered = (s.pipes d).registered)
    (hstate : ∀ signals, p.state.Satisfies signals → (s.pipes d).state.Satisfies signals) :
    Inv map (s.setPipe d p) pending := by
  refine h.wakePipe [] (by rw [hregistered]; rfl) (fun _ _ => rfl)
    fun signals hsignals => ?_
  rw [hregistered] at hsignals
  have hentry := h.registered d signals hsignals
  exact ⟨hentry.1, mt (hstate signals) hentry.2⟩

theorem Sound.changeState (h : Sound s) (d : D) (state : HandleSignalsState) :
    Sound (s.changeState d state) := by
  rw [Sound, (kept_changeState s d state).waiting]
  exact Inv.changeState h d state

theorem Sound.closePipe (h : Sound s) (d : D) (state : HandleSignalsState) :
    Sound (s.closePipe d state) := by
  rw [Waits.closePipe]
  split_ifs
  · exact h
  · rw [Sound, Waits.wakeDispatcher, waitingDispatchers_foldl_wakeDispatcher]
    refine Inv.wakePipe h _ ?_ (fun _ _ => rfl) fun _ hsignals => absurd hsignals List.not_mem_nil
    rw [List.length_nil, List.length_map, Nat.zero_add]

/-! ## `GetReadyDispatchers` -/

/-- What the loop over the dispatchers that were returned the last time does: those that are
    closed or in transit leave the map, and all others have a place. -/
structure Requeued (s s' : Waits D) : Prop where
  sound : Sound s'
  processed : s'.waitSet.processedDispatchers = s.waitSet.processedDispatchers
  available : ∀ d, ((s'.pipes d).isClosed || (s'.pipes d).inTransit) =
    ((s.pipes d).isClosed || (s.pipes d).inTransit)
  waiting : ∀ d, s'.waitSet.Waiting d → s.waitSet.Waiting d
  lookup : ∀ d state, s.waitSet.waitingDispatchers.lookup d = some state →
    s'.waitSet.waitingDispatchers.lookup d = some state ∨
      ((s.pipes d).isClosed || (s.pipes d).inTransit) = true

/-- A dispatcher that is pending leaves the map. -/
theorem Inv.eraseWaiting (h : Inv s.waitSet.waitingDispatchers s (d :: pending))
    (hd : s.waitSet.Waiting d) : Inv (s.waitSet.eraseWaiting d).waitingDispatchers
      { s with waitSet := s.waitSet.eraseWaiting d } pending := by
  refine h.erase d ?_ (fun d' hne => ?_) fun _ _ => rfl
  · have hone := h.one d
    rw [List.count_cons_self, if_pos (show d ∈ s.waitSet.waitingDispatchers from hd)] at hone
    change s.places d + _ = 0
    omega
  · rw [List.count_cons_of_ne (Ne.symm hne)]
    rfl

theorem requeue_spec (updates : D → Option HandleSignalsState) (pending : List D)
    (h : Inv s.waitSet.waitingDispatchers s pending) :
    ∃ s', requeue updates pending s = some s' ∧ Requeued s s' := by
  induction pending generalizing s with
  | nil => exact ⟨s, rfl, h, rfl, fun _ => rfl, fun _ hd => hd, fun _ _ hd => .inl hd⟩
  | cons d pending ih =>
    have hone := h.one d
    rw [List.count_cons_self] at hone
    -- The lookup finds the dispatcher, as it was in the queue.
    have hd : d ∈ s.waitSet.waitingDispatchers := not_not.1 fun hnot => by
      rw [if_neg hnot] at hone
      omega
    obtain ⟨state, hstate⟩ := WaitSetDispatcher.waiting_iff.1 hd
    simp only [requeue, hstate]
    split_ifs with hinvalid
    · -- A dispatcher that is closed or in transit is dropped from the wait set.
      have hclosed : ((s.pipes d).isClosed || (s.pipes d).inTransit) = true := by
        rcases s.addAwakable_cases d state.signals (updates d) with ⟨hclosed, -⟩ | ⟨-, heq⟩
        · exact hclosed
        · rcases heq with heq | heq | ⟨-, heq⟩ <;> rw [heq] at hinvalid <;> cases hinvalid
      obtain ⟨s', hs', hrequeued⟩ := ih (s := { s with waitSet := s.waitSet.eraseWaiting d })
        (h.eraseWaiting hd)
      refine ⟨s', hs', hrequeued.sound, hrequeued.processed, hrequeued.available, fun d' hd' => ?_,
        fun d' state' hstate' => ?_⟩
      · exact ((WaitSetDispatcher.waiting_eraseWaiting _ _ _).1 (hrequeued.waiting d' hd')).2
      · by_cases hne : d' = d
        · exact .inr (hne ▸ hclosed)
        · exact hrequeued.lookup d' state' ((AList.lookup_erase_ne hne).trans hstate')
    · -- Any other is registered again, or gets into the queue.
      obtain ⟨hinv, hkept⟩ := h.register hstate hinvalid
      rw [← hkept.waiting] at hinv
      obtain ⟨s', hs', hrequeued⟩ := ih hinv
      refine ⟨s', hs', hrequeued.sound, hrequeued.processed.trans hkept.processed,
        fun d' => (hrequeued.available d').trans (hkept.available d'), fun d' hd' => ?_,
        fun d' state' hstate' => ?_⟩
      · have hwaiting := hrequeued.waiting d' hd'
        rwa [WaitSetDispatcher.Waiting, hkept.waiting] at hwaiting
      · rw [← hkept.available]
        exact hrequeued.lookup d' state' (by rw [hkept.waiting]; exact hstate')

/-- The dispatchers that were returned the last time are pending. -/
theorem Sound.takeProcessed (h : Sound s) : Inv s.waitSet.waitingDispatchers
    { s with waitSet := { s.waitSet with processedDispatchers := [] } }
    s.waitSet.processedDispatchers := by
  refine ⟨fun d => ?_, h.registered⟩
  rw [← h.one d]
  simp only [places, WaitSetDispatcher.queued, List.count_nil]
  omega

/-- What `GetReadyDispatchers` does: it requeues, and takes dispatchers from the queue. -/
theorem getReadyDispatchers_spec (h : Sound s) (count : ℕ)
    (updates : D → Option HandleSignalsState) :
    ∃ s₁ ready waitSet, s.getReadyDispatchers count updates =
        some (ready, { s₁ with waitSet := waitSet }) ∧
      requeue updates s.waitSet.processedDispatchers
        { s with waitSet := { s.waitSet with processedDispatchers := [] } } = some s₁ ∧
      Requeued { s with waitSet := { s.waitSet with processedDispatchers := [] } } s₁ ∧
      s₁.waitSet.popAwoken count = some (ready, waitSet) ∧
      ready.map (·.1) = (s₁.waitSet.awokenQueue.take count).map (·.1) ∧
      waitSet.awokenQueue = s₁.waitSet.awokenQueue.drop count ∧
      Sound { s₁ with waitSet := waitSet } := by
  obtain ⟨s₁, hs₁, hrequeued⟩ := requeue_spec updates s.waitSet.processedDispatchers
    (s := { s with waitSet := { s.waitSet with processedDispatchers := [] } }) h.takeProcessed
  have hone (d : D) : s₁.waitSet.queued d ≤ 1 := by
    have := hrequeued.sound.one d
    rw [places] at this
    split_ifs at this <;> omega
  have hwaiting (d : D) (hd : 0 < s₁.waitSet.queued d) : s₁.waitSet.Waiting d :=
    not_not.1 fun hnot => by
      rw [(hrequeued.sound.places_eq_zero hnot).2.1] at hd
      cases hd
  obtain ⟨ready, waitSet, hpop, hready, hpopped⟩ :=
    WaitSetDispatcher.popAwoken_spec count s₁.waitSet (fun d _ => hone d)
      (fun d hd => hwaiting d (WaitSetDispatcher.queued_pos_of_mem_take hd))
  -- What left the map was taken from the queue, and has no other place.
  have hgone (d : D) (hd : s₁.waitSet.Waiting d) (hd' : ¬waitSet.Waiting d) :
      (s₁.pipes d).registered.length = 0 ∧ waitSet.queued d = 0 := by
    obtain ⟨-, hzero, hcount⟩ := hpopped.erased d hd hd'
    have hone := hrequeued.sound.one d
    rw [places] at hone
    split_ifs at hone <;> exact ⟨by omega, hzero⟩
  refine ⟨s₁, ready, waitSet, ?_, hs₁, hrequeued, hpop, hready, hpopped.awokenQueue,
    fun d => ?_, fun d signals hsignals => ?_⟩
  · rw [getReadyDispatchers, hs₁]
    simp [hpop]
  · change (s₁.pipes d).registered.length + waitSet.queued d + 0 =
      if waitSet.Waiting d then 1 else 0
    by_cases hd : s₁.waitSet.Waiting d ∧ ¬waitSet.Waiting d
    · rw [(hgone d hd.1 hd.2).1, (hgone d hd.1 hd.2).2, if_neg hd.2]
    · rw [hpopped.queued d (by tauto)]
      refine (hrequeued.sound.one d).trans (if_congr ?_ rfl rfl)
      exact ⟨fun hmem => not_not.1 fun hnot => hd ⟨hmem, hnot⟩, hpopped.waiting⟩
  · have hentry := hrequeued.sound.registered d signals hsignals
    refine ⟨?_, hentry.2⟩
    obtain ⟨state, hstate, hsignals'⟩ := hentry.1
    have hd : waitSet.Waiting d := not_not.1 fun hnot => by
      have hzero := (hgone d (WaitSetDispatcher.waiting_iff.2 ⟨state, hstate⟩) hnot).1
      exact absurd (List.length_pos_of_mem hsignals) (by rw [hzero]; exact Nat.lt_irrefl 0)
    obtain ⟨state', hstate'⟩ := WaitSetDispatcher.waiting_iff.1 hd
    obtain rfl := Option.some.inj (hstate.symm.trans (hpopped.lookup d state' hstate'))
    exact ⟨state, hstate', hsignals'⟩

/-! ### What is in the queue -/

theorem Sound.nodup_awokenQueue (h : Sound s) : (s.waitSet.awokenQueue.map (·.1)).Nodup :=
  List.nodup_iff_count_le_one.2 fun d => by
    have hone := h.one d
    rw [places, WaitSetDispatcher.queued] at hone
    split_ifs at hone <;> omega

/-- The queue is not longer than the map is large. -/
theorem Sound.take_awokenQueue (h : Sound s) {count : ℕ}
    (hcount : s.waitSet.waitingDispatchers.keys.length ≤ count) :
    s.waitSet.awokenQueue.take count = s.waitSet.awokenQueue := by
  refine List.take_of_length_le (le_trans ?_ hcount)
  rw [← List.length_map (·.1)]
  refine (List.subperm_of_subset h.nodup_awokenQueue fun d hd => ?_).length_le
  refine not_not.1 fun hnot => ?_
  have hzero := (h.places_eq_zero hnot).2.1
  rw [WaitSetDispatcher.queued, Nat.add_eq_zero_iff, List.count_eq_zero] at hzero
  exact hzero.1 hd

/-- A dispatcher whose signals are satisfied is not registered, so it is in the queue if
    nothing is in the other one. -/
theorem Sound.mem_awokenQueue (h : Sound s) (hprocessed : s.waitSet.processedDispatchers = [])
    {state : WaitState} (hstate : s.waitSet.waitingDispatchers.lookup d = some state)
    (hsatisfied : (s.pipes d).signalsState.Satisfies state.signals) :
    d ∈ s.waitSet.awokenQueue.map (·.1) := by
  have hstate' : (s.pipes d).state.Satisfies state.signals := by
    rw [PipeEnd.signalsState] at hsatisfied
    split_ifs at hsatisfied
    · exact absurd hsatisfied (HandleSignalsState.not_satisfies_empty _)
    · exact hsatisfied
  -- An entry in the list is not satisfied, so that the dispatcher is in the queue.
  have hregistered : (s.pipes d).registered = [] :=
    List.eq_nil_iff_forall_not_mem.2 fun signals hsignals => by
      obtain ⟨⟨state', hlookup, rfl⟩, hnot⟩ := h.registered d signals hsignals
      obtain rfl := Option.some.inj (hstate.symm.trans hlookup)
      exact hnot hstate'
  have hmem : d ∈ s.waitSet.waitingDispatchers := WaitSetDispatcher.waiting_iff.2 ⟨state, hstate⟩
  have hone := h.one d
  rw [places, WaitSetDispatcher.queued, hprocessed, hregistered, if_pos hmem] at hone
  refine List.count_pos_iff.1 ?_
  simp only [List.length_nil, List.count_nil] at hone
  omega

theorem Sound.step (h : Sound s) {i : Input D} (hstep : s.step i = some s') : Sound s' := by
  cases i with
  | add d state update =>
    cases hstep
    exact h.addWaitingDispatcher d state update
  | remove d =>
    cases hstep
    exact h.removeWaitingDispatcher d
  | getReady count updates =>
    obtain ⟨s₁, ready, waitSet, heq, -, -, -, -, -, hsound⟩ :=
      getReadyDispatchers_spec h count updates
    rw [Waits.step, heq] at hstep
    cases hstep
    exact hsound
  | close =>
    cases hstep
    exact h.close
  | changeState d state =>
    cases hstep
    exact h.changeState d state
  | lessen d state =>
    rw [Waits.step] at hstep
    -- A change that is not announced satisfies no entry.
    split_ifs at hstep with hless
    cases hstep
    exact Inv.setPipe h rfl fun _ => hless.satisfies
  | closePipe d state =>
    cases hstep
    exact h.closePipe d state
  | beginTransit d =>
    cases hstep
    exact Inv.setPipe h rfl fun _ => id
  | cancelTransit d update =>
    have hcancel : Sound (s.setPipe d { s.pipes d with inTransit := false }) :=
      Inv.setPipe h rfl fun _ => id
    cases hstep
    cases update with
    | none => exact hcancel
    | some state => exact hcancel.changeState d state
  | completeTransitAndClose d state =>
    cases hstep
    have hcancel : Sound (s.setPipe d { s.pipes d with inTransit := false }) :=
      Inv.setPipe h rfl fun _ => id
    exact hcancel.closePipe d state

/-- In every state that is reached, each dispatcher that is waited for is in one place, and
    every id in the queues is in the map. `GetReadyDispatchers`, with a count that is not less
    than the number of dispatchers that are waited for, returns each of those whose signals are
    satisfied, and none of them twice. -/
theorem partition_and_complete {states : D → HandleSignalsState}
    (hs : (machine states).Reachable Machine.Any s) :
    (∀ d, s.waitSet.Waiting d → (s.pipes d).registered.length +
      (s.waitSet.awokenQueue.map (·.1)).count d + s.waitSet.processedDispatchers.count d = 1) ∧
    (∀ d, d ∈ s.waitSet.awokenQueue.map (·.1) ∨ d ∈ s.waitSet.processedDispatchers →
      s.waitSet.Waiting d) ∧
    ∀ count updates, s.waitSet.waitingDispatchers.keys.length ≤ count →
      ∃ ready s', s.getReadyDispatchers count updates = some (ready, s') ∧
        (ready.map (·.1)).Nodup ∧
        ∀ d state, s.waitSet.waitingDispatchers.lookup d = some state →
          (s'.pipes d).signalsState.Satisfies state.signals → d ∈ ready.map (·.1) := by
  have hsound : Sound s := hs.invariant (sound_init states) fun h _ hstep => h.step hstep
  have hone (d : D) (hd : s.waitSet.Waiting d) : (s.pipes d).registered.length +
      (s.waitSet.awokenQueue.map (·.1)).count d + s.waitSet.processedDispatchers.count d = 1 := by
    have hone := hsound.one d
    rw [places, WaitSetDispatcher.queued] at hone
    exact (Nat.add_assoc ..).trans (hone.trans (if_pos hd))
  -- A dispatcher that is not waiting is in no place.
  have hknown (d : D) (hd : d ∈ s.waitSet.awokenQueue.map (·.1) ∨
      d ∈ s.waitSet.processedDispatchers) : s.waitSet.Waiting d := not_not.1 fun hnot => by
    have hzero := (hsound.places_eq_zero hnot).2.1
    rw [WaitSetDispatcher.queued, Nat.add_eq_zero_iff, List.count_eq_zero,
      List.count_eq_zero] at hzero
    exact hd.elim hzero.1 hzero.2
  refine ⟨hone, hknown, fun count updates hcount => ?_⟩
  obtain ⟨s₁, ready, waitSet, heq, -, hrequeued, -, hready, -, -⟩ :=
    getReadyDispatchers_spec hsound count updates
  have hwaiting : s₁.waitSet.waitingDispatchers.keys.length ≤
      s.waitSet.waitingDispatchers.keys.length :=
    (List.subperm_of_subset (AList.keys_nodup _) hrequeued.waiting).length_le
  rw [hrequeued.sound.take_awokenQueue (hwaiting.trans hcount)] at hready
  refine ⟨ready, _, heq, hready ▸ hrequeued.sound.nodup_awokenQueue, fun d state hstate hd => ?_⟩
  rw [hready]
  refine hrequeued.sound.mem_awokenQueue hrequeued.processed ?_ hd
  -- A dispatcher that was dropped has no signals.
  refine (hrequeued.lookup d state hstate).resolve_right fun hclosed => ?_
  rw [PipeEnd.signalsState, hrequeued.available, hclosed, if_pos rfl] at hd
  exact HandleSignalsState.not_satisfies_empty _ hd

/-- A dispatcher was returned and is readable still, and another one becomes readable: both
    are returned. -/
theorem partition_and_complete_two : ∃ s : Waits ℕ,
    (machine fun _ => ⟨0, MOJO_HANDLE_SIGNAL_READABLE⟩).Reachable Machine.Any s ∧
      (∀ d, s.waitSet.Waiting d → (s.pipes d).registered.length +
        (s.waitSet.awokenQueue.map (·.1)).count d + s.waitSet.processedDispatchers.count d = 1) ∧
      ∃ ready s', s.getReadyDispatchers 2 (fun _ => none) = some (ready, s') ∧
        (ready.map (·.1)).Nodup ∧ 1 ∈ ready.map (·.1) ∧ 2 ∈ ready.map (·.1) := by
  obtain ⟨s, hs, ⟨hone, htwo⟩, hsize, hreadable⟩ := Machine.exists_reachable
    (M := machine fun _ : ℕ => ⟨0, MOJO_HANDLE_SIGNAL_READABLE⟩) (G := Machine.Any)
    (P := fun s => (s.waitSet.waitingDispatchers.lookup 1 = some ⟨1, 10⟩ ∧
      s.waitSet.waitingDispatchers.lookup 2 = some ⟨1, 20⟩) ∧
      s.waitSet.waitingDispatchers.keys.length ≤ 2 ∧
      (s.getReadyDispatchers 2 (fun _ => none)).any fun r =>
        (r.2.pipes 1).signalsState.Satisfies 1 ∧ (r.2.pipes 2).signalsState.Satisfies 1)
    [.add 1 ⟨1, 10⟩ none, .add 2 ⟨1, 20⟩ none, .changeState 1 ⟨1, 1⟩, .getReady 5 fun _ => none,
      .changeState 2 ⟨1, 1⟩] (by decide)
  obtain ⟨hplaces, -, hcomplete⟩ := partition_and_complete hs
  obtain ⟨ready, s', heq, hnodup, hmem⟩ := hcomplete 2 (fun _ => none) hsize
  rw [heq] at hreadable
  obtain ⟨hone', htwo'⟩ := of_decide_eq_true hreadable
  exact ⟨s, hs, hplaces, ready, s', heq, hnodup, hmem 1 _ hone hone', hmem 2 _ htwo htwo'⟩

end Waits

end MojoEdk.WaitSet
