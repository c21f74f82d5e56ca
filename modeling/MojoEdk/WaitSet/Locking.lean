import MojoEdk.Library.Machine
import MojoEdk.WaitSet.Dispatcher

/-!
# Wait sets and their locks

The operations on a wait set as sequences of sections, which run under `lock_` or under
`awoken_lock_`, interleaved in any way with each other and with wake-ups. The map of
dispatchers is guarded by `lock_`, and the queues by `awoken_lock_`.
`GetReadyDispatchers` has `lock_` from its start to its end, and takes the ids to look up
from the queues. `RemoveWaitingDispatcher` and `Close` release `lock_` when the ids are
not in the map any more, before they erase them from the queues. In between, the ids are
stale (`Stale`).

As long as no stale id is taken from the queues, every lookup finds its id in the map
(`not_missed`).
-/

namespace MojoEdk.WaitSet

variable {D : Type*} [DecidableEq D]

/-! ## Threads -/

/-- The operation that has `lock_` between two of its sections. -/
inductive Holder (D : Type*)
  | nobody
  | adding (d : D) (state : WaitState)
  | gettingReady (pending : List D) (count : ℕ)
  deriving DecidableEq

/-- How far `Close` has come: it has not been called, it has set `is_closed_`, it has
    cleared the map, it has returned. -/
inductive Closing
  | no
  | begun
  | cleared
  | done
  deriving DecidableEq

/-- A wait set, the lists of awakables of dispatchers, and the operations in progress. -/
structure Threads (D : Type*) where
  waitSet : WaitSetDispatcher D := {}
  registered : D → ℕ := fun _ => 0
  holder : Holder D := .nobody
  removing : List D := []
  closing : Closing := .no
  missed : Bool := false

/-- The sections, and what `AddAwakable` returns in them. -/
inductive Section (D : Type*)
  | wake (d : D) (result : Result)
  | add (d : D) (state : WaitState) (result : Result)
  | insert
  | remove (d : D)
  | eraseQueued (d : D)
  | close
  | clearWaiting
  | clearQueued
  | getReady (count : ℕ)
  | requeue (result : Result)
  | pop
  deriving DecidableEq

namespace Threads

variable {s s' : Threads D} {d : D}

/-- The ids that `GetReadyDispatchers` has taken and not looked up yet. -/
def pending (s : Threads D) : List D :=
  match s.holder with
  | .gettingReady pending _ => pending
  | _ => []

/-- The awakable is added to the list of a dispatcher, or the dispatcher is awoken. -/
def registerOrWake (s : Threads D) (d : D) (result : Result) : Threads D :=
  if result = .ok then
    { s with registered := Function.update s.registered d (s.registered d + 1) }
  else { s with waitSet := s.waitSet.wakeDispatcher result d }

/-- A section. It is possible only if nobody else has the lock. -/
def step (s : Threads D) : Section D → Option (Threads D)
  -- A dispatcher calls `Awake`, and removes the awakable from its list.
  | .wake d result =>
    if 0 < s.registered d then
      some { s with
        waitSet := s.waitSet.wakeDispatcher result d
        registered := Function.update s.registered d (s.registered d - 1) }
    else none
  -- `AddWaitingDispatcher` up to the point where the dispatcher is inserted.
  | .add d state result =>
    if s.holder = .nobody then
      if s.waitSet.isClosed ∨ s.waitSet.Waiting d ∨ result = .invalidArgument then some s
      else some { s.registerOrWake d result with holder := .adding d state }
    else none
  | .insert =>
    match s.holder with
    | .adding d state =>
      some { s with waitSet := s.waitSet.insertWaiting d state, holder := .nobody }
    | _ => none
  -- `RemoveWaitingDispatcher`.
  | .remove d =>
    if s.holder = .nobody then
      if s.waitSet.Waiting d then
        some { s with
          waitSet := s.waitSet.eraseWaiting d
          registered := Function.update s.registered d 0
          removing := d :: s.removing }
      else some s
    else none
  | .eraseQueued d =>
    if d ∈ s.removing then
      some { s with waitSet := s.waitSet.eraseQueued d, removing := s.removing.erase d }
    else none
  -- `Close`.
  | .close =>
    if s.holder = .nobody then
      if s.waitSet.isClosed then some s
      else some { s with waitSet := { s.waitSet with isClosed := true }, closing := .begun }
    else none
  | .clearWaiting =>
    if s.holder = .nobody ∧ s.closing = .begun then
      some { s with
        waitSet := s.waitSet.clearWaiting
        registered := fun d => if s.waitSet.Waiting d then 0 else s.registered d
        closing := .cleared }
    else none
  | .clearQueued =>
    if s.closing = .cleared then
      some { s with waitSet := s.waitSet.clearQueued, closing := .done }
    else none
  -- `GetReadyDispatchers`: the dispatchers that were returned the last time are taken.
  | .getReady count =>
    if s.holder = .nobody then
      some { s with
        waitSet := { s.waitSet with processedDispatchers := [] }
        holder := .gettingReady s.waitSet.processedDispatchers count }
    else none
  -- Each of them is registered again.
  | .requeue result =>
    match s.holder with
    | .gettingReady (d :: pending) count =>
      if s.waitSet.Waiting d then
        if result = .invalidArgument then
          some { s with waitSet := s.waitSet.eraseWaiting d, holder := .gettingReady pending count }
        else some { s.registerOrWake d result with holder := .gettingReady pending count }
      else some { s with holder := .nobody, missed := true }
    | _ => none
  -- The dispatchers that are ready are taken from the queue.
  | .pop =>
    match s.holder with
    | .gettingReady [] count =>
      match s.waitSet.popAwoken count with
      | some (_, waitSet) => some { s with waitSet := waitSet, holder := .nobody }
      | none => some { s with holder := .nobody, missed := true }
    | _ => none

def machine (D : Type*) [DecidableEq D] : Machine (Threads D) (Section D) where
  init := {}
  step := step

/-! ## Stale ids -/

/-- The id is not in the map any more, and may still be in the queues. -/
def Stale (s : Threads D) (d : D) : Prop := d ∈ s.removing ∨ s.closing = .cleared

instance : DecidablePred s.Stale := fun _ => inferInstanceAs (Decidable (_ ∨ _))

/-- The ids that a section takes from the queues. -/
def taken (s : Threads D) : Section D → List D
  | .getReady _ => s.waitSet.processedDispatchers
  | .pop =>
    match s.holder with
    | .gettingReady _ count => (s.waitSet.awokenQueue.take count).map (·.1)
    | _ => []
  | _ => []

/-- No stale id is taken from the queues. -/
def Fresh (s : Threads D) (i : Section D) : Prop := ∀ d ∈ s.taken i, ¬s.Stale d

instance (s : Threads D) (i : Section D) : Decidable (s.Fresh i) :=
  inferInstanceAs (Decidable (∀ d ∈ s.taken i, ¬s.Stale d))

/-! ## Invariant -/

/-- How often a dispatcher is registered, queued, or taken to be registered again. -/
def places (s : Threads D) (d : D) : ℕ := s.registered d + s.waitSet.queued d + s.pending.count d

/-- The dispatcher is in the map, or will be as soon as `lock_` is released. -/
def Known (s : Threads D) (d : D) : Prop :=
  s.waitSet.Waiting d ∨ ∃ state, s.holder = .adding d state

/-- A dispatcher whose id is not stale has one place at most, and if so, it is known. A
    dispatcher that is registered is known in any case. -/
structure Inv (s : Threads D) : Prop where
  one : ∀ d, ¬s.Stale d → s.places d ≤ 1
  known : ∀ d, ¬s.Stale d → 0 < s.places d → s.Known d
  registered_le : ∀ d, s.registered d ≤ 1
  registered_known : ∀ d, 0 < s.registered d → s.Known d
  pending : ∀ d ∈ s.pending, ¬s.Stale d
  closed : s.closing ≠ .no → s.waitSet.isClosed = true
  cleared : s.closing = .cleared → ∀ d, ¬s.Known d
  missed : s.missed = false

omit [DecidableEq D] in
/-- Nobody is being added: a dispatcher is known if it waits. -/
theorem known_iff (hholder : ∀ d state, s.holder ≠ .adding d state) :
    s.Known d ↔ s.waitSet.Waiting d :=
  ⟨fun h => h.resolve_right fun ⟨state, hs⟩ => hholder d state hs, .inl⟩

omit [DecidableEq D] in
theorem known_iff_of_nobody (h : s.holder = .nobody) : s.Known d ↔ s.waitSet.Waiting d :=
  known_iff (by rw [h]; exact fun _ _ => nofun)

omit [DecidableEq D] in
theorem known_iff_of_gettingReady {pending : List D} {count : ℕ}
    (h : s.holder = .gettingReady pending count) : s.Known d ↔ s.waitSet.Waiting d :=
  known_iff (by rw [h]; exact fun _ _ => nofun)

omit [DecidableEq D] in
theorem notMem_pending_of_nobody (h : s.holder = .nobody) : d ∉ s.pending := by
  rw [pending, h]
  exact List.not_mem_nil

/-- A dispatcher is registered, or woken, but not both. -/
theorem places_registerOrWake (s : Threads D) (d d' : D) (result : Result) :
    (s.registerOrWake d result).registered d' + (s.registerOrWake d result).waitSet.queued d' =
      s.registered d' + s.waitSet.queued d' + if d = d' then 1 else 0 := by
  unfold registerOrWake
  split_ifs with hok hd hd
  · subst hd
    simp only [Function.update_self]
    omega
  · simp only [Function.update_of_ne (Ne.symm hd), Nat.add_zero]
  · rw [WaitSetDispatcher.queued_wakeDispatcher, if_pos hd]
    rfl
  · rw [WaitSetDispatcher.queued_wakeDispatcher, if_neg hd]
    rfl

/-- A dispatcher is registered once more at most. -/
theorem registered_registerOrWake_le (s : Threads D) (d d' : D) (result : Result) :
    (s.registerOrWake d result).registered d' ≤ s.registered d' + if d = d' then 1 else 0 := by
  unfold registerOrWake
  split_ifs with hok hd hd
  · subst hd
    simp only [Function.update_self, le_refl]
  · simp only [Function.update_of_ne (Ne.symm hd), Nat.add_zero, le_refl]
  · exact Nat.le_succ _
  · exact le_rfl

/-- Nothing waits in a new wait set. -/
theorem Inv.init : Inv ({} : Threads D) where
  one _ _ := Nat.zero_le _
  known _ _ h := absurd h (Nat.lt_irrefl 0)
  registered_le _ := Nat.zero_le _
  registered_known _ h := absurd h (Nat.lt_irrefl 0)
  pending _ h := by cases h
  closed h := absurd rfl h
  cleared h := by cases h
  missed := rfl

/-- A section that adds no place, and makes no id fresh. -/
theorem Inv.mono (h : Inv s) (hstale : ∀ d, ¬s'.Stale d → ¬s.Stale d)
    (hplaces : ∀ d, ¬s'.Stale d → s'.places d ≤ s.places d)
    (hregistered : ∀ d, s'.registered d ≤ s.registered d)
    (hknown : ∀ d, s.Known d → (¬s'.Stale d ∧ 0 < s'.places d) ∨ 0 < s'.registered d → s'.Known d)
    (hpending : ∀ d ∈ s'.pending, ¬s'.Stale d)
    (hclosed : s'.closing ≠ .no → s'.waitSet.isClosed = true)
    (hcleared : s'.closing = .cleared → ∀ d, ¬s'.Known d) (hmissed : s'.missed = s.missed) :
    Inv s' where
  one d hd := (hplaces d hd).trans (h.one d (hstale d hd))
  known d hd hpos :=
    hknown d (h.known d (hstale d hd) (hpos.trans_le (hplaces d hd))) (.inl ⟨hd, hpos⟩)
  registered_le d := (hregistered d).trans (h.registered_le d)
  registered_known d hpos :=
    hknown d (h.registered_known d (hpos.trans_le (hregistered d))) (.inr hpos)
  pending := hpending
  closed := hclosed
  cleared := hcleared
  missed := hmissed.trans h.missed

/-! ## Sections -/

/-- A registered dispatcher is woken. -/
theorem Inv.wake (h : Inv s) (hd : 0 < s.registered d) (result : Result) :
    Inv { s with
      waitSet := s.waitSet.wakeDispatcher result d
      registered := Function.update s.registered d (s.registered d - 1) } := by
  refine h.mono (fun _ hs => hs) (fun d' _ => ?_) (fun d' => ?_) (fun _ hk _ => hk) h.pending
    h.closed h.cleared rfl
  · change Function.update s.registered d (s.registered d - 1) d' +
      (s.waitSet.wakeDispatcher result d).queued d' + s.pending.count d' ≤ s.places d'
    rw [WaitSetDispatcher.queued_wakeDispatcher, Function.update_apply, places]
    split_ifs with heq heq' heq'
    · subst heq
      omega
    · exact absurd heq.symm heq'
    · exact absurd heq'.symm heq
    · rfl
  · change Function.update s.registered d (s.registered d - 1) d' ≤ s.registered d'
    rw [Function.update_apply]
    split_ifs with heq
    · exact heq ▸ Nat.sub_le ..
    · exact le_rfl

/-- Only the list of awakables of a dispatcher and the queue change. -/
theorem registerOrWake_frame (s : Threads D) (d : D) (result : Result) :
    (s.registerOrWake d result).removing = s.removing ∧
    (s.registerOrWake d result).closing = s.closing ∧
    (s.registerOrWake d result).missed = s.missed ∧
    (s.registerOrWake d result).waitSet.isClosed = s.waitSet.isClosed ∧
    (s.registerOrWake d result).waitSet.waitingDispatchers = s.waitSet.waitingDispatchers := by
  unfold registerOrWake
  split_ifs <;> exact ⟨rfl, rfl, rfl, rfl, rfl⟩

/-- A dispatcher that is not registered, and has no other place after this, is registered
    or awoken by the operation that has `lock_`. -/
theorem Inv.register (h : Inv s) (result : Result) {holder : Holder D}
    (hfree : s.registered d = 0)
    (hone : ∀ d', ¬s.Stale d' → s.registered d' + s.waitSet.queued d' +
      (if d = d' then 1 else 0) + (Threads.pending { s with holder := holder }).count d' ≤ 1)
    (hpending : ∀ d' ∈ Threads.pending { s with holder := holder }, d' ∈ s.pending)
    (hknown : ∀ d', d' = d ∨ s.Known d' → Known { s with holder := holder } d')
    (hcleared : s.closing ≠ .cleared) :
    Inv { s.registerOrWake d result with holder := holder } := by
  obtain ⟨hremoving, hclosing, hmissed, hisClosed, hmap⟩ := registerOrWake_frame s d result
  have hstale (d' : D) : Stale { s.registerOrWake d result with holder := holder } d' ↔
      s.Stale d' := by
    simp only [Stale, hremoving, hclosing]
  have hknown' (d' : D) (hk : d' = d ∨ s.Known d') :
      Known { s.registerOrWake d result with holder := holder } d' := by
    simpa only [Known, WaitSetDispatcher.Waiting, hmap] using hknown d' hk
  have hplaces (d' : D) : places { s.registerOrWake d result with holder := holder } d' =
      s.registered d' + s.waitSet.queued d' + (if d = d' then 1 else 0) +
        (Threads.pending { s with holder := holder }).count d' := by
    rw [← places_registerOrWake]
    rfl
  have hle (d' : D) := registered_registerOrWake_le s d d' result
  refine
    { one := fun d' hs => (hplaces d').trans_le (hone d' (mt (hstale d').2 hs))
      known := fun d' hs hpos => hknown' d' ?_
      registered_le := fun d' => (hle d').trans ?_
      registered_known := fun d' hpos => hknown' d' ?_
      pending := fun d' hp hs => h.pending d' (hpending d' hp) ((hstale d').1 hs)
      closed := by simpa only [hclosing, hisClosed] using h.closed
      cleared := fun hc => absurd (hclosing.symm.trans hc) hcleared
      missed := hmissed.trans h.missed }
  · -- An id in one of the places is the one registered, or was in a place before.
    by_cases hd : d' = d
    · exact .inl hd
    · refine .inr (h.known d' (mt (hstale d').2 hs) ?_)
      rw [hplaces, if_neg (Ne.symm hd)] at hpos
      rw [places]
      by_cases hp : d' ∈ Threads.pending { s with holder := holder }
      · exact Nat.add_pos_right _ (List.count_pos_iff.2 (hpending d' hp))
      · rw [List.count_eq_zero.2 hp] at hpos
        omega
  · split_ifs with hd
    · rw [← hd, hfree]
    · exact h.registered_le d'
  · by_cases hd : d' = d
    · exact .inl hd
    · have hpos' := hpos.trans_le (hle d')
      rw [if_neg (Ne.symm hd)] at hpos'
      exact .inr (h.registered_known d' hpos')

/-- A dispatcher registers the wait set, or wakes it, before it is noted that it waits. -/
theorem Inv.add (h : Inv s) (hholder : s.holder = .nobody) (hclosed : ¬s.waitSet.isClosed = true)
    (hwaiting : ¬s.waitSet.Waiting d) (state : WaitState) (result : Result) :
    Inv { s.registerOrWake d result with holder := .adding d state } := by
  have hnot : ¬s.Known d := fun hk => hwaiting ((known_iff_of_nobody hholder).1 hk)
  have hpending (d' : D) : s.pending.count d' = 0 :=
    List.count_eq_zero.2 (notMem_pending_of_nobody hholder)
  refine h.register result ?_ (fun d' hs => ?_) (fun d' hp => by cases hp) (fun d' hk => ?_) ?_
  · exact Nat.eq_zero_of_not_pos fun hpos => hnot (h.registered_known d hpos)
  · change _ + 0 ≤ 1
    have hone := h.one d' hs
    have hknown := h.known d' hs
    rw [places, hpending] at hone hknown
    split_ifs with hd
    · subst hd
      -- The id is new to the wait set, so that it was in no place.
      have hzero := Nat.eq_zero_of_not_pos fun hpos => hnot (hknown hpos)
      omega
    · omega
  · rcases hk with rfl | hk
    · exact .inr ⟨state, rfl⟩
    · exact .inl ((known_iff_of_nobody hholder).1 hk)
  · exact fun hc => hclosed (h.closed (by rw [hc]; simp))

/-- It is noted that a dispatcher waits. -/
theorem Inv.insert (h : Inv s) {state : WaitState} (hholder : s.holder = .adding d state) :
    Inv { s with waitSet := s.waitSet.insertWaiting d state, holder := .nobody } := by
  have hknown (d' : D) : Known { s with
      waitSet := s.waitSet.insertWaiting d state, holder := .nobody } d' ↔ s.Known d' := by
    rw [known_iff_of_nobody rfl, WaitSetDispatcher.waiting_insertWaiting, Known, hholder, or_comm]
    simp only [Holder.adding.injEq, exists_and_left, exists_eq', and_true, eq_comm]
  refine h.mono (fun _ hs => hs) (fun d' _ => ?_) (fun d' => le_rfl) (fun d' hk _ => (hknown d').2 hk)
    (fun _ hp => by cases hp) h.closed (fun hc d' hk => h.cleared hc d' ((hknown d').1 hk)) rfl
  exact Nat.le_add_right (s.registered d' + s.waitSet.queued d') _

/-- A dispatcher does not wait any more, but is in the queues still. -/
theorem Inv.remove (h : Inv s) (hholder : s.holder = .nobody) :
    Inv { s with
      waitSet := s.waitSet.eraseWaiting d
      registered := Function.update s.registered d 0
      removing := d :: s.removing } := by
  have hle (d' : D) : Function.update s.registered d 0 d' ≤ s.registered d' := by
    rw [Function.update_apply]
    split_ifs
    · exact Nat.zero_le _
    · exact le_rfl
  refine h.mono (fun _ hs hs' => hs (hs'.imp_left (List.mem_cons_of_mem d)))
    (fun d' _ => Nat.add_le_add_right (Nat.add_le_add_right (hle d') _) _) hle
    (fun d' hk hd' => ?_) (fun _ hp => ?_) h.closed (fun hc d' hk => h.cleared hc d' ?_) rfl
  · -- The id that is removed is stale now, and the other ids stay in the map.
    have hne : d' ≠ d := by
      rintro rfl
      rcases hd' with hd' | hd'
      · exact hd'.1 (.inl List.mem_cons_self)
      · exact absurd hd' (by simp)
    exact .inl ((WaitSetDispatcher.waiting_eraseWaiting _ _ _).2
      ⟨hne, (known_iff_of_nobody hholder).1 hk⟩)
  · exact absurd hp (notMem_pending_of_nobody hholder)
  · exact .inl ((WaitSetDispatcher.waiting_eraseWaiting _ _ _).1
      ((known_iff_of_nobody (by exact hholder)).1 hk)).2

/-- A dispatcher that was removed is erased from the queues. -/
theorem Inv.eraseQueued (h : Inv s) (hd : d ∈ s.removing) :
    Inv { s with waitSet := s.waitSet.eraseQueued d, removing := s.removing.erase d } := by
  have hstale (d' : D) (hne : d' ≠ d) : Stale { s with
      waitSet := s.waitSet.eraseQueued d, removing := s.removing.erase d } d' ↔ s.Stale d' :=
    or_congr_left (List.mem_erase_of_ne hne)
  -- What was not taken because it was stale is not pending.
  have hpending : s.pending.count d = 0 := List.count_eq_zero.2 fun hp => h.pending d hp (.inl hd)
  have hplaces (d' : D) : places { s with
      waitSet := s.waitSet.eraseQueued d, removing := s.removing.erase d } d' =
        if d' = d then s.registered d' else s.places d' := by
    change s.registered d' + (s.waitSet.eraseQueued d).queued d' + s.pending.count d' = _
    split_ifs with hne
    · rw [hne, WaitSetDispatcher.queued_eraseQueued_self, hpending]
      rfl
    · rw [WaitSetDispatcher.queued_eraseQueued_of_ne _ hne, places]
  exact
    { one := fun d' hs => by
        rw [hplaces d']
        split_ifs with hne
        · exact h.registered_le d'
        · exact h.one d' (mt (hstale d' hne).2 hs)
      known := fun d' hs hpos => by
        rw [hplaces d'] at hpos
        split_ifs at hpos with hne
        · exact h.registered_known d' hpos
        · exact h.known d' (mt (hstale d' hne).2 hs) hpos
      registered_le := h.registered_le
      registered_known := h.registered_known
      pending := fun d' hp hs => h.pending d' hp (hs.imp_left List.mem_of_mem_erase)
      closed := h.closed
      cleared := h.cleared
      missed := h.missed }

/-- A wait set is closed, and nothing is added to it any more. -/
theorem Inv.close (h : Inv s) (hopen : ¬s.waitSet.isClosed = true) :
    Inv { s with waitSet := { s.waitSet with isClosed := true }, closing := .begun } := by
  have hno : s.closing = .no := not_not.1 fun hne => hopen (h.closed hne)
  have hstale (d : D) : Stale { s with
      waitSet := { s.waitSet with isClosed := true }, closing := .begun } d ↔ s.Stale d := by
    rw [Stale, Stale, hno]
    simp
  exact h.mono (fun d => mt (hstale d).2) (fun _ _ => le_rfl) (fun _ => le_rfl) (fun _ hk _ => hk)
    (fun d hp hs => h.pending d hp ((hstale d).1 hs)) (fun _ => rfl) (fun hc => by cases hc) rfl

/-- The dispatchers of a closed wait set do not wait any more. -/
theorem Inv.clearWaiting (h : Inv s) (hholder : s.holder = .nobody) (hbegun : s.closing = .begun) :
    Inv { s with
      waitSet := s.waitSet.clearWaiting
      registered := fun d => if s.waitSet.Waiting d then 0 else s.registered d
      closing := .cleared } := by
  -- Until the queues are cleared, every id in them is stale.
  refine h.mono (fun _ hs => absurd (.inr rfl) hs) (fun _ hs => absurd (.inr rfl) hs)
    (fun d => ?_) (fun d hk hd => ?_) (fun _ hp => ?_) (fun _ => ?_) (fun _ d hk => ?_) rfl
  · change (if s.waitSet.Waiting d then 0 else s.registered d) ≤ s.registered d
    split_ifs
    · exact Nat.zero_le _
    · exact le_rfl
  · rcases hd with hd | hd
    · exact absurd (.inr rfl) hd.1
    · change 0 < if s.waitSet.Waiting d then 0 else s.registered d at hd
      rw [if_pos ((known_iff_of_nobody hholder).1 hk)] at hd
      cases hd
  · exact absurd hp (notMem_pending_of_nobody hholder)
  · exact h.closed (by rw [hbegun]; nofun)
  · exact WaitSetDispatcher.not_waiting_clearWaiting _ d
      ((known_iff_of_nobody (by exact hholder)).1 hk)

/-- The queues of a closed wait set are emptied. -/
theorem Inv.clearQueued (h : Inv s) (hcleared : s.closing = .cleared) :
    Inv { s with waitSet := s.waitSet.clearQueued, closing := .done } := by
  -- After the map was cleared, no id is registered.
  have hregistered (d : D) : s.registered d = 0 :=
    Nat.eq_zero_of_not_pos fun hpos => h.cleared hcleared d (h.registered_known d hpos)
  have hpending : s.pending = [] :=
    List.eq_nil_iff_forall_not_mem.2 fun d hp => h.pending d hp (.inr hcleared)
  have hplaces (d : D) : places { s with
      waitSet := s.waitSet.clearQueued, closing := .done } d = 0 := by
    change s.registered d + 0 + s.pending.count d = 0
    rw [hregistered, hpending]
    rfl
  exact
    { one := fun d _ => by rw [hplaces d]; exact Nat.zero_le _
      known := fun d _ hpos => absurd hpos (by rw [hplaces d]; exact Nat.lt_irrefl 0)
      registered_le := h.registered_le
      registered_known := h.registered_known
      pending := fun d hp => absurd (hpending ▸ hp : d ∈ []) List.not_mem_nil
      closed := fun _ => h.closed (by rw [hcleared]; nofun)
      cleared := fun hc => by cases hc
      missed := h.missed }

/-- The processed dispatchers are to be looked at again. -/
theorem Inv.getReady (h : Inv s) (hholder : s.holder = .nobody) (count : ℕ)
    (hfresh : ∀ d ∈ s.waitSet.processedDispatchers, ¬s.Stale d) :
    Inv { s with
      waitSet := { s.waitSet with processedDispatchers := [] }
      holder := .gettingReady s.waitSet.processedDispatchers count } := by
  refine h.mono (fun _ hs => hs) (fun d _ => ?_) (fun d => le_rfl) (fun d hk _ => ?_) hfresh
    h.closed (fun hc d hk => h.cleared hc d ?_) rfl
  · change s.registered d + ((s.waitSet.awokenQueue.map (·.1)).count d + 0) +
      s.waitSet.processedDispatchers.count d ≤ s.places d
    simp only [places, WaitSetDispatcher.queued]
    omega
  · exact .inl ((known_iff_of_nobody hholder).1 hk)
  · rcases hk with hk | ⟨state, hk⟩
    · exact .inl hk
    · cases hk

section GettingReady

variable {pending : List D} {count : ℕ}

/-- A dispatcher that was taken to be registered again is found, and it has no other
    place. -/
theorem Inv.of_pending (h : Inv s) (hholder : s.holder = .gettingReady (d :: pending) count) :
    ¬s.Stale d ∧ s.waitSet.Waiting d ∧ s.registered d = 0 := by
  have hpending : s.pending = d :: pending := by rw [Threads.pending, hholder]
  have hstale : ¬s.Stale d := h.pending d (by rw [hpending]; exact List.mem_cons_self)
  have hone := h.one d hstale
  have hknown := h.known d hstale
  rw [places, hpending, List.count_cons_self] at hone hknown
  refine ⟨hstale, ?_, by omega⟩
  exact (known_iff_of_gettingReady hholder).1 (hknown (by omega))

/-- A dispatcher that is closed is woken for that. -/
theorem Inv.requeueInvalid (h : Inv s)
    (hholder : s.holder = .gettingReady (d :: pending) count) :
    Inv { s with
      waitSet := s.waitSet.eraseWaiting d
      holder := .gettingReady pending count } := by
  have hpending : s.pending = d :: pending := by rw [Threads.pending, hholder]
  obtain ⟨hstale, hwaiting, hfree⟩ := h.of_pending hholder
  have hknown (d' : D) : s.Known d' ↔ s.waitSet.Waiting d' := known_iff_of_gettingReady hholder
  have hplaces (d' : D) : s.registered d' + s.waitSet.queued d' + pending.count d' +
      (if d = d' then 1 else 0) = s.places d' := by
    rw [places, hpending, List.count_cons]
    simp only [beq_iff_eq]
    omega
  refine h.mono (fun _ hs => hs) (fun d' _ => ?_) (fun _ => le_rfl) (fun d' hk hd' => ?_)
    (fun d' hp => h.pending d' (by rw [hpending]; exact List.mem_cons_of_mem d hp))
    h.closed (fun hc => absurd (.inr hc) hstale) rfl
  · exact Nat.le.intro (hplaces d')
  · -- The dispatcher is closed: it was not registered, and has no place now.
    have hne : d' ≠ d := by
      rintro rfl
      have hone := h.one d' hstale
      rw [← hplaces, if_pos rfl] at hone
      rcases hd' with ⟨-, hpos⟩ | hpos
      · change 0 < s.registered d' + s.waitSet.queued d' + pending.count d' at hpos
        omega
      · exact absurd hpos (by rw [hfree]; exact Nat.lt_irrefl 0)
    exact .inl ((WaitSetDispatcher.waiting_eraseWaiting _ _ _).2 ⟨hne, (hknown d').1 hk⟩)

/-- A dispatcher that was processed is registered again, or woken. -/
theorem Inv.requeue (h : Inv s) (hholder : s.holder = .gettingReady (d :: pending) count)
    (result : Result) :
    Inv { s.registerOrWake d result with holder := .gettingReady pending count } := by
  have hpending : s.pending = d :: pending := by rw [Threads.pending, hholder]
  obtain ⟨hstale, hwaiting, hfree⟩ := h.of_pending hholder
  refine h.register result hfree (fun d' hs => ?_) (fun d' hp => ?_) (fun d' hk => ?_)
    fun hc => hstale (.inr hc)
  · have hone := h.one d' hs
    rw [places, hpending, List.count_cons] at hone
    simp only [beq_iff_eq] at hone
    change _ + pending.count d' ≤ 1
    omega
  · rw [hpending]
    exact List.mem_cons_of_mem d hp
  · rcases hk with rfl | hk
    · exact .inl hwaiting
    · exact .inl ((known_iff_of_gettingReady hholder).1 hk)

/-- The dispatchers at the front are popped: each has a state. -/
theorem Inv.pop (h : Inv s) (hholder : s.holder = .gettingReady [] count)
    (hfresh : ∀ d ∈ (s.waitSet.awokenQueue.take count).map (·.1), ¬s.Stale d) :
    ∃ ready waitSet, s.waitSet.popAwoken count = some (ready, waitSet) ∧
      Inv { s with waitSet := waitSet, holder := .nobody } := by
  have hknown (d' : D) : s.Known d' ↔ s.waitSet.Waiting d' := known_iff_of_gettingReady hholder
  have hpending : s.pending = [] := by rw [Threads.pending, hholder]
  have hplaces (d' : D) : s.places d' = s.registered d' + s.waitSet.queued d' := by
    rw [places, hpending]
    rfl
  obtain ⟨ready, w', hpop, -, hpopped⟩ :=
    WaitSetDispatcher.popAwoken_spec count s.waitSet
      (fun d' hd' => by
        have hone := h.one d' (hfresh d' hd')
        rw [hplaces] at hone
        omega)
      (fun d' hd' => by
        have hpos := WaitSetDispatcher.queued_pos_of_mem_take hd'
        exact (hknown d').1 (h.known d' (hfresh d' hd') (by rw [hplaces]; omega)))
  refine ⟨ready, w', hpop, h.mono (fun _ hs => hs) (fun d' hs => ?_) (fun _ => le_rfl)
    (fun d' hk hd' => ?_) (fun _ hp => absurd hp (notMem_pending_of_nobody rfl))
    (fun hc => hpopped.isClosed.trans (h.closed hc)) (fun hc d' hk => ?_) rfl⟩
  · change s.registered d' + w'.queued d' + 0 ≤ _
    rw [hplaces]
    exact Nat.add_le_add_left (hpopped.queued_le d') _
  · -- What is not waited for any more was taken, and has no other place.
    refine .inl (not_not.1 fun hnot => ?_)
    obtain ⟨htake, hzero, hcount⟩ := hpopped.erased d' ((hknown d').1 hk) hnot
    have hone := h.one d' (hfresh d' htake)
    rw [hplaces] at hone
    rcases hd' with ⟨-, hpos⟩ | hpos
    · change 0 < s.registered d' + w'.queued d' + 0 at hpos
      omega
    · change 0 < s.registered d' at hpos
      omega
  · exact h.cleared hc d' ((hknown d').2 (hpopped.waiting ((known_iff_of_nobody rfl).1 hk)))

end GettingReady

/-- Every section preserves the invariant, if it takes no stale id from the queues. -/
theorem Inv.step (h : Inv s) {i : Section D} (hfresh : s.Fresh i) (hstep : s.step i = some s') :
    Inv s' := by
  cases i with
  | wake d result =>
    rw [Threads.step] at hstep
    split_ifs at hstep with hd
    cases hstep
    exact h.wake hd result
  | add d state result =>
    rw [Threads.step] at hstep
    split_ifs at hstep with hholder hskip
    · cases hstep
      exact h
    · cases hstep
      obtain ⟨hclosed, hwaiting, -⟩ := by simpa only [not_or] using hskip
      exact h.add hholder hclosed hwaiting state result
  | insert =>
    rw [Threads.step] at hstep
    split at hstep
    next d state hholder =>
      cases hstep
      exact h.insert hholder
    next => cases hstep
  | remove d =>
    rw [Threads.step] at hstep
    split_ifs at hstep with hholder hwaiting
    · cases hstep
      exact h.remove hholder
    · cases hstep
      exact h
  | eraseQueued d =>
    rw [Threads.step] at hstep
    split_ifs at hstep with hd
    cases hstep
    exact h.eraseQueued hd
  | close =>
    rw [Threads.step] at hstep
    split_ifs at hstep with hholder hclosed
    · cases hstep
      exact h
    · cases hstep
      exact h.close hclosed
  | clearWaiting =>
    rw [Threads.step] at hstep
    split_ifs at hstep with hboth
    cases hstep
    exact h.clearWaiting hboth.1 hboth.2
  | clearQueued =>
    rw [Threads.step] at hstep
    split_ifs at hstep with hcleared
    cases hstep
    exact h.clearQueued hcleared
  | getReady count =>
    rw [Threads.step] at hstep
    split_ifs at hstep with hholder
    cases hstep
    exact h.getReady hholder count hfresh
  | requeue result =>
    rw [Threads.step] at hstep
    split at hstep
    next d pending count hholder =>
      -- The lookup finds the id: it was not stale when it was taken.
      rw [if_pos (h.of_pending hholder).2.1] at hstep
      split_ifs at hstep
      · cases hstep
        exact h.requeueInvalid hholder
      · cases hstep
        exact h.requeue hholder result
    next => cases hstep
  | pop =>
    rw [Threads.step] at hstep
    split at hstep
    next count hholder =>
      rw [Fresh, taken, hholder] at hfresh
      obtain ⟨ready, waitSet, hpop, hinv⟩ := h.pop hholder hfresh
      rw [hpop] at hstep
      cases hstep
      exact hinv
    next => cases hstep

/-- In any interleaving of the sections of any calls and wake-ups, as long as
    `GetReadyDispatchers` takes no stale id from the queues, it finds each id in the map. -/
theorem not_missed (hs : (machine D).Reachable Fresh s) : s.missed = false :=
  (hs.invariant Inv.init fun h hfresh hstep => h.step hfresh hstep).missed

/-- A dispatcher is added and awoken, returned and registered again, and removed. -/
theorem not_missed_removed : ∃ s : Threads ℕ, (machine ℕ).Reachable Fresh s ∧
    s.waitSet.Waiting 1 ∧ ¬s.waitSet.Waiting 2 ∧ s.missed = false := by
  obtain ⟨s, hs, hwaiting⟩ := Machine.exists_reachable (M := machine ℕ) (G := Fresh)
    (P := fun s => s.waitSet.Waiting 1 ∧ ¬s.waitSet.Waiting 2)
    [.add 1 ⟨1, 0⟩ .ok, .insert, .add 2 ⟨2, 0⟩ .alreadyExists, .insert, .wake 1 .ok, .getReady 5,
      .pop, .remove 2, .eraseQueued 2, .getReady 5, .requeue .alreadyExists, .pop]
    (by decide)
  exact ⟨s, hs, hwaiting.1, hwaiting.2, not_missed hs⟩

/-- A dispatcher that is in the queue is removed, and is looked up before it is erased
    from the queue. -/
theorem missed_removed : ∃ s : Threads ℕ,
    (machine ℕ).Reachable Machine.Any s ∧ s.missed = true :=
  Machine.exists_reachable (M := machine ℕ) (G := Machine.Any) (P := fun s => s.missed = true)
    [.add 1 ⟨1, 0⟩ .ok, .insert, .wake 1 .ok, .remove 1, .getReady 1, .pop] (by decide)

end Threads

end MojoEdk.WaitSet
