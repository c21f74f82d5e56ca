import MojoEdk.Core.Dispatcher
import Mathlib.Logic.Function.Basic
import Mathlib.Data.List.Nodup

/-!
# The handle table

What the handles of a process stand for (`handle_table.cc`). An entry of the table is
busy while its dispatcher is attached to a message that is being written: from
`BeginTransit` to `CompleteTransitAndClose`, which removes it, or `CancelTransit`.

Dispatchers are shared, so that the table, and whoever writes a message, refer to them
by numbers. A call that fails an assertion returns nothing.

What the operations change is said once, in `beginTransit_spec` and `endTransit_eq`.
-/

namespace MojoEdk.Core

variable {P H : Type}

/-- `HandleTable::Entry`. -/
structure Entry where
  dispatcher : ℕ
  busy : Bool := false
  deriving DecidableEq

/-- `DispatcherInTransit`. -/
structure DispatcherInTransit where
  dispatcher : ℕ
  localHandle : ℕ
  deriving DecidableEq

/-- `HandleTable`, with the dispatchers that exist. A handle has 32 bits. -/
structure HandleTable (P H : Type) where
  handles : ℕ → Option Entry := fun _ => none
  nextAvailableHandle : ℕ := 1
  dispatchers : ℕ → Dispatcher P H := fun _ => .waitSet true
  numDispatchers : ℕ := 0

def MOJO_HANDLE_INVALID : ℕ := 0

namespace HandleTable

/-- An entry for a new dispatcher, under the next handle. An entry that is there stays. -/
def insert (t : HandleTable P H) (d : Dispatcher P H) : HandleTable P H where
  handles := Function.update t.handles t.nextAvailableHandle
    ((t.handles t.nextAvailableHandle).or (some { dispatcher := t.numDispatchers }))
  nextAvailableHandle := (t.nextAvailableHandle + 1) % 2 ^ 32
  dispatchers := Function.update t.dispatchers t.numDispatchers d
  numDispatchers := t.numDispatchers + 1

/-- `AddDispatcher` of a new dispatcher. -/
def addDispatcher (t : HandleTable P H) (d : Dispatcher P H) : ℕ × HandleTable P H :=
  if t.nextAvailableHandle = MOJO_HANDLE_INVALID then (MOJO_HANDLE_INVALID, t)
  else (t.nextAvailableHandle, t.insert d)

/-- The loop of `AddDispatchersFromTransit`, with the handles of the dispatchers. -/
def insertAll : List (Dispatcher P H) → HandleTable P H → List ℕ × HandleTable P H
  | [], t => ([], t)
  | d :: ds, t =>
    let (handles, t') := insertAll ds (t.insert d)
    (t.nextAvailableHandle :: handles, t')

/-- `AddDispatchersFromTransit` of new dispatchers. The sum of a handle and a size has
    64 bits. -/
def addDispatchersFromTransit (t : HandleTable P H) (ds : List (Dispatcher P H)) :
    Bool × List ℕ × HandleTable P H :=
  if t.nextAvailableHandle = MOJO_HANDLE_INVALID then (false, [], t)
  else if (t.nextAvailableHandle + ds.length) % 2 ^ 64 < t.nextAvailableHandle then (false, [], t)
  else (true, insertAll ds t)

theorem insertAll_snd (ds : List (Dispatcher P H)) (t : HandleTable P H) :
    (insertAll ds t).2 = ds.foldl insert t := by
  induction ds generalizing t with
  | nil => rfl
  | cons d ds ih => exact ih (t.insert d)

/-- `GetAndRemoveDispatcher`. -/
def getAndRemoveDispatcher (t : HandleTable P H) (handle : ℕ) :
    MojoResult × Option ℕ × HandleTable P H :=
  match t.handles handle with
  | none => (.invalidArgument, none, t)
  | some e =>
    if e.busy then (.busy, none, t)
    else (.ok, some e.dispatcher, { t with handles := Function.update t.handles handle none })

/-- `BeginTransit`, with the dispatchers that are in transit so far. -/
def beginTransit : List ℕ → HandleTable P H → List DispatcherInTransit →
    MojoResult × List DispatcherInTransit × HandleTable P H
  | [], t, ds => (.ok, ds, t)
  | handle :: handles, t, ds =>
    match t.handles handle with
    | none => (.invalidArgument, ds, t)
    | some e =>
      if e.busy then (.busy, ds, t)
      else
        let (ok, d) := (t.dispatchers e.dispatcher).beginTransit
        let t := { t with dispatchers := Function.update t.dispatchers e.dispatcher d }
        -- The entry of a dispatcher that refuses is not marked, and it is not among those to
        -- cancel.
        if !ok then (.busy, ds, t)
        else
          beginTransit handles
            { t with handles := Function.update t.handles handle (some { e with busy := true }) }
            (ds ++ [⟨e.dispatcher, handle⟩])

/-- The loop of `CompleteTransitAndClose` and `CancelTransit`, which differ in what
    they call on the dispatchers and in what they leave of the entries. -/
def endTransit (call : Dispatcher P H → Option (Dispatcher P H)) (leave : Entry → Option Entry) :
    List DispatcherInTransit → HandleTable P H → Option (HandleTable P H)
  | [], t => some t
  | d :: ds, t =>
    match t.handles d.localHandle with
    | none => none
    | some e =>
      if e.busy then
        (call (t.dispatchers d.dispatcher)).bind fun x =>
          endTransit call leave ds { t with
            handles := Function.update t.handles d.localHandle (leave e)
            dispatchers := Function.update t.dispatchers d.dispatcher x }
      else none

/-- `CompleteTransitAndClose`. -/
def completeTransitAndClose : List DispatcherInTransit → HandleTable P H →
    Option (HandleTable P H) :=
  endTransit Dispatcher.completeTransitAndClose fun _ => none

/-- `CancelTransit`. -/
def cancelTransit : List DispatcherInTransit → HandleTable P H → Option (HandleTable P H) :=
  endTransit Dispatcher.cancelTransit fun e => some { e with busy := false }

end HandleTable

namespace Dispatcher

/-- `in_transit_`. -/
def inTransit : Dispatcher P H → Bool
  | .messagePipe d => d.inTransit
  | .dataPipeProducer d | .dataPipeConsumer d => d.inTransit
  | .sharedBuffer d => d.inTransit
  | .platformHandle d => d.inTransit
  | .waitSet _ => false

def setInTransit (b : Bool) : Dispatcher P H → Dispatcher P H
  | .messagePipe d => .messagePipe { d with inTransit := b }
  | .dataPipeProducer d => .dataPipeProducer { d with inTransit := b }
  | .dataPipeConsumer d => .dataPipeConsumer { d with inTransit := b }
  | .sharedBuffer d => .sharedBuffer { d with inTransit := b }
  | .platformHandle d => .platformHandle { d with inTransit := b }
  | .waitSet isClosed => .waitSet isClosed

/-- Whether a dispatcher is closed. -/
def isClosed : Dispatcher P H → Bool
  | .messagePipe d => d.portClosed
  | .dataPipeProducer d | .dataPipeConsumer d => d.isClosed
  | .sharedBuffer d => d.sharedBuffer.isNone
  | .platformHandle d => d.isClosed
  | .waitSet isClosed => isClosed

/-- Whether a dispatcher that is not in transit can be put in transit. -/
def canBeginTransit : Dispatcher P H → Bool
  | .messagePipe _ => true
  | .dataPipeProducer d | .dataPipeConsumer d => !d.inTwoPhase
  | .sharedBuffer d => d.sharedBuffer.isSome
  | .platformHandle d => !d.isClosed
  | .waitSet _ => false

variable {d : Dispatcher P H}

theorem setInTransit_self (d : Dispatcher P H) : d.setInTransit d.inTransit = d := by
  cases d <;> rfl

/-- A dispatcher begins transit unless it is in it, or cannot be sent. -/
theorem beginTransit_eq (d : Dispatcher P H) : d.beginTransit =
    if d.inTransit then (false, d) else (d.canBeginTransit, d.setInTransit d.canBeginTransit) := by
  cases d <;> rfl

/-- A dispatcher that cannot be put in transit is not changed. -/
theorem beginTransit_of_false (h : d.beginTransit.1 = false) : d.beginTransit.2 = d := by
  rw [beginTransit_eq] at h ⊢
  split_ifs at h ⊢ with hd
  · rfl
  · have hcan : d.canBeginTransit = d.inTransit := h.trans (Bool.eq_false_iff.2 hd).symm
    change d.setInTransit d.canBeginTransit = d
    rw [hcan, setInTransit_self]

/-- A dispatcher that begins transit was not in it. -/
theorem beginTransit_of_true (h : d.beginTransit.1 = true) :
    d.inTransit = false ∧ d.beginTransit.2 = d.setInTransit true := by
  rw [beginTransit_eq] at h ⊢
  split_ifs at h ⊢ with hd
  have hcan : d.canBeginTransit = true := h
  rw [hcan]
  exact ⟨Bool.eq_false_iff.2 hd, rfl⟩

theorem inTransit_setInTransit (h : d.beginTransit.1 = true) :
    (d.setInTransit true).inTransit = true := by
  cases d with
  | waitSet => cases h
  | messagePipe | dataPipeProducer | dataPipeConsumer | sharedBuffer | platformHandle => rfl

/-- A dispatcher that is in transit can leave it. -/
theorem cancelTransit_of_inTransit (h : d.inTransit = true) :
    ∃ x, d.cancelTransit = some x ∧ x.inTransit = false := by
  cases d with
  | messagePipe d => exact ⟨_, rfl, rfl⟩
  | dataPipeProducer d => exact ⟨_, if_pos h, rfl⟩
  | dataPipeConsumer d => exact ⟨_, if_pos h, rfl⟩
  | sharedBuffer d => exact ⟨_, rfl, rfl⟩
  | platformHandle d => exact ⟨_, rfl, rfl⟩
  | waitSet => exact ⟨_, rfl, rfl⟩

/-- A dispatcher that is in transit can be closed by it. -/
theorem completeTransitAndClose_of_inTransit (h : d.inTransit = true) :
    ∃ x, d.completeTransitAndClose = some x := by
  cases d with
  | messagePipe d => exact ⟨_, rfl⟩
  | dataPipeProducer d => exact ⟨_, if_pos h⟩
  | dataPipeConsumer d => exact ⟨_, if_pos h⟩
  | sharedBuffer d => exact ⟨_, rfl⟩
  | platformHandle d => exact ⟨_, rfl⟩
  | waitSet => exact ⟨_, rfl⟩

end Dispatcher

namespace HandleTable

variable {t t' : HandleTable P H} {ds : List DispatcherInTransit}

/-- The entries of dispatchers in transit, if no two of them are the same. -/
structure Held (ds : List DispatcherInTransit) (t : HandleTable P H) : Prop where
  nodup_handles : (ds.map (·.localHandle)).Nodup
  nodup_dispatchers : (ds.map (·.dispatcher)).Nodup
  entry : ∀ d ∈ ds, t.handles d.localHandle = some ⟨d.dispatcher, true⟩
  inTransit : ∀ d ∈ ds, (t.dispatchers d.dispatcher).inTransit = true

/-- What it means to end the transit of dispatchers: their entries are what is left of
    them, and nothing else changes. -/
structure Ended (call : Dispatcher P H → Option (Dispatcher P H)) (leave : Entry → Option Entry)
    (ds : List DispatcherInTransit) (t t' : HandleTable P H) : Prop where
  nextAvailableHandle : t'.nextAvailableHandle = t.nextAvailableHandle
  numDispatchers : t'.numDispatchers = t.numDispatchers
  entry : ∀ d ∈ ds, t'.handles d.localHandle = leave ⟨d.dispatcher, true⟩
  handles : ∀ handle ∉ ds.map (·.localHandle), t'.handles handle = t.handles handle
  called : ∀ d ∈ ds, call (t.dispatchers d.dispatcher) = some (t'.dispatchers d.dispatcher)
  dispatchers : ∀ o ∉ ds.map (·.dispatcher), t'.dispatchers o = t.dispatchers o

/-- The transit of dispatchers whose entries are busy can be ended: no assertion
    fails. -/
theorem endTransit_eq {call : Dispatcher P H → Option (Dispatcher P H)}
    {leave : Entry → Option Entry} (hcall : ∀ d, d.inTransit = true → ∃ x, call d = some x)
    (h : Held ds t) : ∃ t', endTransit call leave ds t = some t' ∧ Ended call leave ds t t' := by
  induction ds generalizing t with
  | nil => exact ⟨t, rfl, rfl, rfl, by simp, fun _ _ => rfl, by simp, fun _ _ => rfl⟩
  | cons d ds ih =>
    obtain ⟨hd, hds⟩ := List.nodup_cons.1 h.nodup_handles
    obtain ⟨hd', hds'⟩ := List.nodup_cons.1 h.nodup_dispatchers
    obtain ⟨x, hx⟩ := hcall _ (h.inTransit d List.mem_cons_self)
    have hentry := h.entry d List.mem_cons_self
    have hhandle : ∀ c ∈ ds, c.localHandle ≠ d.localHandle := fun c hc heq =>
      hd (List.mem_map.2 ⟨c, hc, heq⟩)
    have hdispatcher : ∀ c ∈ ds, c.dispatcher ≠ d.dispatcher := fun c hc heq =>
      hd' (List.mem_map.2 ⟨c, hc, heq⟩)
    have hrest : Held ds { t with
        handles := Function.update t.handles d.localHandle (leave ⟨d.dispatcher, true⟩)
        dispatchers := Function.update t.dispatchers d.dispatcher x } := by
      refine ⟨hds, hds', fun c hc => ?_, fun c hc => ?_⟩
      · exact (Function.update_of_ne (hhandle c hc) _ _).trans
          (h.entry c (List.mem_cons_of_mem d hc))
      · exact (congrArg Dispatcher.inTransit (Function.update_of_ne (hdispatcher c hc) _ _)).trans
          (h.inTransit c (List.mem_cons_of_mem d hc))
    obtain ⟨t', ht', hended⟩ := ih hrest
    refine ⟨t', ?_, hended.nextAvailableHandle, hended.numDispatchers, ?_, ?_, ?_, ?_⟩
    · rw [endTransit]
      simp only [hentry, if_true, hx, Option.bind_some]
      exact ht'
    · intro c hc
      rcases List.mem_cons.1 hc with rfl | hc
      · rw [hended.handles _ hd]
        exact Function.update_self _ _ _
      · exact hended.entry c hc
    · intro handle hh
      rw [List.map_cons, List.mem_cons, not_or] at hh
      rw [hended.handles handle hh.2]
      exact Function.update_of_ne hh.1 _ _
    · intro c hc
      rcases List.mem_cons.1 hc with rfl | hc
      · rw [hended.dispatchers _ hd', hx]
        simp only [Function.update_self]
      · rw [← hended.called c hc]
        exact congrArg call (Function.update_of_ne (hdispatcher c hc) _ _).symm
    · intro o ho
      rw [List.map_cons, List.mem_cons, not_or] at ho
      rw [hended.dispatchers o ho.2]
      exact Function.update_of_ne ho.1 _ _

/-- `CancelTransit` makes the entries of dispatchers available again. -/
theorem cancelTransit_eq (h : Held ds t) : ∃ t', cancelTransit ds t = some t' ∧
    Ended Dispatcher.cancelTransit (fun e => some { e with busy := false }) ds t t' :=
  endTransit_eq (fun _ hd => (Dispatcher.cancelTransit_of_inTransit hd).imp fun _ hx => hx.1) h

/-- `CompleteTransitAndClose` removes the entries of dispatchers. -/
theorem completeTransitAndClose_eq (h : Held ds t) : ∃ t', completeTransitAndClose ds t = some t' ∧
    Ended Dispatcher.completeTransitAndClose (fun _ => none) ds t t' :=
  endTransit_eq (fun _ hd => Dispatcher.completeTransitAndClose_of_inTransit hd) h

/-- What it means to put dispatchers in transit. -/
structure Began (ds : List DispatcherInTransit) (t t' : HandleTable P H) : Prop where
  nextAvailableHandle : t'.nextAvailableHandle = t.nextAvailableHandle
  numDispatchers : t'.numDispatchers = t.numDispatchers
  nodup_handles : (ds.map (·.localHandle)).Nodup
  nodup_dispatchers : (ds.map (·.dispatcher)).Nodup
  entry : ∀ d ∈ ds, t.handles d.localHandle = some ⟨d.dispatcher, false⟩
  can : ∀ d ∈ ds, (t.dispatchers d.dispatcher).beginTransit.1 = true
  handles : ∀ handle, t'.handles handle = if handle ∈ ds.map (·.localHandle) then
    (t.handles handle).map fun e => { e with busy := true } else t.handles handle
  dispatchers : ∀ o, t'.dispatchers o = if o ∈ ds.map (·.dispatcher) then
    (t.dispatchers o).setInTransit true else t.dispatchers o

theorem Began.nil (t : HandleTable P H) : Began [] t t :=
  ⟨rfl, rfl, List.nodup_nil, List.nodup_nil, by simp, by simp, fun _ => rfl, fun _ => rfl⟩

/-- A dispatcher, then others. -/
theorem Began.cons {d : DispatcherInTransit} (hentry : t.handles d.localHandle =
      some ⟨d.dispatcher, false⟩) (hcan : (t.dispatchers d.dispatcher).beginTransit.1 = true)
    (h : Began ds { t with
      handles := Function.update t.handles d.localHandle (some ⟨d.dispatcher, true⟩)
      dispatchers := Function.update t.dispatchers d.dispatcher
        ((t.dispatchers d.dispatcher).setInTransit true) } t') : Began (d :: ds) t t' := by
  -- The others are not busy, and not in transit, when the first one is.
  have hhandle : ∀ c ∈ ds, c.localHandle ≠ d.localHandle := by
    intro c hc heq
    have hbusy := h.entry c hc
    simp only [heq, Function.update_self, Option.some.injEq, Entry.mk.injEq,
      Bool.true_eq_false, and_false] at hbusy
  have hdispatcher : ∀ c ∈ ds, c.dispatcher ≠ d.dispatcher := by
    intro c hc heq
    have hidle := (Dispatcher.beginTransit_of_true (h.can c hc)).1
    simp only [heq, Function.update_self, Dispatcher.inTransit_setInTransit hcan,
      Bool.true_eq_false] at hidle
  refine ⟨h.nextAvailableHandle, h.numDispatchers, ?_, ?_, ?_, ?_, ?_, ?_⟩
  · refine List.nodup_cons.2 ⟨fun hmem => ?_, h.nodup_handles⟩
    obtain ⟨c, hc, heq⟩ := List.mem_map.1 hmem
    exact hhandle c hc heq
  · refine List.nodup_cons.2 ⟨fun hmem => ?_, h.nodup_dispatchers⟩
    obtain ⟨c, hc, heq⟩ := List.mem_map.1 hmem
    exact hdispatcher c hc heq
  · intro c hc
    rcases List.mem_cons.1 hc with rfl | hc
    · exact hentry
    · exact (Function.update_of_ne (hhandle c hc) _ _).symm.trans (h.entry c hc)
  · intro c hc
    rcases List.mem_cons.1 hc with rfl | hc
    · exact hcan
    · have hcan := h.can c hc
      simp only [Function.update_of_ne (hdispatcher c hc)] at hcan
      exact hcan
  · intro handle
    rw [h.handles]
    by_cases hh : handle = d.localHandle
    · have hnot : d.localHandle ∉ ds.map (·.localHandle) := fun hmem => by
        obtain ⟨c, hc, heq⟩ := List.mem_map.1 hmem
        exact hhandle c hc heq
      rw [hh, if_neg hnot, if_pos (List.mem_map.2 ⟨d, List.mem_cons_self, rfl⟩), hentry]
      exact Function.update_self _ _ _
    · simp only [List.map_cons, List.mem_cons, hh, false_or, Function.update_of_ne hh]
  · intro o
    rw [h.dispatchers]
    by_cases ho : o = d.dispatcher
    · have hnot : d.dispatcher ∉ ds.map (·.dispatcher) := fun hmem => by
        obtain ⟨c, hc, heq⟩ := List.mem_map.1 hmem
        exact hdispatcher c hc heq
      rw [ho, if_neg hnot, if_pos (List.mem_map.2 ⟨d, List.mem_cons_self, rfl⟩)]
      exact Function.update_self _ _ _
    · simp only [List.map_cons, List.mem_cons, ho, false_or, Function.update_of_ne ho]

/-- The loop begins transit for the handles, up to the first that it cannot. -/
theorem beginTransit_spec (handles : List ℕ) (t : HandleTable P H)
    (ds : List DispatcherInTransit) : ∃ new t', Began new t t' ∧
      (beginTransit handles t ds).2 = (ds ++ new, t') ∧
      ((beginTransit handles t ds).1 = .ok → new.map (·.localHandle) = handles) := by
  induction handles generalizing t ds with
  | nil => exact ⟨[], t, .nil t, by rw [beginTransit, List.append_nil], fun _ => rfl⟩
  | cons handle handles ih =>
    rw [beginTransit]
    cases hentry : t.handles handle with
    | none => exact ⟨[], t, .nil t, by rw [List.append_nil], fun h => by cases h⟩
    | some e =>
      obtain ⟨o, busy⟩ := e
      cases busy with
      | true => exact ⟨[], t, .nil t, by rw [List.append_nil]; rfl, fun h => by cases h⟩
      | false =>
        cases hok : (t.dispatchers o).beginTransit.1 with
        | false =>
          have heq := Dispatcher.beginTransit_of_false hok
          refine ⟨[], t, .nil t, ?_, ?_⟩
          · simp only [hok, heq, Function.update_eq_self, List.append_nil, Bool.not_false, if_true,
              Bool.false_eq_true, if_false]
          · simp only [hok, Bool.not_false, if_true, Bool.false_eq_true, if_false, reduceCtorEq,
              IsEmpty.forall_iff]
        | true =>
          have heq := (Dispatcher.beginTransit_of_true hok).2
          obtain ⟨new, t', hbegan, hnew, hall⟩ := ih { t with
            handles := Function.update t.handles handle (some ⟨o, true⟩)
            dispatchers := Function.update t.dispatchers o
              ((t.dispatchers o).setInTransit true) } (ds ++ [⟨o, handle⟩])
          refine ⟨⟨o, handle⟩ :: new, t', .cons hentry hok hbegan, ?_, ?_⟩
          · simp only [hok, heq, Bool.not_true, Bool.false_eq_true, if_false, hnew,
              List.append_assoc, List.singleton_append]
          · simp only [hok, heq, Bool.not_true, Bool.false_eq_true, if_false, List.map_cons]
            exact fun h => congrArg (handle :: ·) (hall h)

/-- The dispatchers that began transit are in it, in the table. -/
theorem Began.held (h : Began ds t t') : Held ds t' := by
  refine ⟨h.nodup_handles, h.nodup_dispatchers, fun d hd => ?_, fun d hd => ?_⟩
  · rw [h.handles, if_pos (List.mem_map.2 ⟨d, hd, rfl⟩), h.entry d hd]
    rfl
  · rw [h.dispatchers, if_pos (List.mem_map.2 ⟨d, hd, rfl⟩),
      Dispatcher.inTransit_setInTransit (h.can d hd)]

/-- Dispatchers that were put in transit, and are not any more. -/
theorem Began.cancelTransit (h : Began ds t t') : ∃ t'', HandleTable.cancelTransit ds t' = some t'' ∧
    t''.handles = t.handles ∧ t''.nextAvailableHandle = t.nextAvailableHandle ∧
    t''.numDispatchers = t.numDispatchers ∧
    ∀ o, (t''.dispatchers o).inTransit = (t.dispatchers o).inTransit := by
  obtain ⟨t'', ht'', hended⟩ := cancelTransit_eq h.held
  refine ⟨t'', ht'', ?_, hended.nextAvailableHandle.trans h.nextAvailableHandle,
    hended.numDispatchers.trans h.numDispatchers, ?_⟩
  · funext handle
    by_cases hmem : handle ∈ ds.map (·.localHandle)
    · obtain ⟨d, hd, rfl⟩ := List.mem_map.1 hmem
      rw [hended.entry d hd, h.entry d hd]
    · rw [hended.handles handle hmem, h.handles, if_neg hmem]
  · intro o
    by_cases hmem : o ∈ ds.map (·.dispatcher)
    · obtain ⟨d, hd, rfl⟩ := List.mem_map.1 hmem
      obtain ⟨x, hx, hx'⟩ := Dispatcher.cancelTransit_of_inTransit (h.held.inTransit d hd)
      rw [hended.called d hd] at hx
      rw [Option.some.inj hx, hx', (Dispatcher.beginTransit_of_true (h.can d hd)).1]
    · rw [hended.dispatchers o hmem, h.dispatchers, if_neg hmem]

end HandleTable

end MojoEdk.Core
