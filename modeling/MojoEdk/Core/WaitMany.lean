import MojoEdk.WaitSet.Signals

/-!
# Waiting for many handles

`Core::WaitMany` registers a waiter with the dispatchers of its handles, in order, until one
of them does not take it, and waits if all of them do. Then it removes the waiter, and
writes the states of the dispatchers.

The states are also written if a dispatcher refuses the waiter with
`MOJO_RESULT_INVALID_ARGUMENT`, as shared buffers, platform handles and closed pipes do. A
handle that is not found is told by the same result, and then the states are left alone, as
they are by `Core::Wait` in both cases (`coreWait_keeps`). Otherwise all that is to be expected
holds (`waitMany_keeps_iff`).
-/

namespace MojoEdk.Core

open WaitSet

/-! ## Dispatchers -/

namespace DispatcherType

/-- The dispatchers that override `AddAwakable` and `RemoveAwakable`. -/
def hasAwakables : DispatcherType → Bool
  | .sharedBuffer | .platformHandle => false
  | .messagePipe | .dataPipeProducer | .dataPipeConsumer | .waitSet => true

end DispatcherType

/-- What a call finds a dispatcher in: whether it is closed or in transit, if it is the end of
    a pipe, and the state of its signals. -/
structure Moment where
  isClosedOrInTransit : Bool := false
  signalsState : HandleSignalsState := {}

namespace Moment

/-- The last part of `AddAwakable`. -/
def addToList (m : Moment) (signals : Signals) : MojoResult × Option HandleSignalsState :=
  if m.signalsState.Satisfies signals then (.alreadyExists, some m.signalsState)
  else if ¬m.signalsState.CanSatisfy signals then (.failedPrecondition, some m.signalsState)
  else (.ok, none)

/-- `AddAwakable`: the result, and the state if it is written. -/
def addAwakable (m : Moment) (signals : Signals) :
    DispatcherType → MojoResult × Option HandleSignalsState
  | .sharedBuffer | .platformHandle => (.invalidArgument, none)
  | .waitSet => m.addToList signals
  | .messagePipe | .dataPipeProducer | .dataPipeConsumer =>
    if m.isClosedOrInTransit then (.invalidArgument, some {}) else m.addToList signals

/-- The state that `RemoveAwakable` writes. -/
def removeAwakable (m : Moment) : DispatcherType → HandleSignalsState
  | .sharedBuffer | .platformHandle => {}
  | .waitSet => m.signalsState
  | .messagePipe | .dataPipeProducer | .dataPipeConsumer =>
    if m.isClosedOrInTransit then {} else m.signalsState

/-- `GetHandleSignalsState`. -/
def getHandleSignalsState (m : Moment) : DispatcherType → HandleSignalsState
  | .sharedBuffer | .platformHandle => {}
  | .messagePipe | .dataPipeProducer | .dataPipeConsumer | .waitSet => m.signalsState

variable {m : Moment} {signals : Signals} {type : DispatcherType}

/-- A dispatcher that takes the waiter does not write its state. -/
theorem addAwakable_of_ok (h : (m.addAwakable signals type).1 = .ok) :
    m.addAwakable signals type = (.ok, none) := by
  have hlist (h : (m.addToList signals).1 = .ok) : m.addToList signals = (.ok, none) := by
    rw [addToList] at h ⊢
    split_ifs at h ⊢
    rfl
  cases type with
  | sharedBuffer | platformHandle => cases h
  | waitSet => exact hlist h
  | messagePipe | dataPipeProducer | dataPipeConsumer =>
    rw [addAwakable] at h ⊢
    split_ifs at h ⊢
    exact hlist h

theorem hasAwakables_of_ok (h : (m.addAwakable signals type).1 = .ok) :
    type.hasAwakables = true := by
  cases type with
  | sharedBuffer | platformHandle => cases h
  | waitSet | messagePipe | dataPipeProducer | dataPipeConsumer => rfl

end Moment

/-- `AwakableList`, as far as the waiter is concerned: the contexts it is registered with. -/
structure AwakableList (A : Type) where
  contexts : A → List ℕ
  add : A → Signals → ℕ → A
  remove : A → A
  contexts_add : ∀ a signals context c, c ∈ contexts (add a signals context) →
    c = context ∨ c ∈ contexts a
  contexts_remove : ∀ a, contexts (remove a) = []

/-- What a call of `Core::WaitMany` finds: the dispatchers of the handles and their moments at
    each time, and the waiter (`Waiter`), which is awoken by a dispatcher that it was
    registered with, or by none before the deadline. Other threads only ever remove the
    waiter, by closing or by waking. -/
structure Environment (D A : Type) where
  awakableList : AwakableList A
  maxWaitManyNumHandles : ℕ
  type : D → DispatcherType
  getDispatcher : ℕ → ℕ → Option D
  moment : ℕ → D → Moment
  awakables : D → A
  others : ℕ → (D → A) → D → A
  wait : List (D × ℕ) → Option ((D × ℕ) × MojoResult)
  contexts_new : ∀ d, awakableList.contexts (awakables d) = []
  contexts_others : ∀ time lists d,
    awakableList.contexts (others time lists d) ⊆ awakableList.contexts (lists d)
  mem_of_wait : ∀ added e rv, wait added = some (e, rv) → e ∈ added
  wait_result : ∀ added e rv, wait added = some (e, rv) →
    rv ∈ [.ok, .failedPrecondition, .cancelled]

/-- The calls that are made, with the answers. -/
inductive WaitCall (D : Type)
  | getDispatcher (i : ℕ) (d : Option D)
  | addAwakable (d : D) (context : ℕ) (result : MojoResult)
  | wait (awoken : Option ((D × ℕ) × MojoResult))
  | removeAwakable (d : D)
  | getHandleSignalsState (d : D)

namespace WaitCall

variable {D : Type}

/-- The dispatcher and the context of a registration. -/
def added : WaitCall D → Option (D × ℕ)
  | .addAwakable d context .ok => some (d, context)
  | _ => none

end WaitCall

/-! ## Waiting -/

/-- The state of `WaitManyInternal`: the lists of awakables, the states and the index that are
    written, and the calls so far. -/
structure Waiting (D A : Type) where
  awakables : D → A
  signalsStates : Option (ℕ → HandleSignalsState)
  resultIndex : ℕ := 2 ^ 32 - 1
  calls : List (WaitCall D) := []

variable {D A : Type} [DecidableEq D]

namespace Waiting

/-- A call is made. Between two calls, other threads run. -/
def call (env : Environment D A) (w : Waiting D A) (c : WaitCall D) : Waiting D A :=
  { w with awakables := env.others w.calls.length w.awakables, calls := w.calls ++ [c] }

/-- `signals_states[i]` is written. -/
def write (w : Waiting D A) (i : ℕ) (state : HandleSignalsState) : Waiting D A :=
  { w with signalsStates := w.signalsStates.map fun states => Function.update states i state }

/-- The call of `AddAwakable`. -/
def addAwakable (env : Environment D A) (w : Waiting D A) (d : D) (signals : Signals) (i : ℕ) :
    MojoResult × Waiting D A :=
  let (rv, state) := (env.moment w.calls.length d).addAwakable signals (env.type d)
  let w := w.call env (.addAwakable d i rv)
  let w := state.elim w (w.write i)
  (rv, if rv = .ok then
    { w with awakables :=
        Function.update w.awakables d (env.awakableList.add (w.awakables d) signals i) }
  else w)

/-- The call of `RemoveAwakable`. That of `Dispatcher` is not to be reached, and does nothing. -/
def removeAwakable (env : Environment D A) (w : Waiting D A) (d : D) (i : ℕ) : Waiting D A :=
  let m := env.moment w.calls.length d
  let w := w.call env (.removeAwakable d)
  if (env.type d).hasAwakables then
    let w := w.write i (m.removeAwakable (env.type d))
    { w with awakables := Function.update w.awakables d (env.awakableList.remove (w.awakables d)) }
  else w

/-- The call of `Wait`. -/
def wait (env : Environment D A) (w : Waiting D A) : MojoResult × Waiting D A :=
  let awoken := env.wait (w.calls.filterMap (·.added))
  let w := w.call env (.wait awoken)
  match awoken with
  | none => (.deadlineExceeded, w)
  | some ((_, context), rv) => (rv, { w with resultIndex := context % 2 ^ 32 })

end Waiting

namespace Environment

variable (env : Environment D A)

/-- The loop that looks the dispatchers up. -/
def getDispatchers : ℕ → List ℕ → Waiting D A → Option (List D) × Waiting D A
  | _, [], w => (some [], w)
  | i, handle :: handles, w =>
    match env.getDispatcher w.calls.length handle with
    | none => (none, { w.call env (.getDispatcher i none) with resultIndex := i })
    | some d =>
      let (ds, w) := getDispatchers (i + 1) handles (w.call env (.getDispatcher i (some d)))
      (ds.map (d :: ·), w)

/-- The loop that registers the waiter: the result, and the index where it stops. -/
def addAwakables : ℕ → List (D × Signals) → Waiting D A → MojoResult × ℕ × Waiting D A
  | i, [], w => (.ok, i, w)
  | i, (d, signals) :: ds, w =>
    match w.addAwakable env d signals i with
    | (.ok, w) => addAwakables (i + 1) ds w
    | (rv, w) => (rv, i, { w with resultIndex := i })

/-- The loop that removes the waiter. -/
def removeAwakables : ℕ → List D → Waiting D A → Waiting D A
  | _, [], w => w
  | i, d :: ds, w => removeAwakables (i + 1) ds (w.removeAwakable env d i)

/-- The loop that gets the states of the other dispatchers. -/
def getHandleSignalsStates : ℕ → List D → Waiting D A → Waiting D A
  | _, [], w => w
  | i, d :: ds, w =>
    let state := (env.moment w.calls.length d).getHandleSignalsState (env.type d)
    getHandleSignalsStates (i + 1) ds
      ((w.call env (.getHandleSignalsState d)).write i state)

/-- `WaitManyInternal`. -/
def waitManyInternal (waits : List (ℕ × Signals)) (w : Waiting D A) : MojoResult × Waiting D A :=
  match env.getDispatchers 0 (waits.map (·.1)) w with
  | (none, w) => (.invalidArgument, w)
  | (some ds, w) =>
    let (rv, numAdded, w) := env.addAwakables 0 (ds.zip (waits.map (·.2))) w
    let (rv, w) :=
      if rv = .alreadyExists then (.ok, w) else if rv = .ok then w.wait env else (rv, w)
    let w := env.removeAwakables 0 (ds.take numAdded) w
    (rv, if w.signalsStates.isSome then
      env.getHandleSignalsStates numAdded (ds.drop numAdded) w else w)

end Environment

/-- The arguments of `Core::WaitMany`. The number of handles has 32 bits; the pointers to the
    states and to the index may be null. -/
structure WaitManyArguments where
  waits : List (ℕ × Signals)
  length_lt : waits.length < 2 ^ 32
  signalsStates : Option (ℕ → HandleSignalsState)
  resultIndex : Option ℕ

/-- How `Core::WaitMany` and `Core::Wait` leave things: the result, what is written, the lists
    of awakables, and the calls that were made. -/
structure Waited (S D A : Type) where
  rv : MojoResult
  resultIndex : Option ℕ
  signalsStates : Option S
  awakables : D → A
  calls : List (WaitCall D)

namespace Environment

variable (env : Environment D A)

/-- `Core::WaitMany`. -/
def waitMany (c : WaitManyArguments) : Waited (ℕ → HandleSignalsState) D A :=
  if c.waits.length < 1 then ⟨.invalidArgument, c.resultIndex, c.signalsStates, env.awakables, []⟩
  else if env.maxWaitManyNumHandles < c.waits.length then
    ⟨.resourceExhausted, c.resultIndex, c.signalsStates, env.awakables, []⟩
  else
    let (rv, w) := env.waitManyInternal c.waits
      { awakables := env.awakables, signalsStates := c.signalsStates }
    { rv := rv
      resultIndex := if w.resultIndex ≠ 2 ^ 32 - 1 then c.resultIndex.map fun _ => w.resultIndex
        else c.resultIndex
      signalsStates := w.signalsStates
      awakables := w.awakables
      calls := w.calls }

/-- `Core::Wait`. -/
def coreWait (handle : ℕ) (signals : Signals) (signalsState : Option HandleSignalsState) :
    Waited HandleSignalsState D A :=
  let (rv, w) := env.waitManyInternal [(handle, signals)]
    { awakables := env.awakables, signalsStates := signalsState.map fun _ _ => {} }
  { rv := rv
    resultIndex := none
    signalsStates := if rv ≠ .invalidArgument then
      signalsState.bind fun _ => w.signalsStates.map fun states => states 0 else signalsState
    awakables := w.awakables
    calls := w.calls }

end Environment

/-! ## What is to be expected -/

/-- The handle that ended the wait: it was not found, or its dispatcher did not take the
    waiter, or awoke it. -/
def EndedBy (calls : List (WaitCall D)) (i : ℕ) : Prop :=
  .getDispatcher i none ∈ calls ∨ ∃ d, .getDispatcher i (some d) ∈ calls ∧
    ((∃ rv ≠ .ok, .addAwakable d i rv ∈ calls) ∨ ∃ rv, .wait (some ((d, i), rv)) ∈ calls)

/-- What is to be expected of a call that found the states and the index given. -/
structure Keeps {S : Type} (env : Environment D A) (resultIndex : Option ℕ)
    (signalsStates : Option S) (r : Waited S D A) : Prop where
  unregistered : ∀ d, env.awakableList.contexts (r.awakables d) = []
  removed : ∀ (j : ℕ) d, r.calls[j]? = some (WaitCall.removeAwakable d) →
    ∃ i < j, ∃ context, r.calls[i]? = some (WaitCall.addAwakable d context .ok)
  ended : ∀ i, EndedBy r.calls i → r.resultIndex = resultIndex.map fun _ => i
  not_ended : (∀ i, ¬EndedBy r.calls i) → r.resultIndex = resultIndex
  states : r.rv = .invalidArgument → r.signalsStates = signalsStates

namespace Environment

variable (env : Environment D A)

/-- The result of `AddAwakable` of the dispatcher of a handle, if all before it were found, and
    took the waiter. -/
def answer (waits : List (ℕ × Signals)) (ds : List D) (i : ℕ) : Option MojoResult := do
  let d ← ds[i]?
  let (_, signals) ← waits[i]?
  return ((env.moment (ds.length + i) d).addAwakable signals (env.type d)).1

/-- The handles are found, and the dispatcher at `k` is the first that does not take the
    waiter. It refuses it. -/
structure Refused (waits : List (ℕ × Signals)) (ds : List D) (k : ℕ) : Prop where
  found : (waits.map (·.1)).mapIdx env.getDispatcher = ds.map some
  added : ∀ i < k, env.answer waits ds i = some .ok
  refused : env.answer waits ds k = some .invalidArgument

/-- The states of the dispatchers when the waiter has been removed. -/
def statesLeft (ds : List D) (k : ℕ) : List HandleSignalsState :=
  ds.mapIdx fun i d =>
    let m := env.moment (ds.length + (k + 1) + i) d
    if i < k then m.removeAwakable (env.type d) else m.getHandleSignalsState (env.type d)

/-- If a dispatcher refuses the waiter, there are no states to be written, or they are there
    already. -/
def Spared (c : WaitManyArguments) : Prop :=
  c.waits.length ≤ env.maxWaitManyNumHandles →
    ∀ ds k states, env.Refused c.waits ds k → c.signalsStates = some states →
      ∀ (i : ℕ) state, (env.statesLeft ds k)[i]? = some state → states i = state

end Environment

/-! ## States that are written -/

section Overwrite

variable {σ : Type} {states : ℕ → σ} {x : σ} {xs ys : List σ} {i j k : ℕ}

/-- States are written one after the other. -/
def overwrite : ℕ → List σ → (ℕ → σ) → ℕ → σ
  | _, [], states => states
  | i, x :: xs, states => overwrite (i + 1) xs (Function.update states i x)

theorem overwrite_append :
    overwrite i (xs ++ ys) states = overwrite (i + xs.length) ys (overwrite i xs states) := by
  induction xs generalizing i states with
  | nil => rfl
  | cons x xs ih =>
    rw [List.cons_append, overwrite, ih, overwrite, List.length_cons, Nat.add_right_comm i,
      Nat.add_assoc]

theorem overwrite_apply :
    overwrite i xs states j = if i ≤ j then (xs[j - i]?).getD (states j) else states j := by
  induction xs generalizing i states with
  | nil => simp [overwrite]
  | cons x xs ih =>
    rw [overwrite, ih]
    obtain hlt | rfl | hlt := lt_trichotomy j i
    · rw [if_neg (by omega), if_neg (by omega), Function.update_of_ne (by omega)]
    · rw [if_neg (by omega), if_pos le_rfl, Function.update_self, Nat.sub_self]
      rfl
    · obtain ⟨n, rfl⟩ := Nat.exists_eq_add_of_lt hlt
      rw [if_pos (by omega), if_pos (by omega), Function.update_of_ne (by omega),
        show i + n + 1 - i = n + 1 by omega, show i + n + 1 - (i + 1) = n by omega,
        List.getElem?_cons_succ]

theorem overwrite_update (h : k < xs.length) :
    overwrite 0 xs (Function.update states k x) = overwrite 0 xs states := by
  funext j
  rw [overwrite_apply, overwrite_apply, if_pos (Nat.zero_le j), if_pos (Nat.zero_le j), Nat.sub_zero]
  by_cases hj : j = k
  · rw [hj, List.getElem?_eq_getElem h, Option.getD_some, Option.getD_some]
  · rw [Function.update_of_ne hj]

theorem overwrite_eq_self_iff :
    overwrite 0 xs states = states ↔ ∀ i x, xs[i]? = some x → states i = x := by
  constructor
  · intro h i x hx
    rw [← h, overwrite_apply, if_pos (Nat.zero_le i), Nat.sub_zero, hx, Option.getD_some]
  · intro h
    funext j
    rw [overwrite_apply, if_pos (Nat.zero_le j), Nat.sub_zero]
    cases hx : xs[j]? with
    | none => rfl
    | some x => exact (h j x hx).symm

end Overwrite

/-! ## The loops -/

namespace Environment

variable {env : Environment D A} {w : Waiting D A} {d : D} {i : ℕ}

/-- The waiter is registered with a dispatcher. -/
def Registered (env : Environment D A) (w : Waiting D A) (d : D) : Prop :=
  env.awakableList.contexts (w.awakables d) ≠ []

omit [DecidableEq D] in
theorem registered_of_call (c : WaitCall D) (h : env.Registered (w.call env c) d) :
    env.Registered w d := by
  intro hnil
  apply h
  have hsub := env.contexts_others w.calls.length w.awakables d
  rw [hnil] at hsub
  exact List.subset_nil.1 hsub

omit [DecidableEq D] in
/-- What the first loop does when it finds the dispatchers. -/
theorem getDispatchers_append {handles : List ℕ} {ds : List D}
    (h : handles.mapIdx (fun j => env.getDispatcher (w.calls.length + j)) = ds.map some) :
    ∃ w' : Waiting D A,
      (∀ rest, env.getDispatchers i (handles ++ rest) w =
        ((env.getDispatchers (i + ds.length) rest w').1.map (ds ++ ·),
          (env.getDispatchers (i + ds.length) rest w').2)) ∧
      w'.calls = w.calls ++ ds.mapIdx (fun j d => .getDispatcher (i + j) (some d)) ∧
      w'.signalsStates = w.signalsStates ∧ w'.resultIndex = w.resultIndex ∧
      ∀ d, env.Registered w' d → env.Registered w d := by
  induction handles generalizing i w ds with
  | nil =>
    obtain rfl := List.map_eq_nil_iff.1 h.symm
    exact ⟨w, fun rest => by simp, by simp, rfl, rfl, fun _ => id⟩
  | cons handle handles ih =>
    obtain ⟨d, ds, rfl, hd, hds⟩ := List.map_eq_cons_iff.1 (h.symm.trans List.mapIdx_cons)
    let w₁ := w.call env (.getDispatcher i (some d))
    have hlength : w₁.calls.length = w.calls.length + 1 := by
      simp [w₁, Waiting.call]
    have hrest : handles.mapIdx (fun j => env.getDispatcher (w₁.calls.length + j)) =
        ds.map some := by
      rw [hds, hlength]
      exact congrArg (List.mapIdx · handles) (funext fun j => by rw [Nat.add_assoc, Nat.add_comm 1])
    obtain ⟨w', hloop, hcalls, hstates, hindex, hregistered⟩ := ih (i := i + 1) hrest
    refine ⟨w', fun rest => ?_, ?_, hstates, hindex, fun d hd => registered_of_call _ (hregistered d hd)⟩
    · rw [List.cons_append, getDispatchers, show env.getDispatcher w.calls.length handle = some d
        from hd.symm]
      have hrest := hloop rest
      rw [Nat.add_right_comm, Nat.add_assoc] at hrest
      simp only [w₁] at hrest
      simp only [hrest, Option.map_map, List.length_cons]
      rfl
    · rw [hcalls, List.mapIdx_cons]
      simp [w₁, Waiting.call, Nat.add_assoc, Nat.add_comm 1]

theorem addAwakable_of_ok {signals : Signals}
    (h : ((env.moment w.calls.length d).addAwakable signals (env.type d)).1 = .ok) :
    w.addAwakable env d signals i = (.ok, { w.call env (.addAwakable d i .ok) with
      awakables := Function.update (w.call env (.addAwakable d i .ok)).awakables d
        (env.awakableList.add ((w.call env (.addAwakable d i .ok)).awakables d) signals i) }) := by
  rw [Waiting.addAwakable, Moment.addAwakable_of_ok h]
  rfl

theorem registered_addAwakable {signals : Signals}
    (h : ((env.moment w.calls.length d).addAwakable signals (env.type d)).1 = .ok) {d' : D}
    (hd' : env.Registered (w.addAwakable env d signals i).2 d') :
    env.Registered w d' ∨ d' = d := by
  by_cases hdd : d' = d
  · exact .inr hdd
  · left
    apply registered_of_call (.addAwakable d i .ok)
    rw [addAwakable_of_ok h, Registered] at hd'
    dsimp only at hd'
    rwa [Function.update_of_ne hdd] at hd'

theorem registered_removeAwakable (hd : (env.type d).hasAwakables = true) {d' : D}
    (hd' : env.Registered (w.removeAwakable env d i) d') : env.Registered w d' ∧ d' ≠ d := by
  rw [Waiting.removeAwakable, if_pos hd, Registered] at hd'
  dsimp only at hd'
  by_cases hdd : d' = d
  · rw [hdd, Function.update_self, env.awakableList.contexts_remove] at hd'
    exact absurd rfl hd'
  · rw [Function.update_of_ne hdd] at hd'
    exact ⟨registered_of_call (.removeAwakable d) hd', hdd⟩

/-- What the second loop does as long as the dispatchers take the waiter. -/
theorem addAwakables_append {ds : List (D × Signals)}
    (h : ∀ (j : ℕ) d signals, ds[j]? = some (d, signals) →
      ((env.moment (w.calls.length + j) d).addAwakable signals (env.type d)).1 = .ok) :
    ∃ w' : Waiting D A,
      (∀ rest, env.addAwakables i (ds ++ rest) w = env.addAwakables (i + ds.length) rest w') ∧
      w'.calls = w.calls ++ ds.mapIdx (fun j d => .addAwakable d.1 (i + j) .ok) ∧
      w'.signalsStates = w.signalsStates ∧ w'.resultIndex = w.resultIndex ∧
      ∀ d, env.Registered w' d → env.Registered w d ∨ d ∈ ds.map (·.1) := by
  induction ds generalizing i w with
  | nil => exact ⟨w, fun rest => by simp, by simp, rfl, rfl, fun _ => .inl⟩
  | cons d ds ih =>
    obtain ⟨d, signals⟩ := d
    have hok := addAwakable_of_ok (i := i) (h 0 d signals rfl)
    let w₁ := (w.addAwakable env d signals i).2
    have hcalls₁ : w₁.calls = w.calls ++ [.addAwakable d i .ok] := by
      rw [show w₁ = _ from congrArg Prod.snd hok]
      rfl
    have hlength : w₁.calls.length = w.calls.length + 1 := by
      rw [hcalls₁, List.length_append, List.length_singleton]
    obtain ⟨w', hloop, hcalls, hstates, hindex, hregistered⟩ :=
      ih (i := i + 1) (w := w₁) fun j d' signals' hj => by
        rw [hlength, Nat.add_assoc, Nat.add_comm 1]
        exact h (j + 1) d' signals' hj
    refine ⟨w', fun rest => ?_, ?_, ?_, ?_, fun d' hd' => ?_⟩
    · rw [List.cons_append, addAwakables, show w.addAwakable env d signals i = (.ok, w₁) by
        rw [hok, show w₁ = _ from congrArg Prod.snd hok]]
      exact (hloop rest).trans (by rw [List.length_cons, Nat.add_right_comm, Nat.add_assoc])
    · rw [hcalls, hcalls₁, List.mapIdx_cons, List.append_assoc]
      simp [Nat.add_assoc, Nat.add_comm 1]
    · rw [hstates, show w₁ = _ from congrArg Prod.snd hok]
      rfl
    · rw [hindex, show w₁ = _ from congrArg Prod.snd hok]
      rfl
    · obtain hd' | hd' := hregistered d' hd'
      · obtain hd' | rfl := registered_addAwakable (h 0 d signals rfl) hd'
        · exact .inl hd'
        · exact .inr List.mem_cons_self
      · exact .inr (List.mem_cons_of_mem _ hd')

/-- What the third loop does. -/
theorem removeAwakables_spec {ds : List D} (h : ∀ d ∈ ds, (env.type d).hasAwakables = true) :
    (env.removeAwakables i ds w).calls = w.calls ++ ds.map .removeAwakable ∧
    (env.removeAwakables i ds w).signalsStates = w.signalsStates.map (overwrite i
      (ds.mapIdx fun j d => (env.moment (w.calls.length + j) d).removeAwakable (env.type d))) ∧
    (env.removeAwakables i ds w).resultIndex = w.resultIndex ∧
    ∀ d, env.Registered (env.removeAwakables i ds w) d → env.Registered w d ∧ d ∉ ds := by
  induction ds generalizing i w with
  | nil => simp [removeAwakables, overwrite]
  | cons d ds ih =>
    obtain ⟨hcalls, hstates, hindex, hregistered⟩ :=
      ih (i := i + 1) (w := w.removeAwakable env d i) fun d' hd' => h d' (List.mem_cons_of_mem _ hd')
    have hd := h d List.mem_cons_self
    simp only [removeAwakables]
    refine ⟨?_, ?_, ?_, fun d' hd' => ?_⟩
    · rw [hcalls, Waiting.removeAwakable, if_pos hd]
      simp [Waiting.write, Waiting.call]
    · rw [hstates, List.mapIdx_cons, Waiting.removeAwakable, if_pos hd]
      simp only [Waiting.write, Waiting.call, Option.map_map, List.length_append,
        List.length_singleton, Nat.add_assoc, Nat.add_comm 1]
      rfl
    · rw [hindex, Waiting.removeAwakable, if_pos hd]
      rfl
    · obtain ⟨hd', hmem⟩ := hregistered d' hd'
      obtain ⟨hd', hdd⟩ := registered_removeAwakable hd hd'
      exact ⟨hd', List.not_mem_cons_of_ne_of_not_mem hdd hmem⟩

omit [DecidableEq D] in
/-- What the last loop does. -/
theorem getHandleSignalsStates_spec (ds : List D) :
    (env.getHandleSignalsStates i ds w).calls = w.calls ++ ds.map .getHandleSignalsState ∧
    (env.getHandleSignalsStates i ds w).signalsStates = w.signalsStates.map (overwrite i
      (ds.mapIdx fun j d =>
        (env.moment (w.calls.length + j) d).getHandleSignalsState (env.type d))) ∧
    (env.getHandleSignalsStates i ds w).resultIndex = w.resultIndex ∧
    ∀ d, env.Registered (env.getHandleSignalsStates i ds w) d → env.Registered w d := by
  induction ds generalizing i w with
  | nil => simp [getHandleSignalsStates, overwrite]
  | cons d ds ih =>
    obtain ⟨hcalls, hstates, hindex, hregistered⟩ := ih (i := i + 1)
      (w := (w.call env (.getHandleSignalsState d)).write i
        ((env.moment w.calls.length d).getHandleSignalsState (env.type d)))
    simp only [getHandleSignalsStates]
    refine ⟨?_, ?_, hindex, fun d' hd' =>
      registered_of_call (.getHandleSignalsState d) (hregistered d' hd')⟩
    · rw [hcalls]
      simp [Waiting.write, Waiting.call]
    · rw [hstates, List.mapIdx_cons]
      simp only [Waiting.write, Waiting.call, Option.map_map, List.length_append,
        List.length_singleton, Nat.add_assoc, Nat.add_comm 1]
      rfl

/-! ## The end of a wait -/

/-- The last two loops, when `k` dispatchers took the waiter. -/
def finish (env : Environment D A) (ds : List D) (k : ℕ) (w : Waiting D A) : Waiting D A :=
  let w := env.removeAwakables 0 (ds.take k) w
  if w.signalsStates.isSome then env.getHandleSignalsStates k (ds.drop k) w else w

/-- What holds before the last two loops. -/
structure Ready (env : Environment D A) (ds : List D) (k : ℕ) (w : Waiting D A) : Prop where
  hasAwakables : ∀ d ∈ ds.take k, (env.type d).hasAwakables = true
  registered : ∀ d, env.Registered w d → d ∈ ds.take k
  added : ∀ d ∈ ds.take k, ∃ context, .addAwakable d context .ok ∈ w.calls
  not_removed : ∀ d, .removeAwakable d ∉ w.calls

namespace Ready

variable {ds : List D} {k : ℕ}

theorem calls_finish (h : Ready env ds k w) : ∃ gets : List D,
    (env.finish ds k w).calls =
      w.calls ++ ((ds.take k).map .removeAwakable ++ gets.map .getHandleSignalsState) := by
  have hremove := removeAwakables_spec (i := 0) (w := w) h.hasAwakables
  rw [finish]
  split_ifs
  · refine ⟨ds.drop k, ?_⟩
    rw [(getHandleSignalsStates_spec (ds.drop k)).1, hremove.1, List.append_assoc]
  · refine ⟨[], ?_⟩
    rw [hremove.1, List.map_nil, List.append_nil]

theorem resultIndex_finish (h : Ready env ds k w) :
    (env.finish ds k w).resultIndex = w.resultIndex := by
  have hremove := removeAwakables_spec (i := 0) (w := w) h.hasAwakables
  rw [finish]
  split_ifs
  · rw [(getHandleSignalsStates_spec (ds.drop k)).2.2.1, hremove.2.2.1]
  · exact hremove.2.2.1

theorem not_registered_finish (h : Ready env ds k w) (d : D) :
    ¬env.Registered (env.finish ds k w) d := by
  have hremove := (removeAwakables_spec (i := 0) (w := w) h.hasAwakables).2.2.2 d
  have hnot : ¬env.Registered (env.removeAwakables 0 (ds.take k) w) d := by
    intro hd
    obtain ⟨hd, hmem⟩ := hremove hd
    exact hmem (h.registered d hd)
  rw [finish]
  split_ifs
  · exact fun hd => hnot ((getHandleSignalsStates_spec (ds.drop k)).2.2.2 d hd)
  · exact hnot

theorem signalsStates_finish (h : Ready env ds k w) (hk : k ≤ ds.length)
    (hlength : w.calls.length = ds.length + (k + 1)) :
    (env.finish ds k w).signalsStates = w.signalsStates.map (overwrite 0 (env.statesLeft ds k)) := by
  obtain ⟨hcalls, hstates, -, -⟩ := removeAwakables_spec (i := 0) (w := w) h.hasAwakables
  have htake : (ds.take k).length = k := List.length_take_of_le hk
  have hleft : env.statesLeft ds k =
      (ds.take k).mapIdx (fun j d =>
        (env.moment (w.calls.length + j) d).removeAwakable (env.type d)) ++
      (ds.drop k).mapIdx fun j d =>
        (env.moment ((env.removeAwakables 0 (ds.take k) w).calls.length + j) d).getHandleSignalsState
          (env.type d) := by
    rw [statesLeft, ← List.take_append_drop k ds, List.mapIdx_append, List.take_append_drop, htake,
      hcalls, List.length_append, List.length_map, htake, hlength]
    congr 1
    · refine List.mapIdx_eq_mapIdx_iff.2 fun j hj => ?_
      rw [if_pos (hj.trans_eq htake)]
    · refine List.mapIdx_eq_mapIdx_iff.2 fun j hj => ?_
      rw [if_neg (by omega), show ds.length + (k + 1) + (j + k) = ds.length + (k + 1) + k + j by omega]
  rw [finish]
  cases hw : w.signalsStates with
  | none =>
    rw [hw, Option.map_none] at hstates
    rw [hstates, if_neg (by simp), hstates, Option.map_none]
  | some states =>
    rw [hw, Option.map_some] at hstates
    rw [hstates, if_pos (by simp), (getHandleSignalsStates_spec (ds.drop k)).2.1, hstates,
      Option.map_some, Option.map_some, hleft, overwrite_append, List.length_mapIdx, htake,
      Nat.zero_add]

/-- The waiter is only removed where it was registered. -/
theorem removed_finish (h : Ready env ds k w) {j : ℕ}
    (hj : (env.finish ds k w).calls[j]? = some (.removeAwakable d)) :
    ∃ i < j, ∃ context, (env.finish ds k w).calls[i]? = some (.addAwakable d context .ok) := by
  obtain ⟨gets, hcalls⟩ := h.calls_finish
  rw [hcalls] at hj ⊢
  have hle : w.calls.length ≤ j := by
    by_contra hlt
    rw [List.getElem?_append_left (not_le.1 hlt)] at hj
    exact h.not_removed d (List.mem_of_getElem? hj)
  rw [List.getElem?_append_right hle] at hj
  have hmem : d ∈ ds.take k := by
    obtain hd | hd := List.mem_append.1 (List.mem_of_getElem? hj)
    · obtain ⟨d', hd', heq⟩ := List.mem_map.1 hd
      rwa [← WaitCall.removeAwakable.inj heq]
    · obtain ⟨d', -, heq⟩ := List.mem_map.1 hd
      cases heq
  obtain ⟨context, hadded⟩ := h.added d hmem
  obtain ⟨i, hi⟩ := List.mem_iff_getElem?.1 hadded
  have hlt : i < w.calls.length := (List.getElem?_eq_some_iff.1 hi).1
  exact ⟨i, hlt.trans_le hle, context, by rwa [List.getElem?_append_left hlt]⟩

theorem endedBy_finish (h : Ready env ds k w) :
    EndedBy (env.finish ds k w).calls i ↔ EndedBy w.calls i := by
  obtain ⟨gets, hcalls⟩ := h.calls_finish
  simp [EndedBy, hcalls, -List.map_take]

end Ready

/-! ## The three ways -/

variable {waits : List (ℕ × Signals)} {ds : List D} {k : ℕ}

/-- What a call of `WaitManyInternal` finds. -/
def start (env : Environment D A) (states : Option (ℕ → HandleSignalsState)) : Waiting D A where
  awakables := env.awakables
  signalsStates := states

omit [DecidableEq D] in
theorem not_registered_start (states : Option (ℕ → HandleSignalsState)) (d : D) :
    ¬env.Registered (env.start states) d :=
  fun h => h (env.contexts_new d)

omit [DecidableEq D] in
/-- The dispatchers are found up to one, or all of them are. -/
theorem exists_missing_or (os : List (Option D)) :
    (∃ (ds : List D) (rest : List (Option D)), os = ds.map some ++ none :: rest) ∨
      ∃ ds : List D, os = ds.map some := by
  induction os with
  | nil => exact .inr ⟨[], rfl⟩
  | cons o os ih =>
    cases o with
    | none => exact .inl ⟨[], os, rfl⟩
    | some d =>
      obtain ⟨ds, rest, rfl⟩ | ⟨ds, rfl⟩ := ih
      · exact .inl ⟨d :: ds, rest, rfl⟩
      · exact .inr ⟨d :: ds, rfl⟩

/-- A handle is not found. -/
theorem waitManyInternal_of_missing (states : Option (ℕ → HandleSignalsState))
    {rest : List (Option D)}
    (h : (waits.map (·.1)).mapIdx env.getDispatcher = ds.map some ++ none :: rest) :
    ∃ w : Waiting D A, env.waitManyInternal waits (env.start states) = (.invalidArgument, w) ∧
      w.calls = ds.mapIdx (fun j d => .getDispatcher j (some d)) ++
        [.getDispatcher ds.length none] ∧
      w.signalsStates = states ∧ w.resultIndex = ds.length ∧ ∀ d, ¬env.Registered w d := by
  obtain ⟨handles, handles', hhandles, hpre, hpost⟩ := List.mapIdx_eq_append_iff.1 h
  obtain ⟨handle, rest', rfl, hnone, -⟩ := List.mapIdx_eq_cons_iff.1 hpost
  have hlength : handles.length = ds.length := by
    rw [← List.length_mapIdx, hpre, List.length_map]
  have hget : handles.mapIdx (fun j => env.getDispatcher ((env.start states).calls.length + j)) =
      ds.map some := by
    simpa [start] using hpre
  obtain ⟨w, hloop, hcalls, hstates, -, hregistered⟩ := getDispatchers_append (i := 0) hget
  have hcalls' : w.calls = ds.mapIdx fun j d => .getDispatcher j (some d) := by
    rw [hcalls]
    simp [start]
  have hget : env.getDispatcher w.calls.length handle = none := by
    rw [hcalls', List.length_mapIdx, ← hlength]
    simpa using hnone
  refine ⟨{ w.call env (.getDispatcher ds.length none) with resultIndex := ds.length }, ?_, ?_,
    hstates, rfl, fun d hd => not_registered_start states d
      (hregistered d (registered_of_call (.getDispatcher ds.length none) hd))⟩
  · rw [waitManyInternal, hhandles, hloop, getDispatchers, hget]
    simp
  · simp [Waiting.call, hcalls']

omit [DecidableEq D] in
theorem answer_eq_some_iff {rv : MojoResult} : env.answer waits ds i = some rv ↔
    ∃ d signals, (ds.zip (waits.map (·.2)))[i]? = some (d, signals) ∧
      ((env.moment (ds.length + i) d).addAwakable signals (env.type d)).1 = rv := by
  simp [answer, Option.bind_eq_some_iff, List.getElem?_zip_eq_some]
  grind

/-- The dispatchers are found, and the first `k` take the waiter. -/
theorem exists_ready (hfound : (waits.map (·.1)).mapIdx env.getDispatcher = ds.map some)
    (hk : ∀ i < k, env.answer waits ds i = some .ok) (hle : k ≤ ds.length)
    (states : Option (ℕ → HandleSignalsState)) :
    ∃ w₁ w : Waiting D A,
      env.getDispatchers 0 (waits.map (·.1)) (env.start states) = (some ds, w₁) ∧
      env.addAwakables 0 (ds.zip (waits.map (·.2))) w₁ =
        env.addAwakables k ((ds.zip (waits.map (·.2))).drop k) w ∧
      w.calls = ds.mapIdx (fun j d => .getDispatcher j (some d)) ++
        (ds.take k).mapIdx (fun j d => .addAwakable d j .ok) ∧
      w.signalsStates = states ∧ w.resultIndex = 2 ^ 32 - 1 ∧ Ready env ds k w := by
  have hget : (waits.map (·.1)).mapIdx
      (fun j => env.getDispatcher ((env.start states).calls.length + j)) = ds.map some := by
    simpa [start] using hfound
  obtain ⟨w₁, hloop₁, hcalls₁, hstates₁, hindex₁, hregistered₁⟩ :=
    getDispatchers_append (i := 0) hget
  have hcalls₁' : w₁.calls = ds.mapIdx fun j d => .getDispatcher j (some d) := by
    rw [hcalls₁]
    simp [start]
  have hlength : w₁.calls.length = ds.length := by
    rw [hcalls₁', List.length_mapIdx]
  have hwaits : ds.length = waits.length := by
    have := congrArg List.length hfound
    rwa [List.length_mapIdx, List.length_map, List.length_map, eq_comm] at this
  let adds := (ds.zip (waits.map (·.2))).take k
  have hfst : adds.map (·.1) = ds.take k := by
    rw [List.map_take, List.map_fst_zip (by rw [List.length_map, hwaits])]
  have hadds : adds.length = k := by
    rw [← List.length_map (·.1), hfst, List.length_take_of_le hle]
  have hok : ∀ (j : ℕ) d signals, adds[j]? = some (d, signals) →
      ((env.moment (w₁.calls.length + j) d).addAwakable signals (env.type d)).1 = .ok := by
    intro j d signals hj
    have hlt : j < k := (List.getElem?_eq_some_iff.1 hj).1.trans_eq hadds
    obtain ⟨d', signals', hj', hrv⟩ := answer_eq_some_iff.1 (hk j hlt)
    rw [List.getElem?_take_of_lt hlt, hj'] at hj
    obtain ⟨rfl, rfl⟩ := Prod.mk.inj (Option.some.inj hj)
    rwa [hlength]
  obtain ⟨w, hloop, hcalls, hstates, hindex, hregistered⟩ :=
    addAwakables_append (i := 0) (w := w₁) hok
  have hcalls' : w.calls = ds.mapIdx (fun j d => .getDispatcher j (some d)) ++
      (ds.take k).mapIdx (fun j d => .addAwakable d j .ok) := by
    rw [hcalls, hcalls₁', ← hfst]
    congr 1
    refine List.mapIdx_eq_iff.2 fun j => ?_
    simp [Function.comp_def]
  refine ⟨w₁, w, ?_, ?_, hcalls', hstates.trans hstates₁, hindex.trans hindex₁, ?_⟩
  · have hall := hloop₁ []
    rw [List.append_nil] at hall
    simpa [getDispatchers] using hall
  · have hall := hloop ((ds.zip (waits.map (·.2))).drop k)
    rwa [List.take_append_drop, hadds, Nat.zero_add] at hall
  · refine ⟨fun d hd => ?_, fun d hd => ?_, fun d hd => ?_, fun d hd => ?_⟩
    · rw [← hfst] at hd
      obtain ⟨⟨d, signals⟩, hmem, rfl⟩ := List.mem_map.1 hd
      obtain ⟨j, hj⟩ := List.mem_iff_getElem?.1 hmem
      exact Moment.hasAwakables_of_ok (hok j d signals hj)
    · obtain hd | hd := hregistered d hd
      · exact absurd (hregistered₁ d hd) (not_registered_start states d)
      · rwa [← hfst]
    · obtain ⟨j, hj⟩ := List.mem_iff_getElem.1 hd
      exact ⟨j, hcalls' ▸ List.mem_append_right _ (List.mem_mapIdx.2 ⟨j, hj.1, by rw [hj.2]⟩)⟩
    · rw [hcalls'] at hd
      simp at hd

omit [DecidableEq D] in
theorem length_eq_of_found (h : (waits.map (·.1)).mapIdx env.getDispatcher = ds.map some) :
    ds.length = waits.length := by
  have := congrArg List.length h
  rwa [List.length_mapIdx, List.length_map, List.length_map, eq_comm] at this

theorem waitManyInternal_of_ready {states : Option (ℕ → HandleSignalsState)} {w₁ w : Waiting D A}
    {rv rv' : MojoResult} {w' : Waiting D A}
    (hfound : env.getDispatchers 0 (waits.map (·.1)) (env.start states) = (some ds, w₁))
    (hadd : env.addAwakables 0 (ds.zip (waits.map (·.2))) w₁ = (rv, k, w))
    (hrv : (if rv = .alreadyExists then (.ok, w) else if rv = .ok then w.wait env else (rv, w)) =
      (rv', w')) :
    env.waitManyInternal waits (env.start states) = (rv', env.finish ds k w') := by
  simp only [waitManyInternal, hfound, hadd, hrv, finish]

/-- The dispatcher at `k` does not take the waiter. -/
theorem waitManyInternal_of_stopped {rv : MojoResult}
    (hfound : (waits.map (·.1)).mapIdx env.getDispatcher = ds.map some)
    (hk : ∀ i < k, env.answer waits ds i = some .ok) (hstop : env.answer waits ds k = some rv)
    (hrv : rv ≠ .ok) (states : Option (ℕ → HandleSignalsState)) :
    ∃ (d : D) (w : Waiting D A), env.waitManyInternal waits (env.start states) =
        (if rv = .alreadyExists then .ok else rv, env.finish ds k w) ∧
      Ready env ds k w ∧ ds[k]? = some d ∧ w.resultIndex = k ∧
      w.calls = ds.mapIdx (fun j d => .getDispatcher j (some d)) ++
        (ds.take k).mapIdx (fun j d => .addAwakable d j .ok) ++ [.addAwakable d k rv] ∧
      ∀ xs : List HandleSignalsState, k < xs.length →
        w.signalsStates.map (overwrite 0 xs) = states.map (overwrite 0 xs) := by
  obtain ⟨d, signals, hd, hanswer⟩ := answer_eq_some_iff.1 hstop
  have hlt : k < ds.length := (List.getElem?_eq_some_iff.1 (List.getElem?_zip_eq_some.1 hd).1).1
  obtain ⟨w₁, w, hget, hadd, hcalls, hstates, hindex, hready⟩ :=
    exists_ready hfound hk hlt.le states
  have hlength : w.calls.length = ds.length + k := by
    rw [hcalls, List.length_append, List.length_mapIdx, List.length_mapIdx,
      List.length_take_of_le hlt.le]
  -- The state of the dispatcher may be written now. It is written again later.
  let state := ((env.moment (ds.length + k) d).addAwakable signals (env.type d)).2
  let w₂ := w.call env (.addAwakable d k rv)
  let w' : Waiting D A := { state.elim w₂ (w₂.write k) with resultIndex := k }
  have hw' : w.addAwakable env d signals k = (rv, state.elim w₂ (w₂.write k)) := by
    rw [Waiting.addAwakable, hlength]
    simp only [hanswer, if_neg hrv, w₂, state]
  have hsame : w'.awakables = w₂.awakables ∧ w'.calls = w₂.calls := by
    cases hstate : state <;> simp [w', hstate, Waiting.write]
  have hcalls' : w'.calls = w.calls ++ [.addAwakable d k rv] := hsame.2
  have hadd' : env.addAwakables 0 (ds.zip (waits.map (·.2))) w₁ = (rv, k, w') := by
    rw [hadd, List.drop_eq_getElem?_toList_append, hd]
    simp only [Option.toList_some, List.singleton_append, addAwakables, hw']
    cases rv <;> rfl
  refine ⟨d, w', waitManyInternal_of_ready hget hadd' ?_, ?_,
    (List.getElem?_zip_eq_some.1 hd).1, rfl, by rw [hcalls', hcalls], fun xs hxs => ?_⟩
  · rw [if_neg hrv]
    split_ifs <;> rfl
  · refine ⟨hready.hasAwakables, fun d' hd' => ?_, fun d' hd' => ?_, fun d' hd' => ?_⟩
    · rw [Registered, hsame.1] at hd'
      exact hready.registered d' (registered_of_call (.addAwakable d k rv) hd')
    · obtain ⟨context, hmem⟩ := hready.added d' hd'
      exact ⟨context, hcalls' ▸ List.mem_append_left _ hmem⟩
    · rw [hcalls', List.mem_append, List.mem_singleton] at hd'
      exact hready.not_removed d' (hd'.resolve_right nofun)
  · have hw₂ : w₂.signalsStates = states := hstates
    cases hstate : state with
    | none => simp [w', hstate, hw₂]
    | some x =>
      simp only [w', hstate, Option.elim_some, Waiting.write, hw₂, Option.map_map]
      congr 1
      funext states
      exact overwrite_update hxs

omit [DecidableEq D] in
/-- What `Wait` does. -/
theorem exists_wait (env : Environment D A) (w : Waiting D A) : ∃ awoken,
    (∀ e rv, awoken = some (e, rv) → e ∈ w.calls.filterMap (·.added)) ∧
    (w.wait env).1 ≠ .invalidArgument ∧ (w.wait env).2.calls = w.calls ++ [.wait awoken] ∧
    (w.wait env).2.resultIndex = awoken.elim w.resultIndex (fun e => e.1.2 % 2 ^ 32) ∧
    ∀ d, env.Registered (w.wait env).2 d → env.Registered w d := by
  refine ⟨env.wait (w.calls.filterMap (·.added)), env.mem_of_wait _, ?_⟩
  have hresult := env.wait_result (w.calls.filterMap (·.added))
  rw [Waiting.wait]
  cases hawoken : env.wait (w.calls.filterMap (·.added)) with
  | none => exact ⟨nofun, rfl, rfl, fun d => registered_of_call _⟩
  | some awoken =>
    obtain ⟨⟨d, context⟩, rv⟩ := awoken
    refine ⟨?_, rfl, rfl, fun d' => registered_of_call (.wait (some ((d, context), rv)))⟩
    have hmem := hresult (d, context) rv hawoken
    rintro rfl
    simp at hmem

/-- All dispatchers take the waiter. -/
theorem waitManyInternal_of_waited
    (hfound : (waits.map (·.1)).mapIdx env.getDispatcher = ds.map some)
    (hk : ∀ i < ds.length, env.answer waits ds i = some .ok)
    (states : Option (ℕ → HandleSignalsState)) :
    ∃ (awoken : Option ((D × ℕ) × MojoResult)) (rv : MojoResult) (w : Waiting D A),
      env.waitManyInternal waits (env.start states) = (rv, env.finish ds ds.length w) ∧
      Ready env ds ds.length w ∧ rv ≠ .invalidArgument ∧
      w.calls = ds.mapIdx (fun j d => .getDispatcher j (some d)) ++
        ds.mapIdx (fun j d => .addAwakable d j .ok) ++ [.wait awoken] ∧
      w.resultIndex = awoken.elim (2 ^ 32 - 1) (fun e => e.1.2 % 2 ^ 32) ∧
      ∀ d i rv, awoken = some ((d, i), rv) → ds[i]? = some d := by
  obtain ⟨w₁, w, hget, hadd, hcalls, hstates, hindex, hready⟩ :=
    exists_ready hfound hk le_rfl states
  rw [List.take_length] at hcalls
  obtain ⟨awoken, hmem, hrv, hcalls', hindex', hregistered⟩ := exists_wait env w
  have hadd' : env.addAwakables 0 (ds.zip (waits.map (·.2))) w₁ = (.ok, ds.length, w) := by
    have hlength : (ds.zip (waits.map (·.2))).length = ds.length := by
      simp [length_eq_of_found hfound]
    rw [hadd, ← hlength, List.drop_length]
    rfl
  refine ⟨awoken, (w.wait env).1, (w.wait env).2, waitManyInternal_of_ready hget hadd' rfl, ?_, hrv,
    by rw [hcalls', hcalls], by rw [hindex', hindex], fun d i rv h => ?_⟩
  · refine ⟨hready.hasAwakables, fun d hd => hready.registered d (hregistered d hd),
      fun d hd => ?_, fun d hd => ?_⟩
    · obtain ⟨context, hadded⟩ := hready.added d hd
      exact ⟨context, hcalls' ▸ List.mem_append_left _ hadded⟩
    · rw [hcalls', List.mem_append, List.mem_singleton] at hd
      exact hready.not_removed d (hd.resolve_right nofun)
  · obtain ⟨c, hc, hadded⟩ := List.mem_filterMap.1 (hmem (d, i) rv h)
    rw [hcalls] at hc
    obtain hc | hc := List.mem_append.1 hc
    · obtain ⟨j, hj, rfl⟩ := List.mem_mapIdx.1 hc
      cases hadded
    · obtain ⟨j, hj, rfl⟩ := List.mem_mapIdx.1 hc
      obtain ⟨rfl, rfl⟩ := Prod.mk.inj (Option.some.inj hadded)
      exact List.getElem?_eq_getElem hj

/-! ## The contract -/

/-- What `WaitManyInternal` does, however it ends. -/
structure Done (env : Environment D A) (waits : List (ℕ × Signals))
    (states : Option (ℕ → HandleSignalsState)) (rv : MojoResult) (w : Waiting D A) : Prop where
  not_registered : ∀ d, ¬env.Registered w d
  removed : ∀ (j : ℕ) d, w.calls[j]? = some (WaitCall.removeAwakable d) →
    ∃ i < j, ∃ context, w.calls[i]? = some (WaitCall.addAwakable d context .ok)
  ended : ∀ i, EndedBy w.calls i → i < waits.length ∧ w.resultIndex = i
  not_ended : (∀ i, ¬EndedBy w.calls i) → w.resultIndex = 2 ^ 32 - 1
  refused : ∀ ds k, env.Refused waits ds k →
    rv = .invalidArgument ∧ w.signalsStates = states.map (overwrite 0 (env.statesLeft ds k))
  states : rv = .invalidArgument → (∀ ds k, ¬env.Refused waits ds k) → w.signalsStates = states

variable {states : Option (ℕ → HandleSignalsState)}

omit [DecidableEq D] in
/-- The call after the dispatchers were found and took the waiter. -/
theorem endedBy_append (ds : List D) {c : WaitCall D} :
    EndedBy (ds.mapIdx (fun j d => .getDispatcher j (some d)) ++
      (ds.take k).mapIdx (fun j d => .addAwakable d j .ok) ++ [c]) i ↔
    c = .getDispatcher i none ∨ ∃ d, (ds[i]? = some d ∨ c = .getDispatcher i (some d)) ∧
      ((∃ rv ≠ .ok, c = .addAwakable d i rv) ∨ ∃ rv, c = .wait (some ((d, i), rv))) := by
  have hadd (d : D) (rv : MojoResult) (hrv : rv ≠ .ok) : WaitCall.addAwakable d i rv ∉
      (ds.take k).mapIdx fun j d => WaitCall.addAwakable d j .ok := by
    intro hmem
    obtain ⟨j, hj, hcall⟩ := List.mem_mapIdx.1 hmem
    exact hrv (WaitCall.addAwakable.inj hcall).2.2.symm
  have hget (d : D) : WaitCall.getDispatcher i (some d) ∈
      (ds.mapIdx fun j d => WaitCall.getDispatcher j (some d)) ↔ ds[i]? = some d := by
    simp [List.getElem?_eq_some_iff]
  have hiff (d : D) (rv : MojoResult) :
      (rv ≠ .ok ∧ WaitCall.addAwakable d i rv ∈ ds.mapIdx (fun j d => .getDispatcher j (some d)) ++
        (ds.take k).mapIdx (fun j d => .addAwakable d j .ok) ++ [c]) ↔
      rv ≠ .ok ∧ c = .addAwakable d i rv := by
    refine and_congr_right fun hrv => ?_
    rw [List.mem_append, List.mem_append, List.mem_singleton, or_iff_left (hadd d rv hrv)]
    simp [eq_comm]
  rw [EndedBy]
  refine or_congr (by simp [eq_comm]) (exists_congr fun d => and_congr ?_ (or_congr
    (exists_congr fun rv => hiff d rv) (exists_congr fun rv => by simp [eq_comm])))
  rw [List.mem_append, List.mem_append, hget, List.mem_singleton, eq_comm (b := c)]
  simp

omit [DecidableEq D] in
theorem Refused.unique {ds' : List D} {k' : ℕ} (h : env.Refused waits ds k)
    (hfound : (waits.map (·.1)).mapIdx env.getDispatcher = ds'.map some)
    (hk' : ∀ i < k', env.answer waits ds' i = some .ok) (hstop : env.answer waits ds' k' ≠ some .ok) :
    ds = ds' ∧ k = k' := by
  obtain rfl : ds = ds' :=
    List.map_injective_iff.2 (Option.some_injective D) (h.found.symm.trans hfound)
  refine ⟨rfl, ?_⟩
  obtain hlt | rfl | hlt := lt_trichotomy k k'
  · have hrefused := h.refused
    rw [hk' k hlt] at hrefused
    cases hrefused
  · rfl
  · exact absurd (h.added k' hlt) hstop

theorem done_of_missing {rest : List (Option D)}
    (h : (waits.map (·.1)).mapIdx env.getDispatcher = ds.map some ++ none :: rest) :
    ∃ rv w, env.waitManyInternal waits (env.start states) = (rv, w) ∧
      Done env waits states rv w := by
  obtain ⟨w, hrun, hcalls, hstates, hindex, hregistered⟩ :=
    waitManyInternal_of_missing states h
  have hnot (ds' : List D) (k : ℕ) : ¬env.Refused waits ds' k := fun hrefused => by
    have hmem : none ∈ ds'.map some := by
      rw [← hrefused.found, h]
      exact List.mem_append_right _ List.mem_cons_self
    simp at hmem
  refine ⟨_, w, hrun, hregistered, fun j d hj => ?_, fun i hi => ?_, fun hi => ?_,
    fun ds' k hrefused => absurd hrefused (hnot ds' k), fun _ _ => hstates⟩
  · have hmem := List.mem_of_getElem? hj
    simp [hcalls] at hmem
  · obtain rfl : i = ds.length := by
      simpa [EndedBy, hcalls] using hi
    refine ⟨?_, hindex⟩
    have hlength := congrArg List.length h
    simp only [List.length_mapIdx, List.length_map, List.length_append, List.length_cons] at hlength
    omega
  · exact absurd (by simp [EndedBy, hcalls]) (hi ds.length)

theorem done_of_stopped {rv : MojoResult}
    (hfound : (waits.map (·.1)).mapIdx env.getDispatcher = ds.map some)
    (hk : ∀ i < k, env.answer waits ds i = some .ok) (hstop : env.answer waits ds k = some rv)
    (hrv : rv ≠ .ok) :
    ∃ rv w, env.waitManyInternal waits (env.start states) = (rv, w) ∧
      Done env waits states rv w := by
  obtain ⟨d, w, hrun, hready, hd, hindex, hcalls, hstates⟩ :=
    waitManyInternal_of_stopped hfound hk hstop hrv states
  have hlt : k < ds.length := (List.getElem?_eq_some_iff.1 hd).1
  have hended (i : ℕ) : EndedBy (env.finish ds k w).calls i ↔ i = k := by
    rw [hready.endedBy_finish, hcalls, endedBy_append]
    constructor
    · rintro (h | ⟨d', -, ⟨rv', -, h⟩ | ⟨rv', h⟩⟩)
      · cases h
      · exact (WaitCall.addAwakable.inj h).2.1.symm
      · cases h
    · rintro rfl
      exact .inr ⟨d, .inl hd, .inl ⟨rv, hrv, rfl⟩⟩
  have hsame (ds' : List D) (k' : ℕ) (h : env.Refused waits ds' k') : ds' = ds ∧ k' = k :=
    h.unique hfound hk (by rw [hstop]; simpa using hrv)
  refine ⟨_, _, hrun, hready.not_registered_finish, fun j d hj => hready.removed_finish hj,
    fun i hi => ?_, fun hi => ?_, fun ds' k' hrefused => ?_, fun hinvalid hnot => ?_⟩
  · obtain rfl := (hended i).1 hi
    exact ⟨hlt.trans_eq (length_eq_of_found hfound), hready.resultIndex_finish.trans hindex⟩
  · exact absurd ((hended k).2 rfl) (hi k)
  · obtain ⟨rfl, rfl⟩ := hsame ds' k' hrefused
    obtain rfl : rv = .invalidArgument := Option.some.inj (hstop.symm.trans hrefused.refused)
    refine ⟨rfl, ?_⟩
    have hlength : w.calls.length = ds'.length + (k' + 1) := by
      simp [hcalls, hlt.le]
    rw [hready.signalsStates_finish hlt.le hlength]
    exact hstates _ (by rwa [statesLeft, List.length_mapIdx])
  · refine absurd ⟨hfound, hk, ?_⟩ (hnot ds k)
    split_ifs at hinvalid
    rw [hstop, hinvalid]

theorem done_of_waited (hlt : waits.length < 2 ^ 32)
    (hfound : (waits.map (·.1)).mapIdx env.getDispatcher = ds.map some)
    (hk : ∀ i < ds.length, env.answer waits ds i = some .ok) :
    ∃ rv w, env.waitManyInternal waits (env.start states) = (rv, w) ∧
      Done env waits states rv w := by
  obtain ⟨awoken, rv, w, hrun, hready, hrv, hcalls, hindex, hawoken⟩ :=
    waitManyInternal_of_waited hfound hk states
  have hnot (ds' : List D) (k : ℕ) : ¬env.Refused waits ds' k := fun h => by
    have hds := length_eq_of_found hfound
    obtain ⟨rfl, rfl⟩ := h.unique hfound hk (by simp [answer])
    have hrefused := h.refused
    simp [answer] at hrefused
  have hended (i : ℕ) : EndedBy (env.finish ds ds.length w).calls i ↔
      ∃ d rv, awoken = some ((d, i), rv) := by
    have hcalls' := endedBy_append ds (k := ds.length) (c := .wait awoken) (i := i)
    rw [List.take_length] at hcalls'
    rw [hready.endedBy_finish, hcalls, hcalls']
    constructor
    · rintro (h | ⟨d, -, ⟨rv', -, h⟩ | ⟨rv', h⟩⟩)
      · cases h
      · cases h
      · exact ⟨d, rv', WaitCall.wait.inj h⟩
    · rintro ⟨d, rv', rfl⟩
      exact .inr ⟨d, .inl (hawoken d i rv' rfl), .inr ⟨rv', rfl⟩⟩
  refine ⟨rv, _, hrun, hready.not_registered_finish, fun j d hj => hready.removed_finish hj,
    fun i hi => ?_, fun hi => ?_, fun ds' k hrefused => absurd hrefused (hnot ds' k),
    fun hinvalid => absurd hinvalid hrv⟩
  · obtain ⟨d, rv, rfl⟩ := (hended i).1 hi
    have hi := (List.getElem?_eq_some_iff.1 (hawoken d i rv rfl)).1.trans_eq
      (length_eq_of_found hfound)
    refine ⟨hi, hready.resultIndex_finish.trans (hindex.trans ?_)⟩
    exact Nat.mod_eq_of_lt (hi.trans hlt)
  · cases awoken with
    | none => exact hready.resultIndex_finish.trans hindex
    | some awoken => exact absurd ((hended awoken.1.2).2 ⟨awoken.1.1, awoken.2, rfl⟩) (hi _)

omit [DecidableEq D] in
theorem exists_answer (hfound : (waits.map (·.1)).mapIdx env.getDispatcher = ds.map some)
    (hi : i < ds.length) : ∃ rv, env.answer waits ds i = some rv := by
  have hi' := hi.trans_eq (length_eq_of_found hfound)
  exact ⟨_, by rw [answer, List.getElem?_eq_getElem hi, List.getElem?_eq_getElem hi']; rfl⟩

/-- One of the three ways. -/
theorem exists_done (env : Environment D A) (states : Option (ℕ → HandleSignalsState))
    (hlt : waits.length < 2 ^ 32) :
    ∃ rv w, env.waitManyInternal waits (env.start states) = (rv, w) ∧
      Done env waits states rv w := by
  obtain ⟨ds, rest, h⟩ | ⟨ds, hfound⟩ :=
    exists_missing_or ((waits.map (·.1)).mapIdx env.getDispatcher)
  · exact done_of_missing h
  · by_cases hall : ∀ i < ds.length, env.answer waits ds i = some .ok
    · exact done_of_waited hlt hfound hall
    · push Not at hall
      have hstop := Nat.find_spec hall
      have hmin : ∀ i < Nat.find hall, env.answer waits ds i = some .ok := by
        intro i hi
        by_contra hne
        exact Nat.find_min hall hi ⟨hi.trans hstop.1, hne⟩
      obtain ⟨rv, hrv⟩ := exists_answer hfound hstop.1
      exact done_of_stopped hfound hmin hrv (fun h => hstop.2 (h ▸ hrv))

omit [DecidableEq D] in
theorem Done.states_eq_iff {rv : MojoResult} (h : Done env waits states rv w) :
    (rv = .invalidArgument → w.signalsStates = states) ↔
      ∀ ds k states', env.Refused waits ds k → states = some states' →
        ∀ (i : ℕ) state, (env.statesLeft ds k)[i]? = some state → states' i = state := by
  constructor
  · rintro heq ds k states' hrefused rfl
    obtain ⟨hrv, hstates⟩ := h.refused ds k hrefused
    rw [heq hrv, Option.map_some, Option.some_inj] at hstates
    exact overwrite_eq_self_iff.1 hstates.symm
  · intro hspared hrv
    by_cases hrefused : ∃ ds k, env.Refused waits ds k
    · obtain ⟨ds, k, hrefused⟩ := hrefused
      rw [(h.refused ds k hrefused).2]
      cases hstates : states with
      | none => rfl
      | some states' =>
        rw [Option.map_some, overwrite_eq_self_iff.2 (hspared ds k states' hrefused hstates)]
    · push Not at hrefused
      exact h.states hrv hrefused

/-- The contract of `Core::WaitMany` holds if and only if no dispatcher refuses the waiter, or
    the states are null or written already. -/
theorem waitMany_keeps_iff (env : Environment D A) (c : WaitManyArguments) :
    Keeps env c.resultIndex c.signalsStates (env.waitMany c) ↔ env.Spared c := by
  have hnone (rv : MojoResult) : Keeps env c.resultIndex c.signalsStates
      ⟨rv, c.resultIndex, c.signalsStates, env.awakables, []⟩ :=
    ⟨env.contexts_new, nofun, by simp [EndedBy], fun _ => rfl, fun _ => rfl⟩
  rw [waitMany]
  split_ifs with hzero hmax
  · refine iff_of_true (hnone _) fun _ ds k states hrefused => ?_
    have hwaits : c.waits = [] := List.length_eq_zero_iff.1 (Nat.lt_one_iff.1 hzero)
    have := hrefused.refused
    simp [answer, hwaits] at this
  · exact iff_of_true (hnone _) fun hle => absurd hle (not_le.2 hmax)
  · obtain ⟨rv, w, hrun, hdone⟩ := exists_done env c.signalsStates c.length_lt
    rw [start] at hrun
    simp only [hrun]
    constructor
    · exact fun hkeeps _ => hdone.states_eq_iff.1 hkeeps.states
    · intro hspared
      refine ⟨fun d => not_not.1 (hdone.not_registered d), hdone.removed, fun i hi => ?_,
        fun hi => ?_, hdone.states_eq_iff.2 (hspared (not_lt.1 hmax))⟩
      · obtain ⟨hlt, hindex⟩ := hdone.ended i hi
        have hlt' := c.length_lt
        rw [if_pos (by omega), hindex]
      · rw [if_neg (not_not.2 (hdone.not_ended hi))]

/-- Two handles: an end of a message pipe from which nothing can be read yet, and a shared
    buffer. -/
def pipeAndBuffer : Environment DispatcherType (List ℕ) where
  awakableList :=
    { contexts := id
      add := fun contexts _ context => context :: contexts
      remove := fun _ => []
      contexts_add := fun _ _ _ _ => List.mem_cons.1
      contexts_remove := fun _ => rfl }
  maxWaitManyNumHandles := 1000000
  type := id
  getDispatcher := fun _ handle => some (if handle = 1 then .messagePipe else .sharedBuffer)
  moment := fun _ _ => { signalsState :=
    { satisfiedSignals := MOJO_HANDLE_SIGNAL_WRITABLE
      satisfiableSignals := MOJO_HANDLE_SIGNAL_READABLE ||| MOJO_HANDLE_SIGNAL_WRITABLE } }
  awakables := fun _ => []
  others := fun _ => id
  wait := fun _ => none
  contexts_new := fun _ => rfl
  contexts_others := fun _ _ _ => List.Subset.refl _
  mem_of_wait := nofun
  wait_result := nofun

/-- Waiting for both to be readable, with states that are full. -/
def readBoth : WaitManyArguments where
  waits := [(1, MOJO_HANDLE_SIGNAL_READABLE), (2, MOJO_HANDLE_SIGNAL_READABLE)]
  length_lt := by decide
  signalsStates := some fun _ => ⟨0xFFFFFFFF, 0xFFFFFFFF⟩
  resultIndex := some 0xFFFFFFFF

/-- The shared buffer refuses the waiter, and the states are written. -/
theorem not_keeps_pipeAndBuffer : (pipeAndBuffer.waitMany readBoth).rv = .invalidArgument ∧
    ¬Keeps pipeAndBuffer readBoth.resultIndex readBoth.signalsStates
      (pipeAndBuffer.waitMany readBoth) := by
  refine ⟨rfl, fun h => ?_⟩
  have hstates := congrFun (Option.some.inj (h.states rfl)) 0
  exact absurd hstates (by decide)

/-- The contract of `Core::Wait` always holds. -/
theorem coreWait_keeps (env : Environment D A) (handle : ℕ) (signals : Signals)
    (signalsState : Option HandleSignalsState) :
    Keeps env none signalsState (env.coreWait handle signals signalsState) := by
  have hlt : [(handle, signals)].length < 2 ^ 32 := by simp
  obtain ⟨rv, w, hrun, hdone⟩ := exists_done env (signalsState.map fun _ _ => {}) hlt
  rw [start] at hrun
  simp only [coreWait, hrun]
  exact ⟨fun d => not_not.1 (hdone.not_registered d), hdone.removed, fun _ _ => rfl, fun _ => rfl,
    fun hrv => if_neg (not_not.2 hrv)⟩

end Environment

end MojoEdk.Core
