import MojoEdk.Core.WaitMany
import MojoEdk.Library.Machine
import MojoEdk.Ports.Expecting

/-!
# Waking

An awakable is registered with the dispatcher of a message pipe (`AddAwakable`) if its signals
are not satisfied, but may be. It is awoken when they are satisfied, or cannot be any more:
`PortStatusChanged` is called for a port whenever its status changes, and finds the dispatcher
that observes the port.

The status is read and the awakables are told of it while `signal_lock_` is held, but the status
of the port may change in between, and the calls of `PortStatusChanged` that this causes come
later, in any order. They are pending here until they take the lock.

No awakable waits in vain: if its signals are satisfied, or cannot be any more, there is a call
pending, and nothing is registered with a dispatcher that is closed (`waits_or_pending`).

* A step of the nodes that changes what is waited for tells the port (`waits_step`). Reading
  from the port tells nobody, and changes nothing that is waited for.
* What is waited for when the status is read is waited for until the lock is released, or there
  is a call pending (`Dispatcher.Sound`).
-/

namespace MojoEdk.WaitSet.HandleSignalsState

variable {s s' : HandleSignalsState} {signals : Signals}

/-- Signals are not satisfied, but may be. -/
def Waits (s : HandleSignalsState) (signals : Signals) : Prop :=
  ¬s.Satisfies signals ∧ s.CanSatisfy signals

instance : Decidable (s.Waits signals) := inferInstanceAs (Decidable (_ ∧ _))

/-- No signal is satisfied that was not before, and none is impossible that was possible, unless
    it was satisfied. -/
def Sustains (s s' : HandleSignalsState) : Prop :=
  s.Lessens s' ∧
  s.satisfiableSignals &&& (s'.satisfiableSignals ||| s.satisfiedSignals) = s.satisfiableSignals

instance : Decidable (s.Sustains s') := inferInstanceAs (Decidable (_ ∧ _))

theorem Sustains.refl (s : HandleSignalsState) : s.Sustains s := by
  refine ⟨.refl s, ?_⟩
  rw [← UInt32.toBitVec_inj]
  exact BitVec.eq_of_getElem_eq (by simp +contextual)

theorem Sustains.waits (h : s.Sustains s') (hs : s.Waits signals) : s'.Waits signals := by
  obtain ⟨hno, hcan⟩ := hs
  refine ⟨fun hsat => hno (h.1.satisfies hsat), fun hnot => hcan ?_⟩
  have hzero : (s'.satisfiableSignals ||| s.satisfiedSignals) &&& signals = 0 := by
    have hdistrib : (s'.satisfiableSignals ||| s.satisfiedSignals) &&& signals =
        (s'.satisfiableSignals &&& signals) ||| (s.satisfiedSignals &&& signals) := by
      rw [← UInt32.toBitVec_inj]
      exact BitVec.and_or_distrib_right
    rw [hdistrib, hnot, not_not.1 hno]
    rfl
  rw [← h.2, UInt32.and_assoc, hzero, UInt32.and_zero]

end MojoEdk.WaitSet.HandleSignalsState

namespace MojoEdk.Core.Waking

open Ports WaitSet HandleSignalsState

variable {α A L : Type*}

/-! ## What is waited for -/

section Signals

variable {ν ν' : Node α} {p : PortName} {port port' : Port α}

/-- A port that knows no more than before, and expects the same. -/
theorem sustains_of_getPort (hport : ν.getPort p = some port) (hport' : ν'.getPort p = some port')
    (hstate : port.state = .receiving) (hstate' : port'.state = .receiving)
    (hknown : Known port port') (hexpects : Expects port port') :
    (messagePipeState ν p).Sustains (messagePipeState ν' p) := by
  obtain ⟨hnext, hclosed⟩ := hknown
  have hmore := hexpects.canAcceptMoreMessages hclosed
  have hpeer : port'.peerClosed = port.peerClosed :=
    Bool.eq_iff_iff.2 ⟨hclosed, hexpects.closed⟩
  simp only [messagePipeState, getStatus_of_getPort hport, getStatus_of_getPort hport', hstate,
    hstate', hmore, hpeer, if_true]
  revert hnext
  generalize port.messageQueue.hasNextMessage = next
  generalize port'.messageQueue.hasNextMessage = next'
  cases next <;> cases next' <;> cases port.canAcceptMoreMessages <;> cases port.peerClosed <;>
    decide

theorem hasNextMessage_of_getNextMessageIf {queue queue' : MessageQueue α}
    {selector : Option (Message α → Bool)} {m : Message α}
    (h : queue.getNextMessageIf selector = (some m, queue')) : queue.hasNextMessage = true := by
  rw [MessageQueue.getNextMessageIf] at h
  rw [MessageQueue.hasNextMessage]
  split at h
  next => cases h
  next =>
    split_ifs at h with hselected
    · exact (Bool.and_eq_true_iff.1 hselected).1
    · cases h

/-- `GetMessage` takes a message that could be read. -/
theorem sustains_getMessageIf (ν : Node α) (p : PortName)
    (selector : Option (Message α → Bool)) :
    (messagePipeState ν p).Sustains (messagePipeState (ν.getMessageIf p selector).1 p) := by
  rw [Node.getMessageIf]
  split
  next => exact .refl _
  next port hport =>
    split_ifs with hstate
    · exact .refl _
    · exact .refl _
    · split
      next => exact .refl _
      next m queue heq =>
        have hnext := hasNextMessage_of_getNextMessageIf heq
        simp only [messagePipeState, getStatus_setSignalable, getStatus_of_getPort hport,
          getStatus_of_getPort ((Node.getPort_setPort ..).trans (if_pos rfl)),
          not_not.1 hstate, if_true, hnext]
        split_ifs <;> decide

end Signals

section Steps

variable {s s' : System α} {n : NodeName} {p : PortName}

theorem messagePipeState_commit (s : System α) (ν : Node α) (n : NodeName) (p : PortName) :
    messagePipeState ((s.commit ν).node n) p =
      messagePipeState (if n = ν.name then ν else s.node n) p := by
  rw [messagePipeState, messagePipeState, Node.getStatus, Node.getStatus, System.getPort_commit]
  split_ifs <;> rfl

/-- A step changes nothing that is waited for at a port that is held, or tells the port. -/
theorem waits_step (h : System.Reachable System.Lossy s) {act : Action α} (hG : s.Lossy act)
    (hs : s.step act = some s') (hp : (n, p) ∈ s.held) (hp' : (n, p) ∈ s'.held) :
    s.Notifies s' n p ∨
      (messagePipeState (s.node n) p).Sustains (messagePipeState (s'.node n) p) := by
  obtain ⟨hlt, port, hport, hstate⟩ := h.receives_held hp
  obtain ⟨-, port', hport', hstate'⟩ := (h.step hG hs).receives_held hp'
  have hname := h.name_fresh.1
  by_cases hread : ∃ selector, act = .getMessageIf n p selector
  · obtain ⟨selector, rfl⟩ := hread
    rw [System.step] at hs
    split_ifs at hs
    obtain rfl := Option.some.inj hs
    right
    have hsustains := sustains_getMessageIf (s.start n) p selector
    have hν := ((Node.Kept.refl (s.start n)).getMessageIf p selector).name.trans (hname n)
    have hnode (ν : Node α) (hν : ν.name = n) :
        messagePipeState ((s.commit ν).node n) p = messagePipeState ν p := by
      rw [messagePipeState_commit, if_pos hν.symm]
    rw [System.getMessageIf]
    split
    next heq =>
      rw [heq] at hsustains hν
      exact (hnode _ hν).symm ▸ hsustains
    next heq =>
      rw [heq] at hsustains hν
      exact (hnode _ hν).symm ▸ hsustains
  · have hother : ∀ selector, act ≠ .getMessageIf n p selector := not_exists.1 hread
    have htold := ((System.informs_step hname hs hlt hport (h.signalable hp hport)).2 hother).told
    rcases htold with hnot | hknown
    · exact .inl hnot
    · rcases System.expects_step hname hs hlt hport hother with hnot | hexpects
      · exact .inl hnot
      · exact .inr (sustains_of_getPort hport hport' hstate hstate'
          (hknown p port' hport' rfl hstate') (hexpects p port' hport' rfl hstate'))

end Steps

/-! ## Dispatchers -/

/-- `AwakableList`: the awakables, with the signals that each of them waits for. Those that are
    awoken are removed, unless they ask to be kept. -/
structure Awakables (A L : Type*) where
  entries : L → List (A × Signals)
  keeps : A → Bool
  new : L
  add : L → A → Signals → L
  remove : L → A → L
  awakeForStateChange : L → HandleSignalsState → L
  cancelAll : L → L
  entries_new : entries new = []
  entries_add : ∀ l a signals, entries (add l a signals) ⊆ (a, signals) :: entries l
  entries_remove : ∀ l a, entries (remove l a) ⊆ entries l
  entries_awakeForStateChange : ∀ l state, ∀ x ∈ entries (awakeForStateChange l state),
    x ∈ entries l ∧ (keeps x.1 = false → state.Waits x.2)
  entries_cancelAll : ∀ l, entries (cancelAll l) = []

/-- A section that holds `signal_lock_`, after it has read the state of the signals. -/
inductive Section (A : Type*)
  | addAwakable (awakable : A) (signals : Signals) (state : HandleSignalsState)
  | awakeForStateChange (state : HandleSignalsState)

/-- The state that was read. -/
def Section.state : Section A → HandleSignalsState
  | .addAwakable _ _ state => state
  | .awakeForStateChange state => state

/-- `MessagePipeDispatcher`, and whether it is the observer of its port. -/
structure Dispatcher (A L : Type*) where
  observes : Bool := true
  portClosed : Bool := false
  portTransferred : Bool := false
  inTransit : Bool := false
  awakables : L
  signalLock : Option (Section A) := none

/-- The calls that take the lock. `AwakeForStateChange` is the one that `ReadMessage` and
    `WriteMessage` make when the peer is closed. -/
inductive Call (A : Type*)
  | addAwakable (awakable : A) (signals : Signals)
  | removeAwakable (awakable : A)
  | awakeForStateChange
  | beginTransit
  | cancelTransit
  | completeTransitAndClose
  | close

namespace Dispatcher

variable (list : Awakables A L) (d : Dispatcher A L) (state : HandleSignalsState)

/-- The state is read for the awakables. -/
def awakeForStateChange : Dispatcher A L :=
  { d with signalLock := some (.awakeForStateChange state) }

/-- `OnPortStatusChanged`. -/
def onPortStatusChanged : Dispatcher A L :=
  if d.portTransferred then d else d.awakeForStateChange state

/-- `CloseNoLock`. -/
def closeNoLock : Dispatcher A L :=
  if d.portClosed || d.inTransit then d
  else { d with portClosed := true, awakables := list.cancelAll d.awakables }

/-- A call takes the lock, and reads the state of the signals if it has to. -/
def call : Call A → Dispatcher A L
  | .addAwakable awakable signals =>
    if d.portClosed || d.inTransit then d
    else { d with signalLock := some (.addAwakable awakable signals state) }
  | .removeAwakable awakable => { d with awakables := list.remove d.awakables awakable }
  | .awakeForStateChange => d.awakeForStateChange state
  | .beginTransit => { d with inTransit := true }
  | .cancelTransit => { d with inTransit := false }.awakeForStateChange state
  | .completeTransitAndClose =>
    { d with inTransit := false, portTransferred := true }.closeNoLock list
  | .close => d.closeNoLock list

/-- The section that holds the lock goes on with the state that it has read. -/
def leave : Dispatcher A L :=
  match d.signalLock with
  | none => d
  | some (.addAwakable awakable signals state) =>
    if (Moment.addToList { signalsState := state } signals).1 = .ok then
      { d with signalLock := none, awakables := list.add d.awakables awakable signals }
    else { d with signalLock := none }
  | some (.awakeForStateChange state) =>
    { d with signalLock := none, awakables := list.awakeForStateChange d.awakables state }

/-- Nothing is registered with a dispatcher that is closed, or is going to be. -/
def Cancels (list : Awakables A L) (d : Dispatcher A L) : Prop :=
  d.portClosed = true → list.entries d.awakables = [] ∧
    ∀ awakable signals state, d.signalLock ≠ some (.addAwakable awakable signals state)

/-- What is waited for is current: the awakables that are registered, unless they are just
    being awoken, and what was waited for when the state was read. -/
structure Sound (list : Awakables A L) (d : Dispatcher A L) (current : Signals → Prop) : Prop where
  closed : d.Cancels list
  observes : d.portClosed = false → d.observes = true ∧ d.portTransferred = false
  entries : d.portClosed = false → (∀ state, d.signalLock ≠ some (.awakeForStateChange state)) →
    ∀ x ∈ list.entries d.awakables, list.keeps x.1 = false → current x.2
  read : d.portClosed = false → ∀ held ∈ d.signalLock, ∀ signals, held.state.Waits signals →
    current signals

variable {list d state} {current current' : Signals → Prop}

theorem cancels_of_open (hopen : d.portClosed = false) : d.Cancels list :=
  fun hclosed => absurd hclosed (Bool.eq_false_iff.1 hopen)

/-- The awakables are told, and none are added. -/
theorem Cancels.awakeForStateChange (h : d.Cancels list) :
    (d.awakeForStateChange state).Cancels list :=
  fun hclosed => ⟨(h hclosed).1, by simp [Dispatcher.awakeForStateChange]⟩

theorem Cancels.onPortStatusChanged (h : d.Cancels list) :
    (d.onPortStatusChanged state).Cancels list := by
  rw [Dispatcher.onPortStatusChanged]
  split_ifs
  · exact h
  · exact h.awakeForStateChange

/-- A dispatcher that is closed cancels its awakables. -/
theorem Cancels.closeNoLock (h : d.Cancels list) (hlock : d.signalLock = none) :
    (d.closeNoLock list).Cancels list := by
  rw [Dispatcher.closeNoLock]
  split_ifs
  · exact h
  · exact fun _ => ⟨list.entries_cancelAll _, by simp [hlock]⟩

theorem Cancels.call (h : d.Cancels list) (hlock : d.signalLock = none) (c : Call A) :
    (d.call list state c).Cancels list := by
  cases c with
  | addAwakable awakable signals =>
    rw [Dispatcher.call]
    split_ifs with hclosed
    · exact h
    · rw [Bool.or_eq_true, not_or] at hclosed
      exact cancels_of_open (Bool.eq_false_iff.2 hclosed.1)
  | removeAwakable awakable =>
    have hsubset := list.entries_remove d.awakables awakable
    exact fun hclosed => ⟨List.subset_nil.1 ((h hclosed).1 ▸ hsubset), (h hclosed).2⟩
  | awakeForStateChange => exact h.awakeForStateChange
  | beginTransit => exact h
  | cancelTransit => exact Cancels.awakeForStateChange (d := { d with inTransit := false }) h
  | completeTransitAndClose =>
    exact Cancels.closeNoLock (d := { d with inTransit := false, portTransferred := true }) h hlock
  | close => exact h.closeNoLock hlock

/-- No dispatcher is closed while a section holds the lock to add an awakable. -/
theorem Cancels.portClosed_eq_false (h : d.Cancels list) {awakable : A} {signals : Signals}
    (hlock : d.signalLock = some (.addAwakable awakable signals state)) : d.portClosed = false :=
  Bool.eq_false_iff.2 fun hclosed => (h hclosed).2 _ _ _ hlock

theorem Cancels.leave (h : d.Cancels list) : (d.leave list).Cancels list := by
  rw [Dispatcher.leave]
  split
  next => exact h
  next hlock =>
    have hopen := h.portClosed_eq_false hlock
    split_ifs <;> exact cancels_of_open hopen
  next state hlock =>
    refine fun hclosed => ⟨List.eq_nil_iff_forall_not_mem.2 fun x hx => ?_, by simp⟩
    have hold := (list.entries_awakeForStateChange d.awakables state x hx).1
    rw [(h hclosed).1] at hold
    cases hold

theorem Sound.mono (h : d.Sound list current)
    (hcurrent : ∀ signals, current signals → current' signals) : d.Sound list current' where
  closed := h.closed
  observes := h.observes
  entries hopen hlock x hx hkeeps := hcurrent _ (h.entries hopen hlock x hx hkeeps)
  read hopen held hheld signals hwaits := hcurrent _ (h.read hopen held hheld signals hwaits)

theorem sound_new (current : Signals → Prop) :
    Dispatcher.Sound list { awakables := list.new } current where
  closed := cancels_of_open rfl
  observes _ := ⟨rfl, rfl⟩
  entries _ _ x hx := by
    rw [list.entries_new] at hx
    cases hx
  read _ _ hheld := by cases hheld

/-- Nobody waits at a dispatcher that is closed. -/
theorem Cancels.sound (h : d.Cancels list) (hclosed : d.portClosed = true) :
    d.Sound list current where
  closed := h
  observes hopen := absurd hclosed (Bool.eq_false_iff.1 hopen)
  entries hopen := absurd hclosed (Bool.eq_false_iff.1 hopen)
  read hopen := absurd hclosed (Bool.eq_false_iff.1 hopen)

/-- What was waited for may no longer be, if the awakables are told. -/
theorem Sound.awakeForStateChange (h : d.Sound list current)
    (hstate : ∀ signals, state.Waits signals → current' signals) :
    (d.awakeForStateChange state).Sound list current' where
  closed := h.closed.awakeForStateChange
  observes := h.observes
  entries _ hlock := absurd rfl (hlock state)
  read _ held hheld signals hwaits := by
    obtain rfl := Option.some.inj hheld
    exact hstate signals hwaits

theorem Sound.onPortStatusChanged (h : d.Sound list current)
    (hstate : ∀ signals, state.Waits signals → current' signals) :
    (d.onPortStatusChanged state).Sound list current' := by
  rw [Dispatcher.onPortStatusChanged]
  split_ifs with htransferred
  · -- A port is transferred with its dispatcher, which is closed then.
    have hclosed : d.portClosed = true := by
      by_contra hopen
      have hnot := (h.observes (Bool.eq_false_iff.2 hopen)).2
      rw [hnot] at htransferred
      cases htransferred
    exact h.closed.sound hclosed
  · exact h.awakeForStateChange hstate

/-- Unless it is in transit, a dispatcher is closed. -/
theorem portClosed_closeNoLock (htransit : d.inTransit = false) :
    (d.closeNoLock list).portClosed = true := by
  rw [closeNoLock, htransit, Bool.or_false]
  split_ifs with hclosed
  · exact hclosed
  · rfl

theorem Sound.call (h : d.Sound list current) (hlock : d.signalLock = none)
    (hstate : ∀ signals, state.Waits signals → current signals) (c : Call A) :
    (d.call list state c).Sound list current := by
  cases c with
  | addAwakable awakable signals =>
    rw [Dispatcher.call]
    split_ifs with hclosed
    · exact h
    · have hopen : d.portClosed = false := by
        rw [Bool.or_eq_true, not_or] at hclosed
        exact Bool.eq_false_iff.2 hclosed.1
      exact
        { closed := cancels_of_open hopen
          observes := h.observes
          entries := fun hopen _ => h.entries hopen (by simp [hlock])
          read := fun _ held hheld signals hwaits => by
            obtain rfl := Option.some.inj hheld
            exact hstate signals hwaits }
  | removeAwakable awakable =>
    have hsubset := list.entries_remove d.awakables awakable
    exact
      { closed := h.closed.call hlock (.removeAwakable awakable)
        observes := h.observes
        entries := fun hopen hlock x hx => h.entries hopen hlock x (hsubset hx)
        read := h.read }
  | awakeForStateChange => exact h.awakeForStateChange hstate
  | beginTransit => exact ⟨h.closed, h.observes, h.entries, h.read⟩
  | cancelTransit =>
    have hcancelled : Sound list { d with inTransit := false } current :=
      ⟨h.closed, h.observes, h.entries, h.read⟩
    exact hcancelled.awakeForStateChange hstate
  | completeTransitAndClose =>
    exact (h.closed.call hlock .completeTransitAndClose).sound (portClosed_closeNoLock rfl)
  | close =>
    by_cases htransit : d.inTransit = true
    · have hsame : d.closeNoLock list = d := by rw [closeNoLock, htransit, Bool.or_true, if_pos rfl]
      exact (show d.call list state .close = d from hsame).symm ▸ h
    · exact (h.closed.call hlock .close).sound
        (portClosed_closeNoLock (Bool.eq_false_iff.2 htransit))

/-- An awakable is only added if the state that was read is waited for, and the awakables that
    are not awoken wait for it. -/
theorem Sound.leave (h : d.Sound list current) : (d.leave list).Sound list current := by
  have hfree {d : Dispatcher A L} (hlock : d.signalLock = none) :
      ∀ held ∈ d.signalLock, ∀ signals, held.state.Waits signals → current signals := by
    intro held hheld
    rw [hlock] at hheld
    cases hheld
  rw [Dispatcher.leave]
  split
  next => exact h
  next awakable signals state hlock =>
    have hopen := h.closed.portClosed_eq_false hlock
    have hentries := h.entries hopen (by simp [hlock])
    have hread := h.read hopen _ hlock
    split_ifs with hadded
    · have hwaits : state.Waits signals := by
        rw [Moment.addToList] at hadded
        split_ifs at hadded with hno hcan
        exact ⟨hno, hcan⟩
      exact
        { closed := cancels_of_open hopen
          observes := h.observes
          entries := fun _ _ x hx hkeeps => by
            rcases List.mem_cons.1 (list.entries_add _ _ _ hx) with rfl | hold
            · exact hread signals hwaits
            · exact hentries x hold hkeeps
          read := fun _ => hfree rfl }
    · exact
        { closed := cancels_of_open hopen
          observes := h.observes
          entries := fun _ _ => hentries
          read := fun _ => hfree rfl }
  next state hlock =>
    have hawake := list.entries_awakeForStateChange d.awakables state
    have hclosed := h.closed.leave
    rw [Dispatcher.leave, hlock] at hclosed
    exact
      { closed := hclosed
        observes := h.observes
        entries := fun hopen _ x hx hkeeps =>
          h.read hopen _ hlock x.2 ((hawake x hx).2 hkeeps)
        read := fun _ => hfree rfl }

end Dispatcher

/-! ## Runs -/

/-- The nodes, the dispatchers of their ports, and the calls of `PortStatusChanged` that are to
    be made. -/
structure State (α A L : Type*) where
  system : System α := {}
  dispatchers : NodeName × PortName → Option (Dispatcher A L) := fun _ => none
  pending : List (NodeName × PortName) := []

/-- What happens in a run. -/
inductive Input (α A : Type*)
  /-- A step of the nodes. -/
  | act (action : Action α)
  /-- A dispatcher is created, and observes its port. -/
  | create (n : NodeName) (p : PortName)
  /-- `SetPortObserver` without an observer. -/
  | unobserve (n : NodeName) (p : PortName)
  /-- A call on a dispatcher, which takes the lock. -/
  | call (n : NodeName) (p : PortName) (c : Call A)
  /-- A call on a dispatcher goes on and releases the lock. -/
  | leave (n : NodeName) (p : PortName)
  /-- The `i`th pending call of `PortStatusChanged`. -/
  | portStatusChanged (i : ℕ)

namespace State

variable (s : State α A L)

def setDispatcher (x : NodeName × PortName) (d : Dispatcher A L) : State α A L :=
  { s with dispatchers := Function.update s.dispatchers x (some d) }

/-- The state of the signals of a message pipe. -/
def signalsState (x : NodeName × PortName) : HandleSignalsState :=
  messagePipeState (s.system.node x.1) x.2

/-- The nodes have taken a step. A port that the embedder comes to hold is new, and has no
    observer. -/
def actTo (system : System α) : State α A L where
  system := system
  dispatchers x := if x ∈ system.held ∧ x ∉ s.system.held then none else s.dispatchers x
  pending := s.pending ++ system.statusChanged.drop s.system.statusChanged.length

/-- `PortStatusChanged`, which finds the observer of the port and calls it. -/
def portStatusChanged (i : ℕ) : Option (State α A L) :=
  match s.pending[i]? with
  | none => none
  | some x =>
    let s := { s with pending := s.pending.eraseIdx i }
    match s.dispatchers x with
    | none => some s
    | some d =>
      if !d.observes then some s
      else if d.signalLock.isSome then none
      else some (s.setDispatcher x (d.onPortStatusChanged (s.signalsState x)))

/-- A step, if the input is possible: a lock that is held is waited for. -/
def step (list : Awakables A L) : Input α A → Option (State α A L)
  | .act action => (s.system.step action).map s.actTo
  | .create n p =>
    match s.dispatchers (n, p) with
    | some _ => none
    | none => some (s.setDispatcher (n, p) { awakables := list.new })
  | .unobserve n p =>
    (s.dispatchers (n, p)).map fun d => s.setDispatcher (n, p) { d with observes := false }
  | .call n p c =>
    match s.dispatchers (n, p) with
    | none => none
    | some d =>
      -- The call waits for `signal_lock_`, which another thread holds in its section.
      if d.signalLock.isSome then none
      else some (s.setDispatcher (n, p) (d.call list (s.signalsState (n, p)) c))
  | .leave n p => (s.dispatchers (n, p)).map fun d => s.setDispatcher (n, p) (d.leave list)
  | .portStatusChanged i => s.portStatusChanged i

/-- The embedder uses ports that it holds, and a dispatcher observes its port until it is closed
    or the port is sent. -/
def Orderly : Input α A → Prop
  | .act action => s.system.Lossy action
  | .unobserve n p => (n, p) ∉ s.system.held ∨ (s.dispatchers (n, p)).any (·.portClosed) = true
  | _ => True

instance (i : Input α A) : Decidable (s.Orderly i) :=
  match i with
  | .act action => inferInstanceAs (Decidable (s.system.Lossy action))
  | .unobserve _ _ => inferInstanceAs (Decidable (_ ∨ _))
  | .create _ _ | .call _ _ _ | .leave _ _ | .portStatusChanged _ =>
    inferInstanceAs (Decidable True)

/-- Signals that are waited for, or there is a call pending. -/
def Current (x : NodeName × PortName) (signals : Signals) : Prop :=
  (s.signalsState x).Waits signals ∨ x ∈ s.pending

/-- The dispatcher of a port that is held knows what is waited for. -/
structure Inv (list : Awakables A L) : Prop where
  reachable : System.Reachable System.Lossy s.system
  closed : ∀ x, ∀ d ∈ s.dispatchers x, d.Cancels list
  sound : ∀ x ∈ s.system.held, ∀ d ∈ s.dispatchers x, d.Sound list (s.Current x)

variable {s} {s' : State α A L} {list : Awakables A L} {x : NodeName × PortName}

namespace Inv

theorem init : State.Inv ({} : State α A L) list where
  reachable := .init
  closed _ _ hd := by cases hd
  sound _ hx := by cases hx

theorem of_update (hreachable : System.Reachable System.Lossy s.system)
    (hclosed : ∀ y, ∀ d ∈ s.dispatchers y, d.Cancels list)
    (hother : ∀ y ∈ s.system.held, y ≠ x → ∀ d ∈ s.dispatchers y, d.Sound list (s.Current y))
    {d : Dispatcher A L} (hcancels : d.Cancels list)
    (hd : x ∈ s.system.held → d.Sound list (s.Current x)) :
    (s.setDispatcher x d).Inv list where
  reachable := hreachable
  closed y e he := by
    replace he : Function.update s.dispatchers x (some d) y = some e := he
    rw [Function.update_apply] at he
    split_ifs at he with hyx
    · obtain rfl := Option.some.inj he
      exact hcancels
    · exact hclosed y e he
  sound y hy e he := by
    replace he : Function.update s.dispatchers x (some d) y = some e := he
    rw [Function.update_apply] at he
    split_ifs at he with hyx
    · obtain rfl := Option.some.inj he
      exact hyx.symm ▸ hd (hyx ▸ hy)
    · exact hother y hy hyx e he

theorem setDispatcher (h : s.Inv list) {d : Dispatcher A L} (hcancels : d.Cancels list)
    (hd : x ∈ s.system.held → d.Sound list (s.Current x)) : (s.setDispatcher x d).Inv list :=
  of_update h.reachable h.closed (fun y hy _ => h.sound y hy) hcancels hd

/-- A step of the nodes changes nothing that is waited for, or there is a call pending. -/
theorem act (h : s.Inv list) {action : Action α} (hG : s.system.Lossy action) {system : System α}
    (hs : s.system.step action = some system) : (s.actTo system).Inv list where
  reachable := h.reachable.step hG hs
  closed x d hd := by
    replace hd : (if x ∈ system.held ∧ x ∉ s.system.held then none else s.dispatchers x) =
      some d := hd
    split_ifs at hd
    exact h.closed x d hd
  sound x hx d hd := by
    replace hd : (if x ∈ system.held ∧ x ∉ s.system.held then none else s.dispatchers x) =
      some d := hd
    split_ifs at hd with hnew
    have hheld : x ∈ s.system.held := by
      by_contra hnot
      exact hnew ⟨hx, hnot⟩
    refine (h.sound x hheld d hd).mono fun signals hcurrent => ?_
    rcases hcurrent with hwaits | hpending
    · rcases waits_step h.reachable hG hs hheld hx with ⟨told, htold, hmem⟩ | hsustains
      · right
        have hdrop : system.statusChanged.drop s.system.statusChanged.length = told := by
          rw [htold, List.drop_left]
        exact List.mem_append_right _ (hdrop ▸ hmem)
      · exact .inl (hsustains.waits hwaits)
    · exact .inr (List.mem_append_left _ hpending)

/-- A call that is made is not pending any more, and the awakables are told. -/
theorem portStatusChanged (h : s.Inv list) {i : ℕ} (hs : s.portStatusChanged i = some s') :
    s'.Inv list := by
  rw [State.portStatusChanged] at hs
  split at hs
  next => cases hs
  next x hi =>
    set s₁ : State α A L := { s with pending := s.pending.eraseIdx i }
    -- Calls for other ports are pending still.
    have hother (y : NodeName × PortName) (hy : y ∈ s.system.held) (hyx : y ≠ x)
        (d : Dispatcher A L) (hd : d ∈ s.dispatchers y) : d.Sound list (s₁.Current y) := by
      refine (h.sound y hy d hd).mono fun signals hcurrent => hcurrent.imp_right fun hmem => ?_
      obtain ⟨j, hj⟩ := List.mem_iff_getElem?.1 hmem
      refine List.mem_eraseIdx_iff_getElem?.2 ⟨j, ?_, hj⟩
      rintro rfl
      exact hyx (Option.some.inj (hj.symm.trans hi))
    have hsame (hx : ∀ d ∈ s.dispatchers x, x ∈ s.system.held → d.Sound list (s₁.Current x)) :
        s₁.Inv list := by
      refine ⟨h.reachable, h.closed, fun y hy d hd => ?_⟩
      by_cases hyx : y = x
      · exact hyx ▸ hx d (hyx ▸ hd) (hyx ▸ hy)
      · exact hother y hy hyx d hd
    dsimp only at hs
    split at hs
    next hnone =>
      obtain rfl := Option.some.inj hs
      refine hsame fun d hd => ?_
      cases hnone.symm.trans hd
    next d hd =>
      split_ifs at hs with hobserves hlock
      · obtain rfl := Option.some.inj hs
        refine hsame fun e he hx => ?_
        obtain rfl := Option.some.inj (hd.symm.trans he)
        have hsound := h.sound x hx d hd
        have hclosed : d.portClosed = true := by
          by_contra hopen
          rw [(hsound.observes (Bool.eq_false_iff.2 hopen)).1] at hobserves
          cases hobserves
        exact hsound.closed.sound hclosed
      · obtain rfl := Option.some.inj hs
        refine of_update (s := s₁) h.reachable h.closed hother
          (h.closed x d hd).onPortStatusChanged fun hx => ?_
        exact (h.sound x hx d hd).onPortStatusChanged fun signals hwaits => .inl hwaits

theorem step (h : s.Inv list) {i : Input α A} (hG : s.Orderly i) (hs : s.step list i = some s') :
    s'.Inv list := by
  cases i with
  | act action =>
    obtain ⟨system, hsystem, rfl⟩ := Option.map_eq_some_iff.1 hs
    exact h.act hG hsystem
  | create n p =>
    rw [State.step] at hs
    split at hs
    next => cases hs
    next =>
      obtain rfl := Option.some.inj hs
      exact h.setDispatcher (Dispatcher.cancels_of_open rfl) fun _ => Dispatcher.sound_new _
  | unobserve n p =>
    obtain ⟨d, hd, rfl⟩ := Option.map_eq_some_iff.1 hs
    have hcancels : Dispatcher.Cancels list { d with observes := false } := h.closed _ d hd
    refine h.setDispatcher hcancels fun hx => hcancels.sound ?_
    rcases hG with hnot | hclosed
    · exact absurd hx hnot
    · rwa [hd] at hclosed
  | call n p c =>
    rw [State.step] at hs
    split at hs
    next => cases hs
    next d hd =>
      split_ifs at hs with hlock
      obtain rfl := Option.some.inj hs
      rw [Bool.not_eq_true, Option.isSome_eq_false_iff, Option.isNone_iff_eq_none] at hlock
      exact h.setDispatcher ((h.closed _ d hd).call hlock c) fun hx =>
        (h.sound _ hx d hd).call hlock (fun signals hwaits => .inl hwaits) c
  | leave n p =>
    obtain ⟨d, hd, rfl⟩ := Option.map_eq_some_iff.1 hs
    exact h.setDispatcher (h.closed _ d hd).leave fun hx => (h.sound _ hx d hd).leave
  | portStatusChanged i => exact h.portStatusChanged hs

end Inv

end State

/-- Runs of the nodes and of the dispatchers. -/
def machine (list : Awakables A L) : Machine (State α A L) (Input α A) where
  init := {}
  step s i := s.step list i

theorem inv_of_reachable {list : Awakables A L} {s : State α A L}
    (hs : (machine list).Reachable State.Orderly s) : s.Inv list :=
  hs.invariant (P := fun s => s.Inv list) .init fun h hG hs => h.step hG hs

/-! ### Results -/

/-- Nothing is registered with a dispatcher that is closed. An awakable that is registered with
    the dispatcher of a port that is held waits for signals that are not satisfied, but may be, or
    there is a call of `PortStatusChanged` pending for the port, or it is about to be awoken. -/
theorem waits_or_pending {list : Awakables A L} {s : State α A L}
    (hs : (machine list).Reachable State.Orderly s) {n : NodeName} {p : PortName}
    {d : Dispatcher A L} (hd : s.dispatchers (n, p) = some d) :
    (d.portClosed = true → list.entries d.awakables = []) ∧
      ((n, p) ∈ s.system.held → (n, p) ∉ s.pending →
        (∀ state, d.signalLock ≠ some (.awakeForStateChange state)) →
        ∀ awakable signals, (awakable, signals) ∈ list.entries d.awakables →
          list.keeps awakable = false →
            ¬(messagePipeState (s.system.node n) p).Satisfies signals ∧
              (messagePipeState (s.system.node n) p).CanSatisfy signals) := by
  have h := inv_of_reachable hs
  refine ⟨fun hclosed => (h.closed _ d hd hclosed).1,
    fun hp hpending hlock awakable signals hawakable hkeeps => ?_⟩
  have hsound := h.sound _ hp d hd
  have hopen : d.portClosed = false := by
    rw [Bool.eq_false_iff]
    intro hclosed
    rw [(hsound.closed hclosed).1] at hawakable
    cases hawakable
  exact (hsound.entries hopen hlock _ hawakable hkeeps).resolve_right hpending

/-- A list of awakables none of which is kept. -/
def awakableList : Awakables ℕ (List (ℕ × Signals)) where
  entries := id
  keeps _ := false
  new := []
  add l awakable signals := l ++ [(awakable, signals)]
  remove l awakable := l.filter (·.1 ≠ awakable)
  awakeForStateChange l state := l.filter fun x => state.Waits x.2
  cancelAll _ := []
  entries_new := rfl
  entries_add l awakable signals x hx := by
    rcases List.mem_append.1 hx with hold | hnew
    · exact List.mem_cons_of_mem _ hold
    · exact List.mem_singleton.1 hnew ▸ List.mem_cons_self
  entries_remove _ _ := List.filter_subset_self _
  entries_awakeForStateChange _ _ x hx :=
    ⟨List.mem_of_mem_filter hx, fun _ => of_decide_eq_true (List.mem_filter.1 hx).2⟩
  entries_cancelAll _ := rfl

/-- An awakable is registered while a message arrives, and awoken. When the message has been
    read, another one is registered. -/
theorem waits_or_pending_registered : ∃ (s : State ℕ ℕ (List (ℕ × Signals)))
    (d : Dispatcher ℕ (List (ℕ × Signals))),
    ((machine awakableList).Reachable State.Orderly s ∧ (1, 1) ∈ s.system.held ∧
      s.dispatchers (1, 1) = some d ∧ d.signalLock.isNone = true ∧
      (8, MOJO_HANDLE_SIGNAL_READABLE) ∈ awakableList.entries d.awakables ∧ (1, 1) ∉ s.pending) ∧
    (d.portClosed = true → awakableList.entries d.awakables = []) ∧
      ¬(messagePipeState (s.system.node 1) 1).Satisfies MOJO_HANDLE_SIGNAL_READABLE ∧
      (messagePipeState (s.system.node 1) 1).CanSatisfy MOJO_HANDLE_SIGNAL_READABLE := by
  obtain ⟨s, hs, hp, hd, hpending⟩ := Machine.exists_reachable
    (M := machine (α := ℕ) awakableList) (G := State.Orderly)
    (P := fun s => (1, 1) ∈ s.system.held ∧ ((s.dispatchers (1, 1)).any fun d =>
      d.signalLock.isNone && decide ((8, MOJO_HANDLE_SIGNAL_READABLE) ∈ d.awakables)) = true ∧
      (1, 1) ∉ s.pending)
    [.act (.createPortPair 1), .portStatusChanged 0, .create 1 1,
      .call 1 1 (.addAwakable 7 MOJO_HANDLE_SIGNAL_READABLE), .act (.sendMessage 1 2 0 []),
      .leave 1 1, .portStatusChanged 1, .leave 1 1, .act (.getMessageIf 1 1 none),
      .call 1 1 (.addAwakable 8 MOJO_HANDLE_SIGNAL_READABLE), .leave 1 1] (by decide +kernel)
  obtain ⟨d, hd, hentry⟩ := (Option.any_eq_true _ _).1 hd
  rw [Bool.and_eq_true] at hentry
  have hawakable := of_decide_eq_true hentry.2
  have hlock (state : HandleSignalsState) : d.signalLock ≠ some (.awakeForStateChange state) := by
    rw [Option.isNone_iff_eq_none.1 hentry.1]
    simp
  obtain ⟨hclosed, hwaits⟩ := waits_or_pending hs hd
  exact ⟨s, d, ⟨hs, hp, hd, hentry.1, hawakable, hpending⟩, hclosed,
    hwaits hp hpending hlock 8 _ hawakable rfl⟩

end MojoEdk.Core.Waking
