import MojoEdk.Library.LockTrace
import MojoEdk.Ports.Node

/-!
# The locks of ports

What `WillSendMessage_Locked` does to the locks of the ports that are attached to a message
(`Node.attachedLocks`). The ports are locked one after the other, and all released at the
end. If one of them is refused, it is released, once for each port locked so far: the others
stay locked, unless it is the first one (`Node.balanced_iff`).

`SendMessage` holds the lock of its own port meanwhile (`Node.sendLocks`), and `ClosePort`
locks the ports that it closes one by one (`Node.closeLocks`). Both wait for ever for a port
that was left locked. A send leaves nothing locked that meets a condition on the ports that are
attached to it (`Node.Unlocks`).
-/

namespace MojoEdk.Ports

variable {α : Type*}

namespace Node

variable {s : Node α} {port : Port α} {peer q : PortName} {names locked : List PortName}
  {m : Message α}

/-- The locks of the ports attached, after some are locked: nothing if a port is not there,
    as there is no lock then. -/
def lockAttached (s : Node α) (peer : PortName) :
    List PortName → List PortName → Option (List (LockOp PortName))
  | locked, [] => some (locked.map LockOp.release)
  | locked, name :: names =>
    match s.getPort name with
    | none => none
    | some _ =>
      (match s.sentPortError peer name with
        -- The loop over the ports locked releases the same lock again and again.
        | some _ => some (List.replicate (locked.length + 1) (LockOp.release name))
        | none => lockAttached s peer (locked ++ [name]) names).map (LockOp.acquire name :: ·)

/-- The locks that `WillSendMessage_Locked` acquires and releases. -/
def attachedLocks (s : Node α) (port : Port α) (m : Message α) : Option (List (LockOp PortName)) :=
  s.lockAttached port.peerPortName [] m.ports

/-- The locks of `SendMessage`, until it gives the message away. -/
def sendLocks (s : Node α) (p : PortName) (m : Message α) : Option (List (LockOp PortName)) :=
  if p ∈ m.ports then some []
  else
    match s.getPort p with
    | none => some []
    | some port =>
      if port.state ≠ .receiving ∨ port.peerClosed then some [.acquire p, .release p]
      else (s.attachedLocks port m).map fun ops => .acquire p :: (ops ++ [.release p])

/-- The locks of `ClosePort`, and of the calls for the ports attached to the messages it leaves
    unread. -/
def closeLocksAux : ℕ → Node α → PortName → List (LockOp PortName)
  | 0, _, _ => []
  | depth + 1, s, portName =>
    match s.getPort portName with
    | none => []
    | some port =>
      [.acquire portName, .release portName] ++
        match port.state with
        | .receiving =>
          let s := (s.erasePort portName).noteClosed portName
          let s := s.forwardMessage port.peerNodeName
            (.observeClosure port.peerPortName (port.nextSequenceNumToSend - 1))
          -- The ports attached are closed one after the other, without the lock of this one.
          (port.messageQueue.getReferencedPorts.foldl (fun x name =>
            match x.1.getPort name with
            | some _ => ((closePortAux depth x.1 name).1, x.2 ++ closeLocksAux depth x.1 name)
            | none => x) (s, [])).2
        | _ => []

/-- The locks of `ClosePort`. -/
def closeLocks (s : Node α) (portName : PortName) : List (LockOp PortName) :=
  closeLocksAux (s.ports.entries.length + 1) s portName

/-- A send does not lock a port that is attached before one that is refused, nor one twice: it
    fails before it gets to the ports attached, or accepts them all, and they are distinct, or
    refuses the first one. -/
def Unlocks (s : Node α) (p : PortName) (ports : List PortName) : Prop :=
  p ∉ ports → ∀ port ∈ s.getPort p, port.state = .receiving → port.peerClosed = false →
    ((∀ q ∈ ports, s.sentPortError port.peerPortName q = none) ∧ ports.Nodup) ∨
      ∃ q ∈ ports.head?, s.sentPortError port.peerPortName q ≠ none

instance (s : Node α) (p : PortName) (ports : List PortName) : Decidable (s.Unlocks p ports) :=
  inferInstanceAs (Decidable (_ → _))

theorem getPort_of_accepted (h : s.sentPortError peer q = none) :
    ∃ port, s.getPort q = some port := by
  rw [sentPortError] at h
  cases hq : s.getPort q with
  | none =>
    rw [hq] at h
    cases h
  | some port => exact ⟨port, rfl⟩

/-- The ports that are accepted are locked. -/
theorem lockAttached_append (h : ∀ q ∈ names, s.sentPortError peer q = none)
    (rest : List PortName) : s.lockAttached peer locked (names ++ rest) =
      (s.lockAttached peer (locked ++ names) rest).map (names.map LockOp.acquire ++ ·) := by
  induction names generalizing locked with
  | nil => simp
  | cons name names ih =>
    obtain ⟨hname, hnames⟩ := List.forall_mem_cons.1 h
    obtain ⟨port, hport⟩ := getPort_of_accepted hname
    rw [List.cons_append, lockAttached, hport]
    simp only [hname]
    rw [ih hnames, Option.map_map, List.append_assoc, List.singleton_append]
    rfl

/-- The locks, when no port is refused. -/
theorem attachedLocks_of_accepted
    (h : ∀ q ∈ m.ports, s.sentPortError port.peerPortName q = none) :
    s.attachedLocks port m = some (m.ports.map LockOp.acquire ++ m.ports.map LockOp.release) := by
  have happend : s.lockAttached port.peerPortName [] (m.ports ++ []) = _ :=
    lockAttached_append h []
  rwa [List.append_nil, List.nil_append] at happend

/-- The locks, when a port is refused. -/
theorem attachedLocks_of_refused {rest : List PortName} (hports : m.ports = names ++ q :: rest)
    (hnames : ∀ q ∈ names, s.sentPortError port.peerPortName q = none)
    (hq : s.sentPortError port.peerPortName q ≠ none) :
    s.attachedLocks port m = (s.getPort q).map fun _ =>
      names.map LockOp.acquire ++ .acquire q :: List.replicate (names.length + 1) (.release q) := by
  obtain ⟨error, herror⟩ := Option.ne_none_iff_exists'.1 hq
  rw [attachedLocks, hports, lockAttached_append hnames, List.nil_append, lockAttached]
  cases s.getPort q with
  | none => rfl
  | some port' => simp only [herror, Option.map_some]

/-! ## What a send waits for, and what it leaves locked -/

theorem sendLocks_of_receiving (hp : p ∉ m.ports) (hport : s.getPort p = some port)
    (hstate : port.state = .receiving) (hclosed : port.peerClosed = false) :
    s.sendLocks p m = (s.attachedLocks port m).map fun ops => .acquire p :: (ops ++ [.release p]) := by
  rw [sendLocks, if_neg hp, hport]
  simp [hstate, hclosed]

/-- Ports are locked one after the other. -/
theorem await_cons_acquire (held : PortName → Bool) (hp : p ∉ names)
    (ops : List (LockOp PortName)) :
    LockOp.await held (.acquire p :: (names.map LockOp.acquire ++ ops)) =
      if names.Nodup ∧ ∀ q ∈ p :: names, held q = false then
        LockOp.await (fun q => decide (q ∈ p :: names) || held q) ops
      else none := by
  have hnodup : (p :: names).Nodup ↔ names.Nodup := by rw [List.nodup_cons, and_iff_right hp]
  rw [← List.cons_append, ← List.map_cons, LockOp.await_append]
  split_ifs with hfree
  · rw [LockOp.await_acquire (hnodup.2 hfree.1) hfree.2, Option.bind_some]
  · rw [← hnodup, ← LockOp.isSome_await_acquire, Option.not_isSome_iff_eq_none] at hfree
    rw [hfree, Option.bind_none]

/-- A send that accepts all ports attached locks them with its own port, and leaves none
    locked. -/
theorem exists_sendLocks_of_accepted (hp : p ∉ m.ports) (hport : s.getPort p = some port)
    (hstate : port.state = .receiving) (hclosed : port.peerClosed = false)
    (h : ∀ q ∈ m.ports, s.sentPortError port.peerPortName q = none) :
    ∃ ops, s.sendLocks p m = some ops ∧ ∀ held : PortName → Bool, LockOp.await held ops =
      if m.ports.Nodup ∧ ∀ q ∈ p :: m.ports, held q = false then some held else none := by
  have hlocks := sendLocks_of_receiving hp hport hstate hclosed
  rw [attachedLocks_of_accepted h, Option.map_some] at hlocks
  refine ⟨_, hlocks, fun held => ?_⟩
  rw [List.append_assoc, await_cons_acquire held hp]
  refine if_ctx_congr Iff.rfl (fun hfree => ?_) fun _ => rfl
  rw [← List.map_singleton (f := LockOp.release), ← List.map_append, LockOp.await_release]
  refine congrArg some (funext fun q => ?_)
  by_cases hq : q ∈ p :: m.ports
  · have hq' : q ∈ m.ports ++ [p] := by simpa [or_comm] using hq
    simp [hq', hfree.2 q hq]
  · have hq' : q ∉ m.ports ++ [p] := by simpa [or_comm] using hq
    simp only [hq, hq', decide_false, Bool.false_or, Bool.not_false, Bool.and_true]

/-- A send that refuses a port locks it and those before it with its own port. It leaves those
    before it locked. -/
theorem exists_sendLocks_of_refused {rest : List PortName} (hp : p ∉ m.ports)
    (hport : s.getPort p = some port) (hstate : port.state = .receiving)
    (hclosed : port.peerClosed = false) (hports : m.ports = names ++ q :: rest)
    (hnames : ∀ q ∈ names, s.sentPortError port.peerPortName q = none)
    (hq : s.sentPortError port.peerPortName q ≠ none) (hthere : s.getPort q ≠ none) :
    ∃ ops, s.sendLocks p m = some ops ∧ ∀ held : PortName → Bool, LockOp.await held ops =
      if (names ++ [q]).Nodup ∧ ∀ r ∈ p :: (names ++ [q]), held r = false then
        some fun r => decide (r ∈ names) || held r
      else none := by
  obtain ⟨port', hport'⟩ := Option.ne_none_iff_exists'.1 hthere
  have hlocks := sendLocks_of_receiving hp hport hstate hclosed
  rw [attachedLocks_of_refused hports hnames hq, hport', Option.map_some, Option.map_some] at hlocks
  have hmem : p ∉ names ++ [q] := fun h => hp (by
    rw [hports]
    simp only [List.mem_append, List.mem_cons, List.not_mem_nil, or_false] at h ⊢
    exact h.imp_right .inl)
  refine ⟨_, hlocks, fun held => ?_⟩
  have hcons : names.map LockOp.acquire ++ .acquire q :: List.replicate (names.length + 1) (.release q) ++
      [.release p] = (names ++ [q]).map LockOp.acquire ++
        (List.replicate (names.length + 1) (.release q) ++ [.release p]) := by
    rw [List.map_append, List.map_singleton]
    simp only [List.append_assoc, List.cons_append, List.nil_append]
  rw [hcons, await_cons_acquire held hmem]
  refine if_ctx_congr Iff.rfl (fun hfree => ?_) fun _ => rfl
  rw [LockOp.await_append, LockOp.await_replicate_release, Option.bind_some]
  refine congrArg some (funext fun r => ?_)
  have hnames : q ∉ names ∧ p ∉ names := by
    refine ⟨fun h => ?_, fun h => hmem (List.mem_append_left _ h)⟩
    exact (List.nodup_append.1 hfree.1).2.2 q h q (List.mem_singleton_self q) rfl
  by_cases hrp : r = p
  · simp [hrp, hnames.2, hfree.2 p List.mem_cons_self]
  by_cases hrq : r = q
  · rw [Function.update_of_ne hrp, hrq, Function.update_self]
    simp [hnames.1, hfree.2 q (by simp)]
  · rw [Function.update_of_ne hrp, Function.update_of_ne hrq]
    simp [hrp, hrq]

section Restores

variable {ops : List (LockOp PortName)} {free : List PortName}

/-- A send that accepts all ports attached leaves the locks as they were if they are distinct. -/
theorem restores_iff_of_accepted (hops : s.sendLocks p m = some ops) (hp : p ∉ m.ports)
    (hport : s.getPort p = some port) (hstate : port.state = .receiving)
    (hclosed : port.peerClosed = false)
    (h : ∀ q ∈ m.ports, s.sentPortError port.peerPortName q = none) (hpfree : p ∈ free)
    (hfree : m.ports ⊆ free) : LockOp.Restores free ops ↔ m.ports.Nodup := by
  obtain ⟨ops', hops', hawait⟩ := exists_sendLocks_of_accepted hp hport hstate hclosed h
  obtain rfl := Option.some.inj (hops.symm.trans hops')
  constructor
  · intro hrestores
    have hnone := hrestores (fun _ => false) fun _ _ => rfl
    rw [hawait] at hnone
    split_ifs at hnone with hnodup
    exact hnodup.1
  · intro hnodup held hheld
    rw [hawait, if_pos ⟨hnodup, List.forall_mem_cons.2
      ⟨hheld p hpfree, fun q hq => hheld q (hfree hq)⟩⟩]

/-- A send that refuses a port leaves the locks as they were if it is the first one. -/
theorem restores_iff_of_refused {rest : List PortName} (hops : s.sendLocks p m = some ops)
    (hp : p ∉ m.ports) (hport : s.getPort p = some port) (hstate : port.state = .receiving)
    (hclosed : port.peerClosed = false) (hports : m.ports = names ++ q :: rest)
    (hnames : ∀ q ∈ names, s.sentPortError port.peerPortName q = none)
    (hq : s.sentPortError port.peerPortName q ≠ none) (hpfree : p ∈ free)
    (hfree : m.ports ⊆ free) : LockOp.Restores free ops ↔ names = [] := by
  have hthere : s.getPort q ≠ none := by
    intro hgone
    rw [sendLocks_of_receiving hp hport hstate hclosed,
      attachedLocks_of_refused hports hnames hq, hgone] at hops
    cases hops
  obtain ⟨ops', hops', hawait⟩ :=
    exists_sendLocks_of_refused hp hport hstate hclosed hports hnames hq hthere
  obtain rfl := Option.some.inj (hops.symm.trans hops')
  constructor
  · intro hrestores
    have hnone := hrestores (fun _ => false) fun _ _ => rfl
    rw [hawait] at hnone
    split_ifs at hnone
    -- A port that was accepted is locked still.
    refine List.eq_nil_iff_forall_not_mem.2 fun name hname => ?_
    have := congrFun (Option.some.inj hnone) name
    simp [hname] at this
  · rintro rfl held hheld
    have hqfree : q ∈ free := hfree (by rw [hports]; simp)
    rw [hawait, if_pos ⟨List.nodup_singleton q, by simp [hheld p hpfree, hheld q hqfree]⟩]
    simp

/-- A send leaves the locks as they were, those of its own port and of the ports attached being
    free before, if it locks no port before one that is refused, nor one twice. -/
theorem restores_sendLocks_iff (hops : s.sendLocks p m = some ops) (hpfree : p ∈ free)
    (hfree : m.ports ⊆ free) : LockOp.Restores free ops ↔ s.Unlocks p m.ports := by
  by_cases hp : p ∈ m.ports
  · rw [sendLocks, if_pos hp] at hops
    obtain rfl := Option.some.inj hops
    exact iff_of_true LockOp.restores_nil fun h => absurd hp h
  cases hport : s.getPort p with
  | none =>
    rw [sendLocks, if_neg hp, hport] at hops
    obtain rfl := Option.some.inj hops
    refine iff_of_true LockOp.restores_nil fun _ port hport' => ?_
    rw [hport] at hport'
    cases hport'
  | some port =>
    have hunlocks : s.Unlocks p m.ports ↔ (port.state = .receiving → port.peerClosed = false →
        ((∀ q ∈ m.ports, s.sentPortError port.peerPortName q = none) ∧ m.ports.Nodup) ∨
          ∃ q ∈ m.ports.head?, s.sentPortError port.peerPortName q ≠ none) := by
      constructor
      · exact fun h => h hp port hport
      · intro h _ port' hport'
        exact Option.some.inj (hport.symm.trans hport') ▸ h
    rw [hunlocks]
    by_cases hfail : port.state ≠ .receiving ∨ port.peerClosed = true
    · rw [sendLocks, if_neg hp, hport] at hops
      simp only [if_pos hfail] at hops
      obtain rfl := Option.some.inj hops
      have hself : [p] ⊆ free := by simpa using hpfree
      refine iff_of_true (LockOp.restores_each hself) ?_
      intro hstate hclosed
      exact absurd hfail (by simp [hstate, hclosed])
    obtain ⟨hstate, hclosed⟩ := not_or.1 hfail
    have hstate : port.state = .receiving := not_not.1 hstate
    have hclosed : port.peerClosed = false := Bool.eq_false_iff.2 hclosed
    rw [forall_prop_of_true hstate, forall_prop_of_true hclosed]
    cases herror : m.ports.findSome? (s.sentPortError port.peerPortName) with
    | none =>
      have h := List.findSome?_eq_none_iff.1 herror
      rw [restores_iff_of_accepted hops hp hport hstate hclosed h hpfree hfree]
      constructor
      · exact fun hnodup => .inl ⟨h, hnodup⟩
      · rintro (⟨-, hnodup⟩ | ⟨q, hq, hne⟩)
        · exact hnodup
        · exact absurd (h q (List.mem_of_mem_head? hq)) hne
    | some error =>
      obtain ⟨names, q, rest, hports, hq, hnames⟩ := List.findSome?_eq_some_iff.1 herror
      have hq : s.sentPortError port.peerPortName q ≠ none := by simp [hq]
      rw [restores_iff_of_refused hops hp hport hstate hclosed hports hnames hq hpfree hfree]
      constructor
      · rintro rfl
        exact .inr ⟨q, by rw [hports]; rfl, hq⟩
      · rintro (⟨h, -⟩ | ⟨q', hq', hne⟩)
        · exact absurd (h q (by rw [hports]; simp)) hq
        · cases names with
          | nil => rfl
          | cons name names =>
            obtain rfl : name = q' := by simpa [hports] using hq'
            exact absurd (hnames name List.mem_cons_self) hne

end Restores

/-- The locks of the ports attached are released, each that was acquired, if no port is
    refused and none is attached twice, or if the first one is refused. -/
theorem balanced_iff : (∃ ops, s.attachedLocks port m = some ops ∧ LockOp.Balanced ops) ↔
    ((∀ q ∈ m.ports, s.sentPortError port.peerPortName q = none) ∧ m.ports.Nodup) ∨
    ∃ q, m.ports.head? = some q ∧ s.getPort q ≠ none ∧
      s.sentPortError port.peerPortName q ≠ none := by
  cases herror : m.ports.findSome? (s.sentPortError port.peerPortName) with
  | none =>
    have h := List.findSome?_eq_none_iff.1 herror
    rw [attachedLocks_of_accepted h]
    constructor
    · rintro ⟨ops, hops, hb⟩
      obtain rfl := Option.some.inj hops
      exact .inl ⟨h, (LockOp.balanced_iff_nodup _).1 hb⟩
    · rintro (⟨-, hnodup⟩ | ⟨q, hq, -, hne⟩)
      · exact ⟨_, rfl, (LockOp.balanced_iff_nodup _).2 hnodup⟩
      · exact absurd (h q (List.mem_of_mem_head? hq)) hne
  | some error =>
    obtain ⟨names, q, rest, hports, hq, hnames⟩ := List.findSome?_eq_some_iff.1 herror
    have hq : s.sentPortError port.peerPortName q ≠ none := by simp [hq]
    rw [attachedLocks_of_refused hports hnames hq]
    constructor
    · rintro ⟨ops, hops, hb⟩
      obtain ⟨port', hport', rfl⟩ := Option.map_eq_some_iff.1 hops
      obtain rfl := (LockOp.balanced_replicate_iff names q).1 hb
      exact .inr ⟨q, by rw [hports]; rfl, by simp [hport'], hq⟩
    · rintro (⟨h, -⟩ | ⟨q', hq', hthere, href⟩)
      · exact absurd (h q (by rw [hports]; simp)) hq
      · -- The first port is refused, so that none before it was accepted.
        cases names with
        | nil =>
          obtain rfl : q = q' := by simpa [hports] using hq'
          obtain ⟨port', hport'⟩ := Option.ne_none_iff_exists'.1 hthere
          rw [hport']
          exact ⟨_, rfl, (LockOp.balanced_replicate_iff [] q).2 rfl⟩
        | cons name names =>
          obtain rfl : name = q' := by simpa [hports] using hq'
          exact absurd (hnames name List.mem_cons_self) href

/-- The second port attached is the peer: the first one stays locked. -/
theorem not_balanced : ∃ (s : Node ℕ) (port : Port ℕ),
    s = ({ name := 1 } : Node ℕ).createPortPair.1.createPortPair.1 ∧ s.getPort 1 = some port ∧
    ¬∃ ops, s.attachedLocks port (Message.newUserMessage 0 [3, 2]) = some ops ∧
      LockOp.Balanced ops := by
  refine ⟨_, _, rfl, rfl, ?_⟩
  rintro ⟨ops, hops, hb⟩
  obtain rfl := Option.some.inj hops
  have hrun := hb.run (fun _ => false) fun _ _ => rfl
  cases hrun

end Node

end MojoEdk.Ports
