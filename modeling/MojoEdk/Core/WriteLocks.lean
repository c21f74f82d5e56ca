import MojoEdk.Core.WriteMessage
import MojoEdk.Ports.Locks

/-!
# The locks of ports while a message with handles is written

`Node::SendMessage` leaves ports locked that are attached before one that is refused
(`Ports.Node.Unlocks`). `Core::WriteMessage` then cancels the transit of the handles, and the
dispatchers of message pipes and consumers read the status of their ports, which waits for the
lock for ever. Neither these handles are usable any more nor any other one, as the lock of the
handle table is held meanwhile.

Here the message is sent to a node (`HandleTable.sends`), and the locks of its ports that the call
takes are listed (`HandleTable.writeLocks`). A call does what it should, and returns with all
locks as they were, exactly if it meets a condition on the handles and the node
(`writeMessage_usable_iff`). The events of other nodes that a call accepts on its way are left
out: they are accepted when it holds no lock.
-/

namespace MojoEdk.Core

open Ports (PortName)

variable {H : Type}

/-! ## The locks -/

namespace Dispatcher

/-- The ports whose status is read when a transit is canceled. -/
def statusPorts : Dispatcher PortName H → List PortName
  | .messagePipe d => [d.port]
  | .dataPipeConsumer d => [d.controlPort]
  | .dataPipeProducer _ | .sharedBuffer _ | .platformHandle _ | .waitSet _ => []

/-- What `Node::SendMessage` returns for a message that is sent on a message pipe. -/
def sends (ν : Ports.Node (PortsMessage PortName H)) :
    Dispatcher PortName H → PortsMessage PortName H → Ports.Result
  | .messagePipe d, m => (ν.sendMessage d.port (.newUserMessage m m.ports)).2.2
  | _, _ => .ok

end Dispatcher

/-- The locks of `MessagePipeDispatcher::WriteMessage`: those of `SendMessage`, and that of its
    own port again if the peer is closed, to read the status. -/
def MessagePipe.writeLocks (d : MessagePipe PortName) (ν : Ports.Node (PortsMessage PortName H))
    (mem : Memory PortName) (body : List UInt8) (ds : List (Attached PortName H)) :
    Option (List (LockOp PortName)) :=
  if d.portClosed || d.inTransit then some []
  else (serialize mem body ds).bind fun
    | (none, _) => some []
    | (some m, _) =>
      (ν.sendLocks d.port (.newUserMessage m m.ports)).map fun ops => ops ++
        LockOp.each (if (Dispatcher.messagePipe d).sends ν m = .errorPortPeerClosed then [d.port]
          else [])

/-- The locks of `WriteMessage` of a dispatcher. -/
def Dispatcher.writeLocks (ν : Ports.Node (PortsMessage PortName H)) (mem : Memory PortName)
    (body : List UInt8) (ds : List (Attached PortName H)) :
    Dispatcher PortName H → Option (List (LockOp PortName))
  | .messagePipe d => d.writeLocks ν mem body ds
  | _ => some []

namespace HandleTable

/-- What `Node::SendMessage` returns for a message that is sent on the pipe of a handle. -/
def sends (t : HandleTable PortName H) (ν : Ports.Node (PortsMessage PortName H))
    (messagePipeHandle : ℕ) : PortsMessage PortName H → Ports.Result :=
  match t.handles messagePipeHandle with
  | none => fun _ => .ok
  | some e => (t.dispatchers e.dispatcher).sends ν

/-- The ports of some handles. -/
def portsOf (t : HandleTable PortName H) (handles : List ℕ) : List PortName :=
  handles.flatMap fun handle =>
    match t.handles handle with
    | none => []
    | some e => (t.dispatchers e.dispatcher).ports

/-- The locks of `Core::WriteMessage`. In the end the ports that are sent lose their observers,
    each under its lock, or the status of those that are not sent is read. -/
def writeLocks (t : HandleTable PortName H) (ν : Ports.Node (PortsMessage PortName H))
    (mem : Memory PortName) (messagePipeHandle : ℕ) (body : List UInt8) (handles : List ℕ)
    (dup : ℕ → Option H) : Option (List (LockOp PortName)) :=
  match t.handles messagePipeHandle with
  | none => some []
  | some e =>
    if handles.isEmpty then (t.dispatchers e.dispatcher).writeLocks ν mem body []
    else if kMaxHandlesPerMessage < handles.length then some []
    else if messagePipeHandle ∈ handles then some []
    else
      match beginTransit handles t [] with
      | (.ok, ds, t) =>
        let attached := ds.map fun d => (t.dispatchers d.dispatcher, dup d.dispatcher)
        let d := t.dispatchers e.dispatcher
        (d.writeLocks ν mem body attached).bind fun ops =>
          (d.writeMessage mem body attached (d.sends ν)).map fun (rv, _, _) =>
            ops ++ LockOp.each (attached.flatMap fun a =>
              if rv = .ok then a.1.ports else a.1.statusPorts)
      -- The dispatchers that are in transit so far are canceled.
      | (_, ds, t) => some (LockOp.each (ds.flatMap fun d =>
          (t.dispatchers d.dispatcher).statusPorts))

/-- The send, if there is one, locks no port before one that is refused, nor one twice. -/
def Unlocks (t : HandleTable PortName H) (ν : Ports.Node (PortsMessage PortName H))
    (messagePipeHandle : ℕ) (handles : List ℕ) : Prop :=
  ∀ e d, t.handles messagePipeHandle = some e → t.dispatchers e.dispatcher = .messagePipe d →
    ν.Unlocks d.port (t.portsOf handles)

end HandleTable

/-! ## The ports of a message -/

section Ports

variable {P : Type} {mem : Memory P} {body : List UInt8} {ds : List (Attached P H)}

theorem ports_endSerialize {d : Dispatcher P H} {dup : Option H} {destination : List UInt8}
    {r : Dispatcher.Serialized P H} (h : d.endSerialize dup destination = some r) :
    r.ports = d.ports := by
  cases d with
  | messagePipe | platformHandle | waitSet =>
    obtain rfl := Option.some.inj h
    rfl
  | dataPipeProducer | dataPipeConsumer =>
    rw [Dispatcher.endSerialize] at h
    split_ifs at h
    obtain rfl := Option.some.inj h
    rfl
  | sharedBuffer d =>
    rw [Dispatcher.endSerialize] at h
    obtain ⟨buffer, -, rfl⟩ := Option.map_eq_some_iff.1 h
    rfl

/-- The loop stores the ports of the dispatchers one after the other. -/
theorem ports_serializeLoop {l : List (Attached P H × Dispatcher.Info)} {i off hi : ℕ}
    {payload : List UInt8} {handles : List (Option H)} {ports gap : List P} {b : Buffers P H}
    {xs : List (Dispatcher P H)} (hl : ∀ x ∈ l, x.2 = x.1.1.info)
    (hgap : gap.length = (portsOf (l.map (·.1))).length)
    (h : serializeLoop l i off ports.length hi ⟨payload, ports ++ gap, handles⟩ =
      some (true, b, xs)) : b.ports = ports ++ portsOf (l.map (·.1)) := by
  induction l generalizing i off hi payload handles ports gap b xs with
  | nil =>
    obtain rfl : gap = [] := List.length_eq_zero_iff.1 hgap
    obtain ⟨rfl, -⟩ : _ = b ∧ [] = xs := by simpa [serializeLoop] using h
    exact (List.append_nil ports).symm
  | cons x l ih =>
    obtain ⟨⟨d, dup⟩, info⟩ := x
    obtain ⟨hinfo, hrest⟩ := List.forall_mem_cons.1 hl
    obtain rfl : info = d.info := hinfo
    rw [List.map_cons, portsOf, List.flatMap_cons, List.length_append] at hgap
    obtain ⟨p, gap, rfl, hp, hgap⟩ := List.exists_append_of_length hgap
    rw [serializeLoop] at h
    obtain ⟨r, hr, h⟩ := Option.bind_eq_some_iff.1 h
    simp only [ports_endSerialize hr, List.splice_append rfl hp] at h
    split_ifs at h
    · obtain ⟨⟨ok, b', ys⟩, hloop, heq⟩ := Option.map_eq_some_iff.1 h
      obtain ⟨rfl, rfl, -⟩ : ok = true ∧ b' = b ∧ r.dispatcher :: ys = xs := by simpa using heq
      rw [← d.length_ports, ← List.length_append, ← List.append_assoc] at hloop
      rw [ih hrest hgap hloop, List.map_cons, portsOf, portsOf, List.flatMap_cons, List.append_assoc]
    · simp at h

/-- The ports of a message are those of the dispatchers attached. -/
theorem ports_serialize {m : PortsMessage P H} {xs : List (Dispatcher P H)}
    (h : serialize mem body ds = some (some m, xs)) : m.ports = portsOf ds := by
  rw [serialize] at h
  obtain ⟨infos, hinfos, h⟩ := Option.bind_eq_some_iff.1 h
  obtain rfl := infos_of_mapM hinfos
  obtain ⟨m₀, hm₀, h⟩ := Option.bind_eq_some_iff.1 h
  obtain ⟨⟨ok, b, ys⟩, hloop, h⟩ := Option.bind_eq_some_iff.1 h
  have hzip : ds.zip (ds.map (·.1.info)) = ds.map fun a => (a, a.1.info) :=
    List.map_prod_left_eq_zip.symm
  simp only at h
  split_ifs at h with hok
  · obtain ⟨m₁, hm₁, h⟩ := Option.bind_eq_some_iff.1 h
    obtain rfl := Option.some.inj (Prod.mk.inj (Option.some.inj h)).1
    obtain rfl : ok = true := hok
    have hports : m₁.ports = b.ports := by
      rw [PortsMessage.setHandles] at hm₁
      split_ifs at hm₁
      · obtain rfl := Option.some.inj hm₁
        rfl
      · obtain rfl := Option.some.inj hm₁
        rfl
    rw [PortsMessage.newUserMessage] at hm₀
    split_ifs at hm₀
    obtain rfl := Option.some.inj hm₀
    rw [hzip] at hloop
    have hmap : (ds.map fun a => (a, a.1.info)).map (·.1) = ds := by
      rw [List.map_map]
      exact List.map_id ds
    have hall : b.ports = [] ++ portsOf ((ds.map fun a => (a, a.1.info)).map (·.1)) :=
      ports_serializeLoop (fun x hx => by obtain ⟨a, -, rfl⟩ := List.mem_map.1 hx; rfl) (by
        rw [hmap, length_portsOf, List.length_map, List.length_range, List.map_map]
        rfl) hloop
    rw [hmap] at hall
    exact hports.trans hall
  · simp at h

end Ports

/-! ## What a call locks -/

section Locks

variable {ν : Ports.Node (PortsMessage PortName H)} {mem : Memory PortName} {body : List UInt8}
  {free : List PortName} {ops : List (LockOp PortName)}

theorem Dispatcher.statusPorts_subset (d : Dispatcher PortName H) : d.statusPorts ⊆ d.ports := by
  cases d with
  | messagePipe | dataPipeConsumer => exact List.Subset.refl _
  | dataPipeProducer | sharedBuffer | platformHandle | waitSet => exact List.nil_subset _

/-- A write to an open pipe, all of whose dispatchers are serialized, leaves the locks as they
    were if its send does. -/
theorem MessagePipe.restores_writeLocks_iff {d : MessagePipe PortName}
    {ds : List (Attached PortName H)} {m : PortsMessage PortName H}
    {xs : List (Dispatcher PortName H)} (hopen : ¬(d.portClosed || d.inTransit) = true)
    (hserialize : serialize mem body ds = some (some m, xs))
    (hops : d.writeLocks ν mem body ds = some ops) (hp : d.port ∈ free)
    (hfree : portsOf ds ⊆ free) :
    LockOp.Restores free ops ↔ ν.Unlocks d.port (portsOf ds) := by
  rw [writeLocks, if_neg hopen, hserialize, Option.bind_some] at hops
  obtain ⟨ops', hops', rfl⟩ := Option.map_eq_some_iff.1 hops
  rw [LockOp.restores_append_each (by split_ifs <;> simp [hp])]
  rw [← ports_serialize hserialize] at hfree ⊢
  exact Ports.Node.restores_sendLocks_iff hops' hp hfree

namespace HandleTable

variable {t t₁ : HandleTable PortName H} {pipe : ℕ} {handles : List ℕ} {dup : ℕ → Option H}
  {e : Entry} {ds : List DispatcherInTransit}

theorem ports_subset_portsOf {handle : ℕ} (he : t.handles handle = some e)
    (hmem : handle ∈ handles) : (t.dispatchers e.dispatcher).ports ⊆ t.portsOf handles := by
  intro q hq
  refine List.mem_flatMap.2 ⟨handle, hmem, ?_⟩
  rw [he]
  exact hq

theorem ports_of_began (hbegan : Began ds t t₁) {d : DispatcherInTransit} (hd : d ∈ ds) :
    (t₁.dispatchers d.dispatcher).ports = (t.dispatchers d.dispatcher).ports := by
  rw [hbegan.dispatchers, if_pos (List.mem_map_of_mem hd)]
  cases t.dispatchers d.dispatcher <;> rfl

/-- The ports attached are those of the handles attached. -/
theorem portsOf_of_began (dup : ℕ → Option H) (hbegan : Began ds t t₁)
    (hds : ds.map (·.localHandle) = handles) :
    Core.portsOf (ds.map fun d => (t₁.dispatchers d.dispatcher, dup d.dispatcher)) =
      t.portsOf handles := by
  rw [← hds, Core.portsOf, portsOf, List.flatMap_map, List.flatMap_map]
  refine List.flatMap_congr fun d hd => ?_
  rw [hbegan.entry d hd]
  exact ports_of_began hbegan hd

/-- Only handles attached are put in transit. -/
theorem localHandle_beginTransit (handles : List ℕ) (t : HandleTable PortName H)
    (ds : List DispatcherInTransit) {d : DispatcherInTransit}
    (hd : d ∈ (beginTransit handles t ds).2.1) : d ∈ ds ∨ d.localHandle ∈ handles := by
  induction handles generalizing t ds with
  | nil => exact .inl hd
  | cons handle handles ih =>
    rw [beginTransit] at hd
    split at hd
    next => exact .inl hd
    next e _ =>
      dsimp only at hd
      split_ifs at hd
      · exact .inl hd
      · exact .inl hd
      · rcases ih _ _ hd with hd | hd
        · rcases List.mem_append.1 hd with hd | hd
          · exact .inl hd
          · rw [List.mem_singleton.1 hd]
            exact .inr List.mem_cons_self
        · exact .inr (List.mem_cons_of_mem _ hd)

/-- The locks of the dispatcher of the pipe. -/
theorem restores_dispatcher {attached : List (Attached PortName H)}
    (he : t.handles pipe = some e) (hports : Core.portsOf attached = t.portsOf handles)
    (hserializes : (∀ a ∈ attached, Dispatcher.serializes a = true) ↔ Duplicable t handles dup)
    (hops : (t.dispatchers e.dispatcher).writeLocks ν mem body attached = some ops) :
    ((∀ m, t.dispatchers e.dispatcher = .messagePipe m → (m.portClosed || m.inTransit) = true) →
      LockOp.Restores (t.portsOf (pipe :: handles)) ops) ∧
    (¬(∀ m, t.dispatchers e.dispatcher = .messagePipe m →
        (m.portClosed || m.inTransit) = true) → Duplicable t handles dup →
      (LockOp.Restores (t.portsOf (pipe :: handles)) ops ↔ t.Unlocks ν pipe handles)) := by
  have hpipe : (t.dispatchers e.dispatcher).ports ⊆ t.portsOf (pipe :: handles) :=
    ports_subset_portsOf he List.mem_cons_self
  constructor
  · intro hrejected
    have hnil : ops = [] := by
      cases hd : t.dispatchers e.dispatcher with
      | messagePipe m =>
        rw [hd] at hops
        rw [Dispatcher.writeLocks, MessagePipe.writeLocks, if_pos (hrejected m hd)] at hops
        exact (Option.some.inj hops).symm
      | dataPipeProducer | dataPipeConsumer | sharedBuffer | platformHandle | waitSet =>
        rw [hd] at hops
        exact (Option.some.inj hops).symm
    rw [hnil]
    exact LockOp.restores_nil
  · intro hrejected hdup
    obtain ⟨m, hm⟩ := not_forall.1 hrejected
    obtain ⟨hm, hopen⟩ := Classical.not_imp.1 hm
    rw [hm] at hops hpipe
    -- All that is attached is serialized.
    have hmessage : ∃ message xs, serialize mem body attached = some (some message, xs) := by
      rw [Dispatcher.writeLocks, MessagePipe.writeLocks, if_neg hopen] at hops
      obtain ⟨⟨message, xs⟩, hserialize, -⟩ := Option.bind_eq_some_iff.1 hops
      have hsome := (serialize_dispatchers hserialize).2.2 (hserializes.2 hdup)
      obtain ⟨message, rfl⟩ := Option.isSome_iff_exists.1 hsome
      exact ⟨message, xs, hserialize⟩
    obtain ⟨message, xs, hserialize⟩ := hmessage
    have hunlocks : t.Unlocks ν pipe handles ↔ ν.Unlocks m.port (t.portsOf handles) := by
      constructor
      · exact fun h => h e m he hm
      · intro h e' m' he' hm'
        obtain rfl := Option.some.inj (he.symm.trans he')
        rw [hm] at hm'
        cases hm'
        exact h
    rw [hunlocks, ← hports]
    refine MessagePipe.restores_writeLocks_iff hopen hserialize hops (hpipe List.mem_cons_self) ?_
    rw [hports]
    exact fun q hq => List.mem_flatMap.2 (by
      obtain ⟨handle, hmem, hq⟩ := List.mem_flatMap.1 hq
      exact ⟨handle, List.mem_cons_of_mem _ hmem, hq⟩)

/-- A call that gets to the dispatcher of the pipe is rejected by that or not at all. -/
theorem rejected_iff (he : t.handles pipe = some e)
    (hrest : handles ≠ [] → ¬kMaxHandlesPerMessage < handles.length ∧ pipe ∉ handles ∧
      (t.beginTransit handles []).1 = .ok) : Rejected t pipe handles ↔
      ∀ m, t.dispatchers e.dispatcher = .messagePipe m → (m.portClosed || m.inTransit) = true := by
  constructor
  · rintro (h | ⟨hne, h⟩)
    · exact fun m hm => h e m he hm
    · obtain ⟨hmax, hpipe, hok⟩ := hrest hne
      exact absurd h (not_or.2 ⟨hmax, not_or.2 ⟨hpipe, not_not.2 hok⟩⟩)
  · intro h
    refine .inl fun e' m he' hm => ?_
    obtain rfl := Option.some.inj (he.symm.trans he')
    exact h m hm

/-- The locks of a call: they are as they were if it is rejected. If it is not, and all that is
    attached is serialized, they are if the send leaves them so. -/
theorem restores_writeLocks (ht : CoreState.TableInv t)
    (hops : t.writeLocks ν mem pipe body handles dup = some ops) :
    (Rejected t pipe handles → LockOp.Restores (t.portsOf (pipe :: handles)) ops) ∧
    (¬Rejected t pipe handles → Duplicable t handles dup →
      (LockOp.Restores (t.portsOf (pipe :: handles)) ops ↔ t.Unlocks ν pipe handles)) := by
  -- Nothing is locked by a call that is rejected at once.
  have hnil : ops = [] → Rejected t pipe handles →
      (Rejected t pipe handles → LockOp.Restores (t.portsOf (pipe :: handles)) ops) ∧
      (¬Rejected t pipe handles → Duplicable t handles dup →
        (LockOp.Restores (t.portsOf (pipe :: handles)) ops ↔ t.Unlocks ν pipe handles)) := by
    rintro rfl hrejected
    exact ⟨fun _ => LockOp.restores_nil, fun h => absurd hrejected h⟩
  have hsubset : t.portsOf handles ⊆ t.portsOf (pipe :: handles) := by
    intro q hq
    obtain ⟨handle, hmem, hq⟩ := List.mem_flatMap.1 hq
    exact List.mem_flatMap.2 ⟨handle, List.mem_cons_of_mem _ hmem, hq⟩
  rw [writeLocks] at hops
  cases he : t.handles pipe with
  | none =>
    simp only [he] at hops
    refine hnil (Option.some.inj hops).symm (.inl fun e _ he' => ?_)
    rw [he] at he'
    cases he'
  | some e =>
    simp only [he] at hops
    split_ifs at hops with hempty hmax hpipe
    · obtain rfl := List.isEmpty_iff.1 hempty
      rw [rejected_iff he fun hne => absurd rfl hne]
      have hports : Core.portsOf ([] : List (Attached PortName H)) = t.portsOf [] := rfl
      exact restores_dispatcher he hports
        (iff_of_true (List.forall_mem_nil _) fun _ hmem => by cases hmem) hops
    · exact hnil (Option.some.inj hops).symm
        (.inr ⟨fun hnil => hempty (List.isEmpty_iff.2 hnil), .inl hmax⟩)
    · exact hnil (Option.some.inj hops).symm
        (.inr ⟨fun hnil => hempty (List.isEmpty_iff.2 hnil), .inr (.inl hpipe)⟩)
    · have hne : handles ≠ [] := fun hnil => hempty (List.isEmpty_iff.2 hnil)
      obtain ⟨ds, t₁, hbegan, hresult, hall⟩ := beginTransit_spec handles t []
      rw [List.nil_append] at hresult
      rw [← Prod.mk.eta (p := beginTransit handles t []), hresult] at hops
      cases hrv : (beginTransit handles t []).1 with
      | ok =>
        simp only [hrv] at hops
        have hds := hall hrv
        rw [rejected_iff he fun _ => ⟨hmax, hpipe, hrv⟩]
        obtain ⟨ops', hops', h⟩ := Option.bind_eq_some_iff.1 hops
        obtain ⟨⟨rv, -, -⟩, -, rfl⟩ := Option.map_eq_some_iff.1 h
        have hports := portsOf_of_began dup hbegan hds
        rw [LockOp.restores_append_each]
        · rw [pipe_of_began ht he hpipe hbegan hds] at hops'
          exact restores_dispatcher he hports (serializes_iff_duplicable dup hbegan hds) hops'
        · -- The ports attached, or some of them.
          refine List.Subset.trans ?_ (hports ▸ hsubset)
          intro q hq
          obtain ⟨a, ha, hq⟩ := List.mem_flatMap.1 hq
          refine List.mem_flatMap.2 ⟨a, ha, ?_⟩
          split_ifs at hq
          · exact hq
          · exact a.1.statusPorts_subset hq
      | _ =>
        simp only [hrv] at hops
        refine ⟨fun _ => ?_, fun h => absurd (.inr ⟨hne, .inr (.inr (by rw [hrv]; decide))⟩) h⟩
        obtain rfl := Option.some.inj hops
        refine LockOp.restores_each fun q hq => hsubset ?_
        obtain ⟨d, hd, hq⟩ := List.mem_flatMap.1 hq
        have hmem : d.localHandle ∈ handles := by
          have := localHandle_beginTransit handles t [] (d := d) (by rw [hresult]; exact hd)
          exact this.resolve_left List.not_mem_nil
        refine ports_subset_portsOf (hbegan.entry d hd) hmem ?_
        rw [← ports_of_began hbegan hd]
        exact Dispatcher.statusPorts_subset _ hq

end HandleTable

/-! ## Success means sent, and failure that the handles can be used -/

variable {t' : HandleTable PortName H} {pipe : ℕ} {handles : List ℕ} {dup : ℕ → Option H}
  {rv : MojoResult} {sent : Bool}

/-- In every state that is reached, a call of `Core::WriteMessage` whose assertions hold succeeds
    if and only if the node accepted the message, keeps the handles otherwise, and returns with
    the locks of all ports as they were, exactly if it is rejected before anything is serialized,
    or the handles of the shared buffers that are attached can be duplicated and the send locks
    no port before one that is refused, nor one twice. -/
theorem writeMessage_usable_iff {s : CoreState PortName H}
    (hs : (CoreState.machine PortName H).Reachable CoreState.HandlesLeft s)
    (h : s.table.writeMessage mem pipe body handles dup (s.table.sends ν pipe) =
      some (rv, sent, t'))
    (hops : s.table.writeLocks ν mem pipe body handles dup = some ops) :
    SuccessMeansSent s.table handles rv sent t' ∧
        LockOp.Restores (s.table.portsOf (pipe :: handles)) ops ↔
      Rejected s.table pipe handles ∨
        Duplicable s.table handles dup ∧ s.table.Unlocks ν pipe handles := by
  obtain ⟨hrejected, hsent⟩ := HandleTable.restores_writeLocks (CoreState.inv_of_reachable hs).table hops
  rw [successMeansSent_iff hs h]
  by_cases hr : Rejected s.table pipe handles
  · exact iff_of_true ⟨.inl hr, hrejected hr⟩ (.inl hr)
  · rw [or_iff_right hr, or_iff_right hr]
    exact and_congr_right fun hdup => hsent hr hdup

/-- Two pairs of ports. -/
def twoPairs : Ports.Node (PortsMessage ℕ ℕ) :=
  ({ name := 1 } : Ports.Node (PortsMessage ℕ ℕ)).createPortPair.1.createPortPair.1

/-- A port of the one pair, one of the other, and the peer of the first. -/
def threePipes : List (CoreState.Input ℕ ℕ) :=
  [1, 3, 2].map fun port =>
    .addDispatcher (.messagePipe { port := port, pipeId := 6, endpoint := 1 })

/-- The peer is refused behind another port. The call fails, and all handles are kept, but the
    lock of the other port is not released, and the call waits for it. -/
theorem writeMessage_usable_iff_peer : ∃ s : CoreState ℕ ℕ,
    (CoreState.machine ℕ ℕ).Reachable CoreState.HandlesLeft s ∧ ∃ t' ops,
      s.table.writeMessage ⟨fun _ => 0, fun _ => 0⟩ 1 [42] [2, 3] (fun _ => none)
        (s.table.sends twoPairs 1) = some (.invalidArgument, false, t') ∧
      s.table.writeLocks twoPairs ⟨fun _ => 0, fun _ => 0⟩ 1 [42] [2, 3] (fun _ => none) =
        some ops ∧
      SuccessMeansSent s.table [2, 3] .invalidArgument false t' ∧
      ¬LockOp.Restores (s.table.portsOf [1, 2, 3]) ops := by
  obtain ⟨s, hs, ⟨he, hd⟩, hbegin, hattached, hpipes, hports, hwrite, hlocks⟩ :=
    Machine.exists_reachable (M := CoreState.machine ℕ ℕ) (G := CoreState.HandlesLeft)
      (P := fun s => (s.table.handles 1 = some ⟨0, false⟩ ∧ s.table.dispatchers 0 =
          .messagePipe { port := 1, pipeId := 6, endpoint := 1 }) ∧
        (s.table.beginTransit [2, 3] []).1 = .ok ∧
        [2, 3].map s.table.handles = [some ⟨1, false⟩, some ⟨2, false⟩] ∧
        ((s.table.dispatchers 1).type = .messagePipe ∧
          (s.table.dispatchers 2).type = .messagePipe) ∧
        s.table.portsOf [2, 3] = [3, 2] ∧
        (s.table.writeMessage ⟨fun _ => 0, fun _ => 0⟩ 1 [42] [2, 3] (fun _ => none)
          (s.table.sends twoPairs 1)).map (fun r => (r.1, r.2.1)) = some (.invalidArgument, false) ∧
        (s.table.writeLocks twoPairs ⟨fun _ => 0, fun _ => 0⟩ 1 [42] [2, 3] fun _ => none).isSome)
      threePipes (by decide +kernel)
  obtain ⟨⟨rv, sent, t'⟩, hwrite, hr⟩ := Option.map_eq_some_iff.1 hwrite
  obtain ⟨rfl, rfl⟩ : rv = .invalidArgument ∧ sent = false := by simpa using hr
  obtain ⟨ops, hops⟩ := Option.isSome_iff_exists.1 hlocks
  have hdup : Duplicable s.table [2, 3] fun _ => none := by
    intro handle hmem e d he hd
    have hmem : some e ∈ [some (⟨1, false⟩ : Entry), some ⟨2, false⟩] := by
      rw [← hattached, ← he]
      exact List.mem_map_of_mem hmem
    simp only [List.mem_cons, Option.some.injEq, List.not_mem_nil, or_false] at hmem
    rcases hmem with rfl | rfl
    · rw [hd] at hpipes
      cases hpipes.1
    · rw [hd] at hpipes
      cases hpipes.2
  have hsent := (successMeansSent_iff hs hwrite).2 (.inr hdup)
  refine ⟨s, hs, t', ops, hwrite, hops, hsent, fun hrestores => ?_⟩
  rcases (writeMessage_usable_iff hs hwrite hops).1 ⟨hsent, hrestores⟩ with
    (hclosed | ⟨-, hmax | hmem | hbusy⟩) | ⟨-, hunlocks⟩
  · cases hclosed _ _ he hd
  · exact absurd hmax (by decide)
  · exact absurd hmem (by decide)
  · exact hbusy hbegin
  · have hsend := hunlocks _ _ he hd
    rw [hports] at hsend
    exact absurd hsend (by decide)

end Locks

end MojoEdk.Core
