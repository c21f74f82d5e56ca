import MojoEdk.Core.HandleTable

/-!
# Creating handles

The calls that create dispatchers and their handles (`core.cc`): message pipes, data pipes,
shared buffers, duplicates of these, and wait sets. When there are not enough handles left,
a call must undo what it has done (`Restored`): the dispatchers it created are closed, and
with them their ports.

This is so for data pipes, shared buffers and wait sets. The dispatcher of the first end of
a message pipe is not closed, and when the second one gets no handle, a null pointer is
followed; a duplicate of a shared buffer stays, and the buffer it was made from is closed
(`restored_iff`).

The ports of a node are numbers, and so are the dispatchers, including those that are in no
table. How options are read, and where memory comes from, is left open (`Platform`).
-/

namespace MojoEdk.Core

variable {H : Type}

/-- `MojoCreateSharedBufferOptions` and `MojoDuplicateBufferHandleOptions`. -/
structure SharedBufferOptions where
  structSize : UInt32
  flags : UInt32

/-- What the calls depend on: `UserOptionsReader`, `PlatformSupport` and `GetConfiguration`. -/
structure Platform (H : Type) where
  isValid : SharedBufferOptions → Bool
  hasFlags : SharedBufferOptions → Bool
  createSharedBuffer : ℕ → Option H
  maxSharedMemoryNumBytes : ℕ

/-- A process: its handle table, and the open ports of its node. -/
structure Process (H : Type) where
  table : HandleTable ℕ H := {}
  ports : List ℕ := []
  nextPort : ℕ := 0

/-- What a call returns, the handles it stores, and what it leaves. -/
structure Created (H : Type) where
  result : MojoResult
  handles : List ℕ
  process : Process H

namespace HandleTable

variable {P : Type}

/-- A new dispatcher, without a handle. -/
def new (t : HandleTable P H) (d : Dispatcher P H) : HandleTable P H :=
  { t with
    dispatchers := Function.update t.dispatchers t.numDispatchers d
    numDispatchers := t.numDispatchers + 1 }

/-- `AddDispatcher`. -/
def add (t : HandleTable P H) (o : ℕ) : ℕ × HandleTable P H :=
  if t.nextAvailableHandle = MOJO_HANDLE_INVALID then (MOJO_HANDLE_INVALID, t)
  else (t.nextAvailableHandle, { t with
    handles := Function.update t.handles t.nextAvailableHandle
      ((t.handles t.nextAvailableHandle).or (some { dispatcher := o }))
    nextAvailableHandle := (t.nextAvailableHandle + 1) % 2 ^ 32 })

/-- A new dispatcher is created, and then added. -/
theorem addDispatcher_eq_add (t : HandleTable P H) (d : Dispatcher P H)
    (h : t.nextAvailableHandle ≠ MOJO_HANDLE_INVALID) :
    t.addDispatcher d = (t.new d).add t.numDispatchers := by
  rw [addDispatcher, if_neg h, add, if_neg (show (t.new d).nextAvailableHandle ≠ _ from h)]
  rfl

end HandleTable

namespace Dispatcher

variable {P : Type}

/-- The port that `Close` closes: that of a pipe, if it was not transferred. -/
def portToClose : Dispatcher P H → Option P
  | .messagePipe d => if d.portTransferred then none else some d.port
  | .dataPipeProducer d | .dataPipeConsumer d => if d.transferred then none else some d.controlPort
  | .sharedBuffer _ | .platformHandle _ | .waitSet _ => none

end Dispatcher

namespace Process

/-- `CreatePortPair`. -/
def createPortPair (s : Process H) : Process H :=
  { s with ports := s.ports ++ [s.nextPort, s.nextPort + 1], nextPort := s.nextPort + 2 }

/-- A new dispatcher. -/
def new (s : Process H) (d : Dispatcher ℕ H) : ℕ × Process H :=
  (s.table.numDispatchers, { s with table := s.table.new d })

/-- `AddDispatcher`. -/
def addDispatcher (s : Process H) (o : ℕ) : ℕ × Process H :=
  ((s.table.add o).1, { s with table := (s.table.add o).2 })

/-- `Close` of a dispatcher. -/
def close (s : Process H) (o : ℕ) : Process H :=
  { s with
    table := { s.table with
      dispatchers := Function.update s.table.dispatchers o (s.table.dispatchers o).close.2 }
    ports :=
      if (s.table.dispatchers o).close.1 = .ok then
        s.ports.filter fun p => (s.table.dispatchers o).portToClose ≠ some p
      else s.ports }

/-- `ValidateCreateOptions` and `ValidateDuplicateOptions`, of shared buffers. -/
def validateOptions (platform : Platform H) : Option SharedBufferOptions → MojoResult
  | none => .ok
  | some options =>
    if !platform.isValid options then .invalidArgument
    else if !platform.hasFlags options then .ok
    else if options.flags ≠ 0 then .unimplemented
    else .ok

/-- `PlatformSupport::CreateSharedBuffer`. -/
def createBuffer (platform : Platform H) (numBytes : ℕ) : Option (PlatformSharedBuffer H) :=
  (platform.createSharedBuffer numBytes).map fun handle => ⟨some handle, .ofNat numBytes⟩

/-- `CreateMessagePipe`. -/
def createMessagePipe (s : Process H) (pipeId : UInt64) : Option (Created H) :=
  let (port0, port1) := (s.nextPort, s.nextPort + 1)
  let s := s.createPortPair
  let (d0, s) := s.new (.messagePipe { port := port0, pipeId := pipeId, endpoint := 0 })
  let (handle0, s) := s.addDispatcher d0
  if handle0 = MOJO_HANDLE_INVALID then some ⟨.resourceExhausted, [handle0], s⟩
  else
    let (d1, s) := s.new (.messagePipe { port := port1, pipeId := pipeId, endpoint := 1 })
    let (handle1, s) := s.addDispatcher d1
    -- A null pointer is followed.
    if handle1 = MOJO_HANDLE_INVALID then none
    else some ⟨.ok, [handle0, handle1], s⟩

/-- The options of a data pipe, with defaults. -/
def dataPipeOptions (options : Option DataPipeOptions) : DataPipeOptions where
  structSize := 16
  flags := (options.map (·.flags)).getD 0
  elementNumBytes := (options.map (·.elementNumBytes)).getD 1
  capacityNumBytes :=
    match options with
    | some options => if options.capacityNumBytes ≠ 0 then options.capacityNumBytes else 64 * 1024
    | none => 64 * 1024

/-- `CreateDataPipe`. -/
def createDataPipe (s : Process H) (platform : Platform H) (options : Option DataPipeOptions)
    (pipeId : UInt64) : Option (Created H) :=
  if options.any (·.structSize ≠ 16) then some ⟨.invalidArgument, [], s⟩
  else
    let options := dataPipeOptions options
    match createBuffer platform options.capacityNumBytes.toNat with
    | none => some ⟨.resourceExhausted, [], s⟩
    | some ringBuffer =>
      let (port0, port1) := (s.nextPort, s.nextPort + 1)
      let s := s.createPortPair
      let (producer, s) := s.new (.dataPipeProducer
        { controlPort := port0
          options := options
          pipeId := pipeId
          sharedRingBuffer := some ringBuffer
          amount := options.capacityNumBytes })
      let (consumer, s) := s.new (.dataPipeConsumer
        { controlPort := port1
          options := options
          pipeId := pipeId
          sharedRingBuffer := some ringBuffer })
      let (handle0, s) := s.addDispatcher producer
      let (handle1, s) := s.addDispatcher consumer
      if handle0 = MOJO_HANDLE_INVALID ∨ handle1 = MOJO_HANDLE_INVALID then
        -- Handles run out: only the producer, which comes first, can have got one.
        let s :=
          if handle0 ≠ MOJO_HANDLE_INVALID then
            { s with table := (s.table.getAndRemoveDispatcher handle0).2.2 }
          else s
        some ⟨.resourceExhausted, [handle0, handle1], (s.close producer).close consumer⟩
      else some ⟨.ok, [handle0, handle1], s⟩

/-- `CreateSharedBuffer`. -/
def createSharedBuffer (s : Process H) (platform : Platform H)
    (options : Option SharedBufferOptions) (numBytes : UInt64) : Option (Created H) :=
  if validateOptions platform options ≠ .ok then
    some ⟨validateOptions platform options, [], s⟩
  else if numBytes = 0 then some ⟨.invalidArgument, [], s⟩
  else if platform.maxSharedMemoryNumBytes < numBytes.toNat then some ⟨.resourceExhausted, [], s⟩
  else
    match createBuffer platform numBytes.toNat with
    | none => some ⟨.resourceExhausted, [], s⟩
    | some buffer =>
      let (d, s) := s.new (.sharedBuffer { sharedBuffer := some buffer })
      let (handle, s) := s.addDispatcher d
      if handle = MOJO_HANDLE_INVALID then some ⟨.resourceExhausted, [handle], s.close d⟩
      else some ⟨.ok, [handle], s⟩

/-- `DuplicateBufferHandle`. -/
def duplicateBufferHandle (s : Process H) (platform : Platform H) (bufferHandle : ℕ)
    (options : Option SharedBufferOptions) : Option (Created H) :=
  match s.table.handles bufferHandle with
  | none => some ⟨.invalidArgument, [], s⟩
  | some e =>
    match s.table.dispatchers e.dispatcher with
    | .sharedBuffer d =>
      if validateOptions platform options ≠ .ok then
        some ⟨validateOptions platform options, [], s⟩
      else if d.inTransit then some ⟨.invalidArgument, [], s⟩
      -- A dispatcher is made for a buffer only.
      else if d.sharedBuffer.isNone then none
      else
        let (duplicate, s) := s.new (.sharedBuffer { sharedBuffer := d.sharedBuffer })
        let (handle, s) := s.addDispatcher duplicate
        if handle = MOJO_HANDLE_INVALID then
          some ⟨.resourceExhausted, [handle], s.close e.dispatcher⟩
        else some ⟨.ok, [handle], s⟩
    | _ => some ⟨.invalidArgument, [], s⟩

/-- `CreateWaitSet`, with the address of the handle or without it. -/
def createWaitSet (s : Process H) (waitSetHandle : Bool) : Option (Created H) :=
  if !waitSetHandle then some ⟨.invalidArgument, [], s⟩
  else
    let (d, s) := s.new (.waitSet false)
    let (handle, s) := s.addDispatcher d
    if handle = MOJO_HANDLE_INVALID then some ⟨.resourceExhausted, [], s.close d⟩
    else some ⟨.ok, [handle], s⟩

/-! ## Calls that find too few handles -/

/-- The calls, with their arguments. -/
inductive Operation
  | createMessagePipe (pipeId : UInt64)
  | createDataPipe (options : Option DataPipeOptions) (pipeId : UInt64)
  | createSharedBuffer (options : Option SharedBufferOptions) (numBytes : UInt64)
  | duplicateBufferHandle (bufferHandle : ℕ) (options : Option SharedBufferOptions)
  | createWaitSet (waitSetHandle : Bool)

/-- How many handles a call needs. -/
def Operation.handlesNeeded : Operation → ℕ
  | .createMessagePipe _ | .createDataPipe _ _ => 2
  | .createSharedBuffer _ _ | .duplicateBufferHandle _ _ | .createWaitSet _ => 1

/-- What a call does: nothing is left after a crash. -/
def run (platform : Platform H) (s : Process H) : Operation → Option (Created H)
  | .createMessagePipe pipeId => s.createMessagePipe pipeId
  | .createDataPipe options pipeId => s.createDataPipe platform options pipeId
  | .createSharedBuffer options numBytes => s.createSharedBuffer platform options numBytes
  | .duplicateBufferHandle bufferHandle options =>
    s.duplicateBufferHandle platform bufferHandle options
  | .createWaitSet waitSetHandle => s.createWaitSet waitSetHandle

/-- How many handles a table can still give out. -/
def handlesLeft (s : Process H) : ℕ :=
  if s.table.nextAvailableHandle = MOJO_HANDLE_INVALID then 0
  else 2 ^ 32 - s.table.nextAvailableHandle

/-- A handle has 32 bits, and stands for a dispatcher that exists. -/
structure WellFormed (s : Process H) : Prop where
  next_lt : s.table.nextAvailableHandle < 2 ^ 32
  dispatcher_lt : ∀ handle e, s.table.handles handle = some e → e.dispatcher < s.table.numDispatchers

/-- Everything is as it was. -/
structure Unchanged (s s' : Process H) : Prop where
  handles : s'.table.handles = s.table.handles
  still_open : ∀ o < s.table.numDispatchers, (s.table.dispatchers o).isClosed = false →
    (s'.table.dispatchers o).isClosed = false
  closed : ∀ o, s.table.numDispatchers ≤ o → o < s'.table.numDispatchers →
    (s'.table.dispatchers o).isClosed = true
  ports : ∀ p ∈ s'.ports, p ∈ s.ports

/-- A call tells that there are not enough resources, and has undone what it did. -/
def Restored (platform : Platform H) (s : Process H) (op : Operation) : Prop :=
  ∃ r, s.run platform op = some r ∧ r.result = .resourceExhausted ∧ Unchanged s r.process

/-- A call that undoes what it did: its arguments are valid, it creates neither a message pipe nor
    a duplicate, and the next handle is new to the table. -/
def Undoes (platform : Platform H) (s : Process H) : Operation → Prop
  | .createMessagePipe _ | .duplicateBufferHandle _ _ => False
  | .createDataPipe options _ => ¬options.any (·.structSize ≠ 16) ∧
    (createBuffer platform (dataPipeOptions options).capacityNumBytes.toNat = none ∨
      s.table.nextAvailableHandle = MOJO_HANDLE_INVALID ∨
        ∀ e, s.table.handles s.table.nextAvailableHandle = some e → e.busy = true)
  | .createSharedBuffer options numBytes => validateOptions platform options = .ok ∧ numBytes ≠ 0
  | .createWaitSet waitSetHandle => waitSetHandle = true

variable {s s' : Process H} {platform : Platform H} {o : ℕ} {d : Dispatcher ℕ H}

theorem Unchanged.refl (s : Process H) : Unchanged s s :=
  ⟨rfl, fun _ _ h => h, fun _ hle hlt => absurd hlt (not_lt.2 hle), fun _ h => h⟩

theorem add_of_full {t : HandleTable ℕ H} (h : t.nextAvailableHandle = MOJO_HANDLE_INVALID)
    (o : ℕ) : t.add o = (MOJO_HANDLE_INVALID, t) := if_pos h

/-- A table in which there is no handle left, or only the last one. -/
theorem full_or_last (w : WellFormed s) {n : ℕ} (h : s.handlesLeft < n) (hn : n ≤ 2) :
    s.table.nextAvailableHandle = MOJO_HANDLE_INVALID ∨
      n = 2 ∧ s.table.nextAvailableHandle = 4294967295 := by
  rw [handlesLeft] at h
  split_ifs at h with hnext
  · exact .inl hnext
  · have hlt := w.next_lt
    omega

@[simp] theorem new_fst (s : Process H) (d : Dispatcher ℕ H) :
    (s.new d).1 = s.table.numDispatchers := rfl

@[simp] theorem numDispatchers_new (s : Process H) (d : Dispatcher ℕ H) :
    (s.new d).2.table.numDispatchers = s.table.numDispatchers + 1 := rfl

@[simp] theorem handles_new (s : Process H) (d : Dispatcher ℕ H) :
    (s.new d).2.table.handles = s.table.handles := rfl

@[simp] theorem next_new (s : Process H) (d : Dispatcher ℕ H) :
    (s.new d).2.table.nextAvailableHandle = s.table.nextAvailableHandle := rfl

@[simp] theorem handles_close (s : Process H) (o : ℕ) :
    (s.close o).table.handles = s.table.handles := rfl

@[simp] theorem numDispatchers_close (s : Process H) (o : ℕ) :
    (s.close o).table.numDispatchers = s.table.numDispatchers := rfl

theorem dispatchers_close (s : Process H) (o o' : ℕ) : (s.close o).table.dispatchers o' =
    if o' = o then (s.table.dispatchers o).close.2 else s.table.dispatchers o' :=
  Function.update_apply ..

theorem dispatchers_new (s : Process H) (d : Dispatcher ℕ H) (o : ℕ) :
    (s.new d).2.table.dispatchers o =
      if o = s.table.numDispatchers then d else s.table.dispatchers o :=
  Function.update_apply ..

theorem mem_ports_close {p : ℕ} (h : p ∈ (s.close o).ports) : p ∈ s.ports := by
  rw [close] at h
  dsimp only at h
  split_ifs at h
  · exact List.mem_of_mem_filter h
  · exact h

/-- A call on a full table gives no handle. -/
theorem addDispatcher_of_full (h : s.table.nextAvailableHandle = MOJO_HANDLE_INVALID) (o : ℕ) :
    s.addDispatcher o = (MOJO_HANDLE_INVALID, s) := by
  rw [addDispatcher, add_of_full h]

/-- The last handle is given out. -/
theorem addDispatcher_of_last (h : s.table.nextAvailableHandle = 4294967295) (o : ℕ) :
    s.addDispatcher o = (4294967295, { s with table := { s.table with
      handles := Function.update s.table.handles 4294967295
        ((s.table.handles 4294967295).or (some { dispatcher := o }))
      nextAvailableHandle := MOJO_HANDLE_INVALID } }) := by
  rw [addDispatcher, HandleTable.add, h, if_neg (by decide)]
  rfl

/-- A dispatcher that owns no port is created and closed. -/
theorem Unchanged.new_close (hd : d.close.2.isClosed = true) :
    Unchanged s ((s.new d).2.close s.table.numDispatchers) where
  handles := rfl
  still_open o ho hopen := by
    rw [dispatchers_close, if_neg ho.ne, dispatchers_new, if_neg ho.ne]
    exact hopen
  closed o hle hlt := by
    obtain rfl : o = s.table.numDispatchers := le_antisymm (Nat.le_of_lt_succ hlt) hle
    rw [dispatchers_close, if_pos rfl, dispatchers_new, if_pos rfl]
    exact hd
  ports p hp := mem_ports_close (s := (s.new d).2) hp

/-! ### Shared buffers and wait sets -/

theorem createWaitSet_of_full (hfull : s.table.nextAvailableHandle = MOJO_HANDLE_INVALID) :
    s.createWaitSet true = some ⟨.resourceExhausted, [],
      (s.new (.waitSet false)).2.close s.table.numDispatchers⟩ := by
  have hadd := addDispatcher_of_full (s := (s.new (.waitSet false)).2) hfull s.table.numDispatchers
  simp only [createWaitSet, Bool.not_true, Bool.false_eq_true, if_false, new_fst, hadd, if_true]

theorem restored_createWaitSet (hfull : s.table.nextAvailableHandle = MOJO_HANDLE_INVALID)
    (waitSetHandle : Bool) :
    Restored platform s (.createWaitSet waitSetHandle) ↔ waitSetHandle = true := by
  cases waitSetHandle with
  | false =>
    refine ⟨?_, nofun⟩
    rintro ⟨r, hr, hresult, -⟩
    obtain rfl := Option.some.inj hr
    cases hresult
  | true =>
    exact ⟨fun _ => rfl, fun _ => ⟨_, createWaitSet_of_full hfull, rfl, .new_close rfl⟩⟩

theorem createSharedBuffer_of_full (hfull : s.table.nextAvailableHandle = MOJO_HANDLE_INVALID)
    {options : Option SharedBufferOptions} {numBytes : UInt64}
    (hoptions : validateOptions platform options = .ok) (hbytes : numBytes ≠ 0) :
    ∃ r, s.createSharedBuffer platform options numBytes = some r ∧ r.result = .resourceExhausted ∧
      Unchanged s r.process := by
  rw [createSharedBuffer, if_neg (not_not.2 hoptions), if_neg hbytes]
  split_ifs
  · exact ⟨_, rfl, rfl, .refl s⟩
  · split
    next => exact ⟨_, rfl, rfl, .refl s⟩
    next buffer _ =>
      have hadd := addDispatcher_of_full (s := (s.new (.sharedBuffer { sharedBuffer := some buffer })).2)
        hfull s.table.numDispatchers
      refine ⟨⟨.resourceExhausted, [MOJO_HANDLE_INVALID],
        (s.new (.sharedBuffer { sharedBuffer := some buffer })).2.close s.table.numDispatchers⟩, ?_,
        rfl, .new_close rfl⟩
      simp only [new_fst, hadd, if_true]

theorem restored_createSharedBuffer (hfull : s.table.nextAvailableHandle = MOJO_HANDLE_INVALID)
    (options : Option SharedBufferOptions) (numBytes : UInt64) :
    Restored platform s (.createSharedBuffer options numBytes) ↔
      validateOptions platform options = .ok ∧ numBytes ≠ 0 := by
  constructor
  · rintro ⟨r, hr, hresult, -⟩
    rw [run, createSharedBuffer] at hr
    split_ifs at hr with hoptions hbytes
    · obtain rfl := Option.some.inj hr
      rw [validateOptions.eq_def] at hresult
      split at hresult
      next => cases hresult
      next => split_ifs at hresult
    · obtain rfl := Option.some.inj hr
      cases hresult
    all_goals exact ⟨not_not.1 hoptions, hbytes⟩
  · rintro ⟨hoptions, hbytes⟩
    exact createSharedBuffer_of_full hfull hoptions hbytes

/-- A duplicate is not closed. -/
theorem not_restored_duplicateBufferHandle (w : WellFormed s)
    (hfull : s.table.nextAvailableHandle = MOJO_HANDLE_INVALID) (bufferHandle : ℕ)
    (options : Option SharedBufferOptions) :
    ¬Restored platform s (.duplicateBufferHandle bufferHandle options) := by
  rintro ⟨r, hr, hresult, hsame⟩
  rw [run, duplicateBufferHandle] at hr
  have hinvalid : ∀ {r : Created H}, some ⟨.invalidArgument, [], s⟩ = some r →
      r.result ≠ .resourceExhausted := by
    rintro r hr hresult
    obtain rfl := Option.some.inj hr
    cases hresult
  split at hr
  next => exact hinvalid hr hresult
  next e he =>
    split at hr
    next d hd =>
      split_ifs at hr with hoptions htransit hnone
      · obtain rfl := Option.some.inj hr
        rw [validateOptions.eq_def] at hresult
        split at hresult
        next => cases hresult
        next => split_ifs at hresult
      · exact hinvalid hr hresult
      · have hadd := addDispatcher_of_full
          (s := (s.new (.sharedBuffer { sharedBuffer := d.sharedBuffer })).2) hfull
          s.table.numDispatchers
        simp only [new_fst, hadd, if_true] at hr
        obtain rfl := Option.some.inj hr
        have hclosed := hsame.closed s.table.numDispatchers le_rfl (Nat.lt_succ_self _)
        rw [dispatchers_close, if_neg (w.dispatcher_lt _ e he).ne', dispatchers_new, if_pos rfl]
          at hclosed
        exact hnone hclosed
    next => exact hinvalid hr hresult

/-! ### Pipes -/

/-- The first end is not closed, or a null pointer is followed. -/
theorem not_restored_createMessagePipe (w : WellFormed s) (hleft : s.handlesLeft < 2)
    (pipeId : UInt64) : ¬Restored platform s (.createMessagePipe pipeId) := by
  rintro ⟨r, hr, hresult, hsame⟩
  rw [run] at hr
  set d0 : Dispatcher ℕ H := .messagePipe { port := s.nextPort, pipeId := pipeId, endpoint := 0 }
    with hd0
  rcases full_or_last w hleft le_rfl with hfull | ⟨-, hlast⟩
  · have hadd := addDispatcher_of_full (s := (s.createPortPair.new d0).2) hfull
      s.createPortPair.table.numDispatchers
    simp only [createMessagePipe, ← hd0, new_fst, hadd, if_true] at hr
    obtain rfl := Option.some.inj hr
    have hclosed := hsame.closed s.table.numDispatchers le_rfl (Nat.lt_succ_self _)
    rw [dispatchers_new, if_pos (by rfl)] at hclosed
    cases hclosed
  · have hadd := addDispatcher_of_last (s := (s.createPortPair.new d0).2) hlast
      s.createPortPair.table.numDispatchers
    have hadd' : ∀ (s' : Process H) d, s'.table.nextAvailableHandle = MOJO_HANDLE_INVALID →
        (s'.new d).2.addDispatcher s'.table.numDispatchers =
          (MOJO_HANDLE_INVALID, (s'.new d).2) := fun s' d h => addDispatcher_of_full (s := (s'.new d).2) h _
    simp only [createMessagePipe, ← hd0, new_fst, hadd] at hr
    rw [hadd' _ _ rfl] at hr
    simp [MOJO_HANDLE_INVALID] at hr

/-- Two ends of a pipe are created and closed. -/
theorem unchanged_close_ends {producer consumer : DataPipe ℕ H} {s₁ : Process H}
    (hdispatchers : s₁.table.dispatchers = Function.update (Function.update s.table.dispatchers
      s.table.numDispatchers (.dataPipeProducer producer)) (s.table.numDispatchers + 1)
        (.dataPipeConsumer consumer))
    (hproducer : producer.isClosed = false ∧ producer.inTransit = false ∧
      producer.transferred = false ∧ producer.controlPort = s.nextPort)
    (hconsumer : consumer.isClosed = false ∧ consumer.inTransit = false ∧
      consumer.transferred = false ∧ consumer.controlPort = s.nextPort + 1)
    (hhandles : s₁.table.handles = s.table.handles)
    (hnum : s₁.table.numDispatchers = s.table.numDispatchers + 2)
    (hports : s₁.ports = s.ports ++ [s.nextPort, s.nextPort + 1]) :
    Unchanged s ((s₁.close s.table.numDispatchers).close (s.table.numDispatchers + 1)) := by
  obtain ⟨hp₁, hp₂, hp₃, hp₄⟩ := hproducer
  obtain ⟨hc₁, hc₂, hc₃, hc₄⟩ := hconsumer
  set n := s.table.numDispatchers with hn
  have hne : n + 1 ≠ n := Nat.succ_ne_self n
  have hproducer : s₁.table.dispatchers n = .dataPipeProducer producer := by
    rw [hdispatchers, Function.update_of_ne hne.symm, Function.update_self]
  have hconsumer : (s₁.close n).table.dispatchers (n + 1) = .dataPipeConsumer consumer := by
    rw [dispatchers_close, if_neg hne, hdispatchers, Function.update_self]
  have hclose : (Dispatcher.dataPipeProducer producer).close.1 = .ok := by
    simp [Dispatcher.close, hp₁, hp₂]
  have hclose' : (Dispatcher.dataPipeConsumer consumer).close.1 = .ok := by
    simp [Dispatcher.close, hc₁, hc₂]
  refine ⟨hhandles, fun o ho hopen => ?_, fun o hle hlt => ?_, fun p hp => ?_⟩
  · rw [dispatchers_close, if_neg (ho.trans (Nat.lt_succ_self n)).ne, dispatchers_close,
      if_neg ho.ne, hdispatchers, Function.update_of_ne (ho.trans (Nat.lt_succ_self n)).ne,
      Function.update_of_ne ho.ne]
    exact hopen
  · rw [numDispatchers_close, numDispatchers_close, hnum] at hlt
    rcases Nat.lt_succ_iff_lt_or_eq.1 hlt with hlt | rfl
    · obtain rfl := le_antisymm (Nat.le_of_lt_succ hlt) hle
      rw [dispatchers_close, if_neg hne.symm, dispatchers_close, if_pos rfl, hproducer]
      simp [Dispatcher.close, hp₁, hp₂, Dispatcher.isClosed]
    · rw [dispatchers_close, if_pos rfl, hconsumer]
      simp [Dispatcher.close, hc₁, hc₂, Dispatcher.isClosed]
  · -- The ports of both ends are closed.
    rw [close, hconsumer, if_pos hclose'] at hp
    obtain ⟨hp, hp'⟩ := List.mem_filter.1 hp
    rw [close, hproducer, if_pos hclose] at hp
    obtain ⟨hp, hp''⟩ := List.mem_filter.1 hp
    simp only [Dispatcher.portToClose, hc₃, hp₃, hc₄, hp₄, Bool.false_eq_true, if_false, ne_eq,
      Option.some.injEq, decide_not, Bool.not_eq_true', decide_eq_false_iff_not] at hp' hp''
    rw [hports] at hp
    rcases List.mem_append.1 hp with hp | hp
    · exact hp
    · rcases List.mem_pair.1 hp with rfl | rfl
      · exact absurd rfl hp''
      · exact absurd rfl hp'

/-- The entry of the last handle is removed, unless it is busy. -/
theorem handles_getAndRemoveDispatcher {t : HandleTable ℕ H} {handle : ℕ} {e : Entry}
    (h : t.handles handle = some e) : (t.getAndRemoveDispatcher handle).2.2 =
      if e.busy then t else { t with handles := Function.update t.handles handle none } := by
  rw [HandleTable.getAndRemoveDispatcher, h]
  dsimp only
  split_ifs <;> rfl

theorem getAndRemoveDispatcher_frame (t : HandleTable ℕ H) (handle : ℕ) :
    (t.getAndRemoveDispatcher handle).2.2.dispatchers = t.dispatchers ∧
      (t.getAndRemoveDispatcher handle).2.2.numDispatchers = t.numDispatchers := by
  rw [HandleTable.getAndRemoveDispatcher]
  split
  next => exact ⟨rfl, rfl⟩
  next => split_ifs <;> exact ⟨rfl, rfl⟩

/-- The state when both ends of a data pipe are created, and have no handle yet. -/
def createEnds (s : Process H) (options : DataPipeOptions) (pipeId : UInt64)
    (ringBuffer : PlatformSharedBuffer H) : Process H :=
  ((s.createPortPair.new (.dataPipeProducer
    { controlPort := s.nextPort
      options := options
      pipeId := pipeId
      sharedRingBuffer := some ringBuffer
      amount := options.capacityNumBytes })).2.new (.dataPipeConsumer
    { controlPort := s.nextPort + 1
      options := options
      pipeId := pipeId
      sharedRingBuffer := some ringBuffer })).2

section DataPipe

variable {options : Option DataPipeOptions} {pipeId : UInt64} {ringBuffer : PlatformSharedBuffer H}

theorem createDataPipe_of_full (hoptions : options.any (·.structSize ≠ 16) = false)
    (hbuffer : createBuffer platform (dataPipeOptions options).capacityNumBytes.toNat =
      some ringBuffer) (hfull : s.table.nextAvailableHandle = MOJO_HANDLE_INVALID) :
    s.createDataPipe platform options pipeId = some ⟨.resourceExhausted,
      [MOJO_HANDLE_INVALID, MOJO_HANDLE_INVALID],
      ((s.createEnds (dataPipeOptions options) pipeId ringBuffer).close s.table.numDispatchers).close
        (s.table.numDispatchers + 1)⟩ := by
  have hadd : ∀ o, (s.createEnds (dataPipeOptions options) pipeId ringBuffer).addDispatcher o =
      (MOJO_HANDLE_INVALID, s.createEnds (dataPipeOptions options) pipeId ringBuffer) :=
    addDispatcher_of_full hfull
  rw [createEnds] at hadd ⊢
  simp only [createDataPipe, hoptions, Bool.false_eq_true, if_false, hbuffer, new_fst, hadd, true_or,
    if_true, ne_eq, not_true_eq_false]
  rfl

theorem createDataPipe_of_last (hoptions : options.any (·.structSize ≠ 16) = false)
    (hbuffer : createBuffer platform (dataPipeOptions options).capacityNumBytes.toNat =
      some ringBuffer) (hlast : s.table.nextAvailableHandle = 4294967295) :
    s.createDataPipe platform options pipeId = some ⟨.resourceExhausted,
      [4294967295, MOJO_HANDLE_INVALID],
      ((({ s.createEnds (dataPipeOptions options) pipeId ringBuffer with
        table := (HandleTable.getAndRemoveDispatcher
          { (s.createEnds (dataPipeOptions options) pipeId ringBuffer).table with
            handles := Function.update s.table.handles 4294967295
              ((s.table.handles 4294967295).or (some { dispatcher := s.table.numDispatchers }))
            nextAvailableHandle := MOJO_HANDLE_INVALID } 4294967295).2.2 } : Process H).close
              s.table.numDispatchers).close (s.table.numDispatchers + 1))⟩ := by
  have hadd := addDispatcher_of_last (s := s.createEnds (dataPipeOptions options) pipeId ringBuffer)
    hlast s.createPortPair.table.numDispatchers
  have hadd' : ∀ (s' : Process H) o, s'.table.nextAvailableHandle = MOJO_HANDLE_INVALID →
      s'.addDispatcher o = (MOJO_HANDLE_INVALID, s') := fun s' o h => addDispatcher_of_full h o
  rw [createEnds] at hadd ⊢
  simp only [createDataPipe, hoptions, Bool.false_eq_true, if_false, hbuffer, new_fst, hadd, hadd',
    or_true, if_true]
  rfl

/-- When the last handle is removed again, the entries are the ones of before, unless it stood for
    another dispatcher. -/
theorem handles_remove_last {t : HandleTable ℕ H} {handles : ℕ → Option Entry} {o : ℕ}
    (ht : t.handles = Function.update handles 4294967295
      ((handles 4294967295).or (some { dispatcher := o }))) :
    (t.getAndRemoveDispatcher 4294967295).2.2.handles = handles ↔
      ∀ e, handles 4294967295 = some e → e.busy = true := by
  cases hold : handles 4294967295 with
  | none =>
    rw [hold, Option.none_or] at ht
    have hentry : t.handles 4294967295 = some { dispatcher := o } := by
      rw [ht, Function.update_self]
    refine ⟨fun _ => nofun, fun _ => ?_⟩
    rw [handles_getAndRemoveDispatcher hentry, if_neg Bool.false_ne_true, ht]
    dsimp only
    rw [Function.update_idem, ← hold, Function.update_eq_self]
  | some e =>
    rw [hold, Option.some_or, ← hold, Function.update_eq_self] at ht
    rw [handles_getAndRemoveDispatcher (ht ▸ hold)]
    simp only [Option.some.injEq, forall_eq']
    cases hbusy : e.busy with
    | true => simp [ht]
    | false =>
      simp only [Bool.false_eq_true, if_false, iff_false]
      intro heq
      have hnone := congrFun heq 4294967295
      rw [Function.update_self, hold] at hnone
      cases hnone

theorem restored_createDataPipe (w : WellFormed s) (hleft : s.handlesLeft < 2)
    (options : Option DataPipeOptions) (pipeId : UInt64) :
    Restored platform s (.createDataPipe options pipeId) ↔
      Undoes platform s (.createDataPipe options pipeId) := by
  cases hoptions : options.any (·.structSize ≠ 16) with
  | true =>
    refine ⟨?_, fun h => absurd hoptions h.1⟩
    rintro ⟨r, hr, hresult, -⟩
    rw [run, createDataPipe, if_pos hoptions] at hr
    obtain rfl := Option.some.inj hr
    cases hresult
  | false =>
    have hvalid : ¬options.any (·.structSize ≠ 16) = true := by
      rw [hoptions]
      exact Bool.false_ne_true
    cases hbuffer : createBuffer platform (dataPipeOptions options).capacityNumBytes.toNat with
    | none =>
      refine ⟨fun _ => ⟨hvalid, .inl hbuffer⟩, fun _ => ⟨⟨.resourceExhausted, [], s⟩, ?_, rfl, .refl s⟩⟩
      rw [run, createDataPipe, if_neg hvalid]
      simp only [hbuffer]
    | some ringBuffer =>
      rcases full_or_last w hleft le_rfl with hfull | ⟨-, hlast⟩
      · refine ⟨fun _ => ⟨hvalid, .inr (.inl hfull)⟩, fun _ =>
          ⟨_, createDataPipe_of_full hoptions hbuffer hfull, rfl, ?_⟩⟩
        exact unchanged_close_ends rfl ⟨rfl, rfl, rfl, rfl⟩ ⟨rfl, rfl, rfl, rfl⟩ rfl rfl rfl
      · have hrun : s.createDataPipe platform options pipeId = _ :=
          createDataPipe_of_last hoptions hbuffer hlast
        constructor
        · rintro ⟨r, hr, -, hsame⟩
          rw [run, hrun] at hr
          obtain rfl := Option.some.inj hr
          refine ⟨hvalid, .inr (.inr ?_)⟩
          rw [hlast]
          exact (handles_remove_last rfl).1 hsame.handles
        · rintro ⟨-, hnone | hfull | hbusy⟩
          · cases hbuffer.symm.trans hnone
          · cases hlast.symm.trans hfull
          · refine ⟨_, hrun, rfl, ?_⟩
            rw [hlast] at hbusy
            obtain ⟨hdispatchers, hnum⟩ := getAndRemoveDispatcher_frame
              { (s.createEnds (dataPipeOptions options) pipeId ringBuffer).table with
                handles := Function.update s.table.handles 4294967295
                  ((s.table.handles 4294967295).or (some { dispatcher := s.table.numDispatchers }))
                nextAvailableHandle := MOJO_HANDLE_INVALID } 4294967295
            exact unchanged_close_ends hdispatchers ⟨rfl, rfl, rfl, rfl⟩ ⟨rfl, rfl, rfl, rfl⟩
              ((handles_remove_last rfl).2 hbusy) hnum rfl

end DataPipe

/-- A call that finds too few handles undoes what it did if it creates a data pipe, a shared buffer
    or a wait set, and not if it creates a message pipe or a duplicate of a buffer. -/
theorem restored_iff (platform : Platform H) (w : WellFormed s) {op : Operation}
    (hleft : s.handlesLeft < op.handlesNeeded) : Restored platform s op ↔ Undoes platform s op := by
  cases op with
  | createMessagePipe pipeId =>
    exact iff_of_false (not_restored_createMessagePipe w hleft pipeId) id
  | createDataPipe options pipeId => exact restored_createDataPipe w hleft options pipeId
  | createSharedBuffer options numBytes =>
    obtain hfull := (full_or_last w hleft one_le_two).resolve_right fun h => nomatch h.1
    exact restored_createSharedBuffer hfull options numBytes
  | duplicateBufferHandle bufferHandle options =>
    obtain hfull := (full_or_last w hleft one_le_two).resolve_right fun h => nomatch h.1
    exact iff_of_false (not_restored_duplicateBufferHandle w hfull bufferHandle options) id
  | createWaitSet waitSetHandle =>
    obtain hfull := (full_or_last w hleft one_le_two).resolve_right fun h => nomatch h.1
    exact restored_createWaitSet hfull waitSetHandle

/-- A platform with memory, where all options are valid. -/
def somePlatform : Platform ℕ := ⟨fun _ => true, fun _ => true, fun n => some n, 1024⟩

/-- A process that has given out all handles but the last one. -/
def lastHandle : Process ℕ where
  table := { nextAvailableHandle := 4294967295 }

theorem restored_iff_lastHandle : lastHandle.handlesLeft < 2 ∧
    (Restored somePlatform lastHandle (.createDataPipe none 7) ↔
      Undoes somePlatform lastHandle (.createDataPipe none 7)) :=
  ⟨by decide, restored_iff somePlatform ⟨by decide, fun _ _ h => by cases h⟩ (by decide)⟩

/-- A message pipe with the last handle: a null pointer is followed. -/
theorem not_restored_lastHandle : lastHandle.handlesLeft < 2 ∧
    lastHandle.run somePlatform (.createMessagePipe 7) = none ∧
    ¬Restored somePlatform lastHandle (.createMessagePipe 7) := by
  have hnone : lastHandle.run somePlatform (.createMessagePipe 7) = none := by decide
  refine ⟨by decide, hnone, ?_⟩
  rintro ⟨r, hr, -⟩
  cases hnone.symm.trans hr

end Process

end MojoEdk.Core
