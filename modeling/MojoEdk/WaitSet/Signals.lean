import MojoEdk.DataPipe.Dispatchers
import MojoEdk.Ports.Node
import MojoEdk.WaitSet.Dispatcher

/-!
# Signals of dispatchers

The signals of the ends of message pipes and data pipes, as these dispatchers compute them
from their state (`GetHandleSignalsStateNoLock`).

Most changes of the state are told to the list of awakables. The calls that read messages
or data, or begin to read or to write, are not (`ReadMessage`, `ReadData`, `BeginReadData`,
`BeginWriteData`), nor is the end of a write after which nothing can be written
(`EndWriteData`). After these no signal is satisfied that was not before.
-/

namespace MojoEdk.WaitSet

def MOJO_HANDLE_SIGNAL_READABLE : Signals := 1
def MOJO_HANDLE_SIGNAL_WRITABLE : Signals := 2
def MOJO_HANDLE_SIGNAL_PEER_CLOSED : Signals := 4

/-- `HandleSignalsState`. -/
structure HandleSignalsState where
  satisfiedSignals : Signals := 0
  satisfiableSignals : Signals := 0
  deriving DecidableEq

namespace HandleSignalsState

/-- `satisfies`. -/
def Satisfies (s : HandleSignalsState) (signals : Signals) : Prop :=
  s.satisfiedSignals &&& signals ≠ 0

/-- `can_satisfy`. -/
def CanSatisfy (s : HandleSignalsState) (signals : Signals) : Prop :=
  s.satisfiableSignals &&& signals ≠ 0

variable {s s' : HandleSignalsState} {signals : Signals}

instance : Decidable (s.Satisfies signals) := inferInstanceAs (Decidable (_ ≠ _))

instance : Decidable (s.CanSatisfy signals) := inferInstanceAs (Decidable (_ ≠ _))

/-- No signal is satisfied that was not before. -/
def Lessens (s s' : HandleSignalsState) : Prop :=
  s'.satisfiedSignals &&& s.satisfiedSignals = s'.satisfiedSignals

instance : Decidable (s.Lessens s') := inferInstanceAs (Decidable (_ = _))

theorem Lessens.refl (s : HandleSignalsState) : s.Lessens s := UInt32.and_self

/-- What is satisfied with less was satisfied before. -/
theorem Lessens.satisfies (h : s.Lessens s') (hs' : s'.Satisfies signals) : s.Satisfies signals := by
  intro hs
  apply hs'
  rw [← h, UInt32.and_assoc, hs, UInt32.and_zero]

/-- A closed handle satisfies nothing. -/
theorem not_satisfies_empty (signals : Signals) : ¬Satisfies {} signals :=
  fun h => h UInt32.zero_and

end HandleSignalsState

open HandleSignalsState

/-! ## Message pipes -/

/-- `MessagePipeDispatcher::GetHandleSignalsStateNoLock`. -/
def messagePipeState {α : Type*} (node : Ports.Node α) (port : Ports.PortName) :
    HandleSignalsState :=
  match node.getStatus port with
  | .error _ => {}
  | .ok status =>
    { satisfiedSignals :=
        (if status.hasMessages then MOJO_HANDLE_SIGNAL_READABLE else 0) |||
          if status.peerClosed then MOJO_HANDLE_SIGNAL_PEER_CLOSED else MOJO_HANDLE_SIGNAL_WRITABLE
      satisfiableSignals :=
        (if status.hasMessages || status.receivingMessages || !status.peerClosed then
          MOJO_HANDLE_SIGNAL_READABLE else 0) |||
        (if status.peerClosed then 0 else MOJO_HANDLE_SIGNAL_WRITABLE) |||
        MOJO_HANDLE_SIGNAL_PEER_CLOSED }

section MessagePipe

variable {α : Type*}

variable {node node' : Ports.Node α} {p : Ports.PortName}

/-- The status of a port is that of its queue and of its peer. -/
theorem getStatus_of_getPort {port : Ports.Port α} (h : node.getPort p = some port) :
    node.getStatus p =
      if port.state = .receiving then
        .ok { hasMessages := port.messageQueue.hasNextMessage
              receivingMessages := port.canAcceptMoreMessages
              peerClosed := port.peerClosed }
      else .error .errorPortStateUnexpected := by
  rw [Ports.Node.getStatus, h]

/-- Ports that become signalable have the same status. -/
theorem getStatus_setSignalable (node : Ports.Node α) (names : List Ports.PortName)
    (p : Ports.PortName) : (node.setSignalable names).getStatus p = node.getStatus p := by
  induction names generalizing node with
  | nil => rfl
  | cons name names ih =>
    rw [Ports.Node.setSignalable, List.foldl_cons]
    refine (ih _).trans ?_
    cases hport : node.getPort name with
    | none => rfl
    | some port =>
      have hoops : (if port.state = .receiving then node
          else node.oops .newPortStateUnexpected).getPort p = node.getPort p := by
        split_ifs <;> rfl
      by_cases hp : p = name
      · rw [getStatus_of_getPort ((Ports.Node.getPort_setPort ..).trans (if_pos hp)),
          getStatus_of_getPort (hp ▸ hport)]
        rfl
      · simp only [Ports.Node.getStatus, Ports.Node.getPort_setPort, if_neg hp, hoops]

/-- Reading a message satisfies no signal. -/
theorem lessens_getMessageIf (node : Ports.Node α) (p : Ports.PortName)
    (selector : Option (Ports.Message α → Bool)) :
    (messagePipeState node p).Lessens (messagePipeState (node.getMessageIf p selector).1 p) := by
  rw [Ports.Node.getMessageIf]
  split
  next => exact .refl _
  next port hport =>
    split_ifs with hstate haccept
    · exact .refl _
    · exact .refl _
    · split
      next => exact .refl _
      next m queue hqueue =>
        -- The port had the message that was read.
        have hnext : port.messageQueue.hasNextMessage = true := by
          rw [Ports.MessageQueue.getNextMessageIf] at hqueue
          rw [Ports.MessageQueue.hasNextMessage]
          split at hqueue
          next => cases hqueue
          next =>
            split_ifs at hqueue with hselected
            · exact (Bool.and_eq_true_iff.1 hselected).1
            · cases hqueue
        simp only [Lessens, messagePipeState, getStatus_setSignalable, getStatus_of_getPort hport,
          getStatus_of_getPort ((Ports.Node.getPort_setPort ..).trans (if_pos rfl)),
          not_not.1 hstate, if_true, hnext]
        split_ifs <;> decide

end MessagePipe

/-! ## Data pipes -/

section DataPipe

variable {P H : Type*}

/-- `DataPipeConsumerDispatcher::GetHandleSignalsStateNoLock`. -/
def consumerState (d : Core.DataPipe P H) : HandleSignalsState where
  satisfiedSignals :=
    (if d.sharedRingBuffer.isSome && d.amount != 0 && !d.inTwoPhase then
      MOJO_HANDLE_SIGNAL_READABLE else 0) |||
    if d.peerClosed then MOJO_HANDLE_SIGNAL_PEER_CLOSED else 0
  satisfiableSignals :=
    (if d.sharedRingBuffer.isSome && (d.amount != 0 || !d.peerClosed) then
      MOJO_HANDLE_SIGNAL_READABLE else 0) |||
    MOJO_HANDLE_SIGNAL_PEER_CLOSED

/-- `DataPipeProducerDispatcher::GetHandleSignalsStateNoLock`. -/
def producerState (d : Core.DataPipe P H) : HandleSignalsState where
  satisfiedSignals :=
    if !d.peerClosed then
      if !d.inTwoPhase && d.sharedRingBuffer.isSome && d.amount > 0 then
        MOJO_HANDLE_SIGNAL_WRITABLE else 0
    else MOJO_HANDLE_SIGNAL_PEER_CLOSED
  satisfiableSignals :=
    (if !d.peerClosed then MOJO_HANDLE_SIGNAL_WRITABLE else 0) ||| MOJO_HANDLE_SIGNAL_PEER_CLOSED

variable {d d' : Core.DataPipe P H}

/-- A consumer that has as much as before, or less, and reads as before. -/
theorem lessens_consumerState (hbuffer : d'.sharedRingBuffer = d.sharedRingBuffer)
    (hclosed : d'.peerClosed = d.peerClosed) (hamount : d'.amount ≤ d.amount)
    (hphase : d'.inTwoPhase = false → d.inTwoPhase = false) :
    (consumerState d).Lessens (consumerState d') := by
  have hreadable : (d'.sharedRingBuffer.isSome && d'.amount != 0 && !d'.inTwoPhase) = true →
      (d.sharedRingBuffer.isSome && d.amount != 0 && !d.inTwoPhase) = true := by
    simp only [Bool.and_eq_true, bne_iff_ne, Bool.not_eq_true', hbuffer]
    rintro ⟨⟨hsome, hne⟩, hno⟩
    exact ⟨⟨hsome, fun h => hne (UInt32.le_zero_iff.1 (h ▸ hamount))⟩, hphase hno⟩
  simp only [Lessens, consumerState, hclosed]
  revert hreadable
  generalize (d.sharedRingBuffer.isSome && _ && _) = readable
  generalize (d'.sharedRingBuffer.isSome && _ && _) = readable'
  cases readable <;> cases readable' <;> cases d.peerClosed <;> decide

/-- A producer that cannot write, or could before. -/
theorem lessens_producerState (hclosed : d'.peerClosed = d.peerClosed)
    (h : (producerState d').Satisfies MOJO_HANDLE_SIGNAL_WRITABLE →
      (producerState d).Satisfies MOJO_HANDLE_SIGNAL_WRITABLE) :
    (producerState d).Lessens (producerState d') := by
  revert h
  simp only [Satisfies, Lessens, producerState, hclosed]
  generalize (!d.inTwoPhase && _ && _) = writable
  generalize (!d'.inTwoPhase && _ && _) = writable'
  cases writable <;> cases writable' <;> cases d.peerClosed <;> decide

/-- Reading bytes satisfies no signal. -/
theorem lessens_readData (d : Core.DataPipe P H) (data elements : ℕ → UInt8) (numBytes : UInt32)
    (flags : Core.ReadDataFlags) :
    (consumerState d).Lessens (consumerState (d.readData data elements numBytes flags).dispatcher) := by
  rcases d.readData_cases data elements numBytes flags with ⟨h, -⟩ | ⟨n, hn, -, -, h, -, -⟩
  · rw [h]
    exact .refl _
  · rw [h]
    exact lessens_consumerState rfl rfl (UInt32.sub_le hn) id

/-- A read in two phases satisfies no signal when it begins. -/
theorem lessens_beginReadData (d : Core.DataPipe P H) (flags : Core.ReadDataFlags) :
    (consumerState d).Lessens (consumerState (d.beginReadData flags).2.1) := by
  rcases d.beginReadData_cases flags with h | ⟨-, h⟩
  · rw [h]
    exact .refl _
  · rw [h]
    exact lessens_consumerState rfl rfl (UInt32.le_refl _) nofun

/-- A write in two phases satisfies no signal when it begins. -/
theorem lessens_beginWriteData (d : Core.DataPipe P H) :
    (producerState d).Lessens (producerState d.beginWriteData.2.1) := by
  rcases d.beginWriteData_cases with ⟨h, -⟩ | ⟨-, -, h, -⟩
  · rw [h]
    exact .refl _
  · rw [h]
    refine lessens_producerState rfl fun hwritable => absurd hwritable ?_
    simp only [Satisfies, producerState, Bool.not_true, Bool.false_and, Bool.false_eq_true, if_false]
    cases d.peerClosed <;> decide

/-- `EndWriteData` awakes unless nothing can be written after it. -/
theorem lessens_endWriteData (d : Core.DataPipe P H) (numBytesWritten : UInt32)
    (h : ¬(producerState (d.endWriteData numBytesWritten).2.1).Satisfies
      MOJO_HANDLE_SIGNAL_WRITABLE) :
    (producerState d).Lessens (producerState (d.endWriteData numBytesWritten).2.1) := by
  refine lessens_producerState ?_ fun hwritable => absurd hwritable h
  rcases d.endWriteData_cases numBytesWritten with ⟨heq | ⟨-, heq⟩, -⟩ | ⟨-, -, -, -, heq, -⟩
  · rw [heq]
  · rw [heq]
  · rw [heq]
    rfl

end DataPipe

end MojoEdk.WaitSet
