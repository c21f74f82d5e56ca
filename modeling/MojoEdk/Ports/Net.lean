import Mathlib.Data.Multiset.Bind
import Mathlib.Data.Multiset.Filter
import MojoEdk.Ports.System

/-!
# The ring of ports

What the ports library is for, without names and nodes. Every end of a pipe is a
*chain* of ports, in the order in which the end was renamed by transfers. The last
port of the chain is the *live* one, receiving or in transit; the ports before it
are proxies, each pointing to the next one. The live port of an end points
*toward* some port of the chain of the other end, from where the proxies lead to
the live port there: the two chains form the circular list of the ports library.

* A transfer extends a chain, and the former live port becomes a proxy.
* A proxy that the other end points to is skipped (`Net.redirect`), once its
  announcement has gone round the ring.
* A proxy is removed once it is skipped, or once the pipe is closed, and it has
  forwarded the last message it was sent.

A port is thus a `Place`, the port attached to a message an `End`. The steps of a
node are runs of `Net.Step`; losing a connection is a `Net.Loss`.
-/

namespace MojoEdk.Ports

/-- What a port is in a chain. -/
inductive Kind
  | transit
  | receiving
  | buffering
  | proxying
  deriving DecidableEq

namespace Kind

/-- A live port: the last one of its chain. -/
def live : Kind → Bool
  | .transit | .receiving => true
  | .buffering | .proxying => false

@[simp] theorem live_transit : live .transit = true := rfl

@[simp] theorem live_receiving : live .receiving = true := rfl

@[simp] theorem live_buffering : live .buffering = false := rfl

@[simp] theorem live_proxying : live .proxying = false := rfl

/-- A port that is not live is not in transit. -/
theorem ne_transit {k : Kind} (h : k.live = false) : k ≠ .transit := by
  rintro rfl
  cases h

end Kind

/-- The place of a port: its end, and its position in the chain of the end. -/
abbrev Place := End × ℕ

/-- The place after one, in the chain of the same end. -/
def Place.succ (x : Place) : Place := (x.1, x.2 + 1)

namespace Net

/-- A port, without the messages in its queue. -/
structure Port where
  kind : Kind
  /-- `remove_proxy_on_last_message`. -/
  remove : Bool := false
  peerClosed : Bool := false
  /-- An acknowledgement is to be sent to the peer on removal. -/
  stored : Bool := false
  /-- `next_sequence_num_to_send`. -/
  send : UInt64 := kInitialSequenceNum
  /-- The next sequence number of the queue. -/
  next : UInt64 := kInitialSequenceNum
  /-- `last_sequence_num_to_receive`. -/
  last : UInt64 := 0

/-- `CanAcceptMoreMessages`. -/
def Port.canAccept (a : Port) : Bool := !((a.peerClosed || a.remove) && a.last == a.next - 1)

/-- The internal events, each addressed to a place: a port was accepted, a proxy
    announces itself, it is acknowledged (or told to retry), the pipe is closed. -/
inductive Event
  | accepted (x : Place)
  | proxy (d x : Place)
  | ack (x : Place) (last : UInt64)
  | closure (d : Place) (last : UInt64)
  deriving DecidableEq

/-- The place an event is addressed to. -/
def Event.dest : Event → Place
  | .accepted x | .proxy x _ | .ack x _ | .closure x _ => x

/-- What takes a step: the embedder, a node on its own, a proxy that goes away, or
    a node that is given an event. -/
inductive Label
  | embedder
  | inner
  | remove (x : Place)
  | event (e : Event)
  deriving DecidableEq

/-- A user message with the ends attached to it: in flight to a place, or in the
    queue of the port there. -/
structure Letter (α : Type*) where
  place : Place
  queued : Bool
  number : UInt64
  payload : α
  ports : List End

end Net

/-- The chains of the ends of all pipes, the events and messages on their way, and
    the history of the ends. -/
structure Net (α : Type*) where
  port : Place → Option Net.Port
  events : Multiset Net.Event
  letters : Multiset (Net.Letter α)
  /-- The number of pipes: those of the ends in use. -/
  pipes : ℕ
  /-- The position of the live port of an end. -/
  len : End → ℕ
  /-- The position, in the chain of the other end, that the live port of an end
      points to, or pointed to when it was closed. -/
  toward : End → ℕ
  closed : End → Bool
  /-- The ends the embedder holds. -/
  held : Multiset End
  sent : End → List (UInt64 × α)
  returned : End → List (UInt64 × α)

namespace Net

variable {α : Type*} (N : Net α)

/-- No pipes. -/
def init : Net α where
  port _ := none
  events := 0
  letters := 0
  pipes := 0
  len _ := 0
  toward _ := 0
  closed _ := false
  held := 0
  sent _ := []
  returned _ := []

/-- Where the port at a place points to. -/
def peer (x : Place) : Place := if x.2 = N.len x.1 then (x.1.opp, N.toward x.1) else x.succ

/-- The live port of an end is of a kind. -/
def IsLive (e : End) (k : Kind) : Prop := ∃ a, N.port (e, N.len e) = some a ∧ a.kind = k

/-- The messages in the queue of the port at a place. -/
def queue (x : Place) : Multiset (Letter α) :=
  N.letters.filter fun l => l.queued = true ∧ l.place = x

/-- The messages that are not in the queue of the port at a place. -/
def elsewhere (x : Place) : Multiset (Letter α) :=
  N.letters.filter fun l => ¬(l.queued = true ∧ l.place = x)

/-! ## Changes -/

/-- The net with a port changed. -/
def set (x : Place) (a : Port) : Net α := { N with port := Function.update N.port x (some a) }

/-- The net without a port. -/
def erase (x : Place) : Net α := { N with port := Function.update N.port x none }

/-- The net with other events in flight. -/
def withEvents (E : Multiset Event) : Net α := { N with events := E }

/-- The net with other messages on their way. -/
def withLetters (L : Multiset (Letter α)) : Net α := { N with letters := L }

/-- The net with other ends held by the embedder. -/
def withHeld (H : Multiset End) : Net α := { N with held := H }

/-- History: a message was sent from an end. -/
def noteSent (e : End) (m : UInt64 × α) : Net α :=
  { N with sent := Function.update N.sent e (N.sent e ++ [m]) }

/-- History: a message was returned at an end. -/
def noteReturned (e : End) (m : UInt64 × α) : Net α :=
  { N with returned := Function.update N.returned e (N.returned e ++ [m]) }

/-- A new pipe. -/
def create : Net α :=
  { N with
    port := Function.update (Function.update N.port (⟨N.pipes, false⟩, 0)
      (some { kind := .receiving })) (⟨N.pipes, true⟩, 0) (some { kind := .receiving })
    pipes := N.pipes + 1
    held := ⟨N.pipes, false⟩ ::ₘ ⟨N.pipes, true⟩ ::ₘ N.held }

/-- The live port of an end is sent: it buffers for a port in transit. -/
def transfer (e : End) (a : Port) : Net α :=
  { N with
    port := Function.update (Function.update N.port (e, N.len e)
      (some { a with kind := .buffering, remove := a.remove || a.peerClosed }))
      (e, N.len e + 1) (some { a with kind := .transit, remove := false, stored := false })
    len := Function.update N.len e (N.len e + 1) }

/-- The live port of an end is accepted: the proxy before may forward to it. -/
def accept (e : End) (a : Port) : Net α :=
  (N.set (e, N.len e) { a with kind := .receiving }).withEvents
    (.accepted (e, N.len e - 1) ::ₘ N.events)

/-- The ends attached to a message are sent, one after the other. -/
def transferAll : List End → Net α → Net α
  | [], N => N
  | e :: es, N =>
    match N.port (e, N.len e) with
    | some a => transferAll es (N.transfer e a)
    | none => transferAll es N

/-- The ends attached to a message are accepted, one after the other. -/
def acceptAll : List End → Net α → Net α
  | [], N => N
  | e :: es, N =>
    match N.port (e, N.len e) with
    | some a => acceptAll es (N.accept e a)
    | none => acceptAll es N

/-- The receiving port of an end skips the proxy it pointed to. -/
def redirect (e : End) : Net α :=
  { N with toward := Function.update N.toward e (N.toward e + 1) }

/-- The receiving port of an end is closed: the ends attached to its messages are
    left to close. -/
def close (e : End) (a : Port) (H : Multiset End) : Net α :=
  { N with
    port := Function.update N.port (e, N.len e) none
    closed := Function.update N.closed e true
    events := .closure (e.opp, N.toward e) (a.send - 1) ::ₘ N.events
    letters := N.elsewhere (e, N.len e)
    held := (N.queue (e, N.len e)).bind (fun l => (l.ports : Multiset End)) + H }

/-- What becomes of a port when the connection to its peer is lost. -/
def lostPort (a : Port) : Option Port :=
  match a.kind with
  | .transit => some a
  | .receiving =>
    if a.peerClosed then some a else some { a with peerClosed := true, last := a.next - 1 }
  | _ => none

/-- The connections of the ports at some places to their peers are lost. -/
def lose (S : Place → Prop) [DecidablePred S] : Net α :=
  { N with
    port := fun x => if S x then (N.port x).bind lostPort else N.port x
    letters := N.letters.filter fun l =>
      ¬(l.queued = true ∧ S l.place ∧ (N.port l.place).bind lostPort = none) }

/-! ## Steps -/

/-- The steps of the protocol. -/
inductive Step : Net α → Label → Net α → Prop
  | create {N : Net α} : Step N .embedder N.create
  /-- A message is sent with the ends `es`, which become ports in transit. -/
  | send {N : Net α} {e : End} {a : Port} {payload : α} {es : List End} {H : Multiset End} :
      N.port (e, N.len e) = some a → a.kind = .receiving → a.peerClosed = false →
      N.held = ↑es + H → e ∉ es → (e.opp ∈ es → N.toward e ≠ N.len e.opp) →
      Step N .embedder
        ((((N.set (e, N.len e) { a with send := a.send + 1 }).transferAll es).withLetters
          (⟨(e.opp, N.toward e), false, a.send, payload, es⟩ ::ₘ N.letters)).withHeld H |>.noteSent e
            (a.send, payload))
  /-- The next message is read. -/
  | get {N : Net α} {e : End} {a : Port} {l : Letter α} {L : Multiset (Letter α)} :
      N.port (e, N.len e) = some a → a.kind = .receiving → a.canAccept →
      N.letters = l ::ₘ L → l.queued → l.place = (e, N.len e) → l.number = a.next →
      Step N .embedder ((((N.set (e, N.len e) { a with next := a.next + 1 }).withLetters L).withHeld
        (↑l.ports + N.held)).noteReturned e (l.number, l.payload))
  /-- A message is queued by the port it is addressed to. -/
  | arrive {N : Net α} {a : Port} {l : Letter α} {L : Multiset (Letter α)} :
      N.letters = l ::ₘ L → l.queued = false → N.port l.place = some a → a.kind ≠ .transit →
      a.canAccept →
      Step N .inner ((N.acceptAll l.ports).withLetters ({ l with queued := true } ::ₘ L))
  /-- A message is not queued: its ends are left to close. -/
  | reject {N : Net α} {l : Letter α} {L : Multiset (Letter α)} :
      N.letters = l ::ₘ L → l.queued = false →
      (∀ a, N.port l.place = some a → a.kind ≠ .transit → a.canAccept = false) →
      Step N .inner (((N.acceptAll l.ports).withLetters L).withHeld (↑l.ports + N.held))
  /-- A proxy forwards the next message. It keeps its number, unless it has none:
      a number may wrap. -/
  | forward {N : Net α} {x : Place} {a : Port} {l : Letter α} {L : Multiset (Letter α)} :
      N.port x = some a → a.kind = .proxying → N.letters = l ::ₘ L → l.queued →
      l.place = x → l.number = a.next →
      Step N .inner (((N.set x { a with
          next := a.next + 1
          send := if l.number = 0 then a.send + 1 else a.send }).transferAll l.ports).withLetters
        ({ l with
          place := x.succ
          queued := false
          number := if l.number = 0 then a.send else l.number } ::ₘ L))
  /-- A proxy may forward: it announces itself, or passes on a closure. -/
  | portAccepted {N : Net α} {x : Place} {a : Port} {E : Multiset Event} :
      N.events = .accepted x ::ₘ E → N.port x = some a → a.kind = .buffering →
      Step N (.event (.accepted x)) ((N.set x { a with kind := .proxying }).withEvents
        ((if a.remove then .closure x.succ a.last else .proxy x.succ x) ::ₘ E))
  /-- A proxy has forwarded the last message. -/
  | remove {N : Net α} {x : Place} {a : Port} : N.port x = some a → a.kind = .proxying →
      a.remove → a.canAccept = false →
      Step N (.remove x) (((N.erase x).withLetters (N.elsewhere x)).withEvents
        (if a.stored then .ack x.succ kInvalidSequenceNum ::ₘ N.events else N.events))
  | redirect {N : Net α} {e : End} {a : Port} {E : Multiset Event} :
      N.events = .proxy (e, N.len e) (e.opp, N.toward e) ::ₘ E →
      N.port (e, N.len e) = some a → a.kind = .receiving → N.toward e < N.len e.opp →
      Step N (.event (.proxy (e, N.len e) (e.opp, N.toward e)))
        ((N.redirect e).withEvents (.ack (e.opp, N.toward e) (a.send - 1) ::ₘ E))
  | store {N : Net α} {x : Place} {a : Port} {E : Multiset Event} :
      N.events = .proxy x x.succ ::ₘ E → N.port x = some a → a.kind.live = false →
      Step N (.event (.proxy x x.succ)) ((N.set x { a with stored := true }).withEvents E)
  | proxyPass {N : Net α} {d x : Place} {a : Port} {E : Multiset Event} :
      N.events = .proxy d x ::ₘ E → N.port d = some a → a.kind ≠ .transit → N.peer d ≠ x →
      Step N (.event (.proxy d x)) (N.withEvents (.proxy (N.peer d) x ::ₘ E))
  | ackRetry {N : Net α} {x : Place} {a : Port} {E : Multiset Event} :
      N.events = .ack x kInvalidSequenceNum ::ₘ E → N.port x = some a → a.kind = .proxying →
      Step N (.event (.ack x kInvalidSequenceNum)) (N.withEvents (.proxy x.succ x ::ₘ E))
  | ackAccept {N : Net α} {x : Place} {a : Port} {last : UInt64} {E : Multiset Event} :
      N.events = .ack x last ::ₘ E → last ≠ kInvalidSequenceNum → N.port x = some a →
      a.kind = .proxying →
      Step N (.event (.ack x last)) ((N.set x { a with remove := true, last := last }).withEvents E)
  | closureReceive {N : Net α} {e : End} {a : Port} {last : UInt64} {E : Multiset Event} :
      N.events = .closure (e, N.len e) last ::ₘ E → N.port (e, N.len e) = some a →
      a.kind = .receiving →
      Step N (.event (.closure (e, N.len e) last))
        ((N.set (e, N.len e) { a with peerClosed := true, last := last }).withEvents
          (.closure (e.opp, N.toward e) (a.send - 1) ::ₘ E))
  | closurePass {N : Net α} {x : Place} {a : Port} {last : UInt64} {E : Multiset Event} :
      N.events = .closure x last ::ₘ E → N.port x = some a → a.kind.live = false →
      Step N (.event (.closure x last))
        ((N.set x { a with peerClosed := true, remove := true, last := last }).withEvents
          (.closure x.succ last ::ₘ E))
  /-- An event is dropped at a port that is not there. -/
  | drop {N : Net α} {e : Event} {E : Multiset Event} :
      N.events = e ::ₘ E → (∀ x, e ≠ .accepted x) →
      (∀ a, N.port e.dest = some a → a.kind = .transit) → Step N (.event e) (N.withEvents E)
  | close {N : Net α} {e : End} {a : Port} {H : Multiset End} :
      N.port (e, N.len e) = some a → a.kind = .receiving → N.held = e ::ₘ H →
      Step N .inner (N.close e a H)

/-- The steps of a net that loses connections, or an event by a failed assertion. -/
inductive Loss : Net α → Net α → Prop
  | lose {N : Net α} (S : Place → Prop) [DecidablePred S] : Loss N (N.lose S)
  | loseEvent {N : Net α} {e : Event} {E : Multiset Event} :
      N.events = e ::ₘ E → Loss N (N.withEvents E)

end Net

end MojoEdk.Ports
