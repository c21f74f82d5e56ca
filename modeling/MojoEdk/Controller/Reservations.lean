import MojoEdk.Library.Exclusive
import MojoEdk.Library.Machine
import MojoEdk.Ports.Node

/-!
# Reserved ports

Ports are reserved under tokens and connected to each other when the tokens meet
(`node_controller.cc`): two reserved ports of a node by `ConnectReservedPorts`, and a
reserved port with one of another node by `OnRequestPortConnection`. The calls interleave
at their critical sections (`reserved_ports_lock_`). They take the reservations out of the
table in a section, and initialize the ports after it.

A port that is reserved, or that a call has taken out of the table, belongs to nobody
else, so it is still uninitialized when it is its turn (`Reservations.Inv`). What else
happens at the node is arbitrary, but leaves these ports alone (`Reservations.Others`):
their names are not known to anyone before they are connected.

A reservation is removed once, and its port is initialized with a peer, if it is not
connected to itself nor asked for by a node that is not a peer
(`Reservations.rendezvous`). These two are not excluded (`Reservations.not_rendezvous`).
-/

namespace MojoEdk.Controller

open Ports (NodeName PortName Node)

/-- `ReservedPort`. Callbacks are numbered. -/
structure ReservedPort where
  localPort : PortName
  callback : ℕ

/-- A call in progress, by what it does next. -/
inductive PortCall
  /-- `ReservePort`: its section. -/
  | reserve (token : String) (port : ReservedPort)
  /-- `ConnectReservedPorts`: the first `InitializePort`. -/
  | initializeFirst (port1 port2 : ReservedPort)
  /-- `ConnectReservedPorts`: the second `InitializePort`. -/
  | initializeSecond (port1 port2 : ReservedPort)
  /-- `OnRequestPortConnection`: after its section. Whether the node is a peer does not
      change before it is asked for, as peers are added and dropped by the same thread. -/
  | connect (port : ReservedPort) (fromNode : NodeName) (connectorPortName : PortName)
      (isPeer : Bool)

/-- The ports that belong to a call. -/
def PortCall.ports : PortCall → List PortName
  | .reserve _ port => [port.localPort]
  | .initializeFirst port1 port2 => [port1.localPort, port2.localPort]
  | .initializeSecond _ port2 => [port2.localPort]
  | .connect port _ _ _ => [port.localPort]

/-- The port that a call is going to reserve. -/
def PortCall.reserves : PortCall → List PortName
  | .reserve _ port => [port.localPort]
  | _ => []

/-- The call is going to initialize the port. -/
def PortCall.Initializes (p : PortName) : PortCall → Prop
  | .reserve _ _ => False
  | .initializeFirst port1 port2 => p = port1.localPort ∨ p = port2.localPort
  | .initializeSecond _ port2 => p = port2.localPort
  | .connect port _ _ isPeer => p = port.localPort ∧ isPeer = true

/-- The call is connecting the two ports to each other. -/
def PortCall.Connects (pair : PortName × PortName) : PortCall → Prop
  | .initializeFirst port1 port2 | .initializeSecond port1 port2 =>
    pair = (port1.localPort, port2.localPort)
  | _ => False

/-- A node with its reserved ports, and the calls in progress. -/
structure Reservations (α K : Type) where
  node : Node α
  /-- `reserved_ports_`. -/
  reservedPorts : String → Option ReservedPort := fun _ => none
  calls : K → Option PortCall := fun _ => none
  /-- The ports of the reservations that were removed, in order. -/
  erased : List PortName := []
  /-- The ports that were initialized, with the node and the name of the peer. -/
  initialized : List (PortName × NodeName × PortName) := []
  /-- The ports whose reservations `ConnectReservedPorts` removed. -/
  connected : List (PortName × PortName) := []
  /-- The `ConnectToPort` messages. -/
  connectToPort : List (NodeName × PortName × PortName) := []
  /-- The callbacks that were run. -/
  callbacks : List (ℕ × PortName) := []

namespace Reservations

variable {α K : Type}

/-- The critical sections, and what happens outside of them. -/
inductive Input (α K : Type)
  /-- `ReservePort`, before its section. -/
  | reservePort (call : K) (token : String) (callback : ℕ)
  /-- The section of `ConnectReservedPorts`. -/
  | connectReservedPorts (call : K) (token1 token2 : String)
  /-- The section of `OnRequestPortConnection`. -/
  | onRequestPortConnection (call : K) (fromNode : NodeName) (connectorPortName : PortName)
      (token : String) (isPeer : Bool)
  /-- What a call does next. -/
  | next (call : K)
  /-- What else happens at the node. -/
  | other (node : Node α)

section Machine

variable [DecidableEq K]

/-- `InitializePort`, of a reserved port. -/
def initializePort (s : Reservations α K) (port : PortName) (peerNodeName : NodeName)
    (peerPortName : PortName) : Reservations α K :=
  { s with
    node := (s.node.initializePort port peerNodeName peerPortName).1
    initialized := s.initialized ++
      if (s.node.initializePort port peerNodeName peerPortName).2 = .ok then
        [(port, peerNodeName, peerPortName)]
      else [] }

/-- A call goes on. In `OnRequestPortConnection`, `InitializePort` is checked to
    succeed. -/
def next (s : Reservations α K) (call : K) : PortCall → Option (Reservations α K)
  | .reserve token port => some { s with
    reservedPorts :=
      -- `insert` keeps the port that the token has already.
      if (s.reservedPorts token).isSome then s.reservedPorts
      else Function.update s.reservedPorts token (some port)
    calls := Function.update s.calls call none }
  | .initializeFirst port1 port2 => some {
    s.initializePort port1.localPort s.node.name port2.localPort with
    calls := Function.update s.calls call (some (.initializeSecond port1 port2)) }
  | .initializeSecond port1 port2 => some {
    s.initializePort port2.localPort s.node.name port1.localPort with
    calls := Function.update s.calls call none
    callbacks := s.callbacks ++
      [(port1.callback, port1.localPort), (port2.callback, port2.localPort)] }
  | .connect port fromNode connectorPortName isPeer =>
    -- A node that is unknown is not connected. The entry of the port is gone all the same.
    if isPeer then
      if (s.node.initializePort port.localPort fromNode connectorPortName).2 = .ok then some {
        s.initializePort port.localPort fromNode connectorPortName with
        calls := Function.update s.calls call none
        connectToPort := s.connectToPort ++ [(fromNode, port.localPort, connectorPortName)]
        callbacks := s.callbacks ++ [(port.callback, port.localPort)] }
      else none
    else some { s with calls := Function.update s.calls call none }

/-- The second `erase` of `ConnectReservedPorts` is undefined if the tokens are the same.
    Here it changes nothing, but is noted. -/
def step (s : Reservations α K) : Input α K → Option (Reservations α K)
  | .reservePort call token callback =>
    if (s.calls call).isSome then none
    else
      let (node, port, _) := s.node.createUninitializedPort
      some { s with
        node := node
        calls := Function.update s.calls call (some (.reserve token ⟨port, callback⟩)) }
  | .connectReservedPorts call token1 token2 =>
    if (s.calls call).isSome then none
    else
      match s.reservedPorts token1, s.reservedPorts token2 with
      | some port1, some port2 => some { s with
          -- Both entries are erased under the lock, before either port is initialized.
          reservedPorts :=
            Function.update (Function.update s.reservedPorts token1 none) token2 none
          calls := Function.update s.calls call (some (.initializeFirst port1 port2))
          erased := s.erased ++ [port1.localPort, port2.localPort]
          connected := s.connected ++ [(port1.localPort, port2.localPort)] }
      | _, _ => some s
  | .onRequestPortConnection call fromNode connectorPortName token isPeer =>
    if (s.calls call).isSome then none
    else
      match s.reservedPorts token with
      | none => some s
      | some port => some { s with
          reservedPorts := Function.update s.reservedPorts token none
          calls := Function.update s.calls call
            (some (.connect port fromNode connectorPortName isPeer))
          erased := s.erased ++ [port.localPort] }
  | .next call => (s.calls call).bind (s.next call)
  | .other node => some { s with node := node }

/-- A node without ports. -/
def machine (α K : Type) [DecidableEq K] (name : NodeName) :
    Machine (Reservations α K) (Input α K) where
  init := { node := { name := name } }
  step := step

end Machine

/-! ## Owners -/

/-- Where a port can be. -/
inductive Owner (K : Type)
  | token (token : String)
  | call (call : K)
  | erased
  deriving DecidableEq

/-- The ports of the reservations, the ports of the calls, and the given ones. -/
def ports (reservedPorts : String → Option ReservedPort) (calls : K → Option PortCall)
    (f : PortCall → List PortName) (l : List PortName) : Owner K → List PortName
  | .token token => (reservedPorts token).elim [] fun port => [port.localPort]
  | .call call => (calls call).elim [] f
  | .erased => l

/-- The ports that are not initialized yet, by whom they belong to. -/
def holds (s : Reservations α K) : Owner K → List PortName :=
  ports s.reservedPorts s.calls PortCall.ports []

/-- The ports of the reservations: of those that will be, are, and were. -/
def reserves (s : Reservations α K) : Owner K → List PortName :=
  ports s.reservedPorts s.calls PortCall.reserves s.erased

/-- What else happens at the node does not concern the ports that are not initialized yet.
    New ports have new names. -/
def Others (s : Reservations α K) : Input α K → Prop
  | .other node => node.name = s.node.name ∧
    s.node.delegate.nextPortName ≤ node.delegate.nextPortName ∧
    (∀ p port, node.getPort p = some port → p < node.delegate.nextPortName) ∧
    ∀ o, ∀ p ∈ s.holds o, node.getPort p = s.node.getPort p
  | _ => True

/-- A reservation is not connected to itself, nor asked for by a node that is not a
    peer. -/
def Sound (s : Reservations α K) (i : Input α K) : Prop :=
  s.Others i ∧
    match i with
    | .connectReservedPorts _ token1 token2 => token1 = token2 → s.reservedPorts token1 = none
    | .onRequestPortConnection _ _ _ token isPeer =>
      (s.reservedPorts token).isSome → isPeer = true
    | _ => True

/-- A port is initialized, or will be. -/
def Settled (s : Reservations α K) (p : PortName) : Prop :=
  (∃ call c, s.calls call = some c ∧ c.Initializes p) ∨ ∃ n q, (p, n, q) ∈ s.initialized

/-- Two ports are each other's peers, or will be. -/
def Joined (s : Reservations α K) (pair : PortName × PortName) : Prop :=
  (∃ call c, s.calls call = some c ∧ c.Connects pair) ∨ ((pair.1, s.node.name, pair.2) ∈ s.initialized ∧
    (pair.2, s.node.name, pair.1) ∈ s.initialized)

/-- The ports that are not initialized yet, and the reservations, belong to one token or
    call each. -/
structure Owned (s : Reservations α K) : Prop where
  fresh : ∀ {p port}, s.node.getPort p = some port → p < s.node.delegate.nextPortName
  known : ∀ {o p}, p ∈ s.reserves o → p < s.node.delegate.nextPortName
  holds : Exclusive s.holds
  /-- A reservation is removed once. -/
  reserves : Exclusive s.reserves
  uninitialized : ∀ {o p}, p ∈ s.holds o →
    ∃ port, s.node.getPort p = some port ∧ port.state = .uninitialized

structure Inv (s : Reservations α K) : Prop where
  owned : Owned s
  erased : ∀ p ∈ s.erased, s.Settled p
  second : ∀ {call port1 port2}, s.calls call = some (.initializeSecond port1 port2) →
    (port1.localPort, s.node.name, port2.localPort) ∈ s.initialized
  connected : ∀ pair ∈ s.connected, pair.1 ≠ pair.2 ∧ s.Joined pair

theorem ports_none (f : PortCall → List PortName) :
    ports (fun _ => none) (fun _ => none) f [] = fun _ : Owner K => [] := by
  funext o
  cases o with
  | _ => rfl

section Ports

variable [DecidableEq K] {reservedPorts : String → Option ReservedPort}
  {calls : K → Option PortCall} {f : PortCall → List PortName} {l : List PortName}

theorem ports_update_token (token : String) (r : Option ReservedPort) :
    ports (Function.update reservedPorts token r) calls f l = Function.update
      (ports reservedPorts calls f l) (.token token) (r.elim [] fun port => [port.localPort]) := by
  funext o
  by_cases ho : o = .token token
  · subst ho
    rw [Function.update_self, ports, Function.update_self]
  · rw [Function.update_of_ne ho]
    cases o with
    | token token' => rw [ports, Function.update_of_ne fun h => ho (congrArg _ h), ports]
    | _ => rfl

theorem ports_update_call (call : K) (c : Option PortCall) :
    ports reservedPorts (Function.update calls call c) f l =
      Function.update (ports reservedPorts calls f l) (.call call) (c.elim [] f) := by
  funext o
  by_cases ho : o = .call call
  · subst ho
    rw [Function.update_self, ports, Function.update_self]
  · rw [Function.update_of_ne ho]
    cases o with
    | call call' => rw [ports, Function.update_of_ne fun h => ho (congrArg _ h), ports]
    | _ => rfl

theorem ports_update_erased (l' : List PortName) : ports reservedPorts calls f l' =
    Function.update (ports reservedPorts calls f l) .erased l' := by
  funext o
  by_cases ho : o = .erased
  · subst ho
    rw [Function.update_self, ports]
  · rw [Function.update_of_ne ho]
    cases o with
    | erased => exact absurd rfl ho
    | _ => rfl

end Ports

variable {s s' : Reservations α K}

theorem mem_holds_call {call : K} {c : PortCall} (hcall : s.calls call = some c) {p : PortName}
    (hp : p ∈ c.ports) : p ∈ s.holds (.call call) := by
  rwa [Reservations.holds, ports, hcall]

theorem mem_holds_token {token : String} {port : ReservedPort}
    (h : s.reservedPorts token = some port) : port.localPort ∈ s.holds (.token token) := by
  rw [Reservations.holds, ports, h]
  exact List.mem_singleton_self _

theorem mem_reserves_token {token : String} {port : ReservedPort}
    (h : s.reservedPorts token = some port) : port.localPort ∈ s.reserves (.token token) := by
  rw [Reservations.reserves, ports, h]
  exact List.mem_singleton_self _

/-- Ports change hands, or are initialized by those that no longer have them. -/
theorem Owned.move (hs : Owned s)
    (hfresh : ∀ {p port}, s'.node.getPort p = some port → p < s'.node.delegate.nextPortName)
    (hnext : s.node.delegate.nextPortName ≤ s'.node.delegate.nextPortName)
    (hholds : Exclusive s'.holds) (hreserves : Exclusive s'.reserves)
    (hport : ∀ o, ∀ p ∈ s'.holds o, (∃ o', p ∈ s.holds o') ∧
      s'.node.getPort p = s.node.getPort p)
    (hreserved : ∀ o, ∀ p ∈ s'.reserves o, ∃ o', p ∈ s.reserves o') : Owned s' := by
  refine ⟨hfresh, fun {o p} hp => ?_, hholds, hreserves, fun {o p} hp => ?_⟩
  · obtain ⟨o', hp'⟩ := hreserved o p hp
    exact (hs.known hp').trans_le hnext
  · obtain ⟨⟨o', hp'⟩, hget⟩ := hport o p hp
    rw [hget]
    exact hs.uninitialized hp'

theorem initialized_initializePort {p q : PortName} {n : NodeName}
    (h : (s.node.initializePort p n q).2 = .ok) :
    (s.initializePort p n q).initialized = s.initialized ++ [(p, n, q)] := by
  rw [Reservations.initializePort, if_pos h]

section Steps

variable [DecidableEq K] {call : K} {rest : Option PortCall}

/-- A call that goes on has initialized the port, or will. -/
theorem Settled.update {p : PortName} (h : s.Settled p)
    (hcalls : s'.calls = Function.update s.calls call rest)
    (hinitialized : s.initialized ⊆ s'.initialized)
    (hnext : ∀ c, s.calls call = some c → c.Initializes p → s'.Settled p) : s'.Settled p := by
  rcases h with ⟨call', c, hc, hp⟩ | ⟨n, q, hmem⟩
  · by_cases hcall : call' = call
    · subst hcall
      exact hnext c hc hp
    · refine .inl ⟨call', c, ?_, hp⟩
      rw [hcalls, Function.update_of_ne hcall, hc]
  · exact .inr ⟨n, q, hinitialized hmem⟩

theorem Joined.update {pair : PortName × PortName} (h : s.Joined pair)
    (hcalls : s'.calls = Function.update s.calls call rest)
    (hname : s'.node.name = s.node.name) (hinitialized : s.initialized ⊆ s'.initialized)
    (hnext : ∀ c, s.calls call = some c → c.Connects pair → s'.Joined pair) :
    s'.Joined pair := by
  rcases h with ⟨call', c, hc, hpair⟩ | ⟨h₁, h₂⟩
  · by_cases hcall : call' = call
    · subst hcall
      exact hnext c hc hpair
    · refine .inl ⟨call', c, ?_, hpair⟩
      rw [hcalls, Function.update_of_ne hcall, hc]
  · refine .inr ?_
    rw [hname]
    exact ⟨hinitialized h₁, hinitialized h₂⟩

/-- A call goes on, and maybe removes reservations. -/
theorem Inv.update (hs : Inv s) (howned : Owned s')
    (hcalls : s'.calls = Function.update s.calls call rest)
    (hname : s'.node.name = s.node.name) (hinitialized : s.initialized ⊆ s'.initialized)
    (herased : ∀ p ∈ s'.erased, p ∈ s.erased ∨ s'.Settled p)
    (hsettled : ∀ p c, s.calls call = some c → c.Initializes p → s'.Settled p)
    (hsecond : ∀ port1 port2, rest = some (.initializeSecond port1 port2) →
      (port1.localPort, s.node.name, port2.localPort) ∈ s'.initialized)
    (hconnected : ∀ pair ∈ s'.connected, pair ∈ s.connected ∨
      (pair.1 ≠ pair.2 ∧ s'.Joined pair))
    (hjoined : ∀ pair c, s.calls call = some c → c.Connects pair → s'.Joined pair) :
    Inv s' := by
  refine ⟨howned, fun p hp => ?_, fun {call' port1 port2} hc => ?_, fun pair hpair => ?_⟩
  · rcases herased p hp with hold | hnew
    · exact (hs.erased p hold).update hcalls hinitialized (hsettled p)
    · exact hnew
  · rw [hname]
    rw [hcalls] at hc
    by_cases hcall : call' = call
    · subst hcall
      rw [Function.update_self] at hc
      exact hsecond port1 port2 hc
    · rw [Function.update_of_ne hcall] at hc
      exact hinitialized (hs.second hc)
  · rcases hconnected pair hpair with hold | hnew
    · obtain ⟨hne, hold⟩ := hs.connected pair hold
      exact ⟨hne, hold.update hcalls hname hinitialized (hjoined pair)⟩
    · exact hnew

/-- A port is created, to be reserved. -/
theorem Owned.reservePort (hs : Owned s) (call : K) (token : String) (callback : ℕ) : Owned { s with
      node := s.node.createUninitializedPort.1
      calls := Function.update s.calls call
        (some (.reserve token ⟨s.node.createUninitializedPort.2.1, callback⟩)) } ∧
      s.node.createUninitializedPort.1.name = s.node.name := by
  have hnone : s.node.getPort s.node.delegate.nextPortName = none := by
    rw [Option.eq_none_iff_forall_ne_some]
    exact fun port hport => lt_irrefl _ (hs.fresh hport)
  rw [Node.createUninitializedPort_of_fresh hnone]
  have hget (q : PortName) := Node.getPort_setPort s.node.generateRandomPortName.2
    s.node.delegate.nextPortName q (Ports.Port.new Ports.kInitialSequenceNum
      Ports.kInitialSequenceNum)
  have hold {o : Owner K} {p : PortName} (hp : p ∈ s.holds o) :
      p ≠ s.node.delegate.nextPortName := by
    rintro rfl
    obtain ⟨port, hport, -⟩ := hs.uninitialized hp
    cases hnone.symm.trans hport
  refine ⟨⟨fun {p port} hport => ?_, fun {o p} hp => ?_, ?_, ?_, fun {o p} hp => ?_⟩, rfl⟩
  · rw [hget] at hport
    split_ifs at hport with hp
    · exact lt_of_eq_of_lt hp (Nat.lt_succ_self s.node.delegate.nextPortName)
    · exact Nat.lt_succ_of_lt (hs.fresh hport)
  · rw [Reservations.reserves, ports_update_call] at hp
    by_cases ho : o = .call call
    · subst ho
      rw [Function.update_self] at hp
      exact lt_of_eq_of_lt (List.mem_singleton.1 hp)
        (Nat.lt_succ_self s.node.delegate.nextPortName)
    · rw [Function.update_of_ne ho] at hp
      exact Nat.lt_succ_of_lt (hs.known hp)
  · rw [Reservations.holds, ports_update_call]
    refine hs.holds.update (List.nodup_singleton _) fun p hp o hp' => ?_
    exact absurd (List.mem_singleton.1 hp) (hold hp')
  · rw [Reservations.reserves, ports_update_call]
    refine hs.reserves.update (List.nodup_singleton _) fun p hp o hp' => ?_
    exact absurd (List.mem_singleton.1 hp) (hs.known hp').ne
  · rw [hget]
    rw [Reservations.holds, ports_update_call] at hp
    by_cases ho : o = .call call
    · subst ho
      rw [Function.update_self] at hp
      exact ⟨_, if_pos (List.mem_singleton.1 hp), rfl⟩
    · rw [Function.update_of_ne ho] at hp
      rw [if_neg (hold hp)]
      exact hs.uninitialized hp

/-- A call reserves its port, unless the token is taken, and gives it up. -/
theorem ports_reserve {f : PortCall → List PortName} {l : List PortName}
    (h : Exclusive (ports s.reservedPorts s.calls f l)) {c : PortCall}
    (hcall : s.calls call = some c) {port : ReservedPort} (hc : f c = [port.localPort])
    (token : String) :
    Exclusive (ports (if (s.reservedPorts token).isSome then s.reservedPorts
      else Function.update s.reservedPorts token (some port))
        (Function.update s.calls call none) f l) ∧
    ∀ o, ∀ p ∈ ports (if (s.reservedPorts token).isSome then s.reservedPorts
      else Function.update s.reservedPorts token (some port))
        (Function.update s.calls call none) f l o,
      ∃ o', p ∈ ports s.reservedPorts s.calls f l o' := by
  have hport : port.localPort ∈ ports s.reservedPorts s.calls f l (.call call) := by
    rw [ports, hcall, Option.elim_some, hc]
    exact List.mem_singleton_self _
  have hgiven := h.update (o := .call call) List.nodup_nil fun _ h => by cases h
  split_ifs
  · rw [ports_update_call]
    refine ⟨hgiven, fun o p hp => ⟨o, ?_⟩⟩
    exact (mem_or_mem_of_mem_update hp).elim (fun h => by cases h) id
  · rw [ports_update_token, ports_update_call]
    refine ⟨hgiven.update (List.nodup_singleton _) fun p hp o hp' => ?_, fun o p hp => ?_⟩
    · rw [List.mem_singleton.1 hp] at hp'
      exact absurd hp' (h.notMem_update hport o)
    · rcases mem_or_mem_of_mem_update hp with hp | hp
      · exact ⟨_, List.mem_singleton.1 hp ▸ hport⟩
      · exact ⟨o, (mem_or_mem_of_mem_update hp).elim (fun h => by cases h) id⟩

theorem Owned.reserve (hs : Owned s) {token : String} {port : ReservedPort}
    (hcall : s.calls call = some (.reserve token port)) : Owned { s with
      reservedPorts :=
        if (s.reservedPorts token).isSome then s.reservedPorts
        else Function.update s.reservedPorts token (some port)
      calls := Function.update s.calls call none } := by
  have hholds := ports_reserve hs.holds hcall rfl token
  have hreserves := ports_reserve hs.reserves hcall rfl token
  exact hs.move hs.fresh le_rfl hholds.1 hreserves.1 (fun o p hp => ⟨hholds.2 o p hp, rfl⟩)
    hreserves.2

/-- A call initializes one of its ports, and gives it up. -/
theorem Owned.initializePort (hs : Owned s) {c : PortCall} (hcall : s.calls call = some c)
    {p : PortName} (hp : p ∈ c.ports) {n : NodeName} {q : PortName}
    (hnode : s'.node = (s.node.initializePort p n q).1)
    (hreserved : s'.reservedPorts = s.reservedPorts)
    (hcalls : s'.calls = Function.update s.calls call rest) (herased : s'.erased = s.erased)
    (hnext : (rest.elim [] PortCall.ports).Sublist c.ports)
    (hnext' : p ∉ rest.elim [] PortCall.ports) (hreserves : rest.elim [] PortCall.reserves = []) :
    Owned s' ∧ (s.node.initializePort p n q).2 = .ok ∧ s'.node.name = s.node.name := by
  obtain ⟨port, hport, hstate⟩ := hs.uninitialized (mem_holds_call hcall hp)
  rw [Node.initializePort_of_uninitialized hport hstate] at hnode ⊢
  obtain ⟨x, hget⟩ : ∃ x, ∀ r, s'.node.getPort r =
      if r = p then some x else s.node.getPort r := by
    rw [hnode]
    exact ⟨_, fun r => Node.getPort_setPort s.node p r _⟩
  have hname : s'.node.delegate.nextPortName = s.node.delegate.nextPortName := by
    rw [hnode]
    rfl
  have hholds : s'.holds =
      Function.update s.holds (.call call) (rest.elim [] PortCall.ports) := by
    rw [Reservations.holds, hreserved, hcalls, ports_update_call]
    rfl
  have hreserves' : s'.reserves = Function.update s.reserves (.call call) [] := by
    rw [Reservations.reserves, hreserved, hcalls, herased, ports_update_call, hreserves]
    rfl
  have hsub {r : PortName} (hr : r ∈ rest.elim [] PortCall.ports) : r ∈ s.holds (.call call) :=
    mem_holds_call hcall (hnext.subset hr)
  refine ⟨hs.move (fun {r port} hr => ?_) hname.ge ?_ ?_ (fun o r hr => ?_) fun o r hr => ?_,
    rfl, hnode ▸ rfl⟩
  · rw [hname]
    rw [hget] at hr
    split_ifs at hr with h
    · exact h ▸ hs.fresh hport
    · exact hs.fresh hr
  · rw [hholds]
    refine hs.holds.update (hnext.nodup ?_) fun r hr o hr' => hs.holds.unique hr' (hsub hr)
    have hnodup := hs.holds.nodup (.call call)
    rwa [Reservations.holds, ports, hcall] at hnodup
  · rw [hreserves']
    exact hs.reserves.update List.nodup_nil fun _ h => by cases h
  · rw [hholds] at hr
    have hold : ∃ o', r ∈ s.holds o' :=
      (mem_or_mem_of_mem_update hr).elim (fun h => ⟨_, hsub h⟩) fun h => ⟨o, h⟩
    refine ⟨hold, ?_⟩
    rw [hget, if_neg]
    -- The port belonged to the call only.
    rintro rfl
    by_cases ho : o = .call call
    · subst ho
      rw [Function.update_self] at hr
      exact hnext' hr
    · rw [Function.update_of_ne ho] at hr
      exact ho (hs.holds.unique hr (mem_holds_call hcall hp))
  · rw [hreserves'] at hr
    exact ⟨o, (mem_or_mem_of_mem_update hr).elim (fun h => by cases h) id⟩

/-- A call takes a reservation out of the table. -/
theorem Owned.take (hs : Owned s) {token : String} {port : ReservedPort}
    (hport : s.reservedPorts token = some port) {c : PortCall}
    (hc : c.ports = (s.calls call).elim [] PortCall.ports ++ [port.localPort])
    (hcall : (s.calls call).elim [] PortCall.reserves = []) (hc' : c.reserves = [])
    (hnode : s'.node = s.node)
    (hreserved : s'.reservedPorts = Function.update s.reservedPorts token none)
    (hcalls : s'.calls = Function.update s.calls call (some c))
    (herased : s'.erased = s.erased ++ [port.localPort]) : Owned s' := by
  have hp := mem_holds_token hport
  have hp' := mem_reserves_token hport
  have hholds : s'.holds = Function.update (Function.update s.holds (.token token) [])
      (.call call) (s.holds (.call call) ++ [port.localPort]) := by
    rw [Reservations.holds, hreserved, hcalls, ports_update_call, ports_update_token,
      Option.elim_some, hc]
    rfl
  have hreserves : s'.reserves = Function.update (Function.update s.reserves (.token token) [])
      .erased (s.reserves .erased ++ [port.localPort]) := by
    have hsame : Function.update (Function.update s.reserves (.token token) []) (.call call) [] =
        Function.update s.reserves (.token token) [] := by
      rw [Function.update_eq_self_iff, Function.update_of_ne (fun h => by cases h)]
      exact hcall.symm
    rw [Reservations.reserves, hreserved, hcalls, herased, ports_update_erased (l := s.erased),
      ports_update_call, Option.elim_some, hc', ports_update_token]
    exact congrArg (Function.update · .erased _) hsame
  refine hs.move (fun {p port} h => ?_) (hnode ▸ le_rfl) ?_ ?_ (fun o p h => ⟨?_, hnode ▸ rfl⟩)
    fun o p h => ?_
  · rw [hnode] at h ⊢
    exact hs.fresh h
  · rw [hholds]
    exact hs.holds.handOver hp fun h => by cases h
  · rw [hreserves]
    exact hs.reserves.handOver hp' fun h => by cases h
  · rw [hholds] at h
    exact Exclusive.mem_of_mem_handOver hp h
  · rw [hreserves] at h
    exact Exclusive.mem_of_mem_handOver hp' h

/-- A call ends. -/
theorem Owned.giveUp (hs : Owned s) (call : K) :
    Owned { s with calls := Function.update s.calls call none } := by
  refine hs.move hs.fresh le_rfl ?_ ?_ (fun o p h => ⟨⟨o, ?_⟩, rfl⟩) fun o p h => ⟨o, ?_⟩
  · rw [Reservations.holds, ports_update_call]
    exact hs.holds.drop _
  · rw [Reservations.reserves, ports_update_call]
    exact hs.reserves.drop _
  · rw [Reservations.holds, ports_update_call] at h
    exact (mem_or_mem_of_mem_update h).elim (fun h => by cases h) id
  · rw [Reservations.reserves, ports_update_call] at h
    exact (mem_or_mem_of_mem_update h).elim (fun h => by cases h) id

omit [DecidableEq K] in
/-- The call that goes on is known. -/
theorem of_call {c : PortCall} (hcall : s.calls call = some c) {P : PortCall → Prop} (h : P c)
    (c' : PortCall) (hc' : s.calls call = some c') : P c' :=
  Option.some.inj (hcall.symm.trans hc') ▸ h

/-- The first of two reserved ports is given its peer. -/
theorem Inv.initializeFirst (hs : Inv s) {port1 port2 : ReservedPort}
    (hcall : s.calls call = some (.initializeFirst port1 port2)) :
    ∃ s', s.next call (.initializeFirst port1 port2) = some s' ∧ Inv s' := by
  have hnodup : [port1.localPort, port2.localPort].Nodup := by
    have hnodup := hs.owned.holds.nodup (.call call)
    rwa [Reservations.holds, ports, hcall] at hnodup
  obtain ⟨howned, hok, hname⟩ : Owned {
      s.initializePort port1.localPort s.node.name port2.localPort with
      calls := Function.update s.calls call (some (.initializeSecond port1 port2)) } ∧ _ ∧ _ :=
    hs.owned.initializePort hcall List.mem_cons_self rfl rfl rfl rfl
      ((List.Sublist.refl _).cons _) (List.nodup_cons.1 hnodup).1 rfl
  have hinitialized := initialized_initializePort hok
  have hmem : (port1.localPort, s.node.name, port2.localPort) ∈
      (s.initializePort port1.localPort s.node.name port2.localPort).initialized := by
    rw [hinitialized]
    exact List.mem_append_right _ List.mem_cons_self
  refine ⟨_, rfl, hs.update howned rfl hname ?_ (fun p hp => .inl hp)
    (fun p => of_call hcall fun h => ?_) (fun _ _ h => ?_) (fun pair hpair => .inl hpair)
    fun pair => of_call hcall fun h => .inl ⟨call, _, Function.update_self _ _ _, h⟩⟩
  · rw [hinitialized]
    exact List.subset_append_left _ _
  · rcases h with rfl | rfl
    · exact .inr ⟨_, _, hmem⟩
    · exact .inl ⟨call, _, Function.update_self _ _ _, rfl⟩
  · cases h
    exact hmem

/-- The second one is given its peer, and the two are connected. -/
theorem Inv.initializeSecond (hs : Inv s) {port1 port2 : ReservedPort}
    (hcall : s.calls call = some (.initializeSecond port1 port2)) :
    ∃ s', s.next call (.initializeSecond port1 port2) = some s' ∧ Inv s' := by
  obtain ⟨howned, hok, hname⟩ : Owned {
      s.initializePort port2.localPort s.node.name port1.localPort with
      calls := Function.update s.calls call none
      callbacks := s.callbacks ++
        [(port1.callback, port1.localPort), (port2.callback, port2.localPort)] } ∧ _ ∧ _ :=
    hs.owned.initializePort hcall List.mem_cons_self rfl rfl rfl rfl (List.nil_sublist _)
      List.not_mem_nil rfl
  have hinitialized := initialized_initializePort hok
  have hmem : (port2.localPort, s.node.name, port1.localPort) ∈
      (s.initializePort port2.localPort s.node.name port1.localPort).initialized := by
    rw [hinitialized]
    exact List.mem_append_right _ List.mem_cons_self
  have hsub : s.initialized ⊆
      (s.initializePort port2.localPort s.node.name port1.localPort).initialized := by
    rw [hinitialized]
    exact List.subset_append_left _ _
  refine ⟨_, rfl, hs.update howned rfl hname hsub (fun p hp => .inl hp)
    (fun p => of_call hcall fun h => ?_) (fun _ _ h => by cases h) (fun pair hpair => .inl hpair)
    fun pair => of_call hcall fun h => ?_⟩
  · obtain rfl : p = port2.localPort := h
    exact .inr ⟨_, _, hmem⟩
  · obtain rfl : pair = (port1.localPort, port2.localPort) := h
    refine .inr ?_
    rw [hname]
    exact ⟨hsub (hs.second hcall), hmem⟩

/-- A call goes on: it initializes a port, which it can. -/
theorem Inv.next (hs : Inv s) {c : PortCall} (hcall : s.calls call = some c) :
    ∃ s', s.next call c = some s' ∧ Inv s' := by
  cases c with
  | reserve token port =>
    refine ⟨_, rfl, hs.update (hs.owned.reserve hcall) rfl rfl (List.Subset.refl _)
      (fun p hp => .inl hp) (fun p => of_call hcall fun h => h.elim) (fun _ _ h => by cases h)
      (fun pair hpair => .inl hpair) fun pair => of_call hcall fun h => h.elim⟩
  | initializeFirst port1 port2 => exact hs.initializeFirst hcall
  | initializeSecond port1 port2 => exact hs.initializeSecond hcall
  | connect port fromNode connectorPortName isPeer =>
    rw [Reservations.next]
    cases isPeer with
    | false =>
      refine ⟨_, rfl, hs.update (hs.owned.giveUp call) rfl rfl (List.Subset.refl _)
        (fun p hp => .inl hp) (fun p => of_call hcall fun h => by cases h.2) (fun _ _ h => by cases h)
        (fun pair hpair => .inl hpair) fun pair => of_call hcall fun h => h.elim⟩
    | true =>
      obtain ⟨howned, hok, hname⟩ : Owned {
          s.initializePort port.localPort fromNode connectorPortName with
          calls := Function.update s.calls call none
          connectToPort := s.connectToPort ++ [(fromNode, port.localPort, connectorPortName)]
          callbacks := s.callbacks ++ [(port.callback, port.localPort)] } ∧ _ ∧ _ :=
        hs.owned.initializePort hcall List.mem_cons_self rfl rfl rfl rfl (List.nil_sublist _)
          List.not_mem_nil rfl
      have hinitialized := initialized_initializePort hok
      rw [if_pos rfl, if_pos hok]
      refine ⟨_, rfl, hs.update howned rfl hname ?_ (fun p hp => .inl hp)
        (fun p => of_call hcall fun h => .inr ⟨fromNode, connectorPortName, ?_⟩)
        (fun _ _ h => by cases h)
        (fun pair hpair => .inl hpair) fun pair => of_call hcall fun h => h.elim⟩
      · rw [hinitialized]
        exact List.subset_append_left _ _
      · rw [hinitialized, h.1]
        exact List.mem_append_right _ List.mem_cons_self

theorem Inv.connectReservedPorts (hs : Inv s) (hcall : s.calls call = none)
    {token1 token2 : String} {port1 port2 : ReservedPort} (hne : token1 ≠ token2)
    (hport1 : s.reservedPorts token1 = some port1) (hport2 : s.reservedPorts token2 = some port2) :
    Inv { s with
      reservedPorts := Function.update (Function.update s.reservedPorts token1 none) token2 none
      calls := Function.update s.calls call (some (.initializeFirst port1 port2))
      erased := s.erased ++ [port1.localPort, port2.localPort]
      connected := s.connected ++ [(port1.localPort, port2.localPort)] } ∧
    port1.localPort ≠ port2.localPort := by
  have hports : port1.localPort ≠ port2.localPort := by
    intro heq
    have h := hs.owned.holds.unique (mem_holds_token hport1) (heq ▸ mem_holds_token hport2)
    exact hne (Owner.token.inj h)
  -- The reservations are taken one after the other.
  have hfirst : Owned { s with
      reservedPorts := Function.update s.reservedPorts token1 none
      calls := Function.update s.calls call (some (.initializeSecond port1 port1))
      erased := s.erased ++ [port1.localPort] } :=
    hs.owned.take hport1 (by rw [hcall]; rfl) (by rw [hcall]; rfl) rfl rfl rfl rfl rfl
  have howned : Owned { s with
      reservedPorts := Function.update (Function.update s.reservedPorts token1 none) token2 none
      calls := Function.update s.calls call (some (.initializeFirst port1 port2))
      erased := s.erased ++ [port1.localPort, port2.localPort]
      connected := s.connected ++ [(port1.localPort, port2.localPort)] } := by
    refine hfirst.take ((Function.update_of_ne hne.symm _ _).trans hport2) ?_ ?_ rfl rfl rfl
      (Function.update_idem _ _ _).symm (by rw [List.append_assoc]; rfl)
    · simp only [Function.update_self]
      rfl
    · simp only [Function.update_self]
      rfl
  refine ⟨hs.update howned rfl rfl (List.Subset.refl _) (fun p hp => ?_)
    (fun p c h => by cases hcall.symm.trans h) (fun _ _ h => by cases h) (fun pair hpair => ?_)
    (fun _ c h => by cases hcall.symm.trans h), hports⟩
  · refine (List.mem_append.1 hp).imp_right fun hp =>
      .inl ⟨call, _, Function.update_self _ _ _, ?_⟩
    rwa [List.mem_cons, List.mem_singleton] at hp
  · refine (List.mem_append.1 hpair).imp_right fun hpair => ?_
    rw [List.mem_singleton.1 hpair]
    exact ⟨hports, .inl ⟨call, _, Function.update_self _ _ _, rfl⟩⟩

theorem Inv.onRequestPortConnection (hs : Inv s) (hcall : s.calls call = none)
    {token : String} {port : ReservedPort} (hport : s.reservedPorts token = some port)
    (fromNode : NodeName) (connectorPortName : PortName) : Inv { s with
      reservedPorts := Function.update s.reservedPorts token none
      calls := Function.update s.calls call
        (some (.connect port fromNode connectorPortName true))
      erased := s.erased ++ [port.localPort] } := by
  have howned : Owned { s with
      reservedPorts := Function.update s.reservedPorts token none
      calls := Function.update s.calls call
        (some (.connect port fromNode connectorPortName true))
      erased := s.erased ++ [port.localPort] } :=
    hs.owned.take hport (by rw [hcall]; rfl) (by rw [hcall]; rfl) rfl rfl rfl rfl rfl
  refine hs.update howned rfl rfl (List.Subset.refl _) (fun p hp => ?_)
    (fun p c h => by cases hcall.symm.trans h) (fun _ _ h => by cases h)
    (fun pair hpair => .inl hpair) fun _ c h => by cases hcall.symm.trans h
  exact (List.mem_append.1 hp).imp_right fun hp =>
    .inl ⟨call, _, Function.update_self _ _ _, List.mem_singleton.1 hp, rfl⟩

theorem Inv.step {i : Input α K} (hs : Inv s) (hG : s.Sound i) (h : s.step i = some s') :
    Inv s' := by
  cases i with
  | reservePort call token callback =>
    rw [Reservations.step] at h
    split_ifs at h with hcall
    obtain rfl := Option.some.inj h
    rw [Option.not_isSome_iff_eq_none] at hcall
    obtain ⟨howned, hname⟩ := hs.owned.reservePort call token callback
    exact hs.update howned rfl hname (List.Subset.refl _) (fun p hp => .inl hp)
      (fun p c h => by cases hcall.symm.trans h) (fun _ _ h => by cases h)
      (fun pair hpair => .inl hpair) fun _ c h => by cases hcall.symm.trans h
  | connectReservedPorts call token1 token2 =>
    rw [Reservations.step] at h
    split_ifs at h with hcall
    rw [Option.not_isSome_iff_eq_none] at hcall
    split at h
    · rename_i port1 port2 hport1 hport2
      obtain rfl := Option.some.inj h
      refine (hs.connectReservedPorts hcall (fun heq => ?_) hport1 hport2).1
      cases (hG.2 heq).symm.trans hport1
    · exact Option.some.inj h ▸ hs
  | onRequestPortConnection call fromNode connectorPortName token isPeer =>
    rw [Reservations.step] at h
    split_ifs at h with hcall
    rw [Option.not_isSome_iff_eq_none] at hcall
    split at h
    · exact Option.some.inj h ▸ hs
    · rename_i port hport
      obtain rfl : isPeer = true := hG.2 (by rw [hport]; rfl)
      obtain rfl := Option.some.inj h
      exact hs.onRequestPortConnection hcall hport fromNode connectorPortName
  | next call =>
    obtain ⟨c, hcall, h⟩ := Option.bind_eq_some_iff.1 h
    obtain ⟨s'', hs'', hinv⟩ := hs.next hcall
    exact Option.some.inj (hs''.symm.trans h) ▸ hinv
  | other node =>
    obtain rfl := Option.some.inj h
    obtain ⟨hname, hnext, hfresh, hget⟩ := hG.1
    refine ⟨hs.owned.move (fun {p port} h => hfresh p port h) hnext hs.owned.holds
      hs.owned.reserves (fun o p hp => ⟨⟨o, hp⟩, hget o p hp⟩) fun o p hp => ⟨o, hp⟩,
      hs.erased, fun {call port1 port2} hc => ?_, fun pair hpair => ?_⟩
    · rw [hname]
      exact hs.second hc
    · refine ⟨(hs.connected pair hpair).1, (hs.connected pair hpair).2.imp_right fun h => ?_⟩
      rw [hname]
      exact h

theorem inv_init (name : NodeName) : Inv (machine α K name).init := by
  have hholds : (machine α K name).init.holds = fun _ => [] := ports_none PortCall.ports
  have hreserves : (machine α K name).init.reserves = fun _ => [] := ports_none PortCall.reserves
  refine ⟨⟨(fun h => by cases h), fun {o p} hp => ?_, ?_, ?_, fun {o p} hp => ?_⟩,
    (fun _ h => by cases h), (fun h => by cases h), fun _ h => by cases h⟩
  · rw [hreserves] at hp
    cases hp
  · rw [hholds]
    exact .nil
  · rw [hreserves]
    exact .nil
  · rw [hholds] at hp
    cases hp

/-- A reservation is removed once, and its port is initialized with a peer by the call that
    removes it. `ConnectReservedPorts` leaves the reservations as they are or removes two,
    and the two ports become each other's peers. A call that has removed reservations goes
    on and ends. -/
theorem rendezvous {name : NodeName} (h : (machine α K name).Reachable Sound s) :
    s.erased.Nodup ∧ (∀ p ∈ s.erased, s.Settled p) ∧
    (∀ call token1 token2 s', s.Sound (.connectReservedPorts call token1 token2) →
      s.step (.connectReservedPorts call token1 token2) = some s' → s' = s ∨
        ∃ port1 port2, s.reservedPorts token1 = some port1 ∧
          s.reservedPorts token2 = some port2 ∧ token1 ≠ token2 ∧
          port1.localPort ≠ port2.localPort ∧ s'.reservedPorts =
            Function.update (Function.update s.reservedPorts token1 none) token2 none ∧
          s'.erased = s.erased ++ [port1.localPort, port2.localPort] ∧
          s'.connected = s.connected ++ [(port1.localPort, port2.localPort)]) ∧
    (∀ pair ∈ s.connected, pair.1 ≠ pair.2 ∧ s.Joined pair) ∧
    ∀ call c, s.calls call = some c → ∃ s', s.step (.next call) = some s' ∧
      (s'.calls call = none ∨ ∃ port1 port2, c = .initializeFirst port1 port2 ∧
        s'.calls call = some (.initializeSecond port1 port2)) := by
  have hs : Inv s := h.invariant (inv_init name) fun hs hG h => hs.step hG h
  refine ⟨hs.owned.reserves.nodup .erased, hs.erased, fun call token1 token2 s' hG hstep => ?_,
    hs.connected, fun call c hcall => ?_⟩
  · rw [step] at hstep
    split_ifs at hstep with hcall
    rw [Option.not_isSome_iff_eq_none] at hcall
    split at hstep
    · rename_i port1 port2 hport1 hport2
      have hne : token1 ≠ token2 := by
        intro heq
        cases (hG.2 heq).symm.trans hport1
      obtain rfl := Option.some.inj hstep
      exact .inr ⟨port1, port2, hport1, hport2, hne,
        (hs.connectReservedPorts hcall hne hport1 hport2).2, rfl, rfl, rfl⟩
    · exact .inl (Option.some.inj hstep).symm
  · obtain ⟨s', hs', -⟩ := hs.next hcall
    refine ⟨s', (congrArg (Option.bind · (s.next call)) hcall).trans hs', ?_⟩
    cases c with
    | initializeFirst port1 port2 =>
      obtain rfl := Option.some.inj hs'
      exact .inr ⟨port1, port2, rfl, Function.update_self _ _ _⟩
    | connect port fromNode connectorPortName isPeer =>
      rw [Reservations.next] at hs'
      split_ifs at hs'
      · obtain rfl := Option.some.inj hs'
        exact .inl (Function.update_self _ _ _)
      · obtain rfl := Option.some.inj hs'
        exact .inl (Function.update_self _ _ _)
    | _ =>
      obtain rfl := Option.some.inj hs'
      exact .inl (Function.update_self _ _ _)

end Steps

/-- Two ports are reserved and connected. -/
theorem rendezvous_connected : ∃ s, (machine Unit Unit 1).Reachable Sound s ∧
    s.calls () = none ∧ s.erased = [1, 2] ∧ s.erased.Nodup ∧ (∀ p ∈ s.erased, s.Settled p) ∧
      (1, 2) ∈ s.connected ∧ s.Joined (1, 2) := by
  have h₀ := Machine.Reachable.init (M := machine Unit Unit 1) (G := Sound)
  have h₁ := h₀.step (i := .reservePort () "a" 0) (by exact ⟨trivial, trivial⟩) rfl
  have h₂ := h₁.step (i := .next ()) (by exact ⟨trivial, trivial⟩) rfl
  have h₃ := h₂.step (i := .reservePort () "b" 1) (by exact ⟨trivial, trivial⟩) rfl
  have h₄ := h₃.step (i := .next ()) (by exact ⟨trivial, trivial⟩) rfl
  have h₅ := h₄.step (i := .connectReservedPorts () "a" "b")
    (by exact ⟨trivial, fun h => absurd h (by decide)⟩) rfl
  have h₆ := h₅.step (i := .next ()) (by exact ⟨trivial, trivial⟩) rfl
  have h₇ := h₆.step (i := .next ()) (by exact ⟨trivial, trivial⟩) rfl
  have hrendezvous := rendezvous h₇
  exact ⟨_, h₇, rfl, rfl, hrendezvous.1, hrendezvous.2.1, List.mem_cons_self,
    (hrendezvous.2.2.2.1 _ List.mem_cons_self).2⟩

/-- A token that is connected to itself has its reservation removed twice, and the port
    becomes its own peer. A node that is not a peer has a reservation removed, and the port
    is not initialized. -/
theorem not_rendezvous :
    (∃ s, (machine Unit Unit 9).Reachable Others s ∧ s.calls () = none ∧ s.erased = [1, 1] ∧
      ¬ s.erased.Nodup ∧ s.connected = [(1, 1)] ∧ s.initialized = [(1, 9, 1)]) ∧
    ∃ s, (machine Unit Unit 9).Reachable Others s ∧ s.reservedPorts "a" = none ∧
      s.erased = [1] ∧ ¬ s.Settled 1 := by
  have h₀ := Machine.Reachable.init (M := machine Unit Unit 9) (G := Others)
  have h₁ := h₀.step (i := .reservePort () "a" 0) (by exact trivial) rfl
  have h₂ := h₁.step (i := .next ()) (by exact trivial) rfl
  constructor
  · have h₃ := h₂.step (i := .connectReservedPorts () "a" "a") (by exact trivial) rfl
    have h₄ := h₃.step (i := .next ()) (by exact trivial) rfl
    have h₅ := h₄.step (i := .next ()) (by exact trivial) rfl
    exact ⟨_, h₅, rfl, rfl, by decide, rfl, rfl⟩
  · have h₃ := h₂.step (i := .onRequestPortConnection () 7 5 "a" false) (by exact trivial) rfl
    have h₄ := h₃.step (i := .next ()) (by exact trivial) rfl
    refine ⟨_, h₄, rfl, rfl, ?_⟩
    rintro (⟨call, c, hcall, -⟩ | ⟨n, q, hmem⟩)
    · cases hcall
    · cases hmem

end Reservations

end MojoEdk.Controller
