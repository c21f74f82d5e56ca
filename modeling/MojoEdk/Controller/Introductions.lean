import MojoEdk.Controller.NodeController
import MojoEdk.Library.Machine
import Mathlib.Data.List.Forall2

/-!
# Introductions

A parent introduces its children to each other (`OnRequestIntroduction`): it creates a
pair of channels and sends one end to each of the two. Children ask for introductions
at any time, also two of them for each other and again and again, so there are several
pairs for the same two children, and each of the two keeps the first end it is sent
(`OnIntroduce`, `AddPeer`).

The channels between the parent and its children deliver in order. So two children are
sent the ends of the same pairs in the same order (`Family.Inv`), and the ends they keep
are those of one pair (`Family.agreement`).

Peers are not dropped here: what would drop one is not a step.
-/

namespace MojoEdk.Controller

open Ports (NodeName kInvalidNodeName)

/-- A channel, or the platform handle it is created for. -/
inductive Link
  /-- The channel between the parent and a child, on either side. -/
  | parentChild (child : NodeName)
  /-- The server or the client handle of a `PlatformChannelPair` of the parent. -/
  | pair (id : ℕ) (server : Bool)
  deriving DecidableEq

/-- A parent and its children, and the messages between them. -/
structure Family (M : Type) where
  parent : NodeController Link M
  children : NodeName → NodeController Link M
  /-- The `REQUEST_INTRODUCTION` messages of a child on their way, in order. -/
  requests : NodeName → List NodeName := fun _ => []
  /-- The `INTRODUCE` messages for a child on their way, in order. -/
  introductions : NodeName → List (NodeName × Option Link) := fun _ => []
  /-- The `INTRODUCE` messages that a child received, in order. -/
  received : NodeName → List (NodeName × Option Link) := fun _ => []
  /-- The `PlatformChannelPair` that is created next. -/
  nextPair : ℕ := 0

namespace Family

variable {M : Type}

inductive Input
  /-- A child is connected, on both sides. -/
  | join (child : NodeName)
  /-- A child asks for an introduction. -/
  | requestIntroduction (child name : NodeName)
  /-- The parent receives the next request of a child. -/
  | onRequestIntroduction (child : NodeName)
  /-- A child receives the next introduction. -/
  | onIntroduce (child : NodeName)

/-- An `INTRODUCE` message is sent. -/
def post (s : Family M) : Output Link M → Family M
  | .introduce (.parentChild child) name handle => { s with
    introductions := Function.update s.introductions child
      (s.introductions child ++ [(name, handle)]) }
  | _ => s

def step (s : Family M) : Input → Option (Family M)
  | .join child =>
    -- The names of nodes are random: no two nodes have the same one.
    if child = kInvalidNodeName ∨ child = s.parent.name ∨ (s.parent.peers child).isSome then none
    else some { s with
      parent := (s.parent.addPeer child (.parentChild child) false).1
      children := Function.update s.children child
        ({ s.children child with parentName := s.parent.name }.addPeer s.parent.name
          (.parentChild child) false).1 }
  | .requestIntroduction child name =>
    if (s.children child).getParentChannel.isSome then some { s with
      requests := Function.update s.requests child (s.requests child ++ [name]) }
    else none
  | .onRequestIntroduction child =>
    match s.requests child with
    | [] => none
    | name :: requests =>
      -- The parent makes a pair of platform channels, of which each child gets one end.
      match s.parent.onRequestIntroduction child name
        (.pair s.nextPair true, .pair s.nextPair false) with
      | (parent, outputs, .done) => some (outputs.foldl post { s with
          parent := parent
          requests := Function.update s.requests child requests
          nextPair := s.nextPair + 1 })
      | _ => none
  | .onIntroduce child =>
    match s.introductions child with
    | [] => none
    | (name, handle) :: introductions =>
      match (s.children child).onIntroduce s.parent.name name handle with
      | (controller, _, .done) => some { s with
          children := Function.update s.children child controller
          introductions := Function.update s.introductions child introductions
          received := Function.update s.received child (s.received child ++ [(name, handle)]) }
      | _ => none

/-- A parent that has no children. -/
def machine (M : Type) (name : NodeName) : Machine (Family M) Input where
  init := { parent := { name := name }, children := fun child => { name := child } }
  step := step

/-- The channels of the introductions to a node. -/
def handles (name : NodeName) (introductions : List (NodeName × Option Link)) : List Link :=
  introductions.filterMap fun i => if i.1 = name then i.2 else none

/-- The channels for `y` that the child `x` was or will be sent. -/
def ends (s : Family M) (x y : NodeName) : List Link :=
  handles y (s.received x ++ s.introductions x)

/-- The two ends of one pair, of those that were created. -/
def Twin (nextPair : ℕ) (c d : Link) : Prop :=
  ∃ id < nextPair, ∃ server, c = .pair id server ∧ d = .pair id !server

/-- The two ends of a pair stay so when more pairs are made. -/
theorem Twin.mono {n n' : ℕ} (hn : n ≤ n') {c d : Link} (h : Twin n c d) : Twin n' c d := by
  obtain ⟨id, hid, server, hc, hd⟩ := h
  exact ⟨id, hid.trans_le hn, server, hc, hd⟩

/-- The handles in some introductions, and then in others. -/
theorem handles_append (name : NodeName) (l l' : List (NodeName × Option Link)) :
    handles name (l ++ l') = handles name l ++ handles name l' :=
  List.filterMap_append

theorem handles_singleton (name n : NodeName) (handle : Option Link) :
    handles name [(n, handle)] = (if n = name then handle else none).toList := by
  rw [handles, List.filterMap_cons]
  cases (if n = name then handle else none) with
  | none => rfl
  | some channel => rfl

variable {s s' : Family M}

/-- The ends that a child has, or is to have, once it is introduced. -/
theorem ends_post (s : Family M) (child name : NodeName) (handle : Option Link)
    (x y : NodeName) : (s.post (.introduce (.parentChild child) name handle)).ends x y =
      s.ends x y ++ if x = child ∧ y = name then handle.toList else [] := by
  by_cases hx : x = child
  · subst hx
    have hends : (s.post (.introduce (.parentChild x) name handle)).ends x y =
        s.ends x y ++ handles y [(name, handle)] := by
      rw [ends, ends, ← handles_append, List.append_assoc]
      simp only [post, Function.update_self]
    rw [hends, handles_singleton]
    by_cases hy : y = name
    · rw [if_pos hy.symm, if_pos ⟨rfl, hy⟩]
    · rw [if_neg (Ne.symm hy), if_neg fun h => hy h.2]
      rfl
  · rw [if_neg fun h => hx h.1, List.append_nil, ends, ends]
    simp only [post, Function.update_of_ne hx]

structure Inv (s : Family M) : Prop where
  /-- A child is a peer of the parent by the channel between them. -/
  parent : ∀ {child channel}, s.parent.peers child = some channel →
    channel = .parentChild child ∧ child ≠ s.parent.name
  /-- Two children are sent the ends of the same pairs, in the same order. -/
  twins : ∀ x y, List.Forall₂ (Twin s.nextPair) (s.ends x y) (s.ends y x)
  /-- A child keeps the first one. -/
  first : ∀ x y, y ≠ s.parent.name →
    (s.children x).peers y = (handles y (s.received x)).head?

/-- The ends of a new pair are sent to two children. -/
theorem Inv.introduce (hs : Inv s) {x y : NodeName} (hne : x ≠ y)
    (requests : NodeName → List NodeName) : Inv (({ s with
        requests := requests
        nextPair := s.nextPair + 1 }.post
      (.introduce (.parentChild x) y (some (.pair s.nextPair true)))).post
        (.introduce (.parentChild y) x (some (.pair s.nextPair false)))) := by
  refine ⟨hs.parent, fun x' y' => ?_, hs.first⟩
  have htwins := (hs.twins x' y').imp fun _ _ h => h.mono (Nat.le_succ s.nextPair)
  rw [ends_post, ends_post, ends_post, ends_post, List.append_assoc, List.append_assoc]
  refine List.rel_append htwins ?_
  by_cases hxy : x' = x ∧ y' = y
  · obtain ⟨rfl, rfl⟩ := hxy
    rw [if_pos ⟨rfl, rfl⟩, if_neg fun h => hne h.1, if_neg fun h => hne h.2, if_pos ⟨rfl, rfl⟩]
    exact .cons ⟨s.nextPair, Nat.lt_succ_self _, true, rfl, rfl⟩ .nil
  · by_cases hyx : x' = y ∧ y' = x
    · obtain ⟨rfl, rfl⟩ := hyx
      rw [if_neg fun h => hne h.2, if_pos ⟨rfl, rfl⟩, if_pos ⟨rfl, rfl⟩, if_neg fun h => hne h.1]
      exact .cons ⟨s.nextPair, Nat.lt_succ_self _, false, rfl, rfl⟩ .nil
    · -- Other children are not concerned.
      rw [if_neg hxy, if_neg hyx, if_neg fun h => hyx h.symm, if_neg fun h => hxy h.symm]
      exact .nil

/-- The parent answers a request: it makes a pair, and each child is to have one end. -/
theorem Inv.onRequestIntroduction (hs : Inv s) {child name : NodeName}
    {requests : NodeName → List NodeName} {parent : NodeController Link M}
    {outputs : List (Output Link M)}
    (h : s.parent.onRequestIntroduction child name
      (.pair s.nextPair true, .pair s.nextPair false) = (parent, outputs, .done)) :
    Inv (outputs.foldl post { s with
      parent := parent
      requests := requests
      nextPair := s.nextPair + 1 }) := by
  have htwins (x y : NodeName) := (hs.twins x y).imp fun _ _ h => h.mono (Nat.le_succ s.nextPair)
  rcases s.parent.onRequestIntroduction_cases child name
    (.pair s.nextPair true, .pair s.nextPair false) with heq | heq | ⟨requestor, hpeer, heq⟩ |
    ⟨requestor, newFriend, hne, hpeer, hfriend, heq⟩
  · cases heq.symm.trans h
  · cases heq.symm.trans h
    exact ⟨hs.parent, htwins, hs.first⟩
  · cases heq.symm.trans h
    obtain ⟨rfl, -⟩ := hs.parent hpeer
    refine ⟨hs.parent, fun x y => ?_, hs.first⟩
    rw [List.foldl_cons, List.foldl_nil, ends_post, ends_post]
    simp only [Option.toList_none, ite_self, List.append_nil]
    exact htwins x y
  · cases heq.symm.trans h
    obtain ⟨rfl, -⟩ := hs.parent hpeer
    obtain ⟨rfl, -⟩ := hs.parent hfriend
    exact hs.introduce hne requests

/-- A child takes the end that it is introduced with, unless it has one. -/
theorem Inv.onIntroduce (hs : Inv s) {child name : NodeName} {handle : Option Link}
    {introductions : List (NodeName × Option Link)}
    (hmem : s.introductions child = (name, handle) :: introductions)
    {controller : NodeController Link M} {outputs : List (Output Link M)}
    (h : (s.children child).onIntroduce s.parent.name name handle =
      (controller, outputs, .done)) : Inv { s with
        children := Function.update s.children child controller
        introductions := Function.update s.introductions child introductions
        received := Function.update s.received child (s.received child ++ [(name, handle)]) } := by
  refine ⟨hs.parent, fun x y => ?_, fun x y hy => ?_⟩
  · -- What was on its way is received.
    have hends (x y : NodeName) : ends { s with
        children := Function.update s.children child controller
        introductions := Function.update s.introductions child introductions
        received := Function.update s.received child (s.received child ++ [(name, handle)]) } x y =
        s.ends x y := by
      by_cases hx : x = child
      · subst hx
        simp only [ends, Function.update_self, hmem, List.append_assoc, List.singleton_append]
      · simp only [ends, Function.update_of_ne hx]
    rw [hends, hends]
    exact hs.twins x y
  · by_cases hx : x = child
    · subst hx
      simp only [Function.update_self]
      rw [NodeController.peers_onIntroduce h, hs.first x y hy, handles_append, handles_singleton,
        List.head?_append]
      cases (if name = y then handle else none) with
      | none => rfl
      | some channel => rfl
    · simp only [Function.update_of_ne hx]
      exact hs.first x y hy

/-- A child joins. -/
theorem Inv.join (hs : Inv s) {child : NodeName} (hname : child ≠ s.parent.name) :
    Inv { s with
      parent := (s.parent.addPeer child (.parentChild child) false).1
      children := Function.update s.children child
        ({ s.children child with parentName := s.parent.name }.addPeer s.parent.name
          (.parentChild child) false).1 } := by
  have hparent := s.parent.name_addPeer child (.parentChild child) false
  refine ⟨fun {n channel} hpeer => ?_, hs.twins, fun x y hy => ?_⟩
  · rw [hparent]
    rw [NodeController.peers_addPeer] at hpeer
    rcases Option.or_eq_some_iff.1 hpeer with hold | ⟨-, hnew⟩
    · exact hs.parent hold
    · split_ifs at hnew with hn
      subst hn
      exact ⟨(Option.some.inj hnew).symm, hname⟩
  · rw [hparent] at hy
    by_cases hx : x = child
    · subst hx
      simp only [Function.update_self]
      rw [NodeController.peers_addPeer, if_neg (Ne.symm hy), Option.or_none]
      exact hs.first x y hy
    · simp only [Function.update_of_ne hx]
      exact hs.first x y hy

/-- Every step preserves the invariant. -/
theorem Inv.step {i : Input} (hs : Inv s) (h : s.step i = some s') : Inv s' := by
  cases i with
  | join child =>
    rw [Family.step] at h
    split_ifs at h with hchild
    obtain rfl := Option.some.inj h
    exact hs.join fun hname => hchild (.inr (.inl hname))
  | requestIntroduction child name =>
    rw [Family.step] at h
    split_ifs at h
    obtain rfl := Option.some.inj h
    exact ⟨hs.parent, hs.twins, hs.first⟩
  | onRequestIntroduction child =>
    rw [Family.step] at h
    split at h
    · cases h
    · split at h
      · rename_i heq
        obtain rfl := Option.some.inj h
        exact hs.onRequestIntroduction heq
      · cases h
  | onIntroduce child =>
    rw [Family.step] at h
    split at h
    · cases h
    · rename_i hmem
      split at h
      · rename_i heq
        obtain rfl := Option.some.inj h
        exact hs.onIntroduce hmem heq
      · cases h

theorem inv_init (name : NodeName) : Inv (machine M name).init :=
  ⟨(fun h => by cases h), fun _ _ => .nil, fun _ _ _ => rfl⟩

/-- Two children that are peers of each other use the two ends of one pair. -/
theorem agreement {name : NodeName} (h : (machine M name).Reachable Machine.Any s)
    {x y : NodeName} (hx : (s.parent.getPeerChannel x).isSome)
    (hy : (s.parent.getPeerChannel y).isSome) {c d : Link}
    (hc : (s.children x).getPeerChannel y = some c)
    (hd : (s.children y).getPeerChannel x = some d) :
    ∃ id < s.nextPair, ∃ server, c = .pair id server ∧ d = .pair id !server := by
  have hs : Inv s := h.invariant (inv_init name) fun hs _ h => hs.step h
  obtain ⟨-, hx⟩ := hs.parent (Option.get_mem hx)
  obtain ⟨-, hy⟩ := hs.parent (Option.get_mem hy)
  -- The ends that are kept are the first ones that were sent.
  have hfirst {x y : NodeName} {c : Link} (hy : y ≠ s.parent.name)
      (hc : (s.children x).getPeerChannel y = some c) : (s.ends x y).head? = some c := by
    rw [ends, handles_append, List.head?_append, ← hs.first x y hy]
    exact Option.or_eq_some_iff.2 (.inl hc)
  have htwins := hs.twins x y
  obtain ⟨l, hl⟩ := List.head?_eq_some_iff.1 (hfirst hy hc)
  obtain ⟨l', hl'⟩ := List.head?_eq_some_iff.1 (hfirst hx hd)
  rw [hl, hl'] at htwins
  exact (List.forall₂_cons.1 htwins).1

/-- Two children ask for each other at the same time, so there are two pairs. -/
theorem agreement_twice : ∃ s, (machine Unit 9).Reachable Machine.Any s ∧
    (s.received 1).length = 2 ∧ (s.received 2).length = 2 ∧ ∃ c d,
      (s.children 1).getPeerChannel 2 = some c ∧ (s.children 2).getPeerChannel 1 = some d ∧
        ∃ id < s.nextPair, ∃ server, c = .pair id server ∧ d = .pair id !server := by
  obtain ⟨s, hs, h₁, h₂, hx, hy, hc, hd⟩ := Machine.exists_reachable (M := machine Unit 9)
    (G := Machine.Any) (P := fun s => (s.received 1).length = 2 ∧ (s.received 2).length = 2 ∧
      (s.parent.getPeerChannel 1).isSome ∧ (s.parent.getPeerChannel 2).isSome ∧
        (s.children 1).getPeerChannel 2 = some (.pair 0 true) ∧
          (s.children 2).getPeerChannel 1 = some (.pair 0 false))
    [.join 1, .join 2, .requestIntroduction 1 2, .requestIntroduction 2 1,
      .onRequestIntroduction 1, .onRequestIntroduction 2, .onIntroduce 2, .onIntroduce 1,
      .onIntroduce 1, .onIntroduce 2] (by decide)
  exact ⟨s, hs, h₁, h₂, _, _, hc, hd, agreement hs hx hy hc hd⟩

end Family

end MojoEdk.Controller
