import MojoEdk.Library.Heap
import MojoEdk.Ports.Refine.Events

/-!
# Message queues

A message queue is a heap of the messages that are not returned yet (`message_queue.cc`),
whatever the algorithms that maintain it are, as long as they are what the standard
library says (`HeapAlgorithms`). A list that is kept sorted is one of these heaps, so that
the queues of the ports are such queues (`acceptMessage_sorted`,
`getNextMessageIf_sorted`).

The messages may arrive in any order, and are returned in the order of their sequence
numbers (`MessageQueue.Transcript.Run.inOrder`).
-/

namespace MojoEdk.Ports

variable {α : Type*} {s : UInt64} {m : Message α}

namespace MessageQueue

/-- The algorithms of the standard library, with the comparison of `message_queue.cc`: of two
    messages, the one with the higher sequence number is the lower one. -/
abbrev Algorithms (α : Type*) := HeapAlgorithms fun m : Message α => m.sequenceNum.toNat

namespace Algorithms

variable (std : MessageQueue.Algorithms α)

/-- `GetNextMessageIf`. -/
def getNextMessageIf (q : MessageQueue α) (selector : Option (Message α → Bool)) :
    Option (Message α) × MessageQueue α :=
  match q.heap with
  | [] => (none, q)
  | m :: _ =>
    if !q.hasNextMessage || !selector.all (· m) then (none, q)
    else
      let heap := std.popHeap q.heap
      (heap.getLast?, { q with heap := heap.dropLast, nextSequenceNum := q.nextSequenceNum + 1 })

/-- `AcceptMessage`: the queue with the message, and whether to signal it. -/
def acceptMessage (q : MessageQueue α) (m : Message α) : MessageQueue α × Bool :=
  let q := { q with heap := std.pushHeap (q.heap ++ [m]) }
  (q, if !q.signalable then false else q.hasNextMessage)

end Algorithms

/-! ## Queues that are kept sorted -/

/-- The order of the messages. -/
def Before (m m' : Message α) : Prop := m.sequenceNum.toNat ≤ m'.sequenceNum.toNat

instance : DecidableRel (@Before α) := fun m m' =>
  inferInstanceAs (Decidable (m.sequenceNum.toNat ≤ m'.sequenceNum.toNat))

instance : Std.Total (@Before α) := ⟨fun _ _ => Nat.le_total _ _⟩

instance : IsTrans (Message α) Before := ⟨fun _ _ _ => Nat.le_trans⟩

/-- The messages are kept sorted. -/
def sorted (α : Type*) : MessageQueue.Algorithms α where
  -- The new message is at the back, as `std::push_heap` expects it.
  pushHeap heap :=
    match heap.getLast? with
    | none => []
    | some m =>
      MessageQueue.pushHeap m (heap.dropLast.insertionSort Before)
  popHeap
    | [] => []
    | m :: heap => heap.insertionSort Before ++ [m]
  push_perm heap _ _ := by
    simp only [List.getLast?_append, List.getLast?_singleton, Option.some_or, List.dropLast_concat]
    refine (Multiset.coe_eq_coe.1 (coe_pushHeap _ _)).trans (List.Perm.cons _ ?_)
    exact List.perm_insertionSort _ heap
  isHeap_push heap m _ := by
    simp only [List.getLast?_append, List.getLast?_singleton, Option.some_or, List.dropLast_concat]
    exact isHeap_of_pairwise (sorted_pushHeap m (List.pairwise_insertionSort _ heap))
  pop_spec m heap _ :=
    ⟨_, rfl, List.perm_insertionSort _ heap,
      isHeap_of_pairwise (List.pairwise_insertionSort _ heap)⟩

/-- A queue that is sorted is a heap, to which a message is added in its place. -/
theorem acceptMessage_sorted {q : MessageQueue α}
    (h : q.heap.Pairwise fun m m' => m.sequenceNum ≤ m'.sequenceNum) (m : Message α) :
    (sorted α).acceptMessage q m = q.acceptMessage m := by
  have hpush : (sorted α).pushHeap (q.heap ++ [m]) = pushHeap m q.heap := by
    simp only [sorted, List.getLast?_append, List.getLast?_singleton, Option.some_or,
      List.dropLast_concat, List.Pairwise.insertionSort_eq (show q.heap.Pairwise Before from h)]
  rw [Algorithms.acceptMessage, acceptMessage, hpush]
  cases q.signalable <;> rfl

/-- A queue that is sorted is a heap, whose first message is the least. -/
theorem getNextMessageIf_sorted {q : MessageQueue α}
    (h : q.heap.Pairwise fun m m' => m.sequenceNum ≤ m'.sequenceNum)
    (selector : Option (Message α → Bool)) :
    (sorted α).getNextMessageIf q selector = q.getNextMessageIf selector := by
  rw [Algorithms.getNextMessageIf, getNextMessageIf.eq_def, hasNextMessage]
  cases hq : q.heap with
  | nil => rfl
  | cons m heap =>
    rw [hq] at h
    have hheap : heap.insertionSort Before = heap :=
      List.Pairwise.insertionSort_eq (List.pairwise_cons.1 h).2
    cases hnext : m.sequenceNum == q.nextSequenceNum <;> cases hselector : selector.all (· m) <;>
      simp [-beq_eq_false_iff_ne, -beq_iff_eq, sorted, hheap, hnext, hselector]

/-! ## Transcripts -/

/-- A call on a queue. -/
inductive Call (α : Type*)
  | acceptMessage (m : Message α)
  | getNextMessageIf (selector : Option (Message α → Bool))
  | setSignalable (value : Bool)

/-- A queue, with the messages that it accepted, and those that it returned, in order. -/
structure Transcript (α : Type*) where
  queue : MessageQueue α
  accepted : List (Message α) := []
  returned : List (Message α) := []

namespace Transcript

variable {std : MessageQueue.Algorithms α} {t : Transcript α}

/-- A queue whose first message has the number `s`. -/
def new (s : UInt64) : Transcript α where
  queue := { nextSequenceNum := s }

/-- What a call does to a queue. -/
def call (std : MessageQueue.Algorithms α) (t : Transcript α) : Call α → Transcript α
  | .acceptMessage m =>
    { t with queue := (std.acceptMessage t.queue m).1, accepted := t.accepted ++ [m] }
  | .getNextMessageIf selector =>
    let (m, queue) := std.getNextMessageIf t.queue selector
    { t with queue := queue, returned := t.returned ++ m.toList }
  | .setSignalable value => { t with queue := { t.queue with signalable := value } }

/-- The messages that were accepted, and not returned. -/
def unreturned (t : Transcript α) : List (Message α) :=
  t.accepted.filter fun m => m.sequenceNum ∉ t.returned.map (·.sequenceNum)

/-- The messages that a queue is given: their numbers are distinct, and none is lower than that
    of the first one. -/
structure Numbered (s : UInt64) (t : Transcript α) : Prop where
  nodup : (t.accepted.map (·.sequenceNum)).Nodup
  le : ∀ m ∈ t.accepted, s ≤ m.sequenceNum

/-- A queue holds the messages that it has not returned, and returned those before them. -/
structure Sound (s : UInt64) (t : Transcript α) : Prop where
  isHeap : IsHeap (fun m : Message α => m.sequenceNum.toNat) t.queue.heap
  perm : (t.returned ++ t.queue.heap).Perm t.accepted
  returned : t.returned.map (·.sequenceNum.toNat) = List.range' s.toNat t.returned.length
  next : t.queue.nextSequenceNum = s + .ofNat t.returned.length

/-- Messages that are numbered one by one were so before. -/
theorem Numbered.of_prefix {t' : Transcript α} (h : Numbered s t') (ht : t.accepted <+: t'.accepted) :
    Numbered s t :=
  ⟨h.nodup.sublist (ht.sublist.map _), fun m hm => h.le m (ht.subset hm)⟩

namespace Sound

theorem new (s : UInt64) : Sound s (new s : Transcript α) where
  isHeap := .nil
  perm := .nil
  returned := rfl
  next := (UInt64.add_zero s).symm

/-- No number is in the queue twice, nor is one that was returned. -/
theorem nodup (h : Sound s t) (hn : Numbered s t) :
    ((t.returned ++ t.queue.heap).map (·.sequenceNum)).Nodup :=
  (h.perm.map _).nodup_iff.2 hn.nodup

/-- The messages that are not returned have the numbers that are still to come. -/
theorem le_of_mem (h : Sound s t) (hn : Numbered s t) (hm : m ∈ t.queue.heap) :
    s.toNat + t.returned.length ≤ m.sequenceNum.toNat := by
  by_contra hlt
  have hs : s.toNat ≤ m.sequenceNum.toNat :=
    hn.le m (h.perm.subset (List.mem_append_right _ hm))
  have hmem : m.sequenceNum.toNat ∈ t.returned.map (·.sequenceNum.toNat) := by
    rw [h.returned, List.mem_range'_1]
    exact ⟨hs, not_le.1 hlt⟩
  obtain ⟨m', hm', heq⟩ := List.mem_map.1 hmem
  have hnodup := h.nodup hn
  rw [List.map_append] at hnodup
  exact (List.disjoint_of_nodup_append hnodup) (List.mem_map_of_mem hm')
    (UInt64.toNat_inj.1 heq ▸ List.mem_map_of_mem hm)

/-- The next number is after those that were returned, up to overflow. -/
theorem toNat_next (h : Sound s t) :
    t.queue.nextSequenceNum.toNat = (s.toNat + t.returned.length) % 2 ^ 64 := by
  rw [h.next, UInt64.toNat_add, UInt64.toNat_ofNat', Nat.add_mod_mod]

/-- The next message is the one that has its number. -/
theorem toNat_of_eq_next (h : Sound s t) (hn : Numbered s t) (hm : m ∈ t.queue.heap)
    (hnext : m.sequenceNum = t.queue.nextSequenceNum) :
    m.sequenceNum.toNat = s.toNat + t.returned.length := by
  have hle := h.le_of_mem hn hm
  have hmod := Nat.mod_le (s.toNat + t.returned.length) (2 ^ 64)
  rw [← h.toNat_next, ← hnext] at hmod
  exact le_antisymm hmod hle

/-- There is a next message if the one with the next number is in the queue. -/
theorem hasNextMessage_iff (h : Sound s t) (hn : Numbered s t) : t.queue.hasNextMessage = true ↔
    ∃ m ∈ t.queue.heap, m.sequenceNum = t.queue.nextSequenceNum := by
  rw [MessageQueue.hasNextMessage]
  constructor
  · intro hnext
    split at hnext
    next => cases hnext
    next m heap hheap => exact ⟨m, hheap ▸ List.mem_cons_self, eq_of_beq hnext⟩
  · rintro ⟨m, hm, hnext⟩
    split
    next hheap =>
      rw [hheap] at hm
      cases hm
    next m₀ heap hheap =>
      have hmem : m₀ ∈ t.queue.heap := hheap ▸ List.mem_cons_self
      -- The first message of the heap is not after the next one, and not before it either.
      have hle : m₀.sequenceNum.toNat ≤ m.sequenceNum.toNat :=
        (show IsHeap (fun m : Message α => m.sequenceNum.toNat) (m₀ :: heap) from
          hheap ▸ h.isHeap).head_le (hheap ▸ hm)
      rw [h.toNat_of_eq_next hn hm hnext] at hle
      have heq := le_antisymm hle (h.le_of_mem hn hmem)
      rw [beq_iff_eq, ← hnext, ← UInt64.toNat_inj, heq, h.toNat_of_eq_next hn hm hnext]

/-- The messages that a queue holds are those that it accepted and has not returned. -/
theorem unreturned_perm (h : Sound s t) (hn : Numbered s t) : t.unreturned.Perm t.queue.heap := by
  have hnodup := h.nodup hn
  rw [List.map_append] at hnodup
  have hdisjoint := List.disjoint_of_nodup_append hnodup
  refine (h.perm.symm.filter _).trans ?_
  rw [List.filter_append, List.filter_eq_nil_iff.2, List.nil_append, List.filter_eq_self.2]
  · intro m hm
    exact decide_eq_true fun hmem => hdisjoint hmem (List.mem_map_of_mem hm)
  · intro m hm
    rw [decide_eq_true_eq, not_not]
    exact List.mem_map_of_mem hm

/-- A message is queued. -/
theorem acceptMessage (h : Sound s t) (m : Message α) :
    Sound s (t.call std (.acceptMessage m)) where
  isHeap := std.isHeap_push t.queue.heap m h.isHeap
  perm := by
    have hpush : (std.pushHeap (t.queue.heap ++ [m])).Perm (t.queue.heap ++ [m]) :=
      (std.push_perm t.queue.heap m h.isHeap).trans (List.perm_append_singleton m _).symm
    refine (hpush.append_left t.returned).trans ?_
    rw [← List.append_assoc]
    exact h.perm.append_right [m]
  returned := h.returned
  next := h.next

variable (std) in
/-- The next message is returned. -/
theorem getNextMessage (h : Sound s t) (hn : Numbered s t) {heap : List (Message α)}
    (hheap : t.queue.heap = m :: heap) (hnext : m.sequenceNum = t.queue.nextSequenceNum) :
    ∃ heap', std.popHeap t.queue.heap = heap' ++ [m] ∧ Sound s { t with
      queue := { t.queue with
        heap := heap'
        nextSequenceNum := t.queue.nextSequenceNum + 1 }
      returned := t.returned ++ [m] } := by
  obtain ⟨heap', hpop, hperm, hheap'⟩ := std.pop_spec m heap (hheap ▸ h.isHeap)
  refine ⟨heap', hheap ▸ hpop, hheap', ?_, ?_, ?_⟩
  · refine List.Perm.trans ?_ (hheap ▸ h.perm)
    rw [List.append_assoc]
    exact (hperm.cons m).append_left t.returned
  · have hm := h.toNat_of_eq_next hn (hheap ▸ List.mem_cons_self) hnext
    rw [List.map_append, h.returned, List.map_singleton, hm, List.length_append,
      List.length_singleton, List.range'_concat, Nat.one_mul]
  · rw [h.next, List.length_append, List.length_singleton, UInt64.ofNat_add, UInt64.add_assoc]
    rfl

/-- The next message is returned, or none. -/
theorem getNextMessageIf (h : Sound s t) (hn : Numbered s t)
    (selector : Option (Message α → Bool)) : Sound s (t.call std (.getNextMessageIf selector)) := by
  have hnone : Sound s { t with returned := t.returned ++ (none : Option (Message α)).toList } := by
    rw [Option.toList_none, List.append_nil]
    exact h
  simp only [call, Algorithms.getNextMessageIf]
  split
  next => exact hnone
  next m heap hheap =>
    split_ifs with hsel
    · exact hnone
    · rw [Bool.or_eq_true, not_or, Bool.not_eq_true', Bool.not_eq_false, hasNextMessage] at hsel
      simp only [hheap] at hsel
      obtain ⟨heap', hpop, hsound⟩ := h.getNextMessage std hn hheap (eq_of_beq hsel.1)
      simp only [hpop, List.getLast?_concat, List.dropLast_concat, Option.toList_some]
      exact hsound

end Sound

/-- The transcripts of all sequences of calls. -/
inductive Run (std : MessageQueue.Algorithms α) (s : UInt64) : Transcript α → Prop
  | new : Run std s (new s)
  | call {t : Transcript α} (c : Call α) : Run std s t → Run std s (t.call std c)

/-- Messages are only added to those accepted. -/
theorem prefix_accepted (c : Call α) : t.accepted <+: (t.call std c).accepted := by
  cases c with
  | acceptMessage m => exact List.prefix_append _ _
  | getNextMessageIf selector => exact List.prefix_rfl
  | setSignalable value => exact List.prefix_rfl

/-- What holds of a new queue holds after every run. -/
theorem Run.sound (h : Run std s t) (hn : Numbered s t) : Sound s t := by
  induction h with
  | new => exact .new s
  | @call t c _ ih =>
    have hn' : Numbered s t := hn.of_prefix (prefix_accepted c)
    cases c with
    | acceptMessage m => exact (ih hn').acceptMessage m
    | getNextMessageIf selector => exact (ih hn').getNextMessageIf hn' selector
    | setSignalable value => exact ⟨(ih hn').isHeap, (ih hn').perm, (ih hn').returned, (ih hn').next⟩

/-- A call that returns nothing leaves the queue alone. -/
theorem getNextMessageIf_eq_none {q : MessageQueue α} {selector : Option (Message α → Bool)}
    (h : IsHeap (fun m : Message α => m.sequenceNum.toNat) q.heap)
    (hnone : (std.getNextMessageIf q selector).1 = none) :
    (std.getNextMessageIf q selector).2 = q := by
  cases hheap : q.heap with
  | nil => rw [Algorithms.getNextMessageIf, hheap]
  | cons m heap =>
    obtain ⟨heap', hpop, -⟩ := std.pop_spec m heap (hheap ▸ h)
    rw [Algorithms.getNextMessageIf, hheap] at hnone ⊢
    dsimp only at hnone ⊢
    split_ifs at hnone ⊢
    · rfl
    · simp [hpop] at hnone

/-- What is to be expected of a queue whose first message has the number `s`. -/
structure InOrder (std : MessageQueue.Algorithms α) (s : UInt64) (t : Transcript α) : Prop where
  /-- The messages returned have the numbers from `s` on. -/
  returned : t.returned.map (·.sequenceNum.toNat) = List.range' s.toNat t.returned.length
  accepted : t.returned ⊆ t.accepted
  next : t.queue.nextSequenceNum = s + .ofNat t.returned.length
  hasNextMessage : t.queue.hasNextMessage = true ↔
    ∃ m ∈ t.unreturned, m.sequenceNum = t.queue.nextSequenceNum
  unchanged : ∀ selector, (std.getNextMessageIf t.queue selector).1 = none →
    (std.getNextMessageIf t.queue selector).2 = t.queue
  ports : t.queue.getReferencedPorts.Perm (t.unreturned.flatMap (·.ports))
  signal : ∀ m, (std.acceptMessage t.queue m).2 = true ↔
    t.queue.signalable = true ∧ (std.acceptMessage t.queue m).1.hasNextMessage = true

/-- A queue returns the messages it accepts in the order of their numbers, in whatever order
    they arrive. -/
theorem Run.inOrder (h : Run std s t) (hn : Numbered s t) : InOrder std s t := by
  have hs := h.sound hn
  have hperm := hs.unreturned_perm hn
  refine ⟨hs.returned, fun m hm => hs.perm.subset (List.mem_append_left _ hm), hs.next, ?_,
    fun selector => getNextMessageIf_eq_none hs.isHeap, (hperm.flatMap_right _).symm, fun m => ?_⟩
  · rw [hs.hasNextMessage_iff hn]
    exact exists_congr fun m => and_congr_left' hperm.mem_iff.symm
  · rw [Algorithms.acceptMessage]
    cases t.queue.signalable <;> simp

/-- The second message arrives before the first one. -/
theorem Run.inOrder_arrival :
    let m (n : UInt64) := { Message.newUserMessage n [] with sequenceNum := n }
    let calls : List (Call UInt64) := [.acceptMessage (m 2), .getNextMessageIf none,
      .acceptMessage (m 1), .getNextMessageIf none, .getNextMessageIf none]
    let t := calls.foldl (Transcript.call (sorted UInt64)) (.new 1)
    t.accepted = [m 2, m 1] ∧ t.returned = [m 1, m 2] ∧ InOrder (sorted UInt64) 1 t := by
  refine ⟨by decide, by decide, Run.inOrder ?_ ⟨by decide, by decide⟩⟩
  simp only [List.foldl_cons, List.foldl_nil]
  exact .call _ (.call _ (.call _ (.call _ (.call _ .new))))

end Transcript

end MessageQueue

end MojoEdk.Ports
