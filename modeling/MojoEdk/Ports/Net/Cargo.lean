import MojoEdk.Ports.Net.Shape

/-!
# Who has which end

An end is held by the embedder, or attached to one message (`Net.Cargo`): then its
live port is receiving if the message is in a queue, and in transit if the message
is in flight. So a message that is forwarded takes its ends along, and nobody else
sends, closes or reads from them meanwhile.

No message is about to be forwarded to the port it carries (`Cargo.noPeer`): it
would have to catch up with the end it is sent to, which it takes along.
-/

namespace MojoEdk.Ports.Net

variable {α : Type*} {N N' : Net α} {e : End} {es : List End} {a : Port}

/-! ## Transfers of several ends -/

theorem transferAll_cons (hp : N.port (e, N.len e) = some a) :
    N.transferAll (e :: es) = (N.transfer e a).transferAll es := by
  rw [transferAll, hp]

/-- Only the ports are touched, and the lengths of the chains. -/
theorem transferAll_fields (es : List End) (N : Net α) :
    (N.transferAll es).events = N.events ∧ (N.transferAll es).letters = N.letters ∧
      (N.transferAll es).pipes = N.pipes ∧ (N.transferAll es).toward = N.toward ∧
      (N.transferAll es).closed = N.closed ∧ (N.transferAll es).held = N.held ∧
      (N.transferAll es).sent = N.sent ∧ (N.transferAll es).returned = N.returned := by
  induction es generalizing N with
  | nil => exact ⟨rfl, rfl, rfl, rfl, rfl, rfl, rfl, rfl⟩
  | cons e es ih =>
    rw [transferAll]
    split
    · exact ih _
    · exact ih _

@[simp] theorem transferAll_events : (N.transferAll es).events = N.events :=
  (transferAll_fields es N).1

@[simp] theorem transferAll_letters : (N.transferAll es).letters = N.letters :=
  (transferAll_fields es N).2.1

@[simp] theorem transferAll_pipes : (N.transferAll es).pipes = N.pipes :=
  (transferAll_fields es N).2.2.1

@[simp] theorem transferAll_toward : (N.transferAll es).toward = N.toward :=
  (transferAll_fields es N).2.2.2.1

@[simp] theorem transferAll_closed : (N.transferAll es).closed = N.closed :=
  (transferAll_fields es N).2.2.2.2.1

@[simp] theorem transferAll_held : (N.transferAll es).held = N.held :=
  (transferAll_fields es N).2.2.2.2.2.1

@[simp] theorem transferAll_sent : (N.transferAll es).sent = N.sent :=
  (transferAll_fields es N).2.2.2.2.2.2.1

@[simp] theorem transferAll_returned : (N.transferAll es).returned = N.returned :=
  (transferAll_fields es N).2.2.2.2.2.2.2

/-- No chain gets shorter. -/
theorem len_le_transferAll (e : End) : N.len e ≤ (N.transferAll es).len e := by
  induction es generalizing N with
  | nil => exact le_rfl
  | cons e' es ih =>
    rw [transferAll]
    split
    · exact (len_le_transfer e).trans ih
    · exact ih

/-- The chains of the other ends are not touched. -/
theorem transferAll_of_notMem {x : Place} (hx : x.1 ∉ es) :
    (N.transferAll es).port x = N.port x ∧ (N.transferAll es).len x.1 = N.len x.1 := by
  induction es generalizing N with
  | nil => exact ⟨rfl, rfl⟩
  | cons e es ih =>
    obtain ⟨hne, hx⟩ := not_or.1 (fun h => hx (List.mem_cons.2 h))
    rw [transferAll]
    split
    · exact ⟨(ih hx).1.trans (port_transfer_of_fst_ne hne),
        (ih hx).2.trans (len_transfer_of_ne hne)⟩
    · exact ih hx

/-- The proxies are not touched. -/
theorem transferAll_of_lt {x : Place} (hx : x.2 < N.len x.1) :
    (N.transferAll es).port x = N.port x := by
  induction es generalizing N with
  | nil => rfl
  | cons e es ih =>
    rw [transferAll]
    split
    · refine (ih (hx.trans_le (len_le_transfer _))).trans (port_transfer_of_ne ?_ ?_)
      · rintro rfl
        exact absurd hx (by simp)
      · rintro rfl
        exact absurd hx (by simp)
    · exact ih hx

/-- The chain of an end that is sent. -/
theorem transferAll_of_mem (hes : es.Nodup) (he : e ∈ es) (hp : N.port (e, N.len e) = some a) :
    (N.transferAll es).port (e, N.len e) =
        some { a with kind := .buffering, remove := a.remove || a.peerClosed } ∧
      (N.transferAll es).port (e, N.len e + 1) =
        some { a with kind := .transit, remove := false, stored := false } ∧
      (N.transferAll es).len e = N.len e + 1 := by
  induction es generalizing N with
  | nil => exact absurd he List.not_mem_nil
  | cons e' es ih =>
    obtain ⟨hne, hes⟩ := List.nodup_cons.1 hes
    rcases List.mem_cons.1 he with rfl | he
    · rw [transferAll_cons hp]
      exact ⟨(transferAll_of_notMem hne).1.trans port_transfer_sent,
        (transferAll_of_notMem hne).1.trans port_transfer_new,
        (transferAll_of_notMem (x := (e, 0)) hne).2.trans len_transfer_self⟩
    · have hee : e ≠ e' := fun h => hne (h ▸ he)
      rw [transferAll]
      split
      · rw [← len_transfer_of_ne (N := N) (a := _) hee]
        exact ih hes he ((port_transfer_live_of_ne hee).trans hp)
      · exact ih hes he hp

/-- The ends that are sent are those whose chains grow. -/
theorem len_transferAll_ne_iff (hes : es.Nodup)
    (hport : ∀ e ∈ es, ∃ a, N.port (e, N.len e) = some a) (e : End) :
    (N.transferAll es).len e ≠ N.len e ↔ e ∈ es := by
  constructor
  · intro hne
    by_contra he
    exact hne (transferAll_of_notMem (x := (e, 0)) he).2
  · intro he
    obtain ⟨a, ha⟩ := hport e he
    rw [(transferAll_of_mem hes he ha).2.2]
    exact Nat.succ_ne_self _

/-- The live port of an end that is not sent stays as it is. -/
theorem isLive_transferAll_of_notMem {k : Kind} (he : e ∉ es) :
    (N.transferAll es).IsLive e k ↔ N.IsLive e k := by
  rw [IsLive, (transferAll_of_notMem (x := (e, 0)) he).2,
    (transferAll_of_notMem (x := (e, N.len e)) he).1]
  rfl

/-- The live ports of the ends that are sent are in transit. -/
theorem isLive_transferAll_of_mem {k : Kind} (hes : es.Nodup) (he : e ∈ es)
    (hl : N.IsLive e k) : (N.transferAll es).IsLive e .transit := by
  obtain ⟨a, hp, -⟩ := hl
  obtain ⟨-, h2, h3⟩ := transferAll_of_mem hes he hp
  exact ⟨_, by rw [h3, h2], rfl⟩

/-- The messages may change before the ends are sent, or after it. -/
theorem transferAll_withLetters (es : List End) (L : Multiset (Letter α)) :
    (N.withLetters L).transferAll es = (N.transferAll es).withLetters L := by
  induction es generalizing N with
  | nil => rfl
  | cons e es ih =>
    simp only [transferAll, show (N.withLetters L).port = N.port from rfl,
      show (N.withLetters L).len = N.len from rfl]
    split
    · exact ih (N := N.transfer e _)
    · exact ih

/-- What was sent may be noted before the ends are sent, or after it. -/
theorem transferAll_noteSent (es : List End) (e : End) (m : UInt64 × α) :
    (N.noteSent e m).transferAll es = (N.transferAll es).noteSent e m := by
  induction es generalizing N with
  | nil => rfl
  | cons e' es ih =>
    simp only [transferAll, show (N.noteSent e m).port = N.port from rfl,
      show (N.noteSent e m).len = N.len from rfl]
    split
    · exact ih (N := N.transfer e' _)
    · exact ih

/-! ## Acceptance of several ends -/

/-- A port that arrives is the only one that changes. -/
theorem port_accept_of_ne {x : Place} (hx : x ≠ (e, N.len e)) :
    (N.accept e a).port x = N.port x :=
  port_set_of_ne _ hx

/-- The ports of the other ends are not touched. -/
theorem port_accept_of_fst_ne {x : Place} (hx : x.1 ≠ e) : (N.accept e a).port x = N.port x :=
  port_accept_of_ne fun h => hx (congrArg Prod.fst h)

@[simp] theorem port_accept_self :
    (N.accept e a).port (e, N.len e) = some { a with kind := .receiving } :=
  port_set_self ..

theorem acceptAll_cons (hp : N.port (e, N.len e) = some a) :
    N.acceptAll (e :: es) = (N.accept e a).acceptAll es := by
  rw [acceptAll, hp]

/-- Only the ports are touched, and the events. -/
theorem acceptAll_fields (es : List End) (N : Net α) :
    (N.acceptAll es).letters = N.letters ∧ (N.acceptAll es).pipes = N.pipes ∧
      (N.acceptAll es).len = N.len ∧ (N.acceptAll es).toward = N.toward ∧
      (N.acceptAll es).closed = N.closed ∧ (N.acceptAll es).held = N.held ∧
      (N.acceptAll es).sent = N.sent ∧ (N.acceptAll es).returned = N.returned := by
  induction es generalizing N with
  | nil => exact ⟨rfl, rfl, rfl, rfl, rfl, rfl, rfl, rfl⟩
  | cons e es ih =>
    rw [acceptAll]
    split
    · exact ih _
    · exact ih _

@[simp] theorem acceptAll_letters : (N.acceptAll es).letters = N.letters :=
  (acceptAll_fields es N).1

@[simp] theorem acceptAll_pipes : (N.acceptAll es).pipes = N.pipes :=
  (acceptAll_fields es N).2.1

@[simp] theorem acceptAll_len : (N.acceptAll es).len = N.len :=
  (acceptAll_fields es N).2.2.1

@[simp] theorem acceptAll_toward : (N.acceptAll es).toward = N.toward :=
  (acceptAll_fields es N).2.2.2.1

@[simp] theorem acceptAll_closed : (N.acceptAll es).closed = N.closed :=
  (acceptAll_fields es N).2.2.2.2.1

@[simp] theorem acceptAll_held : (N.acceptAll es).held = N.held :=
  (acceptAll_fields es N).2.2.2.2.2.1

@[simp] theorem acceptAll_sent : (N.acceptAll es).sent = N.sent :=
  (acceptAll_fields es N).2.2.2.2.2.2.1

@[simp] theorem acceptAll_returned : (N.acceptAll es).returned = N.returned :=
  (acceptAll_fields es N).2.2.2.2.2.2.2

/-- The other ports are not touched. -/
theorem acceptAll_of_notMem {x : Place} (hx : x.1 ∈ es → x.2 ≠ N.len x.1) :
    (N.acceptAll es).port x = N.port x := by
  induction es generalizing N with
  | nil => rfl
  | cons e es ih =>
    have hx' : x.1 ∈ es → x.2 ≠ N.len x.1 := fun h => hx (List.mem_cons_of_mem _ h)
    rw [acceptAll]
    split
    · refine (ih (N := N.accept e _) hx').trans (port_accept_of_ne ?_)
      rintro rfl
      exact hx List.mem_cons_self rfl
    · exact ih hx'

/-- The live port of an end that is accepted. -/
theorem acceptAll_of_mem (hes : es.Nodup) (he : e ∈ es) (hp : N.port (e, N.len e) = some a) :
    (N.acceptAll es).port (e, N.len e) = some { a with kind := .receiving } := by
  induction es generalizing N with
  | nil => exact absurd he List.not_mem_nil
  | cons e' es ih =>
    obtain ⟨hne, hes⟩ := List.nodup_cons.1 hes
    rcases List.mem_cons.1 he with rfl | he
    · rw [acceptAll_cons hp]
      exact (acceptAll_of_notMem fun h => absurd h hne).trans port_accept_self
    · have hee : e ≠ e' := fun h => hne (h ▸ he)
      rw [acceptAll]
      split
      · exact ih (N := N.accept e' _) hes he ((port_accept_of_fst_ne hee).trans hp)
      · exact ih hes he hp

/-- The live port of an end that does not arrive stays as it is. -/
theorem isLive_acceptAll_of_notMem {k : Kind} (he : e ∉ es) :
    (N.acceptAll es).IsLive e k ↔ N.IsLive e k := by
  rw [IsLive, acceptAll_len, acceptAll_of_notMem fun h => absurd h he]
  rfl

/-- The live ports of the ends that arrive are receiving. -/
theorem isLive_acceptAll_of_mem {k : Kind} (hes : es.Nodup) (he : e ∈ es) (hl : N.IsLive e k) :
    (N.acceptAll es).IsLive e .receiving := by
  obtain ⟨a, hp, -⟩ := hl
  exact ⟨_, by rw [acceptAll_len, acceptAll_of_mem hes he hp], rfl⟩

/-- The messages may change before the ends arrive, or after it. -/
theorem acceptAll_withLetters (es : List End) (L : Multiset (Letter α)) :
    (N.withLetters L).acceptAll es = (N.acceptAll es).withLetters L := by
  induction es generalizing N with
  | nil => rfl
  | cons e es ih =>
    simp only [acceptAll, show (N.withLetters L).port = N.port from rfl,
      show (N.withLetters L).len = N.len from rfl]
    split
    · exact ih (N := N.accept e _)
    · exact ih

/-- Accepting ends in transit keeps the shape. -/
theorem Shape.acceptAll (h : N.Shape) (hes : es.Nodup) (ht : ∀ e ∈ es, N.IsLive e .transit) :
    (N.acceptAll es).Shape := by
  induction es generalizing N with
  | nil => exact h
  | cons e es ih =>
    obtain ⟨hne, hes⟩ := List.nodup_cons.1 hes
    obtain ⟨a, hp, hk⟩ := ht e List.mem_cons_self
    rw [acceptAll_cons hp]
    refine ih (h.accept hp hk) hes fun e' he' => ?_
    obtain ⟨b, hb, hbk⟩ := ht e' (List.mem_cons_of_mem _ he')
    have hee : e' ≠ e := fun h => hne (h ▸ he')
    exact ⟨b, (port_accept_of_fst_ne hee).trans hb, hbk⟩

/-! ## Ownership -/

/-- The ends attached to messages. -/
def attached (N : Net α) : Multiset End := N.letters.bind fun l => (l.ports : Multiset End)

/-- What the live ports of the ends attached to a message are. -/
def Letter.kind (l : Letter α) : Kind := if l.queued then .receiving else .transit

/-- Who has which end. -/
structure Cargo (N : Net α) : Prop where
  nodup : (N.held + N.attached).Nodup
  held : ∀ e ∈ N.held, N.IsLive e .receiving
  letters : ∀ l ∈ N.letters, ∀ e ∈ l.ports, N.IsLive e l.kind
  noPeer : ∀ l ∈ N.letters, l.place.1 ∈ l.ports → l.place.2 + 1 < N.len l.place.1

/-- An end is attached if it is so to some message. -/
theorem mem_attached : e ∈ N.attached ↔ ∃ l ∈ N.letters, e ∈ l.ports := by
  simp [attached, Multiset.mem_bind]

/-- The ends attached are those of one message, and those of the others. -/
theorem attached_of_cons {l : Letter α} {L : Multiset (Letter α)} (h : N.letters = l ::ₘ L) :
    N.attached = ↑l.ports + (N.withLetters L).attached := by
  rw [attached, h, Multiset.cons_bind]
  rfl

theorem withHeld_of_eq {H : Multiset End} (h : N.held = H) : N.withHeld H = N := by
  subst h
  rfl

/-- Where messages are gone, so are the ends that were attached to them. -/
theorem attached_le (h : N'.letters ≤ N.letters) : N'.attached ≤ N.attached := by
  obtain ⟨L, hL⟩ := Multiset.le_iff_exists_add.1 h
  rw [attached, attached, hL, Multiset.add_bind]
  exact Multiset.le_add_right _ _

/-- A live port stays what it is when a port changes, but not the kind of a live one. -/
theorem IsLive.set (h : N.Shape) {x : Place} {a' : Port} (hx : N.port x = some a)
    (ha : a.kind.live → a'.kind = a.kind) {k : Kind} (he : N.IsLive e k) :
    (N.set x a').IsLive e k := by
  obtain ⟨b, hb, hk⟩ := he
  by_cases hex : (e, N.len e) = x
  · subst hex
    rw [hx] at hb
    obtain rfl := Option.some.inj hb
    exact ⟨a', port_set_self .., (ha (h.kind_live hx)).trans hk⟩
  · exact ⟨b, (port_set_of_ne _ hex).trans hb, hk⟩

/-- A live port of a kind was one before, if the port that changed was of that kind. -/
theorem IsLive.of_set {x : Place} {b : Port} {k : Kind} (hx : N.port x = some a)
    (hb : b.kind = k → a.kind = k) (he : (N.set x b).IsLive e k) : N.IsLive e k := by
  obtain ⟨d, hd, hk⟩ := he
  replace hd : (N.set x b).port (e, N.len e) = some d := hd
  rcases port_set_cases hd with ⟨rfl, rfl⟩ | ⟨-, hd⟩
  · exact ⟨a, hx, hb hk⟩
  · exact ⟨d, hd, hk⟩

/-- A live port that is there after one is erased was there before. -/
theorem IsLive.of_erase {x : Place} {k : Kind} (he : (N.erase x).IsLive e k) : N.IsLive e k := by
  obtain ⟨d, hd, hk⟩ := he
  exact ⟨d, (port_erase_cases hd).2, hk⟩

/-- A live port is one of a pipe. -/
theorem IsLive.pipe_lt (h : N.Shape) {k : Kind} (he : N.IsLive e k) : e.pipe < N.pipes := by
  obtain ⟨a, ha, -⟩ := he
  exact h.pipe_lt ha

namespace Cargo

theorem init : (init : Net α).Cargo where
  nodup := by simp [Net.init, attached]
  held _ h := absurd h (Multiset.notMem_zero _)
  letters _ h := absurd h (Multiset.notMem_zero _)
  noPeer _ h := absurd h (Multiset.notMem_zero _)

/-- A change that only takes messages away keeps the rest. -/
theorem of_le (c : N.Cargo) (hlen : ∀ e, N.len e ≤ N'.len e)
    (hlive : ∀ e k, N.IsLive e k → N'.IsLive e k) (hheld : N'.held = N.held)
    (hl : N'.letters ≤ N.letters) : N'.Cargo where
  nodup := by
    rw [hheld]
    exact Multiset.nodup_of_le (add_le_add_right (attached_le hl) _) c.nodup
  held e he := hlive e _ (c.held e (hheld ▸ he))
  letters l hl' e he := hlive e _ (c.letters l (Multiset.mem_of_le hl hl') e he)
  noPeer l hl' he := (c.noPeer l (Multiset.mem_of_le hl hl') he).trans_le (hlen _)

/-- A port changes, but not the kind of a live one. -/
theorem set (h : N.Shape) (c : N.Cargo) {x : Place} {a' : Port} (hx : N.port x = some a)
    (ha : a.kind.live → a'.kind = a.kind) : (N.set x a').Cargo :=
  c.of_le (fun _ => le_rfl) (fun _ _ => IsLive.set h hx ha) rfl le_rfl

theorem withEvents (c : N.Cargo) (E : Multiset Event) : (N.withEvents E).Cargo :=
  c.of_le (fun _ => le_rfl) (fun _ _ => id) rfl le_rfl

theorem noteSent (c : N.Cargo) (e : End) (m : UInt64 × α) : (N.noteSent e m).Cargo := { c with }

theorem noteReturned (c : N.Cargo) (e : End) (m : UInt64 × α) : (N.noteReturned e m).Cargo :=
  { c with }

/-- The ends of a message are nobody else's. -/
theorem nodup_of_cons (c : N.Cargo) {l : Letter α} {L : Multiset (Letter α)}
    (hL : N.letters = l ::ₘ L) :
    l.ports.Nodup ∧ (N.held + (N.withLetters L).attached).Nodup ∧
      ∀ e ∈ l.ports, e ∉ N.held + (N.withLetters L).attached := by
  have h := c.nodup
  rw [attached_of_cons hL, add_left_comm] at h
  obtain ⟨h1, h2, h3⟩ := Multiset.nodup_add.1 h
  exact ⟨h1, h2, fun e he hn => Multiset.disjoint_left.1 h3 he hn⟩

/-- The embedder holds both ends of a new pipe. -/
theorem create (h : N.Shape) (c : N.Cargo) : N.create.Cargo := by
  have hlive : ∀ e k, N.IsLive e k → N.create.IsLive e k := by
    rintro e k ⟨a, ha, hk⟩
    exact ⟨a, (port_create_of_pipe_lt (h.pipe_lt ha)).trans ha, hk⟩
  have hold : ∀ e ∈ N.held + N.attached, e.pipe < N.pipes := by
    intro e he
    rcases Multiset.mem_add.1 he with he | he
    · exact (c.held e he).pipe_lt h
    · obtain ⟨l, hl, he⟩ := mem_attached.1 he
      exact (c.letters l hl e he).pipe_lt h
  refine ⟨?_, fun e he => ?_, fun l hl e he => hlive e _ (c.letters l hl e he), c.noPeer⟩
  · change (⟨N.pipes, false⟩ ::ₘ ⟨N.pipes, true⟩ ::ₘ N.held + N.attached).Nodup
    rw [Multiset.cons_add, Multiset.cons_add, Multiset.nodup_cons, Multiset.nodup_cons]
    refine ⟨fun hm => ?_, fun hm => (hold _ hm).ne rfl, c.nodup⟩
    rcases Multiset.mem_cons.1 hm with hm | hm
    · cases hm
    · exact (hold _ hm).ne rfl
  · rcases Multiset.mem_cons.1 he with rfl | he
    · exact ⟨_, (port_create _).trans (if_pos ⟨rfl, (h.unused _ le_rfl).1⟩), rfl⟩
    · rcases Multiset.mem_cons.1 he with rfl | he
      · exact ⟨_, (port_create _).trans (if_pos ⟨rfl, (h.unused _ le_rfl).1⟩), rfl⟩
      · exact hlive e _ (c.held e he)

/-- No end is attached to a message twice. -/
theorem ports_nodup (c : N.Cargo) {l : Letter α} (hl : l ∈ N.letters) : l.ports.Nodup := by
  obtain ⟨L, hL⟩ := Multiset.exists_cons_of_mem hl
  exact (c.nodup_of_cons hL).1

/-- The ends of a message in flight are in transit. -/
theorem transit (c : N.Cargo) {l : Letter α} (hl : l ∈ N.letters) (hq : l.queued = false) :
    ∀ e ∈ l.ports, N.IsLive e .transit := by
  intro e he
  have := c.letters l hl e he
  rwa [Letter.kind, hq] at this

/-- The ends of a message in a queue are receiving. -/
theorem receiving (c : N.Cargo) {l : Letter α} (hl : l ∈ N.letters) (hq : l.queued) :
    ∀ e ∈ l.ports, N.IsLive e .receiving := by
  intro e he
  have := c.letters l hl e he
  rwa [Letter.kind, hq] at this

/-- The ends `es`, held or attached to a message that is not counted, are attached
    to a message that is sent. -/
theorem post (c : N.Cargo) {l : Letter α} {H : Multiset End} {L : Multiset (Letter α)}
    (hp : N.held + N.attached = ↑l.ports + (H + (N.withLetters L).attached))
    (hH : ∀ e ∈ H, e ∈ N.held) (hL : L ≤ N.letters) (hq : l.queued = false)
    (hlive : ∀ e ∈ l.ports, N.IsLive e .receiving)
    (hne : l.place.1 ∈ l.ports → l.place.2 < N.len l.place.1) :
    (((N.transferAll l.ports).withLetters (l ::ₘ L)).withHeld H).Cargo := by
  have hnd := c.nodup
  rw [hp] at hnd
  obtain ⟨hes, -, hdis⟩ := Multiset.nodup_add.1 hnd
  have hother : ∀ e ∈ H + (N.withLetters L).attached, ∀ k, N.IsLive e k →
      (N.transferAll l.ports).IsLive e k := fun e he k hk =>
    (isLive_transferAll_of_notMem fun hm => Multiset.disjoint_left.1 hdis hm he).2 hk
  refine ⟨?_, fun e he => ?_, fun l' hl' e he => ?_, fun l' hl' he => ?_⟩
  · change (H + (l ::ₘ L).bind _).Nodup
    rw [Multiset.cons_bind, add_left_comm]
    exact hnd
  · exact hother e (Multiset.mem_add.2 (.inl he)) _ (c.held e (hH e he))
  · rcases Multiset.mem_cons.1 hl' with rfl | hl'
    · rw [Letter.kind, hq]
      exact isLive_transferAll_of_mem hes he (hlive e he)
    · refine hother e (Multiset.mem_add.2 (.inr (mem_attached.2 ⟨l', hl', he⟩))) _ ?_
      exact c.letters l' (Multiset.mem_of_le hL hl') e he
  · rcases Multiset.mem_cons.1 hl' with rfl | hl'
    · obtain ⟨a, ha, -⟩ := hlive _ he
      have := (transferAll_of_mem hes he ha).2.2
      exact (Nat.succ_lt_succ (hne he)).trans_eq this.symm
    · exact (c.noPeer l' (Multiset.mem_of_le hL hl') he).trans_le (len_le_transferAll _)

/-- The ends of a message that arrives are accepted, and stay attached to it, or
    are left to the embedder. -/
theorem receive (c : N.Cargo) {l : Letter α} {L L' : Multiset (Letter α)} {H : Multiset End}
    (hL : N.letters = l ::ₘ L)
    (hL' : (L' = { l with queued := true } ::ₘ L ∧ H = N.held) ∨
      (L' = L ∧ H = ↑l.ports + N.held)) :
    (((N.acceptAll l.ports).withLetters L').withHeld H).Cargo := by
  obtain ⟨hes, hnd, hdis⟩ := c.nodup_of_cons hL
  have hmem : l ∈ N.letters := hL ▸ Multiset.mem_cons_self l L
  have hown : ∀ e ∈ l.ports, (N.acceptAll l.ports).IsLive e .receiving := fun e he =>
    isLive_acceptAll_of_mem hes he (c.letters l hmem e he)
  have hheld : ∀ e ∈ N.held, (N.acceptAll l.ports).IsLive e .receiving := fun e he =>
    (isLive_acceptAll_of_notMem fun hm =>
      hdis e hm (Multiset.mem_add.2 (.inl he))).2 (c.held e he)
  have hrest : ∀ l' ∈ L, ∀ e ∈ l'.ports, (N.acceptAll l.ports).IsLive e l'.kind :=
    fun l' hl' e he => (isLive_acceptAll_of_notMem fun hm =>
      hdis e hm (Multiset.mem_add.2 (.inr (mem_attached.2 ⟨l', hl', he⟩)))).2
        (c.letters l' (hL ▸ Multiset.mem_cons_of_mem hl') e he)
  have hpeer : ∀ l' ∈ N.letters, l'.place.1 ∈ l'.ports →
      l'.place.2 + 1 < (N.acceptAll l.ports).len l'.place.1 := by
    rw [acceptAll_len]
    exact c.noPeer
  have hperm := c.nodup
  rw [attached_of_cons hL] at hperm
  -- The ends stay with the message, which is queued, or the embedder is to close them.
  rcases hL' with ⟨rfl, rfl⟩ | ⟨rfl, rfl⟩
  · refine ⟨?_, hheld, fun l' hl' => ?_, fun l' hl' => ?_⟩
    · change (N.held + ({ l with queued := true } ::ₘ L).bind _).Nodup
      rw [Multiset.cons_bind]
      exact hperm
    · rcases Multiset.mem_cons.1 hl' with rfl | hl'
      · exact hown
      · exact hrest l' hl'
    · rcases Multiset.mem_cons.1 hl' with rfl | hl'
      · exact hpeer l hmem
      · exact hpeer l' (hL ▸ Multiset.mem_cons_of_mem hl')
  · refine ⟨?_, fun e he => ?_, hrest, fun l' hl' =>
      hpeer l' (hL ▸ Multiset.mem_cons_of_mem hl')⟩
    · change (↑l.ports + N.held + (N.withLetters L').attached).Nodup
      rw [add_right_comm, add_comm]
      exact hperm
    · rcases Multiset.mem_add.1 he with he | he
      · exact hown e he
      · exact hheld e he

/-- The embedder holds the ends attached to a message that it reads. -/
theorem get (h : N.Shape) (c : N.Cargo) {a' : Port} {l : Letter α} {L : Multiset (Letter α)}
    {x : Place} (hx : N.port x = some a) (ha : a'.kind = a.kind) (hL : N.letters = l ::ₘ L)
    (hq : l.queued) :
    (((N.set x a').withLetters L).withHeld (↑l.ports + N.held)).Cargo := by
  have hlive : ∀ e k, N.IsLive e k → (N.set x a').IsLive e k := fun e k =>
    IsLive.set h hx fun _ => ha
  have hmem : l ∈ N.letters := hL ▸ Multiset.mem_cons_self l L
  have hsub : ∀ l' ∈ L, l' ∈ N.letters := fun l' hl' => hL ▸ Multiset.mem_cons_of_mem hl'
  refine ⟨?_, fun e he => hlive e _ ?_, fun l' hl' e he => hlive e _ (c.letters l' (hsub l' hl') e he),
    fun l' hl' => c.noPeer l' (hsub l' hl')⟩
  · have := c.nodup
    rw [attached_of_cons hL, add_left_comm, ← add_assoc] at this
    exact this
  · rcases Multiset.mem_add.1 he with he | he
    · exact c.receiving hmem hq e he
    · exact c.held e he

/-- The embedder does not hold an end that it has closed. -/
theorem close (c : N.Cargo) {H : Multiset End} (hH : N.held = e ::ₘ H) :
    (N.close e a H).Cargo := by
  have hnd := c.nodup
  rw [hH, Multiset.cons_add, Multiset.nodup_cons] at hnd
  obtain ⟨hne, hnd⟩ := hnd
  have hsplit : N.queue (e, N.len e) + N.elsewhere (e, N.len e) = N.letters :=
    Multiset.filter_add_not _ _
  have hlive : ∀ e' ∈ H + N.attached, ∀ k, N.IsLive e' k → (N.close e a H).IsLive e' k := by
    rintro e' he' k ⟨b, hb, hk⟩
    have hee : e' ≠ e := fun h => hne (h ▸ he')
    exact ⟨b, (port_erase_of_ne fun hx => hee (congrArg Prod.fst hx)).trans hb, hk⟩
  refine ⟨?_, fun e' he' => ?_, fun l hl e' he' => ?_, fun l hl => ?_⟩
  · change ((N.queue (e, N.len e)).bind _ + H + (N.elsewhere (e, N.len e)).bind _).Nodup
    rw [add_right_comm, ← Multiset.add_bind, hsplit, add_comm]
    exact hnd
  · rcases Multiset.mem_add.1 he' with he' | he'
    · obtain ⟨l, hl, he'⟩ := Multiset.mem_bind.1 he'
      obtain ⟨hl, hq, -⟩ := Multiset.mem_filter.1 hl
      exact hlive e' (Multiset.mem_add.2 (.inr (mem_attached.2 ⟨l, hl, he'⟩))) _
        (c.receiving hl hq e' he')
    · exact hlive e' (Multiset.mem_add.2 (.inl he')) _
        (c.held e' (hH ▸ Multiset.mem_cons_of_mem he'))
  · have hl := (Multiset.mem_filter.1 hl).1
    exact hlive e' (Multiset.mem_add.2 (.inr (mem_attached.2 ⟨l, hl, he'⟩))) _
      (c.letters l hl e' he')
  · exact c.noPeer l (Multiset.mem_filter.1 hl).1

/-- Every step preserves that an end is held, attached to one message, or closed. -/
theorem step (h : N.Shape) (c : N.Cargo) {t : Label} (hs : Step N t N') : N'.Cargo := by
  cases hs with
  | create => exact c.create h
  -- The ends go from the embedder to the message.
  | @send e a payload es H hp hk _ hH hne hpeer =>
    have hset : (N.set (e, N.len e) { a with send := a.send + 1 }).Cargo :=
      c.set h hp fun _ => by rfl
    refine Cargo.noteSent (hset.post (l := ⟨(e.opp, N.toward e), false, a.send, payload, es⟩) ?_
      (fun e' he' => ?_) le_rfl rfl (fun e' he' => ?_) fun he' => ?_) e _
    · change N.held + N.attached = _
      rw [hH, add_assoc]
      rfl
    · exact hH ▸ Multiset.mem_add.2 (.inr he')
    · exact hset.held e' (hH ▸ Multiset.mem_add.2 (.inl he') : e' ∈ N.held)
    · exact lt_of_le_of_ne (h.toward_le e) (hpeer he')
  | get hp _ _ hL hq _ _ => exact (c.get h hp (by rfl) hL hq).noteReturned _ _
  | arrive hL _ _ _ _ =>
    have := c.receive hL (.inl ⟨rfl, rfl⟩)
    rwa [withHeld_of_eq (by exact acceptAll_held)] at this
  | reject hL _ _ => exact c.receive hL (.inr ⟨rfl, rfl⟩)
  -- They stay with the message, and are in transit again.
  | @forward x a l L hx hk hL hq hl _ =>
    have hmem : l ∈ N.letters := hL ▸ Multiset.mem_cons_self l L
    set a' : Port := { a with
      next := a.next + 1
      send := if l.number = 0 then a.send + 1 else a.send } with ha'
    have hset : (N.set x a').Cargo := c.set h hx fun _ => by rfl
    have hpost : (((N.set x a').transferAll l.ports).withLetters _ |>.withHeld N.held).Cargo :=
      hset.post (l := { l with
      place := x.succ
      queued := false
      number := if l.number = 0 then a.send else l.number }) (H := N.held) (L := L) ?_
      (fun _ he' => he') (hL ▸ Multiset.le_cons_self L l) rfl (fun e he => ?_) fun he => ?_
    · rwa [withHeld_of_eq (by exact transferAll_held)] at hpost
    · change N.held + N.attached = _
      rw [attached_of_cons hL, add_left_comm]
      rfl
    · exact hset.receiving hmem hq e he
    · have := c.noPeer l hmem (by rw [hl]; exact he)
      rw [hl] at this
      exact this
  | portAccepted _ hx hk => exact (c.set h hx (by simp [hk])).withEvents _
  -- The port that goes is not the live one of an end.
  | @remove x a hx hk _ _ =>
    have hlt := h.proxy hx (by simp [hk])
    refine c.of_le (fun _ => le_rfl) ?_ rfl (by exact Multiset.filter_le _ _)
    rintro e k ⟨b, hb, hbk⟩
    have hne : (e, N.len e) ≠ x := by
      rintro rfl
      exact hlt.ne rfl
    exact ⟨b, (port_erase_of_ne hne).trans hb, hbk⟩
  | redirect _ _ _ _ => exact c.of_le (fun _ => le_rfl) (fun _ _ => id) rfl le_rfl
  | store _ hx _ => exact (c.set h hx fun _ => by rfl).withEvents _
  | proxyPass _ _ _ _ => exact c.withEvents _
  | ackRetry _ _ _ => exact c.withEvents _
  | ackAccept _ _ hx _ => exact (c.set h hx fun _ => by rfl).withEvents _
  | closureReceive _ hp _ => exact (c.set h hp fun _ => by rfl).withEvents _
  | closurePass _ hx _ => exact (c.set h hx fun _ => by rfl).withEvents _
  | drop _ _ _ => exact c.withEvents _
  | close hp hk hH => exact c.close hH

/-- A loss preserves who has which end. -/
theorem loss (h : N.Shape) (c : N.Cargo) (hs : Loss N N') : N'.Cargo := by
  cases hs with
  | lose S =>
    refine c.of_le (fun _ => le_rfl) ?_ rfl (Multiset.filter_le _ _)
    rintro e k ⟨a, ha, rfl⟩
    exact port_lose_live ha (h.kind_live ha)
  | loseEvent _ => exact c.withEvents _

end Cargo

/-! ## The shape along a run -/

namespace Shape

/-- A message leaves the place where it was. -/
theorem take (h : N.Shape) {l : Letter α} {L : Multiset (Letter α)} (hL : N.letters = l ::ₘ L) :
    (N.withLetters L).Shape :=
  h.withLetters (fun l' hl' => h.letters l' (hL ▸ Multiset.mem_cons_of_mem hl'))
    fun l' hl' => h.queued l' (hL ▸ Multiset.mem_cons_of_mem hl')

/-- A message is sent to a place in use, or is queued at a port. -/
theorem post (h : N.Shape) {l : Letter α} (hu : N.Used l.place)
    (hq : l.queued → ∃ a, N.port l.place = some a ∧ a.kind ≠ .transit) :
    (N.withLetters (l ::ₘ N.letters)).Shape :=
  h.withLetters (Multiset.forall_mem_cons.2 ⟨hu, h.letters⟩)
    (Multiset.forall_mem_cons.2 ⟨hq, h.queued⟩)

/-- Every step preserves the shape of a net. -/
theorem step (h : N.Shape) (c : N.Cargo) {t : Label} (hs : Step N t N') : N'.Shape := by
  cases hs with
  | create => exact h.create
  | @send e a payload es H hp hk _ hH hne hpeer =>
    have hset : (N.set (e, N.len e) { a with send := a.send + 1 }).Shape :=
      h.set hp rfl (by simp [hk]) (fun _ => (h.live hp (by simp [hk])).2) fun hs => h.stored hp hs
    have hall := (hset.transferAll es).post
      (l := ⟨(e.opp, N.toward e), false, a.send, payload, es⟩)
      ⟨by rw [transferAll_pipes]; exact h.pipe_lt (x := (e, N.len e)) hp,
        (h.toward_le e).trans (len_le_transferAll (N := N.set _ _) _)⟩ (by simp)
    rw [transferAll_letters] at hall
    exact (hall.withHeld H).noteSent e _
  | @get e a l L hp hk _ hL _ _ _ =>
    have hset : ((N.withLetters L).set (e, N.len e) { a with next := a.next + 1 }).Shape :=
      (h.take hL).set hp rfl (by simp [hk]) (fun _ => (h.live hp (by simp [hk])).2) fun hs => h.stored hp hs
    exact (hset.withHeld _).noteReturned e _
  | @arrive a l L hL hq hx hk _ =>
    have hmem : l ∈ N.letters := hL ▸ Multiset.mem_cons_self l L
    have hacc := (h.acceptAll (c.ports_nodup hmem) (c.transit hmem hq)).take (by rw [acceptAll_letters, hL])
    refine hacc.post (l := { l with queued := true }) ?_ fun _ => ?_
    · obtain ⟨h1, h2⟩ := h.letters l hmem
      exact ⟨h1.trans_eq acceptAll_pipes.symm, h2.trans_eq (by rw [← acceptAll_len]; rfl)⟩
    · have hne : l.place.1 ∈ l.ports → l.place.2 ≠ N.len l.place.1 := fun he =>
        ((Nat.lt_succ_self _).trans (c.noPeer l hmem he)).ne
      exact ⟨a, (acceptAll_of_notMem hne).trans hx, hk⟩
  | @reject l L hL hq _ =>
    have hmem : l ∈ N.letters := hL ▸ Multiset.mem_cons_self l L
    exact ((h.acceptAll (c.ports_nodup hmem) (c.transit hmem hq)).take (by rw [acceptAll_letters, hL])).withHeld _
  | @forward x a l L hx hk hL hq hl _ =>
    set a' : Port := { a with
      next := a.next + 1
      send := if l.number = 0 then a.send + 1 else a.send } with ha'
    have hset : (N.set x a').Shape :=
      h.set hx rfl (by simp [a', hk]) (by simp [a', hk]) fun hs => h.stored hx hs
    have hall := (hset.transferAll l.ports).take (L := L) (by rw [transferAll_letters]; exact hL)
    have hpipe : x.1.pipe < ((N.set x a').transferAll l.ports).pipes := by
      rw [transferAll_pipes]
      exact h.pipe_lt hx
    refine hall.post ⟨hpipe, ?_⟩ (by simp)
    exact (h.proxy hx (by simp [hk])).trans_le (len_le_transferAll (N := N.set x a') _)
  -- What is announced, or told, is told to the port that the proxy was sent to.
  | @portAccepted x a E he hx hk =>
    have hset : ((N.withEvents E).set x { a with kind := .proxying }).Shape :=
      (h.consume he).set hx (by simp [hk]) (by simp) (by simp) fun hs => h.stored hx hs
    have hpass : N.Passed x := ⟨h.pipe_lt hx, h.proxy hx (by simp [hk])⟩
    refine hset.emit ?_
    split_ifs
    · exact hpass.succ_used
    · exact ⟨rfl, hpass.succ_used, hpass⟩
  | @remove x a hx hk _ _ =>
    have herase := h.erase ⟨h.pipe_lt hx, h.proxy hx (by simp [hk])⟩
    split_ifs with hs
    · exact herase.emit (h.stored hx hs)
    · exact herase
  | @redirect e a E he hp _ hlt =>
    exact ((h.consume he).redirect (h.pipe_lt hp) hlt).emit ⟨h.pipe_lt (x := (e, N.len e)) hp, hlt⟩
  | store he hx hk =>
    exact (h.consume he).set hx rfl (Kind.ne_transit hk) (by simp [hk])
      fun _ => (h.placed he).2.2
  | @proxyPass d x a E he hx hk hne =>
    obtain ⟨h1, h2, h3⟩ := h.placed he
    exact (h.consume he).emit ⟨(peer_pipe d).trans h1, h.peer_used h2, h3⟩
  | ackRetry he hx hk =>
    have hp := h.placed he
    exact (h.consume he).emit ⟨rfl, hp.succ_used, hp⟩
  | ackAccept he _ hx hk =>
    exact (h.consume he).set hx rfl (by simp [hk]) (by simp [hk]) fun hs => h.stored hx hs
  | @closureReceive e a last E he hp hk =>
    have hset : ((N.withEvents E).set (e, N.len e)
        { a with peerClosed := true, last := last }).Shape :=
      (h.consume he).set hp rfl (by simp [hk]) (fun _ => (h.live hp (by simp [hk])).2) fun hs => h.stored hp hs
    exact hset.emit ⟨h.pipe_lt (x := (e, N.len e)) hp, h.toward_le e⟩
  | @closurePass x a last E he hx hk =>
    have hset : ((N.withEvents E).set x
        { a with peerClosed := true, remove := true, last := last }).Shape :=
      (h.consume he).set hx rfl (Kind.ne_transit hk) (by simp [hk]) fun hs => h.stored hx hs
    exact hset.emit (Passed.succ_used ⟨h.pipe_lt hx, h.proxy hx hk⟩)
  | drop he _ _ => exact h.consume he
  | close hp hk hH => exact h.close hp _

/-- A loss preserves the shape of a net. -/
theorem loss (h : N.Shape) (hs : Loss N N') : N'.Shape := by
  cases hs with
  | lose S => exact h.lose S
  | loseEvent he => exact h.consume he

end Shape

end MojoEdk.Ports.Net
