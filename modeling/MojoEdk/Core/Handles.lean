import MojoEdk.Core.HandleTable
import MojoEdk.Library.Machine

/-!
# New handles

Handles are given out in order, and never twice, until there are none left
(`handle_table.cc`): a table is then full for good.

`AddDispatchersFromTransit` is to give handles to all dispatchers or to none of them. That
there are enough handles left is checked with a sum of 64 bits, which does not overflow
when the handles do: some dispatchers get the first handles again, and one gets
`MOJO_HANDLE_INVALID` (`not_correct`). The handles are right exactly as long as no list of
dispatchers is longer than what is left (`correct_iff_fits`).
-/

namespace MojoEdk.Core

variable {P H : Type}

/-- A handle table, with the handles that were given out, in order. -/
structure Handles (P H : Type) where
  table : HandleTable P H := {}
  given : List ℕ := []

namespace Handles

/-- A call on a handle table. -/
inductive Call (P H : Type)
  | addDispatcher (d : Dispatcher P H)
  | addDispatchersFromTransit (ds : List (Dispatcher P H))
  | getAndRemoveDispatcher (handle : ℕ)
  | beginTransit (handles : List ℕ)
  | completeTransitAndClose (ds : List DispatcherInTransit)
  | cancelTransit (ds : List DispatcherInTransit)

def step (s : Handles P H) : Call P H → Option (Handles P H)
  | .addDispatcher d =>
    let (handle, table) := s.table.addDispatcher d
    some ⟨table, if handle = MOJO_HANDLE_INVALID then s.given else s.given ++ [handle]⟩
  | .addDispatchersFromTransit ds =>
    let (_, handles, table) := s.table.addDispatchersFromTransit ds
    some ⟨table, s.given ++ handles⟩
  | .getAndRemoveDispatcher handle =>
    some { s with table := (s.table.getAndRemoveDispatcher handle).2.2 }
  | .beginTransit handles => some { s with table := (HandleTable.beginTransit handles s.table []).2.2 }
  | .completeTransitAndClose ds =>
    (s.table.completeTransitAndClose ds).map fun table => { s with table := table }
  | .cancelTransit ds => (s.table.cancelTransit ds).map fun table => { s with table := table }

def machine (P H : Type) : Machine (Handles P H) (Call P H) where
  init := {}
  step := step

/-- All dispatchers of a list get handles, which stand for them, or the table does not change. -/
def AllOrNothing (t : HandleTable P H) (ds : List (Dispatcher P H)) : Prop :=
  match t.addDispatchersFromTransit ds with
  | (true, handles, t') => handles.length = ds.length ∧
      ∀ (i handle : ℕ) (d : Dispatcher P H), handles[i]? = some handle → ds[i]? = some d →
        ∃ o, t'.handles handle = some ⟨o, false⟩ ∧ t'.dispatchers o = d
  | (false, _, t') => t' = t

/-- A call gives out no handle that is invalid, or that was given out before. -/
structure Correct (s : Handles P H) (c : Call P H) (s' : Handles P H) : Prop where
  valid : ∀ handle ∈ s'.given, handle ≠ MOJO_HANDLE_INVALID
  nodup : s'.given.Nodup
  allOrNothing : ∀ ds, c = .addDispatchersFromTransit ds → AllOrNothing s.table ds

/-- There are handles left for a list of dispatchers, or the call is refused: it finds none, or
    the sum overflows. -/
def Fits (t : HandleTable P H) (ds : List (Dispatcher P H)) : Prop :=
  t.nextAvailableHandle = MOJO_HANDLE_INVALID ∨ t.nextAvailableHandle + ds.length ≤ 2 ^ 32 ∨
    (t.nextAvailableHandle + ds.length) % 2 ^ 64 < t.nextAvailableHandle

/-- What handles were given out. -/
structure Inv (s : Handles P H) : Prop where
  next_lt : s.table.nextAvailableHandle < 2 ^ 32
  valid : ∀ handle ∈ s.given, handle ≠ MOJO_HANDLE_INVALID
  lt : ∀ handle ∈ s.given, s.table.nextAvailableHandle ≠ MOJO_HANDLE_INVALID →
    handle < s.table.nextAvailableHandle
  nodup : s.given.Nodup
  entry : ∀ handle e, s.table.handles handle = some e → handle ∈ s.given

variable {s s' : Handles P H} {c : Call P H} {t t' : HandleTable P H} {ds : List (Dispatcher P H)}

theorem inv_init : Inv ({} : Handles P H) where
  next_lt := Nat.one_lt_two_pow (by decide)
  valid _ h := by cases h
  lt _ h := by cases h
  nodup := List.nodup_nil
  entry _ _ h := by cases h

/-! ## New handles -/

/-- The handles of a list of dispatchers are the next ones, and wrap. -/
theorem insertAll_fst (ds : List (Dispatcher P H)) (h : t.nextAvailableHandle < 2 ^ 32) :
    (t.insertAll ds).1 =
      (List.range ds.length).map fun i => (t.nextAvailableHandle + i) % 2 ^ 32 := by
  induction ds generalizing t with
  | nil => rfl
  | cons d ds ih =>
    rw [List.length_cons, List.range_succ_eq_map, List.map_cons, List.map_map, Nat.add_zero,
      Nat.mod_eq_of_lt h]
    refine congrArg (t.nextAvailableHandle :: ·)
      ((ih (t := t.insert d) (Nat.mod_lt _ (by decide))).trans ?_)
    refine List.map_congr_left fun i _ => ?_
    simp only [HandleTable.insert, Function.comp, Nat.mod_add_mod, Nat.succ_eq_add_one,
      Nat.add_assoc, Nat.add_comm 1 i]

/-- What it means that handles are left for a list of dispatchers. -/
structure Inserted (ds : List (Dispatcher P H)) (t t' : HandleTable P H) : Prop where
  next : t'.nextAvailableHandle = (t.nextAvailableHandle + ds.length) % 2 ^ 32
  entry : ∀ i < ds.length,
    t'.handles (t.nextAvailableHandle + i) = some ⟨t.numDispatchers + i, false⟩
  other : ∀ handle, handle < t.nextAvailableHandle ∨ t.nextAvailableHandle + ds.length ≤ handle →
    t'.handles handle = t.handles handle
  dispatcher : ∀ (i : ℕ) d, ds[i]? = some d → t'.dispatchers (t.numDispatchers + i) = d
  old : ∀ o < t.numDispatchers, t'.dispatchers o = t.dispatchers o

theorem inserted_insertAll (hlt : t.nextAvailableHandle < 2 ^ 32)
    (hfits : t.nextAvailableHandle + ds.length ≤ 2 ^ 32)
    (hfresh : ∀ handle, t.nextAvailableHandle ≤ handle → t.handles handle = none) :
    Inserted ds t (t.insertAll ds).2 := by
  induction ds generalizing t with
  | nil =>
    exact ⟨(Nat.mod_eq_of_lt hlt).symm, by simp, fun _ _ => rfl, by simp, fun _ _ => rfl⟩
  | cons d ds ih =>
    have hnone := hfresh _ le_rfl
    have hself : (t.insert d).handles t.nextAvailableHandle = some ⟨t.numDispatchers, false⟩ := by
      simp only [HandleTable.insert, Function.update_self, hnone, Option.none_or]
    have hother : ∀ handle, handle ≠ t.nextAvailableHandle →
        (t.insert d).handles handle = t.handles handle := fun handle hne =>
      Function.update_of_ne hne _ _
    change Inserted (d :: ds) t ((t.insert d).insertAll ds).2
    cases ds with
    | nil =>
      -- This may be the last handle.
      refine ⟨rfl, fun i hi => ?_, fun handle hh => hother handle ?_, fun i d' hd => ?_,
        fun o ho => Function.update_of_ne ho.ne _ _⟩
      · obtain rfl : i = 0 := Nat.lt_one_iff.1 hi
        exact hself
      · rw [List.length_singleton] at hh
        omega
      · obtain ⟨rfl, rfl⟩ : i = 0 ∧ d = d' := by
          cases i with
          | zero => exact ⟨rfl, Option.some.inj hd⟩
          | succ i => cases hd
        exact Function.update_self _ _ _
    | cons d' ds =>
      rw [List.length_cons, List.length_cons] at hfits
      have hnext : (t.insert d).nextAvailableHandle = t.nextAvailableHandle + 1 :=
        Nat.mod_eq_of_lt (by omega)
      have hrest := ih (t := t.insert d) (by omega) (by rw [hnext, List.length_cons]; omega)
        fun handle hh => (hother handle (by omega)).trans (hfresh handle (by omega))
      refine ⟨?_, fun i hi => ?_, fun handle hh => ?_, fun i d' hd => ?_, fun o ho => ?_⟩
      · rw [hrest.next, hnext, List.length_cons (a := d), Nat.add_assoc, Nat.add_comm 1]
      · cases i with
        | zero => exact (hrest.other _ (.inl (by rw [hnext]; omega))).trans hself
        | succ i =>
          have hentry := hrest.entry i (Nat.lt_of_succ_lt_succ hi)
          rw [hnext] at hentry
          rw [← Nat.succ_add_eq_add_succ, hentry]
          change some (Entry.mk (t.numDispatchers + 1 + i) false) = _
          rw [Nat.succ_add_eq_add_succ]
      · rw [List.length_cons] at hh
        rw [hrest.other handle (by omega), hother handle (by omega)]
      · cases i with
        | zero =>
          obtain rfl := Option.some.inj hd
          exact (hrest.old _ (Nat.lt_succ_self _)).trans (Function.update_self _ _ _)
        | succ i =>
          rw [← Nat.succ_add_eq_add_succ]
          exact hrest.dispatcher i d' hd
      · exact (hrest.old o (Nat.lt_succ_of_lt ho)).trans (Function.update_of_ne ho.ne _ _)

/-- The handles of a list of dispatchers, if they are left. -/
theorem mem_insertAll_iff (hlt : t.nextAvailableHandle < 2 ^ 32)
    (hfits : t.nextAvailableHandle + ds.length ≤ 2 ^ 32) {handle : ℕ} :
    handle ∈ (t.insertAll ds).1 ↔
      t.nextAvailableHandle ≤ handle ∧ handle < t.nextAvailableHandle + ds.length := by
  rw [insertAll_fst ds hlt, List.mem_map]
  constructor
  · rintro ⟨i, hi, rfl⟩
    rw [List.mem_range] at hi
    rw [Nat.mod_eq_of_lt (by omega)]
    omega
  · rintro ⟨hle, hlt'⟩
    refine ⟨handle - t.nextAvailableHandle, List.mem_range.2 (by omega), ?_⟩
    rw [Nat.add_sub_cancel' hle, Nat.mod_eq_of_lt (by omega)]

theorem nodup_insertAll (hlt : t.nextAvailableHandle < 2 ^ 32)
    (hfits : t.nextAvailableHandle + ds.length ≤ 2 ^ 32) : (t.insertAll ds).1.Nodup := by
  rw [insertAll_fst ds hlt]
  refine List.Nodup.map_on (fun i hi j hj heq => ?_) List.nodup_range
  rw [List.mem_range] at hi hj
  rw [Nat.mod_eq_of_lt (by omega), Nat.mod_eq_of_lt (by omega)] at heq
  omega

/-! ## The invariant -/

theorem Inv.fresh (hs : Inv s) (hnext : s.table.nextAvailableHandle ≠ MOJO_HANDLE_INVALID)
    (handle : ℕ) (hle : s.table.nextAvailableHandle ≤ handle) : s.table.handles handle = none := by
  by_contra hne
  obtain ⟨e, he⟩ := Option.ne_none_iff_exists'.1 hne
  exact absurd (hs.lt handle (hs.entry handle e he) hnext) (not_lt.2 hle)

theorem Inv.insertAll (hs : Inv s) (hnext : s.table.nextAvailableHandle ≠ MOJO_HANDLE_INVALID)
    (hfits : s.table.nextAvailableHandle + ds.length ≤ 2 ^ 32) :
    Inv ⟨(s.table.insertAll ds).2, s.given ++ (s.table.insertAll ds).1⟩ := by
  have hspec := inserted_insertAll hs.next_lt hfits (hs.fresh hnext)
  have hmem : ∀ {handle}, handle ∈ (s.table.insertAll ds).1 ↔ _ :=
    mem_insertAll_iff hs.next_lt hfits
  refine ⟨?_, fun handle hh => ?_, fun handle hh hne => ?_, ?_, fun handle e he => ?_⟩
  · rw [hspec.next]
    exact Nat.mod_lt _ (by decide)
  · rcases List.mem_append.1 hh with hh | hh
    · exact hs.valid handle hh
    · exact (Nat.pos_of_ne_zero hnext |>.trans_le (hmem.1 hh).1).ne'
  · simp only [hspec.next] at hne ⊢
    have hlt : s.table.nextAvailableHandle + ds.length < 2 ^ 32 := by
      refine lt_of_le_of_ne hfits fun heq => hne ?_
      rw [heq, Nat.mod_self]
      rfl
    rw [Nat.mod_eq_of_lt hlt]
    rcases List.mem_append.1 hh with hh | hh
    · exact Nat.lt_add_right _ (hs.lt handle hh hnext)
    · exact (hmem.1 hh).2
  · refine List.nodup_append.2 ⟨hs.nodup, nodup_insertAll hs.next_lt hfits, ?_⟩
    rintro handle hh handle' hh' rfl
    exact absurd (hs.lt handle hh hnext) (not_lt.2 (hmem.1 hh').1)
  · rw [List.mem_append, hmem]
    by_cases hin : s.table.nextAvailableHandle ≤ handle ∧
        handle < s.table.nextAvailableHandle + ds.length
    · exact .inr hin
    · refine .inl (hs.entry handle e ?_)
      rw [← hspec.other handle (by omega)]
      exact he

/-- A call that gives out no handle, and adds no entry. -/
theorem Inv.of_entries (hs : Inv s) (hnext : t'.nextAvailableHandle = s.table.nextAvailableHandle)
    (hentry : ∀ handle, s.table.handles handle = none → t'.handles handle = none) :
    Inv { s with table := t' } where
  next_lt := hnext.trans_lt hs.next_lt
  valid := hs.valid
  lt handle hh hne := hnext ▸ hs.lt handle hh (hnext ▸ hne)
  nodup := hs.nodup
  entry handle e he := by
    cases hold : s.table.handles handle with
    | none => exact nomatch (hentry handle hold).symm.trans he
    | some e' => exact hs.entry handle e' hold

theorem getAndRemoveDispatcher_eq (t : HandleTable P H) (handle : ℕ) :
    (t.getAndRemoveDispatcher handle).2.2 = t ∨ (t.getAndRemoveDispatcher handle).2.2 =
      { t with handles := Function.update t.handles handle none } := by
  rw [HandleTable.getAndRemoveDispatcher]
  split
  next => exact .inl rfl
  next => split_ifs <;> simp

/-- No entry is new when a transit ends. -/
theorem endTransit_entries {call : Dispatcher P H → Option (Dispatcher P H)}
    {leave : Entry → Option Entry} {ds : List DispatcherInTransit}
    (h : HandleTable.endTransit call leave ds t = some t') :
    t'.nextAvailableHandle = t.nextAvailableHandle ∧
      ∀ handle, t.handles handle = none → t'.handles handle = none := by
  induction ds generalizing t with
  | nil =>
    obtain rfl := Option.some.inj h
    exact ⟨rfl, fun _ h => h⟩
  | cons d ds ih =>
    rw [HandleTable.endTransit] at h
    split at h
    next => cases h
    next e he =>
      split_ifs at h
      obtain ⟨x, -, h⟩ := Option.bind_eq_some_iff.1 h
      obtain ⟨hnext, hentry⟩ := ih h
      refine ⟨hnext, fun handle hh => hentry handle ?_⟩
      have hne : handle ≠ d.localHandle := by
        rintro rfl
        cases hh.symm.trans he
      exact (Function.update_of_ne hne _ _).trans hh

/-- The calls other than those that add dispatchers. -/
theorem Inv.step_of_given (hs : Inv s) (h : s.step c = some s')
    (hc : ∀ d, c ≠ .addDispatcher d) (hc' : ∀ ds, c ≠ .addDispatchersFromTransit ds) :
    Inv s' ∧ s'.given = s.given := by
  cases c with
  | addDispatcher d => exact absurd rfl (hc d)
  | addDispatchersFromTransit ds => exact absurd rfl (hc' ds)
  | getAndRemoveDispatcher handle =>
    obtain rfl := Option.some.inj h
    refine ⟨?_, rfl⟩
    rcases getAndRemoveDispatcher_eq s.table handle with heq | heq
    · exact hs.of_entries (by rw [heq]) fun handle' hh => by rw [heq, hh]
    · refine hs.of_entries (by rw [heq]) fun handle' hh => ?_
      rw [heq]
      simp only [Function.update_apply, hh, ite_self]
  | beginTransit handles =>
    obtain rfl := Option.some.inj h
    obtain ⟨new, t', hbegan, heq, -⟩ := HandleTable.beginTransit_spec handles s.table []
    refine ⟨hs.of_entries ?_ fun handle hh => ?_, rfl⟩
    · rw [heq]
      exact hbegan.nextAvailableHandle
    · rw [heq]
      change t'.handles handle = none
      rw [hbegan.handles, hh, Option.map_none, ite_self]
  | completeTransitAndClose ds =>
    obtain ⟨t', ht', rfl⟩ := Option.map_eq_some_iff.1 h
    obtain ⟨hnext, hentry⟩ := endTransit_entries ht'
    exact ⟨hs.of_entries hnext hentry, rfl⟩
  | cancelTransit ds =>
    obtain ⟨t', ht', rfl⟩ := Option.map_eq_some_iff.1 h
    obtain ⟨hnext, hentry⟩ := endTransit_entries ht'
    exact ⟨hs.of_entries hnext hentry, rfl⟩

theorem Inv.addDispatcher (hs : Inv s) {d : Dispatcher P H}
    (h : s.step (.addDispatcher d) = some s') : Inv s' := by
  rw [Handles.step, HandleTable.addDispatcher] at h
  split_ifs at h with hnext
  · obtain rfl := Option.some.inj h
    exact hs
  · simp only [if_neg hnext] at h
    obtain rfl := Option.some.inj h
    have hfits : s.table.nextAvailableHandle + [d].length ≤ 2 ^ 32 := Nat.succ_le_of_lt hs.next_lt
    exact hs.insertAll hnext hfits

/-- A list of dispatchers for which handles are left. -/
theorem Inv.addDispatchersFromTransit (hs : Inv s)
    (h : s.step (.addDispatchersFromTransit ds) = some s') (hfits : Fits s.table ds) :
    Inv s' ∧ AllOrNothing s.table ds := by
  rw [Handles.step, HandleTable.addDispatchersFromTransit] at h
  rw [AllOrNothing, HandleTable.addDispatchersFromTransit]
  split_ifs at h ⊢ with hnext hover
  · simp only [List.append_nil] at h
    obtain rfl := Option.some.inj h
    exact ⟨hs, rfl⟩
  · simp only [List.append_nil] at h
    obtain rfl := Option.some.inj h
    exact ⟨hs, rfl⟩
  · obtain rfl := Option.some.inj h
    obtain hle := (hfits.resolve_left hnext).resolve_right hover
    have hspec := inserted_insertAll hs.next_lt hle (hs.fresh hnext)
    refine ⟨hs.insertAll hnext hle, ?_, fun i handle d hi hd => ?_⟩
    · rw [insertAll_fst ds hs.next_lt, List.length_map, List.length_range]
    · have hlt : i < ds.length := (List.getElem?_eq_some_iff.1 hd).1
      rw [insertAll_fst ds hs.next_lt, List.getElem?_map, List.getElem?_range hlt] at hi
      obtain rfl := Option.some.inj hi
      change ∃ o, (s.table.insertAll ds).2.handles ((s.table.nextAvailableHandle + i) % 2 ^ 32) = _ ∧ _
      rw [Nat.mod_eq_of_lt (by omega)]
      exact ⟨_, hspec.entry i hlt, hspec.dispatcher i d hd⟩

/-- A list of dispatchers that is longer than what is left: one of the handles is invalid. -/
theorem Inv.invalid_mem (hs : Inv s) (h : s.step (.addDispatchersFromTransit ds) = some s')
    (hfits : ¬Fits s.table ds) : MOJO_HANDLE_INVALID ∈ s'.given := by
  obtain ⟨hnext, hlong, hover⟩ := not_or.1 hfits |>.imp_right not_or.1
  rw [Handles.step, HandleTable.addDispatchersFromTransit, if_neg hnext, if_neg hover] at h
  obtain rfl := Option.some.inj h
  refine List.mem_append_right _ ?_
  rw [insertAll_fst ds hs.next_lt, List.mem_map]
  have hlt := hs.next_lt
  refine ⟨2 ^ 32 - s.table.nextAvailableHandle, List.mem_range.2 (by omega), ?_⟩
  rw [Nat.add_sub_cancel' hlt.le]
  exact Nat.mod_self _

/-! ## Sequences of calls -/

/-- Handles are left for what is added to the table. -/
def FitsCall (s : Handles P H) (c : Call P H) : Prop :=
  ∀ ds, c = .addDispatchersFromTransit ds → Fits s.table ds

theorem Inv.step (hs : Inv s) (h : s.step c = some s') (hfits : s.FitsCall c) : Inv s' := by
  cases c with
  | addDispatcher d => exact hs.addDispatcher h
  | addDispatchersFromTransit ds => exact (hs.addDispatchersFromTransit h (hfits ds rfl)).1
  | getAndRemoveDispatcher | beginTransit | completeTransitAndClose | cancelTransit =>
    exact (hs.step_of_given h (by simp) (by simp)).1

theorem Inv.correct_iff (hs : Inv s) (h : s.step c = some s') :
    Correct s c s' ↔ s.FitsCall c := by
  constructor
  · rintro hc ds rfl
    by_contra hfits
    exact hc.valid _ (hs.invalid_mem h hfits) rfl
  · intro hfits
    have hs' := hs.step h hfits
    refine ⟨hs'.valid, hs'.nodup, ?_⟩
    rintro ds rfl
    exact (hs.addDispatchersFromTransit h (hfits ds rfl)).2

/-- In a sequence of calls, all handles are valid and new, and all lists of dispatchers get them
    or are refused, exactly if no list is longer than what is left. -/
theorem correct_iff_fits (calls : List (Call P H)) :
    (machine P H).Every Correct {} calls ↔
      (machine P H).Every (fun s c _ => s.FitsCall c) {} calls :=
  Machine.every_congr (M := machine P H) (fun hs h => hs.correct_iff h)
    (fun hs hfits h => hs.step h hfits) inv_init calls

/-- Handles are given out one by one. -/
theorem Inv.exec_replicate (hs : Inv s) (d : Dispatcher P H) {n : ℕ}
    (hpos : 0 < s.table.nextAvailableHandle) (hlt : s.table.nextAvailableHandle + n < 2 ^ 32) :
    ∃ s', (machine P H).exec Machine.Any s (List.replicate n (.addDispatcher d)) = some s' ∧
      s'.table.nextAvailableHandle = s.table.nextAvailableHandle + n ∧ Inv s' := by
  induction n generalizing s with
  | zero => exact ⟨s, rfl, rfl, hs⟩
  | succ n ih =>
    have hstep : s.step (.addDispatcher d) =
        some ⟨s.table.insert d, s.given ++ [s.table.nextAvailableHandle]⟩ := by
      have hvalid : s.table.nextAvailableHandle ≠ MOJO_HANDLE_INVALID := hpos.ne'
      simp only [Handles.step, HandleTable.addDispatcher, if_neg hvalid]
    have hnext : (s.table.insert d).nextAvailableHandle = s.table.nextAvailableHandle + 1 :=
      Nat.mod_eq_of_lt (by omega)
    obtain ⟨s', hs', hnext', hinv⟩ := ih (hs.addDispatcher hstep) (by simp [hnext])
      (by simp only [hnext]; omega)
    refine ⟨s', ?_, ?_, hinv⟩
    · rw [List.replicate_succ, Machine.exec, if_pos (by trivial),
        show (machine P H).step s (.addDispatcher d) = _ from hstep]
      exact hs'
    · rw [hnext', hnext, Nat.add_assoc, Nat.add_comm 1]

/-- One handle is left, and a message with two handles is read. -/
theorem not_correct : ¬(machine ℕ ℕ).Every Correct {}
    (List.replicate 4294967294 (.addDispatcher (.waitSet false)) ++
      [.addDispatchersFromTransit [.messagePipe { port := 1, pipeId := 2, endpoint := 0 },
        .messagePipe { port := 3, pipeId := 4, endpoint := 0 }]]) := by
  intro h
  obtain ⟨s, hs, hnext, hinv⟩ := inv_init.exec_replicate (P := ℕ) (H := ℕ) (.waitSet false)
    (n := 4294967294) Nat.one_pos (by decide)
  have hlt : s.table.nextAvailableHandle = 4294967295 := hnext
  obtain ⟨hcorrect, -⟩ := h.of_exec hs ⟨_, _⟩ rfl
  have hfits := (hinv.correct_iff rfl).1 hcorrect _ rfl
  rw [Fits, hlt] at hfits
  exact absurd hfits (by decide)

end Handles

end MojoEdk.Core
