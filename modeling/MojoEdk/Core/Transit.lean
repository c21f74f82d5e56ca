import MojoEdk.Core.HandleTable
import MojoEdk.Library.Machine

/-!
# Handles in transit

The calls that use the handle table of a process (`core.cc`), in any order of their
critical sections. `Core::WriteMessage` with handles has two of them: in the first one
the handles are put in transit, or none of them if one cannot be, and in the second
one they are removed or made available again, depending on whether the message was
sent. Other calls see the entries that are busy in between.

An entry is busy exactly if it belongs to a `WriteMessage` in progress, and then to one
only (`CoreState.Inv`).

What else happens to a dispatcher is arbitrary, but does not change whether it is in
transit. Received dispatchers are added to the table all at once, which is restricted
to handles that are left.
-/

namespace MojoEdk.Core

variable {P H : Type}

/-- A `WriteMessage` between its critical sections, and the entries of the table before
    the first one. -/
structure WriteInProgress where
  dispatchers : List DispatcherInTransit
  before : ℕ → Option Entry

/-- `Core`, and its calls in progress. -/
structure CoreState (P H : Type) where
  table : HandleTable P H := {}
  writing : ℕ → Option WriteInProgress := fun _ => none
  /-- The dispatchers that `Close` removed from the table and will close. -/
  closing : List ℕ := []
  /-- The handles that were closed, unwrapped or transferred. -/
  removed : List ℕ := []

namespace CoreState

/-- The critical sections, and what happens outside of them. Calls of `WriteMessage`
    are numbered. -/
inductive Input (P H : Type)
  /-- `AddDispatcher` of a new dispatcher. -/
  | addDispatcher (d : Dispatcher P H)
  /-- `AddDispatchersFromTransit` of new dispatchers. -/
  | addDispatchersFromTransit (ds : List (Dispatcher P H))
  /-- The first section of `WriteMessage`. -/
  | beginWrite (call : ℕ) (handles : List ℕ)
  /-- The second section of `WriteMessage`, after the dispatcher of the pipe
      returned. -/
  | endWrite (call : ℕ) (rv : MojoResult)
  /-- The section of `Close`. -/
  | close (handle : ℕ)
  /-- The end of `Close`. -/
  | closeDispatcher (o : ℕ)
  | passWrappedPlatformHandle (handle : ℕ)
  /-- A call on a dispatcher. -/
  | call (o : ℕ) (d : Dispatcher P H)

/-- `PassPlatformHandle` and `Close` of a dispatcher that is a wrapper. -/
def pass (d : Dispatcher P H) : Dispatcher P H :=
  match d with
  | .platformHandle w => (Dispatcher.close (.platformHandle { w with platformHandle := none })).2
  | d => d

def step (s : CoreState P H) : Input P H → Option (CoreState P H)
  | .addDispatcher d =>
    if d.inTransit then none else some { s with table := (s.table.addDispatcher d).2 }
  | .addDispatchersFromTransit ds =>
    if ds.any (·.inTransit) then none
    else some { s with table := (s.table.addDispatchersFromTransit ds).2.2 }
  | .beginWrite call handles =>
    if (s.writing call).isSome then none
    else
      match HandleTable.beginTransit handles s.table [] with
      | (.ok, ds, table) => some { s with
          table := table
          writing := Function.update s.writing call (some ⟨ds, s.table.handles⟩) }
      | (_, ds, table) => (table.cancelTransit ds).map fun table => { s with table := table }
  | .endWrite call rv =>
    (s.writing call).bind fun w =>
      if rv = .ok then
        (s.table.completeTransitAndClose w.dispatchers).map fun table => { s with
          table := table
          writing := Function.update s.writing call none
          removed := s.removed ++ w.dispatchers.map (·.localHandle) }
      else
        (s.table.cancelTransit w.dispatchers).map fun table => { s with
          table := table
          writing := Function.update s.writing call none }
  | .close handle =>
    match s.table.getAndRemoveDispatcher handle with
    | (_, some o, table) => some { s with
        table := table, closing := o :: s.closing, removed := s.removed ++ [handle] }
    | (_, none, _) => some s
  | .closeDispatcher o =>
    -- `Close` is called without the lock of the table, when the handle is gone.
    if o ∈ s.closing then
      some { s with
        table := { s.table with
          dispatchers := Function.update s.table.dispatchers o (s.table.dispatchers o).close.2 }
        closing := s.closing.erase o }
    else none
  | .passWrappedPlatformHandle handle =>
    match s.table.getAndRemoveDispatcher handle with
    | (_, some o, table) => some { s with
        table := { table with
          dispatchers := Function.update table.dispatchers o (pass (table.dispatchers o)) }
        removed := s.removed ++ [handle] }
    | (_, none, _) => some s
  | .call o d =>
    -- Other calls do not touch the flag.
    if d.inTransit = (s.table.dispatchers o).inTransit then
      some { s with table := { s.table with
        dispatchers := Function.update s.table.dispatchers o d } }
    else none

def machine (P H : Type) : Machine (CoreState P H) (Input P H) where
  init := {}
  step := step

/-- Handles are left for what is added to the table. -/
def HandlesLeft (s : CoreState P H) : Input P H → Prop
  | .addDispatchersFromTransit ds => s.table.nextAvailableHandle + ds.length ≤ 2 ^ 32
  | _ => True

/-! ## The invariant -/

/-- What holds of the table at any time. -/
structure TableInv (t : HandleTable P H) : Prop where
  next_lt : t.nextAvailableHandle < 2 ^ 32
  handle_lt : ∀ {handle e}, t.handles handle = some e → t.nextAvailableHandle ≠ 0 →
    handle < t.nextAvailableHandle
  dispatcher_lt : ∀ {handle e}, t.handles handle = some e → e.dispatcher < t.numDispatchers
  injective : ∀ {handle handle' e e'}, t.handles handle = some e → t.handles handle' = some e' →
    e.dispatcher = e'.dispatcher → handle = handle'
  inTransit : ∀ {handle e}, t.handles handle = some e →
    (t.dispatchers e.dispatcher).inTransit = e.busy

/-- The entries that are busy belong to the calls of `WriteMessage` in progress. -/
structure Inv (s : CoreState P H) : Prop where
  table : TableInv s.table
  nodup : ∀ {call w}, s.writing call = some w → (w.dispatchers.map (·.localHandle)).Nodup
  entry : ∀ {call w}, s.writing call = some w → ∀ d ∈ w.dispatchers,
    s.table.handles d.localHandle = some ⟨d.dispatcher, true⟩ ∧
      w.before d.localHandle = some ⟨d.dispatcher, false⟩
  unique : ∀ {call call' w w'}, s.writing call = some w → s.writing call' = some w' →
    ∀ d ∈ w.dispatchers, ∀ d' ∈ w'.dispatchers, d.localHandle = d'.localHandle → call = call'
  busy : ∀ {handle o}, s.table.handles handle = some ⟨o, true⟩ →
    ∃ call w, s.writing call = some w ∧ ∃ d ∈ w.dispatchers, d.localHandle = handle
  removed : ∀ handle ∈ s.removed, s.table.handles handle = none ∧
    (s.table.nextAvailableHandle ≠ 0 → handle < s.table.nextAvailableHandle)
  nodup_removed : s.removed.Nodup

variable {s s' : CoreState P H} {t t' : HandleTable P H}

theorem inv_init : Inv ({} : CoreState P H) := by
  refine ⟨⟨Nat.one_lt_two_pow (by decide), ?_, ?_, ?_, ?_⟩, ?_, ?_, ?_, ?_, ?_, List.nodup_nil⟩
  · exact fun h => by cases h
  · exact fun h => by cases h
  · exact fun h => by cases h
  · exact fun h => by cases h
  · exact fun h => by cases h
  · exact fun h => by cases h
  · exact fun h => by cases h
  · exact fun h => by cases h
  · exact fun _ h => by cases h

/-! ### Adding dispatchers -/

theorem handles_insert (d : Dispatcher P H) {handle : ℕ} {e : Entry}
    (h : (t.insert d).handles handle = some e) :
    (handle = t.nextAvailableHandle ∧ e = ⟨t.numDispatchers, false⟩) ∨
      t.handles handle = some e := by
  simp only [HandleTable.insert, Function.update_apply] at h
  split_ifs at h with heq
  · rw [Option.or_eq_some_iff] at h
    rcases h with h | ⟨-, h⟩
    · exact .inr (heq ▸ h)
    · exact .inl ⟨heq, (Option.some.inj h).symm⟩
  · exact .inr h

/-- The next handle, unless they are exhausted. -/
theorem next_insert (ht : TableInv t) (d : Dispatcher P H)
    (h : (t.insert d).nextAvailableHandle ≠ 0) :
    (t.insert d).nextAvailableHandle = t.nextAvailableHandle + 1 := by
  have hlt := ht.next_lt
  rw [HandleTable.insert] at h ⊢
  simp only at h ⊢
  omega

theorem TableInv.insert (ht : TableInv t) {d : Dispatcher P H} (hd : d.inTransit = false)
    (hnext : t.nextAvailableHandle ≠ 0) : TableInv (t.insert d) := by
  refine ⟨Nat.mod_lt _ (by decide), fun h hne => ?_, fun h => ?_, fun h h' heq => ?_, fun h => ?_⟩
  · rw [next_insert ht d hne]
    rcases handles_insert d h with ⟨rfl, -⟩ | h
    · exact Nat.lt_succ_self _
    · exact Nat.lt_succ_of_lt (ht.handle_lt h hnext)
  · rcases handles_insert d h with ⟨-, rfl⟩ | h
    · exact Nat.lt_succ_self _
    · exact Nat.lt_succ_of_lt (ht.dispatcher_lt h)
  · rcases handles_insert d h with ⟨rfl, rfl⟩ | h
    · rcases handles_insert d h' with ⟨rfl, -⟩ | h'
      · rfl
      · exact absurd heq (ht.dispatcher_lt h').ne'
    · rcases handles_insert d h' with ⟨rfl, rfl⟩ | h'
      · exact absurd heq (ht.dispatcher_lt h).ne
      · exact ht.injective h h' heq
  · rcases handles_insert d h with ⟨rfl, rfl⟩ | h
    · simp only [HandleTable.insert, Function.update_self, hd]
    · simp only [HandleTable.insert, Function.update_of_ne (ht.dispatcher_lt h).ne]
      exact ht.inTransit h

theorem Inv.insert (hs : Inv s) {d : Dispatcher P H} (hd : d.inTransit = false)
    (hnext : s.table.nextAvailableHandle ≠ 0) : Inv { s with table := s.table.insert d } := by
  have hold {handle : ℕ} (hlt : handle < s.table.nextAvailableHandle) :
      (s.table.insert d).handles handle = s.table.handles handle :=
    Function.update_of_ne hlt.ne _ _
  refine ⟨hs.table.insert hd hnext, hs.nodup, fun h c hc => ?_, hs.unique, fun h => ?_,
    fun handle hh => ?_, hs.nodup_removed⟩
  · obtain ⟨hentry, hbefore⟩ := hs.entry h c hc
    exact ⟨(hold (hs.table.handle_lt hentry hnext)).trans hentry, hbefore⟩
  · rcases handles_insert d h with ⟨-, he⟩ | h
    · cases he
    · exact hs.busy h
  · obtain ⟨hnone, hlt⟩ := hs.removed handle hh
    refine ⟨(hold (hlt hnext)).trans hnone, fun hne => ?_⟩
    rw [next_insert hs.table d hne]
    exact Nat.lt_succ_of_lt (hlt hnext)

theorem Inv.foldl_insert (hs : Inv s) {ds : List (Dispatcher P H)}
    (hds : ∀ d ∈ ds, d.inTransit = false) (hnext : s.table.nextAvailableHandle ≠ 0)
    (hleft : s.table.nextAvailableHandle + ds.length ≤ 2 ^ 32) :
    Inv { s with table := ds.foldl HandleTable.insert s.table } := by
  induction ds generalizing s with
  | nil => exact hs
  | cons d ds ih =>
    have hs₁ := hs.insert (hds d List.mem_cons_self) hnext
    cases ds with
    | nil => exact hs₁
    | cons d' ds =>
      rw [List.length_cons, List.length_cons] at hleft
      have hne : (s.table.insert d).nextAvailableHandle ≠ 0 := by
        rw [HandleTable.insert]
        simp only
        omega
      refine ih hs₁ (fun c hc => hds c (List.mem_cons_of_mem d hc)) hne ?_
      simp only [next_insert hs.table d hne, List.length_cons]
      omega

/-! ### Removing dispatchers, and changing them -/

theorem Inv.remove (hs : Inv s) {handle o : ℕ} (h : s.table.handles handle = some ⟨o, false⟩) :
    Inv { s with
      table := { s.table with handles := Function.update s.table.handles handle none }
      removed := s.removed ++ [handle] } := by
  have hold {handle' : ℕ} {e : Entry}
      (h' : Function.update s.table.handles handle none handle' = some e) :
      s.table.handles handle' = some e := by
    rw [Function.update_apply] at h'
    split_ifs at h'
    exact h'
  refine ⟨⟨hs.table.next_lt, fun h => hs.table.handle_lt (hold h),
    fun h => hs.table.dispatcher_lt (hold h), fun h h' => hs.table.injective (hold h) (hold h'),
    fun h => hs.table.inTransit (hold h)⟩, hs.nodup, fun hw d hd => ?_, hs.unique,
    fun h => hs.busy (hold h), fun handle' hh => ?_, ?_⟩
  · obtain ⟨hentry, hbefore⟩ := hs.entry hw d hd
    have hne : d.localHandle ≠ handle := by
      rintro rfl
      rw [h] at hentry
      cases hentry
    exact ⟨(Function.update_of_ne hne _ _).trans hentry, hbefore⟩
  · rcases List.mem_append.1 hh with hh | hh
    · obtain ⟨hnone, hlt⟩ := hs.removed handle' hh
      refine ⟨?_, hlt⟩
      simp only [Function.update_apply, hnone, ite_self]
    · obtain rfl := List.mem_singleton.1 hh
      exact ⟨Function.update_self _ _ _, hs.table.handle_lt h⟩
  · refine List.nodup_append.2 ⟨hs.nodup_removed, List.nodup_singleton _, ?_⟩
    intro a ha b hb hab
    rw [List.mem_singleton.1 hb] at hab
    have hnone := (hs.removed a ha).1
    rw [hab, h] at hnone
    cases hnone

/-- What does not touch the entries, or whether dispatchers are in transit. -/
theorem Inv.of_inTransit_eq (hs : Inv s) (hhandles : t.handles = s.table.handles)
    (hnext : t.nextAvailableHandle = s.table.nextAvailableHandle)
    (hnum : t.numDispatchers = s.table.numDispatchers)
    (hdispatchers : ∀ o, (t.dispatchers o).inTransit = (s.table.dispatchers o).inTransit) :
    Inv { s with table := t } := by
  refine ⟨⟨?_, ?_, ?_, ?_, ?_⟩, hs.nodup, ?_, hs.unique, ?_, ?_, hs.nodup_removed⟩
  · exact hnext ▸ hs.table.next_lt
  · rw [hhandles, hnext]
    exact hs.table.handle_lt
  · rw [hhandles, hnum]
    exact hs.table.dispatcher_lt
  · rw [hhandles]
    exact hs.table.injective
  · intro handle e h
    rw [hdispatchers]
    exact hs.table.inTransit (hhandles ▸ h)
  · intro call w hw d hd
    rw [hhandles]
    exact hs.entry hw d hd
  · rw [hhandles]
    exact hs.busy
  · rw [hhandles, hnext]
    exact hs.removed

theorem Inv.setDispatcher (hs : Inv s) {o : ℕ} {d : Dispatcher P H}
    (hd : d.inTransit = (s.table.dispatchers o).inTransit) :
    Inv { s with table := { s.table with
      dispatchers := Function.update s.table.dispatchers o d } } := by
  refine hs.of_inTransit_eq rfl rfl rfl fun o' => ?_
  simp only [Function.update_apply]
  split_ifs with heq
  · rw [hd, heq]
  · rfl

/-! ### Beginning and ending transit -/

variable {ds : List DispatcherInTransit}

/-- An entry after dispatchers were put in transit. -/
theorem handles_began (h : HandleTable.Began ds t t') {handle : ℕ} {e : Entry}
    (he : t'.handles handle = some e) :
    (∃ d ∈ ds, d.localHandle = handle ∧ e = ⟨d.dispatcher, true⟩ ∧
      t.handles handle = some ⟨d.dispatcher, false⟩) ∨
      (handle ∉ ds.map (·.localHandle) ∧ t.handles handle = some e) := by
  rw [h.handles] at he
  split_ifs at he with hmem
  · obtain ⟨d, hd, rfl⟩ := List.mem_map.1 hmem
    rw [h.entry d hd] at he
    exact .inl ⟨d, hd, rfl, (Option.some.inj he).symm, h.entry d hd⟩
  · exact .inr ⟨hmem, he⟩

theorem TableInv.began (ht : TableInv t) (h : HandleTable.Began ds t t') : TableInv t' := by
  have hold {handle : ℕ} {e : Entry} (he : t'.handles handle = some e) :
      ∃ e', t.handles handle = some e' ∧ e'.dispatcher = e.dispatcher := by
    rcases handles_began h he with ⟨d, -, -, rfl, h⟩ | ⟨-, h⟩
    · exact ⟨_, h, rfl⟩
    · exact ⟨e, h, rfl⟩
  refine ⟨h.nextAvailableHandle ▸ ht.next_lt, fun he hne => ?_, fun he => ?_, fun he he' heq => ?_,
    fun he => ?_⟩
  · obtain ⟨e', he', -⟩ := hold he
    rw [h.nextAvailableHandle] at hne ⊢
    exact ht.handle_lt he' hne
  · obtain ⟨e', he', heq⟩ := hold he
    rw [h.numDispatchers, ← heq]
    exact ht.dispatcher_lt he'
  · obtain ⟨e₁, he₁, h₁⟩ := hold he
    obtain ⟨e₂, he₂, h₂⟩ := hold he'
    exact ht.injective he₁ he₂ (h₁.trans (heq.trans h₂.symm))
  · rcases handles_began h he with ⟨d, hd, -, rfl, -⟩ | ⟨hnot, he⟩
    · exact h.held.inTransit d hd
    · -- The dispatcher of another handle is another one.
      have hnot' : ∀ d ∈ ds, d.dispatcher ≠ _ := fun d hd heq =>
        hnot (List.mem_map.2 ⟨d, hd, ht.injective (h.entry d hd) he heq⟩)
      rw [h.dispatchers, if_neg (by rw [List.mem_map]; exact fun ⟨d, hd, heq⟩ => hnot' d hd heq)]
      exact ht.inTransit he

theorem Inv.began (hs : Inv s) (h : HandleTable.Began ds s.table t') {call : ℕ}
    (hcall : s.writing call = none) : Inv { s with
      table := t'
      writing := Function.update s.writing call (some ⟨ds, s.table.handles⟩) } := by
  have hwriting {call' : ℕ} {w : WriteInProgress}
      (hw : Function.update s.writing call (some ⟨ds, s.table.handles⟩) call' = some w) :
      (call' = call ∧ w = ⟨ds, s.table.handles⟩) ∨ s.writing call' = some w := by
    rw [Function.update_apply] at hw
    split_ifs at hw with heq
    · exact .inl ⟨heq, (Option.some.inj hw).symm⟩
    · exact .inr hw
  -- Entries that were busy before are not among those that are busy now.
  have hdisjoint {call' : ℕ} {w : WriteInProgress} (hw : s.writing call' = some w)
      {c d : DispatcherInTransit} (hc : c ∈ w.dispatchers) (hd : d ∈ ds) :
      c.localHandle ≠ d.localHandle := by
    intro heq
    have hentry := (hs.entry hw c hc).1
    rw [heq, h.entry d hd] at hentry
    exact Bool.false_ne_true (congrArg Entry.busy (Option.some.inj hentry))
  refine ⟨hs.table.began h, fun hw => ?_, fun hw c hc => ?_, fun hw hw' c hc d hd heq => ?_,
    fun he => ?_, fun handle hh => ?_, hs.nodup_removed⟩
  · rcases hwriting hw with ⟨-, rfl⟩ | hw
    · exact h.nodup_handles
    · exact hs.nodup hw
  · rcases hwriting hw with ⟨-, rfl⟩ | hw
    · exact ⟨h.held.entry c hc, h.entry c hc⟩
    · obtain ⟨hentry, hbefore⟩ := hs.entry hw c hc
      refine ⟨?_, hbefore⟩
      rw [h.handles, if_neg, hentry]
      rw [List.mem_map]
      exact fun ⟨d, hd, heq⟩ => hdisjoint hw hc hd heq.symm
  · rcases hwriting hw with ⟨h₁, rfl⟩ | h₁
    · rcases hwriting hw' with ⟨h₂, -⟩ | h₂
      · exact h₁.trans h₂.symm
      · exact absurd heq.symm (hdisjoint h₂ hd hc)
    · rcases hwriting hw' with ⟨-, rfl⟩ | h₂
      · exact absurd heq (hdisjoint h₁ hc hd)
      · exact hs.unique h₁ h₂ c hc d hd heq
  · rcases handles_began h he with ⟨d, hd, hdh, -, -⟩ | ⟨-, he⟩
    · exact ⟨call, _, Function.update_self _ _ _, d, hd, hdh⟩
    · obtain ⟨call', w, hw, d, hd, hdh⟩ := hs.busy he
      have hne : call' ≠ call := by
        rintro rfl
        rw [hcall] at hw
        cases hw
      exact ⟨call', w, (Function.update_of_ne hne _ _).trans hw, d, hd, hdh⟩
  · obtain ⟨hnone, hlt⟩ := hs.removed handle hh
    refine ⟨?_, h.nextAvailableHandle ▸ hlt⟩
    rw [h.handles, hnone, Option.map_none, ite_self]

/-- A `WriteMessage` in progress holds its entries. -/
theorem Inv.held (hs : Inv s) {call : ℕ} {w : WriteInProgress} (hw : s.writing call = some w) :
    HandleTable.Held w.dispatchers s.table := by
  have hinj : ∀ d ∈ w.dispatchers, ∀ d' ∈ w.dispatchers, d.dispatcher = d'.dispatcher →
      d = d' := by
    intro d hd d' hd' heq
    have hhandle := hs.table.injective (hs.entry hw d hd).1 (hs.entry hw d' hd').1 heq
    obtain ⟨o, handle⟩ := d
    obtain ⟨o', handle'⟩ := d'
    exact congrArg₂ DispatcherInTransit.mk heq hhandle
  exact {
    nodup_handles := hs.nodup hw
    nodup_dispatchers := (hs.nodup hw).of_map.map_on fun d hd d' hd' => hinj d hd d' hd'
    entry := fun d hd => (hs.entry hw d hd).1
    inTransit := fun d hd => hs.table.inTransit (hs.entry hw d hd).1 }

/-- Ending the transit of dispatchers, whose entries are removed or available. -/
theorem TableInv.ended (ht : TableInv t) (hheld : HandleTable.Held ds t)
    {call : Dispatcher P H → Option (Dispatcher P H)} {leave : Entry → Option Entry}
    (h : HandleTable.Ended call leave ds t t')
    (hleave : ∀ o e, leave ⟨o, true⟩ = some e → e = ⟨o, false⟩ ∧
      ∀ d x, d.inTransit = true → call d = some x → x.inTransit = false) : TableInv t' := by
  have hold {handle : ℕ} {e : Entry} (he : t'.handles handle = some e) :
      (∃ d ∈ ds, d.localHandle = handle ∧ e = ⟨d.dispatcher, false⟩) ∨
        (handle ∉ ds.map (·.localHandle) ∧ t.handles handle = some e) := by
    by_cases hmem : handle ∈ ds.map (·.localHandle)
    · obtain ⟨d, hd, rfl⟩ := List.mem_map.1 hmem
      rw [h.entry d hd] at he
      exact .inl ⟨d, hd, rfl, (hleave _ _ he).1⟩
    · rw [h.handles handle hmem] at he
      exact .inr ⟨hmem, he⟩
  have hold' {handle : ℕ} {e : Entry} (he : t'.handles handle = some e) :
      ∃ e', t.handles handle = some e' ∧ e'.dispatcher = e.dispatcher := by
    rcases hold he with ⟨d, hd, rfl, rfl⟩ | ⟨-, he⟩
    · exact ⟨_, hheld.entry d hd, rfl⟩
    · exact ⟨e, he, rfl⟩
  refine ⟨h.nextAvailableHandle ▸ ht.next_lt, fun he hne => ?_, fun he => ?_, fun he he' heq => ?_,
    fun he => ?_⟩
  · obtain ⟨e', he', -⟩ := hold' he
    rw [h.nextAvailableHandle] at hne ⊢
    exact ht.handle_lt he' hne
  · obtain ⟨e', he', heq⟩ := hold' he
    rw [h.numDispatchers, ← heq]
    exact ht.dispatcher_lt he'
  · obtain ⟨e₁, he₁, h₁⟩ := hold' he
    obtain ⟨e₂, he₂, h₂⟩ := hold' he'
    exact ht.injective he₁ he₂ (h₁.trans (heq.trans h₂.symm))
  · rcases hold he with ⟨d, hd, rfl, rfl⟩ | ⟨hnot, he'⟩
    · have hleft := h.entry d hd
      rw [he] at hleft
      exact (hleave _ _ hleft.symm).2 _ _ (hheld.inTransit d hd) (h.called d hd)
    · have hnot' : ∀ d ∈ ds, d.dispatcher ≠ _ := fun d hd heq =>
        hnot (List.mem_map.2 ⟨d, hd, ht.injective (hheld.entry d hd) he' heq⟩)
      rw [h.dispatchers _ (by rw [List.mem_map]; exact fun ⟨d, hd, heq⟩ => hnot' d hd heq)]
      exact ht.inTransit he'

/-- A `WriteMessage` ends. Its handles are gone if their entries are removed. -/
theorem Inv.ended (hs : Inv s) {call : ℕ} {w : WriteInProgress} (hw : s.writing call = some w)
    {f : Dispatcher P H → Option (Dispatcher P H)} {leave : Entry → Option Entry}
    (h : HandleTable.Ended f leave w.dispatchers s.table t')
    (hleave : ∀ o e, leave ⟨o, true⟩ = some e → e = ⟨o, false⟩ ∧
      ∀ d x, d.inTransit = true → f d = some x → x.inTransit = false) (gone : List ℕ)
    (hgone : gone = [] ∨
      (gone = w.dispatchers.map (·.localHandle) ∧ ∀ o, leave ⟨o, true⟩ = none)) : Inv { s with
      table := t'
      writing := Function.update s.writing call none
      removed := s.removed ++ gone } := by
  have hwriting {call' : ℕ} {w' : WriteInProgress}
      (hw' : Function.update s.writing call none call' = some w') :
      call' ≠ call ∧ s.writing call' = some w' := by
    rw [Function.update_apply] at hw'
    split_ifs at hw' with heq
    exact ⟨heq, hw'⟩
  have hremoved : ∀ handle ∈ s.removed, handle ∉ w.dispatchers.map (·.localHandle) := by
    intro handle hh hmem
    obtain ⟨d, hd, rfl⟩ := List.mem_map.1 hmem
    cases (hs.removed _ hh).1.symm.trans (hs.entry hw d hd).1
  refine ⟨hs.table.ended (hs.held hw) h hleave, fun hw' => hs.nodup (hwriting hw').2,
    fun hw' d hd => ?_, fun hw₁ hw₂ => hs.unique (hwriting hw₁).2 (hwriting hw₂).2,
    fun he => ?_, fun handle hh => ?_, ?_⟩
  · -- The entries of another call are others.
    obtain ⟨hne, hw'⟩ := hwriting hw'
    have hnot : d.localHandle ∉ w.dispatchers.map (·.localHandle) := by
      rw [List.mem_map]
      exact fun ⟨c, hc, heq⟩ => hne (hs.unique hw' hw d hd c hc heq.symm)
    rw [h.handles _ hnot]
    exact hs.entry hw' d hd
  · rename_i handle o
    have hnot : handle ∉ w.dispatchers.map (·.localHandle) := by
      intro hmem
      obtain ⟨d, hd, rfl⟩ := List.mem_map.1 hmem
      have hleft := h.entry d hd
      rw [he] at hleft
      cases (hleave _ _ hleft.symm).1
    rw [h.handles handle hnot] at he
    obtain ⟨call', w', hw', d, hd, rfl⟩ := hs.busy he
    have hne : call' ≠ call := by
      rintro rfl
      rw [hw] at hw'
      obtain rfl := Option.some.inj hw'
      exact hnot (List.mem_map.2 ⟨d, hd, rfl⟩)
    exact ⟨call', w', (Function.update_of_ne hne _ _).trans hw', d, hd, rfl⟩
  · rcases List.mem_append.1 hh with hh | hh
    · obtain ⟨hnone, hlt⟩ := hs.removed handle hh
      rw [h.handles handle (hremoved handle hh), h.nextAvailableHandle]
      exact ⟨hnone, hlt⟩
    · rcases hgone with rfl | ⟨rfl, hnone⟩
      · cases hh
      · obtain ⟨d, hd, rfl⟩ := List.mem_map.1 hh
        rw [h.entry d hd, h.nextAvailableHandle]
        exact ⟨hnone _, hs.table.handle_lt (hs.entry hw d hd).1⟩
  · rcases hgone with rfl | ⟨rfl, -⟩
    · rw [List.append_nil]
      exact hs.nodup_removed
    · refine List.nodup_append.2 ⟨hs.nodup_removed, hs.nodup hw, ?_⟩
      rintro a ha b hb rfl
      exact hremoved a ha hb

/-! ### Steps -/

theorem inTransit_close (d : Dispatcher P H) : d.close.2.inTransit = d.inTransit := by
  cases d <;> rw [Dispatcher.close] <;> split_ifs <;> rfl

theorem inTransit_pass (d : Dispatcher P H) : (pass d).inTransit = d.inTransit := by
  cases d with
  | platformHandle d => exact inTransit_close _
  | messagePipe | dataPipeProducer | dataPipeConsumer | sharedBuffer | waitSet => rfl

/-- What `GetAndRemoveDispatcher` does. -/
theorem getAndRemoveDispatcher_cases (t : HandleTable P H) (handle : ℕ) :
    (∃ rv, t.getAndRemoveDispatcher handle = (rv, none, t)) ∨
    ∃ o, t.handles handle = some ⟨o, false⟩ ∧ t.getAndRemoveDispatcher handle =
      (.ok, some o, { t with handles := Function.update t.handles handle none }) := by
  rw [HandleTable.getAndRemoveDispatcher]
  cases h : t.handles handle with
  | none => exact .inl ⟨_, rfl⟩
  | some e =>
    obtain ⟨o, busy⟩ := e
    cases busy with
    | true => exact .inl ⟨_, rfl⟩
    | false => exact .inr ⟨o, rfl, rfl⟩

/-- What the first section of `WriteMessage` does: all of the handles are put in
    transit, or the table is as it was. -/
theorem step_beginWrite {call : ℕ} (handles : List ℕ) (hcall : s.writing call = none) :
    (∃ ds t', HandleTable.Began ds s.table t' ∧ ds.map (·.localHandle) = handles ∧
      s.step (.beginWrite call handles) = some { s with
        table := t'
        writing := Function.update s.writing call (some ⟨ds, s.table.handles⟩) }) ∨
    ∃ t', s.step (.beginWrite call handles) = some { s with table := t' } ∧
      t'.handles = s.table.handles ∧ t'.nextAvailableHandle = s.table.nextAvailableHandle ∧
      t'.numDispatchers = s.table.numDispatchers ∧
      ∀ o, (t'.dispatchers o).inTransit = (s.table.dispatchers o).inTransit := by
  obtain ⟨ds, t', hbegan, hresult, hall⟩ := HandleTable.beginTransit_spec handles s.table []
  obtain ⟨t'', hcancel, hsame⟩ := hbegan.cancelTransit
  rw [List.nil_append] at hresult
  rw [step, hcall, Option.isSome_none, if_neg Bool.false_ne_true]
  cases hrv : (HandleTable.beginTransit handles s.table []).1 with
  | ok =>
    rw [← Prod.mk.eta (p := HandleTable.beginTransit handles s.table []), hrv, hresult]
    exact .inl ⟨ds, t', hbegan, hall hrv, rfl⟩
  | _ =>
    rw [← Prod.mk.eta (p := HandleTable.beginTransit handles s.table []), hrv, hresult]
    exact .inr ⟨t'', congrArg (Option.map _) hcancel, hsame⟩

/-- What the second section of `WriteMessage` does. -/
theorem step_endWrite (hs : Inv s) {call : ℕ} {w : WriteInProgress}
    (hw : s.writing call = some w) (rv : MojoResult) :
    (rv = .ok ∧ ∃ t', HandleTable.Ended Dispatcher.completeTransitAndClose (fun _ => none)
        w.dispatchers s.table t' ∧ s.step (.endWrite call rv) = some { s with
          table := t'
          writing := Function.update s.writing call none
          removed := s.removed ++ w.dispatchers.map (·.localHandle) }) ∨
    (rv ≠ .ok ∧ ∃ t', HandleTable.Ended Dispatcher.cancelTransit
        (fun e => some { e with busy := false }) w.dispatchers s.table t' ∧
      s.step (.endWrite call rv) = some { s with
          table := t'
          writing := Function.update s.writing call none }) := by
  rw [step, hw, Option.bind_some]
  split_ifs with hrv
  · obtain ⟨t', ht', hended⟩ := HandleTable.completeTransitAndClose_eq (hs.held hw)
    exact .inl ⟨hrv, t', hended, by rw [ht', Option.map_some]⟩
  · obtain ⟨t', ht', hended⟩ := HandleTable.cancelTransit_eq (hs.held hw)
    exact .inr ⟨hrv, t', hended, by rw [ht', Option.map_some]⟩

theorem Inv.step (hs : Inv s) {i : Input P H} (hleft : HandlesLeft s i)
    (h : s.step i = some s') : Inv s' := by
  cases i with
  | addDispatcher d =>
    rw [CoreState.step] at h
    split_ifs at h with hd
    obtain rfl := Option.some.inj h
    rw [HandleTable.addDispatcher]
    split_ifs with hnext
    · exact hs
    · exact hs.insert (Bool.eq_false_iff.2 hd) hnext
  | addDispatchersFromTransit ds =>
    rw [CoreState.step] at h
    split_ifs at h with hd
    obtain rfl := Option.some.inj h
    rw [HandleTable.addDispatchersFromTransit]
    split_ifs with hnext
    · exact hs
    · exact hs
    · rw [HandleTable.insertAll_snd]
      refine hs.foldl_insert (fun d hmem => Bool.eq_false_iff.2 fun hin => hd ?_) hnext hleft
      exact List.any_eq_true.2 ⟨d, hmem, hin⟩
  | beginWrite call handles =>
    cases hcall : s.writing call with
    | some w =>
      rw [CoreState.step, hcall, Option.isSome_some, if_pos rfl] at h
      cases h
    | none =>
      rcases step_beginWrite handles hcall with
        ⟨ds, t', hbegan, -, hstep⟩ | ⟨t', hstep, hhandles, hnext, hnum, hin⟩
      · obtain rfl := Option.some.inj (h.symm.trans hstep)
        exact hs.began hbegan hcall
      · obtain rfl := Option.some.inj (h.symm.trans hstep)
        exact hs.of_inTransit_eq hhandles hnext hnum hin
  | endWrite call rv =>
    cases hw : s.writing call with
    | none =>
      rw [CoreState.step, hw, Option.bind_none] at h
      cases h
    | some w =>
      rcases step_endWrite hs hw rv with ⟨-, t', hended, hstep⟩ | ⟨-, t', hended, hstep⟩
      · obtain rfl := Option.some.inj (h.symm.trans hstep)
        exact hs.ended hw hended (fun _ _ he => by cases he) _ (.inr ⟨rfl, fun _ => rfl⟩)
      · obtain rfl := Option.some.inj (h.symm.trans hstep)
        have hs' := hs.ended hw hended (fun o e he => ?_) [] (.inl rfl)
        · rwa [List.append_nil] at hs'
        · refine ⟨(Option.some.inj he).symm, fun d x hd hx => ?_⟩
          obtain ⟨y, hy, hy'⟩ := Dispatcher.cancelTransit_of_inTransit hd
          rw [hx] at hy
          rwa [Option.some.inj hy]
  | close handle =>
    rw [CoreState.step] at h
    rcases getAndRemoveDispatcher_cases s.table handle with ⟨rv, hget⟩ | ⟨o, hentry, hget⟩
    · rw [hget] at h
      obtain rfl := Option.some.inj h
      exact hs
    · rw [hget] at h
      obtain rfl := Option.some.inj h
      have hs' := hs.remove hentry
      exact ⟨hs'.table, hs'.nodup, hs'.entry, hs'.unique, hs'.busy, hs'.removed, hs'.nodup_removed⟩
  | closeDispatcher o =>
    rw [CoreState.step] at h
    split_ifs at h
    obtain rfl := Option.some.inj h
    have hs' := hs.setDispatcher (inTransit_close (s.table.dispatchers o))
    exact ⟨hs'.table, hs'.nodup, hs'.entry, hs'.unique, hs'.busy, hs'.removed, hs'.nodup_removed⟩
  | passWrappedPlatformHandle handle =>
    rw [CoreState.step] at h
    rcases getAndRemoveDispatcher_cases s.table handle with ⟨rv, hget⟩ | ⟨o, hentry, hget⟩
    · rw [hget] at h
      obtain rfl := Option.some.inj h
      exact hs
    · rw [hget] at h
      obtain rfl := Option.some.inj h
      exact (hs.remove hentry).setDispatcher (inTransit_pass (s.table.dispatchers o))
  | call o d =>
    rw [CoreState.step] at h
    split_ifs at h with hd
    obtain rfl := Option.some.inj h
    exact hs.setDispatcher hd

theorem inv_of_reachable (h : (machine P H).Reachable HandlesLeft s) : Inv s :=
  h.invariant inv_init fun hs hleft hstep => hs.step hleft hstep

/-- In every order of critical sections: an entry that is busy belongs to exactly one
    `WriteMessage` in progress, and the transit of its handles can be ended without
    failing an assertion; a handle is closed, unwrapped or transferred once at most; and
    a `WriteMessage` that fails leaves the table as it was before, in its first section
    or at the end of its second one. -/
theorem transit_ownership (h : (machine P H).Reachable HandlesLeft s) :
    (∀ handle o, s.table.handles handle = some ⟨o, true⟩ → ∃! call, ∃ w,
      s.writing call = some w ∧ ∃ d ∈ w.dispatchers, d.localHandle = handle) ∧
    (∀ call w, s.writing call = some w → ∀ rv, (s.step (.endWrite call rv)).isSome = true) ∧
    (∀ call handles, s.writing call = none →
      (s.step (.beginWrite call handles)).isSome = true) ∧
    (s.removed.Nodup ∧ ∀ handle ∈ s.removed, s.table.handles handle = none) ∧
    (∀ call handles s', s.writing call = none → s.step (.beginWrite call handles) = some s' →
      s'.writing call = none → s'.table.handles = s.table.handles ∧
        ∀ o, (s'.table.dispatchers o).inTransit = (s.table.dispatchers o).inTransit) ∧
    ∀ call w rv s', s.writing call = some w → rv ≠ .ok →
      s.step (.endWrite call rv) = some s' → s'.writing call = none ∧
      (∀ d ∈ w.dispatchers, s'.table.handles d.localHandle = w.before d.localHandle ∧
        (s'.table.dispatchers d.dispatcher).inTransit = false) ∧
      (∀ handle ∉ w.dispatchers.map (·.localHandle),
        s'.table.handles handle = s.table.handles handle) ∧
      ∀ o ∉ w.dispatchers.map (·.dispatcher),
        s'.table.dispatchers o = s.table.dispatchers o := by
  have hs := inv_of_reachable h
  refine ⟨fun handle o he => ?_, fun call w hw rv => ?_, fun call handles hcall => ?_,
    ⟨hs.nodup_removed, fun handle hh => (hs.removed handle hh).1⟩,
    fun call handles s' hcall hstep hnone => ?_, fun call w rv s' hw hrv hstep => ?_⟩
  · obtain ⟨call, w, hw, d, hd, hdh⟩ := hs.busy he
    refine ⟨call, ⟨w, hw, d, hd, hdh⟩, ?_⟩
    rintro call' ⟨w', hw', d', hd', hdh'⟩
    exact hs.unique hw' hw d' hd' d hd (hdh'.trans hdh.symm)
  · rcases step_endWrite hs hw rv with ⟨-, t', -, hstep⟩ | ⟨-, t', -, hstep⟩
    · rw [hstep, Option.isSome_some]
    · rw [hstep, Option.isSome_some]
  · rcases step_beginWrite handles hcall with ⟨ds, t', -, -, hstep⟩ | ⟨t', hstep, -⟩
    · rw [hstep, Option.isSome_some]
    · rw [hstep, Option.isSome_some]
  · rcases step_beginWrite handles hcall with
      ⟨ds, t', -, -, hbegin⟩ | ⟨t', hbegin, hhandles, -, -, hin⟩
    · obtain rfl := Option.some.inj (hstep.symm.trans hbegin)
      simp only [Function.update_self, reduceCtorEq] at hnone
    · obtain rfl := Option.some.inj (hstep.symm.trans hbegin)
      exact ⟨hhandles, hin⟩
  · rcases step_endWrite hs hw rv with ⟨hok, -⟩ | ⟨-, t', hended, hend⟩
    · exact absurd hok hrv
    · obtain rfl := Option.some.inj (hstep.symm.trans hend)
      refine ⟨Function.update_self _ _ _, fun d hd => ⟨?_, ?_⟩, hended.handles, hended.dispatchers⟩
      · exact (hended.entry d hd).trans (hs.entry hw d hd).2.symm
      · obtain ⟨x, hx, hx'⟩ :=
          Dispatcher.cancelTransit_of_inTransit ((hs.held hw).inTransit d hd)
        rw [hended.called d hd] at hx
        rwa [Option.some.inj hx]

instance (s : CoreState P H) (i : Input P H) : Decidable (HandlesLeft s i) :=
  match i with
  | .addDispatchersFromTransit ds =>
    inferInstanceAs (Decidable (s.table.nextAvailableHandle + ds.length ≤ 2 ^ 32))
  | .addDispatcher _ | .beginWrite _ _ | .endWrite _ _ | .close _ | .closeDispatcher _
  | .passWrappedPlatformHandle _ | .call _ _ => inferInstanceAs (Decidable True)

/-- A handle that is sent. -/
theorem transit_ownership_busy : ∃ s : CoreState ℕ ℕ, (machine ℕ ℕ).Reachable HandlesLeft s ∧
    s.table.handles 1 = some ⟨0, true⟩ ∧ ∃! call, ∃ w,
      s.writing call = some w ∧ ∃ d ∈ w.dispatchers, d.localHandle = 1 := by
  obtain ⟨s, hs, hbusy⟩ := Machine.exists_reachable (M := machine ℕ ℕ) (G := HandlesLeft)
    (P := fun s => s.table.handles 1 = some ⟨0, true⟩)
    [.addDispatcher (.messagePipe { port := 5, pipeId := 6, endpoint := 1 }), .beginWrite 0 [1]]
    (by decide)
  exact ⟨s, hs, hbusy, (transit_ownership hs).1 1 0 hbusy⟩

end CoreState

end MojoEdk.Core
