import MojoEdk.Ports.Net.Sequence

/-!
# How long chains get

A chain only grows when one of its ports is sent, and a message that is forwarded sends its
ports again. The ports attached to a message on its way to an end thus follow the chain of
that end: a *plan* is a bound of the lengths of all chains that leaves room for that
(`Net.Planned`).

* A node keeps every plan (`Planned.step`), and makes no plan up (`Planned.back`).
* A message may be sent if there is a plan, unless one of its ports carries, directly or
  nested, the end that the message is sent to (`Planned.send`). Otherwise, there is no plan
  afterwards (`not_planned_send`).
-/

namespace MojoEdk.Ports.Net

variable {α : Type*} {N M : Net α} {x : Place} {a : Port} {d e : End} {l : Letter α}
  {L : Multiset (Letter α)} {reach : End → ℕ} {lim : Place → ℕ}

/-- A message on its way to an end has another end attached. -/
def Carries (N : Net α) (d e : End) : Prop := ∃ l ∈ N.letters, l.place.1 = d ∧ e ∈ l.ports

/-- An end carries another one, directly or nested. -/
abbrev Reaches (N : Net α) : End → End → Prop := Relation.ReflTransGen N.Carries

/-- How long the chains may get: the chain of an end that is attached to a message grows
    whenever the message is forwarded. -/
structure Planned (N : Net α) (reach : End → ℕ) : Prop where
  len_le : ∀ e, N.len e ≤ reach e
  carries : ∀ l ∈ N.letters, ∀ e ∈ l.ports,
    N.len e + (reach l.place.1 - l.place.2) ≤ reach e

theorem len_transferAll_of_mem {es : List End} (hes : es.Nodup) (he : e ∈ es)
    (hl : N.IsLive e .receiving) : (N.transferAll es).len e = N.len e + 1 := by
  obtain ⟨a, hp, -⟩ := hl
  exact (transferAll_of_mem hes he hp).2.2

theorem len_transferAll_of_notMem {es : List End} (he : e ∉ es) :
    (N.transferAll es).len e = N.len e :=
  (transferAll_of_notMem (x := (e, 0)) he).2

/-- An end is attached to one message only. -/
theorem Cargo.notMem_ports (c : N.Cargo) (hL : N.letters = l ::ₘ L) {l' : Letter α} (hl' : l' ∈ L)
    (he : e ∈ l'.ports) : e ∉ l.ports := by
  intro hel
  have hnd := (Multiset.nodup_add.1 c.nodup).2.1
  rw [attached, hL, Multiset.cons_bind] at hnd
  exact Multiset.disjoint_left.1 (Multiset.nodup_add.1 hnd).2.2 (Multiset.mem_coe.2 hel)
    (Multiset.mem_bind.2 ⟨l', hl', he⟩)

/-- A proxy that forwards a message sends the ports attached to it, and nothing else. -/
theorem Cargo.len_forward (c : N.Cargo) (w : N.Shape) (hx : N.port x = some a) {b : Port}
    (hb : b.kind = a.kind) (hl : l ∈ N.letters) (hq : l.queued = true)
    (hM : M.len = ((N.set x b).transferAll l.ports).len) :
    (∀ e ∈ l.ports, M.len e = N.len e + 1) ∧ ∀ e ∉ l.ports, M.len e = N.len e := by
  refine ⟨fun e he => ?_, fun e he => ?_⟩
  · rw [hM]
    exact len_transferAll_of_mem (N := N.set x b) (c.ports_nodup hl) he
      ((c.set w hx fun _ => hb).receiving hl hq e he)
  · rw [hM]
    exact len_transferAll_of_notMem (N := N.set x b) he

/-- A message is sent: so are the ports attached to it, and nothing else. -/
theorem Cargo.len_send (c : N.Cargo) (w : N.Shape) {es : List End} {H : Multiset End}
    (hx : N.port x = some a) (hH : N.held = ↑es + H) {b : Port} (hb : b.kind = a.kind) :
    (∀ f ∈ es, ((N.set x b).transferAll es).len f = N.len f + 1) ∧
      ∀ f ∉ es, ((N.set x b).transferAll es).len f = N.len f := by
  have hset := c.set w hx fun _ => hb
  have hnd := c.nodup
  rw [hH, add_assoc] at hnd
  have hes := Multiset.coe_nodup.1 (Multiset.nodup_add.1 hnd).1
  refine ⟨fun f hf => ?_, fun f hf => len_transferAll_of_notMem (N := N.set x b) hf⟩
  exact len_transferAll_of_mem (N := N.set x b) hes hf
    (hset.held f (hH ▸ Multiset.mem_add.2 (.inl hf) : f ∈ N.held))

namespace Planned

theorem init : (init : Net α).Planned fun _ => 0 where
  len_le _ := le_rfl
  carries _ h := absurd h (Multiset.notMem_zero _)

/-- No chain grows, and no message is new. -/
theorem mono (h : N.Planned reach) (hlen : M.len = N.len)
    (hletters : ∀ l ∈ M.letters, ∃ l' ∈ N.letters, l'.place = l.place ∧ l'.ports = l.ports) :
    M.Planned reach where
  len_le e := hlen ▸ h.len_le e
  carries l hl e he := by
    obtain ⟨l', hl', hplace, hports⟩ := hletters l hl
    rw [hlen, ← hplace]
    exact h.carries l' hl' e (hports ▸ he)

theorem of_le (h : N.Planned reach) (hlen : M.len = N.len) (hle : M.letters ≤ N.letters) :
    M.Planned reach :=
  h.mono hlen fun l hl => ⟨l, Multiset.mem_of_le hle hl, rfl, rfl⟩

/-! ## What nodes do -/

/-- A message is forwarded, and its ports are sent again. -/
theorem forward (h : N.Planned reach) (c : N.Cargo) (hlt : x.2 < N.len x.1)
    (hL : N.letters = l ::ₘ L) (hplace : l.place = x)
    (hin : ∀ e ∈ l.ports, M.len e = N.len e + 1) (hout : ∀ e ∉ l.ports, M.len e = N.len e)
    (l' : Letter α) (hplace' : l'.place = x.succ) (hports : l'.ports = l.ports)
    (hM : M.letters = l' ::ₘ L) : M.Planned reach := by
  have hl : l ∈ N.letters := hL ▸ Multiset.mem_cons_self l L
  have hroom : x.2 < reach x.1 := hlt.trans_le (h.len_le x.1)
  have hcarries : ∀ e ∈ l.ports, N.len e + (reach x.1 - x.2) ≤ reach e := fun e he =>
    hplace ▸ h.carries l hl e he
  refine ⟨fun e => ?_, fun l₁ hl₁ e he => ?_⟩
  · by_cases hel : e ∈ l.ports
    · have := hcarries e hel
      rw [hin e hel]
      omega
    · exact (hout e hel).trans_le (h.len_le e)
  · rw [hM] at hl₁
    rcases Multiset.mem_cons.1 hl₁ with rfl | hl₁
    · rw [hports] at he
      have := hcarries e he
      rw [hin e he, hplace']
      change N.len e + 1 + (reach x.1 - (x.2 + 1)) ≤ reach e
      omega
    · rw [hout e (c.notMem_ports hL hl₁ he)]
      exact h.carries l₁ (hL ▸ Multiset.mem_cons_of_mem hl₁) e he

/-- What a node does keeps a plan. -/
theorem step (h : N.Planned reach) (w : N.Shape) (c : N.Cargo) {t : Label} (hs : Step N t M)
    (ht : t ≠ .embedder) : M.Planned reach := by
  cases hs with
  | create | send | get => exact absurd rfl ht
  | @arrive a l L hL _ _ _ _ =>
    refine h.mono acceptAll_len fun l' hl' => ?_
    rcases Multiset.mem_cons.1 hl' with rfl | hl'
    · exact ⟨l, hL ▸ Multiset.mem_cons_self l L, rfl, rfl⟩
    · exact ⟨l', hL ▸ Multiset.mem_cons_of_mem hl', rfl, rfl⟩
  | @reject l L hL _ _ => exact h.of_le acceptAll_len (hL ▸ Multiset.le_cons_self L l)
  | @forward x a l L hx hk hL hq hplace _ =>
    have hl : l ∈ N.letters := hL ▸ Multiset.mem_cons_self l L
    have hlen := c.len_forward w hx (b := { a with
      next := a.next + 1
      send := if l.number = 0 then a.send + 1 else a.send }) rfl hl hq rfl
    exact h.forward c (w.proxy hx (by simp [hk])) hL hplace hlen.1 hlen.2 { l with
        place := x.succ
        queued := false
        number := if l.number = 0 then a.send else l.number } rfl rfl rfl
  | remove => exact h.of_le rfl (Multiset.filter_le ..)
  | close => exact h.of_le rfl (Multiset.filter_le ..)
  | portAccepted | redirect | store | proxyPass | ackRetry | ackAccept | closureReceive
  | closurePass | drop => exact ⟨h.len_le, h.carries⟩

/-! ## What the embedder does -/

/-- A message is sent, and no port attached to it carries the end that it is sent to. -/
theorem send (h : N.Planned reach) {es : List End} {x : Place}
    (hfree : ∀ f ∈ es, ¬N.Reaches f x.1) (hnew : ∀ l ∈ N.letters, ∀ f ∈ l.ports, f ∉ es)
    (hin : ∀ f ∈ es, M.len f = N.len f + 1) (hout : ∀ f ∉ es, M.len f = N.len f)
    (hplace : l.place = x) (hports : l.ports = es) (hM : M.letters = l ::ₘ N.letters) :
    ∃ reach', M.Planned reach' := by
  classical
  -- There must be more room in the chains that depend on those of the ports.
  set D : Set End := {f | ∃ f₀ ∈ es, N.Reaches f₀ f} with hD
  have hes : ∀ f ∈ es, f ∈ D := fun f hf => ⟨f, hf, .refl⟩
  have hx : x.1 ∉ D := fun ⟨f, hf, hfx⟩ => hfree f hf hfx
  refine ⟨fun f => reach f + if f ∈ D then 1 + (reach x.1 - x.2) else 0,
    fun f => ?_, fun l' hl' f hf => ?_⟩
  · have := h.len_le f
    by_cases hfe : f ∈ es
    · rw [hin f hfe, if_pos (hes f hfe)]
      omega
    · rw [hout f hfe]
      omega
  · rw [hM] at hl'
    rcases Multiset.mem_cons.1 hl' with rfl | hl'
    · have hfe : f ∈ es := hports ▸ hf
      have := h.len_le f
      rw [hplace, hin f hfe, if_pos (hes f hfe), if_neg hx]
      omega
    · have hlf := h.carries l' hl' f hf
      rw [hout f (hnew l' hl' f hf)]
      by_cases hd : l'.place.1 ∈ D
      · obtain ⟨f₀, hf₀, hreach⟩ := hd
        have hfD : f ∈ D := ⟨f₀, hf₀, hreach.tail ⟨l', hl', rfl, hf⟩⟩
        rw [if_pos ⟨f₀, hf₀, hreach⟩, if_pos hfD]
        omega
      · rw [if_neg hd]
        omega

/-- The embedder keeps a plan, unless it sends a port that carries the end that the message is
    sent to. -/
theorem embedder (h : N.Planned reach) (w : N.Shape) (c : N.Cargo) (hs : Step N .embedder M)
    (hfree : ∀ e f, M.sent e ≠ N.sent e → M.len f ≠ N.len f → ¬N.Reaches f e.opp) :
    ∃ reach', M.Planned reach' := by
  cases hs with
  | create => exact ⟨reach, h.len_le, h.carries⟩
  | @get e a l L _ _ _ hL _ _ _ =>
    exact ⟨reach, h.of_le rfl (hL ▸ Multiset.le_cons_self L l)⟩
  | @send e a payload es H hp hk _ hH _ _ =>
    have hlen := c.len_send w hp hH (b := { a with send := a.send + 1 }) rfl
    refine h.send (x := (e.opp, N.toward e)) (fun f hf => hfree e f ?_ ?_)
      (fun l hl f hf hfe => ?_) hlen.1 hlen.2 rfl rfl rfl
    · change Function.update (Net.transferAll es _).sent e ((Net.transferAll es _).sent e ++ _) e ≠ _
      rw [Function.update_self, transferAll_sent]
      simp [Net.set]
    · exact (hlen.1 f hf).trans_ne (Nat.succ_ne_self _)
    · have hnd := c.nodup
      rw [hH, add_assoc] at hnd
      exact Multiset.disjoint_left.1 (Multiset.nodup_add.1 hnd).2.2 (Multiset.mem_coe.2 hfe)
        (Multiset.mem_add.2 (.inr (mem_attached.2 ⟨l, hl, hf⟩)))

/-! ## No plan -/

/-- When all messages are at the ends of their chains, no chain grows. -/
theorem of_arrived (h : ∀ l ∈ N.letters, l.place.2 = N.len l.place.1) : N.Planned N.len where
  len_le _ := le_rfl
  carries l hl e _ := by rw [h l hl, Nat.sub_self, Nat.add_zero]

/-- The messages at the end of a chain that nobody waits for need no room. -/
theorem of_notMem (h : M.Planned reach) (hlen : M.len = N.len)
    (hd : ∀ l ∈ N.letters, d ∉ l.ports)
    (hletters : ∀ l ∈ N.letters, l.place = (d, N.len d) ∨
      ∃ l' ∈ M.letters, l'.place = l.place ∧ l'.ports = l.ports) :
    N.Planned (Function.update reach d (N.len d)) where
  len_le e := by
    rw [Function.update_apply]
    split_ifs with he
    · rw [he]
    · exact hlen ▸ h.len_le e
  carries l hl e he := by
    have hne : e ≠ d := fun hed => hd l hl (hed ▸ he)
    rw [Function.update_of_ne hne]
    have hle : N.len e ≤ reach e := hlen ▸ h.len_le e
    rcases hletters l hl with hplace | ⟨l', hl', hplace, hports⟩
    · rw [hplace, Function.update_self, Nat.sub_self]
      exact hle
    · have hcarries := h.carries l' hl' e (hports ▸ he)
      rw [hlen, hplace] at hcarries
      rw [Function.update_apply]
      split_ifs with hld
      · have := hlen ▸ h.len_le d
        rw [hld] at hcarries
        omega
      · exact hcarries

/-- A message was forwarded, and its ports were sent again. -/
theorem of_forward (h : M.Planned reach) (c : N.Cargo) (hlt : x.2 < N.len x.1)
    (hL : N.letters = l ::ₘ L) (hplace : l.place = x)
    (hin : ∀ e ∈ l.ports, M.len e = N.len e + 1) (hout : ∀ e ∉ l.ports, M.len e = N.len e)
    (l' : Letter α) (hplace' : l'.place = x.succ) (hports : l'.ports = l.ports)
    (hM : M.letters = l' ::ₘ L) : N.Planned reach := by
  have hle : ∀ e, N.len e ≤ reach e := by
    intro e
    by_cases hel : e ∈ l.ports
    · exact (Nat.le_succ _).trans ((hin e hel).ge.trans (h.len_le e))
    · exact (hout e hel).ge.trans (h.len_le e)
  have hroom : x.2 < reach x.1 := hlt.trans_le (hle x.1)
  refine ⟨hle, fun l₁ hl₁ e he => ?_⟩
  rw [hL] at hl₁
  rcases Multiset.mem_cons.1 hl₁ with rfl | hl₁
  · have hcarries := h.carries l' (hM ▸ Multiset.mem_cons_self l' L) e (hports ▸ he)
    rw [hin e he, hplace'] at hcarries
    change N.len e + 1 + (reach x.1 - (x.2 + 1)) ≤ reach e at hcarries
    rw [hplace]
    omega
  · have hcarries := h.carries l₁ (hM ▸ Multiset.mem_cons_of_mem hl₁) e he
    rwa [hout e (c.notMem_ports hL hl₁ he)] at hcarries

/-- Nodes do not make up a plan where there was none. -/
theorem back (h : M.Planned reach) (s : N.Sequence lim) (r : N.Ring) (w : N.Shape) (c : N.Cargo)
    {t : Label} (hs : Step N t M) (ht : t ≠ .embedder) : ∃ reach', N.Planned reach' := by
  cases hs with
  | create | send | get => exact absurd rfl ht
  | @arrive a l L hL _ _ _ _ =>
    refine ⟨reach, h.mono acceptAll_len.symm fun l' hl' => ?_⟩
    rw [hL] at hl'
    rcases Multiset.mem_cons.1 hl' with rfl | hl'
    · exact ⟨_, Multiset.mem_cons_self .., rfl, rfl⟩
    · exact ⟨l', Multiset.mem_cons_of_mem hl', rfl, rfl⟩
  | @reject l L hL hq ha =>
    -- The end that the message is sent to is closed, and attached to no message.
    obtain ⟨hplace, hnone⟩ := s.closed_of_reject r w (hL ▸ Multiset.mem_cons_self l L) ha
    refine ⟨_, h.of_notMem acceptAll_len (d := l.place.1) (fun l' hl' hd => ?_) fun l' hl' => ?_⟩
    · obtain ⟨b, hb, -⟩ := c.letters l' hl' _ hd
      rw [← hplace] at hb
      cases hnone.symm.trans hb
    · rw [hL] at hl'
      rcases Multiset.mem_cons.1 hl' with rfl | hl'
      · exact .inl (Prod.ext rfl hplace)
      · exact .inr ⟨l', hl', rfl, rfl⟩
  | @forward x a l L hx hk hL hq hplace _ =>
    have hl : l ∈ N.letters := hL ▸ Multiset.mem_cons_self l L
    have hlen := c.len_forward w hx (b := { a with
      next := a.next + 1
      send := if l.number = 0 then a.send + 1 else a.send }) rfl hl hq rfl
    exact ⟨reach, h.of_forward c (w.proxy hx (by simp [hk])) hL hplace hlen.1 hlen.2 { l with
        place := x.succ
        queued := false
        number := if l.number = 0 then a.send else l.number } rfl rfl rfl⟩
  | remove hx hk hr hc =>
    refine ⟨reach, h.mono rfl fun l hl => ⟨l, ?_, rfl, rfl⟩⟩
    change l ∈ N.elsewhere _
    rwa [s.elsewhere_of_remove hx hc]
  | @close e a H hp hk hH =>
    refine ⟨_, h.of_notMem rfl (d := e) (fun l hl he => ?_) fun l hl => ?_⟩
    · exact Multiset.disjoint_left.1 (Multiset.nodup_add.1 c.nodup).2.2
        (hH ▸ Multiset.mem_cons_self e H) (mem_attached.2 ⟨l, hl, he⟩)
    · by_cases hplace : l.place = (e, N.len e)
      · exact .inl hplace
      · exact .inr ⟨l, Multiset.mem_filter.2 ⟨hl, fun hq => hplace hq.2⟩, rfl, rfl⟩
  | portAccepted | redirect | store | proxyPass | ackRetry | ackAccept | closureReceive
  | closurePass | drop => exact ⟨reach, h.len_le, h.carries⟩

end Planned

/-- After a port was sent that carries the end that the message is sent to, there is no plan. -/
theorem not_planned_send (w : N.Shape) {es : List End} {x : Place} {f : End} (hf : f ∈ es)
    (hcycle : N.Reaches f x.1) (hx : x.2 ≤ N.len x.1)
    (hin : ∀ f ∈ es, M.len f = N.len f + 1) (hlen : ∀ f, N.len f ≤ M.len f)
    (hplace : l.place = x) (hports : l.ports = es) (hM : M.letters = l ::ₘ N.letters) :
    ¬M.Planned reach := by
  intro h
  -- The room in a chain is at least that in the chains it depends on.
  have hroom : ∀ {c}, N.Reaches f c → reach f - N.len f ≤ reach c - N.len c := by
    intro c hc
    induction hc with
    | refl => exact le_rfl
    | @tail d c _ hdc ih =>
      obtain ⟨l', hl', rfl, hcl⟩ := hdc
      have hcarries := h.carries l' (hM ▸ Multiset.mem_cons_of_mem hl') c hcl
      have := (w.letters l' hl').2
      have := hlen c
      omega
  have hnew := h.carries l (hM ▸ Multiset.mem_cons_self l _) f (hports ▸ hf)
  have := hroom hcycle
  rw [hplace, hin f hf] at hnew
  omega

/-- What the embedder did: a message was sent, with a port that carries the end it is sent to. -/
theorem not_planned_embedder (w : N.Shape) (c : N.Cargo) (hs : Step N .embedder M) {f : End}
    (he : M.sent e ≠ N.sent e) (hf : M.len f ≠ N.len f) (hcycle : N.Reaches f e.opp) :
    ¬M.Planned reach := by
  cases hs with
  | create => exact absurd rfl he
  | get => exact absurd rfl hf
  | @send e' a payload es H hp hk _ hH _ _ =>
    obtain rfl : e = e' := by
      by_contra hee
      refine he ?_
      change Function.update (Net.transferAll es _).sent e' _ e = _
      rw [Function.update_of_ne hee, transferAll_sent]
      rfl
    have hin := c.len_send w hp hH (b := { a with send := a.send + 1 }) rfl
    have hfe : f ∈ es := by
      by_contra hfe
      exact hf (hin.2 f hfe)
    refine not_planned_send w (l := ⟨(e.opp, N.toward e), false, a.send, payload, es⟩) hfe hcycle
      (w.toward_le e) hin.1 (fun f' => ?_) rfl rfl rfl
    exact len_le_transferAll (N := N.set _ _) f'

end MojoEdk.Ports.Net
