import MojoEdk.Controller.Bootstraps

/-!
# Runs of the bootstraps

Every step of the bootstraps keeps the invariant, and hence it holds in every state that is
reached. A request is sent for a port once at most, and finds the reservation, and the answer
finds the port without a peer.
-/

namespace MojoEdk.Controller.Bootstraps

open Ports (NodeName PortName Node)

variable {α K : Type} [DecidableEq K] {s s' : Bootstraps α K} {c : K}

/-! ## Connected ports -/

namespace Connected

omit [DecidableEq K] in
theorem mem_map_iff {x : Option K} {p : PortName} :
    (x, p) ∈ s.initialized.map (fun e => (e.1, e.2.1)) ↔ ∃ n q, (x, p, n, q) ∈ s.initialized := by
  rw [List.mem_map]
  constructor
  · rintro ⟨⟨y, r, n, q⟩, he, h⟩
    obtain ⟨rfl, rfl⟩ := Prod.mk.inj h
    exact ⟨n, q, he⟩
  · rintro ⟨n, q, he⟩
    exact ⟨_, he, rfl⟩

theorem congr (h : s.Connected) (e : s.Extends s') (hinitialized : s'.initialized = s.initialized)
    (hcallbacks : s'.callbacks = s.callbacks) : s'.Connected := by
  refine ⟨hinitialized ▸ h.nodup, fun {q n p} hq => ?_, fun {c p n q} hp => ?_, ?_,
    fun {x callback p} hk => ?_⟩
  · rw [hinitialized] at hq
    obtain ⟨i, c, hi, hc, hn⟩ := h.parent hq
    exact ⟨i, c, e.portAt hi, e.portAt hc, hn.trans (e.name _).symm⟩
  · rw [hinitialized] at hp ⊢
    obtain ⟨⟨i, hi, hc⟩, hn, hq⟩ := h.child hp
    rw [e.name, e.name]
    exact ⟨⟨i, e.portAt hi, e.portAt hc⟩, hn, hq⟩
  · rw [hinitialized, hcallbacks]
    exact h.callbacks
  · rw [hcallbacks] at hk
    rcases h.callback hk with ⟨hx, i, t, ht⟩ | ⟨i, c, hx, hc, hp⟩
    · exact .inl ⟨hx, i, t, e.server ht⟩
    · exact .inr ⟨i, c, hx, e.pipes hc, e.client hp⟩

/-- A port is given its peer, and its callback is run. -/
theorem append (h : s.Connected) (e : s.Extends s') {x : Option K} {p : PortName} {n : NodeName}
    {q : PortName} {callback : ℕ} (hnot : ¬s.Initialized x p)
    (hinitialized : s'.initialized = s.initialized ++ [(x, p, n, q)])
    (hcallbacks : s'.callbacks = s.callbacks ++ [(x, callback, p)])
    (hparent : x = none → ∃ i c, s.portAt i none = some p ∧ s.portAt i (some c) = some q ∧
      n = (s.node (some c)).name)
    (hchild : ∀ c, x = some c → (∃ i, s.portAt i none = some q ∧ s.portAt i (some c) = some p) ∧
      n = (s.node none).name ∧ (none, q, (s.node (some c)).name, p) ∈ s.initialized)
    (hcallback : (x = none ∧ ∃ i t, s.server i = some (t, ⟨p, callback⟩)) ∨
      ∃ i c, x = some c ∧ s.pipes[i]? = some c ∧ s.client i = some (p, callback)) :
    s'.Connected := by
  have hcases {z : Option K × PortName × NodeName × PortName} (hz : z ∈ s'.initialized) :
      z ∈ s.initialized ∨ z = (x, p, n, q) := by
    rw [hinitialized] at hz
    exact (List.mem_append.1 hz).imp_right List.mem_singleton.1
  refine ⟨?_, fun {q' n' p'} hq => ?_, fun {c p' n' q'} hp => ?_, ?_, fun {x' cb p'} hk => ?_⟩
  · rw [hinitialized, List.map_append]
    refine List.nodup_append.2 ⟨h.nodup, List.nodup_singleton _, fun y hy z hz heq => ?_⟩
    rw [heq, List.mem_singleton.1 hz] at hy
    exact hnot hy
  · rcases hcases hq with hq | heq
    · obtain ⟨i, c, hi, hc, hn⟩ := h.parent hq
      exact ⟨i, c, e.portAt hi, e.portAt hc, hn.trans (e.name _).symm⟩
    · simp only [Prod.mk.injEq] at heq
      obtain ⟨hx, rfl, rfl, rfl⟩ := heq
      obtain ⟨i, c, hi, hc, hn⟩ := hparent hx.symm
      exact ⟨i, c, e.portAt hi, e.portAt hc, hn.trans (e.name _).symm⟩
  · have hfound : (∃ i, s.portAt i none = some q' ∧ s.portAt i (some c) = some p') ∧
        n' = (s.node none).name ∧
          (none, q', (s.node (some c)).name, p') ∈ s.initialized := by
      rcases hcases hp with hp | heq
      · exact h.child hp
      · simp only [Prod.mk.injEq] at heq
        obtain ⟨hx, rfl, rfl, rfl⟩ := heq
        exact hchild c hx.symm
    obtain ⟨⟨i, hi, hc⟩, hn, hq⟩ := hfound
    rw [e.name, e.name]
    exact ⟨⟨i, e.portAt hi, e.portAt hc⟩, hn, e.initialized hq⟩
  · rw [hinitialized, hcallbacks, List.map_append, List.map_append, h.callbacks]
    rfl
  · have hfound : (x' = none ∧ ∃ i t, s.server i = some (t, ⟨p', cb⟩)) ∨
        ∃ i c, x' = some c ∧ s.pipes[i]? = some c ∧ s.client i = some (p', cb) := by
      rw [hcallbacks] at hk
      rcases List.mem_append.1 hk with hk | hk
      · exact h.callback hk
      · obtain ⟨rfl, h'⟩ := Prod.mk.inj (List.mem_singleton.1 hk)
        obtain ⟨rfl, rfl⟩ := Prod.mk.inj h'
        exact hcallback
    rcases hfound with ⟨hx, i, t, ht⟩ | ⟨i, c, hx, hc, hp⟩
    · exact .inl ⟨hx, i, t, e.server ht⟩
    · exact .inr ⟨i, c, hx, e.pipes hc, e.client hp⟩

end Connected

/-! ## Requests -/

namespace Requested

/-- No message about a port is sent or read. -/
theorem congr (h : s.Requested) (e : s.Extends s')
    (hserver : ∀ {i x}, s'.server i = some x → s.server i = some x)
    (hclient : ∀ {i}, s'.client i = none → s.client i = none ∧ s'.token i = s.token i)
    (htoken : ∀ {i t}, s'.token i = some t → s.token i = some t)
    (hposted : ∀ {c r}, r ∈ s'.posted c ∨ r ∈ s'.pendingPortRequests c → s'.Requests c r)
    (hconnections : s'.pendingPortConnections = s.pendingPortConnections)
    (hreserved : s'.reservedPorts = s.reservedPorts)
    (hinitialized : s'.initialized = s.initialized)
    (htoParent : ∀ {c p t}, .requestPortConnection p t ∈ s'.toParent c ↔
      .requestPortConnection p t ∈ s.toParent c)
    (htoChild : ∀ {c q p}, .connectToPort q p ∈ s'.toChild c ↔
      .connectToPort q p ∈ s.toChild c) : s'.Requested := by
  have hmemParent {c : K} {p : PortName} (hp : (c, p) ∈ s.holds (.toParent c)) :
      (c, p) ∈ s'.holds (.toParent c) := by
    rw [mem_toParent] at hp ⊢
    exact hp.imp fun _ => htoParent.2
  have hmemChild {c : K} {p : PortName} (hp : (c, p) ∈ s.holds (.toChild c)) :
      (c, p) ∈ s'.holds (.toChild c) := by
    rw [mem_toChild] at hp ⊢
    exact hp.imp fun _ => htoChild.2
  have hmem {c : K} {p : PortName} (hp : (c, p) ∈ s.holds .initialized) :
      (c, p) ∈ s'.holds .initialized := by
    rw [mem_initialized, Initialized, hinitialized]
    exact mem_initialized.1 hp
  refine ⟨fun {i x} hx hc => ?_, fun {i t} ht => ?_, hposted, fun {c p t} hm => ?_,
    fun {c q p} hm => ?_, fun {c p} hp => ?_, fun {t r} hr => ?_, fun {i t r} hr => ?_⟩
  · rw [(hclient hc).2]
    exact h.token (hserver hx) (hclient hc).1
  · obtain ⟨hsize, r, hr⟩ := h.sent (htoken ht)
    exact ⟨hsize, r, e.server hr⟩
  · obtain ⟨callback, hr, hc⟩ := h.toParent (htoParent.1 hm)
    exact ⟨callback, e.requests hr, hconnections ▸ hc⟩
  · obtain ⟨i, callback, hq, hc, hp, hconnection, hinit⟩ := h.toChild (htoChild.1 hm)
    rw [e.name]
    exact ⟨i, callback, e.portAt hq, e.pipes hc, e.client hp, hconnections ▸ hconnection,
      e.initialized hinit⟩
  · rw [hconnections] at hp
    exact (h.pending hp).imp hmemParent hmemChild
  · rw [hreserved] at hr
    obtain ⟨⟨i, hi⟩, hnot⟩ := h.reserved hr
    rw [Initialized, hinitialized]
    exact ⟨⟨i, e.server hi⟩, hnot⟩
  · rw [hreserved]
    refine (h.served (hserver hr)).imp_right ?_
    rintro ⟨c, p, hc, hp, hinit⟩
    rw [← e.name] at hinit
    exact ⟨c, p, e.clientAt hc, hp.imp hmemChild hmem, e.initialized hinit⟩

theorem update_connection (f : K → PortName → Option ℕ) (p : PortName) (v : Option ℕ) (c' : K)
    (p' : PortName) : Function.update f c (Function.update (f c) p v) c' p' =
      if c' = c ∧ p' = p then v else f c' p' := by
  by_cases hc : c' = c
  · subst hc
    rw [Function.update_self, Function.update_apply]
    by_cases hp : p' = p
    · rw [if_pos hp, if_pos ⟨rfl, hp⟩]
    · rw [if_neg hp, if_neg fun h => hp h.2]
  · rw [Function.update_of_ne hc, if_neg fun h => hc h.1]

/-- A request is sent, whose port comes from another stop. -/
theorem request (h : s.Requested) (hstops : s.Stops) {r : PortRequest} (hr : s.Requests c r)
    {o : Stop K} {l : List (K × PortName)} (ho : s.holds o = (c, r.localPort) :: l)
    (hneParent : ∀ c, o ≠ .toParent c) (hneChild : ∀ c, o ≠ .toChild c)
    {posted pending : K → List PortRequest}
    (hposted : ∀ {c r}, r ∈ posted c ∨ r ∈ pending c →
      r ∈ s.posted c ∨ r ∈ s.pendingPortRequests c) :
    { s.requestPortConnection c r with
      posted := posted
      pendingPortRequests := pending }.Requested := by
  have hin : (c, r.localPort) ∈ s.holds o := ho ▸ List.mem_cons_self
  -- A port whose request is not sent yet has no callback waiting.
  have hnone : s.pendingPortConnections c r.localPort = none := by
    by_contra hne
    rcases h.pending hne with hp | hp
    · exact hneParent c (hstops.exclusive.unique hin hp)
    · exact hneChild c (hstops.exclusive.unique hin hp)
  obtain ⟨s', hs'⟩ : ∃ s', s' = { s.requestPortConnection c r with
      posted := posted
      pendingPortRequests := pending } := ⟨_, rfl⟩
  have hconnection (c' : K) (p : PortName) : s'.pendingPortConnections c' p =
      if c' = c ∧ p = r.localPort then some r.callback else s.pendingPortConnections c' p := by
    rw [hs']
    simp only [requestPortConnection, hnone, Option.isSome_none, Bool.false_eq_true, if_false]
    exact update_connection _ _ _ _ _
  have hold {c' : K} {p : PortName} {callback : ℕ}
      (hp : s.pendingPortConnections c' p = some callback) :
      s'.pendingPortConnections c' p = some callback := by
    rw [hconnection, if_neg]
    · exact hp
    · rintro ⟨rfl, rfl⟩
      cases hnone.symm.trans hp
  have htoParent {c' : K} {m : ToParent} : m ∈ s'.toParent c' ↔ m ∈ s.toParent c' ∨
      c' = c ∧ m ∈ [ToParent.requestPortConnection r.localPort r.token] := by
    rw [hs']
    exact mem_update_append_iff
  rw [← hs']
  have hserver : s'.server = s.server := by rw [hs']; rfl
  have hinitialized : s'.initialized = s.initialized := by rw [hs']; rfl
  have e : s.Extends s' := by
    rw [hs']
    exact .of_eq rfl rfl rfl (fun _ => rfl) (List.Subset.refl _)
  have hmemChild (c' : K) : s'.holds (.toChild c') = s.holds (.toChild c') := by rw [hs']; rfl
  have hmem : s'.holds .initialized = s.holds .initialized := by rw [hs']; rfl
  refine ⟨fun {i x} hx hc => ?_, fun {i t} ht => ?_, fun {c' r'} hr' => ?_,
    fun {c' p t} hm => ?_, fun {c' q p} hm => ?_, fun {c' p} hp => ?_, fun {t r'} hr' => ?_,
    fun {i t r'} hr' => ?_⟩
  · rw [hs'] at hx hc ⊢
    exact h.token hx hc
  · rw [hs'] at ht ⊢
    exact h.sent ht
  · rw [hs'] at hr'
    exact e.requests (h.posted (hposted hr'))
  · rcases htoParent.1 hm with hm | ⟨rfl, hm⟩
    · obtain ⟨callback, hr, hc⟩ := h.toParent hm
      exact ⟨callback, e.requests hr, hold hc⟩
    · obtain ⟨rfl, rfl⟩ := ToParent.requestPortConnection.inj (List.mem_singleton.1 hm)
      exact ⟨r.callback, e.requests hr, (hconnection _ _).trans (if_pos ⟨rfl, rfl⟩)⟩
  · have hm' : .connectToPort q p ∈ s.toChild c' := by rwa [hs'] at hm
    obtain ⟨i, callback, hq, hc, hp, hpending, hinit⟩ := h.toChild hm'
    rw [e.name]
    exact ⟨i, callback, e.portAt hq, e.pipes hc, e.client hp, hold hpending,
      e.initialized hinit⟩
  · rw [hmemChild, mem_toParent]
    rw [hconnection] at hp
    split_ifs at hp with hcp
    · obtain ⟨rfl, rfl⟩ := hcp
      exact .inl ⟨r.token, htoParent.2 (.inr ⟨rfl, List.mem_singleton_self _⟩)⟩
    · exact (h.pending hp).imp_left fun hp =>
        (mem_toParent.1 hp).imp fun _ hm => htoParent.2 (.inl hm)
  · rw [hs'] at hr' ⊢
    exact h.reserved hr'
  · rw [hserver] at hr'
    rw [hinitialized, hmem]
    refine (h.served hr').imp (fun hr => by rw [hs']; exact hr) ?_
    rintro ⟨c', p, hc, hp, hinit⟩
    refine ⟨c', p, e.clientAt hc, ?_, ?_⟩
    · rwa [hmemChild]
    · rwa [e.name]

/-- The parent reserves a port, and sends its token. -/
theorem reserve (h : s.Requested) (e : s.Extends s') {i : ℕ} {t : String} {r : ReservedPort}
    (hsize : t.utf8ByteSize ≤ kMaxTokenSize)
    (hfresh : ∀ {j x}, s.server j = some x → x.1 ≠ t) (hnot : ¬s.Initialized none r.localPort)
    (hs' : s' = { s with
      node := s'.node
      server := Function.update s.server i (some (t, r))
      token := Function.update s.token i (some t)
      reservedPorts := Function.update s.reservedPorts t (some r) }) : s'.Requested := by
  have hserver (j : ℕ) : s'.server j = if j = i then some (t, r) else s.server j := by
    rw [hs']
    exact Function.update_apply _ _ _ _
  have htoken (j : ℕ) : s'.token j = if j = i then some t else s.token j := by
    rw [hs']
    exact Function.update_apply _ _ _ _
  have hreservedPorts (t' : String) : s'.reservedPorts t' =
      if t' = t then some r else s.reservedPorts t' := by
    rw [hs']
    exact Function.update_apply _ _ _ _
  have hinitialized : s'.initialized = s.initialized := by rw [hs']
  have hconnections : s'.pendingPortConnections = s.pendingPortConnections := by rw [hs']
  have hmemParent (c' : K) : s'.holds (.toParent c') = s.holds (.toParent c') := by rw [hs']; rfl
  have hmemChild (c' : K) : s'.holds (.toChild c') = s.holds (.toChild c') := by rw [hs']; rfl
  have hmem : s'.holds .initialized = s.holds .initialized := by rw [hs']; rfl
  refine ⟨fun {j x} hx hj => ?_, fun {j t'} ht => ?_, fun {c' r'} h' => ?_,
    fun {c' p t'} h' => ?_, fun {c' q p} h' => ?_, fun {c' p} h' => ?_, fun {t' r'} h' => ?_,
    fun {j t' r'} h' => ?_⟩
  · have hj' : s.client j = none := by rwa [hs'] at hj
    rw [hserver] at hx
    rw [htoken]
    split_ifs at hx ⊢
    · exact fun h => by cases h
    · exact h.token hx hj'
  · rw [htoken] at ht
    split_ifs at ht with hj
    · obtain rfl := Option.some.inj ht
      exact ⟨hsize, r, (hserver j).trans (if_pos hj)⟩
    · exact (h.sent ht).imp_right (Exists.imp fun _ => e.server)
  · rw [hs'] at h'
    exact e.requests (h.posted h')
  · rw [hs'] at h'
    obtain ⟨callback, hr, hp⟩ := h.toParent h'
    exact ⟨callback, e.requests hr, hconnections ▸ hp⟩
  · rw [hs'] at h'
    obtain ⟨j, callback, hq, hc, hp, hpending, hinit⟩ := h.toChild h'
    rw [e.name, hconnections]
    exact ⟨j, callback, e.portAt hq, e.pipes hc, e.client hp, hpending, e.initialized hinit⟩
  · rw [hconnections] at h'
    rw [hmemParent, hmemChild]
    exact h.pending h'
  · rw [Initialized, hinitialized]
    rw [hreservedPorts] at h'
    split_ifs at h' with ht
    · obtain rfl := Option.some.inj h'
      exact ⟨⟨i, by rw [ht, hserver, if_pos rfl]⟩, hnot⟩
    · exact (h.reserved h').imp_left (Exists.imp fun _ => e.server)
  · rw [hreservedPorts]
    rw [hserver] at h'
    split_ifs at h' with hj
    · obtain ⟨rfl, rfl⟩ := Prod.mk.inj (Option.some.inj h')
      exact .inl (if_pos rfl)
    · rw [if_neg (hfresh h')]
      refine (h.served h').imp_right ?_
      rintro ⟨c', p, hc, hp, hinit⟩
      refine ⟨c', p, e.clientAt hc, ?_, ?_⟩
      · rwa [hmemChild, hmem]
      · rw [e.name]
        exact e.initialized hinit

omit [DecidableEq K] in
/-- The ports that have a peer, once another one is given its peer. -/
theorem initialized_concat {x : Option K × PortName × NodeName × PortName}
    (hx : s'.initialized = s.initialized ++ [x]) {process : Option K} {p : PortName} :
    s'.Initialized process p ↔ s.Initialized process p ∨ (process, p) = (x.1, x.2.1) := by
  rw [Initialized, hx, List.map_append, List.mem_append]
  exact or_congr_right List.mem_singleton

/-- A request that waits for the parent is still there, or it is the one that is answered. -/
theorem pending_answer (h : s.Requested) {p p' : PortName} {t : String} {ms : List ToParent}
    {c' : K} (hm : s.toParent c = .requestPortConnection p t :: ms)
    (hs' : s'.toParent = Function.update s.toParent c ms)
    (hchild : ∀ {m : ToChild}, m ∈ s.toChild c' → m ∈ s'.toChild c')
    {q : PortName} (hanswer : .connectToPort q p ∈ s'.toChild c)
    (hp : s.pendingPortConnections c' p' ≠ none) :
    (c', p') ∈ s'.holds (.toParent c') ∨ (c', p') ∈ s'.holds (.toChild c') := by
  rcases h.pending hp with hp | hp
  · obtain ⟨t', hp⟩ := mem_toParent.1 hp
    rcases mem_update_or_of_cons hm hp with hp | ⟨rfl, heq⟩
    · refine .inl (mem_toParent.2 ⟨t', ?_⟩)
      rwa [hs']
    · obtain ⟨rfl, rfl⟩ := ToParent.requestPortConnection.inj heq
      exact .inr (mem_toChild.2 ⟨_, hanswer⟩)
  · exact .inr (mem_toChild.2 ((mem_toChild.1 hp).imp fun _ => hchild))

/-- The parent serves a request, and answers it. -/
theorem answer (h : s.Requested) (hends : s.Ends) (e : s.Extends s') {i : ℕ} {p : PortName}
    {t : String} {r : ReservedPort} {callback : ℕ} {ms : List ToParent}
    (hc : s.pipes[i]? = some c) (hr : s.server i = some (t, r))
    (hp : s.client i = some (p, callback)) (hpending : s.pendingPortConnections c p = some callback)
    (hreserved : s.reservedPorts t = some r)
    (hm : s.toParent c = .requestPortConnection p t :: ms)
    (hs' : s' = { s with
      node := s'.node
      toParent := Function.update s.toParent c ms
      reservedPorts := Function.update s.reservedPorts t none
      toChild := Function.update s.toChild c (s.toChild c ++ [.connectToPort r.localPort p])
      initialized := s.initialized ++ [(none, r.localPort, (s.node (some c)).name, p)]
      callbacks := s'.callbacks }) : s'.Requested := by
  have hsubset {c' : K} {m : ToParent} (h' : m ∈ s'.toParent c') : m ∈ s.toParent c' := by
    rw [hs'] at h'
    exact mem_of_mem_update (hm ▸ List.subset_cons_self _ _) h'
  have htoChild {c' : K} {m : ToChild} : m ∈ s'.toChild c' ↔
      m ∈ s.toChild c' ∨ c' = c ∧ m ∈ [ToChild.connectToPort r.localPort p] := by
    rw [hs']
    exact mem_update_append_iff
  have hinitialized : s'.initialized =
      s.initialized ++ [(none, r.localPort, (s.node (some c)).name, p)] := by rw [hs']
  have hconnections : s'.pendingPortConnections = s.pendingPortConnections := by rw [hs']
  have hreservedPorts (t' : String) :
      s'.reservedPorts t' = if t' = t then none else s.reservedPorts t' := by
    rw [hs']
    exact Function.update_apply _ _ _ _
  have hnew : (none, r.localPort, (s.node (some c)).name, p) ∈ s'.initialized := by
    rw [hinitialized]
    exact List.mem_append_right _ (List.mem_singleton_self _)
  have hanswer : .connectToPort r.localPort p ∈ s'.toChild c :=
    htoChild.2 (.inr ⟨rfl, List.mem_singleton_self _⟩)
  have hmemChild {c' : K} {p' : PortName} (h' : (c', p') ∈ s.holds (.toChild c')) :
      (c', p') ∈ s'.holds (.toChild c') :=
    mem_toChild.2 ((mem_toChild.1 h').imp fun _ hm => htoChild.2 (.inl hm))
  have hmem {c' : K} {p' : PortName} (h' : (c', p') ∈ s.holds .initialized) :
      (c', p') ∈ s'.holds .initialized :=
    mem_initialized.2 ((initialized_concat hinitialized).2 (.inl (mem_initialized.1 h')))
  refine ⟨fun {j x} hx hj => ?_, fun {j t'} ht => ?_, fun {c' r'} h' => ?_,
    fun {c' p' t'} h' => ?_, fun {c' q' p'} h' => ?_, fun {c' p'} h' => ?_, fun {t' r'} h' => ?_,
    fun {j t' r'} h' => ?_⟩
  · rw [hs'] at hx hj ⊢
    exact h.token hx hj
  · rw [hs'] at ht ⊢
    exact h.sent ht
  · rw [hs'] at h'
    exact e.requests (h.posted h')
  · obtain ⟨callback', hr', hp'⟩ := h.toParent (hsubset h')
    exact ⟨callback', e.requests hr', hconnections ▸ hp'⟩
  · rw [e.name, hconnections]
    rcases htoChild.1 h' with h' | ⟨rfl, h'⟩
    · obtain ⟨j, callback', hq', hc', hp', hpending', hinit⟩ := h.toChild h'
      exact ⟨j, callback', e.portAt hq', e.pipes hc', e.client hp', hpending',
        e.initialized hinit⟩
    · obtain ⟨rfl, rfl⟩ := ToChild.connectToPort.inj (List.mem_singleton.1 h')
      exact ⟨i, callback, e.portAt (portAt_server hr), e.pipes hc, e.client hp, hpending, hnew⟩
  · rw [hconnections] at h'
    exact h.pending_answer hm (by rw [hs']) (fun h' => htoChild.2 (.inl h')) hanswer h'
  · rw [hreservedPorts] at h'
    split_ifs at h' with ht
    obtain ⟨⟨j, hj⟩, hnot⟩ := h.reserved h'
    refine ⟨⟨j, e.server hj⟩, fun hinit => ?_⟩
    rcases (initialized_concat hinitialized).1 hinit with hinit | hinit
    · exact hnot hinit
    · -- The reservation that is gone is the only one for its port.
      have heq : r'.localPort = r.localPort := (Prod.mk.inj hinit).2
      obtain rfl := hends.inj (portAt_server hj) (heq ▸ portAt_server hr)
      cases hj.symm.trans hr
      exact ht rfl
  · have hr' : s.server j = some (t', r') := by rwa [hs'] at h'
    rw [hreservedPorts]
    rcases h.served hr' with h₁ | ⟨c', p', hc', hp', hinit⟩
    · split_ifs with ht
      · subst ht
        obtain rfl := hends.token hr' hr
        cases hr'.symm.trans hr
        refine .inr ⟨c, p, e.clientAt (portAt_child.1 (portAt_client hc hp)),
          .inl (mem_toChild.2 ⟨_, hanswer⟩), ?_⟩
        rwa [e.name]
      · exact .inl h₁
    · refine .inr ⟨c', p', e.clientAt hc', hp'.imp hmemChild hmem, ?_⟩
      rw [e.name]
      exact e.initialized hinit

omit [DecidableEq K] in
/-- There is one answer for a port. -/
theorem notMem_of_answer (hstops : s.Stops) {q p : PortName} {ms : List ToChild}
    (hm : s.toChild c = .connectToPort q p :: ms) (q' : PortName) :
    .connectToPort q' p ∉ ms := by
  intro hq'
  have ho : s.holds (.toChild c) = (c, p) ::
      ms.filterMap fun m => (ToChild.port m).map (c, ·) := by
    rw [holds, ports, hm]
    rfl
  have hnodup := hstops.exclusive.nodup (.toChild c)
  rw [ho] at hnodup
  exact (List.nodup_cons.1 hnodup).1 (List.mem_filterMap.2 ⟨_, hq', rfl⟩)

/-- The ports whose answers wait for a child, once it takes one. -/
theorem toChild_or_of_cons {q p : PortName} {ms : List ToChild}
    (hm : s.toChild c = .connectToPort q p :: ms)
    (hs' : s'.toChild = Function.update s.toChild c ms) {c' : K} {p' : PortName}
    (h : (c', p') ∈ s.holds (.toChild c')) :
    (c', p') ∈ s'.holds (.toChild c') ∨ (c', p') = (c, p) := by
  obtain ⟨q', h⟩ := mem_toChild.1 h
  rcases mem_update_or_of_cons hm h with h | ⟨rfl, heq⟩
  · refine .inl (mem_toChild.2 ⟨q', ?_⟩)
    rwa [hs']
  · obtain ⟨-, rfl⟩ := ToChild.connectToPort.inj heq
    exact .inr rfl

/-- A child takes an answer. -/
theorem connect (h : s.Requested) (hstops : s.Stops) (e : s.Extends s') {q p : PortName}
    {ms : List ToChild} (hm : s.toChild c = .connectToPort q p :: ms)
    (hs' : s' = { s with
      node := s'.node
      toChild := Function.update s.toChild c ms
      pendingPortConnections := Function.update s.pendingPortConnections c
        (Function.update (s.pendingPortConnections c) p none)
      initialized := s.initialized ++ [(some c, p, (s.node none).name, q)]
      callbacks := s'.callbacks }) : s'.Requested := by
  have hsubset {c' : K} {m : ToChild} (h' : m ∈ s'.toChild c') : m ∈ s.toChild c' := by
    rw [hs'] at h'
    exact mem_of_mem_update (hm ▸ List.subset_cons_self _ _) h'
  have hinitialized : s'.initialized =
      s.initialized ++ [(some c, p, (s.node none).name, q)] := by rw [hs']
  have hconnection (c' : K) (p' : PortName) : s'.pendingPortConnections c' p' =
      if c' = c ∧ p' = p then none else s.pendingPortConnections c' p' := by
    rw [hs']
    exact update_connection _ _ _ _ _
  have hold {c' : K} {p' : PortName} (hne : (c', p') ≠ (c, p)) :
      s'.pendingPortConnections c' p' = s.pendingPortConnections c' p' := by
    rw [hconnection, if_neg fun h => hne (Prod.ext h.1 h.2)]
  have hmemParent (c' : K) : s'.holds (.toParent c') = s.holds (.toParent c') := by rw [hs']; rfl
  have hmem {c' : K} {p' : PortName} (h' : (c', p') ∈ s.holds .initialized) :
      (c', p') ∈ s'.holds .initialized :=
    mem_initialized.2 ((initialized_concat hinitialized).2 (.inl (mem_initialized.1 h')))
  have hnew : (c, p) ∈ s'.holds .initialized :=
    mem_initialized.2 ((initialized_concat hinitialized).2 (.inr rfl))
  have hmemChild {c' : K} {p' : PortName} (h' : (c', p') ∈ s.holds (.toChild c')) :
      (c', p') ∈ s'.holds (.toChild c') ∨ (c', p') = (c, p) :=
    toChild_or_of_cons hm (by rw [hs']) h'
  have hgone (q' : PortName) : .connectToPort q' p ∉ s'.toChild c := by
    rw [hs']
    simp only [Function.update_self]
    exact notMem_of_answer hstops hm q'
  have hin : (c, p) ∈ s.holds (.toChild c) := mem_toChild.2 ⟨q, hm ▸ List.mem_cons_self⟩
  refine ⟨fun {j x} hx hj => ?_, fun {j t} ht => ?_, fun {c' r} h' => ?_,
    fun {c' p' t} h' => ?_, fun {c' q' p'} h' => ?_, fun {c' p'} h' => ?_, fun {t r} h' => ?_,
    fun {j t r} h' => ?_⟩
  · rw [hs'] at hx hj ⊢
    exact h.token hx hj
  · rw [hs'] at ht ⊢
    exact h.sent ht
  · rw [hs'] at h'
    exact e.requests (h.posted h')
  · have hm' : .requestPortConnection p' t ∈ s.toParent c' := by rwa [hs'] at h'
    obtain ⟨callback, hr, hp'⟩ := h.toParent hm'
    refine ⟨callback, e.requests hr, (hold fun heq => ?_).trans hp'⟩
    obtain ⟨rfl, rfl⟩ := Prod.mk.inj heq
    cases hstops.exclusive.unique hin (mem_toParent.2 ⟨t, hm'⟩)
  · obtain ⟨j, callback, hq', hc', hp', hpending, hinit⟩ := h.toChild (hsubset h')
    rw [e.name]
    refine ⟨j, callback, e.portAt hq', e.pipes hc', e.client hp',
      (hold fun heq => ?_).trans hpending, e.initialized hinit⟩
    obtain ⟨rfl, rfl⟩ := Prod.mk.inj heq
    exact hgone q' h'
  · rw [hconnection] at h'
    split_ifs at h' with heq
    · exact absurd rfl h'
    · rw [hmemParent]
      refine (h.pending h').imp_right fun h₁ => (hmemChild h₁).resolve_right fun h => heq ?_
      exact Prod.mk.inj h
  · have hr : s.reservedPorts t = some r := by rwa [hs'] at h'
    refine (h.reserved hr).imp (Exists.imp fun _ => e.server) fun hnot hinit => ?_
    rcases (initialized_concat hinitialized).1 hinit with hinit | hinit
    · exact hnot hinit
    · cases (Prod.mk.inj hinit).1
  · have hr : s.server j = some (t, r) := by rwa [hs'] at h'
    refine (h.served hr).imp (fun h₁ => by rw [hs']; exact h₁) ?_
    rintro ⟨c', p', hc', hp', hinit⟩
    refine ⟨c', p', e.clientAt hc', ?_, ?_⟩
    · rcases hp' with hp' | hp'
      · rcases hmemChild hp' with hp' | heq
        · exact .inl hp'
        · exact .inr (heq ▸ hnew)
      · exact .inr (hmem hp')
    · rw [e.name]
      exact e.initialized hinit

end Requested

/-! ## Quiet steps -/

omit [DecidableEq K] in
theorem waiting_congr (hclient : ∀ i, s'.clientAt i = s.clientAt i)
    (hserver : s'.server = s.server) (htoken : s'.token = s.token) : s'.waiting = s.waiting := by
  funext i
  rw [waiting, waiting, hclient, hserver, htoken]

variable (s') in
/-- A greeting is sent or read, if anything is, and a node does what leaves the ports that have
    no peer alone. -/
theorem Inv.quiet (hs : s.Inv) (hframe : s' = { s with
      node := s'.node
      child := s'.child
      parent := s'.parent
      toParent := s'.toParent
      toChild := s'.toChild })
    (hends : { s with node := s'.node, parent := s'.parent }.Ends)
    (hname : ∀ x, (s'.node x).name = (s.node x).name)
    (htoParent : ∀ c, s'.toParent c = s.toParent c ∨ ∃ name,
      s'.toParent c = s.toParent c ++ [.acceptParent name] ∨
        s.toParent c = .acceptParent name :: s'.toParent c)
    (htoChild : ∀ c, s'.toChild c = s.toChild c ∨ ∃ name,
      s'.toChild c = s.toChild c ++ [.acceptChild name] ∨
        s.toChild c = .acceptChild name :: s'.toChild c) :
    s'.Ends ∧ s'.Stops ∧ s'.Requested ∧ s'.Connected := by
  have hports (c : K) : (s'.toParent c).filterMap (fun m => (ToParent.port m).map (c, ·)) =
      (s.toParent c).filterMap fun m => (ToParent.port m).map (c, ·) := by
    rcases htoParent c with h | ⟨name, h | h⟩
    · rw [h]
    · rw [h, List.filterMap_append]
      exact List.append_nil _
    · rw [h]
      rfl
  have hports' (c : K) : (s'.toChild c).filterMap (fun m => (ToChild.port m).map (c, ·)) =
      (s.toChild c).filterMap fun m => (ToChild.port m).map (c, ·) := by
    rcases htoChild c with h | ⟨name, h | h⟩
    · rw [h]
    · rw [h, List.filterMap_append]
      exact List.append_nil _
    · rw [h]
      rfl
  have hinitialized : s'.initialized = s.initialized := by rw [hframe]
  have e : s.Extends s' := by
    refine .of_eq ?_ ?_ ?_ hname (hinitialized ▸ List.Subset.refl _)
    · rw [hframe]
    · rw [hframe]
    · rw [hframe]
  refine ⟨?_, ?_, ?_, hs.connected.congr e hinitialized (by rw [hframe])⟩
  · rw [hframe]
    exact hends.congr rfl rfl rfl rfl rfl fun _ => id
  · refine hs.stops.congr (funext fun o => ?_) fun _ => by rw [hframe]; rfl
    rw [hframe]
    cases o with
    | toParent c => exact hports c
    | toChild c => exact hports' c
    | _ => rfl
  · refine hs.requested.congr e (by rw [hframe]; exact id) (by rw [hframe]; exact (⟨·, rfl⟩))
      (by rw [hframe]; exact id) (fun h => ?_) (by rw [hframe]) (by rw [hframe]) hinitialized
      (fun {c p t} => ?_) fun {c q p} => ?_
    · rw [hframe] at h
      exact e.requests (hs.requested.posted h)
    · rcases htoParent c with h | ⟨name, h | h⟩ <;> simp [h]
    · rcases htoChild c with h | ⟨name, h | h⟩ <;> simp [h]

/-! ## Requests that waited -/

theorem foldl_requestPortConnection (rs : List PortRequest) {pending : K → List PortRequest} :
    { rs.foldl (requestPortConnection c) s with pendingPortRequests := pending } =
      rs.foldl (requestPortConnection c) { s with pendingPortRequests := pending } := by
  induction rs generalizing s with
  | nil => rfl
  | cons r rs ih => exact ih

theorem pendingPortRequests_foldl (rs : List PortRequest) :
    (rs.foldl (requestPortConnection c) s).pendingPortRequests = s.pendingPortRequests := by
  induction rs generalizing s with
  | nil => rfl
  | cons r rs ih => exact ih

/-- What waited for the parent is sent. -/
theorem flush {rs : List PortRequest} (hrs : s.pendingPortRequests c = rs) (hstops : s.Stops)
    (hrequested : s.Requested) : ∃ s', s' = rs.foldl (requestPortConnection c) { s with
      pendingPortRequests := Function.update s.pendingPortRequests c [] } ∧
    s'.Stops ∧ s'.Requested ∧ ∃ connections ms, s' = { s with
      pendingPortRequests := Function.update s.pendingPortRequests c []
      pendingPortConnections := connections
      toParent := Function.update s.toParent c (s.toParent c ++ ms) } ∧
    ∀ name, .acceptParent name ∉ ms := by
  induction rs generalizing s with
  | nil =>
    have heq : { s with
        pendingPortRequests := Function.update s.pendingPortRequests c [] } = s := by
      rw [← hrs, Function.update_eq_self]
    refine ⟨s, heq.symm, hstops, hrequested, s.pendingPortConnections, [], ?_,
      fun _ h => by cases h⟩
    rw [List.append_nil, Function.update_eq_self, ← hrs, Function.update_eq_self]
  | cons r rs ih =>
    have hr : s.Requests c r :=
      hrequested.posted (.inr (by rw [hrs]; exact List.mem_cons_self))
    have ho : s.holds (.pending c) =
        (c, r.localPort) :: rs.map fun r => (c, r.localPort) := by
      rw [holds, ports, hrs]
      rfl
    have hmem {c' : K} {r' : PortRequest}
        (h : r' ∈ s.posted c' ∨ r' ∈ Function.update s.pendingPortRequests c rs c') :
        r' ∈ s.posted c' ∨ r' ∈ s.pendingPortRequests c' :=
      h.imp_right (mem_of_mem_update (hrs ▸ List.subset_cons_self _ _))
    have hrequested' := hrequested.request hstops hr ho (fun _ h => by cases h)
      (fun _ h => by cases h) hmem
    have hstops' : { s.requestPortConnection c r with
        pendingPortRequests := Function.update s.pendingPortRequests c rs }.Stops := by
      refine hstops.shift (.toParent c) ho (fun h => by cases h) ?_ fun _ => rfl
      refine (ports_toParent c _).trans ?_
      rw [List.filterMap_append]
      refine congrArg (Function.update · _ _) ?_
      exact ports_pending c rs
    obtain ⟨s', hs', hst, hrq, connections, ms, heq, hms⟩ :=
      ih (Function.update_self _ _ _) hstops' hrequested'
    refine ⟨s', ?_, hst, hrq, connections, .requestPortConnection r.localPort r.token :: ms, ?_,
      fun name h => ?_⟩
    · rw [hs', List.foldl_cons]
      simp only [Function.update_idem]
      rfl
    · rw [heq]
      simp only [Function.update_idem, requestPortConnection, Function.update_self,
        List.append_assoc, List.cons_append, List.nil_append]
    · exact hms name (List.mem_of_ne_of_mem (fun h => by cases h) h)

/-! ## Ports get their peers -/

omit [DecidableEq K] in
theorem ports_initialized_none {w : ℕ → List (K × PortName)} {posted pending : K → List PortRequest}
    {toParent : K → List ToParent} {toChild : K → List ToChild}
    {l : List (Option K × PortName × NodeName × PortName)} (e : PortName × NodeName × PortName) :
    ports w posted pending toParent toChild (l ++ [(none, e)]) =
      ports w posted pending toParent toChild l := by
  funext o
  cases o with
  | initialized =>
    rw [ports, List.filterMap_append]
    exact List.append_nil _
  | _ => rfl

/-- The parent has the reservation that a child asks for. Who waits for an answer, or has one,
    does not ask. -/
theorem Inv.reserved_of_request (hs : s.Inv) {p : PortName} {t : String}
    (hmem : .requestPortConnection p t ∈ s.toParent c) : ∃ i r callback,
      s.pipes[i]? = some c ∧ s.server i = some (t, r) ∧ s.client i = some (p, callback) ∧
        s.pendingPortConnections c p = some callback ∧ s.reservedPorts t = some r := by
  obtain ⟨callback, ⟨i, hc, ⟨r, hr⟩, hp⟩, hpending⟩ := hs.requested.toParent hmem
  have hin : (c, p) ∈ s.holds (.toParent c) := mem_toParent.2 ⟨t, hmem⟩
  refine ⟨i, r, callback, hc, hr, hp, hpending, ?_⟩
  rcases hs.requested.served hr with h | ⟨c', p', hc', h, -⟩
  · exact h
  · cases hc'.symm.trans (portAt_child.1 (portAt_client hc hp))
    rcases h with h | h
    · cases hs.stops.exclusive.unique hin h
    · cases hs.stops.exclusive.unique hin h

theorem Inv.onRequestPortConnection (hs : s.Inv) {p : PortName} {t : String} {ms : List ToParent}
    (hm : s.toParent c = .requestPortConnection p t :: ms) (hreads : (s.child c).Reads) :
    ∃ s', { s with toParent := Function.update s.toParent c ms }.onRequestPortConnection c p t =
      some s' ∧ s'.Inv := by
  obtain ⟨hchild, hparent, hG, hG'⟩ := (hs.greeting c).of_requestPortConnection hm
  obtain ⟨i, r, callback, hc, hr, hp, hpending, hreserved⟩ :=
    hs.reserved_of_request (hm ▸ List.mem_cons_self)
  obtain ⟨-, hnot⟩ := hs.requested.reserved hreserved
  have hends : { s with
      toParent := Function.update s.toParent c ms
      reservedPorts := Function.update s.reservedPorts t none }.Ends :=
    hs.ends.congr rfl rfl rfl rfl rfl fun _ => id
  obtain ⟨hok, hends', hname⟩ := hends.initializePort (portAt_server hr) hnot
    (fun _ h => by cases h) (s.node (some c)).name p
  obtain ⟨s', hs'⟩ : ∃ s', s' = { s.setPeer none r.localPort (s.node (some c)).name p with
      toParent := Function.update s.toParent c ms
      reservedPorts := Function.update s.reservedPorts t none
      toChild := Function.update s.toChild c (s.toChild c ++ [ToChild.connectToPort r.localPort p])
      callbacks := s.callbacks ++ [(none, r.callback, r.localPort)] } := ⟨_, rfl⟩
  refine ⟨s', ?_, ?_⟩
  · rw [Bootstraps.onRequestPortConnection, hreserved]
    simp only [hchild.resolve_right hreads.2]
    rw [hok, hs']
    rfl
  have hname' (x : Option K) : (s'.node x).name = (s.node x).name := by
    rw [hs']
    exact hname x
  have hinitialized : s'.initialized =
      s.initialized ++ [(none, r.localPort, (s.node (some c)).name, p)] := by rw [hs']; rfl
  have e : s.Extends s' := by
    refine .of_eq ?_ ?_ ?_ hname' (hinitialized ▸ List.subset_append_left _ _) <;> rw [hs'] <;> rfl
  have htoParent : s'.toParent = Function.update s.toParent c ms := by rw [hs']
  have htoChild : s'.toChild = Function.update s.toChild c
      (s.toChild c ++ [.connectToPort r.localPort p]) := by rw [hs']
  refine ⟨fun c' => ?_, ?_, ?_, ?_, ?_, ?_⟩
  · by_cases hc' : c' = c
    · subst hc'
      refine .of_done hchild hparent hG hG' (by rw [hs']; rfl) (by rw [hs']; rfl)
        (fun name h => ?_) (fun name h => ?_) hname'
      · rw [htoParent] at h
        exact mem_of_mem_update (hm ▸ List.subset_cons_self _ _) h
      · rw [htoChild] at h
        refine (mem_update_append_iff.1 h).resolve_right fun h => ?_
        cases List.mem_singleton.1 h.2
    · exact (hs.greeting c').congr (by rw [hs']; rfl) (by rw [hs']; rfl)
        (by rw [htoParent, Function.update_of_ne hc'])
        (by rw [htoChild, Function.update_of_ne hc']) hname'
  · rw [hs']
    exact hs.flushed
  · rw [hs']
    exact hends'.congr rfl rfl rfl rfl rfl fun _ => id
  · have ho : s.holds (.toParent c) = (c, p) ::
        ms.filterMap fun m => (ToParent.port m).map (c, ·) := by
      rw [holds, ports, hm]
      rfl
    refine hs.stops.shift (.toChild c) ho (fun h => by cases h) ?_ fun _ => by rw [hs']; rfl
    rw [hs']
    refine (ports_initialized_none _).trans ((ports_toChild c _).trans ?_)
    rw [List.filterMap_append]
    exact congrArg (Function.update · _ _) (ports_toParent c ms)
  · exact hs.requested.answer hs.ends e hc hr hp hpending hreserved hm (by rw [hs']; rfl)
  · exact hs.connected.append e hnot hinitialized (by rw [hs'])
      (fun _ => ⟨i, c, portAt_server hr, portAt_client hc hp, rfl⟩) (fun _ h => by cases h)
      (.inl ⟨rfl, i, t, hr⟩)

/-- The port for an answer has no peer yet, and somebody waits for it. -/
theorem Inv.onConnectToPort (hs : s.Inv) {q p : PortName} {ms : List ToChild}
    (hm : s.toChild c = .connectToPort q p :: ms) (hreads : (s.parent c).Reads) :
    ∃ s', { s with toChild := Function.update s.toChild c ms }.onConnectToPort c q p =
      some s' ∧ s'.Inv := by
  obtain ⟨hchild, hparent, hG, hG'⟩ := (hs.greeting c).of_connectToPort hm
  have hmem : .connectToPort q p ∈ s.toChild c := hm ▸ List.mem_cons_self
  obtain ⟨i, callback, hq, hc, hp, hpending, hinit⟩ := hs.requested.toChild hmem
  have hport := portAt_client hc hp
  have hnot : ¬s.Initialized (some c) p := by
    intro h
    cases hs.stops.exclusive.unique (mem_toChild.2 ⟨q, hmem⟩) (mem_initialized.2 h)
  have hends : { s with toChild := Function.update s.toChild c ms }.Ends :=
    hs.ends.congr rfl rfl rfl rfl rfl fun _ => id
  have hknown : ∀ c', some c = some c' → s.parent c' ≠ .dropped := fun c' h =>
    Option.some.inj h ▸ hreads.2
  obtain ⟨hok, hends', hname⟩ :=
    hends.initializePort (i := i) (x := some c) (p := p) hport hnot hknown (s.node none).name q
  obtain ⟨s', hs'⟩ : ∃ s', s' = { s.setPeer (some c) p (s.node none).name q with
      toChild := Function.update s.toChild c ms
      pendingPortConnections := Function.update s.pendingPortConnections c
        (Function.update (s.pendingPortConnections c) p none)
      callbacks := s.callbacks ++ [(some c, callback, p)] } := ⟨_, rfl⟩
  refine ⟨s', ?_, ?_⟩
  · obtain ⟨port, hport', hstate⟩ := hs.ends.exists_uninitialized hport hnot hknown
    have hstatus : (s.node (some c)).getStatus p = .error .errorPortStateUnexpected := by
      rw [Node.getStatus, hport']
      exact if_neg (hstate ▸ by decide)
    rw [Bootstraps.onConnectToPort]
    simp only [hport', hstatus, hparent.resolve_right hreads.2, Contact.name]
    rw [hok, hs', Option.bind_some]
    simp only [setPeer, hpending]
    rfl
  have hname' (x : Option K) : (s'.node x).name = (s.node x).name := by
    rw [hs']
    exact hname x
  have hinitialized : s'.initialized = s.initialized ++ [(some c, p, (s.node none).name, q)] := by
    rw [hs']
    rfl
  have e : s.Extends s' := by
    refine .of_eq ?_ ?_ ?_ hname' (hinitialized ▸ List.subset_append_left _ _) <;> rw [hs'] <;> rfl
  have htoChild : s'.toChild = Function.update s.toChild c ms := by rw [hs']
  have htoParent : s'.toParent = s.toParent := by rw [hs']; rfl
  refine ⟨fun c' => ?_, fun {c' name} h => ?_, ?_, ?_, ?_, ?_⟩
  · by_cases hc' : c' = c
    · subst hc'
      refine .of_done hchild hparent hG hG' (by rw [hs']; rfl) (by rw [hs']; rfl)
        (fun name h => htoParent ▸ h) (fun name h => ?_) hname'
      rw [htoChild] at h
      exact mem_of_mem_update (hm ▸ List.subset_cons_self _ _) h
    · exact (hs.greeting c').congr (by rw [hs']; rfl) (by rw [hs']; rfl) (by rw [htoParent])
        (by rw [htoChild, Function.update_of_ne hc']) hname'
  · rw [hs'] at h ⊢
    exact hs.flushed h
  · rw [hs']
    exact hends'.congr rfl rfl rfl rfl rfl fun _ => id
  · have ho : s.holds (.toChild c) = (c, p) ::
        ms.filterMap fun m => (ToChild.port m).map (c, ·) := by
      rw [holds, ports, hm]
      rfl
    refine hs.stops.shift .initialized ho (fun h => by cases h) ?_
      fun _ => by rw [hs']; rfl
    rw [holds, ports_initialized (l := s.initialized), hinitialized, List.filterMap_append, hs']
    exact congrArg (Function.update · _ _) (ports_toChild c ms)
  · exact hs.requested.connect hs.stops e hm (by rw [hs']; rfl)
  · refine hs.connected.append e hnot hinitialized (by rw [hs']) (fun h => by cases h) ?_
      (.inr ⟨i, c, rfl, hc, hp⟩)
    intro c' hc'
    obtain rfl := Option.some.inj hc'
    exact ⟨⟨i, hq, hport⟩, rfl, hinit⟩

/-! ## Ends are made -/

theorem Inv.createPipe (hs : s.Inv) (c : K) : { s with pipes := s.pipes ++ [c] }.Inv := by
  have hpipes {i : ℕ} {c' : K} (h : s.pipes[i]? = some c') :
      (s.pipes ++ [c])[i]? = some c' := by
    rwa [List.getElem?_append_left (List.getElem?_eq_some_iff.1 h).1]
  have e : s.Extends { s with pipes := s.pipes ++ [c] } :=
    ⟨hpipes, id, id, fun _ => rfl, List.Subset.refl _⟩
  have hclient (i : ℕ) : { s with pipes := s.pipes ++ [c] }.clientAt i = s.clientAt i := by
    cases hi : s.client i with
    | none => simp [clientAt, hi]
    | some x =>
      simp only [clientAt]
      rw [List.getElem?_append_left (hs.ends.client_lt hi)]
  refine ⟨fun c' => (hs.greeting c').congr rfl rfl rfl rfl fun _ => rfl, hs.flushed,
    hs.ends.createPipe c, hs.stops.congr ?_ hclient, ?_, hs.connected.congr e rfl rfl⟩
  · rw [holds, waiting_congr hclient rfl rfl]
    rfl
  · exact hs.requested.congr e id (⟨·, rfl⟩) id
      (fun h => e.requests (hs.requested.posted h)) rfl rfl rfl Iff.rfl Iff.rfl

section Create

variable {i callback : ℕ} {t : String} {p : PortName}

theorem portAt_update_server (hserver : s'.server = Function.update s.server i (some (t, ⟨p, callback⟩)))
    (hclient : s'.client = s.client) (hpipes : s'.pipes = s.pipes) (j : ℕ) (y : Option K) :
    s'.portAt j y = if j = i ∧ y = none then some p else s.portAt j y := by
  cases y with
  | none =>
    rw [portAt, hserver, Function.update_apply]
    by_cases hj : j = i
    · rw [if_pos hj, if_pos ⟨hj, rfl⟩]
      rfl
    · rw [if_neg hj, if_neg fun h => hj h.1]
      rfl
  | some c' => rw [if_neg fun h => Option.some_ne_none c' h.2, portAt, portAt, hpipes, hclient]

omit [DecidableEq K] in
/-- The port of a child waits all the same, without a token and with one. -/
theorem waiting_update_server {x : String × ReservedPort} (hi : s.server i = none)
    (hserver : s'.server = Function.update s.server i (some x))
    (htoken : s'.token = Function.update s.token i (some t))
    (hclient : ∀ j, s'.clientAt j = s.clientAt j) : s'.waiting = s.waiting := by
  funext j
  rw [waiting, waiting, hserver, htoken, hclient]
  by_cases hj : j = i
  · subst hj
    rw [hi]
    simp only [Function.update_self]
    rfl
  · simp only [Function.update_of_ne hj]

/-- The parent has a port at its end of a pipe, under a token that is new. -/
theorem Ends.createParent (h : s.Ends) (hc : s.pipes[i]? = some c)
    (hfresh : ∀ {j x}, s.server j = some x → x.1 ≠ t)
    (hnode : s'.node = Function.update s.node none (s.node none).createUninitializedPort.1)
    (hserver : s'.server = Function.update s.server i
      (some (t, ⟨(s.node none).delegate.nextPortName, callback⟩)))
    (hclient : s'.client = s.client) (hpipes : s'.pipes = s.pipes)
    (hinitialized : s'.initialized = s.initialized) (hparent : s'.parent = s.parent) :
    s'.Ends ∧ ∀ y, (s'.node y).name = (s.node y).name := by
  have hcases {j : ℕ} {x : String × ReservedPort} (hx : s'.server j = some x) :
      j = i ∧ x.1 = t ∨ s.server j = some x := by
    rw [hserver, Function.update_apply] at hx
    split_ifs at hx with hj
    · exact .inl ⟨hj, congrArg Prod.fst (Option.some.inj hx).symm⟩
    · exact .inr hx
  refine h.create hnode hinitialized hparent (portAt_update_server hserver hclient hpipes)
    (fun {j x} hx => ?_) (fun {j x} hx => ?_) fun {j j' t' r r'} hr hr' => ?_
  · rw [hpipes]
    rcases hcases hx with ⟨rfl, -⟩ | hx
    · exact (List.getElem?_eq_some_iff.1 hc).1
    · exact h.server_lt hx
  · rw [hclient] at hx
    rw [hpipes]
    exact h.client_lt hx
  · rcases hcases hr with ⟨rfl, ht⟩ | hr
    · rcases hcases hr' with ⟨rfl, -⟩ | hr'
      · rfl
      · exact (hfresh hr' ht).elim
    · rcases hcases hr' with ⟨rfl, ht⟩ | hr'
      · exact (hfresh hr ht).elim
      · exact h.token hr hr'

theorem Inv.createParentMessagePipe (hs : s.Inv) (hc : s.pipes[i]? = some c)
    (hi : s.server i = none) (hsize : t.utf8ByteSize ≤ kMaxTokenSize)
    (hfresh : ∀ {j x}, s.server j = some x → x.1 ≠ t) :
    ∃ s', s.step (.createParentMessagePipe i t callback) = some s' ∧ s'.Inv := by
  obtain ⟨p, hp⟩ : ∃ p, p = (s.node none).delegate.nextPortName := ⟨_, rfl⟩
  -- The token is new, so that `insert` does insert.
  have hreserved : s.reservedPorts t = none := by
    by_contra hne
    obtain ⟨r, hr⟩ := Option.ne_none_iff_exists'.1 hne
    obtain ⟨⟨j, hj⟩, -⟩ := hs.requested.reserved hr
    exact hfresh hj rfl
  obtain ⟨s', hs'⟩ : ∃ s', s' = { s with
      node := Function.update s.node none (s.node none).createUninitializedPort.1
      server := Function.update s.server i (some (t, ⟨p, callback⟩))
      token := Function.update s.token i (some t)
      reservedPorts := Function.update s.reservedPorts t (some ⟨p, callback⟩) } := ⟨_, rfl⟩
  refine ⟨s', ?_, ?_⟩
  · rw [step, hc, hi]
    simp only [hreserved, Option.isSome_none, Bool.false_eq_true, if_false]
    rw [hs', hp, hs.ends.createUninitializedPort]
  obtain ⟨hends, hname⟩ : s'.Ends ∧ ∀ y, (s'.node y).name = (s.node y).name :=
    hs.ends.createParent hc hfresh (by rw [hs']) (by rw [hs', hp]) (by rw [hs']) (by rw [hs'])
      (by rw [hs']) (by rw [hs'])
  have hinitialized : s'.initialized = s.initialized := by rw [hs']
  have hclient (j : ℕ) : s'.clientAt j = s.clientAt j := by rw [hs']; rfl
  have e : s.Extends s' := by
    refine ⟨by rw [hs']; exact id, fun {j x} h => ?_, by rw [hs']; exact id, hname,
      hinitialized ▸ List.Subset.refl _⟩
    rw [hs']
    refine (Function.update_of_ne ?_ _ _).trans h
    rintro rfl
    cases hi.symm.trans h
  have hholds : s'.holds = s.holds := by
    rw [holds, waiting_update_server hi (by rw [hs']) (by rw [hs']) hclient, hs']
    rfl
  have hnot : ¬s.Initialized none p := by
    intro h
    obtain ⟨n, q, h⟩ := Connected.mem_map_iff.1 h
    obtain ⟨j, c', hj, -⟩ := hs.connected.parent h
    exact lt_irrefl _ (hp ▸ hs.ends.known hj)
  refine ⟨fun c' => (hs.greeting c').congr ?_ ?_ ?_ ?_ hname, ?_, hends,
    hs.stops.congr hholds hclient,
    hs.requested.reserve e hsize hfresh hnot (by rw [hs']),
    hs.connected.congr e hinitialized (by rw [hs'])⟩
  · rw [hs']
  · rw [hs']
  · rw [hs']
  · rw [hs']
  · rw [hs']
    exact hs.flushed

omit [DecidableEq K] in
theorem clientAt_update_client (hc : s.pipes[i]? = some c)
    (hclient : s'.client = Function.update s.client i (some (p, callback)))
    (hpipes : s'.pipes = s.pipes) (j : ℕ) :
    s'.clientAt j = if j = i then some (c, p) else s.clientAt j := by
  rw [clientAt, hclient, hpipes, Function.update_apply]
  by_cases hj : j = i
  · subst hj
    rw [if_pos rfl, if_pos rfl, hc]
    rfl
  · rw [if_neg hj, if_neg hj]
    rfl

theorem portAt_update_client (hc : s.pipes[i]? = some c) (hi : s.client i = none)
    (hserver : s'.server = s.server)
    (hclient : s'.client = Function.update s.client i (some (p, callback)))
    (hpipes : s'.pipes = s.pipes) (j : ℕ) (y : Option K) :
    s'.portAt j y = if j = i ∧ y = some c then some p else s.portAt j y := by
  cases y with
  | none => rw [if_neg fun h => Option.some_ne_none c h.2.symm, portAt, portAt, hserver]
  | some c' =>
    refine Option.ext fun r => ?_
    rw [portAt_child, clientAt_update_client hc hclient hpipes]
    by_cases hj : j = i
    · subst hj
      have hnone : s.portAt j (some c') = none := by
        rw [portAt, hi]
        exact ite_self none
      rw [if_pos rfl, hnone]
      by_cases hc' : c' = c
      · subst hc'
        simp
      · simp [hc', Ne.symm hc']
    · rw [if_neg hj, if_neg fun h => hj h.1, portAt_child]

omit [DecidableEq K] in
/-- The new port of a child waits for the token, which has not been received. -/
theorem waiting_update_client (htoken : s.server i ≠ none → s.token i ≠ none)
    (hserver : s'.server = s.server) (htoken' : s'.token = s.token)
    (hclient : ∀ j, s'.clientAt j = if j = i then some (c, p) else s.clientAt j) :
    s'.waiting = Function.update s.waiting i [(c, p)] := by
  refine Function.eq_update_iff.2 ⟨?_, fun j hj => ?_⟩
  · rw [waiting, hclient, hserver, htoken', if_pos rfl, if_pos, Option.toList_some]
    cases h : s.server i with
    | none => rfl
    | some x => exact Option.isSome_iff_ne_none.2 (htoken (h ▸ Option.some_ne_none x))
  · rw [waiting, waiting, hclient, hserver, htoken', if_neg hj]

/-- A child has a port at its end of a pipe. -/
theorem Ends.createChild (h : s.Ends) (hc : s.pipes[i]? = some c) (hi : s.client i = none)
    (hnode : s'.node = Function.update s.node (some c) (s.node (some c)).createUninitializedPort.1)
    (hserver : s'.server = s.server)
    (hclient : s'.client = Function.update s.client i
      (some ((s.node (some c)).delegate.nextPortName, callback)))
    (hpipes : s'.pipes = s.pipes) (hinitialized : s'.initialized = s.initialized)
    (hparent : s'.parent = s.parent) :
    s'.Ends ∧ ∀ y, (s'.node y).name = (s.node y).name := by
  refine h.create hnode hinitialized hparent (portAt_update_client hc hi hserver hclient hpipes)
    (fun {j x} hx => ?_) (fun {j x} hx => ?_) fun {j j' t' r r'} hr hr' => ?_
  · rw [hserver] at hx
    rw [hpipes]
    exact h.server_lt hx
  · rw [hclient, Function.update_apply] at hx
    rw [hpipes]
    split_ifs at hx with hj
    · exact hj ▸ (List.getElem?_eq_some_iff.1 hc).1
    · exact h.client_lt hx
  · rw [hserver] at hr hr'
    exact h.token hr hr'

theorem Inv.createChildMessagePipe (hs : s.Inv) (hc : s.pipes[i]? = some c)
    (hi : s.client i = none) :
    ∃ s', s.step (.createChildMessagePipe i callback) = some s' ∧ s'.Inv := by
  obtain ⟨p, hp⟩ : ∃ p, p = (s.node (some c)).delegate.nextPortName := ⟨_, rfl⟩
  obtain ⟨s', hs'⟩ : ∃ s', s' = { s with
      node := Function.update s.node (some c) (s.node (some c)).createUninitializedPort.1
      client := Function.update s.client i (some (p, callback)) } := ⟨_, rfl⟩
  refine ⟨s', ?_, ?_⟩
  · rw [step, hc, hi]
    simp only
    rw [hs', hp, hs.ends.createUninitializedPort]
  have hclient : s'.client = Function.update s.client i (some (p, callback)) := by rw [hs']
  have hclientAt : ∀ j, s'.clientAt j = if j = i then some (c, p) else s.clientAt j :=
    clientAt_update_client hc hclient (by rw [hs'])
  obtain ⟨hends, hname⟩ : s'.Ends ∧ ∀ y, (s'.node y).name = (s.node y).name :=
    hs.ends.createChild hc hi (by rw [hs']) (by rw [hs']) (by rw [hs', hp]) (by rw [hs'])
      (by rw [hs']) (by rw [hs'])
  have hinitialized : s'.initialized = s.initialized := by rw [hs']
  have e : s.Extends s' := by
    refine ⟨by rw [hs']; exact id, by rw [hs']; exact id, fun {j x} h => ?_, hname,
      hinitialized ▸ List.Subset.refl _⟩
    rw [hclient]
    refine (Function.update_of_ne ?_ _ _).trans h
    rintro rfl
    cases hi.symm.trans h
  refine ⟨fun c' => (hs.greeting c').congr ?_ ?_ ?_ ?_ hname, ?_, hends, ?_, ?_,
    hs.connected.congr e hinitialized (by rw [hs'])⟩
  · rw [hs']
  · rw [hs']
  · rw [hs']
  · rw [hs']
  · rw [hs']
    exact hs.flushed
  · refine hs.stops.create (i := i) (x := (c, p)) (fun h => ?_) ?_ ?_ hclientAt ?_
    · obtain ⟨j, hj⟩ := h
      exact lt_irrefl _ (hp ▸ hs.ends.known (portAt_child.2 hj))
    · rw [clientAt, hc, hi]
      rfl
    · rw [holds, ports, waiting, clientAt, hi, hc]
      exact ite_self []
    · have htoken (h : s.server i ≠ none) : s.token i ≠ none := by
        obtain ⟨x, hx⟩ := Option.ne_none_iff_exists'.1 h
        exact hs.requested.token hx hi
      rw [holds, waiting_update_client htoken (by rw [hs']) (by rw [hs']) hclientAt, hs']
      exact ports_waiting i _
  · refine hs.requested.congr e (by rw [hs']; exact id) (fun {j} h => ?_) (by rw [hs']; exact id)
      (fun h => ?_) (by rw [hs']) (by rw [hs']) hinitialized (by rw [hs']) (by rw [hs'])
    · rw [hclient, Function.update_apply] at h
      split_ifs at h
      exact ⟨h, by rw [hs']⟩
    · rw [hs'] at h
      exact e.requests (hs.requested.posted h)

end Create

/-! ## Requests are made -/

theorem Inv.onTokenReceived (hs : s.Inv) {i : ℕ} {t : String} {p : PortName} {callback : ℕ}
    (hc : s.pipes[i]? = some c) (ht : s.token i = some t) (hp : s.client i = some (p, callback)) :
    ∃ s', s.step (.onTokenReceived i) = some s' ∧ s'.Inv := by
  obtain ⟨hsize, r, hr⟩ := hs.requested.sent ht
  have hrequests : s.Requests c ⟨t, p, callback⟩ := ⟨i, hc, ⟨r, hr⟩, hp⟩
  obtain ⟨s', hs'⟩ : ∃ s', s' = { s with
      token := Function.update s.token i none
      posted := Function.update s.posted c
        (s.posted c ++ [PortRequest.mk t p callback]) } := ⟨_, rfl⟩
  refine ⟨s', ?_, ?_⟩
  · rw [step, hc, ht, hp]
    simp only
    rw [if_neg (Nat.not_lt.2 hsize), hs']
  have hclient : s.clientAt i = some (c, p) := portAt_child.1 (portAt_client hc hp)
  have ho : s.holds (.pipe i) = [(c, p)] := by
    rw [holds, ports, waiting, ht, hclient]
    exact if_pos (Bool.or_true _)
  have hwaiting : s'.waiting = Function.update s.waiting i [] := by
    rw [hs']
    refine Function.eq_update_iff.2 ⟨?_, fun j hj => ?_⟩
    · simp only [waiting, hr, Function.update_self]
      rfl
    · simp only [waiting, Function.update_of_ne hj]
      rfl
  have hholds : s'.holds = Function.update (Function.update s.holds (.pipe i) []) (.posted c)
      (s.holds (.posted c) ++ [(c, p)]) := by
    rw [holds, hwaiting, hs', ports_posted, ports_waiting, List.map_append]
    rfl
  have e : s.Extends s' := by
    rw [hs']
    exact .of_eq rfl rfl rfl (fun _ => rfl) (List.Subset.refl _)
  have hends : s'.Ends := by
    rw [hs']
    exact hs.ends.congr rfl rfl rfl rfl rfl fun _ => id
  -- The port goes on from the platform channel to the requests that are posted.
  refine ⟨fun c' => ?_, ?_, hends,
    hs.stops.shift _ ho (fun h => by cases h) hholds fun _ => by rw [hs']; rfl, ?_, ?_⟩
  · rw [hs']
    exact (hs.greeting c').congr rfl rfl rfl rfl fun _ => rfl
  · rw [hs']
    exact hs.flushed
  · have hposted {c' : K} {r' : PortRequest}
        (h : r' ∈ s'.posted c' ∨ r' ∈ s'.pendingPortRequests c') : s'.Requests c' r' := by
      rw [hs'] at h
      rcases h with h | h
      · rcases mem_update_append_iff.1 h with h | ⟨rfl, h'⟩
        · exact e.requests (hs.requested.posted (.inl h))
        · rw [List.mem_singleton.1 h']
          exact e.requests hrequests
      · exact e.requests (hs.requested.posted (.inr h))
    refine hs.requested.congr e (by rw [hs']; exact id) (fun {j} h => ?_) (fun {j t'} h => ?_)
      hposted (by rw [hs']) (by rw [hs']) (by rw [hs']) (by rw [hs']) (by rw [hs'])
    · rw [hs'] at h ⊢
      refine ⟨h, Function.update_of_ne ?_ _ _⟩
      rintro rfl
      cases h.symm.trans hp
    · rw [hs'] at h
      simp only [Function.update_apply] at h
      split_ifs at h
      exact h
  · exact hs.connected.congr e (by rw [hs']) (by rw [hs'])

theorem Inv.requestParentPortConnection (hs : s.Inv) (hne : s.posted c ≠ []) :
    ∃ s', s.step (.requestParentPortConnection c) = some s' ∧ s'.Inv := by
  obtain ⟨r, posted, hposted⟩ := List.exists_cons_of_ne_nil hne
  have hr : s.Requests c r :=
    hs.requested.posted (.inl (by rw [hposted]; exact List.mem_cons_self))
  have ho : s.holds (.posted c) =
      (c, r.localPort) :: posted.map fun r => (c, r.localPort) := by
    rw [holds, ports, hposted]
    rfl
  have hsubset {c' : K} {r' : PortRequest}
      (h : r' ∈ Function.update s.posted c posted c') : r' ∈ s.posted c' :=
    mem_of_mem_update (hposted ▸ List.subset_cons_self _ _) h
  cases hparent : s.parent c with
  | peer name =>
    obtain ⟨s', hs'⟩ : ∃ s', s' = { s.requestPortConnection c r with
        posted := Function.update s.posted c posted } := ⟨_, rfl⟩
    refine ⟨s', ?_, fun c' => ?_, ?_, ?_, ?_, ?_, ?_⟩
    · rw [step, hposted]
      simp only [hparent]
      rw [hs']
      rfl
    · rw [hs']
      by_cases hc : c' = c
      · subst hc
        exact (hs.greeting c').post hparent rfl rfl (Function.update_self _ _ _)
          (fun name h => by cases List.mem_singleton.1 h) rfl fun _ => rfl
      · exact (hs.greeting c').congr rfl rfl (Function.update_of_ne hc _ _) rfl fun _ => rfl
    · rw [hs']
      exact hs.flushed
    · rw [hs']
      exact hs.ends.congr rfl rfl rfl rfl rfl fun _ => id
    · refine hs.stops.shift (.toParent c) ho (fun h => by cases h) ?_
        fun _ => by rw [hs']; rfl
      rw [hs']
      refine (ports_toParent c _).trans ?_
      rw [List.filterMap_append]
      exact congrArg (Function.update · _ _) (ports_posted c posted)
    · rw [hs']
      exact hs.requested.request hs.stops hr ho (fun _ h => by cases h) (fun _ h => by cases h)
        fun h => h.imp_left hsubset
    · rw [hs']
      exact hs.connected.congr (.of_eq rfl rfl rfl (fun _ => rfl) (List.Subset.refl _)) rfl rfl
  | _ =>
    obtain ⟨s', hs'⟩ : ∃ s', s' = { s with
        posted := Function.update s.posted c posted
        pendingPortRequests := Function.update s.pendingPortRequests c
          (s.pendingPortRequests c ++ [r]) } := ⟨_, rfl⟩
    refine ⟨s', ?_, fun c' => ?_, fun {c' name} h => ?_, ?_, ?_, ?_, ?_⟩
    · rw [step, hposted]
      simp only [hparent]
      rw [hs']
    · rw [hs']
      exact (hs.greeting c').congr rfl rfl rfl rfl fun _ => rfl
    · rw [hs'] at h ⊢
      simp only at h ⊢
      rw [Function.update_of_ne]
      · exact hs.flushed h
      · rintro rfl
        cases hparent.symm.trans h
    · rw [hs']
      exact hs.ends.congr rfl rfl rfl rfl rfl fun _ => id
    · refine hs.stops.shift (.pending c) ho (fun h => by cases h) ?_
        fun _ => by rw [hs']; rfl
      rw [hs']
      refine (ports_pending c _).trans ?_
      rw [List.map_append]
      exact congrArg (Function.update · _ _) (ports_posted c posted)
    · rw [hs']
      refine hs.requested.congr (.of_eq rfl rfl rfl (fun _ => rfl) (List.Subset.refl _)) id
        (⟨·, rfl⟩) id (fun {c' r'} h => ?_) rfl rfl rfl Iff.rfl Iff.rfl
      rcases h with h | h
      · exact hs.requested.posted (.inl (hsubset h))
      · rcases mem_update_append_iff.1 h with h | ⟨rfl, h'⟩
        · exact hs.requested.posted (.inr h)
        · rw [List.mem_singleton.1 h']
          exact hr
    · rw [hs']
      exact hs.connected.congr (.of_eq rfl rfl rfl (fun _ => rfl) (List.Subset.refl _)) rfl rfl

/-! ## Greetings are exchanged -/

omit [DecidableEq K] in
theorem Greeting.connectToChild (h : s.Greeting c) (hunknown : s.child c = .unknown)
    (hchild : s'.child c = .pending) (hparent : s'.parent c = s.parent c)
    (htoParent : s'.toParent c = s.toParent c)
    (htoChild : s'.toChild c = s.toChild c ++ [.acceptChild (s.node none).name])
    (hname : ∀ x, (s'.node x).name = (s.node x).name) : s'.Greeting c := by
  cases h with
  | before _ h₂ h₃ h₄ =>
    exact .greets (.inl hchild) (hparent ▸ h₂) (htoParent.trans h₃)
      (htoChild.trans (by rw [h₄, hname]; rfl))
  | greets h₁ | answers _ h₁ | done h₁ =>
    rcases h₁ with h₁ | h₁
    · cases hunknown.symm.trans h₁
    · cases hunknown.symm.trans h₁

omit [DecidableEq K] in
theorem Greeting.connectToParent (h : s.Greeting c) (hunknown : s.parent c = .unknown)
    (hparent : s'.parent c = .pending) (hchild : s'.child c = s.child c)
    (htoParent : s'.toParent c = s.toParent c) (htoChild : s'.toChild c = s.toChild c)
    (hname : ∀ x, (s'.node x).name = (s.node x).name) : s'.Greeting c := by
  have hne (name : NodeName) : s'.parent c ≠ .peer name := by
    rw [hparent]
    exact fun h => by cases h
  cases h with
  | before h₁ _ h₃ h₄ =>
    exact .before (hchild.trans h₁) hne (htoParent.trans h₃) (htoChild.trans h₄)
  | greets h₁ _ h₃ h₄ =>
    exact .greets (hchild ▸ h₁) hne (htoParent.trans h₃) (htoChild.trans (by rw [h₄, hname]))
  | answers _ _ h₂ | done _ h₂ =>
    rcases h₂ with h₂ | h₂
    · cases hunknown.symm.trans h₂
    · cases hunknown.symm.trans h₂

theorem Inv.connectToChild (hs : s.Inv) (hunknown : s.child c = .unknown) :
    ∃ s', s.step (.connectToChild c) = some s' ∧ s'.Inv := by
  obtain ⟨s', hs'⟩ : ∃ s', s' = { s with
      child := Function.update s.child c .pending
      toChild := Function.update s.toChild c
        (s.toChild c ++ [ToChild.acceptChild (s.node none).name]) } := ⟨_, rfl⟩
  have hchild : s'.child = Function.update s.child c .pending := by rw [hs']
  have htoChild : s'.toChild = Function.update s.toChild c
      (s.toChild c ++ [.acceptChild (s.node none).name]) := by rw [hs']
  have hname (x : Option K) : (s'.node x).name = (s.node x).name := by rw [hs']
  obtain ⟨hends, hstops, hrequested, hconnected⟩ := hs.quiet s' (by rw [hs'])
    (by rw [hs']; exact hs.ends) hname (fun _ => .inl (by rw [hs'])) fun c' => by
      rw [htoChild]
      by_cases hc : c' = c
      · subst hc
        exact .inr ⟨_, .inl (Function.update_self _ _ _)⟩
      · exact .inl (Function.update_of_ne hc _ _)
  refine ⟨s', (if_pos hunknown).trans (congrArg some hs'.symm), fun c' => ?_, ?_, hends, hstops,
    hrequested, hconnected⟩
  · by_cases hc : c' = c
    · subst hc
      exact (hs.greeting c').connectToChild hunknown (by rw [hchild, Function.update_self])
        (by rw [hs']) (by rw [hs']) (by rw [htoChild, Function.update_self]) hname
    · exact (hs.greeting c').congr (by rw [hchild, Function.update_of_ne hc]) (by rw [hs'])
        (by rw [hs']) (by rw [htoChild, Function.update_of_ne hc]) hname
  · rw [hs']
    exact hs.flushed

/-- A child has a channel to its parent that is not the one to a peer. -/
theorem Inv.setParent (hs : s.Inv) {contact : Contact} (hne : ∀ name, contact ≠ .peer name)
    {node : Option K → Node α} (hname : ∀ x, (node x).name = (s.node x).name)
    (hends : { s with
      node := node
      parent := Function.update s.parent c contact }.Ends)
    (hgreeting : { s with
      node := node
      parent := Function.update s.parent c contact }.Greeting c) :
    { s with
      node := node
      parent := Function.update s.parent c contact }.Inv := by
  obtain ⟨-, hstops, hrequested, hconnected⟩ :=
    hs.quiet { s with
      node := node
      parent := Function.update s.parent c contact } rfl hends hname (fun _ => .inl rfl)
      fun _ => .inl rfl
  refine ⟨fun c' => ?_, fun {c' name} h => ?_, hends, hstops, hrequested, hconnected⟩
  · by_cases hc : c' = c
    · subst hc
      exact hgreeting
    · exact (hs.greeting c').congr rfl (Function.update_of_ne hc _ _) rfl rfl hname
  · simp only [Function.update_apply] at h
    split_ifs at h
    · exact absurd h (hne name)
    · exact hs.flushed h

theorem Inv.connectToParent (hs : s.Inv) (hunknown : s.parent c = .unknown) :
    ∃ s', s.step (.connectToParent c) = some s' ∧ s'.Inv :=
  ⟨_, if_pos hunknown, hs.setParent (fun _ h => by cases h) (fun _ => rfl)
    (hs.ends.setParent (by rw [hunknown]; decide) _)
    ((hs.greeting c).connectToParent hunknown (Function.update_self _ _ _) rfl rfl rfl
      fun _ => rfl)⟩

theorem Inv.dropParent (hs : s.Inv) (hreads : (s.parent c).Reads) :
    ∃ s', s.step (.dropParent c) = some s' ∧ s'.Inv := by
  obtain ⟨hends, hname⟩ := hs.ends.loseParent c
  exact ⟨_, if_pos hreads, hs.setParent (fun _ h => by cases h) hname hends
    ((hs.greeting c).dropParent rfl (Function.update_self _ _ _) rfl rfl hname)⟩

theorem Inv.dropChild (hs : s.Inv) (hreads : (s.child c).Reads) :
    ∃ s', s.step (.dropChild c) = some s' ∧ s'.Inv := by
  obtain ⟨hends, hstops, hrequested, hconnected⟩ :=
    hs.quiet { s with child := Function.update s.child c .dropped } rfl hs.ends
      (fun _ => rfl) (fun _ => .inl rfl) fun _ => .inl rfl
  refine ⟨_, if_pos hreads, fun c' => ?_, hs.flushed, hends, hstops, hrequested, hconnected⟩
  by_cases hc : c' = c
  · subst hc
    exact (hs.greeting c').dropChild hreads (Function.update_self _ _ _) rfl rfl rfl fun _ => rfl
  · exact (hs.greeting c').congr (Function.update_of_ne hc _ _) rfl rfl rfl fun _ => rfl

theorem Inv.other (hs : s.Inv) {x : Option K} {node : Node α} (hG : s.Sound (.other x node)) :
    { s with node := Function.update s.node x node }.Inv := by
  have hname (y : Option K) : (Function.update s.node x node y).name = (s.node y).name := by
    by_cases hy : y = x
    · subst hy
      rw [Function.update_self]
      exact hG.1
    · rw [Function.update_of_ne hy]
  obtain ⟨hends, hstops, hrequested, hconnected⟩ :=
    hs.quiet { s with node := Function.update s.node x node } rfl (hs.ends.other hG) hname
      (fun _ => .inl rfl) fun _ => .inl rfl
  exact ⟨fun c => (hs.greeting c).congr rfl rfl rfl rfl hname, hs.flushed, hends, hstops,
    hrequested, hconnected⟩

/-- The parent hears of a child. -/
theorem Inv.onAcceptParent (hs : s.Inv) {name : NodeName} {ms : List ToParent}
    (hm : s.toParent c = .acceptParent name :: ms) (hreads : (s.child c).Reads) :
    ({ s with toParent := Function.update s.toParent c ms }.onAcceptParent c name).Inv := by
  obtain ⟨hpending, hname, hms, htoChild, hparent⟩ :=
    (hs.greeting c).onAcceptParent hm hreads
  obtain ⟨s', hs'⟩ : ∃ s', s' = { s with
      child := Function.update s.child c (.peer name)
      toParent := Function.update s.toParent c ms } := ⟨_, rfl⟩
  have heq : { s with toParent := Function.update s.toParent c ms }.onAcceptParent c name = s' := by
    rw [hs', Bootstraps.onAcceptParent]
    simp only [hpending]
  have hchild : s'.child = Function.update s.child c (.peer name) := by rw [hs']
  have htoParent : s'.toParent = Function.update s.toParent c ms := by rw [hs']
  have hname' (x : Option K) : (s'.node x).name = (s.node x).name := by rw [hs']
  obtain ⟨hends, hstops, hrequested, hconnected⟩ := hs.quiet s' (by rw [hs'])
    (by rw [hs']; exact hs.ends) hname' (fun c' => by
      rw [htoParent]
      by_cases hc : c' = c
      · subst hc
        exact .inr ⟨name, .inr (hm.trans (by rw [Function.update_self]))⟩
      · exact .inl (Function.update_of_ne hc _ _)) fun _ => .inl (by rw [hs'])
  rw [heq]
  refine ⟨fun c' => ?_, ?_, hends, hstops, hrequested, hconnected⟩
  · by_cases hc : c' = c
    · subst hc
      refine .done (.inl ?_) ?_ (fun n h => ?_) fun n h => ?_
      · rw [hchild, Function.update_self, hname', hname]
      · rw [hname', hs']
        exact hparent
      · rw [htoParent, Function.update_self] at h
        exact hms n h
      · rw [hs', htoChild] at h
        cases h
    · exact (hs.greeting c').congr (by rw [hchild, Function.update_of_ne hc]) (by rw [hs'])
        (by rw [htoParent, Function.update_of_ne hc]) (by rw [hs']) hname'
  · rw [hs']
    exact hs.flushed

/-- A child hears of its parent, and sends what waited for that. -/
theorem Inv.onAcceptChild (hs : s.Inv) {name : NodeName} {ms : List ToChild}
    (hm : s.toChild c = .acceptChild name :: ms) (hreads : (s.parent c).Reads) :
    ({ s with toChild := Function.update s.toChild c ms }.onAcceptChild c name).Inv := by
  obtain ⟨hpending, rfl, rfl, htoParent, hchild⟩ := (hs.greeting c).onAcceptChild hm hreads
  -- First the greeting is answered, then the requests that waited are passed on.
  obtain ⟨s₁, hs₁⟩ : ∃ s₁, s₁ = { s with
      parent := Function.update s.parent c (.peer (s.node none).name)
      toParent := Function.update s.toParent c
        (s.toParent c ++ [ToParent.acceptParent (s.node (some c)).name])
      toChild := Function.update s.toChild c [] } := ⟨_, rfl⟩
  have hparent₁ : s₁.parent = Function.update s.parent c (.peer (s.node none).name) := by rw [hs₁]
  have htoParent₁ : s₁.toParent = Function.update s.toParent c
      (s.toParent c ++ [ToParent.acceptParent (s.node (some c)).name]) := by rw [hs₁]
  have htoChild₁ : s₁.toChild = Function.update s.toChild c [] := by rw [hs₁]
  have hname (x : Option K) : (s₁.node x).name = (s.node x).name := by rw [hs₁]
  obtain ⟨hends, hstops, hrequested, hconnected⟩ := hs.quiet s₁ (by rw [hs₁])
    (by
      rw [hs₁]
      exact (hs.ends.setParent (by rw [hpending]; decide) _).congr rfl rfl rfl rfl rfl
        fun _ => id) hname (fun c' => by
      rw [htoParent₁]
      by_cases hc : c' = c
      · subst hc
        exact .inr ⟨_, .inl (Function.update_self _ _ _)⟩
      · exact .inl (Function.update_of_ne hc _ _)) fun c' => by
      rw [htoChild₁]
      by_cases hc : c' = c
      · subst hc
        exact .inr ⟨_, .inr (hm.trans (by rw [Function.update_self]))⟩
      · exact .inl (Function.update_of_ne hc _ _)
  have hgreeting (c' : K) : s₁.Greeting c' := by
    by_cases hc : c' = c
    · subst hc
      refine .answers [] (by rw [hs₁]; exact hchild) (.inl ?_) ?_ (fun _ h => by cases h) ?_
      · rw [hparent₁, Function.update_self, hname]
      · rw [htoParent₁, Function.update_self, htoParent, hname]
        rfl
      · rw [htoChild₁, Function.update_self]
    · exact (hs.greeting c').congr (by rw [hs₁]) (by rw [hparent₁, Function.update_of_ne hc])
        (by rw [htoParent₁, Function.update_of_ne hc])
        (by rw [htoChild₁, Function.update_of_ne hc]) hname
  obtain ⟨s', hs', hstops', hrequested', connections, ms, heq, hms⟩ := flush rfl hstops hrequested
  have honAcceptChild : { s with toChild := Function.update s.toChild c [] }.onAcceptChild c
      (s.node none).name = s' := by
    rw [hs', Bootstraps.onAcceptChild]
    simp only [hpending]
    rw [pendingPortRequests_foldl, foldl_requestPortConnection, hs₁]
  rw [honAcceptChild]
  refine ⟨fun c' => ?_, fun {c' name} h => ?_, ?_, hstops', hrequested', ?_⟩
  · by_cases hc : c' = c
    · subst hc
      refine (hgreeting c').post (by rw [hparent₁, Function.update_self]) ?_ ?_ ?_ hms ?_ ?_
      · rw [heq]
      · rw [heq]
      · rw [heq]
        exact Function.update_self _ _ _
      · rw [heq]
      · rw [heq]
        exact fun _ => rfl
    · rw [heq]
      exact (hgreeting c').congr rfl rfl (Function.update_of_ne hc _ _) rfl fun _ => rfl
  · rw [heq] at h ⊢
    simp only [hs₁, Function.update_apply] at h ⊢
    split_ifs with hc
    · rfl
    · rw [if_neg hc] at h
      exact hs.flushed h
  · rw [heq]
    exact hends.congr rfl rfl rfl rfl rfl fun _ => id
  · rw [heq]
    exact hconnected.congr (.of_eq rfl rfl rfl (fun _ => rfl) (List.Subset.refl _)) rfl rfl

/-! ## Runs -/

theorem Inv.receiveFromParent (hs : s.Inv) (hreads : (s.parent c).Reads)
    (hne : s.toChild c ≠ []) : ∃ s', s.step (.receiveFromParent c) = some s' ∧ s'.Inv := by
  obtain ⟨m, ms, hm⟩ := List.exists_cons_of_ne_nil hne
  rw [step, if_pos hreads]
  simp only [hm]
  cases m with
  | acceptChild parentName => exact ⟨_, rfl, hs.onAcceptChild hm hreads⟩
  | connectToPort connectorPortName connecteePortName => exact hs.onConnectToPort hm hreads

theorem Inv.receiveFromChild (hs : s.Inv) (hreads : (s.child c).Reads)
    (hne : s.toParent c ≠ []) : ∃ s', s.step (.receiveFromChild c) = some s' ∧ s'.Inv := by
  obtain ⟨m, ms, hm⟩ := List.exists_cons_of_ne_nil hne
  rw [step, if_pos hreads]
  simp only [hm]
  cases m with
  | acceptParent childName => exact ⟨_, rfl, hs.onAcceptParent hm hreads⟩
  | requestPortConnection connectorPortName token => exact hs.onRequestPortConnection hm hreads

theorem Inv.step (hs : s.Inv) {i : Input α K} (hG : s.Sound i) (h : s.step i = some s') :
    s'.Inv := by
  -- The lemmas on the steps say that they can be taken, and what comes of it.
  have hinv (hi : ∃ s₁, s.step i = some s₁ ∧ s₁.Inv) : s'.Inv := by
    obtain ⟨s₁, hs₁, hinv⟩ := hi
    exact Option.some.inj (hs₁.symm.trans h) ▸ hinv
  cases i with
  | createPipe c => exact Option.some.inj h ▸ hs.createPipe c
  | createParentMessagePipe i t callback =>
    rw [Bootstraps.step] at h
    split at h
    · rename_i c hc hi
      exact hinv (hs.createParentMessagePipe hc hi hG.1 fun {j x} hx =>
        hG.2 j (hs.ends.server_lt hx) x hx)
    · cases h
  | createChildMessagePipe i callback =>
    rw [Bootstraps.step] at h
    split at h
    · rename_i c hc hi
      exact hinv (hs.createChildMessagePipe hc hi)
    · cases h
  | onTokenReceived i =>
    rw [Bootstraps.step] at h
    split at h
    · rename_i c t p callback hc ht hp
      exact hinv (hs.onTokenReceived hc ht hp)
    · cases h
  | requestParentPortConnection c =>
    refine hinv (hs.requestParentPortConnection fun hnil => ?_)
    rw [Bootstraps.step, hnil] at h
    cases h
  | connectToChild c =>
    rw [Bootstraps.step] at h
    split_ifs at h with hunknown
    exact hinv (hs.connectToChild hunknown)
  | connectToParent c =>
    rw [Bootstraps.step] at h
    split_ifs at h with hunknown
    exact hinv (hs.connectToParent hunknown)
  | receiveFromParent c =>
    rw [Bootstraps.step] at h
    split_ifs at h with hreads
    refine hinv (hs.receiveFromParent hreads fun hnil => ?_)
    rw [hnil] at h
    cases h
  | receiveFromChild c =>
    rw [Bootstraps.step] at h
    split_ifs at h with hreads
    refine hinv (hs.receiveFromChild hreads fun hnil => ?_)
    rw [hnil] at h
    cases h
  | dropParent c =>
    rw [Bootstraps.step] at h
    split_ifs at h with hreads
    exact hinv (hs.dropParent hreads)
  | dropChild c =>
    rw [Bootstraps.step] at h
    split_ifs at h with hreads
    exact hinv (hs.dropChild hreads)
  | other x node => exact Option.some.inj h ▸ hs.other hG

theorem inv_init (name : Option K → NodeName) : (machine α K name).init.Inv := by
  have hholds : (machine α K name).init.holds = fun _ => [] := by
    funext o
    cases o <;> rfl
  have hportAt {i : ℕ} {x : Option K} {p : PortName}
      (h : (machine α K name).init.portAt i x = some p) : False := by
    cases x with
    | none => cases h
    | some c =>
      rw [portAt] at h
      split_ifs at h
      cases h
  refine ⟨fun c => .before rfl (fun _ h => by cases h) rfl rfl, (fun h => by cases h), ?_, ?_, ?_,
    ?_⟩
  · exact ⟨(fun h => by cases h), (fun h => by cases h), (fun h => by cases h),
      fun h => (hportAt h).elim, fun h => (hportAt h).elim, fun h => (hportAt h).elim,
      fun h => by cases h⟩
  · refine ⟨hholds ▸ .nil, fun x => ⟨?_, ?_⟩⟩
    · rintro ⟨o, ho⟩
      rw [hholds] at ho
      cases ho
    · rintro ⟨i, hi⟩
      cases hi
  · exact ⟨(fun h => by cases h), (fun h => by cases h),
      (fun h => by rcases h with h | h <;> cases h), (fun h => by cases h),
      (fun h => by cases h), fun h => absurd rfl h, (fun h => by cases h), fun h => by cases h⟩
  · exact ⟨List.nodup_nil, (fun h => by cases h), (fun h => by cases h), rfl, fun h => by cases h⟩

theorem inv_of_reachable {name : Option K → NodeName}
    (h : (machine α K name).Reachable Sound s) : s.Inv :=
  h.invariant (inv_init name) fun hs hG h => hs.step hG h

/-- A port gets a peer once, and then its callback is run. What it gets is the other end of its
    pipe, which nothing else gets. The parent gives the peer first. Until then the port is
    uninitialized, unless it was erased at a child that lost the channel to its parent. -/
theorem connects_ends {name : Option K → NodeName}
    (h : (machine α K name).Reachable Sound s) :
    (s.initialized.map fun e => (e.1, e.2.1)).Nodup ∧
    (∀ q n p, (none, q, n, p) ∈ s.initialized → ∃ i c, s.portAt i none = some q ∧
      s.portAt i (some c) = some p ∧ n = (s.node (some c)).name) ∧
    (∀ c p n q, (some c, p, n, q) ∈ s.initialized →
      (∃ i, s.portAt i none = some q ∧ s.portAt i (some c) = some p) ∧
        n = (s.node none).name ∧ (none, q, (s.node (some c)).name, p) ∈ s.initialized) ∧
    (∀ x i j p, s.portAt i x = some p → s.portAt j x = some p → i = j) ∧
    (∀ x i p, s.portAt i x = some p → ¬s.Initialized x p →
      ((s.node x).getPort p).map (·.state) = some .uninitialized ∨
        (s.node x).getPort p = none ∧ ∃ c, x = some c ∧ s.parent c = .dropped) ∧
    s.callbacks.map (fun k => (k.1, k.2.2)) = s.initialized.map (fun e => (e.1, e.2.1)) ∧
    ∀ x callback p, (x, callback, p) ∈ s.callbacks →
      (x = none ∧ ∃ i t, s.server i = some (t, ⟨p, callback⟩)) ∨
        ∃ i c, x = some c ∧ s.pipes[i]? = some c ∧ s.client i = some (p, callback) := by
  have hs := inv_of_reachable h
  exact ⟨hs.connected.nodup, fun _ _ _ => hs.connected.parent, fun _ _ _ _ => hs.connected.child,
    fun _ _ _ _ => hs.ends.inj, fun _ _ _ => hs.ends.uninitialized, hs.connected.callbacks,
    fun _ _ _ => hs.connected.callback⟩

omit [DecidableEq K] in
/-- When nothing is under way, a child knows its parent and is known to it, unless they have not
    been told to connect, or have lost each other. -/
theorem Greeting.of_idle (h : s.Greeting c) (htoParent : s.toParent c = [])
    (htoChild : s.toChild c = []) (hchild : (s.child c).Reads) (hparent : (s.parent c).Reads) :
    s.child c = .peer (s.node (some c)).name ∧ s.parent c = .peer (s.node none).name := by
  cases h with
  | before h₁ => exact absurd h₁ hchild.1
  | greets _ _ _ h₄ => cases htoChild.symm.trans h₄
  | answers _ _ _ h₃ => cases htoParent.symm.trans h₃
  | done h₁ h₂ => exact ⟨h₁.resolve_right hchild.2, h₂.resolve_right hparent.2⟩

/-- The end of a pipe that a child has, when nothing is under way. -/
theorem Inv.initialized_of_idle (hs : s.Inv) {i : ℕ} {p : PortName} {x : String × ReservedPort}
    (hserver : s.server i = some x) (hclient : s.clientAt i = some (c, p))
    (htoken : s.token i = none) (hposted : s.posted c = [])
    (hpending : s.pendingPortRequests c = []) (htoParent : s.toParent c = [])
    (htoChild : s.toChild c = []) : s.Initialized (some c) p := by
  obtain ⟨o, ho⟩ := (hs.stops.mem_iff (c, p)).2 ⟨i, hclient⟩
  cases o with
  | pipe j =>
    rw [holds, ports, waiting] at ho
    split_ifs at ho with hj
    · have hat : s.clientAt j = some (c, p) := Option.mem_toList.1 ho
      obtain rfl := hs.ends.inj (portAt_child.2 hat) (portAt_child.2 hclient)
      rw [hserver, htoken] at hj
      cases hj
    · cases ho
  | posted c' =>
    obtain ⟨r, hr, heq⟩ := List.mem_map.1 ho
    obtain ⟨rfl, -⟩ := Prod.mk.inj heq
    rw [hposted] at hr
    cases hr
  | pending c' =>
    obtain ⟨r, hr, heq⟩ := List.mem_map.1 ho
    obtain ⟨rfl, -⟩ := Prod.mk.inj heq
    rw [hpending] at hr
    cases hr
  | toParent c' =>
    obtain ⟨m, hm, heq⟩ := List.mem_filterMap.1 ho
    obtain ⟨r, -, heq⟩ := Option.map_eq_some_iff.1 heq
    obtain ⟨rfl, -⟩ := Prod.mk.inj heq
    rw [htoParent] at hm
    cases hm
  | toChild c' =>
    obtain ⟨m, hm, heq⟩ := List.mem_filterMap.1 ho
    obtain ⟨r, -, heq⟩ := Option.map_eq_some_iff.1 heq
    obtain ⟨rfl, -⟩ := Prod.mk.inj heq
    rw [htoChild] at hm
    cases hm
  | initialized => exact mem_initialized.1 ho

/-- What is under way can go on: no check fails. Once nothing of a child is under way, and it and
    the parent have each other, the two ends of its pipes are each other's peers. -/
theorem connected_of_idle {name : Option K → NodeName}
    (h : (machine α K name).Reachable Sound s) :
    (∀ i, s.token i ≠ none → s.client i ≠ none → (s.step (.onTokenReceived i)).isSome) ∧
    (∀ c, s.posted c ≠ [] → (s.step (.requestParentPortConnection c)).isSome) ∧
    (∀ c, (s.child c).Reads → s.toParent c ≠ [] → (s.step (.receiveFromChild c)).isSome) ∧
    (∀ c, (s.parent c).Reads → s.toChild c ≠ [] → (s.step (.receiveFromParent c)).isSome) ∧
    ∀ i c q p, s.portAt i none = some q → s.portAt i (some c) = some p → s.token i = none →
      s.posted c = [] → s.toParent c = [] → s.toChild c = [] → (s.child c).Reads →
      (s.parent c).Reads → (none, q, (s.node (some c)).name, p) ∈ s.initialized ∧
        (some c, p, (s.node none).name, q) ∈ s.initialized := by
  have hs := inv_of_reachable h
  have hsome {i : Input α K} (hi : ∃ s', s.step i = some s' ∧ s'.Inv) : (s.step i).isSome := by
    obtain ⟨s', hs', -⟩ := hi
    exact Option.isSome_of_eq_some hs'
  refine ⟨fun i ht hp => ?_, fun c hc => hsome (hs.requestParentPortConnection hc),
    fun c hreads hc => hsome (hs.receiveFromChild hreads hc),
    fun c hreads hc => hsome (hs.receiveFromParent hreads hc),
    fun i c q p hq hp htoken hposted htoParent htoChild hchild hparent => ?_⟩
  · obtain ⟨t, ht⟩ := Option.ne_none_iff_exists'.1 ht
    obtain ⟨⟨p, callback⟩, hp⟩ := Option.ne_none_iff_exists'.1 hp
    exact hsome (hs.onTokenReceived (List.getElem?_eq_getElem (hs.ends.client_lt hp)) ht hp)
  · obtain ⟨-, hpeer⟩ := (hs.greeting c).of_idle htoParent htoChild hchild hparent
    obtain ⟨x, hserver, -⟩ := Option.map_eq_some_iff.1 hq
    have hinit := hs.initialized_of_idle hserver (portAt_child.1 hp) htoken hposted
      (hs.flushed hpeer) htoParent htoChild
    obtain ⟨n, q', hmem⟩ := Connected.mem_map_iff.1 hinit
    obtain ⟨⟨j, hq', hp'⟩, rfl, hmem'⟩ := hs.connected.child hmem
    obtain rfl := hs.ends.inj hp' hp
    obtain rfl := Option.some.inj (hq'.symm.trans hq)
    exact ⟨hmem', hmem⟩

/-- A parent and a child. -/
def names : Option Unit → NodeName
  | none => 1
  | some _ => 2

/-- A pipe whose token arrives before the child knows its parent. -/
def pair : List (Input Unit Unit) :=
  [.createPipe (), .createParentMessagePipe 0 "t" 7, .createChildMessagePipe 0 8,
    .onTokenReceived 0, .requestParentPortConnection (), .connectToChild (), .connectToParent (),
    .receiveFromParent (), .receiveFromChild (), .receiveFromChild (), .receiveFromParent ()]

theorem connects_ends_pair : ∃ s, (machine Unit Unit names).Reachable Sound s ∧
    s.callbacks = [(none, 7, 1), (some (), 8, 1)] ∧
    (none, 1, 2, 1) ∈ s.initialized ∧ ∃ i c, s.portAt i none = some 1 ∧
      s.portAt i (some c) = some 1 ∧ 2 = (s.node (some c)).name := by
  obtain ⟨s, hs, hcallbacks, hmem⟩ : ∃ s, (machine Unit Unit names).Reachable Sound s ∧
      s.callbacks = [(none, 7, 1), (some (), 8, 1)] ∧ (none, 1, 2, 1) ∈ s.initialized :=
    Machine.exists_reachable pair (by decide +kernel)
  exact ⟨s, hs, hcallbacks, hmem, (connects_ends hs).2.1 1 2 1 hmem⟩

-- The end of a child is erased when its channel fails before it knows the parent.
example : ((machine Unit Unit names).exec Sound (machine Unit Unit names).init
    [.createPipe (), .createChildMessagePipe 0 8, .connectToParent (), .dropParent ()]).any
      fun s => s.portAt 0 (some ()) = some 1 ∧ (s.node (some ())).ports.entries.isEmpty := by
  decide +kernel

theorem connected_of_idle_pair : ∃ s, (machine Unit Unit names).Reachable Sound s ∧
    s.token 0 = none ∧ (none, 1, (s.node (some ())).name, 1) ∈ s.initialized ∧
      (some (), 1, (s.node none).name, 1) ∈ s.initialized := by
  obtain ⟨s, hs, hq, hp, htoken, hposted, htoParent, htoChild, hchild, hparent⟩ :
      ∃ s, (machine Unit Unit names).Reachable Sound s ∧ s.portAt 0 none = some 1 ∧
        s.portAt 0 (some ()) = some 1 ∧ s.token 0 = none ∧ (s.posted ()).isEmpty ∧
        (s.toParent ()).isEmpty ∧ (s.toChild ()).isEmpty ∧ (s.child ()).Reads ∧
        (s.parent ()).Reads :=
    Machine.exists_reachable pair (by decide +kernel)
  exact ⟨s, hs, htoken, (connected_of_idle hs).2.2.2.2 0 () 1 1 hq hp htoken
    (List.isEmpty_iff.1 hposted) (List.isEmpty_iff.1 htoParent) (List.isEmpty_iff.1 htoChild)
    hchild hparent⟩

end MojoEdk.Controller.Bootstraps
