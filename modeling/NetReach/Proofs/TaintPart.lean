import NetReach.Proofs.Forwarding
import NetReach.Proofs.Part

/-! # Taint in a part of a network

Every walk of the taint graph of a part can be taken in the taint graph of the whole, between the
renamed nodes, if of two sessions with one peer the graph of the whole keeps one with another
autonomous system (`Network.ExternalFirst`). So what is tainted in the part is tainted in the whole,
what is propagated is propagated, and what is tainted by adjacency is tainted by adjacency. -/

namespace NetReach

/-! ### Which edge is kept -/

/-- The first edge does not hold routes back that the second one, between the same nodes, passes
on. -/
def Spread.Passes (a b : Spread) : Prop :=
  a.tail = b.tail → a.head = b.head → a.kind = .ibgp → b.kind = .ibgp

/-- The edge that is kept stands before all others between its nodes. -/
theorem eq_or_of_mem_distinctSpreads {R : Spread → Spread → Prop} {l : List Spread} {e f : Spread}
    (hl : l.Pairwise R) (hf : f ∈ distinctSpreads l) (he : e ∈ l) (ht : f.tail = e.tail)
    (hh : f.head = e.head) : f = e ∨ R f e := by
  induction l with
  | nil => cases he
  | cons d l ih =>
    obtain ⟨hd, hl⟩ := List.pairwise_cons.mp hl
    rcases List.mem_cons.mp hf with rfl | hf
    · exact (List.mem_cons.mp he).imp Eq.symm (hd e)
    · obtain ⟨hf, hne⟩ := List.mem_filter.mp hf
      rcases List.mem_cons.mp he with rfl | he
      · simp [ht, hh] at hne
      · exact ih hl hf he

namespace Network

variable {net' net : Network} {l2 : Layer2} {r : Router} {s : Subnet} {e : Spread}
  {i j : RouterId}

/-- Every router has its sessions with other autonomous systems before those within. -/
def ExternalFirst (net : Network) : Prop :=
  ∀ r ∈ net.routers, r.sessions.Pairwise fun a b => a.type = .ibgp → b.type = .ibgp

/-- The ways out of the processes of a router, and of the subnet to them. -/
abbrev spreadsOf (net : Network) (l2 : Layer2) (s : Subnet) (r : Router) : List Spread :=
  net.adjacencySpreads l2 r ++ sessionSpreads r ++ redistributionSpreads r ++ originSpreads s r

theorem mem_spreadsOf : e ∈ net.spreadsOf l2 s r ↔ e ∈ net.adjacencySpreads l2 r ∨
    e ∈ sessionSpreads r ∨ e ∈ redistributionSpreads r ∨ e ∈ originSpreads s r := by
  simp only [List.mem_append, or_assoc]

/-- Between BGP processes of two routers lead sessions alone. -/
theorem mem_sessionSpreads_of_ends (he : e ∈ net.spreadsOf l2 s r)
    (ht : e.tail = .process ⟨.bgp, i⟩) (hh : e.head = .process ⟨.bgp, j⟩) :
    e ∈ sessionSpreads r ∧ r.id = i := by
  rcases mem_spreadsOf.mp he with h | h | h | h
  · obtain ⟨_, _, _, _, _, _, rfl⟩ := mem_adjacencySpreads.mp h
    cases ht
  · refine ⟨h, ?_⟩
    obtain ⟨_, _, rfl⟩ := mem_sessionSpreads.mp h
    cases ht
    rfl
  · rcases mem_redistributionSpreads.mp h with ⟨_, rfl⟩ | ⟨_, rfl⟩
    · cases hh
    · cases ht
  · obtain ⟨_, _, rfl⟩ := mem_originSpreads.mp h
    cases ht

theorem mem_sessionSpreads_of_ibgp (he : e ∈ net.spreadsOf l2 s r) (hk : e.kind = .ibgp) :
    e ∈ sessionSpreads r := by
  rcases mem_spreadsOf.mp he with h | h | h | h
  · obtain ⟨_, _, _, _, _, _, rfl⟩ := mem_adjacencySpreads.mp h
    cases hk
  · exact h
  · rcases mem_redistributionSpreads.mp h with ⟨_, rfl⟩ | ⟨_, rfl⟩ <;> cases hk
  · obtain ⟨_, _, rfl⟩ := mem_originSpreads.mp h
    cases hk

theorem pairwise_sessionSpreads
    (h : r.sessions.Pairwise fun a b => a.type = .ibgp → b.type = .ibgp) :
    (sessionSpreads r).Pairwise Spread.Passes := by
  refine List.pairwise_map.mpr (h.imp fun {a b} hab _ _ hk => ?_)
  cases ha : a.type with
  | ebgp =>
    rw [ha] at hk
    cases hk
  | ibgp =>
    rw [hab ha]
    rfl

theorem pairwise_spreadsOf
    (h : r.sessions.Pairwise fun a b => a.type = .ibgp → b.type = .ibgp) :
    (net.spreadsOf l2 s r).Pairwise Spread.Passes := by
  have hother : ∀ {l : List Spread}, (∀ e ∈ l, e.kind ≠ .ibgp) → l.Pairwise Spread.Passes :=
    fun hl => List.pairwise_of_forall_mem_list fun a ha b _ _ _ hk => absurd hk (hl a ha)
  have hadjacency : ∀ e ∈ net.adjacencySpreads l2 r, e.kind ≠ .ibgp := by
    intro e he
    obtain ⟨_, _, _, _, _, _, rfl⟩ := mem_adjacencySpreads.mp he
    exact nofun
  have hredistribution : ∀ e ∈ redistributionSpreads r, e.kind ≠ .ibgp := by
    intro e he
    rcases mem_redistributionSpreads.mp he with ⟨_, rfl⟩ | ⟨_, rfl⟩ <;> exact nofun
  have horigin : ∀ e ∈ originSpreads s r, e.kind ≠ .ibgp := by
    intro e he
    obtain ⟨_, _, rfl⟩ := mem_originSpreads.mp he
    exact nofun
  -- a session joins other nodes than what comes after the sessions
  have hsession : ∀ a ∈ sessionSpreads r, ∀ b ∈ redistributionSpreads r ++ originSpreads s r,
      a.Passes b := by
    intro a ha b hb ht hh _
    obtain ⟨_, _, rfl⟩ := mem_sessionSpreads.mp ha
    rcases List.mem_append.mp hb with hb | hb
    · rcases mem_redistributionSpreads.mp hb with ⟨_, rfl⟩ | ⟨_, rfl⟩
      · cases hh
      · cases ht
    · obtain ⟨_, _, rfl⟩ := mem_originSpreads.mp hb
      cases ht
  rw [spreadsOf, List.append_assoc, List.append_assoc]
  refine List.pairwise_append.mpr ⟨hother hadjacency, List.pairwise_append.mpr
    ⟨pairwise_sessionSpreads h, hother fun e he => ?_, hsession⟩, fun a ha b _ _ _ hk => ?_⟩
  · exact (List.mem_append.mp he).elim (hredistribution e) (horigin e)
  · exact absurd hk (hadjacency a ha)

theorem pairwise_spreads (hn : net.Linked) (h : net.ExternalFirst) :
    (net.spreads l2 (some s)).Pairwise Spread.Passes := by
  refine List.pairwise_flatMap.mpr ⟨fun r hr => pairwise_spreadsOf (h r hr), ?_⟩
  refine hn.pairwise_id_ne.imp fun {r₁ r₂} hne a ha b hb ht hh hk => ?_
  obtain ⟨n, _, rfl⟩ := mem_sessionSpreads.mp (mem_sessionSpreads_of_ibgp ha hk)
  exact absurd (mem_sessionSpreads_of_ends hb ht.symm hh.symm).2.symm hne

/-- Adjacencies lead from one router to another, and nothing else does. -/
theorem isAdjacency_iff (hn : net.Linked) (he : e ∈ net.spreads l2 (some s)) :
    e.kind.isAdjacency = true ↔
      ∃ p q, e.tail = .process p ∧ e.head = .process q ∧ p.router ≠ q.router := by
  obtain ⟨i, r, hr, h⟩ := mem_spreads.mp he
  have hid : r.id = i := hn.id_eq hr
  rcases h with h | h | h | h
  · obtain ⟨_, v, _, _, _, hne, rfl⟩ := mem_adjacencySpreads.mp h
    exact iff_of_true rfl ⟨_, _, rfl, rfl, hne.symm⟩
  · obtain ⟨n, hs, rfl⟩ := mem_sessionSpreads.mp h
    have hne : r.id ≠ n.peer := by
      rw [hid]
      exact (hn.peer hr hs).1.symm
    refine iff_of_true ?_ ⟨_, _, rfl, rfl, hne⟩
    cases n.type <;> rfl
  · have hsame : ∀ {p q}, e.tail = .process p → e.head = .process q → p.router = q.router := by
      intro p q ht hh
      rcases mem_redistributionSpreads.mp h with ⟨_, rfl⟩ | ⟨_, rfl⟩ <;> cases ht <;> cases hh <;>
        rfl
    refine iff_of_false ?_ fun ⟨p, q, ht, hh, hne⟩ => hne (hsame ht hh)
    rcases mem_redistributionSpreads.mp h with ⟨_, rfl⟩ | ⟨_, rfl⟩ <;> exact nofun
  · obtain ⟨_, _, rfl⟩ := mem_originSpreads.mp h
    exact iff_of_false nofun fun ⟨_, _, ht, _⟩ => nomatch ht

/-- An edge between the same nodes that holds back no more can be followed instead. -/
theorem follows_of_ends {f : RouterId → RouterId} {st st' : TaintNode × Bool} {d : Spread}
    (hf : TaintGraph.follows st e = true) (ht : d.tail = e.tail.rename f)
    (hk : d.kind = .ibgp → e.kind = .ibgp) (hst : st'.1 = st.1.rename f)
    (hb : st'.2 = true → st.2 = true) : TaintGraph.follows st' d = true := by
  rw [TaintGraph.follows_iff] at hf ⊢
  refine ⟨by rw [ht, hf.1, hst], fun hd => hf.2 ⟨hb hd.1, hk hd.2⟩⟩

/-! ### The edges of a part -/

namespace Part

section

variable {φ : RouterId ↪ RouterId} (h : net'.Part φ net) (hn' : net'.Linked) (hn : net.Linked)

include h hn' hn

theorem mem_spreads (he : e ∈ net'.spreads (.ofNetwork net') (some s)) :
    e.rename φ ∈ net.spreads (.ofNetwork net) (some s) := by
  obtain ⟨i, r', hr', he⟩ := Network.mem_spreads.mp he
  obtain ⟨r, hr, hpart⟩ := h.router hr'
  refine Network.mem_spreads.mpr ⟨φ i, r, hr, ?_⟩
  simp only [mem_adjacencySpreads, mem_sessionSpreads, mem_redistributionSpreads, mem_originSpreads,
    hpart.id]
  rcases he with he | he | he | he
  · obtain ⟨num, v, hnum, hv, ha, hne, rfl⟩ := mem_adjacencySpreads.mp he
    exact Or.inl ⟨num, v.rename φ, hpart.active hnum, h.mem_adjacent hn' hn hv, h.ospfActive ha,
      φ.injective.ne hne, rfl⟩
  · obtain ⟨n, hs, rfl⟩ := mem_sessionSpreads.mp he
    exact Or.inr (Or.inl ⟨n.rename φ, hpart.sessions hs, rfl⟩)
  · refine Or.inr (Or.inr (Or.inl ?_))
    rcases mem_redistributionSpreads.mp he with ⟨hb, rfl⟩ | ⟨ho, rfl⟩
    · exact Or.inl ⟨hpart.ospfFromBgp hb, rfl⟩
    · exact Or.inr ⟨hpart.bgpFromOspf ho, rfl⟩
  · obtain ⟨p, hp, rfl⟩ := mem_originSpreads.mp he
    rw [hpart.originates] at hp
    exact Or.inr (Or.inr (Or.inr ⟨p, hp, rfl⟩))

theorem mem_processes {p : Process} (hp : p ∈ net'.processes) : p.rename φ ∈ net.processes := by
  obtain ⟨r', hr', hruns⟩ := (Network.mem_processes hn').mp hp
  obtain ⟨r, hr, hpart⟩ := h.router hr'
  rw [hpart.runs] at hruns
  exact (Network.mem_processes hn).mpr ⟨r, hr, hruns⟩

open Scene (baseTaint)

theorem mem_nodes {v : TaintNode} (hv : v ∈ (baseTaint net' s).nodes) :
    v.rename φ ∈ (baseTaint net s).nodes := by
  rw [(TaintGraph.ofNetwork_madeFrom _ _ _).mem_nodes] at hv ⊢
  rcases hv with rfl | ⟨p, hp, rfl⟩
  · exact Or.inl rfl
  · exact Or.inr ⟨_, h.mem_processes hn' hn hp, rfl⟩

variable (hfirst : net.ExternalFirst)

include hfirst

/-- **For every edge of the part, the taint graph of the whole has one between the renamed nodes
that passes on as much.** -/
theorem exists_edge (he : e ∈ (baseTaint net' s).edges) :
    ∃ d ∈ (baseTaint net s).edges, d.tail = e.tail.rename φ ∧ d.head = e.head.rename φ ∧
      (d.kind = .ibgp → e.kind = .ibgp) ∧ d.kind.isAdjacency = e.kind.isAdjacency := by
  have hmade' := TaintGraph.ofNetwork_madeFrom net' (.ofNetwork net') s
  have hmade := TaintGraph.ofNetwork_madeFrom net (.ofNetwork net) s
  obtain ⟨hspread', ht, hh⟩ := hmade'.of_mem_edges he
  have hspread := h.mem_spreads hn' hn hspread'
  have htail := h.mem_nodes hn' hn ht
  have hhead := h.mem_nodes hn' hn hh
  obtain ⟨d, hd, hdt, hdh⟩ := hmade.exists_mem_edges hspread htail hhead
  refine ⟨d, hd, hdt, hdh, fun hk => ?_, ?_⟩
  · have hmem : e.rename φ ∈ (net.spreads (.ofNetwork net) (some s)).filter fun e =>
        decide (e.tail ∈ (baseTaint net s).nodes) && decide (e.head ∈ (baseTaint net s).nodes) := by
      refine List.mem_filter.mpr ⟨hspread, ?_⟩
      simp only [Spread.rename, htail, hhead, decide_true, Bool.and_self]
    rcases eq_or_of_mem_distinctSpreads ((pairwise_spreads hn hfirst).filter _) hd hmem hdt hdh with
      rfl | hpasses
    · exact hk
    · exact hpasses hdt hdh hk
  · have hkind : e.kind = (e.rename φ).kind := rfl
    rw [hkind, Bool.eq_iff_iff, isAdjacency_iff hn (hmade.of_mem_edges hd).1,
      isAdjacency_iff hn hspread, hdt, hdh]

/-! ### Walks -/

open TaintGraph (endState arrival)

variable {w : List Spread}

/-- **Walks of the part can be taken in the whole**, to the renamed nodes and with no fewer ways
on. -/
theorem exists_walk (w : List Spread) : (baseTaint net' s).IsWalk s w →
    ∃ x, (baseTaint net s).IsWalk s x ∧ (endState s x).1 = (endState s w).1.rename φ ∧
      ((endState s x).2 = true → (endState s w).2 = true) := by
  induction w using List.reverseRecOn with
  | nil => exact fun _ => ⟨[], TaintGraph.isWalk_nil, rfl, id⟩
  | append_singleton w e ih =>
    intro hw
    obtain ⟨hw, he, hf⟩ := TaintGraph.isWalk_concat.mp hw
    obtain ⟨x, hx, hst, hb⟩ := ih hw
    obtain ⟨d, hd, ht, hh, hk, -⟩ := h.exists_edge hn' hn hfirst he
    refine ⟨x ++ [d], TaintGraph.isWalk_concat.mpr ⟨hx, hd, follows_of_ends hf ht hk hst hb⟩, ?_⟩
    simpa [arrival, hh] using hk

/-- A walk of the part whose last edge is `e` makes one of the whole whose last edge joins the
renamed nodes. -/
theorem exists_walk_concat (hw : (baseTaint net' s).IsWalk s (w ++ [e])) :
    ∃ x d, (baseTaint net s).IsWalk s (x ++ [d]) ∧ d.tail = e.tail.rename φ ∧
      d.head = e.head.rename φ ∧ d.kind.isAdjacency = e.kind.isAdjacency := by
  obtain ⟨hw, he, hf⟩ := TaintGraph.isWalk_concat.mp hw
  obtain ⟨x, hx, hst, hb⟩ := h.exists_walk hn' hn hfirst w hw
  obtain ⟨d, hd, ht, hh, hk, ha⟩ := h.exists_edge hn' hn hfirst he
  exact ⟨x, d, TaintGraph.isWalk_concat.mpr ⟨hx, hd, follows_of_ends hf ht hk hst hb⟩, ht, hh, ha⟩

/-! ### Taint -/

variable {p q : Process}

theorem isTainted (ht : (baseTaint net' s).taint.isTainted p = true) :
    (baseTaint net s).taint.isTainted (p.rename φ) = true := by
  obtain ⟨w, hw, hp⟩ := ((Scene.baseTaint_exact hn' s).isTainted_iff p).mp ht
  obtain ⟨x, hx, hst, -⟩ := h.exists_walk hn' hn hfirst w hw
  rw [hp] at hst
  exact ((Scene.baseTaint_exact hn s).isTainted_iff _).mpr ⟨x, hx, hst⟩

theorem propagates (ht : (baseTaint net' s).taint.propagates p q = true) :
    (baseTaint net s).taint.propagates (p.rename φ) (q.rename φ) = true := by
  obtain ⟨w, e, hw, hp, hq⟩ := ((Scene.baseTaint_exact hn' s).propagates_iff p q).mp ht
  obtain ⟨x, d, hx, ht, hh, -⟩ := h.exists_walk_concat hn' hn hfirst hw
  rw [hp] at ht
  rw [hq] at hh
  exact ((Scene.baseTaint_exact hn s).propagates_iff _ _).mpr ⟨x, d, hx, ht, hh⟩

theorem taintedByAdjacency (ht : (baseTaint net' s).taint.taintedByAdjacency q = true) :
    (baseTaint net s).taint.taintedByAdjacency (q.rename φ) = true := by
  obtain ⟨ho, w, e, hw, ha, hq⟩ := ((Scene.baseTaint_exact hn' s).taintedByAdjacency_iff q).mp ht
  obtain ⟨x, d, hx, -, hh, hd⟩ := h.exists_walk_concat hn' hn hfirst hw
  rw [hq] at hh
  exact ((Scene.baseTaint_exact hn s).taintedByAdjacency_iff _).mpr
    ⟨fun hs => ho (h.originates hs), x, d, hx, hd.trans ha, hh⟩

end

end Part

end Network

end NetReach
