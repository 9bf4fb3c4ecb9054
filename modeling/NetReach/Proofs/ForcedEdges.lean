import Mathlib.Logic.Relation
import NetReach.Proofs.InsertionOrder

/-! # What contraction leaves

An edge is *forced* if it is the only one out of its tail and the only one into its head
(`PathGraph.Forced`). Two chains can be merged exactly if a forced edge joins them
(`ChainGraph.Contracts.isMergeable_iff_forced`). Hence the chains of a run go along forced edges
(`ChainGraph.Follows`), and when no pair is left the vertices that forced edges connect are in one
chain (`ChainGraph.Follows.same_chain_iff`). Which pair was merged first can be seen only from where
a cycle of forced edges is cut. -/

namespace NetReach

theorem eq_singleton_of_nodup {α : Type} {l : List α} {a : α} (hl : l.Nodup) (ha : a ∈ l)
    (honly : ∀ b ∈ l, b = a) : l = [a] := by
  by_contra hne
  rcases (hl.ne_singleton_iff a).mp hne with rfl | ⟨b, hb, hba⟩
  · cases ha
  · exact hba (honly b hb)

namespace PathGraph

variable {g : PathGraph} {u v w : Vertex} {t : Arc}

/-- The number of edges out of a vertex. -/
def outDegree (g : PathGraph) (u : Vertex) : Nat := g.edges.keys.countP (·.tail = u)

/-- The number of edges into a vertex. -/
def inDegree (g : PathGraph) (v : Vertex) : Nat := g.edges.keys.countP (·.head = v)

/-- The edge from `u` to `v` is the only one out of `u` and the only one into `v`. -/
structure Forced (g : PathGraph) (u v : Vertex) : Prop where
  mem : ⟨u, v⟩ ∈ g.edges.keys
  outDegree : g.outDegree u = 1
  inDegree : g.inDegree v = 1

theorem nodup_keys (g : PathGraph) : g.edges.keys.Nodup := by
  refine List.pairwise_map.mpr (g.edges.ascending.imp fun hlt heq => ?_)
  rw [heq, Std.compare_self] at hlt
  cases hlt

/-- One edge is counted exactly if there is no other than the one at hand. -/
theorem countP_keys_eq_one {p : Arc → Bool} (ht : t ∈ g.edges.keys) (hp : p t = true) :
    g.edges.keys.countP p = 1 ↔ ∀ s ∈ g.edges.keys, p s = true → s = t := by
  rw [List.countP_eq_length_filter, List.length_eq_one_iff]
  have htp : t ∈ g.edges.keys.filter p := List.mem_filter.mpr ⟨ht, hp⟩
  constructor
  · rintro ⟨a, ha⟩ s hs hps
    have hsp : s ∈ g.edges.keys.filter p := List.mem_filter.mpr ⟨hs, hps⟩
    rw [ha, List.mem_singleton] at hsp htp
    rw [hsp, htp]
  · intro honly
    refine ⟨t, eq_singleton_of_nodup (g.nodup_keys.filter p) htp fun s hs => ?_⟩
    obtain ⟨hs, hps⟩ := List.mem_filter.mp hs
    exact honly s hs hps

theorem outDegree_eq_one (h : ⟨u, v⟩ ∈ g.edges.keys) :
    g.outDegree u = 1 ↔ ∀ w, ⟨u, w⟩ ∈ g.edges.keys → w = v := by
  rw [outDegree, countP_keys_eq_one h (decide_eq_true rfl)]
  constructor
  · intro honly w hw
    exact (Arc.mk.inj (honly _ hw (decide_eq_true rfl))).2
  · rintro honly ⟨x, w⟩ hs hx
    obtain rfl : x = u := of_decide_eq_true hx
    rw [honly w hs]

theorem inDegree_eq_one (h : ⟨u, v⟩ ∈ g.edges.keys) :
    g.inDegree v = 1 ↔ ∀ w, ⟨w, v⟩ ∈ g.edges.keys → w = u := by
  rw [inDegree, countP_keys_eq_one h (decide_eq_true rfl)]
  constructor
  · intro honly w hw
    exact (Arc.mk.inj (honly _ hw (decide_eq_true rfl))).1
  · rintro honly ⟨w, y⟩ hs hy
    obtain rfl : y = v := of_decide_eq_true hy
    rw [honly w hs]

/-- **An edge is forced if there is no other way on from its tail and none into its head.** -/
theorem forced_iff : g.Forced u v ↔ ⟨u, v⟩ ∈ g.edges.keys ∧
    (∀ w, ⟨u, w⟩ ∈ g.edges.keys → w = v) ∧ ∀ w, ⟨w, v⟩ ∈ g.edges.keys → w = u := by
  constructor
  · rintro ⟨hmem, hout, hin⟩
    exact ⟨hmem, (outDegree_eq_one hmem).mp hout, (inDegree_eq_one hmem).mp hin⟩
  · rintro ⟨hmem, hout, hin⟩
    exact ⟨hmem, (outDegree_eq_one hmem).mpr hout, (inDegree_eq_one hmem).mpr hin⟩

theorem Forced.head_unique (h : g.Forced u v) (hw : ⟨u, w⟩ ∈ g.edges.keys) : w = v :=
  (forced_iff.mp h).2.1 w hw

theorem Forced.tail_unique (h : g.Forced u v) (hw : ⟨w, v⟩ ∈ g.edges.keys) : w = u :=
  (forced_iff.mp h).2.2 w hw

instance (g : PathGraph) (u v : Vertex) : Decidable (g.Forced u v) :=
  decidable_of_iff (⟨u, v⟩ ∈ g.edges.keys ∧ g.outDegree u = 1 ∧ g.inDegree v = 1)
    ⟨fun ⟨h1, h2, h3⟩ => ⟨h1, h2, h3⟩, fun ⟨h1, h2, h3⟩ => ⟨h1, h2, h3⟩⟩

theorem Forced.mem_vertices (h : g.Forced u v) : u ∈ g.vertices ∧ v ∈ g.vertices :=
  ⟨(g.edges_mem _ h.mem).1, (g.edges_mem _ h.mem).2.1⟩

/-! ### Cycles of forced edges -/

variable {l : List Vertex} {a : Vertex}

theorem exists_next (hl : (l ++ [a]).IsChain g.Forced) (hu : u ∈ l) :
    ∃ w ∈ l ++ [a], g.Forced u w := by
  induction l with
  | nil => cases hu
  | cons b l ih =>
    obtain ⟨hb, hl⟩ := List.isChain_cons.mp hl
    rcases List.mem_cons.mp hu with rfl | hu
    · obtain ⟨w, hw⟩ := Option.isSome_iff_exists.mp
        (List.isSome_head?.mpr (List.append_ne_nil_of_right_ne_nil l (List.cons_ne_nil a [])))
      exact ⟨w, List.mem_cons_of_mem _ (List.mem_of_head? hw), hb w hw⟩
    · obtain ⟨w, hw, huw⟩ := ih hl hu
      exact ⟨w, List.mem_cons_of_mem _ hw, huw⟩

theorem exists_prev (hl : (a :: l).IsChain g.Forced) (hv : v ∈ l) :
    ∃ w ∈ a :: l, g.Forced w v := by
  induction l generalizing a with
  | nil => cases hv
  | cons b l ih =>
    obtain ⟨hab, hl⟩ := List.isChain_cons_cons.mp hl
    rcases List.mem_cons.mp hv with rfl | hv
    · exact ⟨a, List.mem_cons_self, hab⟩
    · obtain ⟨w, hw, hwv⟩ := ih hl hv
      exact ⟨w, List.mem_cons_of_mem _ hw, hwv⟩

theorem mem_append_singleton_iff : u ∈ a :: (l ++ [a]) ↔ u ∈ a :: l := by
  simp only [List.mem_cons, List.mem_append, List.not_mem_nil, or_false]
  tauto

/-- Forced edges do not leave a cycle of forced edges, and do not enter it. -/
theorem mem_cycle_iff (hl : (a :: (l ++ [a])).IsChain g.Forced)
    (h : Relation.EqvGen g.Forced u v) : u ∈ a :: l ↔ v ∈ a :: l := by
  induction h with
  | refl u => exact Iff.rfl
  | symm u v _ ih => exact ih.symm
  | trans u v w _ _ ih ih' => exact ih.trans ih'
  | rel u v h =>
    constructor
    · intro hu
      obtain ⟨w, hw, huw⟩ := exists_next (l := a :: l) hl hu
      rw [huw.head_unique h.mem]
      exact mem_append_singleton_iff.mp hw
    · intro hv
      have hv : v ∈ l ++ [a] := List.perm_append_singleton a l |>.mem_iff.mpr hv
      obtain ⟨w, hw, hwv⟩ := exists_prev hl hv
      rw [hwv.tail_unique h.mem]
      exact mem_append_singleton_iff.mp hw

/-- Forced edges connect the vertices of a chain of them. -/
theorem eqvGen_of_isChain (hl : l.IsChain g.Forced) (hu : u ∈ l) (hv : v ∈ l) :
    Relation.EqvGen g.Forced u v := by
  have : IsTrans Vertex (Relation.EqvGen g.Forced) := ⟨Relation.EqvGen.trans⟩
  have : Std.Symm (Relation.EqvGen g.Forced) := ⟨Relation.EqvGen.symm⟩
  have hpairs : l.Pairwise (Relation.EqvGen g.Forced) :=
    List.isChain_iff_pairwise.mp (hl.imp Relation.EqvGen.rel)
  exact hpairs.forall_of_forall (fun x _ => .refl x) hu hv

end PathGraph

namespace ChainGraph

variable {g : PathGraph} {k : ChainGraph} {u v l : List Vertex} {a b x y : Vertex}
  {c d : ChainEdge} {t : Arc}

namespace Contracts

/-! ### The edges between chains -/

/-- **The edges that are left are those no chain goes along.** -/
theorem exists_edge_iff (h : k.Contracts g) :
    (∃ d ∈ k.edges, d.arc = t) ↔ t ∈ g.edges.keys ∧ ¬ k.Joins t := by
  have hmem : (∃ d ∈ k.edges, d.arc = t) ↔
      t ∈ (k.edges.map fun d => (d.arc, d.edge)).map (·.1) := by
    simp [List.mem_map]
  rw [hmem, h.edges, OrdMap.keys]
  simp only [List.mem_map, List.mem_filter, decide_eq_true_eq]
  constructor
  · rintro ⟨s, ⟨hs, hjoins⟩, rfl⟩
    exact ⟨⟨s, hs, rfl⟩, hjoins⟩
  · rintro ⟨⟨s, hs, rfl⟩, hjoins⟩
    exact ⟨s, ⟨hs, hjoins⟩, rfl⟩

theorem arc_mem_keys (h : k.Contracts g) (hd : d ∈ k.edges) : d.arc ∈ g.edges.keys :=
  (h.exists_edge_iff.mp ⟨d, hd, rfl⟩).1

theorem arc_tail_mem (h : k.Contracts g) (hd : d ∈ k.edges) : d.arc.tail ∈ d.tail :=
  h.getLastD_mem (h.ends d hd).1

theorem arc_head_mem (h : k.Contracts g) (hd : d ∈ k.edges) : d.arc.head ∈ d.head :=
  h.headD_mem (h.ends d hd).2

/-- No chain goes on behind its last vertex. -/
theorem not_joins_getLastD (h : k.Contracts g) (hu : u ∈ k.chains) :
    ¬ k.Joins ⟨u.getLastD default, y⟩ := by
  rintro ⟨v, hv, hpair⟩
  obtain rfl := h.eq_of_mem hu hv (h.getLastD_mem hu) (hpair.subset (by simp))
  have hnodup := h.nodup hu
  have hne := h.ne_nil u hu
  have hsplit := List.dropLast_append_getLast hne
  rw [getLastD_eq_getLast hne] at hpair
  generalize u.getLast hne = x at hpair hsplit
  generalize u.dropLast = p at hsplit
  subst hsplit
  have hlast : x ∉ p := (List.nodup_cons.mp (List.nodup_append_comm.mp hnodup)).1
  rcases pair_infix_append_iff.mp hpair with hpair | hpair | ⟨hpair, -⟩
  · exact hlast (hpair.subset (by simp))
  · have hlen := hpair.length_le
    simp at hlen
  · exact hlast (List.mem_of_getLast? hpair)

/-- No chain leads to its first vertex. -/
theorem not_joins_headD (h : k.Contracts g) (hv : v ∈ k.chains) :
    ¬ k.Joins ⟨x, v.headD default⟩ := by
  rintro ⟨u, hu, hpair⟩
  obtain rfl := h.eq_of_mem hu hv (hpair.subset (by simp)) (h.headD_mem hv)
  have hnodup := h.nodup hu
  obtain ⟨y, u, rfl⟩ := List.exists_cons_of_ne_nil (h.ne_nil u hu)
  obtain ⟨hy, -⟩ := List.nodup_cons.mp hnodup
  rw [List.headD_cons, List.infix_cons_iff, List.cons_prefix_cons, singleton_prefix_iff] at hpair
  rcases hpair with ⟨-, hhead⟩ | hpair
  · exact hy (List.mem_of_head? hhead)
  · exact hy (hpair.subset (by simp))

/-- An edge out of the last vertex of a chain is an edge between chains. -/
theorem exists_out (h : k.Contracts g) (hu : u ∈ k.chains)
    (ht : ⟨u.getLastD default, y⟩ ∈ g.edges.keys) :
    ∃ d ∈ k.edges, d.tail = u ∧ d.arc.head = y := by
  obtain ⟨d, hd, harc⟩ := h.exists_edge_iff.mpr ⟨ht, h.not_joins_getLastD hu⟩
  obtain ⟨htail, hhead⟩ := Arc.mk.inj harc
  have hlast : u.getLastD default ∈ d.tail := htail ▸ h.arc_tail_mem hd
  exact ⟨d, hd, h.eq_of_mem (h.ends d hd).1 hu hlast (h.getLastD_mem hu), hhead⟩

/-- An edge into the first vertex of a chain is an edge between chains. -/
theorem exists_in (h : k.Contracts g) (hv : v ∈ k.chains)
    (ht : ⟨x, v.headD default⟩ ∈ g.edges.keys) :
    ∃ d ∈ k.edges, d.head = v ∧ d.arc.tail = x := by
  obtain ⟨d, hd, harc⟩ := h.exists_edge_iff.mpr ⟨ht, h.not_joins_headD hv⟩
  obtain ⟨htail, hhead⟩ := Arc.mk.inj harc
  have hfirst : v.headD default ∈ d.head := hhead ▸ h.arc_head_mem hd
  exact ⟨d, hd, h.eq_of_mem (h.ends d hd).2 hv hfirst (h.headD_mem hv), htail⟩

/-! ### Merging goes along forced edges -/

/-- A forced edge is the only one out of its chain. -/
theorem eq_of_tail_eq (h : k.Contracts g) (hd : d ∈ k.edges)
    (hf : g.Forced d.arc.tail d.arc.head) (hc : c ∈ k.edges) (htail : c.tail = d.tail) : c = d := by
  have harc : ⟨d.arc.tail, c.arc.head⟩ ∈ g.edges.keys := by
    have hmem := h.arc_mem_keys hc
    rwa [ChainEdge.arc, htail] at hmem
  have hhead := h.arc_head_mem hc
  rw [hf.head_unique harc] at hhead
  exact h.eq_of_ends hc hd htail
    (h.eq_of_mem (h.ends c hc).2 (h.ends d hd).2 hhead (h.arc_head_mem hd))

/-- A forced edge is the only one into its chain. -/
theorem eq_of_head_eq (h : k.Contracts g) (hd : d ∈ k.edges)
    (hf : g.Forced d.arc.tail d.arc.head) (hc : c ∈ k.edges) (hhead : c.head = d.head) : c = d := by
  have harc : ⟨c.arc.tail, d.arc.head⟩ ∈ g.edges.keys := by
    have hmem := h.arc_mem_keys hc
    rwa [ChainEdge.arc, hhead] at hmem
  have htail := h.arc_tail_mem hc
  rw [hf.tail_unique harc] at htail
  exact h.eq_of_ends hc hd
    (h.eq_of_mem (h.ends c hc).1 (h.ends d hd).1 htail (h.arc_tail_mem hd)) hhead

/-- **Two chains can be merged exactly if a forced edge joins them.** -/
theorem isMergeable_iff_forced (h : k.Contracts g) (hd : d ∈ k.edges) :
    k.IsMergeable d.tail d.head ↔ d.head ≠ d.tail ∧ g.Forced d.arc.tail d.arc.head := by
  obtain ⟨htail, hhead⟩ := h.ends d hd
  constructor
  · intro hm
    refine ⟨hm.ne, PathGraph.forced_iff.mpr ⟨h.arc_mem_keys hd, fun y hy => ?_, fun x hx => ?_⟩⟩
    · obtain ⟨c, hc, hcd, rfl⟩ := h.exists_out htail hy
      exact congrArg (·.headD default) (hm.only_out c hc hcd)
    · obtain ⟨c, hc, hcd, rfl⟩ := h.exists_in hhead hx
      exact congrArg (·.getLastD default) (hm.only_in c hc hcd)
  · rintro ⟨hne, hf⟩
    refine ⟨htail, hne, ⟨d, hd, rfl, rfl⟩, fun c hc hcd => ?_, fun c hc hcd => ?_⟩
    · rw [h.eq_of_tail_eq hd hf hc hcd]
    · rw [h.eq_of_head_eq hd hf hc hcd]

/-- **What is merged is joined by a forced edge.** -/
theorem forced_of_isMergeable (h : k.Contracts g) (hm : k.IsMergeable u v) :
    g.Forced (u.getLastD default) (v.headD default) := by
  obtain ⟨d, hd, rfl, rfl⟩ := hm.exists_edge
  exact ((h.isMergeable_iff_forced hd).mp hm).2

theorem isChain_merge (h : k.Contracts g) (hm : k.IsMergeable u v)
    (hk : ∀ w ∈ k.chains, w.IsChain g.Forced) : ∀ w ∈ (k.merge u v).chains, w.IsChain g.Forced := by
  intro w hw
  obtain ⟨rest, hperm, hmerge, -⟩ := h.exists_perm_merge hm
  rcases List.mem_cons.mp (hmerge.mem_iff.mp hw) with rfl | hw
  · refine List.isChain_append.mpr ⟨hk u hm.mem, hk v (h.right_mem hm), ?_⟩
    intro x hx y hy
    obtain rfl := (getLast?_eq_some_iff (h.ne_nil u hm.mem)).mp hx
    obtain rfl := (head?_eq_some_iff (h.ne_nil v (h.right_mem hm))).mp hy
    exact h.forced_of_isMergeable hm
  · exact hk w (hperm.mem_iff.mpr (List.mem_cons_of_mem _ (List.mem_cons_of_mem _ hw)))

/-- One edge disappears, as does one chain. -/
theorem numEdges_merge (h : k.Contracts g) (hm : k.IsMergeable u v) :
    (k.merge u v).numEdges + 1 = k.numEdges := by
  obtain ⟨d, hd, hdu, hdv⟩ := hm.exists_edge
  have hkept : (k.edges.filter fun c => ¬(c.tail = u ∧ c.head = v)) = k.edges.erase d := by
    rw [h.nodup_edges.erase_eq_filter]
    refine List.filter_congr fun c hc => ?_
    have hcd : c.tail = u ∧ c.head = v ↔ c = d := by
      refine ⟨fun ⟨hcu, hcv⟩ => h.eq_of_ends hc hd (hcu.trans hdu.symm) (hcv.trans hdv.symm), ?_⟩
      rintro rfl
      exact ⟨hdu, hdv⟩
    rw [Bool.eq_iff_iff, decide_eq_true_eq, bne_iff_ne]
    exact not_congr hcd
  rw [numEdges, numEdges, edges_merge, List.length_map, hkept,
    List.length_erase_of_mem hd]
  exact Nat.sub_add_cancel (List.length_pos_of_mem hd)

end Contracts

/-- What the merges of a run keep: chains go along forced edges, and as many edges have gone as
vertices. -/
structure Follows (k : ChainGraph) (g : PathGraph) : Prop extends k.Contracts g where
  isChain : ∀ u ∈ k.chains, u.IsChain g.Forced
  numbers : ∃ n, g.numVertices = k.numChains + n ∧ g.numEdges = k.numEdges + n

theorem follows_chains (g : PathGraph) : g.chains.Follows g where
  toContracts := contracts_chains g
  isChain u hu := by
    obtain ⟨x, -, rfl⟩ := List.mem_map.mp hu
    exact .singleton x
  numbers := by
    refine ⟨0, ?_, ?_⟩
    · rw [numChains, PathGraph.chains, List.length_map]
      rfl
    · rw [numEdges, PathGraph.chains, List.length_map]
      rfl

theorem Follows.merge (h : k.Follows g) (hm : k.IsMergeable u v) : (k.merge u v).Follows g where
  toContracts := h.toContracts.merge hm
  isChain := h.toContracts.isChain_merge hm h.isChain
  numbers := by
    have hchains : (k.merge u v).numChains + 1 = k.numChains := h.length_merge hm
    have hedges := h.numEdges_merge hm
    obtain ⟨n, hvertices, hremaining⟩ := h.numbers
    exact ⟨n + 1, by omega, by omega⟩

theorem Follows.contractWithin (h : k.Follows g) (n : Nat) : (k.contractWithin n).Follows g := by
  induction n generalizing k with
  | zero => exact h
  | succ n ih =>
    rw [ChainGraph.contractWithin]
    split
    · exact h
    · next u v hmerge => exact ih (h.merge (isMergeable_of_mergeable? hmerge))

theorem follows_contract (g : PathGraph) : g.contract.Follows g :=
  (follows_chains g).contractWithin g.numVertices

/-! ### Nothing left to merge -/

theorem Contracts.mergeable?_ne_none (h : k.Contracts g) (hm : k.IsMergeable u v) :
    k.mergeable? ≠ none := by
  obtain ⟨d, hd, hdu, hdv⟩ := hm.exists_edge
  have hout : k.outEdges u = [d] := by
    refine eq_singleton_of_nodup (h.nodup_edges.filter _) (mem_outEdges.mpr ⟨hd, hdu⟩) ?_
    intro c hc
    obtain ⟨hc, hcu⟩ := mem_outEdges.mp hc
    exact h.eq_of_ends hc hd (hcu.trans hdu.symm) ((hm.only_out c hc hcu).trans hdv.symm)
  have hin : k.inEdges v = [d] := by
    refine eq_singleton_of_nodup (h.nodup_edges.filter _) (mem_inEdges.mpr ⟨hd, hdv⟩) ?_
    intro c hc
    obtain ⟨hc, hcv⟩ := mem_inEdges.mp hc
    exact h.eq_of_ends hc hd ((hm.only_in c hc hcv).trans hdu.symm) (hcv.trans hdv.symm)
  have hpartner : k.partner? u = some v :=
    partner?_eq_some.mpr ⟨d, hout, hdv, hm.ne, by rw [hin, List.length_singleton]⟩
  intro hnone
  have hno := List.findSome?_eq_none_iff.mp hnone u hm.mem
  rw [hpartner] at hno
  cases hno

/-- No two chains of a contracted graph can be merged. -/
theorem not_isMergeable_contract (g : PathGraph) (u v : List Vertex) :
    ¬ g.contract.IsMergeable u v := fun hm =>
  (contracts_contract g).mergeable?_ne_none hm (mergeable?_contract g)

namespace Follows

variable (hk : k.Follows g) (hdone : ∀ u v, ¬ k.IsMergeable u v)

include hk hdone

/-- A forced edge that is left leads from a chain to itself. -/
theorem head_eq_tail (hd : d ∈ k.edges) (hf : g.Forced d.arc.tail d.arc.head) :
    d.head = d.tail := by
  by_contra hne
  exact hdone d.tail d.head ((hk.isMergeable_iff_forced hd).mpr ⟨hne, hf⟩)

/-- The ends of a forced edge are in one chain. -/
theorem exists_chain_of_forced (h : g.Forced a b) : ∃ u ∈ k.chains, a ∈ u ∧ b ∈ u := by
  by_cases hjoins : k.Joins ⟨a, b⟩
  · obtain ⟨u, hu, hpair⟩ := hjoins
    exact ⟨u, hu, hpair.subset (by simp), hpair.subset (by simp)⟩
  · obtain ⟨d, hd, harc⟩ := hk.exists_edge_iff.mpr ⟨h.mem, hjoins⟩
    obtain ⟨rfl, rfl⟩ := Arc.mk.inj harc
    have hhead := hk.arc_head_mem hd
    rw [hk.head_eq_tail hdone hd h] at hhead
    exact ⟨d.tail, (hk.ends d hd).1, hk.arc_tail_mem hd, hhead⟩

/-- **The chains are the classes of the vertices that forced edges connect.** -/
theorem same_chain_iff (ha : a ∈ g.vertices) :
    (∃ u ∈ k.chains, a ∈ u ∧ b ∈ u) ↔ Relation.EqvGen g.Forced a b := by
  constructor
  · rintro ⟨u, hu, hau, hbu⟩
    exact PathGraph.eqvGen_of_isChain (hk.isChain u hu) hau hbu
  · intro hab
    have hclass : a = b ∨ ∃ u ∈ k.chains, a ∈ u ∧ b ∈ u := by
      clear ha
      induction hab with
      | rel a b h => exact .inr (hk.exists_chain_of_forced hdone h)
      | refl a => exact .inl rfl
      | symm a b _ ih => exact ih.imp Eq.symm fun ⟨u, hu, hau, hbu⟩ => ⟨u, hu, hbu, hau⟩
      | trans a b c _ _ ih ih' =>
        rcases ih with rfl | ⟨u, hu, hau, hbu⟩
        · exact ih'
        · rcases ih' with rfl | ⟨v, hv, hbv, hcv⟩
          · exact .inr ⟨u, hu, hau, hbu⟩
          · obtain rfl := hk.eq_of_mem hu hv hbu hbv
            exact .inr ⟨u, hu, hau, hcv⟩
    rcases hclass with rfl | hclass
    · obtain ⟨u, hu, hau⟩ := hk.exists_chain ha
      exact ⟨u, hu, hau, hau⟩
    · exact hclass

/-- **A closed cycle of forced edges becomes one chain.** -/
theorem exists_perm_cycle (hnodup : (a :: l).Nodup) (hl : (a :: (l ++ [a])).IsChain g.Forced) :
    ∃ u ∈ k.chains, u.Perm (a :: l) := by
  obtain ⟨b, -, hab⟩ := PathGraph.exists_next (l := a :: l) hl List.mem_cons_self
  obtain ⟨u, hu, hau⟩ := hk.exists_chain hab.mem_vertices.1
  refine ⟨u, hu, (List.perm_ext_iff_of_nodup (hk.nodup hu) hnodup).mpr fun x => ?_⟩
  constructor
  · intro hxu
    have hax := PathGraph.eqvGen_of_isChain (hk.isChain u hu) hau hxu
    exact (PathGraph.mem_cycle_iff hl hax).mp List.mem_cons_self
  · intro hx
    have hax := PathGraph.eqvGen_of_isChain hl List.mem_cons_self
      (PathGraph.mem_append_singleton_iff.mpr hx)
    obtain ⟨v, hv, hav, hxv⟩ := (hk.same_chain_iff hdone hab.mem_vertices.1).mpr hax
    rwa [hk.eq_of_mem hu hv hau hav]

/-- **The one edge left of the cycle leads from the chain to itself.** -/
theorem exists_loop (hl : (a :: (l ++ [a])).IsChain g.Forced)
    (hu : u ∈ k.chains) (hul : u.Perm (a :: l)) :
    ∃ e, k.edges.filter (fun d => d.tail = u ∨ d.head = u) = [⟨u, u, e⟩] := by
  have hlast : u.getLastD default ∈ a :: l := hul.mem_iff.mp (hk.getLastD_mem hu)
  obtain ⟨y, -, hy⟩ := PathGraph.exists_next (l := a :: l) hl hlast
  obtain ⟨d, hd, rfl, rfl⟩ := hk.exists_out hu hy.mem
  have hself := hk.head_eq_tail hdone hd hy
  have hdloop : (⟨d.tail, d.tail, d.edge⟩ : ChainEdge) = d :=
    congrArg (ChainEdge.mk d.tail · d.edge) hself.symm
  refine ⟨d.edge, (eq_singleton_of_nodup (hk.nodup_edges.filter _)
    (List.mem_filter.mpr ⟨hd, decide_eq_true (.inl rfl)⟩) fun c hc => ?_).trans (by rw [hdloop])⟩
  obtain ⟨hc, hends⟩ := List.mem_filter.mp hc
  rcases of_decide_eq_true hends with htail | hhead
  · exact hk.eq_of_tail_eq hd hy hc htail
  · exact hk.eq_of_head_eq hd hy hc (hhead.trans hself.symm)

end Follows

/-- The contracted graph, described by the path graph alone. -/
structure IsClosedForm (k : ChainGraph) (g : PathGraph) : Prop where
  /-- Every vertex is in one chain, and comes in it once. -/
  perm : k.chains.flatten.Perm g.vertices.toList
  /-- Two vertices are in one chain exactly if forced edges connect them. -/
  same_chain : ∀ a ∈ g.vertices, ∀ b ∈ g.vertices,
    ((∃ u ∈ k.chains, a ∈ u ∧ b ∈ u) ↔ Relation.EqvGen g.Forced a b)
  /-- Forced edges join the vertices next to each other. -/
  isChain : ∀ u ∈ k.chains, u ≠ [] ∧ u.IsChain g.Forced
  /-- An edge goes from the chain that ends in its tail to the chain that starts with its head. -/
  ends : ∀ d ∈ k.edges, d.tail ∈ k.chains ∧ d.head ∈ k.chains ∧
    d.tail.getLast? = some d.arc.tail ∧ d.head.head? = some d.arc.head
  /-- The edges that no chain goes along are left, with their kinds and policies. -/
  edges : k.edges.map (fun d => (d.arc, d.edge)) =
    g.edges.entries.filter fun x => decide ¬ k.Joins x.1
  /-- As many edges have gone as vertices. -/
  numbers : ∃ n, g.numVertices = k.numChains + n ∧ g.numEdges = k.numEdges + n
  /-- A closed cycle of forced edges is one chain with one edge, to itself. -/
  cycle : ∀ a l, (a :: l).Nodup → (a :: (l ++ [a])).IsChain g.Forced →
    ∃ u ∈ k.chains, u.Perm (a :: l) ∧
      ∃ e, k.edges.filter (fun d => d.tail = u ∨ d.head = u) = [⟨u, u, e⟩]
  /-- No further pair can be merged. -/
  done : k.mergeable? = none ∧ ∀ u v, ¬ k.IsMergeable u v

end ChainGraph

namespace PathGraph

/-- **Contraction puts together what forced edges connect, and nothing else.** -/
theorem contract_isClosedForm (g : PathGraph) : g.contract.IsClosedForm g := by
  have hk := ChainGraph.follows_contract g
  have hdone := ChainGraph.not_isMergeable_contract g
  constructor
  case perm => exact hk.perm
  case same_chain => exact fun a ha b _ => hk.same_chain_iff hdone ha
  case isChain => exact fun u hu => ⟨hk.ne_nil u hu, hk.isChain u hu⟩
  case ends =>
    intro d hd
    obtain ⟨htail, hhead⟩ := hk.ends d hd
    exact ⟨htail, hhead, (ChainGraph.getLast?_eq_some_iff (hk.ne_nil _ htail)).mpr rfl,
      (ChainGraph.head?_eq_some_iff (hk.ne_nil _ hhead)).mpr rfl⟩
  case edges => exact hk.edges
  case numbers => exact hk.numbers
  case cycle =>
    intro a l hnodup hl
    obtain ⟨u, hu, hul⟩ := hk.exists_perm_cycle hdone hnodup hl
    exact ⟨u, hu, hul, hk.exists_loop hdone hl hu hul⟩
  case done => exact ⟨ChainGraph.mergeable?_contract g, hdone⟩

/-- All edges of the ring are forced, and the one that closes it is left. -/
example : ring.Forced (.main (.bgpIn 2)) (.main (.bgpIn 0)) ∧
    ring.contract.edges.map (·.arc) = [⟨.main (.bgpIn 2), .main (.bgpIn 0)⟩] := by
  decide +kernel

end PathGraph

end NetReach
