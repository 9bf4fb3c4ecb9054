import NetReach.Proofs.Contraction
import NetReach.Proofs.Genuine
import NetReach.Proofs.Listing

/-! # Answers do not depend on the order of insertion

A listing goes through the parts of its graph as they were added, and gives the answers of the graph
nevertheless (`Listing.Lists.answers_eq`).

* No two candidates of a vertex go over the same path, so one of them is the best, in whatever order
  they come (`Route.best?_eq_of_perm`), and turns have the same effect (`Listing.Lists.update_eq`).
  This needs a table of genuine routes, which all tables of a simulation are.
* The chains come in the order of their first vertices, so the same pair is merged next
  (`ChainGraph.Shuffles.mergeable?_eq`). The listing enters the new chain last and hands it the
  edges of the two, which gives the same chains and edges as renaming the two in their places
  (`ChainGraph.Shuffles.replacePair`).

Two listings of the same parts therefore answer alike (`Listing.answers_of_same_parts`). -/

namespace NetReach

/-! ### Selected routes -/

namespace Route

variable {d : RankDomain} {l m : List Route}

/-- **The best route of a list does not depend on its order**, if its routes go over different
paths. -/
theorem best?_eq_of_perm (h : l.Perm m) (hl : ∀ a ∈ l, ∀ b ∈ l, a.path = b.path → a = b) :
    best? d l = best? d m := by
  cases hr : best? d l with
  | none =>
    rw [best?_eq_none.mp hr] at h
    exact (best?_eq_none.mpr h.nil_eq.symm).symm
  | some r =>
    obtain ⟨hrl, hbest⟩ := best?_eq_some hr
    cases hs : best? d m with
    | none =>
      rw [best?_eq_none.mp hs] at h
      rw [h.eq_nil] at hrl
      cases hrl
    | some s =>
      obtain ⟨hsm, hbest'⟩ := best?_eq_some hs
      have hsl := h.mem_iff.mpr hsm
      -- neither beats the other, so they go over the same path
      cases hc : Route.compare d r s with
      | lt => exact absurd (Std.OrientedCmp.gt_iff_lt.mpr hc) (hbest s hsl)
      | eq => rw [hl r hrl s hsl (path_eq_of_compare_eq hc)]
      | gt => exact absurd hc (hbest' r (h.mem_iff.mp hrl))

end Route

theorem OrdMap.get?_foldl_erase {κ ν : Type} [Ord κ] [DecidableEq κ] [Std.TransOrd κ] (ks : List κ)
    (x : κ) : ∀ m : OrdMap κ ν,
      (ks.foldl erase m).get? x = if x ∈ ks then none else m.get? x := by
  induction ks with
  | nil => exact fun m => (if_neg List.not_mem_nil).symm
  | cons k ks ih =>
    intro m
    rw [List.foldl_cons, ih, get?_erase]
    by_cases hx : x = k <;> by_cases hks : x ∈ ks <;> simp [hx, hks]

theorem PathGraph.IsRoute.edge_of_continuesAt {g : PathGraph} {f : FailureSet} {u w : Vertex}
    {r : Route} (h : g.IsRoute f w r) (hu : r.continuesAt u = true) :
    ∃ e, g.edge? w u = some e := by
  cases h with
  | origin => cases hu
  | @extend _ v e s _ hs he _ _ _ => exact ⟨e, hs.eq_of_continuesAt hu ▸ he⟩

namespace Listing.Lists

variable {l : Listing} {g : PathGraph} {f : FailureSet} {t : RoutingTable} {u w : Vertex}

theorem mem_predecessors (h : l.Lists g) : w ∈ l.predecessors u ↔ ∃ e, g.edge? w u = some e := by
  simp only [predecessors, List.mem_filterMap, Option.ite_none_right_eq_some, Option.some.injEq,
    h.edges.mem_iff]
  constructor
  · rintro ⟨⟨t, e⟩, ht, rfl, rfl⟩
    exact ⟨e, PathGraph.mem_entries_iff_edge?.mp ht⟩
  · rintro ⟨e, he⟩
    exact ⟨_, PathGraph.mem_entries_iff_edge?.mpr he, rfl, rfl⟩

theorem choice_eq (h : l.Lists g) (ht : g.Genuine f t) (u : Vertex) :
    t.choice u (l.usable f u) = t.choice u (g.usable f u) := by
  refine (Route.best?_eq_of_perm ((h.perm_usable f u).symm.filterMap _) ?_).symm
  intro a ha b hb
  exact (ht.isRoute (PathGraph.mem_candidates.mp ha)).eq_of_path_eq
    (ht.isRoute (PathGraph.mem_candidates.mp hb))

/-- Among the predecessors of `u` are all whose routes continue at `u`. -/
theorem foldl_erase_eq (h : l.Lists g) (ht : g.Genuine f t) (u : Vertex) :
    ((l.predecessors u).filter fun w => (t.get? w).any (·.continuesAt u)).foldl OrdMap.erase t =
      t.filter fun _ r => !r.continuesAt u := by
  refine OrdMap.ext fun w => ?_
  rw [OrdMap.get?_foldl_erase, OrdMap.get?_filter]
  have hstale : w ∈ (l.predecessors u).filter (fun w => (t.get? w).any (·.continuesAt u)) ↔
      (t.get? w).any (·.continuesAt u) = true := by
    rw [List.mem_filter, h.mem_predecessors, and_iff_right_of_imp]
    intro hu
    obtain ⟨r, hr, hu⟩ := (Option.any_eq_true _ _).mp hu
    exact (ht w r hr).edge_of_continuesAt hu
  cases hr : t.get? w with
  | none => exact ite_self none
  | some r =>
    rw [hr] at hstale
    by_cases hu : r.continuesAt u = true
    · rw [if_pos (hstale.mpr hu), Option.filter_some, hu]
      rfl
    · rw [if_neg (mt hstale.mp hu), Option.filter_some, eq_false_of_ne_true hu]
      rfl

/-- **A turn has the same effect.** -/
theorem update_eq (h : l.Lists g) (ht : g.Genuine f t) (u : Vertex) :
    l.update f u t = t.update u (g.usable f u) := by
  unfold Listing.update RoutingTable.update RoutingTable.replace
  rw [h.choice_eq ht]
  by_cases heq : t.get? u = t.choice u (g.usable f u)
  · simp only [if_pos heq]
  · simp only [if_neg heq]
    refine congrArg (·, true) (h.foldl_erase_eq (f := f) (fun w r hr => ?_) u)
    cases hc : t.choice u (g.usable f u) with
    | none =>
      rw [hc, OrdMap.get?_erase] at hr
      exact ht w r (Option.ite_none_left_eq_some.mp hr).2
    | some s =>
      rw [hc, OrdMap.get?_put] at hr
      split at hr
      · next hw =>
        obtain rfl := Option.some.inj hr
        exact hw ▸ ht.isRoute_of_choice hc
      · exact ht w r hr

/-- **A round has the same effect.** -/
theorem round_eq (h : l.Lists g) (ht : g.Genuine f t) :
    l.round f t = PathGraph.round (g.stations f) t := by
  have hvertices : sorted (l.vertices.filter (· ≠ l.destination)) =
      g.vertices.toList.filter (· ≠ g.destination) := by
    rw [h.destination_eq]
    exact sorted_eq_of_perm (h.vertices.filter _) (g.vertices.ascending.filter _)
  have hfold : ∀ (vs : List Vertex) (s : RoutingTable × Bool), g.Genuine f s.1 →
      vs.foldl (fun s u => ((l.update f u s.1).1, s.2 || (l.update f u s.1).2)) s =
        (vs.map fun u => (u, g.usable f u)).foldl PathGraph.turn s := by
    intro vs
    induction vs with
    | nil => exact fun _ _ => rfl
    | cons u vs ih =>
      intro s hs
      rw [List.foldl_cons, List.map_cons, List.foldl_cons, h.update_eq hs]
      exact ih _ (hs.update u)
  rw [Listing.round, hvertices]
  exact hfold _ (t, false) ht

theorem rounds_eq (h : l.Lists g) (left : Nat) : ∀ {done : Nat} {t : RoutingTable},
    g.Genuine f t → l.rounds f left done t = PathGraph.rounds (g.stations f) left done t := by
  induction left with
  | zero => exact fun _ => rfl
  | succ left ih =>
    intro done t ht
    have hround : g.Genuine f (PathGraph.round (g.stations f) t).1 :=
      PathGraph.foldl_turn_invariant (fun _ _ hu ht => ht.stations hu) (t, false) ht
    simp only [Listing.rounds, PathGraph.rounds, h.round_eq ht, ih hround]

/-- **The simulation ends in the same way.** -/
theorem simulate_eq (h : l.Lists g) (f : FailureSet) : l.simulate f = g.simulate f := by
  rw [PathGraph.simulate_eq_rounds, ← h.rounds_eq _ PathGraph.genuine_initialRoutes,
    Listing.simulate, h.length_vertices, h.destination_eq]
  rfl

end Listing.Lists

/-! ### Contraction -/

namespace ChainGraph

variable {g : PathGraph} {k m : ChainGraph} {u v w : List Vertex} {c d : ChainEdge}

/-- The same chains and edges, perhaps in another order. -/
structure Shuffles (m k : ChainGraph) : Prop where
  chains : m.chains.Perm k.chains
  edges : m.edges.Perm k.edges

/-! #### The next pair -/

theorem partner?_eq_some : k.partner? u = some v ↔
    ∃ d, k.outEdges u = [d] ∧ d.head = v ∧ v ≠ u ∧ (k.inEdges v).length = 1 := by
  unfold partner?
  split
  · next d hd =>
    rw [hd]
    simp only [Option.ite_none_right_eq_some, Option.some.injEq, List.cons.injEq, and_true,
      exists_eq_left']
    constructor
    · rintro ⟨⟨hne, hlen⟩, rfl⟩
      exact ⟨rfl, hne, hlen⟩
    · rintro ⟨rfl, hne, hlen⟩
      exact ⟨⟨hne, hlen⟩, rfl⟩
  · next hout =>
    simp only [reduceCtorEq, false_iff]
    rintro ⟨d, hd, -⟩
    exact hout d hd

theorem Shuffles.partner?_eq (h : m.Shuffles k) (u : List Vertex) :
    m.partner? u = k.partner? u := by
  have hout : ∀ d, m.outEdges u = [d] ↔ k.outEdges u = [d] := fun d => by
    rw [← List.perm_singleton, ← List.perm_singleton]
    exact ⟨(h.edges.filter _).symm.trans, (h.edges.filter _).trans⟩
  have hin : ∀ v, (m.inEdges v).length = (k.inEdges v).length := fun v =>
    (h.edges.filter _).length_eq
  apply Option.ext
  intro v
  rw [partner?_eq_some, partner?_eq_some]
  simp only [hout, hin]

/-- **The pair that comes first is the same.** -/
theorem Shuffles.mergeable?_eq (h : m.Shuffles k) (hk : Ascending k.chains) :
    m.withSortedChains.mergeable? = k.mergeable? := by
  have hpartner : ∀ u, m.withSortedChains.partner? u = k.partner? u := h.partner?_eq
  simp only [mergeable?, hpartner]
  rw [withSortedChains, sorted_eq_of_perm h.chains hk]

/-! #### The order of the chains -/

/-- The chains come in the order of their first vertices. -/
def HeadsAscend (k : ChainGraph) : Prop :=
  k.chains.Pairwise fun u v => compare (u.headD default) (v.headD default) = .lt

theorem headsAscend_chains (g : PathGraph) : g.chains.HeadsAscend :=
  List.pairwise_map.mpr g.vertices.ascending

theorem HeadsAscend.ascending (hk : k.HeadsAscend) (h : k.Contracts g) : Ascending k.chains := by
  refine hk.imp_of_mem fun {u v} hu hv hlt => ?_
  obtain ⟨x, u, rfl⟩ := List.exists_cons_of_ne_nil (h.ne_nil u hu)
  obtain ⟨y, v, rfl⟩ := List.exists_cons_of_ne_nil (h.ne_nil v hv)
  change compare x y = .lt at hlt
  rw [List.compare_cons_cons, hlt, Ordering.lt_then]

/-- The merged chain starts like the first of the two. -/
theorem HeadsAscend.merge (hk : k.HeadsAscend) (h : k.Contracts g) (hm : k.IsMergeable u v) :
    (k.merge u v).HeadsAscend := by
  refine List.pairwise_map.mpr ((hk.filter _).imp_of_mem fun {w x} hw hx hlt => ?_)
  have hne : ∀ {x}, x ∈ k.chains.filter (· ≠ v) → x ≠ v := fun hx =>
    of_decide_eq_true (List.mem_filter.mp hx).2
  change compare ((renamed u v w).headD default) ((renamed u v x).headD default) = .lt
  rwa [headD_renamed (h.ne_nil u hm.mem) (hne hw), headD_renamed (h.ne_nil u hm.mem) (hne hx)]

/-! #### Edges between chains -/

theorem Contracts.nodup_edges (h : k.Contracts g) : k.edges.Nodup := by
  refine List.Nodup.of_map (fun d => (d.arc, d.edge)) ?_
  rw [h.edges]
  exact g.edges.nodup_entries.filter _

/-- Two chains are joined by one edge. -/
theorem Contracts.eq_of_ends (h : k.Contracts g) (hc : c ∈ k.edges) (hd : d ∈ k.edges)
    (htail : c.tail = d.tail) (hhead : c.head = d.head) : c = d := by
  have harc : c.arc = d.arc := by rw [ChainEdge.arc, ChainEdge.arc, htail, hhead]
  have hedge : some c.edge = some d.edge := by rw [← h.edge?_arc hc, ← h.edge?_arc hd, harc]
  cases c
  cases d
  cases htail
  cases hhead
  cases hedge
  rfl

/-- Sorted by their ends, the edges come in one order only. -/
theorem Shuffles.sortedEdges_eq (h : m.Shuffles k) (hk : k.Contracts g) :
    m.sortedEdges = k.sortedEdges := by
  have : Std.TransCmp fun a b : ChainEdge =>
      (compare a.tail b.tail).then (compare a.head b.head) :=
    inferInstanceAs (Std.TransCmp
      (compareLex (compareOn ChainEdge.tail) (compareOn ChainEdge.head)))
  refine mergeSort_eq_of_perm h.edges fun c hc d hd heq => ?_
  obtain ⟨htail, hhead⟩ := Ordering.then_eq_eq.mp heq
  exact hk.eq_of_ends (h.edges.mem_iff.mp hc) (h.edges.mem_iff.mp hd)
    (Std.LawfulEqOrd.eq_of_compare htail) (Std.LawfulEqOrd.eq_of_compare hhead)

/-! #### Merging a pair -/

/-- The edges are told apart by their ends. -/
def Simple (ds : List ChainEdge) : Prop :=
  ∀ c ∈ ds, ∀ d ∈ ds, c.tail = d.tail → c.head = d.head → c = d

theorem Simple.mono {cs ds : List ChainEdge} (h : Simple ds) (hsub : ∀ c ∈ cs, c ∈ ds) :
    Simple cs :=
  fun c hc d hd => h c (hsub c hc) d (hsub d hd)

theorem mem_join {cs : List ChainEdge} (h : Simple (d :: cs)) :
    c ∈ join cs d ↔ c ∈ d :: cs := by
  unfold join
  split
  · next hjoined =>
    obtain ⟨b, hb, hends⟩ := List.any_eq_true.mp hjoined
    obtain ⟨htail, hhead⟩ := of_decide_eq_true hends
    have hbd : b = d :=
      h b (List.mem_cons_of_mem _ hb) d List.mem_cons_self htail hhead
    rw [List.mem_cons, or_iff_right_of_imp]
    rintro rfl
    exact hbd ▸ hb
  · exact Iff.rfl

/-- Edges that are told apart by their ends are all added. -/
theorem mem_foldl_join {ds : List ChainEdge} : ∀ {cs : List ChainEdge}, Simple (cs ++ ds) →
    (c ∈ ds.foldl join cs ↔ c ∈ cs ++ ds) := by
  induction ds with
  | nil => simp
  | cons d ds ih =>
    intro cs hcs
    have hjoin : ∀ b, b ∈ join cs d ↔ b ∈ d :: cs := fun b => mem_join (hcs.mono (by simp +contextual))
    have hmem : ∀ b, b ∈ join cs d ++ ds ↔ b ∈ cs ++ d :: ds := fun b => by
      simp only [List.mem_append, hjoin, List.mem_cons]
      tauto
    rw [List.foldl_cons, ih (hcs.mono fun b => (hmem b).mp), hmem]

theorem nodup_foldl_join {ds : List ChainEdge} : ∀ {cs : List ChainEdge}, cs.Nodup →
    (ds.foldl join cs).Nodup := by
  induction ds with
  | nil => exact fun h => h
  | cons d ds ih =>
    intro cs hcs
    refine ih ?_
    unfold join
    split
    · exact hcs
    · next hnew =>
      refine List.nodup_cons.mpr ⟨fun hd => hnew ?_, hcs⟩
      exact List.any_eq_true.mpr ⟨d, hd, by simp⟩

/-- All edges stay but the one from `u` to `v`. -/
theorem IsMergeable.mem_edges_merge (hm : k.IsMergeable u v) : c ∈ (k.merge u v).edges ↔
    ∃ d ∈ k.edges, d.tail ≠ u ∧ d.head ≠ v ∧
      c = ⟨renamed u v d.tail, renamed u v d.head, d.edge⟩ := by
  have hother : ∀ d ∈ k.edges, ¬(d.tail = u ∧ d.head = v) ↔ d.tail ≠ u ∧ d.head ≠ v :=
    fun d hd => ⟨fun h => ⟨fun ht => h ⟨ht, hm.only_out d hd ht⟩,
      fun hh => h ⟨hm.only_in d hd hh, hh⟩⟩, fun h hd => h.1 hd.1⟩
  simp only [edges_merge, List.mem_map, List.mem_filter, decide_eq_true_eq]
  constructor
  · rintro ⟨d, ⟨hd, hne⟩, rfl⟩
    obtain ⟨htail, hhead⟩ := (hother d hd).mp hne
    exact ⟨d, hd, htail, hhead, rfl⟩
  · rintro ⟨d, hd, htail, hhead, rfl⟩
    exact ⟨d, ⟨hd, (hother d hd).mpr ⟨htail, hhead⟩⟩, rfl⟩

/-- The edges that stay are those apart from the pair, those into `u` and those out of `v`. -/
theorem IsMergeable.mem_edges_replacePair (hm : k.IsMergeable u v)
    (h : ∀ d, d ∈ m.edges ↔ d ∈ k.edges) :
    c ∈ (m.edges.filter fun d =>
          decide (d.tail ≠ u ∧ d.tail ≠ v) && decide (d.head ≠ u ∧ d.head ≠ v)) ++
        (((m.inEdges u).map fun d =>
          (⟨if d.tail = v then u ++ v else d.tail, u ++ v, d.edge⟩ : ChainEdge)) ++
        (m.outEdges v).map fun d => ⟨u ++ v, if d.head = u then u ++ v else d.head, d.edge⟩) ↔
      c ∈ (k.merge u v).edges := by
  have hinto : ∀ {w}, w ≠ u → renamed u v w = if w = v then u ++ v else w := fun hw => by
    simp [renamed, hw]
  have hout : ∀ {w}, w ≠ v → renamed u v w = if w = u then u ++ v else w := fun hw => by
    simp [renamed, hw]
  rw [hm.mem_edges_merge]
  simp only [List.mem_append, List.mem_filter, List.mem_map, mem_inEdges, mem_outEdges, h,
    Bool.and_eq_true, decide_eq_true_eq]
  constructor
  · rintro (⟨hc, ⟨htu, htv⟩, hhu, hhv⟩ | ⟨d, ⟨hd, hu⟩, rfl⟩ | ⟨d, ⟨hd, hv⟩, rfl⟩)
    · exact ⟨c, hc, htu, hhv, by rw [renamed_of_ne htu htv, renamed_of_ne hhu hhv]⟩
    · have htail : d.tail ≠ u := fun ht => hm.ne ((hm.only_out d hd ht).symm.trans hu)
      have hhead : d.head ≠ v := fun hh => hm.ne (hh.symm.trans hu)
      exact ⟨d, hd, htail, hhead, by rw [hinto htail, hu, renamed_left]⟩
    · have hhead : d.head ≠ v := fun hh => hm.ne (hv.symm.trans (hm.only_in d hd hh))
      have htail : d.tail ≠ u := fun ht => hm.ne (hv.symm.trans ht)
      exact ⟨d, hd, htail, hhead, by rw [hout hhead, hv, renamed_right]⟩
  · rintro ⟨d, hd, htail, hhead, rfl⟩
    by_cases hu : d.head = u
    · exact .inr (.inl ⟨d, ⟨hd, hu⟩, by rw [hinto htail, hu, renamed_left]⟩)
    by_cases hv : d.tail = v
    · exact .inr (.inr ⟨d, ⟨hd, hv⟩, by rw [hout hhead, hv, renamed_right]⟩)
    · rw [renamed_of_ne htail hv, renamed_of_ne hu hhead]
      exact .inl ⟨hd, ⟨htail, hv⟩, hu, hhead⟩

/-- **The new chain takes over the edges that the merged chain keeps.** -/
theorem Shuffles.replacePair (h : m.Shuffles k) (hk : k.Contracts g) (hm : k.IsMergeable u v) :
    (m.replacePair u v).Shuffles (k.merge u v) where
  chains := by
    obtain ⟨rest, hperm, hmerge, hne⟩ := hk.exists_perm_merge hm
    have hrest : rest.filter (fun x => decide (x ≠ u ∧ x ≠ v)) = rest :=
      List.filter_eq_self.mpr fun w hw => decide_eq_true (hne w hw)
    have hfilter : (u :: v :: rest).filter (fun x => decide (x ≠ u ∧ x ≠ v)) = rest := by
      rw [List.filter_cons_of_neg (by simp), List.filter_cons_of_neg (by simp), hrest]
    have hother := (h.chains.trans hperm).filter fun x => decide (x ≠ u ∧ x ≠ v)
    rw [hfilter] at hother
    calc (m.replacePair u v).chains.Perm (rest ++ [u ++ v]) := hother.append_right _
      _ |>.Perm ((u ++ v) :: rest) := List.perm_append_singleton _ _
      _ |>.Perm (k.merge u v).chains := hmerge.symm
  edges := by
    have hmerge := hk.merge hm
    have hmem {c : ChainEdge} := hm.mem_edges_replacePair (c := c) fun d => h.edges.mem_iff
    have hnodup : m.edges.Nodup := h.edges.nodup_iff.mpr hk.nodup_edges
    refine (List.perm_ext_iff_of_nodup (nodup_foldl_join (hnodup.filter _))
      hmerge.nodup_edges).mpr fun c => ?_
    refine (mem_foldl_join fun a ha b hb => ?_).trans hmem
    exact hmerge.eq_of_ends (hmem.mp ha) (hmem.mp hb)

/-! #### Merging as long as possible -/

theorem Shuffles.contractListed (h : m.Shuffles k) (hk : k.Contracts g) (hasc : k.HeadsAscend)
    (n : Nat) : (m.contractListed n).Shuffles (k.contractWithin n) ∧
      (k.contractWithin n).HeadsAscend := by
  induction n generalizing m k with
  | zero => exact ⟨h, hasc⟩
  | succ n ih =>
    unfold ChainGraph.contractListed ChainGraph.contractWithin
    rw [h.mergeable?_eq (hasc.ascending hk)]
    cases hpair : k.mergeable? with
    | none => exact ⟨h, hasc⟩
    | some uv =>
      have hm := isMergeable_of_mergeable? hpair
      exact ih (h.replacePair hk hm) (hk.merge hm) (hasc.merge hk hm)

end ChainGraph

theorem Listing.Lists.shuffles_contract {l : Listing} {g : PathGraph} (h : l.Lists g) :
    l.contract.Shuffles g.contract ∧ Ascending g.contract.chains := by
  have hchains : l.chains.Shuffles g.chains := ⟨h.vertices.map _, h.edges.map _⟩
  have hk := ChainGraph.contracts_chains g
  obtain ⟨hshuffles, hasc⟩ :=
    hchains.contractListed hk (ChainGraph.headsAscend_chains g) g.numVertices
  rw [Listing.contract, h.length_vertices]
  exact ⟨hshuffles, hasc.ascending (ChainGraph.contracts_contract g)⟩

/-! ### All answers -/

/-- **A listing gives the answers of its graph.** -/
theorem Listing.Lists.answers_eq {l : Listing} {g : PathGraph} (h : l.Lists g) :
    l.answers = g.answers := by
  obtain ⟨hcontract, hasc⟩ := h.shuffles_contract
  rw [Listing.answers, PathGraph.answers, GraphAnswers.mk.injEq]
  refine ⟨funext h.path?_eq, ?_, funext h.simulate_eq, funext h.reprocess_eq,
    sorted_eq_of_perm hcontract.chains hasc,
    hcontract.sortedEdges_eq (ChainGraph.contracts_contract g)⟩
  funext a b f
  exact h.pathBetween?_eq a b f

/-- Graphs whose listings have the same parts are equal. -/
theorem Listing.Lists.eq_of_same_parts {l l' : Listing} {g g' : PathGraph} (h : l.Lists g)
    (h' : l'.Lists g') (hvariant : l.variant = l'.variant) (hdst : l.dst = l'.dst)
    (hsrc : l.src = l'.src) (hv : ∀ v, v ∈ l.vertices ↔ v ∈ l'.vertices)
    (he : ∀ x, x ∈ l.edges ↔ x ∈ l'.edges) : g = g' := by
  have hvertices : g.vertices = g'.vertices := OrdSet.ext fun v => by
    rw [← h.mem_vertices, hv, h'.mem_vertices]
  have hedges : g.edges = g'.edges := OrdMap.ext fun t => Option.ext fun e => by
    rw [← OrdMap.mem_entries, ← OrdMap.mem_entries, ← h.edges.mem_iff, he, h'.edges.mem_iff]
  have hvariant := h.variant.symm.trans (hvariant.trans h'.variant)
  have hdst := h.dst.symm.trans (hdst.trans h'.dst)
  have hsrc := h.src.symm.trans (hsrc.trans h'.src)
  cases g
  cases g'
  cases hvariant
  cases hdst
  cases hsrc
  cases hvertices
  cases hedges
  rfl

namespace Listing

/-- **The answers do not depend on the order of insertion.** If some insertions and some others lead
to the same vertices and edges, then searching, simulating, walking and contracting give the same
outcome, though all of them go through the parts in the order in which they were added. It is the
outcome for the path graph, which is the same for both. -/
theorem answers_of_same_parts {variant : Variant} {dst src : Subnet}
    {steps steps' : List Insertion}
    (hv : ∀ v, v ∈ (build variant dst src steps).vertices ↔
      v ∈ (build variant dst src steps').vertices)
    (he : ∀ x, x ∈ (build variant dst src steps).edges ↔
      x ∈ (build variant dst src steps').edges) :
    (build variant dst src steps).answers = (build variant dst src steps').answers ∧
      (build variant dst src steps).answers = (PathGraph.build variant dst src steps).answers ∧
      PathGraph.build variant dst src steps = PathGraph.build variant dst src steps' := by
  have h := lists_build variant dst src steps
  have h' := lists_build variant dst src steps'
  obtain ⟨hvariant, hdst, hsrc⟩ := subnets_build variant dst src steps
  obtain ⟨hvariant', hdst', hsrc'⟩ := subnets_build variant dst src steps'
  have hgraph : PathGraph.build variant dst src steps = PathGraph.build variant dst src steps' :=
    h.eq_of_same_parts h' (hvariant.trans hvariant'.symm) (hdst.trans hdst'.symm)
      (hsrc.trans hsrc'.symm) hv he
  exact ⟨by rw [h.answers_eq, h'.answers_eq, hgraph], h.answers_eq, hgraph⟩

/-- Two ways from the source to the destination, over the one vertex or the other. -/
def diamond (x y : Vertex) : List Insertion :=
  let s : Vertex := .main (.source "s")
  let d : Vertex := .main (.destination "d")
  [.vertex x, .vertex y, .edge ⟨s, x⟩ { kind := .origin }, .edge ⟨s, y⟩ { kind := .origin },
    .edge ⟨x, d⟩ { kind := .delivery }, .edge ⟨y, d⟩ { kind := .delivery }]

/-- The edges of the diamond come in another order if its two sides change places. The search finds
the same path. -/
theorem answers_of_same_parts_diamond :
    let x : Vertex := .main (.bgpIn 0)
    let y : Vertex := .main (.bgpIn 1)
    (build .coarse "d" "s" (diamond x y)).vertices.Perm
        (build .coarse "d" "s" (diamond y x)).vertices ∧
      (build .coarse "d" "s" (diamond x y)).edges.Perm
        (build .coarse "d" "s" (diamond y x)).edges ∧
      (build .coarse "d" "s" (diamond x y)).edges ≠ (build .coarse "d" "s" (diamond y x)).edges ∧
      (build .coarse "d" "s" (diamond x y)).answers =
        (build .coarse "d" "s" (diamond y x)).answers ∧
      (build .coarse "d" "s" (diamond y x)).path? ∅ =
        some [.main (.source "s"), x, .main (.destination "d")] := by
  intro x y
  have hvertices : (build .coarse "d" "s" (diamond x y)).vertices.Perm
      (build .coarse "d" "s" (diamond y x)).vertices := by decide +kernel
  have hedges : (build .coarse "d" "s" (diamond x y)).edges.Perm
      (build .coarse "d" "s" (diamond y x)).edges := by decide +kernel
  have hpath : (PathGraph.build .coarse "d" "s" (diamond x y)).path? ∅ =
      some [.main (.source "s"), x, .main (.destination "d")] := by decide +kernel
  obtain ⟨hsame, hgraph, -⟩ := answers_of_same_parts (fun _ => hvertices.mem_iff)
    (fun _ => hedges.mem_iff)
  refine ⟨hvertices, hedges, by decide +kernel, hsame, ?_⟩
  have hlisting : ∀ l : Listing, l.path? = l.answers.path := fun _ => rfl
  have hanswers : ∀ g : PathGraph, g.answers.path = g.path? := fun _ => rfl
  rw [hlisting, ← hsame, hgraph, hanswers, hpath]

end Listing

end NetReach
