import Mathlib.Data.List.Infix
import Mathlib.Data.List.Nodup
import NetReach.PathGraph.Contraction
import NetReach.Proofs.Closure
import NetReach.Proofs.Existence

/-! # Contraction keeps reachability

A graph of chains *contracts* a path graph (`ChainGraph.Contracts`) if its chains share out the
vertices, go along edges, and all other edges remain between the chains of their ends. This holds
when every vertex is a chain of its own, and merging two chains keeps it
(`ChainGraph.Contracts.merge`), as the edge between them is the only one that disappears. In any
such graph of chains the vertex `b` is reached from `a` exactly if it is in the path graph
(`ChainGraph.Contracts.hasPath_iff`). -/

namespace NetReach

/-- The edge of the path graph that an edge between chains stands for, from the last vertex of its
tail to the first one of its head. -/
def ChainEdge.arc (d : ChainEdge) : Arc := ⟨d.tail.getLastD default, d.head.headD default⟩

namespace ChainGraph

variable {g : PathGraph} {k : ChainGraph} {u v w : List Vertex} {a b x y : Vertex} {d : ChainEdge}
  {t : Arc}

theorem getLastD_eq_getLast (hu : u ≠ []) : u.getLastD default = u.getLast hu := by
  rw [List.getLastD_eq_getLast?, List.getLast?_eq_some_getLast hu, Option.getD_some]

theorem headD_eq_head (hu : u ≠ []) : u.headD default = u.head hu := by
  rw [List.headD_eq_head?_getD, List.head?_eq_some_head hu, Option.getD_some]

theorem getLast?_eq_some_iff (hu : u ≠ []) : u.getLast? = some x ↔ x = u.getLastD default := by
  rw [getLastD_eq_getLast hu, List.getLast?_eq_some_getLast hu, Option.some_inj, eq_comm]

theorem head?_eq_some_iff (hu : u ≠ []) : u.head? = some x ↔ x = u.headD default := by
  rw [headD_eq_head hu, List.head?_eq_some_head hu, Option.some_inj, eq_comm]

/-- Some chain goes from the tail of the arc straight on to its head. -/
def Joins (k : ChainGraph) (t : Arc) : Prop := ∃ u ∈ k.chains, [t.tail, t.head] <:+: u

instance (k : ChainGraph) (t : Arc) : Decidable (k.Joins t) :=
  inferInstanceAs (Decidable (∃ u ∈ k.chains, [t.tail, t.head] <:+: u))

/-- The chains and their edges are what remains of the path graph. -/
structure Contracts (k : ChainGraph) (g : PathGraph) : Prop where
  /-- Every vertex is in one chain, and comes in it once. -/
  perm : k.chains.flatten.Perm g.vertices.toList
  ne_nil : ∀ u ∈ k.chains, u ≠ []
  /-- Chains go along edges. -/
  inner : ∀ u ∈ k.chains, u.IsChain fun x y => y ∈ g.successors ∅ x
  ends : ∀ d ∈ k.edges, d.tail ∈ k.chains ∧ d.head ∈ k.chains
  /-- The edges between chains are the edges that no chain goes along, in the same order. -/
  edges : k.edges.map (fun d => (d.arc, d.edge)) =
    g.edges.entries.filter fun x => decide ¬ k.Joins x.1

/-! ### Vertices as chains -/

theorem contracts_chains (g : PathGraph) : g.chains.Contracts g where
  perm := by
    rw [PathGraph.chains, ← List.flatMap_def, List.flatMap_singleton']
  ne_nil u hu := by
    obtain ⟨x, -, rfl⟩ := List.mem_map.mp hu
    exact List.cons_ne_nil _ _
  inner u hu := by
    obtain ⟨x, -, rfl⟩ := List.mem_map.mp hu
    exact .singleton x
  ends d hd := by
    obtain ⟨⟨t, e⟩, he, rfl⟩ := List.mem_map.mp hd
    obtain ⟨htail, hhead, -⟩ := g.edges_mem t (List.mem_map_of_mem he)
    exact ⟨List.mem_map_of_mem htail, List.mem_map_of_mem hhead⟩
  edges := by
    have hjoins : ∀ x ∈ g.edges.entries, decide (¬ g.chains.Joins x.1) = true := by
      rintro x -
      refine decide_eq_true fun ⟨u, hu, hxu⟩ => ?_
      obtain ⟨z, -, rfl⟩ := List.mem_map.mp hu
      have hlen := hxu.length_le
      simp at hlen
    rw [List.filter_eq_self.mpr hjoins, PathGraph.chains, List.map_map]
    exact List.map_id _

/-! ### Chains share out the vertices -/

namespace Contracts

theorem nodup_flatten (h : k.Contracts g) : k.chains.flatten.Nodup :=
  h.perm.nodup_iff.mpr g.nodup_vertices

theorem nodup (h : k.Contracts g) (hu : u ∈ k.chains) : u.Nodup :=
  (List.nodup_flatten.mp h.nodup_flatten).1 u hu

/-- A vertex is in one chain only. -/
theorem eq_of_mem (h : k.Contracts g) (hu : u ∈ k.chains) (hv : v ∈ k.chains) (hx : x ∈ u)
    (hx' : x ∈ v) : u = v := by
  have : Std.Symm (@List.Disjoint Vertex) := ⟨fun _ _ hd _ hx hx' => hd hx' hx⟩
  by_contra hne
  have hdisjoint := (List.nodup_flatten.mp h.nodup_flatten).2.forall hu hv hne
  exact hdisjoint hx hx'

theorem nodup_chains (h : k.Contracts g) : k.chains.Nodup := by
  refine (List.nodup_flatten.mp h.nodup_flatten).2.imp_of_mem ?_
  rintro u v hu - hdisjoint rfl
  obtain ⟨x, hx⟩ := List.exists_mem_of_ne_nil u (h.ne_nil u hu)
  exact hdisjoint hx hx

theorem getLastD_mem (h : k.Contracts g) (hu : u ∈ k.chains) : u.getLastD default ∈ u := by
  rw [getLastD_eq_getLast (h.ne_nil u hu)]
  exact List.getLast_mem _

theorem headD_mem (h : k.Contracts g) (hu : u ∈ k.chains) : u.headD default ∈ u := by
  rw [headD_eq_head (h.ne_nil u hu)]
  exact List.head_mem _

/-- An edge between chains is an edge of the path graph. -/
theorem edge?_arc (h : k.Contracts g) (hd : d ∈ k.edges) :
    g.edge? d.arc.tail d.arc.head = some d.edge := by
  have hentry : (d.arc, d.edge) ∈ g.edges.entries.filter fun x => decide ¬ k.Joins x.1 :=
    h.edges ▸ List.mem_map_of_mem hd
  exact PathGraph.mem_entries_iff_edge?.mp (List.mem_of_mem_filter hentry)

theorem arc_mem_successors (h : k.Contracts g) (hd : d ∈ k.edges) :
    d.arc.head ∈ g.successors ∅ d.arc.tail :=
  PathGraph.mem_successors.mpr ⟨⟨d.edge, h.edge?_arc hd⟩, FailureSet.cuts_empty _ _⟩

/-- The arc of an edge tells its chains. -/
theorem arc_eq_iff (h : k.Contracts g) (hd : d ∈ k.edges) (hu : u ∈ k.chains) (hv : v ∈ k.chains) :
    d.arc = ⟨u.getLastD default, v.headD default⟩ ↔ d.tail = u ∧ d.head = v := by
  refine ⟨fun harc => ?_, fun ⟨htail, hhead⟩ => by rw [ChainEdge.arc, htail, hhead]⟩
  obtain ⟨htail, hhead⟩ := Arc.mk.inj harc
  obtain ⟨hdtail, hdhead⟩ := h.ends d hd
  have hlast : u.getLastD default ∈ d.tail := htail ▸ h.getLastD_mem hdtail
  have hfirst : v.headD default ∈ d.head := hhead ▸ h.headD_mem hdhead
  exact ⟨h.eq_of_mem hdtail hu hlast (h.getLastD_mem hu),
    h.eq_of_mem hdhead hv hfirst (h.headD_mem hv)⟩

theorem exists_chain (h : k.Contracts g) (ha : a ∈ g.vertices) : ∃ u ∈ k.chains, a ∈ u :=
  List.mem_flatten.mp (h.perm.mem_iff.mpr ha)

/-- **A vertex is in exactly one chain.** -/
theorem countP_eq_one (h : k.Contracts g) (ha : a ∈ g.vertices) :
    k.chains.countP (fun u => decide (a ∈ u)) = 1 := by
  obtain ⟨u, hu, hau⟩ := h.exists_chain ha
  have hperm := List.perm_cons_erase hu
  have hrest : (k.chains.erase u).countP (fun u => decide (a ∈ u)) = 0 := by
    refine List.countP_eq_zero.mpr fun v hv hav => ?_
    have hav : a ∈ v := of_decide_eq_true hav
    obtain ⟨hne, hv⟩ := (h.nodup_chains.mem_erase_iff).mp hv
    exact hne (h.eq_of_mem hv hu hav hau)
  rw [hperm.countP_eq, List.countP_cons_of_pos (by simpa using hau), hrest]

end Contracts

/-! ### Merging -/

/-- The only edge out of `u` is the only edge into `v`, another chain. -/
structure IsMergeable (k : ChainGraph) (u v : List Vertex) : Prop where
  mem : u ∈ k.chains
  ne : v ≠ u
  exists_edge : ∃ d ∈ k.edges, d.tail = u ∧ d.head = v
  only_out : ∀ d ∈ k.edges, d.tail = u → d.head = v
  only_in : ∀ d ∈ k.edges, d.head = v → d.tail = u

theorem mem_outEdges : d ∈ k.outEdges u ↔ d ∈ k.edges ∧ d.tail = u := by
  simp only [outEdges, List.mem_filter, decide_eq_true_eq]

theorem mem_inEdges : d ∈ k.inEdges v ↔ d ∈ k.edges ∧ d.head = v := by
  simp only [inEdges, List.mem_filter, decide_eq_true_eq]

theorem isMergeable_of_mergeable? (h : k.mergeable? = some (u, v)) : k.IsMergeable u v := by
  obtain ⟨w, hu, hfound⟩ := List.exists_of_findSome?_eq_some h
  obtain ⟨v', hpartner, huv⟩ := Option.map_eq_some_iff.mp hfound
  obtain ⟨rfl, rfl⟩ := Prod.mk.inj huv
  rw [partner?] at hpartner
  split at hpartner
  case h_2 => cases hpartner
  case h_1 d hout =>
    obtain ⟨⟨hne, hin⟩, hsome⟩ := Option.ite_none_right_eq_some.mp hpartner
    obtain rfl := Option.some_inj.mp hsome
    have hd : d ∈ k.edges ∧ d.tail = w := mem_outEdges.mp (hout ▸ List.mem_singleton_self d)
    obtain ⟨c, hin⟩ := List.length_eq_one_iff.mp hin
    have honly : ∀ e ∈ k.edges, e.head = d.head → e = c := by
      intro e he hhead
      exact List.mem_singleton.mp (hin ▸ mem_inEdges.mpr ⟨he, hhead⟩)
    refine ⟨hu, hne, ⟨d, hd.1, hd.2, rfl⟩, fun e he htail => ?_, fun e he hhead => ?_⟩
    · have heq : e = d := List.mem_singleton.mp (hout ▸ mem_outEdges.mpr ⟨he, htail⟩)
      rw [heq]
    · rw [honly e he hhead, ← honly d hd.1 rfl, hd.2]

/-- What becomes of the chain `w` when `u` and `v` are merged. -/
def renamed (u v w : List Vertex) : List Vertex := if w = u ∨ w = v then u ++ v else w

theorem renamed_left (u v : List Vertex) : renamed u v u = u ++ v := if_pos (.inl rfl)

theorem renamed_right (u v : List Vertex) : renamed u v v = u ++ v := if_pos (.inr rfl)

theorem renamed_of_ne (hu : w ≠ u) (hv : w ≠ v) : renamed u v w = w :=
  if_neg (not_or.mpr ⟨hu, hv⟩)

theorem edges_merge (k : ChainGraph) (u v : List Vertex) :
    (k.merge u v).edges = (k.edges.filter fun d => ¬(d.tail = u ∧ d.head = v)).map fun d =>
      ⟨renamed u v d.tail, renamed u v d.head, d.edge⟩ := rfl

theorem getLastD_renamed (hv : v ≠ []) (hw : w ≠ u) :
    (renamed u v w).getLastD default = w.getLastD default := by
  by_cases hwv : w = v
  · obtain ⟨x, hx⟩ := Option.isSome_iff_exists.mp (List.getLast?_isSome.mpr hv)
    rw [hwv, renamed_right, List.getLastD_eq_getLast?, List.getLastD_eq_getLast?,
      List.getLast?_append, hx, Option.some_or]
  · rw [renamed_of_ne hw hwv]

theorem headD_renamed (hu : u ≠ []) (hw : w ≠ v) :
    (renamed u v w).headD default = w.headD default := by
  by_cases hwu : w = u
  · obtain ⟨x, u, rfl⟩ := List.exists_cons_of_ne_nil hu
    rw [hwu, renamed_left]
    rfl
  · rw [renamed_of_ne hwu hw]

theorem singleton_prefix_iff : [y] <+: w ↔ w.head? = some y := by
  cases w with
  | nil => simp
  | cons z w => simp [List.cons_prefix_cons, eq_comm]

/-- Two vertices are next to each other in `u ++ v` if they are in one of the two, or if they are
the last one of `u` and the first one of `v`. -/
theorem pair_infix_append_iff :
    [x, y] <:+: u ++ v ↔
      [x, y] <:+: u ∨ [x, y] <:+: v ∨ (u.getLast? = some x ∧ v.head? = some y) := by
  induction u with
  | nil => simp
  | cons z u ih =>
    rw [List.cons_append, List.infix_cons_iff, List.infix_cons_iff, ih, List.cons_prefix_cons,
      List.cons_prefix_cons, singleton_prefix_iff, singleton_prefix_iff]
    cases u with
    | nil => grind
    | cons z' u => grind

theorem idxOf_le_of_pair (hu : u.Nodup) (hpair : [x, y] <:+: u) : u.idxOf x ≤ u.idxOf y := by
  obtain ⟨p, q, rfl⟩ := hpair
  rw [List.append_assoc, List.nodup_append] at hu
  have hp : ∀ z ∈ [x, y], z ∉ p := fun z hz hzp =>
    hu.2.2 z hzp z (List.mem_append_left q hz) rfl
  rw [List.append_assoc, List.idxOf_append_of_notMem (hp x (by simp)),
    List.idxOf_append_of_notMem (hp y (by simp)), List.cons_append, List.idxOf_cons_self]
  exact Nat.add_le_add_left (Nat.zero_le _) _

namespace Contracts

theorem right_mem (h : k.Contracts g) (hm : k.IsMergeable u v) : v ∈ k.chains := by
  obtain ⟨d, hd, -, rfl⟩ := hm.exists_edge
  exact (h.ends d hd).2

/-- The merged chain stands for the two, and the other chains remain. -/
theorem exists_perm_merge (h : k.Contracts g) (hm : k.IsMergeable u v) :
    ∃ rest, k.chains.Perm (u :: v :: rest) ∧ (k.merge u v).chains.Perm ((u ++ v) :: rest) ∧
      ∀ w ∈ rest, w ≠ u ∧ w ≠ v := by
  have hv : v ∈ k.chains.erase u := (List.mem_erase_of_ne hm.ne).mpr (h.right_mem hm)
  have hperm : k.chains.Perm (u :: v :: (k.chains.erase u).erase v) :=
    (List.perm_cons_erase hm.mem).trans ((List.perm_cons_erase hv).cons u)
  generalize (k.chains.erase u).erase v = rest at hperm
  have hnodup := hperm.nodup_iff.mp h.nodup_chains
  obtain ⟨hu, hnodup⟩ := List.nodup_cons.mp hnodup
  obtain ⟨hv, -⟩ := List.nodup_cons.mp hnodup
  have hne : ∀ w ∈ rest, w ≠ u ∧ w ≠ v := by
    intro w hw
    refine ⟨?_, ?_⟩
    · rintro rfl
      exact hu (List.mem_cons_of_mem _ hw)
    · rintro rfl
      exact hv hw
  have hfilter : (u :: v :: rest).filter (· ≠ v) = u :: rest := by
    rw [List.filter_cons_of_pos (by simpa using hm.ne.symm), List.filter_cons_of_neg (by simp),
      List.filter_eq_self.mpr fun w hw => decide_eq_true (hne w hw).2]
  have hmap : rest.map (renamed u v) = rest :=
    (List.map_congr_left fun w hw => renamed_of_ne (hne w hw).1 (hne w hw).2).trans (List.map_id _)
  refine ⟨rest, hperm, ?_, hne⟩
  calc (k.merge u v).chains.Perm (((u :: v :: rest).filter (· ≠ v)).map (renamed u v)) :=
        (hperm.filter (· ≠ v)).map (renamed u v)
    _ = (u ++ v) :: rest := by rw [hfilter, List.map_cons, hmap, renamed_left]

/-- A chain goes along one more edge than before, the one between the two that are merged. -/
theorem joins_merge (h : k.Contracts g) (hm : k.IsMergeable u v) :
    (k.merge u v).Joins t ↔
      k.Joins t ∨ t = ⟨u.getLastD default, v.headD default⟩ := by
  obtain ⟨rest, hperm, hmerge, -⟩ := h.exists_perm_merge hm
  have hu : u ≠ [] := h.ne_nil u hm.mem
  have hv : v ≠ [] := h.ne_nil v (h.right_mem hm)
  obtain ⟨x, y⟩ := t
  simp only [Joins, hperm.mem_iff, hmerge.mem_iff, List.exists_mem_cons_iff,
    pair_infix_append_iff, getLast?_eq_some_iff hu, head?_eq_some_iff hv, Arc.mk.injEq]
  simp only [or_assoc, or_comm, or_left_comm]

theorem entries_merge (h : k.Contracts g) (hm : k.IsMergeable u v) :
    (k.merge u v).edges.map (fun d => (d.arc, d.edge)) =
      g.edges.entries.filter fun x => decide ¬ (k.merge u v).Joins x.1 := by
  have hu : u ≠ [] := h.ne_nil u hm.mem
  have hv : v ≠ [] := h.ne_nil v (h.right_mem hm)
  have harc : ∀ d ∈ k.edges, ¬(d.tail = u ∧ d.head = v) →
      (⟨renamed u v d.tail, renamed u v d.head, d.edge⟩ : ChainEdge).arc = d.arc := by
    intro d hd hne
    have htail : d.tail ≠ u := fun htail => hne ⟨htail, hm.only_out d hd htail⟩
    have hhead : d.head ≠ v := fun hhead => hne ⟨hm.only_in d hd hhead, hhead⟩
    exact congrArg₂ Arc.mk (getLastD_renamed hv htail) (headD_renamed hu hhead)
  calc (k.merge u v).edges.map (fun d => (d.arc, d.edge))
      = (k.edges.filter fun d => ¬(d.tail = u ∧ d.head = v)).map (fun d => (d.arc, d.edge)) := by
        rw [edges_merge, List.map_map]
        refine List.map_congr_left fun d hd => ?_
        obtain ⟨hd, hne⟩ := List.mem_filter.mp hd
        exact congrArg (·, d.edge) (harc d hd (of_decide_eq_true hne))
    _ = (k.edges.map fun d => (d.arc, d.edge)).filter fun x =>
          decide (x.1 ≠ ⟨u.getLastD default, v.headD default⟩) := by
        rw [List.filter_map]
        refine congrArg (List.map _) (List.filter_congr fun d hd => ?_)
        exact decide_eq_decide.mpr (not_congr (h.arc_eq_iff hd hm.mem (h.right_mem hm)).symm)
    _ = g.edges.entries.filter fun x => decide ¬ (k.merge u v).Joins x.1 := by
        rw [h.edges, List.filter_filter]
        refine List.filter_congr fun x _ => ?_
        rw [← Bool.decide_and, decide_eq_decide, h.joins_merge hm]
        tauto

/-- **Merging keeps what remains of the path graph.** -/
theorem merge (h : k.Contracts g) (hm : k.IsMergeable u v) : (k.merge u v).Contracts g := by
  obtain ⟨rest, hperm, hmerge, -⟩ := h.exists_perm_merge hm
  have hrest : ∀ w ∈ rest, w ∈ k.chains := fun w hw =>
    hperm.mem_iff.mpr (List.mem_cons_of_mem _ (List.mem_cons_of_mem _ hw))
  have hrenamed : ∀ w ∈ k.chains, renamed u v w ∈ (k.merge u v).chains := by
    intro w hw
    rw [hmerge.mem_iff]
    by_cases hwuv : w = u ∨ w = v
    · rw [renamed, if_pos hwuv]
      exact List.mem_cons_self
    · rw [renamed, if_neg hwuv]
      obtain ⟨hwu, hwv⟩ := not_or.mp hwuv
      have hw := List.mem_of_ne_of_mem hwv (List.mem_of_ne_of_mem hwu (hperm.mem_iff.mp hw))
      exact List.mem_cons_of_mem _ hw
  constructor
  case perm =>
    calc (k.merge u v).chains.flatten.Perm ((u ++ v) :: rest).flatten := hmerge.flatten
      _ = (u :: v :: rest).flatten := by simp
      _ |>.Perm k.chains.flatten := hperm.symm.flatten
      _ |>.Perm g.vertices.toList := h.perm
  case ne_nil =>
    intro w hw
    rcases List.mem_cons.mp (hmerge.mem_iff.mp hw) with rfl | hw
    · exact List.append_ne_nil_of_left_ne_nil (h.ne_nil u hm.mem) v
    · exact h.ne_nil w (hrest w hw)
  case inner =>
    intro w hw
    rcases List.mem_cons.mp (hmerge.mem_iff.mp hw) with rfl | hw
    · refine List.isChain_append.mpr ⟨h.inner u hm.mem, h.inner v (h.right_mem hm), ?_⟩
      intro x hx y hy
      obtain ⟨d, hd, hdu, hdv⟩ := hm.exists_edge
      obtain rfl := (getLast?_eq_some_iff (h.ne_nil u hm.mem)).mp hx
      obtain rfl := (head?_eq_some_iff (h.ne_nil v (h.right_mem hm))).mp hy
      have harc := h.arc_mem_successors hd
      rwa [ChainEdge.arc, hdu, hdv] at harc
    · exact h.inner w (hrest w hw)
  case ends =>
    intro d hd
    rw [edges_merge] at hd
    obtain ⟨e, he, rfl⟩ := List.mem_map.mp hd
    obtain ⟨htail, hhead⟩ := h.ends e (List.mem_of_mem_filter he)
    exact ⟨hrenamed _ htail, hrenamed _ hhead⟩
  case edges => exact h.entries_merge hm

theorem contractWithin (h : k.Contracts g) (n : Nat) : (k.contractWithin n).Contracts g := by
  induction n generalizing k with
  | zero => exact h
  | succ n ih =>
    rw [ChainGraph.contractWithin]
    split
    · exact h
    · next u v hmerge => exact ih (h.merge (isMergeable_of_mergeable? hmerge))

theorem length_merge (h : k.Contracts g) (hm : k.IsMergeable u v) :
    (k.merge u v).chains.length + 1 = k.chains.length := by
  obtain ⟨rest, hperm, hmerge, -⟩ := h.exists_perm_merge hm
  rw [hperm.length_eq, hmerge.length_eq]
  rfl

/-- As many merges as there are chains leave nothing to merge. -/
theorem mergeable?_contractWithin (h : k.Contracts g) {n : Nat} (hn : k.chains.length ≤ n) :
    (k.contractWithin n).mergeable? = none := by
  induction n generalizing k with
  | zero =>
    have hnil : k.chains = [] := List.length_eq_zero_iff.mp (Nat.le_zero.mp hn)
    rw [ChainGraph.contractWithin, mergeable?, hnil]
    rfl
  | succ n ih =>
    rw [ChainGraph.contractWithin]
    split
    · assumption
    · next u v hmerge =>
      have hm := isMergeable_of_mergeable? hmerge
      have hlen := h.length_merge hm
      exact ih (h.merge hm) (by omega)

end Contracts

/-- Contraction leaves what remains of the path graph. -/
theorem contracts_contract (g : PathGraph) : g.contract.Contracts g :=
  (contracts_chains g).contractWithin g.numVertices

/-- **Contraction goes on until no pair is left.** -/
theorem mergeable?_contract (g : PathGraph) : g.contract.mergeable? = none := by
  refine (contracts_chains g).mergeable?_contractWithin ?_
  rw [PathGraph.chains, List.length_map]
  exact le_rfl

/-! ### Reachability -/

/-- One chain leads to another over at least one edge. -/
abbrev Leads (k : ChainGraph) : List Vertex → List Vertex → Prop :=
  Relation.TransGen fun u v => v ∈ k.next u

theorem mem_next : v ∈ k.next u ↔ ∃ d ∈ k.edges, d.tail = u ∧ d.head = v := by
  simp only [next, List.mem_map, mem_outEdges, and_assoc]

namespace Contracts

theorem chainOf?_eq (h : k.Contracts g) (hu : u ∈ k.chains) (ha : a ∈ u) :
    k.chainOf? a = some u := by
  have hfound : (k.chainOf? a).isSome := List.find?_isSome.mpr ⟨u, hu, decide_eq_true ha⟩
  obtain ⟨v, hv⟩ := Option.isSome_iff_exists.mp hfound
  have hav : a ∈ v := of_decide_eq_true (List.find?_some (p := fun u => decide (a ∈ u)) hv)
  rw [hv, h.eq_of_mem (List.mem_of_find?_eq_some hv) hu hav ha]

theorem reaches_iff (h : k.Contracts g) :
    k.reaches u v = true ↔ k.Leads u v := by
  have hmem : ∀ {u v}, v ∈ k.next u → v ∈ k.chains := by
    intro u v huv
    obtain ⟨d, hd, -, rfl⟩ := mem_next.mp huv
    exact (h.ends d hd).2
  rw [reaches, decide_eq_true_eq, mem_closure]
  constructor
  · intro huv
    induction huv with
    | start hu _ => exact .single hu
    | step _ hvw _ ih => exact ih.tail hvw
  · intro huv
    induction huv with
    | single hu => exact .start hu (hmem hu)
    | tail _ hvw ih => exact ih.step hvw (hmem hvw)

theorem hasPath_iff_of_mem (h : k.Contracts g) (hu : u ∈ k.chains) (hv : v ∈ k.chains)
    (ha : a ∈ u) (hb : b ∈ v) :
    k.hasPath a b = true ↔ (u = v ∧ u.idxOf a ≤ u.idxOf b) ∨ k.Leads u v := by
  rw [hasPath, h.chainOf?_eq hu ha, h.chainOf?_eq hv hb]
  simp only [Bool.or_eq_true, Bool.and_eq_true, decide_eq_true_eq, h.reaches_iff]

/-- Along a chain every vertex leads to those behind it. -/
theorem pairwise_reaches (h : k.Contracts g) (hu : u ∈ k.chains) : u.Pairwise (g.Reaches ∅) :=
  List.isChain_iff_pairwise.mp ((h.inner u hu).imp fun _ _ hxy => .single hxy)

theorem reaches_of_idxOf_le (h : k.Contracts g) (hu : u ∈ k.chains) (ha : a ∈ u) (hb : b ∈ u)
    (hle : u.idxOf a ≤ u.idxOf b) : g.Reaches ∅ a b := by
  rcases hle.eq_or_lt with heq | hlt
  · rw [(List.idxOf_inj ha).mp heq]
  · have hpair := List.pairwise_iff_getElem.mp (h.pairwise_reaches hu) (u.idxOf a) (u.idxOf b)
      (List.idxOf_lt_length_iff.mpr ha) (List.idxOf_lt_length_iff.mpr hb) hlt
    rwa [List.getElem_idxOf, List.getElem_idxOf] at hpair

/-- Over an edge between chains, all of the first chain leads to all of the second. -/
theorem reaches_of_mem_next (h : k.Contracts g) (huv : v ∈ k.next u) (ha : a ∈ u) (hb : b ∈ v) :
    g.Reaches ∅ a b := by
  obtain ⟨d, hd, rfl, rfl⟩ := mem_next.mp huv
  obtain ⟨htail, hhead⟩ := h.ends d hd
  have hout : g.Reaches ∅ a d.arc.tail := by
    rw [ChainEdge.arc, getLastD_eq_getLast (h.ne_nil _ htail)]
    exact (h.pairwise_reaches htail).rel_getLast ha
  have hin : g.Reaches ∅ d.arc.head b := by
    rw [ChainEdge.arc, headD_eq_head (h.ne_nil _ hhead)]
    exact (h.pairwise_reaches hhead).rel_head hb
  exact (hout.tail (h.arc_mem_successors hd)).trans hin

theorem reaches_of_leads (h : k.Contracts g) (huv : k.Leads u v) (ha : a ∈ u) (hb : b ∈ v) :
    g.Reaches ∅ a b := by
  induction huv generalizing b with
  | single huv => exact h.reaches_of_mem_next huv ha hb
  | tail _ hvw ih =>
    obtain ⟨d, hd, rfl, -⟩ := mem_next.mp hvw
    have hx := h.headD_mem (h.ends d hd).1
    exact (ih hx).trans (h.reaches_of_mem_next hvw hx hb)

/-- An edge stays in a chain and goes on by one vertex, or it is an edge between chains. -/
theorem step_of_mem_successors (h : k.Contracts g) (hu : u ∈ k.chains) (hv : v ∈ k.chains)
    (hx : x ∈ u) (hy : y ∈ v) (hxy : y ∈ g.successors ∅ x) :
    (u = v ∧ u.idxOf x ≤ u.idxOf y) ∨ v ∈ k.next u := by
  obtain ⟨⟨e, he⟩, -⟩ := PathGraph.mem_successors.mp hxy
  by_cases hjoins : k.Joins ⟨x, y⟩
  · left
    obtain ⟨w, hw, hpair⟩ := hjoins
    obtain rfl := h.eq_of_mem hu hw hx (hpair.subset (by simp))
    obtain rfl := h.eq_of_mem hv hw hy (hpair.subset (by simp))
    exact ⟨rfl, idxOf_le_of_pair (h.nodup hu) hpair⟩
  · right
    have hentry : ((⟨x, y⟩ : Arc), e) ∈ g.edges.entries.filter fun z => decide ¬ k.Joins z.1 :=
      List.mem_filter.mpr ⟨PathGraph.mem_entries_iff_edge?.mpr he, decide_eq_true hjoins⟩
    rw [← h.edges] at hentry
    obtain ⟨d, hd, hde⟩ := List.mem_map.mp hentry
    obtain ⟨rfl, rfl⟩ := Arc.mk.inj (Prod.mk.inj hde).1
    obtain ⟨htail, hhead⟩ := h.ends d hd
    exact mem_next.mpr ⟨d, hd, h.eq_of_mem htail hu (h.getLastD_mem htail) hx,
      h.eq_of_mem hhead hv (h.headD_mem hhead) hy⟩

/-- **What remains of a path graph has its reachability.** -/
theorem hasPath_iff (h : k.Contracts g) (ha : a ∈ g.vertices) (hb : b ∈ g.vertices) :
    k.hasPath a b = true ↔ g.Reaches ∅ a b := by
  obtain ⟨u, hu, hau⟩ := h.exists_chain ha
  constructor
  · intro hab
    obtain ⟨v, hv, hbv⟩ := h.exists_chain hb
    rcases (h.hasPath_iff_of_mem hu hv hau hbv).mp hab with ⟨rfl, hle⟩ | huv
    · exact h.reaches_of_idxOf_le hu hau hbv hle
    · exact h.reaches_of_leads huv hau hbv
  · -- edge by edge, the chain of `a` stays and that of the vertex reached follows
    intro hab
    induction hab with
    | refl => exact (h.hasPath_iff_of_mem hu hu hau hau).mpr (.inl ⟨rfl, le_rfl⟩)
    | @tail x y _ hxy ih =>
      obtain ⟨hx, hy, -⟩ := PathGraph.mem_vertices_of_mem_successors hxy
      obtain ⟨v, hv, hxv⟩ := h.exists_chain hx
      obtain ⟨w, hw, hyw⟩ := h.exists_chain hy
      have hstep := h.step_of_mem_successors hv hw hxv hyw hxy
      rw [h.hasPath_iff_of_mem hu hw hau hyw]
      rcases (h.hasPath_iff_of_mem hu hv hau hxv).mp (ih hx) with ⟨rfl, hle⟩ | huv
      · exact hstep.imp (fun ⟨huw, hle'⟩ => ⟨huw, hle.trans hle'⟩) .single
      · right
        rcases hstep with ⟨rfl, -⟩ | hvw
        · exact huv
        · exact huv.tail hvw

end Contracts

end ChainGraph

namespace PathGraph

/-- **Contraction keeps reachability**: every vertex is in exactly one of the chains that are left,
and between two vertices the chains have a path exactly if the search finds one. -/
theorem contract_hasPath (g : PathGraph) {a b : Vertex} (ha : a ∈ g.vertices)
    (hb : b ∈ g.vertices) :
    g.contract.chains.countP (fun u => decide (a ∈ u)) = 1 ∧
      (g.contract.hasPath a b = true ↔ ∃ p, g.pathBetween? a b ∅ = .ok (some p)) := by
  have h := ChainGraph.contracts_contract g
  exact ⟨h.countP_eq_one ha, (h.hasPath_iff ha hb).trans (pathBetween?_eq_some ha hb).symm⟩

/-- Three BGP processes in a cycle, apart from the source and the destination. -/
def ring : PathGraph :=
  let a : Vertex := .main (.bgpIn 0)
  let b : Vertex := .main (.bgpIn 1)
  let c : Vertex := .main (.bgpIn 2)
  ((((empty .fine "d" "s").addVertices [a, b, c]).addEdge ⟨a, b⟩ { kind := .relay }).addEdge
    ⟨b, c⟩ { kind := .relay }).addEdge ⟨c, a⟩ { kind := .relay }

/-- The ring becomes one chain with an edge to itself, so its end leads to its start. -/
theorem contract_hasPath_ring :
    let a : Vertex := .main (.bgpIn 0)
    let b : Vertex := .main (.bgpIn 1)
    let c : Vertex := .main (.bgpIn 2)
    [a, b, c] ∈ ring.contract.chains ∧ c ∈ ring.vertices ∧ a ∈ ring.vertices ∧
      ring.contract.chains.countP (fun u => decide (c ∈ u)) = 1 ∧
      ring.contract.hasPath c a = true := by
  intro a b c
  have hchain : [a, b, c] ∈ ring.contract.chains := by decide +kernel
  have hc : c ∈ ring.vertices := by decide +kernel
  have ha : a ∈ ring.vertices := by decide +kernel
  have hstep : a ∈ ring.successors ∅ c := by decide +kernel
  obtain ⟨hcount, hpath⟩ := contract_hasPath ring hc ha
  exact ⟨hchain, hc, ha, hcount, hpath.mpr ((pathBetween?_eq_some hc ha).mpr (.single hstep))⟩

end PathGraph

end NetReach
