import Mathlib.Data.List.Chain
import NetReach.PathGraph.Basic

/-! # Edges and paths of a path graph

`PathGraph.mem_successors` reads the list of successors of a vertex: an edge leads there, and no
failure cuts it. A *path* (`PathGraph.IsPath`) goes from successor to successor and enters no vertex
twice. -/

namespace NetReach.PathGraph

variable {g : PathGraph} {f : FailureSet} {u v w a b : Vertex} {e : Edge} {p : List Vertex}

/-! ### Edges -/

theorem mem_entries_iff_edge? : (⟨u, v⟩, e) ∈ g.edges.entries ↔ g.edge? u v = some e :=
  OrdMap.mem_entries

theorem ends_of_edge? (h : g.edge? u v = some e) : u ∈ g.vertices ∧ v ∈ g.vertices ∧ u ≠ v := by
  have hk : (⟨u, v⟩ : Arc) ∈ g.edges.keys := List.mem_map_of_mem (mem_entries_iff_edge?.mpr h)
  exact g.edges_mem _ hk

theorem mem_usable : (v, e) ∈ g.usable f u ↔ g.edge? u v = some e ∧ f.cuts u v = false := by
  rw [← mem_entries_iff_edge?]
  simp only [usable, List.mem_filterMap, Prod.exists, Option.ite_none_right_eq_some,
    Option.some.injEq, Prod.mk.injEq]
  constructor
  · rintro ⟨⟨t, h⟩, e', hm, ⟨rfl, hc⟩, rfl, rfl⟩
    exact ⟨hm, by simpa using hc⟩
  · rintro ⟨hm, hc⟩
    exact ⟨⟨u, v⟩, e, hm, ⟨rfl, by simpa using hc⟩, rfl, rfl⟩

theorem mem_successors :
    v ∈ g.successors f u ↔ (∃ e, g.edge? u v = some e) ∧ f.cuts u v = false := by
  simp only [successors, List.mem_map, Prod.exists, exists_and_right, exists_eq_right, mem_usable]

theorem mem_vertices_of_mem_successors (h : v ∈ g.successors f u) :
    u ∈ g.vertices ∧ v ∈ g.vertices ∧ u ≠ v := by
  obtain ⟨⟨e, he⟩, -⟩ := mem_successors.mp h
  exact ends_of_edge? he

/-! ### Paths -/

/-- The vertices `p` lead from `a` to `b` over edges that no failure cuts, and none comes twice. -/
structure IsPath (g : PathGraph) (f : FailureSet) (a b : Vertex) (p : List Vertex) : Prop where
  head : p.head? = some a
  last : p.getLast? = some b
  chain : p.IsChain fun u v => v ∈ g.successors f u
  nodup : p.Nodup

namespace IsPath

theorem singleton (g : PathGraph) (f : FailureSet) (a : Vertex) : g.IsPath f a a [a] :=
  ⟨rfl, rfl, .singleton a, List.pairwise_singleton _ a⟩

theorem ne_nil (h : g.IsPath f a b p) : p ≠ [] := by
  rintro rfl
  cases h.head

/-- Between different vertices a path has a second vertex. -/
theorem exists_eq_cons_cons (h : g.IsPath f a b p) (hne : a ≠ b) : ∃ v q, p = a :: v :: q := by
  obtain ⟨hhead, hlast, -, -⟩ := h
  match p with
  | [] => cases hhead
  | [x] =>
    cases hhead
    cases hlast
    exact absurd rfl hne
  | x :: v :: q =>
    cases hhead
    exact ⟨v, q, rfl⟩

theorem cons (h : g.IsPath f v b p) (hu : v ∈ g.successors f u) (hn : u ∉ p) :
    g.IsPath f u b (u :: p) where
  head := rfl
  last := by
    obtain ⟨x, p, rfl⟩ := List.exists_cons_of_ne_nil h.ne_nil
    rw [List.getLast?_cons_cons]
    exact h.last
  chain := by
    refine List.isChain_cons.mpr ⟨fun x hx => ?_, h.chain⟩
    rw [h.head] at hx
    cases hx
    exact hu
  nodup := List.nodup_cons.mpr ⟨hn, h.nodup⟩

end IsPath

end NetReach.PathGraph
