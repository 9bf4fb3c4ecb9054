import NetReach.PathGraph.OfNetwork
import NetReach.Proofs.Search

/-! # The graph that wires make

A wire makes an edge exactly if its ends are two different vertices of the graph
(`Wiring.mem_successors_ofWires`). Which of several wires between the same vertices is kept does not
matter for that. -/

namespace NetReach

/-! ### Vertices -/

namespace PathGraph

variable {g : PathGraph} {vs : List Vertex} {v : Vertex}

theorem addVertices_dst : (g.addVertices vs).dst = g.dst := by
  unfold addVertices
  induction vs generalizing g with
  | nil => rfl
  | cons x vs ih => exact ih (g := g.addVertex x)

theorem addVertices_src : (g.addVertices vs).src = g.src := by
  unfold addVertices
  induction vs generalizing g with
  | nil => rfl
  | cons x vs ih => exact ih (g := g.addVertex x)

theorem addVertices_edges : (g.addVertices vs).edges = g.edges := by
  unfold addVertices
  induction vs generalizing g with
  | nil => rfl
  | cons x vs ih => exact ih (g := g.addVertex x)

theorem mem_addVertices : v ∈ (g.addVertices vs).vertices ↔ v ∈ g.vertices ∨ v ∈ vs := by
  unfold addVertices
  induction vs generalizing g with
  | nil => simp
  | cons x vs ih =>
    rw [List.foldl_cons, ih, List.mem_cons]
    simp only [addVertex, OrdSet.mem_insert]
    constructor
    · rintro ((h | h) | h)
      · exact Or.inr (Or.inl h)
      · exact Or.inl h
      · exact Or.inr (Or.inr h)
    · rintro (h | h | h)
      · exact Or.inl (Or.inr h)
      · exact Or.inl (Or.inl h)
      · exact Or.inr h

theorem mem_vertices_empty {variant : Variant} {dst src : Subnet} :
    v ∈ (empty variant dst src).vertices ↔
      v = .main (.destination dst) ∨ v = .main (.source src) := by
  change v ∈ ((∅ : OrdSet Vertex).insert _).insert _ ↔ _
  simp only [OrdSet.mem_insert, OrdSet.not_mem_empty, or_false]
  exact or_comm

/-! ### Edges -/

variable {a b : Arc} {e : Edge}

theorem accepts_iff : g.accepts a = true ↔
    (a.tail ∈ g.vertices ∧ a.head ∈ g.vertices ∧ a.tail ≠ a.head) ∧ g.edges.get? a = none := by
  simp [accepts, OrdMap.contains]

theorem addEdge_vertices : (g.addEdge a e).vertices = g.vertices := by
  unfold addEdge
  split <;> rfl

theorem addEdge_dst : (g.addEdge a e).dst = g.dst := by
  unfold addEdge
  split <;> rfl

theorem addEdge_src : (g.addEdge a e).src = g.src := by
  unfold addEdge
  split <;> rfl

theorem isSome_get?_addEdge : ((g.addEdge a e).edges.get? b).isSome ↔
    (g.edges.get? b).isSome ∨ b = a ∧ a.tail ∈ g.vertices ∧ a.head ∈ g.vertices ∧
      a.tail ≠ a.head := by
  unfold addEdge
  split
  · next h =>
    obtain ⟨hends, -⟩ := accepts_iff.mp h
    rw [OrdMap.get?_put]
    by_cases hb : b = a
    · simp [hb, hends]
    · simp [hb]
  · next h =>
    constructor
    · exact Or.inl
    · rintro (hb | ⟨rfl, hends⟩)
      · exact hb
      · by_contra hnone
        exact h (accepts_iff.mpr ⟨hends, by simpa using hnone⟩)

end PathGraph

/-! ### Wires -/

namespace Wiring

variable {g : PathGraph} {s : Wiring} {ws : List Wire} {w : Wire} {b : Arc} {f : FailureSet}
  {u v : Vertex}

theorem graph_add : (s.add w).graph = s.graph.addEdge w.arc w.edge := by
  unfold add
  split
  · rfl
  · next h => rw [PathGraph.addEdge, dif_neg h]

/-- What a wire changes at most is the edge at its place. -/
theorem graph_foldl_add (s : Wiring) (ws : List Wire) :
    (ws.foldl add s).graph.vertices = s.graph.vertices ∧
    (ws.foldl add s).graph.dst = s.graph.dst ∧ (ws.foldl add s).graph.src = s.graph.src ∧
    ∀ b, ((ws.foldl add s).graph.edges.get? b).isSome ↔ (s.graph.edges.get? b).isSome ∨
      ∃ w ∈ ws, b = w.arc ∧ b.tail ∈ s.graph.vertices ∧ b.head ∈ s.graph.vertices ∧
        b.tail ≠ b.head := by
  induction ws generalizing s with
  | nil => simp
  | cons w ws ih =>
    obtain ⟨hv, hd, hs, he⟩ := ih (s.add w)
    rw [graph_add, PathGraph.addEdge_vertices] at hv he
    rw [graph_add, PathGraph.addEdge_dst] at hd
    rw [graph_add, PathGraph.addEdge_src] at hs
    refine ⟨hv, hd, hs, fun b => ?_⟩
    rw [List.foldl_cons, he, PathGraph.isSome_get?_addEdge]
    constructor
    · rintro ((h | ⟨rfl, h⟩) | ⟨x, hx, h⟩)
      · exact Or.inl h
      · exact Or.inr ⟨w, List.mem_cons_self, rfl, h⟩
      · exact Or.inr ⟨x, List.mem_cons_of_mem _ hx, h⟩
    · rintro (h | ⟨x, hx, h⟩)
      · exact Or.inl (Or.inl h)
      · rcases List.mem_cons.mp hx with rfl | hx
        · obtain ⟨rfl, h⟩ := h
          exact Or.inl (Or.inr ⟨rfl, h⟩)
        · exact Or.inr ⟨x, hx, h⟩

theorem destination_ofWires : (ofWires g ws).graph.destination = g.destination := by
  rw [PathGraph.destination, ofWires, (graph_foldl_add _ _).2.1]
  rfl

theorem source_ofWires : (ofWires g ws).graph.source = g.source := by
  rw [PathGraph.source, ofWires, (graph_foldl_add _ _).2.2.1]
  rfl

theorem vertices_ofWires : (ofWires g ws).graph.vertices = g.vertices :=
  (graph_foldl_add _ _).1

/-- **The edges are the wires between different vertices of the graph.** -/
theorem mem_successors_ofWires (hg : g.edges = ∅) :
    v ∈ (ofWires g ws).graph.successors f u ↔ (∃ w ∈ ws, w.arc = ⟨u, v⟩) ∧ u ∈ g.vertices ∧
      v ∈ g.vertices ∧ u ≠ v ∧ f.cuts u v = false := by
  have hedge := (graph_foldl_add ⟨g, []⟩ ws).2.2.2 ⟨u, v⟩
  rw [hg] at hedge
  rw [PathGraph.mem_successors, PathGraph.edge?, ofWires, ← Option.isSome_iff_exists, hedge]
  constructor
  · rintro ⟨h | ⟨w, hw, he, hu, hv, hne⟩, hc⟩
    · cases h
    · exact ⟨⟨w, hw, he.symm⟩, hu, hv, hne, hc⟩
  · rintro ⟨⟨w, hw, he⟩, hu, hv, hne, hc⟩
    exact ⟨Or.inr ⟨w, hw, he.symm, hu, hv, hne⟩, hc⟩

end Wiring

/-! ### The graphs of a scene -/

namespace Scene

variable {c : Scene} {f : FailureSet} {u v : Vertex}

/-- The vertices between source and destination. -/
def inner (c : Scene) : Variant → List Vertex
  | .coarse => c.net.routers.flatMap coarseVerticesOf
  | .fine => c.net.routers.flatMap c.fineVerticesOf ++
      c.layers.toList.flatMap fun l => c.net.routers.flatMap (layerVerticesOf l)

/-- All wires of a variant. -/
def wires (c : Scene) : Variant → List Wire
  | .coarse => c.net.routers.flatMap c.coarseWiresOf
  | .fine => c.net.routers.flatMap c.fineWiresOf ++
      c.layers.toList.flatMap fun l => c.net.routers.flatMap (c.layerWiresOf l)

theorem wiring_eq (c : Scene) (variant : Variant) : c.wiring variant =
    .ofWires ((PathGraph.empty variant c.dst c.src).addVertices (c.inner variant))
      (c.wires variant) := by
  cases variant <;> rfl

theorem mem_wires_coarse {w : Wire} :
    w ∈ c.wires .coarse ↔ ∃ r ∈ c.net.routers, w ∈ c.coarseWiresOf r :=
  List.mem_flatMap

theorem mem_wires_fine {w : Wire} : w ∈ c.wires .fine ↔
    ∃ r ∈ c.net.routers, w ∈ c.fineWiresOf r ∨
      ∃ layer ∈ c.layers.toList, w ∈ c.layerWiresOf layer r := by
  simp only [wires, List.mem_append, List.mem_flatMap]
  constructor
  · rintro (⟨r, hr, hw⟩ | ⟨layer, hl, r, hr, hw⟩)
    · exact ⟨r, hr, Or.inl hw⟩
    · exact ⟨r, hr, Or.inr ⟨layer, hl, hw⟩⟩
  · rintro ⟨r, hr, hw | ⟨layer, hl, hw⟩⟩
    · exact Or.inl ⟨r, hr, hw⟩
    · exact Or.inr ⟨layer, hl, r, hr, hw⟩

variable {variant : Variant}

/-- Where a graph is made, it is that of the variant. -/
theorem eq_wiring_of_build {s : Wiring} (h : c.build variant = .ok s) : s = c.wiring variant := by
  unfold build at h
  split at h
  · cases h
  · exact (Except.ok.inj h).symm

/-- Where there is no error, the graph is made. -/
theorem build_of_error?_eq_none (h : c.error? = none) :
    c.build variant = .ok (c.wiring variant) := by
  rw [build, h]

theorem destination_wiring : (c.wiring variant).graph.destination = c.destination := by
  rw [wiring_eq, Wiring.destination_ofWires, PathGraph.destination, PathGraph.addVertices_dst]
  rfl

theorem source_wiring : (c.wiring variant).graph.source = c.source := by
  rw [wiring_eq, Wiring.source_ofWires, PathGraph.source, PathGraph.addVertices_src]
  rfl

theorem mem_vertices_wiring : v ∈ (c.wiring variant).graph.vertices ↔
    (v = c.destination ∨ v = c.source) ∨ v ∈ c.inner variant := by
  rw [wiring_eq, Wiring.vertices_ofWires, PathGraph.mem_addVertices, PathGraph.mem_vertices_empty]
  rfl

/-- **The edges of the graph are the wires between different vertices.** -/
theorem mem_successors_wiring : v ∈ (c.wiring variant).graph.successors f u ↔
    (∃ w ∈ c.wires variant, w.arc = ⟨u, v⟩) ∧ u ∈ (c.wiring variant).graph.vertices ∧
      v ∈ (c.wiring variant).graph.vertices ∧ u ≠ v ∧ f.cuts u v = false := by
  rw [wiring_eq, Wiring.mem_successors_ofWires PathGraph.addVertices_edges,
    Wiring.vertices_ofWires]

theorem mem_vertices_of_inner (h : v ∈ c.inner variant) : v ∈ (c.wiring variant).graph.vertices :=
  mem_vertices_wiring.mpr (Or.inr h)

theorem destination_mem_vertices : c.destination ∈ (c.wiring variant).graph.vertices :=
  mem_vertices_wiring.mpr (Or.inl (Or.inl rfl))

theorem source_mem_vertices : c.source ∈ (c.wiring variant).graph.vertices :=
  mem_vertices_wiring.mpr (Or.inl (Or.inr rfl))

/-- While no link has failed, edges of the graph lead from one vertex to the other. -/
abbrev Way (c : Scene) (variant : Variant) : Vertex → Vertex → Prop :=
  (c.wiring variant).graph.Reaches ∅

end Scene

end NetReach
