import Mathlib.Algebra.GroupWithZero.Nat
import Mathlib.Data.List.Permutation
import Mathlib.Data.Set.Finite.List
import Mathlib.Order.WellFounded
import NetReach.Proofs.Search

/-! # The least path to the destination

Paths are ordered by their total cost, then their total length, then the number of their vertices,
then the vertices themselves (`PathGraph.comparePaths`). Going back over one more edge keeps the
order (`comparePaths_cons`), and every path comes before those that it is the end of
(`comparePaths_eq_lt_of_isSuffix`).

* `PathGraph.exists_isLeast`: a vertex that reaches the destination has a least path.
* `PathGraph.IsLeast.tail`: what a least path goes on with is a least path. -/

namespace NetReach

/-- What the policies of the edge add to the cost. -/
def Edge.cost (e : Edge) : Nat := (e.policies.map (·.cost.toNat)).sum

/-- What the policies of the edge add to the length. -/
def Edge.len (e : Edge) : Nat := (e.policies.map (·.len.toNat)).sum

namespace PathGraph

variable {g : PathGraph} {f : FailureSet} {u v w : Vertex} {e : Edge} {p q : List Vertex}

/-- What the edges along a path add up to. -/
def total (g : PathGraph) (weight : Edge → Nat) : List Vertex → Nat
  | u :: v :: p => (g.edge? u v).elim 0 weight + g.total weight (v :: p)
  | _ => 0

/-- By total cost, then total length, then the number of vertices, then the vertices. -/
def comparePaths (g : PathGraph) : List Vertex → List Vertex → Ordering :=
  compareLex (compareOn (g.total Edge.cost)) (compareLex (compareOn (g.total Edge.len))
    (compareLex (compareOn List.length) compare))

instance (g : PathGraph) : Std.TransCmp g.comparePaths :=
  inferInstanceAs (Std.TransCmp (compareLex _ (compareLex _ (compareLex _ _))))

/-- The path comes before all others from the vertex to the destination. -/
structure IsLeast (g : PathGraph) (f : FailureSet) (u : Vertex) (p : List Vertex) : Prop where
  isPath : g.IsPath f u g.destination p
  lt : ∀ q, g.IsPath f u g.destination q → q ≠ p → g.comparePaths p q = .lt

/-! ### The order of paths -/

theorem comparePaths_eq (g : PathGraph) (p q : List Vertex) :
    g.comparePaths p q = (compare (g.total Edge.cost p) (g.total Edge.cost q)).then
      ((compare (g.total Edge.len p) (g.total Edge.len q)).then
        ((compare p.length q.length).then (compare p q))) := rfl

/-- Only a path itself ranks the same. -/
theorem eq_of_comparePaths (h : g.comparePaths p q = .eq) : p = q := by
  simp only [comparePaths_eq, Ordering.then_eq_eq] at h
  exact Std.LawfulEqOrd.eq_of_compare h.2.2.2

theorem compare_add_left (k m n : Nat) : compare (k + m) (k + n) = compare m n := by
  simp only [Nat.compare_eq_ite_lt, Nat.add_lt_add_iff_left]

/-- **The same first edge keeps the order.** -/
theorem comparePaths_cons : g.comparePaths (u :: v :: p) (u :: v :: q) =
    g.comparePaths (v :: p) (v :: q) := by
  have hlen : ∀ l : List Vertex, (u :: v :: l).length = 1 + (v :: l).length := by
    intro l
    exact Nat.add_comm _ 1
  rw [comparePaths_eq, comparePaths_eq]
  simp only [total, hlen, compare_add_left]
  rw [List.compare_cons_cons (x := u), Std.compare_self, Ordering.eq_then]

theorem total_le_cons (weight : Edge → Nat) (u : Vertex) (p : List Vertex) :
    g.total weight p ≤ g.total weight (u :: p) := by
  cases p with
  | nil => exact Nat.le_refl 0
  | cons v p => exact Nat.le_add_left _ _

theorem comparePaths_self_cons (u : Vertex) (p : List Vertex) :
    g.comparePaths p (u :: p) = .lt := by
  have hcost := total_le_cons (g := g) Edge.cost u p
  have hlen := total_le_cons (g := g) Edge.len u p
  have hlength : compare p.length (u :: p).length = .lt := Nat.compare_eq_lt.mpr (by simp)
  rw [comparePaths_eq, hlength, Ordering.lt_then]
  rcases Nat.lt_or_eq_of_le hcost with h | h
  · rw [Nat.compare_eq_lt.mpr h, Ordering.lt_then]
  · rw [Nat.compare_eq_eq.mpr h, Ordering.eq_then]
    rcases Nat.lt_or_eq_of_le hlen with h | h
    · rw [Nat.compare_eq_lt.mpr h, Ordering.lt_then]
    · rw [Nat.compare_eq_eq.mpr h, Ordering.eq_then]

/-- **A path comes before those that end with it.** -/
theorem isLE_comparePaths_of_isSuffix (h : p <:+ q) : (g.comparePaths p q).isLE := by
  induction q with
  | nil =>
    rw [List.suffix_nil.mp h]
    exact Std.ReflCmp.isLE_rfl
  | cons u q ih =>
    rcases List.suffix_cons_iff.mp h with rfl | h
    · exact Std.ReflCmp.isLE_rfl
    · have hlt : g.comparePaths q (u :: q) = .lt := comparePaths_self_cons u q
      exact Std.TransCmp.isLE_trans (ih h) (by rw [hlt]; rfl)

/-! ### Least paths -/

theorem IsLeast.unique (hp : g.IsLeast f u p) (hq : g.IsLeast f u q) : p = q := by
  by_contra hne
  have hlt := hp.lt q hq.isPath (Ne.symm hne)
  have hgt := hq.lt p hp.isPath hne
  exact Std.OrientedCmp.not_lt_of_lt hlt hgt

theorem IsPath.subset_vertices (h : g.IsPath f u w p) (hu : u ∈ g.vertices) :
    ∀ x ∈ p, x ∈ g.vertices := by
  obtain ⟨hhead, -, hchain, -⟩ := h
  induction p generalizing u with
  | nil => cases hhead
  | cons a p ih =>
    cases hhead
    intro x hx
    rcases List.mem_cons.mp hx with rfl | hx
    · exact hu
    · cases p with
      | nil => cases hx
      | cons v p =>
        obtain ⟨huv, hchain⟩ := List.isChain_cons_cons.mp hchain
        exact ih (mem_vertices_of_mem_successors huv).2.1 rfl hchain x hx

theorem IsPath.length_le (h : g.IsPath f u w p) (hu : u ∈ g.vertices) :
    p.length ≤ g.numVertices :=
  (h.nodup.subperm (h.subset_vertices hu)).length_le

/-- A path enters no vertex twice, so there are finitely many. -/
theorem finite_isPath (hu : u ∈ g.vertices) : {p | g.IsPath f u w p}.Finite := by
  refine (List.finite_toSet (g.vertices.toList.sublists.flatMap List.permutations)).subset ?_
  intro p hp
  obtain ⟨l, hl, hsub⟩ := hp.nodup.subperm (hp.subset_vertices hu)
  exact List.mem_flatMap.mpr ⟨l, List.mem_sublists.mpr hsub, List.mem_permutations.mpr hl.symm⟩

theorem exists_isPath (hu : u ∈ g.vertices) (h : g.Reaches f u w) : ∃ p, g.IsPath f u w p := by
  obtain ⟨p, hp⟩ := Option.isSome_iff_exists.mp ((isSome_search hu).mpr h)
  exact ⟨p, isPath_of_search hu hp⟩

theorem Reaches.mem_vertices (h : g.Reaches f u g.destination) : u ∈ g.vertices := by
  cases Relation.ReflTransGen.cases_head h with
  | inl h => exact h ▸ g.destination_mem
  | inr h =>
    obtain ⟨v, huv, -⟩ := h
    exact (mem_vertices_of_mem_successors huv).1

/-- **A vertex that reaches the destination has a least path.** -/
theorem exists_isLeast (h : g.Reaches f u g.destination) : ∃ p, g.IsLeast f u p := by
  have hu := Reaches.mem_vertices h
  let before (p q : {p | g.IsPath f u g.destination p}) : Prop := g.comparePaths p.1 q.1 = .lt
  have hfin : Finite {p | g.IsPath f u g.destination p} := finite_isPath hu
  have htrans : IsTrans _ before := ⟨fun _ _ _ hab hbc => Std.TransCmp.lt_trans hab hbc⟩
  have hirrefl : Std.Irrefl before := ⟨fun a h => Std.OrientedCmp.not_lt_of_lt h h⟩
  obtain ⟨p, hp⟩ := exists_isPath hu h
  obtain ⟨⟨m, hm⟩, -, hmin⟩ := (Finite.wellFounded_of_trans_of_irrefl before).has_min Set.univ
    ⟨⟨p, hp⟩, trivial⟩
  refine ⟨m, hm, fun q hq hne => ?_⟩
  cases hc : g.comparePaths m q with
  | lt => rfl
  | eq => exact absurd (eq_of_comparePaths hc).symm hne
  | gt => exact absurd (Std.OrientedCmp.gt_iff_lt.mp hc) (hmin ⟨q, hq⟩ trivial)

theorem isLeast_destination : g.IsLeast f g.destination [g.destination] where
  isPath := .singleton g f g.destination
  lt q hq hne := by
    -- a path that goes on from the destination could not come back to it
    obtain ⟨hhead, hlast, -, hnodup⟩ := hq
    match q with
    | [] => cases hhead
    | [x] =>
      cases hhead
      exact absurd rfl hne
    | x :: v :: q =>
      cases hhead
      rw [List.getLast?_cons_cons] at hlast
      exact absurd (List.mem_of_getLast? hlast) (List.nodup_cons.mp hnodup).1

theorem IsPath.tail (h : g.IsPath f u w (u :: v :: p)) : g.IsPath f v w (v :: p) where
  head := rfl
  last := by
    have hlast := h.last
    rwa [List.getLast?_cons_cons] at hlast
  chain := (List.isChain_cons_cons.mp h.chain).2
  nodup := (List.nodup_cons.mp h.nodup).2

theorem IsPath.drop {a : Vertex} (h : g.IsPath f a w (q ++ u :: p)) : g.IsPath f u w (u :: p) where
  head := rfl
  last := by
    have hlast := h.last
    rwa [List.getLast?_append_of_ne_nil _ (by simp)] at hlast
  chain := h.chain.right_of_append
  nodup := h.nodup.of_append_right

/-- **What a least path goes on with is a least path.** -/
theorem IsLeast.tail (h : g.IsLeast f u (u :: v :: p)) : g.IsLeast f v (v :: p) where
  isPath := h.isPath.tail
  lt q hq hne := by
    have huv := (List.isChain_cons_cons.mp h.isPath.chain).1
    obtain ⟨q', rfl⟩ : ∃ q', q = v :: q' := by
      cases q with
      | nil => cases hq.head
      | cons x q' =>
        cases hq.head
        exact ⟨q', rfl⟩
    by_cases hu : u ∈ v :: q'
    · -- the other path comes by the first vertex, and goes on from there with a path no better
      -- than the least one, which is longer than its own tail
      obtain ⟨l, m, hlm⟩ := List.append_of_mem hu
      rw [hlm] at hq ⊢
      have hshort : g.comparePaths (v :: p) (u :: v :: p) = .lt := comparePaths_self_cons u _
      have hleast : (g.comparePaths (u :: v :: p) (u :: m)).isLE := by
        by_cases heq : u :: m = u :: v :: p
        · rw [heq]
          exact Std.ReflCmp.isLE_rfl
        · rw [h.lt _ hq.drop heq]
          rfl
      have hsuffix : (g.comparePaths (u :: m) (l ++ u :: m)).isLE :=
        isLE_comparePaths_of_isSuffix (List.suffix_append l _)
      exact Std.TransCmp.lt_of_lt_of_isLE hshort (Std.TransCmp.isLE_trans hleast hsuffix)
    · rw [← comparePaths_cons (u := u)]
      refine h.lt _ (hq.cons huv hu) fun heq => hne ?_
      exact (List.cons.inj heq).2

end PathGraph

end NetReach
