import NetReach.Proofs.LeastPath
import NetReach.Proofs.Listing

/-! # The search finds the first path

The paths between two vertices are in the order of their vertices. As successors are tried in
ascending order, the search finds the first path (`PathGraph.IsFirst`), if no path before it comes
to a vertex that the search has left behind. None does: all successors of such a vertex have been
entered, so from there a path only comes to vertices that the search is done with, and the target
is not among them (`Exhausted.subset_left`).

* `PathGraph.search_eq_some_iff`: what a search finds is the first path.
* `PathGraph.pathBetween?_exact`: what is answered about two vertices of a graph. -/

namespace NetReach.PathGraph

variable {g : PathGraph} {f : FailureSet} {a b v w target : Vertex}
  {p q fresh left ws : List Vertex}

/-- The path comes before all others between the two vertices. -/
structure IsFirst (g : PathGraph) (f : FailureSet) (a b : Vertex) (p : List Vertex) : Prop where
  isPath : g.IsPath f a b p
  lt : ∀ q, g.IsPath f a b q → q ≠ p → compare p q = .lt

theorem IsFirst.unique (hp : g.IsFirst f a b p) (hq : g.IsFirst f a b q) : p = q := by
  by_contra hne
  have hlt := hp.lt q hq.isPath (Ne.symm hne)
  have hgt := hq.lt p hp.isPath hne
  exact Std.OrientedCmp.not_lt_of_lt hlt hgt

/-- The only path from a vertex to itself stays there. -/
theorem IsPath.eq_singleton (h : g.IsPath f v v p) : p = [v] := by
  obtain ⟨hhead, hlast, -, hnodup⟩ := h
  match p with
  | [] => cases hhead
  | [x] =>
    cases hhead
    rfl
  | x :: y :: p =>
    cases hhead
    rw [List.getLast?_cons_cons] at hlast
    exact absurd (List.mem_of_getLast? hlast) (List.nodup_cons.mp hnodup).1

/-! ### Vertices that the search is done with -/

/-- A path over fresh vertices does not start where the search is done. -/
theorem Exhausted.head_mem_left (h : g.Exhausted f target fresh left) (p : List Vertex) :
    ∀ {v}, g.IsPath f v target (v :: p) → (∀ x ∈ v :: p, x ∈ fresh) → v ∈ left := by
  induction p with
  | nil =>
    intro v hp hfresh
    by_contra hv
    have hdone := h.done v (hfresh v List.mem_cons_self) hv
    exact hdone.1 (Option.some.inj hp.last)
  | cons w p ih =>
    intro v hp hfresh
    by_contra hv
    have hdone := h.done v (hfresh v List.mem_cons_self) hv
    have hw : w ∈ left := ih hp.tail fun x hx => hfresh x (List.mem_cons_of_mem _ hx)
    exact hdone.2 w (List.isChain_cons_cons.mp hp.chain).1 hw

/-- **A path over fresh vertices stays among those that the search has left over.** -/
theorem Exhausted.subset_left (h : g.Exhausted f target fresh left)
    (hp : g.IsPath f v target p) (hfresh : ∀ x ∈ p, x ∈ fresh) : ∀ x ∈ p, x ∈ left := by
  intro x hx
  obtain ⟨l, m, rfl⟩ := List.append_of_mem hx
  exact h.head_mem_left m hp.drop fun y hy => hfresh y (List.mem_append_right _ hy)

/-! ### The first path over fresh vertices -/

/-- No path from `v` over fresh vertices comes before `p`. -/
def Precedes (g : PathGraph) (f : FailureSet) (target v : Vertex) (fresh p : List Vertex) : Prop :=
  ∀ q, g.IsPath f v target q → (∀ x ∈ q, x = v ∨ x ∈ fresh) → (compare p q).isLE

/-- No path from one of the vertices `ws` over fresh vertices comes before `p`. -/
def PrecedesEach (g : PathGraph) (f : FailureSet) (target : Vertex) (ws fresh p : List Vertex) :
    Prop :=
  ∀ w ∈ ws, ∀ q, g.IsPath f w target q → (∀ x ∈ q, x ∈ fresh) → (compare p q).isLE

/-- Paths are in the order of the vertices at which they start. -/
theorem IsPath.compare_eq_lt (hp : g.IsPath f v target p) (hq : g.IsPath f w target q)
    (h : compare v w = .lt) : compare p q = .lt := by
  obtain ⟨x, p, rfl⟩ := List.exists_cons_of_ne_nil hp.ne_nil
  obtain ⟨y, q, rfl⟩ := List.exists_cons_of_ne_nil hq.ne_nil
  cases hp.head
  cases hq.head
  rw [List.compare_cons_cons, h, Ordering.lt_then]

theorem precedesEach_enterEach {enter : Vertex → List Vertex → SearchResult} {n : Nat}
    (henter : ∀ w fresh, fresh.Nodup → w ∉ fresh → fresh.length < n →
      g.Answers f target w fresh (enter w fresh))
    (hfirst : ∀ w fresh p, fresh.Nodup → w ∉ fresh → fresh.length < n →
      enter w fresh = .found p → g.Precedes f target w fresh p) (ws : List Vertex) :
    ∀ {fresh}, Ascending ws → fresh.Nodup → fresh.length ≤ n → enterEach enter ws fresh = .found p →
      g.PrecedesEach f target ws fresh p := by
  induction ws with
  | nil => exact fun _ _ _ _ => nofun
  | cons w ws ih =>
    intro fresh hws hnd hlen h
    obtain ⟨hw, hws⟩ := List.pairwise_cons.mp hws
    unfold enterEach at h
    by_cases hfresh : w ∈ fresh
    · rw [if_pos hfresh] at h
      have hpos : 0 < fresh.length := List.length_pos_of_mem hfresh
      have hlt : (fresh.erase w).length < n := by
        rw [List.length_erase_of_mem hfresh]
        omega
      have hans := henter w (fresh.erase w) (hnd.erase w) hnd.not_mem_erase hlt
      cases hres : enter w (fresh.erase w) with
      | found p' =>
        rw [hres] at h hans
        cases h
        intro x hx q hq hall
        rcases List.mem_cons.mp hx with rfl | hx
        · refine hfirst x _ p (hnd.erase x) hnd.not_mem_erase hlt hres q hq fun y hy => ?_
          by_cases hyx : y = x
          · exact Or.inl hyx
          · exact Or.inr ((List.mem_erase_of_ne hyx).mpr (hall y hy))
        · rw [hans.1.compare_eq_lt hq (hw x hx)]
          rfl
      | exhausted left =>
        rw [hres] at h hans
        obtain ⟨hex, hdone⟩ := hans
        have hleft : g.Exhausted f target fresh left := hex.trans hdone (.refl g f target left)
        have hnot : w ∉ left := fun hm => hnd.not_mem_erase (hex.sublist.subset hm)
        have hle : left.length ≤ n := by
          have := hleft.sublist.length_le
          omega
        have hrest := ih hws (hleft.sublist.nodup hnd) hle h
        -- what was given up lies on no path, so there is none from `w`, and the others are left
        intro x hx q hq hall
        have hsub := hleft.subset_left hq hall
        rcases List.mem_cons.mp hx with rfl | hx
        · exact absurd (hsub x (List.mem_of_mem_head? hq.head)) hnot
        · exact hrest x hx q hq hsub
    · rw [if_neg hfresh] at h
      intro x hx q hq hall
      rcases List.mem_cons.mp hx with rfl | hx
      · exact absurd (hall x (List.mem_of_mem_head? hq.head)) hfresh
      · exact ih hws hnd hlen h x hx q hq hall

/-- **What a search finds comes before all other paths over fresh vertices.** -/
theorem precedes_searchFrom (n : Nat) : ∀ (v : Vertex) (fresh p : List Vertex), fresh.Nodup →
    v ∉ fresh → fresh.length < n → searchFrom (g.successors f) target n v fresh = .found p →
      g.Precedes f target v fresh p := by
  induction n with
  | zero =>
    intro v fresh p _ _ hlen
    omega
  | succ n ih =>
    intro v fresh p hnd hv hlen h q hq hall
    unfold searchFrom at h
    by_cases ht : v = target
    · rw [if_pos ht] at h
      cases h
      subst ht
      rw [hq.eq_singleton]
      exact Std.ReflCmp.isLE_rfl
    · rw [if_neg ht] at h
      cases hres : enterEach (searchFrom (g.successors f) target n) (g.successors f v) fresh with
      | exhausted left =>
        rw [hres] at h
        cases h
      | found p' =>
        rw [hres] at h
        cases h
        have hfirst := precedesEach_enterEach (fun w fresh => answers_searchFrom n w fresh) ih
          (g.successors f v) (g.ascending_successors f v) hnd (by omega) hres
        obtain ⟨w, m, rfl⟩ := hq.exists_eq_cons_cons ht
        have hw := (List.isChain_cons_cons.mp hq.chain).1
        -- a path enters no vertex twice, so behind `v` it is over fresh vertices
        have hrest : ∀ x ∈ w :: m, x ∈ fresh := by
          intro x hx
          refine (hall x (List.mem_cons_of_mem _ hx)).resolve_left ?_
          rintro rfl
          exact (List.nodup_cons.mp hq.nodup).1 hx
        rw [List.compare_cons_cons, Std.compare_self, Ordering.eq_then]
        exact hfirst w hw _ hq.tail hrest

/-! ### Searching a graph -/

theorem isFirst_of_search (ha : a ∈ g.vertices) (h : g.search f a b = some p) :
    g.IsFirst f a b p := by
  have hpath := isPath_of_search ha h
  refine ⟨hpath, fun q hq hne => ?_⟩
  unfold search at h
  cases hres : searchFrom (g.successors f) b g.numVertices a (g.vertices.toList.erase a) with
  | exhausted left =>
    rw [hres] at h
    cases h
  | found p' =>
    rw [hres] at h
    cases h
    have hlen : (g.vertices.toList.erase a).length < g.numVertices := by
      have hpos : 0 < g.vertices.toList.length := List.length_pos_of_mem ha
      rw [List.length_erase_of_mem ha, numVertices, OrdSet.size]
      omega
    have hle : (compare p q).isLE := by
      refine precedes_searchFrom _ a _ p (g.nodup_vertices.erase a)
        g.nodup_vertices.not_mem_erase hlen hres q hq fun x hx => ?_
      by_cases hxa : x = a
      · exact Or.inl hxa
      · exact Or.inr ((List.mem_erase_of_ne hxa).mpr (hq.subset_vertices ha x hx))
    cases hc : compare p q with
    | lt => rfl
    | eq => exact absurd (Std.LawfulEqOrd.eq_of_compare hc).symm hne
    | gt =>
      rw [hc] at hle
      cases hle

/-- **What a search finds is the first path.** -/
theorem search_eq_some_iff (ha : a ∈ g.vertices) :
    g.search f a b = some p ↔ g.IsFirst f a b p := by
  constructor
  · exact isFirst_of_search ha
  · intro hp
    obtain ⟨q, hq⟩ := Option.isSome_iff_exists.mp ((isSome_search ha).mpr hp.isPath.reaches)
    rw [hq, (isFirst_of_search ha hq).unique hp]

theorem search_eq_none_iff (ha : a ∈ g.vertices) : g.search f a b = none ↔ ¬ g.Reaches f a b := by
  rw [← isSome_search ha, Option.not_isSome_iff_eq_none]

/-- **What is found between two vertices is the first path, and nothing exactly if no edges lead
from the one to the other.** The same holds of source and destination. -/
theorem pathBetween?_exact (ha : a ∈ g.vertices) (hb : b ∈ g.vertices) (f : FailureSet) :
    (∃ o, g.pathBetween? a b f = .ok o ∧ (o = none ↔ ¬ g.Reaches f a b) ∧
      ∀ p, o = some p ↔ g.IsFirst f a b p) ∧
    (g.path? f = none ↔ ¬ g.Reaches f g.source g.destination) ∧
    ∀ p, g.path? f = some p ↔ g.IsFirst f g.source g.destination p := by
  have hca : g.contains a = true := decide_eq_true ha
  have hcb : g.contains b = true := decide_eq_true hb
  refine ⟨⟨g.search f a b, ?_, search_eq_none_iff ha, fun p => search_eq_some_iff ha⟩,
    search_eq_none_iff g.source_mem, fun p => search_eq_some_iff g.source_mem⟩
  simp only [pathBetween?, hca, hcb, Bool.not_true, Bool.false_eq_true, if_false]

/-- The first way into the maze leads around in a circle. The second one comes to the circle as well
before it parts into two ways out. -/
def maze : PathGraph :=
  let v (i : RouterId) : Vertex := .main (.bgpIn i)
  let relay : Edge := { kind := .relay }
  let g := (empty .fine "d" "s").addVertices [v 0, v 1, v 2, v 3, v 4]
  g.addEdge ⟨g.source, v 0⟩ relay |>.addEdge ⟨v 0, v 1⟩ relay |>.addEdge ⟨v 1, v 0⟩ relay
    |>.addEdge ⟨g.source, v 2⟩ relay |>.addEdge ⟨v 2, v 1⟩ relay |>.addEdge ⟨v 2, v 3⟩ relay
    |>.addEdge ⟨v 2, v 4⟩ relay |>.addEdge ⟨v 3, g.destination⟩ relay
    |>.addEdge ⟨v 4, g.destination⟩ relay

/-- Of the two ways out of the maze the search finds the first one. -/
theorem pathBetween?_exact_maze :
    let p := [maze.source, .main (.bgpIn 2), .main (.bgpIn 3), maze.destination]
    maze.source ∈ maze.vertices ∧ maze.destination ∈ maze.vertices ∧
      maze.pathBetween? maze.source maze.destination ∅ = .ok (some p) ∧
      maze.IsFirst ∅ maze.source maze.destination p := by
  intro p
  have hs : maze.source ∈ maze.vertices := maze.source_mem
  have hd : maze.destination ∈ maze.vertices := maze.destination_mem
  have hfound : maze.path? ∅ = some p := by decide +kernel
  have hfirst := ((pathBetween?_exact hs hd ∅).2.2 p).mp hfound
  obtain ⟨⟨o, ho, -, hsome⟩, -⟩ := pathBetween?_exact hs hd ∅
  exact ⟨hs, hd, (hsome p).mpr hfirst ▸ ho, hfirst⟩

end NetReach.PathGraph
