import NetReach.PathGraph.Listing
import NetReach.Proofs.Search

/-! # What a listing has in common with its graph

A listing *lists* a path graph (`Listing.Lists`) if both have the same vertices and edges; the same
insertions build a graph and a listing of it (`Listing.lists_build`). The order of a listing does
not show where the parts are sorted (`sorted_eq_of_perm`), nor where they are only looked up, so the
search over a listing finds the path that the search over the graph finds
(`Listing.Lists.search_eq`), and packets take the same walks (`Listing.Lists.reprocess_eq`). -/

namespace NetReach

/-! ### Sorting -/

/-- If no two items of a list rank the same, their order does not show after sorting. -/
theorem mergeSort_eq_of_perm {α : Type} {cmp : α → α → Ordering} [Std.TransCmp cmp] {l m : List α}
    (h : l.Perm m) (hl : ∀ a ∈ l, ∀ b ∈ l, cmp a b = .eq → a = b) :
    l.mergeSort (fun a b => (cmp a b).isLE) = m.mergeSort fun a b => (cmp a b).isLE := by
  have htotal : ∀ a b, ((cmp a b).isLE || (cmp b a).isLE) = true := fun a b => by
    have hswap : cmp b a = (cmp a b).swap := Std.OrientedCmp.eq_swap
    rw [hswap]
    cases cmp a b <;> rfl
  have hsorted := List.pairwise_mergeSort (fun _ _ _ => Std.TransCmp.isLE_trans) htotal
  have hperm := (List.mergeSort_perm l fun a b => (cmp a b).isLE).trans
    (h.trans (List.mergeSort_perm m fun a b => (cmp a b).isLE).symm)
  refine List.Perm.eq_of_pairwise (fun a b ha hb hab hba => hl a ?_ b ?_ ?_) (hsorted l) (hsorted m)
    hperm
  · exact (List.mergeSort_perm l _).mem_iff.mp ha
  · exact h.mem_iff.mpr ((List.mergeSort_perm m _).mem_iff.mp hb)
  · exact Std.OrientedCmp.isLE_antisymm hab hba

/-- **Sorting finds back to the ascending order.** -/
theorem sorted_eq_of_perm {α : Type} [Ord α] [Std.TransOrd α] [Std.LawfulEqOrd α] {l m : List α}
    (h : l.Perm m) (hm : Ascending m) : sorted l = m := by
  rw [sorted, mergeSort_eq_of_perm h fun _ _ _ _ => Std.LawfulEqOrd.eq_of_compare]
  exact List.mergeSort_of_pairwise (hm.imp fun hlt => by rw [hlt]; rfl)

namespace PathGraph

variable {g : PathGraph} {f : FailureSet} {u v : Vertex}

/-- The successors of a vertex come in ascending order. -/
theorem ascending_successors (g : PathGraph) (f : FailureSet) (u : Vertex) :
    Ascending (g.successors f u) := by
  refine List.pairwise_map.mpr (g.edges.ascending.filterMap _ ?_)
  rintro ⟨a, d⟩ ⟨b, e⟩ hab x hx y hy
  obtain ⟨⟨hau, -⟩, hx⟩ := Option.ite_none_right_eq_some.mp hx
  obtain ⟨⟨hbu, -⟩, hy⟩ := Option.ite_none_right_eq_some.mp hy
  obtain rfl := Option.some.inj hx
  obtain rfl := Option.some.inj hy
  -- arcs with the same tail are compared by their heads
  have harc : compare a b = (compare a.tail b.tail).then (compare a.head b.head) := rfl
  change compare a b = .lt at hab
  rwa [harc, hau, hbu, Std.compare_self, Ordering.eq_then] at hab

end PathGraph

/-! ### The search from listed successors -/

/-- The same path was found, or the same vertices were left over. -/
def SearchResult.Agrees : SearchResult → SearchResult → Prop
  | found p, found q => p = q
  | exhausted left, exhausted left' => left.Perm left'
  | _, _ => False

theorem SearchResult.Agrees.path?_eq {r s : SearchResult} (h : r.Agrees s) : r.path? = s.path? := by
  cases r <;> cases s
  case found.found => exact congrArg some h
  case exhausted.exhausted => rfl
  case found.exhausted => cases h
  case exhausted.found => cases h

theorem agrees_enterEach {enter : Vertex → List Vertex → SearchResult}
    (henter : ∀ w {fresh fresh'}, fresh.Perm fresh' → (enter w fresh).Agrees (enter w fresh'))
    (ws : List Vertex) : ∀ {fresh fresh' : List Vertex}, fresh.Perm fresh' →
      (enterEach enter ws fresh).Agrees (enterEach enter ws fresh') := by
  induction ws with
  | nil => exact fun h => h
  | cons w ws ih =>
    intro fresh fresh' h
    unfold enterEach
    by_cases hw : w ∈ fresh
    · rw [if_pos hw, if_pos (h.mem_iff.mp hw)]
      have hagrees := henter w (h.erase w)
      revert hagrees
      cases enter w (fresh.erase w) <;> cases enter w (fresh'.erase w) <;> intro hagrees
      case found.found => exact hagrees
      case exhausted.exhausted => exact ih hagrees
      case found.exhausted => cases hagrees
      case exhausted.found => cases hagrees
    · rw [if_neg hw, if_neg (mt h.mem_iff.mpr hw)]
      exact ih h

/-- **The order of the fresh vertices does not matter.** -/
theorem agrees_searchFrom (next : Vertex → List Vertex) (target : Vertex) (n : Nat) :
    ∀ (v : Vertex) {fresh fresh' : List Vertex}, fresh.Perm fresh' →
      (searchFrom next target n v fresh).Agrees (searchFrom next target n v fresh') := by
  induction n with
  | zero => exact fun v _ _ h => h
  | succ n ih =>
    intro v fresh fresh' h
    unfold searchFrom
    by_cases hv : v = target
    · rw [if_pos hv, if_pos hv]
      rfl
    · rw [if_neg hv, if_neg hv]
      have hagrees := agrees_enterEach ih (next v) h
      revert hagrees
      cases enterEach (searchFrom next target n) (next v) fresh <;>
        cases enterEach (searchFrom next target n) (next v) fresh' <;> intro hagrees
      case found.found => exact congrArg (v :: ·) hagrees
      case exhausted.exhausted => exact hagrees
      case found.exhausted => cases hagrees
      case exhausted.found => cases hagrees

namespace Listing

/-! ### The same parts -/

/-- The listing and the graph have the same parts. -/
structure Lists (l : Listing) (g : PathGraph) : Prop where
  variant : l.variant = g.variant
  dst : l.dst = g.dst
  src : l.src = g.src
  vertices : l.vertices.Perm g.vertices.toList
  edges : l.edges.Perm g.edges.entries

variable {l : Listing} {g : PathGraph} {f : FailureSet} {u v a b : Vertex}

namespace Lists

theorem mem_vertices (h : l.Lists g) : v ∈ l.vertices ↔ v ∈ g.vertices := h.vertices.mem_iff

theorem length_vertices (h : l.Lists g) : l.vertices.length = g.numVertices := h.vertices.length_eq

theorem destination_eq (h : l.Lists g) : l.destination = g.destination := by
  rw [Listing.destination, PathGraph.destination, h.dst]

theorem source_eq (h : l.Lists g) : l.source = g.source := by
  rw [Listing.source, PathGraph.source, h.src]

theorem perm_usable (h : l.Lists g) (f : FailureSet) (u : Vertex) :
    (l.usable f u).Perm (g.usable f u) :=
  h.edges.filterMap _

theorem accepts_eq (h : l.Lists g) (t : Arc) : l.accepts t = g.accepts t := by
  have hjoined : (l.edges.map (·.1)).contains t = g.edges.contains t := by
    rw [Bool.eq_iff_iff, OrdMap.contains_iff_mem_keys, List.contains_iff_mem]
    exact (h.edges.map (·.1)).mem_iff
  rw [Listing.accepts, PathGraph.accepts, hjoined]
  simp only [h.mem_vertices]

/-! ### Insertions -/

theorem nodup_vertices (h : l.Lists g) : l.vertices.Nodup :=
  h.vertices.nodup_iff.mpr g.nodup_vertices

theorem vertex (h : l.Lists g) (v : Vertex) :
    (l.insert (.vertex v)).Lists (g.insert (.vertex v)) := by
  have hmem : ∀ x, x ∈ (g.addVertex v).vertices.toList ↔ x = v ∨ x ∈ l.vertices := fun x => by
    rw [OrdSet.mem_toList, PathGraph.addVertex, OrdSet.mem_insert, h.mem_vertices]
  by_cases hv : v ∈ l.vertices
  · have hsame : ∀ x, x ∈ l.vertices ↔ x ∈ (g.addVertex v).vertices.toList := fun x => by
      rw [hmem, or_iff_right_of_imp fun hx => hx ▸ hv]
    rw [Listing.insert, if_pos hv]
    exact ⟨h.variant, h.dst, h.src, (List.perm_ext_iff_of_nodup h.nodup_vertices
      (g.addVertex v).nodup_vertices).mpr hsame, h.edges⟩
  · have hnodup : (l.vertices ++ [v]).Nodup :=
      (List.nodup_cons.mpr ⟨hv, h.nodup_vertices⟩).perm (List.perm_append_singleton v _).symm
    rw [Listing.insert, if_neg hv]
    refine ⟨h.variant, h.dst, h.src,
      (List.perm_ext_iff_of_nodup hnodup (g.addVertex v).nodup_vertices).mpr fun x => ?_, h.edges⟩
    rw [hmem, List.mem_append, List.mem_singleton, or_comm]

theorem edge (h : l.Lists g) (t : Arc) (e : Edge) :
    (l.insert (.edge t e)).Lists (g.insert (.edge t e)) := by
  rw [Listing.insert, PathGraph.insert, PathGraph.addEdge, h.accepts_eq]
  by_cases hacc : g.accepts t = true
  · rw [if_pos hacc, dif_pos hacc]
    obtain ⟨-, hnew⟩ := Bool.and_eq_true_iff.mp hacc
    have hget : g.edges.get? t = none := by simpa [OrdMap.contains] using hnew
    refine ⟨h.variant, h.dst, h.src, h.vertices, (h.edges.cons _).trans ?_⟩
    refine (List.perm_ext_iff_of_nodup ?_ (g.edges.put t e).nodup_entries).mpr fun x => ?_
    · refine List.nodup_cons.mpr ⟨fun hm => ?_, g.edges.nodup_entries⟩
      rw [OrdMap.mem_entries, hget] at hm
      cases hm
    · obtain ⟨a, d⟩ := x
      rw [List.mem_cons, OrdMap.mem_entries, OrdMap.mem_entries, OrdMap.get?_put]
      by_cases ha : a = t
      · simp [ha, hget, eq_comm]
      · simp [ha]
  · rw [if_neg hacc, dif_neg hacc]
    exact h

theorem insert (h : l.Lists g) (i : Insertion) : (l.insert i).Lists (g.insert i) := by
  cases i with
  | vertex v => exact h.vertex v
  | edge t e => exact h.edge t e

end Lists

theorem lists_empty (variant : Variant) (dst src : Subnet) :
    (empty variant dst src).Lists (.empty variant dst src) where
  variant := rfl
  dst := rfl
  src := rfl
  vertices := by
    refine (List.perm_ext_iff_of_nodup (by simp [empty, Vertex.main])
      (PathGraph.empty variant dst src).nodup_vertices).mpr fun x => ?_
    have hempty : x ∉ (OrdSet.empty : OrdSet Vertex) := List.not_mem_nil
    rw [OrdSet.mem_toList, PathGraph.empty]
    simp [empty, hempty, or_comm]
  edges := .refl _

/-- Insertions keep what the listing is about. -/
theorem subnets_build (variant : Variant) (dst src : Subnet) (steps : List Insertion) :
    (build variant dst src steps).variant = variant ∧ (build variant dst src steps).dst = dst ∧
      (build variant dst src steps).src = src := by
  have hinsert : ∀ (l : Listing) (i : Insertion),
      (l.insert i).variant = l.variant ∧ (l.insert i).dst = l.dst ∧ (l.insert i).src = l.src := by
    intro l i
    cases i <;> rw [Listing.insert] <;> split <;> exact ⟨rfl, rfl, rfl⟩
  have hfold : ∀ l : Listing, (steps.foldl Listing.insert l).variant = l.variant ∧
      (steps.foldl Listing.insert l).dst = l.dst ∧ (steps.foldl Listing.insert l).src = l.src := by
    induction steps with
    | nil => exact fun _ => ⟨rfl, rfl, rfl⟩
    | cons i steps ih =>
      intro l
      obtain ⟨hvariant, hdst, hsrc⟩ := hinsert l i
      obtain ⟨hvariant', hdst', hsrc'⟩ := ih (l.insert i)
      exact ⟨hvariant'.trans hvariant, hdst'.trans hdst, hsrc'.trans hsrc⟩
  exact hfold (empty variant dst src)

/-- **The same insertions build a graph and a listing of it.** -/
theorem lists_build (variant : Variant) (dst src : Subnet) (steps : List Insertion) :
    (build variant dst src steps).Lists (.build variant dst src steps) := by
  have hfold : ∀ {l : Listing} {g : PathGraph}, l.Lists g →
      (steps.foldl Listing.insert l).Lists (steps.foldl PathGraph.insert g) := by
    induction steps with
    | nil => exact fun h => h
    | cons i steps ih => exact fun h => ih (h.insert i)
  exact hfold (lists_empty variant dst src)

namespace Lists

/-! ### Paths -/

theorem successors_eq (h : l.Lists g) (f : FailureSet) : l.successors f = g.successors f := by
  funext u
  exact sorted_eq_of_perm ((h.perm_usable f u).map _) (g.ascending_successors f u)

/-- **The search over a listing finds the path that the search over the graph finds.** -/
theorem search_eq (h : l.Lists g) (f : FailureSet) (a b : Vertex) :
    l.search f a b = g.search f a b := by
  rw [Listing.search, PathGraph.search, h.successors_eq, h.length_vertices]
  exact (agrees_searchFrom _ _ _ _ (h.vertices.erase a)).path?_eq

theorem path?_eq (h : l.Lists g) (f : FailureSet) : l.path? f = g.path? f := by
  rw [Listing.path?, PathGraph.path?, h.search_eq, h.source_eq, h.destination_eq]

theorem pathBetween?_eq (h : l.Lists g) (a b : Vertex) (f : FailureSet) :
    l.pathBetween? a b f = g.pathBetween? a b f := by
  rw [Listing.pathBetween?, PathGraph.pathBetween?, h.search_eq]
  simp [h.mem_vertices, PathGraph.contains]

/-! ### Walks -/

theorem leave?_eq (h : l.Lists g) (owner : Option RouterId) (hops : List Vertex) :
    ∀ passed : List Vertex, l.leave? owner hops passed =
      (hops.dropWhile fun w => decide (w ≠ g.destination ∧ w.router? = owner)).head?.map fun w =>
        (w, passed ++ hops.takeWhile fun w => decide (w ≠ g.destination ∧ w.router? = owner)) := by
  induction hops with
  | nil => exact fun _ => rfl
  | cons w hops ih =>
    intro passed
    unfold leave?
    rw [h.destination_eq]
    by_cases hw : w ≠ g.destination ∧ w.router? = owner
    · rw [if_neg (by tauto), ih, List.dropWhile_cons_of_pos (by simpa using hw),
        List.takeWhile_cons_of_pos (by simpa using hw)]
      simp only [List.append_assoc, List.singleton_append]
    · rw [if_pos (by tauto), List.dropWhile_cons_of_neg (by simpa using hw),
        List.takeWhile_cons_of_neg (by simpa using hw)]
      simp

theorem walkFrom_eq (h : l.Lists g) (t : RoutingTable) (n : Nat) :
    ∀ (left : List Vertex) (v : Vertex) (passed : List Vertex),
      l.walkFrom t n left v passed = g.walkFrom t n left v passed := by
  induction n with
  | zero => exact fun _ _ _ => rfl
  | succ n ih =>
    intro left v passed
    unfold Listing.walkFrom PathGraph.walkFrom
    by_cases hv : v ∈ left
    · rw [if_pos hv, if_pos hv]
    rw [if_neg hv, if_neg hv]
    cases ht : t.get? v with
    | none => rfl
    | some r =>
      simp only [Option.bind_some, h.leave?_eq]
      cases hd : r.path.dropWhile fun w => decide (w ≠ g.destination ∧ w.router? = v.router?) with
      | nil => rfl
      | cons w rest =>
        simp only [List.head?_cons, Option.map_some, h.destination_eq, ih]
        simp [h.mem_vertices, PathGraph.contains]

/-- **A packet takes the same walk.** -/
theorem reprocess_eq (h : l.Lists g) (s : Simulation) : l.reprocess s = g.reprocess s := by
  rw [Listing.reprocess, PathGraph.reprocess, h.walkFrom_eq, h.length_vertices, h.source_eq]

end Lists

end Listing

end NetReach
