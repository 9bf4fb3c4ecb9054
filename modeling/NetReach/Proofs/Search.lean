import Mathlib.Logic.Relation
import NetReach.PathGraph.Search
import NetReach.Proofs.Walk

/-! # The search finds a path exactly if there is one

A search that finds something has found a path (`PathGraph.isPath_of_search`). One that finds
nothing is done with all the vertices that it entered: none is the target, and each successor was
entered as well. So it finds a path exactly if successors lead to the target
(`PathGraph.isSome_search`). -/

namespace NetReach.PathGraph

variable {g : PathGraph} {f : FailureSet} {a b v x target : Vertex}
  {p fresh left left' : List Vertex}

/-- The vertex is not the target, and none of its successors is left to be entered. -/
def Done (g : PathGraph) (f : FailureSet) (target : Vertex) (left : List Vertex) (v : Vertex) :
    Prop :=
  v ≠ target ∧ ∀ w ∈ g.successors f v, w ∉ left

theorem Done.mono (h : g.Done f target left v) (hl : ∀ w ∈ left', w ∈ left) :
    g.Done f target left' v :=
  ⟨h.1, fun w hw hm => h.2 w hw (hl w hm)⟩

/-- The search left over some of the fresh vertices, and is done with the others. -/
structure Exhausted (g : PathGraph) (f : FailureSet) (target : Vertex) (fresh left : List Vertex) :
    Prop where
  sublist : left.Sublist fresh
  done : ∀ x ∈ fresh, x ∉ left → g.Done f target left x

theorem Exhausted.refl (g : PathGraph) (f : FailureSet) (target : Vertex) (fresh : List Vertex) :
    g.Exhausted f target fresh fresh :=
  ⟨.refl fresh, fun _ hx hn => absurd hx hn⟩

/-- What a search from `v` over fresh vertices is to say. -/
def Answers (g : PathGraph) (f : FailureSet) (target v : Vertex) (fresh : List Vertex) :
    SearchResult → Prop
  | .found p => g.IsPath f v target p ∧ ∀ x ∈ p, x = v ∨ x ∈ fresh
  | .exhausted left => g.Exhausted f target fresh left ∧ g.Done f target left v

/-- What the searches from the vertices `ws` are to say, if they are fresh. -/
def AnswersEach (g : PathGraph) (f : FailureSet) (target : Vertex) (ws fresh : List Vertex) :
    SearchResult → Prop
  | .found p => ∃ w ∈ ws, g.IsPath f w target p ∧ ∀ x ∈ p, x ∈ fresh
  | .exhausted left => g.Exhausted f target fresh left ∧ ∀ w ∈ ws, w ∉ left

/-- Going on after the fresh vertex `v`, with what the search from there left over. -/
theorem Exhausted.trans (h : g.Exhausted f target (fresh.erase v) left)
    (hv : g.Done f target left v) (h' : g.Exhausted f target left left') :
    g.Exhausted f target fresh left' where
  sublist := (h'.sublist.trans h.sublist).trans List.erase_sublist
  done x hx hn := by
    by_cases hl : x ∈ left
    · exact h'.done x hl hn
    · have hmono : ∀ w ∈ left', w ∈ left := fun w hw => h'.sublist.subset hw
      by_cases hxv : x = v
      · exact hxv ▸ hv.mono hmono
      · exact (h.done x ((List.mem_erase_of_ne hxv).mpr hx) hl).mono hmono

theorem answersEach_enterEach {enter : Vertex → List Vertex → SearchResult} {n : Nat}
    (henter : ∀ w fresh, fresh.Nodup → w ∉ fresh → fresh.length < n →
      g.Answers f target w fresh (enter w fresh)) (ws : List Vertex) :
    ∀ {fresh}, fresh.Nodup → fresh.length ≤ n →
      g.AnswersEach f target ws fresh (enterEach enter ws fresh) := by
  induction ws with
  | nil =>
    intro fresh _ _
    exact ⟨.refl .., nofun⟩
  | cons w ws ih =>
    intro fresh hnd hlen
    unfold enterEach
    by_cases hw : w ∈ fresh
    · rw [if_pos hw]
      have hpos : 0 < fresh.length := List.length_pos_of_mem hw
      have hlt : (fresh.erase w).length < n := by
        rw [List.length_erase_of_mem hw]
        omega
      have hans := henter w (fresh.erase w) (hnd.erase w) hnd.not_mem_erase hlt
      cases hres : enter w (fresh.erase w) with
      | found p =>
        rw [hres] at hans
        refine ⟨w, List.mem_cons_self, hans.1, fun x hx => ?_⟩
        rcases hans.2 x hx with rfl | hx
        · exact hw
        · exact List.mem_of_mem_erase hx
      | exhausted left =>
        rw [hres] at hans
        obtain ⟨hex, hdone⟩ := hans
        have hsub : left.Sublist fresh := hex.sublist.trans List.erase_sublist
        have hle : left.length ≤ n := by
          have := hex.sublist.length_le
          omega
        have hrest := ih (hsub.nodup hnd) hle
        -- what is left has lost the vertex for good, so the later ones cannot put it back
        have hwl : w ∉ left := fun hm => hnd.not_mem_erase (hex.sublist.subset hm)
        simp only
        cases hres' : enterEach enter ws left with
        | found p =>
          rw [hres'] at hrest
          obtain ⟨x, hx, hp, hall⟩ := hrest
          exact ⟨x, List.mem_cons_of_mem _ hx, hp, fun y hy => hsub.subset (hall y hy)⟩
        | exhausted left' =>
          rw [hres'] at hrest
          refine ⟨hex.trans hdone hrest.1, fun x hx => ?_⟩
          rcases List.mem_cons.mp hx with rfl | hx
          · exact fun hm => hwl (hrest.1.sublist.subset hm)
          · exact hrest.2 x hx
    · rw [if_neg hw]
      have hrest := ih hnd hlen
      cases hres : enterEach enter ws fresh with
      | found p =>
        rw [hres] at hrest
        obtain ⟨x, hx, hp⟩ := hrest
        exact ⟨x, List.mem_cons_of_mem _ hx, hp⟩
      | exhausted left =>
        rw [hres] at hrest
        refine ⟨hrest.1, fun x hx => ?_⟩
        rcases List.mem_cons.mp hx with rfl | hx
        · exact fun hm => hw (hrest.1.sublist.subset hm)
        · exact hrest.2 x hx

/-- **A search that may go deep enough says what it is to say.** -/
theorem answers_searchFrom (n : Nat) : ∀ (v : Vertex) (fresh : List Vertex), fresh.Nodup →
    v ∉ fresh → fresh.length < n →
    g.Answers f target v fresh (searchFrom (g.successors f) target n v fresh) := by
  induction n with
  | zero => intro v fresh _ _ hlen; omega
  | succ n ih =>
    intro v fresh hnd hv hlen
    unfold searchFrom
    by_cases ht : v = target
    · rw [if_pos ht]
      subst ht
      refine ⟨.singleton g f v, fun x hx => Or.inl (List.mem_singleton.mp hx)⟩
    · rw [if_neg ht]
      have hans := answersEach_enterEach ih (g.successors f v) hnd (by omega)
      cases hres : enterEach (searchFrom (g.successors f) target n) (g.successors f v) fresh with
      | found p =>
        rw [hres] at hans
        obtain ⟨w, hw, hp, hall⟩ := hans
        refine ⟨hp.cons hw fun hm => hv (hall v hm), fun x hx => ?_⟩
        rcases List.mem_cons.mp hx with rfl | hx
        · exact Or.inl rfl
        · exact Or.inr (hall x hx)
      | exhausted left =>
        rw [hres] at hans
        exact ⟨hans.1, ht, hans.2⟩

/-! ### Searching a graph -/

theorem nodup_vertices (g : PathGraph) : g.vertices.toList.Nodup :=
  g.vertices.ascending.imp fun {x y} h he => by
    rw [he, Std.compare_self] at h
    cases h

theorem answers_search (ha : a ∈ g.vertices) : g.Answers f b a (g.vertices.toList.erase a)
    (searchFrom (g.successors f) b g.numVertices a (g.vertices.toList.erase a)) := by
  refine answers_searchFrom _ a _ (g.nodup_vertices.erase a) g.nodup_vertices.not_mem_erase ?_
  have hpos : 0 < g.vertices.toList.length := List.length_pos_of_mem ha
  rw [List.length_erase_of_mem ha, numVertices, OrdSet.size]
  omega

/-- **What a search finds is a path.** -/
theorem isPath_of_search (ha : a ∈ g.vertices) (h : g.search f a b = some p) :
    g.IsPath f a b p := by
  have hans := answers_search (f := f) (b := b) ha
  unfold search at h
  cases hres : searchFrom (g.successors f) b g.numVertices a (g.vertices.toList.erase a) with
  | found q =>
    rw [hres] at h hans
    cases h
    exact hans.1
  | exhausted left =>
    rw [hres] at h
    cases h

/-- Successors lead from one vertex to the other. -/
abbrev Reaches (g : PathGraph) (f : FailureSet) : Vertex → Vertex → Prop :=
  Relation.ReflTransGen fun u v => v ∈ g.successors f u

theorem IsPath.reaches (h : g.IsPath f a b p) : g.Reaches f a b := by
  obtain ⟨hhead, hlast, hchain, -⟩ := h
  induction p generalizing a with
  | nil => cases hhead
  | cons u p ih =>
    cases hhead
    cases p with
    | nil =>
      cases hlast
      exact .refl
    | cons v p =>
      obtain ⟨huv, hchain⟩ := List.isChain_cons_cons.mp hchain
      rw [List.getLast?_cons_cons] at hlast
      exact .head huv (ih rfl hlast hchain)

/-- **A search finds a path exactly if successors lead to the target.** -/
theorem isSome_search (ha : a ∈ g.vertices) : (g.search f a b).isSome ↔ g.Reaches f a b := by
  constructor
  · intro h
    obtain ⟨p, hp⟩ := Option.isSome_iff_exists.mp h
    exact (isPath_of_search ha hp).reaches
  · intro h
    have hans := answers_search (f := f) (b := b) ha
    unfold search
    cases hres : searchFrom (g.successors f) b g.numVertices a (g.vertices.toList.erase a) with
    | found q => rfl
    | exhausted left =>
      -- everything that successors reach from `a` was entered, and so is not the target
      rw [hres] at hans
      obtain ⟨hex, hdone⟩ := hans
      have hall : ∀ {x}, g.Reaches f a x → x ∈ g.vertices ∧ g.Done f b left x := by
        intro x hx
        induction hx with
        | refl => exact ⟨ha, hdone⟩
        | tail _ hs ih =>
          obtain ⟨hy, hydone⟩ := ih
          have hx := (mem_vertices_of_mem_successors hs).2.1
          refine ⟨hx, ?_⟩
          rename_i z _
          by_cases hza : z = a
          · exact hza ▸ hdone
          · exact hex.done z ((List.mem_erase_of_ne hza).mpr hx) (hydone.2 z hs)
      exact absurd rfl (hall h).2.1

theorem isPath_of_path? (h : g.path? f = some p) : g.IsPath f g.source g.destination p :=
  isPath_of_search g.source_mem h

theorem isSome_path? : (g.path? f).isSome ↔ g.Reaches f g.source g.destination :=
  isSome_search g.source_mem

end NetReach.PathGraph
