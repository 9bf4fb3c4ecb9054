import NetReach.Proofs.Stability

/-! # The routes that a graph offers

A route is *genuine* (`PathGraph.IsRoute`) if it comes from the route of the destination by going
back over edges, as the policies of these edges let it pass. Whatever a turn enters into a table of
genuine routes is genuine (`Genuine.update`), so no table ever holds another route. -/

namespace NetReach.PathGraph

variable {g : PathGraph} {f : FailureSet} {t : RoutingTable} {u v x : Vertex} {r s : Route}

/-- The routes from a vertex to the destination, with the signatures that they gather on their way
back. -/
inductive IsRoute (g : PathGraph) (f : FailureSet) : Vertex → Route → Prop where
  | origin : IsRoute g f g.destination ⟨[g.destination], .origin⟩
  | extend {u v : Vertex} {e : Edge} {s : Route} {σ : Signature} : IsRoute g f v s →
    g.edge? u v = some e → f.cuts u v = false → u ∉ s.path →
    applyAll e.policies s.signature = some σ → IsRoute g f u ⟨u :: s.path, σ⟩

namespace IsRoute

theorem isPath (h : g.IsRoute f u r) : g.IsPath f u g.destination r.path := by
  induction h with
  | origin => exact .singleton g f g.destination
  | extend _ he hc hu _ ih => exact ih.cons (mem_successors.mpr ⟨⟨_, he⟩, hc⟩) hu

theorem head (h : g.IsRoute f u r) : ∃ p, r.path = u :: p := by
  cases h with
  | origin => exact ⟨[], rfl⟩
  | extend => exact ⟨_, rfl⟩

/-- A route that goes on with a route of `v` continues at `v`. -/
theorem eq_of_continuesAt {σ : Signature} (hs : g.IsRoute f v s)
    (hx : Route.continuesAt x ⟨u :: s.path, σ⟩ = true) : v = x := by
  obtain ⟨p, hp⟩ := hs.head
  simpa [Route.continuesAt, hp] using hx

/-- **The path of a route tells its signature.** -/
theorem eq_of_path_eq (hr : g.IsRoute f u r) : ∀ {w}, g.IsRoute f w s → r.path = s.path →
    r = s := by
  induction hr generalizing s with
  | origin =>
    intro w hs hp
    cases hs with
    | origin => rfl
    | extend hs =>
      obtain ⟨q, hq⟩ := hs.head
      rw [hq] at hp
      cases hp
  | @extend u v e r σ hr he hc hu hσ ih =>
    intro w hs hp
    cases hs with
    | origin =>
      obtain ⟨q, hq⟩ := hr.head
      rw [hq] at hp
      cases hp
    | @extend _ v' e' s σ' hs he' _ _ hσ' =>
      obtain ⟨hw, hrs⟩ := List.cons.inj hp
      obtain rfl := ih hs hrs
      -- the routes agree after the first vertex, so they start with the same edge
      have hv : v = v' := by
        obtain ⟨q, hq⟩ := hr.head
        obtain ⟨q', hq'⟩ := hs.head
        rw [hq] at hq'
        exact (List.cons.inj hq').1
      subst hw hv
      rw [he] at he'
      cases he'
      rw [hσ] at hσ'
      cases hσ'
      rfl

end IsRoute

/-- Every vertex that holds a route holds a genuine one. -/
def Genuine (g : PathGraph) (f : FailureSet) (t : RoutingTable) : Prop :=
  ∀ u r, t.get? u = some r → g.IsRoute f u r

theorem genuine_initialRoutes : g.Genuine f g.initialRoutes := by
  intro u r hr
  rw [initialRoutes, OrdMap.get?_put] at hr
  split at hr
  · next hu =>
    cases hr
    subst hu
    exact .origin
  · cases hr

namespace Genuine

/-- What is open to a vertex is genuine. -/
theorem isRoute (h : g.Genuine f t) (hr : g.IsCandidate f t u r) : g.IsRoute f u r := by
  obtain ⟨v, e, s, σ, he, hc, hs, hu, hσ, rfl⟩ := hr
  exact .extend (h v s hs) he hc hu hσ

theorem isRoute_of_choice (h : g.Genuine f t) (hr : t.choice u (g.usable f u) = some r) :
    g.IsRoute f u r :=
  h.isRoute (mem_candidates.mp (Route.best?_eq_some hr).1)

/-- **A turn enters nothing but genuine routes.** -/
theorem update (h : g.Genuine f t) (u : Vertex) : g.Genuine f (t.update u (g.usable f u)).1 := by
  intro x r hr
  by_cases heq : t.get? u = t.choice u (g.usable f u)
  · rw [RoutingTable.update_of_eq heq] at hr
    exact h x r hr
  · obtain ⟨-, hr⟩ := (RoutingTable.get?_update_eq_some heq).mp hr
    split at hr
    · next hx => exact hx ▸ h.isRoute_of_choice hr
    · exact h x r hr

theorem stations (h : g.Genuine f t) {x : Vertex × List (Vertex × Edge)} (hx : x ∈ g.stations f) :
    g.Genuine f (t.update x.1 x.2).1 := by
  obtain ⟨-, -, hout⟩ := mem_stations.mp hx
  rw [hout]
  exact h.update x.1

end Genuine

end NetReach.PathGraph
