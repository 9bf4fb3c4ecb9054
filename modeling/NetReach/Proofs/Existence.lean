import NetReach.Proofs.PolicyChain
import NetReach.Proofs.Search
import NetReach.Proofs.Stability

/-! # Routes and existence

In a stable table every vertex on a route holds a route itself (`Stable.exists_route_of_mem`). So a
vertex whose candidate is refused because it lies on the path already has a route, and only a policy
can leave a vertex without one that the search finds a path for. -/

namespace NetReach.PathGraph

variable {g : PathGraph} {f : FailureSet} {t : RoutingTable} {u v : Vertex} {r : Route}

/-- No policy of the graph drops a route. -/
def Unblocked (g : PathGraph) : Prop :=
  ∀ x ∈ g.edges.entries, ∀ p ∈ x.2.policies, p.blockTags = ∅

instance (g : PathGraph) : Decidable g.Unblocked := by
  unfold Unblocked
  infer_instance

theorem Unblocked.exists_applyAll (h : g.Unblocked) {e : Edge} (he : g.edge? u v = some e)
    (s : Signature) : ∃ σ, applyAll e.policies s = some σ :=
  exists_applyAll_eq_some (h _ (mem_entries_iff_edge?.mpr he))

/-- **Whoever is on a route holds a route.** -/
theorem Stable.exists_route_of_mem (h : g.Stable f t) (hr : t.get? u = some r) (hv : v ∈ r.path) :
    ∃ q, t.get? v = some q := by
  generalize hn : r.path.length = n
  induction n generalizing u r with
  | zero =>
    rw [List.length_eq_zero_iff.mp hn] at hv
    cases hv
  | succ n ih =>
    obtain ⟨p, hp⟩ := h.head hr
    rw [hp] at hv hn
    rcases List.mem_cons.mp hv with rfl | hv
    · exact ⟨r, hr⟩
    · -- the rest of the path is what the second vertex holds
      cases p with
      | nil => cases hv
      | cons w p =>
        obtain ⟨q, hq, hqp⟩ := h.tail hr hp
        refine ih hq (hqp ▸ hv) ?_
        rw [hqp]
        simpa using hn

theorem Stable.reaches (h : g.Stable f t) (hr : t.get? u = some r) :
    g.Reaches f u g.destination :=
  (h.isPath hr).reaches

/-- **Without policies that drop routes, a vertex has a route if successors lead to the
destination.** -/
theorem Stable.exists_route_of_reaches (h : g.Stable f t) (hg : g.Unblocked)
    (hu : g.Reaches f u g.destination) : ∃ r, t.get? u = some r := by
  induction hu using Relation.ReflTransGen.head_induction_on with
  | refl => exact ⟨_, h.destination⟩
  | @head u v huv _ ih =>
    obtain ⟨s, hs⟩ := ih
    by_cases hmem : u ∈ s.path
    · exact h.exists_route_of_mem hs hmem
    · by_cases hd : u = g.destination
      · exact ⟨_, hd ▸ h.destination⟩
      obtain ⟨⟨e, he⟩, hc⟩ := mem_successors.mp huv
      obtain ⟨σ, hσ⟩ := hg.exists_applyAll he s.signature
      have hcand : g.IsCandidate f t u ⟨u :: s.path, σ⟩ :=
        ⟨v, e, s, σ, he, hc, hs, hmem, hσ, rfl⟩
      by_contra hnone
      have hu : t.get? u = none := by
        rw [Option.eq_none_iff_forall_ne_some]
        intro r hr
        exact hnone ⟨r, hr⟩
      exact (h.get?_eq_none_iff hd).mp hu _ hcand

theorem pathBetween?_eq_some (hu : u ∈ g.vertices) (hv : v ∈ g.vertices) :
    (∃ p, g.pathBetween? u v f = .ok (some p)) ↔ g.Reaches f u v := by
  have hcu : g.contains u = true := decide_eq_true hu
  have hcv : g.contains v = true := decide_eq_true hv
  rw [← isSome_search hu, Option.isSome_iff_exists]
  simp only [pathBetween?, hcu, hcv, Bool.not_true, Bool.false_eq_true, if_false, Except.ok.injEq]

/-- **Routes and existence agree unless a policy drops a route**: for a vertex with a route the
search finds a path to the destination; and if no policy drops routes, then only for those. -/
theorem route_iff_pathBetween? {s : Simulation} (h : g.simulate f = .ok s) (hu : u ∈ g.vertices) :
    ((s.routes.get? u).isSome → ∃ p, g.pathBetween? u g.destination f = .ok (some p)) ∧
      (g.Unblocked →
        ((s.routes.get? u).isSome ↔ ∃ p, g.pathBetween? u g.destination f = .ok (some p))) := by
  have hs := simulate_stable h
  have hd : g.destination ∈ g.vertices := g.destination_mem
  rw [pathBetween?_eq_some hu hd, Option.isSome_iff_exists]
  have hforth : (∃ r, s.routes.get? u = some r) → g.Reaches f u g.destination := by
    rintro ⟨r, hr⟩
    exact hs.reaches hr
  refine ⟨hforth, fun hg => ⟨hforth, fun hreach => ?_⟩⟩
  exact hs.exists_route_of_reaches hg hreach

/-- The link between the first two processes of the roundabout has failed. The third process has a
route, as the search finds a path for it. -/
theorem route_iff_pathBetween?_roundabout :
    let f : FailureSet := (∅ : FailureSet).insert 0 1
    let c : Vertex := .main (.bgpIn 2)
    ∃ s, roundabout.simulate f = .ok s ∧ c ∈ roundabout.vertices ∧ roundabout.Unblocked ∧
      (∃ p, roundabout.pathBetween? c roundabout.destination f = .ok (some p)) ∧
      (s.routes.get? c).isSome := by
  intro f c
  have hrun : (roundabout.simulate f).toOption.isSome := by decide +kernel
  have hpath : (match roundabout.pathBetween? c roundabout.destination f with
      | .ok o => o.isSome
      | .error _ => false) = true := by decide +kernel
  have hc : c ∈ roundabout.vertices := by decide +kernel
  have hg : roundabout.Unblocked := by decide +kernel
  have hfound : ∃ p, roundabout.pathBetween? c roundabout.destination f = .ok (some p) := by
    cases ho : roundabout.pathBetween? c roundabout.destination f with
    | error e => rw [ho] at hpath; cases hpath
    | ok o =>
      rw [ho] at hpath
      obtain ⟨p, rfl⟩ := Option.isSome_iff_exists.mp hpath
      exact ⟨p, rfl⟩
  cases hs : roundabout.simulate f with
  | error e => rw [hs] at hrun; cases hrun
  | ok s => exact ⟨s, rfl, hc, hg, hfound, ((route_iff_pathBetween? hs hc).2 hg).mpr hfound⟩

end NetReach.PathGraph
