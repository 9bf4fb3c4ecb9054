import NetReach.Proofs.Run

/-! # Next hops

A vertex may hold its route for some turns after a vertex further down has changed its own: only the
routes that continue at the changed vertex are withdrawn, in the middle of a round. Yet this is
enough to keep next hops current (`PathGraph.UpToDate`): whenever a route continues at a vertex that
holds a route, it is made of that one. What is out of date lies behind a vertex without a route.

Every turn keeps a table of genuine routes up to date (`UpToDate.update`), so all tables of a run
are (`upToDate_of_mem_run`), and the route of a vertex tells which edge and which route it was made
of (`next_of_mem_run`). -/

namespace NetReach.PathGraph

variable {g : PathGraph} {f : FailureSet} {t : RoutingTable} {u w x : Vertex} {r s : Route}

/-- The route `r` of `w` is made of the route `s` of `x`, over the edge between them. -/
def IsMadeOf (g : PathGraph) (w : Vertex) (r : Route) (x : Vertex) (s : Route) : Prop :=
  ∃ e, g.edge? w x = some e ∧ r.path = w :: s.path ∧
    applyAll e.policies s.signature = some r.signature

/-- Whenever a route continues at a vertex that holds a route, it is made of that one. -/
def UpToDate (g : PathGraph) (t : RoutingTable) : Prop :=
  ∀ w r x s, t.get? w = some r → r.continuesAt x = true → t.get? x = some s → g.IsMadeOf w r x s

theorem upToDate_initialRoutes : g.UpToDate g.initialRoutes := by
  intro w r x s hr hx _
  rw [initialRoutes, OrdMap.get?_put] at hr
  split at hr
  · cases hr
    cases hx
  · cases hr

/-- A candidate is made of what its second vertex holds. -/
theorem Genuine.isMadeOf (ht : g.Genuine f t) (hr : g.IsCandidate f t w r)
    (hx : r.continuesAt x = true) (hs : t.get? x = some s) : g.IsMadeOf w r x s := by
  obtain ⟨v, e, s', σ, he, -, hs', -, hσ, rfl⟩ := hr
  obtain rfl := (ht v s' hs').eq_of_continuesAt hx
  rw [hs] at hs'
  cases hs'
  exact ⟨e, he, rfl, hσ⟩

/-- **A turn keeps a table up to date.** -/
theorem UpToDate.update (h : g.UpToDate t) (ht : g.Genuine f t) (u : Vertex) :
    g.UpToDate (t.update u (g.usable f u)).1 := by
  by_cases heq : t.get? u = t.choice u (g.usable f u)
  · rw [RoutingTable.update_of_eq heq]
    exact h
  · intro w r x s hr hx hs
    obtain ⟨hru, hr⟩ := (RoutingTable.get?_update_eq_some heq).mp hr
    obtain ⟨-, hsx⟩ := (RoutingTable.get?_update_eq_some heq).mp hs
    -- what continued at `u` is gone, so the next hop is another vertex and still holds its route
    have hxu : x ≠ u := by
      rintro rfl
      rw [hx] at hru
      cases hru
    rw [if_neg hxu] at hsx
    split at hr
    · next hw =>
      subst hw
      exact ht.isMadeOf (mem_candidates.mp (Route.best?_eq_some hr).1) hx hsx
    · exact h w r x s hr hx hsx

theorem upToDate_of_mem_run (ht : t ∈ g.run f) : g.UpToDate t := by
  have hrun : g.Genuine f t ∧ g.UpToDate t :=
    run_invariant (P := fun t => g.Genuine f t ∧ g.UpToDate t)
      ⟨genuine_initialRoutes, upToDate_initialRoutes⟩
      (fun _ u _ _ h => ⟨h.1.update u, h.2.update h.1 u⟩) t ht
  exact hrun.2

/-- **Next hops are current**: at every point of a run, whether it ends or not, the second vertex of
a route either holds no route, or holds the rest of this one, and the edge to it turns the signature
of the rest into that of the whole. -/
theorem next_of_mem_run {p : List Vertex} (ht : t ∈ g.run f) (hr : t.get? w = some r)
    (hp : r.path = w :: x :: p) :
    t.get? x = none ∨ ∃ s e, t.get? x = some s ∧ s.path = x :: p ∧ g.edge? w x = some e ∧
      applyAll e.policies s.signature = some r.signature := by
  cases hs : t.get? x with
  | none => exact Or.inl rfl
  | some s =>
    have hx : r.continuesAt x = true := Route.continuesAt_iff.mpr ⟨w, p, hp⟩
    obtain ⟨e, he, hpath, hσ⟩ := upToDate_of_mem_run ht w r x s hr hx hs
    rw [hp] at hpath
    exact Or.inr ⟨s, e, rfl, (List.cons.inj hpath).2.symm, he, hσ⟩

/-- The carousel, with the source in front of the first process. -/
def feeder : PathGraph :=
  carousel.addEdge ⟨carousel.source, .main (.bgpIn 0)⟩ { kind := .origin }

/-- The feeder never comes to rest either. The source gets its route from the first process, and
keeps it for some turns after the second process has changed to the way over the third one and the
first has lost its route over the second. -/
theorem next_of_mem_run_feeder :
    let a : Vertex := .main (.bgpIn 0)
    let b : Vertex := .main (.bgpIn 1)
    let c : Vertex := .main (.bgpIn 2)
    let d := feeder.destination
    let σ : Signature := ⟨200, 0, 0, .ofList ["handed"]⟩
    let r : Route := ⟨[feeder.source, a, b, d], σ⟩
    feeder.simulate ∅ = .error (.divergence 56) ∧
      (∃ t ∈ feeder.run ∅, t.get? feeder.source = some r ∧ t.get? a = none ∧
        t.get? b = some ⟨[b, c, d], σ⟩) ∧
      ∃ t ∈ feeder.run ∅, t.get? feeder.source = some r ∧
        ∃ s e, t.get? a = some s ∧ s.path = [a, b, d] ∧ feeder.edge? feeder.source a = some e ∧
          applyAll e.policies s.signature = some σ := by
  intro a b c d σ r
  have hdiverges : feeder.simulate ∅ = .error (.divergence 56) := by decide +kernel
  have hgap : ∃ t ∈ feeder.run ∅, t.get? feeder.source = some r ∧ t.get? a = none ∧
      t.get? b = some ⟨[b, c, d], σ⟩ := by decide +kernel
  have hheld : ∃ t ∈ feeder.run ∅, t.get? feeder.source = some r ∧ t.get? a ≠ none := by
    decide +kernel
  obtain ⟨t, ht, hr, ha⟩ := hheld
  exact ⟨hdiverges, hgap, t, ht, hr, (next_of_mem_run ht hr rfl).resolve_left ha⟩

end NetReach.PathGraph
