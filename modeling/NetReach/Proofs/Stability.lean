import NetReach.Proofs.Preference
import NetReach.Proofs.Walk

/-! # Rounds that end are stable

A round updates one vertex after the other in place, and withdraws routes on the way. If a round
changes nothing at all, then every vertex has found its own choice among the routes that the others
still hold after the round: the table is *stable* (`PathGraph.Stable`), for all vertices at once.

* `PathGraph.rounds_eq_ok`: what every turn preserves holds after the last round, and the last round
  leaves its table alone.
* `PathGraph.simulate_stable`: the simulation ends with a stable table. -/

namespace NetReach

/-! ### One turn -/

theorem Route.continuesAt_iff {r : Route} {v : Vertex} :
    r.continuesAt v = true ↔ ∃ u p, r.path = u :: v :: p := by
  unfold continuesAt
  split
  · next u w p hp =>
    rw [decide_eq_true_eq]
    constructor
    · rintro rfl
      exact ⟨u, p, hp⟩
    · rintro ⟨u', p', hp'⟩
      rw [hp] at hp'
      cases hp'
      rfl
  · next h =>
    constructor
    · nofun
    · rintro ⟨u, p, hp⟩
      exact absurd hp (h u v p)

namespace RoutingTable

variable {t : RoutingTable} {u x : Vertex} {r : Route} {out : List (Vertex × Edge)}

theorem get?_replace {r : Option Route} :
    (t.replace u r).get? x =
      (if x = u then r else t.get? x).filter fun r => !r.continuesAt u := by
  unfold replace
  rw [OrdMap.get?_filter]
  cases r <;> simp

theorem update_of_eq (h : t.get? u = t.choice u out) : t.update u out = (t, false) := by
  simp [update, h]

theorem update_of_ne (h : t.get? u ≠ t.choice u out) :
    t.update u out = (t.replace u (t.choice u out), true) := by
  simp [update, h]

/-- **After a turn that changed the route of `u` no route continues at `u`**; the routes of the
others are those from before. -/
theorem get?_update_eq_some (h : t.get? u ≠ t.choice u out) :
    (t.update u out).1.get? x = some r ↔
      r.continuesAt u = false ∧ if x = u then t.choice u out = some r else t.get? x = some r := by
  rw [update_of_ne h, get?_replace, Option.filter_eq_some_iff, Bool.not_eq_true', and_comm]
  split <;> rfl

/-- The turn of `u` leaves the others their routes, unless they continue at `u`. -/
theorem get?_update_of_ne (t : RoutingTable) (out : List (Vertex × Edge)) (hx : x ≠ u) :
    (t.update u out).1.get? x = t.get? x ∨
      (t.update u out).1.get? x = (t.get? x).filter fun r => !r.continuesAt u := by
  by_cases h : t.get? u = t.choice u out
  · exact Or.inl (by rw [update_of_eq h])
  · refine Or.inr ?_
    rw [update_of_ne h, get?_replace, if_neg hx]

end RoutingTable

namespace PathGraph

/-! ### Rounds -/

section Rounds

variable {stations : List (Vertex × List (Vertex × Edge))} {t : RoutingTable}
  {P : RoutingTable → Prop}

/-- One turn of a round: the table and whether some route has changed so far. -/
def turn (s : RoutingTable × Bool) (u : Vertex × List (Vertex × Edge)) : RoutingTable × Bool :=
  ((s.1.update u.1 u.2).1, s.2 || (s.1.update u.1 u.2).2)

theorem foldl_turn_invariant
    (hP : ∀ t, ∀ u ∈ stations, P t → P (t.update u.1 u.2).1) :
    ∀ s : RoutingTable × Bool, P s.1 → P (stations.foldl turn s).1 := by
  induction stations with
  | nil => exact fun s hs => hs
  | cons u l ih =>
    intro s hs
    refine ih (fun t v hv => hP t v (List.mem_cons_of_mem _ hv)) (turn s u) ?_
    exact hP s.1 u List.mem_cons_self hs

/-- Once a route has changed, the flag stays. -/
theorem foldl_turn_true : ∀ (l : List (Vertex × List (Vertex × Edge))) (t : RoutingTable),
    (l.foldl turn (t, true)).2 = true
  | [], _ => rfl
  | _ :: l, _ => foldl_turn_true l _

theorem foldl_turn_unchanged (h : (stations.foldl turn (t, false)).2 = false) :
    (stations.foldl turn (t, false)).1 = t ∧ ∀ u ∈ stations, t.get? u.1 = t.choice u.1 u.2 := by
  induction stations with
  | nil => exact ⟨rfl, nofun⟩
  | cons u l ih =>
    rw [List.foldl_cons] at h ⊢
    by_cases hu : t.get? u.1 = t.choice u.1 u.2
    · have hturn : turn (t, false) u = (t, false) := by simp [turn, RoutingTable.update_of_eq hu]
      rw [hturn] at h ⊢
      obtain ⟨ht, hall⟩ := ih h
      refine ⟨ht, fun v hv => ?_⟩
      rcases List.mem_cons.mp hv with rfl | hv
      · exact hu
      · exact hall v hv
    · have hturn : turn (t, false) u = (t.replace u.1 (t.choice u.1 u.2), true) := by
        simp [turn, RoutingTable.update_of_ne hu]
      rw [hturn, foldl_turn_true] at h
      cases h

/-- **A round without change found every station at its own choice.** -/
theorem round_unchanged (h : (round stations t).2 = false) :
    (round stations t).1 = t ∧ ∀ u ∈ stations, t.get? u.1 = t.choice u.1 u.2 :=
  foldl_turn_unchanged h

/-- **What the turns preserve holds after the last round, which leaves its table alone.** -/
theorem rounds_eq_ok (hP : ∀ t, ∀ u ∈ stations, P t → P (t.update u.1 u.2).1) {s : Simulation}
    {left : Nat} : ∀ {done : Nat} {t : RoutingTable}, P t → rounds stations left done t = .ok s →
      P s.routes ∧ ∀ u ∈ stations, s.routes.get? u.1 = s.routes.choice u.1 u.2 := by
  induction left with
  | zero => intro done t _ h; cases h
  | succ left ih =>
    intro done t ht h
    have hround : P (round stations t).1 := foldl_turn_invariant hP (t, false) ht
    simp only [rounds] at h
    split at h
    · exact ih hround h
    · next hc =>
      cases h
      obtain ⟨heq, hall⟩ := round_unchanged (by simpa using hc)
      rw [heq]
      exact ⟨ht, hall⟩

end Rounds

/-! ### Stable tables -/

variable {g : PathGraph} {f : FailureSet} {t : RoutingTable} {u v : Vertex} {r : Route}

/-- The route `r` is open to `u`: over an edge that no failure cuts it goes on with the route of the
head, which avoids `u`, and the policies of the edge let it pass. -/
def IsCandidate (g : PathGraph) (f : FailureSet) (t : RoutingTable) (u : Vertex) (r : Route) :
    Prop :=
  ∃ v e s σ, g.edge? u v = some e ∧ f.cuts u v = false ∧ t.get? v = some s ∧ u ∉ s.path ∧
    applyAll e.policies s.signature = some σ ∧ r = ⟨u :: s.path, σ⟩

theorem mem_candidates : r ∈ t.candidates u (g.usable f u) ↔ g.IsCandidate f t u r := by
  simp only [RoutingTable.candidates, List.mem_filterMap, Prod.exists, mem_usable, IsCandidate,
    Option.bind_eq_some_iff, Route.extend?, Option.ite_none_left_eq_some, Option.map_eq_some_iff]
  constructor
  · rintro ⟨v, e, ⟨he, hc⟩, s, hs, hu, σ, hσ, rfl⟩
    exact ⟨v, e, s, σ, he, hc, hs, hu, hσ, rfl⟩
  · rintro ⟨v, e, s, σ, he, hc, hs, hu, hσ, rfl⟩
    exact ⟨v, e, ⟨he, hc⟩, s, hs, hu, σ, hσ, rfl⟩

/-- The destination holds the route of itself, and every other vertex its choice among the routes
that are open to it by the same table. -/
structure Stable (g : PathGraph) (f : FailureSet) (t : RoutingTable) : Prop where
  destination : t.get? g.destination = some ⟨[g.destination], .origin⟩
  vertex : ∀ u, u ≠ g.destination → t.get? u = t.choice u (g.usable f u)

theorem mem_stations {u : Vertex × List (Vertex × Edge)} :
    u ∈ g.stations f ↔ u.1 ∈ g.vertices ∧ u.1 ≠ g.destination ∧ u.2 = g.usable f u.1 := by
  obtain ⟨u, out⟩ := u
  simp only [stations, List.mem_map, List.mem_filter, OrdSet.mem_toList, decide_eq_true_eq,
    Prod.mk.injEq]
  constructor
  · rintro ⟨u, ⟨hu, hd⟩, rfl, rfl⟩
    exact ⟨hu, hd, rfl⟩
  · rintro ⟨hu, hd, rfl⟩
    exact ⟨u, ⟨hu, hd⟩, rfl, rfl⟩

theorem usable_of_not_mem (h : u ∉ g.vertices) : g.usable f u = [] := by
  refine List.eq_nil_iff_forall_not_mem.mpr fun x hx => ?_
  exact h (ends_of_edge? (mem_usable.mp hx).1).1

namespace Stable

variable {r' : Route}

/-- What another vertex than the destination holds is open to it. -/
theorem isCandidate (h : g.Stable f t) (hd : u ≠ g.destination) (hr : t.get? u = some r) :
    g.IsCandidate f t u r := by
  rw [h.vertex u hd] at hr
  exact mem_candidates.mp (Route.best?_eq_some hr).1

theorem head (h : g.Stable f t) (hr : t.get? u = some r) : ∃ p, r.path = u :: p := by
  by_cases hd : u = g.destination
  · subst hd
    rw [h.destination] at hr
    cases hr
    exact ⟨[], rfl⟩
  · obtain ⟨v, e, s, σ, -, -, -, -, -, rfl⟩ := h.isCandidate hd hr
    exact ⟨s.path, rfl⟩

/-- The path of a candidate tells the edge that it starts with, and so the signature. -/
theorem eq_of_path_eq (h : g.Stable f t) (hr : g.IsCandidate f t u r)
    (hr' : g.IsCandidate f t u r') (hp : r.path = r'.path) : r = r' := by
  obtain ⟨v, e, s, σ, he, -, hs, -, hσ, rfl⟩ := hr
  obtain ⟨v', e', s', σ', he', -, hs', -, hσ', rfl⟩ := hr'
  obtain ⟨p, hp₁⟩ := h.head hs
  obtain ⟨p', hp₂⟩ := h.head hs'
  have hss : s.path = s'.path := (List.cons.inj hp).2
  have hv : v = v' := by
    rw [hp₁, hp₂] at hss
    exact (List.cons.inj hss).1
  subst hv
  rw [hs] at hs'
  rw [he] at he'
  cases hs'
  cases he'
  rw [hσ] at hσ'
  cases hσ'
  rfl

theorem get?_eq_none_iff (h : g.Stable f t) (hd : u ≠ g.destination) :
    t.get? u = none ↔ ∀ r, ¬ g.IsCandidate f t u r := by
  rw [h.vertex u hd, RoutingTable.choice, Route.best?_eq_none, List.eq_nil_iff_forall_not_mem]
  simp only [mem_candidates]

/-- **A vertex holds the one candidate that is preferred to all others.** -/
theorem get?_eq_some_iff (h : g.Stable f t) (hd : u ≠ g.destination) :
    t.get? u = some r ↔ g.IsCandidate f t u r ∧
      ∀ r', g.IsCandidate f t u r' → r' ≠ r → Route.Preferred u.kind.rankDomain r r' := by
  -- the choice beats every other candidate, as no two of them share their path
  have hbest : ∀ q, t.get? u = some q → ∀ r', g.IsCandidate f t u r' → r' ≠ q →
      Route.Preferred u.kind.rankDomain q r' := by
    intro q hq r' hr' hne
    have hc := h.isCandidate hd hq
    rw [h.vertex u hd] at hq
    refine Route.preferred_of_path_ne (fun hp => hne (h.eq_of_path_eq hr' hc hp.symm)) ?_
    exact (Route.best?_eq_some hq).2 r' (mem_candidates.mpr hr')
  constructor
  · intro hr
    exact ⟨h.isCandidate hd hr, hbest r hr⟩
  · rintro ⟨hr, hall⟩
    cases hq : t.get? u with
    | none => exact absurd hr ((h.get?_eq_none_iff hd).mp hq r)
    | some q =>
      by_contra hne
      have hne : q ≠ r := fun he => hne (congrArg some he)
      exact (hall q (h.isCandidate hd hq) hne).asymm (hbest q hq r hr hne.symm)

/-- The next vertex of a route holds the rest of it. -/
theorem tail (h : g.Stable f t) {p : List Vertex} (hr : t.get? u = some r)
    (hp : r.path = u :: v :: p) : ∃ q, t.get? v = some q ∧ q.path = v :: p := by
  have hd : u ≠ g.destination := by
    rintro rfl
    rw [h.destination] at hr
    cases hr
    cases hp
  obtain ⟨w, e, s, σ, -, -, hs, -, -, rfl⟩ := h.isCandidate hd hr
  obtain ⟨p', hp'⟩ := h.head hs
  have hss : s.path = v :: p := (List.cons.inj hp).2
  have hw : w = v := by
    rw [hp'] at hss
    exact (List.cons.inj hss).1
  exact ⟨s, hw ▸ hs, hss⟩

/-- A route is a path to the destination. -/
theorem isPath (h : g.Stable f t) (hr : t.get? u = some r) : g.IsPath f u g.destination r.path := by
  generalize hn : r.path.length = n
  induction n generalizing u r with
  | zero =>
    obtain ⟨p, hp⟩ := h.head hr
    rw [hp] at hn
    cases hn
  | succ n ih =>
    by_cases hd : u = g.destination
    · subst hd
      rw [h.destination] at hr
      cases hr
      exact .singleton g f g.destination
    · obtain ⟨v, e, s, σ, he, hc, hs, hu, -, rfl⟩ := h.isCandidate hd hr
      exact (ih hs (by simpa using hn)).cons (mem_successors.mpr ⟨⟨e, he⟩, hc⟩) hu

end Stable

/-! ### The table after the last round -/

/-- The destination keeps the route of itself, and only vertices of the graph have routes. -/
def Grounded (g : PathGraph) (t : RoutingTable) : Prop :=
  t.get? g.destination = some ⟨[g.destination], .origin⟩ ∧ ∀ x ∉ g.vertices, t.get? x = none

theorem grounded_initialRoutes : g.Grounded g.initialRoutes := by
  refine ⟨by simp [initialRoutes], fun x hx => ?_⟩
  have hne : x ≠ g.destination := by
    rintro rfl
    exact hx g.destination_mem
  simp [initialRoutes, hne]

/-- A turn of another vertex than the destination keeps the table grounded. -/
theorem Grounded.update (h : g.Grounded t) (hu : u ∈ g.vertices) (hd : u ≠ g.destination)
    (out : List (Vertex × Edge)) : g.Grounded (t.update u out).1 := by
  obtain ⟨hdst, hout⟩ := h
  refine ⟨?_, fun x hx => ?_⟩
  · rcases RoutingTable.get?_update_of_ne t out hd.symm with h | h <;>
      simp [h, hdst, Route.continuesAt]
  · have hne : x ≠ u := by
      rintro rfl
      exact hx hu
    rcases RoutingTable.get?_update_of_ne t out hne with h | h <;>
      simp [h, hout x hx]

theorem Grounded.stations (h : g.Grounded t) {u : Vertex × List (Vertex × Edge)}
    (hu : u ∈ g.stations f) : g.Grounded (t.update u.1 u.2).1 := by
  obtain ⟨hm, hd, -⟩ := mem_stations.mp hu
  exact h.update hm hd u.2

/-- **The simulation ends with a stable table.** -/
theorem simulate_stable {s : Simulation} (h : g.simulate f = .ok s) : g.Stable f s.routes := by
  rw [simulate_eq_rounds] at h
  obtain ⟨⟨hdst, hout⟩, hall⟩ :=
    rounds_eq_ok (P := g.Grounded) (fun t u hu ht => ht.stations hu) grounded_initialRoutes h
  refine ⟨hdst, fun u hd => ?_⟩
  by_cases hu : u ∈ g.vertices
  · exact hall (u, g.usable f u) (mem_stations.mpr ⟨hu, hd, rfl⟩)
  · rw [hout u hu, usable_of_not_mem hu]
    rfl

/-- **A simulation that ends has solved the routing problem**: the destination holds the route of
itself; every other vertex holds the one route open to it that is preferred to all the others, and
none exactly if none is open to it; and a route goes on with the route of its second vertex. -/
theorem simulate_solves {s : Simulation} (h : g.simulate f = .ok s) :
    s.routes.get? g.destination = some ⟨[g.destination], .origin⟩ ∧
      (∀ u, u ≠ g.destination →
        (s.routes.get? u = none ↔ ∀ r, ¬ g.IsCandidate f s.routes u r) ∧
          ∀ r, s.routes.get? u = some r ↔ g.IsCandidate f s.routes u r ∧
            ∀ r', g.IsCandidate f s.routes u r' → r' ≠ r →
              Route.Preferred u.kind.rankDomain r r') ∧
      ∀ u v p r, s.routes.get? u = some r → r.path = u :: v :: p →
        ∃ q, s.routes.get? v = some q ∧ q.path = v :: p := by
  have hs := simulate_stable h
  refine ⟨hs.destination, fun u hd => ⟨hs.get?_eq_none_iff hd, fun r => ?_⟩, ?_⟩
  · exact hs.get?_eq_some_iff hd
  · intro u v p r hr hp
    exact hs.tail hr hp

theorem bestPath_eq_ok {o : Option Route} (h : g.bestPath f = .ok o) :
    ∃ s, g.simulate f = .ok s ∧ g.bestRoute s = o := by
  unfold bestPath at h
  cases hs : g.simulate f with
  | error e => rw [hs] at h; cases h
  | ok s => rw [hs] at h; exact ⟨s, rfl, Except.ok.inj h⟩

theorem bestWalk_eq_ok {k : Walk} (h : g.bestWalk f = .ok k) :
    ∃ s, g.simulate f = .ok s ∧ g.reprocess s = k := by
  unfold bestWalk at h
  cases hs : g.simulate f with
  | error e => rw [hs] at h; cases h
  | ok s => rw [hs] at h; exact ⟨s, rfl, Except.ok.inj h⟩

/-- Three BGP processes in a cycle. The first is to prefer the way over the second to its own exit,
the second the way over the third, which in turn depends on the first. -/
def roundabout : PathGraph :=
  let a : Vertex := .main (.bgpIn 0)
  let b : Vertex := .main (.bgpIn 1)
  let c : Vertex := .main (.bgpIn 2)
  let g := (empty .fine "d" "s").addVertices [a, b, c]
  let relay (ps : List Policy) : Edge := { kind := .relay, policies := ps }
  (((((g.addEdge ⟨a, g.destination⟩ (relay [.ofLocalPref 150])).addEdge
    ⟨a, b⟩ (relay [.ofLocalPref 300])).addEdge ⟨b, g.destination⟩ (relay [])).addEdge
    ⟨b, c⟩ (relay [.ofLocalPref 200])).addEdge ⟨c, a⟩ (relay [])).addEdge ⟨g.source, c⟩ (relay [])

theorem simulate_solves_roundabout : ∃ s, roundabout.simulate ∅ = .ok s ∧
    s.routes.get? (.main (.bgpIn 0)) =
      some ⟨[.main (.bgpIn 0), .main (.bgpIn 1), roundabout.destination], ⟨300, 0, 0, ∅⟩⟩ ∧
    ∀ r, roundabout.IsCandidate ∅ s.routes (.main (.bgpIn 0)) r →
      r ≠ ⟨[.main (.bgpIn 0), .main (.bgpIn 1), roundabout.destination], ⟨300, 0, 0, ∅⟩⟩ →
      Route.Preferred .bgp
        ⟨[.main (.bgpIn 0), .main (.bgpIn 1), roundabout.destination], ⟨300, 0, 0, ∅⟩⟩ r := by
  have hrun : (roundabout.simulate ∅).toOption.bind (·.routes.get? (.main (.bgpIn 0))) =
      some ⟨[.main (.bgpIn 0), .main (.bgpIn 1), roundabout.destination], ⟨300, 0, 0, ∅⟩⟩ := by
    decide +kernel
  cases hs : roundabout.simulate ∅ with
  | error e => rw [hs] at hrun; cases hrun
  | ok s =>
    rw [hs] at hrun
    refine ⟨s, rfl, hrun, ?_⟩
    exact (((simulate_solves hs).2.1 (.main (.bgpIn 0)) (by decide)).2 _ |>.mp hrun).2

end PathGraph

end NetReach
