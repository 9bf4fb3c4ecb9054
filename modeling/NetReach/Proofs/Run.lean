import NetReach.Proofs.Genuine

/-! # The run of a simulation

The *run* of a simulation (`PathGraph.run`) is the list of all tables that it goes through: the one
that it starts with, and one after every turn of every round. It does not matter whether the rounds
end: a simulation that ends has the last table of its run as its result (`getLast?_run`), and one
that diverges has gone through all turns of all its rounds (`length_run_of_divergence`). What every
turn preserves holds of every table of the run (`run_invariant`).

So routes are genuine all along: at every point of the run, the route of a vertex is a path of the
graph, and its signature is the one that is gathered along this path
(`PathGraph.signatureAlong`). -/

namespace NetReach.PathGraph

variable {g : PathGraph} {f : FailureSet} {t : RoutingTable} {u : Vertex} {r : Route}
  {s : Simulation} {P : RoutingTable → Prop}

/-! ### The tables of a run -/

section Tables

variable {stations : List (Vertex × List (Vertex × Edge))}

/-- The tables after each turn of a round. -/
def turnTables : List (Vertex × List (Vertex × Edge)) → RoutingTable → List RoutingTable
  | [], _ => []
  | u :: l, t => (t.update u.1 u.2).1 :: turnTables l (t.update u.1 u.2).1

/-- The tables after each turn of at most `left` rounds. A round without change is the last one. -/
def roundTables (stations : List (Vertex × List (Vertex × Edge))) :
    (left : Nat) → RoutingTable → List RoutingTable
  | 0, _ => []
  | left + 1, t =>
    turnTables stations t ++
      if (round stations t).2 then roundTables stations left (round stations t).1 else []

theorem length_turnTables (l : List (Vertex × List (Vertex × Edge))) : ∀ t : RoutingTable,
    (turnTables l t).length = l.length := by
  induction l with
  | nil => exact fun _ => rfl
  | cons u l ih => exact fun t => congrArg (· + 1) (ih _)

theorem getLast?_turnTables (l : List (Vertex × List (Vertex × Edge))) :
    ∀ s : RoutingTable × Bool, (turnTables l s.1).getLast?.getD s.1 = (l.foldl turn s).1 := by
  induction l with
  | nil => exact fun _ => rfl
  | cons u l ih =>
    intro s
    rw [turnTables, List.getLast?_cons, Option.getD_some, List.foldl_cons]
    exact ih (turn s u)

theorem turnTables_invariant (hP : ∀ t, ∀ u ∈ stations, P t → P (t.update u.1 u.2).1) :
    ∀ {t : RoutingTable}, P t → ∀ x ∈ turnTables stations t, P x := by
  induction stations with
  | nil => exact fun _ => nofun
  | cons u l ih =>
    intro t ht x hx
    have hu : P (t.update u.1 u.2).1 := hP t u List.mem_cons_self ht
    rcases List.mem_cons.mp hx with rfl | hx
    · exact hu
    · exact ih (fun t v hv => hP t v (List.mem_cons_of_mem _ hv)) hu x hx

theorem roundTables_invariant (hP : ∀ t, ∀ u ∈ stations, P t → P (t.update u.1 u.2).1)
    (left : Nat) : ∀ {t : RoutingTable}, P t → ∀ x ∈ roundTables stations left t, P x := by
  induction left with
  | zero => exact fun _ => nofun
  | succ left ih =>
    intro t ht x hx
    rcases List.mem_append.mp hx with hx | hx
    · exact turnTables_invariant hP ht x hx
    · split at hx
      · exact ih (foldl_turn_invariant hP (t, false) ht) x hx
      · cases hx

/-- The rounds that end do so with the last table, after all turns of theirs. -/
theorem roundTables_of_ok (left : Nat) : ∀ {done : Nat} {t : RoutingTable},
    rounds stations left done t = .ok s →
      (roundTables stations left t).getLast?.getD t = s.routes ∧
        s.rounds * stations.length =
          done * stations.length + (roundTables stations left t).length := by
  induction left with
  | zero => exact nofun
  | succ left ih =>
    intro done t h
    have hlast : (turnTables stations t).getLast?.getD t = (round stations t).1 :=
      getLast?_turnTables stations (t, false)
    simp only [rounds] at h
    rw [roundTables, List.length_append, length_turnTables]
    split at h
    · next hc =>
      obtain ⟨hroutes, hlength⟩ := ih h
      rw [if_pos hc, List.getLast?_append, Option.getD_or, hlast]
      refine ⟨hroutes, ?_⟩
      rw [hlength, Nat.add_mul, Nat.one_mul, Nat.add_assoc]
    · next hc =>
      cases h
      rw [if_neg hc, List.append_nil]
      exact ⟨hlast, Nat.succ_mul _ _⟩

theorem roundTables_of_error (left : Nat) : ∀ {done n : Nat} {t : RoutingTable},
    rounds stations left done t = .error (.divergence n) → n * stations.length =
      done * stations.length + (roundTables stations left t).length := by
  induction left with
  | zero =>
    intro done n t h
    cases h
    rfl
  | succ left ih =>
    intro done n t h
    simp only [rounds] at h
    rw [roundTables, List.length_append, length_turnTables]
    split at h
    · next hc =>
      rw [if_pos hc, ih h, Nat.add_mul, Nat.one_mul, Nat.add_assoc]
    · cases h

end Tables

/-- The tables that a simulation goes through: the first one, and one after every turn. -/
def run (g : PathGraph) (f : FailureSet) : List RoutingTable :=
  g.initialRoutes :: roundTables (g.stations f) g.roundLimit g.initialRoutes

/-- **A simulation that ends has the last table of its run as its result**, after all turns of its
rounds. -/
theorem getLast?_run (h : g.simulate f = .ok s) : (g.run f).getLast? = some s.routes ∧
    (g.run f).length = s.rounds * (g.stations f).length + 1 := by
  rw [simulate_eq_rounds] at h
  obtain ⟨hroutes, hlength⟩ := roundTables_of_ok _ h
  rw [Nat.zero_mul, Nat.zero_add] at hlength
  rw [run, List.getLast?_cons, hroutes, List.length_cons, hlength]
  exact ⟨rfl, rfl⟩

/-- **A divergence has gone through all turns of its rounds.** -/
theorem length_run_of_divergence {n : Nat} (h : g.simulate f = .error (.divergence n)) :
    (g.run f).length = n * (g.stations f).length + 1 := by
  rw [simulate_eq_rounds] at h
  have hlength := roundTables_of_error _ h
  rw [Nat.zero_mul, Nat.zero_add] at hlength
  rw [run, List.length_cons, hlength]

/-- **What every turn preserves holds of every table of the run.** -/
theorem run_invariant (h₀ : P g.initialRoutes)
    (hP : ∀ t, ∀ u ∈ g.vertices, u ≠ g.destination → P t → P (t.update u (g.usable f u)).1) :
    ∀ t ∈ g.run f, P t := by
  have hturn : ∀ t, ∀ u ∈ g.stations f, P t → P (t.update u.1 u.2).1 := by
    intro t u hu
    obtain ⟨hm, hd, hout⟩ := mem_stations.mp hu
    rw [hout]
    exact hP t u.1 hm hd
  intro t ht
  rcases List.mem_cons.mp ht with rfl | ht
  · exact h₀
  · exact roundTables_invariant hturn _ h₀ t ht

/-! ### Routes and their signatures -/

/-- The signature that is gathered along a path on the way back from its end, where it is that of
the destination. There is none if an edge is missing or drops the route. -/
def signatureAlong (g : PathGraph) : List Vertex → Option Signature
  | [] => none
  | [_] => some .origin
  | u :: v :: p =>
    (g.edge? u v).bind fun e => (g.signatureAlong (v :: p)).bind (applyAll e.policies)

theorem IsRoute.signatureAlong_path (h : g.IsRoute f u r) :
    g.signatureAlong r.path = some r.signature := by
  induction h with
  | origin => rfl
  | @extend u v e s σ hs he _ _ hσ ih =>
    obtain ⟨p, hp⟩ := hs.head
    rw [hp] at ih
    rw [hp, signatureAlong, he, ih, Option.bind_some, Option.bind_some, hσ]

theorem genuine_of_mem_run (h : t ∈ g.run f) : g.Genuine f t :=
  run_invariant genuine_initialRoutes (fun _ u _ _ ht => ht.update u) t h

/-- **Every route that is ever held is a path with its signature**: at every point of a run, whether
it ends or not, the route of a vertex leads from there to the destination over edges that no failure
cuts, comes to no vertex twice, and has the signature that is gathered along its path. -/
theorem route_of_mem_run (ht : t ∈ g.run f) (hr : t.get? u = some r) :
    g.IsPath f u g.destination r.path ∧ g.signatureAlong r.path = some r.signature := by
  have hroute := genuine_of_mem_run ht u r hr
  exact ⟨hroute.isPath, hroute.signatureAlong_path⟩

/-- Three BGP processes in a cycle. Each of them prefers the way over the next one to its own exit,
but only while the next one takes its own exit: a route that was handed on once is blocked. -/
def carousel : PathGraph :=
  let a : Vertex := .main (.bgpIn 0)
  let b : Vertex := .main (.bgpIn 1)
  let c : Vertex := .main (.bgpIn 2)
  let g := (empty .fine "d" "s").addVertices [a, b, c]
  let exit : Edge := { kind := .delivery }
  let relay : Edge := { kind := .relay, policies :=
    [({ } : Policy).blockTag "handed", (Policy.ofLocalPref 200).addTag "handed"] }
  (((((g.addEdge ⟨a, g.destination⟩ exit).addEdge ⟨b, g.destination⟩ exit).addEdge
    ⟨c, g.destination⟩ exit).addEdge ⟨a, b⟩ relay).addEdge ⟨b, c⟩ relay).addEdge ⟨c, a⟩ relay

/-- The carousel never comes to rest; the first process holds its way over the second one from time
to time. -/
theorem route_of_mem_run_carousel :
    let a : Vertex := .main (.bgpIn 0)
    let p : List Vertex := [a, .main (.bgpIn 1), carousel.destination]
    let σ : Signature := ⟨200, 0, 0, .ofList ["handed"]⟩
    carousel.simulate ∅ = .error (.divergence 56) ∧
      ∃ t ∈ carousel.run ∅, t.get? a = some ⟨p, σ⟩ ∧
        carousel.IsPath ∅ a carousel.destination p ∧ carousel.signatureAlong p = some σ := by
  intro a p σ
  have hdiverges : carousel.simulate ∅ = .error (.divergence 56) := by decide +kernel
  have hheld : ∃ t ∈ carousel.run ∅, t.get? a = some ⟨p, σ⟩ := by decide +kernel
  obtain ⟨t, ht, hr⟩ := hheld
  exact ⟨hdiverges, t, ht, hr, route_of_mem_run ht hr⟩

end NetReach.PathGraph
