import NetReach.PathGraph.Basic
import NetReach.Warning

/-! # Selected routes

Every vertex selects a route to the destination, by rounds. The destination starts with the route of
itself. In a round each other vertex in turn looks at the edges out of it that no failure cuts: the
head must have a route that avoids the vertex, and the policies of the edge must let it pass. Of
these candidates it takes the most preferred one. Whenever its route changes, every route that
continues at it is withdrawn. The rounds end with the first one that changes nothing.

* `PathGraph.update`: one vertex takes its turn. `PathGraph.round`: all of them do.
* `PathGraph.simulate`: the rounds, or a divergence if they do not end in time. A table that comes
  back settles that they do not (`PathGraph.rounds_of_leads`), so they need not all be gone through:
  `PathGraph.simulate_eq_rounds`.
* `PathGraph.reprocess`: the walk of a packet, which at every router follows the route selected
  there. -/

namespace NetReach

/-- A path to the destination with the signature of its routes. -/
structure Route where
  path : List Vertex
  signature : Signature
deriving DecidableEq, Inhabited

namespace Route

/-- The order of preference at a vertex; the greater route is preferred. Signatures come first, then
the smaller number of vertices, then the smaller path. -/
def compare (d : RankDomain) (a b : Route) : Ordering :=
  (Signature.compare d a.signature b.signature).then
    ((Ord.compare b.path.length a.path.length).then (Ord.compare b.path a.path))

/-- The one of two routes that is preferred, the first of equals. -/
def better (d : RankDomain) (a b : Route) : Route :=
  if compare d b a = .gt then b else a

/-- The most preferred route of a list. -/
def best? (d : RankDomain) : List Route → Option Route
  | [] => none
  | r :: rs => some (rs.foldl (better d) r)

/-- The route of `u` over an edge to the start of a route, unless it would come back to `u` or the
policies of the edge drop it. -/
def extend? (u : Vertex) (e : Edge) (r : Route) : Option Route :=
  if u ∈ r.path then none else (applyAll e.policies r.signature).map (⟨u :: r.path, ·⟩)

/-- The route continues at `u` after its first vertex. -/
def continuesAt (u : Vertex) (r : Route) : Bool :=
  match r.path with
  | _ :: v :: _ => v = u
  | _ => false

end Route

/-- The routes that the vertices have selected. -/
abbrev RoutingTable := OrdMap Vertex Route

namespace RoutingTable

/-- The candidates of `u` over the edges `out`. -/
def candidates (t : RoutingTable) (u : Vertex) (out : List (Vertex × Edge)) : List Route :=
  out.filterMap fun (v, e) => (t.get? v).bind (Route.extend? u e)

/-- The route that `u` selects over the edges `out`. -/
def choice (t : RoutingTable) (u : Vertex) (out : List (Vertex × Edge)) : Option Route :=
  Route.best? u.kind.rankDomain (t.candidates u out)

/-- Enter the new route of `u`, or that it has none, and withdraw every route that continues at
`u`. -/
def replace (t : RoutingTable) (u : Vertex) (r : Option Route) : RoutingTable :=
  (match r with
    | some r => t.put u r
    | none => t.erase u).filter fun _ r => !r.continuesAt u

/-- The vertex `u` takes its turn; the flag tells whether its route changed. -/
def update (u : Vertex) (out : List (Vertex × Edge)) (t : RoutingTable) : RoutingTable × Bool :=
  let r := t.choice u out
  if t.get? u = r then (t, false) else (t.replace u r, true)

end RoutingTable

/-- Why routes cannot be told. -/
inductive SimulationError where
  /-- The rounds did not end in time. -/
  | divergence (rounds : Nat)
deriving DecidableEq, Repr

/-- The routes after the last round, with the number of rounds. -/
structure Simulation where
  routes : RoutingTable
  rounds : Nat
deriving DecidableEq, Inhabited

/-- How the walk of a packet ends. -/
inductive Walk where
  /-- The packet arrives, over these vertices. -/
  | arrived (path : List Vertex)
  /-- A vertex has no route, or has no counterpart in the main layer. -/
  | stuck
  /-- The packet comes back to a vertex. -/
  | loop (v : Vertex)
deriving DecidableEq, Repr, Inhabited

namespace Walk

/-- The path of a packet that arrives. -/
def path? : Walk → Option (List Vertex)
  | arrived p => some p
  | _ => none

/-- What to report about the walk. -/
def warnings : Walk → List Warning
  | loop v => [.forwardingLoop v]
  | _ => []

end Walk

namespace PathGraph

/-! ### Rounds -/

/-- The vertices that select routes, in order, with the edges out of each that no failure cuts. -/
def stations (g : PathGraph) (f : FailureSet) : List (Vertex × List (Vertex × Edge)) :=
  (g.vertices.toList.filter (· ≠ g.destination)).map fun u => (u, g.usable f u)

/-- Only the destination has a route. -/
def initialRoutes (g : PathGraph) : RoutingTable :=
  OrdMap.put ∅ g.destination ⟨[g.destination], .origin⟩

/-- Every station takes its turn; the flag tells whether some route changed. -/
def round (stations : List (Vertex × List (Vertex × Edge))) (t : RoutingTable) :
    RoutingTable × Bool :=
  stations.foldl (fun s u =>
    let (t, changed) := s.1.update u.1 u.2
    (t, s.2 || changed)) (t, false)

/-- At most `left` rounds after the `done` rounds that led to `t`. -/
def rounds (stations : List (Vertex × List (Vertex × Edge))) :
    (left done : Nat) → RoutingTable → Except SimulationError Simulation
  | 0, done, _ => .error (.divergence done)
  | left + 1, done, t =>
    let (t, changed) := round stations t
    if changed then rounds stations left (done + 1) t else .ok ⟨t, done + 1⟩

/-- The outcome of `rounds`, with an eye on a table `seen` that came up in an earlier round: when it
comes back, the rounds do not end. Whenever the number of rounds done is a power of two, the present
table takes its place, so every recurrence is noticed in the end. -/
def roundsWatching (stations : List (Vertex × List (Vertex × Edge))) :
    (left done : Nat) → (seen t : RoutingTable) → Except SimulationError Simulation
  | 0, done, _, _ => .error (.divergence done)
  | left + 1, done, seen, t =>
    let seen := if done.isPowerOfTwo then t else seen
    let (t, changed) := round stations t
    if changed then
      if t = seen then .error (.divergence (done + 1 + left))
      else roundsWatching stations left (done + 1) seen t
    else .ok ⟨t, done + 1⟩

/-- The number of rounds after which routing counts as divergent. -/
def roundLimit (g : PathGraph) : Nat := 8 * g.numVertices + 16

/-- The routes that the vertices select. -/
def simulate (g : PathGraph) (f : FailureSet) : Except SimulationError Simulation :=
  roundsWatching (g.stations f) g.roundLimit 0 g.initialRoutes g.initialRoutes

/-! ### Rounds that do not end -/

section Recurrence

variable {stations : List (Vertex × List (Vertex × Edge))} {a b c : RoutingTable}

/-- Rounds that all change some route lead from one table to the other. -/
inductive Leads (stations : List (Vertex × List (Vertex × Edge))) :
    RoutingTable → RoutingTable → Prop where
  /-- No round at all. -/
  | refl (t : RoutingTable) : Leads stations t t
  /-- A round before the others. -/
  | head {a b c : RoutingTable} : round stations a = (b, true) → Leads stations b c →
      Leads stations a c

theorem Leads.tail (h : Leads stations a b) (hc : round stations b = (c, true)) :
    Leads stations a c := by
  induction h with
  | refl t => exact .head hc (.refl c)
  | head h _ ih => exact .head h (ih hc)

/-- **A table that comes back rules out that the rounds end.** -/
theorem rounds_of_leads (left : Nat) : ∀ {done : Nat} {a b : RoutingTable},
    Leads stations b a → round stations a = (b, true) →
    rounds stations left done a = .error (.divergence (done + left)) := by
  induction left with
  | zero => intros; rfl
  | succ left ih =>
    intro done a b h ha
    have hb : rounds stations left (done + 1) b = .error (.divergence (done + 1 + left)) := by
      cases h with
      | refl => exact ih (.refl _) ha
      | head hb h => exact ih (h.tail ha) hb
    simp only [rounds, ha, if_true, hb]
    congr 2
    omega

/-- Watching for a table that comes back does not change the outcome. -/
theorem roundsWatching_eq_rounds (left : Nat) : ∀ {done : Nat} {seen t : RoutingTable},
    Leads stations seen t →
    roundsWatching stations left done seen t = rounds stations left done t := by
  induction left with
  | zero => intros; rfl
  | succ left ih =>
    intro done seen t h
    replace h : Leads stations (if done.isPowerOfTwo then t else seen) t := by
      split
      · exact .refl t
      · exact h
    cases hu : round stations t with
    | mk u changed =>
      cases changed with
      | false => simp [roundsWatching, rounds, hu]
      | true =>
        by_cases he : u = if done.isPowerOfTwo then t else seen
        · rw [rounds_of_leads (left + 1) (he ▸ h) hu]
          simp only [roundsWatching, hu, if_true, if_pos he]
          congr 2
          omega
        · simp only [roundsWatching, rounds, hu, if_true, if_neg he]
          exact ih (h.tail hu)

/-- **The simulation is the rounds from the initial routes.** -/
theorem simulate_eq_rounds (g : PathGraph) (f : FailureSet) :
    g.simulate f = rounds (g.stations f) g.roundLimit 0 g.initialRoutes :=
  roundsWatching_eq_rounds _ (.refl _)

end Recurrence

/-! ### What the source selects -/

/-- The route of the source. -/
def bestRoute (g : PathGraph) (s : Simulation) : Option Route := s.routes.get? g.source

/-- The walk of a packet from `v`, where the packet has gone on from the vertices `left` over the
vertices `passed`. It follows the route of `v` as long as this stays on the router of `v`; at the
first vertex of another router it goes on from the counterpart of that vertex in the main layer. -/
def walkFrom (g : PathGraph) (t : RoutingTable) :
    Nat → (left : List Vertex) → Vertex → (passed : List Vertex) → Walk
  | 0, _, _, _ => .stuck
  | n + 1, left, v, passed =>
    if v ∈ left then .loop v
    else
      match t.get? v with
      | none => .stuck
      | some r =>
        let own (w : Vertex) : Bool := decide (w ≠ g.destination ∧ w.router? = v.router?)
        match r.path.dropWhile own with
        | [] => .stuck
        | w :: _ =>
          if w = g.destination then .arrived (passed ++ r.path.takeWhile own ++ [w])
          else if g.contains w.toMain then
            walkFrom g t n (v :: left) w.toMain (passed ++ r.path.takeWhile own)
          else .stuck

/-- The walk of a packet from the source. It leaves every vertex at most once. -/
def reprocess (g : PathGraph) (s : Simulation) : Walk :=
  g.walkFrom s.routes (g.numVertices + 1) [] g.source []

/-- The route that the source selects. -/
def bestPath (g : PathGraph) (f : FailureSet) : Except SimulationError (Option Route) :=
  (g.simulate f).map g.bestRoute

/-- The walk of a packet along the selected routes. -/
def bestWalk (g : PathGraph) (f : FailureSet) : Except SimulationError Walk :=
  (g.simulate f).map g.reprocess

end PathGraph

end NetReach
