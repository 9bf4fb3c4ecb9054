import NetReach.Cli.Run
import NetReach.Proofs.Existence
import NetReach.Proofs.Wires

/-! # A case and a query about the same subnets

A query always simulates, and prints the selected path if the source has a route and its packets
arrive. A case is only simulated if the search finds a path, and takes the walk alone. They come to
the same, as a packet that arrives has started with a route of the source
(`PathGraph.exists_bestRoute_of_path?`), and a route of the source is a path that the search finds
(`PathGraph.bestRoute_eq_none`). -/

namespace NetReach

namespace PathGraph

variable {g : PathGraph} {f : FailureSet} {t : RoutingTable} {s : Simulation} {v : Vertex}
  {left passed p : List Vertex}

/-- Packets that arrive have left their first vertex along its route. -/
theorem exists_route_of_arrived {n : Nat} (h : g.walkFrom t n left v passed = .arrived p) :
    ∃ r, t.get? v = some r := by
  cases n with
  | zero => cases h
  | succ n =>
    rw [walkFrom] at h
    split at h
    · cases h
    · cases hr : t.get? v with
      | none => rw [hr] at h; cases h
      | some r => exact ⟨r, rfl⟩

theorem exists_bestRoute_of_path? (h : (g.reprocess s).path? = some p) :
    ∃ r, g.bestRoute s = some r := by
  cases hwalk : g.reprocess s with
  | arrived q => exact exists_route_of_arrived hwalk
  | stuck => rw [hwalk] at h; cases h
  | loop v => rw [hwalk] at h; cases h

/-- **Without a path there is no route.** -/
theorem bestRoute_eq_none (hs : g.simulate f = .ok s) (hp : g.path? f = none) :
    g.bestRoute s = none := by
  cases hr : g.bestRoute s with
  | none => rfl
  | some r =>
    have hreach : g.Reaches f g.source g.destination := (simulate_stable hs).reaches hr
    have hfound : (g.path? f).isSome := (isSome_search g.source_mem).mpr hreach
    rw [hp] at hfound
    cases hfound

end PathGraph

namespace Cli

/-- The query asks for what the case tells. -/
structure Query.Asks (q : Query) (c : ReachabilityCase) (variant : Variant) : Prop where
  dst : q.dst = c.destination
  src : q.src = c.origin
  fail : linksOfTexts q.fail = .ok c.failures
  variant : q.variant = variant

/-- What is printed about existence and selection says the same as the outcome of a case. -/
structure Reports (net : Network) (q : Query) (o : CaseOutcome)
    (existence selection : List String) : Prop where
  found : o.found = true → ∃ p, o.witness = some (net.routerPathNames p) ∧
    existence = [q.dst ++ " is reachable from " ++ q.src ++ ":", indented (net.pathText p)]
  notFound : o.found = false → existence = [q.dst ++ " is not reachable from " ++ q.src] ∧
    selection = ["No path is selected"]
  selected : ∀ names, o.bestPath = some names → ∃ σ : Signature,
    selection = ["Selected path (" ++ σ.text ++ "):", indented (" => ".intercalate names)]
  notSelected : o.bestPath = none →
    selection = ["No path is selected"] ∨
      selection = ["The selected path contains a forwarding loop"]

end Cli

namespace ReachabilityCase

variable {net : Network} {l2 : Layer2} {c : ReachabilityCase} {variant : Variant} {w : Wiring}
  {s : Simulation}

/-- The outcome of a case: what the search finds, and the walk that is simulated if it finds
something. -/
def outcome (c : ReachabilityCase) (net : Network) (g : PathGraph) (f : FailureSet)
    (s : Simulation) : CaseOutcome :=
  let best := if (g.path? f).isSome then (g.reprocess s).path?.map net.routerPathNames else none
  ⟨(g.path? f).isSome, (g.path? f).map net.routerPathNames, best, c.isMet (g.path? f).isSome best⟩

/-- **If the simulation ends, the case has an outcome.** -/
theorem check_eq_ok (hw : (net.sceneFor l2 c.destination c.origin).build variant = .ok w)
    (hs : w.graph.simulate (.ofNames net c.failures) = .ok s) :
    (c.check net l2 variant).1 = .ok (c.outcome net w.graph (.ofNames net c.failures) s) := by
  unfold check outcome
  simp only [hw]
  cases hp : w.graph.path? (.ofNames net c.failures) with
  | none => rfl
  | some p =>
    simp only [PathGraph.bestWalk, hs, Except.map]
    rfl

/-- The walk of a case that was not simulated would not have arrived. -/
theorem bestPath_outcome {g : PathGraph} {f : FailureSet} (hs : g.simulate f = .ok s) :
    (c.outcome net g f s).bestPath = (g.reprocess s).path?.map net.routerPathNames := by
  simp only [outcome]
  split
  · rfl
  · next hnone =>
    have hbest := PathGraph.bestRoute_eq_none hs (Option.not_isSome_iff_eq_none.mp hnone)
    cases hwalk : (g.reprocess s).path? with
    | none => rfl
    | some p =>
      obtain ⟨r, hr⟩ := PathGraph.exists_bestRoute_of_path? hwalk
      rw [hbest] at hr
      cases hr

/-- A walk is printed together with the route it started with. -/
theorem bestPath_outcome_eq_some {g : PathGraph} {f : FailureSet} (hs : g.simulate f = .ok s)
    {names : List String} : (c.outcome net g f s).bestPath = some names ↔
      ∃ r p, g.bestRoute s = some r ∧ (g.reprocess s).path? = some p ∧
        net.routerPathNames p = names := by
  rw [bestPath_outcome hs, Option.map_eq_some_iff]
  constructor
  · rintro ⟨p, hp, hnames⟩
    obtain ⟨r, hr⟩ := PathGraph.exists_bestRoute_of_path? hp
    exact ⟨r, p, hr, hp, hnames⟩
  · rintro ⟨r, p, -, hp, hnames⟩
    exact ⟨p, hp, hnames⟩

/-- **The lines of a query report the outcome of the case.** -/
theorem reports_outcome {g : PathGraph} {f : FailureSet} (hs : g.simulate f = .ok s)
    (q : Cli.Query) : Cli.Reports net q (c.outcome net g f s)
      (Cli.existenceLines net q (g.path? f)) (Cli.selectionLines net g s) := by
  constructor
  case found =>
    intro hfound
    obtain ⟨p, hp⟩ := Option.isSome_iff_exists.mp hfound
    exact ⟨p, congrArg (Option.map _) hp, by rw [hp]; rfl⟩
  case notFound =>
    intro hfound
    have hp : g.path? f = none := Option.not_isSome_iff_eq_none.mp (by simpa [outcome] using hfound)
    rw [hp]
    exact ⟨rfl, by simp only [Cli.selectionLines, PathGraph.bestRoute_eq_none hs hp]⟩
  case selected =>
    intro names hnames
    obtain ⟨r, p, hr, hp, rfl⟩ := (bestPath_outcome_eq_some hs).mp hnames
    exact ⟨r.signature, by simp only [Cli.selectionLines, hr, hp]⟩
  case notSelected =>
    intro hnone
    rw [bestPath_outcome hs, Option.map_eq_none_iff] at hnone
    cases hr : g.bestRoute s with
    | none => exact .inl (by simp only [Cli.selectionLines, hr])
    | some r => exact .inr (by simp only [Cli.selectionLines, hr, hnone])

/-- **A case and a query about the same subnets and failures agree**, in every network. Whenever the
graph is made and its simulation ends, the case has an outcome: a path was found exactly if the
search of the query finds one, a path was selected exactly if the source has a route and its packets
arrive, over the same routers, and where no path was found there is no route either, so nothing was
lost by leaving the simulation out. The query does not fail, and its lines report this outcome. -/
theorem check_agrees_with_query
    (hw : (net.sceneFor l2 c.destination c.origin).build variant = .ok w)
    (hs : w.graph.simulate (.ofNames net c.failures) = .ok s) :
    ∃ o, (c.check net l2 variant).1 = .ok o ∧
      (o.found = true ↔ ∃ p, w.graph.path? (.ofNames net c.failures) = some p) ∧
      (∀ names, o.bestPath = some names ↔
        ∃ r p, w.graph.bestRoute s = some r ∧ (w.graph.reprocess s).path? = some p ∧
          net.routerPathNames p = names) ∧
      (o.found = false → w.graph.bestRoute s = none) ∧
      ∀ q : Cli.Query, q.Asks c variant → ∃ existence selection,
        Cli.Reports net q o existence selection ∧
          Cli.runQuery net l2 q =
            ⟨(if q.showEdges then Cli.block (net.pathGraphLines w.graph) ++ [""] else []) ++
              existence ++ selection ++
              (if q.contract then Cli.contractionLines net w.graph.contract else []), none⟩ := by
  refine ⟨_, check_eq_ok hw hs, Option.isSome_iff_exists, fun names => bestPath_outcome_eq_some hs,
    fun hfound => ?_, fun q hq => ⟨_, _, reports_outcome hs q, ?_⟩⟩
  · exact PathGraph.bestRoute_eq_none hs
      (Option.not_isSome_iff_eq_none.mp (by simpa [outcome] using hfound))
  · obtain ⟨hdst, hsrc, hfail, rfl⟩ := hq
    simp only [Cli.runQuery, hfail, hdst, hsrc, hw, hs]

/-- A case of the OSPF line names a link that it does not have. The query prints the walk that the
case expects. -/
theorem check_agrees_with_query_ospfLine :
    let net := (Example.ospfLineConfig false).assemble
    let c := (ReachabilityCase.expect "s3" "s1" true).fail "R1" "R3"
    let q : Cli.Query := ⟨"s1", "s3", ["R1:R3"], .fine, false, false⟩
    ∃ w s o, (net.sceneFor (.ofNetwork net) c.destination c.origin).build .fine = .ok w ∧
      w.graph.simulate (.ofNames net c.failures) = .ok s ∧
      (c.check net (.ofNetwork net) .fine).1 = .ok o ∧
      o.bestPath = some ["R3", "R2", "R1"] ∧ (w.graph.bestRoute s).isSome ∧ q.Asks c .fine ∧
      (Cli.runQuery net (.ofNetwork net) q).output.getLast? = some "    R3 => R2 => R1" := by
  intro net c q
  have hbuild : (net.sceneFor (.ofNetwork net) c.destination c.origin).build .fine =
      .ok ((net.sceneFor (.ofNetwork net) c.destination c.origin).wiring .fine) :=
    Scene.build_of_error?_eq_none (by decide +kernel)
  have hasks : q.Asks c .fine := ⟨rfl, rfl, rfl, rfl⟩
  have hends : (((net.sceneFor (.ofNetwork net) c.destination c.origin).wiring .fine).graph.simulate
      (.ofNames net c.failures)).toOption.isSome := by decide +kernel
  have hnames : (c.check net (.ofNetwork net) .fine).1.toOption.bind (·.bestPath) =
      some ["R3", "R2", "R1"] := by decide +kernel
  cases hs : ((net.sceneFor (.ofNetwork net) c.destination c.origin).wiring .fine).graph.simulate
      (.ofNames net c.failures) with
  | error e => rw [hs] at hends; cases hends
  | ok s =>
    obtain ⟨o, ho, -, hbest, -, hquery⟩ := check_agrees_with_query hbuild hs
    rw [ho] at hnames
    obtain ⟨r, p, hr, -⟩ := (hbest _).mp hnames
    obtain ⟨existence, selection, hreports, hrun⟩ := hquery q hasks
    obtain ⟨σ, hlines⟩ := hreports.selected _ hnames
    refine ⟨_, s, o, hbuild, hs, ho, hnames, hr ▸ rfl, hasks, ?_⟩
    have hlast : (Cli.runQuery net (.ofNetwork net) q).output.getLast? =
        some (Cli.indented (" => ".intercalate ["R3", "R2", "R1"])) := by
      rw [hrun, hlines]
      simp [q]
    exact hlast.trans (by decide +kernel)

end ReachabilityCase

end NetReach
