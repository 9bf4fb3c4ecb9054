import NetReach.PathGraph.OfNetwork
import NetReach.PathGraph.Search
import NetReach.Config.Basic
import NetReach.Report

/-! # Checking cases

A case is checked on the path graph from its origin to its destination: some path must exist or not,
as expected, and the walk of a packet must take the expected routers. -/

namespace NetReach

/-- What checking a case brings to light. -/
structure CaseOutcome where
  /-- Some path exists, whatever the policies. -/
  found : Bool
  /-- The routers of the first path. -/
  witness : Option (List String)
  /-- The routers of the walk along the selected routes. -/
  bestPath : Option (List String)
  /-- The outcome is the expected one. -/
  passed : Bool
deriving DecidableEq, Repr

/-- Why a case cannot be checked. -/
inductive CaseError where
  | query (e : QueryError)
  | simulation (e : SimulationError)
deriving DecidableEq, Repr

/-- The wording of the error. -/
def SimulationError.message : SimulationError → String
  | divergence n => "Simulation did not converge after " ++ toString n ++ " rounds"

/-- The structure of the error. -/
def SimulationError.describe : SimulationError → String
  | divergence n => describeCall "Divergence" [toString n]

/-- The wording of the error. -/
def CaseError.message : CaseError → String
  | query e => "Query Error: " ++ e.message
  | simulation e => "Simulation Error: " ++ e.message

namespace ReachabilityCase

/-- The outcome matches the expectation. -/
def isMet (c : ReachabilityCase) (found : Bool) (bestPath : Option (List String)) : Bool :=
  found == c.reachable && (c.path.isNone || bestPath == c.path)

/-- Check the case, with the warnings on the way. The selected routes are only asked for if some
path exists. -/
def check (net : Network) (l2 : Layer2) (variant : Variant) (c : ReachabilityCase) :
    Except CaseError CaseOutcome × List Warning :=
  match (net.sceneFor l2 c.destination c.origin).build variant with
  | .error e => (.error (.query e), [])
  | .ok w =>
    let f := FailureSet.ofNames net c.failures
    match w.graph.path? f with
    | none => (.ok ⟨false, none, none, c.isMet false none⟩, w.warnings)
    | some p =>
      match w.graph.bestWalk f with
      | .error e => (.error (.simulation e), w.warnings)
      | .ok walk =>
        let best := walk.path?.map net.routerPathNames
        (.ok ⟨true, some (net.routerPathNames p), best, c.isMet true best⟩,
          w.warnings ++ walk.warnings)

end ReachabilityCase

end NetReach
