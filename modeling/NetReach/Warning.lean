import NetReach.Address.Text
import NetReach.PathGraph.Description

/-! # Warnings

Findings that do not stop a computation but that its user should see. -/

namespace NetReach

/-- A finding that does not stop the computation. -/
inductive Warning where
  /-- The peer of a session lies in no block of the router, and the router runs no OSPF. -/
  | unreachablePeer (addr : IpAddr) (router : String)
  /-- The session of a router has no next hop in the graph. -/
  | unreachableNextHop (addr : IpAddr) (router : String)
  /-- The walk along the selected routes comes back to a vertex. -/
  | forwardingLoop (vertex : Vertex)
deriving DecidableEq, Repr

/-- The wording of a warning. -/
def Warning.text : Warning → String
  | unreachablePeer addr router =>
    "BGP peer " ++ addr.text ++ " of " ++ router ++
      " is neither directly connected nor reachable by OSPF"
  | unreachableNextHop addr router =>
    "Next hop " ++ addr.text ++ " of " ++ router ++ " is not reachable"
  | forwardingLoop vertex => "Forwarding loop at " ++ vertex.describe

end NetReach
