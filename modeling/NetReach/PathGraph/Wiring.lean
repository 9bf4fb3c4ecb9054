import NetReach.PathGraph.Basic
import NetReach.Taint
import NetReach.Warning

/-! # Wiring a path graph

The edges of a path graph are given as a list of *wires*, which are added in turn. A wire that the
graph refuses may leave a warning. What the wires of both variants share is here: the conditions
under which a router takes part, and the policies of a session. -/

namespace NetReach

/-- An edge to be added, and what to report if the graph refuses it. -/
structure Wire where
  arc : Arc
  edge : Edge
  refused : Option Warning := none
deriving DecidableEq

namespace Wire

/-- An edge without policies between two vertices. -/
def plain (kind : EdgeKind) (tail head : Vertex) : Wire := { arc := ⟨tail, head⟩, edge := { kind } }

/-- The edge from an OSPF process to a VLAN, which costs one. -/
def egress (tail head : Vertex) : Wire :=
  { arc := ⟨tail, head⟩, edge := { kind := .egress, policies := [.ofCost 1] } }

end Wire

/-- A graph in the making, with the warnings so far. -/
structure Wiring where
  graph : PathGraph
  warnings : List Warning

namespace Wiring

/-- Add a wire. -/
def add (s : Wiring) (w : Wire) : Wiring :=
  if s.graph.accepts w.arc then { s with graph := s.graph.addEdge w.arc w.edge }
  else { s with warnings := s.warnings ++ w.refused.toList }

/-- Add wires to a graph, one after the other. -/
def ofWires (g : PathGraph) (ws : List Wire) : Wiring := ws.foldl add ⟨g, []⟩

end Wiring

/-- A network, its domains, and the taint graph of the destination. -/
structure Scene where
  net : Network
  l2 : Layer2
  taint : TaintGraph
  dst : Subnet
  src : Subnet

namespace Scene

/-- OSPF of the router can learn a route to the destination. -/
def ospfTainted (c : Scene) (r : Router) : Bool := c.taint.isTainted ⟨.ospf, r.id⟩

/-- BGP of the router can learn a route to the destination. -/
def bgpTainted (c : Scene) (r : Router) : Bool := c.taint.isTainted ⟨.bgp, r.id⟩

/-- OSPF of the router delivers packets to the destination. -/
def ospfDelivers (c : Scene) (r : Router) : Bool := r.attaches c.dst && r.ospfOriginates c.dst

/-- BGP of the router delivers packets to the destination. -/
def bgpDelivers (c : Scene) (r : Router) : Bool := r.attaches c.dst && r.bgpOriginates c.dst

/-- The peer of the session advertises its route to the router. -/
def learnsFrom (c : Scene) (r : Router) (s : Session) : Bool :=
  c.taint.propagates ⟨.bgp, s.peer⟩ ⟨.bgp, r.id⟩

/-- The VLANs on which OSPF of the router is active and meets another OSPF process. -/
def ospfEgress (c : Scene) (r : Router) : List VlanId :=
  ((r.ospf.elim [] (·.active.toList)).map fun num => ⟨r.id, num⟩).filter fun v =>
    (c.l2.adjacent v).any c.net.ospfActive

/-- The policies for routes that the router learns over a session: the path grows by one, then the
export policy of the peer and the import policy of the router apply. -/
def sessionPolicies (c : Scene) (r : Router) (s : Session) : List Policy :=
  let back := (c.net.router? s.peer).bind fun p => p.bgp.bind (·.sessionTo? r.id)
  let exported := (back.bind (·.exportPolicy)).bind c.net.policy?
  let imported := s.importPolicy.bind c.net.policy?
  .ofLen 1 :: exported.toList ++ imported.toList

/-- What to report if the next hop of a session is not in the graph. -/
def nextHopWarning (c : Scene) (r : Router) (s : Session) : Warning :=
  .unreachableNextHop s.addr (c.net.routerName r.id)

/-- The vertex that packets are sent to. -/
def destination (c : Scene) : Vertex := .main (.destination c.dst)

/-- The vertex that packets are sent from. -/
def source (c : Scene) : Vertex := .main (.source c.src)

end Scene

end NetReach
