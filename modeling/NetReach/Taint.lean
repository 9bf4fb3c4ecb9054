import NetReach.Layer2

/-! # Taint graphs

The *taint graph* of a subnet has a node for every routing process and one for the subnet. Its edges
are the ways on which a route to the subnet spreads: from the subnet to the processes that originate
it, between OSPF processes on adjacent VLANs, over BGP sessions, and by redistribution. A process is
*tainted* if the route can reach it. A route that arrived over an iBGP session is not passed on over
another one, so what is followed are states: a node together with whether it was entered over iBGP.

* `TaintGraph.reached`: the states that are entered.
* `TaintGraph.isTainted`, `TaintGraph.propagates`, `TaintGraph.taintedByAdjacency`: what they say
  about processes. -/

namespace NetReach

/-- A routing process. -/
structure Process where
  protocol : Protocol
  router : RouterId
deriving DecidableEq, Repr, Inhabited

namespace Process

/-- By protocol, then by router. -/
instance : Ord Process := ⟨compareLex (compareOn protocol) (compareOn router)⟩

instance : Std.TransOrd Process :=
  inferInstanceAs (Std.TransCmp (compareLex (compareOn protocol) (compareOn router)))

instance : Std.LawfulEqOrd Process where
  compare_self :=
    (inferInstance : Std.ReflCmp (compareLex (compareOn protocol) (compareOn router))).compare_self
  eq_of_compare {a b} h := by
    obtain ⟨h₁, h₂⟩ := compareLex_eq_eq.mp h
    cases a
    cases b
    cases Std.LawfulEqOrd.eq_of_compare h₁
    cases Std.LawfulEqOrd.eq_of_compare h₂
    rfl

end Process

/-- A node of the taint graph. -/
inductive TaintNode where
  | process (p : Process)
  | subnet (s : Subnet)
deriving DecidableEq, Repr, Inhabited

/-- How a route spreads along an edge. -/
inductive SpreadKind where
  /-- Between OSPF processes on adjacent VLANs. -/
  | igpAdjacency
  /-- Over a session with another autonomous system. -/
  | ebgp
  /-- Over a session within the autonomous system. -/
  | ibgp
  /-- Between the two processes of a router. -/
  | redistribution
  /-- From the subnet to a process that originates it. -/
  | origin
deriving DecidableEq, Repr, Inhabited

namespace SpreadKind

/-- The edge joins processes of different routers. -/
def isAdjacency : SpreadKind → Bool
  | igpAdjacency | ebgp | ibgp => true
  | redistribution | origin => false

/-- The kind of edge of a BGP session. -/
def ofSession : SessionType → SpreadKind
  | .ebgp => ebgp
  | .ibgp => ibgp

/-- The name of the kind. -/
def text : SpreadKind → String
  | igpAdjacency => "IgpAdjacency"
  | ebgp => "EBgp"
  | ibgp => "IBgp"
  | redistribution => "Redistribution"
  | origin => "Origin"

end SpreadKind

/-- An edge of the taint graph. -/
structure Spread where
  tail : TaintNode
  head : TaintNode
  kind : SpreadKind
deriving DecidableEq, Repr, Inhabited

/-! ### The graph of a network -/

namespace Network

/-- The processes of a router. -/
def processesOf (r : Router) : List Process :=
  (if r.ospf.isSome then [⟨.ospf, r.id⟩] else []) ++ if r.bgp.isSome then [⟨.bgp, r.id⟩] else []

/-- The processes of a network. -/
def processes (net : Network) : List Process := net.routers.flatMap processesOf

/-- The ways out of the OSPF process of a router to those on adjacent VLANs. -/
def adjacencySpreads (net : Network) (l2 : Layer2) (r : Router) : List Spread :=
  (r.ospf.elim [] (·.active.toList)).flatMap fun num =>
    ((l2.adjacent ⟨r.id, num⟩).filter fun v => net.ospfActive v && v.router != r.id).map fun v =>
      ⟨.process ⟨.ospf, r.id⟩, .process ⟨.ospf, v.router⟩, .igpAdjacency⟩

/-- The ways out of the BGP process of a router to its peers. -/
def sessionSpreads (r : Router) : List Spread :=
  r.sessions.map fun s =>
    ⟨.process ⟨.bgp, r.id⟩, .process ⟨.bgp, s.peer⟩, .ofSession s.type⟩

/-- The ways between the processes of a router. -/
def redistributionSpreads (r : Router) : List Spread :=
  (if r.ospfFromBgp then
    [⟨.process ⟨.bgp, r.id⟩, .process ⟨.ospf, r.id⟩, .redistribution⟩] else []) ++
  if r.bgpFromOspf then
    [⟨.process ⟨.ospf, r.id⟩, .process ⟨.bgp, r.id⟩, .redistribution⟩] else []

/-- The ways from a subnet to the processes of a router that originate it. -/
def originSpreads (s : Subnet) (r : Router) : List Spread :=
  (if r.ospfOriginates s then [⟨.subnet s, .process ⟨.ospf, r.id⟩, .origin⟩] else []) ++
  if r.bgpOriginates s then [⟨.subnet s, .process ⟨.bgp, r.id⟩, .origin⟩] else []

/-- All ways of a route, of which some may join the same nodes. -/
def spreads (net : Network) (l2 : Layer2) (s : Option Subnet) : List Spread :=
  net.routers.flatMap fun r =>
    net.adjacencySpreads l2 r ++ sessionSpreads r ++ redistributionSpreads r ++
      s.elim [] (originSpreads · r)

end Network

/-- The edges of a list that do not join the nodes of an edge before them. -/
def distinctSpreads : List Spread → List Spread
  | [] => []
  | e :: l => e :: (distinctSpreads l).filter fun f => (f.tail, f.head) ≠ (e.tail, e.head)

/-- The taint graph of a subnet. -/
structure TaintGraph where
  /-- The subnet, if there is one. -/
  subnet : Option Subnet
  nodes : List TaintNode
  edges : List Spread
  /-- The taint was spread. -/
  hasRun : Bool
  /-- The states that the taint entered: nodes, with whether they were entered over iBGP. -/
  reached : List (TaintNode × Bool)
deriving Inhabited

namespace TaintGraph

/-- The graph of a network, before the taint is spread. -/
def ofNetwork (net : Network) (l2 : Layer2) (s : Option Subnet) : TaintGraph :=
  let nodes := net.processes.map .process ++ s.toList.map .subnet
  { subnet := s
    nodes
    edges := distinctSpreads
      ((net.spreads l2 s).filter fun e => decide (e.tail ∈ nodes) && decide (e.head ∈ nodes))
    hasRun := false
    reached := [] }

/-- In the state, the route is passed on along the edge. -/
def follows (st : TaintNode × Bool) (e : Spread) : Bool :=
  decide (e.tail = st.1) && !(st.2 && e.kind == .ibgp)

/-- The states entered from a state. -/
def stateStep (g : TaintGraph) (st : TaintNode × Bool) : List (TaintNode × Bool) :=
  (g.edges.filter (follows st)).map fun e => (e.head, e.kind == .ibgp)

/-- Spread the taint from the subnet. -/
def taint (g : TaintGraph) : TaintGraph :=
  { g with
    hasRun := true
    reached := closure g.stateStep (g.nodes.flatMap fun v => [(v, false), (v, true)])
      (g.subnet.toList.map fun s => (.subnet s, false)) }

/-- The node was entered. -/
def isReached (g : TaintGraph) (v : TaintNode) : Bool := g.reached.any (·.1 = v)

/-- The route can reach the process; false for processes that do not exist. -/
def isTainted (g : TaintGraph) (p : Process) : Bool := g.isReached (.process p)

/-- The route is passed on along the edge. -/
def isFollowed (g : TaintGraph) (e : Spread) : Bool := g.reached.any (follows · e)

/-- The process originates the subnet. -/
def isOrigin (g : TaintGraph) (v : TaintNode) : Bool :=
  g.edges.any fun e => decide (g.subnet.map .subnet = some e.tail) && decide (e.head = v)

/-- The node was entered from a process of another router, and does not originate the subnet. -/
def reachedByAdjacency (g : TaintGraph) (v : TaintNode) : Bool :=
  !g.isOrigin v &&
    g.edges.any fun e => decide (e.head = v) && e.kind.isAdjacency && g.isFollowed e

/-- The process learned the route from a process of another router. -/
def taintedByAdjacency (g : TaintGraph) (p : Process) : Bool := g.reachedByAdjacency (.process p)

/-- The route is passed on from `p` to `q`. -/
def propagates (g : TaintGraph) (p q : Process) : Bool :=
  g.edges.any fun e =>
    decide (e.tail = .process p) && decide (e.head = .process q) && g.isFollowed e

/-- The tainted processes in order, those of OSPF before those of BGP. -/
def tainted (g : TaintGraph) : OrdSet Process :=
  .ofList (g.nodes.filterMap fun v =>
    match v with
    | .process p => if g.isTainted p then some p else none
    | .subnet _ => none)

end TaintGraph

end NetReach
