import NetReach.PathGraph.Routing
import NetReach.Taint

/-! # Reports

Networks, domains, taint graphs and path graphs in lines of text, with routers by their names. -/

namespace NetReach

/-- The texts with `, ` between any two. -/
def commaList (ts : List String) : String := ", ".intercalate ts

/-- The number in decimal. -/
def numberText (n : UInt32) : String := toString n.toNat

namespace Network

/-- A VLAN, like `R1:VLAN:10`. -/
def vlanText (net : Network) (v : VlanId) : String :=
  net.routerName v.router ++ ":VLAN:" ++ numberText v.num

/-- A process, like `R1:OSPF`. -/
def processText (net : Network) (p : Process) : String :=
  net.routerName p.router ++ ":" ++ p.protocol.text

/-- A decision point, like `R1:BGP:R2:O`. -/
def kindText (net : Network) : VertexKind → String
  | .destination s => "DST:" ++ s
  | .source s => "SRC:" ++ s
  | .vlan v => net.vlanText v
  | .ospf r => net.routerName r ++ ":OSPF"
  | .bgpSession r p => net.routerName r ++ ":BGP:" ++ net.routerName p
  | .rib r => net.routerName r ++ ":RIB"
  | .vlanIn v => net.vlanText v ++ ":I"
  | .vlanOut v => net.vlanText v ++ ":O"
  | .ospfIn r => net.routerName r ++ ":OSPF:I"
  | .ospfOut r => net.routerName r ++ ":OSPF:O"
  | .bgpIn r => net.routerName r ++ ":BGP:I"
  | .bgpOut r p => net.routerName r ++ ":BGP:" ++ net.routerName p ++ ":O"

/-- A vertex; in the layer of a next hop the VLAN of the layer comes first, like
`[R2:10] R1:OSPF:I`. -/
def vertexText (net : Network) (v : Vertex) : String :=
  match v.layer with
  | .main => net.kindText v.kind
  | .nextHop l =>
    "[" ++ net.routerName l.router ++ ":" ++ numberText l.num ++ "] " ++ net.kindText v.kind

/-- A path, like `SRC:s1 => R1:OSPF => DST:s2`. -/
def pathText (net : Network) (p : List Vertex) : String :=
  " => ".intercalate (p.map net.vertexText)

/-- The routers of a path in turn, each stay on a router once; subnets are passed over. -/
def routerPath (p : List Vertex) : List RouterId := onceInARow (p.filterMap (·.router?))
where
  /-- The list without the items that equal the one before. -/
  onceInARow : List RouterId → List RouterId
    | [] => []
    | [a] => [a]
    | a :: b :: l => if a = b then onceInARow (b :: l) else a :: onceInARow (b :: l)

/-- The names of the routers of a path in turn. -/
def routerPathNames (net : Network) (p : List Vertex) : List String :=
  (routerPath p).map net.routerName

/-- The line of a router. -/
def routerLine (net : Network) (r : Router) : String :=
  let vlans := r.vlans.values.map fun v => numberText v.id.num ++ ": " ++ v.addr.text
  let ospf (o : OspfProcess) : String :=
    ", OSPF active on [" ++ commaList (o.active.toList.map numberText) ++ "]" ++
      if r.ospfFromBgp then " (redistributes BGP)" else ""
  let session (s : Session) : String :=
    (match s.type with | .ebgp => "eBGP " | .ibgp => "iBGP ") ++ net.routerName s.peer
  let bgp (b : BgpProcess) : String :=
    ", BGP sessions [" ++ commaList (b.sessions.map session) ++ "]" ++
      if r.bgpFromOspf then " (redistributes OSPF)" else ""
  r.name ++ ": vlans [" ++ commaList vlans ++ "]" ++ r.ospf.elim "" ospf ++ r.bgp.elim "" bgp ++
    (if r.isSwitch then ", switch" else "") ++
    if r.subnets.isEmpty then "" else ", subnets [" ++ commaList r.subnets.toList ++ "]"

/-- One line for every router. -/
def lines (net : Network) : List String := net.routers.map net.routerLine

/-- One line for every VLAN, with the VLANs adjacent to it. -/
def layer2Lines (net : Network) (l2 : Layer2) : List String :=
  net.vlans.map fun v =>
    net.vlanText v.id ++ " <-> [" ++ commaList ((l2.adjacent v.id).map net.vlanText) ++ "]"

/-- One line for every process, in the order of the lines. -/
def taintLines (net : Network) (g : TaintGraph) : List String :=
  (g.nodes.filterMap fun v =>
    match v with
    | .process p =>
      some (net.processText p ++ (if g.isTainted p then " tainted" else "") ++
        if g.taintedByAdjacency p then " (by adjacency)" else "")
    | .subnet _ => none).mergeSort fun a b => (compare a b).isLE

/-- One line for every edge of a path graph. -/
def pathGraphLines (net : Network) (g : PathGraph) : List String :=
  g.edges.entries.map fun (a, e) =>
    net.vertexText a.tail ++ " -> " ++ net.vertexText a.head ++ " (" ++ e.kind.text ++ ")"

end Network

/-- The attributes of a signature in one line. -/
def Signature.text (s : Signature) : String :=
  "local pref: " ++ numberText s.localPref ++ ", length: " ++ numberText s.len ++ ", cost: " ++
    numberText s.cost ++
    if s.tags.isEmpty then "" else ", tags: \x7b" ++ commaList s.tags.toList ++ "\x7d"

end NetReach
