import NetReach.PathGraph.Wiring

/-! # The coarse path graph

One vertex for every VLAN, OSPF process and BGP session. The vertex of a VLAN stands for packets
that enter and leave the router alike. -/

namespace NetReach.Scene

/-- The vertex of a session of the router. -/
def sessionVertex (r : Router) (s : Session) : Vertex := .main (.bgpSession r.id s.peer)

/-- The vertices of a router. -/
def coarseVerticesOf (r : Router) : List Vertex :=
  r.vlans.values.map (fun v => .main (.vlan v.id)) ++
    (if r.ospf.isSome then [.main (.ospf r.id)] else []) ++ r.sessions.map (sessionVertex r)

/-- The edges out of a VLAN of the router. -/
def coarseVlanWires (c : Scene) (r : Router) (v : Vlan) : List Wire :=
  let here : Vertex := .main (.vlan v.id)
  (c.net.linkedVlans v).map (fun w => .plain .physical here (.main (.vlan w))) ++
    (if c.ospfTainted r then [.plain .ingress here (.main (.ospf r.id))] else []) ++
    (if c.bgpTainted r then r.sessions.map fun s => .plain .ingress here (sessionVertex r s)
      else []) ++
    if c.ospfDelivers r || c.bgpDelivers r then [.plain .delivery here c.destination] else []

/-- The edges of the OSPF process of the router. -/
def coarseOspfWires (c : Scene) (r : Router) : List Wire :=
  let here : Vertex := .main (.ospf r.id)
  if r.ospf.isNone then []
  else
    (c.ospfEgress r).map (fun v => .egress here (.main (.vlan v))) ++
    (if c.ospfTainted r && r.attaches c.src then [.plain .origin c.source here] else []) ++
    if r.ospfFromBgp && c.bgpTainted r then
      r.sessions.map fun s => .plain .redistribution here (sessionVertex r s)
    else []

/-- The edges of a session of the router. The next hop is the local VLAN, or OSPF without one. -/
def coarseSessionWires (c : Scene) (r : Router) (s : Session) : List Wire :=
  let here := sessionVertex r s
  let nextHop : Vertex := .main (s.localVlan.elim (.ospf r.id) .vlan)
  (if c.bgpTainted r && r.attaches c.src then [.plain .origin c.source here] else []) ++
  if c.learnsFrom r s then
    [{ arc := ⟨here, nextHop⟩
       edge := { kind := .dependency, policies := c.sessionPolicies r s }
       refused := some (c.nextHopWarning r s) }]
  else []

/-- All edges of a router. -/
def coarseWiresOf (c : Scene) (r : Router) : List Wire :=
  r.vlans.values.flatMap (c.coarseVlanWires r) ++ c.coarseOspfWires r ++
    r.sessions.flatMap (c.coarseSessionWires r)

/-- The coarse graph of a network. -/
def coarse (c : Scene) : Wiring :=
  .ofWires ((PathGraph.empty .coarse c.dst c.src).addVertices
      (c.net.routers.flatMap coarseVerticesOf))
    (c.net.routers.flatMap c.coarseWiresOf)

end NetReach.Scene
