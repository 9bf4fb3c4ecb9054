import NetReach.PathGraph.Wiring

/-! # The fine path graph

Every VLAN and process is split into an incoming and an outgoing vertex. The routing decision of a
router hands packets that enter it to its processes. A session with a distant peer sends packets
into the layer of its next hop, a copy of the interior topology that they leave when they arrive at
the peer. -/

namespace NetReach.Scene

/-- The sessions over which the router learns the route. -/
def learningSessions (c : Scene) (r : Router) : List Session := r.sessions.filter (c.learnsFrom r)

/-- The session needs the layer of its next hop. -/
def needsLayer (r : Router) (s : Session) : Bool := !s.isDirect && r.ospf.isSome

/-- The VLANs of the next hops that need a layer. -/
def layers (c : Scene) : OrdSet VlanId :=
  .ofList (c.net.routers.flatMap fun r =>
    if c.bgpTainted r then
      ((c.learningSessions r).filter (needsLayer r)).map (·.peerVlan)
    else [])

/-! ### Vertices -/

/-- The two vertices of every VLAN of the router. -/
def vlanVertices (place : VertexKind → Vertex) (r : Router) : List Vertex :=
  r.vlans.values.flatMap fun v => [place (.vlanIn v.id), place (.vlanOut v.id)]

/-- The vertices of a router in the main layer. -/
def fineVerticesOf (c : Scene) (r : Router) : List Vertex :=
  vlanVertices .main r ++ (if r.isSwitch then [] else [.main (.rib r.id)]) ++
    (if r.ospf.isSome && c.ospfTainted r then [.main (.ospfIn r.id), .main (.ospfOut r.id)]
      else []) ++
    if r.bgp.isSome && c.bgpTainted r then
      .main (.bgpIn r.id) :: (c.learningSessions r).map fun s => .main (.bgpOut r.id s.peer)
    else []

/-- The vertices of a router in the layer of a next hop. -/
def layerVerticesOf (layer : VlanId) (r : Router) : List Vertex :=
  vlanVertices (.nextHop layer) r ++
    if r.ospf.isSome && r.id != layer.router then
      [.nextHop layer (.ospfIn r.id), .nextHop layer (.ospfOut r.id)]
    else []

/-! ### Edges of the main layer -/

/-- The edges of a VLAN of the router. -/
def fineVlanWires (c : Scene) (r : Router) (v : Vlan) : List Wire :=
  (if r.isSwitch then .plain .switching (.main (.vlanIn v.id)) (.main (.vlanOut v.id))
    else .plain .ingress (.main (.vlanIn v.id)) (.main (.rib r.id))) ::
  (c.net.linkedVlans v).map fun w => .plain .physical (.main (.vlanOut v.id)) (.main (.vlanIn w))

/-- The edges of the routing decision of the router. -/
def fineRibWires (c : Scene) (r : Router) : List Wire :=
  (if r.attaches c.src then [.plain .origin c.source (.main (.rib r.id))] else []) ++
    [.plain .lookup (.main (.rib r.id)) (.main (.ospfIn r.id)),
      .plain .lookup (.main (.rib r.id)) (.main (.bgpIn r.id))]

/-- The edges of the OSPF process of the router. -/
def fineOspfWires (c : Scene) (r : Router) : List Wire :=
  if r.ospf.isNone then []
  else
    (if c.taint.taintedByAdjacency ⟨.ospf, r.id⟩ then
      [.plain .relay (.main (.ospfIn r.id)) (.main (.ospfOut r.id))] else []) ++
    (c.ospfEgress r).map (fun v => .egress (.main (.ospfOut r.id)) (.main (.vlanOut v))) ++
    (if c.ospfDelivers r then [.plain .delivery (.main (.ospfIn r.id)) c.destination] else []) ++
    if r.ospfFromBgp then
      [.plain .redistribution (.main (.ospfIn r.id)) (.main (.bgpIn r.id))] else []

/-- The edges of a session of the router. The next hop is the local VLAN, or without one OSPF in the
layer of the VLAN of the peer. -/
def fineSessionWires (c : Scene) (r : Router) (s : Session) : List Wire :=
  let out : Vertex := .main (.bgpOut r.id s.peer)
  let nextHop : Vertex :=
    s.localVlan.elim (.nextHop s.peerVlan (.ospfIn r.id)) fun v => .main (.vlanOut v)
  [{ arc := ⟨.main (.bgpIn r.id), out⟩
     edge := { kind := .relay, policies := c.sessionPolicies r s } },
   { arc := ⟨out, nextHop⟩
     edge := { kind := .dependency }
     refused := some (c.nextHopWarning r s) }]

/-- The edges of the BGP process of the router. -/
def fineBgpWires (c : Scene) (r : Router) : List Wire :=
  (if c.bgpDelivers r then [.plain .delivery (.main (.bgpIn r.id)) c.destination] else []) ++
    (if r.bgpFromOspf then
      [.plain .redistribution (.main (.bgpIn r.id)) (.main (.ospfIn r.id))] else []) ++
    (c.learningSessions r).flatMap (c.fineSessionWires r)

/-- All edges of a router in the main layer. -/
def fineWiresOf (c : Scene) (r : Router) : List Wire :=
  r.vlans.values.flatMap (c.fineVlanWires r) ++ c.fineRibWires r ++ c.fineOspfWires r ++
    c.fineBgpWires r

/-! ### Edges of the layers -/

/-- The edges of a VLAN of the router in the layer of a next hop. Packets leave the layer as soon as
they arrive at the peer. -/
def layerVlanWires (c : Scene) (layer : VlanId) (r : Router) (v : Vlan) : List Wire :=
  let place := Vertex.nextHop layer
  (if r.id = layer.router then
      .plain .nextHopExit (place (.vlanIn v.id)) (.main (.bgpIn layer.router))
    else if r.isSwitch then .plain .switching (place (.vlanIn v.id)) (place (.vlanOut v.id))
    else .plain .ingress (place (.vlanIn v.id)) (place (.ospfIn r.id))) ::
  (c.net.linkedVlans v).map fun w => .plain .physical (place (.vlanOut v.id)) (place (.vlanIn w))

/-- All edges of a router in the layer of a next hop. -/
def layerWiresOf (c : Scene) (layer : VlanId) (r : Router) : List Wire :=
  let place := Vertex.nextHop layer
  r.vlans.values.flatMap (c.layerVlanWires layer r) ++
    if r.ospf.isSome && r.id != layer.router then
      .plain .relay (place (.ospfIn r.id)) (place (.ospfOut r.id)) ::
        (c.ospfEgress r).map fun v => .egress (place (.ospfOut r.id)) (place (.vlanOut v))
    else []

/-- The fine graph of a network. -/
def fine (c : Scene) : Wiring :=
  let layers := c.layers.toList
  .ofWires ((PathGraph.empty .fine c.dst c.src).addVertices
      (c.net.routers.flatMap c.fineVerticesOf ++
        layers.flatMap fun l => c.net.routers.flatMap (layerVerticesOf l)))
    (c.net.routers.flatMap c.fineWiresOf ++
      layers.flatMap fun l => c.net.routers.flatMap (c.layerWiresOf l))

end NetReach.Scene
