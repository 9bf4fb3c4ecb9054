import NetReach.Config.Basic
import NetReach.Network.Basic
import NetReach.Network.LinkError
import NetReach.Warning

/-! # Linking

A configuration becomes a network in two steps that do not depend on each other: `linkError?` looks
for the first reference that cannot be resolved, and `assemble` resolves all of them, leaving out
those it cannot. `link` assembles a configuration without errors.

The search goes through the names of the routers; then, router by router, through the VLANs, the
interfaces and OSPF; then through both ends of every link; then the addresses; then the BGP sessions
of every router; at last redistribution. -/

namespace NetReach

/-- The first item whose key is that of an item before it. -/
def firstRepeated? {α β : Type} [DecidableEq β] (key : α → β) : List α → List β → Option α
  | [], _ => none
  | a :: l, seen => if key a ∈ seen then some a else firstRepeated? key l (key a :: seen)

/-! ### Routers without their BGP sessions -/

namespace RouterConfig

/-- The interfaces of the router `id`, where `names` are the routers in order. -/
def linkIfaces (names : List String) (id : RouterId) (c : RouterConfig) : List Interface :=
  c.ifaces.filterMap fun i => (names.idxOf? i.neighbor).map fun n => ⟨id, n, i.vlan⟩

/-- The VLANs of the router, where `ifaces` are its interfaces. -/
def linkVlans (id : RouterId) (c : RouterConfig) (ifaces : List Interface) : List Vlan :=
  c.vlans.map fun v =>
    ⟨⟨id, v.num⟩, v.addr, (ifaces.filter (·.num = some v.num)).map (·.neighbor)⟩

/-- Everything of the router but BGP. -/
def link (names : List String) (id : RouterId) (c : RouterConfig) : Router :=
  let ifaces := c.linkIfaces names id
  { id
    name := c.name
    ifaces := .ofList (ifaces.map fun i => (i.neighbor, i))
    vlans := .ofList ((c.linkVlans id ifaces).map fun v => (v.id.num, v))
    ospf := c.ospf.map fun o =>
      ⟨.ofList o.active, .ofList o.origins, .ofList (o.redistribute.filter (· ≠ .ospf))⟩
    bgp := none
    subnets := .ofList c.subnets }

/-- The first interface that cannot be linked, where `seen` are the neighbours before it. -/
def ifaceError? (names : List String) (c : RouterConfig) :
    List InterfaceConfig → List String → Option LinkError
  | [], _ => none
  | i :: is, seen =>
    if i.neighbor ∉ names then some (.unknownNeighbor c.name i.neighbor)
    else if i.neighbor = c.name then some (.selfInterface c.name)
    else
      match i.vlan.filter (· ∉ c.vlans.map (·.num)) with
      | some num => some (.unknownVlan c.name num)
      | none =>
        if i.neighbor ∈ seen then some (.duplicateInterface c.name i.neighbor)
        else ifaceError? names c is (i.neighbor :: seen)

/-- The first fault of the router on its own. -/
def linkError? (names : List String) (c : RouterConfig) : Option LinkError :=
  ((firstRepeated? (·.num) c.vlans []).map fun v => .duplicateVlan c.name v.num)
    <|> c.ifaceError? names c.ifaces []
    <|> ((c.ospf.elim [] (·.active)).find? (· ∉ c.vlans.map (·.num))).map (.unknownVlan c.name)

end RouterConfig

/-! ### Links and addresses -/

/-- An interface without a counterpart, or with one that disagrees about VLANs. -/
def pairingError? (routers : List Router) (r : Router) (i : Interface) : Option LinkError :=
  match routers[i.neighbor]? with
  | none => none
  | some n =>
    match n.ifaces.get? r.id with
    | none => some (.unpairedInterface r.name n.name)
    | some j =>
      if i.num.isSome = j.num.isSome then none
      else some (.inconsistentVlanMembership r.name n.name)

/-- An address that two VLANs carry. -/
def addressError? (routers : List Router) : Option LinkError :=
  (firstRepeated? (·.addr.addr) (routers.flatMap (·.vlans.values)) []).map fun v =>
    .duplicateAddress ((routers[v.id.router]?).elim "?" (·.name)) v.addr.addr

/-- The VLAN that carries an address. -/
def vlanWithAddress? (routers : List Router) (a : IpAddr) : Option VlanId :=
  ((routers.flatMap (·.vlans.values)).find? (·.addr.addr = a)).map (·.id)

/-! ### BGP sessions -/

namespace NeighborConfig

/-- The VLAN of another router than `r` that carries the address of the neighbour. -/
def peerVlan? (routers : List Router) (r : Router) (n : NeighborConfig) : Option VlanId :=
  (vlanWithAddress? routers n.addr).filter (·.router ≠ r.id)

/-- The first VLAN of the router `r` whose block holds the address of the neighbour. -/
def localVlan? (r : Router) (n : NeighborConfig) : Option VlanId :=
  (r.vlans.values.find? (·.addr.contains n.addr)).map (·.id)

/-- The session of the router `r` with the neighbour. -/
def link? (routers : List Router) (r : Router) (t : SessionType) (n : NeighborConfig) :
    Option Session :=
  (n.peerVlan? routers r).map fun v =>
    ⟨n.addr, t, v.router, v, n.localVlan? r, n.importPolicy, n.exportPolicy⟩

/-- The first fault of the neighbour of the router `r`. -/
def linkError? (c : NetworkConfig) (routers : List Router) (r : Router) (n : NeighborConfig) :
    Option LinkError :=
  match n.peerVlan? routers r with
  | none => some (.unknownBgpPeer r.name n.addr)
  | some v =>
    match c.routers[v.router]? with
    | none => none
    | some p =>
      if p.bgp.isNone then some (.peerWithoutBgp r.name p.name)
      else
        ((n.importPolicy.toList ++ n.exportPolicy.toList).find? (!c.policies.contains ·)).map
          (.unknownPolicy r.name)

/-- What to report about a neighbour of the router `r` that can be linked. -/
def warning? (r : Router) (n : NeighborConfig) : Option Warning :=
  if (n.localVlan? r).isNone && r.ospf.isNone then some (.unreachablePeer n.addr r.name) else none

end NeighborConfig

/-- The router with its BGP sessions. -/
def Router.withBgp (routers : List Router) (r : Router) (c : RouterConfig) : Router :=
  { r with bgp := c.bgp.map fun b =>
      ⟨b.neighbors.filterMap fun n => n.2.link? routers r n.1, .ofList b.origins,
        .ofList (b.redistribute.filter (· ≠ .bgp))⟩ }

/-- A process that redistributes from a protocol that the router does not run. -/
def redistributionError? (r : Router) : Option LinkError :=
  if r.ospfFromBgp && r.bgp.isNone then some (.invalidRedistribution r.name .bgp)
  else if r.bgpFromOspf && r.ospf.isNone then some (.invalidRedistribution r.name .ospf)
  else none

/-! ### Networks -/

namespace NetworkConfig

/-- The names of the routers in order. -/
def names (c : NetworkConfig) : List String := c.routers.map (·.name)

/-- The routers without their BGP sessions. -/
def baseRouters (c : NetworkConfig) : List Router :=
  c.routers.zipIdx.map fun (r, id) => r.link c.names id

/-- All routers with their BGP sessions. -/
def linkedRouters (c : NetworkConfig) : List Router :=
  let base := c.baseRouters
  base.zipWith (Router.withBgp base) c.routers

/-- The network in which all references are resolved that can be. -/
def assemble (c : NetworkConfig) : Network := ⟨c.linkedRouters, c.policies⟩

/-- The faults that are looked for before any BGP session. -/
def baseError? (c : NetworkConfig) : Option LinkError :=
  let base := c.baseRouters
  ((firstRepeated? id c.names []).map .duplicateRouter)
    <|> c.routers.findSome? (·.linkError? c.names)
    <|> base.findSome? (fun r => r.ifaces.values.findSome? (pairingError? base r))
    <|> addressError? base

/-- Every router with each of its BGP neighbours, in the order in which they are linked. -/
def bgpNeighbors (c : NetworkConfig) : List (Router × NeighborConfig) :=
  (c.baseRouters.zip c.routers).flatMap fun (r, rc) =>
    (rc.bgp.elim [] (·.neighbors)).map fun n => (r, n.2)

/-- The first fault of a configuration. -/
def linkError? (c : NetworkConfig) : Option LinkError :=
  let base := c.baseRouters
  c.baseError?
    <|> c.bgpNeighbors.findSome? (fun (r, n) => n.linkError? c base r)
    <|> c.linkedRouters.findSome? redistributionError?

/-- The network of a configuration. -/
def link (c : NetworkConfig) : Except LinkError Network :=
  match c.linkError? with
  | some e => .error e
  | none => .ok c.assemble

/-- What linking reports, up to the first fault. -/
def linkWarnings (c : NetworkConfig) : List Warning :=
  let base := c.baseRouters
  if c.baseError?.isSome then []
  else (c.bgpNeighbors.takeWhile fun (r, n) => (n.linkError? c base r).isNone).filterMap
    fun (r, n) => n.warning? r

end NetworkConfig

end NetReach
