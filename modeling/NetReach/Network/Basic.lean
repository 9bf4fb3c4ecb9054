import NetReach.Address.Basic
import NetReach.Identifier
import NetReach.Ordered.Map
import NetReach.Policy

/-! # Networks

A network whose references are resolved: interfaces know the router at their other end, VLANs the
interfaces that belong to them, and BGP sessions the VLAN that carries the address of the peer.
Routers are found by their position; parts of unknown routers do not exist. -/

namespace NetReach

/-- The interface of a router towards one of its neighbours. -/
structure Interface where
  router : RouterId
  neighbor : RouterId
  /-- The number of the VLAN that the interface belongs to. -/
  num : Option UInt32
deriving DecidableEq, Inhabited

/-- The VLAN that the interface belongs to. -/
def Interface.vlan (i : Interface) : Option VlanId := i.num.map (⟨i.router, ·⟩)

/-- A VLAN of a router. -/
structure Vlan where
  id : VlanId
  /-- The address of the router on this VLAN. -/
  addr : Cidr
  /-- The neighbours of the interfaces that belong to the VLAN, in the order they are given. -/
  members : List RouterId
deriving DecidableEq, Inhabited

/-- The OSPF process of a router. -/
structure OspfProcess where
  /-- The numbers of the VLANs on which the process is active. -/
  active : OrdSet UInt32
  origins : OrdSet Subnet
  /-- The other protocols from which routes are redistributed. -/
  redistribute : OrdSet Protocol
deriving DecidableEq, Inhabited

/-- A BGP session of a router. -/
structure Session where
  /-- The address of the peer. -/
  addr : IpAddr
  type : SessionType
  peer : RouterId
  /-- The VLAN of the peer that carries the address. -/
  peerVlan : VlanId
  /-- The first VLAN of the router whose block holds the address. Without one the session depends
  on the interior protocol. -/
  localVlan : Option VlanId
  /-- The policy for routes from the peer. -/
  importPolicy : Option String
  /-- The policy for routes to the peer. -/
  exportPolicy : Option String
deriving DecidableEq, Inhabited

/-- The address of the peer lies in the block of a VLAN of the router. -/
def Session.isDirect (s : Session) : Bool := s.localVlan.isSome

/-- The BGP process of a router. -/
structure BgpProcess where
  /-- First the sessions with other autonomous systems, then those within. -/
  sessions : List Session
  origins : OrdSet Subnet
  /-- The other protocols from which routes are redistributed. -/
  redistribute : OrdSet Protocol
deriving DecidableEq, Inhabited

/-- The first session towards `peer`. -/
def BgpProcess.sessionTo? (b : BgpProcess) (peer : RouterId) : Option Session :=
  b.sessions.find? (·.peer = peer)

/-- A router, or a plain switch if it runs no process. -/
structure Router where
  id : RouterId
  name : String
  /-- The interfaces by neighbour. -/
  ifaces : OrdMap RouterId Interface
  /-- The VLANs by number. -/
  vlans : OrdMap UInt32 Vlan
  ospf : Option OspfProcess
  bgp : Option BgpProcess
  /-- The subnets attached to the router. -/
  subnets : OrdSet Subnet
deriving DecidableEq, Inhabited

namespace Router

/-- The router runs no routing process. -/
def isSwitch (r : Router) : Bool := r.ospf.isNone && r.bgp.isNone

/-- The subnet `s` is attached to the router. -/
def attaches (r : Router) (s : Subnet) : Bool := decide (s ∈ r.subnets)

/-- OSPF is active on the VLAN with the number `num`. -/
def ospfActive (r : Router) (num : UInt32) : Bool := r.ospf.any fun o => decide (num ∈ o.active)

/-- The OSPF process originates `s`. -/
def ospfOriginates (r : Router) (s : Subnet) : Bool := r.ospf.any fun o => decide (s ∈ o.origins)

/-- The BGP process originates `s`. -/
def bgpOriginates (r : Router) (s : Subnet) : Bool := r.bgp.any fun b => decide (s ∈ b.origins)

/-- The OSPF process redistributes the routes of BGP. -/
def ospfFromBgp (r : Router) : Bool := r.ospf.any fun o => decide (.bgp ∈ o.redistribute)

/-- The BGP process redistributes the routes of OSPF. -/
def bgpFromOspf (r : Router) : Bool := r.bgp.any fun b => decide (.ospf ∈ b.redistribute)

/-- All BGP sessions of the router. -/
def sessions (r : Router) : List Session := r.bgp.elim [] (·.sessions)

end Router

/-- A network. -/
structure Network where
  /-- The routers, each at the position that is its identifier. -/
  routers : List Router
  policies : OrdMap String Policy
deriving DecidableEq, Inhabited

namespace Network

/-- The router with the identifier `id`. -/
def router? (net : Network) (id : RouterId) : Option Router := net.routers[id]?

/-- The identifier of the router with the name `name`. -/
def routerId? (net : Network) (name : String) : Option RouterId :=
  net.routers.findIdx? (·.name = name)

/-- The name of a router; unknown ones are called `?`. -/
def routerName (net : Network) (id : RouterId) : String := (net.router? id).elim "?" (·.name)

/-- A VLAN by its identifier. -/
def vlan? (net : Network) (v : VlanId) : Option Vlan :=
  (net.router? v.router).bind (·.vlans.get? v.num)

/-- All VLANs, by router and number. -/
def vlans (net : Network) : List Vlan := net.routers.flatMap (·.vlans.values)

/-- The interface of router `r` towards router `n`. -/
def iface? (net : Network) (r n : RouterId) : Option Interface :=
  (net.router? r).bind (·.ifaces.get? n)

/-- The interface at the other end of the link. -/
def peerIface? (net : Network) (i : Interface) : Option Interface := net.iface? i.neighbor i.router

/-- The VLANs at the other ends of the links of `v`, in the order of the configuration. -/
def linkedVlans (net : Network) (v : Vlan) : List VlanId :=
  v.members.filterMap fun n =>
    ((net.iface? v.id.router n).bind net.peerIface?).bind (·.vlan)

/-- A router is a plain switch. -/
def isSwitch (net : Network) (id : RouterId) : Bool := (net.router? id).any (·.isSwitch)

/-- OSPF is active on a VLAN. -/
def ospfActive (net : Network) (v : VlanId) : Bool :=
  (net.router? v.router).any (·.ospfActive v.num)

/-- A policy by its name. -/
def policy? (net : Network) (name : String) : Option Policy := net.policies.get? name

/-- All subnets that are attached to a router or originated by a process. -/
def subnets (net : Network) : OrdSet Subnet :=
  net.routers.foldl (fun s r =>
    ((s.union r.subnets).union (r.ospf.elim ∅ (·.origins))).union (r.bgp.elim ∅ (·.origins))) ∅

/-- The subnet is attached to a router or originated by a process. -/
def knows (net : Network) (s : Subnet) : Bool :=
  net.routers.any fun r => r.attaches s || r.ospfOriginates s || r.bgpOriginates s

end Network

end NetReach
