import NetReach.Address.Basic
import NetReach.Identifier
import NetReach.Ordered.Map
import NetReach.Policy

/-! # Configurations

The description of a network before its references are resolved: routers, VLANs and policies are
only named. A configuration is built up from `NetworkConfig.empty` by the functions of this module,
or read from a document, and becomes a network by linking. -/

namespace NetReach

/-- An expected outcome: whether `origin` reaches `destination` while some links have failed, and
over which routers. -/
structure ReachabilityCase where
  origin : Subnet
  destination : Subnet
  /-- The failed links, as pairs of router names. -/
  failures : List (String × String) := []
  /-- Whether some path should exist. -/
  reachable : Bool
  /-- The routers on the selected path, if they are to be checked. -/
  path : Option (List String) := none
deriving DecidableEq, Inhabited

/-- An interface towards a neighbouring router. -/
structure InterfaceConfig where
  /-- The name of the neighbour. -/
  neighbor : String
  /-- The number of the VLAN that the interface belongs to. -/
  vlan : Option UInt32 := none
deriving DecidableEq, Inhabited

/-- A VLAN and the address of the router on it. -/
structure VlanConfig where
  num : UInt32
  addr : Cidr
deriving DecidableEq, Inhabited

/-- An OSPF process. -/
structure OspfConfig where
  /-- The numbers of the VLANs on which the process is active. -/
  active : List UInt32 := []
  /-- The subnets that the process originates. -/
  origins : List Subnet := []
  /-- The protocols from which routes are redistributed. -/
  redistribute : List Protocol := []
deriving DecidableEq, Inhabited

/-- A neighbour of a BGP process. -/
structure NeighborConfig where
  /-- The address of the peer. -/
  addr : IpAddr
  /-- The policy for routes from the peer. -/
  importPolicy : Option String := none
  /-- The policy for routes to the peer. -/
  exportPolicy : Option String := none
deriving DecidableEq, Inhabited

/-- A BGP process. -/
structure BgpConfig where
  /-- Neighbours in other autonomous systems. -/
  external : List NeighborConfig := []
  /-- Neighbours in the same autonomous system. -/
  internal : List NeighborConfig := []
  /-- The subnets that the process originates. -/
  origins : List Subnet := []
  /-- The protocols from which routes are redistributed. -/
  redistribute : List Protocol := []
deriving DecidableEq, Inhabited

namespace BgpConfig

/-- All neighbours with the type of their session, first those of other autonomous systems. -/
def neighbors (b : BgpConfig) : List (SessionType × NeighborConfig) :=
  b.external.map (.ebgp, ·) ++ b.internal.map (.ibgp, ·)

end BgpConfig

/-- A router, or a plain switch if it runs no process. -/
structure RouterConfig where
  name : String
  ifaces : List InterfaceConfig := []
  vlans : List VlanConfig := []
  ospf : Option OspfConfig := none
  bgp : Option BgpConfig := none
  /-- The subnets attached to the router. -/
  subnets : List Subnet := []
deriving DecidableEq, Inhabited

/-- A network with its policies and the cases it should satisfy. -/
structure NetworkConfig where
  routers : List RouterConfig := []
  policies : OrdMap String Policy := ∅
  tests : List ReachabilityCase := []
deriving DecidableEq, Inhabited

/-! ### Building cases -/

namespace ReachabilityCase

/-- A case without failures and without an expected path. -/
def expect (origin destination : Subnet) (reachable : Bool) : ReachabilityCase :=
  { origin, destination, reachable }

/-- The case with one more failed link. -/
def fail (c : ReachabilityCase) (a b : String) : ReachabilityCase :=
  { c with failures := c.failures ++ [(a, b)] }

/-- The case with the routers that the selected path should take. -/
def via (c : ReachabilityCase) (path : List String) : ReachabilityCase :=
  { c with path := some path }

end ReachabilityCase

/-! ### Building routers

Entries are kept in the order in which they are added. A process starts to exist with its first
entry. -/

namespace RouterConfig

/-- A router without any entry. -/
def named (name : String) : RouterConfig := { name }

/-- Add an interface towards `neighbor`. -/
def iface (r : RouterConfig) (neighbor : String) (vlan : Option UInt32) : RouterConfig :=
  { r with ifaces := r.ifaces ++ [{ neighbor, vlan }] }

/-- Add a VLAN. -/
def vlan (r : RouterConfig) (num : UInt32) (addr : Cidr) : RouterConfig :=
  { r with vlans := r.vlans ++ [{ num, addr }] }

/-- Attach a subnet. -/
def subnet (r : RouterConfig) (s : Subnet) : RouterConfig :=
  { r with subnets := r.subnets ++ [s] }

/-- Change the OSPF process. -/
def onOspf (r : RouterConfig) (f : OspfConfig → OspfConfig) : RouterConfig :=
  { r with ospf := some (f (r.ospf.getD {})) }

/-- Change the BGP process. -/
def onBgp (r : RouterConfig) (f : BgpConfig → BgpConfig) : RouterConfig :=
  { r with bgp := some (f (r.bgp.getD {})) }

/-- Make OSPF active on a VLAN. -/
def ospfActive (r : RouterConfig) (num : UInt32) : RouterConfig :=
  r.onOspf fun o => { o with active := o.active ++ [num] }

/-- Originate a subnet in OSPF. -/
def ospfOrigin (r : RouterConfig) (s : Subnet) : RouterConfig :=
  r.onOspf fun o => { o with origins := o.origins ++ [s] }

/-- Redistribute the routes of a protocol into OSPF. -/
def ospfRedistribute (r : RouterConfig) (p : Protocol) : RouterConfig :=
  r.onOspf fun o => { o with redistribute := o.redistribute ++ [p] }

/-- Add a neighbour in another autonomous system. -/
def bgpExternal (r : RouterConfig) (addr : IpAddr) (importPolicy exportPolicy : Option String) :
    RouterConfig :=
  r.onBgp fun b => { b with external := b.external ++ [{ addr, importPolicy, exportPolicy }] }

/-- Add a neighbour in the same autonomous system. -/
def bgpInternal (r : RouterConfig) (addr : IpAddr) (importPolicy exportPolicy : Option String) :
    RouterConfig :=
  r.onBgp fun b => { b with internal := b.internal ++ [{ addr, importPolicy, exportPolicy }] }

/-- Originate a subnet in BGP. -/
def bgpOrigin (r : RouterConfig) (s : Subnet) : RouterConfig :=
  r.onBgp fun b => { b with origins := b.origins ++ [s] }

/-- Redistribute the routes of a protocol into BGP. -/
def bgpRedistribute (r : RouterConfig) (p : Protocol) : RouterConfig :=
  r.onBgp fun b => { b with redistribute := b.redistribute ++ [p] }

end RouterConfig

/-! ### Building networks -/

namespace NetworkConfig

/-- A network without routers. -/
def empty : NetworkConfig := {}

/-- Add a router. -/
def router (c : NetworkConfig) (r : RouterConfig) : NetworkConfig :=
  { c with routers := c.routers ++ [r] }

/-- Change the router that was added last, if there is one. -/
def onLastRouter (c : NetworkConfig) (f : RouterConfig → RouterConfig) : NetworkConfig :=
  match c.routers.getLast? with
  | none => c
  | some r => { c with routers := c.routers.dropLast ++ [f r] }

/-- Define a policy. -/
def policy (c : NetworkConfig) (name : String) (p : Policy) : NetworkConfig :=
  { c with policies := c.policies.put name p }

/-- Add a case. -/
def case (c : NetworkConfig) (t : ReachabilityCase) : NetworkConfig :=
  { c with tests := c.tests ++ [t] }

end NetworkConfig

end NetReach
