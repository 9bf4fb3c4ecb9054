import NetReach.Address.Text
import NetReach.Identifier
import NetReach.Text.Description

/-! # What makes a configuration inconsistent -/

namespace NetReach

/-- The reason why the references of a configuration cannot be resolved. Routers are given by
name. -/
inductive LinkError where
  /-- Two routers share a name. -/
  | duplicateRouter (router : String)
  /-- Two VLANs of a router share a number. -/
  | duplicateVlan (router : String) (vlan : UInt32)
  /-- An interface points to a router that does not exist. -/
  | unknownNeighbor (router neighbor : String)
  /-- An interface points to its own router. -/
  | selfInterface (router : String)
  /-- A router has two interfaces towards one neighbour. -/
  | duplicateInterface (router neighbor : String)
  /-- The neighbour has no interface that points back. -/
  | unpairedInterface (router neighbor : String)
  /-- Only one end of a link belongs to a VLAN. -/
  | inconsistentVlanMembership (router neighbor : String)
  /-- Two VLANs carry the same address; the router is that of the second. -/
  | duplicateAddress (router : String) (addr : IpAddr)
  /-- An interface or OSPF names a VLAN that the router does not have. -/
  | unknownVlan (router : String) (vlan : UInt32)
  /-- No VLAN of another router carries the address of a BGP neighbour. -/
  | unknownBgpPeer (router : String) (addr : IpAddr)
  /-- The peer of a session does not run BGP. -/
  | peerWithoutBgp (router peer : String)
  /-- A BGP neighbour names a policy that is not defined. -/
  | unknownPolicy (router policy : String)
  /-- A process redistributes from a protocol that its router does not run. -/
  | invalidRedistribution (router : String) (protocol : Protocol)
deriving DecidableEq

namespace LinkError

/-- The name of the kind of error. -/
def kind : LinkError → String
  | duplicateRouter _ => "DuplicateRouter"
  | duplicateVlan _ _ => "DuplicateVlan"
  | unknownNeighbor _ _ => "UnknownNeighbor"
  | selfInterface _ => "SelfInterface"
  | duplicateInterface _ _ => "DuplicateInterface"
  | unpairedInterface _ _ => "UnpairedInterface"
  | inconsistentVlanMembership _ _ => "InconsistentVlanMembership"
  | duplicateAddress _ _ => "DuplicateAddress"
  | unknownVlan _ _ => "UnknownVlan"
  | unknownBgpPeer _ _ => "UnknownBgpPeer"
  | peerWithoutBgp _ _ => "PeerWithoutBgp"
  | unknownPolicy _ _ => "UnknownPolicy"
  | invalidRedistribution _ _ => "InvalidRedistribution"

/-- The wording of the error. -/
def message : LinkError → String
  | duplicateRouter r => "Router " ++ r ++ " is defined multiple times"
  | duplicateVlan r v =>
    "VLAN " ++ toString v.toNat ++ " is defined multiple times on router " ++ r
  | unknownNeighbor r n => "Interface of " ++ r ++ " points to unknown router " ++ n
  | selfInterface r => "Interface of " ++ r ++ " points to itself"
  | duplicateInterface r n => "Router " ++ r ++ " has multiple interfaces towards " ++ n
  | unpairedInterface r n => "Interface " ++ r ++ " -> " ++ n ++ " has no reciprocal interface"
  | inconsistentVlanMembership r n =>
    "Link " ++ r ++ " -> " ++ n ++ " is assigned to a VLAN on one end only"
  | duplicateAddress r a =>
    "Address " ++ a.text ++ " of router " ++ r ++ " is already used by another VLAN"
  | unknownVlan r v => "Router " ++ r ++ " references the undefined VLAN " ++ toString v.toNat
  | unknownBgpPeer r a => "BGP neighbor " ++ a.text ++ " of router " ++ r ++ " cannot be resolved"
  | peerWithoutBgp r p => "BGP peer " ++ p ++ " of router " ++ r ++ " has no BGP process"
  | unknownPolicy r p => "Router " ++ r ++ " references the undefined policy " ++ p
  | invalidRedistribution r p =>
    "Router " ++ r ++ " redistributes from " ++ p.text ++ ", which it does not run"

/-- The structure of the error. -/
def describe (e : LinkError) : String :=
  let router (r : String) := ("router", quoted r)
  let vlan (v : UInt32) := ("vlan", toString v.toNat)
  let addr (a : IpAddr) := ("addr", a.text)
  match e with
  | duplicateRouter r | selfInterface r => describeCall e.kind [quoted r]
  | duplicateVlan r v | unknownVlan r v => describeRecord e.kind [router r, vlan v]
  | unknownNeighbor r n | duplicateInterface r n | unpairedInterface r n
  | inconsistentVlanMembership r n => describeRecord e.kind [router r, ("neighbor", quoted n)]
  | duplicateAddress r a | unknownBgpPeer r a => describeRecord e.kind [router r, addr a]
  | peerWithoutBgp r p => describeRecord e.kind [router r, ("peer", quoted p)]
  | unknownPolicy r p => describeRecord e.kind [router r, ("policy", quoted p)]
  | invalidRedistribution r p =>
    describeRecord e.kind [router r, ("protocol", match p with | .ospf => "Ospf" | .bgp => "Bgp")]

end LinkError

end NetReach
