import NetReach.Closure
import NetReach.Network.Basic

/-! # Domains of the second layer

Two VLANs of different routers are *adjacent* if a chain of links joins them that passes only
through plain switches. A link joins the VLANs that its two interfaces belong to. -/

namespace NetReach

namespace Network

/-- The VLANs one link away from `v`. -/
def linkedTo (net : Network) (v : VlanId) : List VlanId :=
  (net.vlan? v).elim [] net.linkedVlans

/-- The VLANs one link further on a chain from `origin`, which only switches carry on. -/
def chainStep (net : Network) (origin v : VlanId) : List VlanId :=
  if v = origin ∨ net.isSwitch v.router then net.linkedTo v else []

/-- The VLANs of other routers at the end of a chain from `origin`. -/
def domain (net : Network) (origin : VlanId) : OrdSet VlanId :=
  .ofList ((closure (net.chainStep origin) (net.vlans.map (·.id)) [origin]).filter
    (·.router ≠ origin.router))

end Network

/-- The VLANs adjacent to every VLAN of a network. -/
structure Layer2 where
  domains : OrdMap VlanId (OrdSet VlanId)
deriving DecidableEq, Inhabited

namespace Layer2

/-- The domains of a network. -/
def ofNetwork (net : Network) : Layer2 :=
  ⟨.ofList (net.vlans.map fun v => (v.id, net.domain v.id))⟩

/-- The domain of a known VLAN. -/
def domain? (l : Layer2) (v : VlanId) : Option (OrdSet VlanId) := l.domains.get? v

/-- The VLANs adjacent to `v`, in order; none if `v` is unknown. -/
def adjacent (l : Layer2) (v : VlanId) : List VlanId := (l.domain? v).elim [] (·.toList)

/-- Two VLANs are adjacent. -/
def isAdjacent (l : Layer2) (v w : VlanId) : Bool := decide (w ∈ l.adjacent v)

end Layer2

end NetReach
