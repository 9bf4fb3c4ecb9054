/-! # Names for the parts of a network

Routers are known by their position in the network, VLANs by their router and a number that is
unique on it, subnets by a label. VLANs are ordered by router, then by number. -/

namespace NetReach

/-- A router, by its position in the network. -/
abbrev RouterId := Nat

/-- The label of a subnet. -/
abbrev Subnet := String

/-- A VLAN, by its router and its number there. -/
structure VlanId where
  router : RouterId
  num : UInt32
deriving DecidableEq, Repr, Inhabited

namespace VlanId

instance : Ord VlanId := ⟨compareLex (compareOn router) (compareOn num)⟩

instance : Std.TransOrd VlanId :=
  inferInstanceAs (Std.TransCmp (compareLex (compareOn router) (compareOn num)))

instance : Std.LawfulEqOrd VlanId where
  compare_self :=
    (inferInstance : Std.ReflCmp (compareLex (compareOn router) (compareOn num))).compare_self
  eq_of_compare {a b} h := by
    obtain ⟨h₁, h₂⟩ := compareLex_eq_eq.mp h
    cases a
    cases b
    cases Std.LawfulEqOrd.eq_of_compare h₁
    cases Std.LawfulEqOrd.eq_of_compare h₂
    rfl

end VlanId

/-- A routing protocol. -/
inductive Protocol where
  | ospf
  | bgp
deriving DecidableEq, Repr, Inhabited

namespace Protocol

/-- The usual name of the protocol. -/
def text : Protocol → String
  | ospf => "OSPF"
  | bgp => "BGP"

/-- Numbers the protocols in their order. -/
def rank : Protocol → Nat
  | ospf => 0
  | bgp => 1

instance : Ord Protocol := ⟨compareOn rank⟩

instance : Std.TransOrd Protocol := inferInstanceAs (Std.TransCmp (compareOn rank))

instance : Std.LawfulEqOrd Protocol where
  compare_self := (inferInstance : Std.ReflCmp (compareOn rank)).compare_self
  eq_of_compare {a b} h := by
    have h : rank a = rank b := Std.LawfulEqOrd.eq_of_compare h
    cases a <;> cases b <;> first | rfl | cases h

end Protocol

/-- The type of a BGP session. -/
inductive SessionType where
  /-- With a router of another autonomous system. -/
  | ebgp
  /-- With a router of the same autonomous system. -/
  | ibgp
deriving DecidableEq, Repr, Inhabited

end NetReach
