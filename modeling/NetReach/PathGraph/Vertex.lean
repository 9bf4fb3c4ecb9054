import NetReach.Identifier
import NetReach.Policy

/-! # Vertices of the path graph

A vertex is a decision point of a router, or one of the subnets at the ends, in the main layer or in
the layer of a next hop. Vertices are in a total order: the main layer first, then the layers by
their VLAN; inside a layer by what the vertex is, in the order of `VertexKind`, then by its router,
then by the VLAN number or peer, then by the label. -/

namespace NetReach

/-- The layer of a vertex. The layer of a next hop holds a copy of the interior topology, by which
packets reach the address of a peer on some VLAN. -/
inductive Layer where
  /-- Forwarding towards the destination. -/
  | main
  /-- Forwarding towards the address of a peer on `vlan`. -/
  | nextHop (vlan : VlanId)
deriving DecidableEq, Repr, Inhabited

/-- What a vertex stands for. -/
inductive VertexKind where
  /-- The subnet that packets are sent to. -/
  | destination (s : Subnet)
  /-- The subnet that packets are sent from. -/
  | source (s : Subnet)
  /-- A VLAN. -/
  | vlan (v : VlanId)
  /-- An OSPF process. -/
  | ospf (r : RouterId)
  /-- A BGP session of `r` towards `peer`. -/
  | bgpSession (r peer : RouterId)
  /-- The routing decision of a router. -/
  | rib (r : RouterId)
  /-- Packets that enter the router on a VLAN. -/
  | vlanIn (v : VlanId)
  /-- Packets that leave the router on a VLAN. -/
  | vlanOut (v : VlanId)
  /-- Packets handed to OSPF. -/
  | ospfIn (r : RouterId)
  /-- Packets forwarded by OSPF. -/
  | ospfOut (r : RouterId)
  /-- Packets handed to BGP. -/
  | bgpIn (r : RouterId)
  /-- Packets forwarded by BGP of `r` towards `peer`. -/
  | bgpOut (r peer : RouterId)
deriving DecidableEq, Repr, Inhabited

namespace VertexKind

/-- The router that the vertex belongs to; subnets belong to none. -/
def router? : VertexKind → Option RouterId
  | destination _ | source _ => none
  | vlan v | vlanIn v | vlanOut v => some v.router
  | ospf r | rib r | ospfIn r | ospfOut r | bgpIn r => some r
  | bgpSession r _ | bgpOut r _ => some r

/-- The decision process by which the vertex ranks its routes. -/
def rankDomain : VertexKind → RankDomain
  | ospf _ | ospfIn _ | ospfOut _ => .igp
  | bgpSession _ _ | bgpIn _ | bgpOut _ _ => .bgp
  | _ => .neutral

/-- Numbers the kinds in their order. -/
def rank : VertexKind → Nat
  | destination _ => 0
  | source _ => 1
  | vlan _ => 2
  | ospf _ => 3
  | bgpSession _ _ => 4
  | rib _ => 5
  | vlanIn _ => 6
  | vlanOut _ => 7
  | ospfIn _ => 8
  | ospfOut _ => 9
  | bgpIn _ => 10
  | bgpOut _ _ => 11

/-- The VLAN number or the peer, whichever the kind has. -/
def second : VertexKind → Nat
  | vlan v | vlanIn v | vlanOut v => v.num.toNat
  | bgpSession _ p | bgpOut _ p => p
  | _ => 0

/-- The label of a subnet. -/
def label : VertexKind → String
  | destination s | source s => s
  | _ => ""

/-- By rank, then router, then VLAN number or peer, then label. -/
abbrev order : VertexKind → VertexKind → Ordering :=
  compareLex (compareOn rank) (compareLex (compareOn fun k => k.router?.getD 0)
    (compareLex (compareOn second) (compareOn label)))

instance : Ord VertexKind := ⟨order⟩

instance : Std.TransOrd VertexKind := inferInstanceAs (Std.TransCmp order)

theorem eq_of_keys {a b : VertexKind} (hr : a.rank = b.rank)
    (hd : a.router?.getD 0 = b.router?.getD 0) (hs : a.second = b.second)
    (hl : a.label = b.label) : a = b := by
  have hv : ∀ {v w : VlanId}, v.router = w.router → v.num.toNat = w.num.toNat → v = w := by
    rintro ⟨_, _⟩ ⟨_, _⟩ rfl h
    cases UInt32.toNat_inj.mp h
    rfl
  cases a <;> cases b <;> simp_all only [rank, router?, second, label, Option.getD_some,
    reduceCtorEq, Nat.reduceEqDiff] <;> first
    | rfl
    | (congr 1; exact hv hd hs)

instance : Std.LawfulEqOrd VertexKind where
  compare_self := (inferInstance : Std.ReflCmp order).compare_self
  eq_of_compare {a b} h := by
    obtain ⟨h₁, h⟩ := compareLex_eq_eq.mp h
    obtain ⟨h₂, h⟩ := compareLex_eq_eq.mp h
    obtain ⟨h₃, h₄⟩ := compareLex_eq_eq.mp h
    exact eq_of_keys (Std.LawfulEqOrd.eq_of_compare h₁) (Std.LawfulEqOrd.eq_of_compare h₂)
      (Std.LawfulEqOrd.eq_of_compare h₃) (Std.LawfulEqOrd.eq_of_compare h₄)

end VertexKind

namespace Layer

/-- Tells the main layer from the others. -/
def rank : Layer → Nat
  | main => 0
  | nextHop _ => 1

/-- The VLAN of the next hop. -/
def vlan? : Layer → Option VlanId
  | main => none
  | nextHop v => some v

/-- The main layer first, then by VLAN. -/
abbrev order : Layer → Layer → Ordering :=
  compareLex (compareOn rank) (compareOn fun l => l.vlan?.getD default)

instance : Ord Layer := ⟨order⟩

instance : Std.TransOrd Layer := inferInstanceAs (Std.TransCmp order)

instance : Std.LawfulEqOrd Layer where
  compare_self := (inferInstance : Std.ReflCmp order).compare_self
  eq_of_compare {a b} h := by
    obtain ⟨h₁, h₂⟩ := compareLex_eq_eq.mp h
    have h₁ : a.rank = b.rank := Std.LawfulEqOrd.eq_of_compare h₁
    have h₂ : a.vlan?.getD default = b.vlan?.getD default := Std.LawfulEqOrd.eq_of_compare h₂
    cases a <;> cases b <;> simp_all [rank, vlan?]

end Layer

/-- A vertex of the path graph. -/
structure Vertex where
  layer : Layer
  kind : VertexKind
deriving DecidableEq, Repr, Inhabited

namespace Vertex

/-- The vertex in the main layer. -/
def main (k : VertexKind) : Vertex := ⟨.main, k⟩

/-- The vertex in the layer of the next hop on `v`. -/
def nextHop (v : VlanId) (k : VertexKind) : Vertex := ⟨.nextHop v, k⟩

/-- The router that the vertex belongs to. -/
def router? (v : Vertex) : Option RouterId := v.kind.router?

/-- The same decision point in the main layer. -/
def toMain (v : Vertex) : Vertex := main v.kind

/-- By layer, then by kind. -/
abbrev order : Vertex → Vertex → Ordering := compareLex (compareOn layer) (compareOn kind)

instance : Ord Vertex := ⟨order⟩

instance : Std.TransOrd Vertex := inferInstanceAs (Std.TransCmp order)

instance : Std.LawfulEqOrd Vertex where
  compare_self := (inferInstance : Std.ReflCmp order).compare_self
  eq_of_compare {a b} h := by
    obtain ⟨h₁, h₂⟩ := compareLex_eq_eq.mp h
    cases a
    cases b
    cases Std.LawfulEqOrd.eq_of_compare h₁
    cases Std.LawfulEqOrd.eq_of_compare h₂
    rfl

end Vertex

end NetReach
