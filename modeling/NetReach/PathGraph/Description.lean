import NetReach.PathGraph.Vertex
import NetReach.Text.Description

/-! # Descriptions of vertices

The structure of a vertex as it is shown in diagnostics, with routers by their position. -/

namespace NetReach

/-- The structure of a router identifier. -/
def RouterId.describe (r : RouterId) : String := describeCall "RouterId" [toString r]

/-- The structure of a subnet. -/
def Subnet.describe (s : Subnet) : String := describeCall "Subnet" [quoted s]

/-- The structure of a VLAN identifier. -/
def VlanId.describe (v : VlanId) : String :=
  describeRecord "VlanId" [("router", RouterId.describe v.router), ("num", toString v.num.toNat)]

/-- The structure of a layer. -/
def Layer.describe : Layer → String
  | main => "Main"
  | nextHop v => describeCall "NextHop" [v.describe]

/-- The structure of a vertex kind. -/
def VertexKind.describe : VertexKind → String
  | destination s => describeCall "Destination" [Subnet.describe s]
  | source s => describeCall "Source" [Subnet.describe s]
  | vlan v => describeCall "Vlan" [v.describe]
  | ospf r => describeCall "Ospf" [RouterId.describe r]
  | bgpSession r p => ends "BgpSession" r p
  | rib r => describeCall "Rib" [RouterId.describe r]
  | vlanIn v => describeCall "VlanIn" [v.describe]
  | vlanOut v => describeCall "VlanOut" [v.describe]
  | ospfIn r => describeCall "OspfIn" [RouterId.describe r]
  | ospfOut r => describeCall "OspfOut" [RouterId.describe r]
  | bgpIn r => describeCall "BgpIn" [RouterId.describe r]
  | bgpOut r p => ends "BgpOut" r p
where
  ends (name : String) (r p : RouterId) : String :=
    describeRecord name [("router", RouterId.describe r), ("peer", RouterId.describe p)]

/-- The structure of a vertex. -/
def Vertex.describe (v : Vertex) : String :=
  describeRecord "Vertex" [("layer", v.layer.describe), ("kind", v.kind.describe)]

end NetReach
