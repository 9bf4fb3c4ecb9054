import NetReach.Address.Text
import NetReach.Config.Basic
import NetReach.Document.Layout

/-! # Configurations as documents

Every record is an object with its fields in order. Values that may be absent are left out if they
are, and so are the empty tag sets of a policy. -/

namespace NetReach

open Layout

/-- An array of texts. -/
def textsLayout (ts : List String) : Layout := array (ts.map text)

/-- A protocol by its name. -/
def Protocol.layout : Protocol → Layout
  | ospf => Layout.text "ospf"
  | bgp => Layout.text "bgp"

/-- The members of a set of tags. -/
def tagsMember (key : String) (tags : OrdSet String) : List (String × Layout) :=
  if tags.isEmpty then [] else [(key, textsLayout tags.toList)]

/-- A policy. -/
def Policy.layout (p : Policy) : Layout :=
  object ([("cost", word p.cost), ("len", word p.len)] ++ ifSome "lp" word p.localPref ++
    tagsMember "add_tags" p.addTags ++ tagsMember "remove_tags" p.removeTags ++
    tagsMember "block_tags" p.blockTags)

/-- A case. -/
def ReachabilityCase.layout (c : ReachabilityCase) : Layout :=
  object ([("origin", text c.origin), ("destination", text c.destination),
    ("failures", array (c.failures.map fun f => textsLayout [f.1, f.2])),
    ("reachable", boolean c.reachable)] ++ ifSome "path" textsLayout c.path)

/-- An interface. -/
def InterfaceConfig.layout (i : InterfaceConfig) : Layout :=
  object (("neighbor", text i.neighbor) :: ifSome "vlan" word i.vlan)

/-- A VLAN. -/
def VlanConfig.layout (v : VlanConfig) : Layout :=
  object [("num", word v.num), ("addr", text v.addr.text)]

/-- An OSPF process. -/
def OspfConfig.layout (o : OspfConfig) : Layout :=
  object [("active", array (o.active.map fun n => object [("vlan", word n)])),
    ("origins", textsLayout o.origins), ("redistribute", array (o.redistribute.map (·.layout)))]

/-- A neighbour. -/
def NeighborConfig.layout (n : NeighborConfig) : Layout :=
  object (("addr", text n.addr.text) :: ifSome "import" text n.importPolicy ++
    ifSome "export" text n.exportPolicy)

/-- A BGP process. -/
def BgpConfig.layout (b : BgpConfig) : Layout :=
  object [("external", array (b.external.map (·.layout))),
    ("internal", array (b.internal.map (·.layout))), ("origins", textsLayout b.origins),
    ("redistribute", array (b.redistribute.map (·.layout)))]

/-- A router. -/
def RouterConfig.layout (r : RouterConfig) : Layout :=
  object ([("name", text r.name), ("ifaces", array (r.ifaces.map (·.layout))),
    ("vlans", array (r.vlans.map (·.layout)))] ++ ifSome "ospf" OspfConfig.layout r.ospf ++
    ifSome "bgp" BgpConfig.layout r.bgp ++ [("subnets", textsLayout r.subnets)])

/-- A network. -/
def NetworkConfig.layout (c : NetworkConfig) : Layout :=
  object [("routers", array (c.routers.map (·.layout))),
    ("policies", object (c.policies.entries.map fun e => (e.1, e.2.layout))),
    ("tests", array (c.tests.map (·.layout)))]

/-- The document of a network. -/
def NetworkConfig.write (c : NetworkConfig) : String := String.ofList (c.layout 0)

end NetReach
