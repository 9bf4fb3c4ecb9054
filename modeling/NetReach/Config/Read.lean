import NetReach.Address.Text
import NetReach.Config.Basic
import NetReach.Document.Reader

/-! # Configurations from documents

The fields of every record in order, with what is assumed where one is missing. -/

namespace NetReach

open Reader

/-- A list of texts. -/
def readTexts : Reader (List String) := list text

/-- A set of tags. -/
def readTags : Reader (OrdSet String) := readTexts.map .ofList

/-- The protocol with a name. -/
def Protocol.ofName? (s : String) : Option Protocol :=
  if s = "ospf" then some .ospf else if s = "bgp" then some .bgp else none

/-- A protocol. -/
def Protocol.read : Reader Protocol := choice ofName?

namespace Policy

/-- The fields of a policy. -/
def fields : List (RecordField Policy) :=
  [.defaulted "cost" word fun p n => { p with cost := n },
    .defaulted "len" word fun p n => { p with len := n },
    .defaulted "lp" (option word) fun p n => { p with localPref := n },
    .defaulted "add_tags" readTags (fun p ts => { p with addTags := ts }) (some "at"),
    .defaulted "remove_tags" readTags (fun p ts => { p with removeTags := ts }) (some "rt"),
    .defaulted "block_tags" readTags (fun p ts => { p with blockTags := ts }) (some "bt")]

/-- A policy. -/
def read : Reader Policy := record fields {}

end Policy

namespace ReachabilityCase

/-- The fields of a case. -/
def fields : List (RecordField ReachabilityCase) :=
  [.needed "origin" text fun c s => { c with origin := s },
    .needed "destination" text fun c s => { c with destination := s },
    .defaulted "failures" (list (pair text text)) fun c l => { c with failures := l },
    .needed "reachable" boolean fun c b => { c with reachable := b },
    .defaulted "path" (option readTexts) fun c p => { c with path := p }]

/-- A case. -/
def read : Reader ReachabilityCase := record fields (expect "" "" false)

end ReachabilityCase

namespace InterfaceConfig

/-- The fields of an interface. -/
def fields : List (RecordField InterfaceConfig) :=
  [.needed "neighbor" text fun i s => { i with neighbor := s },
    .defaulted "vlan" (option word) fun i n => { i with vlan := n }]

/-- An interface. -/
def read : Reader InterfaceConfig := record fields { neighbor := "" }

end InterfaceConfig

namespace VlanConfig

/-- The fields of a VLAN. -/
def fields : List (RecordField VlanConfig) :=
  [.needed "num" word fun v n => { v with num := n },
    .needed "addr" (denoted Cidr.ofText?) fun v a => { v with addr := a }]

/-- A VLAN. -/
def read : Reader VlanConfig := record fields default

end VlanConfig

namespace OspfConfig

/-- The number of a VLAN on which OSPF is active. -/
def readActive : Reader UInt32 := record [.needed "vlan" word fun _ n => n] 0

/-- The fields of an OSPF process. -/
def fields : List (RecordField OspfConfig) :=
  [.defaulted "active" (list readActive) fun o l => { o with active := l },
    .defaulted "origins" readTexts fun o l => { o with origins := l },
    .defaulted "redistribute" (list Protocol.read) fun o l => { o with redistribute := l }]

/-- An OSPF process. -/
def read : Reader OspfConfig := record fields {}

end OspfConfig

namespace NeighborConfig

/-- The fields of a neighbour. -/
def fields : List (RecordField NeighborConfig) :=
  [.needed "addr" (denoted IpAddr.ofText?) fun n a => { n with addr := a },
    .defaulted "import" (option text) fun n p => { n with importPolicy := p },
    .defaulted "export" (option text) fun n p => { n with exportPolicy := p }]

/-- A neighbour. -/
def read : Reader NeighborConfig := record fields default

end NeighborConfig

namespace BgpConfig

/-- The fields of a BGP process. -/
def fields : List (RecordField BgpConfig) :=
  [.defaulted "external" (list NeighborConfig.read) fun b l => { b with external := l },
    .defaulted "internal" (list NeighborConfig.read) fun b l => { b with internal := l },
    .defaulted "origins" readTexts fun b l => { b with origins := l },
    .defaulted "redistribute" (list Protocol.read) fun b l => { b with redistribute := l }]

/-- A BGP process. -/
def read : Reader BgpConfig := record fields {}

end BgpConfig

namespace RouterConfig

/-- The fields of a router. -/
def fields : List (RecordField RouterConfig) :=
  [.needed "name" text fun r s => { r with name := s },
    .defaulted "ifaces" (list InterfaceConfig.read) fun r l => { r with ifaces := l },
    .defaulted "vlans" (list VlanConfig.read) fun r l => { r with vlans := l },
    .defaulted "ospf" (option OspfConfig.read) fun r o => { r with ospf := o },
    .defaulted "bgp" (option BgpConfig.read) fun r b => { r with bgp := b },
    .defaulted "subnets" readTexts fun r l => { r with subnets := l }]

/-- A router. -/
def read : Reader RouterConfig := record fields { name := "" }

end RouterConfig

namespace NetworkConfig

/-- The fields of a network. -/
def fields : List (RecordField NetworkConfig) :=
  [.defaulted "routers" (list RouterConfig.read) fun c l => { c with routers := l },
    .defaulted "policies" (table Policy.read) fun c m => { c with policies := m },
    .defaulted "tests" (list ReachabilityCase.read) fun c l => { c with tests := l }]

/-- A network. -/
def reader : Reader NetworkConfig := record fields {}

/-- The network of a document. -/
def read (s : String) : Except Fault NetworkConfig := document reader s

end NetworkConfig

end NetReach
