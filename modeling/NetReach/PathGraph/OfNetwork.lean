import NetReach.PathGraph.Coarse
import NetReach.PathGraph.Fine

/-! # The path graph of a network

Before the graph is wired, the two subnets must differ and be known to the network, and the taint
graph must belong to the destination and have been spread. A scene of the network itself
(`Network.scene`) brings its own taint graph, and only its subnets can be at fault. -/

namespace NetReach

namespace Network

/-- The scene for packets from `src` to `dst` over given domains, with a taint graph of its own. -/
def sceneFor (net : Network) (l2 : Layer2) (dst src : Subnet) : Scene :=
  { net, l2, taint := (TaintGraph.ofNetwork net l2 (some dst)).taint, dst, src }

/-- The scene for packets from `src` to `dst` over the domains of the network. -/
def scene (net : Network) (dst src : Subnet) : Scene := net.sceneFor (.ofNetwork net) dst src

end Network

namespace QueryError

/-- The name of the kind of error. -/
def kind : QueryError → String
  | unknownSubnet _ => "UnknownSubnet"
  | identicalEndpoints _ => "IdenticalEndpoints"
  | taintMismatch _ _ => "RagMismatch"
  | untainted => "UntaintedRag"
  | unknownVertex _ => "UnknownVertex"

/-- The wording of the error. -/
def message : QueryError → String
  | unknownSubnet s => "Subnet " ++ s ++ " is not part of the network"
  | identicalEndpoints s => "Source and destination are both " ++ s
  | taintMismatch expected found =>
    "Taint graph was built for " ++ describeOption Subnet.describe found ++
      ", but the destination is " ++ expected
  | untainted => "The taint graph was not yet tainted"
  | unknownVertex v => "Vertex " ++ v.describe ++ " is not part of the graph"

/-- The structure of the error. -/
def describe (e : QueryError) : String :=
  match e with
  | unknownSubnet s | identicalEndpoints s => describeCall e.kind [Subnet.describe s]
  | taintMismatch expected found =>
    describeRecord e.kind [("expected", Subnet.describe expected),
      ("found", describeOption Subnet.describe found)]
  | untainted => e.kind
  | unknownVertex v => describeCall e.kind [v.describe]

end QueryError

namespace Scene

/-- Why no graph can be made. -/
def error? (c : Scene) : Option QueryError :=
  if c.dst = c.src then some (.identicalEndpoints c.dst)
  else if !c.net.knows c.dst then some (.unknownSubnet c.dst)
  else if !c.net.knows c.src then some (.unknownSubnet c.src)
  else if c.taint.subnet ≠ some c.dst then some (.taintMismatch c.dst c.taint.subnet)
  else if !c.taint.hasRun then some .untainted
  else none

/-- The graph of a variant, whatever the subnets. -/
def wiring (c : Scene) : Variant → Wiring
  | .coarse => c.coarse
  | .fine => c.fine

/-- The graph of a variant, with the warnings of its making. -/
def build (c : Scene) (variant : Variant) : Except QueryError Wiring :=
  match c.error? with
  | some e => .error e
  | none => .ok (c.wiring variant)

end Scene

end NetReach
