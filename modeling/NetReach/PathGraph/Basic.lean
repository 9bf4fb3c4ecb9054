import NetReach.Ordered.Map
import NetReach.PathGraph.Failure

/-! # Path graphs

The *path graph* of two subnets has the decision points of the routers as its vertices. Its edges
point in the direction of forwarding, from the source to the destination, and carry the policies
that a route is subject to on its way back. Vertices and edges are kept in order, so a graph does
not depend on the order in which they were added.

* `PathGraph.addVertex`, `PathGraph.addEdge`: an edge is added between two different vertices of the
  graph that are not joined yet, and refused otherwise (`PathGraph.accepts`).
* `PathGraph.usable`: the edges out of a vertex that no failure cuts, by their heads. -/

namespace NetReach

/-- How closely the graph follows the routers. -/
inductive Variant where
  /-- One vertex for every VLAN, OSPF process and BGP session. -/
  | coarse
  /-- Every VLAN and process is split into an incoming and an outgoing vertex, and sessions with
  distant peers are resolved over the interior protocol. -/
  | fine
deriving DecidableEq, Repr, Inhabited

/-- What an edge of the path graph stands for. -/
inductive EdgeKind where
  /-- A link between two VLANs. -/
  | physical
  /-- Passing through a plain switch. -/
  | switching
  /-- A packet received on a VLAN is handed to a process or to the routing decision. -/
  | ingress
  /-- The routing decision hands the packet to a process. -/
  | lookup
  /-- A process sends the packet out on a VLAN. -/
  | egress
  /-- A process relays a route that it learned from another router. -/
  | relay
  /-- A session finds its next hop. -/
  | dependency
  /-- Redistribution between the processes of a router. -/
  | redistribution
  /-- Packets of the source enter the network. -/
  | origin
  /-- Packets are delivered to the destination. -/
  | delivery
  /-- A packet has reached the peer over the interior protocol. -/
  | nextHopExit
deriving DecidableEq, Repr, Inhabited

/-- The name of the kind. -/
def EdgeKind.text : EdgeKind → String
  | physical => "Physical"
  | switching => "Switching"
  | ingress => "Ingress"
  | lookup => "Lookup"
  | egress => "Egress"
  | relay => "Relay"
  | dependency => "Dependency"
  | redistribution => "Redistribution"
  | origin => "Origin"
  | delivery => "Delivery"
  | nextHopExit => "NextHopExit"

/-- What an edge carries. -/
structure Edge where
  kind : EdgeKind
  /-- Applied one after the other to the signature of the head. -/
  policies : List Policy := []
deriving DecidableEq, Inhabited

/-- The place of an edge, from `tail` to `head`. -/
structure Arc where
  tail : Vertex
  head : Vertex
deriving DecidableEq, Repr, Inhabited

namespace Arc

/-- By tail, then by head. -/
instance : Ord Arc := ⟨compareLex (compareOn tail) (compareOn head)⟩

instance : Std.TransOrd Arc :=
  inferInstanceAs (Std.TransCmp (compareLex (compareOn tail) (compareOn head)))

instance : Std.LawfulEqOrd Arc where
  compare_self :=
    (inferInstance : Std.ReflCmp (compareLex (compareOn tail) (compareOn head))).compare_self
  eq_of_compare {a b} h := by
    obtain ⟨h₁, h₂⟩ := compareLex_eq_eq.mp h
    cases a
    cases b
    cases Std.LawfulEqOrd.eq_of_compare h₁
    cases Std.LawfulEqOrd.eq_of_compare h₂
    rfl

end Arc

/-- A path graph. -/
structure PathGraph where
  variant : Variant
  dst : Subnet
  src : Subnet
  vertices : OrdSet Vertex
  edges : OrdMap Arc Edge
  destination_mem : Vertex.main (.destination dst) ∈ vertices
  source_mem : Vertex.main (.source src) ∈ vertices
  edges_mem : ∀ a ∈ edges.keys, a.tail ∈ vertices ∧ a.head ∈ vertices ∧ a.tail ≠ a.head

/-- Why a question about a path graph cannot be answered. -/
inductive QueryError where
  /-- The subnet is neither attached to nor originated by a router. -/
  | unknownSubnet (s : Subnet)
  /-- Source and destination are the same. -/
  | identicalEndpoints (s : Subnet)
  /-- The taint graph belongs to another subnet than the destination. -/
  | taintMismatch (expected : Subnet) (found : Option Subnet)
  /-- The taint was not spread. -/
  | untainted
  /-- The vertex is not part of the graph. -/
  | unknownVertex (v : Vertex)
deriving DecidableEq, Repr

namespace PathGraph

/-- The vertex of the destination. -/
def destination (g : PathGraph) : Vertex := .main (.destination g.dst)

/-- The vertex of the source. -/
def source (g : PathGraph) : Vertex := .main (.source g.src)

/-- The graph with only the two subnets. -/
def empty (variant : Variant) (dst src : Subnet) : PathGraph where
  variant
  dst
  src
  vertices := (OrdSet.empty.insert (.main (.destination dst))).insert (.main (.source src))
  edges := ∅
  destination_mem := by simp
  source_mem := by simp
  edges_mem := fun a ha => nomatch ha

/-- Add a vertex, unless it is there already. -/
def addVertex (g : PathGraph) (v : Vertex) : PathGraph :=
  { g with
    vertices := g.vertices.insert v
    destination_mem := by simp [g.destination_mem]
    source_mem := by simp [g.source_mem]
    edges_mem := fun a ha => by
      obtain ⟨ht, hh, hne⟩ := g.edges_mem a ha
      simp [ht, hh, hne] }

/-- An edge may be added: its ends are two different vertices of the graph that are not joined. -/
def accepts (g : PathGraph) (a : Arc) : Bool :=
  decide (a.tail ∈ g.vertices ∧ a.head ∈ g.vertices ∧ a.tail ≠ a.head) && !g.edges.contains a

/-- Add an edge, if the graph accepts it. -/
def addEdge (g : PathGraph) (a : Arc) (e : Edge) : PathGraph :=
  if h : g.accepts a then
    { g with
      edges := g.edges.put a e
      edges_mem := fun b hb => by
        rcases AscendingKeys.mem_keys_put.mp hb with rfl | hb
        · simp only [accepts, Bool.and_eq_true, decide_eq_true_eq] at h
          exact h.1
        · exact g.edges_mem b hb }
  else g

/-- Add some vertices. -/
def addVertices (g : PathGraph) (vs : List Vertex) : PathGraph := vs.foldl addVertex g

/-- The vertex is part of the graph. -/
def contains (g : PathGraph) (v : Vertex) : Bool := decide (v ∈ g.vertices)

/-- The edge from one vertex to another. -/
def edge? (g : PathGraph) (tail head : Vertex) : Option Edge := g.edges.get? ⟨tail, head⟩

/-- The number of vertices. -/
def numVertices (g : PathGraph) : Nat := g.vertices.size

/-- The number of edges. -/
def numEdges (g : PathGraph) : Nat := g.edges.size

/-- The heads of the edges out of `u` that no failure cuts, with the edges, in order. -/
def usable (g : PathGraph) (f : FailureSet) (u : Vertex) : List (Vertex × Edge) :=
  g.edges.entries.filterMap fun (a, e) =>
    if a.tail = u ∧ !f.cuts a.tail a.head then some (a.head, e) else none

/-- The heads of the edges out of `u` that no failure cuts, in order. -/
def successors (g : PathGraph) (f : FailureSet) (u : Vertex) : List Vertex :=
  (g.usable f u).map (·.1)

end PathGraph

end NetReach
