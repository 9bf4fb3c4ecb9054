import NetReach.Closure
import NetReach.PathGraph.Basic

/-! # Contraction

Two vertices of a path graph are merged when the only edge out of the first is the only edge into
the second. What remains is a graph of *chains*, each the list of the vertices merged into it in the
direction of forwarding. Chains are compared vertex by vertex.

* `ChainGraph.merge`: the chains `u` and `v` become `u ++ v`, with the edges into `u` and those out
  of `v`.
* `PathGraph.contract`: pairs are merged until there is none.
* `ChainGraph.hasPath`: reachability, which contraction keeps. -/

namespace NetReach

/-- An edge between chains. -/
structure ChainEdge where
  tail : List Vertex
  head : List Vertex
  edge : Edge
deriving DecidableEq, Inhabited

/-- A graph of chains. -/
structure ChainGraph where
  /-- The chains in order. -/
  chains : List (List Vertex)
  edges : List ChainEdge
deriving DecidableEq, Inhabited

namespace ChainGraph

/-- The edges out of a chain. -/
def outEdges (g : ChainGraph) (u : List Vertex) : List ChainEdge :=
  g.edges.filter fun e => decide (e.tail = u)

/-- The edges into a chain. -/
def inEdges (g : ChainGraph) (v : List Vertex) : List ChainEdge :=
  g.edges.filter fun e => decide (e.head = v)

/-- The chain that `u` can be merged with: the only edge out of `u` leads there and is the only edge
into it. -/
def partner? (g : ChainGraph) (u : List Vertex) : Option (List Vertex) :=
  match g.outEdges u with
  | [e] => if e.head ≠ u ∧ (g.inEdges e.head).length = 1 then some e.head else none
  | _ => none

/-- The first chain that can be merged, with its partner. -/
def mergeable? (g : ChainGraph) : Option (List Vertex × List Vertex) :=
  g.chains.findSome? fun u => (g.partner? u).map fun v => (u, v)

/-- Merge `u` with `v`. The edge between them disappears, and the others keep their place. As no
other chain starts like `u`, the merged chain takes the place of `u` in the order. -/
def merge (g : ChainGraph) (u v : List Vertex) : ChainGraph :=
  let rename (x : List Vertex) : List Vertex := if x = u ∨ x = v then u ++ v else x
  { chains := (g.chains.filter (· ≠ v)).map rename
    edges := (g.edges.filter fun e => ¬(e.tail = u ∧ e.head = v)).map fun e =>
      ⟨rename e.tail, rename e.head, e.edge⟩ }

/-- Merge at most `n` times. -/
def contractWithin : Nat → ChainGraph → ChainGraph
  | 0, g => g
  | n + 1, g =>
    match g.mergeable? with
    | none => g
    | some (u, v) => contractWithin n (g.merge u v)

/-- The number of chains. -/
def numChains (g : ChainGraph) : Nat := g.chains.length

/-- The number of edges. -/
def numEdges (g : ChainGraph) : Nat := g.edges.length

/-- The edges in order of their tails, then of their heads. -/
def sortedEdges (g : ChainGraph) : List ChainEdge :=
  g.edges.mergeSort fun a b => ((compare a.tail b.tail).then (compare a.head b.head)).isLE

/-- The chain that holds a vertex. -/
def chainOf? (g : ChainGraph) (v : Vertex) : Option (List Vertex) := g.chains.find? (v ∈ ·)

/-- Some chain holds the vertex. -/
def contains (g : ChainGraph) (v : Vertex) : Bool := (g.chainOf? v).isSome

/-- The chains one edge away from `u`. -/
def next (g : ChainGraph) (u : List Vertex) : List (List Vertex) := (g.outEdges u).map (·.head)

/-- The chain `v` is reached from the chain `u` over at least one edge. -/
def reaches (g : ChainGraph) (u v : List Vertex) : Bool :=
  decide (v ∈ closure g.next g.chains (g.next u))

/-- The vertex `b` is reached from the vertex `a`: further down in the same chain, or over edges. -/
def hasPath (g : ChainGraph) (a b : Vertex) : Bool :=
  match g.chainOf? a, g.chainOf? b with
  | some u, some v => (decide (u = v) && decide (u.idxOf a ≤ u.idxOf b)) || g.reaches u v
  | _, _ => false

end ChainGraph

/-- Every vertex as a chain of its own. -/
def PathGraph.chains (g : PathGraph) : ChainGraph where
  chains := g.vertices.toList.map ([·])
  edges := g.edges.entries.map fun (a, e) => ⟨[a.tail], [a.head], e⟩

/-- Merge until there is nothing left to merge. Every step takes a chain away. -/
def PathGraph.contract (g : PathGraph) : ChainGraph :=
  ChainGraph.contractWithin g.numVertices g.chains

end NetReach
