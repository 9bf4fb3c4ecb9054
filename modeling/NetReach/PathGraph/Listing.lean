import NetReach.PathGraph.Contraction
import NetReach.PathGraph.Routing
import NetReach.PathGraph.Search

/-! # Path graphs in the order of insertion

A path graph keeps its parts in ascending order, whatever the order in which they were added. A
*listing* is built by the same insertions and keeps the parts as they come: a vertex after those
that are there, an edge before them, so that the edges at a vertex are gone through from the latest
to the first. It answers the questions about the graph by going through its lists, and sorts only
what the answers need sorted: the vertices that take turns, the successors of a vertex, and the
chains among which the next pair to be merged is looked for.

* `PathGraph.build`, `Listing.build`: the graph and the listing after some insertions.
* `Listing.search`: the search for a path. `Listing.simulate`: the rounds in which routes are
  selected. `Listing.contract`: the merging of chains.
* `PathGraph.answers`, `Listing.answers`: all answers. -/

namespace NetReach

/-- A step in building a path graph. -/
inductive Insertion where
  | vertex (v : Vertex)
  | edge (a : Arc) (e : Edge)
deriving DecidableEq, Inhabited

namespace PathGraph

/-- Add a vertex or an edge. -/
def insert (g : PathGraph) : Insertion → PathGraph
  | .vertex v => g.addVertex v
  | .edge a e => g.addEdge a e

/-- The graph of two subnets after some insertions. -/
def build (variant : Variant) (dst src : Subnet) (steps : List Insertion) : PathGraph :=
  steps.foldl insert (empty variant dst src)

end PathGraph

/-- A list in ascending order. -/
def sorted {α : Type} [Ord α] (l : List α) : List α := l.mergeSort fun a b => (compare a b).isLE

/-- The parts of a path graph, in the order in which they are gone through. -/
structure Listing where
  variant : Variant
  dst : Subnet
  src : Subnet
  vertices : List Vertex
  edges : List (Arc × Edge)
deriving DecidableEq, Inhabited

namespace Listing

/-! ### Building a listing -/

/-- The vertex of the destination. -/
def destination (l : Listing) : Vertex := .main (.destination l.dst)

/-- The vertex of the source. -/
def source (l : Listing) : Vertex := .main (.source l.src)

/-- The listing with only the two subnets. -/
def empty (variant : Variant) (dst src : Subnet) : Listing where
  variant
  dst
  src
  vertices := [.main (.destination dst), .main (.source src)]
  edges := []

/-- An edge may be added: its ends are two different vertices that are listed, and not joined. -/
def accepts (l : Listing) (a : Arc) : Bool :=
  decide (a.tail ∈ l.vertices ∧ a.head ∈ l.vertices ∧ a.tail ≠ a.head) &&
    !(l.edges.map (·.1)).contains a

/-- Add a vertex or an edge, unless it is there already or cannot be. -/
def insert (l : Listing) : Insertion → Listing
  | .vertex v => if v ∈ l.vertices then l else { l with vertices := l.vertices ++ [v] }
  | .edge a e => if l.accepts a then { l with edges := (a, e) :: l.edges } else l

/-- The listing of two subnets after some insertions. -/
def build (variant : Variant) (dst src : Subnet) (steps : List Insertion) : Listing :=
  steps.foldl insert (empty variant dst src)

/-! ### Existence of paths -/

/-- The heads of the edges out of `u` that no failure cuts, with the edges. -/
def usable (l : Listing) (f : FailureSet) (u : Vertex) : List (Vertex × Edge) :=
  l.edges.filterMap fun (a, e) =>
    if a.tail = u ∧ !f.cuts a.tail a.head then some (a.head, e) else none

/-- The heads of the edges out of `u` that no failure cuts, in ascending order. -/
def successors (l : Listing) (f : FailureSet) (u : Vertex) : List Vertex :=
  sorted ((l.usable f u).map (·.1))

/-- The first path from `a` to `b` that no failure cuts. -/
def search (l : Listing) (f : FailureSet) (a b : Vertex) : Option (List Vertex) :=
  (searchFrom (l.successors f) b l.vertices.length a (l.vertices.erase a)).path?

/-- The first path from the source to the destination that no failure cuts. -/
def path? (l : Listing) (f : FailureSet) : Option (List Vertex) :=
  l.search f l.source l.destination

/-- The first path between two vertices that no failure cuts. -/
def pathBetween? (l : Listing) (a b : Vertex) (f : FailureSet) :
    Except QueryError (Option (List Vertex)) :=
  if a ∉ l.vertices then .error (.unknownVertex a)
  else if b ∉ l.vertices then .error (.unknownVertex b)
  else .ok (l.search f a b)

/-! ### Selected routes -/

/-- The tails of the edges into `u`. -/
def predecessors (l : Listing) (u : Vertex) : List Vertex :=
  l.edges.filterMap fun x => if x.1.head = u then some x.1.tail else none

/-- The vertex `u` takes its turn. When its route changes, the predecessors whose routes continue at
it lose them one after the other. -/
def update (l : Listing) (f : FailureSet) (u : Vertex) (t : RoutingTable) : RoutingTable × Bool :=
  let r := t.choice u (l.usable f u)
  if t.get? u = r then (t, false)
  else
    let t := match r with
      | some r => t.put u r
      | none => t.erase u
    let stale := (l.predecessors u).filter fun w => (t.get? w).any (·.continuesAt u)
    (stale.foldl OrdMap.erase t, true)

/-- Every vertex but the destination takes its turn, in ascending order. -/
def round (l : Listing) (f : FailureSet) (t : RoutingTable) : RoutingTable × Bool :=
  (sorted (l.vertices.filter (· ≠ l.destination))).foldl (fun s u =>
    let (t, changed) := l.update f u s.1
    (t, s.2 || changed)) (t, false)

/-- At most `left` rounds after the `done` rounds that led to `t`. -/
def rounds (l : Listing) (f : FailureSet) :
    (left done : Nat) → RoutingTable → Except SimulationError Simulation
  | 0, done, _ => .error (.divergence done)
  | left + 1, done, t =>
    let (t, changed) := l.round f t
    if changed then l.rounds f left (done + 1) t else .ok ⟨t, done + 1⟩

/-- The routes that the vertices select. -/
def simulate (l : Listing) (f : FailureSet) : Except SimulationError Simulation :=
  l.rounds f (8 * l.vertices.length + 16) 0
    (OrdMap.put ∅ l.destination ⟨[l.destination], .origin⟩)

/-- The first hop that is the destination or leaves the router `owner`, with the vertices passed on
the way there. -/
def leave? (l : Listing) (owner : Option RouterId) :
    (hops passed : List Vertex) → Option (Vertex × List Vertex)
  | [], _ => none
  | w :: hops, passed =>
    if w = l.destination ∨ w.router? ≠ owner then some (w, passed)
    else l.leave? owner hops (passed ++ [w])

/-- The walk of a packet from `v`, where the packet has gone on from the vertices `left` over the
vertices `passed`. -/
def walkFrom (l : Listing) (t : RoutingTable) :
    Nat → (left : List Vertex) → Vertex → (passed : List Vertex) → Walk
  | 0, _, _, _ => .stuck
  | n + 1, left, v, passed =>
    if v ∈ left then .loop v
    else
      match (t.get? v).bind fun r => l.leave? v.router? r.path passed with
      | none => .stuck
      | some (w, passed) =>
        if w = l.destination then .arrived (passed ++ [w])
        else if w.toMain ∈ l.vertices then l.walkFrom t n (v :: left) w.toMain passed
        else .stuck

/-- The walk of a packet from the source. -/
def reprocess (l : Listing) (s : Simulation) : Walk :=
  l.walkFrom s.routes (l.vertices.length + 1) [] l.source []

end Listing

/-! ### Contraction -/

namespace ChainGraph

/-- The graph with its chains in ascending order. -/
def withSortedChains (k : ChainGraph) : ChainGraph := { k with chains := sorted k.chains }

/-- Add an edge between chains, unless they are joined already. -/
def join (edges : List ChainEdge) (d : ChainEdge) : List ChainEdge :=
  if edges.any fun c => c.tail = d.tail ∧ c.head = d.head then edges else d :: edges

/-- Merge `u` with `v` into a new chain: it takes over the edges into `u` and those out of `v`, and
then the two are removed with their edges. -/
def replacePair (k : ChainGraph) (u v : List Vertex) : ChainGraph :=
  let w := u ++ v
  let into := (k.inEdges u).map fun d => ⟨if d.tail = v then w else d.tail, w, d.edge⟩
  let out := (k.outEdges v).map fun d => ⟨w, if d.head = u then w else d.head, d.edge⟩
  let other (x : List Vertex) : Bool := decide (x ≠ u ∧ x ≠ v)
  let kept := k.edges.filter fun d => other d.tail && other d.head
  { chains := k.chains.filter other ++ [w]
    edges := (into ++ out).foldl join kept }

/-- Merge at most `n` times, each time the first pair in the order of the chains. -/
def contractListed : Nat → ChainGraph → ChainGraph
  | 0, k => k
  | n + 1, k =>
    match k.withSortedChains.mergeable? with
    | none => k
    | some (u, v) => contractListed n (k.replacePair u v)

end ChainGraph

namespace Listing

/-- Every vertex as a chain of its own. -/
def chains (l : Listing) : ChainGraph where
  chains := l.vertices.map ([·])
  edges := l.edges.map fun (a, e) => ⟨[a.tail], [a.head], e⟩

/-- Merge until there is nothing left to merge. -/
def contract (l : Listing) : ChainGraph := ChainGraph.contractListed l.vertices.length l.chains

end Listing

/-! ### All answers -/

/-- What can be asked about a path graph. -/
structure GraphAnswers where
  path : FailureSet → Option (List Vertex)
  pathBetween : Vertex → Vertex → FailureSet → Except QueryError (Option (List Vertex))
  simulation : FailureSet → Except SimulationError Simulation
  walk : Simulation → Walk
  /-- The chains that are left of the vertices, in ascending order. -/
  chains : List (List Vertex)
  /-- The edges between the chains, in the order of their ends. -/
  chainEdges : List ChainEdge

/-- The answers that a graph gives. -/
def PathGraph.answers (g : PathGraph) : GraphAnswers where
  path := g.path?
  pathBetween := g.pathBetween?
  simulation := g.simulate
  walk := g.reprocess
  chains := g.contract.chains
  chainEdges := g.contract.sortedEdges

/-- The answers that a listing gives. -/
def Listing.answers (l : Listing) : GraphAnswers where
  path := l.path?
  pathBetween := l.pathBetween?
  simulation := l.simulate
  walk := l.reprocess
  chains := sorted l.contract.chains
  chainEdges := l.contract.sortedEdges

end NetReach
