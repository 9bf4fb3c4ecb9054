import NetReach.PathGraph.Basic

/-! # Existence of paths

A depth-first search for a path that no failure cuts, whatever the policies say. Successors are
tried in their order, and no vertex is entered twice. -/

namespace NetReach

/-- How the search below a vertex ends. -/
inductive SearchResult where
  /-- A path was found. -/
  | found (path : List Vertex)
  /-- There is none; these vertices were not entered. -/
  | exhausted (fresh : List Vertex)
deriving Repr, Inhabited

namespace SearchResult

/-- The path that was found. -/
def path? : SearchResult → Option (List Vertex)
  | found p => some p
  | exhausted _ => none

end SearchResult

/-- Enter the vertices of a list that are still fresh, until a path is found. -/
def enterEach (enter : Vertex → List Vertex → SearchResult) :
    List Vertex → List Vertex → SearchResult
  | [], fresh => .exhausted fresh
  | w :: ws, fresh =>
    if w ∈ fresh then
      match enter w (fresh.erase w) with
      | .found p => .found p
      | .exhausted fresh => enterEach enter ws fresh
    else enterEach enter ws fresh

/-- Search a path from `v` to `target` over vertices that are still fresh, at most `depth` deep. -/
def searchFrom (next : Vertex → List Vertex) (target : Vertex) :
    Nat → Vertex → List Vertex → SearchResult
  | 0, _, fresh => .exhausted fresh
  | depth + 1, v, fresh =>
    if v = target then .found [v]
    else
      match enterEach (searchFrom next target depth) (next v) fresh with
      | .found p => .found (v :: p)
      | .exhausted fresh => .exhausted fresh

namespace PathGraph

/-- The first path from `a` to `b` that no failure cuts. No path is longer than the graph has
vertices, which bounds the depth. -/
def search (g : PathGraph) (f : FailureSet) (a b : Vertex) : Option (List Vertex) :=
  (searchFrom (g.successors f) b g.numVertices a (g.vertices.toList.erase a)).path?

/-- The first path from the source to the destination that no failure cuts. -/
def path? (g : PathGraph) (f : FailureSet) : Option (List Vertex) :=
  g.search f g.source g.destination

/-- The first path between two vertices that no failure cuts. -/
def pathBetween? (g : PathGraph) (a b : Vertex) (f : FailureSet) :
    Except QueryError (Option (List Vertex)) :=
  if !g.contains a then .error (.unknownVertex a)
  else if !g.contains b then .error (.unknownVertex b)
  else .ok (g.search f a b)

end PathGraph

end NetReach
