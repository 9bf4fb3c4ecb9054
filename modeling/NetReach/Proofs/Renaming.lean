import Mathlib.Data.List.Basic
import Mathlib.Logic.Embedding.Basic
import NetReach.PathGraph.Failure
import NetReach.Taint

/-! # Renamed routers

Routers are known by their position, so the same routers in another order have other identifiers.
A map of the identifiers renames everything that speaks of routers: VLANs, sessions, processes, and
the nodes and vertices of both kinds of graphs. Renamed by the identity they stay what they are, and
renamed by an injective map they stay apart (`Vertex.rename_injective`). -/

namespace NetReach

variable (f g : RouterId → RouterId)

namespace VlanId

/-- The VLAN with the same number of the renamed router. -/
def rename (v : VlanId) : VlanId := ⟨f v.router, v.num⟩

@[simp] theorem router_rename (v : VlanId) : (v.rename f).router = f v.router := rfl

@[simp] theorem rename_id (v : VlanId) : v.rename id = v := rfl

theorem rename_rename (v : VlanId) : (v.rename f).rename g = v.rename (g ∘ f) := rfl

end VlanId

/-- The session, with the renamed peer and between the renamed VLANs. -/
def Session.rename (s : Session) : Session :=
  { s with
    peer := f s.peer
    peerVlan := s.peerVlan.rename f
    localVlan := s.localVlan.map (·.rename f) }

/-- The process of the renamed router. -/
def Process.rename (p : Process) : Process := ⟨p.protocol, f p.router⟩

/-- The node with its process renamed. -/
def TaintNode.rename : TaintNode → TaintNode
  | .process p => .process (p.rename f)
  | .subnet s => .subnet s

/-- The edge between the renamed nodes. -/
def Spread.rename (e : Spread) : Spread := ⟨e.tail.rename f, e.head.rename f, e.kind⟩

@[simp] theorem Session.rename_id (s : Session) : s.rename id = s := by
  have hvlan : s.localVlan.map (·.rename id) = s.localVlan := Option.map_id'
  rw [rename, hvlan]
  rfl

@[simp] theorem Session.isDirect_rename (s : Session) : (s.rename f).isDirect = s.isDirect :=
  Option.isSome_map

@[simp] theorem Process.rename_id (p : Process) : p.rename id = p := rfl

/-! ### Vertices -/

namespace VertexKind

/-- The kind with its routers renamed. -/
def rename : VertexKind → VertexKind
  | destination s => destination s
  | source s => source s
  | vlan v => vlan (v.rename f)
  | ospf r => ospf (f r)
  | bgpSession r peer => bgpSession (f r) (f peer)
  | rib r => rib (f r)
  | vlanIn v => vlanIn (v.rename f)
  | vlanOut v => vlanOut (v.rename f)
  | ospfIn r => ospfIn (f r)
  | ospfOut r => ospfOut (f r)
  | bgpIn r => bgpIn (f r)
  | bgpOut r peer => bgpOut (f r) (f peer)

theorem rename_id (k : VertexKind) : k.rename id = k := by
  cases k <;> rfl

theorem rename_rename (k : VertexKind) : (k.rename f).rename g = k.rename (g ∘ f) := by
  cases k <;> rfl

theorem router?_rename (k : VertexKind) : (k.rename f).router? = k.router?.map f := by
  cases k <;> rfl

end VertexKind

namespace Layer

/-- The layer of the renamed VLAN. -/
def rename : Layer → Layer
  | main => main
  | nextHop v => nextHop (v.rename f)

theorem rename_id (l : Layer) : l.rename id = l := by
  cases l <;> rfl

theorem rename_rename (l : Layer) : (l.rename f).rename g = l.rename (g ∘ f) := by
  cases l <;> rfl

end Layer

namespace Vertex

/-- The vertex with its routers renamed, in the renamed layer. -/
def rename (v : Vertex) : Vertex := ⟨v.layer.rename f, v.kind.rename f⟩

@[simp] theorem rename_main (k : VertexKind) : (main k).rename f = main (k.rename f) := rfl

@[simp] theorem rename_nextHop (v : VlanId) (k : VertexKind) :
    (nextHop v k).rename f = nextHop (v.rename f) (k.rename f) := rfl

@[simp] theorem rename_id (v : Vertex) : v.rename id = v := by
  rw [rename, Layer.rename_id, VertexKind.rename_id]

theorem rename_rename (v : Vertex) : (v.rename f).rename g = v.rename (g ∘ f) := by
  simp only [rename, Layer.rename_rename, VertexKind.rename_rename]

theorem router?_rename (v : Vertex) : (v.rename f).router? = v.router?.map f :=
  v.kind.router?_rename f

variable {f}

/-- **An injective map keeps vertices apart.** -/
theorem rename_injective (hf : f.Injective) : (rename f).Injective := by
  obtain ⟨g, hg⟩ := hf.hasLeftInverse
  refine Function.LeftInverse.injective (g := rename g) fun v => ?_
  rw [rename_rename, hg.comp_eq_id, rename_id]

end Vertex

/-! ### Failures -/

namespace FailureSet

/-- The failed links between the renamed routers. -/
def rename (F : FailureSet) : FailureSet := ⟨F.pairs.map (Prod.map f f)⟩

variable {f}

theorem contains_rename (hf : f.Injective) (F : FailureSet) (i j : RouterId) :
    (F.rename f).contains (f i) (f j) = F.contains i j := by
  have hmem : ∀ a b, (f a, f b) ∈ F.pairs.map (Prod.map f f) ↔ (a, b) ∈ F.pairs := fun a b =>
    List.mem_map_of_injective (a := (a, b)) (hf.prodMap hf)
  simp only [contains, rename, hmem]

end FailureSet

end NetReach
