import NetReach.Proofs.Agreement
import NetReach.Proofs.Edges
import NetReach.Proofs.Hops
import NetReach.Proofs.TaintPart

/-! # The path graphs of a part of a network

The graphs of a part embed into those of the whole: their vertices, renamed, are among those of the
whole (`Embeds.mem_vertices`), and where an edge is laid in a graph of the part, one is laid in that
of the whole (`Embeds.exists_isLaid`). A failure that cuts no more links of the part than another
one leaves the ways open that the other one does (`Embeds.reaches`). -/

namespace NetReach.Scene

variable {φ : RouterId ↪ RouterId} {c' c : Scene} {f' f : FailureSet} {r' r : Router}
  {u v : Vertex} {e : Edge} {x' : Vlan} {y : VlanId} {s : Session} {variant : Variant}

/-- The first scene shows a part of the network of the second one, between the same subnets, and
what the taint graph says of the part it says of the whole. -/
structure Embeds (φ : RouterId ↪ RouterId) (c' c : Scene) : Prop where
  part : c'.net.Part φ c.net
  linked' : c'.net.Linked
  linked : c.net.Linked
  dst : c'.dst = c.dst
  src : c'.src = c.src
  adjacent : ∀ {v w}, w ∈ c'.l2.adjacent v → w.rename φ ∈ c.l2.adjacent (v.rename φ)
  isTainted : ∀ {p}, c'.taint.isTainted p = true → c.taint.isTainted (p.rename φ) = true
  propagates : ∀ {p q}, c'.taint.propagates p q = true →
    c.taint.propagates (p.rename φ) (q.rename φ) = true
  taintedByAdjacency : ∀ {p}, c'.taint.taintedByAdjacency p = true →
    c.taint.taintedByAdjacency (p.rename φ) = true

theorem embeds_scene {net' net : Network} (h : net'.Part φ net) (hn' : net'.Linked)
    (hn : net.Linked) (hfirst : net.ExternalFirst) (dst src : Subnet) :
    (net'.scene dst src).Embeds φ (net.scene dst src) where
  part := h
  linked' := hn'
  linked := hn
  dst := rfl
  src := rfl
  adjacent := h.mem_adjacent hn' hn
  isTainted := h.isTainted hn' hn hfirst
  propagates := h.propagates hn' hn hfirst
  taintedByAdjacency := h.taintedByAdjacency hn' hn hfirst

namespace Embeds

/-! ### Conditions of edges -/

theorem ospfTainted (h : c'.Embeds φ c) (hr : r'.Part φ r) (ht : c'.ospfTainted r' = true) :
    c.ospfTainted r = true := by
  rw [Scene.ospfTainted, hr.id]
  exact h.isTainted ht

theorem bgpTainted (h : c'.Embeds φ c) (hr : r'.Part φ r) (ht : c'.bgpTainted r' = true) :
    c.bgpTainted r = true := by
  rw [Scene.bgpTainted, hr.id]
  exact h.isTainted ht

theorem learnsFrom (h : c'.Embeds φ c) (hr : r'.Part φ r) (hl : c'.learnsFrom r' s = true) :
    c.learnsFrom r (s.rename φ) = true := by
  rw [Scene.learnsFrom, hr.id]
  exact h.propagates hl

theorem mem_learningSessions (h : c'.Embeds φ c) (hr : r'.Part φ r)
    (hs : s ∈ c'.learningSessions r') : s.rename φ ∈ c.learningSessions r := by
  obtain ⟨hs, hl⟩ := List.mem_filter.mp hs
  exact List.mem_filter.mpr ⟨hr.sessions hs, h.learnsFrom hr hl⟩

theorem mem_ospfEgress (h : c'.Embeds φ c) (hr : r'.Part φ r) (hy : y ∈ c'.ospfEgress r') :
    y.rename φ ∈ c.ospfEgress r := by
  obtain ⟨hid, ha, hmeets⟩ := Scene.mem_ospfEgress.mp hy
  obtain ⟨w, hw, hwa⟩ := List.any_eq_true.mp hmeets
  have hrouter : (y.rename φ).router = r.id := by rw [VlanId.router_rename, hid, hr.id]
  exact Scene.mem_ospfEgress.mpr ⟨hrouter, hr.active ha,
    List.any_eq_true.mpr ⟨w.rename φ, h.adjacent hw, h.part.ospfActive hwa⟩⟩

theorem attaches (h : c'.Embeds φ c) (hr : r'.Part φ r) :
    r'.attaches c'.src = r.attaches c.src := by
  rw [hr.attaches, h.src]

theorem ospfDelivers (h : c'.Embeds φ c) (hr : r'.Part φ r) :
    c'.ospfDelivers r' = c.ospfDelivers r := by
  have ho : r'.ospfOriginates c.dst = r.ospfOriginates c.dst := hr.originates c.dst .ospf
  rw [Scene.ospfDelivers, Scene.ospfDelivers, h.dst, hr.attaches, ho]

theorem bgpDelivers (h : c'.Embeds φ c) (hr : r'.Part φ r) :
    c'.bgpDelivers r' = c.bgpDelivers r := by
  have ho : r'.bgpOriginates c.dst = r.bgpOriginates c.dst := hr.originates c.dst .bgp
  rw [Scene.bgpDelivers, Scene.bgpDelivers, h.dst, hr.attaches, ho]

theorem mem_layers (h : c'.Embeds φ c) (hy : y ∈ c'.layers) : y.rename φ ∈ c.layers := by
  simp only [layers, OrdSet.mem_ofList, List.mem_flatMap, List.mem_ite_nil_right, List.mem_map,
    List.mem_filter] at hy ⊢
  obtain ⟨r', hr', ht, s, ⟨hs, hneeds⟩, rfl⟩ := hy
  obtain ⟨r, hr, -, hpart⟩ := h.part.mem_routers h.linked' hr'
  refine ⟨r, hr, h.bgpTainted hpart ht, s.rename φ, ⟨h.mem_learningSessions hpart hs, ?_⟩, rfl⟩
  rw [needsLayer, Session.isDirect_rename, ← hpart.ospf]
  exact hneeds

theorem destination (h : c'.Embeds φ c) : c'.destination.rename φ = c.destination :=
  congrArg (Vertex.main ∘ .destination) h.dst

theorem source (h : c'.Embeds φ c) : c'.source.rename φ = c.source :=
  congrArg (Vertex.main ∘ .source) h.src

/-! ### The edges and the vertices of a router -/

section Router

variable (h : c'.Embeds φ c) (hr' : r' ∈ c'.net.routers) (hr : c.net.router? r.id = some r)
  (hpart : r'.Part φ r)

include h hr' hr hpart

theorem exists_vlan (hx' : x' ∈ r'.vlans.values) :
    ∃ x ∈ r.vlans.values, x.id = x'.id.rename φ ∧
      ∀ y ∈ c'.net.linkedVlans x', y.rename φ ∈ c.net.linkedVlans x :=
  h.part.exists_vlan h.linked' h.linked (h.linked'.router?_of_mem hr') hr hpart hx'

omit h hr' hr in
theorem sessionVertex_eq (s : Session) :
    (sessionVertex r' s).rename φ = sessionVertex r (s.rename φ) := by
  rw [sessionVertex, sessionVertex, hpart.id]
  rfl

theorem exists_coarseEdge (he : c'.CoarseEdge r' u v e) :
    ∃ d, c.CoarseEdge r (u.rename φ) (v.rename φ) d := by
  have hospf := hpart.ospf
  have hid := hpart.id
  have hsession := sessionVertex_eq hpart
  cases he with
  | physical hx hy =>
    obtain ⟨x, hx, hxid, hlinks⟩ := h.exists_vlan hr' hr hpart hx
    simp only [Vertex.rename_main, VertexKind.rename, ← hxid]
    exact ⟨_, .physical hx (hlinks _ hy)⟩
  | ospfIngress hx ht =>
    obtain ⟨x, hx, hxid, -⟩ := h.exists_vlan hr' hr hpart hx
    simp only [Vertex.rename_main, VertexKind.rename, ← hxid, ← hid]
    exact ⟨_, .ospfIngress hx (h.ospfTainted hpart ht)⟩
  | bgpIngress hx ht hs =>
    obtain ⟨x, hx, hxid, -⟩ := h.exists_vlan hr' hr hpart hx
    simp only [Vertex.rename_main, VertexKind.rename, ← hxid, hsession]
    exact ⟨_, .bgpIngress hx (h.bgpTainted hpart ht) (hpart.sessions hs)⟩
  | delivery hx hd =>
    obtain ⟨x, hx, hxid, -⟩ := h.exists_vlan hr' hr hpart hx
    rw [h.ospfDelivers hpart, h.bgpDelivers hpart] at hd
    simp only [Vertex.rename_main, VertexKind.rename, ← hxid, h.destination]
    exact ⟨_, .delivery hx hd⟩
  | egress ho hy =>
    simp only [Vertex.rename_main, VertexKind.rename, ← hid]
    exact ⟨_, .egress (hospf ▸ ho) (h.mem_ospfEgress hpart hy)⟩
  | ospfOrigin ho ht ha =>
    rw [h.attaches hpart] at ha
    simp only [Vertex.rename_main, VertexKind.rename, ← hid, h.source]
    exact ⟨_, .ospfOrigin (hospf ▸ ho) (h.ospfTainted hpart ht) ha⟩
  | redistribution ho hb ht hs =>
    simp only [Vertex.rename_main, VertexKind.rename, ← hid, hsession]
    exact ⟨_, .redistribution (hospf ▸ ho) (hpart.ospfFromBgp hb) (h.bgpTainted hpart ht)
      (hpart.sessions hs)⟩
  | bgpOrigin hs ht ha =>
    rw [h.attaches hpart] at ha
    rw [hsession, h.source]
    exact ⟨_, .bgpOrigin (hpart.sessions hs) (h.bgpTainted hpart ht) ha⟩
  | @dependency s hs hl =>
    have hhead : (s.localVlan.elim (VertexKind.ospf r'.id) .vlan).rename φ =
        (s.rename φ).localVlan.elim (.ospf r.id) .vlan := by
      rw [hid, Session.rename]
      cases s.localVlan <;> rfl
    rw [hsession, Vertex.rename_main, hhead]
    exact ⟨_, .dependency (hpart.sessions hs) (h.learnsFrom hpart hl)⟩

theorem exists_fineEdge (he : c'.FineEdge r' u v e) :
    ∃ d, c.FineEdge r (u.rename φ) (v.rename φ) d := by
  have hospf := hpart.ospf
  have hswitch := hpart.isSwitch
  have hid := hpart.id
  cases he with
  | switching hx hs =>
    obtain ⟨x, hx, hxid, -⟩ := h.exists_vlan hr' hr hpart hx
    simp only [Vertex.rename_main, VertexKind.rename, ← hxid]
    exact ⟨_, .switching hx (hswitch ▸ hs)⟩
  | ingress hx hs =>
    obtain ⟨x, hx, hxid, -⟩ := h.exists_vlan hr' hr hpart hx
    simp only [Vertex.rename_main, VertexKind.rename, ← hxid, ← hid]
    exact ⟨_, .ingress hx (hswitch ▸ hs)⟩
  | physical hx hy =>
    obtain ⟨x, hx, hxid, hlinks⟩ := h.exists_vlan hr' hr hpart hx
    simp only [Vertex.rename_main, VertexKind.rename, ← hxid]
    exact ⟨_, .physical hx (hlinks _ hy)⟩
  | origin ha =>
    rw [h.attaches hpart] at ha
    simp only [Vertex.rename_main, VertexKind.rename, ← hid, h.source]
    exact ⟨_, .origin ha⟩
  | ospfLookup =>
    simp only [Vertex.rename_main, VertexKind.rename, ← hid]
    exact ⟨_, .ospfLookup⟩
  | bgpLookup =>
    simp only [Vertex.rename_main, VertexKind.rename, ← hid]
    exact ⟨_, .bgpLookup⟩
  | ospfRelay ho ht =>
    have ht := h.taintedByAdjacency ht
    simp only [Vertex.rename_main, VertexKind.rename, Process.rename, ← hid] at ht ⊢
    exact ⟨_, .ospfRelay (hospf ▸ ho) ht⟩
  | egress ho hy =>
    simp only [Vertex.rename_main, VertexKind.rename, ← hid]
    exact ⟨_, .egress (hospf ▸ ho) (h.mem_ospfEgress hpart hy)⟩
  | ospfDelivery ho hd =>
    rw [h.ospfDelivers hpart] at hd
    simp only [Vertex.rename_main, VertexKind.rename, ← hid, h.destination]
    exact ⟨_, .ospfDelivery (hospf ▸ ho) hd⟩
  | ospfFromBgp ho hb =>
    simp only [Vertex.rename_main, VertexKind.rename, ← hid]
    exact ⟨_, .ospfFromBgp (hospf ▸ ho) (hpart.ospfFromBgp hb)⟩
  | bgpDelivery hd =>
    rw [h.bgpDelivers hpart] at hd
    simp only [Vertex.rename_main, VertexKind.rename, ← hid, h.destination]
    exact ⟨_, .bgpDelivery hd⟩
  | bgpFromOspf hb =>
    simp only [Vertex.rename_main, VertexKind.rename, ← hid]
    exact ⟨_, .bgpFromOspf (hpart.bgpFromOspf hb)⟩
  | bgpRelay hs =>
    simp only [Vertex.rename_main, VertexKind.rename, ← hid]
    exact ⟨_, .bgpRelay (h.mem_learningSessions hpart hs)⟩
  | direct hs hv =>
    simp only [Vertex.rename_main, VertexKind.rename, ← hid]
    exact ⟨_, .direct (h.mem_learningSessions hpart hs) (congrArg (Option.map _) hv)⟩
  | distant hs hv =>
    simp only [Vertex.rename_main, Vertex.rename_nextHop, VertexKind.rename, ← hid]
    exact ⟨_, .distant (h.mem_learningSessions hpart hs) (congrArg (Option.map _) hv)⟩

theorem exists_layerEdge {layer : VlanId} (he : c'.LayerEdge layer r' u v e) :
    ∃ d, c.LayerEdge (layer.rename φ) r (u.rename φ) (v.rename φ) d := by
  have hospf := hpart.ospf
  have hswitch := hpart.isSwitch
  have hid := hpart.id
  have hne : r'.id ≠ layer.router → r.id ≠ (layer.rename φ).router := by
    rw [hid]
    exact φ.injective.ne
  cases he with
  | exit hx hl =>
    obtain ⟨x, hx, hxid, -⟩ := h.exists_vlan hr' hr hpart hx
    simp only [Vertex.rename_main, Vertex.rename_nextHop, VertexKind.rename, ← hxid]
    exact ⟨_, .exit hx (hid.trans (congrArg φ hl))⟩
  | switching hx hl hs =>
    obtain ⟨x, hx, hxid, -⟩ := h.exists_vlan hr' hr hpart hx
    simp only [Vertex.rename_nextHop, VertexKind.rename, ← hxid]
    exact ⟨_, .switching hx (hne hl) (hswitch ▸ hs)⟩
  | ingress hx hl hs =>
    obtain ⟨x, hx, hxid, -⟩ := h.exists_vlan hr' hr hpart hx
    simp only [Vertex.rename_nextHop, VertexKind.rename, ← hxid, ← hid]
    exact ⟨_, .ingress hx (hne hl) (hswitch ▸ hs)⟩
  | physical hx hy =>
    obtain ⟨x, hx, hxid, hlinks⟩ := h.exists_vlan hr' hr hpart hx
    simp only [Vertex.rename_nextHop, VertexKind.rename, ← hxid]
    exact ⟨_, .physical hx (hlinks _ hy)⟩
  | relay ho hl =>
    simp only [Vertex.rename_nextHop, VertexKind.rename, ← hid]
    exact ⟨_, .relay (hospf ▸ ho) (hne hl)⟩
  | egress ho hl hy =>
    simp only [Vertex.rename_nextHop, VertexKind.rename, ← hid]
    exact ⟨_, .egress (hospf ▸ ho) (hne hl) (h.mem_ospfEgress hpart hy)⟩

theorem mem_vlanVertices {place' place : VertexKind → Vertex}
    (hplace : ∀ k, (place' k).rename φ = place (k.rename φ)) (hv : v ∈ vlanVertices place' r') :
    v.rename φ ∈ vlanVertices place r := by
  obtain ⟨x', hx', hv⟩ := List.mem_flatMap.mp hv
  obtain ⟨x, hx, hxid, -⟩ := h.exists_vlan hr' hr hpart hx'
  refine List.mem_flatMap.mpr ⟨x, hx, ?_⟩
  rw [hxid]
  simp only [List.mem_cons, List.not_mem_nil, or_false] at hv ⊢
  rcases hv with rfl | rfl
  · exact Or.inl (hplace _)
  · exact Or.inr (hplace _)

theorem mem_coarseVerticesOf (hv : v ∈ coarseVerticesOf r') :
    v.rename φ ∈ coarseVerticesOf r := by
  simp only [coarseVerticesOf, List.mem_append, List.mem_map, List.mem_ite_nil_right,
    List.mem_singleton] at hv ⊢
  rcases hv with (⟨x', hx', rfl⟩ | ⟨ho, rfl⟩) | ⟨s, hs, rfl⟩
  · obtain ⟨x, hx, hxid, -⟩ := h.exists_vlan hr' hr hpart hx'
    exact Or.inl (Or.inl ⟨x, hx, by rw [hxid]; rfl⟩)
  · rw [hpart.id, ← hpart.ospf]
    exact Or.inl (Or.inr ⟨ho, rfl⟩)
  · exact Or.inr ⟨_, hpart.sessions hs, (sessionVertex_eq hpart s).symm⟩

theorem mem_fineVerticesOf (hv : v ∈ c'.fineVerticesOf r') :
    v.rename φ ∈ c.fineVerticesOf r := by
  simp only [fineVerticesOf, List.mem_append, List.mem_ite_nil_left, List.mem_ite_nil_right,
    List.mem_cons, List.not_mem_nil, or_false, List.mem_map, Bool.and_eq_true] at hv ⊢
  rw [hpart.id, ← hpart.ospf, ← hpart.bgp, ← hpart.isSwitch]
  rcases hv with ((hv | ⟨hs, rfl⟩) | ⟨⟨ho, ht⟩, hv⟩) | ⟨⟨hb, ht⟩, hv⟩
  · exact Or.inl (Or.inl (Or.inl (h.mem_vlanVertices hr' hr hpart (fun _ => rfl) hv)))
  · exact Or.inl (Or.inl (Or.inr ⟨hs, rfl⟩))
  · refine Or.inl (Or.inr ⟨⟨ho, h.ospfTainted hpart ht⟩, ?_⟩)
    exact hv.imp (congrArg _) (congrArg _)
  · refine Or.inr ⟨⟨hb, h.bgpTainted hpart ht⟩, hv.imp (congrArg _) ?_⟩
    rintro ⟨s, hs, rfl⟩
    exact ⟨_, h.mem_learningSessions hpart hs, rfl⟩

theorem mem_layerVerticesOf {layer : VlanId} (hv : v ∈ layerVerticesOf layer r') :
    v.rename φ ∈ layerVerticesOf (layer.rename φ) r := by
  simp only [layerVerticesOf, List.mem_append, List.mem_ite_nil_right, List.mem_cons,
    List.not_mem_nil, or_false, Bool.and_eq_true, bne_iff_ne] at hv ⊢
  rw [hpart.id, ← hpart.ospf]
  rcases hv with hv | ⟨⟨ho, hl⟩, hv⟩
  · exact Or.inl (h.mem_vlanVertices hr' hr hpart (fun _ => rfl) hv)
  · exact Or.inr ⟨⟨ho, φ.injective.ne hl⟩, hv.imp (congrArg _) (congrArg _)⟩

end Router

/-! ### The graphs -/

/-- **Where an edge is laid for the part, one is laid for the whole.** -/
theorem exists_isLaid (h : c'.Embeds φ c) (he : c'.IsLaid variant u v e) :
    ∃ d, c.IsLaid variant (u.rename φ) (v.rename φ) d := by
  cases he with
  | coarse hr' he =>
    obtain ⟨r, hr, hrid, hpart⟩ := h.part.mem_routers h.linked' hr'
    obtain ⟨d, hd⟩ := h.exists_coarseEdge hr' hrid hpart he
    exact ⟨d, .coarse hr hd⟩
  | fine hr' he =>
    obtain ⟨r, hr, hrid, hpart⟩ := h.part.mem_routers h.linked' hr'
    obtain ⟨d, hd⟩ := h.exists_fineEdge hr' hrid hpart he
    exact ⟨d, .fine hr hd⟩
  | layer hr' hl he =>
    obtain ⟨r, hr, hrid, hpart⟩ := h.part.mem_routers h.linked' hr'
    obtain ⟨d, hd⟩ := h.exists_layerEdge hr' hrid hpart he
    exact ⟨d, .layer hr (h.mem_layers hl) hd⟩

/-- **The vertices of the part are, renamed, vertices of the whole.** -/
theorem mem_vertices (h : c'.Embeds φ c) (hv : v ∈ (c'.wiring variant).graph.vertices) :
    v.rename φ ∈ (c.wiring variant).graph.vertices := by
  rw [mem_vertices_wiring] at hv ⊢
  rw [← h.destination, ← h.source]
  refine hv.imp (Or.imp (congrArg _) (congrArg _)) fun hv => ?_
  cases variant with
  | coarse =>
    obtain ⟨r', hr', hv⟩ := List.mem_flatMap.mp hv
    obtain ⟨r, hr, hrid, hpart⟩ := h.part.mem_routers h.linked' hr'
    exact List.mem_flatMap.mpr ⟨r, hr, h.mem_coarseVerticesOf hr' hrid hpart hv⟩
  | fine =>
    refine List.mem_append.mpr ((List.mem_append.mp hv).imp (fun hv => ?_) fun hv => ?_)
    · obtain ⟨r', hr', hv⟩ := List.mem_flatMap.mp hv
      obtain ⟨r, hr, hrid, hpart⟩ := h.part.mem_routers h.linked' hr'
      exact List.mem_flatMap.mpr ⟨r, hr, h.mem_fineVerticesOf hr' hrid hpart hv⟩
    · obtain ⟨layer, hl, hv⟩ := List.mem_flatMap.mp hv
      obtain ⟨r', hr', hv⟩ := List.mem_flatMap.mp hv
      obtain ⟨r, hr, hrid, hpart⟩ := h.part.mem_routers h.linked' hr'
      exact List.mem_flatMap.mpr ⟨_, h.mem_layers hl,
        List.mem_flatMap.mpr ⟨r, hr, h.mem_layerVerticesOf hr' hrid hpart hv⟩⟩

/-! ### Ways -/

/-- A failure that cuts no more links than another one cuts no edge that the other one leaves. -/
theorem cuts_eq_false (h : c'.Embeds φ c)
    (hf : ∀ {i j}, c'.net.Joined i j → f'.contains i j = false → f.contains (φ i) (φ j) = false)
    (hv : v ∈ (c'.wiring variant).graph.successors f' u) :
    f.cuts (u.rename φ) (v.rename φ) = false := by
  obtain ⟨hhop, hcuts⟩ := hop_of_mem_successors h.linked' hv
  cases hhop with
  | enter hu _ _ =>
    rw [hu, h.source]
    rfl
  | stay hu hv =>
    refine FailureSet.cuts_of_router?_eq ?_
    rw [Vertex.router?_rename, Vertex.router?_rename, hu, hv]
  | @link i j hu hv hjoined =>
    by_cases hij : i = j
    · refine FailureSet.cuts_of_router?_eq ?_
      rw [Vertex.router?_rename, Vertex.router?_rename, hu, hv, hij]
    · have hopen : f'.contains i j = false := by
        simpa [FailureSet.cuts, hu, hv, hij] using hcuts
      simp only [FailureSet.cuts, Vertex.router?_rename, hu, hv, Option.map_some, hf hjoined hopen,
        Bool.and_false]
  | deliver hu hv _ =>
    rw [hv, h.destination]
    simp only [FailureSet.cuts, Vertex.router?_rename, hu]
    rfl

/-- **A failure that cuts no more links of the part than another one leaves the ways open that the
other one does.** -/
theorem reaches (h : c'.Embeds φ c)
    (hf : ∀ {i j}, c'.net.Joined i j → f'.contains i j = false → f.contains (φ i) (φ j) = false)
    (hv : (c'.wiring variant).graph.Reaches f' u v) :
    (c.wiring variant).graph.Reaches f (u.rename φ) (v.rename φ) := by
  refine Relation.ReflTransGen.lift (Vertex.rename φ) (fun a b hab => ?_) _ _ hv
  have hcuts := h.cuts_eq_false hf hab
  obtain ⟨⟨e, he⟩, ha, hb, hne, -⟩ := mem_successors_iff.mp hab
  exact mem_successors_iff.mpr ⟨h.exists_isLaid he, h.mem_vertices ha, h.mem_vertices hb,
    (Vertex.rename_injective φ.injective).ne hne, hcuts⟩

/-- **What a failure leaves open in the part is found in the whole while no more has failed.** -/
theorem isSome_path?_of_failures (h : c'.Embeds φ c)
    (hf : ∀ {i j}, c'.net.Joined i j → f'.contains i j = false → f.contains (φ i) (φ j) = false)
    (hp : ((c'.wiring variant).graph.path? f').isSome) :
    ((c.wiring variant).graph.path? f).isSome := by
  rw [PathGraph.isSome_path?, source_wiring, destination_wiring] at hp ⊢
  rw [← h.source, ← h.destination]
  exact h.reaches hf hp

theorem isSome_path? (h : c'.Embeds (.refl _) c)
    (hf : ∀ {i j}, c'.net.Joined i j → f.contains i j = false)
    (hp : ((c'.wiring variant).graph.path? ∅).isSome) :
    ((c.wiring variant).graph.path? f).isSome :=
  h.isSome_path?_of_failures (fun hjoined _ => hf hjoined) hp

end Embeds

end NetReach.Scene
