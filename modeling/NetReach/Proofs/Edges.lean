import NetReach.Proofs.Wires

/-! # The edges of the path graphs, one by one

Every wire of a router lays an edge between two vertices. `Scene.CoarseEdge`, `Scene.FineEdge` and
`Scene.LayerEdge` list these edges with the conditions under which they are laid, and
`Scene.exists_coarseWire`, `Scene.exists_fineWire` and `Scene.exists_layerWire` say that these are
all. The edges of the graph are among them (`Scene.edge_of_wiring`), and an edge that is laid
between two different vertices of the graph is a way (`Scene.IsLaid.way`). -/

namespace NetReach.Scene

variable {c : Scene} {f : FailureSet} {r : Router} {layer : VlanId} {u v : Vertex} {e : Edge}

/-- The wire lays the edge `e` from `u` to `v`. -/
def Lays (w : Wire) (u v : Vertex) (e : Edge) : Prop := w.arc = ⟨u, v⟩ ∧ w.edge = e

theorem lays_plain {k : EdgeKind} (u v : Vertex) : Lays (.plain k u v) u v { kind := k } :=
  ⟨rfl, rfl⟩

/-! ### The coarse graph -/

/-- The edges that the wires of a router lay in the coarse graph. -/
inductive CoarseEdge (c : Scene) (r : Router) : Vertex → Vertex → Edge → Prop where
  | physical {x : Vlan} {y : VlanId} : x ∈ r.vlans.values → y ∈ c.net.linkedVlans x →
    CoarseEdge c r (.main (.vlan x.id)) (.main (.vlan y)) { kind := .physical }
  | ospfIngress {x : Vlan} : x ∈ r.vlans.values → c.ospfTainted r = true →
    CoarseEdge c r (.main (.vlan x.id)) (.main (.ospf r.id)) { kind := .ingress }
  | bgpIngress {x : Vlan} {s : Session} : x ∈ r.vlans.values → c.bgpTainted r = true →
    s ∈ r.sessions → CoarseEdge c r (.main (.vlan x.id)) (sessionVertex r s) { kind := .ingress }
  | delivery {x : Vlan} : x ∈ r.vlans.values → (c.ospfDelivers r || c.bgpDelivers r) = true →
    CoarseEdge c r (.main (.vlan x.id)) c.destination { kind := .delivery }
  | egress {y : VlanId} : r.ospf.isSome = true → y ∈ c.ospfEgress r →
    CoarseEdge c r (.main (.ospf r.id)) (.main (.vlan y))
      { kind := .egress, policies := [.ofCost 1] }
  | ospfOrigin : r.ospf.isSome = true → c.ospfTainted r = true → r.attaches c.src = true →
    CoarseEdge c r c.source (.main (.ospf r.id)) { kind := .origin }
  | redistribution {s : Session} : r.ospf.isSome = true → r.ospfFromBgp = true →
    c.bgpTainted r = true → s ∈ r.sessions →
    CoarseEdge c r (.main (.ospf r.id)) (sessionVertex r s) { kind := .redistribution }
  | bgpOrigin {s : Session} : s ∈ r.sessions → c.bgpTainted r = true → r.attaches c.src = true →
    CoarseEdge c r c.source (sessionVertex r s) { kind := .origin }
  | dependency {s : Session} : s ∈ r.sessions → c.learnsFrom r s = true →
    CoarseEdge c r (sessionVertex r s) (.main (s.localVlan.elim (.ospf r.id) .vlan))
      { kind := .dependency, policies := c.sessionPolicies r s }

theorem exists_coarseWire : (∃ w ∈ c.coarseWiresOf r, Lays w u v e) ↔ c.CoarseEdge r u v e := by
  simp only [coarseWiresOf, coarseVlanWires, coarseOspfWires, coarseSessionWires, List.mem_append,
    List.mem_flatMap, List.mem_map, List.mem_ite_nil_left, List.mem_ite_nil_right,
    List.mem_singleton, Bool.and_eq_true, Bool.not_eq_true, Option.isNone_eq_false_iff]
  constructor
  · rintro ⟨w, h, ⟨harc, rfl⟩⟩
    rcases h with (⟨x, hx, h⟩ | ⟨ho, h⟩) | ⟨s, hs, h⟩
    · rcases h with ((⟨y, hy, rfl⟩ | ⟨ht, rfl⟩) | ⟨ht, s, hs, rfl⟩) | ⟨hd, rfl⟩ <;> cases harc
      · exact .physical hx hy
      · exact .ospfIngress hx ht
      · exact .bgpIngress hx ht hs
      · exact .delivery hx hd
    · rcases h with (⟨y, hy, rfl⟩ | ⟨⟨ht, ha⟩, rfl⟩) | ⟨⟨hr, ht⟩, s, hs, rfl⟩ <;> cases harc
      · exact .egress ho hy
      · exact .ospfOrigin ho ht ha
      · exact .redistribution ho hr ht hs
    · rcases h with ⟨⟨ht, ha⟩, rfl⟩ | ⟨hl, rfl⟩ <;> cases harc
      · exact .bgpOrigin hs ht ha
      · exact .dependency hs hl
  · intro h
    cases h with
    | physical hx hy =>
      exact ⟨_, Or.inl (Or.inl ⟨_, hx, Or.inl (Or.inl (Or.inl ⟨_, hy, rfl⟩))⟩), lays_plain _ _⟩
    | ospfIngress hx ht =>
      exact ⟨_, Or.inl (Or.inl ⟨_, hx, Or.inl (Or.inl (Or.inr ⟨ht, rfl⟩))⟩), lays_plain _ _⟩
    | bgpIngress hx ht hs =>
      exact ⟨_, Or.inl (Or.inl ⟨_, hx, Or.inl (Or.inr ⟨ht, _, hs, rfl⟩)⟩), lays_plain _ _⟩
    | delivery hx hd => exact ⟨_, Or.inl (Or.inl ⟨_, hx, Or.inr ⟨hd, rfl⟩⟩), lays_plain _ _⟩
    | egress ho hy =>
      exact ⟨_, Or.inl (Or.inr ⟨ho, Or.inl (Or.inl ⟨_, hy, rfl⟩)⟩), rfl, rfl⟩
    | ospfOrigin ho ht ha =>
      exact ⟨_, Or.inl (Or.inr ⟨ho, Or.inl (Or.inr ⟨⟨ht, ha⟩, rfl⟩)⟩),
        lays_plain _ _⟩
    | redistribution ho hr ht hs =>
      exact ⟨_, Or.inl (Or.inr ⟨ho, Or.inr ⟨⟨hr, ht⟩, _, hs, rfl⟩⟩),
        lays_plain _ _⟩
    | bgpOrigin hs ht ha =>
      exact ⟨_, Or.inr ⟨_, hs, Or.inl ⟨⟨ht, ha⟩, rfl⟩⟩, lays_plain _ _⟩
    | dependency hs hl => exact ⟨_, Or.inr ⟨_, hs, Or.inr ⟨hl, rfl⟩⟩, rfl, rfl⟩

/-! ### The fine graph -/

/-- The edges that the wires of a router lay in the main layer of the fine graph. -/
inductive FineEdge (c : Scene) (r : Router) : Vertex → Vertex → Edge → Prop where
  | switching {x : Vlan} : x ∈ r.vlans.values → r.isSwitch = true →
    FineEdge c r (.main (.vlanIn x.id)) (.main (.vlanOut x.id)) { kind := .switching }
  | ingress {x : Vlan} : x ∈ r.vlans.values → r.isSwitch = false →
    FineEdge c r (.main (.vlanIn x.id)) (.main (.rib r.id)) { kind := .ingress }
  | physical {x : Vlan} {y : VlanId} : x ∈ r.vlans.values → y ∈ c.net.linkedVlans x →
    FineEdge c r (.main (.vlanOut x.id)) (.main (.vlanIn y)) { kind := .physical }
  | origin : r.attaches c.src = true →
    FineEdge c r c.source (.main (.rib r.id)) { kind := .origin }
  | ospfLookup : FineEdge c r (.main (.rib r.id)) (.main (.ospfIn r.id)) { kind := .lookup }
  | bgpLookup : FineEdge c r (.main (.rib r.id)) (.main (.bgpIn r.id)) { kind := .lookup }
  | ospfRelay : r.ospf.isSome = true → c.taint.taintedByAdjacency ⟨.ospf, r.id⟩ = true →
    FineEdge c r (.main (.ospfIn r.id)) (.main (.ospfOut r.id)) { kind := .relay }
  | egress {y : VlanId} : r.ospf.isSome = true → y ∈ c.ospfEgress r →
    FineEdge c r (.main (.ospfOut r.id)) (.main (.vlanOut y))
      { kind := .egress, policies := [.ofCost 1] }
  | ospfDelivery : r.ospf.isSome = true → c.ospfDelivers r = true →
    FineEdge c r (.main (.ospfIn r.id)) c.destination { kind := .delivery }
  | ospfFromBgp : r.ospf.isSome = true → r.ospfFromBgp = true →
    FineEdge c r (.main (.ospfIn r.id)) (.main (.bgpIn r.id)) { kind := .redistribution }
  | bgpDelivery : c.bgpDelivers r = true →
    FineEdge c r (.main (.bgpIn r.id)) c.destination { kind := .delivery }
  | bgpFromOspf : r.bgpFromOspf = true →
    FineEdge c r (.main (.bgpIn r.id)) (.main (.ospfIn r.id)) { kind := .redistribution }
  | bgpRelay {s : Session} : s ∈ c.learningSessions r →
    FineEdge c r (.main (.bgpIn r.id)) (.main (.bgpOut r.id s.peer))
      { kind := .relay, policies := c.sessionPolicies r s }
  | direct {s : Session} {y : VlanId} : s ∈ c.learningSessions r → s.localVlan = some y →
    FineEdge c r (.main (.bgpOut r.id s.peer)) (.main (.vlanOut y)) { kind := .dependency }
  | distant {s : Session} : s ∈ c.learningSessions r → s.localVlan = none →
    FineEdge c r (.main (.bgpOut r.id s.peer)) (.nextHop s.peerVlan (.ospfIn r.id))
      { kind := .dependency }

theorem exists_fineWire : (∃ w ∈ c.fineWiresOf r, Lays w u v e) ↔ c.FineEdge r u v e := by
  simp only [fineWiresOf, fineVlanWires, fineRibWires, fineOspfWires, fineBgpWires,
    fineSessionWires, List.mem_append, List.mem_cons, List.mem_flatMap, List.mem_map,
    List.mem_ite_nil_left, List.mem_ite_nil_right, List.not_mem_nil, or_false, Bool.not_eq_true,
    Option.isNone_eq_false_iff]
  constructor
  · rintro ⟨w, h, ⟨harc, rfl⟩⟩
    rcases h with ((⟨x, hx, h⟩ | h) | ⟨ho, h⟩) | h
    · rcases h with rfl | ⟨y, hy, rfl⟩
      · split at harc <;> cases harc
        · next hs => rw [if_pos hs]; exact .switching hx hs
        · next hs => rw [if_neg hs]; exact .ingress hx (by simpa using hs)
      · cases harc
        exact .physical hx hy
    · rcases h with ⟨ha, rfl⟩ | rfl | rfl <;> cases harc
      · exact .origin ha
      · exact .ospfLookup
      · exact .bgpLookup
    · rcases h with ((⟨ht, rfl⟩ | ⟨y, hy, rfl⟩) | ⟨hd, rfl⟩) | ⟨hr, rfl⟩ <;> cases harc
      · exact .ospfRelay ho ht
      · exact .egress ho hy
      · exact .ospfDelivery ho hd
      · exact .ospfFromBgp ho hr
    · rcases h with (⟨hd, rfl⟩ | ⟨hr, rfl⟩) | ⟨s, hs, rfl | rfl⟩
      · cases harc
        exact .bgpDelivery hd
      · cases harc
        exact .bgpFromOspf hr
      · cases harc
        exact .bgpRelay hs
      · cases hv : s.localVlan with
        | none =>
          simp only [hv, Option.elim_none] at harc
          cases harc
          exact .distant hs hv
        | some y =>
          simp only [hv, Option.elim_some] at harc
          cases harc
          exact .direct hs hv
  · intro h
    cases h with
    | switching hx hs =>
      refine ⟨_, Or.inl (Or.inl (Or.inl ⟨_, hx, Or.inl rfl⟩)), ?_⟩
      rw [if_pos hs]
      exact lays_plain _ _
    | ingress hx hs =>
      refine ⟨_, Or.inl (Or.inl (Or.inl ⟨_, hx, Or.inl rfl⟩)), ?_⟩
      rw [if_neg (by simpa using hs)]
      exact lays_plain _ _
    | physical hx hy =>
      exact ⟨_, Or.inl (Or.inl (Or.inl ⟨_, hx, Or.inr ⟨_, hy, rfl⟩⟩)), lays_plain _ _⟩
    | origin ha => exact ⟨_, Or.inl (Or.inl (Or.inr (Or.inl ⟨ha, rfl⟩))), lays_plain _ _⟩
    | ospfLookup =>
      exact ⟨_, Or.inl (Or.inl (Or.inr (Or.inr (Or.inl rfl)))), lays_plain _ _⟩
    | bgpLookup =>
      exact ⟨_, Or.inl (Or.inl (Or.inr (Or.inr (Or.inr rfl)))), lays_plain _ _⟩
    | ospfRelay ho ht =>
      exact ⟨_, Or.inl (Or.inr ⟨ho, Or.inl (Or.inl (Or.inl ⟨ht, rfl⟩))⟩),
        lays_plain _ _⟩
    | egress ho hy =>
      exact ⟨_, Or.inl (Or.inr ⟨ho, Or.inl (Or.inl (Or.inr ⟨_, hy, rfl⟩))⟩),
        rfl, rfl⟩
    | ospfDelivery ho hd =>
      exact ⟨_, Or.inl (Or.inr ⟨ho, Or.inl (Or.inr ⟨hd, rfl⟩)⟩), lays_plain _ _⟩
    | ospfFromBgp ho hr =>
      exact ⟨_, Or.inl (Or.inr ⟨ho, Or.inr ⟨hr, rfl⟩⟩), lays_plain _ _⟩
    | bgpDelivery hd => exact ⟨_, Or.inr (Or.inl (Or.inl ⟨hd, rfl⟩)), lays_plain _ _⟩
    | bgpFromOspf hr => exact ⟨_, Or.inr (Or.inl (Or.inr ⟨hr, rfl⟩)), lays_plain _ _⟩
    | bgpRelay hs => exact ⟨_, Or.inr (Or.inr ⟨_, hs, Or.inl rfl⟩), rfl, rfl⟩
    | direct hs hv =>
      refine ⟨_, Or.inr (Or.inr ⟨_, hs, Or.inr rfl⟩), ?_, rfl⟩
      simp only [hv, Option.elim_some]
    | distant hs hv =>
      refine ⟨_, Or.inr (Or.inr ⟨_, hs, Or.inr rfl⟩), ?_, rfl⟩
      simp only [hv, Option.elim_none]

/-! ### The layers of the fine graph -/

/-- The edges that the wires of a router lay in the layer of a next hop. -/
inductive LayerEdge (c : Scene) (layer : VlanId) (r : Router) : Vertex → Vertex → Edge → Prop where
  | exit {x : Vlan} : x ∈ r.vlans.values → r.id = layer.router →
    LayerEdge c layer r (.nextHop layer (.vlanIn x.id)) (.main (.bgpIn layer.router))
      { kind := .nextHopExit }
  | switching {x : Vlan} : x ∈ r.vlans.values → r.id ≠ layer.router → r.isSwitch = true →
    LayerEdge c layer r (.nextHop layer (.vlanIn x.id)) (.nextHop layer (.vlanOut x.id))
      { kind := .switching }
  | ingress {x : Vlan} : x ∈ r.vlans.values → r.id ≠ layer.router → r.isSwitch = false →
    LayerEdge c layer r (.nextHop layer (.vlanIn x.id)) (.nextHop layer (.ospfIn r.id))
      { kind := .ingress }
  | physical {x : Vlan} {y : VlanId} : x ∈ r.vlans.values → y ∈ c.net.linkedVlans x →
    LayerEdge c layer r (.nextHop layer (.vlanOut x.id)) (.nextHop layer (.vlanIn y))
      { kind := .physical }
  | relay : r.ospf.isSome = true → r.id ≠ layer.router →
    LayerEdge c layer r (.nextHop layer (.ospfIn r.id)) (.nextHop layer (.ospfOut r.id))
      { kind := .relay }
  | egress {y : VlanId} : r.ospf.isSome = true → r.id ≠ layer.router → y ∈ c.ospfEgress r →
    LayerEdge c layer r (.nextHop layer (.ospfOut r.id)) (.nextHop layer (.vlanOut y))
      { kind := .egress, policies := [.ofCost 1] }

theorem exists_layerWire :
    (∃ w ∈ c.layerWiresOf layer r, Lays w u v e) ↔ c.LayerEdge layer r u v e := by
  simp only [layerWiresOf, layerVlanWires, List.mem_append, List.mem_cons, List.mem_flatMap,
    List.mem_map, List.mem_ite_nil_right, Bool.and_eq_true, bne_iff_ne, ne_eq]
  constructor
  · rintro ⟨w, h, ⟨harc, rfl⟩⟩
    rcases h with ⟨x, hx, rfl | ⟨y, hy, rfl⟩⟩ | ⟨⟨ho, hl⟩, rfl | ⟨y, hy, rfl⟩⟩
    · split at harc
      · next hl =>
        cases harc
        rw [if_pos hl]
        exact .exit hx hl
      · next hl =>
        split at harc <;> cases harc
        · next hs => rw [if_neg hl, if_pos hs]; exact .switching hx hl hs
        · next hs => rw [if_neg hl, if_neg hs]; exact .ingress hx hl (by simpa using hs)
    · cases harc
      exact .physical hx hy
    · cases harc
      exact .relay ho hl
    · cases harc
      exact .egress ho hl hy
  · intro h
    cases h with
    | exit hx hl =>
      refine ⟨_, Or.inl ⟨_, hx, Or.inl rfl⟩, ?_⟩
      rw [if_pos hl]
      exact lays_plain _ _
    | switching hx hl hs =>
      refine ⟨_, Or.inl ⟨_, hx, Or.inl rfl⟩, ?_⟩
      rw [if_neg hl, if_pos hs]
      exact lays_plain _ _
    | ingress hx hl hs =>
      refine ⟨_, Or.inl ⟨_, hx, Or.inl rfl⟩, ?_⟩
      rw [if_neg hl, if_neg (by simpa using hs)]
      exact lays_plain _ _
    | physical hx hy => exact ⟨_, Or.inl ⟨_, hx, Or.inr ⟨_, hy, rfl⟩⟩, lays_plain _ _⟩
    | relay ho hl => exact ⟨_, Or.inr ⟨⟨ho, hl⟩, Or.inl rfl⟩, lays_plain _ _⟩
    | egress ho hl hy => exact ⟨_, Or.inr ⟨⟨ho, hl⟩, Or.inr ⟨_, hy, rfl⟩⟩, rfl, rfl⟩

/-! ### The graph of a variant -/

/-- The edges that the wires of a variant lay. -/
inductive IsLaid (c : Scene) : Variant → Vertex → Vertex → Edge → Prop where
  | coarse {r : Router} {u v : Vertex} {e : Edge} : r ∈ c.net.routers → c.CoarseEdge r u v e →
    IsLaid c .coarse u v e
  | fine {r : Router} {u v : Vertex} {e : Edge} : r ∈ c.net.routers → c.FineEdge r u v e →
    IsLaid c .fine u v e
  | layer {r : Router} {layer : VlanId} {u v : Vertex} {e : Edge} : r ∈ c.net.routers →
    layer ∈ c.layers → c.LayerEdge layer r u v e → IsLaid c .fine u v e

theorem exists_wire {variant : Variant} :
    (∃ w ∈ c.wires variant, Lays w u v e) ↔ c.IsLaid variant u v e := by
  constructor
  · rintro ⟨w, hw, hlays⟩
    cases variant with
    | coarse =>
      obtain ⟨r, hr, hw⟩ := mem_wires_coarse.mp hw
      exact .coarse hr (exists_coarseWire.mp ⟨w, hw, hlays⟩)
    | fine =>
      obtain ⟨r, hr, hw | ⟨layer, hl, hw⟩⟩ := mem_wires_fine.mp hw
      · exact .fine hr (exists_fineWire.mp ⟨w, hw, hlays⟩)
      · exact .layer hr hl (exists_layerWire.mp ⟨w, hw, hlays⟩)
  · intro h
    cases h with
    | coarse hr h =>
      obtain ⟨w, hw, hlays⟩ := exists_coarseWire.mpr h
      exact ⟨w, mem_wires_coarse.mpr ⟨_, hr, hw⟩, hlays⟩
    | fine hr h =>
      obtain ⟨w, hw, hlays⟩ := exists_fineWire.mpr h
      exact ⟨w, mem_wires_fine.mpr ⟨_, hr, Or.inl hw⟩, hlays⟩
    | layer hr hl h =>
      obtain ⟨w, hw, hlays⟩ := exists_layerWire.mpr h
      exact ⟨w, mem_wires_fine.mpr ⟨_, hr, Or.inr ⟨_, hl, hw⟩⟩, hlays⟩

variable {variant : Variant}

/-- **The successors of a vertex are where edges are laid to, between different vertices.** -/
theorem mem_successors_iff : v ∈ (c.wiring variant).graph.successors f u ↔
    (∃ e, c.IsLaid variant u v e) ∧ u ∈ (c.wiring variant).graph.vertices ∧
      v ∈ (c.wiring variant).graph.vertices ∧ u ≠ v ∧ f.cuts u v = false := by
  rw [mem_successors_wiring]
  refine and_congr_left fun _ => ?_
  constructor
  · rintro ⟨w, hw, harc⟩
    exact ⟨w.edge, exists_wire.mp ⟨w, hw, harc, rfl⟩⟩
  · rintro ⟨e, h⟩
    obtain ⟨w, hw, harc, -⟩ := exists_wire.mpr h
    exact ⟨w, hw, harc⟩

/-- An edge between different vertices of the graph is a way. -/
theorem IsLaid.way (h : c.IsLaid variant u v e) (hu : u ∈ (c.wiring variant).graph.vertices)
    (hv : v ∈ (c.wiring variant).graph.vertices) (hne : u ≠ v) : c.Way variant u v :=
  .single (mem_successors_iff.mpr ⟨⟨e, h⟩, hu, hv, hne, FailureSet.cuts_empty _ _⟩)

theorem edge_foldl_add {s : Wiring} {ws : List Wire} (h : (ws.foldl Wiring.add s).graph.edge? u v =
    some e) : s.graph.edge? u v = some e ∨ ∃ w ∈ ws, Lays w u v e := by
  induction ws generalizing s with
  | nil => exact Or.inl h
  | cons w ws ih =>
    rcases ih (s := s.add w) h with h | ⟨x, hx, hlays⟩
    · rw [Wiring.graph_add, PathGraph.edge?, PathGraph.addEdge] at h
      split at h
      · rw [OrdMap.get?_put] at h
        split at h
        · next harc =>
          cases h
          exact Or.inr ⟨w, List.mem_cons_self, harc.symm, rfl⟩
        · exact Or.inl h
      · exact Or.inl h
    · exact Or.inr ⟨x, List.mem_cons_of_mem _ hx, hlays⟩

/-- **The edges of the graph are laid.** -/
theorem edge_of_wiring (h : (c.wiring variant).graph.edge? u v = some e) :
    c.IsLaid variant u v e := by
  rw [wiring_eq, Wiring.ofWires] at h
  rcases edge_foldl_add h with h | hw
  · rw [PathGraph.edge?, PathGraph.addVertices_edges] at h
    cases h
  · exact exists_wire.mp hw

end NetReach.Scene
