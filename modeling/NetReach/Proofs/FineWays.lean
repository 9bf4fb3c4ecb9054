import NetReach.Proofs.Edges
import NetReach.Proofs.Forwarding

/-! # Ways through the fine graph

The fine graph turns every step of the forwarding that a tainted process does into edges: packets
leave on a VLAN, follow a chain over the switches, and enter the router at the end of the chain,
which hands them to its processes. So there is a way from the vertex at which packets are handed to
the process to the destination (`Scene.Forwards.fine_way`). Conversely the source is only joined to
routers whose processes are tainted (`Scene.learns_of_fine_way`). -/

namespace NetReach.Scene

variable {c : Scene} {r r' : Router} {p : Protocol} {s : Session} {v w : VlanId} {a b : Vertex}
  {x : Vlan}

/-! ### Vertices -/

theorem mem_fine_vertices (hr : c.net.router? r.id = some r) (h : a ∈ c.fineVerticesOf r) :
    a ∈ (c.wiring .fine).graph.vertices :=
  mem_vertices_of_inner <|
    List.mem_append_left _ (List.mem_flatMap.mpr ⟨r, List.mem_of_getElem? hr, h⟩)

theorem vlan_mem_fine (hn : c.net.Linked) (hv : (c.net.vlan? v).isSome) :
    .main (.vlanIn v) ∈ (c.wiring .fine).graph.vertices ∧
      .main (.vlanOut v) ∈ (c.wiring .fine).graph.vertices := by
  obtain ⟨r, x, hr, -, -, rfl, hxr⟩ := Network.exists_router_of_vlan hn hv
  constructor
  · refine mem_fine_vertices hr ?_
    simp only [fineVerticesOf, vlanVertices, List.mem_append, List.mem_flatMap]
    exact Or.inl (Or.inl (Or.inl ⟨x, hxr, List.mem_cons_self⟩))
  · refine mem_fine_vertices hr ?_
    simp only [fineVerticesOf, vlanVertices, List.mem_append, List.mem_flatMap]
    exact Or.inl (Or.inl (Or.inl ⟨x, hxr, List.mem_cons_of_mem _ List.mem_cons_self⟩))

/-- The vertices of the main layer that belong to routers are those of its wiring. -/
theorem exists_mem_fineVerticesOf {k : VertexKind} (h : .main k ∈ (c.wiring .fine).graph.vertices)
    (hk : k.router?.isSome = true) : ∃ r ∈ c.net.routers, .main k ∈ c.fineVerticesOf r := by
  rcases mem_vertices_wiring.mp h with (h | h) | h
  · cases h
    cases hk
  · cases h
    cases hk
  rcases List.mem_append.mp h with h | h
  · exact List.mem_flatMap.mp h
  · obtain ⟨layer, -, h⟩ := List.mem_flatMap.mp h
    obtain ⟨r, -, h⟩ := List.mem_flatMap.mp h
    simp only [layerVerticesOf, vlanVertices, List.mem_append, List.mem_flatMap, List.mem_cons,
      List.mem_ite_nil_right, List.not_mem_nil, or_false] at h
    rcases h with ⟨x, -, h | h⟩ | ⟨-, h | h⟩ <;> cases h

theorem Runs.isSwitch (h : c.Runs p r) : r.isSwitch = false := by
  have hruns := h.runs
  cases p with
  | ospf =>
    cases ho : r.ospf with
    | none => simp [Router.runs, ho] at hruns
    | some o => simp [Router.isSwitch, ho]
  | bgp =>
    cases hb : r.bgp with
    | none => simp [Router.runs, hb] at hruns
    | some b => simp [Router.isSwitch, hb]

theorem Runs.rib_mem (h : c.Runs p r) : .main (.rib r.id) ∈ (c.wiring .fine).graph.vertices := by
  refine mem_fine_vertices h.router ?_
  simp [fineVerticesOf, h.isSwitch]

theorem Runs.ospf_mem (h : c.Runs .ospf r) :
    .main (.ospfIn r.id) ∈ (c.wiring .fine).graph.vertices ∧
      .main (.ospfOut r.id) ∈ (c.wiring .fine).graph.vertices := by
  have hruns : r.ospf.isSome = true := h.runs
  have htaint : c.ospfTainted r = true := h.tainted
  constructor
  · refine mem_fine_vertices h.router ?_
    simp [fineVerticesOf, hruns, htaint]
  · refine mem_fine_vertices h.router ?_
    simp [fineVerticesOf, hruns, htaint]

theorem Runs.bgpIn_mem (h : c.Runs .bgp r) :
    .main (.bgpIn r.id) ∈ (c.wiring .fine).graph.vertices := by
  have hruns : r.bgp.isSome = true := h.runs
  have htaint : c.bgpTainted r = true := h.tainted
  refine mem_fine_vertices h.router ?_
  simp [fineVerticesOf, hruns, htaint]

theorem mem_learningSessions :
    s ∈ c.learningSessions r ↔ s ∈ r.sessions ∧ c.learnsFrom r s = true :=
  List.mem_filter

theorem Runs.bgpOut_mem (h : c.Runs .bgp r) (hs : s ∈ c.learningSessions r) :
    .main (.bgpOut r.id s.peer) ∈ (c.wiring .fine).graph.vertices := by
  have hruns : r.bgp.isSome = true := h.runs
  have htaint : c.bgpTainted r = true := h.tainted
  refine mem_fine_vertices h.router ?_
  simp only [fineVerticesOf, hruns, htaint, Bool.and_self, if_true, List.mem_append, List.mem_cons,
    List.mem_map]
  exact Or.inr (Or.inr ⟨s, hs, rfl⟩)

/-- The vertex at which packets are handed to a process. -/
def entry : Protocol → RouterId → Vertex
  | .ospf, i => .main (.ospfIn i)
  | .bgp, i => .main (.bgpIn i)

theorem Runs.entry_mem (h : c.Runs p r) : entry p r.id ∈ (c.wiring .fine).graph.vertices := by
  cases p with
  | ospf => exact h.ospf_mem.1
  | bgp => exact h.bgpIn_mem

/-! ### Ways -/

theorem fine_way {e : Edge} (he : c.FineEdge r a b e) (hr : c.net.router? r.id = some r)
    (ha : a ∈ (c.wiring .fine).graph.vertices) (hb : b ∈ (c.wiring .fine).graph.vertices)
    (hne : a ≠ b) : c.Way .fine a b :=
  (IsLaid.fine (List.mem_of_getElem? hr) he).way ha hb hne

theorem fine_way_link (hn : c.net.Linked) (h : c.net.Link v w) :
    c.Way .fine (.main (.vlanOut v)) (.main (.vlanIn w)) := by
  obtain ⟨hv, hw⟩ := h.isSome_vlan? hn
  obtain ⟨r, x, hr, -, hx, rfl, hxr⟩ := Network.exists_router_of_vlan hn hv
  have hlinked := (Network.mem_linkedVlans hn hx).mpr h
  exact fine_way (.physical hxr hlinked) hr (vlan_mem_fine hn hv).2 (vlan_mem_fine hn hw).1 nofun

theorem fine_way_switch (hn : c.net.Linked) (hv : (c.net.vlan? v).isSome)
    (hs : c.net.isSwitch v.router = true) :
    c.Way .fine (.main (.vlanIn v)) (.main (.vlanOut v)) := by
  obtain ⟨r, x, hr, hid, -, rfl, hxr⟩ := Network.exists_router_of_vlan hn hv
  have hswitch : r.isSwitch = true := by
    rw [Network.isSwitch, ← hid, hr] at hs
    exact hs
  exact fine_way (.switching hxr hswitch) hr (vlan_mem_fine hn hv).1 (vlan_mem_fine hn hv).2 nofun

/-- A chain of links is a way over the switches. -/
theorem fine_way_chain (hn : c.net.Linked) (h : c.net.Chain v w) :
    c.Way .fine (.main (.vlanOut v)) (.main (.vlanIn w)) := by
  induction h with
  | link h => exact fine_way_link hn h
  | cons h hs _ ih =>
    exact ((fine_way_link hn h).trans (fine_way_switch hn (h.isSome_vlan? hn).2 hs)).trans ih

theorem Runs.rib_way (h : c.Runs p r) : c.Way .fine (.main (.rib r.id)) (entry p r.id) := by
  cases p with
  | ospf => exact fine_way .ospfLookup h.router h.rib_mem h.entry_mem nofun
  | bgp => exact fine_way .bgpLookup h.router h.rib_mem h.entry_mem nofun

/-- Packets that enter a router are handed to its processes. -/
theorem Runs.vlanIn_way (hn : c.net.Linked) (h : c.Runs p r) (hv : (c.net.vlan? v).isSome)
    (hr : v.router = r.id) : c.Way .fine (.main (.vlanIn v)) (entry p r.id) := by
  obtain ⟨x, hxr, rfl, -⟩ := Network.exists_mem_vlans hn h.router hv hr
  have hingress := fine_way (.ingress hxr h.isSwitch) h.router (vlan_mem_fine hn hv).1 h.rib_mem
    nofun
  exact hingress.trans h.rib_way

theorem Runs.deliver_way (h : c.Runs p r) (ha : r.attaches c.dst = true)
    (ho : r.originates c.dst p = true) : c.Way .fine (entry p r.id) c.destination := by
  have hd := Bool.and_eq_true_iff.mpr ⟨ha, ho⟩
  have hdst : c.destination ∈ (c.wiring .fine).graph.vertices := destination_mem_vertices
  cases p with
  | ospf => exact Scene.fine_way (.ospfDelivery h.runs hd) h.router h.entry_mem hdst nofun
  | bgp => exact Scene.fine_way (.bgpDelivery hd) h.router h.entry_mem hdst nofun

/-- **What forwards in the taint graph does so in the fine graph.** -/
theorem Forwards.fine_way (hn : c.net.Linked) (h : c.Forwards p r) :
    c.Way .fine (entry p r.id) c.destination := by
  induction h with
  | deliver h ha ho => exact h.deliver_way ha ho
  | @ospfFromBgp r h hfrom hfwd ih =>
    have hstep := Scene.fine_way (.ospfFromBgp h.runs hfrom) h.router h.entry_mem
      hfwd.runs.entry_mem nofun
    exact hstep.trans ih
  | @bgpFromOspf r h hfrom hfwd ih =>
    have hstep := Scene.fine_way (.bgpFromOspf hfrom) h.router h.entry_mem hfwd.runs.entry_mem nofun
    exact hstep.trans ih
  | @adjacency r r' v w h hadj hv hchain hw hfwd ih =>
    -- over the outgoing vertex of OSPF to the VLAN, and along the chain
    have hvlan := (vlan_mem_fine hn (hchain.isSome_vlan? hn)).2
    have hrelay := Scene.fine_way (.ospfRelay h.runs hadj) h.router h.ospf_mem.1 h.ospf_mem.2 nofun
    have hegress := Scene.fine_way (.egress h.runs hv) h.router h.ospf_mem.2 hvlan nofun
    have henter := hfwd.runs.vlanIn_way hn (hchain.symm.isSome_vlan? hn) hw
    exact (((hrelay.trans hegress).trans (fine_way_chain hn hchain)).trans henter).trans ih
  | @session r r' s v h hs hlearn hlocal hchain hw hfwd ih =>
    -- over the outgoing vertex of the session to the local VLAN, and along the chain
    have hvlan := (vlan_mem_fine hn (hchain.isSome_vlan? hn)).2
    have hmem : s ∈ c.learningSessions r := mem_learningSessions.mpr ⟨hs, hlearn⟩
    have hrelay := Scene.fine_way (.bgpRelay hmem) h.router h.bgpIn_mem (h.bgpOut_mem hmem) nofun
    have hdep := Scene.fine_way (.direct hmem hlocal) h.router (h.bgpOut_mem hmem) hvlan nofun
    have henter := hfwd.runs.vlanIn_way hn (hchain.symm.isSome_vlan? hn) hw
    exact (((hrelay.trans hdep).trans (fine_way_chain hn hchain)).trans henter).trans ih

/-- From the source, packets enter every router that has it attached and runs a tainted process. -/
theorem Forwards.fine_way_source (hn : c.net.Linked) (h : c.Forwards p r)
    (ha : r.attaches c.src = true) : c.Way .fine c.source c.destination := by
  have horigin := Scene.fine_way (.origin ha) h.runs.router source_mem_vertices h.runs.rib_mem nofun
  exact (horigin.trans h.runs.rib_way).trans (h.fine_way hn)

/-! ### From the source -/

/-- Where an edge leads that starts at the source or at the routing decision of a router. -/
structure Starts (c : Scene) (a b : Vertex) : Prop where
  source : a = c.source → ∃ i, b = .main (.rib i) ∧ ∃ r, c.net.router? i = some r ∧
    r.attaches c.src = true
  rib : ∀ i, a = .main (.rib i) → b = entry .ospf i ∨ b = entry .bgp i

theorem FineEdge.starts {e : Edge} (he : c.FineEdge r a b e) (hr : c.net.router? r.id = some r) :
    c.Starts a b := by
  cases he with
  | origin ha => exact ⟨fun _ => ⟨r.id, rfl, r, hr, ha⟩, nofun⟩
  | ospfLookup =>
    refine ⟨nofun, fun i hi => ?_⟩
    cases hi
    exact Or.inl rfl
  | bgpLookup =>
    refine ⟨nofun, fun i hi => ?_⟩
    cases hi
    exact Or.inr rfl
  | _ => exact ⟨nofun, nofun⟩

theorem LayerEdge.starts {layer : VlanId} {e : Edge} (he : c.LayerEdge layer r a b e) :
    c.Starts a b := by
  cases he <;> exact ⟨nofun, nofun⟩

theorem starts_of_mem_successors (hn : c.net.Linked)
    (h : b ∈ (c.wiring .fine).graph.successors ∅ a) : c.Starts a b := by
  obtain ⟨⟨e, he⟩, -⟩ := mem_successors_iff.mp h
  cases he with
  | fine hr he => exact he.starts (hn.router?_of_mem hr)
  | layer _ _ he => exact he.starts

/-- BGP of a router has a vertex of its own only if it runs, and is tainted. -/
theorem exists_router_of_bgpIn_mem {i : RouterId}
    (h : .main (.bgpIn i) ∈ (c.wiring .fine).graph.vertices) :
    ∃ r ∈ c.net.routers, r.bgp.isSome = true ∧ c.bgpTainted r = true ∧ r.id = i := by
  obtain ⟨r, hr, h⟩ := exists_mem_fineVerticesOf h rfl
  simp only [fineVerticesOf, vlanVertices, List.mem_append, List.mem_flatMap, List.mem_cons,
    List.mem_ite_nil_left, List.mem_ite_nil_right, List.mem_map, List.not_mem_nil, or_false,
    Bool.and_eq_true] at h
  rcases h with ((⟨x, -, h | h⟩ | ⟨-, h⟩) | ⟨-, h | h⟩) | ⟨⟨hb, ht⟩, h | ⟨s, -, h⟩⟩ <;> cases h
  exact ⟨r, hr, hb, ht, rfl⟩

/-- The processes with a vertex of their own are tainted. -/
theorem isTainted_of_entry_mem {i : RouterId}
    (h : entry p i ∈ (c.wiring .fine).graph.vertices) : c.taint.isTainted ⟨p, i⟩ = true := by
  cases p with
  | ospf =>
    obtain ⟨r, -, h⟩ := exists_mem_fineVerticesOf h rfl
    simp only [fineVerticesOf, vlanVertices, List.mem_append, List.mem_flatMap, List.mem_cons,
      List.mem_ite_nil_left, List.mem_ite_nil_right, List.mem_map, List.not_mem_nil, or_false,
      Bool.and_eq_true] at h
    rcases h with ((⟨x, -, h | h⟩ | ⟨-, h⟩) | ⟨⟨-, ht⟩, h | h⟩) | ⟨-, h | ⟨s, -, h⟩⟩ <;> cases h
    exact ht
  | bgp =>
    obtain ⟨r, -, -, ht, rfl⟩ := exists_router_of_bgpIn_mem h
    exact ht

/-- **A way from the source enters at a router that has it attached and runs a tainted process.** -/
theorem learns_of_fine_way (hn : c.net.Linked) (h : c.Way .fine c.source c.destination) :
    ∃ i r p, c.net.router? i = some r ∧ r.attaches c.src = true ∧
      c.taint.isTainted ⟨p, i⟩ = true := by
  rcases h.cases_head with h | ⟨a, ha, h⟩
  · cases h
  obtain ⟨i, rfl, r, hr, hsrc⟩ := (starts_of_mem_successors hn ha).source rfl
  rcases h.cases_head with h | ⟨b, hb, -⟩
  · cases h
  have hmem := (PathGraph.mem_vertices_of_mem_successors hb).2.1
  rcases (starts_of_mem_successors hn hb).rib i rfl with rfl | rfl
  · exact ⟨i, r, .ospf, hr, hsrc, isTainted_of_entry_mem hmem⟩
  · exact ⟨i, r, .bgp, hr, hsrc, isTainted_of_entry_mem hmem⟩

end NetReach.Scene
