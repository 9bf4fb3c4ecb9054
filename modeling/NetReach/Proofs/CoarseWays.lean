import NetReach.Proofs.Edges
import NetReach.Proofs.Forwarding

/-! # Ways through the coarse graph

In the coarse graph a VLAN stands for packets that enter and leave the router alike. What forwards
in the taint graph leads from every VLAN of its router to the destination (`Scene.Exits.vlan_way`),
and from the source as well, unless source and destination are attached to the same router
(`Scene.Forwards.coarse_way_source`). Conversely the source is only joined to processes that are
tainted (`Scene.learns_of_coarse_way`). -/

namespace NetReach.Scene

variable {c : Scene} {r r' : Router} {p : Protocol} {s : Session} {v w : VlanId} {a b : Vertex}

/-! ### Vertices -/

theorem mem_coarse_vertices (hr : c.net.router? r.id = some r) (h : a ∈ coarseVerticesOf r) :
    a ∈ (c.wiring .coarse).graph.vertices :=
  mem_vertices_of_inner (List.mem_flatMap.mpr ⟨r, List.mem_of_getElem? hr, h⟩)

theorem vlan_mem_coarse (hn : c.net.Linked) (hv : (c.net.vlan? v).isSome) :
    .main (.vlan v) ∈ (c.wiring .coarse).graph.vertices := by
  obtain ⟨r, x, hr, -, -, rfl, hxr⟩ := Network.exists_router_of_vlan hn hv
  refine mem_coarse_vertices hr ?_
  simp only [coarseVerticesOf, List.mem_append]
  exact Or.inl (Or.inl (List.mem_map.mpr ⟨x, hxr, rfl⟩))

theorem Runs.ospf_mem_coarse (h : c.Runs .ospf r) :
    .main (.ospf r.id) ∈ (c.wiring .coarse).graph.vertices := by
  have hruns : r.ospf.isSome = true := h.runs
  refine mem_coarse_vertices h.router ?_
  simp [coarseVerticesOf, hruns]

theorem session_mem_coarse (hr : c.net.router? r.id = some r) (hs : s ∈ r.sessions) :
    sessionVertex r s ∈ (c.wiring .coarse).graph.vertices := by
  refine mem_coarse_vertices hr ?_
  simp only [coarseVerticesOf, List.mem_append]
  exact Or.inr (List.mem_map_of_mem hs)

/-! ### Ways -/

theorem coarse_way {e : Edge} (he : c.CoarseEdge r a b e) (hr : c.net.router? r.id = some r)
    (ha : a ∈ (c.wiring .coarse).graph.vertices) (hb : b ∈ (c.wiring .coarse).graph.vertices)
    (hne : a ≠ b) : c.Way .coarse a b :=
  (IsLaid.coarse (List.mem_of_getElem? hr) he).way ha hb hne

theorem coarse_way_link (hn : c.net.Linked) (h : c.net.Link v w) (hne : v ≠ w) :
    c.Way .coarse (.main (.vlan v)) (.main (.vlan w)) := by
  obtain ⟨hv, hw⟩ := h.isSome_vlan? hn
  obtain ⟨r, x, hr, -, hx, rfl, hxr⟩ := Network.exists_router_of_vlan hn hv
  have hlinked := (Network.mem_linkedVlans hn hx).mpr h
  refine coarse_way (.physical hxr hlinked) hr (vlan_mem_coarse hn hv) (vlan_mem_coarse hn hw) ?_
  intro he
  cases he
  exact hne rfl

/-- A chain of links is a way. -/
theorem coarse_way_chain (hn : c.net.Linked) (h : c.net.Chain v w) :
    c.Way .coarse (.main (.vlan v)) (.main (.vlan w)) := by
  have hlink : ∀ {u v}, c.net.Link u v → c.Way .coarse (.main (.vlan u)) (.main (.vlan v)) := by
    intro u v h
    by_cases hne : u = v
    · rw [hne]
    · exact coarse_way_link hn h hne
  induction h with
  | link h => exact hlink h
  | cons h _ _ ih => exact (hlink h).trans ih

/-- How packets leave the router: they are delivered, or go on from a vertex of a process. -/
inductive Exits (c : Scene) (r : Router) : Prop where
  | deliver {p : Protocol} : r.attaches c.dst = true → r.originates c.dst p = true → Exits c r
  | ospf : c.Runs .ospf r → c.Way .coarse (.main (.ospf r.id)) c.destination → Exits c r
  | session {s : Session} : c.Runs .bgp r → s ∈ r.sessions →
    c.Way .coarse (sessionVertex r s) c.destination → Exits c r

/-- Where packets leave the router, they do so from each of its VLANs. -/
theorem Exits.vlan_way (hn : c.net.Linked) (h : c.Exits r) (hr : c.net.router? r.id = some r)
    (hv : (c.net.vlan? v).isSome) (hid : v.router = r.id) :
    c.Way .coarse (.main (.vlan v)) c.destination := by
  obtain ⟨x, hxr, rfl, -⟩ := Network.exists_mem_vlans hn hr hv hid
  have hvlan := vlan_mem_coarse hn hv
  cases h with
  | @deliver p ha ho =>
    have hd : (c.ospfDelivers r || c.bgpDelivers r) = true := by
      cases p with
      | ospf => exact Bool.or_eq_true_iff.mpr (Or.inl (Bool.and_eq_true_iff.mpr ⟨ha, ho⟩))
      | bgp => exact Bool.or_eq_true_iff.mpr (Or.inr (Bool.and_eq_true_iff.mpr ⟨ha, ho⟩))
    exact coarse_way (.delivery hxr hd) hr hvlan destination_mem_vertices nofun
  | ospf h hway =>
    have hingress := coarse_way (.ospfIngress hxr h.tainted) hr hvlan h.ospf_mem_coarse nofun
    exact hingress.trans hway
  | session h hs hway =>
    have hingress := coarse_way (.bgpIngress hxr h.tainted hs) hr hvlan (session_mem_coarse hr hs)
      nofun
    exact hingress.trans hway

/-- **What forwards in the taint graph leaves the router in the coarse graph.** -/
theorem Forwards.exits (hn : c.net.Linked) (h : c.Forwards p r) : c.Exits r := by
  induction h with
  | deliver _ ha ho => exact .deliver ha ho
  | ospfFromBgp _ _ _ ih => exact ih
  | bgpFromOspf _ _ _ ih => exact ih
  | @adjacency r r' v w h _ hv hchain hw hfwd ih =>
    have hegress := coarse_way (.egress h.runs hv) h.router h.ospf_mem_coarse
      (vlan_mem_coarse hn (hchain.isSome_vlan? hn)) nofun
    have hnext := ih.vlan_way hn hfwd.runs.router (hchain.symm.isSome_vlan? hn) hw
    exact .ospf h ((hegress.trans (coarse_way_chain hn hchain)).trans hnext)
  | @session r r' s v h hs hlearn hlocal hchain hw hfwd ih =>
    have hdep : c.Way .coarse (sessionVertex r s) (.main (.vlan v)) := by
      have hedge := CoarseEdge.dependency hs hlearn
      rw [hlocal] at hedge
      exact coarse_way hedge h.router (session_mem_coarse h.router hs)
        (vlan_mem_coarse hn (hchain.isSome_vlan? hn)) nofun
    have hnext := ih.vlan_way hn hfwd.runs.router (hchain.symm.isSome_vlan? hn) hw
    exact .session h hs ((hdep.trans (coarse_way_chain hn hchain)).trans hnext)

/-! ### From the source -/

/-- From the source, packets go to the tainted processes of a router that has it attached, if the
destination is not attached there. -/
theorem Forwards.coarse_way_source (hn : c.net.Linked) (h : c.Forwards p r)
    (ha : r.attaches c.src = true) (hd : r.attaches c.dst = false) :
    c.Way .coarse c.source c.destination := by
  have hr := h.runs.router
  cases h.exits hn with
  | deliver hattached _ =>
    rw [hd] at hattached
    cases hattached
  | ospf h hway =>
    have horigin := coarse_way (.ospfOrigin h.runs h.tainted ha) hr source_mem_vertices
      h.ospf_mem_coarse nofun
    exact horigin.trans hway
  | session h hs hway =>
    have horigin := coarse_way (.bgpOrigin hs h.tainted ha) hr source_mem_vertices
      (session_mem_coarse hr hs) nofun
    exact horigin.trans hway

/-- Where an edge from the source leads, a tainted process runs and the source is attached. -/
theorem CoarseEdge.learns {e : Edge} (he : c.CoarseEdge r a b e) (ha : a = c.source) :
    r.attaches c.src = true ∧ ∃ p, c.taint.isTainted ⟨p, r.id⟩ = true := by
  cases he with
  | ospfOrigin _ ht hsrc => exact ⟨hsrc, .ospf, ht⟩
  | bgpOrigin _ ht hsrc => exact ⟨hsrc, .bgp, ht⟩
  | _ => cases ha

/-- **A way from the source enters at a router that has it attached and runs a tainted process.** -/
theorem learns_of_coarse_way (hn : c.net.Linked) (h : c.Way .coarse c.source c.destination) :
    ∃ i r p, c.net.router? i = some r ∧ r.attaches c.src = true ∧
      c.taint.isTainted ⟨p, i⟩ = true := by
  rcases h.cases_head with h | ⟨a, ha, -⟩
  · cases h
  obtain ⟨⟨e, he⟩, -⟩ := mem_successors_iff.mp ha
  cases he with
  | @coarse r _ _ _ hr he =>
    obtain ⟨hsrc, p, hp⟩ := he.learns rfl
    exact ⟨r.id, r, p, hn.router?_of_mem hr, hsrc, hp⟩

end NetReach.Scene
