import NetReach.Proofs.Edges
import NetReach.Proofs.Layer2
import NetReach.Proofs.TaintWalk

/-! # What the edges stand for

Every edge of a path graph stands for something that a packet can do (`Scene.Hop`): it enters the
network, stays on a router, crosses a link, or is delivered (`Scene.hop_of_isLaid`). This holds for
both variants, and whatever the domains and the taint graph say. -/

namespace NetReach

namespace Network

/-- The interfaces of the routers towards each other both belong to VLANs. -/
def Joined (net : Network) (a b : RouterId) : Prop :=
  (∃ i v, net.iface? a b = some i ∧ i.vlan = some v) ∧
    ∃ j w, net.iface? b a = some j ∧ j.vlan = some w

/-- The subnet is attached to the router. -/
def Attaches (net : Network) (i : RouterId) (s : Subnet) : Prop :=
  ∃ r, net.router? i = some r ∧ r.attaches s = true

/-- The subnet is attached to the router, and a process of the router originates it. -/
def Delivers (net : Network) (i : RouterId) (s : Subnet) : Prop :=
  ∃ r p, net.router? i = some r ∧ r.attaches s = true ∧ r.originates s p = true

theorem Link.joined {net : Network} {v w : VlanId} (h : net.Link v w) :
    net.Joined v.router w.router := by
  obtain ⟨⟨i, hi, hv⟩, j, hj, hw⟩ := h
  exact ⟨⟨i, v, hi, hv⟩, j, w, hj, hw⟩

end Network

/-! ### Hops -/

/-- What a packet does between two vertices. -/
inductive Scene.Hop (c : Scene) (u v : Vertex) : Prop where
  | enter {i : RouterId} : u = c.source → v.router? = some i → c.net.Attaches i c.src → Hop c u v
  | stay {i : RouterId} : u.router? = some i → v.router? = some i → Hop c u v
  | link {i j : RouterId} : u.router? = some i → v.router? = some j → c.net.Joined i j → Hop c u v
  | deliver {i : RouterId} : u.router? = some i → v = c.destination → c.net.Delivers i c.dst →
    Hop c u v

namespace Scene

variable {c : Scene} {f : FailureSet} {r : Router} {i : RouterId} {u v : Vertex}
  {e : Edge}

theorem mem_ospfEgress {x : VlanId} : x ∈ c.ospfEgress r ↔
    x.router = r.id ∧ r.ospfActive x.num = true ∧
      (c.l2.adjacent x).any c.net.ospfActive = true := by
  simp only [ospfEgress, List.mem_filter, List.mem_map, Router.mem_active_iff]
  constructor
  · rintro ⟨⟨num, hnum, rfl⟩, h⟩
    exact ⟨rfl, hnum, h⟩
  · rintro ⟨hr, hnum, h⟩
    exact ⟨⟨x.num, hnum, by rw [← hr]⟩, h⟩

theorem hop_of_linkedVlans (hn : c.net.Linked) (hr : c.net.router? r.id = some r) {x : Vlan}
    {y : VlanId} (hx : x ∈ r.vlans.values) (hy : y ∈ c.net.linkedVlans x)
    (hu : u.router? = some x.id.router) (hv : v.router? = some y.router) : c.Hop u v := by
  obtain ⟨hvlan, -⟩ := (Network.mem_vlans_of_router? hn hr).mp hx
  exact .link hu hv ((Network.mem_linkedVlans hn hvlan).mp hy).joined

theorem delivers_of_ospf (hr : c.net.router? r.id = some r) (h : c.ospfDelivers r = true) :
    c.net.Delivers r.id c.dst := by
  obtain ⟨ha, ho⟩ := Bool.and_eq_true_iff.mp h
  exact ⟨r, .ospf, hr, ha, ho⟩

theorem delivers_of_bgp (hr : c.net.router? r.id = some r) (h : c.bgpDelivers r = true) :
    c.net.Delivers r.id c.dst := by
  obtain ⟨ha, ho⟩ := Bool.and_eq_true_iff.mp h
  exact ⟨r, .bgp, hr, ha, ho⟩

theorem router?_of_mem_vlans (hn : c.net.Linked) (hr : c.net.router? r.id = some r) {x : Vlan}
    (hx : x ∈ r.vlans.values) : some x.id.router = some r.id :=
  congrArg some ((Network.mem_vlans_of_router? hn hr).mp hx).2

theorem hop_of_coarseEdge (hn : c.net.Linked) (hr : c.net.router? r.id = some r)
    (h : c.CoarseEdge r u v e) : c.Hop u v := by
  cases h with
  | physical hx hy => exact hop_of_linkedVlans hn hr hx hy rfl rfl
  | ospfIngress hx _ => exact .stay (router?_of_mem_vlans hn hr hx) rfl
  | bgpIngress hx _ _ => exact .stay (router?_of_mem_vlans hn hr hx) rfl
  | delivery hx hd =>
    have hrouter := router?_of_mem_vlans hn hr hx
    rcases Bool.or_eq_true_iff.mp hd with hd | hd
    · exact .deliver hrouter rfl (delivers_of_ospf hr hd)
    · exact .deliver hrouter rfl (delivers_of_bgp hr hd)
  | egress _ hy => exact .stay rfl (congrArg some (mem_ospfEgress.mp hy).1)
  | ospfOrigin _ _ ha => exact .enter rfl rfl ⟨r, hr, ha⟩
  | redistribution _ _ _ _ => exact .stay rfl rfl
  | bgpOrigin _ _ ha => exact .enter rfl rfl ⟨r, hr, ha⟩
  | @dependency s hs _ =>
    cases hv : s.localVlan with
    | none => exact .stay rfl rfl
    | some x => exact .stay rfl (congrArg some (hn.localVlan hr hs hv).1)

theorem hop_of_fineEdge (hn : c.net.Linked) (hr : c.net.router? r.id = some r)
    (h : c.FineEdge r u v e) : c.Hop u v := by
  cases h with
  | switching _ _ => exact .stay rfl rfl
  | ingress hx _ => exact .stay (router?_of_mem_vlans hn hr hx) rfl
  | physical hx hy => exact hop_of_linkedVlans hn hr hx hy rfl rfl
  | origin ha => exact .enter rfl rfl ⟨r, hr, ha⟩
  | egress _ hy => exact .stay rfl (congrArg some (mem_ospfEgress.mp hy).1)
  | ospfDelivery _ hd => exact .deliver rfl rfl (delivers_of_ospf hr hd)
  | bgpDelivery hd => exact .deliver rfl rfl (delivers_of_bgp hr hd)
  | direct hs hv => exact .stay rfl (congrArg some (hn.localVlan hr (List.mem_filter.mp hs).1 hv).1)
  | _ => exact .stay rfl rfl

theorem hop_of_layerEdge (hn : c.net.Linked) {layer : VlanId} (hr : c.net.router? r.id = some r)
    (h : c.LayerEdge layer r u v e) : c.Hop u v := by
  cases h with
  | exit hx hl => exact .stay (router?_of_mem_vlans hn hr hx) (congrArg some hl.symm)
  | switching _ _ _ => exact .stay rfl rfl
  | ingress hx _ _ => exact .stay (router?_of_mem_vlans hn hr hx) rfl
  | physical hx hy => exact hop_of_linkedVlans hn hr hx hy rfl rfl
  | relay _ _ => exact .stay rfl rfl
  | egress _ _ hy => exact .stay rfl (congrArg some (mem_ospfEgress.mp hy).1)

variable {variant : Variant}

/-- **Every edge that is laid is something that a packet can do.** -/
theorem hop_of_isLaid (hn : c.net.Linked) (h : c.IsLaid variant u v e) : c.Hop u v := by
  cases h with
  | coarse hr h => exact hop_of_coarseEdge hn (hn.router?_of_mem hr) h
  | fine hr h => exact hop_of_fineEdge hn (hn.router?_of_mem hr) h
  | layer hr _ h => exact hop_of_layerEdge hn (hn.router?_of_mem hr) h

/-- Along the edges that no failure cuts go hops. -/
theorem hop_of_mem_successors (hn : c.net.Linked)
    (h : v ∈ (c.wiring variant).graph.successors f u) : c.Hop u v ∧ f.cuts u v = false := by
  obtain ⟨⟨e, he⟩, -, -, -, hc⟩ := mem_successors_iff.mp h
  exact ⟨hop_of_isLaid hn he, hc⟩

/-! ### Where hops lead -/

/-- A hop that no failure cuts, from a vertex of a router to another vertex than the destination,
leads to the same router or over a link. -/
theorem Hop.joined (h : c.Hop u v) (hc : f.cuts u v = false) (hu : u.router? = some i)
    (hv : v ≠ c.destination) :
    ∃ j, v.router? = some j ∧ (i = j ∨ c.net.Joined i j ∧ f.contains i j = false) := by
  cases h with
  | enter h _ _ =>
    rw [h] at hu
    cases hu
  | stay hu' hv' =>
    cases hu.symm.trans hu'
    exact ⟨i, hv', Or.inl rfl⟩
  | @link k j hu' hv' hj =>
    cases hu.symm.trans hu'
    refine ⟨j, hv', ?_⟩
    by_cases hij : i = j
    · exact Or.inl hij
    · simp only [FailureSet.cuts, hu', hv', ne_eq, hij, not_false_eq_true, decide_true,
        Bool.true_and] at hc
      exact Or.inr ⟨hj, hc⟩
  | deliver _ h _ => exact absurd h hv

theorem Hop.tail_ne (h : c.Hop u v) : u ≠ c.destination := by
  rintro rfl
  cases h with
  | enter h _ _ => cases h
  | stay h _ => cases h
  | link h _ _ => cases h
  | deliver h _ _ => cases h

/-- The only way on from the source is into the network. -/
theorem Hop.of_source (h : c.Hop c.source v) :
    ∃ i, v.router? = some i ∧ c.net.Attaches i c.src := by
  cases h with
  | enter _ hv ha => exact ⟨_, hv, ha⟩
  | stay h _ => cases h
  | link h _ _ => cases h
  | deliver h _ _ => cases h

end Scene

end NetReach
