import NetReach.Proofs.FineWays
import NetReach.Proofs.MainLayer
import NetReach.Proofs.Physical

/-! # The layers of next hops are tunnels

A session with a distant peer sends packets into the layer of its next hop. They enter it at OSPF of
their own router, are passed on there by OSPF routers and switches, and leave it on a VLAN of the
peer, for BGP of the peer (`Scene.IsTunnel`). What an edge does in a layer
(`Scene.ends_or_stays`) carries along every walk that comes out of the layer again, so also along
those to the destination (`Scene.isTunnel_of_isChain`). -/

namespace NetReach

/-- A chain that ends outside of `P` leaves it, if every step from inside leaves it or stays. What
`Q` says of the steps that stay holds up to there. -/
theorem exists_leave_of_isChain {α : Type} {R E : α → α → Prop} {P Q : α → Prop} {d : α}
    (hstep : ∀ x y, P x → R x y → E x y ∨ Q x ∧ P y) (hd : ¬ P d) (l : List α) : ∀ {x}, P x →
      (x :: l).IsChain R → (x :: l).getLast? = some d →
      ∃ inner y z rest, x :: l = inner ++ y :: z :: rest ∧ E y z ∧ ∀ a ∈ inner, P a ∧ Q a := by
  induction l with
  | nil =>
    intro x hx _ hlast
    cases hlast
    exact absurd hx hd
  | cons y l ih =>
    intro x hx hchain hlast
    obtain ⟨hxy, hchain⟩ := List.isChain_cons_cons.mp hchain
    rw [List.getLast?_cons_cons] at hlast
    rcases hstep x y hx hxy with hleave | ⟨hq, hy⟩
    · exact ⟨[], x, y, l, rfl, hleave, nofun⟩
    · obtain ⟨inner, a, b, rest, hl, hleave, hall⟩ := ih hy hchain hlast
      refine ⟨x :: inner, a, b, rest, congrArg (x :: ·) hl, hleave, fun z hz => ?_⟩
      rcases List.mem_cons.mp hz with rfl | hz
      · exact ⟨hx, hq⟩
      · exact hall z hz

/-- The router passes packets on inside a layer: it runs OSPF, or is a plain switch. -/
def Network.Relays (net : Network) (i : RouterId) : Prop :=
  ∃ r, net.router? i = some r ∧ (r.ospf.isSome = true ∨ r.isSwitch = true)

namespace Scene

/-- The router of the vertex passes packets on. -/
def IsRelayed (c : Scene) (x : Vertex) : Prop := ∃ i, x.router? = some i ∧ c.net.Relays i

/-- The vertices `l` behind `u` lead through the layer of the next hop: BGP of the router hands the
packet to OSPF in the layer, over its session with a distant peer. OSPF routers and switches pass
it on, until it comes in on a VLAN of the peer, where BGP of the peer takes it. -/
structure IsTunnel (c : Scene) (r : Router) (s : Session) (u : Vertex) (l : List Vertex) :
    Prop where
  session : r ∈ c.net.routers ∧ s ∈ r.sessions ∧ s.isDirect = false
  outside : u = .main (.bgpOut r.id s.peer)
  entry : l.head? = some (.nextHop s.peerVlan (.ospfIn r.id))
  exit : ∃ inner w rest,
    l = inner ++ .nextHop s.peerVlan (.vlanIn w) :: .main (.bgpIn s.peer) :: rest ∧
    w.router = s.peer ∧
    ∀ x ∈ inner, x.layer = .nextHop s.peerVlan ∧ c.IsRelayed x

variable {c : Scene} {f : FailureSet} {layer : VlanId} {r : Router} {s : Session}
  {u v x y : Vertex} {l : List Vertex} {k : VertexKind}

/-! ### The vertices of a layer -/

theorem layer_of_mem_layerVerticesOf (h : x ∈ layerVerticesOf layer r) :
    x.layer = .nextHop layer := by
  simp only [layerVerticesOf, List.mem_append, List.mem_ite_nil_right, List.mem_cons,
    List.not_mem_nil, or_false] at h
  rcases h with h | ⟨-, rfl | rfl⟩
  · exact layer_of_mem_vlanVertices (fun _ => rfl) h
  all_goals rfl

theorem mem_layer_vertices : .nextHop layer k ∈ (c.wiring .fine).graph.vertices ↔
    layer ∈ c.layers ∧ ∃ r ∈ c.net.routers, .nextHop layer k ∈ layerVerticesOf layer r := by
  constructor
  · intro h
    rcases mem_vertices_wiring.mp h with (h | h) | h
    · cases h
    · cases h
    rcases List.mem_append.mp h with h | h
    · obtain ⟨r, -, h⟩ := List.mem_flatMap.mp h
      cases layer_of_mem_fineVerticesOf h
    · obtain ⟨l, hl, h⟩ := List.mem_flatMap.mp h
      obtain ⟨r, hr, h⟩ := List.mem_flatMap.mp h
      cases layer_of_mem_layerVerticesOf h
      exact ⟨hl, r, hr, h⟩
  · rintro ⟨hl, r, hr, h⟩
    exact mem_vertices_of_inner <| List.mem_append_right _ <|
      List.mem_flatMap.mpr ⟨layer, hl, List.mem_flatMap.mpr ⟨r, hr, h⟩⟩

/-- OSPF has vertices in the layer on all routers that run it, but on the peer. -/
theorem ospf_mem_layer (hn : c.net.Linked) {i : RouterId} :
    .nextHop layer (.ospfIn i) ∈ (c.wiring .fine).graph.vertices ↔
      layer ∈ c.layers ∧ i ≠ layer.router ∧ ∃ r, c.net.router? i = some r ∧ r.ospf.isSome := by
  rw [mem_layer_vertices]
  refine and_congr_right fun _ => ?_
  simp only [layerVerticesOf, vlanVertices, List.mem_append, List.mem_flatMap, List.mem_cons,
    List.mem_ite_nil_right, List.not_mem_nil, or_false, Bool.and_eq_true, bne_iff_ne]
  constructor
  · rintro ⟨r, hr, ⟨x, -, h | h⟩ | ⟨⟨ho, hne⟩, h | h⟩⟩ <;> cases h
    exact ⟨hne, r, hn.router?_of_mem hr, ho⟩
  · rintro ⟨hne, r, hr, ho⟩
    obtain rfl := hn.id_eq hr
    exact ⟨r, List.mem_of_getElem? hr, Or.inr ⟨⟨ho, hne⟩, Or.inl rfl⟩⟩

theorem mem_layers : layer ∈ c.layers ↔ ∃ r ∈ c.net.routers, c.bgpTainted r = true ∧
    ∃ s ∈ c.learningSessions r, s.isDirect = false ∧ r.ospf.isSome = true ∧
      s.peerVlan = layer := by
  simp only [layers, OrdSet.mem_ofList, List.mem_flatMap, List.mem_ite_nil_right, List.mem_map,
    List.mem_filter, needsLayer, Bool.and_eq_true, Bool.not_eq_true', and_assoc]

/-! ### The ends of a session -/

/-- A route is only advertised from one tainted BGP process to another. -/
theorem runs_of_propagates {net : Network} {dst : Subnet} {i j : RouterId} (src : Subnet)
    (hn : net.Linked)
    (h : (baseTaint net dst).taint.propagates ⟨.bgp, j⟩ ⟨.bgp, i⟩ = true) :
    (∃ p, p.id = j ∧ (net.scene dst src).Runs .bgp p) ∧
      ∃ r, r.id = i ∧ (net.scene dst src).Runs .bgp r := by
  obtain ⟨w, e, hwalk, hj, hi⟩ := ((baseTaint_exact hn dst).propagates_iff _ _).mp h
  obtain ⟨hw, -, hfollows⟩ := TaintGraph.isWalk_concat.mp hwalk
  have htail := (TaintGraph.follows_iff.mp hfollows).1.symm
  have hhead : (TaintGraph.endState dst (w ++ [e])).1 = e.head := by
    rw [TaintGraph.endState_concat]
    rfl
  exact ⟨runs_of_isWalk src hn hw (htail.trans hj), runs_of_isWalk src hn hwalk (hhead.trans hi)⟩

/-- The peer of a session with a vertex of its own advertises its route. -/
theorem learns_of_bgpOut_mem (hn : c.net.Linked) {i j : RouterId}
    (h : .main (.bgpOut i j) ∈ (c.wiring .fine).graph.vertices) :
    ∃ r, c.net.router? i = some r ∧ c.bgpTainted r = true ∧
      c.taint.propagates ⟨.bgp, j⟩ ⟨.bgp, i⟩ = true := by
  obtain ⟨r, hr, h⟩ := exists_mem_fineVerticesOf h rfl
  simp only [fineVerticesOf, vlanVertices, List.mem_append, List.mem_flatMap, List.mem_cons,
    List.mem_ite_nil_left, List.mem_ite_nil_right, List.mem_map, List.not_mem_nil, or_false,
    Bool.and_eq_true] at h
  rcases h with ((⟨x, -, h | h⟩ | ⟨-, h⟩) | ⟨-, h | h⟩) | ⟨⟨-, ht⟩, h | ⟨s, hs, h⟩⟩ <;> cases h
  exact ⟨r, hn.router?_of_mem hr, ht, (mem_learningSessions.mp hs).2⟩

/-- BGP of the peer takes what comes out of a layer. -/
theorem bgpIn_mem_of_mem_layers {net : Network} {dst src : Subnet} (hn : net.Linked)
    (h : layer ∈ (net.scene dst src).layers) :
    .main (.bgpIn layer.router) ∈ ((net.scene dst src).wiring .fine).graph.vertices := by
  obtain ⟨r, hr, -, s, hs, -, -, rfl⟩ := mem_layers.mp h
  obtain ⟨hsr, hlearns⟩ := mem_learningSessions.mp hs
  obtain ⟨⟨p, hid, hp⟩, -⟩ := runs_of_propagates src hn hlearns
  obtain ⟨-, hpeer, -⟩ := hn.peer (hn.router?_of_mem hr) hsr
  rw [hpeer, ← hid]
  exact hp.bgpIn_mem

/-! ### Into a layer -/

/-- Edges lead into a layer only from sessions whose next hop it is. -/
theorem entry_of_isLaid {e : Edge} (h : c.IsLaid .fine u v e) (hu : u.layer ≠ .nextHop layer)
    (hv : v.layer = .nextHop layer) : e = { kind := .dependency } ∧
      ∃ r ∈ c.net.routers, ∃ s ∈ r.sessions, s.isDirect = false ∧ s.peerVlan = layer ∧
        u = .main (.bgpOut r.id s.peer) ∧ v = .nextHop layer (.ospfIn r.id) := by
  cases h with
  | @fine r _ _ _ hr h =>
    cases h with
    | @distant s hs hlocal =>
      cases hv
      have hdist : s.isDirect = false := by rw [Session.isDirect, hlocal, Option.isSome_none]
      exact ⟨rfl, r, hr, s, (mem_learningSessions.mp hs).1, hdist, rfl, rfl, rfl⟩
    | _ => cases hv
  | layer _ _ h =>
    cases h with
    | exit _ _ => cases hv
    | _ => exact absurd hv hu

/-- What leads out of a layer is an exit. -/
theorem exit_of_isLaid {e : Edge} (h : c.IsLaid .fine u v e) (hu : u.layer = .nextHop layer)
    (hv : v.layer = .main) : e = { kind := .nextHopExit } := by
  cases h with
  | fine _ h => cases h <;> cases hu
  | layer _ _ h =>
    cases h with
    | exit _ _ => rfl
    | _ => cases hv

/-- **A session with a distant peer leads into the layer of its next hop.** -/
theorem edge?_of_distant (hn : c.net.Linked) (hr : r ∈ c.net.routers) (hs : s ∈ r.sessions)
    (hdist : s.isDirect = false) (ho : r.ospf.isSome = true)
    (h : .main (.bgpOut r.id s.peer) ∈ (c.wiring .fine).graph.vertices) :
    (c.wiring .fine).graph.edge? (.main (.bgpOut r.id s.peer))
      (.nextHop s.peerVlan (.ospfIn r.id)) = some { kind := .dependency } := by
  have hrouter := hn.router?_of_mem hr
  obtain ⟨r', hr', ht, hlearns⟩ := learns_of_bgpOut_mem hn h
  cases hrouter.symm.trans hr'
  have hlearning : s ∈ c.learningSessions r := mem_learningSessions.mpr ⟨hs, hlearns⟩
  -- the pass over the sessions makes the layer, and OSPF of the router is not at its end
  obtain ⟨hne, hpeer, -⟩ := hn.peer hrouter hs
  have hlayer : s.peerVlan ∈ c.layers :=
    mem_layers.mpr ⟨r, hr, ht, s, hlearning, hdist, ho, rfl⟩
  have hmem := (ospf_mem_layer hn).mpr ⟨hlayer, hpeer ▸ hne.symm, r, hrouter, ho⟩
  have hlocal : s.localVlan = none := by
    rwa [Session.isDirect, Option.isSome_eq_false_iff, Option.isNone_iff_eq_none] at hdist
  have hlaid := IsLaid.fine hr (.distant hlearning hlocal)
  have hsucc := mem_successors_iff.mpr ⟨⟨_, hlaid⟩, h, hmem, nofun, FailureSet.cuts_empty _ _⟩
  obtain ⟨⟨e, he⟩, -⟩ := PathGraph.mem_successors.mp hsucc
  rw [he, (entry_of_isLaid (edge_of_wiring he) nofun rfl).1]

/-! ### Out of a layer -/

/-- **BGP of the peer takes packets that come in on any of its VLANs.** -/
theorem edge?_of_exit {net : Network} {dst src : Subnet} {w : VlanId} (hn : net.Linked)
    (h : .nextHop layer (.vlanIn w) ∈ ((net.scene dst src).wiring .fine).graph.vertices)
    (hw : w.router = layer.router) :
    ((net.scene dst src).wiring .fine).graph.edge? (.nextHop layer (.vlanIn w))
      (.main (.bgpIn layer.router)) = some { kind := .nextHopExit } := by
  obtain ⟨hlayer, r, hr, hwr⟩ := mem_layer_vertices.mp h
  simp only [layerVerticesOf, vlanVertices, List.mem_append, List.mem_flatMap, List.mem_cons,
    List.mem_ite_nil_right, List.not_mem_nil, or_false] at hwr
  rcases hwr with ⟨x, hx, hwx | hwx⟩ | ⟨-, hwx | hwx⟩ <;> cases hwx
  have hid : r.id = layer.router :=
    ((Network.mem_vlans_of_router? hn (hn.router?_of_mem hr)).mp hx).2.symm.trans hw
  have hlaid := IsLaid.layer (c := net.scene dst src) hr hlayer (.exit hx hid)
  have hne : Vertex.nextHop layer (.vlanIn x.id) ≠ .main (.bgpIn layer.router) := by
    intro h
    cases h
  have hsucc := mem_successors_iff.mpr ⟨⟨_, hlaid⟩, h, bgpIn_mem_of_mem_layers hn hlayer, hne,
    FailureSet.cuts_empty _ _⟩
  obtain ⟨⟨e, he⟩, -⟩ := PathGraph.mem_successors.mp hsucc
  rw [he, exit_of_isLaid (edge_of_wiring he) rfl rfl]

/-! ### Inside a layer -/

/-- The vertex belongs to the layer, and packets come there on a VLAN or over a router that passes
them on. -/
def IsInside (c : Scene) (layer : VlanId) (x : Vertex) : Prop :=
  x.layer = .nextHop layer ∧ ((∃ w, x = .nextHop layer (.vlanIn w)) ∨ c.IsRelayed x)

/-- **From inside a layer an edge leads out of it on a VLAN of the peer, or it stays inside**, on a
router that passes packets on. -/
theorem ends_or_stays (hn : c.net.Linked) (hx : c.IsInside layer x)
    (h : y ∈ (c.wiring .fine).graph.successors f x) :
    (∃ w, x = .nextHop layer (.vlanIn w) ∧ w.router = layer.router ∧
      y = .main (.bgpIn layer.router)) ∨ c.IsRelayed x ∧ c.IsInside layer y := by
  obtain ⟨hlayer, hx⟩ := hx
  obtain ⟨⟨e, he⟩, -, hy, -, -⟩ := mem_successors_iff.mp h
  cases he with
  | fine _ he => cases he <;> cases hlayer
  | layer hr _ he =>
    have hr := hn.router?_of_mem hr
    cases he with
    | exit hxr hid =>
      cases hlayer
      exact .inl ⟨_, rfl, (Option.some.inj (router?_of_mem_vlans hn hr hxr)).trans hid, rfl⟩
    | switching hxr _ hs =>
      cases hlayer
      have hrouter := router?_of_mem_vlans hn hr hxr
      exact .inr ⟨⟨_, hrouter, _, hr, .inr hs⟩, rfl, .inr ⟨_, hrouter, _, hr, .inr hs⟩⟩
    | ingress hxr _ _ =>
      -- the edge is only there if OSPF of the router is in the layer
      cases hlayer
      obtain ⟨-, -, r, hr', ho⟩ := (ospf_mem_layer hn).mp hy
      cases hr.symm.trans hr'
      exact .inr ⟨⟨_, router?_of_mem_vlans hn hr hxr, _, hr, .inl ho⟩, rfl,
        .inr ⟨_, rfl, _, hr, .inl ho⟩⟩
    | physical _ _ =>
      cases hlayer
      refine .inr ⟨hx.resolve_left ?_, rfl, .inl ⟨_, rfl⟩⟩
      rintro ⟨w, hw⟩
      cases hw
    | relay ho _ =>
      cases hlayer
      exact .inr ⟨⟨_, rfl, _, hr, .inl ho⟩, rfl, .inr ⟨_, rfl, _, hr, .inl ho⟩⟩
    | egress ho _ hyr =>
      cases hlayer
      have hrouter := congrArg some (mem_ospfEgress.mp hyr).1
      exact .inr ⟨⟨_, rfl, _, hr, .inl ho⟩, rfl, .inr ⟨_, hrouter, _, hr, .inl ho⟩⟩

/-- **A walk that comes out of the layer does so at the peer**, and passes packets on until then. -/
theorem exists_exit (hn : c.net.Linked) (hx : c.IsInside layer x)
    (hchain : (x :: l).IsChain fun u v => v ∈ (c.wiring .fine).graph.successors f u)
    (hlast : (x :: l).getLast? = some c.destination) :
    ∃ inner w rest, x :: l =
        inner ++ .nextHop layer (.vlanIn w) :: .main (.bgpIn layer.router) :: rest ∧
      w.router = layer.router ∧ ∀ y ∈ inner, y.layer = .nextHop layer ∧ c.IsRelayed y := by
  have houtside : ¬ c.IsInside layer c.destination := by
    rintro ⟨h, -⟩
    cases h
  obtain ⟨inner, y, z, rest, hl, ⟨w, rfl, hw, rfl⟩, hall⟩ :=
    exists_leave_of_isChain (P := c.IsInside layer) (fun _ _ => ends_or_stays hn) houtside l hx
      hchain hlast
  exact ⟨inner, w, rest, hl, hw, fun y hy => ⟨(hall y hy).1.1, (hall y hy).2⟩⟩

/-- Where a walk to the destination enters a layer, a tunnel begins. -/
theorem isTunnel_of_isChain (hn : c.net.Linked)
    (hchain : (u :: v :: l).IsChain fun u v => v ∈ (c.wiring .fine).graph.successors f u)
    (hlast : (v :: l).getLast? = some c.destination) (hu : u.layer ≠ .nextHop layer)
    (hv : v.layer = .nextHop layer) :
    ∃ r s, s.peerVlan = layer ∧ c.IsTunnel r s u (v :: l) := by
  obtain ⟨hsucc, hrest⟩ := List.isChain_cons_cons.mp hchain
  obtain ⟨⟨e, he⟩, -, hmem, -, -⟩ := mem_successors_iff.mp hsucc
  obtain ⟨-, r, hr, s, hs, hdist, rfl, rfl, rfl⟩ := entry_of_isLaid he hu hv
  obtain ⟨-, -, r', hr', ho⟩ := (ospf_mem_layer hn).mp hmem
  have hinside : c.IsInside s.peerVlan (.nextHop s.peerVlan (.ospfIn r.id)) :=
    ⟨rfl, .inr ⟨r.id, rfl, r', hr', .inl ho⟩⟩
  obtain ⟨inner, w, rest, hl, hw, hall⟩ := exists_exit hn hinside hrest hlast
  obtain ⟨-, hpeer, -⟩ := hn.peer (hn.router?_of_mem hr) hs
  rw [hpeer] at hl hw
  exact ⟨r, s, rfl, ⟨hr, hs, hdist⟩, rfl, rfl, inner, w, rest, hl, hw, hall⟩

/-! ### The layers of a graph -/

/-- **Next-hop tunnels end at the right peer.** Whatever links have failed, wherever a walk to the
destination enters a layer it takes the tunnel of a session. At the end of every layer BGP of the
peer takes the packets of all its VLANs, and all sessions with distant peers of routers with OSPF
have their layer. -/
theorem tunnels_exact {cfg : NetworkConfig} {net : Network} {dst src : Subnet} {g : Wiring}
    (hlink : cfg.link = .ok net) (hg : (net.scene dst src).build .fine = .ok g) (f : FailureSet) :
    (∀ l₁ u v l₂ layer,
      (l₁ ++ u :: v :: l₂).IsChain (fun u v => v ∈ g.graph.successors f u) →
      (l₁ ++ u :: v :: l₂).getLast? = some g.graph.destination →
      u.layer ≠ .nextHop layer → v.layer = .nextHop layer →
      ∃ r s, s.peerVlan = layer ∧ (net.scene dst src).IsTunnel r s u (v :: l₂)) ∧
    (∀ layer k, .nextHop layer k ∈ g.graph.vertices →
      .main (.bgpIn layer.router) ∈ g.graph.vertices) ∧
    (∀ layer w, .nextHop layer (.vlanIn w) ∈ g.graph.vertices → w.router = layer.router →
      g.graph.edge? (.nextHop layer (.vlanIn w)) (.main (.bgpIn layer.router)) =
        some { kind := .nextHopExit }) ∧
    ∀ r ∈ net.routers, ∀ s ∈ r.sessions, s.isDirect = false → r.ospf.isSome = true →
      .main (.bgpOut r.id s.peer) ∈ g.graph.vertices →
      g.graph.edge? (.main (.bgpOut r.id s.peer)) (.nextHop s.peerVlan (.ospfIn r.id)) =
        some { kind := .dependency } := by
  have hn := NetworkConfig.linked_of_link hlink
  obtain rfl := eq_wiring_of_build hg
  refine ⟨fun l₁ u v l₂ layer hchain hlast hu hv => ?_, fun layer k h => ?_,
    fun layer w h hw => edge?_of_exit hn h hw,
    fun r hr s hs hdist ho h => edge?_of_distant hn hr hs hdist ho h⟩
  · rw [List.getLast?_append_of_ne_nil _ (List.cons_ne_nil _ _), List.getLast?_cons_cons,
      destination_wiring] at hlast
    exact isTunnel_of_isChain hn (List.isChain_append.mp hchain).2.1 hlast hu hv
  · exact bgpIn_mem_of_mem_layers hn (mem_layer_vertices.mp h).1

/-- The first edge of the tunnel of the iBGP mesh, on a path of the graph. -/
theorem exists_path_ibgpMesh : ∃ p, (ibgpMeshScene.wiring .fine).graph.path? ∅ = some p ∧
    ∃ l₁ l₂, p = l₁ ++ .main (.bgpOut 3 1) :: .nextHop ⟨1, 12⟩ (.ospfIn 3) :: l₂ := by
  have h : ((ibgpMeshScene.wiring .fine).graph.path? ∅).any (fun p =>
      p = p.take 3 ++ .main (.bgpOut 3 1) :: .nextHop ⟨1, 12⟩ (.ospfIn 3) :: p.drop 5) = true := by
    decide +kernel
  obtain ⟨p, hp, hsplit⟩ := (Option.any_eq_true _ _).mp h
  exact ⟨p, hp, _, _, of_decide_eq_true hsplit⟩

/-- The third router of the iBGP mesh reaches the first one through a tunnel. -/
theorem tunnels_exact_ibgpMesh :
    Example.ibgpMeshConfig.link = .ok ibgpMeshScene.net ∧
    ∃ g p l₁ l₂, ibgpMeshScene.build .fine = .ok g ∧ g.graph.path? ∅ = some p ∧
      p = l₁ ++ .main (.bgpOut 3 1) :: .nextHop ⟨1, 12⟩ (.ospfIn 3) :: l₂ ∧
      (∃ r s, s.peerVlan = ⟨1, 12⟩ ∧ ibgpMeshScene.IsTunnel r s (.main (.bgpOut 3 1))
        (.nextHop ⟨1, 12⟩ (.ospfIn 3) :: l₂)) ∧
      .main (.bgpIn 1) ∈ g.graph.vertices ∧
      g.graph.edge? (.main (.bgpOut 3 1)) (.nextHop ⟨1, 12⟩ (.ospfIn 3)) =
        some { kind := .dependency } := by
  have hlink : Example.ibgpMeshConfig.link = .ok ibgpMeshScene.net := rfl
  have hbuild : (ibgpMeshScene.net.scene "t" "s3").build .fine =
      .ok (ibgpMeshScene.wiring .fine) := build_ibgpMeshScene .fine
  obtain ⟨htunnel, hexit, -, hentry⟩ := tunnels_exact hlink hbuild ∅
  obtain ⟨p, hp, l₁, l₂, rfl⟩ := exists_path_ibgpMesh
  have hpath := PathGraph.isPath_of_path? hp
  have hsource := (ibgpMeshScene.wiring .fine).graph.source_mem
  have hout : .main (.bgpOut 3 1) ∈ (ibgpMeshScene.wiring .fine).graph.vertices :=
    hpath.subset_vertices hsource _ (by simp)
  have hin : .nextHop ⟨1, 12⟩ (.ospfIn 3) ∈ (ibgpMeshScene.wiring .fine).graph.vertices :=
    hpath.subset_vertices hsource _ (by simp)
  have hsession : ∃ r ∈ ibgpMeshScene.net.routers, r.id = 3 ∧ r.ospf.isSome = true ∧
      ∃ s ∈ r.sessions, s.peer = 1 ∧ s.peerVlan = ⟨1, 12⟩ ∧ s.isDirect = false := by
    decide +kernel
  obtain ⟨r, hr, hid, ho, s, hs, hpeer, hvlan, hdist⟩ := hsession
  refine ⟨hlink, _, _, l₁, l₂, hbuild, hp, rfl,
    htunnel l₁ _ _ l₂ _ hpath.chain hpath.last nofun rfl, hexit _ _ hin, ?_⟩
  have hedge := hentry r hr s hs hdist ho
  rw [hid, hpeer, hvlan] at hedge
  exact hedge hout

end Scene

end NetReach
