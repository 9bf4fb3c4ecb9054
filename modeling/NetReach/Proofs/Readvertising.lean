import NetReach.Proofs.Coarsening
import NetReach.Proofs.LeastPath

/-! # Routes that are passed on over iBGP twice

A router is not to advertise over iBGP what it learned over iBGP. The fine graph applies this to
each session on its own, by the taint: the route of a peer that has an iBGP session back to the
router is used only if BGP of the peer can learn the route otherwise, as long as no link has failed
(`Scene.learnsOtherwise_of_mem_path`). What the peer then learns, and from whom, is left to the
simulation. So there are selected routes with two iBGP sessions in a row
(`Scene.not_obeysReadvertising`), but only over routers that can learn the route otherwise, or that
do not agree with their peers on the type of the session (`Scene.obeysReadvertising_unless`). -/

namespace NetReach

variable {net : Network} {dst src : Subnet} {w : List Spread} {e : Spread} {i j k : RouterId}
  {l : List Vertex}

/-- The first router has a session of the type with the second one. -/
def Network.HasSession (net : Network) (t : SessionType) (i j : RouterId) : Prop :=
  ∃ r ∈ net.routers, r.id = i ∧ ∃ s ∈ r.sessions, s.peer = j ∧ s.type = t

instance (net : Network) (t : SessionType) (i j : RouterId) : Decidable (net.HasSession t i j) :=
  inferInstanceAs (Decidable (∃ r ∈ net.routers, r.id = i ∧
    ∃ s ∈ r.sessions, s.peer = j ∧ s.type = t))

/-- The first router takes its session with the second one for an iBGP session, and the second one
takes it for an eBGP session. -/
def Network.Mismatched (net : Network) (i j : RouterId) : Prop :=
  net.HasSession .ibgp i j ∧ net.HasSession .ebgp j i

instance (net : Network) (i j : RouterId) : Decidable (net.Mismatched i j) :=
  inferInstanceAs (Decidable (_ ∧ _))

/-- On the path `i` sends packets to its peer `j`, and later BGP of `j`, entered from the routing
decision or from the layer of a next hop, sends them to its peer `k`. -/
def Readvertised (i j k : RouterId) (l : List Vertex) : Prop :=
  ∃ x l₁ l₂ l₃, (x = .main (.rib j) ∨ x.layer ≠ .main) ∧
    l = l₁ ++ .main (.bgpOut i j) :: (l₂ ++ x :: .main (.bgpIn j) :: .main (.bgpOut j k) :: l₃)

theorem Readvertised.of_prefix {m : List Vertex} (h : Readvertised i j k l) (hlm : l <+: m) :
    Readvertised i j k m := by
  obtain ⟨x, l₁, l₂, l₃, hx, rfl⟩ := h
  obtain ⟨l₄, rfl⟩ := hlm
  exact ⟨x, l₁, l₂, l₃ ++ l₄, hx, by simp⟩

namespace Scene

/-- No selected route of the fine graph goes over two iBGP sessions one after the other. -/
def ObeysReadvertising (c : Scene) (f : FailureSet) : Prop :=
  ∀ ⦃w s u r i j k⦄, c.build .fine = .ok w → w.graph.simulate f = .ok s →
    s.routes.get? u = some r → Readvertised i j k r.path →
    ¬ (c.net.HasSession .ibgp i j ∧ c.net.HasSession .ibgp j k)

/-- BGP of the router can learn the route to the destination otherwise than over iBGP: it originates
the destination, or takes over what OSPF learned, or another autonomous system advertises it. -/
def LearnsOtherwise (c : Scene) (j : RouterId) : Prop :=
  (∃ r ∈ c.net.routers, r.id = j ∧ r.bgpOriginates c.dst = true) ∨
    (∃ r ∈ c.net.routers, r.id = j ∧ r.bgpFromOspf = true ∧ c.ospfTainted r = true) ∨
    ∃ r ∈ c.net.routers, c.bgpTainted r = true ∧ c.net.HasSession .ebgp r.id j

instance (c : Scene) (j : RouterId) : Decidable (c.LearnsOtherwise j) :=
  inferInstanceAs (Decidable (_ ∨ _ ∨ _))

/-! ### Sessions that the taint passes -/

/-- A walk enters BGP of `j` otherwise than over iBGP only on one of three ways. -/
theorem learnsOtherwise_of_isWalk (src : Subnet) (hn : net.Linked)
    (hwalk : (baseTaint net dst).IsWalk dst (w ++ [e])) (hj : e.head = .process ⟨.bgp, j⟩)
    (hkind : e.kind ≠ .ibgp) : (net.scene dst src).LearnsOtherwise j := by
  have hmade := TaintGraph.ofNetwork_madeFrom net (.ofNetwork net) dst
  obtain ⟨hw, he, hfollows⟩ := TaintGraph.isWalk_concat.mp hwalk
  have htail := (TaintGraph.follows_iff.mp hfollows).1.symm
  obtain ⟨m, r, hr, hspread⟩ := Network.mem_spreads.mp (hmade.of_mem_edges he).1
  have hmem := List.mem_of_getElem? hr
  rcases hspread with h | h | h | h
  · obtain ⟨num, v, -, -, -, -, rfl⟩ := Network.mem_adjacencySpreads.mp h
    cases hj
  · obtain ⟨s, hs, rfl⟩ := Network.mem_sessionSpreads.mp h
    have htype : s.type = .ebgp := by
      cases ht : s.type with
      | ebgp => rfl
      | ibgp => exact absurd (congrArg SpreadKind.ofSession ht) hkind
    have htainted : (net.scene dst src).bgpTainted r = true :=
      ((baseTaint_exact hn dst).isTainted_iff _).mpr ⟨w, hw, htail⟩
    cases hj
    exact .inr (.inr ⟨r, hmem, htainted, r, hmem, rfl, s, hs, rfl, htype⟩)
  · rcases Network.mem_redistributionSpreads.mp h with ⟨-, rfl⟩ | ⟨hfrom, rfl⟩
    · cases hj
    · have htainted : (net.scene dst src).ospfTainted r = true :=
        ((baseTaint_exact hn dst).isTainted_iff _).mpr ⟨w, hw, htail⟩
      cases hj
      exact .inr (.inl ⟨r, hmem, rfl, hfrom, htainted⟩)
  · obtain ⟨p, horigin, rfl⟩ := Network.mem_originSpreads.mp h
    cases hj
    exact .inl ⟨r, hmem, rfl, horigin⟩

/-- An edge of the taint graph between BGP processes is a session. -/
theorem hasSession_of_mem_edges (he : e ∈ (baseTaint net dst).edges)
    (hj : e.tail = .process ⟨.bgp, j⟩) (hi : e.head = .process ⟨.bgp, i⟩) :
    ∃ t, e.kind = .ofSession t ∧ net.HasSession t j i := by
  have hmade := TaintGraph.ofNetwork_madeFrom net (.ofNetwork net) dst
  obtain ⟨m, r, hr, hspread⟩ := Network.mem_spreads.mp (hmade.of_mem_edges he).1
  rcases hspread with h | h | h | h
  · obtain ⟨num, v, -, -, -, -, rfl⟩ := Network.mem_adjacencySpreads.mp h
    cases hi
  · obtain ⟨s, hs, rfl⟩ := Network.mem_sessionSpreads.mp h
    cases hi
    cases hj
    exact ⟨s.type, rfl, r, List.mem_of_getElem? hr, rfl, s, hs, rfl, rfl⟩
  · rcases Network.mem_redistributionSpreads.mp h with ⟨-, rfl⟩ | ⟨-, rfl⟩
    · cases hi
    · cases hj
  · obtain ⟨p, -, rfl⟩ := Network.mem_originSpreads.mp h
    cases hj

/-- **A peer whose route is used over iBGP can learn it otherwise.** -/
theorem learnsOtherwise_of_propagates (src : Subnet) (hn : net.Linked)
    (h : (baseTaint net dst).taint.propagates ⟨.bgp, j⟩ ⟨.bgp, i⟩ = true) :
    net.HasSession .ebgp j i ∨ (net.scene dst src).LearnsOtherwise j := by
  obtain ⟨w, e, hw, hj, hi⟩ := ((baseTaint_exact hn dst).propagates_iff _ _).mp h
  obtain ⟨hw, he, hfollows⟩ := TaintGraph.isWalk_concat.mp hw
  obtain ⟨htail, hibgp⟩ := TaintGraph.follows_iff.mp hfollows
  obtain ⟨t, hkind, hsession⟩ := hasSession_of_mem_edges he hj hi
  cases t with
  | ebgp => exact .inl hsession
  | ibgp =>
    right
    -- the session before must not have been over iBGP as well
    rcases List.eq_nil_or_concat w with rfl | ⟨w, d, rfl⟩
    · rw [hj] at htail
      cases htail
    · rw [List.concat_eq_append] at hw htail hibgp
      rw [TaintGraph.endState_concat] at htail hibgp
      refine learnsOtherwise_of_isWalk src hn hw (htail.symm.trans hj) fun hd => hibgp ⟨?_, hkind⟩
      exact beq_iff_eq.mpr hd

/-! ### Sessions on routes -/

/-- A path uses only sessions whose peers advertise the route. -/
theorem propagates_of_mem_path {c : Scene} {f : FailureSet} {a : Vertex}
    (h : (c.wiring .fine).graph.IsPath f a c.destination l) (hl : .main (.bgpOut i j) ∈ l) :
    c.taint.propagates ⟨.bgp, j⟩ ⟨.bgp, i⟩ = true := by
  obtain ⟨l₁, l₂, rfl⟩ := List.append_of_mem hl
  obtain ⟨y, q, hq⟩ := h.drop.exists_eq_cons_cons nofun
  obtain rfl := (List.cons.inj hq).2
  have hy := (List.isChain_cons_cons.mp h.drop.chain).1
  obtain ⟨⟨e, he⟩, -⟩ := mem_successors_iff.mp hy
  cases he with
  | fine _ he =>
    cases he with
    | direct hs _ => exact (mem_learningSessions.mp hs).2
    | distant hs _ => exact (mem_learningSessions.mp hs).2
  | layer _ _ he => cases he

/-- An iBGP session on a path leads to a router that can learn the route otherwise. -/
theorem learnsOtherwise_of_mem_path {f : FailureSet} {a : Vertex} (hn : net.Linked)
    (h : ((net.scene dst src).wiring .fine).graph.IsPath f a (net.scene dst src).destination l)
    (hl : .main (.bgpOut i j) ∈ l) (hij : net.HasSession .ibgp i j) :
    net.Mismatched i j ∨ (net.scene dst src).LearnsOtherwise j := by
  have hlearns := learnsOtherwise_of_propagates src hn (propagates_of_mem_path h hl)
  exact hlearns.imp_left fun hji => ⟨hij, hji⟩

/-- **Two iBGP sessions follow each other on a selected route only if both lead to routers that can
learn the route otherwise**, as long as no link has failed, unless the routers at the ends of a
session do not agree on its type. -/
theorem obeysReadvertising_unless {cfg : NetworkConfig} (hlink : cfg.link = .ok net)
    {g : Wiring} (hg : (net.scene dst src).build .fine = .ok g) {f : FailureSet} {s : Simulation}
    (hs : g.graph.simulate f = .ok s) {u : Vertex} {r : Route} (hr : s.routes.get? u = some r)
    (hpath : Readvertised i j k r.path)
    (hboth : net.HasSession .ibgp i j ∧ net.HasSession .ibgp j k) :
    (net.Mismatched i j ∨ (net.scene dst src).LearnsOtherwise j) ∧
      (net.Mismatched j k ∨ (net.scene dst src).LearnsOtherwise k) := by
  have hn := NetworkConfig.linked_of_link hlink
  obtain rfl := eq_wiring_of_build hg
  have hroute := (PathGraph.simulate_stable hs).isPath hr
  rw [destination_wiring] at hroute
  obtain ⟨x, l₁, l₂, l₃, -, hl⟩ := hpath
  have hfirst : .main (.bgpOut i j) ∈ r.path := by simp [hl]
  have hsecond : .main (.bgpOut j k) ∈ r.path := by simp [hl]
  exact ⟨learnsOtherwise_of_mem_path hn hroute hfirst hboth.1,
    learnsOtherwise_of_mem_path hn hroute hsecond hboth.2⟩

/-! ### Two iBGP sessions in a row -/

/-- The path that a vertex selects in the fine graph. -/
def selectedPath? (c : Scene) (f : FailureSet) (u : Vertex) : Option (List Vertex) :=
  (c.wiring .fine).graph.simulate f |>.toOption.bind fun s => (s.routes.get? u).map (·.path)

theorem exists_route_of_selectedPath? {c : Scene} {f : FailureSet} {u : Vertex}
    (h : c.selectedPath? f u = some l) :
    ∃ s r, (c.wiring .fine).graph.simulate f = .ok s ∧ s.routes.get? u = some r ∧ r.path = l := by
  rw [selectedPath?] at h
  cases hs : (c.wiring .fine).graph.simulate f with
  | error e => rw [hs] at h; cases h
  | ok s =>
    rw [hs] at h
    obtain ⟨r, hr, hl⟩ := Option.map_eq_some_iff.mp h
    exact ⟨s, r, rfl, hr, hl⟩

theorem not_obeysReadvertising_of_selectedPath? {c : Scene} {f : FailureSet} {u : Vertex}
    (hbuild : c.build .fine = .ok (c.wiring .fine))
    (hl : ∃ m ∈ c.selectedPath? f u, l <+: m) (hpath : Readvertised i j k l)
    (hij : c.net.HasSession .ibgp i j) (hjk : c.net.HasSession .ibgp j k) :
    ¬ c.ObeysReadvertising f := by
  intro hobeys
  obtain ⟨m, hm, hlm⟩ := hl
  obtain ⟨s, r, hs, hr, rfl⟩ := exists_route_of_selectedPath? hm
  exact hobeys hbuild hs hr (hpath.of_prefix hlm) ⟨hij, hjk⟩

/-- From the source at the first router to the session of the second router with the third one. -/
def twoSessions : List Vertex :=
  [.main (.source "s"), .main (.rib 0), .main (.bgpIn 0), .main (.bgpOut 0 1),
    .main (.vlanOut ⟨0, 12⟩), .main (.vlanIn ⟨1, 12⟩), .main (.rib 1), .main (.bgpIn 1),
    .main (.bgpOut 1 2)]

theorem readvertised_twoSessions : Readvertised 0 1 2 twoSessions :=
  ⟨.main (.rib 1), twoSessions.take 3, (twoSessions.drop 4).take 2, [], .inl rfl, rfl⟩

/-- The second router of the line has lost its link to the other autonomous system. -/
theorem exists_selectedPath?_fallbackScene :
    ∃ m ∈ fallbackScene.selectedPath? ((∅ : FailureSet).insert 1 3) fallbackScene.source,
      twoSessions <+: m := by
  decide +kernel

/-- Three routers in a line. The first one takes its session with the second one for an iBGP
session, and the second one takes it for an eBGP session. The third one originates the subnet
`t`. -/
def mismatchConfig : NetworkConfig :=
  let r1 := RouterConfig.named "R1"
    |>.iface "R2" (some 12) |>.vlan 12 (Example.block 10 0 12 1)
    |>.bgpInternal (Example.host 10 0 12 2) none none |>.subnet "s"
  let r2 := RouterConfig.named "R2"
    |>.iface "R1" (some 12) |>.iface "R3" (some 23)
    |>.vlan 12 (Example.block 10 0 12 2) |>.vlan 23 (Example.block 10 0 23 2)
    |>.bgpExternal (Example.host 10 0 12 1) none none
    |>.bgpInternal (Example.host 10 0 23 3) none none
  let r3 := RouterConfig.named "R3"
    |>.iface "R2" (some 23) |>.vlan 23 (Example.block 10 0 23 3)
    |>.bgpInternal (Example.host 10 0 23 2) none none |>.bgpOrigin "t" |>.subnet "t"
  { routers := [r1, r2, r3] }

/-- From the first of the three routers to the third. -/
def mismatchScene : Scene := mismatchConfig.assemble.scene "t" "s"

/-- The second router of the line has lost its link to the other autonomous system, and advertises
to the first one what it learned from the third. So does the router that takes the session with the
first one for an eBGP session, without having lost a link. -/
theorem not_obeysReadvertising :
    (fallbackConfig.link = .ok fallbackScene.net ∧ ¬ fallbackScene.net.Mismatched 0 1 ∧
      ¬ fallbackScene.ObeysReadvertising ((∅ : FailureSet).insert 1 3)) ∧
    mismatchConfig.link = .ok mismatchScene.net ∧ ¬ mismatchScene.LearnsOtherwise 1 ∧
      ¬ mismatchScene.ObeysReadvertising ∅ := by
  constructor
  · refine ⟨rfl, by decide +kernel, ?_⟩
    exact not_obeysReadvertising_of_selectedPath? build_fallbackScene
      exists_selectedPath?_fallbackScene readvertised_twoSessions (by decide +kernel)
      (by decide +kernel)
  · have hbuild : mismatchScene.build .fine = .ok (mismatchScene.wiring .fine) :=
      build_of_error?_eq_none (by decide +kernel)
    have hl : ∃ m ∈ mismatchScene.selectedPath? ∅ mismatchScene.source, twoSessions <+: m := by
      decide +kernel
    refine ⟨rfl, by decide +kernel, ?_⟩
    exact not_obeysReadvertising_of_selectedPath? hbuild hl readvertised_twoSessions
      (by decide +kernel) (by decide +kernel)

/-- With the link to the other autonomous system both the second router of the line and the third
one learn the route otherwise. -/
theorem obeysReadvertising_unless_fallback :
    ∃ s r, (fallbackScene.wiring .fine).graph.simulate ((∅ : FailureSet).insert 1 3) = .ok s ∧
      s.routes.get? fallbackScene.source = some r ∧ Readvertised 0 1 2 r.path ∧
      fallbackScene.net.HasSession .ibgp 0 1 ∧ fallbackScene.net.HasSession .ibgp 1 2 ∧
      fallbackScene.LearnsOtherwise 1 ∧ fallbackScene.LearnsOtherwise 2 := by
  have hlink : fallbackConfig.link = .ok fallbackScene.net := rfl
  obtain ⟨m, hm, hprefix⟩ := exists_selectedPath?_fallbackScene
  obtain ⟨s, r, hs, hr, rfl⟩ := exists_route_of_selectedPath? hm
  have hpath := readvertised_twoSessions.of_prefix hprefix
  have h01 : fallbackScene.net.HasSession .ibgp 0 1 := by decide +kernel
  have h12 : fallbackScene.net.HasSession .ibgp 1 2 := by decide +kernel
  have hagree : ¬ fallbackScene.net.Mismatched 0 1 ∧ ¬ fallbackScene.net.Mismatched 1 2 := by
    decide +kernel
  obtain ⟨hsecond, hthird⟩ :=
    obeysReadvertising_unless hlink build_fallbackScene hs hr hpath ⟨h01, h12⟩
  exact ⟨s, r, hs, hr, hpath, h01, h12, hsecond.resolve_left hagree.1,
    hthird.resolve_left hagree.2⟩

end Scene

end NetReach
