import NetReach.Proofs.Readvertising
import NetReach.Proofs.Tunnel

/-! # Sessions with adjacent peers

The edge of such a session only says on which VLAN packets leave. From there switches carry them on
(`Scene.ends_or_carried`), and the first router that is not a switch takes them, by its own routing
decision (`Scene.exists_route_of_session`). On a segment that several routers share this need not be
the peer (`Scene.not_leadsToPeers`). It is the peer if all links of the VLAN lead to it
(`Scene.leadsToPeer_of_pointToPoint`). -/

namespace NetReach

/-! ### The first router -/

namespace Network

/-- The first router on the path that is neither `i` nor a plain switch. -/
def firstOther? (net : Network) (i : RouterId) (p : List Vertex) : Option RouterId :=
  (p.filterMap (·.router?)).find? fun j => j ≠ i && !net.isSwitch j

variable {net : Network} {i j : RouterId} {x : Vertex} {l m : List Vertex}

theorem firstOther?_append
    (hl : ∀ y ∈ l, ∀ k, y.router? = some k → k = i ∨ net.isSwitch k = true)
    (hx : x.router? = some j) (hj : j ≠ i) (hs : net.isSwitch j = false) :
    net.firstOther? i (l ++ x :: m) = some j := by
  have hnone : (l.filterMap (·.router?)).find? (fun k => k ≠ i && !net.isSwitch k) = none := by
    refine List.find?_eq_none.mpr fun k hk => ?_
    obtain ⟨y, hy, hyk⟩ := List.mem_filterMap.mp hk
    rcases hl y hy k hyk with rfl | h
    · simp
    · simp [h]
  rw [firstOther?, List.filterMap_append, List.find?_append, hnone, Option.none_or,
    List.filterMap_cons_some hx, List.find?_cons_of_pos (by simp [hj, hs])]

/-- The router has a local VLAN for all its sessions with the peer, and all links of these VLANs
lead to the peer. -/
def PointToPoint (net : Network) (r : Router) (p : RouterId) : Prop :=
  ∀ s ∈ r.sessions, s.peer = p → ∃ v ∈ s.localVlan, ∀ w ∈ net.linkedTo v, w.router = p

instance (net : Network) (r : Router) (p : RouterId) : Decidable (net.PointToPoint r p) :=
  inferInstanceAs (Decidable (∀ s ∈ r.sessions, _))

end Network

namespace Scene

variable {c : Scene} {f : FailureSet} {t : RoutingTable} {v w : VlanId} {r : Router}
  {p : RouterId} {x y : Vertex} {l : List Vertex} {q : Route}

/-- Selected routes of sessions with adjacent peers lead to the peer before any other router. -/
def LeadsToPeers (c : Scene) (f : FailureSet) : Prop :=
  ∀ ⦃g s r n q⦄, c.build .fine = .ok g → g.graph.simulate f = .ok s → r ∈ c.net.routers →
    n ∈ r.sessions → n.isDirect = true → s.routes.get? (.main (.bgpOut r.id n.peer)) = some q →
    c.net.firstOther? r.id q.path = some n.peer

/-! ### Along a segment -/

/-- Packets leave on a VLAN over its links. -/
theorem link_of_mem_successors (hn : c.net.Linked)
    (h : y ∈ (c.wiring .fine).graph.successors f (.main (.vlanOut v))) :
    ∃ w, y = .main (.vlanIn w) ∧ c.net.Link v w := by
  obtain ⟨⟨e, he⟩, -⟩ := mem_successors_iff.mp h
  generalize hu : Vertex.main (.vlanOut v) = u at he
  cases he with
  | fine hr he =>
    cases he with
    | physical hx hy =>
      cases hu
      have hvlan := ((Network.mem_vlans_of_router? hn (hn.router?_of_mem hr)).mp hx).1
      exact ⟨_, rfl, (Network.mem_linkedVlans hn hvlan).mp hy⟩
    | _ => cases hu
  | layer _ _ he => cases he <;> cases hu

/-- A switch sends packets out on the VLAN on which they came in. -/
theorem eq_vlanOut_of_mem_successors (hn : c.net.Linked)
    (h : y ∈ (c.wiring .fine).graph.successors f (.main (.vlanIn v)))
    (hs : c.net.isSwitch v.router = true) : y = .main (.vlanOut v) := by
  obtain ⟨⟨e, he⟩, -⟩ := mem_successors_iff.mp h
  generalize hu : Vertex.main (.vlanIn v) = u at he
  cases he with
  | fine hr he =>
    have hr := hn.router?_of_mem hr
    cases he with
    | switching _ _ =>
      cases hu
      rfl
    | ingress hx hno =>
      cases hu
      rw [Network.isSwitch, ((Network.mem_vlans_of_router? hn hr).mp hx).2, hr, Option.any_some,
        hno] at hs
      cases hs
    | _ => cases hu
  | layer _ _ he => cases he <;> cases hu

/-- Packets that left on the VLAN `v` are at the vertex, and no router but switches was on the
way. -/
inductive OnSegment (c : Scene) (v : VlanId) : Vertex → Prop where
  | start : OnSegment c v (.main (.vlanOut v))
  | arrive {w : VlanId} : c.net.Chain v w → OnSegment c v (.main (.vlanIn w))
  | carried {w : VlanId} : c.net.Chain v w → c.net.isSwitch w.router = true →
    OnSegment c v (.main (.vlanOut w))

/-- **On a segment packets end at the routing decision of a router, or are carried on**, by the
VLAN on which they left, or by a switch. -/
theorem ends_or_carried (hn : c.net.Linked) (hx : c.OnSegment v x)
    (h : y ∈ (c.wiring .fine).graph.successors f x) :
    (∃ w, x = .main (.vlanIn w) ∧ y = .main (.rib w.router) ∧ c.net.Chain v w ∧
      c.net.isSwitch w.router = false) ∨
    (∀ j, x.router? = some j → j = v.router ∨ c.net.isSwitch j = true) ∧ c.OnSegment v y := by
  cases hx with
  | start =>
    obtain ⟨w, rfl, hl⟩ := link_of_mem_successors hn h
    refine .inr ⟨fun j hj => ?_, .arrive (.link hl)⟩
    cases hj
    exact .inl rfl
  | @arrive w hchain =>
    cases hs : c.net.isSwitch w.router with
    | false => exact .inl ⟨w, rfl, eq_rib_of_mem_successors hn h hs, hchain, hs⟩
    | true =>
      obtain rfl := eq_vlanOut_of_mem_successors hn h hs
      refine .inr ⟨fun j hj => ?_, .carried hchain hs⟩
      cases hj
      exact .inr hs
  | @carried u hchain hs =>
    obtain ⟨w, rfl, hl⟩ := link_of_mem_successors hn h
    refine .inr ⟨fun j hj => ?_, .arrive (hchain.concat hs hl)⟩
    cases hj
    exact .inr hs

/-! ### Where a session leads -/

/-- Packets of a session with an adjacent peer leave on a local VLAN of the router for the peer. -/
theorem exists_localVlan_of_mem_successors (hn : c.net.Linked) (hr : r ∈ c.net.routers)
    (hdirect : ∀ s ∈ r.sessions, s.peer = p → s.isDirect = true)
    (h : y ∈ (c.wiring .fine).graph.successors f (.main (.bgpOut r.id p))) :
    ∃ s ∈ r.sessions, s.peer = p ∧ ∃ v, s.localVlan = some v ∧ y = .main (.vlanOut v) := by
  obtain ⟨⟨e, he⟩, -⟩ := mem_successors_iff.mp h
  generalize hu : Vertex.main (.bgpOut r.id p) = u at he
  cases he with
  | @fine r' _ _ _ hr' he =>
    have hsame : r'.id = r.id → r = r' :=
      Network.eq_of_router? (hn.router?_of_mem hr) (hn.router?_of_mem hr')
    cases he with
    | @direct s v hs hv =>
      injection hu with _ hu
      injection hu with hid hp
      obtain rfl := hsame hid.symm
      exact ⟨s, (mem_learningSessions.mp hs).1, hp.symm, v, hv, rfl⟩
    | @distant s hs hv =>
      injection hu with _ hu
      injection hu with hid hp
      obtain rfl := hsame hid.symm
      have hdir := hdirect s (mem_learningSessions.mp hs).1 hp.symm
      rw [Session.isDirect, hv] at hdir
      cases hdir
    | _ => cases hu
  | layer _ _ he => cases he <;> cases hu

/-- **The selected route of a session leads to a router at the end of a chain of links, from a
local VLAN of the session**, and goes on with the route that this router selects. -/
theorem exists_route_of_session (hn : c.net.Linked) (ht : (c.wiring .fine).graph.Stable f t)
    (hr : r ∈ c.net.routers) (hdirect : ∀ s ∈ r.sessions, s.peer = p → s.isDirect = true)
    (hq : t.get? (.main (.bgpOut r.id p)) = some q) :
    ∃ s ∈ r.sessions, s.peer = p ∧ ∃ v, s.localVlan = some v ∧
      ∃ w l q', c.net.Chain v w ∧ c.net.isSwitch w.router = false ∧
        q.path = l ++ .main (.vlanIn w) :: q'.path ∧
        t.get? (.main (.rib w.router)) = some q' ∧
        ∀ x ∈ l, ∀ j, x.router? = some j → j = r.id ∨ c.net.isSwitch j = true := by
  have hpath := ht.isPath hq
  rw [destination_wiring] at hpath
  obtain ⟨y, m, hsplit⟩ := hpath.exists_eq_cons_cons nofun
  rw [hsplit] at hpath
  obtain ⟨hy, hchain⟩ := List.isChain_cons_cons.mp hpath.chain
  obtain ⟨s, hs, hp, v, hv, rfl⟩ := exists_localVlan_of_mem_successors hn hr hdirect hy
  have hid := (hn.localVlan (hn.router?_of_mem hr) hs hv).1
  have hlast := hpath.last
  rw [List.getLast?_cons_cons] at hlast
  have houtside : ¬ c.OnSegment v c.destination := nofun
  obtain ⟨l, _, _, rest, hm, ⟨w, rfl, rfl, hvw, hw⟩, hall⟩ :=
    exists_leave_of_isChain (P := c.OnSegment v) (fun _ _ => ends_or_carried hn) houtside m .start
      hchain hlast
  rw [hm] at hsplit
  obtain ⟨q', hq', hrest⟩ := ht.exists_route_of_append (v := .main (.rib w.router)) (p := rest)
    (l := .main (.bgpOut r.id p) :: l ++ [.main (.vlanIn w)]) hq (by simp [hsplit])
  refine ⟨s, hs, hp, v, hv, w, .main (.bgpOut r.id p) :: l, q', hvw, hw, ?_, hq', ?_⟩
  · rw [hsplit, hrest, List.cons_append]
  · intro x hx j hj
    rcases List.mem_cons.mp hx with rfl | hx
    · cases hj
      exact .inl rfl
    · rw [← hid]
      exact (hall x hx).2 j hj

/-- **Over a point-to-point link a session leads to its peer**: the peer is the first other router
on the selected route of the session, and the rest of the route is one that the peer has
selected. -/
theorem leadsToPeer_of_pointToPoint {cfg : NetworkConfig} {g : Wiring} {s : Simulation}
    {n : Session} (hlink : cfg.link = .ok c.net) (hg : c.build .fine = .ok g)
    (hs : g.graph.simulate f = .ok s) (hr : r ∈ c.net.routers) (hn : n ∈ r.sessions)
    (honly : c.net.PointToPoint r n.peer)
    (hq : s.routes.get? (.main (.bgpOut r.id n.peer)) = some q) :
    c.net.firstOther? r.id q.path = some n.peer ∧
      ∃ l q', s.routes.get? (.main (.rib n.peer)) = some q' ∧ q.path = l ++ q'.path := by
  have hlinked := NetworkConfig.linked_of_link hlink
  obtain rfl := eq_wiring_of_build hg
  have hdirect : ∀ s ∈ r.sessions, s.peer = n.peer → s.isDirect = true := by
    intro s hs hp
    obtain ⟨v, hv, -⟩ := honly s hs hp
    exact Option.isSome_iff_exists.mpr ⟨v, hv⟩
  obtain ⟨s', hs', hp, v, hv, w, l, q', hchain, hw, hpath, hq', hl⟩ :=
    exists_route_of_session hlinked (PathGraph.simulate_stable hs) hr hdirect hq
  obtain ⟨hne, -, -, p, hrouter, hbgp⟩ := hlinked.peer (hlinked.router?_of_mem hr) hn
  have hswitch : c.net.isSwitch n.peer = false := by
    simp [Network.isSwitch, hrouter, Router.isSwitch, hbgp]
  -- the first link ends at the peer, which is no switch, so that the chain ends there
  have hpeer : w.router = n.peer := by
    obtain ⟨v', hv', hall⟩ := honly s' hs' hp
    cases Option.mem_unique hv hv'
    cases hchain with
    | link h => exact hall w ((Network.mem_linkedTo hlinked).mpr h)
    | @cons _ u _ h hs _ =>
      rw [hall u ((Network.mem_linkedTo hlinked).mpr h), hswitch] at hs
      cases hs
  rw [hpeer] at hq'
  refine ⟨?_, l ++ [.main (.vlanIn w)], q', hq', by simp [hpath]⟩
  rw [hpath]
  exact Network.firstOther?_append hl (congrArg some hpeer) hne hswitch

/-- On the line of autonomous systems the first one reaches the second one over their link. -/
theorem leadsToPeer_of_pointToPoint_taggedPolicy :
    (Example.taggedPolicyConfig false).link = .ok taggedPolicyScene.net ∧
    ∃ g s r n q, taggedPolicyScene.build .fine = .ok g ∧ g.graph.simulate ∅ = .ok s ∧
      r ∈ taggedPolicyScene.net.routers ∧ n ∈ r.sessions ∧ r.id = 0 ∧ n.peer = 1 ∧
      taggedPolicyScene.net.PointToPoint r n.peer ∧
      s.routes.get? (.main (.bgpOut r.id n.peer)) = some q ∧
      taggedPolicyScene.net.firstOther? r.id q.path = some n.peer := by
  have hlink : (Example.taggedPolicyConfig false).link = .ok taggedPolicyScene.net := rfl
  have hbuild : taggedPolicyScene.build .fine = .ok (taggedPolicyScene.wiring .fine) :=
    build_of_error?_eq_none (by decide +kernel)
  have hsession : ∃ r ∈ taggedPolicyScene.net.routers, r.id = 0 ∧ ∃ n ∈ r.sessions, n.peer = 1 ∧
      taggedPolicyScene.net.PointToPoint r n.peer := by
    decide +kernel
  have hroute : (taggedPolicyScene.selectedPath? ∅ (.main (.bgpOut 0 1))).isSome = true := by
    decide +kernel
  obtain ⟨r, hr, hid, n, hn, hp, honly⟩ := hsession
  obtain ⟨l, hl⟩ := Option.isSome_iff_exists.mp hroute
  obtain ⟨s, q, hs, hq, -⟩ := exists_route_of_selectedPath? hl
  rw [← hid, ← hp] at hq
  exact ⟨hlink, _, s, r, n, q, hbuild, hs, hr, hn, hid, hp, honly, hq,
    (leadsToPeer_of_pointToPoint hlink hbuild hs hr hn honly hq).1⟩

/-! ### Shared segments -/

/-- Three routers at a switch. The second and the third one originate the subnet `t`, but the first
one has a session with the third one only. -/
def segmentConfig : NetworkConfig :=
  let r1 := RouterConfig.named "R1"
    |>.iface "SW" (some 1) |>.vlan 1 (Example.block 10 0 0 1)
    |>.bgpExternal (Example.host 10 0 0 3) none none |>.subnet "s"
  let r2 := RouterConfig.named "R2"
    |>.iface "SW" (some 1) |>.vlan 1 (Example.block 10 0 0 2) |>.bgpOrigin "t" |>.subnet "t"
  let r3 := RouterConfig.named "R3"
    |>.iface "SW" (some 1) |>.vlan 1 (Example.block 10 0 0 3)
    |>.bgpExternal (Example.host 10 0 0 1) none none |>.bgpOrigin "t" |>.subnet "t"
  let sw := RouterConfig.named "SW"
    |>.iface "R1" (some 1) |>.iface "R2" (some 1) |>.iface "R3" (some 1)
    |>.vlan 1 (Example.block 10 0 0 254)
  { routers := [r1, r2, r3, sw] }

/-- From the first router at the switch to `t`. -/
def segmentScene : Scene := segmentConfig.assemble.scene "t" "s"

/-- The session of the first router with the third one leads to the second one, whether or not the
third one is still connected to the switch. -/
theorem not_leadsToPeers :
    segmentConfig.link = .ok segmentScene.net ∧ ¬ segmentScene.LeadsToPeers ∅ ∧
      ¬ segmentScene.LeadsToPeers ((∅ : FailureSet).insert 2 3) := by
  have hbuild : segmentScene.build .fine = .ok (segmentScene.wiring .fine) :=
    build_of_error?_eq_none (by decide +kernel)
  have hsession : ∃ r ∈ segmentScene.net.routers, r.id = 0 ∧ ∃ n ∈ r.sessions, n.peer = 2 ∧
      n.isDirect = true := by
    decide +kernel
  obtain ⟨r, hr, hid, n, hn, hp, hdirect⟩ := hsession
  have hsecond : ∀ f, (∃ l ∈ segmentScene.selectedPath? f (.main (.bgpOut 0 2)),
      segmentScene.net.firstOther? 0 l = some 1) → ¬ segmentScene.LeadsToPeers f := by
    rintro f ⟨l, hl, hfirst⟩ hleads
    obtain ⟨s, q, hs, hq, rfl⟩ := exists_route_of_selectedPath? hl
    rw [← hid, ← hp] at hq
    have hpeer := hleads hbuild hs hr hn hdirect hq
    rw [hid, hfirst, hp] at hpeer
    cases hpeer
  exact ⟨rfl, hsecond _ (by decide +kernel), hsecond _ (by decide +kernel)⟩

end Scene

end NetReach
