import NetReach.Proofs.Agreement
import NetReach.Proofs.MainLayer

/-! # The coarse graph covers the fine graph

In a network whose sessions are all with adjacent peers, every way from the source through the fine
graph is traced by the coarse graph (`Scene.Traced`). Inside a router the two differ: where the fine
graph goes on from process to process, the coarse graph waits at the VLAN, or at the source, until
the process is known that sends the packet on (`Scene.Arrives`). One step of the fine graph is
matched by `Scene.Traced.step`, whatever links have failed. Only packets that are delivered on the
router where they start leave no trace in the coarse graph. -/

namespace NetReach.Scene

variable {c : Scene} {f : FailureSet} {r : Router} {s : Session} {a b : Vertex} {e : Edge}

/-- Successors that no failure cuts lead from the source to the vertex in the coarse graph. -/
abbrev CoarseReaches (c : Scene) (f : FailureSet) (a : Vertex) : Prop :=
  (c.wiring .coarse).graph.Reaches f c.source a

/-- Packets from the source get to the router in the coarse graph: they start there, or reach one of
its VLANs. -/
inductive Arrives (c : Scene) (f : FailureSet) (i : RouterId) : Prop where
  | start : c.net.Attaches i c.src → Arrives c f i
  | vlan {v : VlanId} : (c.net.vlan? v).isSome → v.router = i →
    c.CoarseReaches f (.main (.vlan v)) → Arrives c f i

/-- What the coarse graph has to show for a vertex that the source reaches in the fine graph. -/
inductive Traced (c : Scene) (f : FailureSet) : Vertex → Prop where
  | source : Traced c f c.source
  | vlanIn {v : VlanId} : c.CoarseReaches f (.main (.vlan v)) → Traced c f (.main (.vlanIn v))
  | vlanOut {v : VlanId} : c.CoarseReaches f (.main (.vlan v)) → Traced c f (.main (.vlanOut v))
  | rib {i : RouterId} : c.Arrives f i → Traced c f (.main (.rib i))
  | ospfIn {i : RouterId} : c.Arrives f i → c.taint.isTainted ⟨.ospf, i⟩ = true →
    Traced c f (.main (.ospfIn i))
  | bgpIn {i : RouterId} : c.Arrives f i → c.taint.isTainted ⟨.bgp, i⟩ = true →
    Traced c f (.main (.bgpIn i))
  | ospfOut {i : RouterId} : c.CoarseReaches f (.main (.ospf i)) → Traced c f (.main (.ospfOut i))
  | bgpOut {i j : RouterId} : c.CoarseReaches f (.main (.bgpSession i j)) →
    Traced c f (.main (.bgpOut i j))
  | destination : c.CoarseReaches f c.destination → Traced c f c.destination

/-! ### One edge of the coarse graph -/

theorem CoarseReaches.mem (h : c.CoarseReaches f a) : a ∈ (c.wiring .coarse).graph.vertices := by
  rcases Relation.ReflTransGen.cases_tail h with h | ⟨b, -, h⟩
  · exact h ▸ source_mem_vertices
  · exact (PathGraph.mem_vertices_of_mem_successors h).2.1

theorem CoarseReaches.step (h : c.CoarseReaches f a) (he : c.CoarseEdge r a b e)
    (hr : c.net.router? r.id = some r) (hb : b ∈ (c.wiring .coarse).graph.vertices) (hne : a ≠ b)
    (hc : f.cuts a b = false) : c.CoarseReaches f b := by
  have hlaid : c.IsLaid .coarse a b e := .coarse (List.mem_of_getElem? hr) he
  have hsucc := mem_successors_iff.mpr ⟨⟨e, hlaid⟩, CoarseReaches.mem h, hb, hne, hc⟩
  exact Relation.ReflTransGen.tail h hsucc

theorem CoarseReaches.link {v w : VlanId} (hn : c.net.Linked)
    (h : c.CoarseReaches f (.main (.vlan v))) (hl : c.net.Link v w)
    (hc : f.cuts (.main (.vlan v)) (.main (.vlan w)) = false) :
    c.CoarseReaches f (.main (.vlan w)) := by
  by_cases hvw : v = w
  · exact hvw ▸ h
  obtain ⟨hv, hw⟩ := hl.isSome_vlan? hn
  obtain ⟨r, x, hr, -, hx, rfl, hxr⟩ := Network.exists_router_of_vlan hn hv
  have hlinked := (Network.mem_linkedVlans hn hx).mpr hl
  refine h.step (.physical hxr hlinked) hr (vlan_mem_coarse hn hw) (fun he => hvw ?_) hc
  cases he
  rfl

/-! ### Inside a router -/

/-- Where packets arrive, they are handed to a tainted OSPF process. -/
theorem Arrives.ospf (hn : c.net.Linked) (h : c.Arrives f r.id) (hrun : c.Runs .ospf r) :
    c.CoarseReaches f (.main (.ospf r.id)) := by
  have hr := hrun.router
  have hmem := hrun.ospf_mem_coarse
  cases h with
  | start ha =>
    obtain ⟨r', hr', ha⟩ := ha
    obtain rfl := Network.eq_of_router? hr' hr rfl
    have horigin := CoarseEdge.ospfOrigin hrun.runs hrun.tainted ha
    exact CoarseReaches.step .refl horigin hr hmem nofun rfl
  | @vlan v hv hid h =>
    obtain ⟨x, hxr, rfl, -⟩ := Network.exists_mem_vlans hn hr hv hid
    have hcut : f.cuts (.main (.vlan x.id)) (.main (.ospf r.id)) = false :=
      FailureSet.cuts_of_router?_eq (congrArg some hid)
    exact h.step (.ospfIngress hxr hrun.tainted) hr hmem nofun hcut

/-- Where packets arrive, they are handed to every session of a tainted BGP process. -/
theorem Arrives.session (hn : c.net.Linked) (h : c.Arrives f r.id)
    (hr : c.net.router? r.id = some r) (ht : c.bgpTainted r = true) (hs : s ∈ r.sessions) :
    c.CoarseReaches f (sessionVertex r s) := by
  have hmem := session_mem_coarse hr hs
  cases h with
  | start ha =>
    obtain ⟨r', hr', ha⟩ := ha
    obtain rfl := Network.eq_of_router? hr' hr rfl
    exact CoarseReaches.step .refl (.bgpOrigin hs ht ha) hr hmem nofun rfl
  | @vlan v hv hid h =>
    obtain ⟨x, hxr, rfl, -⟩ := Network.exists_mem_vlans hn hr hv hid
    have hcut : f.cuts (.main (.vlan x.id)) (sessionVertex r s) = false :=
      FailureSet.cuts_of_router?_eq (congrArg some hid)
    exact h.step (.bgpIngress hxr ht hs) hr hmem nofun hcut

/-- Where packets arrive from another router, they are delivered. -/
theorem Arrives.deliver (hn : c.net.Linked) (h : c.Arrives f r.id)
    (hr : c.net.router? r.id = some r)
    (hdis : ∀ r ∈ c.net.routers, ¬ (r.attaches c.src = true ∧ r.attaches c.dst = true))
    (hd : (c.ospfDelivers r || c.bgpDelivers r) = true) : c.CoarseReaches f c.destination := by
  cases h with
  | start ha =>
    obtain ⟨r', hr', ha⟩ := ha
    obtain rfl := Network.eq_of_router? hr' hr rfl
    have hdst : r'.attaches c.dst = true := by
      rcases Bool.or_eq_true_iff.mp hd with hd | hd
      · exact (Bool.and_eq_true_iff.mp hd).1
      · exact (Bool.and_eq_true_iff.mp hd).1
    exact absurd ⟨ha, hdst⟩ (hdis r' (List.mem_of_getElem? hr))
  | @vlan v hv hid h =>
    obtain ⟨x, hxr, rfl, -⟩ := Network.exists_mem_vlans hn hr hv hid
    exact h.step (.delivery hxr hd) hr destination_mem_vertices nofun rfl

/-! ### One edge of the fine graph -/

/-- **Every step through the fine graph is traced by the coarse graph**, if all sessions are with
adjacent peers and no router has both subnets attached. -/
theorem Traced.step (hn : c.net.Linked) (hdirect : c.net.DirectlyConnected)
    (hdis : ∀ r ∈ c.net.routers, ¬ (r.attaches c.src = true ∧ r.attaches c.dst = true))
    (h : c.Traced f a) (hb : b ∈ (c.wiring .fine).graph.successors f a) : c.Traced f b := by
  obtain ⟨⟨e, he⟩, -, hmem, -, hc⟩ := mem_successors_iff.mp hb
  cases he with
  | layer _ hl _ => exact absurd hl (not_mem_layers hdirect)
  | @fine r _ _ _ hr he =>
  have hr := hn.router?_of_mem hr
  cases he with
  | switching _ _ =>
    cases h with
    | vlanIn h => exact .vlanOut h
  | @ingress x hx _ =>
    obtain ⟨hvlan, hid⟩ := (Network.mem_vlans_of_router? hn hr).mp hx
    cases h with
    | vlanIn h => exact .rib (.vlan (Option.isSome_of_mem hvlan) hid h)
  | physical hx hy =>
    have hvlan := ((Network.mem_vlans_of_router? hn hr).mp hx).1
    cases h with
    | vlanOut h => exact .vlanIn (h.link hn ((Network.mem_linkedVlans hn hvlan).mp hy) hc)
  | origin ha => exact .rib (.start ⟨r, hr, ha⟩)
  | ospfLookup =>
    cases h with
    | rib h => exact .ospfIn h (isTainted_of_entry_mem (p := .ospf) hmem)
  | bgpLookup =>
    cases h with
    | rib h => exact .bgpIn h (isTainted_of_entry_mem (p := .bgp) hmem)
  | ospfRelay ho _ =>
    cases h with
    | ospfIn h ht => exact .ospfOut (h.ospf hn ⟨hr, ho, ht⟩)
  | @egress y ho hy =>
    obtain ⟨hid, hactive, -⟩ := mem_ospfEgress.mp hy
    have hvlan : (c.net.vlan? y).isSome := by
      have hknown := hn.active hr hactive
      rwa [← hid] at hknown
    have hcut : f.cuts (.main (.ospf r.id)) (.main (.vlan y)) = false :=
      FailureSet.cuts_of_router?_eq (congrArg some hid.symm)
    cases h with
    | ospfOut h => exact .vlanOut (h.step (.egress ho hy) hr (vlan_mem_coarse hn hvlan) nofun hcut)
  | ospfDelivery _ hd =>
    cases h with
    | ospfIn h _ =>
      exact .destination (h.deliver hn hr hdis (Bool.or_eq_true_iff.mpr (Or.inl hd)))
  | ospfFromBgp _ _ =>
    cases h with
    | ospfIn h _ => exact .bgpIn h (isTainted_of_entry_mem (p := .bgp) hmem)
  | bgpDelivery hd =>
    cases h with
    | bgpIn h _ =>
      exact .destination (h.deliver hn hr hdis (Bool.or_eq_true_iff.mpr (Or.inr hd)))
  | bgpFromOspf _ =>
    cases h with
    | bgpIn h _ => exact .ospfIn h (isTainted_of_entry_mem (p := .ospf) hmem)
  | bgpRelay hs =>
    obtain ⟨hs, -⟩ := mem_learningSessions.mp hs
    cases h with
    | bgpIn h ht => exact .bgpOut (h.session hn hr ht hs)
  | @direct s y hs hy =>
    obtain ⟨hs, hlearn⟩ := mem_learningSessions.mp hs
    obtain ⟨hid, hvlan⟩ := hn.localVlan hr hs hy
    have hcut : f.cuts (sessionVertex r s) (.main (.vlan y)) = false :=
      FailureSet.cuts_of_router?_eq (congrArg some hid.symm)
    have hdep := CoarseEdge.dependency hs hlearn
    rw [hy] at hdep
    cases h with
    | bgpOut h =>
      exact .vlanOut (CoarseReaches.step h hdep hr (vlan_mem_coarse hn hvlan) nofun hcut)
  | @distant s hs hnone =>
    have hdir := hdirect r (List.mem_of_getElem? hr) s (mem_learningSessions.mp hs).1
    rw [Session.isDirect, hnone] at hdir
    cases hdir

/-- What the source reaches in the fine graph is traced by the coarse graph. -/
theorem traced_of_reaches (hn : c.net.Linked) (hdirect : c.net.DirectlyConnected)
    (hdis : ∀ r ∈ c.net.routers, ¬ (r.attaches c.src = true ∧ r.attaches c.dst = true))
    (h : (c.wiring .fine).graph.Reaches f c.source a) : c.Traced f a := by
  induction h with
  | refl => exact .source
  | tail _ hb ih => exact ih.step hn hdirect hdis hb

/-- Whether a graph can be made does not depend on the variant. -/
theorem build_eq_ok {variant variant' : Variant} {w : Wiring} (h : c.build variant = .ok w) :
    c.build variant' = .ok (c.wiring variant') := by
  unfold build at h ⊢
  split at h
  · cases h
  · rfl

/-- **The coarse graph has a path wherever the fine graph has one**, whatever links have failed, in
a linked network whose sessions are all with adjacent peers, for subnets that no router has both
attached. -/
theorem coarse_isSome_path?_of_fine {cfg : NetworkConfig} {g : Wiring}
    (hlink : cfg.link = .ok c.net) (hdirect : c.net.DirectlyConnected)
    (hdis : ∀ r ∈ c.net.routers, ¬ (r.attaches c.src = true ∧ r.attaches c.dst = true))
    (hg : c.build .fine = .ok g) (f : FailureSet) (hp : (g.graph.path? f).isSome) :
    ∃ g', c.build .coarse = .ok g' ∧ (g'.graph.path? f).isSome := by
  have hn := NetworkConfig.linked_of_link hlink
  refine ⟨_, build_eq_ok hg, ?_⟩
  obtain rfl := eq_wiring_of_build hg
  rw [PathGraph.isSome_path?, source_wiring, destination_wiring] at hp ⊢
  have htraced := traced_of_reaches hn hdirect hdis hp
  generalize hd : c.destination = d at htraced
  cases htraced with
  | destination h => exact h
  | _ => cases hd

/-- Three routers of an autonomous system in a line. The last two have sessions with another
autonomous system, which originates the subnet `t`. -/
def fallbackConfig : NetworkConfig :=
  let r1 := RouterConfig.named "R1"
    |>.iface "R2" (some 12) |>.vlan 12 (Example.block 10 0 12 1)
    |>.bgpInternal (Example.host 10 0 12 2) none none |>.subnet "s"
  let r2 := RouterConfig.named "R2"
    |>.iface "R1" (some 12) |>.iface "R3" (some 23) |>.iface "X" (some 2)
    |>.vlan 12 (Example.block 10 0 12 2) |>.vlan 23 (Example.block 10 0 23 2)
    |>.vlan 2 (Example.block 10 0 2 2)
    |>.bgpExternal (Example.host 10 0 2 9) none none
    |>.bgpInternal (Example.host 10 0 12 1) none none
    |>.bgpInternal (Example.host 10 0 23 3) none none
  let r3 := RouterConfig.named "R3"
    |>.iface "R2" (some 23) |>.iface "X" (some 3)
    |>.vlan 23 (Example.block 10 0 23 3) |>.vlan 3 (Example.block 10 0 3 3)
    |>.bgpExternal (Example.host 10 0 3 9) none none
    |>.bgpInternal (Example.host 10 0 23 2) none none
  let x := RouterConfig.named "X"
    |>.iface "R2" (some 2) |>.iface "R3" (some 3)
    |>.vlan 2 (Example.block 10 0 2 9) |>.vlan 3 (Example.block 10 0 3 9)
    |>.bgpExternal (Example.host 10 0 2 2) none none
    |>.bgpExternal (Example.host 10 0 3 3) none none |>.bgpOrigin "t" |>.subnet "t"
  { routers := [r1, r2, r3, x] }

/-- From the first of the three routers to the other autonomous system. -/
def fallbackScene : Scene := fallbackConfig.assemble.scene "t" "s"

theorem build_fallbackScene : fallbackScene.build .fine = .ok (fallbackScene.wiring .fine) :=
  build_of_error?_eq_none (by decide +kernel)

/-- The link from the second router to the other autonomous system has failed. -/
theorem coarse_isSome_path?_of_fine_fallback :
    let f : FailureSet := (∅ : FailureSet).insert 1 3
    fallbackConfig.link = .ok fallbackScene.net ∧ fallbackScene.net.DirectlyConnected ∧
    (∀ r ∈ fallbackScene.net.routers, ¬ (r.attaches "s" = true ∧ r.attaches "t" = true)) ∧
    ∃ g g', fallbackScene.build .fine = .ok g ∧ (g.graph.path? f).isSome ∧
      fallbackScene.build .coarse = .ok g' ∧ (g'.graph.path? f).isSome := by
  intro f
  have hlink : fallbackConfig.link = .ok fallbackScene.net := rfl
  have hdirect : fallbackScene.net.DirectlyConnected := by decide +kernel
  have hdis : ∀ r ∈ fallbackScene.net.routers,
      ¬ (r.attaches "s" = true ∧ r.attaches "t" = true) := by decide +kernel
  have hpath : ((fallbackScene.wiring .fine).graph.path? f).isSome := by decide +kernel
  obtain ⟨g', hg', hp'⟩ :=
    coarse_isSome_path?_of_fine hlink hdirect hdis build_fallbackScene f hpath
  exact ⟨hlink, hdirect, hdis, _, g', build_fallbackScene, hpath, hg', hp'⟩

end NetReach.Scene
