import NetReach.Proofs.Agreement
import NetReach.Proofs.Hops
import NetReach.Proofs.Tunnel

/-! # Local delivery

Packets for a subnet on the router that they enter need no link. In the fine graph the process that
originates the subnet delivers them (`Scene.isSome_path?_fine_of_local`). In the coarse graph they
are only delivered from the vertices of VLANs, and must get to one of the router first: from OSPF
that meets a neighbor, or over a session (`Scene.SendsOut`). Where packets get to when all links
have failed shows that this is also necessary (`Scene.Inside`). -/

namespace NetReach

/-! ### Edges that no failure cuts -/

namespace FailureSet

variable {f : FailureSet} {u v : Vertex}

theorem cuts_of_tail (h : u.router? = none) : f.cuts u v = false := by
  unfold cuts
  rw [h]

theorem cuts_of_head (h : v.router? = none) : f.cuts u v = false := by
  unfold cuts
  rw [h]
  split
  · next hv => cases hv
  · rfl

end FailureSet

namespace Network

variable {net : Network} {i j : RouterId} {u v : Vertex}

/-- The links between any two routers. -/
def allLinks (net : Network) : FailureSet :=
  ⟨List.range net.routers.length ×ˢ List.range net.routers.length⟩

/-- When all links have failed, edges stay on a router. -/
theorem eq_of_not_cuts (hcut : net.allLinks.cuts u v = false) (hu : u.router? = some i)
    (hv : v.router? = some j) (hi : (net.router? i).isSome) (hj : (net.router? j).isSome) :
    i = j := by
  have hlt : ∀ {k}, (net.router? k).isSome → k < net.routers.length := fun hk =>
    (List.getElem?_eq_some_iff.mp (Option.get_mem hk)).1
  have hmem : (i, j) ∈ net.allLinks.pairs := by
    simp [allLinks, hlt hi, hlt hj]
  by_contra hne
  simp [FailureSet.cuts, hu, hv, hne, FailureSet.contains, hmem] at hcut

end Network

namespace Scene

variable {c : Scene} {f : FailureSet} {r : Router} {p : Protocol} {u v : Vertex} {e : Edge}
  {variant : Variant}

theorem reaches_of_isLaid (h : c.IsLaid variant u v e)
    (hu : u ∈ (c.wiring variant).graph.vertices) (hv : v ∈ (c.wiring variant).graph.vertices)
    (hcut : f.cuts u v = false) : (c.wiring variant).graph.Reaches f u v := by
  by_cases hne : u = v
  · rw [hne]
  · exact .single (mem_successors_iff.mpr ⟨⟨e, h⟩, hu, hv, hne, hcut⟩)

/-! ### The fine graph -/

/-- A process that originates the destination is tainted. -/
theorem runs_of_originates {net : Network} {dst : Subnet} (src : Subnet) (hn : net.Linked)
    (hr : net.router? r.id = some r) (ho : r.originates dst p = true) :
    (net.scene dst src).Runs p r := by
  have hmade := TaintGraph.ofNetwork_madeFrom net (.ofNetwork net) dst
  have horigin := (hmade.isOrigin_iff hn (p := ⟨p, r.id⟩)).mpr ⟨r, hr, ho⟩
  obtain ⟨e, he, hends⟩ := List.any_eq_true.mp horigin
  simp only [hmade.subnet, Option.map_some, Option.some.injEq, Bool.and_eq_true,
    decide_eq_true_eq] at hends
  refine ⟨hr, Router.runs_of_originates ho, ((baseTaint_exact hn dst).isTainted_iff _).mpr ?_⟩
  refine ⟨[] ++ [e], TaintGraph.isWalk_concat.mpr ⟨TaintGraph.isWalk_nil, he, ?_⟩, ?_⟩
  · rw [TaintGraph.follows_iff]
    exact ⟨hends.1.symm, fun h => nomatch h.1⟩
  · rw [TaintGraph.endState_concat]
    exact hends.2

/-- **The process that originates the destination delivers packets that enter its router.** -/
theorem isSome_path?_fine_of_local (h : c.Runs p r) (hsrc : r.attaches c.src = true)
    (hdst : r.attaches c.dst = true) (ho : r.originates c.dst p = true) (f : FailureSet) :
    ((c.wiring .fine).graph.path? f).isSome := by
  have hmem := List.mem_of_getElem? h.router
  have hd : (r.attaches c.dst && r.originates c.dst p) = true := Bool.and_eq_true_iff.mpr ⟨hdst, ho⟩
  have horigin : (c.wiring .fine).graph.Reaches f c.source (.main (.rib r.id)) :=
    reaches_of_isLaid (.fine hmem (.origin hsrc)) source_mem_vertices h.rib_mem
      (FailureSet.cuts_of_tail rfl)
  have hlookup : (c.wiring .fine).graph.Reaches f (.main (.rib r.id)) (entry p r.id) := by
    have hcut : f.cuts (.main (.rib r.id)) (entry p r.id) = false :=
      FailureSet.cuts_of_router?_eq (by cases p <;> rfl)
    cases p with
    | ospf => exact reaches_of_isLaid (.fine hmem .ospfLookup) h.rib_mem h.entry_mem hcut
    | bgp => exact reaches_of_isLaid (.fine hmem .bgpLookup) h.rib_mem h.entry_mem hcut
  have hdelivery : (c.wiring .fine).graph.Reaches f (entry p r.id) c.destination := by
    have hcut : f.cuts (entry p r.id) c.destination = false := FailureSet.cuts_of_head rfl
    have hmem' : c.destination ∈ (c.wiring .fine).graph.vertices := destination_mem_vertices
    cases p with
    | ospf => exact reaches_of_isLaid (.fine hmem (.ospfDelivery h.runs hd)) h.entry_mem hmem' hcut
    | bgp => exact reaches_of_isLaid (.fine hmem (.bgpDelivery hd)) h.entry_mem hmem' hcut
  rw [PathGraph.isSome_path?, source_wiring, destination_wiring]
  exact (horigin.trans hlookup).trans hdelivery

/-! ### The coarse graph -/

/-- From the processes of the router packets get to one of its VLANs: over a session with an
adjacent peer, or over OSPF, which they enter from the source or over a session with a distant
peer. -/
def SendsOut (c : Scene) (r : Router) : Prop :=
  (∃ s ∈ r.sessions, c.learnsFrom r s = true ∧ s.localVlan.isSome = true) ∨
    c.ospfEgress r ≠ [] ∧
      (c.ospfTainted r = true ∨ ∃ s ∈ r.sessions, c.learnsFrom r s = true ∧ s.localVlan = none)

/-- The router delivers packets, and they get to one of its VLANs from the source. -/
structure DeliversInside (c : Scene) (r : Router) : Prop where
  router : c.net.router? r.id = some r
  source : r.attaches c.src = true
  delivers : (c.ospfDelivers r || c.bgpDelivers r) = true
  sendsOut : c.SendsOut r

/-- A route over a session is learned by a tainted process. -/
theorem bgpTainted_of_learnsFrom {net : Network} {dst src : Subnet} {s : Session} (hn : net.Linked)
    (h : (net.scene dst src).learnsFrom r s = true) : (net.scene dst src).bgpTainted r = true := by
  obtain ⟨-, r', hid, hruns⟩ := runs_of_propagates src hn h
  have ht := hruns.tainted
  rwa [hid] at ht

/-- Packets that enter a router get to the sessions over which it learns the route. -/
theorem reaches_session {net : Network} {dst src : Subnet} {s : Session} (hn : net.Linked)
    (hr : net.router? r.id = some r) (hsrc : r.attaches src = true) (hs : s ∈ r.sessions)
    (hlearns : (net.scene dst src).learnsFrom r s = true) (f : FailureSet) :
    ((net.scene dst src).wiring .coarse).graph.Reaches f (net.scene dst src).source
      (sessionVertex r s) := by
  have hmem : r ∈ (net.scene dst src).net.routers := List.mem_of_getElem? hr
  exact reaches_of_isLaid (.coarse hmem (.bgpOrigin hs (bgpTainted_of_learnsFrom hn hlearns) hsrc))
    source_mem_vertices (session_mem_coarse hr hs) (FailureSet.cuts_of_tail rfl)

/-- Packets that enter a router get to OSPF if it is tainted, or over a session with a distant
peer. -/
theorem reaches_ospf {net : Network} {dst src : Subnet} (hn : net.Linked)
    (hr : net.router? r.id = some r) (hsrc : r.attaches src = true) (hruns : r.ospf.isSome = true)
    (h : (net.scene dst src).ospfTainted r = true ∨
      ∃ s ∈ r.sessions, (net.scene dst src).learnsFrom r s = true ∧ s.localVlan = none)
    (f : FailureSet) :
    ((net.scene dst src).wiring .coarse).graph.Reaches f (net.scene dst src).source
      (.main (.ospf r.id)) := by
  have hmem : r ∈ (net.scene dst src).net.routers := List.mem_of_getElem? hr
  have hvertex : .main (.ospf r.id) ∈ ((net.scene dst src).wiring .coarse).graph.vertices :=
    mem_coarse_vertices hr (by simp [coarseVerticesOf, hruns])
  rcases h with htaint | ⟨s, hs, hlearns, hlocal⟩
  · exact reaches_of_isLaid (.coarse hmem (.ospfOrigin hruns htaint hsrc)) source_mem_vertices
      hvertex (FailureSet.cuts_of_tail rfl)
  · have hedge := CoarseEdge.dependency (c := net.scene dst src) hs hlearns
    rw [hlocal] at hedge
    exact (reaches_session hn hr hsrc hs hlearns f).trans (reaches_of_isLaid (.coarse hmem hedge)
      (session_mem_coarse hr hs) hvertex (FailureSet.cuts_of_router?_eq rfl))

/-- A VLAN of the router is reached over its edges from a process, whatever has failed. -/
theorem reaches_vlan {net : Network} {dst src : Subnet} (hn : net.Linked)
    (hr : net.router? r.id = some r) (hsrc : r.attaches src = true)
    (h : (net.scene dst src).SendsOut r) (f : FailureSet) :
    ∃ x ∈ r.vlans.values, ((net.scene dst src).wiring .coarse).graph.Reaches f
      (net.scene dst src).source (.main (.vlan x.id)) := by
  have hmem : r ∈ (net.scene dst src).net.routers := List.mem_of_getElem? hr
  rcases h with ⟨s, hs, hlearns, hlocal⟩ | ⟨hegress, hospf⟩
  · obtain ⟨v, hv⟩ := Option.isSome_iff_exists.mp hlocal
    obtain ⟨hrouter, hvlan⟩ := hn.localVlan hr hs hv
    obtain ⟨x, hx, rfl, -⟩ := Network.exists_mem_vlans hn hr hvlan hrouter
    have hedge := CoarseEdge.dependency (c := net.scene dst src) hs hlearns
    rw [hv] at hedge
    refine ⟨x, hx, (reaches_session hn hr hsrc hs hlearns f).trans ?_⟩
    exact reaches_of_isLaid (.coarse hmem hedge) (session_mem_coarse hr hs)
      (vlan_mem_coarse hn hvlan) (FailureSet.cuts_of_router?_eq (congrArg some hrouter.symm))
  · obtain ⟨v, hv⟩ := List.exists_mem_of_ne_nil _ hegress
    obtain ⟨hrouter, hactive, -⟩ := mem_ospfEgress.mp hv
    have hvlan : (net.vlan? v).isSome := by
      have hexists := hn.active hr hactive
      rwa [← hrouter] at hexists
    obtain ⟨x, hx, rfl, -⟩ := Network.exists_mem_vlans hn hr hvlan hrouter
    obtain ⟨o, ho, -⟩ := (Option.any_eq_true _ _).mp hactive
    have hruns : r.ospf.isSome = true := Option.isSome_iff_exists.mpr ⟨o, ho⟩
    refine ⟨x, hx, (reaches_ospf hn hr hsrc hruns hospf f).trans ?_⟩
    exact reaches_of_isLaid (.coarse hmem (.egress hruns hv))
      (mem_coarse_vertices hr (by simp [coarseVerticesOf, hruns])) (vlan_mem_coarse hn hvlan)
      (FailureSet.cuts_of_router?_eq (congrArg some hrouter.symm))

/-- **Packets that get to a VLAN of a router with both subnets are delivered there.** -/
theorem DeliversInside.isSome_path? {net : Network} {dst src : Subnet} (hn : net.Linked)
    (h : (net.scene dst src).DeliversInside r) (f : FailureSet) :
    (((net.scene dst src).wiring .coarse).graph.path? f).isSome := by
  obtain ⟨x, hx, hreach⟩ := reaches_vlan hn h.router h.source h.sendsOut f
  obtain ⟨hvlan, -⟩ := (Network.mem_vlans_of_router? hn h.router).mp hx
  rw [PathGraph.isSome_path?, source_wiring, destination_wiring]
  exact hreach.trans (reaches_of_isLaid
    (.coarse (List.mem_of_getElem? h.router) (.delivery hx h.delivers))
    (vlan_mem_coarse hn (Option.isSome_iff_exists.mpr ⟨x, hvlan⟩)) destination_mem_vertices
    (FailureSet.cuts_of_head rfl))

/-! ### When all links have failed -/

/-- Where packets get to that stay on the router that they enter. -/
inductive Inside (c : Scene) : Vertex → Prop where
  | source : Inside c c.source
  | session {r : Router} {s : Session} : c.net.router? r.id = some r → r.attaches c.src = true →
    s ∈ r.sessions → Inside c (sessionVertex r s)
  | ospf {r : Router} : c.net.router? r.id = some r → r.attaches c.src = true →
    (c.ospfTainted r = true ∨ ∃ s ∈ r.sessions, c.learnsFrom r s = true ∧ s.localVlan = none) →
    Inside c (.main (.ospf r.id))
  | vlan {r : Router} {v : VlanId} : c.net.router? r.id = some r → r.attaches c.src = true →
    c.SendsOut r → v.router = r.id → Inside c (.main (.vlan v))
  | destination {r : Router} : c.DeliversInside r → Inside c c.destination

theorem Inside.attaches (h : c.Inside u) (hr : c.net.router? r.id = some r)
    (hu : u.router? = some r.id) : r.attaches c.src = true := by
  have hsame : ∀ {r' : Router}, c.net.router? r'.id = some r' → some r'.id = some r.id → r' = r :=
    fun hr' hid => Network.eq_of_router? hr' hr (Option.some.inj hid).symm
  cases h with
  | source => cases hu
  | session hr' hsrc _ => exact hsame hr' hu ▸ hsrc
  | ospf hr' hsrc _ => exact hsame hr' hu ▸ hsrc
  | vlan hr' hsrc _ hid => exact hsame hr' ((congrArg some hid).symm.trans hu) ▸ hsrc
  | destination _ => cases hu

theorem Inside.ospf_entered (h : c.Inside (.main (.ospf r.id))) (hr : c.net.router? r.id = some r) :
    c.ospfTainted r = true ∨ ∃ s ∈ r.sessions, c.learnsFrom r s = true ∧ s.localVlan = none := by
  generalize hu : (.main (.ospf r.id) : Vertex) = u at h
  cases h with
  | @ospf r' hr' _ hentered =>
    have hid : r.id = r'.id := by injection hu with _ hkind; injection hkind
    exact Network.eq_of_router? hr' hr hid ▸ hentered
  | _ => cases hu

theorem Inside.sendsOut {v : VlanId} (h : c.Inside (.main (.vlan v)))
    (hr : c.net.router? r.id = some r) (hv : v.router = r.id) : c.SendsOut r := by
  generalize hu : (.main (.vlan v) : Vertex) = u at h
  cases h with
  | @vlan r' _ hr' _ hout hid =>
    cases hu
    exact Network.eq_of_router? hr' hr (hv.symm.trans hid) ▸ hout
  | _ => cases hu

/-- **When all links have failed, packets stay on the router that they enter.** -/
theorem Inside.step (hn : c.net.Linked) (h : c.Inside u)
    (huv : v ∈ (c.wiring .coarse).graph.successors c.net.allLinks u) : c.Inside v := by
  obtain ⟨⟨e, he⟩, -, -, -, hcut⟩ := mem_successors_iff.mp huv
  cases he with
  | @coarse r _ _ _ hmem he =>
    have hr := hn.router?_of_mem hmem
    cases he with
    | @physical x y hx hy =>
      obtain ⟨hvlan, hxr⟩ := (Network.mem_vlans_of_router? hn hr).mp hx
      have hlink := (Network.mem_linkedVlans hn hvlan).mp hy
      obtain ⟨r', -, hr', hid, -⟩ := Network.exists_router_of_vlan hn (hlink.isSome_vlan? hn).2
      have hstay : r.id = y.router := Network.eq_of_not_cuts hcut (congrArg some hxr) rfl
        (Option.isSome_iff_exists.mpr ⟨r, hr⟩) (Option.isSome_iff_exists.mpr ⟨r', hid ▸ hr'⟩)
      exact .vlan hr (h.attaches hr (congrArg some hxr)) (h.sendsOut hr hxr) hstay.symm
    | ospfIngress hx ht =>
      exact .ospf hr (h.attaches hr (router?_of_mem_vlans hn hr hx)) (.inl ht)
    | bgpIngress hx _ hs =>
      exact .session hr (h.attaches hr (router?_of_mem_vlans hn hr hx)) hs
    | delivery hx hd =>
      have hxr := router?_of_mem_vlans hn hr hx
      exact .destination ⟨hr, h.attaches hr hxr, hd, h.sendsOut hr (Option.some.inj hxr)⟩
    | egress _ hy =>
      have hout : c.SendsOut r := .inr ⟨List.ne_nil_of_mem hy, h.ospf_entered hr⟩
      exact .vlan hr (h.attaches hr rfl) hout (mem_ospfEgress.mp hy).1
    | ospfOrigin _ ht hsrc => exact .ospf hr hsrc (.inl ht)
    | redistribution _ _ _ hs => exact .session hr (h.attaches hr rfl) hs
    | bgpOrigin hs _ hsrc => exact .session hr hsrc hs
    | @dependency s hs hlearns =>
      have hsrc := h.attaches hr rfl
      cases hv : s.localVlan with
      | none => exact .ospf hr hsrc (.inr ⟨s, hs, hlearns, hv⟩)
      | some y =>
        have hout : c.SendsOut r := .inl ⟨s, hs, hlearns, by rw [hv]; rfl⟩
        exact .vlan hr hsrc hout (hn.localVlan hr hs hv).1

theorem Inside.of_reaches (hn : c.net.Linked)
    (h : (c.wiring .coarse).graph.Reaches c.net.allLinks c.source u) : c.Inside u := by
  induction h with
  | refl => exact .source
  | tail _ huv ih => exact ih.step hn huv

/-- **A path that no failure cuts is one on a single router.** -/
theorem exists_deliversInside (hn : c.net.Linked)
    (h : ((c.wiring .coarse).graph.path? c.net.allLinks).isSome) : ∃ r, c.DeliversInside r := by
  rw [PathGraph.isSome_path?, source_wiring, destination_wiring] at h
  have hinside := Inside.of_reaches hn h
  generalize hd : c.destination = v at hinside
  cases hinside with
  | destination hr => exact ⟨_, hr⟩
  | _ => cases hd

end Scene

namespace Network

variable {net : Network} {dst src : Subnet}

/-- **Local delivery.** If some router has both subnets attached, and one of its processes
originates the destination, the fine graph has a path whatever links have failed. The coarse graph
has one whatever links have failed exactly if on such a router packets get from the source to a
VLAN. -/
theorem isSome_path?_of_local {cfg : NetworkConfig} (hlink : cfg.link = .ok net) (hne : src ≠ dst)
    (hlocal : ∃ i, net.Attaches i src ∧ net.Delivers i dst) :
    (∃ w, (net.scene dst src).build .fine = .ok w ∧ ∀ f, (w.graph.path? f).isSome) ∧
      ∃ w, (net.scene dst src).build .coarse = .ok w ∧
        ((∀ f, (w.graph.path? f).isSome) ↔ ∃ r, (net.scene dst src).DeliversInside r) := by
  have hn := NetworkConfig.linked_of_link hlink
  obtain ⟨i, ⟨r, hr, hsrc⟩, r', p, hr', hdst, ho⟩ := hlocal
  obtain rfl : r = r' := Option.some.inj (hr.symm.trans hr')
  obtain rfl : r.id = i := hn.id_eq hr
  have hknows : ∀ s, r.attaches s = true → net.knows s = true := fun s hs =>
    List.any_eq_true.mpr ⟨r, List.mem_of_getElem? hr, by simp [hs]⟩
  have hbuild : ∀ variant, (net.scene dst src).build variant =
      .ok ((net.scene dst src).wiring variant) := fun _ =>
    build_scene hne (hknows dst hdst) (hknows src hsrc)
  have hruns := Scene.runs_of_originates src hn hr ho
  refine ⟨⟨_, hbuild .fine, fun f => Scene.isSome_path?_fine_of_local hruns hsrc hdst ho f⟩,
    _, hbuild .coarse, fun h => Scene.exists_deliversInside hn (h _), ?_⟩
  rintro ⟨r, hinside⟩ f
  exact hinside.isSome_path? hn f

/-- A router with both subnets attached, whose OSPF process originates `t`. It has a neighbor that
runs OSPF, or none. -/
def localConfig (withNeighbor : Bool) : NetworkConfig :=
  let r1 := RouterConfig.named "R1" |>.ospfOrigin "t" |>.subnet "s" |>.subnet "t"
  let r1' := r1 |>.iface "R2" (some 1) |>.vlan 1 (Example.block 10 0 12 1) |>.ospfActive 1
  let r2 := RouterConfig.named "R2"
    |>.iface "R1" (some 1) |>.vlan 1 (Example.block 10 0 12 2) |>.ospfActive 1
  { routers := if withNeighbor then [r1', r2] else [r1] }

/-- With a neighbor, both graphs have a path although the link to it has failed. -/
theorem isSome_path?_of_local_neighbor :
    let net := (localConfig true).assemble
    (localConfig true).link = .ok net ∧ "s" ≠ "t" ∧ net.Attaches 0 "s" ∧ net.Delivers 0 "t" ∧
      (∃ w, (net.scene "t" "s").build .fine = .ok w ∧ (w.graph.path? net.allLinks).isSome) ∧
      ∃ w, (net.scene "t" "s").build .coarse = .ok w ∧ (w.graph.path? net.allLinks).isSome := by
  intro net
  have hlink : (localConfig true).link = .ok net := rfl
  have hne : "s" ≠ "t" := by decide
  have hfound : (net.router? 0).any (fun r => decide (r.id = 0) && r.attaches "s" &&
      (net.scene "t" "s").ospfDelivers r && !((net.scene "t" "s").ospfEgress r).isEmpty &&
      (net.scene "t" "s").ospfTainted r) = true := by decide +kernel
  obtain ⟨r, hr, hall⟩ := (Option.any_eq_true _ _).mp hfound
  simp only [Bool.and_eq_true, decide_eq_true_eq, Bool.not_eq_true', List.isEmpty_eq_false_iff]
    at hall
  obtain ⟨⟨⟨⟨hid, hsrc⟩, hd⟩, hegress⟩, htaint⟩ := hall
  have hattaches : net.Attaches 0 "s" := ⟨r, hr, hsrc⟩
  have hdelivers : net.Delivers 0 "t" :=
    ⟨r, .ospf, hr, (Bool.and_eq_true_iff.mp hd).1, (Bool.and_eq_true_iff.mp hd).2⟩
  obtain ⟨⟨w, hw, hfine⟩, w', hw', hcoarse⟩ :=
    isSome_path?_of_local hlink hne ⟨0, hattaches, hdelivers⟩
  have hinside : (net.scene "t" "s").DeliversInside r :=
    ⟨hid.symm ▸ hr, hsrc, by rw [hd]; rfl, .inr ⟨hegress, .inl htaint⟩⟩
  exact ⟨hlink, hne, hattaches, hdelivers, ⟨w, hw, hfine _⟩, w', hw', hcoarse.mpr ⟨r, hinside⟩ _⟩

/-- Without a neighbor, the coarse graph has no path although no link is needed. -/
theorem path?_coarse_eq_none_of_local :
    let net := (localConfig false).assemble
    (localConfig false).link = .ok net ∧ "s" ≠ "t" ∧ net.Attaches 0 "s" ∧ net.Delivers 0 "t" ∧
      ∃ w, (net.scene "t" "s").build .coarse = .ok w ∧ w.graph.path? ∅ = none := by
  intro net
  have hbuild : (net.scene "t" "s").build .coarse = .ok ((net.scene "t" "s").wiring .coarse) :=
    build_scene (by decide) (by decide +kernel) (by decide +kernel)
  have hfound : (net.router? 0).any (fun r => r.attaches "s" &&
      (net.scene "t" "s").ospfDelivers r) = true := by decide +kernel
  obtain ⟨r, hr, hall⟩ := (Option.any_eq_true _ _).mp hfound
  obtain ⟨hsrc, hd⟩ := Bool.and_eq_true_iff.mp hall
  obtain ⟨hdst, ho⟩ := Bool.and_eq_true_iff.mp hd
  refine ⟨rfl, by decide, ⟨r, hr, hsrc⟩, ⟨r, .ospf, hr, hdst, ho⟩, _, hbuild, ?_⟩
  decide +kernel

end Network

end NetReach
