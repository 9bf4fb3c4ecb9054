import NetReach.Proofs.CoarseWays
import NetReach.Proofs.FineWays

/-! # Control plane and path graphs agree

In a network that is linked and coherent, the fine graph has a path exactly if a router with the
source attached runs a process that is tainted for the destination (`Network.Learns`). The coarse
graph says the same, unless a router has both subnets attached. -/

namespace NetReach.Network

variable {net : Network} {dst src : Subnet} {variant : Variant} {p : Protocol} {r : Router}

/-- A router with the source attached runs a process that can learn a route to the destination. -/
def Learns (net : Network) (dst src : Subnet) : Prop :=
  ∃ i r p, net.router? i = some r ∧ r.attaches src = true ∧
    (net.scene dst src).taint.isTainted ⟨p, i⟩ = true

/-- The graph of the variant is made, and while no link has failed it has a path. -/
def HasPath (net : Network) (variant : Variant) (dst src : Subnet) : Prop :=
  ∃ g, (net.scene dst src).build variant = .ok g ∧ (g.graph.path? ∅).isSome

/-- A graph is refused for the subnets alone. -/
theorem error?_scene (net : Network) (dst src : Subnet) : (net.scene dst src).error? =
    if dst = src then some (.identicalEndpoints dst)
    else if !net.knows dst then some (.unknownSubnet dst)
    else if !net.knows src then some (.unknownSubnet src) else none := by
  simp [Scene.error?, scene, sceneFor, TaintGraph.taint, TaintGraph.ofNetwork]

theorem error?_scene_eq_none : (net.scene dst src).error? = none ↔
    dst ≠ src ∧ net.knows dst = true ∧ net.knows src = true := by
  rw [error?_scene]
  split_ifs <;> simp_all

theorem build_scene (hne : src ≠ dst) (hdst : net.knows dst = true) (hsrc : net.knows src = true) :
    (net.scene dst src).build variant = .ok ((net.scene dst src).wiring variant) :=
  Scene.build_of_error?_eq_none (error?_scene_eq_none.mpr ⟨hne.symm, hdst, hsrc⟩)

theorem isSome_path?_scene : (((net.scene dst src).wiring variant).graph.path? ∅).isSome ↔
    (net.scene dst src).Way variant (net.scene dst src).source (net.scene dst src).destination := by
  rw [PathGraph.isSome_path?, Scene.source_wiring, Scene.destination_wiring]

/-- What forwards to the destination ends where a process originates it. -/
theorem knows_of_forwards (h : (net.scene dst src).Forwards p r) : net.knows dst = true := by
  induction h with
  | @deliver p r h ha _ =>
    refine List.any_eq_true.mpr ⟨r, List.mem_of_getElem? h.router, ?_⟩
    rw [Bool.or_eq_true_iff, Bool.or_eq_true_iff]
    exact Or.inl (Or.inl ha)
  | ospfFromBgp _ _ _ ih => exact ih
  | bgpFromOspf _ _ _ ih => exact ih
  | adjacency _ _ _ _ _ _ ih => exact ih
  | session _ _ _ _ _ _ _ ih => exact ih

/-- Where a route is learned, the process that learns it forwards to the destination. -/
theorem Learns.forwards (hn : net.Linked) (hc : net.Coherent dst) (h : net.Learns dst src) :
    ∃ r p, r.attaches src = true ∧ (net.scene dst src).Forwards p r := by
  obtain ⟨i, r, p, hr, ha, ht⟩ := h
  obtain ⟨r', hid, hfwd⟩ := Scene.forwards_of_isTainted hn hc ht
  obtain rfl := eq_of_router? hr hfwd.runs.router hid
  exact ⟨r, p, ha, hfwd⟩

/-- A variant says where routes are learned, if its graph has a way exactly then. -/
theorem hasPath_iff (hn : net.Linked) (hc : net.Coherent dst) (hne : src ≠ dst)
    (hsrc : net.knows src = true)
    (hway : net.Learns dst src ↔ (net.scene dst src).Way variant (net.scene dst src).source
      (net.scene dst src).destination) :
    net.HasPath variant dst src ↔ net.Learns dst src := by
  constructor
  · rintro ⟨g, hg, hpath⟩
    obtain rfl := Scene.eq_wiring_of_build hg
    exact hway.mpr (isSome_path?_scene.mp hpath)
  · intro h
    obtain ⟨r, p, -, hfwd⟩ := h.forwards hn hc
    exact ⟨_, build_scene hne (knows_of_forwards hfwd) hsrc, isSome_path?_scene.mpr (hway.mp h)⟩

/-- **The control plane and the path graphs agree**, in a linked network whose routers agree about
the destination and about their sessions: the fine graph has a path exactly if a router with the
source attached runs a tainted process, and so has the coarse graph, if no router has both subnets
attached. The graphs are made whenever the network knows the destination. -/
theorem hasPath_iff_learns {c : NetworkConfig} (hlink : c.link = .ok net) (hc : net.Coherent dst)
    (hne : src ≠ dst) (hsrc : net.knows src = true) :
    (net.HasPath .fine dst src ↔ net.Learns dst src) ∧
    ((∀ i r, net.router? i = some r → ¬ (r.attaches src = true ∧ r.attaches dst = true)) →
      (net.HasPath .coarse dst src ↔ net.Learns dst src)) ∧
    (net.knows dst = true → ∀ variant, ∃ g, (net.scene dst src).build variant = .ok g) := by
  have hn := NetworkConfig.linked_of_link hlink
  refine ⟨?_, fun hdis => ?_, fun hdst variant => ⟨_, build_scene hne hdst hsrc⟩⟩
  · refine hasPath_iff hn hc hne hsrc ⟨fun h => ?_, Scene.learns_of_fine_way hn⟩
    obtain ⟨r, p, ha, hfwd⟩ := h.forwards hn hc
    exact hfwd.fine_way_source hn ha
  · refine hasPath_iff hn hc hne hsrc ⟨fun h => ?_, Scene.learns_of_coarse_way hn⟩
    obtain ⟨r, p, ha, hfwd⟩ := h.forwards hn hc
    refine hfwd.coarse_way_source hn ha (Bool.eq_false_iff.mpr fun hd => ?_)
    exact hdis r.id r hfwd.runs.router ⟨ha, hd⟩

/-- In the line of three autonomous systems, the routes of the last reach the first. -/
theorem hasPath_iff_learns_taggedPolicy :
    ∃ net, (Example.taggedPolicyConfig false).link = .ok net ∧ net.Coherent "t" ∧
      "s" ≠ "t" ∧ net.knows "s" = true ∧ net.HasPath .fine "t" "s" ∧
      net.HasPath .coarse "t" "s" := by
  let net := (Example.taggedPolicyConfig false).assemble
  have hlink : (Example.taggedPolicyConfig false).link = .ok net := rfl
  have hn := NetworkConfig.linked_of_link hlink
  have hattached : ∀ r ∈ net.routers, (r.ospfOriginates "t" || r.bgpOriginates "t") = true →
      r.attaches "t" = true := by decide +kernel
  have hback : ∀ r ∈ net.routers, ∀ s ∈ r.sessions,
      ((net.router? s.peer).any fun r' => r'.sessions.any (·.peer = r.id)) = true := by
    decide +kernel
  have hadjacent : ∀ r ∈ net.routers, ∀ s ∈ r.sessions,
      (s.localVlan.any fun v => (Layer2.ofNetwork net).isAdjacent v s.peerVlan) = true := by
    decide +kernel
  have hc : net.Coherent "t" := by
    refine ⟨fun {i r p} hr ho => ?_, fun {i r s} hr hs => ?_, fun {i r s} hr hs => ?_⟩
    · refine hattached r (List.mem_of_getElem? hr) (Bool.or_eq_true_iff.mpr ?_)
      cases p with
      | ospf => exact Or.inl ho
      | bgp => exact Or.inr ho
    · obtain ⟨r', hr', h⟩ :=
        (Option.any_eq_true _ _).mp (hback r (List.mem_of_getElem? hr) s hs)
      obtain ⟨s', hs', hpeer⟩ := List.any_eq_true.mp h
      exact ⟨r', s', hr', hs', (of_decide_eq_true hpeer).trans (hn.id_eq hr)⟩
    · exact (Option.any_eq_true _ _).mp (hadjacent r (List.mem_of_getElem? hr) s hs)
  have hknows : net.knows "s" = true := by decide +kernel
  have hdis : ∀ r ∈ net.routers, ¬ (r.attaches "s" = true ∧ r.attaches "t" = true) := by
    decide +kernel
  have hlearns : net.Learns "t" "s" := by
    have hattaches : ((net.router? 0).any (·.attaches "s")) = true := by decide +kernel
    obtain ⟨r, hr, ha⟩ := (Option.any_eq_true _ _).mp hattaches
    exact ⟨0, r, .bgp, hr, ha, by decide +kernel⟩
  have hne : "s" ≠ "t" := by decide
  obtain ⟨hfine, hcoarse, -⟩ := hasPath_iff_learns hlink hc hne hknows
  exact ⟨net, hlink, hc, hne, hknows, hfine.mpr hlearns,
    (hcoarse fun i r hr => hdis r (List.mem_of_getElem? hr)).mpr hlearns⟩

end NetReach.Network
