import NetReach.Example
import NetReach.Proofs.GraphPart
import NetReach.Proofs.Reduction

/-! # Failed links and removed links

Taking the interfaces of some links out of a configuration makes a part of the network that has none
of these links (`NetworkConfig.reduced_withoutLinks`, `NetworkConfig.contains_ofNames_of_joined`).
So the ways of this part are open in the whole network while the links have failed, although its
graph was made as if they had not. -/

namespace NetReach

/-- The link between two routers is among those given by name, in either order. -/
def isGiven (names : List (String × String)) (a b : String) : Bool :=
  decide ((a, b) ∈ names) || decide ((b, a) ∈ names)

/-- The router without its interfaces to the given links. -/
def RouterConfig.withoutLinks (names : List (String × String)) (rc : RouterConfig) : RouterConfig :=
  { rc with ifaces := rc.ifaces.filter fun i => !isGiven names rc.name i.neighbor }

/-- The configuration without the interfaces at both ends of the given links. -/
def NetworkConfig.withoutLinks (c : NetworkConfig) (names : List (String × String)) :
    NetworkConfig :=
  { c with routers := c.routers.map (·.withoutLinks names) }

theorem isGiven_comm (names : List (String × String)) (a b : String) :
    isGiven names a b = isGiven names b a :=
  Bool.or_comm _ _

namespace FailureSet

variable {net : Network} {names : List (String × String)} {i j : RouterId}

theorem mem_ofNames : (i, j) ∈ (ofNames net names).pairs ↔
    ∃ a b, (a, b) ∈ names ∧ net.routerId? a = some i ∧ net.routerId? b = some j := by
  simp only [ofNames, List.mem_filterMap, Prod.exists]
  constructor
  · rintro ⟨a, b, hmem, h⟩
    split at h
    · next ha hb =>
      cases h
      exact ⟨a, b, hmem, ha, hb⟩
    · cases h
  · rintro ⟨a, b, hmem, ha, hb⟩
    exact ⟨a, b, hmem, by simp only [ha, hb]⟩

end FailureSet

namespace RouterConfig

variable {rc : RouterConfig} {names : List (String × String)} {i : InterfaceConfig}

theorem mem_ifaces_withoutLinks : i ∈ (rc.withoutLinks names).ifaces ↔
    i ∈ rc.ifaces ∧ isGiven names rc.name i.neighbor = false := by
  simp [withoutLinks]

theorem reduced_withoutLinks : (rc.withoutLinks names).Reduced rc where
  name := rfl
  vlans := rfl
  subnets := rfl
  ifaces := List.filter_sublist
  ospf := by
    change Option.Rel _ rc.ospf rc.ospf
    cases rc.ospf with
    | none => exact .none
    | some o => exact .some ⟨rfl, .refl _, .refl _⟩
  bgp := by
    change Option.Rel _ rc.bgp rc.bgp
    cases rc.bgp with
    | none => exact .none
    | some b => exact .some ⟨rfl, .refl _, .refl _, .refl _⟩

end RouterConfig

namespace NetworkConfig

variable {c : NetworkConfig} {net net' : Network} {names : List (String × String)} {i j : RouterId}

theorem getElem?_withoutLinks :
    (c.withoutLinks names).routers[i]? = c.routers[i]?.map (·.withoutLinks names) :=
  List.getElem?_map

/-- **Interfaces are taken out at both ends.** -/
theorem reduced_withoutLinks : (c.withoutLinks names).Reduced c where
  policies := rfl
  router := by
    intro i
    rw [getElem?_withoutLinks]
    cases c.routers[i]? with
    | none => exact .none
    | some rc => exact .some RouterConfig.reduced_withoutLinks
  paired := by
    intro j rc' nc' nc hrc' hnc' hnc hmem k hk hname
    obtain ⟨rc, -, rfl⟩ := List.mem_map.mp hrc'
    rw [getElem?_withoutLinks, hnc] at hnc'
    cases hnc'
    obtain ⟨ic, hic, hneighbor⟩ := List.mem_map.mp hmem
    obtain ⟨-, hgiven⟩ := RouterConfig.mem_ifaces_withoutLinks.mp hic
    refine RouterConfig.mem_ifaces_withoutLinks.mpr ⟨hk, ?_⟩
    rw [hname, isGiven_comm, ← hneighbor]
    exact hgiven

/-- **What is left has none of the failed links.** -/
theorem contains_ofNames_of_joined (hlink : c.link = .ok net)
    (hlink' : (c.withoutLinks names).link = .ok net') (h : net'.Joined i j) :
    (FailureSet.ofNames net names).contains i j = false := by
  obtain ⟨hc, rfl⟩ := link_eq_ok.mp hlink
  obtain ⟨hc', rfl⟩ := link_eq_ok.mp hlink'
  obtain ⟨k, -, hk, -⟩ := h.1
  obtain ⟨rc', hrc', hmem, hkj⟩ := (iface?_assemble hc').mp hk
  rw [getElem?_withoutLinks] at hrc'
  obtain ⟨rc, hrc, rfl⟩ := Option.map_eq_some_iff.mp hrc'
  obtain ⟨ic, hic, hidx, -⟩ := RouterConfig.mem_linkIfaces.mp hmem
  obtain ⟨-, hgiven⟩ := RouterConfig.mem_ifaces_withoutLinks.mp hic
  rw [reduced_withoutLinks.names_eq, hkj] at hidx
  -- a failed link is given by the names of the two routers
  have hnames : ∀ {a b}, c.assemble.routerId? a = some i → c.assemble.routerId? b = some j →
      a = rc.name ∧ b = ic.neighbor := by
    intro a b ha hb
    rw [routerId?_assemble] at ha hb
    obtain ⟨rc₁, hrc₁, rfl⟩ := (idxOf?_names hc.names).mp ha
    obtain ⟨nc, hnc, rfl⟩ := (idxOf?_names hc.names).mp hb
    cases hrc.symm.trans hrc₁
    exact ⟨rfl, name_of_idxOf? hnc hidx⟩
  have hgiven' : (rc.name, ic.neighbor) ∉ names ∧ (ic.neighbor, rc.name) ∉ names := by
    simpa [isGiven] using hgiven
  simp only [FailureSet.contains, Bool.or_eq_false_iff, decide_eq_false_iff_not,
    FailureSet.mem_ofNames]
  constructor
  · rintro ⟨a, b, hab, ha, hb⟩
    obtain ⟨rfl, rfl⟩ := hnames ha hb
    exact hgiven'.1 hab
  · rintro ⟨b, a, hba, hb, ha⟩
    obtain ⟨rfl, rfl⟩ := hnames ha hb
    exact hgiven'.2 hba

end NetworkConfig

namespace Network

variable {net net' : Network} {dst src : Subnet} {variant : Variant}

/-- Where a graph is made, the subnets differ, and the network knows them. -/
theorem knows_of_build {g : Wiring} (h : (net.scene dst src).build variant = .ok g) :
    src ≠ dst ∧ net.knows dst = true ∧ net.knows src = true := by
  have herror : (net.scene dst src).error? = none := by
    unfold Scene.build at h
    split at h
    · cases h
    · assumption
  obtain ⟨hne, hknown⟩ := error?_scene_eq_none.mp herror
  exact ⟨hne.symm, hknown⟩

/-- **A path that is left once the links are removed is found while they have failed**: a
configuration that links still does so without the links, and if the graph of what is left has a
path, then the graph of the whole network has one that avoids the failed links. -/
theorem isSome_path?_of_withoutLinks {c : NetworkConfig} (hlink : c.link = .ok net)
    (names : List (String × String)) :
    ∃ net', (c.withoutLinks names).link = .ok net' ∧
      ∀ variant dst src, net'.HasPath variant dst src →
        ∃ g, (net.scene dst src).build variant = .ok g ∧
          (g.graph.path? (.ofNames net names)).isSome := by
  obtain ⟨net', hlink', hpart⟩ :=
    NetworkConfig.exists_part_of_link NetworkConfig.reduced_withoutLinks hlink
  refine ⟨net', hlink', fun variant dst src hpath => ?_⟩
  obtain ⟨g', hg', hpath⟩ := hpath
  have hn := NetworkConfig.linked_of_link hlink
  have hn' := NetworkConfig.linked_of_link hlink'
  have hfirst := NetworkConfig.externalFirst_of_link hlink
  obtain ⟨hne, hdst, hsrc⟩ := knows_of_build hg'
  obtain rfl := Scene.eq_wiring_of_build hg'
  refine ⟨_, build_scene hne (hpart.knows hn' hdst) (hpart.knows hn' hsrc), ?_⟩
  refine (Scene.embeds_scene hpart hn' hn hfirst dst src).isSome_path? (fun hj => ?_) hpath
  exact NetworkConfig.contains_ofNames_of_joined hlink hlink' hj

/-- Without the link to the fourth router, the third one of the iBGP mesh still reaches the other
autonomous system, and it does so while the link has failed. -/
theorem isSome_path?_of_withoutLinks_ibgpMesh :
    let names := [("R4", "R3")]
    ∃ net net', Example.ibgpMeshConfig.link = .ok net ∧
      (Example.ibgpMeshConfig.withoutLinks names).link = .ok net' ∧ net'.HasPath .fine "t" "s3" ∧
      ∃ g, (net.scene "t" "s3").build .fine = .ok g ∧
        (g.graph.path? (.ofNames net names)).isSome := by
  intro names
  have hlink : Example.ibgpMeshConfig.link = .ok Example.ibgpMeshConfig.assemble := rfl
  obtain ⟨net', hlink', hall⟩ := isSome_path?_of_withoutLinks hlink names
  have hnet' : net' = (Example.ibgpMeshConfig.withoutLinks names).assemble :=
    (NetworkConfig.link_eq_ok.mp hlink').2
  have hpath : net'.HasPath .fine "t" "s3" := by
    subst hnet'
    refine ⟨_, build_scene (by decide) (by decide +kernel) (by decide +kernel), ?_⟩
    decide +kernel
  exact ⟨_, net', hlink, hlink', hpath, hall .fine "t" "s3" hpath⟩

end Network

end NetReach
