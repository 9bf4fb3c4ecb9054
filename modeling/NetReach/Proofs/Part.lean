import NetReach.Proofs.Layer2
import NetReach.Proofs.Renaming
import NetReach.Proofs.TaintWalk

/-! # Parts of a network

One network is a *part* of another (`Network.Part`) if they have the same routers with the same
VLANs and processes, and the other one has every link, every session, every VLAN on which OSPF is
active, and all redistribution of the first. The identifiers of the routers may differ: they are
renamed by an injective map `φ`. Chains and adjacent VLANs of a part are those of the whole
(`Part.chain`, `Part.mem_adjacent`). -/

namespace NetReach

variable {φ : RouterId ↪ RouterId}

/-- The routers run the same processes, which originate the same subnets, and what the first one
does beyond that the other one does as well. -/
structure Router.Part (φ : RouterId ↪ RouterId) (r' r : Router) : Prop where
  id : r.id = φ r'.id
  runs : ∀ p, r'.runs p = r.runs p
  originates : ∀ s p, r'.originates s p = r.originates s p
  subnets : r'.subnets = r.subnets
  active : ∀ {num}, r'.ospfActive num = true → r.ospfActive num = true
  ospfFromBgp : r'.ospfFromBgp = true → r.ospfFromBgp = true
  bgpFromOspf : r'.bgpFromOspf = true → r.bgpFromOspf = true
  sessions : ∀ {s}, s ∈ r'.sessions → s.rename φ ∈ r.sessions

/-- The networks have the same routers with the same VLANs, and the other one has what the first one
has. -/
structure Network.Part (φ : RouterId ↪ RouterId) (net' net : Network) : Prop where
  router : ∀ {i r'}, net'.router? i = some r' → ∃ r, net.router? (φ i) = some r ∧ r'.Part φ r
  all : ∀ {i r}, net.router? (φ i) = some r → ∃ r', net'.router? i = some r'
  vlan : ∀ {v}, (net'.vlan? v).isSome → (net.vlan? (v.rename φ)).isSome
  link : ∀ {v w}, net'.Link v w → net.Link (v.rename φ) (w.rename φ)

namespace Router

variable {r' r : Router} {s : Subnet}

theorem isSwitch_eq (r : Router) : r.isSwitch = (!r.runs .ospf && !r.runs .bgp) := by
  cases ho : r.ospf <;> cases hb : r.bgp <;> simp [isSwitch, runs, ho, hb]

namespace Part

theorem isSwitch (h : r'.Part φ r) : r'.isSwitch = r.isSwitch := by
  rw [isSwitch_eq, isSwitch_eq, h.runs, h.runs]

theorem ospf (h : r'.Part φ r) : r'.ospf.isSome = r.ospf.isSome := h.runs .ospf

theorem bgp (h : r'.Part φ r) : r'.bgp.isSome = r.bgp.isSome := h.runs .bgp

theorem attaches (h : r'.Part φ r) : r'.attaches s = r.attaches s := by
  rw [Router.attaches, Router.attaches, h.subnets]

end Part

end Router

namespace Network.Part

variable {net' net : Network} {i : RouterId} {r' : Router} {x' : Vlan} {v w : VlanId} {s : Subnet}

theorem isSwitch (h : net'.Part φ net) (hs : net'.isSwitch i = true) :
    net.isSwitch (φ i) = true := by
  obtain ⟨r', hr', hs⟩ := (Option.any_eq_true _ _).mp hs
  obtain ⟨r, hr, hpart⟩ := h.router hr'
  refine (Option.any_eq_true _ _).mpr ⟨r, hr, ?_⟩
  rw [← hpart.isSwitch]
  exact hs

theorem ospfActive (h : net'.Part φ net) (ha : net'.ospfActive v = true) :
    net.ospfActive (v.rename φ) = true := by
  obtain ⟨r', hr', ha⟩ := (Option.any_eq_true _ _).mp ha
  obtain ⟨r, hr, hpart⟩ := h.router hr'
  exact (Option.any_eq_true _ _).mpr ⟨r, hr, hpart.active ha⟩

theorem originates (h : net'.Part φ net) {p : Process} (ho : net.Originates (p.rename φ) s) :
    net'.Originates p s := by
  obtain ⟨r, hr, ho⟩ := ho
  obtain ⟨r', hr'⟩ := h.all hr
  obtain ⟨r₁, hr₁, hpart⟩ := h.router hr'
  cases hr.symm.trans hr₁
  exact ⟨r', hr', by rw [hpart.originates]; exact ho⟩

theorem mem_routers (h : net'.Part φ net) (hn' : net'.Linked) (hr' : r' ∈ net'.routers) :
    ∃ r ∈ net.routers, net.router? r.id = some r ∧ r'.Part φ r := by
  obtain ⟨r, hr, hpart⟩ := h.router (hn'.router?_of_mem hr')
  refine ⟨r, List.mem_of_getElem? hr, ?_, hpart⟩
  rw [hpart.id]
  exact hr

theorem knows (h : net'.Part φ net) (hn' : net'.Linked) (hs : net'.knows s = true) :
    net.knows s = true := by
  obtain ⟨r', hr', hs⟩ := List.any_eq_true.mp hs
  obtain ⟨r, hr, -, hpart⟩ := h.mem_routers hn' hr'
  refine List.any_eq_true.mpr ⟨r, hr, ?_⟩
  rw [← hpart.attaches (s := s)]
  have hospf : r'.ospfOriginates s = r.ospfOriginates s := hpart.originates s .ospf
  have hbgp : r'.bgpOriginates s = r.bgpOriginates s := hpart.originates s .bgp
  rw [← hospf, ← hbgp]
  exact hs

/-! ### Links -/

theorem chain (h : net'.Part φ net) (hc : net'.Chain v w) :
    net.Chain (v.rename φ) (w.rename φ) := by
  induction hc with
  | link hl => exact .link (h.link hl)
  | cons hl hs _ ih => exact .cons (h.link hl) (h.isSwitch hs) ih

theorem mem_adjacent (h : net'.Part φ net) (hn' : net'.Linked) (hn : net.Linked)
    (hw : w ∈ (Layer2.ofNetwork net').adjacent v) :
    w.rename φ ∈ (Layer2.ofNetwork net).adjacent (v.rename φ) := by
  obtain ⟨hc, hne⟩ := (Network.mem_adjacent hn').mp hw
  exact (Network.mem_adjacent hn).mpr ⟨h.chain hc, φ.injective.ne hne⟩

/-- A VLAN of a router is one of the router in the whole network, with all its links. -/
theorem exists_vlan (h : net'.Part φ net) (hn' : net'.Linked) (hn : net.Linked) {r : Router}
    (hr' : net'.router? r'.id = some r') (hr : net.router? r.id = some r) (hpart : r'.Part φ r)
    (hx' : x' ∈ r'.vlans.values) :
    ∃ x ∈ r.vlans.values, x.id = x'.id.rename φ ∧
      ∀ y ∈ net'.linkedVlans x', y.rename φ ∈ net.linkedVlans x := by
  obtain ⟨hvlan', hid⟩ := (mem_vlans_of_router? hn' hr').mp hx'
  have hknown : (net.vlan? (x'.id.rename φ)).isSome := h.vlan (by rw [hvlan']; rfl)
  have hrouter : (x'.id.rename φ).router = r.id := by
    rw [VlanId.router_rename, hid, hpart.id]
  obtain ⟨x, hx, hxid, hvlan⟩ := exists_mem_vlans hn hr hknown hrouter
  refine ⟨x, hx, hxid, fun y hy => ?_⟩
  exact (mem_linkedVlans hn hvlan).mpr (h.link ((mem_linkedVlans hn' hvlan').mp hy))

end Network.Part

end NetReach
