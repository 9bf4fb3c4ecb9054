import Mathlib.Data.List.Duplicate
import Mathlib.Data.List.Pairwise
import Mathlib.Data.List.Perm.Basic
import NetReach.Proofs.References

/-! # Which configurations link

A configuration is *well formed* (`NetworkConfig.WellFormed`) if all its references can be resolved
and no two entries collide. What a link error says is a fault of the configuration
(`LinkError.Holds`), which no well-formed one has (`LinkError.Holds.not_wellFormed`). Every search
for a fault reports one that holds, given that the searches before it found none
(`NetworkConfig.holds_of_linkError?`), and if no search finds any, the configuration is well formed
(`NetworkConfig.Consistent.wellFormed`). -/

namespace NetReach

/-! ### Well-formed configurations -/

/-- The neighbours of the BGP process of the router. -/
def RouterConfig.peers (r : RouterConfig) : List NeighborConfig :=
  r.bgp.elim [] fun b => b.external ++ b.internal

/-- A VLAN of the router carries the address. -/
def RouterConfig.Carries (r : RouterConfig) (a : IpAddr) : Prop := ∃ v ∈ r.vlans, v.addr.addr = a

/-- The neighbour names the policy for one of the two directions. -/
def NeighborConfig.Names (n : NeighborConfig) (policy : String) : Prop :=
  n.importPolicy = some policy ∨ n.exportPolicy = some policy

/-- The entries of the router do not collide, and what they refer to is part of the
configuration. -/
structure RouterConfig.WellFormed (c : NetworkConfig) (r : RouterConfig) : Prop where
  vlans : (r.vlans.map (·.num)).Nodup
  /-- Interfaces lead to other routers, to each of them at most once. -/
  neighbor : ∀ i ∈ r.ifaces, i.neighbor ≠ r.name ∧ ∃ n ∈ c.routers, n.name = i.neighbor
  neighbors : (r.ifaces.map (·.neighbor)).Nodup
  ifaceVlan : ∀ i ∈ r.ifaces, ∀ num, i.vlan = some num → num ∈ r.vlans.map (·.num)
  active : ∀ o, r.ospf = some o → ∀ num ∈ o.active, num ∈ r.vlans.map (·.num)
  /-- The neighbour has an interface that leads back, and both or neither belong to a VLAN. -/
  paired : ∀ i ∈ r.ifaces, ∀ n ∈ c.routers, n.name = i.neighbor →
    ∃ j ∈ n.ifaces, j.neighbor = r.name ∧ j.vlan.isSome = i.vlan.isSome
  /-- The address of a BGP neighbour is that of another router, which runs BGP. -/
  peer : ∀ n ∈ r.peers, ∃ p ∈ c.routers, p.name ≠ r.name ∧ p.bgp.isSome = true ∧ p.Carries n.addr
  policy : ∀ n ∈ r.peers, ∀ name, n.Names name → c.policies.contains name = true
  ospfFromBgp : ∀ o, r.ospf = some o → .bgp ∈ o.redistribute → r.bgp.isSome = true
  bgpFromOspf : ∀ b, r.bgp = some b → .ospf ∈ b.redistribute → r.ospf.isSome = true

/-- The references of the configuration can all be resolved. -/
structure NetworkConfig.WellFormed (c : NetworkConfig) : Prop where
  names : (c.routers.map (·.name)).Nodup
  addresses : ((c.routers.flatMap (·.vlans)).map (·.addr.addr)).Nodup
  routers : ∀ r ∈ c.routers, r.WellFormed c

/-! ### Faults -/

namespace LinkError

/-- The configuration has the fault that the error tells of. -/
def Holds (c : NetworkConfig) : LinkError → Prop
  | duplicateRouter name => (c.routers.map (·.name)).Duplicate name
  | duplicateVlan router num => ∃ r ∈ c.routers, r.name = router ∧
    (r.vlans.map (·.num)).Duplicate num
  | unknownNeighbor router neighbor => ∃ r ∈ c.routers, r.name = router ∧
    neighbor ∈ r.ifaces.map (·.neighbor) ∧ neighbor ∉ c.routers.map (·.name)
  | selfInterface router => ∃ r ∈ c.routers, r.name = router ∧
    router ∈ r.ifaces.map (·.neighbor)
  | duplicateInterface router neighbor => ∃ r ∈ c.routers, r.name = router ∧
    (r.ifaces.map (·.neighbor)).Duplicate neighbor
  | unpairedInterface router neighbor => ∃ r ∈ c.routers, r.name = router ∧
    neighbor ∈ r.ifaces.map (·.neighbor) ∧
    ∃ n ∈ c.routers, n.name = neighbor ∧ router ∉ n.ifaces.map (·.neighbor)
  | inconsistentVlanMembership router neighbor => ∃ r ∈ c.routers, r.name = router ∧
    ∃ n ∈ c.routers, n.name = neighbor ∧ ∃ i ∈ r.ifaces, i.neighbor = neighbor ∧
    ∃ j ∈ n.ifaces, j.neighbor = router ∧ i.vlan.isSome ≠ j.vlan.isSome
  | duplicateAddress router addr => ∃ r ∈ c.routers, r.name = router ∧ r.Carries addr ∧
    ((c.routers.flatMap (·.vlans)).map (·.addr.addr)).Duplicate addr
  | unknownVlan router num => ∃ r ∈ c.routers, r.name = router ∧ num ∉ r.vlans.map (·.num) ∧
    ((∃ i ∈ r.ifaces, i.vlan = some num) ∨ ∃ o, r.ospf = some o ∧ num ∈ o.active)
  | unknownBgpPeer router addr => ∃ r ∈ c.routers, r.name = router ∧
    (∃ n ∈ r.peers, n.addr = addr) ∧ ∀ p ∈ c.routers, p.name ≠ router → ¬ p.Carries addr
  | peerWithoutBgp router peer => ∃ r ∈ c.routers, r.name = router ∧
    ∃ p ∈ c.routers, p.name = peer ∧ peer ≠ router ∧ p.bgp = none ∧
    ∃ n ∈ r.peers, p.Carries n.addr
  | unknownPolicy router policy => ∃ r ∈ c.routers, r.name = router ∧
    (∃ n ∈ r.peers, n.Names policy) ∧ c.policies.contains policy = false
  | invalidRedistribution router .bgp => ∃ r ∈ c.routers, r.name = router ∧
    (∃ o, r.ospf = some o ∧ .bgp ∈ o.redistribute) ∧ r.bgp = none
  | invalidRedistribution router .ospf => ∃ r ∈ c.routers, r.name = router ∧
    (∃ b, r.bgp = some b ∧ .ospf ∈ b.redistribute) ∧ r.ospf = none

end LinkError

namespace NetworkConfig

variable {c : NetworkConfig} {r p : RouterConfig} {a : IpAddr} {e : LinkError}

/-- If no address comes twice, two routers that carry it are the same. -/
theorem eq_of_carries (h : ((c.routers.flatMap (·.vlans)).map (·.addr.addr)).Nodup)
    (hr : r ∈ c.routers) (hp : p ∈ c.routers) (hra : r.Carries a) (hpa : p.Carries a) : r = p := by
  by_contra hne
  rw [List.map_flatMap, List.nodup_flatMap] at h
  have : Std.Symm (Function.onFun List.Disjoint fun r : RouterConfig =>
      r.vlans.map (·.addr.addr)) := ⟨fun _ _ hd => List.disjoint_symm hd⟩
  exact h.2.forall hr hp hne (List.mem_map.mpr hra) (List.mem_map.mpr hpa)

end NetworkConfig

/-- **A configuration with a fault is not well formed.** -/
theorem LinkError.Holds.not_wellFormed {c : NetworkConfig} {e : LinkError} (h : e.Holds c) :
    ¬ c.WellFormed := by
  intro hc
  cases e with
  | duplicateRouter name => exact h.not_nodup hc.names
  | duplicateVlan router num =>
    obtain ⟨r, hr, -, hdup⟩ := h
    exact hdup.not_nodup (hc.routers r hr).vlans
  | unknownNeighbor router neighbor =>
    obtain ⟨r, hr, -, hn, hunknown⟩ := h
    obtain ⟨i, hi, rfl⟩ := List.mem_map.mp hn
    exact hunknown (List.mem_map.mpr ((hc.routers r hr).neighbor i hi).2)
  | selfInterface router =>
    obtain ⟨r, hr, rfl, hn⟩ := h
    obtain ⟨i, hi, hself⟩ := List.mem_map.mp hn
    exact ((hc.routers r hr).neighbor i hi).1 hself
  | duplicateInterface router neighbor =>
    obtain ⟨r, hr, -, hdup⟩ := h
    exact hdup.not_nodup (hc.routers r hr).neighbors
  | unpairedInterface router neighbor =>
    obtain ⟨r, hr, rfl, hi, n, hn, rfl, hback⟩ := h
    obtain ⟨i, hi, hin⟩ := List.mem_map.mp hi
    obtain ⟨j, hj, hjr, -⟩ := (hc.routers r hr).paired i hi n hn hin.symm
    exact hback (List.mem_map.mpr ⟨j, hj, hjr⟩)
  | inconsistentVlanMembership router neighbor =>
    obtain ⟨r, hr, rfl, n, hn, rfl, i, hi, hin, j, hj, hjr, hne⟩ := h
    obtain ⟨k, hk, hkr, hvlan⟩ := (hc.routers r hr).paired i hi n hn hin.symm
    obtain rfl : j = k :=
      List.inj_on_of_nodup_map (hc.routers n hn).neighbors hj hk (hjr.trans hkr.symm)
    exact hne hvlan.symm
  | duplicateAddress router addr =>
    obtain ⟨_, -, -, -, hdup⟩ := h
    exact hdup.not_nodup hc.addresses
  | unknownVlan router num =>
    obtain ⟨r, hr, -, hunknown, ⟨i, hi, hnum⟩ | ⟨o, ho, hnum⟩⟩ := h
    · exact hunknown ((hc.routers r hr).ifaceVlan i hi num hnum)
    · exact hunknown ((hc.routers r hr).active o ho num hnum)
  | unknownBgpPeer router addr =>
    obtain ⟨r, hr, rfl, ⟨n, hn, rfl⟩, hnone⟩ := h
    obtain ⟨p, hp, hne, -, hcarries⟩ := (hc.routers r hr).peer n hn
    exact hnone p hp hne hcarries
  | peerWithoutBgp router peer =>
    obtain ⟨r, hr, rfl, p, hp, rfl, -, hbgp, n, hn, hcarries⟩ := h
    obtain ⟨q, hq, -, hqbgp, hqcarries⟩ := (hc.routers r hr).peer n hn
    rw [NetworkConfig.eq_of_carries hc.addresses hq hp hqcarries hcarries, hbgp] at hqbgp
    cases hqbgp
  | unknownPolicy router policy =>
    obtain ⟨r, hr, -, ⟨n, hn, hnames⟩, hunknown⟩ := h
    rw [(hc.routers r hr).policy n hn policy hnames] at hunknown
    cases hunknown
  | invalidRedistribution router protocol =>
    cases protocol with
    | bgp =>
      obtain ⟨r, hr, -, ⟨o, ho, hbgp⟩, hnone⟩ := h
      have hsome := (hc.routers r hr).ospfFromBgp o ho hbgp
      rw [hnone] at hsome
      cases hsome
    | ospf =>
      obtain ⟨r, hr, -, ⟨b, hb, hospf⟩, hnone⟩ := h
      have hsome := (hc.routers r hr).bgpFromOspf b hb hospf
      rw [hnone] at hsome
      cases hsome

/-! ### Every search reports a fault that holds -/

/-- What is reported has the key of an item before it. -/
theorem firstRepeated?_eq_some {α β : Type} [DecidableEq β] {key : α → β} {a : α} {l : List α} :
    ∀ {seen : List β}, firstRepeated? key l seen = some a →
      a ∈ l ∧ (key a ∈ seen ∨ (l.map key).Duplicate (key a)) := by
  induction l with
  | nil => exact fun h => nomatch h
  | cons b l ih =>
    intro seen h
    unfold firstRepeated? at h
    split at h
    · next hseen =>
      obtain rfl := Option.some.inj h
      exact ⟨List.mem_cons_self, Or.inl hseen⟩
    · obtain ⟨ha, hkey | hdup⟩ := ih h
      · rcases List.mem_cons.mp hkey with heq | hseen
        · have hmem : key b ∈ l.map key := heq ▸ List.mem_map_of_mem ha
          exact ⟨List.mem_cons_of_mem _ ha, Or.inr (heq ▸ hmem.duplicate_cons_self)⟩
        · exact ⟨List.mem_cons_of_mem _ ha, Or.inl hseen⟩
      · exact ⟨List.mem_cons_of_mem _ ha, Or.inr (hdup.duplicate_cons _)⟩

/-- What is found repeated comes twice. -/
theorem duplicate_of_firstRepeated? {α β : Type} [DecidableEq β] {key : α → β} {a : α} {l : List α}
    (h : firstRepeated? key l [] = some a) : a ∈ l ∧ (l.map key).Duplicate (key a) :=
  (firstRepeated?_eq_some h).imp_right fun hdup => hdup.resolve_left List.not_mem_nil

/-- If no key comes twice, the values of the list are those of the map. -/
theorem OrdMap.perm_values_ofList {κ ν : Type} [Ord κ] [DecidableEq κ] [Std.TransOrd κ]
    [Std.LawfulEqOrd κ] {l : List (κ × ν)} (h : (l.map (·.1)).Nodup) :
    (ofList l).values.Perm (l.map (·.2)) := by
  refine List.Perm.map _
    ((List.perm_ext_iff_of_nodup (ofList l).nodup_entries h.of_map).mpr fun e => ?_)
  rw [OrdMap.mem_entries, OrdMap.get?_ofList h]

namespace NetworkConfig

variable {c : NetworkConfig} {rc nc : RouterConfig} {r : Router} {e : LinkError} {i : RouterId}

/-! #### A router on its own -/

/-- The interfaces of the list are searched after those of `pre`, whose neighbours may have been
seen. -/
theorem holds_of_ifaceError? (hrc : rc ∈ c.routers) {l : List InterfaceConfig} :
    ∀ {pre : List InterfaceConfig} {seen : List String}, rc.ifaces = pre ++ l →
      (∀ x ∈ seen, x ∈ pre.map (·.neighbor)) →
      rc.ifaceError? c.names l seen = some e → e.Holds c := by
  induction l with
  | nil => exact fun _ _ h => nomatch h
  | cons i l ih =>
    intro pre seen hl hseen h
    have hi : i ∈ rc.ifaces := hl ▸ List.mem_append_right _ List.mem_cons_self
    unfold RouterConfig.ifaceError? at h
    split at h
    · next hunknown =>
      obtain rfl := Option.some.inj h
      exact ⟨rc, hrc, rfl, List.mem_map_of_mem hi, hunknown⟩
    split at h
    · next hself =>
      obtain rfl := Option.some.inj h
      exact ⟨rc, hrc, rfl, List.mem_map.mpr ⟨i, hi, hself⟩⟩
    split at h
    · next num hnum =>
      obtain rfl := Option.some.inj h
      obtain ⟨hvlan, hundefined⟩ := Option.filter_eq_some_iff.mp hnum
      exact ⟨rc, hrc, rfl, of_decide_eq_true hundefined, Or.inl ⟨i, hi, hvlan⟩⟩
    split at h
    · -- the neighbour comes in `pre` and again here
      next hdup =>
      obtain rfl := Option.some.inj h
      refine ⟨rc, hrc, rfl, List.duplicate_iff_sublist.mpr ?_⟩
      rw [hl, List.map_append, List.map_cons]
      exact (List.singleton_sublist.mpr (hseen _ hdup)).append
        (List.singleton_sublist.mpr List.mem_cons_self)
    · refine @ih (pre ++ [i]) _ (by simpa using hl) (fun x hx => ?_) h
      rw [List.map_append, List.mem_append]
      rcases List.mem_cons.mp hx with rfl | hx
      · exact Or.inr List.mem_cons_self
      · exact Or.inl (hseen x hx)

theorem holds_of_routerError? (hrc : rc ∈ c.routers) (h : rc.linkError? c.names = some e) :
    e.Holds c := by
  simp only [RouterConfig.linkError?, Option.orElse_eq_orElse, Option.orElse_eq_or,
    Option.or_eq_some_iff, Option.map_eq_some_iff] at h
  obtain ⟨v, hv, rfl⟩ | ⟨-, h | ⟨-, num, hnum, rfl⟩⟩ := h
  · exact ⟨rc, hrc, rfl, (duplicate_of_firstRepeated? hv).2⟩
  · exact holds_of_ifaceError? hrc (List.nil_append _).symm
      (fun _ hx => absurd hx List.not_mem_nil) h
  · have hactive := List.mem_of_find?_eq_some hnum
    have hundefined := List.find?_some hnum
    refine ⟨rc, hrc, rfl, of_decide_eq_true hundefined, Or.inr ?_⟩
    cases ho : rc.ospf with
    | none => simp [ho] at hactive
    | some o => exact ⟨o, rfl, by simpa [ho] using hactive⟩

/-! #### Links -/

/-- The counterpart of an interface is found by the name of the router. -/
theorem get?_ifaces_iff (hn : c.names.Nodup) (hnc : nc.Fits c.names) (hrc : c.routers[i]? = some rc)
    {n : RouterId} {j : Interface} : (nc.link c.names n).ifaces.get? i = some j ↔
      ∃ jc ∈ nc.ifaces, jc.neighbor = rc.name ∧ j = ⟨n, i, jc.vlan⟩ := by
  rw [RouterConfig.get?_link_ifaces hnc, RouterConfig.mem_linkIfaces]
  constructor
  · rintro ⟨⟨jc, hjc, hidx, hj⟩, rfl⟩
    exact ⟨jc, hjc, (name_of_idxOf? hrc hidx).symm, hj⟩
  · rintro ⟨jc, hjc, hname, rfl⟩
    exact ⟨⟨jc, hjc, (idxOf?_names hn).mpr ⟨rc, hrc, hname.symm⟩, rfl⟩, rfl⟩

/-- An interface that was linked comes from one of the configuration, whose neighbour exists. -/
theorem exists_of_mem_ifaces (hn : c.names.Nodup) (hf : rc.Fits c.names) {j : Interface}
    (hj : j ∈ (rc.link c.names i).ifaces.values) :
    ∃ ic ∈ rc.ifaces, ∃ nc, c.routers[j.neighbor]? = some nc ∧ nc.name = ic.neighbor ∧
      j = ⟨i, j.neighbor, ic.vlan⟩ := by
  obtain ⟨n, hget⟩ := OrdMap.mem_values.mp hj
  obtain ⟨hmem, rfl⟩ := (RouterConfig.get?_link_ifaces hf).mp hget
  obtain ⟨ic, hic, hidx, hj⟩ := RouterConfig.mem_linkIfaces.mp hmem
  obtain ⟨nc, hnc, hname⟩ := (idxOf?_names hn).mp hidx
  exact ⟨ic, hic, nc, hnc, hname, hj⟩

theorem holds_of_pairingError? (hn : c.names.Nodup) (hf : ∀ rc ∈ c.routers, rc.Fits c.names)
    (hr : r ∈ c.baseRouters) {j : Interface} (hj : j ∈ r.ifaces.values)
    (h : pairingError? c.baseRouters r j = some e) : e.Holds c := by
  obtain ⟨i, rc, hrc, rfl⟩ := mem_baseRouters.mp hr
  have hmem := List.mem_of_getElem? hrc
  obtain ⟨ic, hic, nc, hnc, hname, hj⟩ := exists_of_mem_ifaces hn (hf rc hmem) hj
  have hncmem := List.mem_of_getElem? hnc
  have hback {k : Interface} := get?_ifaces_iff (j := k) (n := j.neighbor) hn (hf nc hncmem) hrc
  rw [pairingError?, getElem?_baseRouters, hnc] at h
  simp only [Option.map_some] at h
  split at h
  · next hnone =>
    obtain rfl := Option.some.inj h
    refine ⟨rc, hmem, rfl, List.mem_map.mpr ⟨ic, hic, hname.symm⟩, nc, hncmem, rfl, fun hm => ?_⟩
    obtain ⟨jc, hjc, hjn⟩ := List.mem_map.mp hm
    cases hnone.symm.trans (hback.mpr ⟨jc, hjc, hjn, rfl⟩)
  · next k hk =>
    obtain ⟨jc, hjc, hjn, rfl⟩ := hback.mp hk
    split at h
    · cases h
    · next hne =>
      obtain rfl := Option.some.inj h
      rw [hj] at hne
      exact ⟨rc, hmem, rfl, nc, hncmem, rfl, ic, hic, hname.symm, jc, hjc, hjn, hne⟩

/-! #### Addresses -/

/-- The VLANs of a router carry the addresses that the configuration gives it. -/
theorem perm_addresses_link (hf : rc.Fits c.names) :
    ((rc.link c.names i).vlans.values.map (·.addr.addr)).Perm (rc.vlans.map (·.addr.addr)) := by
  have hkeys : (((rc.linkVlans i (rc.linkIfaces c.names i)).map fun v => (v.id.num, v)).map
      (·.1)).Nodup := by
    simp only [RouterConfig.linkVlans, List.map_map]
    exact hf.vlans
  have haddr : (((rc.linkVlans i (rc.linkIfaces c.names i)).map fun v => (v.id.num, v)).map
      (·.2)).map (·.addr.addr) = rc.vlans.map (·.addr.addr) := by
    simp only [RouterConfig.linkVlans, List.map_map]
    rfl
  rw [← haddr]
  exact (OrdMap.perm_values_ofList hkeys).map _

theorem perm_addresses (hf : ∀ rc ∈ c.routers, rc.Fits c.names) :
    ((c.baseRouters.flatMap (·.vlans.values)).map (·.addr.addr)).Perm
      ((c.routers.flatMap (·.vlans)).map (·.addr.addr)) := by
  have hrouters : c.routers.flatMap (·.vlans.map (·.addr.addr)) =
      c.routers.zipIdx.flatMap fun x => x.1.vlans.map (·.addr.addr) := by
    rw [← List.zipIdx_map_fst 0 c.routers, List.flatMap_map, List.zipIdx_map_fst]
  rw [List.map_flatMap, List.map_flatMap, hrouters, baseRouters, List.flatMap_map]
  refine List.Perm.flatMap_left _ fun x hx => perm_addresses_link (hf x.1 ?_)
  exact List.fst_mem_of_mem_zipIdx hx

/-- The address of a VLAN is configured at its router. -/
theorem exists_of_mem_vlans (hf : ∀ rc ∈ c.routers, rc.Fits c.names) {x : Vlan}
    (hx : x ∈ c.baseRouters.flatMap (·.vlans.values)) :
    ∃ rc, c.routers[x.id.router]? = some rc ∧ rc.Carries x.addr.addr := by
  obtain ⟨r, hr, hx⟩ := List.mem_flatMap.mp hx
  obtain ⟨i, rc, hrc, rfl⟩ := mem_baseRouters.mp hr
  obtain ⟨num, hnum⟩ := OrdMap.mem_values.mp hx
  obtain ⟨v, hv, rfl, rfl⟩ :=
    (RouterConfig.get?_link_vlans (hf rc (List.mem_of_getElem? hrc))).mp hnum
  exact ⟨rc, hrc, v, hv, rfl⟩

theorem holds_of_addressError? (hf : ∀ rc ∈ c.routers, rc.Fits c.names)
    (h : addressError? c.baseRouters = some e) : e.Holds c := by
  obtain ⟨x, hx, rfl⟩ := Option.map_eq_some_iff.mp h
  obtain ⟨hmem, hdup⟩ := duplicate_of_firstRepeated? hx
  obtain ⟨rc, hrc, hcarries⟩ := exists_of_mem_vlans hf hmem
  rw [getElem?_baseRouters, hrc]
  refine ⟨rc, List.mem_of_getElem? hrc, rfl, hcarries, ?_⟩
  rw [List.duplicate_iff_two_le_count] at hdup ⊢
  rwa [← (perm_addresses hf).count_eq]

/-! #### Sessions -/

/-- An address is looked up to the VLAN of the router that carries it. -/
theorem vlanWithAddress?_names (hf : ∀ rc ∈ c.routers, rc.Fits c.names)
    (ha : ((c.baseRouters.flatMap (·.vlans.values)).map (·.addr.addr)).Nodup) {a : IpAddr} :
    (∃ v, vlanWithAddress? c.baseRouters a = some v ∧ v.router = i) ↔
      ∃ rc, c.routers[i]? = some rc ∧ rc.Carries a := by
  simp only [vlanWithAddress?_eq_some ha]
  constructor
  · rintro ⟨_, ⟨x, hx, rfl, rfl⟩, rfl⟩
    exact exists_of_mem_vlans hf hx
  · rintro ⟨rc, hrc, v, hv, rfl⟩
    have hx : (rc.link c.names i).vlans.get? v.num = some _ :=
      (RouterConfig.get?_link_vlans (hf rc (List.mem_of_getElem? hrc))).mpr ⟨v, hv, rfl, rfl⟩
    have hr := mem_baseRouters.mpr ⟨i, rc, hrc, rfl⟩
    exact ⟨_, ⟨_, List.mem_flatMap.mpr ⟨_, hr, OrdMap.mem_values.mpr ⟨_, hx⟩⟩, rfl, rfl⟩, rfl⟩

/-- The peer of a neighbour is another router that carries its address. -/
theorem exists_peerVlan? (hn : c.names.Nodup) (hf : ∀ rc ∈ c.routers, rc.Fits c.names)
    (ha : ((c.baseRouters.flatMap (·.vlans.values)).map (·.addr.addr)).Nodup)
    (hrc : c.routers[i]? = some rc) {n : NeighborConfig} {p : RouterConfig} :
    (∃ v, n.peerVlan? c.baseRouters (rc.link c.names i) = some v ∧
      c.routers[v.router]? = some p) ↔ p ∈ c.routers ∧ p.name ≠ rc.name ∧ p.Carries n.addr := by
  simp only [NeighborConfig.peerVlan?, Option.filter_eq_some_iff, decide_eq_true_eq]
  have hid : (rc.link c.names i).id = i := rfl
  rw [hid]
  constructor
  · rintro ⟨v, ⟨hv, hne⟩, hp⟩
    obtain ⟨q, hq, hcarries⟩ := (vlanWithAddress?_names hf ha).mp ⟨v, hv, rfl⟩
    obtain rfl := Option.some.inj (hp.symm.trans hq)
    refine ⟨List.mem_of_getElem? hp, fun hname => hne ?_, hcarries⟩
    have hv := (idxOf?_names hn).mpr ⟨p, hp, hname⟩
    exact Option.some.inj (hv.symm.trans ((idxOf?_names hn).mpr ⟨rc, hrc, rfl⟩))
  · rintro ⟨hp, hne, hcarries⟩
    obtain ⟨j, hj⟩ := List.mem_iff_getElem?.mp hp
    obtain ⟨v, hv, rfl⟩ := (vlanWithAddress?_names hf ha).mpr ⟨p, hj, hcarries⟩
    refine ⟨v, ⟨hv, fun heq => hne ?_⟩, hj⟩
    rw [heq, hrc] at hj
    rw [Option.some.inj hj]

theorem mem_peers {n : NeighborConfig} :
    n ∈ rc.peers ↔ ∃ b, rc.bgp = some b ∧ ∃ t, (t, n) ∈ b.neighbors := by
  cases hb : rc.bgp with
  | none => simp [RouterConfig.peers, hb]
  | some b =>
    simp only [RouterConfig.peers, hb, Option.elim_some, BgpConfig.neighbors, List.mem_append,
      List.mem_map, Option.some.injEq, exists_eq_left', Prod.mk.injEq]
    constructor
    · rintro (h | h)
      · exact ⟨_, Or.inl ⟨n, h, rfl, rfl⟩⟩
      · exact ⟨_, Or.inr ⟨n, h, rfl, rfl⟩⟩
    · rintro ⟨_, ⟨_, h, -, rfl⟩ | ⟨_, h, -, rfl⟩⟩
      · exact Or.inl h
      · exact Or.inr h

theorem mem_policies {n : NeighborConfig} {policy : String} :
    policy ∈ n.importPolicy.toList ++ n.exportPolicy.toList ↔ n.Names policy := by
  simp [NeighborConfig.Names]

theorem holds_of_neighborError? (hn : c.names.Nodup) (hf : ∀ rc ∈ c.routers, rc.Fits c.names)
    (ha : ((c.baseRouters.flatMap (·.vlans.values)).map (·.addr.addr)).Nodup)
    {x : Router × NeighborConfig} (hx : x ∈ c.bgpNeighbors)
    (h : x.2.linkError? c c.baseRouters x.1 = some e) : e.Holds c := by
  obtain ⟨i, rc, b, ⟨t, n⟩, hrc, hb, hnb, rfl⟩ := exists_of_mem_bgpNeighbors hx
  have hmem := List.mem_of_getElem? hrc
  have hpeer : n ∈ rc.peers := mem_peers.mpr ⟨b, hb, t, hnb⟩
  have hvlan {p : RouterConfig} := exists_peerVlan? (n := n) (p := p) hn hf ha hrc
  simp only [NeighborConfig.linkError?] at h
  split at h
  · next hnone =>
    obtain rfl := Option.some.inj h
    refine ⟨rc, hmem, rfl, ⟨n, hpeer, rfl⟩, fun p hp hne hcarries => ?_⟩
    obtain ⟨v, hv, -⟩ := hvlan.mpr ⟨hp, hne, hcarries⟩
    cases hnone.symm.trans hv
  next v hv =>
  split at h
  · cases h
  next p hp =>
  obtain ⟨hpmem, hne, hcarries⟩ := hvlan.mp ⟨v, hv, hp⟩
  split at h
  · next hbgp =>
    obtain rfl := Option.some.inj h
    exact ⟨rc, hmem, rfl, p, hpmem, rfl, hne, Option.isNone_iff_eq_none.mp hbgp, n, hpeer, hcarries⟩
  · obtain ⟨policy, hpolicy, rfl⟩ := Option.map_eq_some_iff.mp h
    refine ⟨rc, hmem, rfl, ⟨n, hpeer, mem_policies.mp (List.mem_of_find?_eq_some hpolicy)⟩, ?_⟩
    simpa using List.find?_some hpolicy

/-! #### Redistribution -/

theorem ospfFromBgp_linked {base : List Router} :
    ((rc.link c.names i).withBgp base rc).ospfFromBgp = true ↔
      ∃ o, rc.ospf = some o ∧ .bgp ∈ o.redistribute := by
  cases ho : rc.ospf <;>
    simp [Router.ospfFromBgp, Router.withBgp, RouterConfig.link, ho, OrdSet.mem_ofList]

theorem bgpFromOspf_linked {base : List Router} :
    ((rc.link c.names i).withBgp base rc).bgpFromOspf = true ↔
      ∃ b, rc.bgp = some b ∧ .ospf ∈ b.redistribute := by
  cases hb : rc.bgp <;>
    simp [Router.bgpFromOspf, Router.withBgp, RouterConfig.link, hb, OrdSet.mem_ofList]

theorem holds_of_redistributionError? (hr : r ∈ c.linkedRouters)
    (h : redistributionError? r = some e) : e.Holds c := by
  obtain ⟨rc, hrc, hr⟩ := exists_of_mem_routers hr
  have hmem := List.mem_of_getElem? hrc
  have hname : r.name = rc.name := by rw [hr]; rfl
  have hbgp : r.bgp.isNone = true → rc.bgp = none := by rw [hr]; simp [Router.withBgp]
  have hospf : r.ospf.isNone = true → rc.ospf = none := by
    rw [hr]; simp [Router.withBgp, RouterConfig.link]
  unfold redistributionError? at h
  split at h
  · next hfault =>
    obtain rfl := Option.some.inj h
    obtain ⟨hfrom, hnone⟩ := Bool.and_eq_true_iff.mp hfault
    rw [hr] at hfrom
    exact ⟨rc, hmem, hname.symm, ospfFromBgp_linked.mp hfrom, hbgp hnone⟩
  split at h
  · next hfault =>
    obtain rfl := Option.some.inj h
    obtain ⟨hfrom, hnone⟩ := Bool.and_eq_true_iff.mp hfault
    rw [hr] at hfrom
    exact ⟨rc, hmem, hname.symm, bgpFromOspf_linked.mp hfrom, hospf hnone⟩
  · cases h

/-! #### All searches -/

/-- **The fault that is found holds.** -/
theorem holds_of_linkError? (h : c.linkError? = some e) : e.Holds c := by
  simp only [linkError?, baseError?, addressError?_eq_none, Option.orElse_eq_orElse,
    Option.orElse_eq_or, Option.or_eq_some_iff, Option.or_eq_none_iff, Option.map_eq_none_iff,
    List.findSome?_eq_none_iff, firstRepeated?_eq_none, RouterConfig.linkError?_eq_none,
    List.map_id] at h
  -- a search is made only if those before it found nothing, so names are unique once links are
  -- looked at, and addresses once sessions are
  obtain (h | ⟨⟨hn, -⟩, h | ⟨hf, h | ⟨-, h⟩⟩⟩) | ⟨⟨⟨hn, -⟩, hf, -, ha⟩, h | ⟨-, h⟩⟩ := h
  · obtain ⟨name, hname, rfl⟩ := Option.map_eq_some_iff.mp h
    have hdup := (duplicate_of_firstRepeated? hname).2
    rwa [List.map_id] at hdup
  · obtain ⟨rc, hrc, he⟩ := List.exists_of_findSome?_eq_some h
    exact holds_of_routerError? hrc he
  · obtain ⟨r, hr, hr'⟩ := List.exists_of_findSome?_eq_some h
    obtain ⟨j, hj, he⟩ := List.exists_of_findSome?_eq_some hr'
    exact holds_of_pairingError? hn hf hr hj he
  · exact holds_of_addressError? hf h
  · obtain ⟨x, hx, he⟩ := List.exists_of_findSome?_eq_some h
    exact holds_of_neighborError? hn hf ha hx he
  · obtain ⟨r, hr, he⟩ := List.exists_of_findSome?_eq_some h
    exact holds_of_redistributionError? hr he

/-! ### Consistent configurations are well formed -/

theorem Consistent.paired_config (h : c.Consistent) (hrc : rc ∈ c.routers) {ic : InterfaceConfig}
    (hic : ic ∈ rc.ifaces) (hnc : nc ∈ c.routers) (hname : nc.name = ic.neighbor) :
    ∃ jc ∈ nc.ifaces, jc.neighbor = rc.name ∧ jc.vlan.isSome = ic.vlan.isSome := by
  obtain ⟨i, hi⟩ := List.mem_iff_getElem?.mp hrc
  obtain ⟨n, hn⟩ := List.mem_iff_getElem?.mp hnc
  have hiface := (get?_ifaces_iff (n := i) h.names (h.routers rc hrc) hn).mpr
    ⟨ic, hic, hname.symm, rfl⟩
  have herr := h.paired _ (mem_baseRouters.mpr ⟨i, rc, hi, rfl⟩) _
    (OrdMap.mem_values.mpr ⟨n, hiface⟩)
  rw [pairingError?, getElem?_baseRouters, hn] at herr
  simp only [Option.map_some] at herr
  split at herr
  · cases herr
  · next j hj =>
    obtain ⟨jc, hjc, hjn, rfl⟩ := (get?_ifaces_iff h.names (h.routers nc hnc) hi).mp hj
    split at herr
    · next heq => exact ⟨jc, hjc, hjn, heq.symm⟩
    · cases herr

theorem Consistent.exists_peer (h : c.Consistent) (hrc : rc ∈ c.routers) {n : NeighborConfig}
    (hn : n ∈ rc.peers) :
    (∃ p ∈ c.routers, p.name ≠ rc.name ∧ p.bgp.isSome = true ∧ p.Carries n.addr) ∧
      ∀ policy, n.Names policy → c.policies.contains policy = true := by
  obtain ⟨i, hi⟩ := List.mem_iff_getElem?.mp hrc
  obtain ⟨b, hb, t, hnb⟩ := mem_peers.mp hn
  obtain ⟨v, hv, hlinked⟩ :=
    NeighborConfig.linkError?_eq_none.mp (h.neighbors _ (mem_bgpNeighbors hi hb hnb))
  obtain ⟨q, hq, -⟩ := (vlanWithAddress?_names h.routers h.addresses).mp
    ⟨v, (Option.filter_eq_some_iff.mp hv).1, rfl⟩
  obtain ⟨hmem, hne, hcarries⟩ :=
    (exists_peerVlan? h.names h.routers h.addresses hi).mp ⟨v, hv, hq⟩
  obtain ⟨hbgp, hpolicies⟩ := hlinked q hq
  exact ⟨⟨q, hmem, hne, hbgp, hcarries⟩, fun policy hp => hpolicies policy (mem_policies.mpr hp)⟩

theorem Consistent.redistribution_config (h : c.Consistent) (hrc : c.routers[i]? = some rc) :
    ((∃ o, rc.ospf = some o ∧ .bgp ∈ o.redistribute) → rc.bgp.isSome = true) ∧
      ((∃ b, rc.bgp = some b ∧ .ospf ∈ b.redistribute) → rc.ospf.isSome = true) := by
  have hr := router?_assemble.trans (congrArg (Option.map _) hrc)
  have herr := redistributionError?_eq_none.mp (h.redistribution _ (List.mem_of_getElem? hr))
  rw [ospfFromBgp_linked, bgpFromOspf_linked] at herr
  simpa [Router.withBgp, RouterConfig.link] using herr

/-- **If no search finds a fault, the configuration is well formed.** -/
theorem Consistent.wellFormed (h : c.Consistent) : c.WellFormed where
  names := h.names
  addresses := (perm_addresses h.routers).nodup_iff.mp h.addresses
  routers rc hrc := by
    have hf := h.routers rc hrc
    obtain ⟨i, hi⟩ := List.mem_iff_getElem?.mp hrc
    obtain ⟨hospf, hbgp⟩ := h.redistribution_config hi
    exact {
      vlans := hf.vlans
      neighbor := fun ic hic => ⟨(hf.ifaces ic hic).2.1, List.mem_map.mp (hf.ifaces ic hic).1⟩
      neighbors := hf.neighbors
      ifaceVlan := fun ic hic => (hf.ifaces ic hic).2.2
      active := hf.active
      paired := fun ic hic nc hnc hname => h.paired_config hrc hic hnc hname
      peer := fun n hn => (h.exists_peer hrc hn).1
      policy := fun n hn => (h.exists_peer hrc hn).2
      ospfFromBgp := fun o ho hmem => hospf ⟨o, ho, hmem⟩
      bgpFromOspf := fun b hb hmem => hbgp ⟨b, hb, hmem⟩ }

/-- **Exactly the well-formed configurations link**, and the error that linking reports is a fault
of the configuration. -/
theorem links_iff_wellFormed (c : NetworkConfig) :
    ((∃ net, c.link = .ok net) ↔ c.WellFormed) ∧
      ∀ e, c.link = .error e → e.Holds c ∧ ¬ c.WellFormed := by
  have htrue : ∀ e, c.link = .error e → e.Holds c ∧ ¬ c.WellFormed := by
    intro e he
    rw [link] at he
    split at he
    · next e' he' =>
      obtain rfl := Except.error.inj he
      have hholds := holds_of_linkError? he'
      exact ⟨hholds, hholds.not_wellFormed⟩
    · cases he
  refine ⟨⟨?_, fun hwf => ?_⟩, htrue⟩
  · rintro ⟨net, hnet⟩
    exact (link_eq_ok.mp hnet).1.wellFormed
  · -- an error would tell of a fault, and there is none
    cases hlink : c.link with
    | error e => exact absurd hwf (htrue e hlink).2
    | ok net => exact ⟨net, rfl⟩

end NetworkConfig

end NetReach
