import NetReach.Layer2
import NetReach.Proofs.Closure
import NetReach.Proofs.Linked

/-! # Links and chains of links

In a linked network a link joins two VLANs from either end (`Network.mem_linkedVlans`), and so does
a chain of links that only switches carry on. Adjacent VLANs are those of different routers with a
chain between them (`Network.isAdjacent_iff`), which makes adjacency symmetric. -/

namespace NetReach.Network

variable {net : Network} {i : RouterId} {r : Router} {x : Vlan} {u v w : VlanId}

/-! ### VLANs -/

theorem mem_vlans_of_router? (hn : net.Linked) (hr : net.router? i = some r) :
    x ∈ r.vlans.values ↔ net.vlan? x.id = some x ∧ x.id.router = i := by
  rw [OrdMap.mem_values]
  constructor
  · rintro ⟨num, hnum⟩
    have hx : net.vlan? ⟨i, num⟩ = some x := by
      rw [vlan?, hr]
      exact hnum
    have hid : x.id = ⟨i, num⟩ := hn.vlan_id hx
    rw [hid]
    exact ⟨hx, rfl⟩
  · rintro ⟨hx, rfl⟩
    rw [vlan?, hr] at hx
    exact ⟨_, hx⟩

theorem router?_of_vlan? (h : net.vlan? v = some x) : ∃ r, net.router? v.router = some r := by
  obtain ⟨r, hr, -⟩ := Option.bind_eq_some_iff.mp h
  exact ⟨r, hr⟩

theorem mem_vlans (hn : net.Linked) : x ∈ net.vlans ↔ net.vlan? x.id = some x := by
  constructor
  · intro hx
    obtain ⟨r, hr, hxr⟩ := List.mem_flatMap.mp hx
    exact ((mem_vlans_of_router? hn (hn.router?_of_mem hr)).mp hxr).1
  · intro hx
    obtain ⟨r, hr⟩ := router?_of_vlan? hx
    exact List.mem_flatMap.mpr ⟨r, List.mem_of_getElem? hr,
      (mem_vlans_of_router? hn hr).mpr ⟨hx, rfl⟩⟩

theorem mem_vlans_ids (hn : net.Linked) : v ∈ net.vlans.map (·.id) ↔ (net.vlan? v).isSome := by
  rw [Option.isSome_iff_exists, List.mem_map]
  constructor
  · rintro ⟨x, hx, rfl⟩
    exact ⟨x, (mem_vlans hn).mp hx⟩
  · rintro ⟨x, hx⟩
    have hid : x.id = v := hn.vlan_id hx
    subst hid
    exact ⟨x, (mem_vlans hn).mpr hx, rfl⟩

/-- The router of a known VLAN, with the VLAN among its own. -/
theorem exists_router_of_vlan (hn : net.Linked) (hv : (net.vlan? v).isSome) :
    ∃ r x, net.router? r.id = some r ∧ r.id = v.router ∧ net.vlan? v = some x ∧ x.id = v ∧
      x ∈ r.vlans.values := by
  obtain ⟨x, hx⟩ := Option.isSome_iff_exists.mp hv
  obtain ⟨r, hr⟩ := router?_of_vlan? hx
  have hid : r.id = v.router := hn.id_eq hr
  have hxid : x.id = v := hn.vlan_id hx
  refine ⟨r, x, hid ▸ hr, hid, hx, hxid, (mem_vlans_of_router? hn hr).mpr ?_⟩
  rw [hxid]
  exact ⟨hx, rfl⟩

/-- A known VLAN is among those of its router. -/
theorem exists_mem_vlans (hn : net.Linked) (hr : net.router? r.id = some r)
    (hv : (net.vlan? v).isSome) (hid : v.router = r.id) :
    ∃ x ∈ r.vlans.values, x.id = v ∧ net.vlan? v = some x := by
  obtain ⟨r', x, hr', hid', hx, hxid, hxr⟩ := exists_router_of_vlan hn hv
  obtain rfl := eq_of_router? hr hr' (hid'.trans hid)
  exact ⟨x, hxr, hxid, hx⟩

/-! ### Links -/

/-- A link joins the VLANs: its two interfaces belong to them. -/
def Link (net : Network) (v w : VlanId) : Prop :=
  (∃ i, net.iface? v.router w.router = some i ∧ i.vlan = some v) ∧
    ∃ j, net.iface? w.router v.router = some j ∧ j.vlan = some w

theorem Link.symm (h : net.Link v w) : net.Link w v := ⟨h.2, h.1⟩

theorem Link.isSome_vlan? (hn : net.Linked) (h : net.Link v w) :
    (net.vlan? v).isSome ∧ (net.vlan? w).isSome := by
  obtain ⟨⟨i, hi, hv⟩, j, hj, hw⟩ := h
  exact ⟨hn.iface_vlan hi hv, hn.iface_vlan hj hw⟩

theorem router_of_vlan {j : Interface} (h : j.vlan = some v) : j.router = v.router := by
  obtain ⟨num, -, rfl⟩ := Option.map_eq_some_iff.mp h
  rfl

/-- **The links of a VLAN join it to the VLANs at their other ends.** -/
theorem mem_linkedVlans (hn : net.Linked) (hx : net.vlan? v = some x) :
    w ∈ net.linkedVlans x ↔ net.Link v w := by
  have hid : x.id = v := hn.vlan_id hx
  simp only [linkedVlans, List.mem_filterMap, Option.bind_eq_some_iff, hid, hn.members hx]
  constructor
  · rintro ⟨n, ⟨i, hi, hiv⟩, j, ⟨i', hi', hj⟩, hjw⟩
    cases hi.symm.trans hi'
    obtain ⟨hir, hin⟩ := hn.iface hi
    rw [peerIface?, hir, hin] at hj
    have hw : n = w.router := (hn.iface hj).1.symm.trans (router_of_vlan hjw)
    subst hw
    exact ⟨⟨i, hi, hiv⟩, j, hj, hjw⟩
  · rintro ⟨⟨i, hi, hiv⟩, j, hj, hjw⟩
    obtain ⟨hir, hin⟩ := hn.iface hi
    refine ⟨w.router, ⟨i, hi, hiv⟩, j, ⟨i, hi, ?_⟩, hjw⟩
    rw [peerIface?, hir, hin]
    exact hj

theorem mem_linkedTo (hn : net.Linked) : w ∈ net.linkedTo v ↔ net.Link v w := by
  cases hx : net.vlan? v with
  | some x => rw [linkedTo, hx, Option.elim_some, mem_linkedVlans hn hx]
  | none =>
    rw [linkedTo, hx, Option.elim_none]
    refine ⟨nofun, fun h => ?_⟩
    have := (h.isSome_vlan? hn).1
    rw [hx] at this
    cases this

/-! ### Chains -/

/-- A chain of links leads from one VLAN to the other, carried on by switches. -/
inductive Chain (net : Network) : VlanId → VlanId → Prop where
  | link {v w : VlanId} : net.Link v w → Chain net v w
  | cons {u v w : VlanId} : net.Link u v → net.isSwitch v.router = true → Chain net v w →
    Chain net u w

theorem Chain.concat (h : net.Chain u v) (hs : net.isSwitch v.router = true) (hl : net.Link v w) :
    net.Chain u w := by
  induction h with
  | link h => exact .cons h hs (.link hl)
  | cons h hs' _ ih => exact .cons h hs' (ih hs hl)

theorem Chain.symm (h : net.Chain v w) : net.Chain w v := by
  induction h with
  | link h => exact .link h.symm
  | cons h hs _ ih => exact ih.concat hs h.symm

theorem Chain.isSome_vlan? (hn : net.Linked) (h : net.Chain v w) : (net.vlan? v).isSome := by
  cases h with
  | link h => exact (h.isSome_vlan? hn).1
  | cons h _ _ => exact (h.isSome_vlan? hn).1

theorem mem_domain (hn : net.Linked) :
    w ∈ net.domain v ↔ (net.vlan? v).isSome ∧ net.Chain v w ∧ w.router ≠ v.router := by
  simp only [domain, OrdSet.mem_ofList, List.mem_filter, mem_closure, decide_eq_true_eq]
  constructor
  · rintro ⟨h, hne⟩
    -- a chain that comes back to its origin starts anew there
    have hchain : (net.vlan? v).isSome ∧ (w = v ∨ net.Chain v w) := by
      clear hne
      induction h with
      | start h hp =>
        obtain rfl := List.mem_singleton.mp h
        exact ⟨(mem_vlans_ids hn).mp hp, Or.inl rfl⟩
      | step _ h _ ih =>
        refine ⟨ih.1, Or.inr ?_⟩
        unfold chainStep at h
        split at h
        · next hc =>
          have hl := (mem_linkedTo hn).mp h
          rcases ih.2 with rfl | hv
          · exact .link hl
          · rcases hc with rfl | hs
            · exact .link hl
            · exact hv.concat hs hl
        · cases h
    refine ⟨hchain.1, hchain.2.resolve_left fun he => hne (he ▸ rfl), hne⟩
  · rintro ⟨hv, h, hne⟩
    refine ⟨?_, hne⟩
    have hmem : ∀ {u}, (net.vlan? u).isSome → u ∈ net.vlans.map (·.id) := (mem_vlans_ids hn).mpr
    have hlink : ∀ {a b}, Reached (net.chainStep v) (net.vlans.map (·.id)) [v] a →
        (a = v ∨ net.isSwitch a.router = true) → net.Link a b →
        Reached (net.chainStep v) (net.vlans.map (·.id)) [v] b := by
      intro a b ha hc hl
      refine ha.step ?_ (hmem (hl.isSome_vlan? hn).2)
      rw [chainStep, if_pos hc]
      exact (mem_linkedTo hn).mpr hl
    have hcarry : ∀ {a b}, net.Chain a b →
        Reached (net.chainStep v) (net.vlans.map (·.id)) [v] a →
        (a = v ∨ net.isSwitch a.router = true) →
        Reached (net.chainStep v) (net.vlans.map (·.id)) [v] b := by
      intro a b hab
      induction hab with
      | link hl => exact fun ha hc => hlink ha hc hl
      | cons hl hs _ ih => exact fun ha hc => ih (hlink ha hc hl) (Or.inr hs)
    exact hcarry h (.start (List.mem_singleton.mpr rfl) (hmem hv)) (Or.inl rfl)

/-- **Adjacent VLANs belong to different routers, with a chain between them.** -/
theorem mem_adjacent (hn : net.Linked) :
    w ∈ (Layer2.ofNetwork net).adjacent v ↔ net.Chain v w ∧ w.router ≠ v.router := by
  have hget : (Layer2.ofNetwork net).domain? v =
      if v ∈ net.vlans.map (·.id) then some (net.domain v) else none := by
    have hmap : (net.vlans.map fun v => (v.id, net.domain v.id)) =
        (net.vlans.map (·.id)).map fun v => (v, net.domain v) := by rw [List.map_map]; rfl
    rw [Layer2.domain?, Layer2.ofNetwork, hmap, OrdMap.get?_ofList_map]
  rw [Layer2.adjacent, hget]
  split
  · next hv =>
    rw [Option.elim_some, OrdSet.mem_toList, mem_domain hn]
    exact and_iff_right ((mem_vlans_ids hn).mp hv)
  · next hv =>
    rw [Option.elim_none]
    refine ⟨nofun, fun h => absurd ((mem_vlans_ids hn).mpr (h.1.isSome_vlan? hn)) hv⟩

theorem mem_adjacent_comm (hn : net.Linked) :
    w ∈ (Layer2.ofNetwork net).adjacent v ↔ v ∈ (Layer2.ofNetwork net).adjacent w := by
  rw [mem_adjacent hn, mem_adjacent hn]
  exact ⟨fun h => ⟨h.1.symm, h.2.symm⟩, fun h => ⟨h.1.symm, h.2.symm⟩⟩

end NetReach.Network
