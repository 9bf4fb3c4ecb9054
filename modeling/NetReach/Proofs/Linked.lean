import Mathlib.Data.List.Basic
import NetReach.Network.Link

/-! # What linking guarantees

A configuration without faults becomes a network whose references fit together (`Network.Linked`):
routers stand at their identifiers, every interface has a counterpart, VLANs list exactly the
interfaces that belong to them, and sessions know the VLAN of their peer. -/

namespace NetReach

/-- The references of the network fit together. -/
structure Network.Linked (net : Network) : Prop where
  id_eq : ∀ {i r}, net.router? i = some r → r.id = i
  iface : ∀ {r n i}, net.iface? r n = some i → i.router = r ∧ i.neighbor = n
  paired : ∀ {r n i}, net.iface? r n = some i →
    ∃ j, net.iface? n r = some j ∧ j.num.isSome = i.num.isSome
  iface_vlan : ∀ {r n i v}, net.iface? r n = some i → i.vlan = some v → (net.vlan? v).isSome
  vlan_id : ∀ {v x}, net.vlan? v = some x → x.id = v
  members : ∀ {v x n}, net.vlan? v = some x →
    (n ∈ x.members ↔ ∃ i, net.iface? v.router n = some i ∧ i.vlan = some v)
  active : ∀ {i r num}, net.router? i = some r → r.ospfActive num = true →
    (net.vlan? ⟨i, num⟩).isSome
  peer : ∀ {i r s}, net.router? i = some r → s ∈ r.sessions →
    s.peer ≠ i ∧ s.peerVlan.router = s.peer ∧ (net.vlan? s.peerVlan).isSome ∧
      ∃ p, net.router? s.peer = some p ∧ p.bgp.isSome
  localVlan : ∀ {i r s v}, net.router? i = some r → s ∈ r.sessions → s.localVlan = some v →
    v.router = i ∧ (net.vlan? v).isSome
  ospfFromBgp : ∀ {i r}, net.router? i = some r → r.ospfFromBgp = true → r.bgp.isSome
  bgpFromOspf : ∀ {i r}, net.router? i = some r → r.bgpFromOspf = true → r.ospf.isSome

theorem Network.Linked.router?_of_mem {net : Network} {r : Router} (hn : net.Linked)
    (hr : r ∈ net.routers) : net.router? r.id = some r := by
  obtain ⟨i, hi⟩ := List.mem_iff_getElem?.mp hr
  rw [hn.id_eq hi]
  exact hi

theorem Network.eq_of_router? {net : Network} {r r' : Router} {i : RouterId}
    (hr : net.router? i = some r) (hr' : net.router? r'.id = some r') (hid : r'.id = i) :
    r = r' := by
  rw [hid, hr] at hr'
  exact Option.some.inj hr'

/-- No two routers have the same identifier. -/
theorem Network.Linked.pairwise_id_ne {net : Network} (hn : net.Linked) :
    net.routers.Pairwise fun r₁ r₂ => r₁.id ≠ r₂.id := by
  rw [List.pairwise_iff_getElem]
  intro a b ha hb hab hid
  have hida : net.routers[a].id = a := hn.id_eq (List.getElem?_eq_getElem ha)
  have hidb : net.routers[b].id = b := hn.id_eq (List.getElem?_eq_getElem hb)
  rw [hida, hidb] at hid
  exact Nat.ne_of_lt hab hid

theorem Network.Linked.filter_id {net : Network} {r : Router} (hn : net.Linked)
    (hr : r ∈ net.routers) : net.routers.filter (fun r' => r'.id = r.id) = [r] := by
  obtain ⟨l₁, l₂, hsplit⟩ := List.append_of_mem hr
  have hne := hn.pairwise_id_ne
  rw [hsplit, List.pairwise_append, List.pairwise_cons] at hne
  obtain ⟨-, ⟨hlast, -⟩, hfirst⟩ := hne
  refine List.filter_eq_cons_iff.mpr ⟨l₁, l₂, hsplit, fun r' hr' hid => ?_, decide_eq_true rfl,
    List.filter_eq_nil_iff.mpr fun r' hr' hid => ?_⟩
  · exact hfirst r' hr' r List.mem_cons_self (of_decide_eq_true hid)
  · exact hlast r' hr' (of_decide_eq_true hid).symm

/-! ### The searches for a fault -/

theorem firstRepeated?_eq_none {α β : Type} [DecidableEq β] {key : α → β} {l : List α} :
    ∀ {seen : List β}, firstRepeated? key l seen = none ↔
      (l.map key).Nodup ∧ ∀ a ∈ l, key a ∉ seen := by
  induction l with
  | nil => simp [firstRepeated?]
  | cons a l ih =>
    intro seen
    unfold firstRepeated?
    split
    · next h =>
      simp only [reduceCtorEq, false_iff]
      exact fun ⟨_, hall⟩ => hall a List.mem_cons_self h
    · next h =>
      rw [ih, List.map_cons, List.nodup_cons]
      constructor
      · rintro ⟨hnd, hall⟩
        refine ⟨⟨fun hm => ?_, hnd⟩, fun b hb => ?_⟩
        · obtain ⟨b, hb, hba⟩ := List.mem_map.mp hm
          exact hall b hb (hba ▸ List.mem_cons_self)
        · rcases List.mem_cons.mp hb with rfl | hb
          · exact h
          · exact fun hs => hall b hb (List.mem_cons_of_mem _ hs)
      · rintro ⟨⟨hm, hnd⟩, hall⟩
        refine ⟨hnd, fun b hb hs => ?_⟩
        rcases List.mem_cons.mp hs with hba | hs
        · exact hm (hba ▸ List.mem_map_of_mem hb)
        · exact hall b (List.mem_cons_of_mem _ hb) hs

/-- The neighbor has an address of another router, which runs BGP if there is one, and its policies
are defined. -/
theorem NeighborConfig.linkError?_eq_none {c : NetworkConfig} {rs : List Router} {r : Router}
    {n : NeighborConfig} : n.linkError? c rs r = none ↔ ∃ v, n.peerVlan? rs r = some v ∧
      ∀ p, c.routers[v.router]? = some p → p.bgp.isSome = true ∧
        ∀ name ∈ n.importPolicy.toList ++ n.exportPolicy.toList,
          c.policies.contains name = true := by
  unfold linkError?
  generalize n.importPolicy.toList ++ n.exportPolicy.toList = l
  cases n.peerVlan? rs r with
  | none => simp
  | some v =>
    cases hp : c.routers[v.router]? with
    | none => simp [hp]
    | some p => cases hb : p.bgp <;> simp [hp, hb]

theorem redistributionError?_eq_none {r : Router} : redistributionError? r = none ↔
    (r.ospfFromBgp = true → r.bgp.isSome = true) ∧
      (r.bgpFromOspf = true → r.ospf.isSome = true) := by
  unfold redistributionError?
  cases r.ospfFromBgp <;> cases r.bgpFromOspf <;> cases r.bgp <;> cases r.ospf <;> simp

/-- No two VLANs carry the same address. -/
theorem addressError?_eq_none {rs : List Router} : addressError? rs = none ↔
    ((rs.flatMap (·.vlans.values)).map (·.addr.addr)).Nodup := by
  rw [addressError?, Option.map_eq_none_iff, firstRepeated?_eq_none]
  exact and_iff_left fun _ _ => List.not_mem_nil

namespace RouterConfig

variable {names : List String} {c : RouterConfig} {id : RouterId}

/-- The interface names another router and a VLAN of its own. -/
def IfaceFits (names : List String) (c : RouterConfig) (i : InterfaceConfig) : Prop :=
  i.neighbor ∈ names ∧ i.neighbor ≠ c.name ∧ ∀ num, i.vlan = some num → num ∈ c.vlans.map (·.num)

theorem ifaceError?_eq_none {l : List InterfaceConfig} : ∀ {seen : List String},
    c.ifaceError? names l seen = none ↔
      (∀ i ∈ l, c.IfaceFits names i ∧ i.neighbor ∉ seen) ∧ (l.map (·.neighbor)).Nodup := by
  induction l with
  | nil => simp [ifaceError?]
  | cons i l ih =>
    intro seen
    have hvlan : i.vlan.filter (· ∉ c.vlans.map (·.num)) = none ↔
        ∀ num, i.vlan = some num → num ∈ c.vlans.map (·.num) := by
      cases i.vlan <;> simp
    simp only [ifaceError?]
    by_cases hn : i.neighbor ∈ names
    swap
    · rw [if_pos hn]
      simp only [reduceCtorEq, false_iff]
      exact fun ⟨h, _⟩ => hn (h i List.mem_cons_self).1.1
    rw [if_neg (not_not_intro hn)]
    by_cases hself : i.neighbor = c.name
    · rw [if_pos hself]
      simp only [reduceCtorEq, false_iff]
      exact fun ⟨h, _⟩ => (h i List.mem_cons_self).1.2.1 hself
    rw [if_neg hself]
    split
    · next num hv =>
      simp only [reduceCtorEq, false_iff]
      intro ⟨h, _⟩
      rw [hvlan.mpr (h i List.mem_cons_self).1.2.2] at hv
      cases hv
    · next hv =>
      have hfits : c.IfaceFits names i := ⟨hn, hself, hvlan.mp hv⟩
      by_cases hseen : i.neighbor ∈ seen
      · rw [if_pos hseen]
        simp only [reduceCtorEq, false_iff]
        exact fun ⟨h, _⟩ => (h i List.mem_cons_self).2 hseen
      rw [if_neg hseen, ih, List.map_cons, List.nodup_cons]
      constructor
      · rintro ⟨hall, hnd⟩
        refine ⟨fun j hj => ?_, fun hm => ?_, hnd⟩
        · rcases List.mem_cons.mp hj with rfl | hj
          · exact ⟨hfits, hseen⟩
          · exact ⟨(hall j hj).1, fun hs => (hall j hj).2 (List.mem_cons_of_mem _ hs)⟩
        · obtain ⟨j, hj, hji⟩ := List.mem_map.mp hm
          exact (hall j hj).2 (hji ▸ List.mem_cons_self)
      · rintro ⟨hall, hm, hnd⟩
        refine ⟨fun j hj => ⟨(hall j (List.mem_cons_of_mem _ hj)).1, fun hs => ?_⟩, hnd⟩
        rcases List.mem_cons.mp hs with hji | hs
        · exact hm (hji ▸ List.mem_map_of_mem hj)
        · exact (hall j (List.mem_cons_of_mem _ hj)).2 hs

/-- The VLANs and interfaces of the router fit together, and OSPF is active on VLANs of its own. -/
structure Fits (names : List String) (c : RouterConfig) : Prop where
  vlans : (c.vlans.map (·.num)).Nodup
  ifaces : ∀ i ∈ c.ifaces, c.IfaceFits names i
  neighbors : (c.ifaces.map (·.neighbor)).Nodup
  active : ∀ o, c.ospf = some o → ∀ num ∈ o.active, num ∈ c.vlans.map (·.num)

theorem linkError?_eq_none : c.linkError? names = none ↔ c.Fits names := by
  simp only [linkError?, Option.orElse_eq_orElse, Option.orElse_eq_or, Option.or_eq_none_iff,
    Option.map_eq_none_iff, firstRepeated?_eq_none, ifaceError?_eq_none, List.find?_eq_none]
  have hactive : (∀ num ∈ c.ospf.elim [] (·.active), ¬ decide (num ∉ c.vlans.map (·.num)) = true) ↔
      ∀ o, c.ospf = some o → ∀ num ∈ o.active, num ∈ c.vlans.map (·.num) := by
    cases c.ospf <;> simp
  rw [hactive]
  constructor
  · rintro ⟨⟨hv, -⟩, ⟨hi, hn⟩, ha⟩
    exact ⟨hv, fun i h => (hi i h).1, hn, ha⟩
  · rintro ⟨hv, hi, hn, ha⟩
    exact ⟨⟨hv, fun _ _ => nofun⟩, ⟨fun i h => ⟨hi i h, nofun⟩, hn⟩, ha⟩

/-! ### A router without its sessions -/

theorem mem_linkIfaces {j : Interface} : j ∈ c.linkIfaces names id ↔
    ∃ i ∈ c.ifaces, names.idxOf? i.neighbor = some j.neighbor ∧ j = ⟨id, j.neighbor, i.vlan⟩ := by
  simp only [linkIfaces, List.mem_filterMap, Option.map_eq_some_iff]
  constructor
  · rintro ⟨i, hi, n, hn, rfl⟩
    exact ⟨i, hi, hn, rfl⟩
  · rintro ⟨i, hi, hn, hj⟩
    exact ⟨i, hi, j.neighbor, hn, hj.symm⟩

theorem eq_of_idxOf? {x y : String} {n : Nat} (hx : names.idxOf? x = some n)
    (hy : names.idxOf? y = some n) : x = y := by
  obtain ⟨h, rfl, -⟩ := List.idxOf?_eq_some_iff.mp hx
  obtain ⟨_, rfl, -⟩ := List.idxOf?_eq_some_iff.mp hy
  rfl

theorem nodup_linkIfaces (h : c.Fits names) :
    ((c.linkIfaces names id).map (·.neighbor)).Nodup := by
  have hn := h.neighbors
  unfold linkIfaces
  generalize c.ifaces = l at hn
  induction l with
  | nil => exact List.nodup_nil
  | cons i l ih =>
    obtain ⟨hi, hl⟩ := List.nodup_cons.mp hn
    rw [List.filterMap_cons]
    split
    · exact ih hl
    · next j hj =>
      refine List.nodup_cons.mpr ⟨fun hm => hi ?_, ih hl⟩
      obtain ⟨n, hn', rfl⟩ := Option.map_eq_some_iff.mp hj
      obtain ⟨k, hk, hkn⟩ := List.mem_map.mp hm
      obtain ⟨x, hx, hxk⟩ := List.mem_filterMap.mp hk
      obtain ⟨m, hm', rfl⟩ := Option.map_eq_some_iff.mp hxk
      have hmn : m = n := hkn
      subst hmn
      exact List.mem_map.mpr ⟨x, hx, eq_of_idxOf? hm' hn'⟩

theorem get?_link_ifaces (h : c.Fits names) {n : RouterId} {j : Interface} :
    (c.link names id).ifaces.get? n = some j ↔ j ∈ c.linkIfaces names id ∧ j.neighbor = n := by
  have hnd : (((c.linkIfaces names id).map fun i => (i.neighbor, i)).map (·.1)).Nodup := by
    rw [List.map_map]
    exact nodup_linkIfaces h
  change (OrdMap.ofList _).get? n = some j ↔ _
  rw [OrdMap.get?_ofList hnd, List.mem_map]
  constructor
  · rintro ⟨i, hi, he⟩
    cases he
    exact ⟨hi, rfl⟩
  · rintro ⟨hj, rfl⟩
    exact ⟨j, hj, rfl⟩

theorem get?_link_vlans (h : c.Fits names) {num : UInt32} {x : Vlan} :
    (c.link names id).vlans.get? num = some x ↔ ∃ v ∈ c.vlans, v.num = num ∧
      x = ⟨⟨id, num⟩, v.addr,
        ((c.linkIfaces names id).filter (·.num = some num)).map (·.neighbor)⟩ := by
  have hnd : (((c.linkVlans id (c.linkIfaces names id)).map fun v => (v.id.num, v)).map
      (·.1)).Nodup := by
    simp only [linkVlans, List.map_map]
    exact h.vlans
  change (OrdMap.ofList _).get? num = some x ↔ _
  rw [OrdMap.get?_ofList hnd]
  simp only [linkVlans, List.mem_map, List.map_map]
  constructor
  · rintro ⟨v, hv, he⟩
    cases he
    exact ⟨v, hv, rfl, rfl⟩
  · rintro ⟨v, hv, rfl, rfl⟩
    exact ⟨v, hv, rfl⟩

end RouterConfig

/-! ### The network of a consistent configuration -/

namespace NetworkConfig

variable {c : NetworkConfig} {i : RouterId} {v : VlanId}

/-- No search finds a fault. -/
structure Consistent (c : NetworkConfig) : Prop where
  names : c.names.Nodup
  routers : ∀ rc ∈ c.routers, rc.Fits c.names
  paired : ∀ r ∈ c.baseRouters, ∀ i ∈ r.ifaces.values, pairingError? c.baseRouters r i = none
  addresses : ((c.baseRouters.flatMap (·.vlans.values)).map (·.addr.addr)).Nodup
  neighbors : ∀ x ∈ c.bgpNeighbors, x.2.linkError? c c.baseRouters x.1 = none
  redistribution : ∀ r ∈ c.linkedRouters, redistributionError? r = none

theorem linkError?_eq_none : c.linkError? = none ↔ c.Consistent := by
  simp only [linkError?, baseError?, Option.orElse_eq_orElse, Option.orElse_eq_or,
    Option.or_eq_none_iff, Option.map_eq_none_iff, List.findSome?_eq_none_iff,
    firstRepeated?_eq_none, RouterConfig.linkError?_eq_none, addressError?_eq_none, List.map_id]
  constructor
  · rintro ⟨⟨⟨hn, -⟩, hr, hp, ha⟩, hb, hd⟩
    exact ⟨hn, hr, hp, ha, hb, hd⟩
  · rintro ⟨hn, hr, hp, ha, hb, hd⟩
    exact ⟨⟨⟨hn, fun _ _ => nofun⟩, hr, hp, ha⟩, hb, hd⟩

theorem link_eq_ok {net : Network} : c.link = .ok net ↔ c.Consistent ∧ net = c.assemble := by
  rw [← linkError?_eq_none, link]
  cases c.linkError? with
  | none => simp [eq_comm]
  | some e => simp

theorem getElem?_baseRouters :
    c.baseRouters[i]? = c.routers[i]?.map fun rc => rc.link c.names i := by
  rw [baseRouters, List.getElem?_map, List.getElem?_zipIdx, Nat.zero_add, Option.map_map]
  rfl

theorem router?_assemble : c.assemble.router? i =
    c.routers[i]?.map fun rc => (rc.link c.names i).withBgp c.baseRouters rc := by
  simp only [Network.router?, assemble, linkedRouters, List.getElem?_zipWith, getElem?_baseRouters]
  cases c.routers[i]? <;> rfl

theorem name_of_idxOf? {x : String} (hrc : c.routers[i]? = some rc)
    (hx : c.names.idxOf? x = some i) : rc.name = x := by
  obtain ⟨hlt, hname, -⟩ := List.idxOf?_eq_some_iff.mp hx
  obtain ⟨_, hget⟩ := List.getElem?_eq_some_iff.mp hrc
  rw [← hname, ← hget]
  simp [names]

/-- If no name comes twice, the router with a name is found. -/
theorem idxOf?_names (h : c.names.Nodup) {x : String} :
    c.names.idxOf? x = some i ↔ ∃ rc, c.routers[i]? = some rc ∧ rc.name = x := by
  rw [← Option.map_eq_some_iff (f := RouterConfig.name), ← List.getElem?_map, ← names,
    List.getElem?_eq_some_iff, List.idxOf?_eq_some_iff]
  constructor
  · rintro ⟨hlt, hname, -⟩
    exact ⟨hlt, hname⟩
  · rintro ⟨hlt, rfl⟩
    refine ⟨hlt, rfl, fun j hj heq => ?_⟩
    exact Nat.ne_of_lt hj ((List.getElem_inj h).mp heq)

theorem routerId?_assemble (x : String) : c.assemble.routerId? x = c.names.idxOf? x := by
  have hnames : c.assemble.routers.map (·.name) = c.names := by
    refine List.ext_getElem? fun i => ?_
    have hi : c.assemble.routers[i]? = _ := router?_assemble
    rw [names, List.getElem?_map, List.getElem?_map, hi]
    cases c.routers[i]? <;> rfl
  rw [← hnames, List.idxOf?, List.findIdx?_map]
  rfl

theorem iface?_assemble (h : c.Consistent) {n : RouterId} {j : Interface} :
    c.assemble.iface? i n = some j ↔
      ∃ rc, c.routers[i]? = some rc ∧ j ∈ rc.linkIfaces c.names i ∧ j.neighbor = n := by
  simp only [Network.iface?, router?_assemble, Option.bind_eq_some_iff, Option.map_eq_some_iff]
  constructor
  · rintro ⟨_, ⟨rc, hrc, rfl⟩, hj⟩
    exact ⟨rc, hrc, (RouterConfig.get?_link_ifaces (h.routers rc (List.mem_of_getElem? hrc))).mp hj⟩
  · rintro ⟨rc, hrc, hj⟩
    exact ⟨_, ⟨rc, hrc, rfl⟩,
      (RouterConfig.get?_link_ifaces (h.routers rc (List.mem_of_getElem? hrc))).mpr hj⟩

theorem vlan?_assemble (h : c.Consistent) {x : Vlan} :
    c.assemble.vlan? v = some x ↔
      ∃ rc, c.routers[v.router]? = some rc ∧ ∃ vc ∈ rc.vlans, vc.num = v.num ∧
        x = ⟨v, vc.addr, ((rc.linkIfaces c.names v.router).filter
          (·.num = some v.num)).map (·.neighbor)⟩ := by
  simp only [Network.vlan?, router?_assemble, Option.bind_eq_some_iff, Option.map_eq_some_iff]
  constructor
  · rintro ⟨_, ⟨rc, hrc, rfl⟩, hx⟩
    exact ⟨rc, hrc, (RouterConfig.get?_link_vlans (h.routers rc (List.mem_of_getElem? hrc))).mp hx⟩
  · rintro ⟨rc, hrc, hx⟩
    exact ⟨_, ⟨rc, hrc, rfl⟩,
      (RouterConfig.get?_link_vlans (h.routers rc (List.mem_of_getElem? hrc))).mpr hx⟩

theorem isSome_vlan? (h : c.Consistent) {rc : RouterConfig} (hrc : c.routers[v.router]? = some rc) :
    (c.assemble.vlan? v).isSome ↔ v.num ∈ rc.vlans.map (·.num) := by
  rw [Option.isSome_iff_exists, List.mem_map]
  constructor
  · rintro ⟨x, hx⟩
    obtain ⟨rc', hrc', vc, hvc, hnum, -⟩ := (vlan?_assemble h).mp hx
    cases hrc.symm.trans hrc'
    exact ⟨vc, hvc, hnum⟩
  · rintro ⟨vc, hvc, hnum⟩
    exact ⟨_, (vlan?_assemble h).mpr ⟨rc, hrc, vc, hvc, hnum, rfl⟩⟩

/-- The VLANs of a router before the sessions are linked are those of the network. -/
theorem vlan?_of_mem_values (h : c.Consistent) {rc : RouterConfig}
    (hrc : c.routers[i]? = some rc) {x : Vlan} (hx : x ∈ (rc.link c.names i).vlans.values) :
    x.id.router = i ∧ c.assemble.vlan? x.id = some x := by
  obtain ⟨num, hnum⟩ := OrdMap.mem_values.mp hx
  obtain ⟨vc, hvc, hv, rfl⟩ :=
    (RouterConfig.get?_link_vlans (h.routers rc (List.mem_of_getElem? hrc))).mp hnum
  exact ⟨rfl, (vlan?_assemble h).mpr ⟨rc, hrc, vc, hvc, hv, rfl⟩⟩

theorem mem_baseRouters {r : Router} :
    r ∈ c.baseRouters ↔ ∃ (i : RouterId) (rc : RouterConfig),
      c.routers[i]? = some rc ∧ r = rc.link c.names i := by
  rw [List.mem_iff_getElem?]
  constructor
  · rintro ⟨i, hi⟩
    rw [getElem?_baseRouters] at hi
    obtain ⟨rc, hrc, rfl⟩ := Option.map_eq_some_iff.mp hi
    exact ⟨i, rc, hrc, rfl⟩
  · rintro ⟨i, rc, hrc, rfl⟩
    exact ⟨i, by rw [getElem?_baseRouters, hrc]; rfl⟩

/-! ### Sessions -/

theorem mem_sessions {rc : RouterConfig} {base : List Router} {r : Router} {s : Session} :
    s ∈ (r.withBgp base rc).sessions ↔
      ∃ b, rc.bgp = some b ∧ ∃ n ∈ b.neighbors, n.2.link? base r n.1 = some s := by
  cases hb : rc.bgp with
  | none => simp [Router.sessions, Router.withBgp, hb]
  | some b => simp [Router.sessions, Router.withBgp, hb]

theorem vlanWithAddress?_baseRouters (h : c.Consistent) {a : IpAddr}
    (hv : vlanWithAddress? c.baseRouters a = some v) : (c.assemble.vlan? v).isSome := by
  obtain ⟨x, hx, rfl⟩ := Option.map_eq_some_iff.mp hv
  obtain ⟨r, hr, hxr⟩ := List.mem_flatMap.mp (List.mem_of_find?_eq_some hx)
  obtain ⟨i, rc, hrc, rfl⟩ := mem_baseRouters.mp hr
  rw [(vlan?_of_mem_values h hrc hxr).2]
  rfl

theorem mem_bgpNeighbors {rc : RouterConfig} {b : BgpConfig} {n : SessionType × NeighborConfig}
    (hrc : c.routers[i]? = some rc) (hb : rc.bgp = some b) (hn : n ∈ b.neighbors) :
    (rc.link c.names i, n.2) ∈ c.bgpNeighbors := by
  refine List.mem_flatMap.mpr ⟨(rc.link c.names i, rc), ?_, ?_⟩
  · refine List.mem_of_getElem? (i := i) ?_
    rw [List.getElem?_zip_eq_some]
    exact ⟨by rw [getElem?_baseRouters, hrc]; rfl, hrc⟩
  · simp only [hb, Option.elim_some]
    exact List.mem_map.mpr ⟨n, hn, rfl⟩

theorem exists_of_mem_bgpNeighbors {x : Router × NeighborConfig} (hx : x ∈ c.bgpNeighbors) :
    ∃ (i : RouterId) (rc : RouterConfig) (b : BgpConfig) (n : SessionType × NeighborConfig),
      c.routers[i]? = some rc ∧ rc.bgp = some b ∧ n ∈ b.neighbors ∧
        x = (rc.link c.names i, n.2) := by
  obtain ⟨⟨r, rc⟩, hr, hx⟩ := List.mem_flatMap.mp hx
  obtain ⟨i, hi⟩ := List.mem_iff_getElem?.mp hr
  obtain ⟨hbase, hrc⟩ := List.getElem?_zip_eq_some.mp hi
  rw [getElem?_baseRouters, hrc] at hbase
  obtain rfl : rc.link c.names i = r := Option.some.inj hbase
  obtain ⟨n, hn, rfl⟩ := List.mem_map.mp hx
  cases hb : rc.bgp with
  | none =>
    rw [hb] at hn
    cases hn
  | some b =>
    rw [hb] at hn
    exact ⟨i, rc, b, n, hrc, hb, hn, rfl⟩

theorem peer_of_link? (h : c.Consistent) {rc : RouterConfig} {b : BgpConfig}
    {n : SessionType × NeighborConfig} {s : Session} (hrc : c.routers[i]? = some rc)
    (hb : rc.bgp = some b) (hn : n ∈ b.neighbors)
    (hs : n.2.link? c.baseRouters (rc.link c.names i) n.1 = some s) :
    s.peer ≠ i ∧ s.peerVlan.router = s.peer ∧ (c.assemble.vlan? s.peerVlan).isSome ∧
      ∃ p, c.assemble.router? s.peer = some p ∧ p.bgp.isSome := by
  have herr := h.neighbors _ (mem_bgpNeighbors hrc hb hn)
  obtain ⟨w, hw, rfl⟩ := Option.map_eq_some_iff.mp hs
  obtain ⟨hwa, hne⟩ := Option.filter_eq_some_iff.mp hw
  have hvlan := vlanWithAddress?_baseRouters h hwa
  refine ⟨by simpa [RouterConfig.link] using hne, rfl, hvlan, ?_⟩
  obtain ⟨x, hx⟩ := Option.isSome_iff_exists.mp hvlan
  obtain ⟨pc, hpc, -⟩ := (vlan?_assemble h).mp hx
  have hbgp : pc.bgp.isSome := by
    simp only [NeighborConfig.linkError?, hw, hpc] at herr
    by_contra hnone
    rw [if_pos (by simpa using hnone)] at herr
    cases herr
  refine ⟨_, by rw [router?_assemble, hpc]; rfl, ?_⟩
  simpa [Router.withBgp] using hbgp

/-! ### All references -/

theorem linked_assemble (h : c.Consistent) : c.assemble.Linked where
  id_eq := by
    intro i r hr
    rw [router?_assemble] at hr
    obtain ⟨rc, -, rfl⟩ := Option.map_eq_some_iff.mp hr
    rfl
  iface := by
    intro r n j hj
    obtain ⟨rc, -, hm, hn⟩ := (iface?_assemble h).mp hj
    obtain ⟨_, _, _, hjr⟩ := RouterConfig.mem_linkIfaces.mp hm
    exact ⟨by rw [hjr], hn⟩
  paired := by
    intro r n j hj
    obtain ⟨rc, hrc, hm, rfl⟩ := (iface?_assemble h).mp hj
    have hval : j ∈ (rc.link c.names r).ifaces.values :=
      OrdMap.mem_values.mpr ⟨j.neighbor, (RouterConfig.get?_link_ifaces
        (h.routers rc (List.mem_of_getElem? hrc))).mpr ⟨hm, rfl⟩⟩
    have herr := h.paired _ (mem_baseRouters.mpr ⟨r, rc, hrc, rfl⟩) j hval
    obtain ⟨ic, -, hidx, -⟩ := RouterConfig.mem_linkIfaces.mp hm
    obtain ⟨hlt, -, -⟩ := List.idxOf?_eq_some_iff.mp hidx
    obtain ⟨nc, hnc⟩ : ∃ nc, c.routers[j.neighbor]? = some nc :=
      ⟨_, List.getElem?_eq_getElem (by simpa [names] using hlt)⟩
    simp only [pairingError?, getElem?_baseRouters, hnc, Option.map_some] at herr
    split at herr
    · cases herr
    · next k hk =>
      refine ⟨k, (iface?_assemble h).mpr ⟨nc, hnc, (RouterConfig.get?_link_ifaces
        (h.routers nc (List.mem_of_getElem? hnc))).mp hk⟩, ?_⟩
      by_contra hne
      rw [if_neg (fun he => hne he.symm)] at herr
      cases herr
  iface_vlan := by
    intro r n j v hj hv
    obtain ⟨rc, hrc, hm, -⟩ := (iface?_assemble h).mp hj
    obtain ⟨ic, hic, -, hjr⟩ := RouterConfig.mem_linkIfaces.mp hm
    obtain ⟨num, hnum, rfl⟩ := Option.map_eq_some_iff.mp hv
    have hr : j.router = r := by rw [hjr]
    rw [hjr] at hnum
    subst hr
    refine (isSome_vlan? h (v := ⟨j.router, num⟩) hrc).mpr ?_
    exact ((h.routers rc (List.mem_of_getElem? hrc)).ifaces ic hic).2.2 num hnum
  vlan_id := by
    intro v x hx
    obtain ⟨rc, -, vc, -, -, rfl⟩ := (vlan?_assemble h).mp hx
    rfl
  members := by
    intro v x n hx
    obtain ⟨rc, hrc, vc, -, -, rfl⟩ := (vlan?_assemble h).mp hx
    simp only [List.mem_map, List.mem_filter, decide_eq_true_eq]
    constructor
    · rintro ⟨j, ⟨hm, hnum⟩, rfl⟩
      refine ⟨j, (iface?_assemble h).mpr ⟨rc, hrc, hm, rfl⟩, ?_⟩
      obtain ⟨_, _, _, hjr⟩ := RouterConfig.mem_linkIfaces.mp hm
      have hr : j.router = v.router := by rw [hjr]
      rw [Interface.vlan, hnum, hr]
      rfl
    · rintro ⟨j, hj, hv⟩
      obtain ⟨rc', hrc', hm, rfl⟩ := (iface?_assemble h).mp hj
      cases hrc.symm.trans hrc'
      obtain ⟨num, hnum, rfl⟩ := Option.map_eq_some_iff.mp hv
      exact ⟨j, ⟨hm, hnum⟩, rfl⟩
  active := by
    intro i r num hr ha
    rw [router?_assemble] at hr
    obtain ⟨rc, hrc, rfl⟩ := Option.map_eq_some_iff.mp hr
    refine (isSome_vlan? h (v := ⟨i, num⟩) hrc).mpr ?_
    cases ho : rc.ospf with
    | none => simp [Router.ospfActive, Router.withBgp, RouterConfig.link, ho] at ha
    | some o =>
      simp only [Router.ospfActive, Router.withBgp, RouterConfig.link, ho, Option.map_some,
        Option.any_some, decide_eq_true_eq, OrdSet.mem_ofList] at ha
      exact (h.routers rc (List.mem_of_getElem? hrc)).active o ho num ha
  peer := by
    intro i r s hr hs
    rw [router?_assemble] at hr
    obtain ⟨rc, hrc, rfl⟩ := Option.map_eq_some_iff.mp hr
    obtain ⟨b, hb, n, hn, hs⟩ := mem_sessions.mp hs
    exact peer_of_link? h hrc hb hn hs
  localVlan := by
    intro i r s v hr hs hv
    rw [router?_assemble] at hr
    obtain ⟨rc, hrc, rfl⟩ := Option.map_eq_some_iff.mp hr
    obtain ⟨b, hb, n, hn, hs⟩ := mem_sessions.mp hs
    obtain ⟨w, -, rfl⟩ := Option.map_eq_some_iff.mp hs
    obtain ⟨x, hx, rfl⟩ := Option.map_eq_some_iff.mp hv
    obtain ⟨hid, hvlan⟩ := vlan?_of_mem_values h hrc (List.mem_of_find?_eq_some hx)
    exact ⟨hid, by rw [hvlan]; rfl⟩
  ospfFromBgp := by
    intro i r hr ho
    exact (redistributionError?_eq_none.mp (h.redistribution r (List.mem_of_getElem? hr))).1 ho
  bgpFromOspf := by
    intro i r hr hb
    exact (redistributionError?_eq_none.mp (h.redistribution r (List.mem_of_getElem? hr))).2 hb

/-- **The references of a network that was linked fit together.** -/
theorem linked_of_link {net : Network} (h : c.link = .ok net) : net.Linked := by
  obtain ⟨hc, rfl⟩ := link_eq_ok.mp h
  exact linked_assemble hc

end NetworkConfig

end NetReach
