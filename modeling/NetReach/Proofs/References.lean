import Mathlib.Data.List.Nodup
import NetReach.Example
import NetReach.Proofs.Layer2

/-! # The references of a linked network

A network that was linked knows every router by its position in the configuration and by its name,
and every reference leads where it should (`Network.Resolves`): from an interface to its counterpart
and back, from a VLAN to the interfaces that belong to it, from a session to the one VLAN that
carries its address and to the first VLAN of the router whose block holds it. -/

namespace NetReach

/-! ### What is found in a list by a key -/

section Find

variable {α β : Type} {l : List α} {a : α} {p : α → Bool}

/-- Of the items with pairwise different keys, the one with the key `k` is found. -/
theorem find?_eq_some_iff_of_nodup [DecidableEq β] {key : α → β} {k : β}
    (hl : (l.map key).Nodup) : l.find? (key · = k) = some a ↔ a ∈ l ∧ key a = k := by
  constructor
  · intro h
    exact ⟨List.mem_of_find?_eq_some h, of_decide_eq_true (List.find?_some (p := (key · = k)) h)⟩
  · rintro ⟨ha, rfl⟩
    have hfound : (l.find? (key · = key a)).isSome = true :=
      List.find?_isSome.mpr ⟨a, ha, decide_eq_true rfl⟩
    obtain ⟨b, hb⟩ := Option.isSome_iff_exists.mp hfound
    have hkey : key b = key a := of_decide_eq_true (List.find?_some (p := (key · = key a)) hb)
    rw [hb, List.inj_on_of_nodup_map hl (List.mem_of_find?_eq_some hb) ha hkey]

/-- In a list with ascending keys the first item that satisfies `p` is the one with the least
key. -/
theorem find?_eq_some_iff_of_ascending {key : α → Nat}
    (hl : l.Pairwise fun a b => key a < key b) :
    l.find? p = some a ↔ a ∈ l ∧ p a = true ∧ ∀ b ∈ l, p b = true → key a ≤ key b := by
  have hleast : ∀ {a}, l.find? p = some a → ∀ b ∈ l, p b = true → key a ≤ key b := by
    intro a h b hb hpb
    obtain ⟨-, pre, post, rfl, hpre⟩ := List.find?_eq_some_iff_append.mp h
    rcases List.mem_append.mp hb with hb | hb
    · exact absurd hpb (by simpa using hpre b hb)
    · rcases List.mem_cons.mp hb with rfl | hb
      · exact Nat.le_refl _
      · exact Nat.le_of_lt (List.rel_of_pairwise_cons (List.pairwise_append.mp hl).2.1 hb)
  constructor
  · intro h
    exact ⟨List.mem_of_find?_eq_some h, List.find?_some h, hleast h⟩
  · rintro ⟨ha, hpa, hmin⟩
    obtain ⟨b, hb⟩ := Option.isSome_iff_exists.mp (List.find?_isSome.mpr ⟨a, ha, hpa⟩)
    have hb' := List.mem_of_find?_eq_some hb
    have hkey : key b = key a :=
      Nat.le_antisymm (hleast hb a ha hpa) (hmin b hb' (List.find?_some hb))
    have hnodup : (l.map key).Nodup := List.pairwise_map.mpr (hl.imp Nat.ne_of_lt)
    rw [hb, List.inj_on_of_nodup_map hnodup hb' ha hkey]

end Find

/-- If no two VLANs carry the same address, the one with an address is found. -/
theorem vlanWithAddress?_eq_some {rs : List Router} {a : IpAddr} {v : VlanId}
    (h : ((rs.flatMap (·.vlans.values)).map (·.addr.addr)).Nodup) :
    vlanWithAddress? rs a = some v ↔
      ∃ x ∈ rs.flatMap (·.vlans.values), x.addr.addr = a ∧ x.id = v := by
  rw [vlanWithAddress?, Option.map_eq_some_iff]
  simp only [find?_eq_some_iff_of_nodup h, and_assoc]

/-- What the references of a network lead to that was linked from the configuration `c`. -/
structure Network.Resolves (net : Network) (c : NetworkConfig) : Prop where
  /-- Routers have the positions of the configuration, which are their identifiers. -/
  router : ∀ i, (net.router? i).map (fun r => (r.id, r.name)) =
    (c.routers[i]?).map fun rc => (i, rc.name)
  /-- A name is looked up to the identifier of the router that has it. -/
  routerId? : ∀ name i,
    net.routerId? name = some i ↔ i < net.routers.length ∧ net.routerName i = name
  /-- The counterpart of an interface has the interface as its counterpart. -/
  paired : ∀ r ∈ net.routers, ∀ i ∈ r.ifaces.values,
    ∃ j, net.peerIface? i = some j ∧ net.peerIface? j = some i
  /-- The members of a VLAN are the neighbours whose interfaces belong to it. -/
  members : ∀ r ∈ net.routers, ∀ x ∈ r.vlans.values, ∀ n,
    n ∈ x.members ↔ ∃ i, net.iface? r.id n = some i ∧ i.vlan = some x.id
  nodup_members : ∀ r ∈ net.routers, ∀ x ∈ r.vlans.values, x.members.Nodup
  /-- A link leads from one VLAN to another and back. -/
  linkedTo_comm : ∀ v w, w ∈ net.linkedTo v ↔ v ∈ net.linkedTo w
  /-- A router has the sessions that are configured, in their order. -/
  sessions : ∀ i r rc, net.router? i = some r → c.routers[i]? = some rc →
    r.sessions.map (fun s => (s.type, s.addr)) =
      (rc.bgp.elim [] (·.neighbors)).map fun n => (n.1, n.2.addr)
  /-- A session knows the only VLAN with its address; it is on another router, which runs BGP. -/
  peer : ∀ r ∈ net.routers, ∀ s ∈ r.sessions,
    (∀ x ∈ net.vlans, x.addr.addr = s.addr ↔ x.id = s.peerVlan) ∧
      (∃ x ∈ net.vlans, x.id = s.peerVlan) ∧ s.peerVlan.router = s.peer ∧ s.peer ≠ r.id ∧
      ∃ p, net.router? s.peer = some p ∧ p.bgp.isSome = true
  /-- A session is local on no VLAN if the block of none holds its address. -/
  localVlan_eq_none : ∀ r ∈ net.routers, ∀ s ∈ r.sessions,
    s.localVlan = none ↔ ∀ x ∈ r.vlans.values, x.addr.contains s.addr = false
  /-- Otherwise it is local on the VLAN with the least number whose block holds its address. -/
  localVlan_eq_some : ∀ r ∈ net.routers, ∀ s ∈ r.sessions, ∀ v,
    s.localVlan = some v ↔ ∃ x ∈ r.vlans.values, x.id = v ∧ x.addr.contains s.addr = true ∧
      ∀ y ∈ r.vlans.values, y.addr.contains s.addr = true → x.id.num ≤ y.id.num

namespace NetworkConfig

variable {c : NetworkConfig} {i : RouterId} {rc : RouterConfig} {v : VlanId} {a : IpAddr}

/-! ### Routers -/

theorem exists_of_mem_routers {r : Router} (hr : r ∈ c.assemble.routers) :
    ∃ rc, c.routers[r.id]? = some rc ∧ r = (rc.link c.names r.id).withBgp c.baseRouters rc := by
  obtain ⟨i, hi⟩ := List.mem_iff_getElem?.mp hr
  obtain ⟨rc, hrc, rfl⟩ := Option.map_eq_some_iff.mp (router?_assemble.symm.trans hi)
  exact ⟨rc, hrc, rfl⟩

theorem routerName_assemble (hrc : c.routers[i]? = some rc) :
    c.assemble.routerName i = rc.name := by
  rw [Network.routerName, router?_assemble, hrc]
  rfl

theorem length_routers_assemble : c.assemble.routers.length = c.routers.length := by
  simp [assemble, linkedRouters, baseRouters]

/-! ### VLANs -/

/-- The VLANs of a router come in the order of their numbers. -/
theorem pairwise_vlans (hf : rc.Fits c.names) :
    (rc.link c.names i).vlans.values.Pairwise fun x y => x.id.num.toNat < y.id.num.toNat := by
  have hnum : ∀ e ∈ (rc.link c.names i).vlans.entries, e.2.id.num = e.1 := by
    intro ⟨num, x⟩ he
    obtain ⟨_, _, _, rfl⟩ := (RouterConfig.get?_link_vlans hf).mp (OrdMap.mem_entries.mp he)
    rfl
  refine List.pairwise_map.mpr ((rc.link c.names i).vlans.ascending.imp_of_mem ?_)
  intro d e hd he hlt
  rw [hnum d hd, hnum e he]
  exact UInt32.lt_iff_toNat_lt.mp (Std.compare_eq_lt.mp hlt)

theorem vlans_assemble : c.assemble.vlans = c.baseRouters.flatMap (·.vlans.values) := by
  rw [Network.vlans, List.flatMap_def, List.flatMap_def]
  congr 1
  refine List.ext_getElem? fun i => ?_
  have hi : c.assemble.routers[i]? = _ := router?_assemble
  rw [List.getElem?_map, List.getElem?_map, hi, getElem?_baseRouters]
  cases c.routers[i]? <;> rfl

theorem vlanWithAddress?_baseRouters_eq_some (h : c.Consistent) :
    vlanWithAddress? c.baseRouters a = some v ↔
      ∃ x ∈ c.assemble.vlans, x.addr.addr = a ∧ x.id = v := by
  rw [vlans_assemble]
  exact vlanWithAddress?_eq_some h.addresses

/-! ### Sessions -/

theorem map_sessions (h : c.Consistent) (hrc : c.routers[i]? = some rc) :
    ((rc.link c.names i).withBgp c.baseRouters rc).sessions.map (fun s => (s.type, s.addr)) =
      (rc.bgp.elim [] (·.neighbors)).map fun n => (n.1, n.2.addr) := by
  cases hb : rc.bgp with
  | none => simp [Router.sessions, Router.withBgp, hb]
  | some b =>
    have hlinks : ∀ n ∈ b.neighbors,
        (n.2.link? c.baseRouters (rc.link c.names i) n.1).map (fun s => (s.type, s.addr)) =
          some (n.1, n.2.addr) := by
      intro n hn
      obtain ⟨v, hv, -⟩ := NeighborConfig.linkError?_eq_none.mp
        (h.neighbors _ (mem_bgpNeighbors hrc hb hn))
      rw [NeighborConfig.link?, hv]
      rfl
    simp only [Router.sessions, Router.withBgp, hb, Option.map_some, Option.elim_some]
    rw [List.map_filterMap, List.filterMap_congr hlinks]
    rw [List.filterMap_eq_map']

/-- Where a session comes from. -/
theorem exists_of_mem_sessions {r : Router} {s : Session}
    (hr : r ∈ c.assemble.routers) (hs : s ∈ r.sessions) :
    ∃ rc, c.routers[r.id]? = some rc ∧ r.vlans = (rc.link c.names r.id).vlans ∧
      vlanWithAddress? c.baseRouters s.addr = some s.peerVlan ∧ s.peerVlan.router = s.peer ∧
      s.localVlan = (r.vlans.values.find? (·.addr.contains s.addr)).map (·.id) := by
  obtain ⟨rc, hrc, hr'⟩ := exists_of_mem_routers hr
  have hvlans : r.vlans = (rc.link c.names r.id).vlans := by
    rw [hr']
    rfl
  rw [hr'] at hs
  obtain ⟨b, -, n, -, hn⟩ := mem_sessions.mp hs
  obtain ⟨w, hw, rfl⟩ := Option.map_eq_some_iff.mp hn
  refine ⟨rc, hrc, hvlans, (Option.filter_eq_some_iff.mp hw).1, rfl, ?_⟩
  rw [hvlans]
  rfl

/-! ### All of them -/

theorem resolves_assemble (h : c.Consistent) : c.assemble.Resolves c := by
  have hn := linked_assemble h
  constructor
  case router =>
    intro i
    rw [router?_assemble]
    cases c.routers[i]? <;> rfl
  case routerId? =>
    intro x i
    rw [routerId?_assemble, idxOf?_names h.names, length_routers_assemble]
    constructor
    · rintro ⟨rc, hrc, hname⟩
      exact ⟨(List.getElem?_eq_some_iff.mp hrc).1, (routerName_assemble hrc).trans hname⟩
    · rintro ⟨hlt, hname⟩
      have hrc : c.routers[i]? = some c.routers[i] := List.getElem?_eq_getElem hlt
      exact ⟨_, hrc, (routerName_assemble hrc).symm.trans hname⟩
  case paired =>
    intro r hr i hi
    obtain ⟨n, hn'⟩ := OrdMap.mem_values.mp hi
    have hiface : c.assemble.iface? r.id n = some i := by
      rw [Network.iface?, hn.router?_of_mem hr]
      exact hn'
    obtain ⟨j, hj, -⟩ := hn.paired hiface
    obtain ⟨hir, hin⟩ := hn.iface hiface
    obtain ⟨hjr, hjn⟩ := hn.iface hj
    rw [Network.peerIface?, hir, hin]
    refine ⟨j, hj, ?_⟩
    rw [Network.peerIface?, hjr, hjn]
    exact hiface
  case members =>
    intro r hr x hx n
    obtain ⟨hvlan, hid⟩ := (Network.mem_vlans_of_router? hn (hn.router?_of_mem hr)).mp hx
    rw [hn.members hvlan, hid]
  case nodup_members =>
    intro r hr x hx
    obtain ⟨rc, hrc, hr'⟩ := exists_of_mem_routers hr
    have hf := h.routers rc (List.mem_of_getElem? hrc)
    rw [hr'] at hx
    obtain ⟨num, hnum⟩ := OrdMap.mem_values.mp hx
    obtain ⟨_, -, -, rfl⟩ := (RouterConfig.get?_link_vlans hf).mp hnum
    exact (List.filter_sublist.map _).nodup (RouterConfig.nodup_linkIfaces hf)
  case linkedTo_comm =>
    intro v w
    rw [Network.mem_linkedTo hn, Network.mem_linkedTo hn]
    exact ⟨.symm, .symm⟩
  case sessions =>
    intro i r rc hr hrc
    rw [router?_assemble, hrc] at hr
    obtain rfl := Option.some.inj hr
    exact map_sessions h hrc
  case peer =>
    intro r hr s hs
    obtain ⟨rc, -, -, haddr, hrouter, -⟩ := exists_of_mem_sessions hr hs
    obtain ⟨hne, -, -, hbgp⟩ := hn.peer (hn.router?_of_mem hr) hs
    obtain ⟨x, hx, hxa, hxv⟩ := (vlanWithAddress?_baseRouters_eq_some h).mp haddr
    refine ⟨fun y hy => ⟨fun hya => ?_, fun hyv => ?_⟩, ⟨x, hx, hxv⟩, hrouter, hne, hbgp⟩
    · have hy' := (vlanWithAddress?_baseRouters_eq_some h).mpr ⟨y, hy, hya, rfl⟩
      exact Option.some.inj (hy'.symm.trans haddr)
    · have hids : ∀ z ∈ c.assemble.vlans, c.assemble.vlan? z.id = some z := by
        intro z hz
        obtain ⟨r', hr', hz⟩ := List.mem_flatMap.mp hz
        exact ((Network.mem_vlans_of_router? hn (hn.router?_of_mem hr')).mp hz).1
      have hyx : some y = some x := by rw [← hids y hy, ← hids x hx, hyv, hxv]
      rw [Option.some.inj hyx, hxa]
  case localVlan_eq_none =>
    intro r hr s hs
    obtain ⟨rc, -, -, -, -, hlocal⟩ := exists_of_mem_sessions hr hs
    rw [hlocal, Option.map_eq_none_iff, List.find?_eq_none]
    simp only [Bool.not_eq_true]
  case localVlan_eq_some =>
    intro r hr s hs v
    obtain ⟨rc, hrc, hvlans, -, -, hlocal⟩ := exists_of_mem_sessions hr hs
    have hpairwise := pairwise_vlans (i := r.id) (h.routers rc (List.mem_of_getElem? hrc))
    rw [← hvlans] at hpairwise
    rw [hlocal, Option.map_eq_some_iff]
    simp only [find?_eq_some_iff_of_ascending hpairwise, ← UInt32.le_iff_toNat_le]
    constructor
    · rintro ⟨x, ⟨hx, hc, hmin⟩, rfl⟩
      exact ⟨x, hx, rfl, hc, hmin⟩
    · rintro ⟨x, hx, rfl, hc, hmin⟩
      exact ⟨x, ⟨hx, hc, hmin⟩, rfl⟩

end NetworkConfig

/-- **The references of a network that was linked lead where they should.** -/
theorem Network.resolves_of_link {c : NetworkConfig} {net : Network} (h : c.link = .ok net) :
    net.Resolves c := by
  obtain ⟨hc, rfl⟩ := NetworkConfig.link_eq_ok.mp h
  exact NetworkConfig.resolves_assemble hc

/-- In the iBGP mesh, the session of the second router with the fourth is resolved to VLAN 23 of
that router, and is local on no VLAN. -/
theorem Network.resolves_of_link_ibgpMesh :
    Example.ibgpMeshConfig.link = .ok Example.ibgpMeshConfig.assemble ∧
    ∃ r ∈ Example.ibgpMeshConfig.assemble.routers, ∃ s ∈ r.sessions, s.peerVlan = ⟨3, 23⟩ ∧
      (∃ p, Example.ibgpMeshConfig.assemble.router? 3 = some p ∧ p.bgp.isSome = true) ∧
      ∀ x ∈ r.vlans.values, x.addr.contains s.addr = false := by
  have hlink : Example.ibgpMeshConfig.link = .ok Example.ibgpMeshConfig.assemble := rfl
  have hfound : ∃ r ∈ Example.ibgpMeshConfig.assemble.routers, ∃ s ∈ r.sessions,
      s.peer = 3 ∧ s.peerVlan = ⟨3, 23⟩ ∧ s.localVlan = none := by decide +kernel
  obtain ⟨r, hr, s, hs, hpeer, hvlan, hlocal⟩ := hfound
  have hres := resolves_of_link hlink
  obtain ⟨-, -, -, -, hbgp⟩ := hres.peer r hr s hs
  exact ⟨hlink, r, hr, s, hs, hvlan, hpeer ▸ hbgp, (hres.localVlan_eq_none r hr s hs).mp hlocal⟩

end NetReach
