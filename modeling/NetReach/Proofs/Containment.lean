import Mathlib.Data.List.Perm.Subperm
import NetReach.Proofs.Faults
import NetReach.Proofs.Part

/-! # Configurations contained in another

A configuration is contained in another (`NetworkConfig.Within`) if it has the same routers with the
same VLANs, processes and subnets, in any order, and of the other entries no more than the other
one; of the interfaces of a link it has both or none. The routers are matched by an injective map
`φ` of their positions. What is contained in a well-formed configuration is well formed
(`Within.wellFormed`): no reference leads to an entry that may be missing. Its network is a part of
the network of the other (`Within.part`), because the order of the entries decides nothing: an
address is that of one VLAN, and the VLANs of a router are searched by number. -/

namespace NetReach

variable {φ : RouterId ↪ RouterId}

/-! ### Entries -/

/-- The processes originate the same subnets, and the first one does no more than the other. -/
structure OspfConfig.Within (o' o : OspfConfig) : Prop where
  origins : o'.origins.Perm o.origins
  active : o'.active.Subperm o.active
  redistribute : o'.redistribute.Subperm o.redistribute

/-- The processes originate the same subnets, and the first one does no more than the other. -/
structure BgpConfig.Within (b' b : BgpConfig) : Prop where
  origins : b'.origins.Perm b.origins
  external : b'.external.Subperm b.external
  internal : b'.internal.Subperm b.internal
  redistribute : b'.redistribute.Subperm b.redistribute

/-- The routers have the same VLANs, processes and subnets, and the first one has no more interfaces
and sessions than the other. -/
structure RouterConfig.Within (rc' rc : RouterConfig) : Prop where
  name : rc'.name = rc.name
  vlans : rc'.vlans.Perm rc.vlans
  subnets : rc'.subnets.Perm rc.subnets
  ifaces : rc'.ifaces.Subperm rc.ifaces
  ospf : Option.Rel OspfConfig.Within rc'.ospf rc.ospf
  bgp : Option.Rel BgpConfig.Within rc'.bgp rc.bgp

/-- The configurations have the same policies and, at the positions that `φ` matches, the same
routers, and the first one has no more entries than the other, of interfaces always both of a
link. -/
structure NetworkConfig.Within (φ : RouterId ↪ RouterId) (c' c : NetworkConfig) : Prop where
  policies : c'.policies = c.policies
  router : ∀ {i : RouterId} {rc' : RouterConfig}, c'.routers[i]? = some rc' →
    ∃ rc, c.routers[φ i]? = some rc ∧ rc'.Within rc
  all : ∀ {j : RouterId} {rc : RouterConfig}, c.routers[j]? = some rc →
    ∃ i rc', φ i = j ∧ c'.routers[i]? = some rc'
  paired : ∀ {j : RouterId} {rc' nc' nc : RouterConfig}, rc' ∈ c'.routers →
    c'.routers[j]? = some nc' → c.routers[φ j]? = some nc →
    nc.name ∈ rc'.ifaces.map (·.neighbor) → ∀ k ∈ nc.ifaces, k.neighbor = rc'.name → k ∈ nc'.ifaces

section Rel

variable {α β : Type} {R : α → β → Prop} {o : Option α} {p : Option β}

theorem exists_of_rel_left {a : α} (h : Option.Rel R o p) (ho : o = some a) :
    ∃ b, p = some b ∧ R a b := by
  cases h with
  | some h =>
    cases ho
    exact ⟨_, rfl, h⟩
  | none => cases ho

theorem exists_of_rel_right {b : β} (h : Option.Rel R o p) (hp : p = some b) :
    ∃ a, o = some a ∧ R a b := by
  cases h with
  | some h =>
    cases hp
    exact ⟨_, rfl, h⟩
  | none => cases hp

theorem isSome_eq_of_rel (h : Option.Rel R o p) : o.isSome = p.isSome := by
  cases h <;> rfl

end Rel

/-- No key comes twice in a list that is contained in one where none does. -/
theorem nodup_map_of_subperm {α β : Type} {f : α → β} {l m : List α} (h : l.Subperm m)
    (hm : (m.map f).Nodup) : (l.map f).Nodup := by
  obtain ⟨k, hperm, hsub⟩ := h
  exact (hperm.map f).nodup_iff.mp ((hsub.map f).nodup hm)

/-- Put in another order, entries with different keys make the same map. -/
theorem OrdMap.ofList_eq_of_perm {κ ν : Type} [Ord κ] [DecidableEq κ] [Std.TransOrd κ]
    [Std.LawfulEqOrd κ] {l m : List (κ × ν)} (h : l.Perm m) (hl : (l.map (·.1)).Nodup) :
    ofList l = ofList m := by
  refine OrdMap.ext fun k => Option.ext fun v => ?_
  rw [get?_ofList hl, get?_ofList ((h.map _).nodup_iff.mp hl), h.mem_iff]

theorem BgpConfig.Within.mem_neighbors {b' b : BgpConfig} (h : b'.Within b)
    {n : SessionType × NeighborConfig} (hn : n ∈ b'.neighbors) : n ∈ b.neighbors := by
  rcases List.mem_append.mp hn with hn | hn
  · obtain ⟨m, hm, rfl⟩ := List.mem_map.mp hn
    exact List.mem_append_left _ (List.mem_map_of_mem (h.external.subset hm))
  · obtain ⟨m, hm, rfl⟩ := List.mem_map.mp hn
    exact List.mem_append_right _ (List.mem_map_of_mem (h.internal.subset hm))

namespace RouterConfig.Within

variable {rc' rc : RouterConfig}

theorem mem_peers (h : rc'.Within rc) {n : NeighborConfig} (hn : n ∈ rc'.peers) : n ∈ rc.peers := by
  obtain ⟨b', hb', t, hn⟩ := NetworkConfig.mem_peers.mp hn
  obtain ⟨b, hb, hbr⟩ := exists_of_rel_left h.bgp hb'
  exact NetworkConfig.mem_peers.mpr ⟨b, hb, t, hbr.mem_neighbors hn⟩

theorem mem_nums (h : rc'.Within rc) {num : UInt32} :
    num ∈ rc'.vlans.map (·.num) ↔ num ∈ rc.vlans.map (·.num) :=
  (h.vlans.map _).mem_iff

theorem carries_iff (h : rc'.Within rc) {a : IpAddr} : rc'.Carries a ↔ rc.Carries a := by
  simp only [RouterConfig.Carries, h.vlans.mem_iff]

end RouterConfig.Within

namespace NetworkConfig.Within

variable {c' c : NetworkConfig} {i j : RouterId} {rc' rc : RouterConfig}

/-! ### What is contained is well formed -/

theorem exists_of_mem (h : c'.Within φ c) (hrc' : rc' ∈ c'.routers) :
    ∃ rc ∈ c.routers, rc'.Within rc := by
  obtain ⟨i, hi⟩ := List.mem_iff_getElem?.mp hrc'
  obtain ⟨rc, hrc, hr⟩ := h.router hi
  exact ⟨rc, List.mem_of_getElem? hrc, hr⟩

theorem exists_of_mem_whole (h : c'.Within φ c) (hrc : rc ∈ c.routers) :
    ∃ rc' ∈ c'.routers, rc'.Within rc := by
  obtain ⟨j, hj⟩ := List.mem_iff_getElem?.mp hrc
  obtain ⟨i, rc', rfl, hi⟩ := h.all hj
  obtain ⟨rc₁, hrc₁, hr⟩ := h.router hi
  obtain rfl := Option.some.inj (hj.symm.trans hrc₁)
  exact ⟨rc', List.mem_of_getElem? hi, hr⟩

/-- If no name comes twice, a router stands where its name is found. -/
theorem eq_of_name_eq {nc : RouterConfig} (hn : c.names.Nodup) (hrc : c.routers[i]? = some rc)
    (hnc : c.routers[j]? = some nc) (hname : rc.name = nc.name) : i = j :=
  Option.some.inj (((idxOf?_names hn).mpr ⟨rc, hrc, hname⟩).symm.trans
    ((idxOf?_names hn).mpr ⟨nc, hnc, rfl⟩))

/-- Routers with the same name stand at the same position. -/
theorem eq_of_name (h : c'.Within φ c) (hn : c.names.Nodup) {nc' : RouterConfig}
    (hrc' : c'.routers[i]? = some rc') (hnc' : c'.routers[j]? = some nc')
    (hname : rc'.name = nc'.name) : i = j := by
  obtain ⟨rc, hrc, hr⟩ := h.router hrc'
  obtain ⟨nc, hnc, hnr⟩ := h.router hnc'
  exact φ.injective (eq_of_name_eq hn hrc hnc (by rw [← hr.name, ← hnr.name, hname]))

theorem nodup_names (h : c'.Within φ c) (hn : c.names.Nodup) : c'.names.Nodup := by
  refine List.pairwise_map.mpr (List.pairwise_iff_getElem.mpr fun i j hi hj hij hname => ?_)
  exact hij.ne (h.eq_of_name hn (List.getElem?_eq_getElem hi) (List.getElem?_eq_getElem hj) hname)

theorem nodup_addresses (h : c'.Within φ c) (hc : c.WellFormed) :
    ((c'.routers.flatMap (·.vlans)).map (·.addr.addr)).Nodup := by
  have haddr := hc.addresses
  rw [List.map_flatMap, List.nodup_flatMap] at haddr ⊢
  refine ⟨fun rc' hrc' => ?_, List.pairwise_iff_getElem.mpr fun i j hi hj hij a hai haj => ?_⟩
  · obtain ⟨rc, hrc, hr⟩ := h.exists_of_mem hrc'
    exact (hr.vlans.map _).nodup_iff.mpr (haddr.1 rc hrc)
  · have hci : c'.routers[i]? = some c'.routers[i] := List.getElem?_eq_getElem hi
    have hcj : c'.routers[j]? = some c'.routers[j] := List.getElem?_eq_getElem hj
    obtain ⟨rc, hrc, hr⟩ := h.router hci
    obtain ⟨nc, hnc, hnr⟩ := h.router hcj
    obtain rfl := eq_of_carries hc.addresses (List.mem_of_getElem? hrc) (List.mem_of_getElem? hnc)
      (hr.carries_iff.mp (List.mem_map.mp hai)) (hnr.carries_iff.mp (List.mem_map.mp haj))
    exact hij.ne (h.eq_of_name hc.names hci hcj (hr.name.trans hnr.name.symm))

/-- **What is contained in a well-formed configuration is well formed.** -/
theorem wellFormed (h : c'.Within φ c) (hc : c.WellFormed) : c'.WellFormed where
  names := h.nodup_names hc.names
  addresses := h.nodup_addresses hc
  routers rc' hrc' := by
    obtain ⟨rc, hrc, hr⟩ := h.exists_of_mem hrc'
    have hwf := hc.routers rc hrc
    have hname {x : String} (hx : ∃ n ∈ c.routers, n.name = x) : ∃ n ∈ c'.routers, n.name = x := by
      obtain ⟨n, hn, rfl⟩ := hx
      obtain ⟨n', hn', hnr⟩ := h.exists_of_mem_whole hn
      exact ⟨n', hn', hnr.name⟩
    constructor
    case vlans => exact (hr.vlans.map _).nodup_iff.mpr hwf.vlans
    case neighbor =>
      intro k hk
      rw [hr.name]
      exact (hwf.neighbor k (hr.ifaces.subset hk)).imp_right hname
    case neighbors => exact nodup_map_of_subperm hr.ifaces hwf.neighbors
    case ifaceVlan =>
      intro k hk num hnum
      exact hr.mem_nums.mpr (hwf.ifaceVlan k (hr.ifaces.subset hk) num hnum)
    case active =>
      intro o' ho' num hnum
      obtain ⟨o, ho, hor⟩ := exists_of_rel_left hr.ospf ho'
      exact hr.mem_nums.mpr (hwf.active o ho num (hor.active.subset hnum))
    case paired =>
      intro k hk n' hn' hkn
      obtain ⟨j, hj⟩ := List.mem_iff_getElem?.mp hn'
      obtain ⟨n, hn, hnr⟩ := h.router hj
      have hnk : n.name = k.neighbor := hnr.name.symm.trans hkn
      obtain ⟨l, hl, hback, hvlan⟩ :=
        hwf.paired k (hr.ifaces.subset hk) n (List.mem_of_getElem? hn) hnk
      refine ⟨l, ?_, hback.trans hr.name.symm, hvlan⟩
      exact h.paired hrc' hj hn (hnk ▸ List.mem_map_of_mem hk) l hl (hback.trans hr.name.symm)
    case peer =>
      intro n hn
      obtain ⟨p, hp, hne, hbgp, hcarries⟩ := hwf.peer n (hr.mem_peers hn)
      obtain ⟨p', hp', hpr⟩ := h.exists_of_mem_whole hp
      exact ⟨p', hp', hpr.name ▸ hr.name ▸ hne, (isSome_eq_of_rel hpr.bgp).trans hbgp,
        hpr.carries_iff.mpr hcarries⟩
    case policy =>
      intro n hn name hnames
      rw [h.policies]
      exact hwf.policy n (hr.mem_peers hn) name hnames
    case ospfFromBgp =>
      intro o' ho' hbgp
      obtain ⟨o, ho, hor⟩ := exists_of_rel_left hr.ospf ho'
      rw [isSome_eq_of_rel hr.bgp]
      exact hwf.ospfFromBgp o ho (hor.redistribute.subset hbgp)
    case bgpFromOspf =>
      intro b' hb' hospf
      obtain ⟨b, hb, hbr⟩ := exists_of_rel_left hr.bgp hb'
      rw [isSome_eq_of_rel hr.ospf]
      exact hwf.bgpFromOspf b hb (hbr.redistribute.subset hospf)

end NetworkConfig.Within

/-! ### VLANs without their members -/

/-- A VLAN without its members. -/
def Vlan.seat (x : Vlan) : VlanId × Cidr := (x.id, x.addr)

/-- The VLANs of a router without their members. -/
abbrev Router.seats (r : Router) : List (VlanId × Cidr) := r.vlans.values.map Vlan.seat

theorem localVlan?_eq (r : Router) (n : NeighborConfig) :
    n.localVlan? r = (r.seats.find? (·.2.contains n.addr)).map (·.1) := by
  rw [List.find?_map, Option.map_map]
  rfl

theorem RouterConfig.seats_link (names : List String) (id : RouterId) (rc : RouterConfig) :
    (rc.link names id).seats =
      (OrdMap.ofList (rc.vlans.map fun v => (v.num, ((⟨id, v.num⟩ : VlanId), v.addr)))).values := by
  unfold Router.seats RouterConfig.link
  rw [← OrdMap.values_ofList_map, RouterConfig.linkVlans, List.map_map, List.map_map]
  rfl

namespace RouterConfig.Within

variable {c' c : NetworkConfig} {rc' rc : RouterConfig} {i : RouterId} {base' base : List Router}

/-- The order of the VLANs in the configuration is not that in which they are searched. -/
theorem seats_eq (h : rc'.Within rc) (hn : (rc'.vlans.map (·.num)).Nodup)
    (names' names : List String) :
    (rc.link names (φ i)).seats = (rc'.link names' i).seats.map fun x => (x.1.rename φ, x.2) := by
  have hkeys : ((rc'.vlans.map fun v => (v.num, ((⟨i, v.num⟩ : VlanId), v.addr))).map
      (·.1)).Nodup := by
    rw [List.map_map]
    exact hn
  rw [seats_link, seats_link, OrdMap.ofList_eq_of_perm (h.vlans.map _) hkeys,
    ← OrdMap.values_ofList_map, List.map_map]
  rfl

theorem localVlan?_eq (h : rc'.Within rc) (hn : (rc'.vlans.map (·.num)).Nodup)
    (names' names : List String) (n : NeighborConfig) : n.localVlan? (rc.link names (φ i)) =
      (n.localVlan? (rc'.link names' i)).map (·.rename φ) := by
  rw [NetReach.localVlan?_eq, NetReach.localVlan?_eq, h.seats_eq hn names', List.find?_map,
    Option.map_map, Option.map_map]
  rfl

/-- What the routers are beside their sessions. -/
theorem part (h : rc'.Within rc)
    (hsessions : ∀ {s}, s ∈ ((rc'.link c'.names i).withBgp base' rc').sessions →
      s.rename φ ∈ ((rc.link c.names (φ i)).withBgp base rc).sessions) :
    ((rc'.link c'.names i).withBgp base' rc').Part φ
      ((rc.link c.names (φ i)).withBgp base rc) where
  id := rfl
  runs p := by
    cases p with
    | ospf =>
      have hospf := isSome_eq_of_rel h.ospf
      simpa [Router.runs, Router.withBgp, RouterConfig.link] using hospf
    | bgp =>
      have hbgp := isSome_eq_of_rel h.bgp
      simpa [Router.runs, Router.withBgp] using hbgp
  originates s p := by
    cases p with
    | ospf =>
      have hrel := h.ospf
      simp only [Router.originates, Router.ospfOriginates, Router.withBgp, RouterConfig.link]
      generalize rc'.ospf = o', rc.ospf = o at hrel
      cases hrel with
      | some ho => simp [ho.origins.mem_iff]
      | none => rfl
    | bgp =>
      have hrel := h.bgp
      simp only [Router.originates, Router.bgpOriginates, Router.withBgp]
      generalize rc'.bgp = o', rc.bgp = o at hrel
      cases hrel with
      | some ho => simp [ho.origins.mem_iff]
      | none => rfl
  subnets := OrdSet.ext fun s => by
    simp [Router.withBgp, RouterConfig.link, h.subnets.mem_iff]
  active := by
    intro num ha
    have hrel := h.ospf
    simp only [Router.ospfActive, Router.withBgp, RouterConfig.link] at ha ⊢
    generalize rc'.ospf = o', rc.ospf = o at hrel ha
    cases hrel with
    | some ho =>
      simp only [Option.map_some, Option.any_some, decide_eq_true_eq, OrdSet.mem_ofList] at ha ⊢
      exact ho.active.subset ha
    | none => exact ha
  ospfFromBgp ha := by
    obtain ⟨o', ho', hbgp⟩ := NetworkConfig.ospfFromBgp_linked.mp ha
    obtain ⟨o, ho, hor⟩ := exists_of_rel_left h.ospf ho'
    exact NetworkConfig.ospfFromBgp_linked.mpr ⟨o, ho, hor.redistribute.subset hbgp⟩
  bgpFromOspf ha := by
    obtain ⟨b', hb', hospf⟩ := NetworkConfig.bgpFromOspf_linked.mp ha
    obtain ⟨b, hb, hbr⟩ := exists_of_rel_left h.bgp hb'
    exact NetworkConfig.bgpFromOspf_linked.mpr ⟨b, hb, hbr.redistribute.subset hospf⟩
  sessions := hsessions

end RouterConfig.Within

/-! ### The network of what is contained -/

namespace NetworkConfig.Within

variable {c' c : NetworkConfig} {i n : RouterId} {v : VlanId} {a : IpAddr} {rc' rc : RouterConfig}

theorem idxOf?_names (h : c'.Within φ c) (hc' : c'.Consistent) (hc : c.Consistent) {x : String}
    (hx : c'.names.idxOf? x = some i) : c.names.idxOf? x = some (φ i) := by
  obtain ⟨rc', hrc', rfl⟩ := (NetworkConfig.idxOf?_names hc'.names).mp hx
  obtain ⟨rc, hrc, hr⟩ := h.router hrc'
  exact (NetworkConfig.idxOf?_names hc.names).mpr ⟨rc, hrc, hr.name.symm⟩

/-- A name is that of the renamed router. -/
theorem routerId?_eq (h : c'.Within φ c) (hc' : c'.Consistent) (hc : c.Consistent) (x : String) :
    c.assemble.routerId? x = (c'.assemble.routerId? x).map φ := by
  rw [routerId?_assemble, routerId?_assemble]
  cases hx : c'.names.idxOf? x with
  | some i => exact h.idxOf?_names hc' hc hx
  | none =>
    refine Option.eq_none_iff_forall_ne_some.mpr fun j hj => ?_
    obtain ⟨rc, hrc, rfl⟩ := (NetworkConfig.idxOf?_names hc.names).mp hj
    obtain ⟨i, rc', rfl, hrc'⟩ := h.all hrc
    obtain ⟨rc₁, hrc₁, hr⟩ := h.router hrc'
    cases hrc.symm.trans hrc₁
    cases hx.symm.trans ((NetworkConfig.idxOf?_names hc'.names).mpr ⟨rc', hrc', hr.name⟩)

/-- Every interface is one of the renamed router towards the renamed neighbor. -/
theorem exists_iface (h : c'.Within φ c) (hc' : c'.Consistent) (hc : c.Consistent) {k : Interface}
    (hk : c'.assemble.iface? i n = some k) (hv : k.vlan = some v) :
    ∃ l, c.assemble.iface? (φ i) (φ n) = some l ∧ l.vlan = some (v.rename φ) := by
  obtain ⟨rc', hrc', hmem, rfl⟩ := (iface?_assemble hc').mp hk
  obtain ⟨ic, hic, hidx, heq⟩ := RouterConfig.mem_linkIfaces.mp hmem
  obtain ⟨rc, hrc, hr⟩ := h.router hrc'
  rw [heq] at hv
  refine ⟨⟨φ i, φ k.neighbor, ic.vlan⟩, (iface?_assemble hc).mpr ⟨rc, hrc, ?_, rfl⟩, ?_⟩
  · exact RouterConfig.mem_linkIfaces.mpr
      ⟨ic, hr.ifaces.subset hic, h.idxOf?_names hc' hc hidx, rfl⟩
  · obtain ⟨num, hnum, rfl⟩ := Option.map_eq_some_iff.mp hv
    exact congrArg (Option.map _) hnum

/-- A VLAN carries the same address under its new identifier. -/
theorem exists_vlan (h : c'.Within φ c) (hc' : c'.Consistent) (hc : c.Consistent) {x' : Vlan}
    (hx' : c'.assemble.vlan? v = some x') :
    ∃ x, c.assemble.vlan? (v.rename φ) = some x ∧ x.addr = x'.addr := by
  obtain ⟨rc', hrc', vc, hvc, hnum, rfl⟩ := (vlan?_assemble hc').mp hx'
  obtain ⟨rc, hrc, hr⟩ := h.router hrc'
  exact ⟨_, (vlan?_assemble hc).mpr ⟨rc, hrc, vc, hr.vlans.mem_iff.mp hvc, hnum, rfl⟩, rfl⟩

/-- An address is that of the same VLAN. -/
theorem vlanWithAddress? (h : c'.Within φ c) (hc' : c'.Consistent) (hc : c.Consistent)
    (hv : vlanWithAddress? c'.baseRouters a = some v) :
    NetReach.vlanWithAddress? c.baseRouters a = some (v.rename φ) := by
  obtain ⟨x', hx', rfl, rfl⟩ := (vlanWithAddress?_baseRouters_eq_some hc').mp hv
  have hvlan' := (Network.mem_vlans (linked_assemble hc')).mp hx'
  obtain ⟨x, hx, haddr⟩ := h.exists_vlan hc' hc hvlan'
  have hid : x.id = x'.id.rename φ := (linked_assemble hc).vlan_id hx
  refine (vlanWithAddress?_baseRouters_eq_some hc).mpr ⟨x, ?_, by rw [haddr], hid⟩
  rw [← hid] at hx
  exact (Network.mem_vlans (linked_assemble hc)).mpr hx

/-- **A session leads from the renamed router to the renamed VLAN of the renamed peer.** -/
theorem rename_mem_sessions (h : c'.Within φ c) (hc' : c'.Consistent) (hc : c.Consistent)
    (hrc' : rc' ∈ c'.routers) (hr : rc'.Within rc) {s : Session}
    (hs : s ∈ ((rc'.link c'.names i).withBgp c'.baseRouters rc').sessions) :
    s.rename φ ∈ ((rc.link c.names (φ i)).withBgp c.baseRouters rc).sessions := by
  obtain ⟨b', hb', m, hm, hs⟩ := mem_sessions.mp hs
  obtain ⟨b, hb, hbr⟩ := exists_of_rel_left hr.bgp hb'
  obtain ⟨v, hv, rfl⟩ := Option.map_eq_some_iff.mp hs
  obtain ⟨hvlan, hne⟩ := Option.filter_eq_some_iff.mp hv
  have hpeer : m.2.peerVlan? c.baseRouters (rc.link c.names (φ i)) = some (v.rename φ) := by
    refine Option.filter_eq_some_iff.mpr ⟨h.vlanWithAddress? hc' hc hvlan, decide_eq_true ?_⟩
    exact φ.injective.ne (of_decide_eq_true hne)
  refine mem_sessions.mpr ⟨b, hb, m, hbr.mem_neighbors hm, ?_⟩
  rw [NeighborConfig.link?, hpeer, hr.localVlan?_eq (hc'.routers rc' hrc').vlans c'.names]
  rfl

/-- **The network of what is contained is a part of the network of the whole.** -/
theorem part (h : c'.Within φ c) (hc' : c'.Consistent) (hc : c.Consistent) :
    c'.assemble.Part φ c.assemble where
  router := by
    intro i r' hr'
    rw [router?_assemble] at hr'
    obtain ⟨rc', hrc', rfl⟩ := Option.map_eq_some_iff.mp hr'
    obtain ⟨rc, hrc, hr⟩ := h.router hrc'
    refine ⟨_, by rw [router?_assemble, hrc]; rfl, hr.part fun hs => ?_⟩
    exact h.rename_mem_sessions hc' hc (List.mem_of_getElem? hrc') hr hs
  all := by
    intro i r hr
    rw [router?_assemble] at hr
    obtain ⟨rc, hrc, -⟩ := Option.map_eq_some_iff.mp hr
    obtain ⟨j, rc', hj, hrc'⟩ := h.all hrc
    cases φ.injective hj
    exact ⟨_, by rw [router?_assemble, hrc']; rfl⟩
  vlan := by
    intro v hv
    obtain ⟨x', hx'⟩ := Option.isSome_iff_exists.mp hv
    obtain ⟨x, hx, -⟩ := h.exists_vlan hc' hc hx'
    exact Option.isSome_of_eq_some hx
  link := by
    rintro v w ⟨⟨k, hk, hv⟩, l, hl, hw⟩
    exact ⟨h.exists_iface hc' hc hk hv, h.exists_iface hc' hc hl hw⟩

/-- **What is contained in a configuration that links does link**, and makes a part of the
network. -/
theorem exists_part_of_link {net : Network} (h : c'.Within φ c) (hlink : c.link = .ok net) :
    ∃ net', c'.link = .ok net' ∧ net'.Part φ net := by
  obtain ⟨hc, rfl⟩ := link_eq_ok.mp hlink
  obtain ⟨net', hlink'⟩ := (links_iff_wellFormed c').1.mpr (h.wellFormed hc.wellFormed)
  obtain ⟨hc', rfl⟩ := link_eq_ok.mp hlink'
  exact ⟨_, hlink', h.part hc' hc⟩

end NetworkConfig.Within

end NetReach
