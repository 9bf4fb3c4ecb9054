import NetReach.Cli.Run
import NetReach.Proofs.Existence
import NetReach.Proofs.Tunnel

/-! # Packets that do not arrive

The walk of a packet from the source gives no path for one of three reasons (`Scene.undelivered`).
The source has no route, or the packet comes back to a vertex that it has gone on from
(`PathGraph.ComesBack`), or it is stranded (`PathGraph.Strands`): the layer of a next hop has taken
it to a router whose VLAN holds no route in the main layer. Such a router passes packets on to the
peer, by OSPF or as a switch, but need not know the destination itself
(`Scene.relays_of_strands`). Only a packet that comes back is in a forwarding loop, and only then is
one reported, but the command line tool speaks of a loop in the third case as well. -/

namespace NetReach

namespace PathGraph

variable {g : PathGraph} {f : FailureSet} {t : RoutingTable} {s : Simulation} {u v w : Vertex}
  {left : List Vertex} {r : Route} {e : Edge}

/-! ### The trail of a packet -/

/-- Where a packet that has entered a router at `u` enters the next one, unless it arrives. -/
def entryAfter? (g : PathGraph) (t : RoutingTable) (u : Vertex) : Option Vertex := do
  let r ← t.get? u
  let w ← (r.path.dropWhile (g.isOwn u)).head?
  if w = g.destination then none else some w.toMain

/-- A packet from the source comes to `v`. The vertices `left`, from the last one back, are those it
has gone on from, every one of them once. -/
inductive Trail (g : PathGraph) (t : RoutingTable) : (left : List Vertex) → Vertex → Prop where
  | start : Trail g t [] g.source
  | next {left : List Vertex} {u v : Vertex} : Trail g t left u → u ∉ left →
    g.entryAfter? t u = some v → Trail g t (u :: left) v

/-- A packet comes back to `v`, which it has gone on from. -/
def ComesBack (g : PathGraph) (t : RoutingTable) (v : Vertex) : Prop :=
  ∃ left, g.Trail t left v ∧ v ∈ left

/-- A packet that has left the router `i` comes back to it from the router `j`. -/
def Circles (g : PathGraph) (t : RoutingTable) (i j : RouterId) : Prop :=
  ∃ left x v, g.Trail t (x :: left) v ∧ (∃ u ∈ left, u.router? = some i) ∧ x.router? = some j ∧
    v.router? = some i ∧ i ≠ j

/-- A packet comes to `w`, the end of a leg, whose counterpart in the main layer has no route. -/
def Strands (g : PathGraph) (t : RoutingTable) (w : Vertex) : Prop :=
  ∃ left u l, g.Trail t (u :: left) w.toMain ∧ g.Leg t u l w ∧ t.get? w.toMain = none

/-- The counterparts of the vertices where packets enter routers are there. -/
def EntersMain (g : PathGraph) (t : RoutingTable) : Prop :=
  ∀ u v, g.entryAfter? t u = some v → v ∈ g.vertices

/-- Packets only fail to arrive if the source has no route, or if they come back. -/
def FailsAsReported (g : PathGraph) (s : Simulation) : Prop :=
  (g.reprocess s).path? = none ↔ g.bestRoute s = none ∨ ∃ v, g.ComesBack s.routes v

theorem entryAfter?_eq_some : g.entryAfter? t u = some v ↔
    ∃ l w, g.Leg t u l w ∧ w ≠ g.destination ∧ w.toMain = v := by
  simp only [entryAfter?, Option.bind_eq_bind, Option.bind_eq_some_iff,
    Option.ite_none_left_eq_some, Option.some.injEq]
  constructor
  · rintro ⟨r, hr, w, hw, hd, rfl⟩
    obtain ⟨rest, hrest⟩ := List.head?_eq_some_iff.mp hw
    exact ⟨_, w, ⟨r, rest, hr, rfl, hrest⟩, hd, rfl⟩
  · rintro ⟨l, w, ⟨r, rest, hr, -, hrest⟩, hd, rfl⟩
    exact ⟨r, hr, w, by rw [hrest, List.head?_cons], hd, rfl⟩

/-- A leg and the vertex behind it begin the route of the first vertex. -/
theorem Leg.exists_route {l : List Vertex} (h : g.Leg t v l w) :
    ∃ r rest, t.get? v = some r ∧ r.path = l ++ w :: rest := by
  obtain ⟨r, rest, hr, rfl, hw⟩ := h
  exact ⟨r, rest, hr, by rw [← hw, List.takeWhile_append_dropWhile]⟩

namespace Trail

theorem nodup (h : g.Trail t left v) : left.Nodup := by
  induction h with
  | start => exact List.nodup_nil
  | next _ hu _ ih => exact List.nodup_cons.mpr ⟨hu, ih⟩

/-- Packets go on from where there is a route. -/
theorem exists_route (h : g.Trail t left v) : ∀ x ∈ left, ∃ r, t.get? x = some r := by
  induction h with
  | start => exact List.forall_mem_nil _
  | next _ _ hnext ih =>
    obtain ⟨l, w, hleg, -⟩ := entryAfter?_eq_some.mp hnext
    obtain ⟨r, rest, hr, -⟩ := hleg.exists_route
    exact List.forall_mem_cons.mpr ⟨⟨r, hr⟩, ih⟩

theorem source_mem (h : g.Trail t (u :: left) v) : g.source ∈ u :: left := by
  generalize hl : u :: left = l at h
  induction h generalizing u left with
  | start => cases hl
  | next h _ _ ih =>
    cases hl
    cases h with
    | start => exact List.mem_cons_self
    | next _ _ _ => exact List.mem_cons_of_mem _ (ih rfl)

theorem subset_vertices (hg : g.EntersMain t) (h : g.Trail t left v) :
    v ∈ g.vertices ∧ ∀ x ∈ left, x ∈ g.vertices := by
  induction h with
  | start => exact ⟨g.source_mem, List.forall_mem_nil _⟩
  | next _ _ hnext ih => exact ⟨hg _ _ hnext, List.forall_mem_cons.mpr ih⟩

theorem length_le (hg : g.EntersMain t) (h : g.Trail t left v) : left.length ≤ g.numVertices :=
  (h.nodup.subperm (h.subset_vertices hg).2).length_le

/-- **The walk follows the trail.** As the trail leaves no vertex twice, there are steps enough. -/
theorem reprocess_eq (hg : g.EntersMain s.routes) (h : g.Trail s.routes left v) :
    ∃ n passed, n + left.length = g.numVertices + 1 ∧
      g.reprocess s = g.walkFrom s.routes n left v passed := by
  induction h with
  | start => exact ⟨_, [], rfl, rfl⟩
  | @next left u v h hu hnext ih =>
    obtain ⟨n, passed, hn, hwalk⟩ := ih
    have hlen := (h.next hu hnext).length_le hg
    rw [List.length_cons] at hlen
    obtain ⟨m, rfl⟩ : ∃ m, n = m + 1 := Nat.exists_eq_add_one.mpr (by omega)
    obtain ⟨l, w, hleg, hd, rfl⟩ := entryAfter?_eq_some.mp hnext
    refine ⟨m, passed ++ l, by rw [List.length_cons]; omega, ?_⟩
    rw [hwalk, walkFrom_of_leg hu hleg hd (hg _ _ hnext)]

end Trail

/-! ### How a walk ends -/

/-- **A walk along a trail arrives, comes back, or finds no route.** -/
theorem walkFrom_cases (ht : g.Stable f t) (hg : g.EntersMain t) (n : Nat) :
    ∀ {left v passed}, g.Trail t left v → g.numVertices < n + left.length →
      (∃ p, g.walkFrom t n left v passed = .arrived p) ∨
      (∃ x, g.walkFrom t n left v passed = .loop x ∧ g.ComesBack t x) ∨
      g.walkFrom t n left v passed = .stuck ∧
        (t.get? g.source = none ∨ ∃ w, g.Strands t w) := by
  induction n with
  | zero =>
    intro left v passed h hn
    have hlen := h.length_le hg
    omega
  | succ n ih =>
    intro left v passed h hn
    by_cases hv : v ∈ left
    · exact .inr (.inl ⟨v, by rw [walkFrom, if_pos hv], left, h, hv⟩)
    cases hr : t.get? v with
    | none =>
      refine .inr (.inr ⟨by simp only [walkFrom, if_neg hv, hr], ?_⟩)
      cases h with
      | start => exact .inl hr
      | next h hu hnext =>
        obtain ⟨l, w, hleg, hd, rfl⟩ := entryAfter?_eq_some.mp hnext
        exact .inr ⟨w, _, _, l, h.next hu hnext, hleg, hr⟩
    | some r =>
      obtain ⟨l, w, rest, hleg, -⟩ := ht.exists_leg hr
      by_cases hd : w = g.destination
      · subst hd
        exact .inl ⟨_, walkFrom_of_leg_destination hv hleg⟩
      · have hnext := entryAfter?_eq_some.mpr ⟨l, w, hleg, hd, rfl⟩
        rw [walkFrom_of_leg hv hleg hd (hg _ _ hnext)]
        exact ih (h.next hv hnext) (by rw [List.length_cons]; omega)

theorem reprocess_cases (ht : g.Stable f s.routes) (hg : g.EntersMain s.routes) :
    (∃ p, g.reprocess s = .arrived p) ∨
    (∃ x, g.reprocess s = .loop x ∧ g.ComesBack s.routes x) ∨
    g.reprocess s = .stuck ∧ (g.bestRoute s = none ∨ ∃ w, g.Strands s.routes w) :=
  walkFrom_cases ht hg _ .start (Nat.lt_succ_self _)

/-- **A loop is reported exactly if the packet comes back.** -/
theorem reprocess_eq_loop_iff (ht : g.Stable f s.routes) (hg : g.EntersMain s.routes) :
    g.reprocess s = .loop v ↔ g.ComesBack s.routes v := by
  constructor
  · intro hwalk
    rcases reprocess_cases ht hg with ⟨p, h⟩ | ⟨x, h, hx⟩ | ⟨h, -⟩
    · cases hwalk.symm.trans h
    · cases hwalk.symm.trans h
      exact hx
    · cases hwalk.symm.trans h
  · rintro ⟨left, h, hv⟩
    obtain ⟨n, passed, hn, hwalk⟩ := h.reprocess_eq hg
    have hlen := h.length_le hg
    obtain ⟨m, rfl⟩ : ∃ m, n = m + 1 := Nat.exists_eq_add_one.mpr (by omega)
    rw [hwalk, walkFrom, if_pos hv]

/-- **A walk is stuck exactly if the source has no route, or the packet is stranded.** -/
theorem reprocess_eq_stuck_iff (ht : g.Stable f s.routes) (hg : g.EntersMain s.routes) :
    g.reprocess s = .stuck ↔ g.bestRoute s = none ∨ ∃ w, g.Strands s.routes w := by
  constructor
  · intro hwalk
    rcases reprocess_cases ht hg with ⟨p, h⟩ | ⟨x, h, -⟩ | ⟨-, h⟩
    · cases hwalk.symm.trans h
    · cases hwalk.symm.trans h
    · exact h
  · rintro (hnone | ⟨w, left, u, l, h, -, hnone⟩)
    · have hnone : s.routes.get? g.source = none := hnone
      simp only [reprocess, walkFrom, List.not_mem_nil, if_false, hnone]
    · obtain ⟨n, passed, -, hwalk⟩ := h.reprocess_eq hg
      -- the packet has not been there before, as it goes on from vertices with routes only
      have hnew : w.toMain ∉ u :: left := by
        intro hmem
        obtain ⟨r, hr⟩ := h.exists_route _ hmem
        cases hnone.symm.trans hr
      rw [hwalk]
      cases n with
      | zero => rfl
      | succ n => simp only [walkFrom, if_neg hnew, hnone]

theorem path?_eq_none_iff (ht : g.Stable f s.routes) (hg : g.EntersMain s.routes) :
    (g.reprocess s).path? = none ↔ g.bestRoute s = none ∨ (∃ v, g.ComesBack s.routes v) ∨
      ∃ w, g.Strands s.routes w := by
  rw [or_left_comm, ← reprocess_eq_stuck_iff ht hg]
  simp only [← reprocess_eq_loop_iff ht hg]
  cases g.reprocess s with
  | arrived p => simp [Walk.path?]
  | stuck => simp [Walk.path?]
  | loop v => simp [Walk.path?]

/-- Where packets get away from the source, it has a route. -/
theorem Trail.bestRoute_ne_none (h : g.Trail s.routes (u :: left) v) : g.bestRoute s ≠ none := by
  obtain ⟨r, hr⟩ := h.exists_route _ h.source_mem
  intro hnone
  cases hnone.symm.trans hr

/-- What is said of a loop when a packet does not arrive although the source has a route. -/
theorem selectionLines_eq_loop_iff {net : Network} :
    Cli.selectionLines net g s = ["The selected path contains a forwarding loop"] ↔
      g.bestRoute s ≠ none ∧ (g.reprocess s).path? = none := by
  unfold Cli.selectionLines
  cases g.bestRoute s with
  | none => simp
  | some r =>
    cases (g.reprocess s).path? with
    | none => simp
    | some p => simp

/-- A vertex without a route has no edge without policies to one with a route. -/
theorem Stable.get?_eq_none_of_edge (ht : g.Stable f t) (he : g.edge? u v = some e)
    (hplain : e.policies = []) (hc : f.cuts u v = false) (hnone : t.get? u = none) :
    t.get? v = none := by
  have hd : u ≠ g.destination := by
    rintro rfl
    cases hnone.symm.trans ht.destination
  cases hr : t.get? v with
  | none => rfl
  | some r =>
    have hu : u ∉ r.path := by
      intro hu
      obtain ⟨q, hq⟩ := ht.exists_route_of_mem hr hu
      cases hnone.symm.trans hq
    have hopen : g.IsCandidate f t u ⟨u :: r.path, r.signature⟩ :=
      ⟨v, e, r, r.signature, he, hc, hr, hu, by rw [hplain]; rfl, rfl⟩
    exact absurd hopen ((ht.get?_eq_none_iff hd).mp hnone _)

/-- A trail that ends behind two legs. -/
theorem Trail.eq_of_entryAfter? {x y : Vertex} (hx : g.entryAfter? t g.source = some x)
    (hy : g.entryAfter? t x = some y) (hend : g.entryAfter? t y = none) (h : g.Trail t left v) :
    left = [] ∧ v = g.source ∨ left = [g.source] ∧ v = x ∨ left = [x, g.source] ∧ v = y := by
  induction h with
  | start => exact .inl ⟨rfl, rfl⟩
  | next _ _ hnext ih =>
    rcases ih with ⟨rfl, rfl⟩ | ⟨rfl, rfl⟩ | ⟨rfl, rfl⟩
    · cases hx.symm.trans hnext
      exact .inr (.inl ⟨rfl, rfl⟩)
    · cases hy.symm.trans hnext
      exact .inr (.inr ⟨rfl, rfl⟩)
    · cases hend.symm.trans hnext

theorem exists_simulate_of_any {p : Simulation → Bool}
    (h : (g.simulate f).toOption.any p = true) : ∃ s, g.simulate f = .ok s ∧ p s = true := by
  obtain ⟨s, hs, hp⟩ := (Option.any_eq_true _ _).mp h
  cases hsim : g.simulate f with
  | error e => rw [hsim] at hs; cases hs
  | ok s' =>
    rw [hsim] at hs
    cases hs
    exact ⟨s, rfl, hp⟩

end PathGraph

namespace Scene

open PathGraph (Leg Strands Trail)

variable {c : Scene} {variant : Variant} {f : FailureSet} {t : RoutingTable} {u v w : Vertex}
  {l : List Vertex} {layer x : VlanId}

/-! ### Where packets enter routers -/

/-- The vertices of a layer at which packets enter routers are those of VLANs. -/
theorem exists_vlan_of_isEntry (hn : c.net.Linked) {k : VertexKind}
    (h : .nextHop layer k ∈ (c.wiring .fine).graph.vertices) (hk : IsEntry (.main k)) :
    ∃ x, k = .vlanIn x ∧ (c.net.vlan? x).isSome := by
  obtain ⟨-, r, hr, hv⟩ := mem_layer_vertices.mp h
  simp only [layerVerticesOf, vlanVertices, List.mem_append, List.mem_flatMap, List.mem_cons,
    List.mem_ite_nil_right, List.not_mem_nil, or_false] at hv
  rcases hk with ⟨i, hk⟩ | ⟨x, hk⟩ <;> cases hk
  · rcases hv with ⟨y, -, hv | hv⟩ | ⟨-, hv | hv⟩ <;> cases hv
  · rcases hv with ⟨y, hy, hv | hv⟩ | ⟨-, hv | hv⟩ <;> cases hv
    obtain ⟨hvlan, -⟩ := (Network.mem_vlans_of_router? hn (hn.router?_of_mem hr)).mp hy
    exact ⟨y.id, rfl, Option.isSome_of_eq_some hvlan⟩

/-- **A leg ends in the main layer, or on a VLAN in the layer of a next hop.** The VLAN has a vertex
in the main layer as well. -/
theorem end_of_leg (hn : c.net.Linked) (ht : (c.wiring variant).graph.Stable f t)
    (h : (c.wiring variant).graph.Leg t v l w) (hd : w ≠ (c.wiring variant).graph.destination) :
    w ∈ (c.wiring variant).graph.vertices ∧ w.toMain ∈ (c.wiring variant).graph.vertices ∧
      (w.toMain = w ∨ variant = .fine ∧ ∃ layer x, w = .nextHop layer (.vlanIn x)) := by
  obtain ⟨u, hu, hw⟩ := (leg_ends ht h).2 hd
  have hmem := (PathGraph.mem_vertices_of_mem_successors hw).2.1
  refine ⟨hmem, ?_⟩
  cases variant with
  | coarse =>
    have hmain := (inMain_coarse c).toMain_eq hmem
    exact ⟨hmain.symm ▸ hmem, .inl hmain⟩
  | fine =>
    have hne := (leg_spec h).2 hd
    rw [destination_wiring] at hd
    have hentry : IsEntry w.toMain := isEntry_of_mem_successors hn hw hd (hu ▸ hne)
    obtain ⟨layer | layer, k⟩ := w
    · exact ⟨hmem, .inl rfl⟩
    · obtain ⟨x, rfl, hx⟩ := exists_vlan_of_isEntry hn hmem hentry
      exact ⟨(vlan_mem_fine hn hx).1, .inr ⟨rfl, layer, x, rfl⟩⟩

theorem entersMain (hn : c.net.Linked) (ht : (c.wiring variant).graph.Stable f t) :
    (c.wiring variant).graph.EntersMain t := by
  intro u v h
  obtain ⟨l, w, hleg, hd, rfl⟩ := PathGraph.entryAfter?_eq_some.mp h
  exact (end_of_leg hn ht hleg hd).2.1

/-! ### Where packets are stranded -/

/-- Packets are stranded behind a leg, on a VLAN in the layer of a next hop. -/
theorem leg_of_strands (hn : c.net.Linked) (ht : (c.wiring variant).graph.Stable f t)
    (h : (c.wiring variant).graph.Strands t w) :
    variant = .fine ∧ w ∈ (c.wiring variant).graph.vertices ∧ t.get? w.toMain = none ∧
      (∃ layer x, w = .nextHop layer (.vlanIn x)) ∧ ∃ r, t.get? w = some r := by
  obtain ⟨left, u, l, htrail, hleg, hnone⟩ := h
  have hd : w ≠ (c.wiring variant).graph.destination := by
    cases htrail with
    | next _ _ hnext =>
      obtain ⟨l', w', hleg', hd', -⟩ := PathGraph.entryAfter?_eq_some.mp hnext
      exact (hleg.unique hleg').2 ▸ hd'
  obtain ⟨r, rest, hr, hsplit⟩ := hleg.exists_route
  obtain ⟨q, hq, -⟩ := ht.exists_route_of_append hr hsplit
  obtain ⟨hmem, -, hmain | ⟨rfl, hw⟩⟩ := end_of_leg hn ht hleg hd
  · rw [hmain, hq] at hnone
    cases hnone
  · exact ⟨rfl, hmem, hnone, hw, q, hq⟩

/-- The edges from where packets enter routers change no routes. -/
theorem IsEntry.policies_eq_nil {e : Edge} (hu : IsEntry u) (h : c.IsLaid .fine u v e) :
    e.policies = [] := by
  rcases hu with ⟨i, rfl⟩ | ⟨x, rfl⟩
  · generalize hu : (.main (.rib i) : Vertex) = u at h
    cases h with
    | fine _ h =>
      cases h with
      | ospfLookup => rfl
      | bgpLookup => rfl
      | _ => cases hu
    | layer _ _ h => cases h <;> cases hu
  · generalize hu : (.main (.vlanIn x) : Vertex) = u at h
    cases h with
    | fine _ h =>
      cases h with
      | switching _ _ => rfl
      | ingress _ _ => rfl
      | _ => cases hu
    | layer _ _ h => cases h <;> cases hu

/-- Without a route where packets enter a router, there is none at the successors. -/
theorem IsEntry.get?_eq_none (hu : IsEntry u) (ht : (c.wiring .fine).graph.Stable f t)
    (h : v ∈ (c.wiring .fine).graph.successors f u) (hnone : t.get? u = none) :
    t.get? v = none := by
  obtain ⟨⟨e, he⟩, hc⟩ := PathGraph.mem_successors.mp h
  exact ht.get?_eq_none_of_edge he (hu.policies_eq_nil (edge_of_wiring he)) hc hnone

theorem rib_mem_fine {r : Router} (hr : c.net.router? r.id = some r) (hs : r.isSwitch = false) :
    .main (.rib r.id) ∈ (c.wiring .fine).graph.vertices := by
  refine mem_fine_vertices hr ?_
  simp [fineVerticesOf, hs]

/-- If a VLAN of a router with processes has no route, its routing decision has none. -/
theorem get?_rib_eq_none (hn : c.net.Linked) (ht : (c.wiring .fine).graph.Stable f t)
    (hx : (c.net.vlan? x).isSome) (hs : c.net.isSwitch x.router = false)
    (hnone : t.get? (.main (.vlanIn x)) = none) : t.get? (.main (.rib x.router)) = none := by
  obtain ⟨r, y, hr, hid, -, rfl, hyr⟩ := Network.exists_router_of_vlan hn hx
  rw [← hid] at hs ⊢
  rw [Network.isSwitch, hr, Option.any_some] at hs
  have hne : Vertex.main (.vlanIn y.id) ≠ .main (.rib r.id) := by
    intro h
    cases h
  have hsucc : .main (.rib r.id) ∈ (c.wiring .fine).graph.successors f (.main (.vlanIn y.id)) :=
    mem_successors_iff.mpr ⟨⟨_, .fine (List.mem_of_getElem? hr) (.ingress hyr hs)⟩,
      (vlan_mem_fine hn hx).1, rib_mem_fine hr hs, hne,
      FailureSet.cuts_of_router?_eq (congrArg some hid.symm)⟩
  exact IsEntry.get?_eq_none (.inr ⟨_, rfl⟩) ht hsucc hnone

/-- Routers with BGP are no switches, and the routing decision has the routes of BGP. -/
theorem get?_bgpIn_eq_none {i : RouterId} (hn : c.net.Linked)
    (ht : (c.wiring .fine).graph.Stable f t)
    (h : .main (.bgpIn i) ∈ (c.wiring .fine).graph.vertices) :
    c.net.isSwitch i = false ∧ (t.get? (.main (.rib i)) = none →
      t.get? (.main (.bgpIn i)) = none) := by
  obtain ⟨r, hmem, hb, -, rfl⟩ := exists_router_of_bgpIn_mem h
  obtain ⟨b, hb⟩ := Option.isSome_iff_exists.mp hb
  have hr := hn.router?_of_mem hmem
  have hs : r.isSwitch = false := by simp [Router.isSwitch, hb]
  have hne : Vertex.main (.rib r.id) ≠ .main (.bgpIn r.id) := by
    intro h
    cases h
  have hsucc : .main (.bgpIn r.id) ∈ (c.wiring .fine).graph.successors f (.main (.rib r.id)) :=
    mem_successors_iff.mpr ⟨⟨_, .fine hmem .bgpLookup⟩, rib_mem_fine hr hs, h, hne,
      FailureSet.cuts_of_router?_eq rfl⟩
  exact ⟨by rw [Network.isSwitch, hr, Option.any_some, hs],
    IsEntry.get?_eq_none (.inl ⟨_, rfl⟩) ht hsucc⟩

/-- **Packets are stranded inside of the layer**, on a router that passes them on to the peer, and
that has no route of its own. -/
theorem relays_of_strands (hn : c.net.Linked) (ht : (c.wiring variant).graph.Stable f t)
    (h : (c.wiring variant).graph.Strands t (.nextHop layer (.vlanIn x))) :
    variant = .fine ∧ ¬ c.net.DirectlyConnected ∧ c.net.Relays x.router ∧
      (c.net.isSwitch x.router = false → t.get? (.main (.rib x.router)) = none) := by
  obtain ⟨rfl, hmem, hnone, -, q, hq⟩ := leg_of_strands hn ht h
  have hdistant : ¬ c.net.DirectlyConnected := by
    intro hdirect
    cases inMain_fine hdirect _ hmem
  obtain ⟨x, hx, hvlan⟩ := exists_vlan_of_isEntry hn hmem (.inr ⟨_, rfl⟩)
  cases hx
  have hrib := fun hs => get?_rib_eq_none hn ht hvlan hs hnone
  have hd : Vertex.nextHop layer (.vlanIn x) ≠ (c.wiring .fine).graph.destination := nofun
  obtain ⟨z, e, s, σ, he, hc, hz, -⟩ := ht.isCandidate hd hq
  have hsucc := PathGraph.mem_successors.mpr ⟨⟨e, he⟩, hc⟩
  rcases ends_or_stays hn ⟨rfl, .inl ⟨_, rfl⟩⟩ hsucc with
    ⟨y, hy, hpeer, rfl⟩ | ⟨⟨i, hi, hrelays⟩, -⟩
  · -- at the peer the routing decision has the route that BGP has
    cases hy
    rw [← hpeer] at hz hsucc
    obtain ⟨hs, hbgp⟩ :=
      get?_bgpIn_eq_none hn ht (PathGraph.mem_vertices_of_mem_successors hsucc).2.1
    cases (hbgp (hrib hs)).symm.trans hz
  · cases hi
    exact ⟨rfl, hdistant, hrelays, hrib⟩

/-! ### Packets that come back -/

theorem Hop.exists_router (h : c.Hop u v) (hv : v ≠ c.destination) : ∃ i, v.router? = some i := by
  cases h with
  | enter _ h _ => exact ⟨_, h⟩
  | stay _ h => exact ⟨_, h⟩
  | link _ h _ => exact ⟨_, h⟩
  | deliver _ h _ => exact absurd h hv

/-- Where packets enter next is a vertex of another router. -/
theorem router?_of_entryAfter? (hn : c.net.Linked) (ht : (c.wiring variant).graph.Stable f t)
    (h : (c.wiring variant).graph.entryAfter? t u = some v) :
    ∃ i, v.router? = some i ∧ u.router? ≠ some i := by
  obtain ⟨l, w, hleg, hd, rfl⟩ := PathGraph.entryAfter?_eq_some.mp h
  obtain ⟨x, -, hw⟩ := (leg_ends ht hleg).2 hd
  have hne := (leg_spec hleg).2 hd
  rw [destination_wiring] at hd
  obtain ⟨i, hi⟩ := (hop_of_mem_successors hn hw).1.exists_router hd
  exact ⟨i, hi, fun hu => hne (hi.trans hu.symm)⟩

/-- **A packet that comes back to a vertex circles**: in between it has been at another router. -/
theorem circles_of_comesBack (hn : c.net.Linked) (ht : (c.wiring variant).graph.Stable f t)
    (h : (c.wiring variant).graph.ComesBack t v) :
    ∃ i j, v.router? = some i ∧ (c.wiring variant).graph.Circles t i j := by
  obtain ⟨left, htrail, hv⟩ := h
  cases htrail with
  | start => cases hv
  | @next left u _ h hu hnext =>
    obtain ⟨i, hi, hui⟩ := router?_of_entryAfter? hn ht hnext
    have hvu : v ≠ u := by
      rintro rfl
      exact hui hi
    have hvl := (List.mem_cons.mp hv).resolve_left hvu
    cases h with
    | start => cases hvl
    | next h' hu' hnext' =>
      obtain ⟨j, hj, -⟩ := router?_of_entryAfter? hn ht hnext'
      refine ⟨i, j, hi, _, u, v, (h'.next hu' hnext').next hu hnext, ⟨v, hvl, hi⟩, hj, hi, ?_⟩
      rintro rfl
      exact hui hj

/-! ### Why packets do not arrive -/

/-- **Packets only fail to arrive if the source has no route, if they come back, or if they are
stranded**, in both variants of the graph and whatever links have failed. If a packet comes back to
a vertex, this alone is reported, and the packet circles between routers. A loop is printed in the
third case as well. Packets are only stranded in the layer of a next hop, on a router that passes
them on there and has no route of its own. So they never are in coarse graphs, nor if all sessions
are with adjacent peers. -/
theorem undelivered {cfg : NetworkConfig} {w : Wiring} {s : Simulation}
    (hlink : cfg.link = .ok c.net) (hw : c.build variant = .ok w)
    (hs : w.graph.simulate f = .ok s) :
    ((w.graph.reprocess s).path? = none ↔ w.graph.bestRoute s = none ∨
      (∃ v, w.graph.ComesBack s.routes v) ∨
        ∃ layer x, w.graph.Strands s.routes (.nextHop layer (.vlanIn x))) ∧
    (∀ v, w.graph.ComesBack s.routes v → (w.graph.reprocess s).warnings = [.forwardingLoop v] ∧
      ∃ i j, v.router? = some i ∧ w.graph.Circles s.routes i j) ∧
    ((∀ v, ¬ w.graph.ComesBack s.routes v) → (w.graph.reprocess s).warnings = []) ∧
    (Cli.selectionLines c.net w.graph s = ["The selected path contains a forwarding loop"] ↔
      (∃ v, w.graph.ComesBack s.routes v) ∨
        ∃ layer x, w.graph.Strands s.routes (.nextHop layer (.vlanIn x))) ∧
    ∀ layer x, w.graph.Strands s.routes (.nextHop layer (.vlanIn x)) →
      variant = .fine ∧ ¬ c.net.DirectlyConnected ∧ c.net.Relays x.router ∧
        (c.net.isSwitch x.router = false → s.routes.get? (.main (.rib x.router)) = none) := by
  have hn := NetworkConfig.linked_of_link hlink
  obtain rfl := eq_wiring_of_build hw
  have ht := PathGraph.simulate_stable hs
  have hg := entersMain hn ht
  have hstrands : (∃ w, (c.wiring variant).graph.Strands s.routes w) ↔
      ∃ layer x, (c.wiring variant).graph.Strands s.routes (.nextHop layer (.vlanIn x)) := by
    constructor
    · rintro ⟨w, h⟩
      obtain ⟨-, -, -, ⟨layer, x, rfl⟩, -⟩ := leg_of_strands hn ht h
      exact ⟨layer, x, h⟩
    · rintro ⟨layer, x, h⟩
      exact ⟨_, h⟩
  have hpath := PathGraph.path?_eq_none_iff ht hg
  rw [hstrands] at hpath
  refine ⟨hpath, fun v h => ⟨?_, circles_of_comesBack hn ht h⟩, fun hnone => ?_, ?_,
    fun layer x h => relays_of_strands hn ht h⟩
  · rw [(PathGraph.reprocess_eq_loop_iff ht hg).mpr h]
    rfl
  · cases hwalk : (c.wiring variant).graph.reprocess s with
    | arrived p => rfl
    | stuck => rfl
    | loop v => exact absurd ((PathGraph.reprocess_eq_loop_iff ht hg).mp hwalk) (hnone v)
  · rw [PathGraph.selectionLines_eq_loop_iff, hpath]
    constructor
    · rintro ⟨hroute, h⟩
      exact h.resolve_left hroute
    · intro h
      refine ⟨?_, .inr h⟩
      rcases h with ⟨v, left, htrail, hv⟩ | ⟨layer, x, left, u, l, htrail, -⟩
      · obtain ⟨u, left, rfl⟩ := List.exists_cons_of_ne_nil (List.ne_nil_of_mem hv)
        exact htrail.bestRoute_ne_none
      · exact htrail.bestRoute_ne_none

/-! ### Where packets are deflected -/

/-- Three routers in a line that run OSPF. The first and the third have a session, and the third
originates the subnet `t`. The second one knows of no session, or it has one as well, with a fourth
router behind the first one, which originates `t` too. -/
def deflectionConfig (deflects : Bool) : NetworkConfig :=
  let r1 := RouterConfig.named "R1"
    |>.iface "R2" (some 12) |>.vlan 12 (Example.block 10 0 12 1) |>.ospfActive 12
    |>.bgpInternal (Example.host 10 0 23 3) none none |>.subnet "s"
  let r1' := r1
    |>.iface "R4" (some 14) |>.vlan 14 (Example.block 10 0 14 1) |>.ospfActive 14
  let r2 := RouterConfig.named "R2"
    |>.iface "R1" (some 12) |>.iface "R3" (some 23)
    |>.vlan 12 (Example.block 10 0 12 2) |>.vlan 23 (Example.block 10 0 23 2)
    |>.ospfActive 12 |>.ospfActive 23
  let r2' := r2 |>.bgpInternal (Example.host 10 0 14 4) none none
  let r3 := RouterConfig.named "R3"
    |>.iface "R2" (some 23) |>.vlan 23 (Example.block 10 0 23 3) |>.ospfActive 23
    |>.bgpInternal (Example.host 10 0 12 1) none none |>.bgpOrigin "t" |>.subnet "t"
  let r4 := RouterConfig.named "R4"
    |>.iface "R1" (some 14) |>.vlan 14 (Example.block 10 0 14 4) |>.ospfActive 14
    |>.bgpInternal (Example.host 10 0 12 2) none none |>.bgpOrigin "t" |>.subnet "t"
  { routers := if deflects then [r1', r2', r3, r4] else [r1, r2, r3] }

/-- From the first router to the third. -/
def deflectionScene (deflects : Bool) : Scene := (deflectionConfig deflects).assemble.scene "t" "s"

/-- If the second router has a session too, the packet comes back to it. Otherwise it is stranded
there. -/
theorem undelivered_deflection :
    (∃ w s, (deflectionConfig true).link = .ok (deflectionScene true).net ∧
      (deflectionScene true).build .fine = .ok w ∧ w.graph.simulate ∅ = .ok s ∧
      w.graph.ComesBack s.routes (.main (.vlanIn ⟨1, 12⟩)) ∧
      (∃ j, w.graph.Circles s.routes 1 j) ∧
      Cli.selectionLines (deflectionScene true).net w.graph s =
        ["The selected path contains a forwarding loop"]) ∧
    ∃ w s, (deflectionConfig false).link = .ok (deflectionScene false).net ∧
      (deflectionScene false).build .fine = .ok w ∧ w.graph.simulate ∅ = .ok s ∧
      w.graph.bestRoute s ≠ none ∧
      ∃ layer x, w.graph.Strands s.routes (.nextHop layer (.vlanIn x)) ∧
        (deflectionScene false).net.Relays x.router := by
  constructor
  · have hlink : (deflectionConfig true).link = .ok (deflectionScene true).net := rfl
    have hbuild : (deflectionScene true).build .fine = .ok ((deflectionScene true).wiring .fine) :=
      build_of_error?_eq_none (by decide +kernel)
    obtain ⟨s, hs, hwalk⟩ := PathGraph.exists_simulate_of_any
      (g := ((deflectionScene true).wiring .fine).graph) (f := ∅)
      (p := fun s => decide (((deflectionScene true).wiring .fine).graph.reprocess s =
        .loop (.main (.vlanIn ⟨1, 12⟩)))) (by decide +kernel)
    have hwalk := of_decide_eq_true hwalk
    obtain ⟨-, hback, hquiet, hline, -⟩ := undelivered hlink hbuild hs
    rw [hwalk] at hback hquiet
    obtain ⟨v, hv⟩ : ∃ v, ((deflectionScene true).wiring .fine).graph.ComesBack s.routes v := by
      by_contra hnone
      cases hquiet (not_exists.mp hnone)
    obtain ⟨hloop, i, j, hi, hcircles⟩ := hback v hv
    cases hloop
    cases hi
    exact ⟨_, s, hlink, hbuild, hs, hv, ⟨j, hcircles⟩, hline.mpr (.inl ⟨_, hv⟩)⟩
  · have hlink : (deflectionConfig false).link = .ok (deflectionScene false).net := rfl
    have hbuild : (deflectionScene false).build .fine =
        .ok ((deflectionScene false).wiring .fine) := build_of_error?_eq_none (by decide +kernel)
    obtain ⟨s, hs, hwalk⟩ := PathGraph.exists_simulate_of_any
      (g := ((deflectionScene false).wiring .fine).graph) (f := ∅)
      (p := fun s => decide (((deflectionScene false).wiring .fine).graph.reprocess s = .stuck) &&
        (((deflectionScene false).wiring .fine).graph.bestRoute s).isSome) (by decide +kernel)
    obtain ⟨hstuck, hroute⟩ := Bool.and_eq_true_iff.mp hwalk
    have hstuck := of_decide_eq_true hstuck
    have hroute := Option.isSome_iff_ne_none.mp hroute
    obtain ⟨hpath, hback, -, -, hstrands⟩ := undelivered hlink hbuild hs
    rw [hstuck] at hpath hback
    rcases (hpath.mp rfl).resolve_left hroute with ⟨v, hv⟩ | ⟨layer, x, hx⟩
    · cases (hback v hv).1
    · exact ⟨_, s, hlink, hbuild, hs, hroute, layer, x, hx, (hstrands layer x hx).2.2.1⟩

/-- A packet that is stranded neither comes back nor circles, and the source has a route. -/
theorem not_failsAsReported :
    ∃ w s, (deflectionConfig false).link = .ok (deflectionScene false).net ∧
      (deflectionScene false).build .fine = .ok w ∧ w.graph.simulate ∅ = .ok s ∧
      ¬ w.graph.FailsAsReported s ∧
      Cli.selectionLines (deflectionScene false).net w.graph s =
        ["The selected path contains a forwarding loop"] ∧
      ∀ i j, ¬ w.graph.Circles s.routes i j := by
  have hbuild : (deflectionScene false).build .fine =
      .ok ((deflectionScene false).wiring .fine) := build_of_error?_eq_none (by decide +kernel)
  generalize hg : ((deflectionScene false).wiring .fine).graph = g
  obtain ⟨s, hs, hwalk⟩ := PathGraph.exists_simulate_of_any (g := g) (f := ∅)
    (p := fun s => (g.bestRoute s).isSome && (g.reprocess s).path?.isNone &&
      decide (g.entryAfter? s.routes g.source = some (.main (.rib 0)) ∧
        g.entryAfter? s.routes (.main (.rib 0)) = some (.main (.vlanIn ⟨1, 12⟩)) ∧
        g.entryAfter? s.routes (.main (.vlanIn ⟨1, 12⟩)) = none))
    (by rw [← hg]; decide +kernel)
  simp only [Bool.and_eq_true, decide_eq_true_eq, Option.isNone_iff_eq_none] at hwalk
  obtain ⟨⟨hroute, hlost⟩, hfirst, hsecond, hthird⟩ := hwalk
  have hroute := Option.isSome_iff_ne_none.mp hroute
  -- the trail ends at the second router
  have htrail := fun {left v} (h : g.Trail s.routes left v) =>
    h.eq_of_entryAfter? hfirst hsecond hthird
  refine ⟨_, s, rfl, hbuild, hg ▸ hs, ?_, ?_, ?_⟩
  · intro hfails
    rw [hg] at hfails
    obtain ⟨v, left, h, hv⟩ := (hfails.mp hlost).resolve_left hroute
    rcases htrail h with ⟨rfl, rfl⟩ | ⟨rfl, rfl⟩ | ⟨rfl, rfl⟩
    · cases hv
    · cases List.mem_singleton.mp hv
    · rcases List.mem_cons.mp hv with hv | hv
      · cases hv
      · cases List.mem_singleton.mp hv
  · rw [hg]
    exact PathGraph.selectionLines_eq_loop_iff.mpr ⟨hroute, hlost⟩
  · rintro i j ⟨left, x, v, h, ⟨u, hu, hui⟩, -⟩
    rw [hg] at h
    rcases htrail h with ⟨h, -⟩ | ⟨h, -⟩ | ⟨h, -⟩ <;> cases h
    · cases hu
    · cases List.mem_singleton.mp hu
      cases hui

end Scene

end NetReach
