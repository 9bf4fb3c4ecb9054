import Mathlib.Data.List.TakeWhile
import NetReach.Proofs.Edges
import NetReach.Proofs.Physical

/-! # The trip of a packet from router to router

The walk of a packet is cut into *legs* (`PathGraph.Leg`), one for every router it enters. A leg
ends with the vertex behind it, which alone decides how the trip goes on. So a trip that arrives
never leaves two of its routers over the same vertex (`PathGraph.Trip.leg_ne`).

In the fine graph packets enter a router with processes only to be handed to its routing decision,
whatever the VLAN, and leave it over one vertex. Hence a trip that arrives enters no such router
twice (`Scene.count_routerPath_le_one`). -/

namespace NetReach

/-! ### Legs and trips -/

namespace PathGraph

variable {g : PathGraph} {t : RoutingTable} {f : FailureSet} {u v w x y : Vertex}
  {l l' a b p p' vs vs' : List Vertex}

/-- The vertex is not the destination, and belongs to the router of `v`. -/
def isOwn (g : PathGraph) (v w : Vertex) : Bool :=
  decide (w ≠ g.destination ∧ w.router? = v.router?)

/-- The route of `v` stays on its router for the vertices `l`, and `w` comes behind. -/
def Leg (g : PathGraph) (t : RoutingTable) (v : Vertex) (l : List Vertex) (w : Vertex) : Prop :=
  ∃ r rest, t.get? v = some r ∧ r.path.takeWhile (g.isOwn v) = l ∧
    r.path.dropWhile (g.isOwn v) = w :: rest

/-- A trip that arrives, with the vertices at which it enters routers and all those it passes. -/
inductive Trip (g : PathGraph) (t : RoutingTable) : List Vertex → List Vertex → Prop where
  | arrive {v : Vertex} {l : List Vertex} : g.Leg t v l g.destination →
    Trip g t [v] (l ++ [g.destination])
  | enter {v w : Vertex} {l p vs : List Vertex} : g.Leg t v l w → w ≠ g.destination →
    Trip g t (w.toMain :: vs) p → Trip g t (v :: w.toMain :: vs) (l ++ p)

/-- **A walk that arrives is a trip.** -/
theorem trip_of_walkFrom (n : Nat) : ∀ {left v passed},
    g.walkFrom t n left v passed = .arrived p →
      ∃ vs p', g.Trip t (v :: vs) p' ∧ p = passed ++ p' := by
  induction n with
  | zero => intro left v passed h; cases h
  | succ n ih =>
    intro left v passed h
    unfold walkFrom at h
    split at h
    · cases h
    split at h
    · cases h
    next r hr =>
    simp only at h
    split at h
    · cases h
    next w rest hw =>
    have hleg : g.Leg t v (r.path.takeWhile (g.isOwn v)) w := ⟨r, rest, hr, rfl, hw⟩
    split at h
    · next hd =>
      cases h
      rw [hd] at hleg ⊢
      exact ⟨[], _, .arrive hleg, by rw [List.append_assoc]; rfl⟩
    · next hd =>
      split at h
      · obtain ⟨vs, p', htrip, rfl⟩ := ih h
        exact ⟨_, _, .enter hleg hd htrip, by rw [List.append_assoc]; rfl⟩
      · cases h

theorem Leg.unique (h : g.Leg t v l w) (h' : g.Leg t v l' x) : l = l' ∧ w = x := by
  obtain ⟨r, rest, hr, rfl, hw⟩ := h
  obtain ⟨r', rest', hr', rfl, hx⟩ := h'
  rw [hr] at hr'
  cases hr'
  rw [hw] at hx
  cases hx
  exact ⟨rfl, rfl⟩

theorem Trip.ne_nil (h : g.Trip t vs p) : vs ≠ [] := by
  cases h <;> exact List.cons_ne_nil _ _

/-- The rest of a trip from the vertex behind its first leg on. -/
theorem Trip.exists_leg (h : g.Trip t (v :: vs) p) : ∃ l w, g.Leg t v l w ∧
    (w = g.destination ∧ vs = [] ∧ p = l ++ [w] ∨
      ∃ us q, w ≠ g.destination ∧ vs = w.toMain :: us ∧ p = l ++ q ∧ g.Trip t vs q) := by
  cases h with
  | arrive h => exact ⟨_, _, h, Or.inl ⟨rfl, rfl, rfl⟩⟩
  | enter h hd htrip => exact ⟨_, _, h, Or.inr ⟨_, _, hd, rfl, rfl, htrip⟩⟩

/-- **The first vertex decides about the trip.** -/
theorem Trip.unique (h : g.Trip t vs p) (h' : g.Trip t vs' p') (hv : vs.head? = vs'.head?) :
    vs = vs' := by
  induction h generalizing vs' p' with
  | @arrive v l hleg =>
    obtain ⟨v', vs', rfl⟩ := List.exists_cons_of_ne_nil h'.ne_nil
    cases hv
    obtain ⟨l', w, hleg', ⟨-, hnil, -⟩ | ⟨us, q, hd, -⟩⟩ := h'.exists_leg
    · rw [hnil]
    · exact absurd (hleg'.unique hleg).2 hd
  | @enter v w l p vs hleg hd htrip ih =>
    obtain ⟨v', vs', rfl⟩ := List.exists_cons_of_ne_nil h'.ne_nil
    cases hv
    obtain ⟨l', w', hleg', ⟨hd', -⟩ | ⟨us, q, -, rfl, -, htrip'⟩⟩ := h'.exists_leg
    · exact absurd ((hleg.unique hleg').2.trans hd') hd
    · obtain rfl := (hleg.unique hleg').2
      rw [ih htrip' rfl]

/-- Where two routers are left over the same vertex, trips go on alike. -/
theorem Trip.rest_unique (h : g.Trip t (v :: vs) p) (h' : g.Trip t (x :: vs') p')
    (hv : g.Leg t v l w) (hx : g.Leg t x l' w) : vs = vs' := by
  obtain ⟨m, y, hleg, hcase⟩ := h.exists_leg
  obtain ⟨m', y', hleg', hcase'⟩ := h'.exists_leg
  obtain rfl := (hv.unique hleg).2
  obtain rfl := (hx.unique hleg').2
  rcases hcase with ⟨hd, rfl, -⟩ | ⟨us, q, hd, hvs, -, htrip⟩
  · rcases hcase' with ⟨-, rfl, -⟩ | ⟨us', q', hd', -⟩
    · rfl
    · exact absurd hd hd'
  · rcases hcase' with ⟨hd', -⟩ | ⟨us', q', -, hvs', -, htrip'⟩
    · exact absurd hd' hd
    · refine htrip.unique htrip' ?_
      rw [hvs, hvs']
      rfl

theorem Trip.of_append (h : g.Trip t (a ++ v :: b) p) : ∃ q, g.Trip t (v :: b) q := by
  induction a generalizing p with
  | nil => exact ⟨p, h⟩
  | cons x a ih =>
    obtain ⟨l, w, -, ⟨-, hnil, -⟩ | ⟨us, q, -, -, -, htrip⟩⟩ := h.exists_leg
    · simp at hnil
    · exact ih htrip

/-- **A trip that arrives never leaves two of its routers over the same vertex**: it would have to
go on alike both times. -/
theorem Trip.leg_ne (h : g.Trip t (v :: vs) p) (hx : x ∈ vs) (hv : g.Leg t v l w)
    (hxl : g.Leg t x l' y) : w ≠ y := by
  rintro rfl
  obtain ⟨a, b, rfl⟩ := List.append_of_mem hx
  obtain ⟨q, htrip⟩ := Trip.of_append (a := v :: a) h
  have hlen := congrArg List.length (h.rest_unique htrip hv hxl)
  rw [List.length_append, List.length_cons] at hlen
  omega

end PathGraph

/-! ### The routers of a trip -/

section OnceInARow

open Network.routerPath (onceInARow)

/-- A run of the same item counts once. -/
theorem Scene.onceInARow_append {i : RouterId} {is js : List RouterId} (hne : is ≠ [])
    (hi : ∀ x ∈ is, x = i) (hj : js.head? ≠ some i) :
    onceInARow (is ++ js) = i :: onceInARow js := by
  induction is with
  | nil => exact absurd rfl hne
  | cons a is ih =>
    obtain rfl : a = i := hi a List.mem_cons_self
    cases is with
    | nil =>
      cases js with
      | nil => rfl
      | cons b js =>
        have hab : a ≠ b := fun he => hj (by rw [he]; rfl)
        rw [List.singleton_append, onceInARow, if_neg hab]
    | cons b is =>
      obtain rfl : b = a := hi b (List.mem_cons_of_mem _ List.mem_cons_self)
      rw [List.cons_append, List.cons_append, onceInARow, if_pos rfl]
      exact ih (List.cons_ne_nil _ _) fun x hx => hi x (List.mem_cons_of_mem _ hx)

end OnceInARow

namespace Scene

open PathGraph (Trip Leg)

variable {c : Scene} {f : FailureSet} {t : RoutingTable} {i : RouterId} {u v w : Vertex}
  {l p vs : List Vertex}

/-- The vertices of a leg belong to the router of its first one, and the one behind to another. -/
theorem leg_spec {g : PathGraph} (h : g.Leg t v l w) :
    (∀ x ∈ l, x ≠ g.destination ∧ x.router? = v.router?) ∧
      (w ≠ g.destination → w.router? ≠ v.router?) := by
  obtain ⟨r, rest, -, rfl, hw⟩ := h
  constructor
  · intro x hx
    have hown : g.isOwn v x = true := List.mem_takeWhile_imp hx
    exact of_decide_eq_true hown
  · intro hd heq
    have hown := List.head?_dropWhile_not (g.isOwn v) r.path
    rw [hw] at hown
    simp only [List.head?_cons, PathGraph.isOwn, decide_eq_false_iff_not] at hown
    exact hown ⟨hd, heq⟩

variable {variant : Variant}

/-- The last vertex of a leg has an edge to the one behind, and the first belongs to the leg. -/
theorem leg_ends {g : PathGraph} (ht : g.Stable f t) (h : g.Leg t v l w) :
    (v ≠ g.destination → v ∈ l) ∧
      (w ≠ g.destination → ∃ u, u.router? = v.router? ∧ w ∈ g.successors f u) := by
  have hspec := leg_spec h
  obtain ⟨r, rest, hr, rfl, hw⟩ := h
  have hpath := ht.isPath hr
  obtain ⟨q, hq⟩ := ht.head hr
  have hsplit : r.path.takeWhile (g.isOwn v) ++ w :: rest = r.path := by
    rw [← hw, List.takeWhile_append_dropWhile]
  have hfirst : v ≠ g.destination → v ∈ r.path.takeWhile (g.isOwn v) := by
    intro hd
    have hown : g.isOwn v v = true := decide_eq_true ⟨hd, rfl⟩
    rw [hq, List.takeWhile_cons_of_pos hown]
    exact List.mem_cons_self
  refine ⟨hfirst, fun hd => ?_⟩
  rcases List.eq_nil_or_concat (r.path.takeWhile (g.isOwn v)) with hnil | ⟨m, u, hm⟩
  · -- the leg cannot be empty, as then the vertex behind it is the first one
    rw [hnil, List.nil_append, hq] at hsplit
    cases hsplit
    exact absurd rfl (hspec.2 hd)
  · rw [List.concat_eq_append] at hm
    rw [hm] at hsplit hspec
    refine ⟨u, (hspec.1 u (by simp)).2, ?_⟩
    have hchain := hpath.chain
    rw [← hsplit] at hchain
    exact (List.isChain_append.mp hchain).2.2 u (by simp) w rfl

/-- **The router path of a trip has every router as often as it is entered.** -/
theorem routerPath_of_trip (hn : c.net.Linked) (ht : (c.wiring variant).graph.Stable f t)
    (h : (c.wiring variant).graph.Trip t vs p) :
    Network.routerPath p = vs.filterMap (·.router?) := by
  -- on a leg of a router there are only vertices of it, and at least one
  have hown : ∀ {v w l} {i : RouterId}, (c.wiring variant).graph.Leg t v l w →
      v.router? = some i →
      l.filterMap (·.router?) ≠ [] ∧ ∀ j ∈ l.filterMap (·.router?), j = i := by
    intro v w l i hleg hi
    have hd : v ≠ (c.wiring variant).graph.destination := by
      rintro rfl
      cases hi
    refine ⟨List.ne_nil_of_mem (List.mem_filterMap.mpr ⟨v, (leg_ends ht hleg).1 hd, hi⟩), ?_⟩
    intro j hj
    obtain ⟨x, hx, hxj⟩ := List.mem_filterMap.mp hj
    rw [((leg_spec hleg).1 x hx).2, hi] at hxj
    exact (Option.some.inj hxj).symm
  have hnone : ∀ {v w l}, (c.wiring variant).graph.Leg t v l w → v.router? = none →
      l.filterMap (·.router?) = [] := by
    intro v w l hleg hi
    refine List.eq_nil_iff_forall_not_mem.mpr fun j hj => ?_
    obtain ⟨x, hx, hxj⟩ := List.mem_filterMap.mp hj
    rw [((leg_spec hleg).1 x hx).2, hi] at hxj
    cases hxj
  induction h with
  | @arrive v l hleg =>
    have hdst : (c.wiring variant).graph.destination.router? = none := rfl
    rw [Network.routerPath, List.filterMap_append, List.filterMap_cons_none hdst,
      List.filterMap_nil]
    cases hi : v.router? with
    | none => rw [hnone hleg hi, List.filterMap_cons_none hi]; rfl
    | some i =>
      obtain ⟨hne, hall⟩ := hown hleg hi
      have hlast : ([] : List RouterId).head? ≠ some i := (Option.some_ne_none i).symm
      rw [onceInARow_append hne hall hlast, List.filterMap_cons_some hi]
      rfl
  | @enter v w l p vs hleg hd htrip ih =>
    obtain ⟨u, hu, hw⟩ := (leg_ends ht hleg).2 hd
    rw [Network.routerPath] at ih
    rw [Network.routerPath, List.filterMap_append]
    cases hi : v.router? with
    | none => rw [hnone hleg hi, List.nil_append, ih, List.filterMap_cons_none hi]
    | some i =>
      obtain ⟨hne, hall⟩ := hown hleg hi
      -- the vertex behind the leg belongs to another router
      obtain ⟨hop, hc⟩ := hop_of_mem_successors hn hw
      rw [destination_wiring] at hd
      obtain ⟨j, hj, -⟩ := hop.joined hc (hu.trans hi) hd
      have hji : some j ≠ some i := by
        rw [← hj, ← hi]
        exact (leg_spec hleg).2 (by rwa [destination_wiring])
      have hhead : (p.filterMap (·.router?)).head? ≠ some i := by
        have hjw : w.toMain.router? = some j := hj
        rw [← head?_onceInARow, ih, List.filterMap_cons_some hjw]
        exact hji
      rw [onceInARow_append hne hall hhead, ih, List.filterMap_cons_some hi]

/-! ### Trips through the fine graph -/

/-- Where packets enter a router: at its routing decision, or on a VLAN. -/
def IsEntry (v : Vertex) : Prop := (∃ i, v = .main (.rib i)) ∨ ∃ x, v = .main (.vlanIn x)

/-- Edges between routers lead to where packets enter. -/
theorem isEntry_of_mem_successors (hn : c.net.Linked)
    (h : w ∈ (c.wiring .fine).graph.successors f u) (hd : w ≠ c.destination)
    (hne : w.router? ≠ u.router?) : IsEntry w.toMain := by
  obtain ⟨⟨e, he⟩, -⟩ := mem_successors_iff.mp h
  cases he with
  | fine hr he =>
    cases he with
    | origin _ => exact Or.inl ⟨_, rfl⟩
    | ingress _ _ => exact Or.inl ⟨_, rfl⟩
    | physical _ _ => exact Or.inr ⟨_, rfl⟩
    | ospfDelivery _ _ => exact absurd rfl hd
    | bgpDelivery _ => exact absurd rfl hd
    | egress _ hy => exact absurd (congrArg some (mem_ospfEgress.mp hy).1) hne
    | direct hs hv =>
      have hlocal := hn.localVlan (hn.router?_of_mem hr) (List.mem_filter.mp hs).1 hv
      exact absurd (congrArg some hlocal.1) hne
    | _ => exact absurd rfl hne
  | layer hr _ he =>
    cases he with
    | exit hx hl =>
      have hrouter := router?_of_mem_vlans hn (hn.router?_of_mem hr) hx
      exact absurd (hrouter.trans (congrArg some hl)).symm hne
    | physical _ _ => exact Or.inr ⟨_, rfl⟩
    | egress _ _ hy => exact absurd (congrArg some (mem_ospfEgress.mp hy).1) hne
    | ingress hx _ _ => exact absurd (router?_of_mem_vlans hn (hn.router?_of_mem hr) hx).symm hne
    | _ => exact absurd rfl hne

/-- Packets that enter a router with processes are handed to its routing decision. -/
theorem eq_rib_of_mem_successors (hn : c.net.Linked) {x : VlanId}
    (h : w ∈ (c.wiring .fine).graph.successors f (.main (.vlanIn x)))
    (hs : c.net.isSwitch x.router = false) : w = .main (.rib x.router) := by
  obtain ⟨⟨e, he⟩, -⟩ := mem_successors_iff.mp h
  generalize hu : Vertex.main (.vlanIn x) = u at he
  cases he with
  | fine hr he =>
    have hr := hn.router?_of_mem hr
    cases he with
    | @switching y hy hswitch =>
      cases hu
      have hid := ((Network.mem_vlans_of_router? hn hr).mp hy).2
      rw [Network.isSwitch, hid, hr, Option.any_some, hswitch] at hs
      cases hs
    | ingress hy _ =>
      cases hu
      rw [((Network.mem_vlans_of_router? hn hr).mp hy).2]
    | _ => cases hu
  | layer _ _ he => cases he <;> cases hu

/-- **A router with processes is left over the same vertex wherever it is entered.** -/
theorem exists_leg_rib (hn : c.net.Linked) (ht : (c.wiring .fine).graph.Stable f t)
    (hv : IsEntry v) (hi : v.router? = some i) (hs : c.net.isSwitch i = false)
    (h : (c.wiring .fine).graph.Leg t v l w) :
    ∃ l', (c.wiring .fine).graph.Leg t (.main (.rib i)) l' w := by
  rcases hv with ⟨j, rfl⟩ | ⟨x, rfl⟩
  · cases hi
    exact ⟨l, h⟩
  · cases hi
    obtain ⟨r, rest, hr, -, hw⟩ := h
    -- the route of the VLAN goes on with that of the routing decision
    have hd : Vertex.main (.vlanIn x) ≠ (c.wiring .fine).graph.destination := nofun
    obtain ⟨y, e, s, σ, he, hc, hy, -, -, rfl⟩ := ht.isCandidate hd hr
    have hsucc := PathGraph.mem_successors.mpr ⟨⟨e, he⟩, hc⟩
    obtain rfl := eq_rib_of_mem_successors hn hsucc hs
    refine ⟨_, s, rest, hy, rfl, ?_⟩
    have hown : (c.wiring .fine).graph.isOwn (.main (.vlanIn x)) (.main (.vlanIn x)) = true :=
      decide_eq_true ⟨hd, rfl⟩
    rw [List.dropWhile_cons_of_pos hown] at hw
    exact hw

/-- Behind its first vertex a trip is at entries only. -/
theorem isEntry_of_trip (hn : c.net.Linked) (ht : (c.wiring .fine).graph.Stable f t)
    (h : (c.wiring .fine).graph.Trip t (v :: vs) p) : ∀ x ∈ vs, IsEntry x := by
  generalize hus : v :: vs = us at h
  induction h generalizing v vs with
  | arrive _ =>
    cases hus
    exact nofun
  | @enter v w l p vs hleg hd htrip ih =>
    cases hus
    intro x hx
    rcases List.mem_cons.mp hx with rfl | hx
    · obtain ⟨u, hu, hw⟩ := (leg_ends ht hleg).2 hd
      have hne := (leg_spec hleg).2 hd
      rw [destination_wiring] at hd
      exact isEntry_of_mem_successors hn hw hd (hu ▸ hne)
    · exact ih rfl x hx

/-- **A trip that arrives enters no router with processes twice.** -/
theorem router?_ne_of_trip (hn : c.net.Linked) (ht : (c.wiring .fine).graph.Stable f t)
    (h : (c.wiring .fine).graph.Trip t (v :: vs) p) (hv : IsEntry v) (hi : v.router? = some i)
    (hs : c.net.isSwitch i = false) : ∀ x ∈ vs, x.router? ≠ some i := by
  intro x hx hxi
  obtain ⟨l, w, hleg, -⟩ := h.exists_leg
  obtain ⟨a, b, hab⟩ := List.append_of_mem hx
  obtain ⟨q, htrip⟩ := Trip.of_append (a := v :: a) (hab ▸ h)
  obtain ⟨l', y, hleg', -⟩ := htrip.exists_leg
  obtain ⟨m, hm⟩ := exists_leg_rib hn ht hv hi hs hleg
  obtain ⟨m', hm'⟩ := exists_leg_rib hn ht (isEntry_of_trip hn ht h x hx) hxi hs hleg'
  exact h.leg_ne hx hleg hleg' (hm.unique hm').2

theorem count_router_of_trip (hn : c.net.Linked) (ht : (c.wiring .fine).graph.Stable f t)
    (hs : c.net.isSwitch i = false) : ∀ {v vs p}, (c.wiring .fine).graph.Trip t (v :: vs) p →
      (IsEntry v ∨ v.router? = none) → ((v :: vs).filterMap (·.router?)).count i ≤ 1 := by
  intro v vs
  induction vs generalizing v with
  | nil =>
    intro p _ _
    have hlen := List.length_filterMap_le (fun x : Vertex => x.router?) [v]
    have hcount := List.count_le_length (a := i) (l := [v].filterMap (·.router?))
    simp only [List.length_singleton] at hlen
    omega
  | cons x vs ih =>
    intro p h hv
    obtain ⟨l, w, -, ⟨-, hnil, -⟩ | ⟨us, q, -, -, -, htrip⟩⟩ := h.exists_leg
    · cases hnil
    have hx := isEntry_of_trip hn ht h x List.mem_cons_self
    have hrest := ih htrip (Or.inl hx)
    by_cases hi : v.router? = some i
    · have hentry : IsEntry v := hv.resolve_right fun hnone => by
        rw [hnone] at hi
        cases hi
      -- the first router comes nowhere else
      have hnot : i ∉ (x :: vs).filterMap (·.router?) := by
        intro hm
        obtain ⟨y, hy, hyi⟩ := List.mem_filterMap.mp hm
        exact router?_ne_of_trip hn ht h hentry hi hs y hy hyi
      rw [List.filterMap_cons_some hi, List.count_cons_self, List.count_eq_zero_of_not_mem hnot]
    · cases hj : v.router? with
      | none =>
        rw [List.filterMap_cons_none hj]
        exact hrest
      | some j =>
        have hne : j ≠ i := fun he => hi (by rw [hj, he])
        rw [List.filterMap_cons_some hj, List.count_cons_of_ne hne]
        exact hrest

/-- **The walk of a packet through the fine graph comes to no router with processes twice**,
whatever links have failed. -/
theorem count_routerPath_le_one {cfg : NetworkConfig} {g : Wiring} {s : Simulation}
    (hlink : cfg.link = .ok c.net) (hg : c.build .fine = .ok g) (hs : g.graph.simulate f = .ok s)
    (hp : (g.graph.reprocess s).path? = some p) :
    ∀ i, c.net.isSwitch i = false → (Network.routerPath p).count i ≤ 1 := by
  intro i hi
  have hn := NetworkConfig.linked_of_link hlink
  obtain rfl := eq_wiring_of_build hg
  have ht := PathGraph.simulate_stable hs
  cases hwalk : (c.wiring .fine).graph.reprocess s with
  | stuck => rw [hwalk] at hp; cases hp
  | loop v => rw [hwalk] at hp; cases hp
  | arrived q =>
    rw [hwalk] at hp
    cases hp
    obtain ⟨vs, p', htrip, rfl⟩ := PathGraph.trip_of_walkFrom _ hwalk
    rw [routerPath_of_trip hn ht htrip]
    exact count_router_of_trip hn ht hi htrip (Or.inr rfl)

/-- The packet crosses the second router in the layer of a next hop, and comes there only once. -/
theorem count_routerPath_le_one_ibgpMesh :
    Example.ibgpMeshConfig.link = .ok ibgpMeshScene.net ∧
    ∃ g s p, ibgpMeshScene.build .fine = .ok g ∧ g.graph.simulate ∅ = .ok s ∧
      (g.graph.reprocess s).path? = some p ∧ Network.routerPath p = [3, 2, 1, 0] ∧
      ibgpMeshScene.net.isSwitch 2 = false ∧ (Network.routerPath p).count 2 ≤ 1 := by
  have hlink : Example.ibgpMeshConfig.link = .ok ibgpMeshScene.net := rfl
  have hbuild := build_ibgpMeshScene .fine
  have hswitch : ibgpMeshScene.net.isSwitch 2 = false := by decide +kernel
  have hwalk : (((ibgpMeshScene.wiring .fine).graph.simulate ∅).toOption.bind fun s =>
      ((ibgpMeshScene.wiring .fine).graph.reprocess s).path?).map Network.routerPath =
      some [3, 2, 1, 0] := by decide +kernel
  obtain ⟨p, hp, hrouters⟩ := Option.map_eq_some_iff.mp hwalk
  cases hs : (ibgpMeshScene.wiring .fine).graph.simulate ∅ with
  | error e => rw [hs] at hp; cases hp
  | ok s =>
    rw [hs] at hp
    simp only [Except.toOption, Option.bind_some] at hp
    exact ⟨hlink, _, s, p, hbuild, hs, hp, hrouters, hswitch,
      count_routerPath_le_one hlink hbuild hs hp 2 hswitch⟩

end Scene

end NetReach
