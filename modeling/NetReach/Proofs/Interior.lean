import Mathlib.Algebra.Order.BigOperators.Group.List
import Mathlib.Algebra.Order.Group.Nat
import NetReach.Proofs.Existence
import NetReach.Proofs.Genuine
import NetReach.Proofs.LeastPath

/-! # Interior routing finds the least paths

In a graph of interior routing (`PathGraph.Interior`) no sum along a path exceeds a word
(`total_le`), so the order of preference is the order of paths (`IsRoute.compare_eq`). A vertex
whose least path goes on with what its second vertex holds takes this path (`exists_choice`), and
keeps it as long as that vertex does. So every round settles the vertices whose least paths have one
more vertex (`Settled.round`), and the round after the last of these changes nothing. -/

namespace NetReach.PathGraph

variable {g : PathGraph} {f : FailureSet} {t : RoutingTable} {u v : Vertex} {r s : Route}
  {p : List Vertex} {D : Vertex → Prop} {n : Nat}

/-- The vertices rank their routes by cost and length; no policy drops a route or sets a local
preference; and the costs and the lengths of all policies are words in total. -/
structure Interior (g : PathGraph) : Prop where
  rankDomain : ∀ v ∈ g.vertices, v.kind.rankDomain ≠ .bgp
  unblocked : g.Unblocked
  localPref : ∀ x ∈ g.edges.entries, ∀ p ∈ x.2.policies, p.localPref = none
  cost_le : (g.edges.values.map Edge.cost).sum ≤ UInt32.size - 1
  len_le : (g.edges.values.map Edge.len).sum ≤ UInt32.size - 1

/-! ### Totals of paths -/

/-- The weights of the edges out of the vertices in a list. -/
def weightOut (weight : Edge → Nat) (l : List (Arc × Edge)) (p : List Vertex) : Nat :=
  (l.map fun x => if x.1.tail ∈ p then weight x.2 else 0).sum

theorem weightOut_cons {weight : Edge → Nat} (l : List (Arc × Edge)) (hu : u ∉ p) :
    weightOut weight l (u :: p) = weightOut weight l [u] + weightOut weight l p := by
  unfold weightOut
  induction l with
  | nil => rfl
  | cons x l ih =>
    simp only [List.map_cons, List.sum_cons, List.mem_cons, List.not_mem_nil, or_false] at ih ⊢
    rw [ih]
    by_cases hx : x.1.tail = u
    · simp only [hx, hu, or_false, if_true, if_false]
      omega
    · simp only [hx, false_or, if_false]
      omega

theorem elim_edge?_le {weight : Edge → Nat} :
    (g.edge? u v).elim 0 weight ≤ weightOut weight g.edges.entries [u] := by
  cases he : g.edge? u v with
  | none => exact Nat.zero_le _
  | some e =>
    refine List.single_le_sum (fun _ _ => Nat.zero_le _) _ ?_
    refine List.mem_map.mpr ⟨(⟨u, v⟩, e), mem_entries_iff_edge?.mpr he, ?_⟩
    exact if_pos List.mem_cons_self

/-- A path that comes by no vertex twice goes over no edge twice. -/
theorem total_le_weightOut {weight : Edge → Nat} (hp : p.Nodup) :
    g.total weight p ≤ weightOut weight g.edges.entries p := by
  induction p with
  | nil => exact Nat.zero_le _
  | cons u p ih =>
    cases p with
    | nil => exact Nat.zero_le _
    | cons v p =>
      obtain ⟨hu, hp⟩ := List.nodup_cons.mp hp
      rw [weightOut_cons _ hu]
      exact Nat.add_le_add elim_edge?_le (ih hp)

/-- **No path totals more than all edges do.** -/
theorem total_le {weight : Edge → Nat} (hp : p.Nodup) :
    g.total weight p ≤ (g.edges.values.map weight).sum := by
  refine (total_le_weightOut hp).trans ?_
  unfold weightOut OrdMap.values
  rw [List.map_map]
  refine List.sum_le_sum fun x _ => ?_
  split
  · exact Nat.le_refl _
  · exact Nat.zero_le _

/-! ### The order of preference is the order of paths -/

/-- **On an interior graph the signature of a route tells the totals of its path.** -/
theorem IsRoute.signature_eq (hg : g.Interior) (h : g.IsRoute f u r) :
    r.signature.localPref = Signature.origin.localPref ∧
      r.signature.cost.toNat = g.total Edge.cost r.path ∧
      r.signature.len.toNat = g.total Edge.len r.path := by
  induction h with
  | origin => exact ⟨rfl, rfl, rfl⟩
  | @extend u v e s σ hs he hc hu hσ ih =>
    obtain ⟨hpref, hcost, hlen⟩ := ih
    have hadds := addsUp_of_applyAll hσ
    have hnodup : (u :: s.path).Nodup := (IsRoute.extend hs he hc hu hσ).isPath.nodup
    have htotal : ∀ weight : Edge → Nat,
        g.total weight (u :: s.path) = weight e + g.total weight s.path := by
      intro weight
      obtain ⟨q, hq⟩ := hs.head
      rw [hq, total, he]
      rfl
    -- the sum of the whole path is a word, so nothing is cut off
    have hcostLe : g.total Edge.cost (u :: s.path) ≤ UInt32.size - 1 :=
      (total_le hnodup).trans hg.cost_le
    have hlenLe : g.total Edge.len (u :: s.path) ≤ UInt32.size - 1 :=
      (total_le hnodup).trans hg.len_le
    rw [htotal] at hcostLe hlenLe
    refine ⟨?_, ?_, ?_⟩
    · have hedge : e.policies.filterMap (·.localPref) = [] :=
        List.filterMap_eq_nil_iff.mpr (hg.localPref _ (mem_entries_iff_edge?.mpr he))
      rw [hadds.localPref, hedge, List.getLast?_nil, Option.getD_none, hpref]
    · rw [hadds.cost, hcost, htotal]
      change min (_ + e.cost) _ = _
      omega
    · rw [hadds.len, hlen, htotal]
      change min (_ + e.len) _ = _
      omega

/-- **Preferred routes have the paths that come first.** -/
theorem IsRoute.compare_eq (hg : g.Interior) (hr : g.IsRoute f u r) (hs : g.IsRoute f u s) :
    Route.compare u.kind.rankDomain r s = g.comparePaths s.path r.path := by
  obtain ⟨hpr, hcr, hlr⟩ := hr.signature_eq hg
  obtain ⟨hps, hcs, hls⟩ := hs.signature_eq hg
  have hrank := hg.rankDomain u (Reaches.mem_vertices hr.isPath.reaches)
  have hpref : compare r.signature.localPref s.signature.localPref = .eq := by
    rw [hpr, hps, Std.compare_self]
  rw [comparePaths_eq, Route.compare]
  cases hd : u.kind.rankDomain with
  | bgp => exact absurd hd hrank
  | igp =>
    simp only [Signature.compare, UInt32.compare_eq_toNat_compare_toNat, hcr, hlr, hcs, hls,
      Ordering.then_assoc]
  | neutral =>
    simp only [Signature.compare, UInt32.compare_eq_toNat_compare_toNat s.signature.cost,
      UInt32.compare_eq_toNat_compare_toNat s.signature.len, hpref, hcr, hlr, hcs, hls,
      Ordering.then_eq, Ordering.then_assoc]

/-- **A vertex takes its least path if the second vertex holds the rest of it.** -/
theorem exists_choice (hg : g.Interior) (ht : g.Genuine f t) (hp : g.IsLeast f u (u :: v :: p))
    (hs : t.get? v = some s) (hsp : s.path = v :: p) :
    ∃ r, t.choice u (g.usable f u) = some r ∧ r.path = u :: v :: p := by
  have huv := (List.isChain_cons_cons.mp hp.isPath.chain).1
  obtain ⟨⟨e, he⟩, hc⟩ := mem_successors.mp huv
  obtain ⟨σ, hσ⟩ := hg.unblocked.exists_applyAll he s.signature
  have hu : u ∉ s.path := by
    rw [hsp]
    exact (List.nodup_cons.mp hp.isPath.nodup).1
  have hcand : g.IsCandidate f t u ⟨u :: s.path, σ⟩ := ⟨v, e, s, σ, he, hc, hs, hu, hσ, rfl⟩
  have hmem := mem_candidates.mpr hcand
  cases hchoice : t.choice u (g.usable f u) with
  | none =>
    rw [RoutingTable.choice, Route.best?_eq_none] at hchoice
    rw [hchoice] at hmem
    cases hmem
  | some r =>
    have hr := ht.isRoute_of_choice hchoice
    have hbest := (Route.best?_eq_some hchoice).2 _ hmem
    rw [(ht.isRoute hcand).compare_eq hg hr, hsp] at hbest
    refine ⟨r, rfl, ?_⟩
    by_contra hne
    have hlt := hp.lt r.path hr.isPath hne
    exact hbest (Std.OrientedCmp.gt_iff_lt.mpr hlt)

/-! ### Settled vertices -/

/-- The routes are genuine, and the vertices in `D` hold their least paths. -/
structure Settled (g : PathGraph) (f : FailureSet) (D : Vertex → Prop) (t : RoutingTable) :
    Prop where
  genuine : g.Genuine f t
  holds : ∀ u p, D u → g.IsLeast f u p → ∃ r, t.get? u = some r ∧ r.path = p

/-- The least paths from vertices in `D` go on with vertices in `D`. -/
def Inward (g : PathGraph) (f : FailureSet) (D : Vertex → Prop) : Prop :=
  ∀ u v p, D u → g.IsLeast f u (u :: v :: p) → D v

namespace Settled

theorem choice_of_tail (hg : g.Interior) (h : g.Settled f D t)
    (hp : g.IsLeast f u (u :: v :: p)) (hv : D v) :
    ∃ r, t.choice u (g.usable f u) = some r ∧ r.path = u :: v :: p := by
  obtain ⟨s, hs, hsp⟩ := h.holds v _ hv hp.tail
  exact exists_choice hg h.genuine hp hs hsp

/-- A settled vertex is at its own choice. -/
theorem get?_eq_choice (hg : g.Interior) (h : g.Settled f D t) (hD : g.Inward f D) (hu : D u)
    (hd : u ≠ g.destination) (hp : g.IsLeast f u p) :
    t.get? u = t.choice u (g.usable f u) := by
  obtain ⟨v, q, rfl⟩ := hp.isPath.exists_eq_cons_cons hd
  obtain ⟨r, hr, hrp⟩ := h.choice_of_tail hg hp (hD u v q hu hp)
  obtain ⟨s, hs, hsp⟩ := h.holds u _ hu hp
  have heq : s = r := (h.genuine u s hs).eq_of_path_eq (h.genuine.isRoute_of_choice hr)
    (hsp.trans hrp.symm)
  rw [hs, hr, heq]

/-- **A turn leaves the settled vertices their routes**: if it changes a route, then of a vertex
that is not settled, and the settled ones do not go on there. -/
theorem turn (hg : g.Interior) (h : g.Settled f D t) (hD : g.Inward f D)
    (hd : u ≠ g.destination) : g.Settled f D (t.update u (g.usable f u)).1 := by
  by_cases hc : t.get? u = t.choice u (g.usable f u)
  · rw [RoutingTable.update_of_eq hc]
    exact h
  have hsettled : ∀ p, g.IsLeast f u p → ¬ D u := by
    intro p hp hu
    exact hc (h.get?_eq_choice hg hD hu hd hp)
  refine ⟨h.genuine.update u, fun x p hx hp => ?_⟩
  obtain ⟨r, hr, hrp⟩ := h.holds x p hx hp
  have hxu : x ≠ u := by
    rintro rfl
    exact hsettled p hp hx
  have hon : r.continuesAt u = false := by
    refine eq_false_of_ne_true fun hru => ?_
    obtain ⟨y, q, rfl⟩ := hrp ▸ Route.continuesAt_iff.mp hru
    cases hp.isPath.head
    exact hsettled _ hp.tail (hD x u q hx hp)
  refine ⟨r, (RoutingTable.get?_update_eq_some hc).mpr ⟨hon, ?_⟩, hrp⟩
  rw [if_neg hxu, hr]

/-- **A vertex settles in its turn, once the rest of its least path is settled.** -/
theorem turn_self (hg : g.Interior) (h : g.Settled f D t) (hD : g.Inward f D)
    (hd : u ≠ g.destination) (hnext : ∀ v q, g.IsLeast f u (u :: v :: q) → D v) :
    g.Settled f (fun x => D x ∨ x = u) (t.update u (g.usable f u)).1 := by
  have hturn := h.turn hg hD hd
  refine ⟨hturn.genuine, fun x p hx hp => ?_⟩
  rcases hx with hx | rfl
  · exact hturn.holds x p hx hp
  · obtain ⟨v, q, rfl⟩ := hp.isPath.exists_eq_cons_cons hd
    obtain ⟨r, hr, hrp⟩ := h.choice_of_tail hg hp (hnext v q hp)
    refine ⟨r, ?_, hrp⟩
    by_cases hc : t.get? x = t.choice x (g.usable f x)
    · rw [RoutingTable.update_of_eq hc, hc, hr]
    · have hv : v ≠ x := by
        rintro rfl
        exact (List.nodup_cons.mp hp.isPath.nodup).1 List.mem_cons_self
      have hon : r.continuesAt x = false := by
        simp [Route.continuesAt, hrp, hv]
      refine (RoutingTable.get?_update_eq_some hc).mpr ⟨hon, ?_⟩
      rw [if_pos rfl, hr]

theorem foldl_turn (hg : g.Interior) {l : List (Vertex × List (Vertex × Edge))}
    (hl : ∀ x ∈ l, x ∈ g.stations f) (hD : g.Inward f D) (x : RoutingTable × Bool)
    (h : g.Settled f D x.1) : g.Settled f D (l.foldl PathGraph.turn x).1 := by
  refine foldl_turn_invariant (fun t u hu ht => ?_) x h
  obtain ⟨-, hd, hout⟩ := mem_stations.mp (hl u hu)
  rw [hout]
  exact ht.turn hg hD hd

/-- What settles in its turn stays settled for the rest of the round. -/
theorem round_of_tail (hg : g.Interior) (h : g.Settled f D t) (hD : g.Inward f D)
    (hu : u ∈ g.vertices) (hd : u ≠ g.destination)
    (hnext : ∀ v q, g.IsLeast f u (u :: v :: q) → D v) :
    g.Settled f (fun x => D x ∨ x = u) (round (g.stations f) t).1 := by
  obtain ⟨l, m, hlm⟩ := List.append_of_mem (mem_stations (u := (u, g.usable f u)).mpr ⟨hu, hd, rfl⟩)
  have hmem : ∀ x, x ∈ l ∨ x ∈ m → x ∈ g.stations f := by
    intro x hx
    rw [hlm, List.mem_append, List.mem_cons]
    exact hx.imp_right Or.inr
  have hD' : g.Inward f fun x => D x ∨ x = u := by
    rintro x v q (hx | rfl) hp
    · exact Or.inl (hD x v q hx hp)
    · exact Or.inl (hnext v q hp)
  have hbefore := foldl_turn hg (fun x hx => hmem x (Or.inl hx)) hD (t, false) h
  have hself := hbefore.turn_self hg hD hd hnext
  have hafter := foldl_turn hg (fun x hx => hmem x (Or.inr hx)) hD'
    (PathGraph.turn (l.foldl PathGraph.turn (t, false)) (u, g.usable f u)) hself
  rw [← List.foldl_cons, ← List.foldl_append, ← hlm] at hafter
  exact hafter

end Settled

/-! ### Settling round by round -/

/-- The least path of the vertex has at most `n` vertices. -/
def Near (g : PathGraph) (f : FailureSet) (n : Nat) (u : Vertex) : Prop :=
  ∃ p, g.IsLeast f u p ∧ p.length ≤ n

theorem Near.tail (h : g.Near f (n + 1) u) (hp : g.IsLeast f u (u :: v :: p)) : g.Near f n v := by
  obtain ⟨q, hq, hlen⟩ := h
  obtain rfl := hq.unique hp
  exact ⟨v :: p, hp.tail, Nat.le_of_succ_le_succ hlen⟩

theorem Near.mono {m : Nat} (h : g.Near f n u) (hm : n ≤ m) : g.Near f m u := by
  obtain ⟨p, hp, hlen⟩ := h
  exact ⟨p, hp, hlen.trans hm⟩

theorem inward_near : g.Inward f (g.Near f n) := by
  intro u v p hu hp
  exact (hu.mono (Nat.le_succ n)).tail hp

theorem near_destination (hn : 1 ≤ n) : g.Near f n g.destination :=
  ⟨_, isLeast_destination, hn⟩

theorem settled_initialRoutes : g.Settled f (g.Near f 1) g.initialRoutes := by
  refine ⟨genuine_initialRoutes, fun u p hu hp => ?_⟩
  obtain ⟨q, hq, hlen⟩ := hu
  obtain rfl := hp.unique hq
  by_cases hd : u = g.destination
  · subst hd
    obtain rfl := hp.unique isLeast_destination
    exact ⟨⟨[g.destination], .origin⟩, by simp [initialRoutes], rfl⟩
  · obtain ⟨v, q, rfl⟩ := hp.isPath.exists_eq_cons_cons hd
    simp at hlen

namespace Settled

/-- **A round settles the vertices whose least paths have one more vertex.** -/
theorem round (hg : g.Interior) (h : g.Settled f (g.Near f n) t) (hn : 1 ≤ n) :
    g.Settled f (g.Near f (n + 1)) (round (g.stations f) t).1 := by
  have hround : g.Settled f (g.Near f n) (PathGraph.round (g.stations f) t).1 :=
    foldl_turn hg (fun _ hx => hx) inward_near (t, false) h
  refine ⟨hround.genuine, fun u p hu hp => ?_⟩
  by_cases hd : u = g.destination
  · exact hround.holds u p (hd ▸ near_destination hn) hp
  · have hmem := Reaches.mem_vertices hp.isPath.reaches
    have hself := h.round_of_tail hg inward_near hmem hd fun v q hq => hu.tail hq
    exact hself.holds u p (Or.inr rfl) hp

/-- Once a round changes nothing, every vertex is settled. -/
theorem of_round_eq (hg : g.Interior) (h : g.Settled f (g.Near f n) t) (hn : 1 ≤ n)
    (hround : (PathGraph.round (g.stations f) t).1 = t) (m : Nat) :
    g.Settled f (g.Near f (n + m)) t := by
  induction m with
  | zero => exact h
  | succ m ih =>
    have hnext := ih.round hg (by omega)
    rw [hround] at hnext
    exact hnext

theorem get?_eq_choice_of_mem (hg : g.Interior) (h : g.Settled f (g.Near f g.numVertices) t)
    {x : Vertex × List (Vertex × Edge)} (hx : x ∈ g.stations f) :
    t.get? x.1 = t.choice x.1 x.2 := by
  obtain ⟨hu, hd, hout⟩ := mem_stations.mp hx
  rw [hout]
  by_cases hreach : g.Reaches f x.1 g.destination
  · obtain ⟨p, hp⟩ := exists_isLeast hreach
    exact h.get?_eq_choice hg inward_near ⟨p, hp, hp.isPath.length_le hu⟩ hd hp
  · -- a route would lead to the destination
    have hnone : ∀ o : Option Route, (∀ r, o = some r → g.IsRoute f x.1 r) → o = none := by
      intro o ho
      cases o with
      | none => rfl
      | some r => exact absurd (ho r rfl).isPath.reaches hreach
    rw [hnone _ (h.genuine x.1), hnone _ fun r hr => h.genuine.isRoute_of_choice hr]

end Settled

theorem round_eq_self {stations : List (Vertex × List (Vertex × Edge))}
    (h : ∀ u ∈ stations, t.get? u.1 = t.choice u.1 u.2) : round stations t = (t, false) := by
  change stations.foldl turn (t, false) = (t, false)
  induction stations with
  | nil => rfl
  | cons u l ih =>
    have hturn : turn (t, false) u = (t, false) := by
      simp [turn, RoutingTable.update_of_eq (h u List.mem_cons_self)]
    rw [List.foldl_cons, hturn]
    exact ih fun v hv => h v (List.mem_cons_of_mem _ hv)

/-- The simulation ends after at most as many rounds as there are vertices, and every vertex that
reaches the destination is routed on its least path. -/
def EndsOnLeastPaths (g : PathGraph) (f : FailureSet) : Prop :=
  ∃ s, g.simulate f = .ok s ∧ s.rounds ≤ g.numVertices ∧
    ∀ u, g.Reaches f u g.destination → ∃ r, s.routes.get? u = some r ∧ g.IsLeast f u r.path

/-- The vertices with a least path of at most `done + 1` vertices are settled after `done` rounds,
so the last round has a number of at most the number of vertices. -/
theorem rounds_of_settled (hg : g.Interior) (left : Nat) : ∀ {done : Nat} {t : RoutingTable},
    done < g.numVertices → g.numVertices ≤ done + left → g.Settled f (g.Near f (done + 1)) t →
    ∃ s, rounds (g.stations f) left done t = .ok s ∧ s.rounds ≤ g.numVertices ∧
      g.Settled f (g.Near f g.numVertices) s.routes := by
  induction left with
  | zero => intro done t hlt hle _; omega
  | succ left ih =>
    intro done t hlt hle ht
    cases hr : round (g.stations f) t with
    | mk t' changed =>
      cases changed with
      | false =>
        have heq : t' = t := by
          have hround : (round (g.stations f) t).1 = t := (round_unchanged (by rw [hr])).1
          rwa [hr] at hround
        subst heq
        refine ⟨⟨t', done + 1⟩, by simp [rounds, hr], hlt, ?_⟩
        have hall := ht.of_round_eq hg (Nat.succ_pos done) (by rw [hr]) (g.numVertices - (done + 1))
        rwa [Nat.add_sub_of_le hlt] at hall
      | true =>
        have hnext := ht.round hg (Nat.succ_pos done)
        rw [hr] at hnext
        have hmore : done + 1 < g.numVertices := by
          by_contra hlast
          have hnum : done + 1 = g.numVertices := by omega
          rw [hnum] at ht
          rw [round_eq_self fun x hx => ht.get?_eq_choice_of_mem hg hx] at hr
          cases hr
        obtain ⟨s, hs, hrounds, hsettled⟩ := ih hmore (by omega) hnext
        exact ⟨s, by simp [rounds, hr, hs], hrounds, hsettled⟩

/-- **Interior routing ends on the least paths.** -/
theorem Interior.endsOnLeastPaths (hg : g.Interior) : g.EndsOnLeastPaths f := by
  have hpos : 0 < g.numVertices := List.length_pos_of_mem g.destination_mem
  have hlimit : g.numVertices ≤ 0 + g.roundLimit := by
    unfold roundLimit
    omega
  obtain ⟨s, hs, hrounds, hsettled⟩ := rounds_of_settled hg g.roundLimit hpos hlimit
    (settled_initialRoutes (f := f))
  refine ⟨s, by rw [simulate_eq_rounds, hs], hrounds, fun u hu => ?_⟩
  obtain ⟨p, hp⟩ := exists_isLeast hu
  have hlen := hp.isPath.length_le (Reaches.mem_vertices hu)
  obtain ⟨r, hr, rfl⟩ := hsettled.holds u p ⟨p, hp, hlen⟩ hp
  exact ⟨r, hr, hp⟩

end NetReach.PathGraph
