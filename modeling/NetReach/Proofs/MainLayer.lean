import NetReach.Proofs.Forwarding
import NetReach.Proofs.LeastPath
import NetReach.Proofs.Trip

/-! # Graphs without the layers of next hops

In a graph that lies in the main layer (`PathGraph.InMain`) the walk of a packet does not jump: the
vertex at which it enters a router holds the rest of the route that led there, so the walk follows
the route of the source to its end (`PathGraph.walkFrom_eq_arrived`). Coarse graphs lie in the main
layer, and so do the fine graphs of networks whose sessions are all with adjacent peers
(`Scene.inMain_coarse`, `Scene.inMain_fine`). -/

namespace NetReach

namespace PathGraph

variable {g : PathGraph} {f : FailureSet} {t : RoutingTable} {u v w : Vertex} {r : Route}
  {l p left passed : List Vertex}

/-- All vertices belong to the main layer. -/
def InMain (g : PathGraph) : Prop := ∀ v ∈ g.vertices, v.layer = .main

instance (g : PathGraph) : Decidable g.InMain :=
  inferInstanceAs (Decidable (∀ v ∈ g.vertices.toList, v.layer = .main))

theorem InMain.toMain_eq (hg : g.InMain) (hv : v ∈ g.vertices) : v.toMain = v := by
  obtain ⟨layer, kind⟩ := v
  cases hg _ hv
  rfl

/-- The walk of a packet gives the path of the selected route, if there is one, or the same error,
and nothing to report. -/
def WalksAsSelected (g : PathGraph) (f : FailureSet) : Prop :=
  (g.bestWalk f).map Walk.path? = (g.bestPath f).map (Option.map Route.path) ∧
    ∀ k, g.bestWalk f = .ok k → k.warnings = []

/-! ### Legs of a walk -/

/-- The walk ends with a leg that arrives. -/
theorem walkFrom_of_leg_destination {n : Nat} (hv : v ∉ left) (h : g.Leg t v l g.destination) :
    g.walkFrom t (n + 1) left v passed = .arrived (passed ++ l ++ [g.destination]) := by
  obtain ⟨r, rest, hr, rfl, hw⟩ := h
  unfold isOwn at hw
  simp only [walkFrom, if_neg hv, hr, hw, if_true]
  rfl

/-- The walk goes on behind a leg that does not. -/
theorem walkFrom_of_leg {n : Nat} (hv : v ∉ left) (h : g.Leg t v l w) (hd : w ≠ g.destination)
    (hw : w.toMain ∈ g.vertices) :
    g.walkFrom t (n + 1) left v passed = g.walkFrom t n (v :: left) w.toMain (passed ++ l) := by
  obtain ⟨r, rest, hr, rfl, hdrop⟩ := h
  have hc : g.contains w.toMain = true := decide_eq_true hw
  unfold isOwn at hdrop
  simp only [walkFrom, if_neg hv, hr, hdrop, if_neg hd, hc, if_true]
  rfl

/-- Every vertex of a route holds the rest of it. -/
theorem Stable.exists_route_of_append (ht : g.Stable f t) (hr : t.get? u = some r)
    (hp : r.path = l ++ v :: p) : ∃ q, t.get? v = some q ∧ q.path = v :: p := by
  induction l generalizing u r with
  | nil =>
    obtain ⟨q, hq⟩ := ht.head hr
    rw [List.nil_append, hq] at hp
    cases hp
    exact ⟨r, hr, hq⟩
  | cons a l ih =>
    obtain ⟨q, hq⟩ := ht.head hr
    obtain ⟨rfl, -⟩ : a = u ∧ _ := List.cons.inj (hp.symm.trans hq)
    obtain ⟨b, m, hbm⟩ := List.exists_cons_of_ne_nil (l := l ++ v :: p) (by simp)
    obtain ⟨s, hs, hsp⟩ := ht.tail hr (hp.trans (congrArg (a :: ·) hbm))
    exact ih hs (hsp.trans hbm.symm)

/-- Packets leave every vertex that holds a route on a leg. -/
theorem Stable.exists_leg (ht : g.Stable f t) (hr : t.get? v = some r) :
    ∃ l w rest, g.Leg t v l w ∧ r.path = l ++ w :: rest := by
  have hpath := ht.isPath hr
  cases hw : r.path.dropWhile (g.isOwn v) with
  | nil =>
    -- the last vertex of the route is the destination, which no leg passes
    have hlast := List.mem_of_getLast? hpath.last
    have hown := List.dropWhile_eq_nil_iff.mp hw _ hlast
    exact absurd rfl (of_decide_eq_true hown).1
  | cons w rest =>
    refine ⟨_, w, rest, ⟨r, rest, hr, rfl, hw⟩, ?_⟩
    rw [← hw, List.takeWhile_append_dropWhile]

/-- **In the main layer a walk follows the route of the vertex to its end.** -/
theorem walkFrom_eq_arrived (hg : g.InMain) (ht : g.Stable f t) (n : Nat) : ∀ {left v passed r},
    v ∈ g.vertices → t.get? v = some r → (∀ x ∈ left, x ∉ r.path) → r.path.length ≤ n →
      g.walkFrom t n left v passed = .arrived (passed ++ r.path) := by
  induction n with
  | zero =>
    intro left v passed r _ hr _ hn
    exact absurd (List.length_eq_zero_iff.mp (Nat.le_zero.mp hn)) (ht.isPath hr).ne_nil
  | succ n ih =>
    intro left v passed r hv hr hleft hn
    have hpath := ht.isPath hr
    have hfirst : v ∈ r.path := List.mem_of_mem_head? hpath.head
    have hnew : v ∉ left := fun h => hleft v h hfirst
    obtain ⟨l, w, rest, hleg, hsplit⟩ := ht.exists_leg hr
    have hdrop := hsplit ▸ hpath
    by_cases hd : w = g.destination
    · -- the destination ends the route, as it comes in it only once
      subst hd
      have hrest : rest = [] := by
        have hend := hdrop.drop
        by_contra hne
        have hlast := hend.last
        rw [List.getLast?_cons_of_ne_nil hne] at hlast
        exact (List.nodup_cons.mp hend.nodup).1 (List.mem_of_getLast? hlast)
      rw [walkFrom_of_leg_destination hnew hleg, hsplit, hrest, List.append_assoc]
    · have hw : w ∈ g.vertices := hpath.subset_vertices hv w (by simp [hsplit])
      have hmain := hg.toMain_eq hw
      obtain ⟨q, hq, hqp⟩ := ht.exists_route_of_append hr hsplit
      -- the leg passes `v`, and what is left of the route does not come back to it
      have hvd : v ≠ g.destination := by
        rintro rfl
        rw [ht.destination] at hr
        cases hr
        have hsplit : [g.destination] = l ++ w :: rest := hsplit
        have hmem : w ∈ [g.destination] := by simp [hsplit]
        exact hd (List.mem_singleton.mp hmem)
      have hvl : v ∈ l := (Scene.leg_ends ht hleg).1 hvd
      have hlen : r.path.length = l.length + q.path.length := by
        rw [hsplit, hqp, List.length_append]
      have hpos := List.length_pos_of_mem hvl
      have hleft' : ∀ x ∈ v :: left, x ∉ q.path := by
        intro x hx hxq
        rw [hqp] at hxq
        rcases List.mem_cons.mp hx with rfl | hx
        · exact (List.nodup_append.mp hdrop.nodup).2.2 _ hvl _ hxq rfl
        · exact hleft x hx (hsplit ▸ List.mem_append_right _ hxq)
      have hnext : g.walkFrom t n (v :: left) w (passed ++ l) =
          .arrived (passed ++ l ++ q.path) := ih hw hq hleft' (by omega)
      rw [walkFrom_of_leg hnew hleg hd (hmain.symm ▸ hw), hmain, hnext, hqp, hsplit,
        List.append_assoc]

/-- **In a graph of the main layer packets walk along the selected route.** -/
theorem walksAsSelected_of_inMain (hg : g.InMain) (f : FailureSet) : g.WalksAsSelected f := by
  unfold WalksAsSelected bestWalk bestPath
  cases hs : g.simulate f with
  | error e => exact ⟨rfl, nofun⟩
  | ok s =>
    have ht := simulate_stable hs
    have hsrc : g.source ∈ g.vertices := g.source_mem
    cases hr : s.routes.get? g.source with
    | none =>
      have hwalk : g.reprocess s = .stuck := by simp [reprocess, walkFrom, hr]
      simp only [Except.map, hwalk, bestRoute, hr]
      exact ⟨rfl, fun k hk => by cases hk; rfl⟩
    | some r =>
      have hlen : r.path.length ≤ g.numVertices + 1 :=
        Nat.le_succ_of_le ((ht.isPath hr).length_le hsrc)
      have hwalk : g.reprocess s = .arrived r.path :=
        walkFrom_eq_arrived hg ht _ hsrc hr (fun x hx => absurd hx List.not_mem_nil) hlen
      simp only [Except.map, hwalk, bestRoute, hr]
      exact ⟨rfl, fun k hk => by cases hk; rfl⟩

end PathGraph

/-! ### The graphs of networks -/

/-- Every session is with a peer whose address lies in the block of a VLAN of the router. -/
def Network.DirectlyConnected (net : Network) : Prop :=
  ∀ r ∈ net.routers, ∀ s ∈ r.sessions, s.isDirect = true

instance (net : Network) : Decidable net.DirectlyConnected :=
  inferInstanceAs (Decidable (∀ r ∈ net.routers, ∀ s ∈ r.sessions, s.isDirect = true))

namespace Scene

variable {c : Scene} {v : Vertex} {layer : VlanId}

/-- Sessions with adjacent peers need no layer. -/
theorem not_mem_layers (h : c.net.DirectlyConnected) : layer ∉ c.layers := by
  simp only [layers, OrdSet.mem_ofList, List.mem_flatMap, List.mem_ite_nil_right, List.mem_map,
    List.mem_filter, learningSessions, needsLayer]
  rintro ⟨r, hr, -, s, ⟨⟨hs, -⟩, hneeds⟩, -⟩
  rw [h r hr s hs] at hneeds
  cases hneeds

theorem layer_of_mem_vlanVertices {place : VertexKind → Vertex} {l : Layer} {r : Router}
    (hplace : ∀ k, (place k).layer = l) (hv : v ∈ vlanVertices place r) : v.layer = l := by
  obtain ⟨x, -, hv⟩ := List.mem_flatMap.mp hv
  simp only [List.mem_cons, List.not_mem_nil, or_false] at hv
  rcases hv with rfl | rfl <;> exact hplace _

theorem layer_of_mem_fineVerticesOf {r : Router} (hv : v ∈ c.fineVerticesOf r) :
    v.layer = .main := by
  simp only [fineVerticesOf, List.mem_append, List.mem_ite_nil_left, List.mem_ite_nil_right,
    List.mem_cons, List.mem_map, List.not_mem_nil, or_false] at hv
  rcases hv with ((hv | ⟨-, rfl⟩) | ⟨-, rfl | rfl⟩) | ⟨-, rfl | ⟨s, -, rfl⟩⟩
  · exact layer_of_mem_vlanVertices (fun _ => rfl) hv
  all_goals rfl

theorem layer_of_mem_coarseVerticesOf {r : Router} (hv : v ∈ coarseVerticesOf r) :
    v.layer = .main := by
  simp only [coarseVerticesOf, List.mem_append, List.mem_map, List.mem_ite_nil_right,
    List.mem_singleton] at hv
  rcases hv with (⟨x, -, rfl⟩ | ⟨-, rfl⟩) | ⟨s, -, rfl⟩
  all_goals rfl

theorem inMain_coarse (c : Scene) : (c.wiring .coarse).graph.InMain := by
  intro v hv
  rcases mem_vertices_wiring.mp hv with (rfl | rfl) | hv
  · rfl
  · rfl
  · obtain ⟨r, -, hv⟩ := List.mem_flatMap.mp hv
    exact layer_of_mem_coarseVerticesOf hv

theorem inMain_fine (h : c.net.DirectlyConnected) : (c.wiring .fine).graph.InMain := by
  intro v hv
  rcases mem_vertices_wiring.mp hv with (rfl | rfl) | hv
  · rfl
  · rfl
  rcases List.mem_append.mp hv with hv | hv
  · obtain ⟨r, -, hv⟩ := List.mem_flatMap.mp hv
    exact layer_of_mem_fineVerticesOf hv
  · obtain ⟨layer, hl, -⟩ := List.mem_flatMap.mp hv
    exact absurd hl (not_mem_layers h)

/-- **Without layers packets walk along the selected route**, whatever links have failed: on every
graph in the main layer, and in particular on every coarse graph and on the fine graph of every
network whose sessions are all with adjacent peers. -/
theorem walksAsSelected (f : FailureSet) :
    (∀ g : PathGraph, g.InMain → g.WalksAsSelected f) ∧
    (∀ (c : Scene) (w : Wiring), c.build .coarse = .ok w → w.graph.WalksAsSelected f) ∧
    ∀ (c : Scene) (w : Wiring), c.net.DirectlyConnected → c.build .fine = .ok w →
      w.graph.WalksAsSelected f := by
  refine ⟨fun g hg => PathGraph.walksAsSelected_of_inMain hg f, fun c w hw => ?_,
    fun c w h hw => ?_⟩
  · obtain rfl := eq_wiring_of_build hw
    exact PathGraph.walksAsSelected_of_inMain c.inMain_coarse f
  · obtain rfl := eq_wiring_of_build hw
    exact PathGraph.walksAsSelected_of_inMain (inMain_fine h) f

/-- From the first of the three autonomous systems in a line to the last. -/
def taggedPolicyScene : Scene := (Example.taggedPolicyConfig false).assemble.scene "t" "s"

/-- The packet crosses the line of autonomous systems as the source has selected. The same holds on
the coarse graph of the line, and on the roundabout. -/
theorem walksAsSelected_taggedPolicy :
    PathGraph.roundabout.InMain ∧ PathGraph.roundabout.WalksAsSelected ∅ ∧
    (∃ w, taggedPolicyScene.build .coarse = .ok w ∧ w.graph.WalksAsSelected ∅) ∧
    taggedPolicyScene.net.DirectlyConnected ∧
    ∃ w r k, taggedPolicyScene.build .fine = .ok w ∧ w.graph.bestPath ∅ = .ok (some r) ∧
      w.graph.bestWalk ∅ = .ok k ∧ k.path? = some r.path ∧ k.warnings = [] ∧
      Network.routerPath r.path = [0, 1, 2] := by
  have hmain : PathGraph.roundabout.InMain := by decide +kernel
  have hdirect : taggedPolicyScene.net.DirectlyConnected := by decide +kernel
  have herror : taggedPolicyScene.error? = none := by decide +kernel
  have hcoarse : taggedPolicyScene.build .coarse = .ok (taggedPolicyScene.wiring .coarse) :=
    build_of_error?_eq_none herror
  have hbuild : taggedPolicyScene.build .fine = .ok (taggedPolicyScene.wiring .fine) :=
    build_of_error?_eq_none herror
  have hrouters : (((taggedPolicyScene.wiring .fine).graph.bestPath ∅).toOption.bind id).map
      (fun r => Network.routerPath r.path) = some [0, 1, 2] := by decide +kernel
  obtain ⟨hgraphs, hcoarses, hfines⟩ := walksAsSelected ∅
  refine ⟨hmain, hgraphs _ hmain, ⟨_, hcoarse, hcoarses _ _ hcoarse⟩, hdirect, ?_⟩
  obtain ⟨hwalk, hwarn⟩ := hfines _ _ hdirect hbuild
  cases hb : (taggedPolicyScene.wiring .fine).graph.bestPath ∅ with
  | error e => rw [hb] at hrouters; cases hrouters
  | ok o =>
    rw [hb] at hrouters hwalk
    obtain ⟨r, rfl, hr⟩ := Option.map_eq_some_iff.mp hrouters
    cases hk : (taggedPolicyScene.wiring .fine).graph.bestWalk ∅ with
    | error e => rw [hk] at hwalk; cases hwalk
    | ok k =>
      rw [hk] at hwalk
      exact ⟨_, r, k, hbuild, hb, hk, Except.ok.inj hwalk, hwarn k hk, hr⟩

end Scene

end NetReach
