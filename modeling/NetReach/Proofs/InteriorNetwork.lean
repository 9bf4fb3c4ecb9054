import NetReach.Proofs.Edges
import NetReach.Proofs.Forwarding
import NetReach.Proofs.Interior
import NetReach.Report

/-! # Networks without BGP

In the graphs of a network whose routers run no BGP process, only the edges from OSPF to a VLAN
have policies, and each of these costs one (`Scene.policies_of_isLaid`). As long as a word can count
these edges, the graphs are interior (`Scene.interior_wiring`). -/

namespace NetReach.Scene

variable {c : Scene} {f : FailureSet} {r : Router} {u v : Vertex} {e : Edge} {variant : Variant}

/-- No router runs a BGP process. -/
def WithoutBgp (c : Scene) : Prop := ∀ r ∈ c.net.routers, r.bgp = none

theorem WithoutBgp.sessions_eq_nil (h : c.WithoutBgp) (hr : r ∈ c.net.routers) :
    r.sessions = [] := by
  rw [Router.sessions, h r hr]
  rfl

theorem WithoutBgp.not_mem_learningSessions (h : c.WithoutBgp) (hr : r ∈ c.net.routers)
    (s : Session) : s ∉ c.learningSessions r := by
  rw [learningSessions, h.sessions_eq_nil hr]
  exact List.not_mem_nil

/-- **Only the edges from OSPF to a VLAN have policies.** -/
theorem policies_of_isLaid (h : c.WithoutBgp) (he : c.IsLaid variant u v e) :
    e.policies = if e.kind = .egress then [.ofCost 1] else [] := by
  cases he with
  | coarse hr he =>
    cases he with
    | dependency hs =>
      rw [h.sessions_eq_nil hr] at hs
      cases hs
    | _ => rfl
  | fine hr he =>
    cases he with
    | bgpRelay hs => exact absurd hs (h.not_mem_learningSessions hr _)
    | _ => rfl
  | layer _ _ he => cases he <;> rfl

theorem rankDomain_of_mem_vlanVertices {place : VertexKind → Vertex}
    (hplace : ∀ k, (place k).kind = k) (h : v ∈ vlanVertices place r) :
    v.kind.rankDomain = .neutral := by
  simp only [vlanVertices, List.mem_flatMap, List.mem_cons, List.not_mem_nil, or_false] at h
  obtain ⟨x, -, rfl | rfl⟩ := h <;> rw [hplace] <;> rfl

/-- No vertex ranks its routes as BGP does. -/
theorem rankDomain_of_mem_inner (h : c.WithoutBgp) (hv : v ∈ c.inner variant) :
    v.kind.rankDomain ≠ .bgp := by
  cases variant with
  | coarse =>
    simp only [inner, coarseVerticesOf, List.mem_flatMap, List.mem_append, List.mem_map,
      List.mem_ite_nil_right, List.mem_singleton] at hv
    obtain ⟨r, hr, (⟨x, -, rfl⟩ | ⟨-, rfl⟩) | ⟨s, hs, -⟩⟩ := hv
    · exact nofun
    · exact nofun
    · rw [h.sessions_eq_nil hr] at hs
      cases hs
  | fine =>
    simp only [inner, fineVerticesOf, layerVerticesOf, List.mem_flatMap, List.mem_append,
      List.mem_ite_nil_left, List.mem_ite_nil_right, List.mem_cons, List.not_mem_nil,
      or_false] at hv
    rcases hv with ⟨r, hr, ((hv | ⟨-, rfl⟩) | ⟨-, rfl | rfl⟩) | ⟨hb, -⟩⟩ |
        ⟨layer, -, r, -, hv | ⟨-, rfl | rfl⟩⟩
    · rw [rankDomain_of_mem_vlanVertices (fun _ => rfl) hv]
      exact nofun
    · exact nofun
    · exact nofun
    · exact nofun
    · rw [h r hr] at hb
      cases hb
    · rw [rankDomain_of_mem_vlanVertices (fun _ => rfl) hv]
      exact nofun
    · exact nofun
    · exact nofun

theorem sum_cost_eq_countP {l : List Edge}
    (h : ∀ e ∈ l, e.policies = if e.kind = .egress then [.ofCost 1] else []) :
    (l.map Edge.cost).sum = l.countP fun e => decide (e.kind = .egress) := by
  induction l with
  | nil => rfl
  | cons e l ih =>
    rw [List.map_cons, List.sum_cons, List.countP_cons,
      ih fun x hx => h x (List.mem_cons_of_mem _ hx), Nat.add_comm, Edge.cost,
      h e List.mem_cons_self]
    by_cases he : e.kind = .egress
    · simp only [he, if_true, decide_true]
      rfl
    · simp only [he, if_false, decide_false]
      rfl

theorem sum_len_eq_zero {l : List Edge}
    (h : ∀ e ∈ l, e.policies = if e.kind = .egress then [.ofCost 1] else []) :
    (l.map Edge.len).sum = 0 := by
  induction l with
  | nil => rfl
  | cons e l ih =>
    rw [List.map_cons, List.sum_cons, ih fun x hx => h x (List.mem_cons_of_mem _ hx), Edge.len,
      h e List.mem_cons_self]
    split <;> rfl

/-- **Without BGP both graphs are interior**, if a word can count the edges from OSPF to a VLAN. -/
theorem interior_wiring (h : c.WithoutBgp)
    (hcount : ((c.wiring variant).graph.edges.values.countP fun e => decide (e.kind = .egress)) ≤
      UInt32.size - 1) : (c.wiring variant).graph.Interior := by
  have hentries : ∀ x ∈ (c.wiring variant).graph.edges.entries,
      x.2.policies = if x.2.kind = .egress then [.ofCost 1] else [] := by
    rintro ⟨⟨u, v⟩, e⟩ hx
    exact policies_of_isLaid h (edge_of_wiring (PathGraph.mem_entries_iff_edge?.mp hx))
  have hvalues : ∀ e ∈ (c.wiring variant).graph.edges.values,
      e.policies = if e.kind = .egress then [.ofCost 1] else [] := by
    intro e he
    obtain ⟨x, hx, rfl⟩ := List.mem_map.mp he
    exact hentries x hx
  have hpolicy : ∀ x ∈ (c.wiring variant).graph.edges.entries, ∀ p ∈ x.2.policies,
      p = .ofCost 1 := by
    intro x hx p hp
    rw [hentries x hx] at hp
    split at hp
    · exact List.mem_singleton.mp hp
    · cases hp
  refine ⟨fun v hv => ?_, fun x hx p hp => ?_, fun x hx p hp => ?_, ?_, ?_⟩
  · rcases mem_vertices_wiring.mp hv with (rfl | rfl) | hv
    · exact nofun
    · exact nofun
    · exact rankDomain_of_mem_inner h hv
  · rw [hpolicy x hx p hp]
    rfl
  · rw [hpolicy x hx p hp]
    rfl
  · rw [sum_cost_eq_countP hvalues]
    exact hcount
  · rw [sum_len_eq_zero hvalues]
    exact Nat.zero_le _

/-- **Interior routing ends on the least paths**: on every interior graph, and in particular on the
graphs of both variants of every network without BGP whose edges from OSPF to a VLAN a word can
count. -/
theorem interior_endsOnLeastPaths (f : FailureSet) :
    (∀ g : PathGraph, g.Interior → g.EndsOnLeastPaths f) ∧
    ∀ (c : Scene) (variant : Variant) (w : Wiring), c.build variant = .ok w → c.WithoutBgp →
      (w.graph.edges.values.countP fun e => decide (e.kind = .egress)) ≤ UInt32.size - 1 →
      w.graph.EndsOnLeastPaths f := by
  refine ⟨fun g hg => hg.endsOnLeastPaths, fun c variant w hw h hcount => ?_⟩
  obtain rfl := eq_wiring_of_build hw
  exact (interior_wiring h hcount).endsOnLeastPaths

/-- From the first router of the OSPF line with the switch to the last. -/
def ospfLineScene : Scene := (Example.ospfLineConfig true).assemble.scene "s3" "s1"

/-- The source is routed on its least path, over the switch. -/
theorem interior_endsOnLeastPaths_ospfLine : ∃ w, ospfLineScene.build .fine = .ok w ∧
    ospfLineScene.WithoutBgp ∧ w.graph.Interior ∧ w.graph.EndsOnLeastPaths ∅ ∧
    ∃ s r, w.graph.simulate ∅ = .ok s ∧ s.rounds ≤ w.graph.numVertices ∧
      s.routes.get? w.graph.source = some r ∧ Network.routerPath r.path = [0, 1, 3, 2] ∧
      w.graph.IsLeast ∅ w.graph.source r.path := by
  have hbuild : ospfLineScene.build .fine = .ok (ospfLineScene.wiring .fine) :=
    build_of_error?_eq_none (by decide +kernel)
  have hbgp : ospfLineScene.WithoutBgp := by
    unfold WithoutBgp
    decide +kernel
  have hcount : ((ospfLineScene.wiring .fine).graph.edges.values.countP
      fun e => decide (e.kind = .egress)) ≤ UInt32.size - 1 := by decide +kernel
  have hinterior := interior_wiring hbgp hcount
  have hsource : ((ospfLineScene.wiring .fine).graph.path? ∅).isSome := by decide +kernel
  have hrouters : (((ospfLineScene.wiring .fine).graph.simulate ∅).toOption.bind
      (·.routes.get? (ospfLineScene.wiring .fine).graph.source)).map
      (fun r => Network.routerPath r.path) = some [0, 1, 3, 2] := by decide +kernel
  refine ⟨_, hbuild, hbgp, hinterior, (interior_endsOnLeastPaths ∅).1 _ hinterior, ?_⟩
  obtain ⟨s, hs, hrounds, hleast⟩ := (interior_endsOnLeastPaths ∅).2 _ _ _ hbuild hbgp hcount
  obtain ⟨r, hr, hp⟩ := hleast _ (PathGraph.isSome_path?.mp hsource)
  rw [hs] at hrouters
  simp only [Except.toOption, Option.bind_some, hr, Option.map_some, Option.some.injEq] at hrouters
  exact ⟨s, r, hs, hrounds, hr, hrouters, hp⟩

end NetReach.Scene
