import NetReach.Example
import NetReach.Proofs.Hops
import NetReach.Proofs.Stability
import NetReach.Report

/-! # Reported paths are real

A list of vertices that leads from the source up to a router (`Scene.Headway`) is extended by hops,
also where the walk of a packet goes on from another layer. When it arrives it is a physical path
(`Scene.IsPhysical`). So all three ways to report a path report physical ones. -/

namespace NetReach.Scene

variable {c : Scene} {f : FailureSet} {i : RouterId} {u v : Vertex} {p l : List Vertex}

/-! ### Up to a router -/

/-- The vertices lead from the source up to the router, over links that have not failed. -/
inductive Headway (c : Scene) (f : FailureSet) : List Vertex → RouterId → Prop where
  /-- The router has the source attached. -/
  | source {i : RouterId} : c.net.Attaches i c.src → Headway c f [c.source] i
  /-- A vertex of the router, and on to the same router or over a link. -/
  | step {p : List Vertex} {v : Vertex} {i j : RouterId} : Headway c f p i → v.router? = some i →
    i = j ∨ c.net.Joined i j ∧ f.contains i j = false → Headway c f (p ++ [v]) j

theorem exists_mem_head? (l : List Vertex) (v : Vertex) : ∃ x, x ∈ (l ++ [v]).head? := by
  cases l with
  | nil => exact ⟨v, rfl⟩
  | cons x l => exact ⟨x, rfl⟩

/-- Hops that no failure cuts extend the headway. -/
theorem Headway.append (hl : (l ++ [v]).IsChain fun u v => c.Hop u v ∧ f.cuts u v = false)
    (hv : v ≠ c.destination) : ∀ {p i}, c.Headway f p i →
      (∀ x ∈ (l ++ [v]).head?, x.router? = some i) →
      ∃ j, v.router? = some j ∧ c.Headway f (p ++ l) j := by
  induction l with
  | nil =>
    intro p i hp hi
    exact ⟨i, hi v rfl, by rwa [List.append_nil]⟩
  | cons u l ih =>
    intro p i hp hi
    obtain ⟨hnext, hl⟩ := List.isChain_cons.mp hl
    have hu : u.router? = some i := hi u rfl
    -- the vertex behind `u` has a hop of its own, or is `v`
    have hne : ∀ x ∈ (l ++ [v]).head?, x ≠ c.destination := by
      intro x hx
      cases l with
      | nil =>
        cases hx
        exact hv
      | cons y l =>
        cases hx
        obtain ⟨hy, -⟩ := List.isChain_cons.mp hl
        obtain ⟨z, hz⟩ := exists_mem_head? l v
        exact (hy z hz).1.tail_ne
    obtain ⟨x, hx⟩ := exists_mem_head? l v
    obtain ⟨hop, hc⟩ := hnext x hx
    obtain ⟨j, hj, hij⟩ := hop.joined hc hu (hne x hx)
    have hstep := ih hl (hp.step hu hij) fun y hy => by
      cases Option.mem_unique hx hy
      exact hj
    rwa [List.append_assoc] at hstep

/-! ### Physical paths -/

/-- The path leads from the source to the destination, which come nowhere else in it. From router to
router it crosses links that have not failed, between interfaces that belong to VLANs. It starts at
a router with the source attached, and ends at one that delivers to the destination. -/
structure IsPhysical (c : Scene) (f : FailureSet) (p : List Vertex) : Prop where
  head : p.head? = some c.source
  last : p.getLast? = some c.destination
  source_once : p.count c.source = 1
  destination_once : p.count c.destination = 1
  links : (Network.routerPath p).IsChain fun a b =>
    a ≠ b ∧ c.net.Joined a b ∧ f.contains a b = false
  first : ∃ i, (Network.routerPath p).head? = some i ∧ c.net.Attaches i c.src
  exit : ∃ i, (Network.routerPath p).getLast? = some i ∧ c.net.Delivers i c.dst

section OnceInARow

variable {R : RouterId → RouterId → Prop} {is : List RouterId}

open Network.routerPath (onceInARow)

theorem head?_onceInARow : (onceInARow is).head? = is.head? := by
  fun_induction onceInARow is with
  | case1 => rfl
  | case2 a => rfl
  | case3 a l ih => exact ih
  | case4 a b l hab ih => rfl

theorem getLast?_onceInARow : (onceInARow is).getLast? = is.getLast? := by
  fun_induction onceInARow is with
  | case1 => rfl
  | case2 a => rfl
  | case3 a l ih => rw [ih, List.getLast?_cons_cons]
  | case4 a b l hab ih =>
    rw [List.getLast?_cons, ih, List.getLast?_cons_cons, List.getLast?_cons]
    rfl

/-- Where an item differs from the one before, it is related to it. -/
theorem isChain_onceInARow (h : is.IsChain fun a b => a = b ∨ R a b) :
    (onceInARow is).IsChain fun a b => a ≠ b ∧ R a b := by
  fun_induction onceInARow is with
  | case1 => exact .nil
  | case2 a => exact .singleton a
  | case3 a l ih => exact ih (List.isChain_cons_cons.mp h).2
  | case4 a b l hab ih =>
    obtain ⟨hr, h⟩ := List.isChain_cons_cons.mp h
    refine List.isChain_cons.mpr ⟨fun x hx => ?_, ih h⟩
    rw [head?_onceInARow] at hx
    cases hx
    exact ⟨hab, hr.resolve_left hab⟩

end OnceInARow

/-- The routers up to and with the one reached. -/
def routersTo (p : List Vertex) (i : RouterId) : List RouterId := p.filterMap (·.router?) ++ [i]

theorem Headway.routersTo_isChain (h : c.Headway f p i) : (routersTo p i).IsChain fun a b =>
    a = b ∨ c.net.Joined a b ∧ f.contains a b = false := by
  induction h with
  | source _ => exact .singleton _
  | step _ hv hij ih =>
    rw [routersTo, List.filterMap_append, List.filterMap_cons_some hv, List.filterMap_nil]
    refine List.isChain_append.mpr ⟨ih, .singleton _, fun x hx y hy => ?_⟩
    rw [List.getLast?_concat] at hx
    cases hx
    cases hy
    exact hij

theorem Headway.routersTo_head (h : c.Headway f p i) :
    ∃ k, (routersTo p i).head? = some k ∧ c.net.Attaches k c.src := by
  induction h with
  | source h => exact ⟨_, rfl, h⟩
  | step _ hv _ ih =>
    obtain ⟨k, hk, ha⟩ := ih
    refine ⟨k, ?_, ha⟩
    rw [routersTo, List.filterMap_append, List.filterMap_cons_some hv, List.filterMap_nil,
      ← routersTo, List.head?_append, hk]
    rfl

/-- The source comes first and only there, and the destination was not reached. -/
theorem Headway.ends (h : c.Headway f p i) :
    p.head? = some c.source ∧ p.count c.source = 1 ∧ p.count c.destination = 0 := by
  induction h with
  | source _ =>
    refine ⟨rfl, List.count_singleton_self, List.count_eq_zero.mpr fun h => ?_⟩
    cases List.mem_singleton.mp h
  | @step p v _ _ _ hv _ ih =>
    obtain ⟨hh, hs, hd⟩ := ih
    have hvs : v ≠ c.source := by
      rintro rfl
      cases hv
    have hvd : v ≠ c.destination := by
      rintro rfl
      cases hv
    refine ⟨by rw [List.head?_append, hh]; rfl, ?_, ?_⟩
    · rw [List.count_append, hs, List.count_singleton, if_neg (by simpa using hvs)]
    · rw [List.count_append, hd, List.count_singleton, if_neg (by simpa using hvd)]

/-- At a router that delivers, the headway becomes a path. -/
theorem Headway.isPhysical (h : c.Headway f p i) (hv : v.router? = some i)
    (hd : c.net.Delivers i c.dst) : c.IsPhysical f (p ++ [v, c.destination]) := by
  have hrouters : Network.routerPath (p ++ [v, c.destination]) =
      Network.routerPath.onceInARow (routersTo p i) := by
    have hdst : c.destination.router? = none := rfl
    rw [Network.routerPath, routersTo, List.filterMap_append, List.filterMap_cons_some hv,
      List.filterMap_cons_none hdst, List.filterMap_nil]
  -- the vertices are those of the headway by one step on the same router, and the destination
  obtain ⟨hhead, hsrc, hdst⟩ := (h.step hv (Or.inl rfl)).ends
  have hlist : p ++ [v, c.destination] = (p ++ [v]) ++ [c.destination] := by simp
  refine ⟨?_, ?_, ?_, ?_, ?_, ?_, i, ?_, hd⟩
  · rw [hlist, List.head?_append, hhead]
    rfl
  · rw [hlist, List.getLast?_concat]
  · have hne : c.destination ≠ c.source := nofun
    rw [hlist, List.count_append, hsrc, List.count_singleton, if_neg (by simpa using hne)]
  · rw [hlist, List.count_append, hdst, List.count_singleton_self]
  · rw [hrouters]
    exact isChain_onceInARow h.routersTo_isChain
  · rw [hrouters, head?_onceInARow]
    exact h.routersTo_head
  · rw [hrouters, getLast?_onceInARow, routersTo, List.getLast?_concat]

/-- Hops that no failure cuts to the destination complete a path. -/
theorem Headway.arrive (hp : c.Headway f p i)
    (hl : (l ++ [c.destination]).IsChain fun u v => c.Hop u v ∧ f.cuts u v = false)
    (hi : ∀ x ∈ (l ++ [c.destination]).head?, x.router? = some i) :
    c.IsPhysical f (p ++ l ++ [c.destination]) := by
  rcases List.eq_nil_or_concat l with rfl | ⟨l, v, rfl⟩
  · cases hi c.destination rfl
  · rw [List.concat_eq_append] at hl hi ⊢
    obtain ⟨hl, -, hlast⟩ := List.isChain_append.mp hl
    obtain ⟨hop, -⟩ := hlast v (by simp) c.destination rfl
    obtain ⟨j, hv, hp⟩ := hp.append hl hop.tail_ne fun x hx => hi x (by
      rw [List.head?_append_of_ne_nil _ (by simp)]
      exact hx)
    have hd : c.net.Delivers j c.dst := by
      cases hop with
      | enter _ h _ => cases h
      | stay _ h => cases h
      | link _ h _ => cases h
      | deliver h _ hd =>
        cases hv.symm.trans h
        exact hd
    have hphys := hp.isPhysical hv hd
    rwa [← List.append_assoc, List.append_assoc (p ++ l)]

/-! ### The paths of a graph -/

variable {variant : Variant} {t : RoutingTable}

theorem isPhysical_of_isPath (hn : c.net.Linked)
    (h : (c.wiring variant).graph.IsPath f c.source c.destination p) : c.IsPhysical f p := by
  have hchain := h.chain.imp fun u v huv => hop_of_mem_successors hn huv
  obtain ⟨l, rfl⟩ := List.getLast?_eq_some_iff.mp h.last
  have hhead := h.head
  cases l with
  | nil => cases hhead
  | cons u l =>
    cases hhead
    obtain ⟨hnext, hl⟩ := List.isChain_cons.mp hchain
    obtain ⟨x, hx⟩ := exists_mem_head? l c.destination
    obtain ⟨i, hi, ha⟩ := (hnext x hx).1.of_source
    refine (Headway.source ha).arrive hl fun y hy => ?_
    cases Option.mem_unique hx hy
    exact hi

/-- The vertices of a chain up to the first that fails a test, and this one as well. -/
theorem isChain_takeWhile {R : Vertex → Vertex → Prop} {q : Vertex → Bool} (hl : l.IsChain R)
    (h : l.dropWhile q = v :: p) :
    (l.takeWhile q ++ [v]).IsChain R ∧ (l.takeWhile q ++ [v]).head? = l.head? := by
  have hsplit : l = l.takeWhile q ++ [v] ++ p := by
    rw [List.append_assoc, List.singleton_append, ← h, List.takeWhile_append_dropWhile]
  obtain ⟨x, hx⟩ := exists_mem_head? (l.takeWhile q) v
  constructor
  · rw [hsplit] at hl
    exact (List.isChain_append.mp hl).1
  · conv_rhs => rw [hsplit, List.head?_append, Option.mem_def.mp hx]
    exact hx

/-- **The walk of a packet is physical.** The headway that the walk makes is kept, as it goes on
from the counterpart of a vertex on the same router. -/
theorem isPhysical_of_walkFrom (hn : c.net.Linked) (ht : (c.wiring variant).graph.Stable f t)
    (n : Nat) : ∀ {left v passed},
      (v = c.source ∧ passed = [] ∨ ∃ i, v.router? = some i ∧ c.Headway f passed i) →
      (c.wiring variant).graph.walkFrom t n left v passed = .arrived p → c.IsPhysical f p := by
  induction n with
  | zero => intro left v passed _ h; cases h
  | succ n ih =>
    intro left v passed hv h
    unfold PathGraph.walkFrom at h
    split at h
    · cases h
    split at h
    · cases h
    next r hr =>
    have hpath := ht.isPath hr
    have hchain := hpath.chain.imp fun u v huv => hop_of_mem_successors hn huv
    rw [destination_wiring] at hpath
    simp only [destination_wiring] at h
    rcases hv with ⟨rfl, rfl⟩ | ⟨i, hi, hp⟩
    · -- from the source the walk goes on at a router that has it attached
      obtain ⟨y, l, hl⟩ := hpath.exists_eq_cons_cons (by nofun)
      rw [hl] at h hchain
      obtain ⟨i, hi, ha⟩ := (List.isChain_cons_cons.mp hchain).1.1.of_source
      have hsrc : c.source ≠ c.destination := nofun
      have hy : y.router? ≠ c.source.router? := by
        rw [hi]
        nofun
      have hyd : y ≠ c.destination := by
        rintro rfl
        cases hi
      simp only [List.dropWhile_cons, List.takeWhile_cons, hsrc, hy, hyd, ne_eq, not_false_eq_true,
        and_true, and_false, decide_true, decide_false, if_true, Bool.false_eq_true, if_false,
        List.nil_append] at h
      split at h
      · exact ih (v := y.toMain) (Or.inr ⟨i, hi, .source ha⟩) h
      · cases h
    · split at h
      · cases h
      next w rest hw =>
      obtain ⟨hseg, hfirst⟩ := isChain_takeWhile hchain hw
      have hhead : ∀ x ∈ r.path.head?, x.router? = some i := by
        intro x hx
        rw [hpath.head] at hx
        cases hx
        exact hi
      rw [← hfirst] at hhead
      split at h
      · next hwd =>
        cases h
        subst hwd
        exact hp.arrive hseg hhead
      · next hwd =>
        split at h
        · obtain ⟨j, hj, hp⟩ := hp.append hseg hwd hhead
          exact ih (v := w.toMain) (Or.inr ⟨j, hj, hp⟩) h
        · cases h

/-- **Reported paths are physical**, in both variants of the graph and whatever links have failed:
those that exist, those selected, and the walks of packets. -/
theorem isPhysical_of_reported {cfg : NetworkConfig} {g : Wiring} (hlink : cfg.link = .ok c.net)
    (hg : c.build variant = .ok g) (f : FailureSet) :
    (∀ p, g.graph.path? f = some p → c.IsPhysical f p) ∧
    (∀ r, g.graph.bestPath f = .ok (some r) → c.IsPhysical f r.path) ∧
    ∀ k p, g.graph.bestWalk f = .ok k → k.path? = some p → c.IsPhysical f p := by
  have hn := NetworkConfig.linked_of_link hlink
  obtain rfl := eq_wiring_of_build hg
  refine ⟨fun p hp => ?_, fun r hr => ?_, fun k p hk hp => ?_⟩
  · have hpath := PathGraph.isPath_of_path? hp
    rw [destination_wiring, source_wiring] at hpath
    exact isPhysical_of_isPath hn hpath
  · obtain ⟨s, hs, hroute⟩ := PathGraph.bestPath_eq_ok hr
    have hpath := (PathGraph.simulate_stable hs).isPath hroute
    rw [destination_wiring, source_wiring] at hpath
    exact isPhysical_of_isPath hn hpath
  · obtain ⟨s, hs, hwalk⟩ := PathGraph.bestWalk_eq_ok hk
    rw [PathGraph.reprocess, source_wiring] at hwalk
    cases k with
    | arrived q =>
      cases hp
      exact isPhysical_of_walkFrom hn (PathGraph.simulate_stable hs) _ (Or.inl ⟨rfl, rfl⟩) hwalk
    | stuck => cases hp
    | loop v => cases hp

/-- From the third router of the iBGP mesh to the other autonomous system. -/
def ibgpMeshScene : Scene := Example.ibgpMeshConfig.assemble.scene "t" "s3"

theorem build_ibgpMeshScene (variant : Variant) :
    ibgpMeshScene.build variant = .ok (ibgpMeshScene.wiring variant) :=
  build_of_error?_eq_none (by decide +kernel)

/-- The packet enters the layer of a next hop, and leaves it at the next router. -/
theorem isPhysical_of_reported_ibgpMesh :
    Example.ibgpMeshConfig.link = .ok ibgpMeshScene.net ∧
    ∃ g k p, ibgpMeshScene.build .fine = .ok g ∧ g.graph.bestWalk ∅ = .ok k ∧ k.path? = some p ∧
      Network.routerPath p = [3, 2, 1, 0] ∧ ibgpMeshScene.IsPhysical ∅ p := by
  have hlink : Example.ibgpMeshConfig.link = .ok ibgpMeshScene.net := rfl
  have hwalk : (((ibgpMeshScene.wiring .fine).graph.bestWalk ∅).toOption.bind (·.path?)).map
      Network.routerPath = some [3, 2, 1, 0] := by decide +kernel
  obtain ⟨p, hp, hrouters⟩ := Option.map_eq_some_iff.mp hwalk
  obtain ⟨k, hk, hkp⟩ := Option.bind_eq_some_iff.mp hp
  have hbest : (ibgpMeshScene.wiring .fine).graph.bestWalk ∅ = .ok k := by
    cases hb : (ibgpMeshScene.wiring .fine).graph.bestWalk ∅ with
    | error e => rw [hb] at hk; cases hk
    | ok k' => rw [hb] at hk; cases hk; rfl
  exact ⟨hlink, _, k, p, build_ibgpMeshScene .fine, hbest, hkp, hrouters,
    (isPhysical_of_reported hlink (build_ibgpMeshScene .fine) ∅).2.2 k p hbest hkp⟩

end NetReach.Scene
