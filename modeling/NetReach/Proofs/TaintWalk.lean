import Mathlib.Data.List.Chain
import Mathlib.Data.List.Induction
import NetReach.Proofs.Closure
import NetReach.Proofs.Linked
import NetReach.Taint

/-! # Walks of a taint graph

A *walk* of the taint graph starts at the subnet and never takes two iBGP sessions in a row. What
the spread of the taint enters are the ends of walks (`TaintGraph.mem_reached`), and what it is
passed on along are their last edges (`TaintGraph.isFollowed_iff`). -/

namespace NetReach

/-! ### The edges of a network -/

/-- A process of the protocol runs on the router. -/
def Router.runs (r : Router) : Protocol → Bool
  | .ospf => r.ospf.isSome
  | .bgp => r.bgp.isSome

/-- A process of the protocol runs on the router and originates the subnet. -/
def Router.originates (r : Router) (s : Subnet) : Protocol → Bool
  | .ospf => r.ospfOriginates s
  | .bgp => r.bgpOriginates s

theorem Router.runs_of_originates {r : Router} {s : Subnet} {p : Protocol}
    (h : r.originates s p = true) : r.runs p = true := by
  cases p with
  | ospf => exact Option.isSome_of_any h
  | bgp => exact Option.isSome_of_any h

theorem Router.mem_active_iff {r : Router} {num : UInt32} :
    num ∈ r.ospf.elim [] (·.active.toList) ↔ r.ospfActive num = true := by
  cases ho : r.ospf with
  | none => simp [Router.ospfActive, ho]
  | some o => simp [Router.ospfActive, ho, OrdSet.mem_toList]

/-- The process exists and originates the subnet. -/
def Network.Originates (net : Network) (p : Process) (s : Subnet) : Prop :=
  ∃ r, net.router? p.router = some r ∧ r.originates s p.protocol = true

namespace Network

variable {net : Network} {l2 : Layer2} {r : Router} {s : Subnet} {e : Spread}

theorem mem_adjacencySpreads : e ∈ net.adjacencySpreads l2 r ↔
    ∃ num v, r.ospfActive num = true ∧ v ∈ l2.adjacent ⟨r.id, num⟩ ∧ net.ospfActive v = true ∧
      v.router ≠ r.id ∧
      e = ⟨.process ⟨.ospf, r.id⟩, .process ⟨.ospf, v.router⟩, .igpAdjacency⟩ := by
  simp only [adjacencySpreads, List.mem_flatMap, List.mem_map, List.mem_filter,
    Router.mem_active_iff, Bool.and_eq_true, bne_iff_ne]
  constructor
  · rintro ⟨num, hnum, v, ⟨hv, ha, hr⟩, he⟩
    exact ⟨num, v, hnum, hv, ha, hr, he.symm⟩
  · rintro ⟨num, v, hnum, hv, ha, hr, he⟩
    exact ⟨num, hnum, v, ⟨hv, ha, hr⟩, he.symm⟩

theorem mem_sessionSpreads : e ∈ sessionSpreads r ↔ ∃ n ∈ r.sessions,
    e = ⟨.process ⟨.bgp, r.id⟩, .process ⟨.bgp, n.peer⟩, .ofSession n.type⟩ := by
  simp only [sessionSpreads, List.mem_map, eq_comm]

theorem mem_redistributionSpreads : e ∈ redistributionSpreads r ↔
    r.ospfFromBgp = true ∧
        e = ⟨.process ⟨.bgp, r.id⟩, .process ⟨.ospf, r.id⟩, .redistribution⟩ ∨
      r.bgpFromOspf = true ∧
        e = ⟨.process ⟨.ospf, r.id⟩, .process ⟨.bgp, r.id⟩, .redistribution⟩ := by
  simp only [redistributionSpreads, List.mem_append, List.mem_ite_nil_right, List.mem_singleton]

theorem mem_originSpreads : e ∈ originSpreads s r ↔
    ∃ p, r.originates s p = true ∧ e = ⟨.subnet s, .process ⟨p, r.id⟩, .origin⟩ := by
  simp only [originSpreads, List.mem_append, List.mem_ite_nil_right, List.mem_singleton]
  constructor
  · rintro (⟨h, rfl⟩ | ⟨h, rfl⟩)
    · exact ⟨.ospf, h, rfl⟩
    · exact ⟨.bgp, h, rfl⟩
  · rintro ⟨_ | _, h, rfl⟩
    · exact Or.inl ⟨h, rfl⟩
    · exact Or.inr ⟨h, rfl⟩

theorem mem_spreads : e ∈ net.spreads l2 (some s) ↔ ∃ i r, net.router? i = some r ∧
    (e ∈ net.adjacencySpreads l2 r ∨ e ∈ sessionSpreads r ∨ e ∈ redistributionSpreads r ∨
      e ∈ originSpreads s r) := by
  simp only [spreads, List.mem_flatMap, List.mem_append, Option.elim_some, or_assoc]
  constructor
  · rintro ⟨r, hr, he⟩
    obtain ⟨i, hi⟩ := List.mem_iff_getElem?.mp hr
    exact ⟨i, r, hi, he⟩
  · rintro ⟨i, r, hi, he⟩
    exact ⟨r, List.mem_of_getElem? hi, he⟩

theorem mem_processes (h : net.Linked) {p : Process} : p ∈ net.processes ↔
    ∃ r, net.router? p.router = some r ∧ r.runs p.protocol = true := by
  simp only [processes, List.mem_flatMap, processesOf, List.mem_append, List.mem_ite_nil_right,
    List.mem_singleton]
  constructor
  · rintro ⟨r, hr, ⟨hp, rfl⟩ | ⟨hp, rfl⟩⟩
    · exact ⟨r, h.router?_of_mem hr, hp⟩
    · exact ⟨r, h.router?_of_mem hr, hp⟩
  · rintro ⟨r, hr, hp⟩
    obtain ⟨p, i⟩ := p
    have hid : r.id = i := h.id_eq hr
    subst hid
    refine ⟨r, List.mem_of_getElem? hr, ?_⟩
    cases p with
    | ospf => exact Or.inl ⟨hp, rfl⟩
    | bgp => exact Or.inr ⟨hp, rfl⟩

end Network

theorem mem_of_mem_distinctSpreads {l : List Spread} {e : Spread} (h : e ∈ distinctSpreads l) :
    e ∈ l := by
  induction l with
  | nil => cases h
  | cons f l ih =>
    rcases List.mem_cons.mp h with rfl | h
    · exact List.mem_cons_self
    · exact List.mem_cons_of_mem _ (ih (List.mem_filter.mp h).1)

theorem exists_mem_distinctSpreads {l : List Spread} {e : Spread} (h : e ∈ l) :
    ∃ f ∈ distinctSpreads l, f.tail = e.tail ∧ f.head = e.head := by
  induction l with
  | nil => cases h
  | cons d l ih =>
    by_cases hd : d.tail = e.tail ∧ d.head = e.head
    · exact ⟨d, List.mem_cons_self, hd⟩
    · rcases List.mem_cons.mp h with rfl | h
      · exact absurd ⟨rfl, rfl⟩ hd
      · obtain ⟨f, hf, ht, hh⟩ := ih h
        refine ⟨f, List.mem_cons_of_mem _ (List.mem_filter.mpr ⟨hf, ?_⟩), ht, hh⟩
        rw [ht, hh]
        simp only [ne_eq, Prod.mk.injEq, decide_not, Bool.not_eq_true', decide_eq_false_iff_not]
        exact fun hc => hd ⟨hc.1.symm, hc.2.symm⟩

namespace TaintGraph

variable {g : TaintGraph} {s : Subnet} {w : List Spread} {e : Spread} {v : TaintNode}
  {st : TaintNode × Bool}

/-! ### Walks -/

/-- The edges lead on from the subnet, no two in a row over iBGP. -/
structure IsWalk (g : TaintGraph) (s : Subnet) (w : List Spread) : Prop where
  edges : ∀ e ∈ w, e ∈ g.edges
  start : ∀ e ∈ w.head?, e.tail = .subnet s
  chain : w.IsChain fun e f => e.head = f.tail ∧ ¬ (e.kind = .ibgp ∧ f.kind = .ibgp)

/-- The state in which a route is after it was passed on along the edge. -/
def arrival (e : Spread) : TaintNode × Bool := (e.head, e.kind == .ibgp)

/-- The state in which a route is after a walk. -/
def endState (s : Subnet) (w : List Spread) : TaintNode × Bool :=
  w.getLast?.elim (.subnet s, false) arrival

@[simp] theorem endState_nil : endState s [] = (.subnet s, false) := rfl

@[simp] theorem endState_concat : endState s (w ++ [e]) = arrival e := by
  simp [endState]

theorem follows_iff : follows st e = true ↔ e.tail = st.1 ∧ ¬ (st.2 = true ∧ e.kind = .ibgp) := by
  simp only [follows, Bool.and_eq_true, decide_eq_true_eq, Bool.not_eq_true', Bool.and_eq_false_iff,
    beq_eq_false_iff_ne, ne_eq, not_and_or, Bool.not_eq_true]

theorem isWalk_nil : g.IsWalk s [] := ⟨nofun, nofun, .nil⟩

theorem isWalk_concat :
    g.IsWalk s (w ++ [e]) ↔ g.IsWalk s w ∧ e ∈ g.edges ∧ follows (endState s w) e = true := by
  rw [follows_iff]
  rcases List.eq_nil_or_concat w with rfl | ⟨w, d, rfl⟩
  · constructor
    · intro h
      exact ⟨isWalk_nil, h.edges e List.mem_cons_self, h.start e rfl, fun hc => nomatch hc.1⟩
    · rintro ⟨-, he, ht, -⟩
      refine ⟨fun f hf => ?_, fun f hf => ?_, .singleton e⟩
      · rw [List.mem_singleton.mp hf]
        exact he
      · cases hf
        exact ht
  · rw [List.concat_eq_append, endState_concat]
    constructor
    · intro h
      obtain ⟨hw, -, hj⟩ := List.isChain_append.mp h.chain
      have hde := hj d (by simp) e rfl
      refine ⟨⟨fun f hf => h.edges f (List.mem_append_left _ hf), fun f hf => h.start f ?_, hw⟩,
        h.edges e (by simp), hde.1.symm, ?_⟩
      · rw [List.head?_append_of_ne_nil _ (by simp)]
        exact hf
      · simpa [arrival] using hde.2
    · rintro ⟨h, he, ht, hk⟩
      refine ⟨fun f hf => ?_, fun f hf => h.start f ?_, List.isChain_append.mpr
        ⟨h.chain, .singleton e, fun x hx y hy => ?_⟩⟩
      · rcases List.mem_append.mp hf with hf | hf
        · exact h.edges f hf
        · rw [List.mem_singleton.mp hf]
          exact he
      · rw [List.head?_append_of_ne_nil _ (by simp)] at hf
        exact hf
      · obtain rfl : d = x := by simpa using hx
        obtain rfl : e = y := by simpa using hy
        exact ⟨ht.symm, by simpa [arrival] using hk⟩

/-! ### What the spread of the taint enters -/

/-- The graph belongs to the subnet, and its edges lead to its nodes. -/
structure Fits (g : TaintGraph) (s : Subnet) : Prop where
  subnet : g.subnet = some s
  subnet_mem : .subnet s ∈ g.nodes
  head_mem : ∀ e ∈ g.edges, e.head ∈ g.nodes

theorem mem_stateStep {st' : TaintNode × Bool} :
    st' ∈ g.stateStep st ↔ ∃ e ∈ g.edges, follows st e = true ∧ arrival e = st' := by
  simp only [stateStep, List.mem_map, List.mem_filter, and_assoc]
  rfl

/-- Both states of every node. -/
def states (g : TaintGraph) : List (TaintNode × Bool) :=
  g.nodes.flatMap fun v => [(v, false), (v, true)]

theorem mem_states : st ∈ g.states ↔ st.1 ∈ g.nodes := by
  obtain ⟨v, b⟩ := st
  simp only [states, List.mem_flatMap, List.mem_cons, List.not_mem_nil, or_false, Prod.mk.injEq]
  constructor
  · rintro ⟨u, hu, ⟨rfl, -⟩ | ⟨rfl, -⟩⟩
    · exact hu
    · exact hu
  · intro hv
    cases b with
    | false => exact ⟨v, hv, Or.inl ⟨rfl, rfl⟩⟩
    | true => exact ⟨v, hv, Or.inr ⟨rfl, rfl⟩⟩

theorem endState_mem_states (hg : g.Fits s) (hw : g.IsWalk s w) : endState s w ∈ g.states := by
  rw [mem_states]
  rcases List.eq_nil_or_concat w with rfl | ⟨w, e, rfl⟩
  · exact hg.subnet_mem
  · rw [List.concat_eq_append, endState_concat]
    exact hg.head_mem e (hw.edges e (by simp))

/-- **The states entered are those after a walk.** -/
theorem mem_reached (hg : g.Fits s) :
    st ∈ g.taint.reached ↔ ∃ w, g.IsWalk s w ∧ endState s w = st := by
  have hclosure : g.taint.reached = closure g.stateStep g.states [(.subnet s, false)] := by
    simp only [taint, hg.subnet, Option.toList_some, List.map_singleton, states]
  rw [hclosure, mem_closure]
  constructor
  · intro h
    induction h with
    | start h =>
      rw [List.mem_singleton.mp h]
      exact ⟨[], isWalk_nil, rfl⟩
    | step _ h _ ih =>
      obtain ⟨w, hw, rfl⟩ := ih
      obtain ⟨e, he, hf, rfl⟩ := mem_stateStep.mp h
      exact ⟨w ++ [e], isWalk_concat.mpr ⟨hw, he, hf⟩, endState_concat⟩
  · rintro ⟨w, hw, rfl⟩
    have hend := endState_mem_states hg hw
    induction w using List.reverseRecOn with
    | nil => exact .start (List.mem_singleton.mpr rfl) hend
    | append_singleton w e ih =>
      obtain ⟨hw, he, hf⟩ := isWalk_concat.mp hw
      rw [endState_concat] at hend ⊢
      exact (ih hw (endState_mem_states hg hw)).step (mem_stateStep.mpr ⟨e, he, hf, rfl⟩) hend

theorem isReached_iff (hg : g.Fits s) :
    g.taint.isReached v = true ↔ ∃ w, g.IsWalk s w ∧ (endState s w).1 = v := by
  simp only [isReached, List.any_eq_true, mem_reached hg, decide_eq_true_eq]
  constructor
  · rintro ⟨_, ⟨w, hw, rfl⟩, h⟩
    exact ⟨w, hw, h⟩
  · rintro ⟨w, hw, h⟩
    exact ⟨_, ⟨w, hw, rfl⟩, h⟩

theorem isFollowed_iff (hg : g.Fits s) :
    e ∈ g.edges ∧ g.taint.isFollowed e = true ↔ ∃ w, g.IsWalk s (w ++ [e]) := by
  simp only [isFollowed, List.any_eq_true, mem_reached hg, isWalk_concat]
  constructor
  · rintro ⟨he, _, ⟨w, hw, rfl⟩, hf⟩
    exact ⟨w, hw, he, hf⟩
  · rintro ⟨w, hw, he, hf⟩
    exact ⟨he, _, ⟨w, hw, rfl⟩, hf⟩

/-! ### The graph of a network -/

/-- The graph is made from a network by adding its nodes and then its edges, each in any order. Of
edges between the same nodes the first one added is kept. -/
structure MadeFrom (g : TaintGraph) (net : Network) (l2 : Layer2) (s : Subnet) : Prop where
  subnet : g.subnet = some s
  nodes : g.nodes.Perm (net.processes.map .process ++ [.subnet s])
  edges : ∃ l : List Spread, l.Perm (net.spreads l2 (some s)) ∧
    g.edges = distinctSpreads
      (l.filter fun e => decide (e.tail ∈ g.nodes) && decide (e.head ∈ g.nodes))

theorem ofNetwork_madeFrom (net : Network) (l2 : Layer2) (s : Subnet) :
    (ofNetwork net l2 (some s)).MadeFrom net l2 s :=
  ⟨rfl, .refl _, _, .refl _, rfl⟩

namespace MadeFrom

variable {net : Network} {l2 : Layer2} {p : Process}

theorem mem_nodes (hg : g.MadeFrom net l2 s) :
    v ∈ g.nodes ↔ v = .subnet s ∨ ∃ p ∈ net.processes, v = .process p := by
  rw [hg.nodes.mem_iff, List.mem_append, List.mem_map, List.mem_singleton, or_comm]
  simp only [eq_comm]

theorem of_mem_edges (hg : g.MadeFrom net l2 s) (he : e ∈ g.edges) :
    e ∈ net.spreads l2 (some s) ∧ e.tail ∈ g.nodes ∧ e.head ∈ g.nodes := by
  obtain ⟨l, hl, hge⟩ := hg.edges
  rw [hge] at he
  obtain ⟨hm, hn⟩ := List.mem_filter.mp (mem_of_mem_distinctSpreads he)
  refine ⟨hl.mem_iff.mp hm, ?_⟩
  simpa using hn

theorem exists_mem_edges (hg : g.MadeFrom net l2 s) (he : e ∈ net.spreads l2 (some s))
    (ht : e.tail ∈ g.nodes) (hh : e.head ∈ g.nodes) :
    ∃ f ∈ g.edges, f.tail = e.tail ∧ f.head = e.head := by
  obtain ⟨l, hl, hge⟩ := hg.edges
  rw [hge]
  refine exists_mem_distinctSpreads (List.mem_filter.mpr ⟨hl.mem_iff.mpr he, ?_⟩)
  simp [ht, hh]

theorem fits (hg : g.MadeFrom net l2 s) : g.Fits s where
  subnet := hg.subnet
  subnet_mem := hg.mem_nodes.mpr (Or.inl rfl)
  head_mem _ he := (hg.of_mem_edges he).2.2

theorem isOrigin_iff (hn : net.Linked) (hg : g.MadeFrom net l2 s) :
    g.isOrigin (.process p) = true ↔ net.Originates p s := by
  simp only [isOrigin, List.any_eq_true, Bool.and_eq_true, decide_eq_true_eq, hg.subnet,
    Option.map_some, Option.some.injEq]
  constructor
  · rintro ⟨e, he, ht, hh⟩
    obtain ⟨i, r, hr, h⟩ := Network.mem_spreads.mp (hg.of_mem_edges he).1
    have hid : r.id = i := hn.id_eq hr
    subst hid
    rcases h with h | h | h | h
    · obtain ⟨_, _, _, _, _, _, rfl⟩ := Network.mem_adjacencySpreads.mp h
      cases ht
    · obtain ⟨_, _, rfl⟩ := Network.mem_sessionSpreads.mp h
      cases ht
    · rcases Network.mem_redistributionSpreads.mp h with ⟨_, rfl⟩ | ⟨_, rfl⟩
      · cases ht
      · cases ht
    · obtain ⟨q, hq, rfl⟩ := Network.mem_originSpreads.mp h
      cases hh
      exact ⟨r, hr, hq⟩
  · rintro ⟨r, hr, ho⟩
    obtain ⟨q, i⟩ := p
    have hid : r.id = i := hn.id_eq hr
    subst hid
    have he : (⟨.subnet s, .process ⟨q, r.id⟩, .origin⟩ : Spread) ∈ net.spreads l2 (some s) :=
      Network.mem_spreads.mpr ⟨_, r, hr,
        Or.inr (Or.inr (Or.inr (Network.mem_originSpreads.mpr ⟨q, ho, rfl⟩)))⟩
    have hq : (⟨q, r.id⟩ : Process) ∈ net.processes :=
      (Network.mem_processes hn).mpr ⟨r, hr, Router.runs_of_originates ho⟩
    obtain ⟨f, hf, ht, hh⟩ := hg.exists_mem_edges he (hg.mem_nodes.mpr (Or.inl rfl))
      (hg.mem_nodes.mpr (Or.inr ⟨_, hq, rfl⟩))
    exact ⟨f, hf, ht.symm, hh⟩

end MadeFrom

end TaintGraph

end NetReach
