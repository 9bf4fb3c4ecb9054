import Mathlib.Logic.Relation
import NetReach.Example
import NetReach.Proofs.TaintWalk

/-! # Spreading the taint with marks

The taint can also be spread by a traversal that expands a node at most twice and leaves marks on
nodes and edges. The states it still has to look at are taken in any order, and so are the edges out
of a node. Whatever the order, a traversal can be brought to its end, and its marks at the end say
what the states of `TaintGraph.taint` say: both are exact (`TaintGraph.Exact`). -/

namespace NetReach

/-- The marks of a traversal, and the states it has yet to look at. -/
structure Traversal where
  /-- The nodes whose edges were all followed. -/
  full : List TaintNode
  /-- The nodes whose edges were followed, except for iBGP sessions. -/
  restricted : List TaintNode
  followed : List Spread
  /-- The nodes that were entered from a process of another router and do not originate the
  subnet. -/
  adjacent : List TaintNode
  pending : List (TaintNode × Bool)

namespace Traversal

open TaintGraph (arrival follows endState)

variable {g : TaintGraph} {s : Subnet} {t t' : Traversal} {st : TaintNode × Bool} {e : Spread}
  {v : TaintNode} {w out : List Spread} {rest : List (TaintNode × Bool)}

/-- Nothing is marked. -/
def start (s : Subnet) : Traversal := ⟨[], [], [], [], [(.subnet s, false)]⟩

/-- The node was not yet expanded in a way that covers the state. -/
def isFresh (t : Traversal) (st : TaintNode × Bool) : Bool :=
  if st.2 then decide (st.1 ∉ t.full ∧ st.1 ∉ t.restricted) else decide (st.1 ∉ t.full)

/-- Follow the edges `out` from a state, with `rest` still to be looked at. -/
def expand (t : Traversal) (g : TaintGraph) (st : TaintNode × Bool) (out : List Spread)
    (rest : List (TaintNode × Bool)) : Traversal where
  full := if st.2 then t.full else st.1 :: t.full
  restricted := if st.2 then st.1 :: t.restricted else t.restricted
  followed := t.followed ++ out
  adjacent := t.adjacent ++
    (out.filter fun e => e.kind.isAdjacency && !g.isOrigin e.head).map (·.head)
  pending := out.map arrival ++ rest

/-- Some pending state is taken: it is passed over unless it is fresh. -/
inductive Step (g : TaintGraph) : Traversal → Traversal → Prop where
  | skip {t : Traversal} {st : TaintNode × Bool} {rest : List (TaintNode × Bool)} :
    t.pending.Perm (st :: rest) → t.isFresh st = false → Step g t { t with pending := rest }
  | expand {t : Traversal} {st : TaintNode × Bool} {rest : List (TaintNode × Bool)}
    {out : List Spread} : t.pending.Perm (st :: rest) → t.isFresh st = true →
    out.Perm (g.edges.filter (follows st)) → Step g t (t.expand g st out rest)

/-- Any number of steps. -/
abbrev Steps (g : TaintGraph) : Traversal → Traversal → Prop := Relation.ReflTransGen (Step g)

/-- The node was expanded in a way that covers the state. -/
def Covers (t : Traversal) (st : TaintNode × Bool) : Prop :=
  st.1 ∈ t.full ∨ st.2 = true ∧ st.1 ∈ t.restricted

theorem isFresh_eq_false : t.isFresh st = false ↔ t.Covers st := by
  obtain ⟨v, _ | _⟩ := st
  · simp [isFresh, Covers]
  · simp only [isFresh, Covers, if_true, decide_eq_false_iff_not, not_and_or, not_not, true_and]

/-! ### What a step preserves -/

/-- What is marked or pending is at the end of a walk, and a node that was expanded is done with. -/
structure Invariant (g : TaintGraph) (s : Subnet) (t : Traversal) : Prop where
  pending : ∀ st ∈ t.pending, ∃ w, g.IsWalk s w ∧ endState s w = st
  full : ∀ v ∈ t.full, ∃ w, g.IsWalk s w ∧ endState s w = (v, false)
  restricted : ∀ v ∈ t.restricted, ∃ w, g.IsWalk s w ∧ endState s w = (v, true)
  followed : ∀ e ∈ t.followed, ∃ w, g.IsWalk s (w ++ [e])
  adjacent : ∀ v, v ∈ t.adjacent ↔
    ∃ e ∈ t.followed, e.head = v ∧ e.kind.isAdjacency = true ∧ g.isOrigin v = false
  entered : t.Covers (.subnet s, false) ∨ (.subnet s, false) ∈ t.pending
  arrived : ∀ e ∈ t.followed, t.Covers (arrival e) ∨ arrival e ∈ t.pending
  expanded : ∀ st, t.Covers st → ∀ e ∈ g.edges, follows st e = true → e ∈ t.followed

theorem invariant_start : (start s).Invariant g s where
  pending st hst := by
    rw [List.mem_singleton.mp hst]
    exact ⟨[], TaintGraph.isWalk_nil, rfl⟩
  full := nofun
  restricted := nofun
  followed := nofun
  adjacent v := by simp [start]
  entered := Or.inr List.mem_cons_self
  arrived := nofun
  expanded st hst := by
    rcases hst with h | ⟨-, h⟩
    · cases h
    · cases h

theorem Invariant.skip (h : t.Invariant g s) (hp : t.pending.Perm (st :: rest))
    (hst : t.Covers st) : ({ t with pending := rest } : Traversal).Invariant g s := by
  have hmem : ∀ {x}, t.Covers x ∨ x ∈ t.pending → t.Covers x ∨ x ∈ rest := by
    intro x hx
    rcases hx with hx | hx
    · exact Or.inl hx
    · rcases List.mem_cons.mp (hp.mem_iff.mp hx) with rfl | hx
      · exact Or.inl hst
      · exact Or.inr hx
  exact
    { pending := fun x hx => h.pending x (hp.mem_iff.mpr (List.mem_cons_of_mem _ hx))
      full := h.full
      restricted := h.restricted
      followed := h.followed
      adjacent := h.adjacent
      entered := hmem h.entered
      arrived := fun e he => hmem (h.arrived e he)
      expanded := h.expanded }

theorem covers_expand {x : TaintNode × Bool} : (t.expand g st out rest).Covers x ↔
    t.Covers x ∨ x.1 = st.1 ∧ (st.2 = true → x.2 = true) := by
  obtain ⟨u, _ | _⟩ := st
  · simp only [Covers, expand, Bool.false_eq_true, if_false, List.mem_cons, false_imp_iff, and_true]
    constructor
    · rintro ((h | h) | h)
      · exact Or.inr h
      · exact Or.inl (Or.inl h)
      · exact Or.inl (Or.inr h)
    · rintro ((h | h) | h)
      · exact Or.inl (Or.inr h)
      · exact Or.inr h
      · exact Or.inl (Or.inl h)
  · simp only [Covers, expand, if_true, List.mem_cons, true_imp_iff]
    constructor
    · rintro (h | ⟨hb, h | h⟩)
      · exact Or.inl (Or.inl h)
      · exact Or.inr ⟨h, hb⟩
      · exact Or.inl (Or.inr ⟨hb, h⟩)
    · rintro ((h | ⟨hb, h⟩) | ⟨h, hb⟩)
      · exact Or.inl h
      · exact Or.inr ⟨hb, Or.inr h⟩
      · exact Or.inr ⟨hb, Or.inl h⟩

theorem Invariant.expand (h : t.Invariant g s) (hp : t.pending.Perm (st :: rest))
    (hout : out.Perm (g.edges.filter (follows st))) :
    (t.expand g st out rest).Invariant g s := by
  obtain ⟨w, hw, hend⟩ := h.pending st (hp.mem_iff.mpr List.mem_cons_self)
  have hwalk : ∀ e ∈ out, g.IsWalk s (w ++ [e]) := by
    intro e he
    obtain ⟨he, hf⟩ := List.mem_filter.mp (hout.mem_iff.mp he)
    exact TaintGraph.isWalk_concat.mpr ⟨hw, he, hend ▸ hf⟩
  have hmem : ∀ {x}, t.Covers x ∨ x ∈ t.pending →
      (t.expand g st out rest).Covers x ∨ x ∈ (t.expand g st out rest).pending := by
    intro x hx
    rcases hx with hx | hx
    · exact Or.inl (covers_expand.mpr (Or.inl hx))
    · rcases List.mem_cons.mp (hp.mem_iff.mp hx) with rfl | hx
      · exact Or.inl (covers_expand.mpr (Or.inr ⟨rfl, fun hb => hb⟩))
      · exact Or.inr (List.mem_append_right _ hx)
  constructor
  case pending =>
    intro x hx
    rcases List.mem_append.mp hx with hx | hx
    · obtain ⟨e, he, rfl⟩ := List.mem_map.mp hx
      exact ⟨w ++ [e], hwalk e he, TaintGraph.endState_concat⟩
    · exact h.pending x (hp.mem_iff.mpr (List.mem_cons_of_mem _ hx))
  case full =>
    intro v hv
    obtain ⟨u, _ | _⟩ := st
    · rcases List.mem_cons.mp hv with rfl | hv
      · exact ⟨w, hw, hend⟩
      · exact h.full v hv
    · exact h.full v hv
  case restricted =>
    intro v hv
    obtain ⟨u, _ | _⟩ := st
    · exact h.restricted v hv
    · rcases List.mem_cons.mp hv with rfl | hv
      · exact ⟨w, hw, hend⟩
      · exact h.restricted v hv
  case followed =>
    intro e he
    rcases List.mem_append.mp he with he | he
    · exact h.followed e he
    · exact ⟨w, hwalk e he⟩
  case adjacent =>
    intro v
    simp only [Traversal.expand, List.mem_append, h.adjacent, List.mem_map, List.mem_filter,
      Bool.and_eq_true, Bool.not_eq_true']
    constructor
    · rintro (⟨e, he, hv, ha⟩ | ⟨e, ⟨he, ha, ho⟩, rfl⟩)
      · exact ⟨e, Or.inl he, hv, ha⟩
      · exact ⟨e, Or.inr he, rfl, ha, ho⟩
    · rintro ⟨e, he | he, rfl, ha, ho⟩
      · exact Or.inl ⟨e, he, rfl, ha, ho⟩
      · exact Or.inr ⟨e, ⟨he, ha, ho⟩, rfl⟩
  case entered => exact hmem h.entered
  case arrived =>
    intro e he
    rcases List.mem_append.mp he with he | he
    · exact hmem (h.arrived e he)
    · exact Or.inr (List.mem_append_left _ (List.mem_map_of_mem he))
  case expanded =>
    intro x hx e he hf
    rcases covers_expand.mp hx with hx | ⟨hx, hb⟩
    · exact List.mem_append_left _ (h.expanded x hx e he hf)
    · refine List.mem_append_right _ (hout.mem_iff.mpr (List.mem_filter.mpr ⟨he, ?_⟩))
      rw [TaintGraph.follows_iff] at hf ⊢
      exact ⟨hx ▸ hf.1, fun hc => hf.2 ⟨hb hc.1, hc.2⟩⟩

theorem Invariant.step (h : t.Invariant g s) (ht : Step g t t') : t'.Invariant g s := by
  cases ht with
  | skip hp hst => exact h.skip hp (isFresh_eq_false.mp hst)
  | expand hp _ hout => exact h.expand hp hout

theorem Invariant.steps (h : t.Invariant g s) (ht : Steps g t t') : t'.Invariant g s := by
  induction ht with
  | refl => exact h
  | tail _ hst ih => exact ih.step hst

/-! ### Traversals come to an end -/

/-- The number of states that are still fresh. -/
def numFresh (g : TaintGraph) (t : Traversal) : Nat := (g.states.filter t.isFresh).length

theorem length_filter_lt {α : Type} {p q : α → Bool} {l : List α} {a : α}
    (h : ∀ x, p x = true → q x = true) (ha : a ∈ l) (hq : q a = true) (hp : p a = false) :
    (l.filter p).length < (l.filter q).length := by
  have hpq : l.filter p = (l.filter q).filter p := by
    rw [List.filter_filter]
    refine List.filter_congr fun x _ => ?_
    cases hx : p x with
    | false => rfl
    | true => rw [h x hx]; rfl
  rw [hpq, List.length_filter_lt_length_iff_exists]
  exact ⟨a, List.mem_filter.mpr ⟨ha, hq⟩, by rw [hp]; exact Bool.false_ne_true⟩

theorem numFresh_expand_lt (hst : st ∈ g.states) (hf : t.isFresh st = true) :
    numFresh g (t.expand g st out rest) < numFresh g t := by
  refine length_filter_lt (fun x hx => ?_) hst hf ?_
  · by_contra hc
    have hcov : t.Covers x := isFresh_eq_false.mp (Bool.eq_false_iff.mpr hc)
    rw [isFresh_eq_false.mpr (covers_expand.mpr (Or.inl hcov))] at hx
    cases hx
  · exact isFresh_eq_false.mpr (covers_expand.mpr (Or.inr ⟨rfl, fun hb => hb⟩))

/-- Every traversal can be brought to its end. -/
theorem exists_end (hg : g.Fits s) (t : Traversal) (h : t.Invariant g s) :
    ∃ t', Steps g t t' ∧ t'.pending = [] := by
  by_cases hp : t.pending = []
  · exact ⟨t, .refl, hp⟩
  obtain ⟨st, rest, hr⟩ := List.exists_cons_of_ne_nil hp
  have hperm : t.pending.Perm (st :: rest) := .of_eq hr
  cases hf : t.isFresh st with
  | false =>
    obtain ⟨t', ht', hend⟩ :=
      exists_end hg { t with pending := rest } (h.skip hperm (isFresh_eq_false.mp hf))
    exact ⟨t', .head (.skip hperm hf) ht', hend⟩
  | true =>
    obtain ⟨t', ht', hend⟩ :=
      exists_end hg (t.expand g st (g.edges.filter (follows st)) rest) (h.expand hperm (.refl _))
    exact ⟨t', .head (.expand hperm hf (.refl _)) ht', hend⟩
termination_by (numFresh g t, t.pending.length)
decreasing_by
  · refine Prod.Lex.right _ ?_
    rw [hr, List.length_cons]
    omega
  · obtain ⟨w, hw, hend⟩ := h.pending st (hr ▸ List.mem_cons_self)
    exact Prod.Lex.left _ _ (numFresh_expand_lt (hend ▸ TaintGraph.endState_mem_states hg hw) hf)

/-! ### The end of a traversal -/

/-- When nothing is pending, every walk was followed. -/
theorem Invariant.covers_endState (h : t.Invariant g s) (hp : t.pending = []) (hw : g.IsWalk s w) :
    t.Covers (endState s w) ∧ ∀ e ∈ w, e ∈ t.followed := by
  have hmem : ∀ {x}, t.Covers x ∨ x ∈ t.pending → t.Covers x := fun hx =>
    hx.resolve_right fun hm => by
      rw [hp] at hm
      cases hm
  induction w using List.reverseRecOn with
  | nil => exact ⟨hmem h.entered, nofun⟩
  | append_singleton w e ih =>
    obtain ⟨hw, he, hf⟩ := TaintGraph.isWalk_concat.mp hw
    obtain ⟨hc, hall⟩ := ih hw
    have hfe : e ∈ t.followed := h.expanded _ hc e he hf
    rw [TaintGraph.endState_concat]
    refine ⟨hmem (h.arrived e hfe), fun d hd => ?_⟩
    rcases List.mem_append.mp hd with hd | hd
    · exact hall d hd
    · rw [List.mem_singleton.mp hd]
      exact hfe

theorem Invariant.mem_followed (h : t.Invariant g s) (hp : t.pending = []) :
    e ∈ t.followed ↔ ∃ w, g.IsWalk s (w ++ [e]) := by
  refine ⟨h.followed e, fun ⟨w, hw⟩ => ?_⟩
  exact (h.covers_endState hp hw).2 e (List.mem_append_right _ List.mem_cons_self)

theorem Invariant.mem_full_or_restricted (h : t.Invariant g s) (hp : t.pending = []) :
    v ∈ t.full ∨ v ∈ t.restricted ↔ ∃ w, g.IsWalk s w ∧ (endState s w).1 = v := by
  constructor
  · rintro (hv | hv)
    · obtain ⟨w, hw, he⟩ := h.full v hv
      exact ⟨w, hw, by rw [he]⟩
    · obtain ⟨w, hw, he⟩ := h.restricted v hv
      exact ⟨w, hw, by rw [he]⟩
  · rintro ⟨w, hw, rfl⟩
    rcases (h.covers_endState hp hw).1 with hv | ⟨-, hv⟩
    · exact Or.inl hv
    · exact Or.inr hv

/-- The process was expanded. -/
def IsTainted (t : Traversal) (p : Process) : Prop :=
  .process p ∈ t.full ∨ .process p ∈ t.restricted

/-- An edge from one process to the other was followed. -/
def Propagates (t : Traversal) (p q : Process) : Prop :=
  ∃ e ∈ t.followed, e.tail = .process p ∧ e.head = .process q

/-- The process is marked as entered from another router. -/
def TaintedByAdjacency (t : Traversal) (p : Process) : Prop := .process p ∈ t.adjacent

end Traversal

/-! ### Exact answers -/

namespace TaintGraph

variable {g : TaintGraph} {net : Network} {l2 : Layer2} {s : Subnet}

/-- What is said about processes agrees with the walks of the graph. -/
structure Exact (g : TaintGraph) (net : Network) (s : Subnet) (isTainted : Process → Prop)
    (propagates : Process → Process → Prop) (taintedByAdjacency : Process → Prop) : Prop where
  isTainted_iff : ∀ p, isTainted p ↔ ∃ w, g.IsWalk s w ∧ (endState s w).1 = .process p
  propagates_iff : ∀ p q, propagates p q ↔
    ∃ w e, g.IsWalk s (w ++ [e]) ∧ e.tail = .process p ∧ e.head = .process q
  taintedByAdjacency_iff : ∀ q, taintedByAdjacency q ↔ ¬ net.Originates q s ∧
    ∃ w e, g.IsWalk s (w ++ [e]) ∧ e.kind.isAdjacency = true ∧ e.head = .process q

theorem exact_of_isFollowed {isTainted : Process → Prop} {propagates : Process → Process → Prop}
    {taintedByAdjacency : Process → Prop} {followed : Spread → Prop} (hn : net.Linked)
    (hg : g.MadeFrom net l2 s)
    (hfollowed : ∀ e, followed e ↔ ∃ w, g.IsWalk s (w ++ [e]))
    (htainted : ∀ p, isTainted p ↔ ∃ w, g.IsWalk s w ∧ (endState s w).1 = .process p)
    (hpropagates : ∀ p q, propagates p q ↔
      ∃ e, followed e ∧ e.tail = .process p ∧ e.head = .process q)
    (hadjacent : ∀ q, taintedByAdjacency q ↔ ∃ e, followed e ∧ e.head = .process q ∧
      e.kind.isAdjacency = true ∧ g.isOrigin (.process q) = false) :
    g.Exact net s isTainted propagates taintedByAdjacency where
  isTainted_iff := htainted
  propagates_iff p q := by
    rw [hpropagates]
    constructor
    · rintro ⟨e, he, hpq⟩
      obtain ⟨w, hw⟩ := (hfollowed e).mp he
      exact ⟨w, e, hw, hpq⟩
    · rintro ⟨w, e, hw, hpq⟩
      exact ⟨e, (hfollowed e).mpr ⟨w, hw⟩, hpq⟩
  taintedByAdjacency_iff q := by
    rw [hadjacent, ← hg.isOrigin_iff hn, Bool.not_eq_true]
    constructor
    · rintro ⟨e, he, hq, ha, ho⟩
      obtain ⟨w, hw⟩ := (hfollowed e).mp he
      exact ⟨ho, w, e, hw, ha, hq⟩
    · rintro ⟨ho, w, e, hw, ha, hq⟩
      exact ⟨e, (hfollowed e).mpr ⟨w, hw⟩, hq, ha, ho⟩

/-- The answers of the taint graph are exact. -/
theorem exact_taint (hn : net.Linked) (hg : g.MadeFrom net l2 s) :
    g.Exact net s (g.taint.isTainted · = true) (g.taint.propagates · · = true)
      (g.taint.taintedByAdjacency · = true) := by
  refine exact_of_isFollowed hn hg (fun e => isFollowed_iff hg.fits)
    (fun p => isReached_iff hg.fits) (fun p q => ?_) fun q => ?_
  · simp only [propagates, List.any_eq_true, Bool.and_eq_true, decide_eq_true_eq]
    constructor
    · rintro ⟨e, he, ⟨hp, hq⟩, hf⟩
      exact ⟨e, ⟨he, hf⟩, hp, hq⟩
    · rintro ⟨e, ⟨he, hf⟩, hp, hq⟩
      exact ⟨e, he, ⟨hp, hq⟩, hf⟩
  · simp only [taintedByAdjacency, reachedByAdjacency, List.any_eq_true, Bool.and_eq_true,
      Bool.not_eq_true', decide_eq_true_eq]
    constructor
    · rintro ⟨ho, e, he, ⟨hq, ha⟩, hf⟩
      exact ⟨e, ⟨he, hf⟩, hq, ha, ho⟩
    · rintro ⟨e, ⟨he, hf⟩, hq, ha, ho⟩
      exact ⟨ho, e, he, ⟨hq, ha⟩, hf⟩

/-- The marks at the end of a traversal are exact. -/
theorem exact_traversal (hn : net.Linked) (hg : g.MadeFrom net l2 s) {t : Traversal}
    (ht : Traversal.Steps g (.start s) t) (hp : t.pending = []) :
    g.Exact net s t.IsTainted t.Propagates t.TaintedByAdjacency := by
  have h := Traversal.invariant_start.steps ht
  exact exact_of_isFollowed hn hg (fun e => h.mem_followed hp)
    (fun p => h.mem_full_or_restricted hp) (fun p q => Iff.rfl) fun q => h.adjacent _

/-- **Taint is reachability by walks**, for the graph of a linked network, whatever the order in
which its nodes and edges are added. A traversal that looks at them in any order can be brought to
its end, and then agrees. -/
theorem taint_exact {c : NetworkConfig} (h : c.link = .ok net) (l2 : Layer2) (s : Subnet) :
    (ofNetwork net l2 (some s)).MadeFrom net l2 s ∧
    ∀ g : TaintGraph, g.MadeFrom net l2 s →
      g.Exact net s (g.taint.isTainted · = true) (g.taint.propagates · · = true)
        (g.taint.taintedByAdjacency · = true) ∧
      ∀ t, Traversal.Steps g (.start s) t →
        (∃ t', Traversal.Steps g t t' ∧ t'.pending = []) ∧
        (t.pending = [] → g.Exact net s t.IsTainted t.Propagates t.TaintedByAdjacency) := by
  have hn := NetworkConfig.linked_of_link h
  refine ⟨ofNetwork_madeFrom net l2 s, fun g hg => ⟨exact_taint hn hg, fun t ht => ⟨?_, ?_⟩⟩⟩
  · exact Traversal.exists_end hg.fits t (Traversal.invariant_start.steps ht)
  · exact exact_traversal hn hg ht

/-- The taint graph of `t` in the iBGP mesh. -/
def ibgpMeshTaint : TaintGraph :=
  ofNetwork Example.ibgpMeshConfig.assemble (.ofNetwork Example.ibgpMeshConfig.assemble) (some "t")

/-- In the iBGP mesh a walk leads to the third router, but none to the one behind it. -/
theorem taint_exact_ibgpMesh :
    Example.ibgpMeshConfig.link = .ok Example.ibgpMeshConfig.assemble ∧
    (∃ w, ibgpMeshTaint.IsWalk "t" w ∧ (endState "t" w).1 = .process ⟨.bgp, 3⟩) ∧
    ¬ ∃ w, ibgpMeshTaint.IsWalk "t" w ∧ (endState "t" w).1 = .process ⟨.bgp, 4⟩ := by
  have hlink : Example.ibgpMeshConfig.link = .ok Example.ibgpMeshConfig.assemble := rfl
  obtain ⟨hmade, hexact⟩ := taint_exact hlink (.ofNetwork Example.ibgpMeshConfig.assemble) "t"
  have htainted := (hexact ibgpMeshTaint hmade).1.isTainted_iff
  refine ⟨hlink, (htainted ⟨.bgp, 3⟩).mp ?_, fun h => ?_⟩
  · decide +kernel
  · have hno : ibgpMeshTaint.taint.isTainted ⟨.bgp, 4⟩ = false := by decide +kernel
    rw [(htainted ⟨.bgp, 4⟩).mpr h] at hno
    cases hno

end TaintGraph

end NetReach
