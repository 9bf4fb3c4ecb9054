import Mathlib.Algebra.GroupWithZero.Nat
import Mathlib.Data.List.Induction
import NetReach.Policy

/-! # What a chain of policies adds up to

A chain of policies has a closed form, which does not go through the policies one after the other.
The last policy that gives or takes a tag decides whether a route carries it (`CarriesAfter`). The
chain drops a route if the tags after one of its policies meet those that this policy blocks
(`Blocks`, `applyAll_eq_none_iff`). If it lets the route pass, costs and lengths are added up to the
largest word, and the local preference that was set last is left (`AddsUp`, `addsUp_of_applyAll`).

All inductions are on the last policy of the chain: what is true of the policies before it does not
depend on it. -/

namespace NetReach

variable {p : Policy} {ps : List Policy} {s σ τ : Signature} {tags : OrdSet String} {t : String}

/-! ### One policy -/

namespace Policy

/-- The policy gives the tag `t` to a route, or takes it. -/
def mentions (p : Policy) (t : String) : Bool := decide (t ∈ p.addTags ∨ t ∈ p.removeTags)

theorem mem_tagsAfter :
    t ∈ p.tagsAfter tags ↔ (t ∈ tags ∨ t ∈ p.addTags) ∧ t ∉ p.removeTags := by
  rw [tagsAfter, OrdSet.mem_filter, OrdSet.mem_union, decide_eq_true_eq]

/-- A policy drops the routes that carry a blocked tag after it. -/
theorem apply_eq_none_iff : p.apply s = none ↔ ∃ t ∈ p.blockTags, t ∈ p.tagsAfter s.tags := by
  simp only [apply, ite_eq_left_iff, reduceCtorEq, imp_false, not_not, List.any_eq_true,
    decide_eq_true_eq, OrdSet.mem_toList]
  exact exists_congr fun t => and_comm

/-- What a policy does to a route that it lets pass. -/
theorem eq_of_apply_eq_some (h : p.apply s = some σ) :
    σ = ⟨p.localPref.getD s.localPref, capAdd s.len p.len, capAdd s.cost p.cost,
      p.tagsAfter s.tags⟩ := by
  simp only [apply, Option.ite_none_left_eq_some, Option.some.injEq] at h
  exact h.2.symm

end Policy

/-! ### Tags along a chain -/

/-- A route that sets out with `tags` carries `t` after the policies `ps`: the last of them that
mentions `t` does not take it, or none mentions it and the route set out with it. -/
def CarriesAfter (ps : List Policy) (tags : OrdSet String) (t : String) : Prop :=
  match (ps.filter (·.mentions t)).getLast? with
  | some p => t ∉ p.removeTags
  | none => t ∈ tags

/-- The tags of a route that set out with `tags`, after some front of the policies `ps`, meet those
that the last policy of this front blocks. -/
def Blocks (ps : List Policy) (tags : OrdSet String) : Prop :=
  ∃ qs p, qs ++ [p] <+: ps ∧ ∃ t ∈ p.blockTags, CarriesAfter (qs ++ [p]) tags t

/-- **One more policy gives its tags to those carried so far, and then takes its others.** -/
theorem carriesAfter_concat :
    CarriesAfter (ps ++ [p]) tags t ↔
      (CarriesAfter ps tags t ∨ t ∈ p.addTags) ∧ t ∉ p.removeTags := by
  unfold CarriesAfter
  rw [List.filter_append]
  cases hp : p.mentions t with
  | true =>
    have hfilter : [p].filter (·.mentions t) = [p] := by simp [hp]
    rw [hfilter, List.getLast?_concat]
    have hp : t ∈ p.addTags ∨ t ∈ p.removeTags := of_decide_eq_true hp
    constructor
    · intro ht
      exact ⟨Or.inr (hp.resolve_right ht), ht⟩
    · exact And.right
  | false =>
    have hfilter : [p].filter (·.mentions t) = [] := by simp [hp]
    rw [hfilter, List.append_nil]
    obtain ⟨hadd, hremove⟩ := not_or.mp (of_decide_eq_false hp)
    rw [or_iff_left hadd, and_iff_left hremove]

theorem not_blocks_nil : ¬ Blocks [] tags := by
  rintro ⟨qs, p, hp, -⟩
  exact List.append_ne_nil_of_right_ne_nil qs (List.cons_ne_nil p []) (List.prefix_nil.mp hp)

theorem blocks_concat :
    Blocks (ps ++ [p]) tags ↔
      Blocks ps tags ∨ ∃ t ∈ p.blockTags, CarriesAfter (ps ++ [p]) tags t := by
  constructor
  · rintro ⟨qs, q, hq, ht⟩
    rcases List.prefix_concat_iff.mp hq with hq | hq
    · obtain ⟨rfl, hpq⟩ := List.append_inj' hq rfl
      cases hpq
      exact Or.inr ht
    · exact Or.inl ⟨qs, q, hq, ht⟩
  · rintro (⟨qs, q, hq, ht⟩ | ht)
    · exact ⟨qs, q, hq.trans (List.prefix_append ps [p]), ht⟩
    · exact ⟨ps, p, List.prefix_rfl, ht⟩

/-! ### What is added up -/

/-- The signature `σ` adds up what the policies `ps` do to a route with the signature `s`. -/
structure AddsUp (ps : List Policy) (s σ : Signature) : Prop where
  cost : σ.cost.toNat = min (s.cost.toNat + (ps.map (·.cost.toNat)).sum) (UInt32.size - 1)
  len : σ.len.toNat = min (s.len.toNat + (ps.map (·.len.toNat)).sum) (UInt32.size - 1)
  /-- The last policy that sets a local preference decides. -/
  localPref : σ.localPref = (ps.filterMap (·.localPref)).getLast?.getD s.localPref
  tags : ∀ t, t ∈ σ.tags ↔ CarriesAfter ps s.tags t

namespace AddsUp

theorem nil (s : Signature) : AddsUp [] s s := by
  have hcost := s.cost.toNat_lt_size
  have hlen := s.len.toNat_lt_size
  refine ⟨?_, ?_, rfl, fun _ => Iff.rfl⟩
  · rw [List.map_nil, List.sum_nil]
    omega
  · rw [List.map_nil, List.sum_nil]
    omega

theorem concat (h : AddsUp ps s σ) (hp : p.apply σ = some τ) : AddsUp (ps ++ [p]) s τ := by
  obtain rfl := Policy.eq_of_apply_eq_some hp
  have hsum : ∀ weight : Policy → Nat,
      ((ps ++ [p]).map weight).sum = (ps.map weight).sum + weight p := by simp
  constructor
  case cost =>
    rw [toNat_capAdd, h.cost, hsum]
    omega
  case len =>
    rw [toNat_capAdd, h.len, hsum]
    omega
  case localPref =>
    rw [List.filterMap_append, h.localPref]
    cases hpref : p.localPref <;> simp [hpref]
  case tags =>
    intro t
    rw [Policy.mem_tagsAfter, h.tags, carriesAfter_concat]

/-- Only one signature adds it up. -/
theorem unique (h : AddsUp ps s σ) (h' : AddsUp ps s τ) : σ = τ := by
  have hcost : σ.cost = τ.cost := UInt32.toNat_inj.mp (h.cost.trans h'.cost.symm)
  have hlen : σ.len = τ.len := UInt32.toNat_inj.mp (h.len.trans h'.len.symm)
  have hpref : σ.localPref = τ.localPref := h.localPref.trans h'.localPref.symm
  have htags : σ.tags = τ.tags := OrdSet.ext fun t => (h.tags t).trans (h'.tags t).symm
  cases σ
  cases τ
  cases hcost
  cases hlen
  cases hpref
  cases htags
  rfl

end AddsUp

/-! ### The chain -/

theorem applyAll_concat : applyAll (ps ++ [p]) s = (applyAll ps s).bind p.apply := by
  rw [applyAll, List.foldlM_append]
  simp only [List.foldlM_cons, List.foldlM_nil, bind_pure]
  rfl

/-- **A route that passes a chain of policies adds them up.** -/
theorem addsUp_of_applyAll (h : applyAll ps s = some σ) : AddsUp ps s σ := by
  induction ps using List.reverseRecOn generalizing σ with
  | nil =>
    cases h
    exact .nil s
  | append_singleton ps p ih =>
    rw [applyAll_concat, Option.bind_eq_some_iff] at h
    obtain ⟨ρ, hρ, hp⟩ := h
    exact (ih hρ).concat hp

/-- **A chain of policies drops exactly the routes that it blocks.** -/
theorem applyAll_eq_none_iff : applyAll ps s = none ↔ Blocks ps s.tags := by
  induction ps using List.reverseRecOn with
  | nil => exact iff_of_false (nofun) not_blocks_nil
  | append_singleton ps p ih =>
    rw [applyAll_concat, blocks_concat, ← ih]
    cases hρ : applyAll ps s with
    | none => exact iff_of_true rfl (Or.inl rfl)
    | some ρ =>
      have htags := (addsUp_of_applyAll hρ).tags
      simp only [Option.bind_some, Policy.apply_eq_none_iff, Policy.mem_tagsAfter, htags,
        carriesAfter_concat, reduceCtorEq, false_or]

/-- Where nothing is blocked, every route passes. -/
theorem exists_applyAll_eq_some (h : ∀ p ∈ ps, p.blockTags = ∅) : ∃ σ, applyAll ps s = some σ := by
  refine Option.ne_none_iff_exists'.mp fun hdrop => ?_
  obtain ⟨qs, p, hp, t, ht, -⟩ := applyAll_eq_none_iff.mp hdrop
  rw [h p (hp.mem List.mem_concat_self)] at ht
  exact OrdSet.not_mem_empty ht

/-- **The closed form of a chain of policies**: it drops the routes that it blocks, and turns any
other into the one that adds up what its policies do. -/
theorem applyAll_closedForm (ps : List Policy) (s : Signature) :
    (applyAll ps s = none ↔ Blocks ps s.tags) ∧
      ∀ σ, applyAll ps s = some σ ↔ ¬ Blocks ps s.tags ∧ AddsUp ps s σ := by
  refine ⟨applyAll_eq_none_iff, fun σ => ?_⟩
  rw [← applyAll_eq_none_iff]
  constructor
  · intro hσ
    rw [hσ]
    exact ⟨nofun, addsUp_of_applyAll hσ⟩
  · rintro ⟨hpasses, hσ⟩
    obtain ⟨τ, hτ⟩ := Option.ne_none_iff_exists'.mp hpasses
    rw [hτ, (addsUp_of_applyAll hτ).unique hσ]

/-- A tag that is taken in time blocks nothing, and the cost stops at the largest word. -/
example :
    applyAll [(Policy.ofCost 4294967295).addTag "x", ((Policy.ofCost 1).removeTag "x").blockTag "x"]
      .origin = some ⟨100, 0, 4294967295, ∅⟩ := by
  decide +kernel

end NetReach
