import NetReach.PathGraph.Routing

/-! # The order of preference among routes

At a vertex any two routes over different paths rank strictly: signatures come first, then the
number of vertices, then the vertices themselves. `Route.Preferred` spells this out.

* `Route.compare_eq_gt_iff`: the comparison of routes decides `Route.Preferred`.
* `Route.best?_eq_some`: the fold over the candidates ends with one that none of them beats. -/

namespace NetReach

namespace Signature

instance (d : RankDomain) : Std.TransCmp (Signature.compare d) := by
  cases d with
  | igp =>
    exact inferInstanceAs (Std.TransCmp (compareLex (fun a b : Signature => compareOn cost b a)
      fun a b => compareOn len b a))
  | bgp =>
    exact inferInstanceAs (Std.TransCmp (compareLex (compareOn localPref)
      (compareLex (fun a b => compareOn len b a) fun a b => compareOn cost b a)))
  | neutral =>
    exact inferInstanceAs (Std.TransCmp (compareLex (fun a b : Signature => compareOn cost b a)
      (compareLex (fun a b => compareOn len b a) (compareOn localPref))))

end Signature

namespace Route

variable {d : RankDomain} {a b r : Route} {l : List Route}

/-- The signatures of two routes, compared in a decision process. -/
def compareSignature (d : RankDomain) (a b : Route) : Ordering :=
  Signature.compare d a.signature b.signature

instance (d : RankDomain) : Std.TransCmp (compareSignature d) where
  eq_swap := (inferInstance : Std.OrientedCmp (Signature.compare d)).eq_swap
  isLE_trans := (inferInstance : Std.TransCmp (Signature.compare d)).isLE_trans

instance (d : RankDomain) : Std.TransCmp (Route.compare d) :=
  inferInstanceAs (Std.TransCmp (compareLex (compareSignature d)
    (compareLex (fun a b => compareOn (·.path.length) b a) fun a b => compareOn path b a)))

/-- The route `a` is preferred to `b`: its signature ranks higher; or the signatures rank the same
and `a` has fewer vertices, or as many and its vertices come first. -/
def Preferred (d : RankDomain) (a b : Route) : Prop :=
  Signature.compare d a.signature b.signature = .gt ∨
    Signature.compare d a.signature b.signature = .eq ∧
      (a.path.length < b.path.length ∨
        a.path.length = b.path.length ∧ Ord.compare a.path b.path = .lt)

theorem compare_eq_gt_iff : Route.compare d a b = .gt ↔ Preferred d a b := by
  have hlen : Ord.compare b.path.length a.path.length = .gt ↔ a.path.length < b.path.length := by
    rw [Nat.compare_eq_gt]
  have hlen' : Ord.compare b.path.length a.path.length = .eq ↔ a.path.length = b.path.length := by
    rw [Nat.compare_eq_eq, eq_comm]
  have hpath : Ord.compare b.path a.path = .gt ↔ Ord.compare a.path b.path = .lt :=
    Std.OrientedCmp.gt_iff_lt
  simp only [Route.compare, Preferred, Ordering.then_eq_gt, hlen, hlen', hpath]

/-- Only routes over the same path rank the same. -/
theorem path_eq_of_compare_eq (h : Route.compare d a b = .eq) : a.path = b.path := by
  simp only [Route.compare, Ordering.then_eq_eq] at h
  exact (Std.LawfulEqOrd.eq_of_compare h.2.2).symm

theorem preferred_of_path_ne (hne : a.path ≠ b.path) (h : Route.compare d b a ≠ .gt) :
    Preferred d a b := by
  rw [← compare_eq_gt_iff, Std.OrientedCmp.gt_iff_lt]
  cases hc : Route.compare d b a with
  | lt => rfl
  | eq => exact absurd (path_eq_of_compare_eq hc).symm hne
  | gt => exact absurd hc h

theorem compare_self_ne_gt : Route.compare d a a ≠ .gt := by
  rw [(inferInstance : Std.ReflCmp (Route.compare d)).compare_self]
  exact nofun

theorem Preferred.asymm (h : Preferred d a b) : ¬ Preferred d b a := by
  rw [← compare_eq_gt_iff] at h ⊢
  exact Std.OrientedCmp.not_gt_of_gt h

/-- One of the two routes is kept, and neither beats it. -/
theorem better_spec (d : RankDomain) (a b : Route) :
    (better d a b = a ∨ better d a b = b) ∧
      Route.compare d a (better d a b) ≠ .gt ∧ Route.compare d b (better d a b) ≠ .gt := by
  unfold better
  split
  · next h =>
    exact ⟨Or.inr rfl, Std.OrientedCmp.not_gt_of_gt h, compare_self_ne_gt⟩
  · next h =>
    exact ⟨Or.inl rfl, compare_self_ne_gt, h⟩

theorem not_gt_trans {a b c : Route} (hab : Route.compare d a b ≠ .gt)
    (hbc : Route.compare d b c ≠ .gt) : Route.compare d a c ≠ .gt := by
  refine Ordering.isLE_iff_ne_gt.mp ?_
  exact Std.TransCmp.isLE_trans (Ordering.isLE_iff_ne_gt.mpr hab) (Ordering.isLE_iff_ne_gt.mpr hbc)

theorem foldl_better (l : List Route) : ∀ a : Route,
    (l.foldl (better d) a = a ∨ l.foldl (better d) a ∈ l) ∧
      Route.compare d a (l.foldl (better d) a) ≠ .gt ∧
      ∀ r ∈ l, Route.compare d r (l.foldl (better d) a) ≠ .gt := by
  induction l with
  | nil =>
    intro a
    exact ⟨Or.inl rfl, compare_self_ne_gt, by simp⟩
  | cons b l ih =>
    intro a
    obtain ⟨hor, ha, hb⟩ := better_spec d a b
    obtain ⟨hmem, hle, hall⟩ := ih (better d a b)
    rw [List.foldl_cons]
    refine ⟨?_, not_gt_trans ha hle, fun r hr => ?_⟩
    · rcases hmem with hmem | hmem
      · rw [hmem]
        rcases hor with hor | hor <;> simp [hor]
      · exact Or.inr (List.mem_cons_of_mem _ hmem)
    · rcases List.mem_cons.mp hr with rfl | hr
      · exact not_gt_trans hb hle
      · exact hall r hr

theorem best?_eq_none : best? d l = none ↔ l = [] := by
  cases l <;> simp [best?]

/-- **The best of a list is in it, and no other beats it.** -/
theorem best?_eq_some (h : best? d l = some r) :
    r ∈ l ∧ ∀ x ∈ l, Route.compare d x r ≠ .gt := by
  cases l with
  | nil => cases h
  | cons a l =>
    obtain rfl : l.foldl (better d) a = r := Option.some.inj h
    obtain ⟨hmem, hle, hall⟩ := foldl_better (d := d) l a
    refine ⟨?_, fun x hx => ?_⟩
    · rcases hmem with hmem | hmem
      · rw [hmem]; exact List.mem_cons_self
      · exact List.mem_cons_of_mem _ hmem
    · rcases List.mem_cons.mp hx with rfl | hx
      · exact hle
      · exact hall x hx

end Route

end NetReach
