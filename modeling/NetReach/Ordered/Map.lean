import NetReach.Ordered.Set

/-! # Maps in ascending order of their keys

A map is kept as the list of its entries in strictly ascending order of the keys, so two maps with
the same look-ups are the same value, whatever the order in which the entries were put in.

* `OrdMap.get?_put`, `OrdMap.get?_erase`, `OrdMap.get?_filter`: what each operation does to the
  look-ups.
* `OrdMap.mem_entries`: the entries are exactly the look-ups that succeed. `OrdMap.ext`: two maps
  with the same look-ups are equal. -/

namespace NetReach

variable {κ ν : Type} [Ord κ]

/-- The keys of the entries are strictly ascending. -/
abbrev AscendingKeys (l : List (κ × ν)) : Prop := l.Pairwise fun a b => compare a.1 b.1 = .lt

namespace AscendingKeys

/-- Enter the value `v` under the key `k`, in place of what was there. -/
def put (k : κ) (v : ν) : List (κ × ν) → List (κ × ν)
  | [] => [(k, v)]
  | e :: l =>
    match compare k e.1 with
    | .lt => (k, v) :: e :: l
    | .eq => (k, v) :: l
    | .gt => e :: put k v l

theorem mem_keys_put [Std.LawfulEqOrd κ] {k x : κ} {v : ν} {l : List (κ × ν)} :
    x ∈ (put k v l).map (·.1) ↔ x = k ∨ x ∈ l.map (·.1) := by
  induction l with
  | nil => simp [put]
  | cons e l ih =>
    unfold put
    split
    · simp
    · next h =>
      have := Std.LawfulEqOrd.eq_of_compare h
      simp [this]
    · simp only [List.map_cons, List.mem_cons, ih]
      constructor
      · rintro (h | h | h) <;> simp [h]
      · rintro (h | h | h) <;> simp [h]

theorem put_map {ω : Type} (f : ν → ω) {k : κ} {v : ν} {l : List (κ × ν)} :
    put k (f v) (l.map fun e => (e.1, f e.2)) = (put k v l).map fun e => (e.1, f e.2) := by
  induction l with
  | nil => rfl
  | cons e l ih =>
    rw [List.map_cons, put, put]
    cases compare k e.1 with
    | lt => rfl
    | eq => rfl
    | gt => simp only [ih, List.map_cons]

theorem pairwise_put [Std.TransOrd κ] [Std.LawfulEqOrd κ] {k : κ} {v : ν} {l : List (κ × ν)}
    (h : AscendingKeys l) : AscendingKeys (put k v l) := by
  induction l with
  | nil => exact List.pairwise_singleton _ _
  | cons e l ih =>
    obtain ⟨he, hl⟩ := List.pairwise_cons.mp h
    unfold put
    split
    · next hk =>
      refine List.pairwise_cons.mpr ⟨fun x hx => ?_, h⟩
      rcases List.mem_cons.mp hx with rfl | hx
      · exact hk
      · exact Std.TransCmp.lt_trans hk (he x hx)
    · next hk =>
      have := Std.LawfulEqOrd.eq_of_compare hk
      subst this
      exact List.pairwise_cons.mpr ⟨fun x hx => he x hx, hl⟩
    · next hk =>
      refine List.pairwise_cons.mpr ⟨fun x hx => ?_, ih hl⟩
      have hx' : x.1 ∈ (put k v l).map (·.1) := List.mem_map_of_mem hx
      rcases mem_keys_put.mp hx' with hx' | hx'
      · rw [hx']; exact Std.OrientedCmp.gt_iff_lt.mp hk
      · obtain ⟨y, hy, hyx⟩ := List.mem_map.mp hx'
        rw [← hyx]; exact he y hy

end AscendingKeys

/-- A map, kept as the list of its entries in strictly ascending order of the keys. -/
structure OrdMap (κ ν : Type) [Ord κ] where
  /-- The entries in ascending order of the keys. -/
  entries : List (κ × ν)
  ascending : AscendingKeys entries
deriving DecidableEq

namespace OrdMap

/-- The map without entries. -/
def empty : OrdMap κ ν := ⟨[], List.Pairwise.nil⟩

instance : EmptyCollection (OrdMap κ ν) := ⟨empty⟩
instance : Inhabited (OrdMap κ ν) := ⟨empty⟩

/-- The keys in ascending order. -/
def keys (m : OrdMap κ ν) : List κ := m.entries.map (·.1)

/-- The values in ascending order of their keys. -/
def values (m : OrdMap κ ν) : List ν := m.entries.map (·.2)

/-- The number of entries. -/
def size (m : OrdMap κ ν) : Nat := m.entries.length

/-- The value under the key `k`. -/
@[specialize]
def get? [DecidableEq κ] (m : OrdMap κ ν) (k : κ) : Option ν :=
  (m.entries.find? (·.1 = k)).map (·.2)

/-- Some value is entered under the key `k`. -/
def contains [DecidableEq κ] (m : OrdMap κ ν) (k : κ) : Bool := (m.get? k).isSome

/-- The entries that satisfy `p`. -/
def filter (p : κ → ν → Bool) (m : OrdMap κ ν) : OrdMap κ ν :=
  ⟨m.entries.filter fun e => p e.1 e.2, m.ascending.filter _⟩

/-- The map without the entry of `k`. -/
def erase [DecidableEq κ] (m : OrdMap κ ν) (k : κ) : OrdMap κ ν := m.filter fun x _ => x ≠ k

section Lawful

variable [Std.TransOrd κ] [Std.LawfulEqOrd κ]

/-- Enter the value `v` under the key `k`, in place of what was there. -/
def put (m : OrdMap κ ν) (k : κ) (v : ν) : OrdMap κ ν :=
  ⟨AscendingKeys.put k v m.entries, AscendingKeys.pairwise_put m.ascending⟩

/-- Enter the entries of a list one after the other; of two with one key the last remains. -/
def ofList (l : List (κ × ν)) : OrdMap κ ν := l.foldl (fun m e => m.put e.1 e.2) ∅

end Lawful

/-! ### Look-ups -/

section LookUp

variable [DecidableEq κ]

@[simp] theorem get?_empty {k : κ} : (∅ : OrdMap κ ν).get? k = none := rfl

/-- **The entries are exactly the look-ups that succeed.** -/
theorem mem_entries [Std.TransOrd κ] {m : OrdMap κ ν} {k : κ} {v : ν} :
    (k, v) ∈ m.entries ↔ m.get? k = some v := by
  obtain ⟨l, hl⟩ := m
  change (k, v) ∈ l ↔ (l.find? (·.1 = k)).map (·.2) = some v
  induction l with
  | nil => simp
  | cons e l ih =>
    obtain ⟨he, hl⟩ := List.pairwise_cons.mp hl
    by_cases hk : e.1 = k
    · simp only [List.mem_cons, List.find?_cons, hk, decide_true, Option.map_some,
        Option.some.injEq]
      constructor
      · rintro (h | h)
        · rw [← h]
        · have := he _ h
          simp only [hk, Std.ReflCmp.compare_self] at this
          cases this
      · rintro rfl
        exact Or.inl (by rw [← hk])
    · simp only [List.mem_cons, List.find?_cons, hk, decide_false, ih hl]
      constructor
      · rintro (h | h)
        · exact absurd (by rw [← h]) hk
        · exact h
      · exact Or.inr

omit [DecidableEq κ] in
theorem nodup_entries [Std.TransOrd κ] (m : OrdMap κ ν) : m.entries.Nodup := by
  refine m.ascending.imp fun hlt heq => ?_
  rw [heq, Std.compare_self] at hlt
  cases hlt

theorem contains_iff_mem_keys {m : OrdMap κ ν} {k : κ} : m.contains k = true ↔ k ∈ m.keys := by
  simp only [contains, get?, keys, Option.isSome_map, List.find?_isSome, decide_eq_true_eq,
    List.mem_map]

theorem get?_filter [Std.TransOrd κ] {m : OrdMap κ ν} {p : κ → ν → Bool} {k : κ} :
    (m.filter p).get? k = (m.get? k).filter (p k) := by
  apply Option.ext
  intro v
  rw [← mem_entries, Option.filter_eq_some_iff, ← mem_entries]
  simp [filter]

@[simp] theorem get?_erase [Std.TransOrd κ] {m : OrdMap κ ν} {k x : κ} :
    (m.erase k).get? x = if x = k then none else m.get? x := by
  rw [erase, get?_filter]
  by_cases h : x = k
  · cases m.get? x <;> simp [h]
  · cases m.get? x <;> simp [h]

@[simp] theorem get?_put [Std.TransOrd κ] [Std.LawfulEqOrd κ] {m : OrdMap κ ν} {k x : κ} {v : ν} :
    (m.put k v).get? x = if x = k then some v else m.get? x := by
  obtain ⟨l, hl⟩ := m
  change ((AscendingKeys.put k v l).find? (·.1 = x)).map (·.2) =
    if x = k then some v else (l.find? (·.1 = x)).map (·.2)
  induction l with
  | nil => by_cases h : x = k <;> simp [AscendingKeys.put, h, eq_comm]
  | cons e l ih =>
    unfold AscendingKeys.put
    split
    · by_cases h : x = k <;> simp [List.find?_cons, h, eq_comm]
    · next hk =>
      have := Std.LawfulEqOrd.eq_of_compare hk
      by_cases h : x = k
      · simp [h]
      · simp [← this, Ne.symm h, h]
    · next hk =>
      have hne : e.1 ≠ k := fun h => by
        rw [h, Std.compare_self] at hk; cases hk
      simp only [List.find?_cons]
      by_cases h : e.1 = x
      · simp [h, h ▸ hne]
      · simp only [h, decide_false]
        exact ih (List.pairwise_cons.mp hl).2

theorem mem_values [Std.TransOrd κ] {m : OrdMap κ ν} {v : ν} :
    v ∈ m.values ↔ ∃ k, m.get? k = some v := by
  simp only [values, List.mem_map, Prod.exists, exists_eq_right, mem_entries]

section OfList

variable [Std.TransOrd κ] [Std.LawfulEqOrd κ] {k : κ} {v : ν}

theorem get?_foldl_put {l : List (κ × ν)} {m : OrdMap κ ν} (hk : k ∉ l.map (·.1)) :
    (l.foldl (fun m e => m.put e.1 e.2) m).get? k = m.get? k := by
  induction l generalizing m with
  | nil => rfl
  | cons e l ih =>
    obtain ⟨he, hl⟩ := not_or.mp (mt List.mem_cons.mpr hk)
    rw [List.foldl_cons, ih hl, get?_put, if_neg he]

theorem mem_of_get?_foldl_put {l : List (κ × ν)} {m : OrdMap κ ν}
    (h : (l.foldl (fun m e => m.put e.1 e.2) m).get? k = some v) :
    (k, v) ∈ l ∨ m.get? k = some v := by
  induction l generalizing m with
  | nil => exact Or.inr h
  | cons e l ih =>
    rcases ih h with hl | hm
    · exact Or.inl (List.mem_cons_of_mem _ hl)
    · rw [get?_put] at hm
      split at hm
      · next hk =>
        cases hm
        exact Or.inl (by rw [hk]; exact List.mem_cons_self)
      · exact Or.inr hm

theorem mem_of_get?_ofList {l : List (κ × ν)} (h : (ofList l).get? k = some v) : (k, v) ∈ l :=
  (mem_of_get?_foldl_put h).resolve_right nofun

/-- If no key comes twice, every entry of the list is kept. -/
theorem get?_ofList {l : List (κ × ν)} (hl : (l.map (·.1)).Nodup) :
    (ofList l).get? k = some v ↔ (k, v) ∈ l := by
  refine ⟨mem_of_get?_ofList, fun h => ?_⟩
  unfold ofList
  generalize (∅ : OrdMap κ ν) = m
  induction l generalizing m with
  | nil => cases h
  | cons e l ih =>
    obtain ⟨he, hl⟩ := List.nodup_cons.mp hl
    rcases List.mem_cons.mp h with rfl | h
    · rw [List.foldl_cons, get?_foldl_put he, get?_put, if_pos rfl]
    · exact ih hl h _

/-- The values may be computed from the keys. -/
theorem get?_ofList_map {l : List κ} {f : κ → ν} :
    (ofList (l.map fun x => (x, f x))).get? k = if k ∈ l then some (f k) else none := by
  have hfold : ∀ m : OrdMap κ ν,
      ((l.map fun x => (x, f x)).foldl (fun m e => m.put e.1 e.2) m).get? k =
      if k ∈ l then some (f k) else m.get? k := by
    induction l with
    | nil => intro m; rfl
    | cons x l ih =>
      intro m
      rw [List.map_cons, List.foldl_cons, ih, get?_put]
      by_cases hl : k ∈ l
      · rw [if_pos hl, if_pos (List.mem_cons_of_mem _ hl)]
      · rw [if_neg hl]
        by_cases hx : k = x
        · rw [if_pos hx, if_pos (hx ▸ List.mem_cons_self), hx]
        · rw [if_neg hx, if_neg (fun hm => (List.mem_cons.mp hm).elim hx hl)]
  exact hfold ∅

omit [DecidableEq κ] in
/-- Values may be changed before or after they are entered. -/
theorem values_ofList_map {ω : Type} (f : ν → ω) (l : List (κ × ν)) :
    (ofList (l.map fun e => (e.1, f e.2))).values = (ofList l).values.map f := by
  have hfold : ∀ (l : List (κ × ν)) (m : OrdMap κ ν) (n : OrdMap κ ω),
      n.entries = m.entries.map (fun e => (e.1, f e.2)) →
      ((l.map fun e => (e.1, f e.2)).foldl (fun m e => m.put e.1 e.2) n).entries =
        (l.foldl (fun m e => m.put e.1 e.2) m).entries.map fun e => (e.1, f e.2) := by
    intro l
    induction l with
    | nil => exact fun m n h => h
    | cons e l ih =>
      intro m n h
      refine ih (m.put e.1 e.2) (n.put e.1 (f e.2)) ?_
      change AscendingKeys.put e.1 (f e.2) n.entries = _
      rw [h]
      exact AscendingKeys.put_map f
  rw [values, values, ofList, hfold l ∅ ∅ rfl, List.map_map, List.map_map]
  rfl

end OfList

/-- **Two maps with the same look-ups are equal.** -/
theorem ext [Std.TransOrd κ] {m n : OrdMap κ ν} (h : ∀ k, m.get? k = n.get? k) : m = n := by
  have hmem : ∀ e, e ∈ m.entries ↔ e ∈ n.entries := fun e => by rw [mem_entries, mem_entries, h]
  obtain ⟨l, hl⟩ := m
  obtain ⟨l', hl'⟩ := n
  suffices l = l' by subst this; rfl
  refine eq_of_pairwise (fun a ha => ?_) Std.TransCmp.lt_trans hl hl' hmem
  rw [Std.compare_self] at ha
  cases ha

/-- A map is made up of its entries. -/
theorem ofList_entries [Std.TransOrd κ] [Std.LawfulEqOrd κ] (m : OrdMap κ ν) :
    ofList m.entries = m := by
  have hkeys : (m.entries.map (·.1)).Nodup := List.pairwise_map.mpr <|
    m.ascending.imp fun hlt heq => by
      rw [heq, Std.compare_self] at hlt
      cases hlt
  refine ext fun k => Option.ext fun v => ?_
  rw [get?_ofList hkeys, mem_entries]

end LookUp

end OrdMap

end NetReach
