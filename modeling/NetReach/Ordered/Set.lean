/-! # Sets in ascending order

A set is kept as its strictly ascending list of members, so two sets with the same members are the
same value (`OrdSet.ext`), whatever the order in which the members were inserted.

* `OrdSet.mem_insert`, `OrdSet.mem_erase`, `OrdSet.mem_union`, `OrdSet.mem_ofList`: what each
  operation does to the members. -/

namespace NetReach

/-- Two lists that are ascending in a strict order and have the same members are equal. -/
theorem eq_of_pairwise {α : Type} {r : α → α → Prop} (irrefl : ∀ a, ¬ r a a)
    (trans : ∀ {a b c}, r a b → r b c → r a c) {l m : List α} (hl : l.Pairwise r)
    (hm : m.Pairwise r) (h : ∀ x, x ∈ l ↔ x ∈ m) : l = m := by
  induction l generalizing m with
  | nil => exact (List.eq_nil_iff_forall_not_mem.mpr fun x hx => by simpa using (h x).mpr hx).symm
  | cons a l ih =>
    cases m with
    | nil => simpa using (h a).mp List.mem_cons_self
    | cons b m =>
      obtain ⟨ha, hl'⟩ := List.pairwise_cons.mp hl
      obtain ⟨hb, hm'⟩ := List.pairwise_cons.mp hm
      have hab : a = b := by
        rcases List.mem_cons.mp ((h a).mp List.mem_cons_self) with hab | hab
        · exact hab
        rcases List.mem_cons.mp ((h b).mpr List.mem_cons_self) with hba | hba
        · exact hba.symm
        exact absurd (trans (ha b hba) (hb a hab)) (irrefl a)
      subst hab
      congr 1
      refine ih hl' hm' fun x => ⟨fun hx => ?_, fun hx => ?_⟩
      · rcases List.mem_cons.mp ((h x).mp (List.mem_cons_of_mem _ hx)) with rfl | hx'
        · exact absurd (ha x hx) (irrefl x)
        · exact hx'
      · rcases List.mem_cons.mp ((h x).mpr (List.mem_cons_of_mem _ hx)) with rfl | hx'
        · exact absurd (hb x hx) (irrefl x)
        · exact hx'

variable {α : Type} [Ord α]

/-- The list is strictly ascending. -/
abbrev Ascending (l : List α) : Prop := l.Pairwise fun a b => compare a b = .lt

namespace Ascending

/-- Put `a` in its place, unless it is there already. -/
def insert (a : α) : List α → List α
  | [] => [a]
  | b :: l =>
    match compare a b with
    | .lt => a :: b :: l
    | .eq => b :: l
    | .gt => b :: insert a l

theorem mem_insert [Std.LawfulEqOrd α] {a x : α} {l : List α} :
    x ∈ insert a l ↔ x = a ∨ x ∈ l := by
  induction l with
  | nil => simp [insert]
  | cons b l ih =>
    unfold insert
    split
    · simp
    · next h =>
      obtain rfl := Std.LawfulEqOrd.eq_of_compare h
      simp
    · simp only [List.mem_cons, ih]
      constructor
      · rintro (h | h | h) <;> simp [h]
      · rintro (h | h | h) <;> simp [h]

theorem pairwise_insert [Std.TransOrd α] [Std.LawfulEqOrd α] {a : α} {l : List α}
    (h : Ascending l) : Ascending (insert a l) := by
  induction l with
  | nil => exact List.pairwise_singleton _ _
  | cons b l ih =>
    obtain ⟨hb, hl⟩ := List.pairwise_cons.mp h
    unfold insert
    split
    · next hab =>
      refine List.pairwise_cons.mpr ⟨fun x hx => ?_, h⟩
      rcases List.mem_cons.mp hx with rfl | hx
      · exact hab
      · exact Std.TransCmp.lt_trans hab (hb x hx)
    · exact h
    · next hab =>
      refine List.pairwise_cons.mpr ⟨fun x hx => ?_, ih hl⟩
      rcases mem_insert.mp hx with rfl | hx
      · exact Std.OrientedCmp.gt_iff_lt.mp hab
      · exact hb x hx

end Ascending

/-- A set, kept as the strictly ascending list of its members. -/
structure OrdSet (α : Type) [Ord α] where
  /-- The members in ascending order. -/
  toList : List α
  ascending : Ascending toList
deriving DecidableEq

namespace OrdSet

/-- The set without members. -/
def empty : OrdSet α := ⟨[], List.Pairwise.nil⟩

instance : EmptyCollection (OrdSet α) := ⟨empty⟩
instance : Inhabited (OrdSet α) := ⟨empty⟩
instance : Membership α (OrdSet α) := ⟨fun s a => a ∈ s.toList⟩

theorem mem_toList {a : α} {s : OrdSet α} : a ∈ s.toList ↔ a ∈ s := Iff.rfl

instance [DecidableEq α] (a : α) (s : OrdSet α) : Decidable (a ∈ s) :=
  inferInstanceAs (Decidable (a ∈ s.toList))

/-- The set has no member. -/
def isEmpty (s : OrdSet α) : Bool := s.toList.isEmpty

/-- The number of members. -/
def size (s : OrdSet α) : Nat := s.toList.length

/-- The members that satisfy `p`. -/
def filter (p : α → Bool) (s : OrdSet α) : OrdSet α := ⟨s.toList.filter p, s.ascending.filter p⟩

/-- The set without `a`. -/
def erase [DecidableEq α] (s : OrdSet α) (a : α) : OrdSet α := s.filter (· ≠ a)

section Lawful

variable [Std.TransOrd α] [Std.LawfulEqOrd α]

/-- The set with `a`. -/
def insert (s : OrdSet α) (a : α) : OrdSet α :=
  ⟨Ascending.insert a s.toList, Ascending.pairwise_insert s.ascending⟩

/-- The members of a list. -/
def ofList (l : List α) : OrdSet α := l.foldl insert ∅

/-- The members of either set. -/
def union (s t : OrdSet α) : OrdSet α := t.toList.foldl insert s

@[simp] theorem mem_insert {a x : α} {s : OrdSet α} : x ∈ s.insert a ↔ x = a ∨ x ∈ s :=
  Ascending.mem_insert

theorem mem_foldl_insert {x : α} {l : List α} {s : OrdSet α} :
    x ∈ l.foldl insert s ↔ x ∈ s ∨ x ∈ l := by
  induction l generalizing s with
  | nil => simp
  | cons b l ih =>
    simp only [List.foldl_cons, ih, mem_insert, List.mem_cons]
    constructor
    · rintro ((h | h) | h) <;> simp [h]
    · rintro (h | h | h) <;> simp [h]

@[simp] theorem mem_union {x : α} {s t : OrdSet α} : x ∈ s.union t ↔ x ∈ s ∨ x ∈ t :=
  mem_foldl_insert

omit [Std.TransOrd α] [Std.LawfulEqOrd α] in
@[simp] theorem not_mem_empty {x : α} : ¬ x ∈ (∅ : OrdSet α) := List.not_mem_nil

@[simp] theorem mem_ofList {x : α} {l : List α} : x ∈ ofList l ↔ x ∈ l := by
  simp [ofList, mem_foldl_insert]

end Lawful

@[simp] theorem mem_filter {x : α} {p : α → Bool} {s : OrdSet α} :
    x ∈ s.filter p ↔ x ∈ s ∧ p x = true := List.mem_filter

@[simp] theorem mem_erase [DecidableEq α] {a x : α} {s : OrdSet α} :
    x ∈ s.erase a ↔ x ∈ s ∧ x ≠ a := by simp [erase]

/-- **Two sets with the same members are equal.** -/
theorem ext [Std.TransOrd α] [Std.LawfulEqOrd α] {s t : OrdSet α} (h : ∀ x, x ∈ s ↔ x ∈ t) :
    s = t := by
  obtain ⟨l, hl⟩ := s
  obtain ⟨m, hm⟩ := t
  suffices l = m by subst this; rfl
  refine eq_of_pairwise (fun a ha => ?_) Std.TransCmp.lt_trans hl hm h
  rw [Std.compare_self] at ha
  cases ha

/-- A set is made up of its members. -/
theorem ofList_toList [Std.TransOrd α] [Std.LawfulEqOrd α] (s : OrdSet α) : ofList s.toList = s :=
  ext fun _ => mem_ofList

end OrdSet

end NetReach
