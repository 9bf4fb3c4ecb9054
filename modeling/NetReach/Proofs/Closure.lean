import NetReach.Closure

/-! # The closure is what steps reach

`mem_closure`: the closure holds exactly the items of the pool that steps inside the pool reach from
the items to start with, whatever the order of the lists. -/

namespace NetReach

variable {α : Type}

/-- Steps inside the pool lead to the item from one of those to start with. -/
inductive Reached (step : α → List α) (pool todo : List α) : α → Prop where
  /-- An item to start with. -/
  | start {a : α} : a ∈ todo → a ∈ pool → Reached step pool todo a
  /-- One step further. -/
  | step {a b : α} : Reached step pool todo a → b ∈ step a → b ∈ pool → Reached step pool todo b

variable [DecidableEq α] {step : α → List α} {pool todo : List α} {a b : α}

/-- The items in front of the first one that is left in the pool are not in the pool. -/
theorem mem_of_mem_dropWhile {x : α} {l : List α} (hx : x ∈ l) (hp : x ∈ pool) :
    x ∈ l.dropWhile (· ∉ pool) := by
  induction l with
  | nil => exact hx
  | cons y l ih =>
    rw [List.dropWhile_cons]
    split
    · next hy =>
      rcases List.mem_cons.mp hx with rfl | hx
      · exact absurd hp (by simpa using hy)
      · exact ih hx
    · exact hx

theorem mem_pool_of_dropWhile {l rest : List α} (h : l.dropWhile (· ∉ pool) = a :: rest) :
    a ∈ pool ∧ ∀ x ∈ a :: rest, x ∈ l := by
  have hsub := (List.dropWhile_suffix (l := l) (· ∉ pool)).subset
  rw [h] at hsub
  refine ⟨?_, fun x hx => hsub hx⟩
  have := List.head?_dropWhile_not (· ∉ pool) l
  rw [h] at this
  simpa using this

theorem reached_of_mem_closureWithin (n : Nat) : ∀ {left todo' : List α},
    (∀ x ∈ left, x ∈ pool) → (∀ x ∈ todo', x ∈ pool → Reached step pool todo x) →
    ∀ x ∈ closureWithin step n left todo', Reached step pool todo x := by
  induction n with
  | zero => intro left todo' _ _ x hx; cases hx
  | succ n ih =>
    intro left todo' hleft htodo x hx
    unfold closureWithin at hx
    split at hx
    · cases hx
    · next a rest h =>
      obtain ⟨ha, hrest⟩ := mem_pool_of_dropWhile h
      have hra : Reached step pool todo a := htodo a (hrest a List.mem_cons_self) (hleft a ha)
      rcases List.mem_cons.mp hx with rfl | hx
      · exact hra
      · refine ih (fun y hy => hleft y (List.mem_of_mem_erase hy)) (fun y hy hp => ?_) x hx
        rcases List.mem_append.mp hy with hy | hy
        · exact hra.step hy hp
        · exact htodo y (hrest y (List.mem_cons_of_mem _ hy)) hp

/-- With enough items to take, the list holds what is left to start with, and is closed. -/
theorem closureWithin_closed (step : α → List α) (n : Nat) : ∀ pool todo : List α,
    pool.length ≤ n →
    (∀ x ∈ todo, x ∈ pool → x ∈ closureWithin step n pool todo) ∧
      ∀ x ∈ closureWithin step n pool todo, ∀ y ∈ step x, y ∈ pool →
        y ∈ closureWithin step n pool todo := by
  induction n with
  | zero =>
    intro pool todo hn
    obtain rfl : pool = [] := List.length_eq_zero_iff.mp (Nat.le_zero.mp hn)
    exact ⟨fun x _ hx => (nomatch hx), fun x hx => (nomatch hx)⟩
  | succ n ih =>
    intro pool todo hn
    unfold closureWithin
    split
    · next h =>
      refine ⟨fun x hx hp => ?_, fun x hx => (nomatch hx)⟩
      have := mem_of_mem_dropWhile hx hp
      rw [h] at this
      cases this
    · next a rest h =>
      obtain ⟨ha, -⟩ := mem_pool_of_dropWhile h
      have hlen : (pool.erase a).length ≤ n := by
        rw [List.length_erase_of_mem ha]
        omega
      obtain ⟨hstart, hclosed⟩ := ih (pool.erase a) (step a ++ rest) hlen
      have hnext : ∀ x ∈ step a ++ rest, x ∈ pool →
          x ∈ a :: closureWithin step n (pool.erase a) (step a ++ rest) := by
        intro x hx hp
        by_cases hxa : x = a
        · exact hxa ▸ List.mem_cons_self
        · exact List.mem_cons_of_mem _ (hstart x hx ((List.mem_erase_of_ne hxa).mpr hp))
      refine ⟨fun x hx hp => ?_, fun x hx y hy hp => ?_⟩
      · have hd := mem_of_mem_dropWhile hx hp
        rw [h] at hd
        rcases List.mem_cons.mp hd with rfl | hd
        · exact List.mem_cons_self
        · exact hnext x (List.mem_append_right _ hd) hp
      · rcases List.mem_cons.mp hx with rfl | hx
        · exact hnext y (List.mem_append_left _ hy) hp
        · by_cases hya : y = a
          · exact hya ▸ List.mem_cons_self
          · exact List.mem_cons_of_mem _ (hclosed x hx y hy ((List.mem_erase_of_ne hya).mpr hp))

/-- **The closure holds exactly what steps inside the pool reach.** -/
theorem mem_closure : a ∈ closure step pool todo ↔ Reached step pool todo a := by
  constructor
  · intro h
    exact reached_of_mem_closureWithin pool.length (fun x hx => hx)
      (fun x hx hp => .start hx hp) a h
  · intro h
    obtain ⟨hstart, hclosed⟩ :=
      closureWithin_closed step pool.length pool todo (Nat.le_refl _)
    induction h with
    | start hx hp => exact hstart _ hx hp
    | step _ hy hp ih => exact hclosed _ ih _ hy hp

end NetReach
