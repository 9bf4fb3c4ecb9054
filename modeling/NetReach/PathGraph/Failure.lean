import NetReach.Network.Basic
import NetReach.PathGraph.Vertex

/-! # Failed links

A failed link is a pair of routers in either order. It cuts every edge between vertices of the two
routers. -/

namespace NetReach

/-- The links that have failed. -/
structure FailureSet where
  pairs : List (RouterId × RouterId)
deriving Repr, Inhabited

namespace FailureSet

/-- No link has failed. -/
def empty : FailureSet := ⟨[]⟩

instance : EmptyCollection FailureSet := ⟨empty⟩

/-- The link between `a` and `b` fails as well. -/
def insert (f : FailureSet) (a b : RouterId) : FailureSet := ⟨(a, b) :: f.pairs⟩

/-- The link between `a` and `b` has failed. -/
def contains (f : FailureSet) (a b : RouterId) : Bool :=
  decide ((a, b) ∈ f.pairs) || decide ((b, a) ∈ f.pairs)

/-- No link has failed. -/
def isEmpty (f : FailureSet) : Bool := f.pairs.isEmpty

/-- The links between routers given by name; pairs with an unknown name are passed over. -/
def ofNames (net : Network) (names : List (String × String)) : FailureSet :=
  ⟨names.filterMap fun (a, b) =>
    match net.routerId? a, net.routerId? b with
    | some a, some b => some (a, b)
    | _, _ => none⟩

/-- An edge between the two vertices is cut. -/
def cuts (f : FailureSet) (v w : Vertex) : Bool :=
  match v.router?, w.router? with
  | some a, some b => decide (a ≠ b) && f.contains a b
  | _, _ => false

theorem cuts_empty (v w : Vertex) : (∅ : FailureSet).cuts v w = false := by
  unfold cuts
  split
  · exact Bool.and_false _
  · rfl

/-- No failure cuts an edge that stays on a router. -/
theorem cuts_of_router?_eq {f : FailureSet} {v w : Vertex} (h : v.router? = w.router?) :
    f.cuts v w = false := by
  unfold cuts
  rw [h]
  split
  · next hv hw =>
    cases hv.symm.trans hw
    simp
  · rfl

theorem contains_comm (f : FailureSet) (a b : RouterId) : f.contains a b = f.contains b a :=
  Bool.or_comm _ _

@[simp] theorem contains_insert (f : FailureSet) (a b c d : RouterId) :
    (f.insert a b).contains c d = true ↔
      (c = a ∧ d = b) ∨ (c = b ∧ d = a) ∨ f.contains c d = true := by
  simp only [contains, insert, List.mem_cons, Prod.mk.injEq, Bool.or_eq_true, decide_eq_true_eq]
  constructor
  · rintro ((h | h) | (h | h)) <;> simp [h]
  · rintro (h | h | h | h) <;> simp [h]

end FailureSet

end NetReach
