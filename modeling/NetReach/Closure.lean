/-! # What can be reached by steps

`closure step pool todo` lists every item of `pool` that is reached from one of `todo` by steps that
stay inside `pool`, each once. -/

namespace NetReach

variable {α : Type} [DecidableEq α]

/-- Take the first item of `todo` that is left in the pool, and go on with its steps. At most `n`
items are taken. -/
def closureWithin (step : α → List α) : Nat → List α → List α → List α
  | 0, _, _ => []
  | n + 1, pool, todo =>
    match todo.dropWhile (· ∉ pool) with
    | [] => []
    | a :: rest => a :: closureWithin step n (pool.erase a) (step a ++ rest)

/-- The items of `pool` reached from `todo` by steps inside `pool`. -/
def closure (step : α → List α) (pool todo : List α) : List α :=
  closureWithin step pool.length pool todo

end NetReach
