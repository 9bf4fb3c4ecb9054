import NetReach.Ordered.Set

/-! # Signatures and policies

A *signature* holds the routing attributes that a route gathers on its way from the destination. A
*policy* changes the signature of a route that crosses an edge, or drops the route. Numbers are
words of 32 bits; sums stop at the largest word.

* `Policy.apply`: the steps of one policy, in order.
* `applyAll`: a chain of policies; the first one that drops the route ends it.
* `Signature.compare`: how two signatures rank in a decision process (`RankDomain`). -/

namespace NetReach

/-- The sum of two words, or the largest word if the sum is no word. -/
def capAdd (a b : UInt32) : UInt32 := UInt32.ofNat (min (a.toNat + b.toNat) (UInt32.size - 1))

theorem toNat_capAdd (a b : UInt32) :
    (capAdd a b).toNat = min (a.toNat + b.toNat) (UInt32.size - 1) := by
  unfold capAdd
  exact UInt32.toNat_ofNat_of_lt' (by simp only [UInt32.size]; omega)

/-- The routing attributes of a route. -/
structure Signature where
  /-- The local preference. -/
  localPref : UInt32
  /-- The length of the path. -/
  len : UInt32
  /-- The cost inside the interior protocol. -/
  cost : UInt32
  /-- The tags that the route carries. -/
  tags : OrdSet String
deriving DecidableEq

/-- The decision process by which a vertex ranks its routes. -/
inductive RankDomain where
  /-- The lowest cost wins, then the shortest path. -/
  | igp
  /-- The highest local preference wins, then the shortest path, then the lowest cost. -/
  | bgp
  /-- The lowest cost wins, then the shortest path, then the highest local preference. -/
  | neutral
deriving DecidableEq, Repr

namespace Signature

/-- The signature of the destination itself. -/
def origin : Signature := ⟨100, 0, 0, ∅⟩

instance : Inhabited Signature := ⟨origin⟩

/-- The order of preference in a decision process; the greater one is preferred. -/
def compare (d : RankDomain) (a b : Signature) : Ordering :=
  let lowerCost := Ord.compare b.cost a.cost
  let shorter := Ord.compare b.len a.len
  let higherPref := Ord.compare a.localPref b.localPref
  match d with
  | .igp => lowerCost.then shorter
  | .bgp => higherPref.then (shorter.then lowerCost)
  | .neutral => lowerCost.then (shorter.then higherPref)

end Signature

/-- What an edge does to the signature of a route that crosses it. -/
structure Policy where
  /-- Added to the cost. -/
  cost : UInt32 := 0
  /-- Added to the length of the path. -/
  len : UInt32 := 0
  /-- Overwrites the local preference. -/
  localPref : Option UInt32 := none
  /-- The tags given to the route. -/
  addTags : OrdSet String := ∅
  /-- The tags taken from the route. -/
  removeTags : OrdSet String := ∅
  /-- The tags of which the route may carry none. -/
  blockTags : OrdSet String := ∅
deriving DecidableEq

namespace Policy

instance : Inhabited Policy := ⟨{}⟩

/-- Adds `c` to the cost. -/
def ofCost (c : UInt32) : Policy := { cost := c }

/-- Adds `n` to the length of the path. -/
def ofLen (n : UInt32) : Policy := { len := n }

/-- Overwrites the local preference. -/
def ofLocalPref (n : UInt32) : Policy := { localPref := some n }

/-- The policy that also gives the tag `t`. -/
def addTag (p : Policy) (t : String) : Policy := { p with addTags := p.addTags.insert t }

/-- The policy that also takes the tag `t`. -/
def removeTag (p : Policy) (t : String) : Policy := { p with removeTags := p.removeTags.insert t }

/-- The policy that also blocks the tag `t`. -/
def blockTag (p : Policy) (t : String) : Policy := { p with blockTags := p.blockTags.insert t }

/-- The tags of a route after tags are given and then taken. -/
def tagsAfter (p : Policy) (tags : OrdSet String) : OrdSet String :=
  (tags.union p.addTags).filter (· ∉ p.removeTags)

/-- The signature after the policy, unless it carries a blocked tag then. -/
def apply (p : Policy) (s : Signature) : Option Signature :=
  let tags := p.tagsAfter s.tags
  if tags.toList.any (· ∈ p.blockTags) then none
  else some ⟨p.localPref.getD s.localPref, capAdd s.len p.len, capAdd s.cost p.cost, tags⟩

end Policy

/-- The signature after a chain of policies, unless one of them drops the route. -/
def applyAll (ps : List Policy) (s : Signature) : Option Signature :=
  ps.foldlM (fun s p => p.apply s) s

end NetReach
