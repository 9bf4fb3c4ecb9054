/-! # Numerals of a document

A numeral is kept by its digits. Two questions are asked of it: which word of 32 bits it denotes
(`Numeral.word?`), and whether it lies beyond the numbers of double precision (`Numeral.isHuge`). -/

namespace NetReach

/-- A numeral by its parts; the digits of the fraction or of the exponent may be missing. -/
structure Numeral where
  negative : Bool := false
  /-- The digits before the point. -/
  whole : List Char
  /-- The digits behind the point. -/
  fraction : List Char := []
  /-- The sign of the exponent and its digits. -/
  exponent : Option (Bool × List Char) := none
deriving DecidableEq, Repr, Inhabited

namespace Numeral

/-- The numeral of a natural number. -/
def ofNat (n : Nat) : Numeral := { whole := Nat.toDigits 10 n }

/-- The word of 32 bits that a numeral without sign, fraction and exponent denotes. -/
def word? (n : Numeral) : Option UInt32 :=
  if n.negative ∨ n.fraction ≠ [] ∨ n.exponent.isSome then none
  else
    let v := Nat.ofDigitChars 10 n.whole 0
    if v < UInt32.size then some (UInt32.ofNat v) else none

/-! ### Double precision

The digits of a numeral are gathered as long as the number they form is below `2 ^ 64`. Digits
before the point that are not gathered raise the exponent, gathered ones behind it lower it. The
number and the power of ten are then rounded to 53 bits each, and so is their product. -/

/-- The nearest number with 53 leading bits, the even one of two. -/
def round53 (n : Nat) : Nat :=
  let k := n.log2 - 52
  let q := n >>> k
  let r := n - q <<< k
  let unit := 1 <<< k
  (if unit < 2 * r ∨ (2 * r = unit ∧ q % 2 = 1) then q + 1 else q) <<< k

/-- Gather the digits before the point: the number, and how many digits were left over. -/
def gatherWhole : List Char → Nat → Nat × Nat
  | [], s => (s, 0)
  | c :: cs, s =>
    let t := s * 10 + (c.toNat - '0'.toNat)
    if t < UInt64.size then gatherWhole cs t else (s, cs.length + 1)

/-- Gather the digits behind the point: the number, and how many digits were taken. -/
def gatherFraction : List Char → Nat → Nat → Nat × Nat
  | [], s, taken => (s, taken)
  | c :: cs, s, taken =>
    let t := s * 10 + (c.toNat - '0'.toNat)
    if t < UInt64.size then gatherFraction cs t (taken + 1) else (s, taken)

/-- The exponent as a number. -/
def exponentValue (n : Numeral) : Int :=
  match n.exponent with
  | none => 0
  | some (minus, ds) =>
    let e : Int := Nat.ofDigitChars 10 ds 0
    if minus then -e else e

/-- The least number that rounds to no finite number of double precision, half a unit above the
greatest finite one. -/
def leastHuge : Nat := 1 <<< 1024 - 1 <<< 970

/-- The numeral rounds to no finite number of double precision. -/
def isHuge (n : Numeral) : Bool :=
  let (s, left) := gatherWhole n.whole 0
  let (s, taken) := gatherFraction n.fraction s 0
  let e := (left : Int) - taken + n.exponentValue
  s ≠ 0 ∧ 0 ≤ e ∧ (308 < e ∨ leastHuge ≤ round53 s * round53 (Nat.pow 10 e.toNat))

end Numeral

end NetReach
