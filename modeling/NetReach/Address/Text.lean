import NetReach.Address.Basic

/-! # Texts of addresses

Addresses are written canonically: octets in decimal joined by dots; groups in lower-case
hexadecimal joined by colons, the first longest run of at least two zero groups as a double colon,
and an embedded address of the first family in its own form behind `::ffff:`.

What is read is wider: a double colon may stand for any gap, digits may be upper case, and the last
two groups may be written as four octets. Where a neighbour is named by its address, octets have no
leading zeros and a double colon stands for at least one group (`AddressForm.strict`); where a block
is given, octets may be padded with zeros and the gap may be empty (`AddressForm.padded`). -/

namespace NetReach

/-! ### Writing -/

/-- The pieces one after the other with `sep` between any two. -/
def joinChars (sep : List Char) : List (List Char) → List Char
  | [] => []
  | [p] => p
  | p :: q :: ps => p ++ sep ++ joinChars sep (q :: ps)

namespace IPv4

/-- Octets in decimal, joined by dots. -/
def chars (a : IPv4) : List Char := joinChars ['.'] (a.octets.map fun o => Nat.toDigits 10 o.toNat)

end IPv4

namespace IPv6

/-- Groups in hexadecimal, joined by colons. -/
def groupChars (gs : List UInt16) : List Char :=
  joinChars [':'] (gs.map fun g => Nat.toDigits 16 g.toNat)

/-- The number of zero groups from position `i` on. -/
def zerosAt (gs : List UInt16) (i : Nat) : Nat := ((gs.drop i).takeWhile (· = 0)).length

/-- The position from which the most zero groups follow, the first of equals. -/
def gapStart (gs : List UInt16) : Nat :=
  (List.range gs.length).foldl (fun b i => if zerosAt gs b < zerosAt gs i then i else b) 0

/-- The canonical form of the address. -/
def chars (a : IPv6) : List Char :=
  match a.mapped? with
  | some m => "::ffff:".toList ++ m.chars
  | none =>
    let i := gapStart a.groups
    let n := zerosAt a.groups i
    if 2 ≤ n then
      groupChars (a.groups.take i) ++ [':', ':'] ++ groupChars (a.groups.drop (i + n))
    else groupChars a.groups

end IPv6

/-- The canonical form of the address. -/
def IpAddr.chars : IpAddr → List Char
  | .v4 a => a.chars
  | .v6 a => a.chars

/-- The canonical form of the address. -/
def IpAddr.text (a : IpAddr) : String := String.ofList a.chars

/-- The address, a slash and the number of leading bits. -/
def Cidr.chars (c : Cidr) : List Char := c.addr.chars ++ ['/'] ++ Nat.toDigits 10 c.length

/-- The address, a slash and the number of leading bits. -/
def Cidr.text (c : Cidr) : String := String.ofList c.chars

/-! ### Reading -/

/-- What a form of address allows. -/
structure AddressForm where
  /-- Octets of more than one digit may start with zero. -/
  zeroPadding : Bool
  /-- A double colon may stand for no group at all. -/
  emptyGap : Bool

/-- The form in which a single address is given. -/
def AddressForm.strict : AddressForm := ⟨false, false⟩

/-- The form in which the address of a block is given. -/
def AddressForm.padded : AddressForm := ⟨true, true⟩

/-- The value of a decimal or hexadecimal digit, in either case. -/
def hexValue? (c : Char) : Option Nat :=
  if '0' ≤ c ∧ c ≤ '9' then some (c.toNat - '0'.toNat)
  else if 'a' ≤ c ∧ c ≤ 'f' then some (c.toNat - 'a'.toNat + 10)
  else if 'A' ≤ c ∧ c ≤ 'F' then some (c.toNat - 'A'.toNat + 10)
  else none

/-- The value of a digit in base ten or sixteen. -/
def digitValue? (base : Nat) (c : Char) : Option Nat := (hexValue? c).filter (· < base)

/-- The value of a sequence of digits. -/
def digitsValue (base : Nat) (ds : List Char) : Nat :=
  ds.foldl (fun n c => n * base + (digitValue? base c).getD 0) 0

/-- A number of one to `most` digits, as long as digits follow. -/
def readNumber? (base most : Nat) (cs : List Char) : Option (Nat × List Char) :=
  let ds := cs.takeWhile fun c => (digitValue? base c).isSome
  if ds.isEmpty ∨ most < ds.length then none
  else some (digitsValue base ds, cs.dropWhile fun c => (digitValue? base c).isSome)

/-- The rest of the text after the character `c`. -/
def skipChar? (c : Char) : List Char → Option (List Char)
  | [] => none
  | d :: cs => if d = c then some cs else none

namespace IPv4

/-- A number from 0 to 255. -/
def readOctet? (f : AddressForm) (cs : List Char) : Option (UInt8 × List Char) := do
  let (n, rest) ← readNumber? 10 3 cs
  if n < 256 ∧ (f.zeroPadding ∨ cs.head? ≠ some '0' ∨ cs.length = rest.length + 1) then
    some (n.toUInt8, rest)
  else none

/-- Four octets with dots between them. -/
def read? (f : AddressForm) (cs : List Char) : Option (IPv4 × List Char) := do
  let (a, cs) ← readOctet? f cs
  let (b, cs) ← readOctet? f (← skipChar? '.' cs)
  let (c, cs) ← readOctet? f (← skipChar? '.' cs)
  let (d, cs) ← readOctet? f (← skipChar? '.' cs)
  some (⟨a, b, c, d⟩, cs)

/-- The address as two groups. -/
def asGroups (a : IPv4) : List UInt16 :=
  [a.first.toUInt16 <<< 8 ||| a.second.toUInt16, a.third.toUInt16 <<< 8 ||| a.fourth.toUInt16]

end IPv4

namespace IPv6

/-- As many groups as there are, at most `n`, with colons between them. Where two more groups have
room they may be written as four octets; nothing follows these, and the flag is set. -/
def readGroups (f : AddressForm) (first : Bool) : Nat → List Char → List UInt16 × Bool × List Char
  | 0, cs => ([], false, cs)
  | n + 1, cs =>
    match if first then some cs else skipChar? ':' cs with
    | none => ([], false, cs)
    | some body =>
      match if n = 0 then none else IPv4.read? f body with
      | some (a, rest) => (a.asGroups, true, rest)
      | none =>
        match readNumber? 16 4 body with
        | none => ([], false, cs)
        | some (g, rest) =>
          let (gs, embedded, rest) := readGroups f false n rest
          (g.toUInt16 :: gs, embedded, rest)

/-- Eight groups, or fewer with a double colon for the missing ones. -/
def read? (f : AddressForm) (cs : List Char) : Option (IPv6 × List Char) := do
  let (head, embedded, rest) := readGroups f true 8 cs
  if head.length = 8 then
    return (← ofGroups? head, rest)
  if embedded then none
  let rest ← skipChar? ':' (← skipChar? ':' rest)
  let room := 8 - head.length - (if f.emptyGap then 0 else 1)
  let (tail, _, rest) := readGroups f true room rest
  let gap := List.replicate (8 - head.length - tail.length) 0
  return (← ofGroups? (head ++ gap ++ tail), rest)

end IPv6

namespace IpAddr

/-- The address that a whole text denotes. -/
def ofChars? (cs : List Char) : Option IpAddr :=
  match IPv4.read? .strict cs with
  | some (a, []) => some (.v4 a)
  | some _ => none
  | none =>
    match IPv6.read? .strict cs with
    | some (a, []) => some (.v6 a)
    | _ => none

/-- The address that a whole text denotes. -/
def ofText? (s : String) : Option IpAddr := ofChars? s.toList

end IpAddr

namespace Cidr

/-- A slash and a number of at most `most` digits, up to the end of the text. -/
def readLength? (most : Nat) (cs : List Char) : Option Nat := do
  match ← readNumber? 10 most (← skipChar? '/' cs) with
  | (n, []) => some n
  | _ => none

/-- The block that a whole text denotes. -/
def ofChars? (cs : List Char) : Option Cidr :=
  match IPv4.read? .padded cs with
  | some (a, rest) => (readLength? 2 rest).bind (of? (.v4 a))
  | none =>
    match IPv6.read? .padded cs with
    | some (a, rest) => (readLength? 3 rest).bind (of? (.v6 a))
    | none => none

/-- The block that a whole text denotes. -/
def ofText? (s : String) : Option Cidr := ofChars? s.toList

end Cidr

end NetReach
