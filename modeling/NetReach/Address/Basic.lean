/-! # Addresses and address blocks

An address is of one of two families, four octets or eight groups of sixteen bits. An address block
(`Cidr`) is an address with the number of leading bits that all addresses of the block share. The
families are kept apart: a block holds only addresses of its own family, also when the other family
has a form for them. -/

namespace NetReach

/-- An address of the first family, four octets from the most significant on. -/
structure IPv4 where
  first : UInt8
  second : UInt8
  third : UInt8
  fourth : UInt8
deriving DecidableEq, Repr, Inhabited

namespace IPv4

/-- The octets from the most significant on. -/
def octets (a : IPv4) : List UInt8 := [a.first, a.second, a.third, a.fourth]

/-- The address as a number below `2 ^ 32`. -/
def value (a : IPv4) : Nat := a.octets.foldl (fun n o => n * 256 + o.toNat) 0

end IPv4

/-- An address of the second family, eight groups from the most significant on. -/
structure IPv6 where
  groups : List UInt16
  length_groups : groups.length = 8
deriving DecidableEq, Repr

namespace IPv6

/-- The address of eight groups. -/
def ofGroups? (groups : List UInt16) : Option IPv6 :=
  if h : groups.length = 8 then some ⟨groups, h⟩ else none

/-- The address as a number below `2 ^ 128`. -/
def value (a : IPv6) : Nat := a.groups.foldl (fun n g => n * 65536 + g.toNat) 0

/-- The address of the first family that is embedded behind ten zero octets and two full ones. -/
def mapped? (a : IPv6) : Option IPv4 :=
  match a.groups with
  | [0, 0, 0, 0, 0, 0xffff, hi, lo] =>
    some ⟨(hi >>> 8).toUInt8, hi.toUInt8, (lo >>> 8).toUInt8, lo.toUInt8⟩
  | _ => none

end IPv6

/-- An address of either family. -/
inductive IpAddr where
  | v4 (a : IPv4)
  | v6 (a : IPv6)
deriving DecidableEq, Repr

namespace IpAddr

instance : Inhabited IpAddr := ⟨.v4 default⟩

/-- The number of bits of the family. -/
def width : IpAddr → Nat
  | v4 _ => 32
  | v6 _ => 128

/-- The address as a number below `2 ^ width`. -/
def value : IpAddr → Nat
  | v4 a => a.value
  | v6 a => a.value

end IpAddr

/-- An address together with the number of leading bits that make up its block. -/
structure Cidr where
  addr : IpAddr
  length : Nat
  length_le : length ≤ addr.width
deriving DecidableEq, Repr

namespace Cidr

instance : Inhabited Cidr := ⟨default, 0, Nat.zero_le _⟩

/-- The block of `addr` with `length` leading bits, if the family has so many. -/
def of? (addr : IpAddr) (length : Nat) : Option Cidr :=
  if h : length ≤ addr.width then some ⟨addr, length, h⟩ else none

/-- `x` has the family and the leading bits of the block. -/
def contains (c : Cidr) (x : IpAddr) : Bool :=
  c.addr.width == x.width &&
    c.addr.value >>> (c.addr.width - c.length) == x.value >>> (x.width - c.length)

end Cidr

end NetReach
