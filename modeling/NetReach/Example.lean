import NetReach.Config.Basic

/-! # Example networks

Small networks with the cases they satisfy. They are found by name, in any case, with the number of
a variant behind a colon. -/

namespace NetReach

/-- An example network. -/
inductive Example where
  /-- Two routers on one VLAN, both running OSPF. -/
  | pointToPoint
  /-- Three routers in a line, all running OSPF; in variant 1 a plain switch joins the last two. -/
  | ospfLine
  /-- Three routers in an iBGP mesh over OSPF, one of which learns the subnet `t` from another
  autonomous system. A fourth router has a session with the third alone, and never learns `t`. -/
  | ibgpMesh
  /-- Three routers in a line with eBGP alone. The last tags its route; in variant 1 the first drops
  routes with that tag. -/
  | taggedPolicy
deriving DecidableEq, Repr

namespace Example

/-- The address `a.b.c.d` in a block of 24 bits. -/
def block (a b c d : UInt8) : Cidr := ⟨.v4 ⟨a, b, c, d⟩, 24, by simp [IpAddr.width]⟩

/-- The address `a.b.c.d`. -/
def host (a b c d : UInt8) : IpAddr := .v4 ⟨a, b, c, d⟩

/-- The configuration of the two routers. -/
def pointToPointConfig : NetworkConfig :=
  let r1 := ((((RouterConfig.named "R1").iface "R2" (some 1)).vlan 1 (block 10 0 12 1)).ospfActive 1
    |>.ospfOrigin "s1").subnet "s1"
  let r2 := ((((RouterConfig.named "R2").iface "R1" (some 1)).vlan 1 (block 10 0 12 2)).ospfActive 1
    |>.ospfOrigin "s2").subnet "s2"
  { routers := [r1, r2]
    tests := [(ReachabilityCase.expect "s1" "s2" true).via ["R1", "R2"],
      (ReachabilityCase.expect "s2" "s1" true).via ["R2", "R1"],
      (ReachabilityCase.expect "s1" "s2" false).fail "R1" "R2"] }

/-- The configuration of the OSPF line, with or without the switch. -/
def ospfLineConfig (withSwitch : Bool) : NetworkConfig :=
  let r2Peer := if withSwitch then "SW" else "R3"
  let r3Peer := if withSwitch then "SW" else "R2"
  let r1 := RouterConfig.named "R1"
    |>.iface "R2" (some 12) |>.vlan 12 (block 10 0 12 1)
    |>.ospfActive 12 |>.ospfOrigin "s1" |>.subnet "s1"
  let r2 := RouterConfig.named "R2"
    |>.iface "R1" (some 12) |>.iface r2Peer (some 23)
    |>.vlan 12 (block 10 0 12 2) |>.vlan 23 (block 10 0 23 2)
    |>.ospfActive 12 |>.ospfActive 23
  let r3 := RouterConfig.named "R3"
    |>.iface r3Peer (some 23) |>.vlan 23 (block 10 0 23 3)
    |>.ospfActive 23 |>.ospfOrigin "s3" |>.subnet "s3"
  let sw := RouterConfig.named "SW"
    |>.iface "R2" (some 23) |>.iface "R3" (some 23) |>.vlan 23 (block 10 0 23 254)
  { routers := [r1, r2, r3] ++ if withSwitch then [sw] else []
    tests := [(ReachabilityCase.expect "s1" "s3" true).via
        (if withSwitch then ["R1", "R2", "SW", "R3"] else ["R1", "R2", "R3"]),
      (ReachabilityCase.expect "s1" "s3" false).fail "R1" "R2",
      (ReachabilityCase.expect "s1" "s3" false).fail "R2" r2Peer,
      (ReachabilityCase.expect "s3" "s1" true).fail "R1" "R3"] }

/-- The configuration of the iBGP mesh. -/
def ibgpMeshConfig : NetworkConfig :=
  let e := RouterConfig.named "E"
    |>.iface "R1" (some 1) |>.vlan 1 (block 10 0 1 1)
    |>.bgpExternal (host 10 0 1 2) none none |>.bgpOrigin "t" |>.subnet "t"
  let r1 := RouterConfig.named "R1"
    |>.iface "E" (some 1) |>.iface "R2" (some 12)
    |>.vlan 1 (block 10 0 1 2) |>.vlan 12 (block 10 0 12 1) |>.ospfActive 12
    |>.bgpExternal (host 10 0 1 1) none none
    |>.bgpInternal (host 10 0 12 2) none none |>.bgpInternal (host 10 0 23 3) none none
  let r2 := RouterConfig.named "R2"
    |>.iface "R1" (some 12) |>.iface "R3" (some 23)
    |>.vlan 12 (block 10 0 12 2) |>.vlan 23 (block 10 0 23 2)
    |>.ospfActive 12 |>.ospfActive 23
    |>.bgpInternal (host 10 0 12 1) none none |>.bgpInternal (host 10 0 23 3) none none
    |>.subnet "s2"
  let r3 := RouterConfig.named "R3"
    |>.iface "R2" (some 23) |>.iface "R4" (some 34)
    |>.vlan 23 (block 10 0 23 3) |>.vlan 34 (block 10 0 34 3)
    |>.ospfActive 23 |>.ospfActive 34
    |>.bgpInternal (host 10 0 12 1) none none |>.bgpInternal (host 10 0 23 2) none none
    |>.bgpInternal (host 10 0 34 4) none none
    |>.subnet "s3"
  let r4 := RouterConfig.named "R4"
    |>.iface "R3" (some 34) |>.vlan 34 (block 10 0 34 4) |>.ospfActive 34
    |>.bgpInternal (host 10 0 34 3) none none |>.subnet "s4"
  { routers := [e, r1, r2, r3, r4]
    tests := [(ReachabilityCase.expect "s3" "t" true).via ["R3", "R2", "R1", "E"],
      (ReachabilityCase.expect "s2" "t" true).via ["R2", "R1", "E"],
      ReachabilityCase.expect "s4" "t" false,
      (ReachabilityCase.expect "s3" "t" false).fail "R2" "R3"] }

/-- The configuration of the tagged routes, with or without the policy that drops them. -/
def taggedPolicyConfig (denied : Bool) : NetworkConfig :=
  let r1 := RouterConfig.named "R1"
    |>.iface "R2" (some 12) |>.vlan 12 (block 10 0 12 1)
    |>.bgpExternal (host 10 0 12 2) (if denied then some "deny-x" else none) none
    |>.subnet "s"
  let r2 := RouterConfig.named "R2"
    |>.iface "R1" (some 12) |>.iface "R3" (some 23)
    |>.vlan 12 (block 10 0 12 2) |>.vlan 23 (block 10 0 23 2)
    |>.bgpExternal (host 10 0 12 1) none none |>.bgpExternal (host 10 0 23 3) none none
  let r3 := RouterConfig.named "R3"
    |>.iface "R2" (some 23) |>.vlan 23 (block 10 0 23 3)
    |>.bgpExternal (host 10 0 23 2) none (some "tag-x") |>.bgpOrigin "t" |>.subnet "t"
  let expected := ReachabilityCase.expect "s" "t" true
  { routers := [r1, r2, r3]
    policies := .ofList
      [("tag-x", ({} : Policy).addTag "x"), ("deny-x", ({} : Policy).blockTag "x")]
    tests := [if denied then expected else expected.via ["R1", "R2", "R3"]] }

/-- The configuration of a variant, if the example has it. -/
def config? : Example → Nat → Option NetworkConfig
  | pointToPoint, 0 => some pointToPointConfig
  | ospfLine, 0 => some (ospfLineConfig false)
  | ospfLine, 1 => some (ospfLineConfig true)
  | ibgpMesh, 0 => some ibgpMeshConfig
  | taggedPolicy, 0 => some (taggedPolicyConfig false)
  | taggedPolicy, 1 => some (taggedPolicyConfig true)
  | _, _ => none

/-- The name of an example. -/
def name : Example → String
  | pointToPoint => "pointtopoint"
  | ospfLine => "ospfline"
  | ibgpMesh => "ibgpmesh"
  | taggedPolicy => "taggedpolicy"

/-- All examples. -/
def all : List Example := [pointToPoint, ospfLine, ibgpMesh, taggedPolicy]

/-- The number that a text of digits stands for; a plus sign may come first. -/
def variantOfChars? (cs : List Char) : Option Nat :=
  let ds := match cs with
    | '+' :: ds => ds
    | ds => ds
  if ds ≠ [] ∧ ds.all Char.isDigit then some (Nat.ofDigitChars 10 ds 0) else none

/-- The configuration of the example with a name, like `OspfLine` or `ospfline:1`. No name has a
letter outside ASCII, so lower case is that of ASCII. -/
def byName? (s : String) : Option NetworkConfig := do
  let cs := s.toList
  let nameChars := cs.takeWhile (· ≠ ':')
  let e ← all.find? fun e => e.name.toList = nameChars.map Char.toLower
  match cs.dropWhile (· ≠ ':') with
  | [] => e.config? 0
  | _ :: variant => e.config? (← variantOfChars? variant)

end Example

end NetReach
