import NetReach.Example
import NetReach.Proofs.Layer2
import NetReach.Proofs.TaintWalk

/-! # Adjacent VLANs

What the domains of the second layer hold is said by chains alone (`Network.isAdjacent_iff_chain`),
so adjacency goes both ways. With it do the edges of a taint graph between OSPF processes: there is
one exactly if the two are active on adjacent VLANs (`TaintGraph.mem_edges_iff_meet`), whatever the
subnet. -/

namespace NetReach

namespace Network

variable {net : Network} {l2 : Layer2} {s : Option Subnet} {e : Spread} {p q : TaintNode}
  {i j : RouterId} {v w : VlanId}

theorem isAdjacent_iff_chain (hn : net.Linked) :
    (Layer2.ofNetwork net).isAdjacent v w = true ↔ v.router ≠ w.router ∧ net.Chain v w := by
  rw [Layer2.isAdjacent, decide_eq_true_eq, mem_adjacent hn, and_comm, ne_comm]

theorem isAdjacent_comm (hn : net.Linked) :
    (Layer2.ofNetwork net).isAdjacent v w = (Layer2.ofNetwork net).isAdjacent w v :=
  decide_eq_decide.mpr (mem_adjacent_comm hn)

/-- OSPF of the two routers is active on two VLANs that are adjacent. -/
def Meet (net : Network) (i j : RouterId) : Prop :=
  ∃ m n, net.ospfActive ⟨i, m⟩ = true ∧ net.ospfActive ⟨j, n⟩ = true ∧
    (Layer2.ofNetwork net).isAdjacent ⟨i, m⟩ ⟨j, n⟩ = true

theorem Meet.symm (hn : net.Linked) (h : net.Meet i j) : net.Meet j i := by
  obtain ⟨m, n, hm, ha, hadj⟩ := h
  exact ⟨n, m, ha, hm, (isAdjacent_comm hn).trans hadj⟩

theorem ospfActive_iff (hn : net.Linked) : net.ospfActive v = true ↔
    ∃ r ∈ net.routers, r.id = v.router ∧ r.ospfActive v.num = true := by
  rw [ospfActive, Option.any_eq_true]
  constructor
  · rintro ⟨r, hr, ha⟩
    exact ⟨r, List.mem_of_getElem? hr, hn.id_eq hr, ha⟩
  · rintro ⟨r, hr, hid, ha⟩
    exact ⟨r, hid ▸ hn.router?_of_mem hr, ha⟩

theorem mem_processes_of_ospfActive (hn : net.Linked) (ha : net.ospfActive v = true) :
    ⟨.ospf, v.router⟩ ∈ net.processes := by
  obtain ⟨r, hr, ha⟩ := (Option.any_eq_true _ _).mp ha
  exact (mem_processes hn).mpr ⟨r, hr, Option.isSome_of_any ha⟩

/-! ### The ways between OSPF processes -/

theorem mem_spreads_iff : e ∈ net.spreads l2 s ↔ ∃ r ∈ net.routers,
    e ∈ net.adjacencySpreads l2 r ∨ e ∈ sessionSpreads r ∨ e ∈ redistributionSpreads r ∨
      ∃ x, s = some x ∧ e ∈ originSpreads x r := by
  cases s <;> simp [spreads]

theorem mem_spreads_meet (hn : net.Linked) :
    ⟨p, q, .igpAdjacency⟩ ∈ net.spreads (.ofNetwork net) s ↔
      ∃ i j, p = .process ⟨.ospf, i⟩ ∧ q = .process ⟨.ospf, j⟩ ∧ net.Meet i j := by
  rw [mem_spreads_iff]
  constructor
  · rintro ⟨r, hr, h | h | h | ⟨x, -, h⟩⟩
    · obtain ⟨m, v, hm, hv, ha, -, he⟩ := mem_adjacencySpreads.mp h
      cases he
      exact ⟨r.id, v.router, rfl, rfl, m, v.num,
        (ospfActive_iff hn).mpr ⟨r, hr, rfl, hm⟩, ha, decide_eq_true hv⟩
    · obtain ⟨n, -, he⟩ := mem_sessionSpreads.mp h
      have hk : SpreadKind.igpAdjacency = .ofSession n.type := congrArg Spread.kind he
      cases ht : n.type <;> rw [ht] at hk <;> cases hk
    · rcases mem_redistributionSpreads.mp h with ⟨-, he⟩ | ⟨-, he⟩ <;> cases he
    · obtain ⟨_, -, he⟩ := mem_originSpreads.mp h
      cases he
  · rintro ⟨i, j, rfl, rfl, m, n, hm, ha, hadj⟩
    obtain ⟨r, hr, rfl, hm⟩ := (ospfActive_iff hn).mp hm
    have hne := ((isAdjacent_iff_chain hn).mp hadj).1
    refine ⟨r, hr, .inl (mem_adjacencySpreads.mpr ?_)⟩
    exact ⟨m, ⟨j, n⟩, hm, of_decide_eq_true hadj, ha, hne.symm, rfl⟩

/-- Nothing but an adjacency leads from one OSPF process to another. -/
theorem kind_of_ospf_ends (he : e ∈ net.spreads l2 s) (ht : e.tail = .process ⟨.ospf, i⟩)
    (hh : e.head = .process ⟨.ospf, j⟩) : e.kind = .igpAdjacency := by
  obtain ⟨r, -, h | h | h | ⟨x, -, h⟩⟩ := mem_spreads_iff.mp he
  · obtain ⟨_, _, _, _, _, _, rfl⟩ := mem_adjacencySpreads.mp h
    rfl
  · obtain ⟨_, _, rfl⟩ := mem_sessionSpreads.mp h
    cases ht
  · rcases mem_redistributionSpreads.mp h with ⟨-, rfl⟩ | ⟨-, rfl⟩
    · cases ht
    · cases hh
  · obtain ⟨_, _, rfl⟩ := mem_originSpreads.mp h
    cases ht

end Network

namespace TaintGraph

variable {net : Network} {s : Option Subnet} {p q : TaintNode}

/-- **OSPF processes are joined in a taint graph exactly if they meet.** -/
theorem mem_edges_iff_meet (hn : net.Linked) :
    ⟨p, q, .igpAdjacency⟩ ∈ (ofNetwork net (.ofNetwork net) s).edges ↔
      ∃ i j, p = .process ⟨.ospf, i⟩ ∧ q = .process ⟨.ospf, j⟩ ∧ net.Meet i j := by
  rw [← Network.mem_spreads_meet hn]
  constructor
  · intro h
    exact List.mem_of_mem_filter (mem_of_mem_distinctSpreads h)
  · intro h
    obtain ⟨i, j, rfl, rfl, hmeet⟩ := (Network.mem_spreads_meet hn).mp h
    obtain ⟨m, n, hm, ha, -⟩ := hmeet
    have hnode : ∀ {v : VlanId}, net.ospfActive v = true →
        TaintNode.process ⟨.ospf, v.router⟩ ∈ (ofNetwork net (.ofNetwork net) s).nodes :=
      fun hv => List.mem_append_left _
        (List.mem_map_of_mem (Network.mem_processes_of_ospfActive hn hv))
    have hkept : ⟨.process ⟨.ospf, i⟩, .process ⟨.ospf, j⟩, .igpAdjacency⟩ ∈
        (net.spreads (.ofNetwork net) s).filter fun e =>
          decide (e.tail ∈ (ofNetwork net (.ofNetwork net) s).nodes) &&
            decide (e.head ∈ (ofNetwork net (.ofNetwork net) s).nodes) :=
      List.mem_filter.mpr ⟨h, by simp [hnode hm, hnode ha]⟩
    -- of several ways between the two nodes the first is kept, which is an adjacency as well
    obtain ⟨⟨t, u, k⟩, hf, ht, hu⟩ := exists_mem_distinctSpreads hkept
    cases ht
    cases hu
    have hk := Network.kind_of_ospf_ends
      (List.mem_of_mem_filter (mem_of_mem_distinctSpreads hf)) rfl rfl
    cases hk
    exact hf

end TaintGraph

namespace Network

variable {net : Network}

/-- **The domains of the second layer are exact**: two VLANs are adjacent exactly if they belong to
different routers and a chain of links joins them that only switches carry on. So adjacency goes
both ways, and so do the edges between OSPF processes in the taint graph of any subnet or none. They
are the same before the taint is spread and after. -/
theorem isAdjacent_exact {c : NetworkConfig} (h : c.link = .ok net) :
    (∀ v w, (Layer2.ofNetwork net).isAdjacent v w = true ↔
      v.router ≠ w.router ∧ net.Chain v w) ∧
    (∀ v w, (Layer2.ofNetwork net).isAdjacent v w = (Layer2.ofNetwork net).isAdjacent w v) ∧
    ∀ s, let g := TaintGraph.ofNetwork net (.ofNetwork net) s
      g.taint.edges = g.edges ∧
        ∀ p q, ⟨p, q, .igpAdjacency⟩ ∈ g.edges ↔ ⟨q, p, .igpAdjacency⟩ ∈ g.edges := by
  have hn := NetworkConfig.linked_of_link h
  refine ⟨fun v w => isAdjacent_iff_chain hn, fun v w => isAdjacent_comm hn, ?_⟩
  refine fun s => ⟨rfl, fun p q => ?_⟩
  rw [TaintGraph.mem_edges_iff_meet hn, TaintGraph.mem_edges_iff_meet hn]
  constructor
  · rintro ⟨i, j, hp, hq, hmeet⟩
    exact ⟨j, i, hq, hp, hmeet.symm hn⟩
  · rintro ⟨i, j, hq, hp, hmeet⟩
    exact ⟨j, i, hp, hq, hmeet.symm hn⟩

/-- Three plain switches in a ring, each with VLAN 1, of which the first has VLAN 2 towards the
third as well; OSPF routers hang on both VLANs of the first. -/
def switchRing : NetworkConfig :=
  let a := RouterConfig.named "A"
    |>.iface "B" (some 1) |>.iface "C" (some 2) |>.iface "R" (some 1) |>.iface "Q" (some 2)
    |>.vlan 1 (Example.block 10 0 1 1) |>.vlan 2 (Example.block 10 0 2 1)
  let b := RouterConfig.named "B"
    |>.iface "A" (some 1) |>.iface "C" (some 1) |>.vlan 1 (Example.block 10 0 1 2)
  let c := RouterConfig.named "C"
    |>.iface "B" (some 1) |>.iface "A" (some 1) |>.vlan 1 (Example.block 10 0 1 3)
  let r := RouterConfig.named "R"
    |>.iface "A" (some 1) |>.vlan 1 (Example.block 10 0 1 4) |>.ospfActive 1
  let q := RouterConfig.named "Q"
    |>.iface "A" (some 2) |>.vlan 2 (Example.block 10 0 2 5) |>.ospfActive 2
  { routers := [a, b, c, r, q] }

/-- The two VLANs of the first switch are joined around the ring: a chain leads from the one to the
router behind the other, and the two routers meet. -/
theorem isAdjacent_exact_switchRing :
    switchRing.link = .ok switchRing.assemble ∧
    switchRing.assemble.Chain ⟨0, 1⟩ ⟨4, 2⟩ ∧
    ⟨.process ⟨.ospf, 4⟩, .process ⟨.ospf, 3⟩, .igpAdjacency⟩ ∈
      (TaintGraph.ofNetwork switchRing.assemble (.ofNetwork switchRing.assemble) none).edges := by
  have hlink : switchRing.link = .ok switchRing.assemble := rfl
  obtain ⟨hchain, -, hpairs⟩ := isAdjacent_exact hlink
  refine ⟨hlink, ((hchain ⟨0, 1⟩ ⟨4, 2⟩).mp ?_).2, ?_⟩
  · decide +kernel
  · refine ((hpairs none).2 _ _).mp ?_
    decide +kernel

end Network

end NetReach
