import NetReach.Example
import NetReach.Proofs.Containment
import NetReach.Proofs.TaintPart

/-! # Configurations with fewer entries

Entries may be left out of a configuration (`NetworkConfig.Reduced`): neighbors of BGP, VLANs on
which OSPF is active, redistribution, and interfaces at both ends of a link. What is left is
contained in the configuration (`Reduced.within`), so it links and makes a part of the network
(`NetworkConfig.exists_part_of_link`). -/

namespace NetReach

/-! ### Entries left out -/

/-- The processes originate the same subnets, and the first one does no more than the other. -/
structure OspfConfig.Reduced (o' o : OspfConfig) : Prop where
  origins : o'.origins = o.origins
  active : o'.active.Sublist o.active
  redistribute : o'.redistribute.Sublist o.redistribute

/-- The processes originate the same subnets, and the first one does no more than the other. -/
structure BgpConfig.Reduced (b' b : BgpConfig) : Prop where
  origins : b'.origins = b.origins
  external : b'.external.Sublist b.external
  internal : b'.internal.Sublist b.internal
  redistribute : b'.redistribute.Sublist b.redistribute

/-- The routers have the same VLANs, processes and subnets, and the first one has no more interfaces
and sessions than the other. -/
structure RouterConfig.Reduced (rc' rc : RouterConfig) : Prop where
  name : rc'.name = rc.name
  vlans : rc'.vlans = rc.vlans
  subnets : rc'.subnets = rc.subnets
  ifaces : rc'.ifaces.Sublist rc.ifaces
  ospf : Option.Rel OspfConfig.Reduced rc'.ospf rc.ospf
  bgp : Option.Rel BgpConfig.Reduced rc'.bgp rc.bgp

/-- The configurations have the same routers and policies, and the first one has fewer entries, of
interfaces always both of a link. -/
structure NetworkConfig.Reduced (c' c : NetworkConfig) : Prop where
  policies : c'.policies = c.policies
  router : ∀ i : RouterId, Option.Rel RouterConfig.Reduced c'.routers[i]? c.routers[i]?
  paired : ∀ {j : RouterId} {rc' nc' nc : RouterConfig}, rc' ∈ c'.routers →
    c'.routers[j]? = some nc' → c.routers[j]? = some nc →
    nc.name ∈ rc'.ifaces.map (·.neighbor) → ∀ k ∈ nc.ifaces, k.neighbor = rc'.name → k ∈ nc'.ifaces

/-! ### What is left is contained -/

/-- Where a relation holds more often, options are related more often. -/
theorem rel_mono {α β : Type} {R S : α → β → Prop} {o : Option α} {p : Option β}
    (h : Option.Rel R o p) (hRS : ∀ a b, R a b → S a b) : Option.Rel S o p := by
  cases h with
  | some h => exact .some (hRS _ _ h)
  | none => exact .none

theorem RouterConfig.Reduced.within {rc' rc : RouterConfig} (h : rc'.Reduced rc) :
    rc'.Within rc where
  name := h.name
  vlans := .of_eq h.vlans
  subnets := .of_eq h.subnets
  ifaces := h.ifaces.subperm
  ospf := rel_mono h.ospf fun _ _ ho =>
    ⟨.of_eq ho.origins, ho.active.subperm, ho.redistribute.subperm⟩
  bgp := rel_mono h.bgp fun _ _ hb =>
    ⟨.of_eq hb.origins, hb.external.subperm, hb.internal.subperm, hb.redistribute.subperm⟩

namespace NetworkConfig

open Scene (baseTaint)

variable {c' c : NetworkConfig}

namespace Reduced

theorem names_eq (h : c'.Reduced c) : c'.names = c.names := by
  refine List.ext_getElem? fun i => ?_
  rw [names, names, List.getElem?_map, List.getElem?_map]
  have hrel := h.router i
  generalize c'.routers[i]? = o', c.routers[i]? = o at hrel
  cases hrel with
  | some hr => rw [Option.map_some, Option.map_some, hr.name]
  | none => rfl

/-- **What is left is contained in the configuration.** -/
theorem within (h : c'.Reduced c) : c'.Within (.refl _) c where
  policies := h.policies
  router := by
    intro i rc' hrc'
    obtain ⟨rc, hrc, hr⟩ := exists_of_rel_left (h.router i) hrc'
    exact ⟨rc, hrc, hr.within⟩
  all := by
    intro j rc hrc
    obtain ⟨rc', hrc', -⟩ := exists_of_rel_right (h.router j) hrc
    exact ⟨j, rc', rfl, hrc'⟩
  paired := h.paired

end Reduced

/-- **What is left of a configuration that links does link**, and makes a part of the network. -/
theorem exists_part_of_link {net : Network} (h : c'.Reduced c) (hlink : c.link = .ok net) :
    ∃ net', c'.link = .ok net' ∧ net'.Part (.refl _) net :=
  h.within.exists_part_of_link hlink

/-- **Linking puts the sessions with other autonomous systems first.** -/
theorem externalFirst_of_link {net : Network} (hlink : c.link = .ok net) : net.ExternalFirst := by
  obtain ⟨-, rfl⟩ := link_eq_ok.mp hlink
  intro r hr
  obtain ⟨i, hi⟩ := List.mem_iff_getElem?.mp hr
  obtain ⟨rc, -, rfl⟩ := Option.map_eq_some_iff.mp ((router?_assemble (i := i)).symm.trans hi)
  unfold Router.sessions Router.withBgp
  cases rc.bgp with
  | none => exact .nil
  | some b =>
    have hneighbors : b.neighbors.Pairwise fun m n => m.1 = .ibgp → n.1 = .ibgp := by
      refine List.pairwise_append.mpr ⟨List.pairwise_map.mpr ?_, List.pairwise_map.mpr ?_, ?_⟩
      · exact List.pairwise_of_forall fun _ _ => nofun
      · exact List.pairwise_of_forall fun _ _ _ => rfl
      · intro m hm n _ hk
        obtain ⟨_, _, rfl⟩ := List.mem_map.mp hm
        cases hk
    simp only [Option.map_some, Option.elim_some]
    refine List.pairwise_filterMap.mpr (hneighbors.imp fun {m n} hmn s hs s' hs' => ?_)
    obtain ⟨_, _, rfl⟩ := Option.map_eq_some_iff.mp hs
    obtain ⟨_, _, rfl⟩ := Option.map_eq_some_iff.mp hs'
    exact hmn

/-- **Taint is monotone in the configuration**: what is left of a configuration that links does
link, and what its taint graphs say of a process those of the whole configuration say as well. -/
theorem taint_of_reduced {net : Network} (h : c'.Reduced c) (hlink : c.link = .ok net) :
    ∃ net', c'.link = .ok net' ∧ ∀ s,
      (∀ p, (baseTaint net' s).taint.isTainted p = true →
        (baseTaint net s).taint.isTainted p = true) ∧
      (∀ p q, (baseTaint net' s).taint.propagates p q = true →
        (baseTaint net s).taint.propagates p q = true) ∧
      ∀ p, (baseTaint net' s).taint.taintedByAdjacency p = true →
        (baseTaint net s).taint.taintedByAdjacency p = true := by
  obtain ⟨net', hlink', hpart⟩ := exists_part_of_link h hlink
  have hn' := linked_of_link hlink'
  have hn := linked_of_link hlink
  have hfirst := externalFirst_of_link hlink
  exact ⟨net', hlink', fun s => ⟨fun _ => hpart.isTainted hn' hn hfirst,
    fun _ _ => hpart.propagates hn' hn hfirst, fun _ => hpart.taintedByAdjacency hn' hn hfirst⟩⟩

open Example (block host)

/-- A line of three routers behind another autonomous system. With all its entries, the first one
also takes its session with the second one for an eBGP session, has a second link to the third one,
and redistributes into OSPF. -/
def duplexConfig (all : Bool) : NetworkConfig :=
  let e : RouterConfig :=
    { name := "E", ifaces := [⟨"R1", some 1⟩], vlans := [⟨1, block 10 0 1 1⟩]
      bgp := some { external := [⟨host 10 0 1 2, none, none⟩], origins := ["t"] }
      subnets := ["t"] }
  let r1 : RouterConfig :=
    { name := "R1"
      ifaces := [⟨"E", some 1⟩, ⟨"R2", some 12⟩] ++ if all then [⟨"R3", some 13⟩] else []
      vlans := [⟨1, block 10 0 1 2⟩, ⟨12, block 10 0 12 1⟩, ⟨13, block 10 0 13 1⟩]
      ospf := some { active := 12 :: if all then [13] else []
                     redistribute := if all then [.bgp] else [] }
      bgp := some { external := ⟨host 10 0 1 1, none, none⟩ ::
                      if all then [⟨host 10 0 12 2, none, none⟩] else []
                    internal := [⟨host 10 0 12 2, none, none⟩] } }
  let r2 : RouterConfig :=
    { name := "R2", ifaces := [⟨"R1", some 12⟩, ⟨"R3", some 23⟩]
      vlans := [⟨12, block 10 0 12 2⟩, ⟨23, block 10 0 23 2⟩]
      ospf := some { active := [12] }
      bgp := some { internal := [⟨host 10 0 12 1, none, none⟩, ⟨host 10 0 23 3, none, none⟩] } }
  let r3 : RouterConfig :=
    { name := "R3", ifaces := ⟨"R2", some 23⟩ :: if all then [⟨"R1", some 13⟩] else []
      vlans := [⟨23, block 10 0 23 3⟩, ⟨13, block 10 0 13 3⟩]
      bgp := some { internal := [⟨host 10 0 23 2, none, none⟩] } }
  { routers := [e, r1, r2, r3] }

theorem reduced_duplexConfig : (duplexConfig false).Reduced (duplexConfig true) where
  policies := rfl
  router
    | 0 => .some ⟨rfl, rfl, rfl, by decide, .none, .some ⟨rfl, by decide, by decide, by decide⟩⟩
    | 1 => .some ⟨rfl, rfl, rfl, by decide, .some ⟨rfl, by decide, by decide⟩,
        .some ⟨rfl, by decide, by decide, by decide⟩⟩
    | 2 => .some ⟨rfl, rfl, rfl, by decide, .some ⟨rfl, by decide, by decide⟩,
        .some ⟨rfl, by decide, by decide, by decide⟩⟩
    | 3 => .some ⟨rfl, rfl, rfl, by decide, .none, .some ⟨rfl, by decide, by decide, by decide⟩⟩
    | _ + 4 => .none
  paired := by
    have hall : ∀ rc' ∈ (duplexConfig false).routers,
        ∀ n ∈ (duplexConfig false).routers.zip (duplexConfig true).routers,
        n.2.name ∈ rc'.ifaces.map (·.neighbor) →
          ∀ k ∈ n.2.ifaces, k.neighbor = rc'.name → k ∈ n.1.ifaces := by decide
    intro j rc' nc' nc hrc' hnc' hnc
    exact hall rc' hrc' (nc', nc)
      (List.mem_of_getElem? (List.getElem?_zip_eq_some.mpr ⟨hnc', hnc⟩))

/-- On the line the route comes to the second router over iBGP if the other session is left out, and
then does not go on to the third. With all entries it does. -/
theorem taint_of_reduced_duplex :
    ∃ net net', (duplexConfig true).link = .ok net ∧ (duplexConfig false).link = .ok net' ∧
      (baseTaint net' "t").taint.propagates ⟨.bgp, 1⟩ ⟨.bgp, 2⟩ = true ∧
      (baseTaint net "t").taint.propagates ⟨.bgp, 1⟩ ⟨.bgp, 2⟩ = true ∧
      (baseTaint net' "t").taint.isTainted ⟨.bgp, 3⟩ = false ∧
      (baseTaint net "t").taint.isTainted ⟨.bgp, 3⟩ = true := by
  have hlink : (duplexConfig true).link = .ok (duplexConfig true).assemble := rfl
  obtain ⟨net', hlink', hall⟩ := taint_of_reduced reduced_duplexConfig hlink
  obtain rfl : net' = (duplexConfig false).assemble := (link_eq_ok.mp hlink').2
  have hpropagates : (baseTaint (duplexConfig false).assemble "t").taint.propagates ⟨.bgp, 1⟩
      ⟨.bgp, 2⟩ = true := by decide +kernel
  exact ⟨_, _, hlink, hlink', hpropagates, (hall "t").2.1 _ _ hpropagates, by decide +kernel,
    by decide +kernel⟩

end NetworkConfig

end NetReach
