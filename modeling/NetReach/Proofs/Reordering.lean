import Mathlib.Data.List.Perm.Basic
import NetReach.Proofs.GraphPart
import NetReach.Proofs.Reduction

/-! # Configurations in another order

The routers of a configuration, and the entries of every router, may be written in another order
(`NetworkConfig.Reordered`). Routers are identified by their position, so they get other identifiers
(`NetworkConfig.matching`), and maps, traversals and the first of several entries go by these. Each
of the two configurations is contained in the other (`Reordered.within`), so both networks are part
of each other, and what is asked about routers by name has the same answer
(`NetworkConfig.answers_of_reordered`). -/

namespace NetReach

variable {φ : RouterId ↪ RouterId}

/-! ### Questions about routers by name -/

namespace Network

/-- The process of the protocol on the router with the name. -/
def process? (net : Network) (p : Protocol) (name : String) : Option Process :=
  (net.routerId? name).map (⟨p, ·⟩)

/-- The process of the router is tainted. -/
def taints (net : Network) (s : Subnet) (p : Protocol) (name : String) : Bool :=
  (net.process? p name).any (Scene.baseTaint net s).taint.isTainted

/-- The process of the router is tainted by adjacency. -/
def taintsByAdjacency (net : Network) (s : Subnet) (p : Protocol) (name : String) : Bool :=
  (net.process? p name).any (Scene.baseTaint net s).taint.taintedByAdjacency

/-- The process of the first router passes the route on to that of the second. -/
def passesOn (net : Network) (s : Subnet) (p : Protocol) (name : String) (q : Protocol)
    (name₂ : String) : Bool :=
  (net.process? p name).any fun a =>
    (net.process? q name₂).any ((Scene.baseTaint net s).taint.propagates a)

/-- Whether some path exists while the links between the named routers have failed. -/
def hasPathWithout (net : Network) (variant : Variant) (dst src : Subnet)
    (failures : List (String × String)) : Except QueryError Bool :=
  ((net.scene dst src).build variant).map fun g => (g.graph.path? (.ofNames net failures)).isSome

/-- The network is a part of the other one, whose routers have the same names. -/
structure NamedPart (φ : RouterId ↪ RouterId) (net' net : Network) : Prop where
  part : net'.Part φ net
  linked' : net'.Linked
  linked : net.Linked
  externalFirst : net.ExternalFirst
  routerId? : ∀ name, net.routerId? name = (net'.routerId? name).map φ

namespace NamedPart

variable {net' net : Network} {s : Subnet} {p q : Protocol} {name name₂ : String}
  {variant : Variant} {dst src : Subnet}

theorem process?_eq (h : NamedPart φ net' net) (p : Protocol) (name : String) :
    net.process? p name = (net'.process? p name).map (·.rename φ) := by
  rw [process?, process?, h.routerId?, Option.map_map, Option.map_map]
  rfl

theorem taints (h : NamedPart φ net' net) (ht : net'.taints s p name = true) :
    net.taints s p name = true := by
  obtain ⟨a, ha, ht⟩ := (Option.any_eq_true _ _).mp ht
  refine (Option.any_eq_true _ _).mpr ⟨a.rename φ, ?_, ?_⟩
  · rw [h.process?_eq, ha, Option.map_some]
  · exact h.part.isTainted h.linked' h.linked h.externalFirst ht

theorem taintsByAdjacency (h : NamedPart φ net' net)
    (ht : net'.taintsByAdjacency s p name = true) : net.taintsByAdjacency s p name = true := by
  obtain ⟨a, ha, ht⟩ := (Option.any_eq_true _ _).mp ht
  refine (Option.any_eq_true _ _).mpr ⟨a.rename φ, ?_, ?_⟩
  · rw [h.process?_eq, ha, Option.map_some]
  · exact h.part.taintedByAdjacency h.linked' h.linked h.externalFirst ht

theorem passesOn (h : NamedPart φ net' net) (ht : net'.passesOn s p name q name₂ = true) :
    net.passesOn s p name q name₂ = true := by
  obtain ⟨a, ha, ht⟩ := (Option.any_eq_true _ _).mp ht
  obtain ⟨b, hb, ht⟩ := (Option.any_eq_true _ _).mp ht
  refine (Option.any_eq_true _ _).mpr ⟨a.rename φ, ?_, ?_⟩
  · rw [h.process?_eq, ha, Option.map_some]
  refine (Option.any_eq_true _ _).mpr ⟨b.rename φ, ?_, ?_⟩
  · rw [h.process?_eq, hb, Option.map_some]
  · exact h.part.propagates h.linked' h.linked h.externalFirst ht

/-- The same links fail between the renamed routers. -/
theorem ofNames_eq (h : NamedPart φ net' net) (failures : List (String × String)) :
    FailureSet.ofNames net failures = (FailureSet.ofNames net' failures).rename φ := by
  rw [FailureSet.ofNames, FailureSet.ofNames, FailureSet.rename, List.map_filterMap]
  congr 2
  funext x
  simp only [h.routerId?]
  cases net'.routerId? x.1 with
  | none => rfl
  | some i => cases net'.routerId? x.2 <;> rfl

theorem isSome_path? (h : NamedPart φ net' net) (failures : List (String × String))
    (hp : (((net'.scene dst src).wiring variant).graph.path? (.ofNames net' failures)).isSome) :
    (((net.scene dst src).wiring variant).graph.path? (.ofNames net failures)).isSome := by
  have hembeds := Scene.embeds_scene h.part h.linked' h.linked h.externalFirst dst src
  refine hembeds.isSome_path?_of_failures (fun _ hopen => ?_) hp
  rw [h.ofNames_eq, FailureSet.contains_rename φ.injective, hopen]

end NamedPart

variable {ψ : RouterId ↪ RouterId} {net' net : Network}

/-- If each network is a part of the other, no graph is made for the same reason. -/
theorem error?_eq (h : NamedPart φ net' net) (h' : NamedPart ψ net net') (dst src : Subnet) :
    (net'.scene dst src).error? = (net.scene dst src).error? := by
  have hknows : ∀ s, net'.knows s = net.knows s := fun s =>
    Bool.eq_iff_iff.mpr ⟨h.part.knows h.linked', h'.part.knows h'.linked'⟩
  rw [error?_scene, error?_scene, hknows, hknows]

theorem hasPathWithout_eq_ok {variant : Variant} {dst src : Subnet}
    {failures : List (String × String)} (h : (net.scene dst src).error? = none) :
    net.hasPathWithout variant dst src failures =
      .ok (((net.scene dst src).wiring variant).graph.path? (.ofNames net failures)).isSome := by
  rw [hasPathWithout, Scene.build_of_error?_eq_none h, Except.map]

theorem hasPathWithout_eq (h : NamedPart φ net' net) (h' : NamedPart ψ net net')
    (variant : Variant) (dst src : Subnet) (failures : List (String × String)) :
    net'.hasPathWithout variant dst src failures = net.hasPathWithout variant dst src failures := by
  have herror := error?_eq h h' dst src
  have hpath : (((net'.scene dst src).wiring variant).graph.path? (.ofNames net' failures)).isSome =
      (((net.scene dst src).wiring variant).graph.path? (.ofNames net failures)).isSome :=
    Bool.eq_iff_iff.mpr ⟨h.isSome_path? failures, h'.isSome_path? failures⟩
  cases hnone : (net.scene dst src).error? with
  | some e => simp only [hasPathWithout, Scene.build, herror, hnone, Except.map]
  | none => rw [hasPathWithout_eq_ok hnone, hasPathWithout_eq_ok (herror.trans hnone), hpath]

end Network

/-! ### Entries in another order -/

/-- The processes have the same entries. -/
structure OspfConfig.Reordered (o' o : OspfConfig) : Prop where
  active : o'.active.Perm o.active
  origins : o'.origins.Perm o.origins
  redistribute : o'.redistribute.Perm o.redistribute

/-- The processes have the same entries. -/
structure BgpConfig.Reordered (b' b : BgpConfig) : Prop where
  external : b'.external.Perm b.external
  internal : b'.internal.Perm b.internal
  origins : b'.origins.Perm b.origins
  redistribute : b'.redistribute.Perm b.redistribute

/-- The routers have the same name and entries. -/
structure RouterConfig.Reordered (rc' rc : RouterConfig) : Prop where
  name : rc'.name = rc.name
  ifaces : rc'.ifaces.Perm rc.ifaces
  vlans : rc'.vlans.Perm rc.vlans
  ospf : Option.Rel OspfConfig.Reordered rc'.ospf rc.ospf
  bgp : Option.Rel BgpConfig.Reordered rc'.bgp rc.bgp
  subnets : rc'.subnets.Perm rc.subnets

/-- The configurations have the same policies, and the routers of the first one are those of the
other, in another order and with their entries in another order. -/
structure NetworkConfig.Reordered (c' c : NetworkConfig) : Prop where
  policies : c'.policies = c.policies
  routers : ∃ l, c'.routers.Perm l ∧ List.Forall₂ RouterConfig.Reordered l c.routers

theorem rel_symm {α : Type} {R : α → α → Prop} {o p : Option α} (h : Option.Rel R o p)
    (hR : ∀ a b, R a b → R b a) : Option.Rel R p o := by
  cases h with
  | some h => exact .some (hR _ _ h)
  | none => exact .none

namespace RouterConfig.Reordered

variable {rc' rc : RouterConfig}

theorem symm (h : rc'.Reordered rc) : rc.Reordered rc' where
  name := h.name.symm
  ifaces := h.ifaces.symm
  vlans := h.vlans.symm
  ospf := rel_symm h.ospf fun _ _ ho => ⟨ho.active.symm, ho.origins.symm, ho.redistribute.symm⟩
  bgp := rel_symm h.bgp fun _ _ hb =>
    ⟨hb.external.symm, hb.internal.symm, hb.origins.symm, hb.redistribute.symm⟩
  subnets := h.subnets.symm

theorem within (h : rc'.Reordered rc) : rc'.Within rc where
  name := h.name
  vlans := h.vlans
  subnets := h.subnets
  ifaces := h.ifaces.subperm
  ospf := rel_mono h.ospf fun _ _ ho => ⟨ho.origins, ho.active.subperm, ho.redistribute.subperm⟩
  bgp := rel_mono h.bgp fun _ _ hb =>
    ⟨hb.origins, hb.external.subperm, hb.internal.subperm, hb.redistribute.subperm⟩

end RouterConfig.Reordered

namespace NetworkConfig

variable {c' c : NetworkConfig}

/-- The position of the router of `c` that has the name of a router of `c'`. -/
def matching (c' c : NetworkConfig) (i : RouterId) : RouterId := (c'.names[i]?).elim i c.names.idxOf

theorem matching_injective (hn : c'.names.Nodup) (hp : c'.names.Perm c.names) :
    (matching c' c).Injective := by
  -- a router has a counterpart, and what is no router keeps its identifier
  have hlt : ∀ {i x}, c'.names[i]? = some x → matching c' c i < c'.names.length := by
    intro i x hx
    rw [matching, hx, Option.elim_some, hp.length_eq]
    exact List.idxOf_lt_length_of_mem (hp.subset (List.mem_of_getElem? hx))
  have hself : ∀ {i}, c'.names[i]? = none → matching c' c i = i := by
    intro i hi
    rw [matching, hi, Option.elim_none]
  have hge : ∀ {i}, c'.names[i]? = none → c'.names.length ≤ matching c' c i := by
    intro i hi
    rw [hself hi]
    exact List.getElem?_eq_none_iff.mp hi
  intro i j hij
  cases hi : c'.names[i]? with
  | none =>
    cases hj : c'.names[j]? with
    | none => rwa [hself hi, hself hj] at hij
    | some y => exact absurd (hij ▸ hlt hj) (hge hi).not_gt
  | some x =>
    cases hj : c'.names[j]? with
    | none => exact absurd (hij ▸ hlt hi) (hge hj).not_gt
    | some y =>
      rw [matching, matching, hi, hj, Option.elim_some, Option.elim_some] at hij
      have hxy : x = y := (List.idxOf_inj (hp.subset (List.mem_of_getElem? hi))).mp hij
      obtain ⟨hlt, -⟩ := List.getElem?_eq_some_iff.mp hi
      exact (List.getElem?_inj hlt hn).mp (by rw [hi, hj, hxy])

namespace Reordered

/-- The routers of the first configuration stand in the order in which the second one has them. -/
theorem exists_perm (h : c'.Reordered c) :
    ∃ l, List.Forall₂ RouterConfig.Reordered c'.routers l ∧ l.Perm c.routers := by
  obtain ⟨l, hp, hl⟩ := h.routers
  exact List.perm_comp_forall₂ hp hl

theorem symm (h : c'.Reordered c) : c.Reordered c' := by
  obtain ⟨l, hl, hp⟩ := h.exists_perm
  exact ⟨h.policies.symm, l, hp.symm, hl.flip.imp fun _ _ hr => hr.symm⟩

theorem perm_names (h : c'.Reordered c) : c'.names.Perm c.names := by
  obtain ⟨l, hl, hp⟩ := h.exists_perm
  have hnames : c'.routers.map (·.name) = l.map (·.name) := by
    rw [← List.forall₂_eq_eq_eq, List.forall₂_map_left_iff, List.forall₂_map_right_iff]
    exact hl.imp fun _ _ hr => hr.name
  rw [names, hnames]
  exact hp.map _

theorem exists_router (h : c'.Reordered c) (hn : c.names.Nodup) {i : RouterId} {rc' : RouterConfig}
    (hrc' : c'.routers[i]? = some rc') :
    ∃ rc, c.routers[matching c' c i]? = some rc ∧ rc'.Reordered rc := by
  obtain ⟨l, hl, hp⟩ := h.exists_perm
  obtain ⟨hi, rfl⟩ := List.getElem?_eq_some_iff.mp hrc'
  have hr := hl.get hi (hl.length_eq ▸ hi)
  have hmem : l.get ⟨i, hl.length_eq ▸ hi⟩ ∈ c.routers := hp.subset (List.get_mem _ _)
  obtain ⟨j, hj⟩ := List.mem_iff_getElem?.mp hmem
  refine ⟨_, ?_, hr⟩
  have hname : c'.names[i]? = some c'.routers[i].name := by
    rw [names, List.getElem?_map, hrc', Option.map_some]
  have hidx : c.names.idxOf? c'.routers[i].name = some j :=
    (idxOf?_names hn).mpr ⟨_, hj, hr.name.symm⟩
  rw [matching, hname, Option.elim_some, List.idxOf_eq_getD_idxOf?, hidx]
  exact hj

/-- The positions of the routers of the second configuration. -/
def embedding (h : c'.Reordered c) (hn : c.names.Nodup) : RouterId ↪ RouterId :=
  ⟨matching c' c, matching_injective (h.perm_names.nodup_iff.mpr hn) h.perm_names⟩

/-- **The reordered configuration is contained in the other one.** -/
theorem within (h : c'.Reordered c) (hn : c.names.Nodup) : c'.Within (h.embedding hn) c where
  policies := h.policies
  router := by
    intro i rc' hrc'
    obtain ⟨rc, hrc, hr⟩ := h.exists_router hn hrc'
    exact ⟨rc, hrc, hr.within⟩
  all := by
    intro j rc hrc
    have hmem : rc.name ∈ c'.names :=
      h.perm_names.mem_iff.mpr (List.mem_map_of_mem (List.mem_of_getElem? hrc))
    obtain ⟨i, hi⟩ := List.mem_iff_getElem?.mp hmem
    have hi' := hi
    rw [names, List.getElem?_map] at hi'
    obtain ⟨rc', hrc', hname⟩ := Option.map_eq_some_iff.mp hi'
    obtain ⟨nc, hnc, hr⟩ := h.exists_router hn hrc'
    refine ⟨i, rc', ?_, hrc'⟩
    exact Within.eq_of_name_eq hn hnc hrc (hr.name.symm.trans hname)
  paired := by
    intro j rc' nc' nc _ hnc' hnc _ k hk _
    obtain ⟨nc₁, hnc₁, hr⟩ := h.exists_router hn hnc'
    cases hnc.symm.trans hnc₁
    exact hr.ifaces.mem_iff.mpr hk

/-- What is asked of the network of the reordered configuration is asked of a part. -/
theorem namedPart (h : c'.Reordered c) (hn : c.names.Nodup) {net' net : Network}
    (hlink' : c'.link = .ok net') (hlink : c.link = .ok net) :
    Network.NamedPart (h.embedding hn) net' net := by
  obtain ⟨hc', rfl⟩ := link_eq_ok.mp hlink'
  obtain ⟨hc, rfl⟩ := link_eq_ok.mp hlink
  exact ⟨(h.within hn).part hc' hc, linked_assemble hc', linked_assemble hc,
    externalFirst_of_link hlink, (h.within hn).routerId?_eq hc' hc⟩

end Reordered

/-- **The order of the document decides nothing about existence**: a reordered configuration links
if the configuration does, the same processes of the same routers are tainted, tainted by adjacency
and pass the route on to each other, and for all subnets and failures either both graphs are refused
for the same reason, or both or neither have a path. -/
theorem answers_of_reordered {net : Network} (h : c'.Reordered c) (hlink : c.link = .ok net) :
    ∃ net', c'.link = .ok net' ∧
      (∀ s p name, net'.taints s p name = net.taints s p name) ∧
      (∀ s p name, net'.taintsByAdjacency s p name = net.taintsByAdjacency s p name) ∧
      (∀ s p name q name₂,
        net'.passesOn s p name q name₂ = net.passesOn s p name q name₂) ∧
      ∀ variant dst src failures, net'.hasPathWithout variant dst src failures =
        net.hasPathWithout variant dst src failures := by
  have hn : c.names.Nodup := (link_eq_ok.mp hlink).1.names
  obtain ⟨net', hlink', -⟩ := (h.within hn).exists_part_of_link hlink
  have hn' : c'.names.Nodup := (link_eq_ok.mp hlink').1.names
  have hpart := h.namedPart hn hlink' hlink
  have hpart' := h.symm.namedPart hn' hlink hlink'
  refine ⟨net', hlink', fun s p name => ?_, fun s p name => ?_, fun s p name q name₂ => ?_, ?_⟩
  · exact Bool.eq_iff_iff.mpr ⟨hpart.taints, hpart'.taints⟩
  · exact Bool.eq_iff_iff.mpr ⟨hpart.taintsByAdjacency, hpart'.taintsByAdjacency⟩
  · exact Bool.eq_iff_iff.mpr ⟨hpart.passesOn, hpart'.passesOn⟩
  · exact Network.hasPathWithout_eq hpart hpart'

end NetworkConfig

/-- The router with its entries in the opposite order. -/
def RouterConfig.reversed (rc : RouterConfig) : RouterConfig :=
  { name := rc.name
    ifaces := rc.ifaces.reverse
    vlans := rc.vlans.reverse
    ospf := rc.ospf.map fun o => ⟨o.active.reverse, o.origins.reverse, o.redistribute.reverse⟩
    bgp := rc.bgp.map fun b =>
      ⟨b.external.reverse, b.internal.reverse, b.origins.reverse, b.redistribute.reverse⟩
    subnets := rc.subnets.reverse }

theorem RouterConfig.reordered_reversed (rc : RouterConfig) : rc.reversed.Reordered rc where
  name := rfl
  ifaces := List.reverse_perm _
  vlans := List.reverse_perm _
  ospf := by
    unfold reversed
    cases rc.ospf with
    | none => exact .none
    | some o => exact .some ⟨List.reverse_perm _, List.reverse_perm _, List.reverse_perm _⟩
  bgp := by
    unfold reversed
    cases rc.bgp with
    | none => exact .none
    | some b =>
      refine .some ?_
      exact ⟨List.reverse_perm _, List.reverse_perm _, List.reverse_perm _, List.reverse_perm _⟩
  subnets := List.reverse_perm _

namespace NetworkConfig

/-- The configuration with its routers, and their entries, in the opposite order. -/
def reversed (c : NetworkConfig) : NetworkConfig :=
  { c with routers := (c.routers.map (·.reversed)).reverse }

theorem reordered_reversed (c : NetworkConfig) : c.reversed.Reordered c where
  policies := rfl
  routers := ⟨_, List.reverse_perm _, List.forall₂_map_left_iff.mpr
    (List.forall₂_same.mpr fun rc _ => rc.reordered_reversed)⟩

/-- Read from its end, the line of the tagged routes has its first router at the last position. The
router learns the route all the same, from the second one and not from the third, which originates
it, and has a path unless its only link has failed. -/
theorem answers_of_reordered_taggedPolicy :
    let c := Example.taggedPolicyConfig true
    ∃ net net', c.link = .ok net ∧ c.reversed.link = .ok net' ∧
      net.routerId? "R1" = some 0 ∧ net'.routerId? "R1" = some 2 ∧
      net'.taints "t" .bgp "R1" = true ∧ net'.taintsByAdjacency "t" .bgp "R3" = false ∧
      net'.passesOn "t" .bgp "R2" .bgp "R1" = true ∧
      net'.hasPathWithout .fine "t" "s" [("R3", "R1")] = .ok true ∧
      net'.hasPathWithout .fine "t" "s" [("R2", "R1")] = .ok false := by
  intro c
  have hlink : c.link = .ok c.assemble := rfl
  obtain ⟨net', hlink', htaints, hadjacency, hpasses, hpath⟩ :=
    answers_of_reordered c.reordered_reversed hlink
  obtain rfl : net' = c.reversed.assemble := (link_eq_ok.mp hlink').2
  refine ⟨_, _, hlink, hlink', by decide +kernel, by decide +kernel, ?_, ?_, ?_, ?_, ?_⟩
  · rw [htaints]
    decide +kernel
  · rw [hadjacency]
    decide +kernel
  · rw [hpasses]
    decide +kernel
  · rw [hpath, Network.hasPathWithout_eq_ok (by decide +kernel)]
    exact congrArg Except.ok (by decide +kernel)
  · rw [hpath, Network.hasPathWithout_eq_ok (by decide +kernel)]
    exact congrArg Except.ok (by decide +kernel)

end NetworkConfig

end NetReach
