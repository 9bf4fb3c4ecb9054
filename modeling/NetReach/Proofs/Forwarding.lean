import NetReach.PathGraph.OfNetwork
import NetReach.Proofs.Layer2
import NetReach.Proofs.Traversal

/-! # From taint to forwarding

A process that is tainted learned its route from somewhere: it originates the subnet, or the other
process of its router does the forwarding, or a process at the end of a chain of links
(`Scene.Forwards`). Following a walk of the taint graph backwards shows this for every tainted
process (`Scene.forwards_of_isTainted`), if routers that originate the destination have it attached
and sessions are configured at both ends, over adjacent VLANs. -/

namespace NetReach

namespace Network

/-- The routers agree about the destination and about their sessions. -/
structure Coherent (net : Network) (dst : Subnet) : Prop where
  /-- A router that originates the destination has it attached. -/
  attached : ∀ {i r p}, net.router? i = some r → r.originates dst p = true → r.attaches dst = true
  /-- The peer of a session has a session back. -/
  back : ∀ {i r s}, net.router? i = some r → s ∈ r.sessions →
    ∃ r' s', net.router? s.peer = some r' ∧ s' ∈ r'.sessions ∧ s'.peer = i
  /-- A session has a local VLAN, which is adjacent to the VLAN of the peer. -/
  adjacent : ∀ {i r s}, net.router? i = some r → s ∈ r.sessions →
    ∃ v, s.localVlan = some v ∧ (Layer2.ofNetwork net).isAdjacent v s.peerVlan = true

end Network

namespace Scene

/-- The router runs a process of the protocol that is tainted. -/
structure Runs (c : Scene) (p : Protocol) (r : Router) : Prop where
  router : c.net.router? r.id = some r
  runs : r.runs p = true
  tainted : c.taint.isTainted ⟨p, r.id⟩ = true

/-- How a tainted process gets packets to the destination. -/
inductive Forwards (c : Scene) : Protocol → Router → Prop where
  /-- The process delivers them. -/
  | deliver {p : Protocol} {r : Router} : c.Runs p r → r.attaches c.dst = true →
    r.originates c.dst p = true → Forwards c p r
  /-- BGP of the router does it for OSPF. -/
  | ospfFromBgp {r : Router} : c.Runs .ospf r → r.ospfFromBgp = true → Forwards c .bgp r →
    Forwards c .ospf r
  /-- OSPF of the router does it for BGP. -/
  | bgpFromOspf {r : Router} : c.Runs .bgp r → r.bgpFromOspf = true → Forwards c .ospf r →
    Forwards c .bgp r
  /-- OSPF sends them to OSPF at the end of a chain. -/
  | adjacency {r r' : Router} {v w : VlanId} : c.Runs .ospf r →
    c.taint.taintedByAdjacency ⟨.ospf, r.id⟩ = true → v ∈ c.ospfEgress r → c.net.Chain v w →
    w.router = r'.id → Forwards c .ospf r' → Forwards c .ospf r
  /-- BGP sends them to a peer at the end of a chain. -/
  | session {r r' : Router} {s : Session} {v : VlanId} : c.Runs .bgp r → s ∈ r.sessions →
    c.learnsFrom r s = true → s.localVlan = some v → c.net.Chain v s.peerVlan →
    s.peerVlan.router = r'.id → Forwards c .bgp r' → Forwards c .bgp r

theorem Forwards.runs {c : Scene} {p : Protocol} {r : Router} (h : c.Forwards p r) :
    c.Runs p r := by
  cases h with
  | deliver h _ _ => exact h
  | ospfFromBgp h _ _ => exact h
  | bgpFromOspf h _ _ => exact h
  | adjacency h _ _ _ _ _ => exact h
  | session h _ _ _ _ _ _ => exact h

section OfWalk

open TaintGraph (endState)

variable {net : Network} {dst src : Subnet} {w : List Spread} {p : Process}

/-- The taint graph of the destination before the taint is spread. -/
abbrev baseTaint (net : Network) (dst : Subnet) : TaintGraph :=
  .ofNetwork net (.ofNetwork net) (some dst)

theorem baseTaint_exact (hn : net.Linked) (dst : Subnet) :
    (baseTaint net dst).Exact net dst ((baseTaint net dst).taint.isTainted · = true)
      ((baseTaint net dst).taint.propagates · · = true)
      ((baseTaint net dst).taint.taintedByAdjacency · = true) :=
  TaintGraph.exact_taint hn (TaintGraph.ofNetwork_madeFrom net _ dst)

/-- At the end of a walk stands a process that runs and is tainted. -/
theorem runs_of_isWalk (src : Subnet) (hn : net.Linked) (hw : (baseTaint net dst).IsWalk dst w)
    (hp : (endState dst w).1 = .process p) :
    ∃ r, r.id = p.router ∧ (net.scene dst src).Runs p.protocol r := by
  have hmade := TaintGraph.ofNetwork_madeFrom net (.ofNetwork net) dst
  have hmem := TaintGraph.mem_states.mp (TaintGraph.endState_mem_states hmade.fits hw)
  rw [hp] at hmem
  rcases hmade.mem_nodes.mp hmem with h | ⟨q, hq, h⟩
  · cases h
  · cases h
    obtain ⟨r, hr, hruns⟩ := (Network.mem_processes hn).mp hq
    have hid : r.id = p.router := hn.id_eq hr
    refine ⟨r, hid, hid ▸ hr, hruns, ?_⟩
    exact ((baseTaint_exact hn dst).isTainted_iff _).mpr ⟨w, hw, by rw [hp, hid]⟩

theorem mem_ospfEgress_scene {r : Router} {v x : VlanId} (hr : v.router = r.id)
    (ha : r.ospfActive v.num = true) (hx : x ∈ (Layer2.ofNetwork net).adjacent v)
    (hxa : net.ospfActive x = true) : v ∈ (net.scene dst src).ospfEgress r := by
  refine List.mem_filter.mpr ⟨List.mem_map.mpr ⟨v.num, Router.mem_active_iff.mpr ha, ?_⟩, ?_⟩
  · rw [← hr]
  · exact List.any_eq_true.mpr ⟨x, hx, hxa⟩

/-- **Every walk of the taint graph, followed backwards, forwards to the destination.** -/
theorem forwards_of_isWalk (hn : net.Linked) (hc : net.Coherent dst) (w : List Spread) :
    ∀ {p}, (baseTaint net dst).IsWalk dst w → (endState dst w).1 = .process p →
      ∃ r, r.id = p.router ∧ (net.scene dst src).Forwards p.protocol r := by
  have hmade := TaintGraph.ofNetwork_madeFrom net (.ofNetwork net) dst
  have hexact := baseTaint_exact hn dst
  -- the last edge of the walk is the first step of the packet, the walk before it is the rest
  induction w using List.reverseRecOn with
  | nil => intro p _ hp; cases hp
  | append_singleton w e ih =>
    intro p hw hp
    obtain ⟨r, hid, hruns⟩ := runs_of_isWalk src hn hw hp
    obtain ⟨hw', he, hf⟩ := TaintGraph.isWalk_concat.mp hw
    have htail : (endState dst w).1 = e.tail := (TaintGraph.follows_iff.mp hf).1.symm
    rw [TaintGraph.endState_concat] at hp
    have hrouter : net.router? r.id = some r := hruns.router
    obtain ⟨i, r', hr', hcases⟩ := Network.mem_spreads.mp (hmade.of_mem_edges he).1
    have hid' : r'.id = i := hn.id_eq hr'
    subst hid'
    have hsame : ∀ {r₁ j}, r.id = j → net.router? j = some r₁ → r = r₁ := fun hj h₁ =>
      (Network.eq_of_router? h₁ hrouter hj).symm
    rcases hcases with h | h | h | h
    · obtain ⟨num, v, hnum, hv, hva, hne, rfl⟩ := Network.mem_adjacencySpreads.mp h
      cases hp
      have hid : r.id = v.router := hid
      refine ⟨r, hid, ?_⟩
      -- an adjacency marks no process that originates the destination, but that one delivers
      by_cases ho : net.Originates ⟨.ospf, v.router⟩ dst
      · obtain ⟨r₁, hr₁, ho⟩ := ho
        obtain rfl := hsame hid hr₁
        exact .deliver hruns (hc.attached hr₁ ho) ho
      · obtain ⟨r₂, hid₂, hfwd⟩ := ih hw' htail
        have hadj : ⟨r'.id, num⟩ ∈ (Layer2.ofNetwork net).adjacent v :=
          (Network.mem_adjacent_comm hn).mp hv
        have hchain := ((Network.mem_adjacent hn).mp hadj).1
        have htainted : (net.scene dst src).taint.taintedByAdjacency ⟨.ospf, r.id⟩ = true :=
          (hexact.taintedByAdjacency_iff _).mpr ⟨hid ▸ ho, w, _, hw, rfl, by rw [hid]⟩
        refine .adjacency hruns htainted (mem_ospfEgress_scene hid.symm ?_ hadj ?_) hchain
          hid₂.symm hfwd
        · rw [Network.ospfActive, ← hid, hrouter] at hva
          exact hva
        · rw [Network.ospfActive, hr']
          exact hnum
    · obtain ⟨s, hs, rfl⟩ := Network.mem_sessionSpreads.mp h
      cases hp
      have hid : r.id = s.peer := hid
      -- the session of the neighbor spreads the taint, the packet takes the one that leads back
      obtain ⟨r₁, s', hr₁, hs', hpeer⟩ := hc.back hr' hs
      obtain rfl := hsame hid hr₁
      obtain ⟨v, hv, hadj⟩ := hc.adjacent hr₁ hs'
      have hchain := ((Network.mem_adjacent hn).mp (of_decide_eq_true hadj)).1
      obtain ⟨-, hvlan, -⟩ := hn.peer hr₁ hs'
      obtain ⟨r₂, hid₂, hfwd⟩ := ih hw' htail
      have hlearns : (net.scene dst src).learnsFrom r s' = true :=
        (hexact.propagates_iff _ _).mpr ⟨w, _, hw, by rw [hpeer], by rw [hid]⟩
      refine ⟨r, hid, .session hruns hs' hlearns hv hchain ?_ hfwd⟩
      rw [hvlan, hpeer, hid₂]
    · rcases Network.mem_redistributionSpreads.mp h with ⟨hfrom, rfl⟩ | ⟨hfrom, rfl⟩
      · cases hp
        obtain rfl := hsame hid hr'
        obtain ⟨r₂, hid₂, hfwd⟩ := ih hw' htail
        obtain rfl := hsame hid₂.symm hfwd.runs.router
        exact ⟨r, hid, .ospfFromBgp hruns hfrom hfwd⟩
      · cases hp
        obtain rfl := hsame hid hr'
        obtain ⟨r₂, hid₂, hfwd⟩ := ih hw' htail
        obtain rfl := hsame hid₂.symm hfwd.runs.router
        exact ⟨r, hid, .bgpFromOspf hruns hfrom hfwd⟩
    · obtain ⟨q, hq, rfl⟩ := Network.mem_originSpreads.mp h
      cases hp
      obtain rfl := hsame hid hr'
      exact ⟨r, hid, .deliver hruns (hc.attached hr' hq) hq⟩

/-- **Every tainted process forwards to the destination.** -/
theorem forwards_of_isTainted (hn : net.Linked) (hc : net.Coherent dst)
    (hp : (net.scene dst src).taint.isTainted p = true) :
    ∃ r, r.id = p.router ∧ (net.scene dst src).Forwards p.protocol r := by
  obtain ⟨w, hw, hend⟩ := ((baseTaint_exact hn dst).isTainted_iff p).mp hp
  exact forwards_of_isWalk hn hc w hw hend

end OfWalk

end Scene

end NetReach
