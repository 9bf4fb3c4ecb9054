import NetReach.Proofs.References
import NetReach.Proofs.Tunnel

/-! # Sessions in the path graphs

Every session over which a router learns the route has a wire of its own to its next hop
(`Scene.sessionWire`), and no other wire reports anything or starts at a session
(`Scene.isPlain_or_session`). A graph keeps only the first of the wires between two vertices, so a
session is kept with its policies if no other session of the router has the same peer
(`Scene.keepsSession_of_only`). Of two sessions with one peer the second one is lost, or reported as
if its next hop were missing (`Scene.not_keepsSessions`). -/

namespace NetReach

/-- Where only one item of a list contributes, it is all there is. -/
theorem flatMap_eq_of_filter {α β : Type} {l : List α} {q : α → Bool} {g : α → List β} {a : α}
    (hl : l.filter q = [a]) (hg : ∀ b ∈ l, q b = false → g b = []) : l.flatMap g = g a := by
  obtain ⟨l₁, l₂, rfl, h₁, -, h₂⟩ := List.filter_eq_cons_iff.mp hl
  have hfirst : l₁.flatMap g = [] := List.flatMap_eq_nil_iff.mpr fun b hb =>
    hg b (List.mem_append_left _ hb) (Bool.eq_false_iff.mpr (h₁ b hb))
  have hlast : l₂.flatMap g = [] := List.flatMap_eq_nil_iff.mpr fun b hb =>
    hg b (List.mem_append_right _ (List.mem_cons_of_mem _ hb))
      (Bool.eq_false_iff.mpr (List.filter_eq_nil_iff.mp h₂ b hb))
  rw [List.flatMap_append, List.flatMap_cons, hfirst, hlast, List.nil_append, List.append_nil]

theorem flatMap_filter {α β : Type} (q : α → Bool) (g : α → List β) (l : List α) :
    (l.filter q).flatMap g = l.flatMap fun a => if q a then g a else [] := by
  induction l with
  | nil => rfl
  | cons a l ih =>
    rw [List.flatMap_cons, ← ih, List.filter_cons]
    split
    · rw [List.flatMap_cons]
    · rw [List.nil_append]

/-! ### Warnings -/

namespace Wire

/-- The wire reports `x` if it is refused. -/
def reports (x : Warning) (w : Wire) : Bool := w.refused = some x

end Wire

namespace Wiring

variable {g : PathGraph} {s : Wiring} {ws : List Wire} {w : Wire} {x : Warning}

theorem count_warnings_add : (s.add w).warnings.count x =
    s.warnings.count x + if w.reports x ∧ s.graph.accepts w.arc = false then 1 else 0 := by
  unfold add Wire.reports
  cases h : s.graph.accepts w.arc with
  | true => simp
  | false =>
    cases hw : w.refused with
    | none => simp
    | some y => by_cases hxy : y = x <;> simp [hxy]

theorem count_warnings_foldl (h : ∀ w ∈ ws, w.reports x = false) :
    (ws.foldl add s).warnings.count x = s.warnings.count x := by
  induction ws generalizing s with
  | nil => rfl
  | cons w ws ih =>
    rw [List.foldl_cons, ih fun w hw => h w (List.mem_cons_of_mem _ hw), count_warnings_add,
      h w List.mem_cons_self]
    simp

/-- **What one wire alone reports is logged once, unless it is an edge**, which it is between
different vertices if the wires at the same place do not come before it. -/
theorem count_warnings_ofWires (hg : g.edges = ∅) (honly : ws.filter (·.reports x) = [w])
    (harc : ∀ w' ∈ ws, w'.arc = w.arc → w'.reports x = true) :
    (ofWires g ws).warnings.count x =
      if w.arc.tail ∈ g.vertices ∧ w.arc.head ∈ g.vertices ∧ w.arc.tail ≠ w.arc.head then 0
      else 1 := by
  obtain ⟨l₁, l₂, rfl, h₁, hw, h₂⟩ := List.filter_eq_cons_iff.mp honly
  have hfirst : ∀ w' ∈ l₁, w'.reports x = false := fun w' hw' => Bool.eq_false_iff.mpr (h₁ w' hw')
  have hlast : ∀ w' ∈ l₂, w'.reports x = false := fun w' hw' =>
    Bool.eq_false_iff.mpr (List.filter_eq_nil_iff.mp h₂ w' hw')
  obtain ⟨hvertices, -, -, hedges⟩ := graph_foldl_add ⟨g, []⟩ l₁
  -- no wire before this one is at the same place
  have hnone : (l₁.foldl add ⟨g, []⟩).graph.edges.get? w.arc = none := by
    rw [← Option.not_isSome_iff_eq_none, hedges, hg]
    rintro (h | ⟨w', hw', h, -⟩)
    · cases h
    · have hreports := harc w' (List.mem_append_left _ hw') h.symm
      rw [hfirst w' hw'] at hreports
      cases hreports
  rw [ofWires, List.foldl_append, List.foldl_cons, count_warnings_foldl hlast, count_warnings_add,
    count_warnings_foldl hfirst, List.count_nil, Nat.zero_add]
  have haccepts := PathGraph.accepts_iff (g := (l₁.foldl add ⟨g, []⟩).graph) (a := w.arc)
  rw [hvertices, and_iff_left hnone] at haccepts
  by_cases h : w.arc.tail ∈ g.vertices ∧ w.arc.head ∈ g.vertices ∧ w.arc.tail ≠ w.arc.head
  · simp [if_pos h, haccepts.mpr h]
  · simp [if_neg h, Bool.eq_false_iff.mpr (mt haccepts.mp h), hw]

end Wiring

/-! ### The wires of sessions -/

/-- The router has the session, and no other one with the same peer. -/
def Router.HasOnly (r : Router) (n : Session) : Prop :=
  r.sessions.filter (fun s => s.peer = n.peer) = [n]

instance (r : Router) (n : Session) : Decidable (r.HasOnly n) :=
  inferInstanceAs (Decidable (_ = _))

theorem Router.HasOnly.mem {r : Router} {n : Session} (h : r.HasOnly n) : n ∈ r.sessions := by
  refine List.mem_of_mem_filter (p := fun s => decide (s.peer = n.peer)) ?_
  rw [h]
  exact List.mem_singleton_self n

theorem Router.HasOnly.eq {r : Router} {n n' : Session} (h : r.HasOnly n)
    (hs : n' ∈ r.sessions) (hp : n'.peer = n.peer) : n' = n := by
  have hmem : n' ∈ r.sessions.filter (fun s => s.peer = n.peer) :=
    List.mem_filter.mpr ⟨hs, decide_eq_true hp⟩
  rw [h, List.mem_singleton] at hmem
  exact hmem

/-- The vertex stands for a session. -/
def VertexKind.isSession : VertexKind → Bool
  | bgpSession _ _ | bgpOut _ _ => true
  | _ => false

/-- The wire reports nothing and starts at no session. -/
def Wire.IsPlain (w : Wire) : Prop := w.refused = none ∧ w.arc.tail.kind.isSession = false

theorem Wire.IsPlain.reports {w : Wire} (h : w.IsPlain) (x : Warning) : w.reports x = false := by
  rw [Wire.reports, h.1]
  rfl

namespace Scene

variable {c : Scene} {variant : Variant} {r r' : Router} {n n' : Session} {w : Wire}

/-- Where packets of a session are handed over to the peer: the vertex of the session in the coarse
graph, and its outgoing vertex in the fine graph. -/
def sessionStart : Variant → Router → Session → Vertex
  | .coarse, r, n => sessionVertex r n
  | .fine, r, n => .main (.bgpOut r.id n.peer)

/-- The next hop of a session: its local VLAN, or without one OSPF, in the fine graph that in the
layer of the VLAN of the peer. -/
def sessionNextHop : Variant → Router → Session → Vertex
  | .coarse, r, n => .main (n.localVlan.elim (.ospf r.id) .vlan)
  | .fine, r, n =>
    n.localVlan.elim (.nextHop n.peerVlan (.ospfIn r.id)) fun v => .main (.vlanOut v)

/-- The wire of a session to its next hop. In the coarse graph it carries the policies. -/
def sessionWire (c : Scene) (variant : Variant) (r : Router) (n : Session) : Wire where
  arc := ⟨sessionStart variant r n, sessionNextHop variant r n⟩
  edge :=
    { kind := .dependency
      policies := match variant with
        | .coarse => c.sessionPolicies r n
        | .fine => [] }
  refused := some (c.nextHopWarning r n)

/-- The wires of a router that belong to none of its sessions. -/
def ownWires (c : Scene) : Variant → Router → List Wire
  | .coarse, r => r.vlans.values.flatMap (c.coarseVlanWires r) ++ c.coarseOspfWires r
  | .fine, r => r.vlans.values.flatMap (c.fineVlanWires r) ++ c.fineRibWires r ++
      c.fineOspfWires r ++
      ((if c.bgpDelivers r then [.plain .delivery (.main (.bgpIn r.id)) c.destination] else []) ++
        if r.bgpFromOspf then
          [.plain .redistribution (.main (.bgpIn r.id)) (.main (.ospfIn r.id))] else [])

/-- The wires by which packets come to a session. In the fine graph they carry the policies. -/
def entryWires (c : Scene) : Variant → Router → Session → List Wire
  | .coarse, r, n => if c.bgpTainted r && r.attaches c.src then
      [.plain .origin c.source (sessionVertex r n)] else []
  | .fine, r, n => if c.learnsFrom r n then
      [{ arc := ⟨.main (.bgpIn r.id), .main (.bgpOut r.id n.peer)⟩
         edge := { kind := .relay, policies := c.sessionPolicies r n } }] else []

/-- All wires in the layers of next hops. -/
def layerWires (c : Scene) : Variant → List Wire
  | .coarse => []
  | .fine => c.layers.toList.flatMap fun l => c.net.routers.flatMap (c.layerWiresOf l)

/-- **Every session over which a router learns the route has one wire to its next hop.** -/
theorem wires_eq (c : Scene) (variant : Variant) :
    c.wires variant = (c.net.routers.flatMap fun r => c.ownWires variant r ++
      r.sessions.flatMap fun n => c.entryWires variant r n ++
        if c.learnsFrom r n then [c.sessionWire variant r n] else []) ++ c.layerWires variant := by
  cases variant with
  | coarse =>
    rw [layerWires, List.append_nil]
    rfl
  | fine =>
    have hsessions : ∀ r, (c.learningSessions r).flatMap (c.fineSessionWires r) =
        r.sessions.flatMap fun n => c.entryWires .fine r n ++
          if c.learnsFrom r n then [c.sessionWire .fine r n] else [] := by
      intro r
      rw [learningSessions, flatMap_filter]
      refine List.flatMap_congr fun n _ => ?_
      rw [entryWires]
      split <;> rfl
    have hrouter : c.fineWiresOf = fun r => c.ownWires .fine r ++
        r.sessions.flatMap fun n => c.entryWires .fine r n ++
          if c.learnsFrom r n then [c.sessionWire .fine r n] else [] := by
      funext r
      rw [fineWiresOf, fineBgpWires, hsessions, ← List.append_assoc]
      rfl
    rw [wires, hrouter]
    rfl

/-! ### What sessions report -/

theorem isPlain_of_mem_ownWires (hw : w ∈ c.ownWires variant r) : w.IsPlain := by
  cases variant with
  | coarse =>
    simp only [ownWires, coarseVlanWires, coarseOspfWires, List.mem_append, List.mem_flatMap,
      List.mem_map, List.mem_ite_nil_left, List.mem_ite_nil_right, List.mem_singleton] at hw
    rcases hw with
      ⟨x, -, ((⟨y, -, rfl⟩ | ⟨-, rfl⟩) | ⟨-, s, -, rfl⟩) | ⟨-, rfl⟩⟩ |
      ⟨-, (⟨y, -, rfl⟩ | ⟨-, rfl⟩) | ⟨-, s, -, rfl⟩⟩ <;>
      exact ⟨rfl, rfl⟩
  | fine =>
    simp only [ownWires, fineVlanWires, fineRibWires, fineOspfWires, List.mem_append,
      List.mem_cons, List.mem_flatMap, List.mem_map, List.mem_ite_nil_left,
      List.mem_ite_nil_right, List.not_mem_nil, or_false] at hw
    rcases hw with ((⟨x, -, rfl | ⟨y, -, rfl⟩⟩ | ⟨-, rfl⟩ | rfl | rfl) |
      ⟨-, ((⟨-, rfl⟩ | ⟨y, -, rfl⟩) | ⟨-, rfl⟩) | ⟨-, rfl⟩⟩) | ⟨-, rfl⟩ | ⟨-, rfl⟩
    · split <;> exact ⟨rfl, rfl⟩
    all_goals exact ⟨rfl, rfl⟩

theorem isPlain_of_mem_entryWires (hw : w ∈ c.entryWires variant r n) : w.IsPlain := by
  cases variant with
  | coarse | fine =>
    obtain ⟨-, hw⟩ := List.mem_ite_nil_right.mp hw
    obtain rfl := List.mem_singleton.mp hw
    exact ⟨rfl, rfl⟩

theorem isPlain_of_mem_layerWires (hw : w ∈ c.layerWires variant) : w.IsPlain := by
  cases variant with
  | coarse => cases hw
  | fine =>
    simp only [layerWires, layerWiresOf, layerVlanWires, List.mem_append, List.mem_cons,
      List.mem_flatMap, List.mem_map, List.mem_ite_nil_right] at hw
    obtain ⟨layer, -, r, -, ⟨x, -, rfl | ⟨y, -, rfl⟩⟩ | ⟨-, rfl | ⟨y, -, rfl⟩⟩⟩ := hw
    · split
      · exact ⟨rfl, rfl⟩
      · split <;> exact ⟨rfl, rfl⟩
    all_goals exact ⟨rfl, rfl⟩

/-- **Only the wires of sessions report anything or start at a session.** -/
theorem isPlain_or_session (hw : w ∈ c.wires variant) : w.IsPlain ∨
    ∃ r ∈ c.net.routers, ∃ n ∈ r.sessions, c.learnsFrom r n = true ∧
      w = c.sessionWire variant r n := by
  rw [wires_eq, List.mem_append, List.mem_flatMap] at hw
  rcases hw with ⟨r, hr, hw⟩ | hw
  · rw [List.mem_append, List.mem_flatMap] at hw
    rcases hw with hw | ⟨n, hn, hw⟩
    · exact .inl (isPlain_of_mem_ownWires hw)
    · rw [List.mem_append, List.mem_ite_nil_right, List.mem_singleton] at hw
      rcases hw with hw | ⟨hlearns, hw⟩
      · exact .inl (isPlain_of_mem_entryWires hw)
      · exact .inr ⟨r, hr, n, hn, hlearns, hw⟩
  · exact .inl (isPlain_of_mem_layerWires hw)

theorem filter_of_isPlain {l : List Wire} (hl : ∀ w ∈ l, w.IsPlain) (x : Warning) :
    l.filter (·.reports x) = [] :=
  List.filter_eq_nil_iff.mpr fun w hw => by simp [(hl w hw).reports]

/-- **What reports `x` are the wires of the sessions that `x` is about.** -/
theorem filter_wires (c : Scene) (variant : Variant) (x : Warning) :
    (c.wires variant).filter (·.reports x) =
      c.net.routers.flatMap fun r => r.sessions.flatMap fun n =>
        if c.learnsFrom r n ∧ c.nextHopWarning r n = x then [c.sessionWire variant r n]
        else [] := by
  rw [wires_eq, List.filter_append, filter_of_isPlain fun w hw => isPlain_of_mem_layerWires hw,
    List.append_nil, List.filter_flatMap]
  refine List.flatMap_congr fun r _ => ?_
  rw [List.filter_append, filter_of_isPlain fun w hw => isPlain_of_mem_ownWires hw,
    List.nil_append, List.filter_flatMap]
  refine List.flatMap_congr fun n _ => ?_
  rw [List.filter_append, filter_of_isPlain fun w hw => isPlain_of_mem_entryWires hw,
    List.nil_append]
  cases c.learnsFrom r n with
  | false => simp
  | true => simp [List.filter_cons, Wire.reports, sessionWire]

section OfLinked

variable {cfg : NetworkConfig}

/-- What is reported tells the router and the peer. -/
theorem eq_of_nextHopWarning (hn : c.net.Linked) (hres : c.net.Resolves cfg)
    (hr : r ∈ c.net.routers) (hr' : r' ∈ c.net.routers) (hs : n ∈ r.sessions)
    (hs' : n' ∈ r'.sessions) (h : c.nextHopWarning r' n' = c.nextHopWarning r n) :
    r'.id = r.id ∧ n'.peer = n.peer := by
  injection h with haddr hname
  have hlt : ∀ {x : Router}, x ∈ c.net.routers → x.id < c.net.routers.length := fun hx =>
    (List.getElem?_eq_some_iff.mp (hn.router?_of_mem hx)).1
  have hid := (hres.routerId? (c.net.routerName r.id) r.id).mpr ⟨hlt hr, rfl⟩
  have hid' := (hres.routerId? (c.net.routerName r.id) r'.id).mpr ⟨hlt hr', hname⟩
  obtain ⟨hvlan, ⟨x, hx, hxn⟩, hpeer, -⟩ := hres.peer r hr n hs
  obtain ⟨hvlan', -, hpeer', -⟩ := hres.peer r' hr' n' hs'
  have hx' : x.id = n'.peerVlan := (hvlan' x hx).mp (((hvlan x hx).mpr hxn).trans haddr.symm)
  refine ⟨Option.some.inj (hid'.symm.trans hid), ?_⟩
  rw [← hpeer, ← hpeer', ← hxn, hx']

/-- Only its own wire reports a session that is the only one with its peer. -/
theorem filter_reports (hn : c.net.Linked) (hres : c.net.Resolves cfg) (hr : r ∈ c.net.routers)
    (honly : r.HasOnly n) (hlearns : c.learnsFrom r n = true) :
    (c.wires variant).filter (·.reports (c.nextHopWarning r n)) =
      [c.sessionWire variant r n] := by
  rw [filter_wires, flatMap_eq_of_filter (hn.filter_id hr), flatMap_eq_of_filter honly]
  · rw [if_pos ⟨hlearns, rfl⟩]
  · intro n' hs' hne
    refine if_neg fun h => of_decide_eq_false hne ?_
    exact (eq_of_nextHopWarning hn hres hr hr honly.mem hs' h.2).2
  · intro r' hr' hne
    refine List.flatMap_eq_nil_iff.mpr fun n' hs' => if_neg fun h => of_decide_eq_false hne ?_
    exact (eq_of_nextHopWarning hn hres hr hr' honly.mem hs' h.2).1

theorem eq_of_sessionStart (h : sessionStart variant r' n' = sessionStart variant r n) :
    r'.id = r.id ∧ n'.peer = n.peer := by
  cases variant with
  | coarse | fine =>
    injection h with _ h
    injection h with hid hpeer
    exact ⟨hid, hpeer⟩

/-- **No other wire starts at the session.** -/
theorem eq_sessionWire_of_tail (hn : c.net.Linked) (hr : r ∈ c.net.routers)
    (honly : r.HasOnly n) (hw : w ∈ c.wires variant)
    (htail : w.arc.tail = sessionStart variant r n) : w = c.sessionWire variant r n := by
  rcases isPlain_or_session hw with ⟨-, hplain⟩ | ⟨r', hr', n', hs', -, rfl⟩
  · rw [htail] at hplain
    cases variant <;> cases hplain
  · obtain ⟨hid, hpeer⟩ := eq_of_sessionStart htail
    obtain rfl := Network.eq_of_router? (hn.router?_of_mem hr') (hn.router?_of_mem hr) hid.symm
    rw [honly.eq hs' hpeer]

end OfLinked

/-! ### Sessions that are kept -/

/-- The graph has the edge with the policies of the session, and the edge to its next hop. -/
def Carries (c : Scene) (g : PathGraph) : Variant → Router → Session → Prop
  | .coarse, r, n =>
    g.edge? (sessionVertex r n) (sessionNextHop .coarse r n) =
      some { kind := .dependency, policies := c.sessionPolicies r n }
  | .fine, r, n =>
    g.edge? (.main (.bgpIn r.id)) (.main (.bgpOut r.id n.peer)) =
        some { kind := .relay, policies := c.sessionPolicies r n } ∧
      g.edge? (.main (.bgpOut r.id n.peer)) (sessionNextHop .fine r n) =
        some { kind := .dependency }

/-- With its next hop the session is in the graph, and nothing is reported. Without it, that is
reported once. -/
structure Keeps (c : Scene) (g : Wiring) (variant : Variant) (r : Router) (n : Session) :
    Prop where
  kept : sessionNextHop variant r n ∈ g.graph.vertices →
    c.Carries g.graph variant r n ∧ g.warnings.count (c.nextHopWarning r n) = 0
  missing : sessionNextHop variant r n ∉ g.graph.vertices →
    g.warnings.count (c.nextHopWarning r n) = 1

/-- The graph of the variant keeps all sessions over which routers learn the route. -/
def KeepsSessions (c : Scene) (variant : Variant) : Prop :=
  ∀ ⦃g r n⦄, c.build variant = .ok g → r ∈ c.net.routers → n ∈ r.sessions →
    c.learnsFrom r n = true → c.Keeps g variant r n

theorem sessionStart_ne_sessionNextHop (r : Router) (n : Session) :
    sessionStart variant r n ≠ sessionNextHop variant r n := by
  cases variant with
  | coarse | fine =>
    cases hv : n.localVlan <;>
      simp [sessionStart, sessionNextHop, sessionVertex, Vertex.main, Vertex.nextHop, hv]

theorem sessionWire_mem (hr : r ∈ c.net.routers) (hs : n ∈ r.sessions)
    (hlearns : c.learnsFrom r n = true) : c.sessionWire variant r n ∈ c.wires variant := by
  rw [wires_eq]
  refine List.mem_append_left _ (List.mem_flatMap.mpr ⟨r, hr, List.mem_append_right _ ?_⟩)
  refine List.mem_flatMap.mpr ⟨n, hs, List.mem_append_right _ ?_⟩
  rw [if_pos hlearns]
  exact List.mem_singleton_self _

section Only

variable (hn : c.net.Linked) (hr : r ∈ c.net.routers)
  (honly : r.HasOnly n) (hlearns : c.learnsFrom r n = true)

include hn hr honly hlearns

/-- With its next hop a session has the edge that its wire lays. -/
theorem edge?_session (hstart : sessionStart variant r n ∈ (c.wiring variant).graph.vertices)
    (hnext : sessionNextHop variant r n ∈ (c.wiring variant).graph.vertices) :
    (c.wiring variant).graph.edge? (sessionStart variant r n) (sessionNextHop variant r n) =
      some (c.sessionWire variant r n).edge := by
  have hmem : c.sessionWire variant r n ∈ c.wires variant :=
    sessionWire_mem hr honly.mem hlearns
  have hsucc := mem_successors_wiring.mpr ⟨⟨_, hmem, rfl⟩, hstart, hnext,
    sessionStart_ne_sessionNextHop r n, FailureSet.cuts_empty _ _⟩
  obtain ⟨⟨e, he⟩, -⟩ := PathGraph.mem_successors.mp hsucc
  obtain ⟨w, hw, harc, rfl⟩ := exists_wire.mpr (edge_of_wiring he)
  rw [he, eq_sessionWire_of_tail hn hr honly hw (congrArg Arc.tail harc)]

/-- In the fine graph packets come to a session with its policies. -/
theorem edge?_relay (hin : .main (.bgpIn r.id) ∈ (c.wiring .fine).graph.vertices)
    (hout : .main (.bgpOut r.id n.peer) ∈ (c.wiring .fine).graph.vertices) :
    (c.wiring .fine).graph.edge? (.main (.bgpIn r.id)) (.main (.bgpOut r.id n.peer)) =
      some { kind := .relay, policies := c.sessionPolicies r n } := by
  have hs := mem_learningSessions.mpr ⟨honly.mem, hlearns⟩
  have hsucc := mem_successors_iff.mpr ⟨⟨_, .fine hr (.bgpRelay hs)⟩, hin, hout, nofun,
    FailureSet.cuts_empty _ _⟩
  obtain ⟨⟨e, he⟩, -⟩ := PathGraph.mem_successors.mp hsucc
  rw [he]
  have hlaid := edge_of_wiring he
  generalize hu : Vertex.main (.bgpIn r.id) = u at hlaid
  generalize hv : Vertex.main (.bgpOut r.id n.peer) = v at hlaid
  cases hlaid with
  | @fine r' _ _ _ hr' hlaid =>
    cases hlaid with
    | @bgpRelay n' hs' =>
      -- a relay to the session starts at the router, and is that of its only session with the peer
      injection hv with _ hv
      obtain ⟨hid, hpeer⟩ := VertexKind.bgpOut.inj hv
      obtain rfl := Network.eq_of_router? (hn.router?_of_mem hr') (hn.router?_of_mem hr) hid
      rw [honly.eq (mem_learningSessions.mp hs').1 hpeer.symm]
    | _ => first | cases hu | cases hv
  | layer _ _ hlaid => cases hlaid <;> cases hu

/-- What is reported about a session. -/
theorem count_warnings_session {cfg : NetworkConfig} (hres : c.net.Resolves cfg)
    (hstart : sessionStart variant r n ∈ (c.wiring variant).graph.vertices) :
    (c.wiring variant).warnings.count (c.nextHopWarning r n) =
      if sessionNextHop variant r n ∈ (c.wiring variant).graph.vertices then 0 else 1 := by
  have hfilter : (c.wires variant).filter (·.reports (c.nextHopWarning r n)) =
      [c.sessionWire variant r n] := filter_reports hn hres hr honly hlearns
  have hplace : ∀ w ∈ c.wires variant, w.arc = (c.sessionWire variant r n).arc →
      w.reports (c.nextHopWarning r n) = true := by
    intro w hw harc
    rw [eq_sessionWire_of_tail hn hr honly hw (congrArg Arc.tail harc)]
    exact decide_eq_true rfl
  rw [wiring_eq, Wiring.vertices_ofWires] at hstart
  rw [wiring_eq, Wiring.count_warnings_ofWires PathGraph.addVertices_edges hfilter hplace,
    Wiring.vertices_ofWires]
  refine if_congr ?_ rfl rfl
  exact (and_iff_right hstart).trans (and_iff_left (sessionStart_ne_sessionNextHop r n))

end Only

section OfScene

variable {net : Network} {dst src : Subnet}

theorem sessionStart_mem (hn : net.Linked) (hr : r ∈ net.routers) (hs : n ∈ r.sessions)
    (hlearns : (net.scene dst src).learnsFrom r n = true) :
    sessionStart variant r n ∈ ((net.scene dst src).wiring variant).graph.vertices := by
  cases variant with
  | coarse =>
    refine mem_vertices_of_inner (List.mem_flatMap.mpr ⟨r, hr, ?_⟩)
    exact List.mem_append_right _ (List.mem_map.mpr ⟨n, hs, rfl⟩)
  | fine =>
    obtain ⟨-, r', hid, hruns⟩ := runs_of_propagates src hn hlearns
    obtain rfl := Network.eq_of_router? hruns.router (hn.router?_of_mem hr) hid.symm
    exact hruns.bgpOut_mem (mem_learningSessions.mpr ⟨hs, hlearns⟩)

theorem carries_of_only (hn : net.Linked) (hr : r ∈ net.routers)
    (honly : r.HasOnly n) (hlearns : (net.scene dst src).learnsFrom r n = true)
    (hnext : sessionNextHop variant r n ∈ ((net.scene dst src).wiring variant).graph.vertices) :
    (net.scene dst src).Carries ((net.scene dst src).wiring variant).graph variant r n := by
  have hstart : sessionStart variant r n ∈
      ((net.scene dst src).wiring variant).graph.vertices :=
    sessionStart_mem hn hr honly.mem hlearns
  cases variant with
  | coarse => exact edge?_session hn hr honly hlearns hstart hnext
  | fine =>
    obtain ⟨-, r', hid, hruns⟩ := runs_of_propagates src hn hlearns
    have hin := hruns.bgpIn_mem
    rw [hid] at hin
    exact ⟨edge?_relay hn hr honly hlearns hin hstart,
      edge?_session hn hr honly hlearns hstart hnext⟩

/-- **No session is lost that is the only one of its router with its peer.** -/
theorem keeps_of_only {cfg : NetworkConfig} {g : Wiring} (hlink : cfg.link = .ok net)
    (hg : (net.scene dst src).build variant = .ok g) (hr : r ∈ net.routers)
    (honly : r.HasOnly n) (hlearns : (net.scene dst src).learnsFrom r n = true) :
    (net.scene dst src).Keeps g variant r n := by
  have hn := NetworkConfig.linked_of_link hlink
  have hres : net.Resolves cfg := by
    obtain ⟨hc, rfl⟩ := NetworkConfig.link_eq_ok.mp hlink
    exact NetworkConfig.resolves_assemble hc
  obtain rfl := eq_wiring_of_build hg
  have hstart : sessionStart variant r n ∈
      ((net.scene dst src).wiring variant).graph.vertices :=
    sessionStart_mem hn hr honly.mem hlearns
  have hcount := count_warnings_session hn hr honly hlearns hres hstart
  refine ⟨fun hnext => ⟨carries_of_only hn hr honly hlearns hnext, ?_⟩, fun hnext => ?_⟩
  · rw [hcount, if_pos hnext]
  · rw [hcount, if_neg hnext]

end OfScene

/-- The third router of the iBGP mesh has one session with the first one, which is kept in both
graphs. -/
theorem keeps_of_only_ibgpMesh :
    Example.ibgpMeshConfig.link = .ok ibgpMeshScene.net ∧
    ∃ r n, r ∈ ibgpMeshScene.net.routers ∧ r.id = 3 ∧ n.peer = 1 ∧ r.HasOnly n ∧
      ibgpMeshScene.learnsFrom r n = true ∧
      ∀ variant, ∃ g, ibgpMeshScene.build variant = .ok g ∧ ibgpMeshScene.Keeps g variant r n := by
  have hlink : Example.ibgpMeshConfig.link = .ok ibgpMeshScene.net := rfl
  have hsession : ∃ r ∈ ibgpMeshScene.net.routers, r.id = 3 ∧ ∃ n ∈ r.sessions, n.peer = 1 ∧
      r.HasOnly n ∧ ibgpMeshScene.learnsFrom r n = true := by
    decide +kernel
  obtain ⟨r, hr, hid, n, -, hpeer, honly, hlearns⟩ := hsession
  refine ⟨hlink, r, n, hr, hid, hpeer, honly, hlearns, fun variant => ?_⟩
  have hbuild : (ibgpMeshScene.net.scene "t" "s3").build variant =
      .ok (ibgpMeshScene.wiring variant) := build_ibgpMeshScene variant
  exact ⟨_, hbuild, keeps_of_only hlink hbuild hr honly hlearns⟩

/-! ### Two sessions with one peer -/

/-- Two routers, of which the second one originates the subnet `t`. The first one has two sessions
with it, over addresses that only OSPF reaches, and prefers routes from the second of them. -/
def twinConfig : NetworkConfig :=
  let r1 := RouterConfig.named "R1"
    |>.iface "R2" (some 12) |>.vlan 12 (Example.block 10 0 12 1) |>.ospfActive 12
    |>.bgpInternal (Example.host 10 0 1 2) none none
    |>.bgpInternal (Example.host 10 0 2 2) (some "prefer") none |>.subnet "s"
  let r2 := RouterConfig.named "R2"
    |>.iface "R1" (some 12) |>.vlan 12 (Example.block 10 0 12 2) |>.ospfActive 12
    |>.vlan 1 (Example.block 10 0 1 2) |>.vlan 2 (Example.block 10 0 2 2)
    |>.bgpInternal (Example.host 10 0 12 1) none none |>.bgpOrigin "t" |>.subnet "t"
  { routers := [r1, r2]
    policies := .ofList [("prefer", .ofLocalPref 200)] }

/-- From the router with the two sessions to its peer. -/
def twinScene : Scene := twinConfig.assemble.scene "t" "s"

/-- The next hop of the second session is in both graphs. The coarse graph reports it as missing,
and the fine graph uses the routes from it without its policy. -/
theorem not_keepsSessions :
    twinConfig.link = .ok twinScene.net ∧ ¬ twinScene.KeepsSessions .coarse ∧
      ¬ twinScene.KeepsSessions .fine := by
  have herror : twinScene.error? = none := by decide +kernel
  have hcoarse : ∃ r ∈ twinScene.net.routers, ∃ n ∈ r.sessions, twinScene.learnsFrom r n = true ∧
      sessionNextHop .coarse r n ∈ (twinScene.wiring .coarse).graph.vertices ∧
      (twinScene.wiring .coarse).warnings.count (twinScene.nextHopWarning r n) = 1 := by
    decide +kernel
  have hfine : ∃ r ∈ twinScene.net.routers, ∃ n ∈ r.sessions, twinScene.learnsFrom r n = true ∧
      sessionNextHop .fine r n ∈ (twinScene.wiring .fine).graph.vertices ∧
      (twinScene.wiring .fine).graph.edge? (.main (.bgpIn r.id)) (.main (.bgpOut r.id n.peer)) ≠
        some { kind := .relay, policies := twinScene.sessionPolicies r n } := by
    decide +kernel
  refine ⟨rfl, fun hkeeps => ?_, fun hkeeps => ?_⟩
  · obtain ⟨r, hr, n, hn, hlearns, hnext, hcount⟩ := hcoarse
    have hnone := (hkeeps (build_of_error?_eq_none herror) hr hn hlearns).kept hnext
    rw [hnone.2] at hcount
    cases hcount
  · obtain ⟨r, hr, n, hn, hlearns, hnext, hedge⟩ := hfine
    have hkept := (hkeeps (build_of_error?_eq_none herror) hr hn hlearns).kept hnext
    exact hedge hkept.1.1

end Scene

end NetReach
