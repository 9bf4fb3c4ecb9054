import NetReach.Config.Read
import NetReach.Config.Write
import NetReach.Proofs.AddressText
import NetReach.Proofs.Writing

/-! # Saving and loading a configuration

Writing a configuration always gives a document, and reading the document gives an equal
configuration (`NetworkConfig.read_write`). The records are taken one after the other, from the
inmost on: for each of them the members of its layout fit its fields. A member that is left out
stands for the value that is assumed where the member is missing. -/

namespace NetReach

variable {α : Type} {a b : α}

/-! ### Texts and tags -/

theorem Written.texts (ts : List String) : Written readTexts (textsLayout ts) ts :=
  .array fun s _ => .text s

theorem Written.tags (tags : OrdSet String) : Written readTags (textsLayout tags.toList) tags := by
  have h := (Written.texts tags.toList).map OrdSet.ofList
  rwa [tags.ofList_toList] at h

/-- The tags of a policy are left out if there are none, as the field has none anyway. -/
theorem Fits.tagsMember {fs : List (Reader.RecordField α)} {ms : List (String × Layout)}
    {name : String} {set : α → OrdSet String → α} {alias? : Option String} (tags : OrdSet String)
    (hempty : set a ∅ = a) (h : Fits fs (set a tags) ms b) :
    Fits (.defaulted name readTags set alias? :: fs) a (tagsMember name tags ++ ms) b := by
  unfold NetReach.tagsMember
  split
  · next hnone =>
    have htags : tags = ∅ := OrdSet.ext fun t => by
      rw [← OrdSet.mem_toList, List.isEmpty_iff.mp hnone]
      exact Iff.rfl
    rw [htags, hempty] at h
    exact .absent rfl h
  · exact .defaulted (.tags tags) h

/-! ### Policies and cases -/

theorem Policy.written (p : Policy) : Written Policy.read p.layout p := by
  refine .record (by decide) ?_
  simp only [List.cons_append, List.nil_append, List.append_assoc]
  exact .defaulted (.word _) <| .defaulted (.word _) <| .ifSome _ .word rfl <|
    .tagsMember _ rfl <| .tagsMember _ rfl <| .tagsMember _ rfl .nil

theorem ReachabilityCase.written (c : ReachabilityCase) : Written read c.layout c := by
  refine .record (by decide) ?_
  simp only [List.cons_append, List.nil_append]
  exact .needed (.text _) <| .needed (.text _) <|
    .defaulted (.array fun f _ => .pair (.text f.1) (.text f.2)) <| .needed (.boolean _) <|
    .ifSome _ .texts rfl .nil

/-! ### Interfaces and VLANs -/

theorem InterfaceConfig.written (i : InterfaceConfig) : Written read i.layout i := by
  refine .record (by decide) ?_
  simp only [List.cons_append]
  exact .needed (.text _) <| .ifSome _ .word rfl .nil

theorem VlanConfig.written (v : VlanConfig) : Written read v.layout v := by
  refine .record (by decide) ?_
  exact .needed (.word _) <| .needed (.denoted v.addr.ofText?_text) .nil

/-! ### Processes -/

theorem Protocol.written (p : Protocol) : Written Protocol.read p.layout p := by
  cases p <;> exact .choice rfl

namespace OspfConfig

theorem writtenActive (n : UInt32) : Written readActive (.object [("vlan", .word n)]) n :=
  .record (by decide) (.needed (.word n) .nil)

theorem written (o : OspfConfig) : Written read o.layout o := by
  refine .record (by decide) ?_
  exact .defaulted (.array fun n _ => writtenActive n) <| .defaulted (.texts _) <|
    .defaulted (.array fun p _ => p.written) .nil

end OspfConfig

theorem NeighborConfig.written (n : NeighborConfig) : Written read n.layout n := by
  refine .record (by decide) ?_
  simp only [List.cons_append, List.append_assoc]
  exact .needed (.denoted n.addr.ofText?_text) <| .ifSome _ .text rfl <| .ifSome _ .text rfl .nil

theorem BgpConfig.written (b : BgpConfig) : Written read b.layout b := by
  refine .record (by decide) ?_
  exact .defaulted (.array fun n _ => n.written) <| .defaulted (.array fun n _ => n.written) <|
    .defaulted (.texts _) <| .defaulted (.array fun p _ => p.written) .nil

/-! ### Routers and networks -/

theorem RouterConfig.written (r : RouterConfig) : Written read r.layout r := by
  refine .record (by decide) ?_
  simp only [List.cons_append, List.nil_append, List.append_assoc]
  exact .needed (.text _) <| .defaulted (.array fun i _ => i.written) <|
    .defaulted (.array fun v _ => v.written) <| .ifSome _ OspfConfig.written rfl <|
    .ifSome _ BgpConfig.written rfl <| .defaulted (.texts _) .nil

namespace NetworkConfig

theorem written (c : NetworkConfig) : Written reader c.layout c := by
  have hpolicies := Written.table (l := c.policies.entries) fun e _ => e.2.written
  rw [c.policies.ofList_entries] at hpolicies
  refine .record (by decide) ?_
  exact .defaulted (.array fun r _ => r.written) <| .defaulted hpolicies <|
    .defaulted (.array fun t _ => t.written) .nil

/-- **Saving and loading a configuration is lossless**: the document of any configuration is read,
and the configuration that is read is the one that was written. -/
theorem read_write (c : NetworkConfig) : read c.write = .ok c := c.written.document

end NetworkConfig

end NetReach
