import NetReach.Document.Reader
import NetReach.Proofs.Scanning

/-! # Values that are read as they were written

A value is *written* as a layout, for a certain reader, if the reader takes exactly the tokens of
the layout, whatever follows them, and gives the value (`Written`). This is so for plain values, and
it is passed on from items to arrays (`Written.array`, `Written.pair`), from values to tables
(`Written.table`), and from fields to records.

The members of a record *fit* its fields (`Fits`) if they come in the order of the fields and no
required one is missing. A record that is written by fitting members is read back if no field goes
by the name of a later one (`Written.record`). -/

namespace NetReach

open Layout (memberTokens)
open Reader (RecordField)

variable {α β : Type} {r : Reader α} {s : Reader β} {w : Layout} {a b : α} {t : Token}
  {ts rest : List Token}

/-- The reader `r` takes the value `a` from the tokens of the layout `w`, and leaves what follows
them. -/
structure Written (r : Reader α) (w : Layout) (a : α) : Prop where
  cuts : w.Cuts w.tokens
  /-- The first token neither stands for nothing nor ends an array. -/
  opens : ∃ t ts, w.tokens = t :: ts ∧ t ≠ .null ∧ t ≠ .closeBracket
  reads : ∀ rest, r (w.tokens ++ rest) = .ok (a, rest)

namespace Written

theorem of_cuts (h : w.Cuts (t :: ts)) (hnull : t ≠ .null) (hclose : t ≠ .closeBracket)
    (hr : ∀ rest, r (t :: ts ++ rest) = .ok (a, rest)) : Written r w a where
  cuts := h.self
  opens := ⟨t, ts, h.tokens_eq, hnull, hclose⟩
  reads := by rw [h.tokens_eq]; exact hr

theorem ne_nil (h : Written r w a) : w.tokens ≠ [] := by
  obtain ⟨t, ts, hw, -⟩ := h.opens
  rw [hw]
  exact List.cons_ne_nil _ _

/-! ### Plain values -/

theorem text (s : String) : Written Reader.text (.text s) s :=
  .of_cuts (Layout.cuts_text s) nofun nofun fun _ => rfl

theorem word (n : UInt32) : Written Reader.word (.word n) n :=
  .of_cuts (Layout.cuts_word n) nofun nofun fun rest => by
    simp only [Reader.word, List.cons_append, Numeral.word?_ofNat, List.nil_append]

theorem boolean (b : Bool) : Written Reader.boolean (.boolean b) b :=
  .of_cuts (Layout.cuts_boolean b) nofun nofun fun _ => rfl

theorem denoted {value? : String → Option α} {s : String} (h : value? s = some a) :
    Written (Reader.denoted value?) (.text s) a :=
  .of_cuts (Layout.cuts_text s) nofun nofun fun rest => by
    simp only [Reader.denoted, Reader.denotedBy, Reader.text, List.cons_append, List.nil_append, h]

theorem choice {value? : String → Option α} {s : String} (h : value? s = some a) :
    Written (Reader.choice value?) (.text s) a :=
  .of_cuts (Layout.cuts_text s) nofun nofun fun rest => by
    simp only [Reader.choice, Reader.denoted, Reader.denotedBy, Reader.text, List.cons_append,
      List.nil_append, h]

theorem map (f : α → β) (h : Written r w a) : Written (r.map f) w (f a) where
  cuts := h.cuts
  opens := h.opens
  reads rest := by rw [Reader.map, h.reads]; rfl

theorem option (h : Written r w a) : Written r.option w (some a) where
  cuts := h.cuts
  opens := h.opens
  reads rest := by
    obtain ⟨t, ts, hw, hnull, -⟩ := h.opens
    have hr := h.reads rest
    rw [hw, List.cons_append] at hr ⊢
    unfold Reader.option
    split
    · next heq => exact absurd (List.cons.inj heq).1 hnull
    · rw [hr]; rfl

/-! ### Arrays -/

/-- There is a token for every group, so reading does not run short of groups. -/
theorem length_lt_separated {tss : List (List Token)} (h : ∀ ts ∈ tss, ts ≠ [])
    (rest : List Token) : tss.length < (separated true tss ++ rest).length + 1 := by
  have := length_le_separated tss h true
  rw [List.length_append]
  omega

theorem nextItem (h : Written r w a) (first : Bool) (rest : List Token) :
    Reader.nextItem first (led first w.tokens ++ rest) = .ok (true, w.tokens ++ rest) := by
  obtain ⟨t, ts, hw, -, hclose⟩ := h.opens
  rw [hw]
  cases first <;> cases t <;> first | rfl | exact absurd rfl hclose

theorem items {f : α → Layout} {l : List α} (h : ∀ a ∈ l, Written r (f a) a) (rest : List Token) :
    ∀ (n : Nat) (first : Bool), l.length < n →
      Reader.items r n first (separated first (l.map fun a => (f a).tokens) ++
        .closeBracket :: rest) = .ok (l, rest) := by
  induction l with
  | nil =>
    rintro (_ | n) first hn
    · exact absurd hn (Nat.lt_irrefl _)
    · rfl
  | cons a l ih =>
    rintro (_ | n) first hn
    · exact absurd hn (Nat.not_lt_zero _)
    · have ha := h a List.mem_cons_self
      have hrest := ih (fun a' ha' => h a' (List.mem_cons_of_mem _ ha')) n false
        (Nat.lt_of_succ_lt_succ hn)
      simp only [List.map_cons, separated, List.append_assoc, Reader.items, ha.nextItem,
        ha.reads, hrest, bind, Except.bind, pure, Except.pure]

theorem array {f : α → Layout} {l : List α} (h : ∀ a ∈ l, Written r (f a) a) :
    Written (Reader.list r) (.array (l.map f)) l := by
  have hcuts : ∀ w ∈ l.map f, w.Cuts w.tokens := by
    intro w hw
    obtain ⟨a, ha, rfl⟩ := List.mem_map.mp hw
    exact (h a ha).cuts
  have hne : ∀ ts ∈ l.map fun a => (f a).tokens, ts ≠ [] := by
    intro ts hts
    obtain ⟨a, ha, rfl⟩ := List.mem_map.mp hts
    exact (h a ha).ne_nil
  refine .of_cuts (Layout.cuts_array hcuts) nofun nofun fun rest => ?_
  rw [List.map_map, List.cons_append, List.append_assoc]
  refine items h rest _ true ?_
  rw [← List.length_map fun a => (f a).tokens]
  exact length_lt_separated hne _

theorem pair {v : Layout} {b : β} (ha : Written r v a) (hb : Written s w b) :
    Written (Reader.pair r s) (.array [v, w]) (a, b) := by
  have hcuts : ∀ x ∈ [v, w], x.Cuts x.tokens := by
    simp only [List.forall_mem_cons, List.not_mem_nil, false_implies, implies_true, and_true]
    exact ⟨ha.cuts, hb.cuts⟩
  refine .of_cuts (Layout.cuts_array hcuts) nofun nofun fun rest => ?_
  simp only [List.map_cons, List.map_nil, separated, List.cons_append, List.append_assoc,
    List.nil_append, Reader.pair, Reader.item, ha.nextItem, ha.reads, hb.nextItem, hb.reads,
    Reader.closing, bind, Except.bind, pure, Except.pure]

/-! ### Tables -/

theorem nextKey (first : Bool) (m : String × Layout) (rest : List Token) :
    Reader.nextKey first (led first (memberTokens m) ++ rest) =
      .ok (some m.1, .colon :: (m.2.tokens ++ rest)) := by
  cases first <;> rfl

theorem entries {f : β → Layout} {l : List (String × β)} (h : ∀ e ∈ l, Written s (f e.2) e.2)
    (rest : List Token) : ∀ (n : Nat) (first : Bool) (m : OrdMap String β), l.length < n →
      Reader.entries s n first m (separated first (l.map fun e => memberTokens (e.1, f e.2)) ++
        .closeBrace :: rest) = .ok (l.foldl (fun m e => m.put e.1 e.2) m, rest) := by
  induction l with
  | nil =>
    rintro (_ | n) first m hn
    · exact absurd hn (Nat.lt_irrefl _)
    · rfl
  | cons e l ih =>
    rintro (_ | n) first m hn
    · exact absurd hn (Nat.not_lt_zero _)
    · have he := h e List.mem_cons_self
      have hrest := ih (fun e' he' => h e' (List.mem_cons_of_mem _ he')) n false
        (m.put e.1 e.2) (Nat.lt_of_succ_lt_succ hn)
      simp only [List.map_cons, separated, List.append_assoc, Reader.entries, nextKey,
        Reader.colon, he.reads, hrest, List.foldl_cons, bind, Except.bind]

theorem cuts_members {ms : List (String × Layout)} (h : ∀ m ∈ ms, m.2.Cuts m.2.tokens)
    (hr : ∀ rest, r (.openBrace :: (separated true (ms.map memberTokens) ++
      .closeBrace :: rest)) = .ok (a, rest)) : Written r (.object ms) a := by
  refine .of_cuts (Layout.cuts_object h) nofun nofun fun rest => ?_
  rw [List.cons_append, List.append_assoc]
  exact hr rest

theorem length_lt_members (ms : List (String × Layout)) (rest : List Token) :
    ms.length < (separated true (ms.map memberTokens) ++ rest).length + 1 := by
  have hne : ∀ ts ∈ ms.map memberTokens, ts ≠ [] := by
    intro ts hts
    obtain ⟨m, -, rfl⟩ := List.mem_map.mp hts
    exact List.cons_ne_nil _ _
  have := length_lt_separated hne rest
  rwa [List.length_map] at this

theorem table {f : β → Layout} {l : List (String × β)} (h : ∀ e ∈ l, Written s (f e.2) e.2) :
    Written (Reader.table s) (.object (l.map fun e => (e.1, f e.2))) (.ofList l) := by
  refine cuts_members (fun m hm => ?_) fun rest => ?_
  · obtain ⟨e, he, rfl⟩ := List.mem_map.mp hm
    exact (h e he).cuts
  · have hfuel := length_lt_members (l.map fun e => (e.1, f e.2)) (.closeBrace :: rest)
    rw [List.length_map, List.map_map] at hfuel
    rw [List.map_map]
    exact entries h rest _ true ∅ hfuel

end Written

/-! ### Fields of records -/

section Fields

variable {fields done fs : List (RecordField α)} {f : RecordField α} {seen : List String}

/-- No field goes by the name of a later one. -/
abbrev Distinct (fields : List (RecordField α)) : Prop :=
  fields.Pairwise fun f g => f.goesBy g.name = false

theorem goesBy_name (f : RecordField α) : f.goesBy f.name = true := by
  simp only [RecordField.goesBy, decide_true, Bool.true_or]

theorem Distinct.goesBy (h : Distinct (done ++ f :: fs)) : ∀ g ∈ done, g.goesBy f.name = false :=
  fun g hg => (List.pairwise_append.mp h).2.2 g hg f List.mem_cons_self

/-- The member of a field is found to be that of the field. -/
theorem Distinct.find?_name (h : Distinct (done ++ f :: fs)) :
    (done ++ f :: fs).find? (·.goesBy f.name) = some f := by
  have hdone : done.find? (·.goesBy f.name) = none :=
    List.find?_eq_none.mpr fun g hg => by rw [h.goesBy g hg]; exact Bool.false_ne_true
  rw [List.find?_append, hdone, Option.none_or]
  exact List.find?_cons_of_pos (goesBy_name f)

/-- The fields `done` were passed, and those whose names are `seen` had a member. No required one
was without. -/
structure Passed (done : List (RecordField α)) (seen : List String) : Prop where
  known : ∀ k ∈ seen, ∃ f ∈ done, f.name = k
  required : ∀ f ∈ done, f.required = true → f.name ∈ seen

namespace Passed

theorem nil : Passed ([] : List (RecordField α)) [] := ⟨nofun, nofun⟩

theorem present (h : Passed done seen) (f : RecordField α) :
    Passed (done ++ [f]) (f.name :: seen) where
  known k hk := by
    rcases List.mem_cons.mp hk with rfl | hk
    · exact ⟨f, List.mem_append_right _ List.mem_cons_self, rfl⟩
    · obtain ⟨g, hg, hgk⟩ := h.known k hk
      exact ⟨g, List.mem_append_left _ hg, hgk⟩
  required g hg hreq := by
    rcases List.mem_append.mp hg with hg | hg
    · exact List.mem_cons_of_mem _ (h.required g hg hreq)
    · rw [List.mem_singleton.mp hg]
      exact List.mem_cons_self

theorem absent (h : Passed done seen) (hf : f.required = false) : Passed (done ++ [f]) seen where
  known k hk := by
    obtain ⟨g, hg, hgk⟩ := h.known k hk
    exact ⟨g, List.mem_append_left _ hg, hgk⟩
  required g hg hreq := by
    rcases List.mem_append.mp hg with hg | hg
    · exact h.required g hg hreq
    · rw [List.mem_singleton.mp hg, hf] at hreq
      cases hreq

theorem all (h : Passed done seen) :
    done.all (fun f => !f.required || decide (f.name ∈ seen)) = true := by
  rw [List.all_eq_true]
  intro f hf
  cases hreq : f.required with
  | false => rfl
  | true => exact decide_eq_true (h.required f hf hreq)

/-- A field that comes next had no member yet. -/
theorem name_not_mem (h : Passed done seen) (hfields : Distinct (done ++ f :: fs)) :
    f.name ∉ seen := by
  intro hmem
  obtain ⟨g, hg, hgf⟩ := h.known f.name hmem
  have hgoes := hfields.goesBy g hg
  rw [← hgf, goesBy_name] at hgoes
  cases hgoes

end Passed

end Fields

/-! ### Records -/

/-- Members that come in the order of the fields change the record `a` into `b`. Only fields that
are not required have no member. -/
inductive Fits : List (RecordField α) → α → List (String × Layout) → α → Prop
  | nil {a : α} : Fits [] a [] a
  | present {f : RecordField α} {fs : List (RecordField α)} {a b c : α} {w : Layout}
      {ms : List (String × Layout)} (hw : Written (f.into a) w b) (h : Fits fs b ms c) :
      Fits (f :: fs) a ((f.name, w) :: ms) c
  | absent {f : RecordField α} {fs : List (RecordField α)} {a b : α}
      {ms : List (String × Layout)} (hf : f.required = false) (h : Fits fs a ms b) :
      Fits (f :: fs) a ms b

namespace Fits

variable {fields fs : List (RecordField α)} {ms : List (String × Layout)} {name : String}
  {set : α → β → α} {alias? : Option String}

theorem needed {v : β} (hw : Written s w v) (h : Fits fs (set a v) ms b) :
    Fits (.needed name s set :: fs) a ((name, w) :: ms) b := present (hw.map (set a)) h

theorem defaulted {v : β} (hw : Written s w v) (h : Fits fs (set a v) ms b) :
    Fits (.defaulted name s set alias? :: fs) a ((name, w) :: ms) b := present (hw.map (set a)) h

/-- A member that is left out without a value, where the field has none anyway. -/
theorem ifSome {f : β → Layout} {set : α → Option β → α} (o : Option β)
    (hw : ∀ v, Written s (f v) v) (hnone : set a none = a) (h : Fits fs (set a o) ms b) :
    Fits (.defaulted name s.option set alias? :: fs) a (Layout.ifSome name f o ++ ms) b := by
  cases o with
  | none =>
    rw [hnone] at h
    exact absent rfl h
  | some v => exact defaulted (hw v).option h

theorem cuts (h : Fits fields a ms b) : ∀ m ∈ ms, m.2.Cuts m.2.tokens := by
  induction h with
  | nil => exact nofun
  | present hw _ ih => exact List.forall_mem_cons.mpr ⟨hw.cuts, ih⟩
  | absent _ _ ih => exact ih

/-- Members that fit what is left of the fields are read. -/
theorem members (h : Fits fs a ms b) (rest : List Token) :
    ∀ (done : List (RecordField α)) (seen : List String) (n : Nat) (first : Bool),
      Distinct (done ++ fs) → Passed done seen → ms.length < n →
      Reader.members (done ++ fs) n first seen a (separated first (ms.map memberTokens) ++
        .closeBrace :: rest) = .ok (b, rest) := by
  induction h with
  | nil =>
    rintro done seen (_ | n) first hfields hpassed hn
    · exact absurd hn (Nat.lt_irrefl _)
    · simp only [List.map_nil, separated, List.nil_append, List.append_nil, Reader.members,
        Reader.nextKey, hpassed.all, if_pos, bind, Except.bind, pure, Except.pure]
  | @present f fs a b c w ms hw h ih =>
    rintro done seen (_ | n) first hfields hpassed hn
    · exact absurd hn (Nat.not_lt_zero _)
    · have hfind := hfields.find?_name
      have hnew := hpassed.name_not_mem hfields
      rw [List.append_cons] at hfields hfind ⊢
      have hrest := ih (done ++ [f]) (f.name :: seen) n false hfields (hpassed.present f)
        (Nat.lt_of_succ_lt_succ hn)
      simp only [List.map_cons, separated, List.append_assoc, Reader.members, Written.nextKey,
        Reader.colon, bind, Except.bind] at hfind hrest ⊢
      simp only [hfind, if_neg hnew, hw.reads, hrest]
  | @absent f fs a b ms hf h ih =>
    intro done seen n first hfields hpassed hn
    rw [List.append_cons] at hfields ⊢
    exact ih (done ++ [f]) seen n first hfields (hpassed.absent hf) hn

end Fits

namespace Written

/-- **A record is read back from members that fit its fields.** -/
theorem record {fields : List (RecordField α)} {ms : List (String × Layout)}
    (hfields : Distinct fields) (h : Fits fields a (ms ++ []) b) :
    Written (Reader.record fields a) (.object ms) b := by
  rw [List.append_nil] at h
  refine cuts_members h.cuts fun rest => ?_
  exact h.members rest [] [] _ true hfields .nil (length_lt_members ms _)

/-- **A whole document is read back.** -/
theorem document (h : Written r w a) : Reader.document r (String.ofList (w 0)) = .ok a := by
  have hr := h.reads []
  rw [List.append_nil, Layout.tokens] at hr
  rw [Reader.document, String.toList_ofList, hr]

end Written

end NetReach
