import NetReach.Proofs.Digits

/-! # Texts of addresses are read back

Every address is read back from its canonical form, in either form of reading
(`IPv4.read?_chars`, `IPv6.read?_chars`). What the double colon leaves out are zeros, whichever gap
it stands for (`IPv6.read?_gap`), and an embedded address is read as the two groups that it was
written for (`IPv6.groups_of_mapped`).

The first family is tried first. It does not take the text of an address of the second one, as no
point follows the first digits there (`IPv6.read?_chars_eq_none`). So the texts of addresses and of
blocks denote them (`IpAddr.ofText?_text`, `Cidr.ofText?_text`). -/

namespace NetReach

variable {f : AddressForm} {cs rest : List Char}

/-- The text goes on as behind a number: nothing, a point, a colon or a slash follows. -/
def EndsNumber (rest : List Char) : Prop := ∀ c ∈ rest.head?, c = '.' ∨ c = ':' ∨ c = '/'

/-- The text goes on as behind a group: nothing, a colon or a slash follows. -/
def EndsGroup (rest : List Char) : Prop := ∀ c ∈ rest.head?, c = ':' ∨ c = '/'

/-- The text goes on as behind an address: nothing or a slash follows. -/
def EndsAddress (rest : List Char) : Prop := ∀ c ∈ rest.head?, c = '/'

theorem EndsGroup.endsNumber (h : EndsGroup rest) : EndsNumber rest := fun c hc => Or.inr (h c hc)

theorem EndsAddress.endsGroup (h : EndsAddress rest) : EndsGroup rest := fun c hc => Or.inr (h c hc)

theorem endsGroup_colon (cs : List Char) : EndsGroup (':' :: cs) := by
  rintro c ⟨⟩
  exact Or.inl rfl

theorem EndsNumber.stops (h : EndsNumber rest) (b : Nat) :
    Stops (fun c => (digitValue? b c).isSome) rest := by
  intro c hc
  rcases h c hc with rfl | rfl | rfl <;> rfl

theorem skipChar?_cons (c : Char) (cs : List Char) : skipChar? c (c :: cs) = some cs := if_pos rfl

theorem skipChar?_eq_none {c : Char} (h : cs.head? ≠ some c) : skipChar? c cs = none := by
  cases cs with
  | nil => rfl
  | cons d cs => exact if_neg fun hd => h (congrArg some hd)

theorem rest_of_readNumber? {b most n : Nat} (h : readNumber? b most cs = some (n, rest)) :
    rest = cs.dropWhile fun c => (digitValue? b c).isSome := by
  simp only [readNumber?] at h
  split at h
  · cases h
  · cases h; rfl

/-! ### The first family -/

namespace IPv4

theorem readOctet?_toDigits (o : UInt8) (h : EndsNumber rest) :
    readOctet? f (Nat.toDigits 10 o.toNat ++ rest) = some (o, rest) := by
  have ho : o.toNat < 256 := o.toNat_lt
  have hpad : (Nat.toDigits 10 o.toNat ++ rest).head? ≠ some '0' ∨
      (Nat.toDigits 10 o.toNat ++ rest).length = rest.length + 1 := by
    rcases length_toDigits_or_head? (b := 10) (n := o.toNat) (by decide) with hlen | hhead
    · exact Or.inr (by rw [List.length_append, hlen, Nat.add_comm])
    · exact Or.inl (by rwa [head?_toDigits_append])
  have hlength : (Nat.toDigits 10 o.toNat).length ≤ 3 :=
    (Nat.length_toDigits_le_iff (by decide) (by decide)).mpr (by omega)
  rw [readOctet?, readNumber?_toDigits (by decide) (by decide) hlength (h.stops 10)]
  simp only [bind, Option.bind, if_pos (And.intro ho (Or.inr hpad))]
  exact congrArg (fun o => some (o, rest)) (UInt8.ofNat_toNat)

/-- **An address of the first family is read back.** -/
theorem read?_chars (a : IPv4) (h : EndsNumber rest) :
    read? f (a.chars ++ rest) = some (a, rest) := by
  have hpoint : ∀ cs : List Char, EndsNumber ('.' :: cs) := by
    rintro cs c ⟨⟩
    exact Or.inl rfl
  simp only [chars, octets, List.map_cons, List.map_nil, joinChars, List.append_assoc,
    List.cons_append, List.nil_append, read?, readOctet?_toDigits _ (hpoint _),
    readOctet?_toDigits _ h, skipChar?_cons, bind, Option.bind]

theorem rest_of_readOctet? {o : UInt8} (h : readOctet? f cs = some (o, rest)) :
    rest = cs.dropWhile fun c => (digitValue? 10 c).isSome := by
  unfold readOctet? at h
  cases hn : readNumber? 10 3 cs with
  | none => rw [hn] at h; cases h
  | some p =>
    simp only [hn, bind, Option.bind] at h
    split at h
    · cases h
      exact rest_of_readNumber? hn
    · cases h

/-- Where no point follows the first digits there is no address of the first family. -/
theorem read?_eq_none (h : (cs.dropWhile fun c => (digitValue? 10 c).isSome).head? ≠ some '.') :
    read? f cs = none := by
  unfold read?
  cases ho : readOctet? f cs with
  | none => rfl
  | some p =>
    rw [← rest_of_readOctet? ho] at h
    simp only [bind, Option.bind, skipChar?_eq_none h]

theorem head?_dropWhile_of_endsGroup (h : EndsGroup rest) :
    (rest.dropWhile fun c => (digitValue? 10 c).isSome).head? ≠ some '.' := by
  rw [dropWhile_of_stops (h.endsNumber.stops 10)]
  intro hc
  rcases h '.' hc with h | h <;> cases h

/-- The digits of a group may start like an octet, but no point follows. -/
theorem read?_toDigits_eq_none (n : Nat) (h : EndsGroup rest) :
    read? f (Nat.toDigits 16 n ++ rest) = none := by
  refine read?_eq_none ?_
  rw [List.dropWhile_append]
  -- either all digits are decimal ones, or the first other one is a letter
  split
  · exact head?_dropWhile_of_endsGroup h
  · next hne =>
    obtain ⟨c, ds, hds⟩ := List.exists_cons_of_ne_nil (mt List.isEmpty_iff.mpr hne)
    have hc : c ∈ Nat.toDigits 16 n :=
      (List.dropWhile_sublist _).subset (hds ▸ List.mem_cons_self)
    obtain ⟨d, -, rfl⟩ := mem_toDigits (by decide) hc
    rw [hds, List.cons_append, List.head?_cons, ne_eq, Option.some.injEq]
    exact Nat.digitChar_ne '.' rfl

end IPv4

/-! ### The second family -/

namespace IPv6

/-- The digits of groups, each behind a colon. -/
def tailChars (gs : List UInt16) : List Char := gs.flatMap fun g => ':' :: Nat.toDigits 16 g.toNat

theorem groupChars_cons (g : UInt16) (gs : List UInt16) :
    groupChars (g :: gs) = Nat.toDigits 16 g.toNat ++ tailChars gs := by
  induction gs generalizing g with
  | nil => exact (List.append_nil _).symm
  | cons g' gs ih =>
    change Nat.toDigits 16 g.toNat ++ [':'] ++ groupChars (g' :: gs) = _
    rw [ih, List.append_assoc]
    rfl

theorem endsGroup_tailChars (gs : List UInt16) (h : EndsGroup rest) :
    EndsGroup (tailChars gs ++ rest) := by
  cases gs with
  | nil => exact h
  | cons g gs => exact endsGroup_colon _

/-- No address of the first family stands where a list of groups does. -/
theorem read?_groupChars_eq_none (gs : List UInt16) (h : EndsGroup rest) :
    IPv4.read? f (groupChars gs ++ rest) = none := by
  cases gs with
  | nil => exact IPv4.read?_eq_none (IPv4.head?_dropWhile_of_endsGroup h)
  | cons g gs =>
    rw [groupChars_cons, List.append_assoc]
    exact IPv4.read?_toDigits_eq_none _ (endsGroup_tailChars gs h)

/-! ### Reading groups -/

section Groups

variable {n : Nat} {g : UInt16} {gs : List UInt16}

/-- A group is read where its digits stand, behind a colon unless it is the first one. -/
theorem readGroups_of_group (first : Bool) (cs : List Char)
    (hcs : (if first then some cs else skipChar? ':' cs) =
      some (Nat.toDigits 16 g.toNat ++ rest)) (h : EndsGroup rest) :
    readGroups f first (n + 1) cs =
      (g :: (readGroups f false n rest).1, (readGroups f false n rest).2) := by
  have hlength : (Nat.toDigits 16 g.toNat).length ≤ 4 :=
    (Nat.length_toDigits_le_iff (by decide) (by decide)).mpr g.toNat_lt
  have hv4 : (if n = 0 then none else
      IPv4.read? f (Nat.toDigits 16 g.toNat ++ rest)) = none := by
    rw [IPv4.read?_toDigits_eq_none _ h, ite_self]
  have hnum : readNumber? 16 4 (Nat.toDigits 16 g.toNat ++ rest) = some (g.toNat, rest) :=
    readNumber?_toDigits (by decide) (by decide) hlength (h.endsNumber.stops 16)
  simp only [readGroups, hcs, hv4, hnum]
  exact congrArg (fun g => (g :: _, _)) (UInt16.ofNat_toNat)

/-- Reading groups stops where no digit follows. -/
theorem readGroups_of_endsGroup (first : Bool) (hcs : ∀ body,
      (if first then some cs else skipChar? ':' cs) = some body → EndsGroup body) :
    readGroups f first n cs = ([], false, cs) := by
  cases n with
  | zero => rfl
  | succ n =>
    unfold readGroups
    split
    · rfl
    · next body hbody =>
      have h := hcs body hbody
      have hv4 : (if n = 0 then none else IPv4.read? f body) = none := by
        rw [IPv4.read?_eq_none (IPv4.head?_dropWhile_of_endsGroup h), ite_self]
      have hnum : readNumber? 16 4 body = none := by
        simp only [readNumber?, takeWhile_of_stops (h.endsNumber.stops 16), List.isEmpty_nil,
          true_or, if_true]
      simp only [hv4, hnum]

theorem readGroups_of_endsAddress (h : EndsAddress rest) (first : Bool) (n : Nat) :
    readGroups f first n rest = ([], false, rest) := by
  refine readGroups_of_endsGroup first fun body hbody => ?_
  cases first with
  | true => cases hbody; exact h.endsGroup
  | false =>
    have hnone : skipChar? ':' rest = none := skipChar?_eq_none fun hc => by cases h ':' hc
    rw [if_neg Bool.false_ne_true, hnone] at hbody
    cases hbody

theorem readGroups_doubleColon (cs : List Char) (first : Bool) (n : Nat) :
    readGroups f first n (':' :: ':' :: cs) = ([], false, ':' :: ':' :: cs) := by
  refine readGroups_of_endsGroup first fun body hbody => ?_
  cases first <;> cases hbody <;> exact endsGroup_colon _

/-- **Groups are read back**, if there is room for them and what follows is no further group. -/
theorem readGroups_tailChars (h : EndsGroup rest)
    (hrest : ∀ first n, readGroups f first n rest = ([], false, rest)) (hn : gs.length ≤ n) :
    readGroups f false n (tailChars gs ++ rest) = (gs, false, rest) := by
  induction gs generalizing n with
  | nil => exact hrest false n
  | cons g gs ih =>
    obtain ⟨n, rfl⟩ := Nat.exists_eq_add_of_le' (Nat.lt_of_lt_of_le (Nat.succ_pos _) hn)
    have hcs : skipChar? ':' (tailChars (g :: gs) ++ rest) =
        some (Nat.toDigits 16 g.toNat ++ (tailChars gs ++ rest)) := by
      rw [tailChars, List.flatMap_cons, List.cons_append, List.cons_append, skipChar?_cons,
        List.append_assoc]
      rfl
    rw [readGroups_of_group false (tailChars (g :: gs) ++ rest) hcs (endsGroup_tailChars gs h),
      ih (Nat.le_of_succ_le_succ hn)]

theorem readGroups_groupChars (gs : List UInt16) (h : EndsGroup rest)
    (hrest : ∀ first n, readGroups f first n rest = ([], false, rest)) (hn : gs.length ≤ n) :
    readGroups f true n (groupChars gs ++ rest) = (gs, false, rest) := by
  cases gs with
  | nil => exact hrest true n
  | cons g gs =>
    obtain ⟨n, rfl⟩ := Nat.exists_eq_add_of_le' (Nat.lt_of_lt_of_le (Nat.succ_pos _) hn)
    rw [groupChars_cons, List.append_assoc,
      readGroups_of_group true _ rfl (endsGroup_tailChars gs h),
      readGroups_tailChars h hrest (Nat.le_of_succ_le_succ hn)]

end Groups

/-! ### The second family, whole addresses -/

theorem ofGroups?_groups (a : IPv6) : ofGroups? a.groups = some a := dif_pos a.length_groups

/-- What the double colon leaves out is filled up with zeros. -/
theorem read?_gap {a : IPv6} (head tail : List UInt16) (e : Bool)
    (hroom : head.length + tail.length < 8)
    (htail : ∀ room, tail.length ≤ room → readGroups f true room cs = (tail, e, rest))
    (hgs : a.groups = head ++ List.replicate (8 - head.length - tail.length) 0 ++ tail) :
    read? f (groupChars head ++ ':' :: ':' :: cs) = some (a, rest) := by
  have hhead := readGroups_groupChars (f := f) (n := 8) head (endsGroup_colon (':' :: cs))
    (readGroups_doubleColon cs) (by omega)
  have hlength : ¬ head.length = 8 := by omega
  have htail := htail (8 - head.length - if f.emptyGap then 0 else 1) (by split <;> omega)
  simp only [read?, hhead, if_neg hlength, skipChar?_cons, htail, ← hgs, ofGroups?_groups, bind,
    Option.bind, Bool.false_eq_true, if_false, pure]

/-- A group is put together from its upper and its lower octet. -/
theorem join_octets (g : UInt16) :
    (g >>> 8).toUInt8.toUInt16 <<< 8 ||| g.toUInt8.toUInt16 = g := by
  have hg : g.toNat < 2 ^ 16 := g.toNat_lt
  have hlow : g.toNat % 2 ^ 8 < 2 ^ 8 := Nat.mod_lt _ (by decide)
  apply UInt16.toNat_inj.mp
  rw [UInt16.toNat_or, UInt16.toNat_shiftLeft, UInt8.toNat_toUInt16, UInt8.toNat_toUInt16,
    UInt16.toNat_toUInt8, UInt16.toNat_toUInt8, UInt16.toNat_shiftRight]
  have hhigh : g.toNat >>> (8 % 16) % 2 ^ 8 = g.toNat / 2 ^ 8 := by
    rw [Nat.shiftRight_eq_div_pow]
    change g.toNat / 2 ^ 8 % 2 ^ 8 = _
    exact Nat.mod_eq_of_lt (by omega)
  change (g.toNat >>> (8 % 16) % 2 ^ 8) <<< 8 % 2 ^ 16 ||| g.toNat % 2 ^ 8 = g.toNat
  have hshift : (g.toNat / 2 ^ 8) <<< 8 % 2 ^ 16 = (g.toNat / 2 ^ 8) <<< 8 := by
    rw [Nat.shiftLeft_eq]
    exact Nat.mod_eq_of_lt (by omega)
  rw [hhigh, hshift, ← Nat.shiftLeft_add_eq_or_of_lt hlow, Nat.shiftLeft_eq]
  omega

theorem groups_of_mapped {a : IPv6} {m : IPv4} (hm : a.mapped? = some m) :
    a.groups = [0, 0, 0, 0, 0, 0xffff] ++ m.asGroups := by
  unfold mapped? at hm
  split at hm
  · next hi lo hgs =>
    cases hm
    rw [hgs, IPv4.asGroups, join_octets, join_octets]
    rfl
  · cases hm

theorem toList_mappedPrefix : "::ffff:".toList = [':', ':', 'f', 'f', 'f', 'f', ':'] := rfl

theorem read?_of_mapped {a : IPv6} {m : IPv4} (hm : a.mapped? = some m) (h : EndsAddress rest) :
    read? f ("::ffff:".toList ++ m.chars ++ rest) = some (a, rest) := by
  have hv4 : IPv4.read? f (m.chars ++ rest) = some (m, rest) :=
    IPv4.read?_chars m h.endsGroup.endsNumber
  have hchars : "::ffff:".toList ++ m.chars ++ rest =
      ':' :: ':' :: (Nat.toDigits 16 (0xffff : UInt16).toNat ++ ':' :: (m.chars ++ rest)) := by
    rw [List.append_assoc, toList_mappedPrefix]
    rfl
  rw [hchars]
  refine read?_gap [] (0xffff :: m.asGroups) true (Nat.lt_of_sub_eq_succ rfl)
    (fun room hroom => ?_) (groups_of_mapped hm)
  obtain ⟨n, rfl⟩ := Nat.exists_eq_add_of_le' hroom
  have htail : readGroups f false (n + 1 + 1) (':' :: (m.chars ++ rest)) =
      (m.asGroups, true, rest) := by
    simp only [readGroups, skipChar?_cons, Bool.false_eq_true, if_false, Nat.succ_ne_zero, hv4]
  exact (readGroups_of_group true _ rfl (endsGroup_colon _)).trans
    (congrArg (fun r => (0xffff :: r.1, r.2)) htail)

theorem zerosAt_le (gs : List UInt16) (i : Nat) : zerosAt gs i ≤ gs.length - i := by
  rw [← List.length_drop]
  exact (List.takeWhile_sublist _).length_le

/-- The zero groups from a position on. -/
theorem eq_zeros (gs : List UInt16) (i : Nat) :
    gs = gs.take i ++ List.replicate (zerosAt gs i) 0 ++ gs.drop (i + zerosAt gs i) := by
  have hzeros : (gs.drop i).takeWhile (· = 0) = List.replicate (zerosAt gs i) 0 :=
    List.eq_replicate_of_mem fun g hg => by
      simpa using List.all_eq_true.mp List.all_takeWhile g hg
  have hdrop : gs.drop (i + zerosAt gs i) = (gs.drop i).dropWhile (· = 0) := by
    calc gs.drop (i + zerosAt gs i)
        = (gs.drop i).drop ((gs.drop i).takeWhile (· = 0)).length := List.drop_drop.symm
      _ = ((gs.drop i).takeWhile (· = 0) ++ (gs.drop i).dropWhile (· = 0)).drop
            ((gs.drop i).takeWhile (· = 0)).length := by rw [List.takeWhile_append_dropWhile]
      _ = (gs.drop i).dropWhile (· = 0) := List.drop_left
  rw [hdrop, ← hzeros, List.append_assoc, List.takeWhile_append_dropWhile, List.take_append_drop]

/-- **An address of the second family is read back.** -/
theorem read?_chars (a : IPv6) (h : EndsAddress rest) :
    read? f (a.chars ++ rest) = some (a, rest) := by
  unfold chars
  split
  · next m hm => exact read?_of_mapped hm h
  · dsimp only
    have hle := zerosAt_le a.groups (gapStart a.groups)
    have hzeros := eq_zeros a.groups (gapStart a.groups)
    have hlength := a.length_groups
    generalize gapStart a.groups = i at *
    split
    · next hgap =>
      rw [List.append_assoc, List.append_assoc]
      refine read?_gap _ _ false ?_ (fun room hroom => readGroups_groupChars _ h.endsGroup
        (readGroups_of_endsAddress h) hroom) ?_
      · rw [List.length_take, List.length_drop]
        omega
      · have hn : 8 - (a.groups.take i).length - (a.groups.drop (i + zerosAt a.groups i)).length =
            zerosAt a.groups i := by
          rw [List.length_take, List.length_drop]
          omega
        rw [hn]
        exact hzeros
    · have hread := readGroups_groupChars (f := f) (n := 8) a.groups h.endsGroup
        (readGroups_of_endsAddress h) (Nat.le_of_eq hlength)
      simp only [read?, hread, hlength, if_pos, ofGroups?_groups, bind, Option.bind, pure]

/-- The text of an address of the second family is none of the first one. -/
theorem read?_chars_eq_none (a : IPv6) (h : EndsGroup rest) :
    IPv4.read? f (a.chars ++ rest) = none := by
  unfold chars
  split
  · next m _ =>
    rw [List.append_assoc, toList_mappedPrefix]
    exact read?_groupChars_eq_none [] (endsGroup_colon _)
  · dsimp only
    split
    · rw [List.append_assoc, List.append_assoc]
      exact read?_groupChars_eq_none _ (endsGroup_colon _)
    · exact read?_groupChars_eq_none _ h

end IPv6

/-! ### Addresses and blocks -/

/-- **The text of an address denotes it.** -/
theorem IpAddr.ofText?_text (a : IpAddr) : ofText? a.text = some a := by
  have hend : EndsAddress [] := nofun
  rw [ofText?, text, String.toList_ofList]
  cases a with
  | v4 a =>
    have hread := IPv4.read?_chars (f := .strict) a hend.endsGroup.endsNumber
    rw [List.append_nil] at hread
    simp only [ofChars?, chars, hread]
  | v6 a =>
    have hnone := IPv6.read?_chars_eq_none (f := .strict) a hend.endsGroup
    have hread := IPv6.read?_chars (f := .strict) a hend
    rw [List.append_nil] at hnone hread
    simp only [ofChars?, chars, hnone, hread]

namespace Cidr

theorem readLength?_toDigits {most n : Nat} (hmost : (Nat.toDigits 10 n).length ≤ most) :
    readLength? most ('/' :: Nat.toDigits 10 n) = some n := by
  have hread : readNumber? 10 most (Nat.toDigits 10 n ++ []) = some (n, []) :=
    readNumber?_toDigits (by decide) (by decide) hmost nofun
  rw [List.append_nil] at hread
  simp only [readLength?, skipChar?_cons, hread, bind, Option.bind]

/-- **The text of a block denotes it.** -/
theorem ofText?_text (c : Cidr) : ofText? c.text = some c := by
  have hend : EndsAddress ('/' :: Nat.toDigits 10 c.length) := by
    rintro d ⟨⟩
    rfl
  have hof : of? c.addr c.length = some c := dif_pos c.length_le
  rw [ofText?, text, String.toList_ofList, chars, List.append_assoc, List.singleton_append]
  obtain ⟨a | a, n, hn⟩ := c
  · have hread := IPv4.read?_chars (f := .padded) a hend.endsGroup.endsNumber
    have hlength : (Nat.toDigits 10 n).length ≤ 2 :=
      (Nat.length_toDigits_le_iff (by decide) (by decide)).mpr
        (Nat.lt_of_le_of_lt hn (show 32 < 100 by decide))
    simp only [ofChars?, IpAddr.chars, hread, readLength?_toDigits hlength, Option.bind_some]
    exact hof
  · have hnone := IPv6.read?_chars_eq_none (f := .padded) a hend.endsGroup
    have hread := IPv6.read?_chars (f := .padded) a hend
    have hlength : (Nat.toDigits 10 n).length ≤ 3 :=
      (Nat.length_toDigits_le_iff (by decide) (by decide)).mpr
        (Nat.lt_of_le_of_lt hn (show 128 < 1000 by decide))
    simp only [ofChars?, IpAddr.chars, hnone, hread, readLength?_toDigits hlength,
      Option.bind_some]
    exact hof

end Cidr

end NetReach
