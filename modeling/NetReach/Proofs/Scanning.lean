import NetReach.Document.Layout
import NetReach.Proofs.Digits

/-! # Scanning what is written

Cutting a text into tokens never runs short, as every token takes a character: it goes from one
token to the next (`tokens_cons`) and passes over what is blank (`tokens_of_blank`).

A layout is *cut* into certain tokens if it is so wherever it stands, whatever the depth of nesting
and whatever follows, as long as that starts with a comma or a new line (`Layout.Cuts`). This holds
of plain values, and of arrays and objects if it holds of what they hold. -/

namespace NetReach

variable {c : Char} {cs rest : List Char} {ts : List Token}

/-! ### Every token takes a character -/

theorem length_of_scanUnits (h : (scanUnits cs).2 = .ok rest) : rest.length ≤ cs.length := by
  fun_induction scanUnits cs with
  -- the closing quote
  | case2 cs =>
    cases h
    exact Nat.le_succ _
  -- a code point given by its number
  | case5 h₁ h₂ h₃ h₄ cs n hn ns rest' heq _ ih =>
    rw [heq] at ih
    have := ih h
    simp only [List.length_cons]
    omega
  -- a letter behind a backslash
  | case8 e cs _ _ d hd ns rest' heq _ ih =>
    rw [heq] at ih
    have := ih h
    simp only [List.length_cons]
    omega
  -- a character that stands for itself
  | case10 c cs _ _ _ ns rest' heq ih =>
    rw [heq] at ih
    exact Nat.le_succ_of_le (ih h)
  | _ => cases h

theorem length_scanText : (scanText cs).2.length ≤ cs.length := by
  unfold scanText
  split
  · next ns rest h => exact length_of_scanUnits (congrArg Prod.snd h)
  · exact Nat.zero_le _

theorem length_dropWhile_le (p : Char → Bool) (cs : List Char) :
    (cs.dropWhile p).length ≤ cs.length := (List.dropWhile_sublist p).length_le

theorem length_scanExponent (n : Numeral) (cs : List Char) :
    (scanExponent n cs).2.length ≤ cs.length := by
  fun_cases scanExponent n cs with
  | case1 c cs' _ minus digits ds _ => exact Nat.zero_le _
  | case2 c cs' _ minus digits ds _ =>
    have hle : digits.length ≤ cs'.length := by
      unfold digits
      split <;> simp
    exact Nat.le_succ_of_le (Nat.le_trans (length_dropWhile_le _ _) hle)
  | case3 => exact Nat.le_refl _
  | case4 => exact Nat.le_refl _

theorem length_scanFraction (n : Numeral) (cs : List Char) :
    (scanFraction n cs).2.length ≤ cs.length := by
  fun_cases scanFraction n cs with
  | case1 => exact Nat.zero_le _
  | case2 cs' =>
    exact Nat.le_succ_of_le (Nat.le_trans (length_scanExponent _ _) (length_dropWhile_le _ _))
  | case3 => exact length_scanExponent _ _

theorem length_scanNumber (m : Bool) (cs : List Char) :
    (scanNumber m cs).2.length ≤ (cs.dropWhile Char.isDigit).length := by
  fun_cases scanNumber m cs with
  | case3 => exact length_scanFraction _ _
  | _ => exact Nat.zero_le _

theorem length_of_scanWord {es : List Char} (h : scanWord es cs = .ok rest) :
    rest.length ≤ cs.length := by
  fun_induction scanWord es cs with
  | case1 cs => cases h; exact Nat.le_refl _
  | case3 es c cs ih => exact Nat.le_succ_of_le (ih h)
  | _ => cases h

theorem length_scanLiteral (t : Token) (es cs : List Char) :
    (scanLiteral t es cs).2.length ≤ cs.length := by
  fun_cases scanLiteral t es cs with
  | case1 rest h => exact length_of_scanWord h
  | case2 => exact Nat.zero_le _

theorem length_scanToken (c : Char) (cs : List Char) : (scanToken c cs).2.length ≤ cs.length := by
  fun_cases scanToken c cs with
  | case7 => exact length_scanText
  | case8 => exact length_scanLiteral _ _ _
  | case9 => exact length_scanLiteral _ _ _
  | case10 => exact length_scanLiteral _ _ _
  | case11 => exact Nat.le_trans (length_scanNumber _ _) (length_dropWhile_le _ _)
  | case12 _ _ _ _ _ _ _ _ _ _ _ hc =>
    have h := length_scanNumber false (c :: cs)
    rw [List.dropWhile_cons_of_pos hc] at h
    exact Nat.le_trans h (length_dropWhile_le _ _)
  | case13 => exact Nat.zero_le _
  | _ => exact Nat.le_refl _

/-! ### From token to token -/

/-- More tokens are asked for than there can be: it does not matter how many. -/
theorem tokensWithin_eq {n m : Nat} (hn : cs.length ≤ n) (hm : cs.length ≤ m) :
    tokensWithin n cs = tokensWithin m cs := by
  induction n generalizing m cs with
  | zero =>
    obtain rfl : cs = [] := List.length_eq_zero_iff.mp (Nat.le_zero.mp hn)
    cases m <;> rfl
  | succ n ih =>
    cases m with
    | zero =>
      obtain rfl : cs = [] := List.length_eq_zero_iff.mp (Nat.le_zero.mp hm)
      rfl
    | succ m =>
      have hle := length_dropWhile_le isBlank cs
      rw [tokensWithin, tokensWithin]
      cases hcs : cs.dropWhile isBlank with
      | nil => rfl
      | cons c cs' =>
        rw [hcs, List.length_cons] at hle
        have hrest := length_scanToken c cs'
        have hih : tokensWithin n (scanToken c cs').2 = tokensWithin m (scanToken c cs').2 :=
          ih (by omega) (by omega)
        exact congrArg ((scanToken c cs').1 :: ·) hih

theorem tokens_of_blank (h : isBlank c = true) (cs : List Char) :
    tokens (c :: cs) = tokens cs := by
  have hskip : tokensWithin (cs.length + 1) (c :: cs) = tokensWithin (cs.length + 1) cs := by
    rw [tokensWithin, tokensWithin, List.dropWhile_cons_of_pos h]
  rw [tokens, List.length_cons, hskip]
  exact tokensWithin_eq (Nat.le_succ _) (Nat.le_refl _)

theorem tokens_cons (h : isBlank c = false) (cs : List Char) :
    tokens (c :: cs) = (scanToken c cs).1 :: tokens (scanToken c cs).2 := by
  rw [tokens, List.length_cons, tokensWithin,
    List.dropWhile_cons_of_neg (by rw [h]; exact Bool.false_ne_true)]
  exact congrArg _ (tokensWithin_eq (length_scanToken c cs) (Nat.le_refl _))

theorem tokens_line (depth : Nat) (cs : List Char) :
    tokens (Layout.line depth ++ cs) = tokens cs := by
  rw [Layout.line, List.cons_append, tokens_of_blank rfl]
  induction 2 * depth with
  | zero => rfl
  | succ n ih => rw [List.replicate_succ, List.cons_append, tokens_of_blank rfl, ih]

/-! ### Texts -/

theorem hexWord?_digitChar : ∀ n : Fin 32,
    hexWord? '0' '0' (Nat.digitChar (n / 16)) (Nat.digitChar (n % 16)) = some n.1 := by decide

/-- A written character is scanned as its code point. -/
theorem scanUnits_textChar (c : Char) (cs : List Char) : scanUnits (Layout.textChar c ++ cs) =
    (c.toNat :: (scanUnits cs).1, (scanUnits cs).2) := by
  unfold Layout.textChar
  split
  iterate 7 rfl
  · next hquote hslash _ _ _ _ _ =>
    split
    · next h =>
      have hhex := hexWord?_digitChar ⟨c.toNat, h⟩
      simp only [List.cons_append, List.nil_append, scanUnits, hhex]
      rfl
    · next h =>
      rw [List.singleton_append, scanUnits.eq_def]
      simp only [if_neg hquote, if_neg hslash, if_neg h]

theorem scanUnits_textChars (cs rest : List Char) :
    scanUnits (cs.flatMap Layout.textChar ++ '"' :: rest) = (cs.map Char.toNat, .ok rest) := by
  induction cs with
  | nil => rw [List.flatMap_nil, List.nil_append, scanUnits.eq_def]; rfl
  | cons c cs ih => rw [List.flatMap_cons, List.append_assoc, scanUnits_textChar, ih, List.map_cons]

/-- A code point is no half of a surrogate pair. -/
theorem joinUnits?_cons (c : Char) (ns : List Nat) :
    joinUnits? (c.toNat :: ns) = (joinUnits? ns).map (c :: ·) := by
  have hc : c.toNat < 0xd800 ∨ 0xdfff < c.toNat ∧ c.toNat < 0x110000 := c.valid
  have hhigh : isHighSurrogate c.toNat = false := decide_eq_false (by omega)
  have hlow : isLowSurrogate c.toNat = false := decide_eq_false (by omega)
  cases ns with
  | nil => simp only [joinUnits?, hhigh, hlow, Char.ofNat_toNat]; rfl
  | cons m ns => simp only [joinUnits?, hhigh, hlow, Char.ofNat_toNat]; rfl

theorem joinUnits?_toNat (cs : List Char) : joinUnits? (cs.map Char.toNat) = some cs := by
  induction cs with
  | nil => rfl
  | cons c cs ih => rw [List.map_cons, joinUnits?_cons, ih, Option.map_some]

/-! ### Numerals -/

theorem isBlank_of_isDigit (h : c.isDigit = true) : isBlank c = false := by
  have hne : ∀ d : Char, d.isDigit = false → c ≠ d := fun d hd hcd => by
    rw [hcd, hd] at h
    cases h
  simp only [isBlank, Bool.or_eq_false_iff, decide_eq_false_iff_not]
  exact ⟨⟨⟨hne _ rfl, hne _ rfl⟩, hne _ rfl⟩, hne _ rfl⟩

theorem scanToken_of_isDigit (h : c.isDigit = true) :
    scanToken c cs = scanNumber false (c :: cs) := by
  fun_cases scanToken c cs with
  | case12 => rfl
  | case13 _ _ _ _ _ _ _ _ _ _ _ hc => exact absurd h hc
  | _ => subst_vars; cases h

/-! ### Layouts -/

/-- A group of tokens behind a comma, unless it is the first one. -/
def led (first : Bool) (ts : List Token) : List Token := if first then ts else .comma :: ts

/-- Groups of tokens with commas between them. -/
def separated : (first : Bool) → List (List Token) → List Token
  | _, [] => []
  | first, ts :: tss => led first ts ++ separated false tss

theorem separated_cons (us : List Token) (tss : List (List Token)) :
    separated true (ts :: us :: tss) = ts ++ .comma :: separated true (us :: tss) := rfl

theorem length_le_separated (tss : List (List Token)) (h : ∀ ts ∈ tss, ts ≠ []) (first : Bool) :
    tss.length ≤ (separated first tss).length := by
  induction tss generalizing first with
  | nil => exact Nat.le_refl _
  | cons ts tss ih =>
    have hts : 0 < (led first ts).length := by
      have := List.length_pos_iff.mpr (h ts List.mem_cons_self)
      cases first
      · exact Nat.succ_pos _
      · exact this
    have := ih (fun ts hts => h ts (List.mem_cons_of_mem _ hts)) false
    rw [separated, List.length_cons, List.length_append]
    omega

/-- The text goes on as it does behind a value. -/
def Resumes (rest : List Char) : Prop := ∀ c ∈ rest.head?, c = ',' ∨ c = '\n'

theorem Resumes.endsNumeral (h : Resumes rest) : EndsNumeral rest := by
  intro c hc
  rcases h c hc with rfl | rfl <;> rfl

theorem resumes_line (depth : Nat) (cs : List Char) : Resumes (Layout.line depth ++ cs) := by
  rintro c ⟨⟩
  exact Or.inr rfl

namespace Layout

variable {w : Layout} {ws : List Layout}

/-- The tokens of what is laid out. -/
def tokens (w : Layout) : List Token := NetReach.tokens (w 0)

/-- The layout is cut into the tokens `ts`, wherever it stands. -/
def Cuts (w : Layout) (ts : List Token) : Prop := ∀ (depth : Nat) (rest : List Char),
  Resumes rest → NetReach.tokens (w depth ++ rest) = ts ++ NetReach.tokens rest

theorem Cuts.tokens_eq (h : w.Cuts ts) : w.tokens = ts := by
  have := h 0 [] nofun
  rwa [List.append_nil, show NetReach.tokens [] = [] from rfl, List.append_nil] at this

theorem Cuts.self (h : w.Cuts ts) : w.Cuts w.tokens := by rwa [h.tokens_eq]

theorem tokens_textChars (s : String) (rest : List Char) :
    NetReach.tokens (textChars s ++ rest) = .text (some s) :: NetReach.tokens rest := by
  have hscan : scanToken '"' (s.toList.flatMap textChar ++ '"' :: rest) =
      (.text (some s), rest) := by
    change scanText _ = _
    rw [scanText, scanUnits_textChars]
    simp only [joinUnits?_toNat, Option.map_some, String.ofList_toList]
  rw [textChars, List.cons_append, List.cons_append, List.append_assoc, List.singleton_append,
    tokens_cons rfl, hscan]

theorem cuts_text (s : String) : (text s).Cuts [.text (some s)] :=
  fun _ _ _ => tokens_textChars s _

theorem cuts_word (n : UInt32) : (word n).Cuts [.number (.ofNat n.toNat)] := by
  intro depth rest hrest
  obtain ⟨c, cs, hcs⟩ := exists_toDigits_eq_cons 10 n.toNat
  have hc : c.isDigit = true :=
    Nat.isDigit_of_mem_toDigits (b := 10) (n := n.toNat) (by decide) (by decide)
      (hcs ▸ List.mem_cons_self)
  have hscan := scanNumber_toDigits (n := n.toNat) hrest.endsNumeral
  change NetReach.tokens (Nat.toDigits 10 n.toNat ++ rest) = _
  rw [hcs, List.cons_append] at hscan ⊢
  rw [tokens_cons (isBlank_of_isDigit hc), scanToken_of_isDigit hc, hscan]
  rfl

theorem cuts_boolean (b : Bool) : (boolean b).Cuts [.boolean b] := by
  cases b <;> exact fun _ _ _ => tokens_cons rfl _

/-- What stands before the colon of a member and behind it. -/
theorem cuts_member (key : String) (h : w.Cuts ts) :
    (member key w).Cuts (.text (some key) :: .colon :: ts) := by
  intro depth rest hrest
  have hcolon : NetReach.tokens (':' :: ' ' :: (w depth ++ rest)) =
      .colon :: NetReach.tokens (w depth ++ rest) := by
    rw [tokens_cons rfl]
    exact congrArg _ (tokens_of_blank rfl _)
  rw [member, List.append_assoc, List.append_assoc, tokens_textChars]
  exact congrArg _ (hcolon.trans (congrArg _ (h depth rest hrest)))

theorem tokens_lines (h : ∀ w ∈ ws, w.Cuts w.tokens) (depth : Nat) (hrest : Resumes rest) :
    NetReach.tokens (lines depth ws ++ rest) =
      separated true (ws.map tokens) ++ NetReach.tokens rest := by
  fun_induction lines depth ws with
  | case1 => rfl
  | case2 w =>
    rw [List.append_assoc, tokens_line, h w List.mem_cons_self depth rest hrest]
    simp only [List.map_cons, List.map_nil, separated, led, if_pos, List.append_nil]
  | case3 w ws hne ih =>
    obtain ⟨w', ws', rfl⟩ := List.exists_cons_of_ne_nil hne
    have hcomma : Resumes (',' :: (lines depth (w' :: ws') ++ rest)) := by
      rintro c ⟨⟩
      exact Or.inl rfl
    have hw := h w List.mem_cons_self depth _ hcomma
    rw [tokens_cons rfl] at hw
    simp only [List.append_assoc, tokens_line, List.cons_append,
      List.nil_append, hw, List.map_cons, separated_cons]
    exact congrArg (w.tokens ++ .comma :: ·) (ih fun w hw => h w (List.mem_cons_of_mem _ hw))

/-- What stands between brackets. -/
theorem cuts_enclosed {o c : Char} {t t' : Token}
    (ho : ∀ cs, NetReach.tokens (o :: cs) = t :: NetReach.tokens cs)
    (hc : ∀ cs, NetReach.tokens (c :: cs) = t' :: NetReach.tokens cs)
    (h : ∀ w ∈ ws, w.Cuts w.tokens) :
    (enclosed o c ws).Cuts (t :: (separated true (ws.map tokens) ++ [t'])) := by
  intro depth rest hrest
  unfold enclosed
  split
  · next hws =>
    obtain rfl := List.isEmpty_iff.mp hws
    exact (ho _).trans (congrArg _ (hc rest))
  · have hline : Resumes (line depth ++ (c :: rest)) := resumes_line depth _
    simp only [List.cons_append, List.append_assoc, List.nil_append, ho,
      tokens_lines h (depth + 1) hline, tokens_line, hc]

theorem cuts_array (h : ∀ w ∈ ws, w.Cuts w.tokens) : (array ws).Cuts
    (.openBracket :: (separated true (ws.map tokens) ++ [.closeBracket])) :=
  cuts_enclosed (fun _ => tokens_cons rfl _) (fun _ => tokens_cons rfl _) h

/-- The tokens of a member of an object. -/
def memberTokens (m : String × Layout) : List Token :=
  .text (some m.1) :: .colon :: m.2.tokens

theorem cuts_object {ms : List (String × Layout)} (h : ∀ m ∈ ms, m.2.Cuts m.2.tokens) :
    (object ms).Cuts
      (.openBrace :: (separated true (ms.map memberTokens) ++ [.closeBrace])) := by
  have hmember : ∀ m ∈ ms, (member m.1 m.2).Cuts (memberTokens m) := fun m hm =>
    cuts_member m.1 (h m hm)
  have hmap : (ms.map fun m => member m.1 m.2).map tokens = ms.map memberTokens := by
    rw [List.map_map]
    exact List.map_congr_left fun m hm => (hmember m hm).tokens_eq
  rw [← hmap]
  refine cuts_enclosed (fun _ => tokens_cons rfl _) (fun _ => tokens_cons rfl _) fun w hw => ?_
  obtain ⟨m, hm, rfl⟩ := List.mem_map.mp hw
  exact (hmember m hm).self

end Layout

end NetReach
