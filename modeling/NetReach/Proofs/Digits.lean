import NetReach.Address.Text
import NetReach.Document.Token

/-! # Numbers that are read back

A number is written by its digits, without leading zeros (`head?_toDigits`). Its digits end where
the text goes on with anything else than a digit, so what reads a number finds the same one again,
the numeral of a document (`scanNumber_toDigits`, `Numeral.word?_ofNat`) as well as the number that
is part of an address (`readNumber?_toDigits`). -/

namespace NetReach

variable {b n : Nat} {rest : List Char} {p : Char → Bool}

/-! ### Digits -/

theorem exists_toDigits_eq_cons (b n : Nat) : ∃ c cs, Nat.toDigits b n = c :: cs :=
  List.exists_cons_of_ne_nil Nat.toDigits_ne_nil

theorem head?_toDigits_append : (Nat.toDigits b n ++ rest).head? = (Nat.toDigits b n).head? := by
  obtain ⟨c, cs, hc⟩ := exists_toDigits_eq_cons b n
  rw [hc, List.cons_append, List.head?_cons, List.head?_cons]

theorem mem_toDigits (hb : 1 < b) {c : Char} (h : c ∈ Nat.toDigits b n) :
    ∃ d < b, c = Nat.digitChar d := by
  induction n using Nat.strongRecOn with
  | ind n ih =>
    rw [Nat.toDigits_eq_if hb] at h
    split at h
    · next hn => exact ⟨n, hn, List.mem_singleton.mp h⟩
    · next hn =>
      rcases List.mem_append.mp h with h | h
      · exact ih (n / b) (Nat.div_lt_self (by omega) hb) h
      · exact ⟨n % b, Nat.mod_lt _ (by omega), List.mem_singleton.mp h⟩

/-- **A number has no leading zeros.** -/
theorem head?_toDigits (hb : 1 < b) (hn : 0 < n) : (Nat.toDigits b n).head? ≠ some '0' := by
  induction n using Nat.strongRecOn with
  | ind n ih =>
    rw [Nat.toDigits_eq_if hb]
    split
    · rw [List.head?_cons, ne_eq, Option.some.injEq, Nat.digitChar_eq_zero]
      omega
    · next hnb =>
      have hq : 0 < n / b := Nat.div_pos (by omega) (by omega)
      rw [head?_toDigits_append]
      exact ih (n / b) (Nat.div_lt_self hn hb) hq

/-- Zero is a single digit, and any other number does not start with zero. -/
theorem length_toDigits_or_head? (hb : 1 < b) :
    (Nat.toDigits b n).length = 1 ∨ (Nat.toDigits b n).head? ≠ some '0' := by
  rcases Nat.eq_zero_or_pos n with rfl | hn
  · exact Or.inl (by rw [Nat.toDigits_of_lt_base (by omega), List.length_singleton])
  · exact Or.inr (head?_toDigits hb hn)

/-- The text does not go on with a character of this kind. -/
def Stops (p : Char → Bool) (rest : List Char) : Prop := ∀ c ∈ rest.head?, p c = false

theorem takeWhile_of_stops (h : Stops p rest) : rest.takeWhile p = [] := by
  cases rest with
  | nil => rfl
  | cons c cs => exact List.takeWhile_cons_of_neg (by rw [h c rfl]; decide)

theorem dropWhile_of_stops (h : Stops p rest) : rest.dropWhile p = rest := by
  cases rest with
  | nil => rfl
  | cons c cs => exact List.dropWhile_cons_of_neg (by rw [h c rfl]; decide)

theorem takeWhile_toDigits (hb : 1 < b) (hp : ∀ d < b, p (Nat.digitChar d) = true)
    (h : Stops p rest) : (Nat.toDigits b n ++ rest).takeWhile p = Nat.toDigits b n := by
  rw [List.takeWhile_append_of_pos, takeWhile_of_stops h, List.append_nil]
  intro c hc
  obtain ⟨d, hd, rfl⟩ := mem_toDigits hb hc
  exact hp d hd

theorem dropWhile_toDigits (hb : 1 < b) (hp : ∀ d < b, p (Nat.digitChar d) = true)
    (h : Stops p rest) : (Nat.toDigits b n ++ rest).dropWhile p = rest := by
  rw [List.dropWhile_append_of_pos, dropWhile_of_stops h]
  intro c hc
  obtain ⟨d, hd, rfl⟩ := mem_toDigits hb hc
  exact hp d hd

/-! ### Numerals -/

/-- The text does not go on as a numeral. -/
def EndsNumeral (rest : List Char) : Prop :=
  Stops (fun c => c.isDigit || c = '.' || c = 'e' || c = 'E') rest

theorem EndsNumeral.stops (h : EndsNumeral rest) : Stops Char.isDigit rest := by
  intro c hc
  have := h c hc
  simp only [Bool.or_eq_false_iff] at this
  exact this.1.1.1

theorem EndsNumeral.scanFraction (h : EndsNumeral rest) (m : Numeral) :
    scanFraction m rest = (.number m, rest) := by
  cases rest with
  | nil => rfl
  | cons c cs =>
    have := h c rfl
    simp only [Bool.or_eq_false_iff, decide_eq_false_iff_not] at this
    obtain ⟨⟨⟨-, hpoint⟩, he⟩, hE⟩ := this
    have hexp : scanExponent m (c :: cs) = (.number m, c :: cs) := by
      simp only [scanExponent, if_neg (not_or.mpr ⟨he, hE⟩)]
    unfold NetReach.scanFraction
    split
    · next heq => exact absurd (List.cons.inj heq).1 hpoint
    · exact hexp

/-- **The numeral of a number is scanned whole.** -/
theorem scanNumber_toDigits (h : EndsNumeral rest) :
    scanNumber false (Nat.toDigits 10 n ++ rest) = (.number (.ofNat n), rest) := by
  have hp : ∀ d < 10, (Nat.digitChar d).isDigit = true := fun d hd => by
    rw [Nat.isDigit_digitChar, decide_eq_true hd]
  have hzero : ¬ (1 < (Nat.toDigits 10 n).length ∧ (Nat.toDigits 10 n).head? = some '0') := by
    rintro ⟨hlength, hhead⟩
    rcases length_toDigits_or_head? (b := 10) (n := n) (by decide) with h | h
    · omega
    · exact h hhead
  have hne : ¬ (Nat.toDigits 10 n).isEmpty = true := by
    rw [List.isEmpty_iff]
    exact Nat.toDigits_ne_nil
  simp only [scanNumber, takeWhile_toDigits (by decide) hp h.stops,
    dropWhile_toDigits (by decide) hp h.stops, if_neg hzero, if_neg hne]
  exact h.scanFraction _

/-- **The numeral of a word denotes the word.** -/
theorem Numeral.word?_ofNat (w : UInt32) : (Numeral.ofNat w.toNat).word? = some w := by
  have hv : Nat.ofDigitChars 10 (Nat.toDigits 10 w.toNat) 0 = w.toNat :=
    Nat.ofDigitChars_toDigits (by decide) (by decide)
  simp only [word?, ofNat, hv, if_pos w.toNat_lt_size, UInt32.ofNat_toNat]
  rfl

/-! ### Numbers of an address -/

theorem hexValue?_digitChar : ∀ d : Fin 16, hexValue? (Nat.digitChar d) = some d.1 := by decide

theorem digitValue?_digitChar (hb : b ≤ 16) {d : Nat} (hd : d < b) :
    digitValue? b (Nat.digitChar d) = some d := by
  rw [digitValue?, hexValue?_digitChar ⟨d, by omega⟩, Option.filter_some, decide_eq_true hd]
  rfl

theorem digitsValue_toDigits (hb : 1 < b) (hb' : b ≤ 16) :
    digitsValue b (Nat.toDigits b n) = n := by
  induction n using Nat.strongRecOn with
  | ind n ih =>
    rw [Nat.toDigits_eq_if hb]
    split
    · next hn =>
      rw [digitsValue, List.foldl_cons, List.foldl_nil, digitValue?_digitChar hb' hn,
        Option.getD_some, Nat.zero_mul, Nat.zero_add]
    · next hn =>
      have hq := ih (n / b) (Nat.div_lt_self (by omega) hb)
      rw [digitsValue] at hq ⊢
      rw [List.foldl_append, hq, List.foldl_cons, List.foldl_nil,
        digitValue?_digitChar hb' (Nat.mod_lt _ (by omega)), Option.getD_some, Nat.div_add_mod']

/-- **A number is read back**, if it has no more digits than may be read. -/
theorem readNumber?_toDigits {most : Nat} (hb : 1 < b) (hb' : b ≤ 16)
    (hmost : (Nat.toDigits b n).length ≤ most)
    (h : Stops (fun c => (digitValue? b c).isSome) rest) :
    readNumber? b most (Nat.toDigits b n ++ rest) = some (n, rest) := by
  have hp : ∀ d < b, (digitValue? b (Nat.digitChar d)).isSome = true := fun d hd => by
    rw [digitValue?_digitChar hb' hd]
    rfl
  have hlength : ¬ ((Nat.toDigits b n).isEmpty = true ∨ most < (Nat.toDigits b n).length) := by
    rintro (hempty | hlong)
    · exact Nat.toDigits_ne_nil (List.isEmpty_iff.mp hempty)
    · omega
  simp only [readNumber?, takeWhile_toDigits hb hp h, dropWhile_toDigits hb hp h, if_neg hlength,
    digitsValue_toDigits hb hb']

end NetReach
