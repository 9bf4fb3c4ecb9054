import NetReach.Document.Numeral

/-! # Tokens of a document

A document is read in two steps. Here its text is cut into tokens; where that is not possible the
last token is a broken one, which tells what is wrong. Whether this comes to light depends on the
reader, which may find another fault before it.

A value that nobody asks for is skipped, and less is demanded of it: a text may hold half of a
surrogate pair, and a numeral may be of any size. -/

namespace NetReach

/-- Why a document cannot be read. -/
inductive Fault where
  /-- The text is no document. -/
  | malformed
  /-- The text ends too early. -/
  | truncated
  /-- The document is not of the expected shape. -/
  | mismatch
deriving DecidableEq, Repr

/-- A piece of a document. -/
inductive Token where
  | openBrace
  | closeBrace
  | openBracket
  | closeBracket
  | colon
  | comma
  | null
  | boolean (b : Bool)
  /-- A text; without content if it holds half of a surrogate pair. -/
  | text (content : Option String)
  | number (n : Numeral)
  /-- Something that cannot be read. It is told whether it starts as a text, what is wrong with it
  as a value, and what is wrong with it where it is skipped. -/
  | broken (quoted : Bool) (read skipped : Fault)
deriving DecidableEq, Repr

/-! ### Texts -/

/-- The value of a hexadecimal digit. -/
def hexDigit? (c : Char) : Option Nat :=
  if '0' ≤ c ∧ c ≤ '9' then some (c.toNat - '0'.toNat)
  else if 'a' ≤ c ∧ c ≤ 'f' then some (c.toNat - 'a'.toNat + 10)
  else if 'A' ≤ c ∧ c ≤ 'F' then some (c.toNat - 'A'.toNat + 10)
  else none

/-- The value of four hexadecimal digits. -/
def hexWord? (a b c d : Char) : Option Nat := do
  some ((((← hexDigit? a) * 16 + (← hexDigit? b)) * 16 + (← hexDigit? c)) * 16 + (← hexDigit? d))

/-- The character that a single letter behind a backslash stands for. -/
def escaped? (c : Char) : Option Char :=
  match c with
  | '"' | '\\' | '/' => some c
  | 'b' => some '\x08'
  | 'f' => some '\x0c'
  | 'n' => some '\n'
  | 'r' => some '\r'
  | 't' => some '\t'
  | _ => none

/-- The code units up to the closing quote, and the rest behind it. A unit is a code point, or a
surrogate given by its number. -/
def scanUnits : List Char → List Nat × Except Fault (List Char)
  | [] => ([], .error .truncated)
  | c :: cs =>
    if c = '"' then ([], .ok cs)
    else if c = '\\' then
      match cs with
      | [] => ([], .error .truncated)
      | 'u' :: h₁ :: h₂ :: h₃ :: h₄ :: cs =>
        match hexWord? h₁ h₂ h₃ h₄ with
        | none => ([], .error .malformed)
        | some n => let (ns, rest) := scanUnits cs; (n :: ns, rest)
      | 'u' :: cs =>
        ([], .error (if (String.ofList cs).utf8ByteSize < 4 then .truncated else .malformed))
      | e :: cs =>
        match escaped? e with
        | none => ([], .error .malformed)
        | some d => let (ns, rest) := scanUnits cs; (d.toNat :: ns, rest)
    else if c.toNat < 0x20 then ([], .error .malformed)
    else let (ns, rest) := scanUnits cs; (c.toNat :: ns, rest)

/-- The unit is the first half of a surrogate pair. -/
def isHighSurrogate (n : Nat) : Bool := decide (0xd800 ≤ n ∧ n < 0xdc00)

/-- The unit is the second half of a surrogate pair. -/
def isLowSurrogate (n : Nat) : Bool := decide (0xdc00 ≤ n ∧ n < 0xe000)

/-- The characters of a sequence of units, unless half of a surrogate pair stands alone. -/
def joinUnits? : List Nat → Option (List Char)
  | [] => some []
  | [n] => if isHighSurrogate n || isLowSurrogate n then none else some [Char.ofNat n]
  | n :: m :: ns =>
    if isLowSurrogate n then none
    else if isHighSurrogate n then
      if isLowSurrogate m then
        (joinUnits? ns).map (Char.ofNat (0x10000 + (n - 0xd800) * 0x400 + (m - 0xdc00)) :: ·)
      else none
    else (joinUnits? (m :: ns)).map (Char.ofNat n :: ·)

/-- The units before the first half of a pair that stands at the end. -/
def dropOpenPair (ns : List Nat) : List Nat :=
  if ns.getLast?.any isHighSurrogate then ns.dropLast else ns

/-- The token of a text whose opening quote was read, and the rest behind it. What comes before a
break may be at fault itself, but a pair may still be open there. -/
def scanText (cs : List Char) : Token × List Char :=
  match scanUnits cs with
  | (ns, .ok rest) => (.text ((joinUnits? ns).map String.ofList), rest)
  | (ns, .error f) =>
    (.broken true (if (joinUnits? (dropOpenPair ns)).isSome then f else .malformed) f, [])

/-! ### Numerals and words -/

/-- A break where a digit is missing. The end of the text counts as one only where the value is
asked for. -/
def missingDigit (cs : List Char) : Token :=
  .broken false (if cs.isEmpty then .truncated else .malformed) .malformed

/-- The exponent of a numeral, if one follows. -/
def scanExponent (n : Numeral) (cs : List Char) : Token × List Char :=
  match cs with
  | c :: cs' =>
    if c = 'e' ∨ c = 'E' then
      let minus := cs'.head? = some '-'
      let digits := if minus ∨ cs'.head? = some '+' then cs'.drop 1 else cs'
      let ds := digits.takeWhile Char.isDigit
      if ds.isEmpty then (missingDigit digits, [])
      else (.number { n with exponent := some (minus, ds) }, digits.dropWhile Char.isDigit)
    else (.number n, cs)
  | [] => (.number n, [])

/-- The fraction of a numeral, if one follows, and the exponent. -/
def scanFraction (n : Numeral) (cs : List Char) : Token × List Char :=
  match cs with
  | '.' :: cs =>
    let ds := cs.takeWhile Char.isDigit
    if ds.isEmpty then (missingDigit cs, [])
    else scanExponent { n with fraction := ds } (cs.dropWhile Char.isDigit)
  | cs => scanExponent n cs

/-- A numeral behind its sign. It starts with zero only if no other digit follows. -/
def scanNumber (negative : Bool) (cs : List Char) : Token × List Char :=
  let ds := cs.takeWhile Char.isDigit
  if ds.isEmpty then (missingDigit cs, [])
  else if 1 < ds.length ∧ ds.head? = some '0' then (.broken false .malformed .malformed, [])
  else scanFraction { negative, whole := ds } (cs.dropWhile Char.isDigit)

/-- The rest behind a word, of which `expected` is left. -/
def scanWord : (expected cs : List Char) → Except Fault (List Char)
  | [], cs => .ok cs
  | _ :: _, [] => .error .truncated
  | e :: es, c :: cs => if c = e then scanWord es cs else .error .malformed

/-- The token `t` if the word is complete. -/
def scanLiteral (t : Token) (expected cs : List Char) : Token × List Char :=
  match scanWord expected cs with
  | .ok rest => (t, rest)
  | .error f => (.broken false f f, [])

/-! ### Documents -/

/-- The character is blank. -/
def isBlank (c : Char) : Bool := c = ' ' || c = '\t' || c = '\n' || c = '\r'

/-- The token that starts with `c`, and the rest behind it. -/
def scanToken (c : Char) (cs : List Char) : Token × List Char :=
  if c = '\x7b' then (.openBrace, cs)
  else if c = '\x7d' then (.closeBrace, cs)
  else if c = '[' then (.openBracket, cs)
  else if c = ']' then (.closeBracket, cs)
  else if c = ':' then (.colon, cs)
  else if c = ',' then (.comma, cs)
  else if c = '"' then scanText cs
  else if c = 'n' then scanLiteral .null ['u', 'l', 'l'] cs
  else if c = 't' then scanLiteral (.boolean true) ['r', 'u', 'e'] cs
  else if c = 'f' then scanLiteral (.boolean false) ['a', 'l', 's', 'e'] cs
  else if c = '-' then scanNumber true cs
  else if c.isDigit then scanNumber false (c :: cs)
  else (.broken false .malformed .malformed, [])

/-- At most `n` tokens. -/
def tokensWithin : Nat → List Char → List Token
  | 0, _ => []
  | n + 1, cs =>
    match cs.dropWhile isBlank with
    | [] => []
    | c :: cs => let (t, rest) := scanToken c cs; t :: tokensWithin n rest

/-- The tokens of a document. Every one takes a character. -/
def tokens (cs : List Char) : List Token := tokensWithin cs.length cs

end NetReach
