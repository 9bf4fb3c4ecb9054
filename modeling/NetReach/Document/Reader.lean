import NetReach.Document.Token
import NetReach.Ordered.Map

/-! # Reading a document

A reader takes a value of a known shape from the front of the tokens, and reports the first fault in
reading order. A record is written as an object, whose unknown members are skipped, or as an array
of its fields in order, of which the last may be missing if none of them is required. -/

namespace NetReach

/-- Reads a value from the front of the tokens. -/
abbrev Reader (α : Type) := List Token → Except Fault (α × List Token)

/-- What is wrong with a token where another value is expected. -/
def Token.fault : Token → Fault
  | .text none => .malformed
  | .number n => if n.isHuge then .malformed else .mismatch
  | .text (some _) | .null | .boolean _ | .openBrace | .openBracket => .mismatch
  | .closeBrace | .closeBracket | .colon | .comma => .malformed
  | .broken _ read _ => read

namespace Reader

/-- What is wrong with the front of the tokens where another value is expected. -/
def faultOf : List Token → Fault
  | [] => .truncated
  | t :: _ => t.fault

/-! ### Plain values -/

/-- A text. -/
def text : Reader String
  | .text (some s) :: ts => .ok (s, ts)
  | ts => .error (faultOf ts)

/-- A word of 32 bits. -/
def word : Reader UInt32
  | .number n :: ts =>
    match n.word? with
    | some w => .ok (w, ts)
    | none => .error (Token.number n).fault
  | ts => .error (faultOf ts)

/-- A truth value. -/
def boolean : Reader Bool
  | .boolean b :: ts => .ok (b, ts)
  | ts => .error (faultOf ts)

/-- Nothing. -/
def null : Reader Unit
  | .null :: ts => .ok ((), ts)
  | ts => .error (faultOf ts)

/-- A value that may be nothing. -/
def option {α : Type} (r : Reader α) : Reader (Option α)
  | .null :: ts => .ok (none, ts)
  | ts => (r ts).map fun (a, ts) => (some a, ts)

/-- A value that the name read by `r` denotes. -/
def denotedBy {α : Type} (r : Reader String) (value? : String → Option α) : Reader α := fun ts =>
  match r ts with
  | .error f => .error f
  | .ok (s, ts) =>
    match value? s with
    | some a => .ok (a, ts)
    | none => .error .mismatch

/-- A text that denotes a value. -/
def denoted {α : Type} (value? : String → Option α) : Reader α := denotedBy text value?

/-- The value read by `r`, changed by `f`. -/
def map {α β : Type} (f : α → β) (r : Reader α) : Reader β := fun ts =>
  (r ts).map fun (a, ts) => (f a, ts)

/-! ### Arrays -/

/-- Whether another item follows, with the tokens from there on. Otherwise the closing bracket is
next. Items are separated by commas, and none stands before the first. -/
def nextItem (first : Bool) : List Token → Except Fault (Bool × List Token)
  | [] => .error .truncated
  | .closeBracket :: ts => .ok (false, .closeBracket :: ts)
  | t :: ts =>
    if first then .ok (true, t :: ts)
    else
      match t, ts with
      | .comma, [] => .error .truncated
      | .comma, .closeBracket :: _ => .error .malformed
      | .comma, ts => .ok (true, ts)
      | _, _ => .error .malformed

/-- The closing bracket. -/
def closing : List Token → Except Fault (List Token)
  | .closeBracket :: ts => .ok ts
  | [] => .error .truncated
  | _ => .error .malformed

/-- At most `n` items and the closing bracket. -/
def items {α : Type} (r : Reader α) : Nat → Bool → Reader (List α)
  | 0, _, _ => .error .truncated
  | n + 1, first, ts => do
    match ← nextItem first ts with
    | (false, ts) => return ([], ← closing ts)
    | (true, ts) =>
      let (a, ts) ← r ts
      let (as, ts) ← items r n false ts
      return (a :: as, ts)

/-- An array of items. Every item takes a token. -/
def list {α : Type} (r : Reader α) : Reader (List α)
  | .openBracket :: ts => items r (ts.length + 1) true ts
  | ts => .error (faultOf ts)

/-- The next item of an array that must have it. -/
def item {α : Type} (r : Reader α) (first : Bool) : Reader α := fun ts => do
  match ← nextItem first ts with
  | (false, _) => throw .mismatch
  | (true, ts) => r ts

/-- An array of two items. -/
def pair {α β : Type} (r : Reader α) (s : Reader β) : Reader (α × β)
  | .openBracket :: ts => do
    let (a, ts) ← item r true ts
    let (b, ts) ← item s false ts
    return ((a, b), ← closing ts)
  | ts => .error (faultOf ts)

/-! ### Skipping -/

/-- What comes next while a value is skipped. -/
inductive Skip where
  /-- A value. -/
  | value
  /-- The first item of an array, or its end. -/
  | item
  /-- The first member of an object, or its end. -/
  | member
  /-- The key of a member. -/
  | key
  /-- The colon behind a key. -/
  | colon
  /-- A comma, or the end of what is open. -/
  | comma

/-- Skip a key, where the objects and arrays `os` are open. -/
def skipKey (os : List Bool) : Token → Except Fault (Skip × List Bool)
  | .text _ => .ok (.colon, os)
  | .broken true _ skipped => .error skipped
  | _ => .error .malformed

/-- Skip a plain value, or the start of an object or array. -/
def skipValue (os : List Bool) : Token → Except Fault (Skip × List Bool)
  | .null | .boolean _ | .text _ | .number _ => .ok (.comma, os)
  | .openBrace => .ok (.member, true :: os)
  | .openBracket => .ok (.item, false :: os)
  | .broken _ _ skipped => .error skipped
  | .closeBrace | .closeBracket | .colon | .comma => .error .malformed

/-- Skip a token: what comes next, and what is open then. The innermost comes first, and objects are
marked by `true`. -/
def skipToken (s : Skip) (os : List Bool) (t : Token) : Except Fault (Skip × List Bool) :=
  match s with
  | .value => skipValue os t
  | .item => if t = .closeBracket then .ok (.comma, os.tail) else skipValue os t
  | .member => if t = .closeBrace then .ok (.comma, os.tail) else skipKey os t
  | .key => skipKey os t
  | .colon => if t = .colon then .ok (.value, os) else .error .malformed
  | .comma =>
    match t, os with
    | .comma, true :: _ => .ok (.key, os)
    | .comma, false :: _ => .ok (.value, os)
    | .closeBrace, true :: os => .ok (.comma, os)
    | .closeBracket, false :: os => .ok (.comma, os)
    | _, _ => .error .malformed

/-- Skip up to the end of all that is open. -/
def skipOpen (s : Skip) (os : List Bool) (ts : List Token) : Except Fault (List Token) :=
  match s, os, ts with
  | .comma, [], ts => .ok ts
  | _, _, [] => .error .truncated
  | s, os, t :: ts =>
    match skipToken s os t with
    | .error f => .error f
    | .ok (s, os) => skipOpen s os ts

/-- Skip a value of any shape. -/
def skip (ts : List Token) : Except Fault (List Token) := skipOpen .value [] ts

/-! ### Objects -/

/-- A key at the front of the tokens. -/
def key : Reader String
  | .text (some k) :: ts => .ok (k, ts)
  | .broken true read _ :: _ => .error read
  | [] => .error .truncated
  | _ => .error .malformed

/-- The key of the next member, if another follows. Otherwise the closing brace is read. Members are
separated by commas, and none stands before the first. -/
def nextKey (first : Bool) : Reader (Option String)
  | [] => .error .truncated
  | .closeBrace :: ts => .ok (none, ts)
  | t :: ts =>
    if first then (key (t :: ts)).map fun (k, ts) => (some k, ts)
    else
      match t with
      | .comma => (key ts).map fun (k, ts) => (some k, ts)
      | _ => .error .malformed

/-- The colon behind a key. -/
def colon : List Token → Except Fault (List Token)
  | .colon :: ts => .ok ts
  | [] => .error .truncated
  | _ => .error .malformed

/-- At most `n` members and the closing brace; of two with one key the last remains. -/
def entries {α : Type} (r : Reader α) : Nat → Bool → OrdMap String α → Reader (OrdMap String α)
  | 0, _, _, _ => .error .truncated
  | n + 1, first, m, ts => do
    match ← nextKey first ts with
    | (none, ts) => return (m, ts)
    | (some k, ts) =>
      let (a, ts) ← r (← colon ts)
      entries r n false (m.put k a) ts

/-- An object with any keys. Every member takes a token. -/
def table {α : Type} (r : Reader α) : Reader (OrdMap String α)
  | .openBrace :: ts => entries r (ts.length + 1) true ∅ ts
  | ts => .error (faultOf ts)

/-! ### Records -/

/-- A field of a record. -/
structure RecordField (α : Type) where
  name : String
  /-- Another name of the field. -/
  alias? : Option String := none
  /-- The field may not be missing. -/
  required : Bool
  /-- Read the value of the field into a record. -/
  into : α → Reader α

namespace RecordField

/-- A field that may not be missing. -/
def needed {α β : Type} (name : String) (r : Reader β) (set : α → β → α) : RecordField α :=
  { name, required := true, into := fun a => r.map (set a) }

/-- A field that keeps its former value if it is missing. -/
def defaulted {α β : Type} (name : String) (r : Reader β) (set : α → β → α)
    (alias? : Option String := none) : RecordField α :=
  { name, alias?, required := false, into := fun a => r.map (set a) }

/-- The field goes by this name. -/
def goesBy {α : Type} (f : RecordField α) (k : String) : Bool := k = f.name || f.alias? = some k

end RecordField

/-- At most `n` members of a record and the closing brace, where `seen` are the names of the fields
read before. -/
def members {α : Type} (fields : List (RecordField α)) : Nat → Bool → List String → α → Reader α
  | 0, _, _, _, _ => .error .truncated
  | n + 1, first, seen, a, ts => do
    match ← nextKey first ts with
    | (none, ts) =>
      if fields.all fun f => !f.required || decide (f.name ∈ seen) then return (a, ts)
      else throw .mismatch
    | (some k, ts) =>
      match fields.find? (·.goesBy k) with
      | none => members fields n false seen a (← skip (← colon ts))
      | some f =>
        if f.name ∈ seen then throw .mismatch
        else
          let (a, ts) ← f.into a (← colon ts)
          members fields n false (f.name :: seen) a ts

/-- The fields of a record in order, and the closing bracket. -/
def positions {α : Type} : List (RecordField α) → Bool → α → Reader α
  | [], _, a, ts => do return (a, ← closing ts)
  | f :: fs, first, a, ts => do
    match ← nextItem first ts with
    | (true, ts) =>
      let (a, ts) ← f.into a ts
      positions fs false a ts
    | (false, ts) =>
      if (f :: fs).any (·.required) then throw .mismatch else return (a, ← closing ts)

/-- A record, which starts as `blank`. Every member takes a token. -/
def record {α : Type} (fields : List (RecordField α)) (blank : α) : Reader α
  | .openBrace :: ts => members fields (ts.length + 1) true [] blank ts
  | .openBracket :: ts => positions fields true blank ts
  | ts => .error (faultOf ts)

/-! ### Choices -/

/-- One of some named values, as its name or as an object with nothing under its name. Where the
name is a key, anything else than a text is malformed, as in every object. -/
def choice {α : Type} (value? : String → Option α) : Reader α
  | .text s :: ts => denoted value? (.text s :: ts)
  | .broken true read _ :: _ => .error read
  | .openBrace :: ts => do
    let (a, ts) ← denotedBy key value? ts
    let ((), ts) ← null (← colon ts)
    match ts with
    | .closeBrace :: ts => return (a, ts)
    | [] => throw .truncated
    | _ => throw .malformed
  | [] => .error .truncated
  | _ => .error .malformed

/-! ### Whole documents -/

/-- A value that makes up the whole text. -/
def document {α : Type} (r : Reader α) (s : String) : Except Fault α :=
  match r (tokens s.toList) with
  | .error f => .error f
  | .ok (a, []) => .ok a
  | .ok (_, _ :: _) => .error .malformed

end Reader

end NetReach
