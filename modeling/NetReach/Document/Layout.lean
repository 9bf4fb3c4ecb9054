/-! # Layout of a document

A layout is the text of a value at some depth of nesting. Arrays and objects that hold something
have one item on a line, indented by two blanks for every level. -/

namespace NetReach

/-- The text of a value at a depth. -/
abbrev Layout := Nat → List Char

namespace Layout

/-- How a character is written between quotes. -/
def textChar (c : Char) : List Char :=
  match c with
  | '"' => ['\\', '"']
  | '\\' => ['\\', '\\']
  | '\x08' => ['\\', 'b']
  | '\x0c' => ['\\', 'f']
  | '\n' => ['\\', 'n']
  | '\r' => ['\\', 'r']
  | '\t' => ['\\', 't']
  | c =>
    if c.toNat < 0x20 then
      ['\\', 'u', '0', '0', Nat.digitChar (c.toNat / 16), Nat.digitChar (c.toNat % 16)]
    else [c]

/-- A text between quotes. -/
def textChars (s : String) : List Char := '"' :: s.toList.flatMap textChar ++ ['"']

/-- A text. -/
def text (s : String) : Layout := fun _ => textChars s

/-- A word. -/
def word (n : UInt32) : Layout := fun _ => Nat.toDigits 10 n.toNat

/-- A truth value. -/
def boolean (b : Bool) : Layout := fun _ =>
  if b then ['t', 'r', 'u', 'e'] else ['f', 'a', 'l', 's', 'e']

/-- The start of a line at a depth. -/
def line (depth : Nat) : List Char := '\n' :: List.replicate (2 * depth) ' '

/-- Items on lines of their own, with commas between them. -/
def lines (depth : Nat) : List Layout → List Char
  | [] => []
  | [w] => line depth ++ w depth
  | w :: ws => line depth ++ w depth ++ [','] ++ lines depth ws

/-- Items between brackets; without items nothing stands between them. -/
def enclosed (opening closing : Char) (ws : List Layout) : Layout := fun depth =>
  if ws.isEmpty then [opening, closing]
  else opening :: lines (depth + 1) ws ++ line depth ++ [closing]

/-- An array. -/
def array (ws : List Layout) : Layout := enclosed '[' ']' ws

/-- A member of an object. -/
def member (key : String) (w : Layout) : Layout := fun depth =>
  textChars key ++ [':', ' '] ++ w depth

/-- An object. -/
def object (ms : List (String × Layout)) : Layout :=
  enclosed '\x7b' '\x7d' (ms.map fun m => member m.1 m.2)

/-- A member that is left out if there is no value. -/
def ifSome {α : Type} (key : String) (w : α → Layout) : Option α → List (String × Layout)
  | none => []
  | some a => [(key, w a)]

end Layout

end NetReach
