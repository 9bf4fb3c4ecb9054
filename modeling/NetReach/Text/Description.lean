import NetReach.Text.Quoted

/-! # Descriptions of values

Diagnostics show a value by its structure: a name with its arguments in parentheses, or with its
labelled parts in braces. -/

namespace NetReach

/-- A name with its arguments. -/
def describeCall (name : String) (args : List String) : String :=
  name ++ "(" ++ ", ".intercalate args ++ ")"

/-- A name with its labelled parts. -/
def describeRecord (name : String) (parts : List (String × String)) : String :=
  name ++ " \x7b " ++ ", ".intercalate (parts.map fun p => p.1 ++ ": " ++ p.2) ++ " \x7d"

/-- A value that may be absent. -/
def describeOption {α : Type} (describe : α → String) : Option α → String
  | none => "None"
  | some a => describeCall "Some" [describe a]

/-- The values of a list. -/
def describeList {α : Type} (describe : α → String) (l : List α) : String :=
  "[" ++ ", ".intercalate (l.map describe) ++ "]"

end NetReach
