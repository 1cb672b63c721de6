import CodeTree.Text.Quoted

/-!
# Debug texts of structured values

The debug text of a value stands on one line and shows its structure: `Unit`, `Tagged(a, b)`,
`Record { field: a, other: b }`, `[a, b]`, `(a, b)`, `Some(a)` and `None`. The functions here build such
texts from the texts of the parts.
-/

namespace CodeTree.Inspect

set_option autoImplicit false

/-- A constructor applied to positional parts. -/
def tagged (name : String) (parts : List String) : String :=
  name ++ "(" ++ ", ".intercalate parts ++ ")"

/-- A constructor with named fields, in the order given. -/
def record (name : String) (fields : List (String × String)) : String :=
  name ++ " \x7b " ++ ", ".intercalate (fields.map fun field => field.1 ++ ": " ++ field.2) ++ " \x7d"

def list (items : List String) : String :=
  "[" ++ ", ".intercalate items ++ "]"

def pair (first second : String) : String :=
  "(" ++ first ++ ", " ++ second ++ ")"

def option : Option String → String
  | none => "None"
  | some text => tagged "Some" [text]

def bool (b : Bool) : String := if b then "true" else "false"

def string (s : String) : String := Text.quote s

def char (c : Char) : String := Text.quoteChar c

end CodeTree.Inspect
