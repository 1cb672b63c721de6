import CodeTree.Number.Shortest
import CodeTree.Text.Inspect

/-!
# Literals

A literal is a string, a character, a 64-bit integer, a floating point number or a truth value.

* `Literal.canonical?` is the text that is the same in every target language. Strings and characters
  have none, because quoting is the target's own.
* `Literal.equal` compares floating point numbers as numbers and all else as values.
-/

namespace CodeTree

set_option autoImplicit false

/-- A value written down in a tree. -/
inductive Literal
  | string (value : String)
  | character (value : Char)
  | integer (value : Int64)
  | float (value : Binary64)
  | boolean (value : Bool)
  deriving DecidableEq

namespace Literal

/-- The canonical text of an integer: its decimal digits, after a `-` if it is negative. -/
def integerText (value : Int64) : String := toString value.toInt

/-- The canonical text of a floating point number, which has a point and never an exponent. -/
def floatText (value : Binary64) : String := value.write Binary64.literalNotation

def booleanText (value : Bool) : String := if value then "true" else "false"

/-- The text of a literal that does not depend on the target language. -/
def canonical? : Literal → Option String
  | string _ => none
  | character _ => none
  | integer value => some (integerText value)
  | float value => some (floatText value)
  | boolean value => some (booleanText value)

def equal : Literal → Literal → Bool
  | float a, float b => a.equal b
  | a, b => decide (a = b)

/-- The name of the kind of literal. -/
def variant : Literal → String
  | string _ => "String"
  | character _ => "Character"
  | integer _ => "Integer"
  | float _ => "Float"
  | boolean _ => "Boolean"

/-- The debug text of the value. -/
def inspectValue : Literal → String
  | string value => Inspect.string value
  | character value => Inspect.char value
  | integer value => integerText value
  | float value => value.write Binary64.debugNotation
  | boolean value => Inspect.bool value

/-- The debug text of a literal as a record of its own kind. -/
def inspectRecord (l : Literal) : String :=
  Inspect.record (l.variant ++ "Literal") [("value", l.inspectValue)]

/-- The debug text of a literal. -/
def inspect (l : Literal) : String := Inspect.tagged l.variant [l.inspectRecord]

/-- The literal of each kind that stands where no value is given. -/
def defaults : List Literal :=
  [string "", character '\x00', integer 0, float Binary64.zero, boolean false]

end Literal

end CodeTree
