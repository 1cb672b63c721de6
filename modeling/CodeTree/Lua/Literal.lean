import CodeTree.Lua.Config
import CodeTree.Lua.Escape
import CodeTree.Tree.Literal

/-!
# Literals in Lua

Integers, finite floating point numbers and truth values keep their canonical text, with one exception:
the least integer. Strings and characters are both strings in Lua.

* `integerText` and `floatText` are the texts of numbers.
* `literalText` is the text of any literal.
-/

namespace CodeTree.Lua

set_option autoImplicit false

/-- The text of a floating point literal. Lua has no literals for infinities and for NaN. -/
def floatText (x : Binary64) : String :=
  if x.isNaN then "(0/0)"
  else if x.isInfinite then (if x.isNegative then "-math.huge" else "math.huge")
  else Literal.floatText x

/-- The text of an integer literal. The digits of the least integer would read as a floating point
number where there are integers. -/
def integerText (target : Target) (value : Int64) : String :=
  if value = Int64.minValue ∧ target.hasIntegers then "math.mininteger"
  else Literal.integerText value

def literalText (target : Target) : Literal → String
  | .string value => quote value
  | .character value => quote (String.singleton value)
  | .integer value => integerText target value
  | .float value => floatText value
  | .boolean value => Literal.booleanText value

end CodeTree.Lua
