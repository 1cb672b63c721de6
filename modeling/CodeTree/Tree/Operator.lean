import CodeTree.Text.Inspect

/-!
# Operators

An operator is one of the standard kinds, whose meaning every target knows, or a text of the target's
own, never both.

* `UnaryKind` and `BinaryKind` are the standard kinds, with their names.
* `BinaryKind.isBackendSpecific` and `BinaryKind.isComparison` are two classes of them.
* `Operator` adds custom texts.
-/

namespace CodeTree

set_option autoImplicit false

/-- Standard operators of one operand. -/
inductive UnaryKind
  | plus
  | minus
  | not
  | addressOf
  deriving DecidableEq

namespace UnaryKind

def all : List UnaryKind := [plus, minus, not, addressOf]

def name : UnaryKind → String
  | plus => "Plus"
  | minus => "Minus"
  | not => "Not"
  | addressOf => "AddressOf"

def ofName? (text : String) : Option UnaryKind := all.find? (·.name == text)

end UnaryKind

/-- Standard operators of two operands. `truncatedDivision` rounds toward zero. -/
inductive BinaryKind
  | addition
  | subtraction
  | multiplication
  | division
  | truncatedDivision
  | modulus
  | equals
  | notEquals
  | lessThan
  | lessThanOrEquals
  | greaterThan
  | greaterThanOrEquals
  | logicalAnd
  | logicalOr
  | logicalXor
  | shiftLeft
  | shiftRight
  | bitwiseAnd
  | bitwiseOr
  | bitwiseXor
  | implies
  | is
  | isNot
  | isIn
  | notIn
  deriving DecidableEq

namespace BinaryKind

def all : List BinaryKind :=
  [addition, subtraction, multiplication, division, truncatedDivision, modulus, equals, notEquals,
   lessThan, lessThanOrEquals, greaterThan, greaterThanOrEquals, logicalAnd, logicalOr, logicalXor,
   shiftLeft, shiftRight, bitwiseAnd, bitwiseOr, bitwiseXor, implies, is, isNot, isIn, notIn]

def name : BinaryKind → String
  | addition => "Addition"
  | subtraction => "Subtraction"
  | multiplication => "Multiplication"
  | division => "Division"
  | truncatedDivision => "LegacyPascalDivision"
  | modulus => "Modulus"
  | equals => "Equals"
  | notEquals => "NotEquals"
  | lessThan => "LessThan"
  | lessThanOrEquals => "LessThanOrEquals"
  | greaterThan => "GreaterThan"
  | greaterThanOrEquals => "GreaterThanOrEquals"
  | logicalAnd => "LogicalAnd"
  | logicalOr => "LogicalOr"
  | logicalXor => "LogicalXor"
  | shiftLeft => "Shl"
  | shiftRight => "Shr"
  | bitwiseAnd => "BitwiseAnd"
  | bitwiseOr => "BitwiseOr"
  | bitwiseXor => "BitwiseXor"
  | implies => "Implies"
  | is => "Is"
  | isNot => "IsNot"
  | isIn => "In"
  | notIn => "NotIn"

def ofName? (text : String) : Option BinaryKind := all.find? (·.name == text)

/-- Operators that only some target languages have. -/
def isBackendSpecific : BinaryKind → Bool
  | truncatedDivision | implies | isIn | notIn => true
  | _ => false

def isComparison : BinaryKind → Bool
  | equals | notEquals | lessThan | lessThanOrEquals | greaterThan | greaterThanOrEquals => true
  | _ => false

end BinaryKind

/-- A standard operator or the text of one that only the target knows. -/
inductive Operator (κ : Type)
  | standard (kind : κ)
  | custom (text : String)
  deriving DecidableEq

namespace Operator

variable {κ : Type}

def kind? : Operator κ → Option κ
  | standard kind => some kind
  | custom _ => none

def customText? : Operator κ → Option String
  | standard _ => none
  | custom text => some text

def isCustom : Operator κ → Bool
  | standard _ => false
  | custom _ => true

/-- Debug text of an operator, given the names of the standard kinds. -/
def inspect (name : κ → String) : Operator κ → String
  | standard kind => Inspect.tagged "Standard" [name kind]
  | custom text => Inspect.tagged "Custom" [Inspect.string text]

end Operator

end CodeTree
