import CodeTree.Lua.Config
import CodeTree.Tree.Operator

/-!
# Operators in Lua

Every operation is written in parentheses or as a call, so that no precedence has to be known to read
it. An operation on two operands has a text before, between and behind them.

* `bitFunction?` is the function of the `bit` library that stands for an operator.
* `binaryForm` is the form of an operation, if Lua has one.
-/

namespace CodeTree.Lua

set_option autoImplicit false

/-- The text around two operands. -/
structure BinaryForm where
  opening : String
  between : String
  closing : String
  deriving DecidableEq

namespace BinaryForm

/-- An operator between two operands, all in parentheses. -/
def parenthesized (operator : String) : BinaryForm := ⟨"(", " " ++ operator ++ " ", ")"⟩

/-- A function called with two operands. -/
def calling (function : String) : BinaryForm := ⟨function ++ "(", ", ", ")"⟩

end BinaryForm

/-- The function that stands for an operator on bits where there is no such operator. -/
def bitFunction? (target : Target) (kind : BinaryKind) : Option String :=
  if target.hasNativeBitwise then
    none
  else
    match kind with
    | .bitwiseAnd => some "bit.band"
    | .bitwiseOr => some "bit.bor"
    | .bitwiseXor => some "bit.bxor"
    | .shiftLeft => some "bit.lshift"
    | .shiftRight => some "bit.rshift"
    | _ => none

/-- A function that divides toward zero; `//` and `math.floor` go toward negative infinity. -/
def truncatingDivision (target : Target) : String :=
  "(function(a, b) return (a - math.fmod(a, b)) " ++ (if target.hasIntegers then "//" else "/")
    ++ " b end)"

/-- The form of an operation by a standard operator. -/
def standardForm? (target : Target) : BinaryKind → Option BinaryForm
  | .addition => some (.parenthesized "+")
  | .subtraction => some (.parenthesized "-")
  | .multiplication => some (.parenthesized "*")
  | .division => some (.parenthesized "/")
  | .truncatedDivision => some (.calling (truncatingDivision target))
  | .modulus => some (.parenthesized "%")
  | .equals => some (.parenthesized "==")
  | .notEquals => some (.parenthesized "~=")
  | .lessThan => some (.parenthesized "<")
  | .lessThanOrEquals => some (.parenthesized "<=")
  | .greaterThan => some (.parenthesized ">")
  | .greaterThanOrEquals => some (.parenthesized ">=")
  | .logicalAnd => some (.parenthesized "and")
  | .logicalOr => some (.parenthesized "or")
  | .shiftLeft => some (.parenthesized "<<")
  | .shiftRight => some (.parenthesized ">>")
  | .bitwiseAnd => some (.parenthesized "&")
  | .bitwiseOr => some (.parenthesized "|")
  | .bitwiseXor => some (.parenthesized "~")
  | .implies => some ⟨"((not ", ") or ", ")"⟩
  | .logicalXor | .is | .isNot | .isIn | .notIn => none

/-- The form of an operation, or the operator that has none. A custom operator is taken at its word. -/
def binaryForm (target : Target) : Operator BinaryKind → Except BinaryKind BinaryForm
  | .custom text => .ok (.parenthesized text)
  | .standard kind =>
    match (bitFunction? target kind).map BinaryForm.calling <|> standardForm? target kind with
    | some form => .ok form
    | none => .error kind

/-- Whether an operation is written as a call into the `bit` library. -/
def needsBitLibrary (target : Target) : Operator BinaryKind → Bool
  | .custom _ => false
  | .standard kind => (bitFunction? target kind).isSome

end CodeTree.Lua
