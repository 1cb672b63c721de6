/-!
# Decimal numbers and their notations

A `Decimal` is a natural number times a power of ten. It is written positionally (`0.00015`,
`1500.0`) or scientifically (`1.5e-4`); a `Notation` says where the first gives way to the second.

* `Decimal.positional` and `Decimal.scientific` are the two forms.
* `Decimal.trim` drops trailing zeros from the digits; it keeps the number.
* `Notation.write` chooses between the forms.
-/

namespace CodeTree

set_option autoImplicit false

/-- The number `coefficient * 10 ^ exponent`. -/
structure Decimal where
  coefficient : Nat
  exponent : Int
  deriving DecidableEq

namespace Decimal

/-- The decimal digits of a natural number, most significant first. -/
def digitsOf (n : Nat) : List Char := Nat.toDigits 10 n

def digits (d : Decimal) : List Char := digitsOf d.coefficient

/-- The exponent of the leading digit: 3 for 1500, -4 for 0.00015. -/
def leadingExponent (d : Decimal) : Int :=
  d.exponent + (d.digits.length : Int) - 1

/-- Moves at most `limit` trailing zeros of the coefficient into the exponent. -/
def trimUpTo : (limit : Nat) → Decimal → Decimal
  | 0, d => d
  | limit + 1, d =>
    if d.coefficient % 10 = 0 then trimUpTo limit ⟨d.coefficient / 10, d.exponent + 1⟩ else d

/-- The same number without trailing zeros in the coefficient. -/
def trim (d : Decimal) : Decimal := d.trimUpTo d.digits.length

/-- The text without an exponent. There is a digit on both sides of the point, so that it never
reads as an integer. -/
def positional (d : Decimal) : String :=
  let ds := d.digits
  match d.exponent with
  | .ofNat zeros => String.ofList (ds ++ List.replicate zeros '0' ++ ['.', '0'])
  | .negSucc n =>
    let places := n + 1
    let padded := List.replicate (places + 1 - ds.length) '0' ++ ds
    let whole := padded.length - places
    String.ofList (padded.take whole ++ '.' :: padded.drop whole)

/-- The text with one digit before the point and the power of ten after `e`. A lone digit has no
point, and only a negative power has a sign. -/
def scientific (d : Decimal) : String :=
  let mantissa := match d.digits with
    | first :: second :: rest => first :: '.' :: second :: rest
    | short => short
  String.ofList mantissa ++ "e" ++ toString d.leadingExponent

end Decimal

/-- Which decimals are written positionally: all of them, or those whose leading digit has an
exponent in a range. -/
structure Notation where
  positionalExponents : Option (Int × Int)
  deriving DecidableEq

namespace Notation

def isPositional (n : Notation) (leading : Int) : Bool :=
  match n.positionalExponents with
  | none => true
  | some (least, greatest) => decide (least ≤ leading) && decide (leading ≤ greatest)

/-- The text of a decimal in this notation. -/
def write (n : Notation) (d : Decimal) : String :=
  if n.isPositional d.leadingExponent then d.positional else d.scientific

end Notation

end CodeTree
