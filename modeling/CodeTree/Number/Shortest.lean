import CodeTree.Number.Binary64
import CodeTree.Number.Decimal

/-!
# The shortest decimal that reads back

The reals that round to a finite binary number form an interval around it. Its ends belong to it
exactly when the significand is even, because halfway cases go to the even neighbour. The shortest
decimal of the number is the one with the fewest digits inside that interval, and of those the one
nearest to the number; of two that are equally near, the greater.

Everything is exact arithmetic on natural numbers in quarters of the number's unit, so that the
number and both ends of its interval are whole.

* `RoundingInterval.ofBinary64` is the interval of a number.
* `RoundingInterval.decimalOn` picks the nearest point inside from one decimal grid.
* `Binary64.shortest` tries the grids of one digit, two digits and so on.
-/

namespace CodeTree

set_option autoImplicit false

/-- The reals from `low * 2 ^ scale` to `high * 2 ^ scale` around `middle * 2 ^ scale`. -/
structure RoundingInterval where
  low : Nat
  middle : Nat
  high : Nat
  scale : Int
  closed : Bool
  deriving DecidableEq

namespace RoundingInterval

/-- The reals that round to the magnitude of a finite number. Below a power of two the next number is
only half as far away. -/
def ofBinary64 (x : Binary64) : RoundingInterval where
  low := if x.fraction = 0 ∧ 1 < x.exponentField then 4 * x.significand - 1 else 4 * x.significand - 2
  middle := 4 * x.significand
  high := 4 * x.significand + 2
  scale := x.scale - 2
  closed := decide (x.significand % 2 = 0)

/-- The factors `(a, b)` of whole numbers with `2 ^ scale / 10 ^ exponent = a / b`. -/
def factors (scale exponent : Int) : Nat × Nat :=
  (Nat.pow 2 scale.toNat * Nat.pow 10 (-exponent).toNat,
    Nat.pow 10 exponent.toNat * Nat.pow 2 (-scale).toNat)

/-- Whether `coefficient * 10 ^ exponent` lies in the interval. -/
def contains (i : RoundingInterval) (d : Decimal) : Bool :=
  let (a, b) := factors i.scale d.exponent
  if i.closed then
    decide (i.low * a ≤ d.coefficient * b) && decide (d.coefficient * b ≤ i.high * a)
  else
    decide (i.low * a < d.coefficient * b) && decide (d.coefficient * b < i.high * a)

/-- Of the two multiples of `10 ^ exponent` around the middle, the nearer one inside the interval. At
equal distance the greater is taken. -/
def decimalOn (i : RoundingInterval) (exponent : Int) : Option Decimal :=
  let (a, b) := factors i.scale exponent
  let below : Decimal := ⟨i.middle * a / b, exponent⟩
  let above : Decimal := ⟨i.middle * a / b + 1, exponent⟩
  match i.contains below, i.contains above with
  | true, true => if 2 * (i.middle * a % b) < b then some below else some above
  | true, false => some below
  | false, true => some above
  | false, false => none

/-- The exponent of the leading decimal digit of the middle. -/
def leadingExponent (i : RoundingInterval) : Int :=
  let (a, b) := factors i.scale 0
  let n := i.middle * a
  if b ≤ n then
    ((Decimal.digitsOf (n / b)).length : Int) - 1
  else
    -((Decimal.digitsOf ((b - 1) / n)).length : Int)

/-- The first grid with a point inside, from `exponent` down, over at most `limit` grids. -/
def search (i : RoundingInterval) : (limit : Nat) → (exponent : Int) → Option Decimal
  | 0, _ => none
  | limit + 1, exponent =>
    match i.decimalOn exponent with
    | some d => some d
    | none => i.search limit (exponent - 1)

/-- Every digit of the middle. -/
def exact (i : RoundingInterval) : Decimal :=
  match i.scale with
  | .ofNat n => ⟨i.middle * Nat.pow 2 n, 0⟩
  | .negSucc n => ⟨i.middle * Nat.pow 5 (n + 1), .negSucc n⟩

/-- The shortest decimal of the interval. Seventeen digits are enough for every number of 53 bits. -/
def shortest (i : RoundingInterval) : Decimal :=
  ((i.search 17 i.leadingExponent).getD i.exact).trim

end RoundingInterval

namespace Binary64

/-- The shortest decimal that rounds to the magnitude of a finite number. -/
def shortest (x : Binary64) : Decimal :=
  if x.isZero then ⟨0, 0⟩ else (RoundingInterval.ofBinary64 x).shortest

/-- The text of a number in a notation. Zero has a sign; NaN has none. -/
def write (x : Binary64) (n : Notation) : String :=
  if x.isNaN then
    "NaN"
  else
    let magnitude := if x.isInfinite then "inf" else n.write x.shortest
    if x.isNegative then "-" ++ magnitude else magnitude

/-- The notation of literals: never an exponent. -/
def literalNotation : Notation := ⟨none⟩

/-- The notation of debug texts: positional from `0.0001` to below `10^16`. -/
def debugNotation : Notation := ⟨some (-4, 15)⟩

end Binary64

end CodeTree
