/-!
# Binary floating point numbers

A `Binary64` is a 64-bit pattern in the double format of IEEE 754: a sign bit, eleven exponent bits
and 52 fraction bits. A finite one stands for `significand * 2 ^ scale`, with its sign.

* `isNaN`, `isInfinite`, `isZero` classify patterns.
* `equal` is the comparison of the values: no NaN equals anything, and the two zeros are equal. It
  differs from `=`, which compares the patterns.
-/

namespace CodeTree

set_option autoImplicit false

/-- A 64-bit pattern read as a floating point number. -/
structure Binary64 where
  bits : UInt64
  deriving DecidableEq, Inhabited

namespace Binary64

/-- The pattern of positive zero. -/
def zero : Binary64 := ⟨0⟩

/-- Whether the sign bit is set. -/
def isNegative (x : Binary64) : Bool := decide (Nat.pow 2 63 ≤ x.bits.toNat)

/-- The eleven exponent bits. -/
def exponentField (x : Binary64) : Nat := x.bits.toNat / Nat.pow 2 52 % Nat.pow 2 11

/-- The 52 bits behind the binary point. -/
def fraction (x : Binary64) : Nat := x.bits.toNat % Nat.pow 2 52

def isFinite (x : Binary64) : Bool := decide (x.exponentField ≠ 2047)

def isNaN (x : Binary64) : Bool := decide (x.exponentField = 2047 ∧ x.fraction ≠ 0)

def isInfinite (x : Binary64) : Bool := decide (x.exponentField = 2047 ∧ x.fraction = 0)

def isZero (x : Binary64) : Bool := decide (x.exponentField = 0 ∧ x.fraction = 0)

/-- The significand of a finite number as an integer, with the hidden bit of a normal one. -/
def significand (x : Binary64) : Nat :=
  if x.exponentField = 0 then x.fraction else Nat.pow 2 52 + x.fraction

/-- The power of two that goes with `significand`. -/
def scale (x : Binary64) : Int :=
  if x.exponentField = 0 then -1074 else (x.exponentField : Int) - 1075

/-- Equality of the numbers, which is not equality of the patterns: it fails on NaN, and holds of the
two zeros. -/
def equal (x y : Binary64) : Bool :=
  !x.isNaN && !y.isNaN && (decide (x = y) || (x.isZero && y.isZero))

theorem equal_self (x : Binary64) : x.equal x = !x.isNaN := by
  cases h : x.isNaN <;> simp [equal, h]

theorem equal_comm (x y : Binary64) : x.equal y = y.equal x := by
  unfold equal
  rw [Bool.and_comm (!x.isNaN), Bool.and_comm x.isZero]
  simp only [eq_comm]

end Binary64

end CodeTree
