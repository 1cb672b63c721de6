import CodeTree.Number.Binary64
import Mathlib.Algebra.Order.Field.Rat
import Mathlib.Order.Monotone.Basic
import Mathlib.Tactic.Linarith
import Mathlib.Tactic.LinearCombination
import Mathlib.Tactic.NormNum
import Mathlib.Tactic.Ring

/-! # Rounding to the nearest number

A pattern without its sign bit is a natural number, its ordinal, and magnitudes grow with ordinals: from
one ordinal to the next by the unit of the first. A number that is rounded goes to the nearest pattern,
and from the middle between two patterns to the one with an even significand, which is the one with an
even ordinal. Infinity stands where the next power of two would be, so what lies beyond the greatest
finite number by half a unit or more goes to infinity.

* `Binary64.magnitude`: what a pattern without its sign stands for.
* `magnitudeAt_strictMono`: magnitudes in the order of the ordinals.
* `RoundsTo`: rounding of a magnitude with a sign.
* `RoundsTo.unique`: there is at most one pattern to round to.
* `roundsTo_of_between`: what lies between the middles to both sides of a number rounds to it. -/

namespace CodeTree.Binary64

set_option autoImplicit false

/-- The number that a pattern stands for, without its sign. An infinity counts as the power of two behind
the greatest finite number. -/
def magnitude (x : Binary64) : ℚ := x.significand * 2 ^ x.scale

/-! ## Ordinals -/

/-- The pattern without its sign bit. -/
def ordinal (x : Binary64) : ℕ := x.bits.toNat % 2 ^ 63

/-- The ordinal of infinity. All ordinals above it are those of NaNs. -/
def infiniteOrdinal : ℕ := 2047 * 2 ^ 52

/-- The positive number of an ordinal. -/
def ofOrdinal (n : ℕ) : Binary64 := ⟨UInt64.ofNat n⟩

variable {x y : Binary64}

theorem exponentField_eq (x : Binary64) : x.exponentField = x.ordinal / 2 ^ 52 := by
  simp only [exponentField, ordinal, Nat.pow_eq]
  omega

theorem fraction_eq (x : Binary64) : x.fraction = x.ordinal % 2 ^ 52 := by
  simp only [fraction, ordinal, Nat.pow_eq]
  omega

theorem ordinal_ofOrdinal {n : ℕ} (h : n ≤ infiniteOrdinal) : (ofOrdinal n).ordinal = n := by
  rw [infiniteOrdinal] at h
  simp only [ordinal, ofOrdinal, UInt64.toNat_ofNat']
  omega

theorem isNaN_eq_false_iff : x.isNaN = false ↔ x.ordinal ≤ infiniteOrdinal := by
  have hlt : x.ordinal < 2 ^ 63 := Nat.mod_lt _ (by norm_num)
  rw [isNaN, decide_eq_false_iff_not, exponentField_eq, fraction_eq, infiniteOrdinal]
  omega

theorem ordinal_lt_of_isFinite (h : x.isFinite = true) : x.ordinal < infiniteOrdinal := by
  have hlt : x.ordinal < 2 ^ 63 := Nat.mod_lt _ (by norm_num)
  have hfield : x.exponentField ≠ 2047 := of_decide_eq_true h
  rw [exponentField_eq] at hfield
  rw [infiniteOrdinal]
  omega

/-- A pattern is its sign bit and its ordinal. -/
theorem eq_of_ordinal_eq (hsign : x.isNegative = y.isNegative) (hordinal : x.ordinal = y.ordinal) :
    x = y := by
  obtain ⟨a⟩ := x
  obtain ⟨b⟩ := y
  simp only [isNegative, decide_eq_decide, Nat.pow_eq] at hsign
  simp only [ordinal] at hordinal
  have ha : a.toNat < 2 ^ 64 := a.toNat_lt
  have hb : b.toNat < 2 ^ 64 := b.toNat_lt
  exact congrArg mk (UInt64.toNat_inj.1 (by omega))

/-! ## Magnitudes -/

def significandAt (n : ℕ) : ℕ := if n / 2 ^ 52 = 0 then n % 2 ^ 52 else 2 ^ 52 + n % 2 ^ 52

def scaleAt (n : ℕ) : ℤ := if n / 2 ^ 52 = 0 then -1074 else ((n / 2 ^ 52 : ℕ) : ℤ) - 1075

def magnitudeAt (n : ℕ) : ℚ := significandAt n * 2 ^ scaleAt n

theorem significand_eq (x : Binary64) : x.significand = significandAt x.ordinal := by
  rw [significand, exponentField_eq, fraction_eq]
  rfl

theorem scale_eq (x : Binary64) : x.scale = scaleAt x.ordinal := by
  rw [scale, exponentField_eq]
  rfl

theorem magnitude_eq (x : Binary64) : x.magnitude = magnitudeAt x.ordinal := by
  rw [magnitude, significand_eq, scale_eq]
  rfl

theorem significandAt_mod_two (n : ℕ) : significandAt n % 2 = n % 2 := by
  unfold significandAt
  split <;> omega

theorem two_zpow_pos (e : ℤ) : (0 : ℚ) < 2 ^ e := zpow_pos (by norm_num) e

/-- The next ordinal has the same scale and the next significand, or half the significand of the next
scale. -/
theorem succ_cases (n : ℕ) :
    scaleAt (n + 1) = scaleAt n ∧ significandAt (n + 1) = significandAt n + 1 ∨
      scaleAt (n + 1) = scaleAt n + 1 ∧ 2 * significandAt (n + 1) = significandAt n + 1 := by
  unfold scaleAt significandAt
  split <;> split <;> omega

/-- From one ordinal to the next the magnitude grows by one unit. -/
theorem magnitudeAt_succ (n : ℕ) : magnitudeAt (n + 1) = magnitudeAt n + 2 ^ scaleAt n := by
  unfold magnitudeAt
  rcases succ_cases n with ⟨hscale, hsignificand⟩ | ⟨hscale, hsignificand⟩
  · rw [hscale, hsignificand]
    push_cast
    ring
  · have hdouble : (2 * significandAt (n + 1) : ℚ) = significandAt n + 1 := by
      exact_mod_cast hsignificand
    rw [hscale, zpow_add_one₀ (by norm_num)]
    linear_combination (2 : ℚ) ^ scaleAt n * hdouble

theorem magnitudeAt_strictMono : StrictMono magnitudeAt :=
  strictMono_nat_of_lt_succ fun n => by
    rw [magnitudeAt_succ]
    linarith [two_zpow_pos (scaleAt n)]

end CodeTree.Binary64

namespace CodeTree

/-! ## Rounding -/

/-- Rounding of the number `q` with the given sign, to the nearest pattern of this sign and from the
middle between two patterns to the one with an even significand. -/
structure RoundsTo (negative : Bool) (q : ℚ) (y : Binary64) : Prop where
  isNegative : y.isNegative = negative
  isNumber : y.isNaN = false
  nearest : ∀ z : Binary64, z.isNaN = false → |y.magnitude - q| ≤ |z.magnitude - q|
  even : ∀ z : Binary64, z.isNaN = false → |z.magnitude - q| = |y.magnitude - q| →
    z.magnitude = y.magnitude ∨ y.significand % 2 = 0

open Binary64

theorem abs_sub_lt_of_between {a b c q : ℚ} (hab : a < b) (hbc : b < c) (h : |a - q| = |c - q|) :
    |b - q| < |a - q| := by
  rcases abs_eq_abs.1 h with h | h
  · linarith
  · rw [abs_lt, abs_of_neg (by linarith)]
    constructor <;> linarith

theorem RoundsTo.ordinal_le {negative : Bool} {q : ℚ} {y z : Binary64} (hy : RoundsTo negative q y)
    (hz : RoundsTo negative q z) : z.ordinal ≤ y.ordinal := by
  by_contra! hlt
  have hmagnitude : y.magnitude < z.magnitude := by
    rw [magnitude_eq, magnitude_eq]
    exact magnitudeAt_strictMono hlt
  have htie : |y.magnitude - q| = |z.magnitude - q| :=
    le_antisymm (hy.nearest z hz.isNumber) (hz.nearest y hy.isNumber)
  have hyeven : y.significand % 2 = 0 :=
    (hy.even z hz.isNumber htie.symm).resolve_left hmagnitude.ne'
  have hzeven : z.significand % 2 = 0 :=
    (hz.even y hy.isNumber htie).resolve_left hmagnitude.ne
  rw [significand_eq, significandAt_mod_two] at hyeven hzeven
  -- Between two even ordinals there is an odd one, and it is nearer than both.
  have hlimit := isNaN_eq_false_iff.1 hz.isNumber
  have hbetween : (ofOrdinal (y.ordinal + 1)).ordinal = y.ordinal + 1 := ordinal_ofOrdinal (by omega)
  have hnumber : (ofOrdinal (y.ordinal + 1)).isNaN = false :=
    isNaN_eq_false_iff.2 (by omega)
  have hnearer : |(ofOrdinal (y.ordinal + 1)).magnitude - q| < |y.magnitude - q| := by
    refine abs_sub_lt_of_between ?_ ?_ htie <;>
      (rw [magnitude_eq, magnitude_eq, hbetween]; exact magnitudeAt_strictMono (by omega))
  exact absurd (hy.nearest _ hnumber) (not_le.2 hnearer)

/-- A number rounds to one pattern only. -/
theorem RoundsTo.unique {negative : Bool} {q : ℚ} {y z : Binary64} (hy : RoundsTo negative q y)
    (hz : RoundsTo negative q z) : y = z :=
  eq_of_ordinal_eq (hy.isNegative.trans hz.isNegative.symm)
    (le_antisymm (hz.ordinal_le hy) (hy.ordinal_le hz))

/-- Zero rounds to itself. -/
theorem roundsTo_zero {x : Binary64} (h : x.isNaN = false) (hzero : x.magnitude = 0) :
    RoundsTo x.isNegative 0 x where
  isNegative := rfl
  isNumber := h
  nearest z _ := by
    rw [hzero, sub_zero, abs_zero]
    exact abs_nonneg _
  even z _ htie := by
    rw [hzero, sub_zero, sub_zero, abs_zero, abs_eq_zero] at htie
    exact .inl (htie.trans hzero.symm)

/-- What lies beyond the middle between `a` and `b` is nearer to `b` than to anything below `a`. -/
theorem nearer_of_middle_le {a b z q : ℚ} (hz : z ≤ a) (hab : a < b) (hq : a + b ≤ 2 * q) :
    |b - q| < |z - q| ∨ |b - q| = |z - q| ∧ 2 * q = a + b := by
  rw [abs_of_neg (show z - q < 0 by linarith)]
  rcases hq.lt_or_eq with hlt | heq
  · refine .inl (abs_lt.2 ⟨?_, ?_⟩) <;> linarith
  · rw [abs_of_pos (by linarith)]
    rcases hz.lt_or_eq with hlt | rfl
    · exact .inl (by linarith)
    · exact .inr ⟨by linarith, heq.symm⟩

theorem nearer_of_le_middle {b c z q : ℚ} (hz : c ≤ z) (hbc : b < c) (hq : 2 * q ≤ b + c) :
    |b - q| < |z - q| ∨ |b - q| = |z - q| ∧ 2 * q = b + c := by
  have hmirror := nearer_of_middle_le (neg_le_neg hz) (neg_lt_neg hbc)
    (show -c + -b ≤ 2 * -q by linarith)
  rw [neg_sub_neg, neg_sub_neg, abs_sub_comm q b, abs_sub_comm q z] at hmirror
  exact hmirror.imp_right fun h => ⟨h.1, by linarith [h.2]⟩

/-- What lies between the middles to both sides of a number rounds to it. The middles themselves do if the
significand is even. -/
theorem roundsTo_of_between {x : Binary64} {n : ℕ} {q : ℚ} (hnumber : x.isNaN = false)
    (hordinal : x.ordinal = n + 1) (hlow : magnitudeAt n + magnitudeAt (n + 1) ≤ 2 * q)
    (hhigh : 2 * q ≤ magnitudeAt (n + 1) + magnitudeAt (n + 2))
    (heven : 2 * q = magnitudeAt n + magnitudeAt (n + 1) ∨
      2 * q = magnitudeAt (n + 1) + magnitudeAt (n + 2) → x.significand % 2 = 0) :
    RoundsTo x.isNegative q x := by
  have hx : x.magnitude = magnitudeAt (n + 1) := by rw [magnitude_eq, hordinal]
  -- Any other number is at least as far away, and as far away only if `q` is one of the middles.
  have hother : ∀ z : Binary64, z.magnitude = x.magnitude ∨
      |x.magnitude - q| < |z.magnitude - q| ∨
        |x.magnitude - q| = |z.magnitude - q| ∧ x.significand % 2 = 0 := by
    intro z
    rw [magnitude_eq z, hx]
    rcases lt_trichotomy z.ordinal (n + 1) with hlt | heq | hgt
    · have hz : magnitudeAt z.ordinal ≤ magnitudeAt n :=
        magnitudeAt_strictMono.monotone (by omega)
      have hnearer := nearer_of_middle_le hz (magnitudeAt_strictMono n.lt_succ_self) hlow
      exact .inr (hnearer.imp_right fun h => ⟨h.1, heven (.inl h.2)⟩)
    · exact .inl (by rw [heq])
    · have hz : magnitudeAt (n + 2) ≤ magnitudeAt z.ordinal :=
        magnitudeAt_strictMono.monotone (by omega)
      have hnearer := nearer_of_le_middle hz (magnitudeAt_strictMono (n + 1).lt_succ_self) hhigh
      exact .inr (hnearer.imp_right fun h => ⟨h.1, heven (.inr h.2)⟩)
  refine ⟨rfl, hnumber, fun z _ => ?_, fun z _ htie => ?_⟩
  · rcases hother z with heq | hlt | ⟨heq, -⟩
    · rw [heq]
    · exact hlt.le
    · exact heq.le
  · rcases hother z with heq | hlt | ⟨-, heven⟩
    · exact .inl heq
    · exact absurd htie hlt.ne'
    · exact .inr heven

end CodeTree
