import CodeTree.Number.Shortest
import CodeTree.Proofs.Number.Rounding
import Mathlib.Tactic.FieldSimp
import Mathlib.Tactic.GCongr

/-! # The rounding interval

The rounding interval of a finite number other than zero reaches from the middle to the number before to
the middle to the number behind, so all that it holds rounds to the number. The search for the shortest
decimal stops at a decimal that the interval holds, and if it finds none the exact value is in the middle
of the interval. So the shortest decimal rounds to the number that it was made from, and to no other.

* `Decimal.value`: the number that a decimal stands for.
* `RoundingInterval.Holds`: what lies in an interval.
* `holds_of_contains`, `holds_shortest`: the shortest decimal lies in the interval.
* `roundsTo_of_holds`: what lies in the interval of a number rounds to it.
* `roundsTo_shortest_iff`: the shortest decimal of a number rounds to that number. -/

namespace CodeTree

set_option autoImplicit false

/-! ## Decimals -/

namespace Decimal

/-- The number that a decimal stands for. -/
def value (d : Decimal) : ℚ := d.coefficient * 10 ^ d.exponent

theorem value_trimUpTo (limit : ℕ) (d : Decimal) : (d.trimUpTo limit).value = d.value := by
  induction limit generalizing d with
  | zero => rfl
  | succ limit ih =>
    rw [trimUpTo]
    split
    · rename_i hzero
      have hcoefficient : (d.coefficient : ℚ) = 10 * (d.coefficient / 10 : ℕ) := by
        exact_mod_cast (Nat.mul_div_cancel' (Nat.dvd_of_mod_eq_zero hzero)).symm
      rw [ih, value, value, zpow_add_one₀ (by norm_num), hcoefficient]
      ring
    · rfl

theorem value_trim (d : Decimal) : d.trim.value = d.value := d.value_trimUpTo _

end Decimal

/-! ## What lies in an interval -/

namespace RoundingInterval

/-- A number lies in an interval. The ends do if the interval is closed. -/
structure Holds (i : RoundingInterval) (q : ℚ) : Prop where
  low_le : i.low * 2 ^ i.scale ≤ q
  le_high : q ≤ i.high * 2 ^ i.scale
  closed : q = i.low * 2 ^ i.scale ∨ q = i.high * 2 ^ i.scale → i.closed = true

variable {i : RoundingInterval} {d : Decimal}

theorem pow_toNat_neg_mul_zpow {b : ℚ} (hb : b ≠ 0) (e : ℤ) : b ^ (-e).toNat * b ^ e = b ^ e.toNat := by
  rw [← zpow_natCast, ← zpow_natCast, ← zpow_add₀ hb]
  congr 1
  omega

/-- The two factors stand in the ratio of the unit of an interval to the unit of a decimal grid. -/
theorem factors_spec (scale exponent : ℤ) :
    ((factors scale exponent).1 : ℚ) * 10 ^ exponent = (factors scale exponent).2 * 2 ^ scale := by
  have htwo := pow_toNat_neg_mul_zpow (b := 2) (by norm_num) scale
  have hten := pow_toNat_neg_mul_zpow (b := 10) (by norm_num) exponent
  simp only [factors, Nat.pow_eq]
  push_cast
  linear_combination (2 : ℚ) ^ scale.toNat * hten - (10 : ℚ) ^ exponent.toNat * htwo

theorem factors_pos (scale exponent : ℤ) : 0 < (factors scale exponent).2 := by
  simp only [factors, Nat.pow_eq]
  positivity

/-- The ends of an interval are compared with a decimal in whole numbers. -/
theorem factors_compare (n : ℕ) (scale : ℤ) (d : Decimal) :
    ∃ c : ℚ, 0 < c ∧ c * (n * 2 ^ scale) = (n * (factors scale d.exponent).1 : ℕ) ∧
      c * d.value = (d.coefficient * (factors scale d.exponent).2 : ℕ) := by
  have hten : (0 : ℚ) < 10 ^ d.exponent := zpow_pos (by norm_num) _
  have hpos : (0 : ℚ) < (factors scale d.exponent).2 := by
    exact_mod_cast factors_pos scale d.exponent
  have hspec := factors_spec scale d.exponent
  refine ⟨(factors scale d.exponent).2 / 10 ^ d.exponent, div_pos hpos hten, ?_, ?_⟩
  · push_cast
    rw [div_mul_eq_mul_div, div_eq_iff hten.ne']
    linear_combination -(n : ℚ) * hspec
  · rw [Decimal.value]
    push_cast
    field_simp

theorem mul_le_value_iff {n : ℕ} {scale : ℤ} {d : Decimal} :
    n * 2 ^ scale ≤ d.value ↔
      n * (factors scale d.exponent).1 ≤ d.coefficient * (factors scale d.exponent).2 := by
  obtain ⟨c, hc, hn, hd⟩ := factors_compare n scale d
  rw [← mul_le_mul_iff_right₀ hc, hn, hd, Nat.cast_le]

theorem value_le_mul_iff {n : ℕ} {scale : ℤ} {d : Decimal} :
    d.value ≤ n * 2 ^ scale ↔
      d.coefficient * (factors scale d.exponent).2 ≤ n * (factors scale d.exponent).1 := by
  obtain ⟨c, hc, hn, hd⟩ := factors_compare n scale d
  rw [← mul_le_mul_iff_right₀ hc, hn, hd, Nat.cast_le]

/-- An interval holds the decimals that it is found to contain. -/
theorem holds_of_contains (h : i.contains d = true) : i.Holds d.value := by
  simp only [contains] at h
  split at h
  · rename_i hclosed
    simp only [Bool.and_eq_true, decide_eq_true_eq] at h
    exact ⟨mul_le_value_iff.2 h.1, value_le_mul_iff.2 h.2, fun _ => hclosed⟩
  · simp only [Bool.and_eq_true, decide_eq_true_eq] at h
    have hlow : i.low * 2 ^ i.scale < d.value := lt_of_not_ge fun hle =>
      absurd (value_le_mul_iff.1 hle) (not_le.2 h.1)
    have hhigh : d.value < i.high * 2 ^ i.scale := lt_of_not_ge fun hle =>
      absurd (mul_le_value_iff.1 hle) (not_le.2 h.2)
    exact ⟨hlow.le, hhigh.le, fun hend => hend.elim (absurd · hlow.ne') (absurd · hhigh.ne)⟩

/-! ## The search -/

theorem contains_of_decimalOn {exponent : ℤ} (h : i.decimalOn exponent = some d) :
    i.contains d = true := by
  simp only [decimalOn] at h
  split at h
  · rename_i hbelow habove
    split at h <;> (cases h; assumption)
  · cases h; assumption
  · cases h; assumption
  · cases h

theorem contains_of_search {limit : ℕ} {exponent : ℤ} (h : i.search limit exponent = some d) :
    i.contains d = true := by
  induction limit generalizing exponent with
  | zero => cases h
  | succ limit ih =>
    rw [search] at h
    split at h
    · rename_i found hfound
      cases h
      exact contains_of_decimalOn hfound
    · exact ih h

theorem value_exact (i : RoundingInterval) : i.exact.value = i.middle * 2 ^ i.scale := by
  unfold exact Decimal.value
  split
  · rename_i n hscale
    rw [hscale]
    simp [Nat.pow_eq]
  · rename_i n hscale
    rw [hscale, zpow_negSucc, zpow_negSucc, show (10 : ℚ) = 2 * 5 by norm_num, mul_pow]
    push_cast [Nat.pow_eq]
    field_simp

/-- An interval with its middle strictly inside holds its shortest decimal. -/
theorem holds_shortest (hlow : i.low < i.middle) (hhigh : i.middle < i.high) :
    i.Holds i.shortest.value := by
  rw [shortest, Decimal.value_trim]
  cases hsearch : i.search 17 i.leadingExponent with
  | some d => exact holds_of_contains (contains_of_search hsearch)
  | none =>
    have hunit : (0 : ℚ) < 2 ^ i.scale := zpow_pos (by norm_num) _
    have hlow : (i.low * 2 ^ i.scale : ℚ) < i.middle * 2 ^ i.scale := by gcongr
    have hhigh : (i.middle * 2 ^ i.scale : ℚ) < i.high * 2 ^ i.scale := by gcongr
    rw [Option.getD_none, value_exact]
    exact ⟨hlow.le, hhigh.le, fun hend => hend.elim (absurd · hlow.ne') (absurd · hhigh.ne)⟩

end RoundingInterval

/-! ## The interval of a number -/

namespace Binary64

theorem pos_significandAt (n : ℕ) : 0 < significandAt (n + 1) := by
  unfold significandAt
  split <;> omega

/-- Below a power of two the unit is half as long. -/
theorem scaleAt_before {x : Binary64} {n : ℕ} (h : x.ordinal = n + 1) :
    scaleAt (n + 1) = if x.fraction = 0 ∧ 1 < x.exponentField then scaleAt n + 1 else scaleAt n := by
  rw [fraction_eq, exponentField_eq, h]
  unfold scaleAt
  split <;> split <;> split <;> omega

/-- Twice the lower end of the interval of a number is the number and the one before together. -/
theorem two_mul_low {x : Binary64} {n : ℕ} (h : x.ordinal = n + 1) :
    2 * ((RoundingInterval.ofBinary64 x).low * 2 ^ (RoundingInterval.ofBinary64 x).scale : ℚ)
      = magnitudeAt n + magnitudeAt (n + 1) := by
  have hscale := scaleAt_before h
  have hsucc := magnitudeAt_succ n
  have hlast : magnitudeAt (n + 1) = significandAt (n + 1) * 2 ^ scaleAt (n + 1) := rfl
  have hpos := pos_significandAt n
  simp only [RoundingInterval.ofBinary64, significand_eq, scale_eq, h]
  rw [zpow_sub₀ (by norm_num)]
  split at hscale
  · rename_i hpower
    rw [hscale, zpow_add_one₀ (by norm_num)] at hlast ⊢
    rw [if_pos hpower, Nat.cast_sub (by omega)]
    push_cast
    linear_combination hsucc - 2 * hlast
  · rename_i hpower
    rw [hscale] at hlast ⊢
    rw [if_neg hpower, Nat.cast_sub (by omega)]
    push_cast
    linear_combination hsucc - 2 * hlast

/-- Twice the upper end of the interval of a number is the number and the one behind together. -/
theorem two_mul_high {x : Binary64} {n : ℕ} (h : x.ordinal = n + 1) :
    2 * ((RoundingInterval.ofBinary64 x).high * 2 ^ (RoundingInterval.ofBinary64 x).scale : ℚ)
      = magnitudeAt (n + 1) + magnitudeAt (n + 2) := by
  rw [magnitudeAt_succ (n + 1), magnitudeAt]
  simp only [RoundingInterval.ofBinary64, significand_eq, scale_eq, h]
  rw [zpow_sub₀ (by norm_num)]
  push_cast
  ring

/-- What the interval of a number holds rounds to the number. -/
theorem roundsTo_of_holds {x : Binary64} {n : ℕ} {q : ℚ} (hnumber : x.isNaN = false)
    (hordinal : x.ordinal = n + 1) (h : (RoundingInterval.ofBinary64 x).Holds q) :
    RoundsTo x.isNegative q x := by
  have hlow := two_mul_low hordinal
  have hhigh := two_mul_high hordinal
  refine roundsTo_of_between hnumber hordinal ?_ ?_ fun hend => ?_
  · linarith [h.low_le]
  · linarith [h.le_high]
  · have hclosed : (RoundingInterval.ofBinary64 x).closed = true := by
      refine h.closed (hend.imp (fun heq => ?_) fun heq => ?_) <;> linarith
    exact of_decide_eq_true hclosed

theorem isZero_iff {x : Binary64} : x.isZero = true ↔ x.ordinal = 0 := by
  rw [isZero, decide_eq_true_iff, exponentField_eq, fraction_eq]
  omega

theorem isNaN_of_isFinite {x : Binary64} (h : x.isFinite = true) : x.isNaN = false :=
  isNaN_eq_false_iff.2 (ordinal_lt_of_isFinite h).le

/-- The shortest decimal of a number rounds to the number. -/
theorem roundsTo_shortest {x : Binary64} (h : x.isFinite = true) :
    RoundsTo x.isNegative x.shortest.value x := by
  have hnumber := isNaN_of_isFinite h
  unfold shortest
  split
  · rename_i hzero
    have hmagnitude : x.magnitude = 0 := by
      rw [magnitude_eq, isZero_iff.1 hzero, magnitudeAt, significandAt]
      norm_num
    simpa [Decimal.value] using roundsTo_zero hnumber hmagnitude
  · rename_i hzero
    obtain ⟨n, hn⟩ := Nat.exists_eq_succ_of_ne_zero fun h => hzero (isZero_iff.2 h)
    have hpos : 0 < x.significand := by
      rw [significand_eq, hn]
      exact pos_significandAt n
    refine roundsTo_of_holds hnumber hn (RoundingInterval.holds_shortest ?_ ?_)
    · simp only [RoundingInterval.ofBinary64]
      split <;> omega
    · simp only [RoundingInterval.ofBinary64]
      omega

/-- The shortest decimal of a number rounds to that number and to no other pattern. -/
theorem roundsTo_shortest_iff {x y : Binary64} (h : x.isFinite = true) :
    RoundsTo x.isNegative x.shortest.value y ↔ y = x :=
  ⟨fun hy => hy.unique (roundsTo_shortest h), fun hy => hy.symm ▸ roundsTo_shortest h⟩

end Binary64

end CodeTree
