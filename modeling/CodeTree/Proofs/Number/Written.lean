import CodeTree.Proofs.Emission.Text
import CodeTree.Proofs.Lexical.Numerals
import CodeTree.Proofs.Number.Interval

/-! # Floating point literals read back

A finite number is written as digits on both sides of a point, after a minus sign if its sign bit is set. The
number that stands there, taken exactly and rounded to the nearest with ties to even, has the very pattern
that was written. An integer never has a point, so none of these texts reads as one.

* `StandsFor`: a text of this form, its sign and its number.
* `StandsFor.unique`: a text has one sign and one number.
* `floatText_reads_back`: finite numbers, on every target. -/

namespace CodeTree.Lua

set_option autoImplicit false

/-- The text is digits on both sides of a point, after a minus sign if the number is negative, and without
its sign the number is `q`. -/
def StandsFor (text : List Char) (negative : Bool) (q : ℚ) : Prop :=
  ∃ whole fraction, IsDigits whole ∧ IsDigits fraction ∧
    text = sign negative ++ whole ++ '.' :: fraction ∧
    q = Nat.ofDigitChars 10 (whole ++ fraction) 0 / 10 ^ fraction.length

theorem standsFor_positional (d : Decimal) : StandsFor d.positional.toList false d.value := by
  obtain ⟨whole, fraction, hwhole, hfraction, htext, hplaces, hdigits⟩ := exists_digits_positional d
  refine ⟨whole, fraction, hwhole, hfraction, by simpa [sign] using htext, ?_⟩
  have hexponent : ((d.exponent + fraction.length).toNat : ℤ) = d.exponent + fraction.length :=
    Int.toNat_of_nonneg hplaces
  rw [hdigits, Decimal.value, eq_div_iff (by positivity), mul_assoc, ← zpow_natCast,
    ← zpow_add₀ (by norm_num), ← hexponent, zpow_natCast]
  push_cast
  rfl

theorem StandsFor.signed {text : List Char} {q : ℚ} (h : StandsFor text false q) (negative : Bool) :
    StandsFor (sign negative ++ text) negative q := by
  obtain ⟨whole, fraction, hwhole, hfraction, rfl, hq⟩ := h
  exact ⟨whole, fraction, hwhole, hfraction, by simp [sign], hq⟩

/-- The sign and the number of a text can be read from it. -/
theorem StandsFor.unique {text : List Char} {a b : Bool} {p q : ℚ} (ha : StandsFor text a p)
    (hb : StandsFor text b q) : a = b ∧ p = q := by
  obtain ⟨whole, fraction, hwhole, hfraction, htext, rfl⟩ := ha
  obtain ⟨whole', fraction', hwhole', hfraction', htext', rfl⟩ := hb
  rw [htext, List.append_assoc, List.append_assoc] at htext'
  obtain ⟨rfl, hdigits⟩ :=
    sign_inj (hwhole.head_ne_minus _) (hwhole'.head_ne_minus _) htext'
  obtain ⟨rfl, hpoint⟩ :=
    stretch_inj hwhole.isDigit hwhole'.isDigit (by simp) (by simp) hdigits
  obtain rfl : fraction = fraction' := (List.cons.inj hpoint).2
  exact ⟨rfl, rfl⟩

theorem floatText_of_isFinite {x : Binary64} (h : x.isFinite = true) :
    floatText x = Literal.floatText x := by
  have hinfinite : x.isInfinite = false :=
    decide_eq_false fun hinfinite => of_decide_eq_true h hinfinite.1
  rw [floatText, Binary64.isNaN_of_isFinite h, hinfinite]
  rfl

theorem standsFor_floatText {x : Binary64} (h : x.isFinite = true) :
    StandsFor (Literal.floatText x).toList x.isNegative x.shortest.value := by
  have hinfinite : x.isInfinite = false :=
    decide_eq_false fun hinfinite => of_decide_eq_true h hinfinite.1
  rw [← floatText_of_isFinite h, toList_floatText (Binary64.isNaN_of_isFinite h) hinfinite]
  exact (standsFor_positional x.shortest).signed x.isNegative

/-- A finite number is written as digits on both sides of a point and without an exponent, after a minus
sign exactly if its sign bit is set, and the number written there rounds to this pattern and to no other.
The emitter writes the same text on every target. -/
theorem floatText_reads_back (x : Binary64) (h : x.isFinite = true) (generator : Generator) :
    (∃ q, StandsFor (Literal.floatText x).toList x.isNegative q ∧
      ∀ y, RoundsTo x.isNegative q y ↔ y = x) ∧
    (generator.generateExpression (.literal (.float x))).1 = .ok (Literal.floatText x) := by
  refine ⟨⟨_, standsFor_floatText h, fun y => Binary64.roundsTo_shortest_iff h⟩, ?_⟩
  rw [generateExpression_eq_ok, Expr.literal, yields_emitExpr_atom, yields_emitAtom_literal,
    literalText, floatText_of_isFinite h]

/-- A negative power of two, below which numbers are half as far apart. -/
theorem floatText_reads_back_of_negative_quarter :
    (⟨0xBFD0000000000000⟩ : Binary64).isFinite = true ∧
    Literal.floatText ⟨0xBFD0000000000000⟩ = "-0.25" ∧
    (∃ q, StandsFor "-0.25".toList true q ∧ ∀ y, RoundsTo true q y ↔ y = ⟨0xBFD0000000000000⟩) ∧
    ((Generator.new .empty { target := .luaJIT }).generateExpression
      (.literal (.float ⟨0xBFD0000000000000⟩))).1 = .ok "-0.25" := by
  have hfinite : (⟨0xBFD0000000000000⟩ : Binary64).isFinite = true := by decide
  have htext : Literal.floatText ⟨0xBFD0000000000000⟩ = "-0.25" := by decide +kernel
  have hnegative : (⟨0xBFD0000000000000⟩ : Binary64).isNegative = true := by decide
  have hread := floatText_reads_back ⟨0xBFD0000000000000⟩ hfinite
    (Generator.new .empty { target := .luaJIT })
  rw [htext, hnegative] at hread
  exact ⟨hfinite, htext, hread⟩

end CodeTree.Lua
