import CodeTree.Lua.Literal
import Mathlib.Algebra.Group.Nat.Defs

/-! # The texts of numbers

An integer is written as decimal digits and a finite floating point number as digits on both sides of a
point, both after a minus sign if they are negative.

* `sign`: the minus sign of a negative number.
* `toList_integerText`: the text of an integer literal.
* `toList_floatText` and `isPositional_positional`: the text of a finite floating point literal.
* `exists_digits_positional`: the number that its digits are. -/

namespace CodeTree.Lua

set_option autoImplicit false

structure IsDigits (text : List Char) : Prop where
  ne_nil : text ≠ []
  isDigit : ∀ c ∈ text, c.isDigit = true

def sign (negative : Bool) : List Char := if negative then ['-'] else []

theorem isDigits_toDigits (n : Nat) : IsDigits (Nat.toDigits 10 n) :=
  ⟨Nat.toDigits_ne_nil, fun _ hc => Nat.isDigit_of_mem_toDigits (by omega) (by omega) hc⟩

theorem IsDigits.append {u v : List Char} (hu : IsDigits u) (hv : ∀ c ∈ v, c.isDigit = true) :
    IsDigits (u ++ v) := by
  refine ⟨by simp [hu.ne_nil], fun c hc => ?_⟩
  rcases List.mem_append.1 hc with h | h
  · exact hu.isDigit c h
  · exact hv c h

theorem isDigit_replicate_zero {n : Nat} {c : Char} (h : c ∈ List.replicate n '0') :
    c.isDigit = true := by
  rw [List.eq_of_mem_replicate h]
  rfl

/-- Two texts that begin with a stretch of characters of one kind begin with the same one. -/
theorem stretch_inj {p : Char → Bool} {u v r s : List Char} (hu : ∀ c ∈ u, p c = true)
    (hv : ∀ c ∈ v, p c = true) (hr : ∀ c ∈ r.head?, p c = false) (hs : ∀ c ∈ s.head?, p c = false)
    (h : u ++ r = v ++ s) : u = v ∧ r = s := by
  induction u generalizing v with
  | nil =>
    cases v with
    | nil => exact ⟨rfl, h⟩
    | cons d v =>
      rw [List.nil_append] at h
      exact absurd (hv d (by simp)) (by simp [hr d (by simp [h])])
  | cons c u ih =>
    cases v with
    | nil =>
      rw [List.nil_append] at h
      exact absurd (hu c (by simp)) (by simp [hs c (by simp [← h])])
    | cons d v =>
      obtain ⟨rfl, htail⟩ := List.cons.inj h
      obtain ⟨rfl, hrest⟩ := ih (fun e he => hu e (List.mem_cons_of_mem c he))
        (fun e he => hv e (List.mem_cons_of_mem c he)) htail
      exact ⟨rfl, hrest⟩

theorem IsDigits.head_ne_minus {text : List Char} (h : IsDigits text) (rest : List Char) :
    (text ++ rest).head? ≠ some '-' := by
  obtain ⟨c, cs, rfl⟩ := List.exists_cons_of_ne_nil h.ne_nil
  have hc : c.isDigit = true := h.isDigit c List.mem_cons_self
  rintro ⟨⟩
  exact absurd hc (by decide)

/-- Whether a text has a minus sign in front can be seen if none is behind it. -/
theorem sign_inj {a b : Bool} {u v : List Char} (hu : u.head? ≠ some '-') (hv : v.head? ≠ some '-')
    (h : sign a ++ u = sign b ++ v) : a = b ∧ u = v := by
  cases a <;> cases b
  · exact ⟨rfl, h⟩
  · exact absurd (congrArg List.head? h) hu
  · exact absurd (congrArg List.head? h).symm hv
  · exact ⟨rfl, List.cons.inj h |>.2⟩

/-! ## Integers -/

/-- An integer is written as its digits, after a minus sign if it is negative. -/
theorem toList_toString_int (i : Int) :
    (toString i).toList = sign (decide (i < 0)) ++ Nat.toDigits 10 i.natAbs := by
  cases i with
  | ofNat n => simp [toString, sign, Nat.toList_repr, Int.repr]
  | negSucc n => simp [toString, sign, Nat.toList_repr, Int.repr, Int.negSucc_lt_zero]

theorem toList_integerText (value : Int64) :
    (Literal.integerText value).toList
      = sign (decide (value.toInt < 0)) ++ Nat.toDigits 10 value.toInt.natAbs :=
  toList_toString_int value.toInt

/-! ## Floating point numbers -/

def IsPositional (text : List Char) : Prop :=
  ∃ whole fraction, IsDigits whole ∧ IsDigits fraction ∧ text = whole ++ '.' :: fraction

/-- The digits on both sides of the point together are the decimal in units of its last place. -/
theorem exists_digits_positional (d : Decimal) :
    ∃ whole fraction, IsDigits whole ∧ IsDigits fraction ∧
      d.positional.toList = whole ++ '.' :: fraction ∧ 0 ≤ d.exponent + fraction.length ∧
      Nat.ofDigitChars 10 (whole ++ fraction) 0
        = d.coefficient * 10 ^ (d.exponent + fraction.length).toNat := by
  have hdigits : IsDigits d.digits := isDigits_toDigits _
  have hvalue : Nat.ofDigitChars 10 d.digits 0 = d.coefficient := Nat.ofDigitChars_ten_toDigits
  unfold Decimal.positional
  split
  · rename_i zeros hexponent
    refine ⟨d.digits ++ List.replicate zeros '0', ['0'],
      hdigits.append fun _ => isDigit_replicate_zero, ⟨by simp, by simp⟩, by simp, ?_, ?_⟩
    · rw [hexponent]
      simp only [Int.ofNat_eq_natCast, List.length_singleton]
      omega
    · have hzeros : (d.exponent + (['0'].length : Nat)).toNat = zeros + 1 := by
        rw [hexponent]
        simp only [Int.ofNat_eq_natCast, List.length_singleton]
        omega
      rw [hzeros, Nat.ofDigitChars_append, Nat.ofDigitChars_append, hvalue,
        Nat.ofDigitChars_replicate_zero, Nat.ofDigitChars_cons, Nat.ofDigitChars_nil, Nat.pow_succ]
      simp only [Nat.sub_self, Nat.add_zero]
      ac_rfl
  · rename_i n hexponent
    -- The padded digits are one more than the places behind the point, or longer.
    have hlength : n + 2 ≤ (List.replicate (n + 1 + 1 - d.digits.length) '0' ++ d.digits).length := by
      simp only [List.length_append, List.length_replicate]
      omega
    have hpadded : ∀ c ∈ List.replicate (n + 1 + 1 - d.digits.length) '0' ++ d.digits,
        c.isDigit = true := by
      intro c hc
      rcases List.mem_append.1 hc with h | h
      · exact isDigit_replicate_zero h
      · exact hdigits.isDigit c h
    have hpaddedValue : Nat.ofDigitChars 10
        (List.replicate (n + 1 + 1 - d.digits.length) '0' ++ d.digits) 0 = d.coefficient := by
      rw [Nat.ofDigitChars_append, Nat.ofDigitChars_replicate_zero, Nat.mul_zero, hvalue]
    simp only [String.toList_ofList]
    generalize List.replicate (n + 1 + 1 - d.digits.length) '0' ++ d.digits = padded at *
    have hplaces : d.exponent + (padded.drop (padded.length - (n + 1))).length = 0 := by
      rw [hexponent, List.length_drop]
      omega
    refine ⟨_, _, ⟨?_, fun c hc => hpadded c (List.mem_of_mem_take hc)⟩,
      ⟨?_, fun c hc => hpadded c (List.mem_of_mem_drop hc)⟩, rfl, Int.le_of_eq hplaces.symm, ?_⟩
    · rw [← List.length_pos_iff, List.length_take]
      omega
    · rw [← List.length_pos_iff, List.length_drop]
      omega
    · rw [List.take_append_drop, hplaces, hpaddedValue, Int.toNat_zero, Nat.pow_zero, Nat.mul_one]

theorem isPositional_positional (d : Decimal) : IsPositional d.positional.toList := by
  obtain ⟨whole, fraction, hwhole, hfraction, htext, -, -⟩ := exists_digits_positional d
  exact ⟨whole, fraction, hwhole, hfraction, htext⟩

/-- A finite floating point literal is written positionally, after a minus sign if it is negative. -/
theorem toList_floatText {x : Binary64} (hnan : x.isNaN = false) (hinfinite : x.isInfinite = false) :
    (floatText x).toList = sign x.isNegative ++ x.shortest.positional.toList := by
  have hwrite : Binary64.literalNotation.write x.shortest = x.shortest.positional := rfl
  simp only [floatText, Literal.floatText, Binary64.write, hnan, hinfinite, hwrite, sign,
    Bool.false_eq_true, if_false]
  cases x.isNegative <;> simp

end CodeTree.Lua
