import CodeTree.Name.Symbol
import CodeTree.Proofs.Inspection.Tells
import CodeTree.Proofs.Number.Written

/-! # Numbers in debug texts

The text of a number is a word, and it tells the number: an integer by its sign and its digits, a finite
floating point number because the decimal that stands there rounds to nothing else. All NaNs have the same
text.

* `tells_integer`, `tells_symbol`: integers and symbols.
* `value_eq_of_write_eq`: a text in any notation tells the number that the decimal stands for.
* `Binary64.oneNaN`: one NaN for all.
* `tells_float`: floating point numbers, but for the patterns of NaNs. -/

namespace CodeTree.Inspect

set_option autoImplicit false

open Lua (sign IsDigits sign_inj stretch_inj)

/-! ## Integers -/

theorem toDigits_injective : Function.Injective (Nat.toDigits 10) := by
  intro a b h
  rw [← Nat.ofDigitChars_ten_toDigits (n := a), h, Nat.ofDigitChars_ten_toDigits]

theorem isWordPart_of_isDigit {c : Char} (h : c.isDigit = true) : isWordPart c = true := by
  simp [isWordPart, Char.isAlphanum, h]

theorem eq_of_mem_sign {negative : Bool} {c : Char} (h : c ∈ sign negative) : c = '-' := by
  cases negative with
  | false => cases h
  | true => exact List.mem_singleton.1 h

theorem isWord_toString_int (i : Int) : IsWord (toString i) := by
  have hdigits := Lua.isDigits_toDigits i.natAbs
  refine ⟨?_, fun c hc => ?_⟩
  · rw [Lua.toList_toString_int]
    exact List.append_ne_nil_of_right_ne_nil _ hdigits.ne_nil
  · rw [Lua.toList_toString_int] at hc
    rcases List.mem_append.1 hc with hc | hc
    · rw [eq_of_mem_sign hc]
      decide
    · exact isWordPart_of_isDigit (hdigits.isDigit c hc)

theorem toString_int_injective : Function.Injective (toString : Int → String) := by
  intro i j h
  have htext := congrArg String.toList h
  rw [Lua.toList_toString_int, Lua.toList_toString_int] at htext
  have hi := (Lua.isDigits_toDigits i.natAbs).head_ne_minus []
  have hj := (Lua.isDigits_toDigits j.natAbs).head_ne_minus []
  rw [List.append_nil] at hi hj
  obtain ⟨hsign, hdigits⟩ := sign_inj hi hj htext
  have habs : i.natAbs = j.natAbs := toDigits_injective hdigits
  rw [decide_eq_decide] at hsign
  omega

theorem tells_integer (a b : Int64) :
    Tells (Literal.integerText a) (Literal.integerText b) (a = b) := by
  have hword : ∀ value, IsWord (Literal.integerText value) := fun value =>
    isWord_toString_int value.toInt
  have hinjective : Function.Injective Literal.integerText := fun _ _ h =>
    Int64.toInt_inj.1 (toString_int_injective h)
  exact tells_words hword hinjective a b

theorem tells_symbol (a b : Symbol) : Tells a.inspect b.inspect (a = b) := by
  have hcount : Tells (toString (a.index + 1)) (toString (b.index + 1)) (a = b) := by
    have hword : ∀ n : ℕ, IsWord (toString n) := fun n => isWord_toString_int (n : Int)
    refine (tells_word (hword _) (hword _)).mono fun h => ?_
    have hint : ((a.index + 1 : ℕ) : Int) = ((b.index + 1 : ℕ) : Int) := toString_int_injective h
    cases a
    cases b
    simpa using hint
  exact (hcount.after _).before fun r => .closing (.brace r)

/-! ## Decimals -/

/-- The scientific form is the digits, perhaps with a point among them, and behind `e` the exponent of the
first of them. -/
theorem exists_mantissa_scientific (d : Decimal) :
    ∃ mantissa, d.scientific.toList = mantissa ++ 'e' :: (toString d.leadingExponent).toList ∧
      mantissa.filter (· ≠ '.') = d.digits ∧
      ∀ c ∈ mantissa, (c.isDigit || c == '.') = true := by
  have hdigits : IsDigits d.digits := Lua.isDigits_toDigits _
  have hpoint : d.digits.filter (· ≠ '.') = d.digits := by
    refine List.filter_eq_self.2 fun c hc => decide_eq_true ?_
    rintro rfl
    exact absurd (hdigits.isDigit '.' hc) (by decide)
  have hall : ∀ c ∈ d.digits, (c.isDigit || c == '.') = true := fun c hc => by
    simp [hdigits.isDigit c hc]
  unfold Decimal.scientific
  split
  · rename_i first second rest heq
    rw [heq] at hpoint hall
    refine ⟨first :: '.' :: second :: rest, by simp, ?_, ?_⟩
    · rw [heq]
      simpa [List.filter_cons] using hpoint
    · simpa using hall
  · exact ⟨d.digits, by simp, hpoint, hall⟩

theorem eq_of_scientific_eq {d e : Decimal} (h : d.scientific = e.scientific) : d = e := by
  obtain ⟨m, hm, hmdigits, hmall⟩ := exists_mantissa_scientific d
  obtain ⟨k, hk, hkdigits, hkall⟩ := exists_mantissa_scientific e
  rw [h, hk] at hm
  obtain ⟨rfl, hexponent⟩ := stretch_inj hkall hmall (by simp) (by simp) hm
  have hdigits : d.digits = e.digits := hmdigits.symm.trans hkdigits
  have hleading : e.leadingExponent = d.leadingExponent :=
    toString_int_injective (String.toList_inj.1 (List.cons.inj hexponent).2)
  have hcoefficient : d.coefficient = e.coefficient := toDigits_injective hdigits
  rw [Decimal.leadingExponent, Decimal.leadingExponent, hdigits] at hleading
  cases d
  cases e
  simp only [Decimal.mk.injEq]
  exact ⟨hcoefficient, by simpa using hleading.symm⟩

theorem mem_positional {d : Decimal} {c : Char} (h : c ∈ d.positional.toList) :
    (c.isDigit || c == '.') = true := by
  obtain ⟨whole, fraction, hwhole, hfraction, htext⟩ := Lua.isPositional_positional d
  rw [htext] at h
  rcases List.mem_append.1 h with hc | hc
  · simp [hwhole.isDigit c hc]
  · rcases List.mem_cons.1 hc with rfl | hc
    · rfl
    · simp [hfraction.isDigit c hc]

theorem positional_ne_scientific (d e : Decimal) : d.positional ≠ e.scientific := by
  intro h
  obtain ⟨mantissa, htext, -, -⟩ := exists_mantissa_scientific e
  have he : 'e' ∈ d.positional.toList := by rw [h, htext]; simp
  exact absurd (mem_positional he) (by decide)

/-- The text of a decimal in any notation tells the number that it stands for. -/
theorem value_eq_of_write_eq {n : Notation} {d e : Decimal} (h : n.write d = n.write e) :
    d.value = e.value := by
  unfold Notation.write at h
  split at h <;> split at h
  · have hd := Lua.standsFor_positional d
    rw [h] at hd
    exact (hd.unique (Lua.standsFor_positional e)).2
  · exact absurd h (positional_ne_scientific d e)
  · exact absurd h.symm (positional_ne_scientific e d)
  · rw [eq_of_scientific_eq h]

/-- The text of a decimal is digits, perhaps with a point among them, and perhaps an exponent behind them. -/
theorem exists_mantissa_write (n : Notation) (d : Decimal) :
    ∃ mantissa rest, (n.write d).toList = mantissa ++ rest ∧
      (∀ c ∈ mantissa, (c.isDigit || c == '.') = true) ∧
      (rest = [] ∧ mantissa ≠ [] ∨ ∃ i : Int, rest = 'e' :: (toString i).toList) := by
  unfold Notation.write
  split
  · obtain ⟨whole, fraction, -, -, htext⟩ := Lua.isPositional_positional d
    exact ⟨d.positional.toList, [], (List.append_nil _).symm, fun _ => mem_positional,
      .inl ⟨rfl, by simp [htext]⟩⟩
  · obtain ⟨mantissa, htext, -, hmantissa⟩ := exists_mantissa_scientific d
    exact ⟨mantissa, _, htext, hmantissa, .inr ⟨_, rfl⟩⟩

/-- The characters in the text of a decimal. -/
def isNumeric (c : Char) : Bool := c.isDigit || c == '.' || c == 'e' || c == '-'

theorem isWordPart_of_isNumeric {c : Char} (h : isNumeric c = true) : isWordPart c = true := by
  simp only [isNumeric, Bool.or_eq_true, beq_iff_eq] at h
  rcases h with ((h | rfl) | rfl) | rfl
  · exact isWordPart_of_isDigit h
  · decide
  · decide
  · decide

theorem isNumeric_of_mem_toString_int {i : Int} {c : Char} (h : c ∈ (toString i).toList) :
    isNumeric c = true := by
  rw [Lua.toList_toString_int] at h
  rcases List.mem_append.1 h with hc | hc
  · rw [isNumeric, eq_of_mem_sign hc]
    rfl
  · simp [isNumeric, (Lua.isDigits_toDigits i.natAbs).isDigit c hc]

theorem isNumeric_of_mem_write {n : Notation} {d : Decimal} {c : Char} (h : c ∈ (n.write d).toList) :
    isNumeric c = true := by
  obtain ⟨mantissa, rest, htext, hmantissa, hrest⟩ := exists_mantissa_write n d
  rw [htext] at h
  rcases List.mem_append.1 h with hc | hc
  · have hdigit := hmantissa c hc
    simp only [isNumeric, hdigit, Bool.true_or]
  · rcases hrest with ⟨rfl, -⟩ | ⟨i, rfl⟩
    · cases hc
    · rcases List.mem_cons.1 hc with rfl | hc
      · decide
      · exact isNumeric_of_mem_toString_int hc

theorem exists_cons_write (n : Notation) (d : Decimal) :
    ∃ c cs, (n.write d).toList = c :: cs ∧ c ≠ '-' := by
  obtain ⟨mantissa, rest, htext, hmantissa, hrest⟩ := exists_mantissa_write n d
  cases mantissa with
  | nil =>
    rcases hrest with ⟨-, hne⟩ | ⟨i, rfl⟩
    · exact absurd rfl hne
    · exact ⟨'e', _, htext, by decide⟩
  | cons c mantissa =>
    refine ⟨c, _, htext, ?_⟩
    rintro rfl
    exact absurd (hmantissa '-' (by simp)) (by decide)

end CodeTree.Inspect

/-! ## Floating point numbers -/

namespace CodeTree.Binary64

/-- The number without its sign in a notation. -/
def magnitudeText (x : Binary64) (n : Notation) : String :=
  if x.isInfinite then "inf" else n.write x.shortest

variable {x y : Binary64} {n : Notation}

theorem write_of_isNaN (h : x.isNaN = true) : x.write n = "NaN" := by
  rw [write, if_pos h]

theorem toList_write (h : x.isNaN = false) :
    (x.write n).toList = Lua.sign x.isNegative ++ (x.magnitudeText n).toList := by
  rw [write, if_neg (by simp [h])]
  change String.toList (if x.isNegative = true then "-" ++ x.magnitudeText n else x.magnitudeText n) = _
  cases x.isNegative <;> simp [Lua.sign]

theorem isFinite_of_not_isInfinite (hnumber : x.isNaN = false) (h : x.isInfinite = false) :
    x.isFinite = true := by
  rw [isNaN, decide_eq_false_iff_not] at hnumber
  rw [isInfinite, decide_eq_false_iff_not] at h
  exact decide_eq_true fun hfield => hnumber ⟨hfield, fun hfraction => h ⟨hfield, hfraction⟩⟩

theorem ordinal_of_isInfinite (h : x.isInfinite = true) : x.ordinal = infiniteOrdinal := by
  obtain ⟨hfield, hfraction⟩ := of_decide_eq_true h
  rw [exponentField_eq] at hfield
  rw [fraction_eq] at hfraction
  rw [infiniteOrdinal]
  omega

theorem mem_magnitudeText {c : Char} (h : c ∈ (x.magnitudeText n).toList) :
    c ∈ "inf".toList ∨ Inspect.isNumeric c = true := by
  unfold magnitudeText at h
  split at h
  · exact .inl h
  · exact .inr (Inspect.isNumeric_of_mem_write h)

theorem exists_cons_magnitudeText (x : Binary64) (n : Notation) :
    ∃ c cs, (x.magnitudeText n).toList = c :: cs ∧ c ≠ '-' := by
  unfold magnitudeText
  split
  · exact ⟨'i', ['n', 'f'], rfl, by decide⟩
  · exact Inspect.exists_cons_write n _

theorem head_magnitudeText (x : Binary64) (n : Notation) :
    (x.magnitudeText n).toList.head? ≠ some '-' := by
  obtain ⟨c, cs, htext, hc⟩ := x.exists_cons_magnitudeText n
  rw [htext]
  exact fun h => hc (Option.some.inj h)

/-- The text of a magnitude tells it. -/
theorem ordinal_eq_of_magnitudeText_eq (hx : x.isNaN = false) (hy : y.isNaN = false)
    (hsign : x.isNegative = y.isNegative) (h : x.magnitudeText n = y.magnitudeText n) : x = y := by
  have hi : ∀ d, "inf" ≠ n.write d := fun d heq =>
    absurd (Inspect.isNumeric_of_mem_write (show 'i' ∈ (n.write d).toList by rw [← heq]; decide))
      (by decide)
  unfold magnitudeText at h
  split at h <;> split at h
  · rename_i hx' hy'
    exact eq_of_ordinal_eq hsign
      ((ordinal_of_isInfinite hx').trans (ordinal_of_isInfinite hy').symm)
  · exact absurd h (hi _)
  · exact absurd h.symm (hi _)
  · rename_i hx' hy'
    -- The same decimal rounds to both.
    have hxround := roundsTo_shortest (isFinite_of_not_isInfinite hx (by simpa using hx'))
    have hyround := roundsTo_shortest (isFinite_of_not_isInfinite hy (by simpa using hy'))
    rw [Inspect.value_eq_of_write_eq h, hsign] at hxround
    exact hxround.unique hyround

/-- The number itself, or one NaN for all NaNs. -/
def oneNaN (x : Binary64) : Binary64 := if x.isNaN then ⟨0x7FF8000000000000⟩ else x

theorem isNaN_oneNaN (x : Binary64) : x.oneNaN.isNaN = x.isNaN := by
  unfold oneNaN
  split
  · rename_i h
    rw [h]
    decide
  · rfl

/-- What `oneNaN` does not tell apart are NaNs. -/
theorem oneNaN_eq_iff : x.oneNaN = y.oneNaN ↔ x = y ∨ x.isNaN = true ∧ y.isNaN = true := by
  constructor
  · intro h
    have hnan := congrArg isNaN h
    rw [isNaN_oneNaN, isNaN_oneNaN] at hnan
    cases hx : x.isNaN with
    | true => exact .inr ⟨rfl, hnan ▸ hx⟩
    | false => exact .inl (by simpa [oneNaN, hx, ← hnan] using h)
  · rintro (rfl | ⟨hx, hy⟩)
    · rfl
    · rw [oneNaN, oneNaN, if_pos hx, if_pos hy]

theorem N_not_mem_write (h : x.isNaN = false) : 'N' ∉ (x.write n).toList := by
  rw [toList_write h]
  intro hN
  rcases List.mem_append.1 hN with hN | hN
  · exact absurd (Inspect.eq_of_mem_sign hN) (by decide)
  · exact absurd (mem_magnitudeText hN) (by decide)

theorem isWord_write (x : Binary64) (n : Notation) : Inspect.IsWord (x.write n) := by
  cases hnan : x.isNaN with
  | true =>
    rw [write_of_isNaN hnan]
    exact Inspect.isWord_ofList rfl
  | false =>
    refine ⟨?_, fun c hc => ?_⟩
    · obtain ⟨c, cs, hmagnitude, -⟩ := x.exists_cons_magnitudeText n
      rw [toList_write hnan, hmagnitude]
      exact List.append_ne_nil_of_right_ne_nil _ (List.cons_ne_nil c cs)
    · rw [toList_write hnan] at hc
      rcases List.mem_append.1 hc with hc | hc
      · rw [Inspect.eq_of_mem_sign hc]
        decide
      · rcases mem_magnitudeText hc with hc | hc
        · exact (show Inspect.IsWord "inf" from Inspect.isWord_ofList rfl).isWordPart c hc
        · exact Inspect.isWordPart_of_isNumeric hc

/-- The text of a number in any notation tells its pattern. Only NaNs have the same text. -/
theorem oneNaN_eq_of_write_eq (h : x.write n = y.write n) : x.oneNaN = y.oneNaN := by
  rw [oneNaN_eq_iff]
  cases hx : x.isNaN <;> cases hy : y.isNaN
  · have htext := congrArg String.toList h
    rw [toList_write hx, toList_write hy] at htext
    obtain ⟨hsign, hmagnitude⟩ :=
      Lua.sign_inj (x.head_magnitudeText n) (y.head_magnitudeText n) htext
    exact .inl (ordinal_eq_of_magnitudeText_eq hx hy hsign (String.toList_inj.1 hmagnitude))
  · exact absurd (show 'N' ∈ (x.write n).toList by rw [h, write_of_isNaN hy]; decide)
      (N_not_mem_write hx)
  · exact absurd (show 'N' ∈ (y.write n).toList by rw [← h, write_of_isNaN hx]; decide)
      (N_not_mem_write hy)
  · exact .inr ⟨rfl, rfl⟩

end CodeTree.Binary64

namespace CodeTree.Inspect

theorem tells_float (x y : Binary64) (n : Notation) :
    Tells (x.write n) (y.write n) (x.oneNaN = y.oneNaN) :=
  (tells_word (x.isWord_write n) (y.isWord_write n)).mono Binary64.oneNaN_eq_of_write_eq

end CodeTree.Inspect
