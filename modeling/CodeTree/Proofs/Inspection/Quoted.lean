import CodeTree.Proofs.Inspection.Tells
import Mathlib.Tactic.IntervalCases

/-! # Quoted text in debug texts

The form of a character between quotes can be read back in front of any text, and it never begins with the
quote. So a quoted text ends at the first quote that is not part of a form, and it is read back character by
character.

* `readChar?`: the character whose form is at the front of a text, and the rest.
* `readChar?_escapeChar`: forms are read back.
* `tells_string`, `tells_char`: quoted texts tell what was quoted. -/

namespace CodeTree.Inspect

set_option autoImplicit false

/-! ## Hexadecimal codes -/

def hexDigit (c : Char) : Nat := if c.isDigit then c.toNat - 48 else c.toNat - 87

def hexValue (text : List Char) : Nat := text.foldl (fun n c => 16 * n + hexDigit c) 0

theorem hexDigit_digitChar {n : Nat} (h : n < 16) : hexDigit n.digitChar = n := by
  interval_cases n <;> rfl

theorem hexValue_toDigits (n : Nat) : hexValue (Nat.toDigits 16 n) = n := by
  induction n using Nat.strongRecOn with
  | ind n ih =>
    rw [Nat.toDigits_eq_if (by decide)]
    split
    · rename_i hlt
      exact (Nat.zero_add _).trans (hexDigit_digitChar hlt)
    · rename_i hge
      have hvalue : hexValue (Nat.toDigits 16 (n / 16) ++ [(n % 16).digitChar])
          = 16 * hexValue (Nat.toDigits 16 (n / 16)) + hexDigit (n % 16).digitChar := by
        simp [hexValue]
      rw [hvalue, ih _ (by omega), hexDigit_digitChar (Nat.mod_lt _ (by decide))]
      omega

theorem digitChar_ne_brace {n : Nat} (h : n < 16) : n.digitChar ≠ '\x7d' := by
  interval_cases n <;> decide

theorem brace_not_mem_toDigits (n : Nat) : '\x7d' ∉ Nat.toDigits 16 n := by
  induction n using Nat.strongRecOn with
  | ind n ih =>
    rw [Nat.toDigits_eq_if (by decide)]
    split
    · rename_i hlt
      simp [(digitChar_ne_brace hlt).symm]
    · rename_i hge
      have hlast := (digitChar_ne_brace (Nat.mod_lt n (show 0 < 16 by decide))).symm
      simp [ih (n / 16) (by omega), hlast]

/-! ## Characters -/

/-- The character that a letter behind a backslash stands for. -/
def letterOf? : Char → Option Char
  | '0' => some '\x00'
  | 't' => some '\t'
  | 'r' => some '\r'
  | 'n' => some '\n'
  | '\\' => some '\\'
  | '"' => some '"'
  | '\'' => some '\''
  | _ => none

/-- The character whose form is at the front of a text, and the text behind it. -/
def readChar? : List Char → Option (Char × List Char)
  | '\\' :: 'u' :: '\x7b' :: rest =>
    some (Char.ofNat (hexValue (rest.takeWhile (· ≠ '\x7d'))), (rest.dropWhile (· ≠ '\x7d')).tail)
  | '\\' :: c :: rest => (letterOf? c).map fun d => (d, rest)
  | c :: rest => some (c, rest)
  | [] => none

def isMark (c : Char) : Bool := c == '"' || c == '\''

theorem readChar?_hexCode (c : Char) (rest : List Char) :
    readChar? ('\\' :: 'u' :: '\x7b' :: (Text.hexCode c ++ '\x7d' :: rest)) = some (c, rest) := by
  have hdigits : ∀ d ∈ Text.hexCode c, decide (d ≠ '\x7d') = true := by
    intro d hd
    exact decide_eq_true fun hbrace => brace_not_mem_toDigits c.toNat (hbrace ▸ hd)
  rw [readChar?, List.takeWhile_append_of_pos hdigits, List.dropWhile_append_of_pos hdigits]
  simp [Text.hexCode, hexValue_toDigits]

theorem readChar?_cons {c : Char} (h : c ≠ '\\') (rest : List Char) :
    readChar? (c :: rest) = some (c, rest) := by
  unfold readChar?
  split <;> simp_all

/-- The form of a character is read back in front of any text. -/
theorem readChar?_escapeChar {mark : Char} (hmark : isMark mark = true) (c : Char) (rest : List Char) :
    readChar? (Text.escapeChar mark c ++ rest) = some (c, rest) := by
  unfold Text.escapeChar
  split
  · rfl
  · rfl
  · rfl
  · rfl
  · rfl
  · rename_i hbackslash
    split
    · rename_i hc
      obtain rfl | rfl : mark = '"' ∨ mark = '\'' := by simpa [isMark] using hmark
      · rw [hc]; rfl
      · rw [hc]; rfl
    · split
      · simpa using readChar?_hexCode c rest
      · exact readChar?_cons hbackslash rest

theorem escapeChar_append_inj {mark : Char} (hmark : isMark mark = true) {c d : Char}
    {r s : List Char} (h : Text.escapeChar mark c ++ r = Text.escapeChar mark d ++ s) :
    c = d ∧ r = s := by
  have hread := congrArg readChar? h
  rw [readChar?_escapeChar hmark, readChar?_escapeChar hmark] at hread
  simpa using hread

/-- The form of a character does not begin with the quote. -/
theorem head?_escapeChar_ne {mark : Char} (hmark : isMark mark = true) (c : Char) (rest : List Char) :
    (Text.escapeChar mark c ++ rest).head? ≠ some mark := by
  have hbackslash : some '\\' ≠ some mark := by
    rintro ⟨⟩
    cases hmark
  unfold Text.escapeChar
  split
  · exact hbackslash
  · exact hbackslash
  · exact hbackslash
  · exact hbackslash
  · exact hbackslash
  · split
    · exact hbackslash
    · rename_i hc
      split
      · exact hbackslash
      · exact fun h => hc (Option.some.inj h)

/-! ## Texts -/

/-- What stands between quotes is read up to the second quote. -/
theorem quoted_inj {mark : Char} (hmark : isMark mark = true) {text text' r s : List Char}
    (h : text.flatMap (Text.escapeChar mark) ++ mark :: r
      = text'.flatMap (Text.escapeChar mark) ++ mark :: s) : text = text' ∧ r = s := by
  induction text generalizing text' with
  | nil =>
    cases text' with
    | nil => exact ⟨rfl, (List.cons.inj h).2⟩
    | cons d text' =>
      rw [List.flatMap_cons, List.append_assoc] at h
      exact absurd (congrArg List.head? h).symm (head?_escapeChar_ne hmark d _)
  | cons c text ih =>
    rw [List.flatMap_cons, List.append_assoc] at h
    cases text' with
    | nil => exact absurd (congrArg List.head? h) (head?_escapeChar_ne hmark c _)
    | cons d text' =>
      rw [List.flatMap_cons, List.append_assoc] at h
      obtain ⟨rfl, hrest⟩ := escapeChar_append_inj hmark h
      obtain ⟨rfl, heq⟩ := ih hrest
      exact ⟨rfl, heq⟩

theorem tells_string (a b : String) : Tells (string a) (string b) (a = b) := by
  intro r s _ _ h
  have hquoted : a.toList.flatMap (Text.escapeChar '"') ++ '"' :: r
      = b.toList.flatMap (Text.escapeChar '"') ++ '"' :: s := by
    simpa [string, Text.quote] using h
  exact (quoted_inj rfl hquoted).imp_left String.toList_inj.1

theorem tells_char (a b : Char) : Tells (char a) (char b) (a = b) := by
  intro r s _ _ h
  have hquoted : [a].flatMap (Text.escapeChar '\'') ++ '\'' :: r
      = [b].flatMap (Text.escapeChar '\'') ++ '\'' :: s := by
    simpa [char, Text.quoteChar] using h
  exact (quoted_inj rfl hquoted).imp_left List.singleton_inj.1

theorem opens_string (a : String) : Opens (string a) :=
  ⟨'"', by simp [string, Text.quote], by decide⟩

end CodeTree.Inspect
