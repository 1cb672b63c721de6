import CodeTree.Proofs.Lexical.Numerals

/-! # Names

A name is a letter or an underscore followed by letters, underscores and digits.

* `isIdentifier`: whether a text is a name. -/

namespace CodeTree.Lua

set_option autoImplicit false

def isLetter (c : Char) : Bool := c.isAlpha || c == '_'

def isWordChar (c : Char) : Bool := isLetter c || c.isDigit

/-- Whether a text has the form of a name. Reserved words have it, too. -/
def isIdentifier (name : String) : Bool :=
  match name.toList with
  | [] => false
  | c :: cs => isLetter c && cs.all isWordChar

theorem exists_of_isIdentifier {name : String} (h : isIdentifier name) :
    ∃ c cs, name.toList = c :: cs ∧ isLetter c = true ∧ ∀ d ∈ cs, isWordChar d = true := by
  unfold isIdentifier at h
  split at h
  · exact nomatch h
  · rename_i c cs hname
    rw [Bool.and_eq_true, List.all_eq_true] at h
    exact ⟨c, cs, hname, h⟩

theorem isWordChar_of_isLetter {c : Char} (h : isLetter c = true) : isWordChar c = true := by
  simp [isWordChar, h]

theorem isWordChar_of_isDigit {c : Char} (h : c.isDigit = true) : isWordChar c = true := by
  simp [isWordChar, h]

theorem isWordChar_of_mem {name : String} (h : isIdentifier name) {c : Char} (hc : c ∈ name.toList) :
    isWordChar c = true := by
  obtain ⟨d, ds, hname, hd, hds⟩ := exists_of_isIdentifier h
  rw [hname] at hc
  rcases List.mem_cons.1 hc with rfl | hc
  · exact isWordChar_of_isLetter hd
  · exact hds c hc

end CodeTree.Lua
