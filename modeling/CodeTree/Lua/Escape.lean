/-!
# Lua strings

The text of a Lua string stands between double quotes on one line. Backslashes, double quotes and the
line and tab controls are escaped by a letter, the other controls by their code in three decimal
digits, so that a digit that follows is not read as part of the code. All else stands as it is.

* `escapeChar` is the form of one character.
* `quote` is the literal of a string.
-/

namespace CodeTree.Lua

set_option autoImplicit false

/-- The decimal digit of a number below ten. -/
def decimalDigit (n : Nat) : Char := Char.ofNat (48 + n)

/-- A code as a backslash and three decimal digits. -/
def decimalEscape (code : Nat) : List Char :=
  ['\\', decimalDigit (code / 100 % 10), decimalDigit (code / 10 % 10), decimalDigit (code % 10)]

/-- The form of one character in a string literal. -/
def escapeChar (c : Char) : List Char :=
  match c with
  | '\\' => ['\\', '\\']
  | '"' => ['\\', '"']
  | '\n' => ['\\', 'n']
  | '\r' => ['\\', 'r']
  | '\t' => ['\\', 't']
  | c => if c.toNat < 0x20 ∨ c.toNat = 0x7F then decimalEscape c.toNat else [c]

def escape (s : String) : String := String.ofList (s.toList.flatMap escapeChar)

def quote (s : String) : String := "\"" ++ escape s ++ "\""

end CodeTree.Lua
