import CodeTree.Text.Hidden

/-!
# Quoted text

Strings and characters inside debug texts stand between quotes. A quote of the same kind, a backslash
and four controls are escaped by a letter; every other character that would not be seen is written
by its code in hexadecimal.

* `escapeChar` is the form of one character, given the quote around it.
* `quote` and `quoteChar` write a string between `"` and a character between `'`.
-/

namespace CodeTree.Text

set_option autoImplicit false

/-- A code in lower case hexadecimal without leading zeros. -/
def hexCode (c : Char) : List Char := Nat.toDigits 16 c.toNat

/-- The form of one character inside quotes of the given kind. -/
def escapeChar (mark : Char) (c : Char) : List Char :=
  match c with
  | '\x00' => ['\\', '0']
  | '\t' => ['\\', 't']
  | '\r' => ['\\', 'r']
  | '\n' => ['\\', 'n']
  | '\\' => ['\\', '\\']
  | c =>
    if c = mark then
      ['\\', c]
    else if isHidden c then
      ['\\', 'u', '{'] ++ hexCode c ++ ['}']
    else
      [c]

def quote (s : String) : String :=
  String.ofList ('"' :: s.toList.flatMap (escapeChar '"') ++ ['"'])

def quoteChar (c : Char) : String :=
  String.ofList ('\'' :: escapeChar '\'' c ++ ['\''])

end CodeTree.Text
