import CodeTree.Proofs.Lexical.Quoted
import CodeTree.Proofs.Lexical.Words

/-! # The tokens of Lua

A text is cut into tokens from its start. The token that is being read grows as long as the next
character belongs to it, and white space between tokens is dropped. A comment, a long bracket, a number
that begins with a point, an open string and a character that no token contains make the rest of the text
one invalid token. Other numbers are read in the two forms that the emitter writes, digits and digits with
a point; a hexadecimal number or one with an exponent is an invalid token, and reading goes on behind it.

* `Token`: keywords, names, numerals, strings and marks.
* `lex`: the tokens of a text. -/

namespace CodeTree.Lua

set_option autoImplicit false

inductive Keyword
  | andWord | breakWord | doWord | elseWord | elseifWord | endWord | falseWord | forWord
  | functionWord | gotoWord | ifWord | inWord | localWord | nilWord | notWord | orWord | repeatWord
  | returnWord | thenWord | trueWord | untilWord | whileWord
  deriving DecidableEq

namespace Keyword

def all : List Keyword :=
  [andWord, breakWord, doWord, elseWord, elseifWord, endWord, falseWord, forWord, functionWord,
   gotoWord, ifWord, inWord, localWord, nilWord, notWord, orWord, repeatWord, returnWord, thenWord,
   trueWord, untilWord, whileWord]

def text : Keyword → String
  | andWord => "and"
  | breakWord => "break"
  | doWord => "do"
  | elseWord => "else"
  | elseifWord => "elseif"
  | endWord => "end"
  | falseWord => "false"
  | forWord => "for"
  | functionWord => "function"
  | gotoWord => "goto"
  | ifWord => "if"
  | inWord => "in"
  | localWord => "local"
  | nilWord => "nil"
  | notWord => "not"
  | orWord => "or"
  | repeatWord => "repeat"
  | returnWord => "return"
  | thenWord => "then"
  | trueWord => "true"
  | untilWord => "until"
  | whileWord => "while"

def ofText? (word : String) : Option Keyword := all.find? (·.text == word)

end Keyword

/-- Whether a text is a name that is not reserved. -/
def isName (text : String) : Bool := isIdentifier text && (Keyword.ofText? text).isNone

inductive Mark
  | plus | minus | star | slash | percent | caret | hash | ampersand | tilde | bar | shiftLeft
  | shiftRight | doubleSlash | equal | notEqual | lessEqual | greaterEqual | less | greater | assign
  | leftParen | rightParen | leftBrace | rightBrace | leftBracket | rightBracket | doubleColon
  | semicolon | colon | comma | dot | concat | ellipsis
  deriving DecidableEq

namespace Mark

def ofChar? : Char → Option Mark
  | '+' => some plus
  | '-' => some minus
  | '*' => some star
  | '/' => some slash
  | '%' => some percent
  | '^' => some caret
  | '#' => some hash
  | '&' => some ampersand
  | '~' => some tilde
  | '|' => some bar
  | '<' => some less
  | '>' => some greater
  | '=' => some assign
  | '(' => some leftParen
  | ')' => some rightParen
  | '\x7b' => some leftBrace
  | '\x7d' => some rightBrace
  | '[' => some leftBracket
  | ']' => some rightBracket
  | ';' => some semicolon
  | ':' => some colon
  | ',' => some comma
  | '.' => some dot
  | _ => none

def grow? : Mark → Char → Option Mark
  | slash, '/' => some doubleSlash
  | less, '<' => some shiftLeft
  | less, '=' => some lessEqual
  | greater, '>' => some shiftRight
  | greater, '=' => some greaterEqual
  | assign, '=' => some equal
  | tilde, '=' => some notEqual
  | colon, ':' => some doubleColon
  | dot, '.' => some concat
  | concat, '.' => some ellipsis
  | _, _ => none

/-- Whether a mark and one more character open what is not read here: comments, long brackets and
numbers that begin with a point. -/
def goesWrong : Mark → Char → Bool
  | minus, '-' => true
  | leftBracket, '[' => true
  | leftBracket, '=' => true
  | dot, c => c.isDigit
  | _, _ => false

end Mark

/-- A token. Of a string it has the value and not the spelling. -/
inductive Token
  | keyword (word : Keyword)
  | name (text : String)
  | numeral (text : String)
  | string (value : List UInt8)
  | mark (mark : Mark)
  | invalid
  deriving DecidableEq

def Token.ofWord (word : String) : Token :=
  match Keyword.ofText? word with
  | some reserved => .keyword reserved
  | none => .name word

/-- Whether a text that begins with a digit is a numeral: digits, or digits on both sides of a
point. -/
def isNumeral (text : List Char) : Bool :=
  match text.dropWhile Char.isDigit with
  | [] => true
  | c :: fraction => c == '.' && !fraction.isEmpty && fraction.all Char.isDigit

/-- The part of a token that has been read, or no token yet. -/
inductive Lexeme
  | blank
  | word (text : List Char)
  | numeral (text : List Char)
  | mark (mark : Mark)
  | string (quote : Char) (reading : Reading)
  | invalid

namespace Lexeme

def isBlank (c : Char) : Bool := c == ' ' || c == '\n' || c == '\t' || c == '\r'

def start (c : Char) : Lexeme :=
  if isBlank c then blank
  else if isLetter c then word [c]
  else if c.isDigit then numeral [c]
  else if c == '"' || c == '\'' then string c (.plain [])
  else match Mark.ofChar? c with
    | some m => mark m
    | none => invalid

def grow? : Lexeme → Char → Option Lexeme
  | blank, _ => none
  | word text, c => if isWordChar c then some (word (text ++ [c])) else none
  | numeral text, c => if isWordChar c || c == '.' then some (numeral (text ++ [c])) else none
  | mark m, c => if m.goesWrong c then some invalid else (m.grow? c).map mark
  | string _ (.closed _), _ => none
  | string quote reading, c => some (string quote (reading.step quote c))
  | invalid, _ => some invalid

def tokens : Lexeme → List Token
  | blank => []
  | word text => [.ofWord (String.ofList text)]
  | numeral text => if isNumeral text then [.numeral (String.ofList text)] else [.invalid]
  | mark m => [.mark m]
  | string _ (.closed value) => [.string value]
  | string _ _ => [.invalid]
  | invalid => [.invalid]

end Lexeme

/-- The tokens of a text whose first token has been read in part. -/
def lexFrom : Lexeme → List Char → List Token
  | l, [] => l.tokens
  | l, c :: cs =>
    match l.grow? c with
    | some l => lexFrom l cs
    | none => l.tokens ++ lexFrom (.start c) cs

/-- The tokens of a text. -/
def lex (text : List Char) : List Token := lexFrom .blank text

/-! ## Lemmas -/

@[simp] theorem lex_nil : lex [] = [] := rfl

theorem lexFrom_grow {l l' : Lexeme} {c : Char} (h : l.grow? c = some l') (text : List Char) :
    lexFrom l (c :: text) = lexFrom l' text := by
  rw [lexFrom, h]

theorem lexFrom_of_grow? {l : Lexeme} {text : List Char} (h : ∀ c ∈ text.head?, l.grow? c = none) :
    lexFrom l text = l.tokens ++ lex text := by
  cases text with
  | nil => simp [lexFrom]
  | cons c cs =>
    rw [lexFrom, h c (by simp)]
    rfl

theorem lexFrom_word (text cs rest : List Char) (h : ∀ c ∈ cs, isWordChar c = true) :
    lexFrom (.word text) (cs ++ rest) = lexFrom (.word (text ++ cs)) rest := by
  induction cs generalizing text with
  | nil => simp
  | cons c cs ih =>
    have hgrow : (Lexeme.word text).grow? c = some (.word (text ++ [c])) := if_pos (h c (by simp))
    rw [List.cons_append, lexFrom_grow hgrow, ih (text ++ [c]) fun d hd => h d (List.mem_cons_of_mem c hd)]
    simp

theorem lexFrom_numeral (text cs rest : List Char)
    (h : ∀ c ∈ cs, (isWordChar c || c == '.') = true) :
    lexFrom (.numeral text) (cs ++ rest) = lexFrom (.numeral (text ++ cs)) rest := by
  induction cs generalizing text with
  | nil => simp
  | cons c cs ih =>
    have hgrow : (Lexeme.numeral text).grow? c = some (.numeral (text ++ [c])) := if_pos (h c (by simp))
    rw [List.cons_append, lexFrom_grow hgrow, ih (text ++ [c]) fun d hd => h d (List.mem_cons_of_mem c hd)]
    simp

/-- A string that is closed is one token, whatever follows. -/
theorem lexFrom_string {quote : Char} {value : List UInt8} {cs : List Char} {r : Reading}
    (hr : ∀ b, r ≠ .closed b) (h : cs.foldl (Reading.step quote) r = .closed value)
    (rest : List Char) : lexFrom (.string quote r) (cs ++ rest) = .string value :: lex rest := by
  induction cs generalizing r with
  | nil => exact absurd h (hr value)
  | cons c cs ih =>
    have hgrow : (Lexeme.string quote r).grow? c = some (.string quote (r.step quote c)) := by
      cases r with
      | closed b => exact absurd rfl (hr b)
      | _ => rfl
    rw [List.cons_append, lexFrom_grow hgrow]
    rw [List.foldl_cons] at h
    by_cases hclosed : ∃ b, r.step quote c = .closed b
    · obtain ⟨b, hb⟩ := hclosed
      obtain ⟨rfl, rfl⟩ := Reading.eq_of_foldl_closed (hb ▸ h)
      have hclosed : ∀ d ∈ rest.head?, (Lexeme.string quote (.closed b)).grow? d = none :=
        fun _ _ => rfl
      rw [hb, List.nil_append, lexFrom_of_grow? hclosed]
      rfl
    · exact ih (fun b hb => hclosed ⟨b, hb⟩) h

end CodeTree.Lua
