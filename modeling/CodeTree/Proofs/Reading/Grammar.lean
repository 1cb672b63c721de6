import CodeTree.Proofs.Reading.Token

/-! # The grammar of Lua

Syntax trees of Lua, the tokens they are spelled with, and the recursive descent that reads them back.
Expressions are read with the priorities of Lua's reference implementation: an operator takes the
operand on its right as far as operators bind tighter than it does. A syntax tree says where the
parentheses stand. The names of variables can carry more than their text.

Not every production is here. Loops, `goto`, functions with a name, variable arguments and assignments
to several variables are not read, and neither are fields of tables by name.

* `Exp` and `Stat` are the syntax trees, `Exp.tokens` and `Stat.tokens` their spelling.
* `List.parseExp`, `List.parseStatement` and `List.parseBlock` read tokens.
* `readExpression`: the expression that a whole text is. -/

namespace CodeTree.Lua

set_option autoImplicit false

/-! ## Operators -/

/-- Operators before an operand. A text that is no operator of Lua is kept as it is. -/
inductive UnaryOp
  | minus | not | length | complement
  | custom (text : String)
  deriving DecidableEq

/-- Operators between operands. A text that is no operator of Lua is kept as it is. -/
inductive BinaryOp
  | or | and | less | greater | lessEqual | greaterEqual | notEqual | equal | bitOr | bitXor | bitAnd
  | shiftLeft | shiftRight | concat | add | subtract | multiply | divide | floorDivide | modulo | power
  | custom (text : String)
  deriving DecidableEq

namespace UnaryOp

def token : UnaryOp → Token
  | minus => .mark .minus
  | not => .keyword .notWord
  | length => .mark .hash
  | complement => .mark .tilde
  | custom _ => .invalid

def ofToken? : Token → Option UnaryOp
  | .mark .minus => some minus
  | .keyword .notWord => some not
  | .mark .hash => some length
  | .mark .tilde => some complement
  | _ => none

/-- The priority of all operators before an operand. -/
def priority : Nat := 12

def isCustom : UnaryOp → Bool
  | custom _ => true
  | _ => false

theorem ofToken?_token {op : UnaryOp} (h : op.isCustom = false) : ofToken? op.token = some op := by
  cases op <;> first | rfl | exact nomatch h

end UnaryOp

namespace BinaryOp

def token : BinaryOp → Token
  | or => .keyword .orWord
  | and => .keyword .andWord
  | less => .mark .less
  | greater => .mark .greater
  | lessEqual => .mark .lessEqual
  | greaterEqual => .mark .greaterEqual
  | notEqual => .mark .notEqual
  | equal => .mark .equal
  | bitOr => .mark .bar
  | bitXor => .mark .tilde
  | bitAnd => .mark .ampersand
  | shiftLeft => .mark .shiftLeft
  | shiftRight => .mark .shiftRight
  | concat => .mark .concat
  | add => .mark .plus
  | subtract => .mark .minus
  | multiply => .mark .star
  | divide => .mark .slash
  | floorDivide => .mark .doubleSlash
  | modulo => .mark .percent
  | power => .mark .caret
  | custom _ => .invalid

def ofToken? : Token → Option BinaryOp
  | .keyword .orWord => some or
  | .keyword .andWord => some and
  | .mark .less => some less
  | .mark .greater => some greater
  | .mark .lessEqual => some lessEqual
  | .mark .greaterEqual => some greaterEqual
  | .mark .notEqual => some notEqual
  | .mark .equal => some equal
  | .mark .bar => some bitOr
  | .mark .tilde => some bitXor
  | .mark .ampersand => some bitAnd
  | .mark .shiftLeft => some shiftLeft
  | .mark .shiftRight => some shiftRight
  | .mark .concat => some concat
  | .mark .plus => some add
  | .mark .minus => some subtract
  | .mark .star => some multiply
  | .mark .slash => some divide
  | .mark .doubleSlash => some floorDivide
  | .mark .percent => some modulo
  | .mark .caret => some power
  | _ => none

def left : BinaryOp → Nat
  | or => 1
  | and => 2
  | less | greater | lessEqual | greaterEqual | notEqual | equal => 3
  | bitOr => 4
  | bitXor => 5
  | bitAnd => 6
  | shiftLeft | shiftRight => 7
  | concat => 9
  | add | subtract => 10
  | multiply | divide | floorDivide | modulo => 11
  | power => 14
  | custom _ => 0

def right : BinaryOp → Nat
  | concat => 8
  | power => 13
  | op => op.left

def isCustom : BinaryOp → Bool
  | custom _ => true
  | _ => false

theorem ofToken?_token {op : BinaryOp} (h : op.isCustom = false) : ofToken? op.token = some op := by
  cases op <;> first | rfl | exact nomatch h

theorem left_pos {op : BinaryOp} (h : op.isCustom = false) : 0 < op.left := by
  cases op <;> first | decide | exact nomatch h

end BinaryOp

/-! ## Syntax trees -/

mutual

/-- An expression. Strings have values, numerals have texts. -/
inductive Exp (ν : Type)
  | nil
  | boolean (value : Bool)
  | numeral (text : String)
  | string (value : List UInt8)
  | name (name : ν)
  | field (x : Exp ν) (member : String)
  | index (x key : Exp ν)
  | call (function : Exp ν) (arguments : List (Exp ν))
  | invoke (x : Exp ν) (member : String) (arguments : List (Exp ν))
  | paren (x : Exp ν)
  | unary (op : UnaryOp) (x : Exp ν)
  | binary (op : BinaryOp) (x y : Exp ν)
  | table (fields : List (TableField ν))
  | function (parameters : List ν) (body : List (Stat ν))

inductive TableField (ν : Type)
  | item (value : Exp ν)
  | keyed (key value : Exp ν)

/-- A statement. A conditional without an alternative has an empty one. -/
inductive Stat (ν : Type)
  | empty
  | declare (name : ν) (attrib : Option String) (values : List (Exp ν))
  | assign (target value : Exp ν)
  | call (x : Exp ν)
  | block (body : List (Stat ν))
  | conditional (condition : Exp ν) (consequence alternative : List (Stat ν))
  | result (values : List (Exp ν))

end

namespace Exp

variable {ν : Type}

/-- Whether accesses and calls can follow: names, accesses, calls and parentheses. -/
def isPrefix : Exp ν → Bool
  | name _ | field _ _ | index _ _ | call _ _ | invoke _ _ _ | paren _ => true
  | _ => false

def isCall : Exp ν → Bool
  | call _ _ | invoke _ _ _ => true
  | _ => false

/-- Whether an expression can be assigned to. -/
def isVariable : Exp ν → Bool
  | name _ | field _ _ | index _ _ => true
  | _ => false

def opensParen : Exp ν → Bool
  | paren _ => true
  | field x _ | index x _ | call x _ | invoke x _ _ => x.opensParen
  | binary _ x _ => x.opensParen
  | _ => false

end Exp

def Stat.opensParen {ν : Type} : List (Stat ν) → Bool
  | .assign target _ :: _ => target.opensParen
  | .call x :: _ => x.opensParen
  | _ => false

/-! ## Spelling -/

section Spelling

variable {ν : Type} (text : ν → String)

def tokensNames : (isFirst : Bool) → List ν → List Token
  | _, [] => []
  | true, n :: ns => .name (text n) :: tokensNames false ns
  | false, n :: ns => .mark .comma :: .name (text n) :: tokensNames false ns

def tokensAttribute : Option String → List Token
  | none => []
  | some attrib => [.mark .less, .name attrib, .mark .greater]

mutual

def Exp.tokens : Exp ν → List Token
  | .nil => [.keyword .nilWord]
  | .boolean value => [.keyword (if value then .trueWord else .falseWord)]
  | .numeral text => [.numeral text]
  | .string value => [.string value]
  | .name n => [.name (text n)]
  | .field x member => x.tokens ++ [.mark .dot, .name member]
  | .index x key => x.tokens ++ .mark .leftBracket :: key.tokens ++ [.mark .rightBracket]
  | .call f arguments =>
    f.tokens ++ .mark .leftParen :: tokensExps true arguments ++ [.mark .rightParen]
  | .invoke x member arguments =>
    x.tokens ++ .mark .colon :: .name member :: .mark .leftParen :: tokensExps true arguments
      ++ [.mark .rightParen]
  | .paren x => .mark .leftParen :: x.tokens ++ [.mark .rightParen]
  | .unary op x => op.token :: x.tokens
  | .binary op x y => x.tokens ++ op.token :: y.tokens
  | .table fields => .mark .leftBrace :: tokensFields true fields ++ [.mark .rightBrace]
  | .function parameters body =>
    .keyword .functionWord :: .mark .leftParen :: tokensNames text true parameters
      ++ .mark .rightParen :: tokensStats body ++ [.keyword .endWord]

def tokensExps : (isFirst : Bool) → List (Exp ν) → List Token
  | _, [] => []
  | true, x :: xs => x.tokens ++ tokensExps false xs
  | false, x :: xs => .mark .comma :: x.tokens ++ tokensExps false xs

def TableField.tokens : TableField ν → List Token
  | .item value => value.tokens
  | .keyed key value =>
    .mark .leftBracket :: key.tokens ++ .mark .rightBracket :: .mark .assign :: value.tokens

def tokensFields : (isFirst : Bool) → List (TableField ν) → List Token
  | _, [] => []
  | true, f :: fs => f.tokens ++ tokensFields false fs
  | false, f :: fs => .mark .comma :: f.tokens ++ tokensFields false fs

def Stat.tokens : Stat ν → List Token
  | .empty => [.mark .semicolon]
  | .declare n attrib [] =>
    .keyword .localWord :: .name (text n) :: tokensAttribute attrib
  | .declare n attrib (x :: xs) =>
    .keyword .localWord :: .name (text n) :: tokensAttribute attrib
      ++ .mark .assign :: x.tokens ++ tokensExps false xs
  | .assign target value => target.tokens ++ .mark .assign :: value.tokens
  | .call x => x.tokens
  | .block body => .keyword .doWord :: tokensStats body ++ [.keyword .endWord]
  | .conditional condition consequence [] =>
    .keyword .ifWord :: condition.tokens ++ .keyword .thenWord :: tokensStats consequence
      ++ [.keyword .endWord]
  | .conditional condition consequence (s :: alternative) =>
    .keyword .ifWord :: condition.tokens ++ .keyword .thenWord :: tokensStats consequence
      ++ .keyword .elseWord :: s.tokens ++ tokensStats alternative ++ [.keyword .endWord]
  | .result values => .keyword .returnWord :: tokensExps true values

def tokensStats : List (Stat ν) → List Token
  | [] => []
  | s :: statements => s.tokens ++ tokensStats statements

end

end Spelling

/-! ## Reading -/

/-- The rest behind a fixed token. -/
def expect (token : Token) : List Token → Option (List Token)
  | [] => none
  | t :: rest => if t = token then some rest else none

def endsBlock : Token → Bool
  | .keyword .endWord | .keyword .elseWord | .keyword .elseifWord | .keyword .untilWord => true
  | _ => false

def isBlockEnd : List Token → Bool
  | [] => true
  | t :: _ => endsBlock t

/-- A semicolon may stand behind a return. -/
def skipSemicolon : List Token → List Token
  | .mark .semicolon :: rest => rest
  | tokens => tokens

def parseNames : (isFirst : Bool) → List Token → Option (List String × List Token)
  | true, .mark .rightParen :: rest => some ([], rest)
  | true, .name n :: rest => (parseNames false rest).map fun (ns, rest) => (n :: ns, rest)
  | false, .mark .rightParen :: rest => some ([], rest)
  | false, .mark .comma :: .name n :: rest =>
    (parseNames false rest).map fun (ns, rest) => (n :: ns, rest)
  | _, _ => none

def parseAttribute : List Token → Option String × List Token
  | .mark .less :: .name attrib :: .mark .greater :: rest => (some attrib, rest)
  | tokens => (none, tokens)

end CodeTree.Lua

namespace List

open CodeTree.Lua

mutual

/-- An expression whose operators bind tighter than `limit`. -/
def parseExp (limit : Nat) (tokens : List Token) : Option (Exp String × List Token) := do
  let (x, rest) ← tokens |>.parseOperand
  rest |>.parseTail limit x
partial_fixpoint

def parseOperand (tokens : List Token) : Option (Exp String × List Token) :=
  match tokens with
  | [] => none
  | t :: rest =>
    match UnaryOp.ofToken? t with
    | some op => do
      let (x, rest) ← rest |>.parseExp UnaryOp.priority
      some (.unary op x, rest)
    | none => rest |>.parseSimple t
partial_fixpoint

/-- The operators behind `x` that bind tighter than `limit`, with their right operands. -/
def parseTail (limit : Nat) (x : Exp String) (tokens : List Token) :
    Option (Exp String × List Token) :=
  match tokens with
  | [] => some (x, [])
  | t :: rest =>
    match BinaryOp.ofToken? t with
    | none => some (x, t :: rest)
    | some op =>
      if limit < op.left then do
        let (y, rest) ← rest |>.parseExp op.right
        rest |>.parseTail limit (.binary op x y)
      else some (x, t :: rest)
partial_fixpoint

/-- An expression without operators at its top, by its first token. -/
def parseSimple (t : Token) (tokens : List Token) : Option (Exp String × List Token) :=
  match t with
  | .keyword .nilWord => some (.nil, tokens)
  | .keyword .trueWord => some (.boolean true, tokens)
  | .keyword .falseWord => some (.boolean false, tokens)
  | .numeral text => some (.numeral text, tokens)
  | .string value => some (.string value, tokens)
  | .mark .leftBrace => do
    let (fields, rest) ← tokens |>.parseFields
    some (.table fields, rest)
  | .keyword .functionWord => do
    let rest ← expect (.mark .leftParen) tokens
    let (parameters, rest) ← parseNames true rest
    let (body, rest) ← rest |>.parseBlock
    let rest ← expect (.keyword .endWord) rest
    some (.function parameters body, rest)
  | t => tokens |>.parsePrefix t
partial_fixpoint

/-- A name or an expression in parentheses, with the accesses and calls behind it. -/
def parsePrefix (t : Token) (tokens : List Token) : Option (Exp String × List Token) :=
  match t with
  | .name n => tokens |>.parseSuffixes (.name n)
  | .mark .leftParen => do
    let (x, rest) ← tokens |>.parseExp 0
    let rest ← expect (.mark .rightParen) rest
    rest |>.parseSuffixes (.paren x)
  | _ => none
partial_fixpoint

def parseSuffixes (x : Exp String) (tokens : List Token) : Option (Exp String × List Token) :=
  match tokens with
  | .mark .dot :: .name member :: rest => rest |>.parseSuffixes (.field x member)
  | .mark .leftBracket :: rest => do
    let (key, rest) ← rest |>.parseExp 0
    let rest ← expect (.mark .rightBracket) rest
    rest |>.parseSuffixes (.index x key)
  | .mark .colon :: .name member :: .mark .leftParen :: rest => do
    let (arguments, rest) ← rest |>.parseArguments
    rest |>.parseSuffixes (.invoke x member arguments)
  | .mark .leftParen :: rest => do
    let (arguments, rest) ← rest |>.parseArguments
    rest |>.parseSuffixes (.call x arguments)
  | .string value :: rest => rest |>.parseSuffixes (.call x [.string value])
  | .mark .leftBrace :: rest => do
    let (fields, rest) ← rest |>.parseFields
    rest |>.parseSuffixes (.call x [.table fields])
  | tokens => some (x, tokens)
partial_fixpoint

def parseArguments (tokens : List Token) : Option (List (Exp String) × List Token) :=
  match tokens with
  | .mark .rightParen :: rest => some ([], rest)
  | tokens => do
    let (x, rest) ← tokens |>.parseExp 0
    let (xs, rest) ← rest |>.parseMore
    let rest ← expect (.mark .rightParen) rest
    some (x :: xs, rest)
partial_fixpoint

/-- Further expressions, each behind a comma. -/
def parseMore (tokens : List Token) : Option (List (Exp String) × List Token) :=
  match tokens with
  | .mark .comma :: rest => do
    let (x, rest) ← rest |>.parseExp 0
    let (xs, rest) ← rest |>.parseMore
    some (x :: xs, rest)
  | tokens => some ([], tokens)
partial_fixpoint

def parseFields (tokens : List Token) : Option (List (TableField String) × List Token) :=
  match tokens with
  | .mark .rightBrace :: rest => some ([], rest)
  | tokens => do
    let (f, rest) ← tokens |>.parseField
    match rest with
    | .mark .comma :: rest => do
      let (fs, rest) ← rest |>.parseFields
      some (f :: fs, rest)
    | .mark .semicolon :: rest => do
      let (fs, rest) ← rest |>.parseFields
      some (f :: fs, rest)
    | .mark .rightBrace :: rest => some ([f], rest)
    | _ => none
partial_fixpoint

def parseField (tokens : List Token) : Option (TableField String × List Token) :=
  match tokens with
  | .mark .leftBracket :: rest => do
    let (key, rest) ← rest |>.parseExp 0
    let rest ← expect (.mark .rightBracket) rest
    let rest ← expect (.mark .assign) rest
    let (value, rest) ← rest |>.parseExp 0
    some (.keyed key value, rest)
  | tokens => do
    let (value, rest) ← tokens |>.parseExp 0
    some (.item value, rest)
partial_fixpoint

/-- The statements of a block; a return is the last one. -/
def parseBlock (tokens : List Token) : Option (List (Stat String) × List Token) :=
  match tokens with
  | [] => some ([], [])
  | t :: rest =>
    if endsBlock t then some ([], t :: rest)
    else if t = .keyword .returnWord then do
      let (values, rest) ← rest |>.parseResults
      let rest := skipSemicolon rest
      if isBlockEnd rest then some ([.result values], rest) else none
    else do
      let (s, rest) ← rest |>.parseStatement t
      let (statements, rest) ← rest |>.parseBlock
      some (s :: statements, rest)
partial_fixpoint

def parseResults (tokens : List Token) : Option (List (Exp String) × List Token) :=
  match tokens with
  | [] => some ([], [])
  | t :: rest =>
    if endsBlock t || t = .mark .semicolon then some ([], t :: rest)
    else do
      let (x, rest) ← (t :: rest) |>.parseExp 0
      let (xs, rest) ← rest |>.parseMore
      some (x :: xs, rest)
partial_fixpoint

def parseStatement (t : Token) (tokens : List Token) : Option (Stat String × List Token) :=
  match t with
  | .mark .semicolon => some (.empty, tokens)
  | .keyword .doWord => do
    let (body, rest) ← tokens |>.parseBlock
    let rest ← expect (.keyword .endWord) rest
    some (.block body, rest)
  | .keyword .ifWord => do
    let (condition, rest) ← tokens |>.parseExp 0
    let rest ← expect (.keyword .thenWord) rest
    let (consequence, rest) ← rest |>.parseBlock
    match rest with
    | .keyword .elseWord :: rest => do
      let (alternative, rest) ← rest |>.parseBlock
      let rest ← expect (.keyword .endWord) rest
      some (.conditional condition consequence alternative, rest)
    | rest => do
      let rest ← expect (.keyword .endWord) rest
      some (.conditional condition consequence [], rest)
  | .keyword .localWord =>
    match tokens with
    | .name n :: rest =>
      let (attrib, rest) := parseAttribute rest
      match rest with
      | .mark .assign :: rest => do
        let (x, rest) ← rest |>.parseExp 0
        let (xs, rest) ← rest |>.parseMore
        some (.declare n attrib (x :: xs), rest)
      | rest => some (.declare n attrib [], rest)
    | _ => none
  | t => do
    let (x, rest) ← tokens |>.parsePrefix t
    match rest with
    | .mark .assign :: rest =>
      if x.isVariable then do
        let (value, rest) ← rest |>.parseExp 0
        some (.assign x value, rest)
      else none
    | rest => if x.isCall then some (.call x, rest) else none
partial_fixpoint

end

end List

namespace CodeTree.Lua

/-- The expression that a whole text is. -/
def readExpression (text : String) : Option (Exp String) :=
  match lex text.toList |>.parseExp 0 with
  | some (x, []) => some x
  | _ => none

end CodeTree.Lua
