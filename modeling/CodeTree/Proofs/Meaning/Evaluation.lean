import CodeTree.Proofs.Meaning.Scalar
import CodeTree.Proofs.Reading.Grammar

/-! # Evaluation of Lua

An evaluator for the syntax trees of Lua, as far as they compute with nil, truth values and 64-bit
integers and call functions. Functions are values with the scope they are written in. Integers wrap
around, `//` goes toward negative infinity, `math.fmod` leaves the remainder of the division toward
zero, and both fail for a zero divisor. A numeral above the largest integer is a floating point number.

What is left out is undefined: floating point numbers, strings, tables other than `math`, comparisons of
functions, and assignments. Syntax trees are evaluated by recursion on them, and calls by recursion on
how deep they may be nested; an evaluation that nests them deeper has not ended.

* `Value`, `Run`: values and evaluations.
* `evalExp`, `evalStats` and `apply`: expressions, statements and calls.
* `globals`: the scope in which nothing but the library and some scalars are bound. -/

namespace CodeTree.Lua

set_option autoImplicit false

/-- The values of Lua. Of the library there are the table `math` and its function `fmod`. -/
inductive Value
  | nil
  | boolean (value : Bool)
  | integer (value : Int64)
  | math
  | fmod
  | closure (parameters : List String) (body : List (Stat String)) (scope : String → Value)

/-- An evaluation that ends with a value, fails, or has not ended. -/
abbrev Run := ExceptT Fault Option

namespace Value

/-- All values but nil and false are true. -/
def isTrue : Value → Bool
  | nil | boolean false => false
  | _ => true

def equals : Value → Value → Run Bool
  | integer a, integer b => pure (decide (a = b))
  | boolean a, boolean b => pure (decide (a = b))
  | nil, nil => pure true
  | nil, integer _ | nil, boolean _ | integer _, nil | boolean _, nil | integer _, boolean _
  | boolean _, integer _ => pure false
  | _, _ => throw .undefined

def ofScalar : Scalar → Value
  | .integer value => integer value
  | .boolean value => boolean value

def member : Value → String → Run Value
  | math, "mininteger" => pure (integer Int64.minValue)
  | math, "fmod" => pure fmod
  | _, _ => throw .undefined

end Value

/-! ## Operations -/

/-- Division toward negative infinity, which wraps around. -/
def floorDivide (a b : Int64) : Int64 := Int64.ofInt (a.toInt.fdiv b.toInt)

def truncatedRemainder (a b : Int64) : Int64 := Int64.ofInt (a.toInt.tmod b.toInt)

/-- The integer that a numeral stands for. -/
def numeralValue? (text : String) : Option Int64 :=
  if text.toList.all Char.isDigit then
    let n := Nat.ofDigitChars 10 text.toList 0
    if n < 2 ^ 63 then some (Int64.ofNat n) else none
  else none

def UnaryOp.apply : UnaryOp → Value → Run Value
  | minus, .integer a => pure (.integer (-a))
  | complement, .integer a => pure (.integer (~~~a))
  | not, x => pure (.boolean (!x.isTrue))
  | _, _ => throw .undefined

/-- An operation with both operands evaluated. -/
def BinaryOp.apply : BinaryOp → Value → Value → Run Value
  | add, .integer a, .integer b => pure (.integer (a + b))
  | subtract, .integer a, .integer b => pure (.integer (a - b))
  | multiply, .integer a, .integer b => pure (.integer (a * b))
  | floorDivide, .integer a, .integer b =>
    if b = 0 then throw .divisionByZero else pure (.integer (CodeTree.Lua.floorDivide a b))
  | bitAnd, .integer a, .integer b => pure (.integer (a &&& b))
  | bitOr, .integer a, .integer b => pure (.integer (a ||| b))
  | bitXor, .integer a, .integer b => pure (.integer (a ^^^ b))
  | less, .integer a, .integer b => pure (.boolean (a < b))
  | lessEqual, .integer a, .integer b => pure (.boolean (a ≤ b))
  | greater, .integer a, .integer b => pure (.boolean (b < a))
  | greaterEqual, .integer a, .integer b => pure (.boolean (b ≤ a))
  | equal, x, y => do return .boolean (← x.equals y)
  | notEqual, x, y => do return .boolean (!(← x.equals y))
  | _, _, _ => throw .undefined

def bind (scope : String → Value) (name : String) (value : Value) : String → Value :=
  fun other => if other = name then value else scope other

/-- A scope with the parameters of a function. Missing arguments are nil, others are dropped. -/
def bindAll (scope : String → Value) : List String → List Value → String → Value
  | [], _ => scope
  | p :: parameters, [] => bindAll (bind scope p .nil) parameters []
  | p :: parameters, x :: arguments => bindAll (bind scope p x) parameters arguments

/-! ## Evaluation -/

section Evaluation

variable (call : Value → List Value → Run Value)

mutual

/-- The value of an expression in a scope, given the results of calls. -/
def evalExp (scope : String → Value) : Exp String → Run Value
  | .nil => pure .nil
  | .boolean value => pure (.boolean value)
  | .numeral text =>
    match numeralValue? text with
    | some value => pure (.integer value)
    | none => throw .undefined
  | .name n => pure (scope n)
  | .field x member => do
    let v ← evalExp scope x
    v.member member
  | .call f arguments => do
    let f ← evalExp scope f
    let arguments ← evalExps scope arguments
    call f arguments
  | .paren x => evalExp scope x
  | .unary op x => do
    let v ← evalExp scope x
    op.apply v
  | .binary op x y =>
    match op with
    | .and => do
      let v ← evalExp scope x
      if v.isTrue then evalExp scope y else pure v
    | .or => do
      let v ← evalExp scope x
      if v.isTrue then pure v else evalExp scope y
    | op => do
      let v ← evalExp scope x
      let w ← evalExp scope y
      op.apply v w
  | .function parameters body => pure (.closure parameters body scope)
  | _ => throw .undefined

def evalExps (scope : String → Value) : List (Exp String) → Run (List Value)
  | [] => pure []
  | x :: xs => do
    let v ← evalExp scope x
    let vs ← evalExps scope xs
    return v :: vs

/-- What a statement does: it may return a value, and it may declare a local. -/
def evalStat (scope : String → Value) : Stat String → Run (Option Value × (String → Value))
  | .empty => pure (none, scope)
  | .declare n _ [x] => do
    let v ← evalExp scope x
    return (none, bind scope n v)
  | .block body => do
    let result ← evalStats scope body
    return (result, scope)
  | .conditional condition consequence alternative => do
    let v ← evalExp scope condition
    let result ← if v.isTrue then evalStats scope consequence else evalStats scope alternative
    return (result, scope)
  | .result [] => pure (some .nil, scope)
  | .result [x] => do
    let v ← evalExp scope x
    return (some v, scope)
  | .call x => do
    let _ ← evalExp scope x
    return (none, scope)
  | _ => throw .undefined

/-- What statements return, if they do. -/
def evalStats (scope : String → Value) : List (Stat String) → Run (Option Value)
  | [] => pure none
  | s :: rest => do
    let (result, scope) ← evalStat scope s
    match result with
    | some v => return some v
    | none => evalStats scope rest

end

end Evaluation

/-- The result of a call in which calls are nested up to some depth. A function that does not return a
value gives nil. -/
def apply : Nat → Value → List Value → Run Value
  | 0, _, _ => ExceptT.mk none
  | depth + 1, .closure parameters body scope, arguments => do
    let result ← evalStats (apply depth) (bindAll scope parameters arguments) body
    return result.getD .nil
  | _ + 1, .fmod, [.integer a, .integer b] =>
    if b = 0 then throw .divisionByZero else pure (.integer (truncatedRemainder a b))
  | _ + 1, _, _ => throw .undefined

/-! ## Equations -/

section Equations

variable {call : Value → List Value → Run Value} {scope : String → Value} {x y : Exp String}

theorem evalExp_numeral {text : String} {value : Int64} (h : numeralValue? text = some value) :
    evalExp call scope (.numeral text) = pure (.integer value) := by
  simp only [evalExp, h]

theorem evalExp_and : evalExp call scope (.binary .and x y) =
    evalExp call scope x >>= fun v => if v.isTrue then evalExp call scope y else pure v := by
  rw [evalExp]

theorem evalExp_or : evalExp call scope (.binary .or x y) =
    evalExp call scope x >>= fun v => if v.isTrue then pure v else evalExp call scope y := by
  rw [evalExp]

theorem evalExp_binary (op : BinaryOp) (hand : op ≠ .and) (hor : op ≠ .or) :
    evalExp call scope (.binary op x y) =
      evalExp call scope x >>= fun v => evalExp call scope y >>= op.apply v := by
  rw [evalExp]
  · exact hand
  · exact hor

theorem evalStats_singleton (s : Stat String) :
    evalStats call scope [s] = evalStat call scope s >>= fun (result, _) => pure result := by
  rw [evalStats]
  refine bind_congr fun (result, scope) => ?_
  cases result with
  | some v => rfl
  | none => rfl

theorem evalStats_result :
    evalStats call scope [.result [x]] = evalExp call scope x >>= fun v => pure (some v) := by
  simp only [evalStats_singleton, evalStat, bind_assoc, pure_bind]

theorem evalStats_conditional {condition : Exp String} {consequence alternative : List (Stat String)} :
    evalStats call scope [.conditional condition consequence alternative] =
      evalExp call scope condition >>= fun v =>
        if v.isTrue then evalStats call scope consequence else evalStats call scope alternative := by
  simp only [evalStats_singleton, evalStat, bind_assoc]
  refine bind_congr fun v => ?_
  split <;> simp only [bind_assoc, pure_bind, bind_pure]

end Equations

/-- The scope of an expression that stands alone. -/
def globals (values : String → Scalar) (name : String) : Value :=
  if name = "math" then .math else .ofScalar (values name)

end CodeTree.Lua
