import CodeTree.Name.Table
import CodeTree.Tree.Basic

/-! # The values of integer and boolean expressions

Part of the expressions have a meaning of their own, whatever the target language is: those that compute
with 64-bit integers and truth values. Arithmetic wraps around, division goes toward zero and fails for
a zero divisor, and logical operations and conditionals evaluate only the operands they need.

* `Expr.evaluate`: the value of an expression, given the values of its names.
* `Typed`: the expressions that are well typed.
* `Typed.evaluate`: a well-typed expression has a value of its type unless a division fails. -/

namespace CodeTree

set_option autoImplicit false

inductive Scalar
  | integer (value : Int64)
  | boolean (value : Bool)
  deriving DecidableEq

inductive ScalarType
  | integer
  | boolean
  deriving DecidableEq

def Scalar.type : Scalar → ScalarType
  | integer _ => .integer
  | boolean _ => .boolean

/-- Why an evaluation has no value. What is `undefined` is not given a meaning here: an operation on
values of other types, or an expression of another kind. -/
inductive Fault
  | divisionByZero
  | undefined
  deriving DecidableEq

/-! ## Operations -/

/-- Both operands of a strict operation have been evaluated. -/
def BinaryKind.evaluate : BinaryKind → Scalar → Scalar → Except Fault Scalar
  | .addition, .integer a, .integer b => .ok (.integer (a + b))
  | .subtraction, .integer a, .integer b => .ok (.integer (a - b))
  | .multiplication, .integer a, .integer b => .ok (.integer (a * b))
  | .truncatedDivision, .integer a, .integer b =>
    if b = 0 then .error .divisionByZero else .ok (.integer (a / b))
  | .bitwiseAnd, .integer a, .integer b => .ok (.integer (a &&& b))
  | .bitwiseOr, .integer a, .integer b => .ok (.integer (a ||| b))
  | .bitwiseXor, .integer a, .integer b => .ok (.integer (a ^^^ b))
  | .lessThan, .integer a, .integer b => .ok (.boolean (a < b))
  | .lessThanOrEquals, .integer a, .integer b => .ok (.boolean (a ≤ b))
  | .greaterThan, .integer a, .integer b => .ok (.boolean (b < a))
  | .greaterThanOrEquals, .integer a, .integer b => .ok (.boolean (b ≤ a))
  | .equals, x, y => .ok (.boolean (x = y))
  | .notEquals, x, y => .ok (.boolean (x ≠ y))
  | _, _, _ => .error .undefined

def UnaryKind.evaluate : UnaryKind → Scalar → Except Fault Scalar
  | .plus, .integer a => .ok (.integer a)
  | .minus, .integer a => .ok (.integer (-a))
  | .not, .boolean a => .ok (.boolean (!a))
  | _, _ => .error .undefined

/-- One of two evaluations, picked by a truth value. -/
def Scalar.select (x : Scalar) (whenTrue whenFalse : Except Fault Scalar) : Except Fault Scalar :=
  match x with
  | boolean true => whenTrue
  | boolean false => whenFalse
  | integer _ => .error .undefined

/-! ## Evaluation -/

section Evaluation

variable (names : NameTable) (values : String → Scalar)

def evaluateName (s : Symbol) : Except Fault Scalar :=
  match names.resolve s with
  | some name => .ok (values name)
  | none => .error .undefined

def Atom.evaluate : Atom → Except Fault Scalar
  | literal (.integer value) => .ok (.integer value)
  | literal (.boolean value) => .ok (.boolean value)
  | identifier name => evaluateName names values name
  | localVariable read => evaluateName names values read.name
  | _ => .error .undefined

/-- The value of an expression. A cast leaves the value as it is. -/
def Expr.evaluate : Expr → Except Fault Scalar
  | shared s => s.atom.evaluate names values
  | atom a => a.evaluate names values
  | wrapped .parentheses inner => inner.evaluate
  | cast value _ _ _ => value.evaluate
  | unary (.standard kind) operand => do
    let x ← operand.evaluate
    kind.evaluate x
  | binary (.standard .logicalAnd) left right => do
    let x ← left.evaluate
    x.select right.evaluate (.ok (.boolean false))
  | binary (.standard .logicalOr) left right => do
    let x ← left.evaluate
    x.select (.ok (.boolean true)) right.evaluate
  | binary (.standard .implies) left right => do
    let x ← left.evaluate
    x.select right.evaluate (.ok (.boolean true))
  | binary (.standard kind) left right => do
    let x ← left.evaluate
    let y ← right.evaluate
    kind.evaluate x y
  | conditional condition consequence (some alternative) => do
    let x ← condition.evaluate
    x.select consequence.evaluate alternative.evaluate
  | _ => .error .undefined

/-- Logical operations evaluate their right operand only if they need it. -/
def BinaryKind.IsStrict (kind : BinaryKind) : Prop :=
  kind ≠ .logicalAnd ∧ kind ≠ .logicalOr ∧ kind ≠ .implies

theorem Expr.evaluate_strict {kind : BinaryKind} {left right : Expr} (h : kind.IsStrict) :
    (binary (.standard kind) left right).evaluate names values =
      left.evaluate names values >>= fun x => right.evaluate names values >>= kind.evaluate x := by
  rw [Expr.evaluate]
  · exact h.1
  · exact h.2.1
  · exact h.2.2

end Evaluation

theorem BinaryKind.isStrict_or (kind : BinaryKind) :
    kind.IsStrict ∨ kind = .logicalAnd ∨ kind = .logicalOr ∨ kind = .implies := by
  unfold IsStrict
  grind

/-! ## Types -/

/-- The type of the operand and of the result. -/
def UnaryKind.type? : UnaryKind → Option ScalarType
  | plus | minus => some .integer
  | not => some .boolean
  | addressOf => none

/-- The type of the operands of an operation with a result of some type. Values of both types can be
compared for equality. -/
def BinaryKind.Takes (kind : BinaryKind) (operands result : ScalarType) : Prop :=
  match kind with
  | addition | subtraction | multiplication | truncatedDivision | bitwiseAnd | bitwiseOr | bitwiseXor =>
    operands = .integer ∧ result = .integer
  | lessThan | lessThanOrEquals | greaterThan | greaterThanOrEquals =>
    operands = .integer ∧ result = .boolean
  | equals | notEquals => result = .boolean
  | logicalAnd | logicalOr | implies => operands = .boolean ∧ result = .boolean
  | division | modulus | logicalXor | shiftLeft | shiftRight | is | isNot | isIn | notIn => False

/-- The well-typed expressions, given the types of names. -/
inductive Typed (names : NameTable) (types : String → ScalarType) : Expr → ScalarType → Prop
  | integer (value : Int64) : Typed names types (.atom (.literal (.integer value))) .integer
  | boolean (value : Bool) : Typed names types (.atom (.literal (.boolean value))) .boolean
  | identifier {s : Symbol} {name : String} (hname : names.resolve s = some name) :
    Typed names types (.atom (.identifier s)) (types name)
  | localVariable {read : LocalVariable} {name : String} (hname : names.resolve read.name = some name) :
    Typed names types (.atom (.localVariable read)) (types name)
  | shared {s : Sentinel} {type : ScalarType} (h : Typed names types (.atom s.atom) type) :
    Typed names types (.shared s) type
  | parentheses {inner : Expr} {type : ScalarType} (h : Typed names types inner type) :
    Typed names types (.wrapped .parentheses inner) type
  | cast {value : Expr} {type : ScalarType} {target : TypeReference} {throwing safe : Bool}
    (h : Typed names types value type) : Typed names types (.cast value target throwing safe) type
  | unary {kind : UnaryKind} {operand : Expr} {type : ScalarType} (hkind : kind.type? = some type)
    (h : Typed names types operand type) : Typed names types (.unary (.standard kind) operand) type
  | binary {kind : BinaryKind} {left right : Expr} {operands type : ScalarType}
    (hkind : kind.Takes operands type) (hleft : Typed names types left operands)
    (hright : Typed names types right operands) :
    Typed names types (.binary (.standard kind) left right) type
  | conditional {condition consequence alternative : Expr} {type : ScalarType}
    (hcondition : Typed names types condition .boolean) (hconsequence : Typed names types consequence type)
    (halternative : Typed names types alternative type) :
    Typed names types (.conditional condition consequence (some alternative)) type

/-- An evaluation gives a value of the type or fails to divide. -/
def Yielding (type : ScalarType) (result : Except Fault Scalar) : Prop :=
  (∃ x, result = .ok x ∧ x.type = type) ∨ result = .error .divisionByZero

theorem Scalar.exists_integer {x : Scalar} (h : x.type = .integer) : ∃ a, x = .integer a := by
  cases x with
  | integer a => exact ⟨a, rfl⟩
  | boolean _ => exact nomatch h

theorem Scalar.exists_boolean {x : Scalar} (h : x.type = .boolean) : ∃ b, x = .boolean b := by
  cases x with
  | integer _ => exact nomatch h
  | boolean b => exact ⟨b, rfl⟩

theorem UnaryKind.yielding_evaluate {kind : UnaryKind} {type : ScalarType} {x : Scalar}
    (hkind : kind.type? = some type) (hx : x.type = type) : Yielding type (kind.evaluate x) := by
  cases kind with
  | plus | minus =>
    cases hkind
    obtain ⟨a, rfl⟩ := Scalar.exists_integer hx
    exact Or.inl ⟨_, rfl, rfl⟩
  | not =>
    cases hkind
    obtain ⟨b, rfl⟩ := Scalar.exists_boolean hx
    exact Or.inl ⟨_, rfl, rfl⟩
  | addressOf => exact nomatch hkind

theorem BinaryKind.yielding_evaluate {kind : BinaryKind} {operands type : ScalarType} {x y : Scalar}
    (hkind : kind.Takes operands type) (hx : x.type = operands) (hy : y.type = operands)
    (hstrict : kind.IsStrict) : Yielding type (kind.evaluate x y) := by
  cases kind with
  | addition | subtraction | multiplication | bitwiseAnd | bitwiseOr | bitwiseXor | lessThan
  | lessThanOrEquals | greaterThan | greaterThanOrEquals =>
    obtain ⟨rfl, rfl⟩ := hkind
    obtain ⟨a, rfl⟩ := Scalar.exists_integer hx
    obtain ⟨b, rfl⟩ := Scalar.exists_integer hy
    exact Or.inl ⟨_, rfl, rfl⟩
  | truncatedDivision =>
    obtain ⟨rfl, rfl⟩ := hkind
    obtain ⟨a, rfl⟩ := Scalar.exists_integer hx
    obtain ⟨b, rfl⟩ := Scalar.exists_integer hy
    by_cases hb : b = 0
    · exact Or.inr (if_pos hb)
    · exact Or.inl ⟨.integer (a / b), if_neg hb, rfl⟩
  | equals | notEquals =>
    obtain rfl : type = .boolean := hkind
    exact Or.inl ⟨_, rfl, rfl⟩
  | logicalAnd => exact absurd rfl hstrict.1
  | logicalOr => exact absurd rfl hstrict.2.1
  | implies => exact absurd rfl hstrict.2.2
  | division | modulus | logicalXor | shiftLeft | shiftRight | is | isNot | isIn | notIn =>
    exact hkind.elim

theorem Yielding.bind {τ type : ScalarType} {result : Except Fault Scalar}
    {next : Scalar → Except Fault Scalar} (h : Yielding τ result)
    (hnext : ∀ x, x.type = τ → Yielding type (next x)) : Yielding type (result >>= next) := by
  rcases h with ⟨x, rfl, hx⟩ | rfl
  · exact hnext x hx
  · exact Or.inr rfl

theorem Yielding.select {type : ScalarType} {x : Scalar} {whenTrue whenFalse : Except Fault Scalar}
    (hx : x.type = .boolean) (hTrue : Yielding type whenTrue) (hFalse : Yielding type whenFalse) :
    Yielding type (x.select whenTrue whenFalse) := by
  obtain ⟨b, rfl⟩ := Scalar.exists_boolean hx
  cases b
  · exact hFalse
  · exact hTrue

theorem yielding_boolean (b : Bool) : Yielding .boolean (.ok (.boolean b)) := Or.inl ⟨_, rfl, rfl⟩

/-- A well-typed expression has a value of its type unless a division fails. -/
theorem Typed.evaluate {names : NameTable} {types : String → ScalarType} {values : String → Scalar}
    (hvalues : ∀ name, (values name).type = types name) {e : Expr} {type : ScalarType}
    (h : Typed names types e type) : Yielding type (e.evaluate names values) := by
  induction h with
  | integer | boolean => exact Or.inl ⟨_, rfl, rfl⟩
  | @identifier s name hname | @localVariable read name hname =>
    refine Or.inl ⟨values name, ?_, hvalues name⟩
    simp [Expr.evaluate, Atom.evaluate, evaluateName, hname]
  | shared _ ih => exact ih
  | parentheses _ ih => exact ih
  | cast _ ih => exact ih
  | unary hkind _ ih => exact ih.bind fun x hx => UnaryKind.yielding_evaluate hkind hx
  | @binary kind left right operands type hkind _ _ ihleft ihright =>
    rcases kind.isStrict_or with hstrict | rfl | rfl | rfl
    · rw [Expr.evaluate_strict names values hstrict]
      exact ihleft.bind fun x hx => ihright.bind fun y hy =>
        BinaryKind.yielding_evaluate hkind hx hy hstrict
    · obtain ⟨rfl, rfl⟩ := hkind
      exact ihleft.bind fun x hx => Yielding.select hx ihright (yielding_boolean false)
    · obtain ⟨rfl, rfl⟩ := hkind
      exact ihleft.bind fun x hx => Yielding.select hx (yielding_boolean true) ihright
    · obtain ⟨rfl, rfl⟩ := hkind
      exact ihleft.bind fun x hx => Yielding.select hx ihright (yielding_boolean true)
  | conditional _ _ _ ihcondition ihconsequence ihalternative =>
    exact ihcondition.bind fun x hx => Yielding.select hx ihconsequence ihalternative

end CodeTree
