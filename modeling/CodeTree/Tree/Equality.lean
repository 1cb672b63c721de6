import CodeTree.Tree.Basic

/-!
# Equality of trees

Two trees are equal when they have the same shape and equal values in the same places. Two references
to shared nodes are compared by identity, all else node by node, so that a shared node equals an
owned copy of it. Floating point literals are compared as numbers: a tree with a NaN in it does not
equal itself.

* `Expr.equal` compares expressions, `Expr.nodesEqual` the nodes they refer to.
* `Statement.equal`, `Member.equal` and `equalStatements` compare the other parts.
-/

namespace CodeTree

set_option autoImplicit false

mutual

/-- Equality of expressions. -/
def Expr.equal : Expr → Expr → Bool
  | .shared s, .shared t => decide (s = t)
  | .shared s, .atom b => s.atom.equal b
  | .atom a, .shared t => a.equal t.atom
  | .atom a, .atom b => a.equal b
  | .array elements kind, .array elements' kind' =>
    equalExprs elements elements' && decide (kind = kind')
  | .dictionary entries, .dictionary entries' => equalEntries entries entries'
  | .tuple elements, .tuple elements' => equalExprs elements elements'
  | .unary operator operand, .unary operator' operand' =>
    operand.equal operand' && decide (operator = operator')
  | .binary operator left right, .binary operator' left' right' =>
    left.equal left' && right.equal right' && decide (operator = operator')
  | .field site selection, .field site' selection' =>
    equalExpr? site site' && decide (selection = selection')
  | .call site selection arguments optional, .call site' selection' arguments' optional' =>
    equalExpr? site site' && decide (selection = selection') &&
      equalArguments arguments arguments' && decide (optional = optional')
  | .property site selection indices, .property site' selection' indices' =>
    equalExpr? site site' && decide (selection = selection') && equalArguments indices indices'
  | .construct type constructor arguments initializers,
      .construct type' constructor' arguments' initializers' =>
    decide (type = type') && decide (constructor = constructor') &&
      equalArguments arguments arguments' && equalArguments initializers initializers'
  | .allocate type constructor bounds initializers,
      .allocate type' constructor' bounds' initializers' =>
    decide (type = type') && decide (constructor = constructor') &&
      equalExprs bounds bounds' && equalArguments initializers initializers'
  | .element array indices, .element array' indices' =>
    array.equal array' && equalExprs indices indices'
  | .wrapped wrapper inner, .wrapped wrapper' inner' =>
    decide (wrapper = wrapper') && inner.equal inner'
  | .conditional condition consequence alternative,
      .conditional condition' consequence' alternative' =>
    condition.equal condition' && consequence.equal consequence' &&
      equalExpr? alternative alternative'
  | .cast value type throwing guaranteedSafe, .cast value' type' throwing' guaranteedSafe' =>
    value.equal value' && decide (type = type') && decide (throwing = throwing') &&
      decide (guaranteedSafe = guaranteedSafe')
  | .assigned value inverted, .assigned value' inverted' =>
    value.equal value' && decide (inverted = inverted')
  | .method lambda parameters returns body locals,
      .method lambda' parameters' returns' body' locals' =>
    decide (lambda = lambda') && equalParameters parameters parameters' &&
      decide (returns = returns') && equalStatements body body' && equalLocals? locals locals'
  | .anonymousType kind members, .anonymousType kind' members' =>
    decide (kind = kind') && equalMembers members members'
  | _, _ => false
termination_by structural x => x

def equalExpr? : Option Expr → Option Expr → Bool
  | none, none => true
  | some a, some b => a.equal b
  | _, _ => false
termination_by structural x => x

def equalExprs : List Expr → List Expr → Bool
  | [], [] => true
  | a :: as, b :: bs => a.equal b && equalExprs as bs
  | _, _ => false
termination_by structural x => x

def equalEntries : List (Expr × Expr) → List (Expr × Expr) → Bool
  | [], [] => true
  | (key, value) :: entries, (key', value') :: entries' =>
    key.equal key' && value.equal value' && equalEntries entries entries'
  | _, _ => false
termination_by structural x => x

def equalArguments : List Argument → List Argument → Bool
  | [], [] => true
  | ⟨name, value, passing⟩ :: arguments, ⟨name', value', passing'⟩ :: arguments' =>
    decide (name = name') && value.equal value' && decide (passing = passing') &&
      equalArguments arguments arguments'
  | _, _ => false
termination_by structural x => x

def equalParameters : List Parameter → List Parameter → Bool
  | [], [] => true
  | ⟨name, type, passing, defaultValue⟩ :: parameters,
      ⟨name', type', passing', defaultValue'⟩ :: parameters' =>
    decide (name = name') && decide (type = type') && decide (passing = passing') &&
      equalExpr? defaultValue defaultValue' && equalParameters parameters parameters'
  | _, _ => false
termination_by structural x => x

/-- Equality of declarations. -/
def Declaration.equal : Declaration → Declaration → Bool
  | ⟨name, type, value, constant⟩, ⟨name', type', value', constant'⟩ =>
    decide (name = name') && decide (type = type') && equalExpr? value value' &&
      decide (constant = constant')
termination_by structural x => x

def equalLocals : List Declaration → List Declaration → Bool
  | [], [] => true
  | d :: locals, d' :: locals' => d.equal d' && equalLocals locals locals'
  | _, _ => false
termination_by structural x => x

def equalLocals? : Option (List Declaration) → Option (List Declaration) → Bool
  | none, none => true
  | some locals, some locals' => equalLocals locals locals'
  | _, _ => false
termination_by structural x => x

/-- Equality of members. -/
def Member.equal : Member → Member → Bool
  | .field declaration, .field declaration' => declaration.equal declaration'
  | .method name parameters returns body, .method name' parameters' returns' body' =>
    decide (name = name') && equalParameters parameters parameters' &&
      decide (returns = returns') && equalStatements body body'
  | _, _ => false
termination_by structural x => x

def equalMembers : List Member → List Member → Bool
  | [], [] => true
  | m :: members, m' :: members' => m.equal m' && equalMembers members members'
  | _, _ => false
termination_by structural x => x

/-- Equality of statements. -/
def Statement.equal : Statement → Statement → Bool
  | .expression value, .expression value' => value.equal value'
  | .declaration declared, .declaration declared' => declared.equal declared'
  | .assignment target value, .assignment target' value' =>
    target.equal target' && value.equal value'
  | .result value, .result value' => equalExpr? value value'
  | .block body, .block body' => equalStatements body body'
  | _, _ => false
termination_by structural x => x

def equalStatements : List Statement → List Statement → Bool
  | [], [] => true
  | s :: statements, s' :: statements' => s.equal s' && equalStatements statements statements'
  | _, _ => false
termination_by structural x => x

end

instance : BEq Expr := ⟨Expr.equal⟩

instance : BEq Statement := ⟨Statement.equal⟩

/-- Equality of the nodes that two expressions refer to. -/
def Expr.nodesEqual (a b : Expr) : Bool := a.node.equal b.node

end CodeTree
