import CodeTree.Tree.View

/-!
# Traversal

A traversal enters the nodes of a tree in order: a node before what is below it, and the parts of a
node in the order in which they are written. What happens on entering is up to the caller, who also
says whether to go below the node. Raw code is entered twice, once as an expression and once, below
that, as raw code.

* `Node` is what can be entered.
* `Expr.walk`, `Statement.walk` and `Member.walk` run an action over a tree.
-/

namespace CodeTree

set_option autoImplicit false

/-- A place in a tree that a traversal enters. An expression is entered as the node it refers to. -/
inductive Node
  | expression (e : Expr)
  | statement (s : Statement)
  | member (m : Member)
  | raw (code : RawCode)

section Walk

variable {m : Type → Type} [Monad m]

/-- Runs an action below a node if entering the node says so. -/
def enterThen (enter : Node → m Bool) (node : Node) (below : m Unit) : m Unit := do
  if ← enter node then below

/-- Enters an atom, and below it the raw code it may be. -/
def Atom.walk (enter : Node → m Bool) (a : Atom) : m Unit :=
  enterThen enter (.expression (.atom a)) <|
    match a.raw? with
    | some code => discard (enter (.raw code))
    | none => pure ()

mutual

/-- Walks an expression. Of an access the site comes before the arguments, of a method the default
values of the parameters, then the locals, then the body. -/
def Expr.walk (enter : Node → m Bool) : Expr → m Unit
  | .shared s => s.atom.walk enter
  | .atom a => a.walk enter
  | .array elements kind =>
    enterThen enter (.expression (.array elements kind)) (walkExprs enter elements)
  | .dictionary entries =>
    enterThen enter (.expression (.dictionary entries)) (walkEntries enter entries)
  | .tuple elements =>
    enterThen enter (.expression (.tuple elements)) (walkExprs enter elements)
  | .unary operator operand =>
    enterThen enter (.expression (.unary operator operand)) (operand.walk enter)
  | .binary operator left right =>
    enterThen enter (.expression (.binary operator left right)) do
      left.walk enter
      right.walk enter
  | .field site selection =>
    enterThen enter (.expression (.field site selection)) (walkExpr? enter site)
  | .call site selection arguments optional =>
    enterThen enter (.expression (.call site selection arguments optional)) do
      walkExpr? enter site
      walkArguments enter arguments
  | .property site selection indices =>
    enterThen enter (.expression (.property site selection indices)) do
      walkExpr? enter site
      walkArguments enter indices
  | .construct type constructor arguments initializers =>
    enterThen enter (.expression (.construct type constructor arguments initializers)) do
      walkArguments enter arguments
      walkArguments enter initializers
  | .allocate type constructor bounds initializers =>
    enterThen enter (.expression (.allocate type constructor bounds initializers)) do
      walkExprs enter bounds
      walkArguments enter initializers
  | .element array indices =>
    enterThen enter (.expression (.element array indices)) do
      array.walk enter
      walkExprs enter indices
  | .wrapped wrapper inner =>
    enterThen enter (.expression (.wrapped wrapper inner)) (inner.walk enter)
  | .conditional condition consequence alternative =>
    enterThen enter (.expression (.conditional condition consequence alternative)) do
      condition.walk enter
      consequence.walk enter
      walkExpr? enter alternative
  | .cast value type throwing guaranteedSafe =>
    enterThen enter (.expression (.cast value type throwing guaranteedSafe)) (value.walk enter)
  | .assigned value inverted =>
    enterThen enter (.expression (.assigned value inverted)) (value.walk enter)
  | .method lambda parameters returns body locals =>
    enterThen enter (.expression (.method lambda parameters returns body locals)) do
      walkParameters enter parameters
      walkLocals? enter locals
      walkStatements enter body
  | .anonymousType kind members =>
    enterThen enter (.expression (.anonymousType kind members)) (walkMembers enter members)

def walkExpr? (enter : Node → m Bool) : Option Expr → m Unit
  | none => pure ()
  | some e => e.walk enter

def walkExprs (enter : Node → m Bool) : List Expr → m Unit
  | [] => pure ()
  | e :: es => do
    e.walk enter
    walkExprs enter es

def walkEntries (enter : Node → m Bool) : List (Expr × Expr) → m Unit
  | [] => pure ()
  | (key, value) :: entries => do
    key.walk enter
    value.walk enter
    walkEntries enter entries

def walkArguments (enter : Node → m Bool) : List Argument → m Unit
  | [] => pure ()
  | ⟨_, value, _⟩ :: arguments => do
    value.walk enter
    walkArguments enter arguments

def walkParameters (enter : Node → m Bool) : List Parameter → m Unit
  | [] => pure ()
  | ⟨_, _, _, defaultValue⟩ :: parameters => do
    walkExpr? enter defaultValue
    walkParameters enter parameters

def walkLocals (enter : Node → m Bool) : List Declaration → m Unit
  | [] => pure ()
  | ⟨_, _, value, _⟩ :: locals => do
    walkExpr? enter value
    walkLocals enter locals

def walkLocals? (enter : Node → m Bool) : Option (List Declaration) → m Unit
  | none => pure ()
  | some locals => walkLocals enter locals

/-- Walks a member: the initializer of a field, the default values and the body of a method. -/
def Member.walk (enter : Node → m Bool) : Member → m Unit
  | .field ⟨name, type, value, constant⟩ =>
    enterThen enter (.member (.field ⟨name, type, value, constant⟩)) (walkExpr? enter value)
  | .method name parameters returns body =>
    enterThen enter (.member (.method name parameters returns body)) do
      walkParameters enter parameters
      walkStatements enter body

def walkMembers (enter : Node → m Bool) : List Member → m Unit
  | [] => pure ()
  | member :: members => do
    member.walk enter
    walkMembers enter members

/-- Walks a statement; of an assignment the target comes first. -/
def Statement.walk (enter : Node → m Bool) : Statement → m Unit
  | .expression value => enterThen enter (.statement (.expression value)) (value.walk enter)
  | .declaration ⟨name, type, value, constant⟩ =>
    enterThen enter (.statement (.declaration ⟨name, type, value, constant⟩))
      (walkExpr? enter value)
  | .assignment target value =>
    enterThen enter (.statement (.assignment target value)) do
      target.walk enter
      value.walk enter
  | .result value => enterThen enter (.statement (.result value)) (walkExpr? enter value)
  | .block body => enterThen enter (.statement (.block body)) (walkStatements enter body)

def walkStatements (enter : Node → m Bool) : List Statement → m Unit
  | [] => pure ()
  | s :: statements => do
    s.walk enter
    walkStatements enter statements

end

end Walk

end CodeTree
