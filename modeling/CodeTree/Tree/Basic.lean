import CodeTree.Tree.Operator
import CodeTree.Tree.Sentinel

/-!
# Expression trees

An expression is a reference to a shared node, an atom, or a node with expressions below it. Methods
and types without a name put statements, parameters and members below an expression, so all of these
types are defined together. A tree has no cycles and owns all of its nodes except the shared ones.

* `Expr`, `Statement` and `Member` are the nodes that a traversal visits.
* `Argument`, `Parameter` and `Declaration` are what lists of them hold.
* `Expr.node` looks through a shared reference, `Expr.isSame` compares references.
-/

namespace CodeTree

set_option autoImplicit false

/-- How a value is passed. -/
inductive Passing
  | byValue
  | byRef
  | out
  deriving DecidableEq, Inhabited

/-- How the elements of an array literal are stored. -/
inductive ArrayKind
  | static
  | dynamic
  | inPlace
  deriving DecidableEq

/-- What kind of type an anonymous type is. -/
inductive AggregateKind
  | classType
  | structType
  | interfaceType
  deriving DecidableEq

/-- The node kinds that only put something around one expression. -/
inductive Wrapper
  | parentheses
  | sizeOf
  | typeOf
  | dereference
  deriving DecidableEq

/-- The member that an access names. `nilSafe` makes the whole access nil when its site is nil;
`unwrap` insists that the site is not nil. -/
structure Selection where
  name : Symbol
  nilSafe : Bool
  unwrap : Bool
  deriving DecidableEq

mutual

/-- An expression. An access without a site means a local or global name. A `construct` calls a
constructor and an `allocate` makes an array of the given bounds; both may be followed by property
initializers. -/
inductive Expr
  | shared (sentinel : Sentinel)
  | atom (atom : Atom)
  | array (elements : List Expr) (kind : ArrayKind)
  | dictionary (entries : List (Expr × Expr))
  | tuple (elements : List Expr)
  | unary (operator : Operator UnaryKind) (operand : Expr)
  | binary (operator : Operator BinaryKind) (left right : Expr)
  | field (site : Option Expr) (selection : Selection)
  | call (site : Option Expr) (selection : Selection) (arguments : List Argument) (optional : Bool)
  | property (site : Option Expr) (selection : Selection) (indices : List Argument)
  | construct (type : TypeReference) (constructor : Option Symbol) (arguments : List Argument)
      (initializers : List Argument)
  | allocate (type : TypeReference) (constructor : Option Symbol) (bounds : List Expr)
      (initializers : List Argument)
  | element (array : Expr) (indices : List Expr)
  | wrapped (wrapper : Wrapper) (inner : Expr)
  | conditional (condition consequence : Expr) (alternative : Option Expr)
  | cast (value : Expr) (type : TypeReference) (throwing guaranteedSafe : Bool)
  | assigned (value : Expr) (inverted : Bool)
  | method (lambda : Bool) (parameters : List Parameter) (returns : Option TypeReference)
      (body : List Statement) (locals : Option (List Declaration))
  | anonymousType (kind : AggregateKind) (members : List Member)

/-- An argument of a call. A property initializer is an argument with a name. -/
structure Argument where
  name : Option Symbol
  value : Expr
  passing : Passing

/-- A parameter of a method. -/
structure Parameter where
  name : Symbol
  type : Option TypeReference
  passing : Passing
  defaultValue : Option Expr

/-- The declaration of a variable or of a field. -/
structure Declaration where
  name : Symbol
  type : Option TypeReference
  value : Option Expr
  constant : Bool

/-- A member of an anonymous type. -/
inductive Member
  | field (declaration : Declaration)
  | method (name : Symbol) (parameters : List Parameter) (returns : Option TypeReference)
      (body : List Statement)

/-- A statement. -/
inductive Statement
  | expression (value : Expr)
  | declaration (declared : Declaration)
  | assignment (target value : Expr)
  | result (value : Option Expr)
  | block (body : List Statement)

end

instance : Inhabited Expr := ⟨.shared .nil⟩

namespace Passing

def name : Passing → String
  | byValue => "In"
  | byRef => "ByRef"
  | out => "Out"

end Passing

namespace ArrayKind

def name : ArrayKind → String
  | static => "Static"
  | dynamic => "Dynamic"
  | inPlace => "InPlace"

end ArrayKind

namespace AggregateKind

def name : AggregateKind → String
  | classType => "Class"
  | structType => "Struct"
  | interfaceType => "Interface"

end AggregateKind

namespace Wrapper

/-- The name of the kind of node. -/
def variant : Wrapper → String
  | parentheses => "Parentheses"
  | sizeOf => "SizeOf"
  | typeOf => "TypeOf"
  | dereference => "PointerDereference"

end Wrapper

namespace Selection

/-- A plain access by name. -/
def named (name : Symbol) : Selection := ⟨name, false, false⟩

end Selection

namespace Argument

/-- An argument by position. -/
def positional (value : Expr) : Argument := ⟨none, value, .byValue⟩

/-- An argument by name. -/
def named (value : Expr) (name : Symbol) : Argument := ⟨some name, value, .byValue⟩

/-- The same argument, passed in another way. -/
def withPassing (a : Argument) (passing : Passing) : Argument := { a with passing := passing }

end Argument

namespace Parameter

def named (name : Symbol) (type : Option TypeReference) : Parameter := ⟨name, type, .byValue, none⟩

end Parameter

namespace Member

def name : Member → Symbol
  | field declaration => declaration.name
  | method name _ _ _ => name

end Member

namespace Expr

/-! ## Leaves -/

def nil : Expr := shared .nil

def selfReference : Expr := shared .selfReference

def boolean (b : Bool) : Expr := shared (.ofBool b)

def literal (l : Literal) : Expr := atom (.literal l)

def identifier (name : Symbol) : Expr := atom (.identifier name)

def selector (name : Symbol) : Expr := atom (.selector name)

/-! ## Shared nodes -/

/-- The node an expression refers to: a shared reference stands for its atom. -/
def node : Expr → Expr
  | shared s => atom s.atom
  | e => e

/-- The shared node an expression refers to, if it refers to one. A node that merely equals a shared
one is not shared. -/
def sentinel? : Expr → Option Sentinel
  | shared s => some s
  | _ => none

def isShared (e : Expr) : Bool := e.sentinel?.isSome

/-- Whether two expressions from different places of the program's trees are one node: only shared
nodes are in two places. -/
def isSame (a b : Expr) : Bool :=
  match a.sentinel?, b.sentinel? with
  | some s, some t => decide (s = t)
  | _, _ => false

@[simp] theorem node_shared (s : Sentinel) : (shared s).node = atom s.atom := rfl

@[simp] theorem node_node (e : Expr) : e.node.node = e.node := by cases e <;> rfl

@[simp] theorem sentinel?_eq_some_iff {e : Expr} {s : Sentinel} :
    e.sentinel? = some s ↔ e = shared s := by
  cases e <;> simp [sentinel?]

end Expr

end CodeTree
