import CodeTree.Tree.Inspect
import CodeTree.Tree.View

/-!
# Records for building nodes

Nodes with several parts are built step by step as records: a plain one first, then the changes to it.
A finished record becomes a node by `toExpr`.

* `FieldAccess`, `MethodCall` and `PropertyAccess` are accesses to a member.
* `Creation` is the creation of an object or of an array.
* `Cast`, `ArrayLiteral` and `AnonymousMethod` are the other nodes with options.
-/

namespace CodeTree

set_option autoImplicit false

/-! ## Accesses -/

namespace MemberAccess

/-- A plain access by name. -/
def named (site : Option Expr) (name : Symbol) : MemberAccess := ⟨site, .named name⟩

/-- The access is nil when its site is nil. -/
def nilSafely (access : MemberAccess) : MemberAccess := { access with selection.nilSafe := true }

/-- The site is taken not to be nil. -/
def unwrapping (access : MemberAccess) : MemberAccess := { access with selection.unwrap := true }

end MemberAccess

/-- An access to a field. -/
structure FieldAccess where
  access : MemberAccess

namespace FieldAccess

def named (site : Option Expr) (name : Symbol) : FieldAccess := ⟨.named site name⟩

def nilSafely (r : FieldAccess) : FieldAccess := { r with access := r.access.nilSafely }

def unwrapping (r : FieldAccess) : FieldAccess := { r with access := r.access.unwrapping }

def toExpr (r : FieldAccess) : Expr := .field r.access.site r.access.selection

def inspect (r : FieldAccess) : String := r.toExpr.inspectContents

end FieldAccess

/-- A call of a method. An optional call is left out when there is no such method. -/
structure MethodCall where
  access : MemberAccess
  arguments : List Argument
  optional : Bool

namespace MethodCall

def named (site : Option Expr) (name : Symbol) : MethodCall := ⟨.named site name, [], false⟩

def nilSafely (r : MethodCall) : MethodCall := { r with access := r.access.nilSafely }

def unwrapping (r : MethodCall) : MethodCall := { r with access := r.access.unwrapping }

/-- Adds an argument behind the others. -/
def withArgument (r : MethodCall) (a : Argument) : MethodCall :=
  { r with arguments := r.arguments ++ [a] }

def optionally (r : MethodCall) : MethodCall := { r with optional := true }

def toExpr (r : MethodCall) : Expr := .call r.access.site r.access.selection r.arguments r.optional

def inspect (r : MethodCall) : String := r.toExpr.inspectContents

end MethodCall

/-- An access to a property, which has indices if it is an indexed one. -/
structure PropertyAccess where
  access : MemberAccess
  indices : List Argument

namespace PropertyAccess

def named (site : Option Expr) (name : Symbol) : PropertyAccess := ⟨.named site name, []⟩

def nilSafely (r : PropertyAccess) : PropertyAccess := { r with access := r.access.nilSafely }

def unwrapping (r : PropertyAccess) : PropertyAccess := { r with access := r.access.unwrapping }

/-- Adds an index behind the others. -/
def withIndex (r : PropertyAccess) (a : Argument) : PropertyAccess :=
  { r with indices := r.indices ++ [a] }

def toExpr (r : PropertyAccess) : Expr := .property r.access.site r.access.selection r.indices

def inspect (r : PropertyAccess) : String := r.toExpr.inspectContents

end PropertyAccess

/-! ## Creations -/

/-- What a creation makes: an object by a constructor with arguments, or an array with bounds. -/
inductive Allocation
  | object (arguments : List Argument)
  | array (bounds : List Expr)

instance : Inhabited Allocation := ⟨.object []⟩

/-- Debug text of an allocation. -/
def Allocation.inspect : Allocation → String
  | object arguments =>
    Inspect.tagged "Constructor" [Inspect.list (arguments.map Argument.inspect)]
  | array bounds => Inspect.tagged "ArrayBounds" [Inspect.list (bounds.map Expr.inspect)]

/-- The creation of an object or of an array. -/
structure Creation where
  type : TypeReference
  constructor : Option Symbol
  allocation : Allocation
  initializers : List Argument

namespace Creation

/-- A creation with nothing but its type and what it makes. -/
def plain (type : TypeReference) (allocation : Allocation) : Creation := ⟨type, none, allocation, []⟩

def withConstructor (r : Creation) (name : Symbol) : Creation := { r with constructor := some name }

/-- Adds a property initializer behind the others. -/
def withInitializer (r : Creation) (a : Argument) : Creation :=
  { r with initializers := r.initializers ++ [a] }

def toExpr (r : Creation) : Expr :=
  match r.allocation with
  | .object arguments => .construct r.type r.constructor arguments r.initializers
  | .array bounds => .allocate r.type r.constructor bounds r.initializers

def inspect (r : Creation) : String := r.toExpr.inspectContents

end Creation

/-! ## Other nodes with options -/

/-- A conversion of a value to a type. -/
structure Cast where
  value : Expr
  type : TypeReference
  throwing : Bool
  guaranteedSafe : Bool

namespace Cast

def plain (value : Expr) (type : TypeReference) : Cast := ⟨value, type, false, false⟩

/-- The conversion fails by an exception. -/
def throwingly (r : Cast) : Cast := { r with throwing := true }

/-- The conversion cannot fail. -/
def safely (r : Cast) : Cast := { r with guaranteedSafe := true }

def toExpr (r : Cast) : Expr := .cast r.value r.type r.throwing r.guaranteedSafe

def inspect (r : Cast) : String := r.toExpr.inspectContents

end Cast

instance : Inhabited ArrayKind := ⟨.dynamic⟩

/-- A literal of an array. -/
structure ArrayLiteral where
  elements : List Expr
  kind : ArrayKind

namespace ArrayLiteral

def plain (elements : List Expr) : ArrayLiteral := ⟨elements, default⟩

def withKind (r : ArrayLiteral) (kind : ArrayKind) : ArrayLiteral := { r with kind := kind }

def toExpr (r : ArrayLiteral) : Expr := .array r.elements r.kind

def inspect (r : ArrayLiteral) : String := r.toExpr.inspectContents

end ArrayLiteral

/-- A method without a name. -/
structure AnonymousMethod where
  lambda : Bool
  parameters : List Parameter
  returns : Option TypeReference
  body : List Statement
  locals : Option (List Declaration)

namespace AnonymousMethod

/-- A method without parameters, result type and locals. -/
def plain (body : List Statement) : AnonymousMethod := ⟨true, [], none, body, none⟩

def withReturnType (r : AnonymousMethod) (type : TypeReference) : AnonymousMethod :=
  { r with returns := some type }

def toExpr (r : AnonymousMethod) : Expr := .method r.lambda r.parameters r.returns r.body r.locals

def inspect (r : AnonymousMethod) : String := r.toExpr.inspectContents

end AnonymousMethod

end CodeTree
