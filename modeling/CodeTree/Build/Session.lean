import CodeTree.Build.Record
import CodeTree.Tree.Error

/-!
# Sessions

A session builds parts of trees and keeps the names they use. Each operation interns the name it is
given and puts its symbol into what it builds; trees built in one session can be joined. Any interner
can keep the names; a plain `Session` keeps them in a name table.

* `Session.intern`, `Session.find?`, `Session.resolve`, `Session.name` and `Session.size` work on the
  names alone; of these only the first changes anything.
* The other operations build an expression, a record or a part of one.
-/

namespace CodeTree

set_option autoImplicit false

/-- A computation over the names that an interner keeps. -/
abbrev SessionOver (τ : Type) := StateM τ

/-- A computation over the names of a session. -/
abbrev Session := SessionOver NameTable

namespace Session

variable {τ : Type} [Interner τ]

/-- The symbol of a name, which is added if it is new. -/
def intern (name : String) : SessionOver τ Symbol := modifyGet fun names => Interner.intern names name

/-- The symbol of a name if it has one. -/
def find? (name : String) : SessionOver τ (Option Symbol) := do
  return Interner.find? (← get) name

def resolve (s : Symbol) : SessionOver τ (Option String) := do
  return Interner.resolve (← get) s

def name (s : Symbol) : SessionOver τ (Except TreeError String) := do
  return s.orUnknown (← resolve s)

/-- How many names there are. -/
def size : SessionOver τ Nat := do
  return Interner.size (← get)

def identifier (name : String) : SessionOver τ Expr := do
  return .identifier (← intern name)

def localVariable (name : String) : SessionOver τ LocalVariable := do
  return .named (← intern name)

def selector (name : String) : SessionOver τ Expr := do
  return .selector (← intern name)

def typeReference (name : String) : SessionOver τ TypeReference := do
  return .named (← intern name)

def enumValue (type : TypeReference) (value : String) : SessionOver τ EnumValue := do
  return ⟨type, ← intern value⟩

def fieldAccess (site : Option Expr) (name : String) : SessionOver τ FieldAccess := do
  return .named site (← intern name)

def methodCall (site : Option Expr) (name : String) : SessionOver τ MethodCall := do
  return .named site (← intern name)

def propertyAccess (site : Option Expr) (name : String) : SessionOver τ PropertyAccess := do
  return .named site (← intern name)

def namedArgument (value : Expr) (name : String) : SessionOver τ Argument := do
  return .named value (← intern name)

def parameter (name : String) (type : Option TypeReference) : SessionOver τ Parameter := do
  return .named (← intern name) type

end Session

end CodeTree
