import CodeTree.Tree.Error
import CodeTree.Tree.Inspect

/-!
# Refusals of the Lua emitter

The emitter refuses what Lua cannot say. Each refusal names its cause; causes of one kind share the
beginning of their message.

* `EmitError.kind` is the kind of a refusal, `EmitError.message` its message.
-/

namespace CodeTree.Lua

set_option autoImplicit false

/-- Why a tree cannot be written in Lua. -/
inductive EmitError
  /-- The tree itself is at fault. -/
  | tree (error : TreeError)
  /-- An expression that is not a call stands as a statement. -/
  | statement (s : Statement)
  /-- A node has no counterpart in Lua. -/
  | expression (e : Expr)
  /-- An argument is not passed by value. -/
  | argumentPassing (passing : Passing)
  /-- A parameter is not passed by value. -/
  | parameterPassing (passing : Passing)
  /-- An argument has a name, and names are refused. -/
  | namedArgument (name : String)
  /-- A property initializer does not say which property. -/
  | unnamedInitializer
  | unaryOperator (kind : UnaryKind)
  | binaryOperator (kind : BinaryKind)
  /-- The text could not be written. A draft takes every text, so no run on one ends this way. -/
  | formatting

/-- The kinds of refusals. -/
inductive ErrorKind
  | unknownSymbol
  | notPortable
  | unsupportedStatement
  | unsupportedExpression
  | unsupportedOperator
  | formatting
  deriving DecidableEq

namespace ErrorKind

def name : ErrorKind → String
  | unknownSymbol => "UnknownSymbol"
  | notPortable => "NonPortable"
  | unsupportedStatement => "UnsupportedStatement"
  | unsupportedExpression => "UnsupportedExpression"
  | unsupportedOperator => "UnsupportedOperator"
  | formatting => "Fmt"

/-- The kind of an error about a tree. -/
def ofTreeError : TreeError → ErrorKind
  | .unknownSymbol _ => unknownSymbol
  | .notPortable _ => notPortable

end ErrorKind

namespace EmitError

def kind : EmitError → ErrorKind
  | tree error => .ofTreeError error
  | statement _ => .unsupportedStatement
  | expression _ => .unsupportedExpression
  | argumentPassing _ => .unsupportedExpression
  | parameterPassing _ => .unsupportedExpression
  | namedArgument _ => .unsupportedExpression
  | unnamedInitializer => .unsupportedExpression
  | unaryOperator _ => .unsupportedOperator
  | binaryOperator _ => .unsupportedOperator
  | formatting => .formatting

/-- The message of a refusal. Unsupported nodes are shown by their debug text. -/
def message : EmitError → String
  | tree error => error.message
  | statement s => "Unsupported statement: " ++ s.inspect
  | expression e => "Unsupported expression: " ++ e.inspectNode
  | argumentPassing passing => "Unsupported expression: " ++ passing.name ++ " argument passing"
  | parameterPassing passing =>
    "Unsupported expression: " ++ passing.name ++ " parameter definition"
  | namedArgument name => "Unsupported expression: named argument '" ++ name ++ "'"
  | unnamedInitializer => "Unsupported expression: property initializer without a property name"
  | unaryOperator kind => "Unsupported operator: " ++ kind.name
  | binaryOperator kind => "Unsupported operator: " ++ kind.name
  | formatting => "Formatting error: an error occurred when formatting an argument"

end EmitError

end CodeTree.Lua
