import CodeTree.Name.Table
import CodeTree.Text.Inspect

/-!
# Errors about trees

Two things can be wrong with a tree, whatever is done with it: a symbol has no name in the name table
at hand, or there is raw code where none may be.

* `TreeError.message` is the message for people, `TreeError.inspect` the debug text.
* `NameTable.name` is the name of a symbol, or the error that it has none.
-/

namespace CodeTree

set_option autoImplicit false

/-- What is wrong with a tree. -/
inductive TreeError
  | unknownSymbol (symbol : Symbol)
  | notPortable (lines : Nat)
  deriving DecidableEq

namespace TreeError

def message : TreeError → String
  | unknownSymbol symbol => "unknown symbol: " ++ symbol.inspect
  | notPortable lines =>
    "raw passthrough expression (" ++ toString lines
      ++ " line(s)) is not portable across backends"

def inspect : TreeError → String
  | unknownSymbol symbol => Inspect.tagged "UnknownSymbol" [symbol.inspect]
  | notPortable lines => Inspect.record "NonPortable" [("lines", toString lines)]

end TreeError

/-- What is known to be the name of a symbol, or the error that nothing is. -/
def Symbol.orUnknown (s : Symbol) : Option String → Except TreeError String
  | some name => .ok name
  | none => .error (.unknownSymbol s)

/-- The name a symbol stands for, for callers that pass errors on. -/
def NameTable.name (t : NameTable) (s : Symbol) : Except TreeError String :=
  s.orUnknown (t.resolve s)

end CodeTree
