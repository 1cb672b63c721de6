import CodeTree.Tree.Error
import CodeTree.Tree.Traversal

/-!
# Portability and size

Two questions that a traversal answers. A tree is portable when there is no raw code in it, because
raw code is meant for one target language only. Its size is the number of expression nodes, where a
shared node counts once for each reference.

* `Expr.ensurePortable` reports the first raw code of a tree, `Expr.isPortable` only whether there is
  any, and `ensurePortableStatements` looks through a list of statements.
* `Expr.nodeCount` is the size.
-/

namespace CodeTree

set_option autoImplicit false

/-- Refuses raw code. -/
def refuseRaw : Node → Except TreeError Bool
  | .raw code => .error (.notPortable code.lines.length)
  | _ => .ok true

def Expr.ensurePortable (e : Expr) : Except TreeError Unit := e.walk refuseRaw

def Expr.isPortable (e : Expr) : Bool := e.ensurePortable.isOk

def ensurePortableStatements (statements : List Statement) : Except TreeError Unit :=
  walkStatements refuseRaw statements

/-- Counts expression nodes. -/
def countExpressions : Node → StateM Nat Bool
  | .expression _ => do
    modify (· + 1)
    pure true
  | _ => pure true

/-- The number of expression nodes in a tree. -/
def Expr.nodeCount (e : Expr) : Nat := ((e.walk countExpressions).run 0).2

end CodeTree
