import CodeTree.Tree.Basic

/-!
# Views of nodes

What several kinds of node have in common, read through shared references.

* `Expr.memberAccess?` is the site and selection of a field access, a call or a property access.
* `Expr.arguments?` are the arguments of the nodes that take some.
* `Expr.literal?`, `Expr.raw?`, `Expr.bounds?` and `Statement.expression?` are the other parts.
-/

namespace CodeTree

set_option autoImplicit false

/-- An access to a member. Without a site it names a local or a global. -/
structure MemberAccess where
  site : Option Expr
  selection : Selection

namespace MemberAccess

/-- Whether the member is one of the current instance, through the shared `self`. -/
def targetsSelf (access : MemberAccess) : Bool :=
  match access.site with
  | some site => decide (site.sentinel? = some .selfReference)
  | none => false

end MemberAccess

namespace Expr

def atom? (e : Expr) : Option Atom :=
  match e.node with
  | atom a => some a
  | _ => none

def literal? (e : Expr) : Option Literal := e.atom?.bind Atom.literal?

def raw? (e : Expr) : Option RawCode := e.atom?.bind Atom.raw?

def isRaw (e : Expr) : Bool := e.raw?.isSome

def memberAccess? : Expr → Option MemberAccess
  | field site selection => some ⟨site, selection⟩
  | call site selection _ _ => some ⟨site, selection⟩
  | property site selection _ => some ⟨site, selection⟩
  | _ => none

/-- The arguments of a node that takes some. An array allocation takes none. -/
def arguments? : Expr → Option (List Argument)
  | call _ _ arguments _ => some arguments
  | property _ _ indices => some indices
  | construct _ _ arguments _ => some arguments
  | allocate _ _ _ _ => some []
  | _ => none

/-- The bounds of an array allocation. -/
def bounds? : Expr → Option (List Expr)
  | allocate _ _ bounds _ => some bounds
  | _ => none

end Expr

namespace Statement

def expression? : Statement → Option Expr
  | expression value => some value
  | _ => none

/-- The name of the kind of statement. -/
def variant : Statement → String
  | expression _ => "Expression"
  | declaration _ => "VariableDeclaration"
  | assignment _ _ => "Assignment"
  | result _ => "Return"
  | block _ => "Block"

end Statement

namespace Member

/-- The name of the kind of member. -/
def variant : Member → String
  | field _ => "Field"
  | method _ _ _ _ => "Method"

end Member

end CodeTree
