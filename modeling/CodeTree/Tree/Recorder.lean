import CodeTree.Tree.Traversal
import CodeTree.Tree.Inspect
import CodeTree.Name.Table

/-!
# Recorded traversals

A recorder notes every node it enters. It does not go below the nodes it is told to prune, and it can
be told to stop right after noting a given number of nodes.

* `Recorder.record` is the trace of a run over some roots: what was noted, and how the run ended.
* `Node.describe` is a line of text about a noted node.
-/

namespace CodeTree

set_option autoImplicit false

namespace Node

/-- The name of the kind of node. -/
def variant : Node → String
  | expression e => e.variant
  | statement s => s.variant
  | member m => m.variant
  | raw _ => "Raw"

/-- What the line about an expression adds to the name of its kind: the name in an identifier or an
access, the canonical text of a literal. -/
def detail? (names : NameTable) (e : Expr) : Option String :=
  match e.atom? with
  | some (.identifier name) => some ((names.resolve name).getD "?")
  | some (.literal l) => l.canonical?
  | some _ => none
  | none => e.memberAccess?.map fun access => (names.resolve access.selection.name).getD "?"

/-- One line about a node: a letter for its class, the name of its kind and what identifies it. -/
def describe (names : NameTable) : Node → String
  | expression e =>
    match detail? names e with
    | some detail => "E " ++ e.variant ++ " " ++ detail
    | none => "E " ++ e.variant
  | statement s => "S " ++ s.variant
  | member m => "M " ++ m.variant ++ " " ++ (names.resolve m.name).getD "?"
  | raw code => "R " ++ toString code.lines.length

end Node

/-- How a recorded run was stopped: after this many nodes. -/
structure Stopped where
  after : Nat
  deriving DecidableEq

/-- What is traversed: an expression if there is one, then statements, then members. -/
structure Roots where
  expression : Option Expr
  statements : List Statement
  members : List Member

/-- What a recorded run noted, in order, and how it ended. -/
structure Trace where
  noted : List Node
  outcome : Except Stopped Unit

/-- Which nodes not to go below, and after how many nodes to stop. A run that notes fewer nodes is not
stopped, and zero stops no run. -/
structure Recorder where
  prunes : Node → Bool
  stopAfter : Nat

namespace Recorder

/-- Notes a node, stops if it is time to, and says whether to go below. -/
def enter (r : Recorder) (node : Node) : EStateM Stopped (Array Node) Bool := do
  modify (·.push node)
  if (← get).size = r.stopAfter then
    throw ⟨r.stopAfter⟩
  return !r.prunes node

def run (r : Recorder) (roots : Roots) : EStateM Stopped (Array Node) Unit := do
  walkExpr? r.enter roots.expression
  walkStatements r.enter roots.statements
  walkMembers r.enter roots.members

/-- The trace of a run over some roots. -/
def record (r : Recorder) (roots : Roots) : Trace :=
  match (r.run roots).run #[] with
  | .ok _ noted => ⟨noted.toList, .ok ()⟩
  | .error stopped noted => ⟨noted.toList, .error stopped⟩

end Recorder

end CodeTree
