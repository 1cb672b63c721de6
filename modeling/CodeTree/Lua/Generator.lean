import CodeTree.Lua.Emit

/-!
# The Lua generator

A generator writes one tree after another over the same names. It keeps its settings and the draft it
is working on, which it clears before each run; a run that was refused leaves an unfinished draft
behind, and no later answer shows it.

* `Generator.generateExpression` and `Generator.generateStatements` answer with Lua text or a refusal.
* `Generator.withTarget` changes the dialect from then on.
-/

namespace CodeTree.Lua

set_option autoImplicit false

/-- The answer to a request for text. -/
abbrev Answer := Except EmitError String

/-- The line that makes the `bit` library known. -/
def bitPrelude : String := "local bit = require('bit')\n"

/-- A writer of Lua text. -/
structure Generator where
  setting : Setting
  draft : Draft

namespace Generator

/-- A generator that has written nothing yet. -/
def new (names : NameTable) (config : Config) : Generator := ⟨⟨names, config⟩, Draft.empty⟩

def withTarget (g : Generator) (target : Target) : Generator :=
  { g with setting.config.target := target }

/-- Drops what was written before. -/
def clear (g : Generator) : Generator := { g with draft := Draft.empty }

/-- Runs an action on the draft and answers with a text made of the finished one. -/
def run (g : Generator) (action : Emit Unit) (finish : Draft → String) : Answer × Generator :=
  match action.run g.draft with
  | .ok _ draft => (.ok (finish draft), { g with draft := draft })
  | .error error draft => (.error error, { g with draft := draft })

/-- The text of an expression. -/
def generateExpression (g : Generator) (e : Expr) : Answer × Generator :=
  g.clear.run (emitExpr g.setting e) Draft.text

/-- The text of a list of statements, after a line that loads the `bit` library if they use it. -/
def generateStatements (g : Generator) (statements : List Statement) : Answer × Generator :=
  g.clear.run (emitStatements g.setting statements) fun draft =>
    if draft.usesBitLibrary then bitPrelude ++ draft.text else draft.text

end Generator

end CodeTree.Lua
