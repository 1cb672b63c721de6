import CodeTree.Lua.Generator
import CodeTree.Proofs.Emission.Rendered

/-! # What a generator writes

A generator writes an expression or a list of statements, starting each time from an empty draft. Its
answer depends on its settings and on what it writes, and its settings stay.

* `Source`: an expression or statements, with `Source.emit` and `Source.rendered`.
* `Generator.generate`: the text of a source.
* `generate_setting`, `generate_answer_eq`: what a run leaves and what it depends on. -/

namespace CodeTree.Lua

set_option autoImplicit false

/-- What a generator can write. -/
inductive Source
  | expression (e : Expr)
  | statements (body : List Statement)

namespace Source

/-- The action that writes a source. -/
def emit (g : Setting) : Source → Emit Unit
  | expression e => emitExpr g e
  | statements body => emitStatements g body

/-- The text of a finished draft. Statements begin with the line that loads the `bit` library. -/
def finish : Source → Draft → String
  | expression _ => Draft.text
  | statements _ => fun draft => if draft.usesBitLibrary then bitPrelude ++ draft.text else draft.text

/-- The nodes that are written, in the order of the text. -/
def rendered : Source → List Node
  | expression e => e.rendered
  | statements body => renderedStatements body

end Source

namespace Generator

/-- The text of a source. -/
def generate (g : Generator) : Source → Answer × Generator
  | .expression e => g.generateExpression e
  | .statements body => g.generateStatements body

theorem generate_eq (g : Generator) (source : Source) :
    g.generate source = g.clear.run (source.emit g.setting) source.finish := by
  cases source <;> rfl

theorem run_setting (g : Generator) (action : Emit Unit) (finish : Draft → String) :
    (g.run action finish).2.setting = g.setting := by
  rw [run]
  cases action.run g.draft <;> rfl

/-- Writing leaves the settings as they are, whatever comes of it. -/
theorem generate_setting (g : Generator) (source : Source) :
    (g.generate source).2.setting = g.setting := by
  rw [generate_eq]
  exact run_setting g.clear _ _

/-- The draft that a generator has does not show in what it writes next. -/
theorem generate_answer_eq {g g' : Generator} (h : g.setting = g'.setting) (source : Source) :
    (g.generate source).1 = (g'.generate source).1 := by
  have hclear : g.clear = g'.clear := by rw [clear, clear, h]
  rw [generate_eq, generate_eq, hclear, h]

end Generator

end CodeTree.Lua
