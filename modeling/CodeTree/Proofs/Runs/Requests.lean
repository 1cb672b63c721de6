import CodeTree.Proofs.Emission.Source

/-! # A generator at work

A generator serves one request after another: it writes an expression or a list of statements, or takes
another dialect from then on. A run that is refused leaves its draft behind as far as it got, with the
depth it had reached and the mark of the `bit` library. The next run clears all of it and no run touches
the settings, so nothing but the dialect selected last is left of what was served before.

* `Request`: what a generator can be asked for.
* `Generator.serve` and `Generator.serveAll`: one request, and one after another.
* `targetAfter`: the dialect that was selected last.
* `served_like_new`: each answer is that of a new generator. -/

namespace CodeTree.Lua

set_option autoImplicit false

/-- What a generator can be asked for. -/
inductive Request
  | text (source : Source)
  | target (target : Target)

namespace Generator

/-- Serves a request. A dialect is selected without a text. -/
def serve (g : Generator) : Request → Option Answer × Generator
  | .text source => (some (g.generate source).1, (g.generate source).2)
  | .target target => (none, g.withTarget target)

/-- Serves requests one after another, each with the generator that the one before left. -/
def serveAll (g : Generator) : List Request → List (Option Answer) × Generator
  | [] => ([], g)
  | request :: requests =>
    let rest := (g.serve request).2.serveAll requests
    ((g.serve request).1 :: rest.1, rest.2)

end Generator

/-- The dialect after a request. -/
def Request.select (target : Target) : Request → Target
  | text _ => target
  | .target selected => selected

/-- The dialect after some requests: the one selected last, or else the first one. -/
def targetAfter (target : Target) (requests : List Request) : Target :=
  requests.foldl Request.select target

namespace Generator

theorem serve_setting (g : Generator) (request : Request) :
    (g.serve request).2.setting =
      (g.withTarget (request.select g.setting.config.target)).setting := by
  cases request with
  | text source => exact generate_setting g source
  | target target => rfl

theorem serve_answer_eq {g g' : Generator} (h : g.setting = g'.setting) (request : Request) :
    (g.serve request).1 = (g'.serve request).1 := by
  cases request with
  | text source => exact congrArg some (generate_answer_eq h source)
  | target target => rfl

/-- After any requests a generator answers each further one as a new generator with its settings and the
dialect selected last, and these are the settings it ends with. -/
theorem served_like_new (g : Generator) (requests : List Request) :
    (∀ i : Nat, (g.serveAll requests).1[i]? = requests[i]?.map fun request =>
      (((new g.setting.names g.setting.config).withTarget
        (targetAfter g.setting.config.target (requests.take i))).serve request).1) ∧
    (g.serveAll requests).2.setting =
      ((new g.setting.names g.setting.config).withTarget
        (targetAfter g.setting.config.target requests)).setting := by
  induction requests generalizing g with
  | nil => exact ⟨fun _ => rfl, rfl⟩
  | cons request requests ih =>
    -- The rest is served by the generator that the first request left.
    obtain ⟨hanswers, hsetting⟩ := ih (g.serve request).2
    rw [serve_setting] at hanswers hsetting
    refine ⟨fun i => ?_, hsetting⟩
    cases i with
    | zero =>
      have hsame : g.setting = ((new g.setting.names g.setting.config).withTarget
        g.setting.config.target).setting := rfl
      exact congrArg some (serve_answer_eq hsame request)
    | succ i => exact hanswers i

/-- A refusal inside a block leaves a draft that is one block deep and marked, and the next text shows
nothing of it. -/
example :
    let operand : Expr := .binary (.standard .bitwiseAnd) (.identifier ⟨0⟩) (.identifier ⟨1⟩)
    let request : Request := .text (.statements [.block [.result (some operand)]])
    let g := (new ⟨["x"]⟩ { target := .luaJIT })
    (g.serve request).2.draft = ⟨"do\n  return bit.band(x, ", 1, true⟩ ∧
      (g.serveAll [request, .target .lua54, .text (.expression .nil)]).1[2]? = some (some (.ok "nil")) :=
  ⟨rfl, rfl⟩

end Generator

end CodeTree.Lua
