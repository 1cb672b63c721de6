import CodeTree.Proofs.Dialects.Alike

/-! # What the target changes

Two targets refuse the same trees for the same reasons. Their texts differ in the attribute of constant
locals, which only Lua 5.4 has, and on LuaJIT in operators on bits, in division toward zero and in the
least integer.

* `AgreeOn`: what two targets have in common on some nodes.
* `alike_emitExpr`, `alike_emitStatements`: a tree is written alike for two targets.
* `targets_differ_only`: the answers of a generator for the three targets. -/

namespace CodeTree.Lua

set_option autoImplicit false

variable {P : Prop} {f : Bool → Bool} {g : Setting} {t t' : Target}

/-- Two targets write some nodes with one text, if the flags of declarations are changed by `f`. -/
def AgreeOn (f : Bool → Bool) (t t' : Target) (nodes : List Node) : Prop :=
  (∀ constant, (constant && t.hasConstants) = (f constant && t'.hasConstants)) ∧
    ∀ node ∈ nodes, WrittenAlike t t' node

theorem standsAlone_constants (e : Expr) :
    standsAlone (g.withTarget t) (e.revise { constant := f }) = standsAlone g e := by
  cases e <;> rfl

/-- No shared literal is the least integer. -/
theorem writtenAlike_sentinel (s : Sentinel) : WrittenAlike t t' (.expression (.atom s.atom)) := by
  cases s <;> cases t <;> cases t' <;> trivial

/-! ## Trees -/

/-- The flag of a declaration matters on Lua 5.4 only. -/
theorem compares_targets
    (h : P → ∀ constant, (constant && g.config.target.hasConstants) = (f constant && t.hasConstants)) :
    Compares (Alike P { constant := f }) g (g.withTarget t) { constant := f } :=
  comparison_alike.compares rfl (fun e => alike_refuse (.expression e))
    (fun s => alike_emitAtom fun _ => writtenAlike_sentinel s) alike_nameOf
    fun s constant => alike_emitLocalName s fun hP => h hP constant

theorem comparesAt_targets {node : Node} (h : P → WrittenAlike g.config.target t node) :
    ComparesAt (Alike P { constant := f }) g (g.withTarget t) { constant := f } node := by
  cases node with
  | expression e =>
    cases e with
    | atom a => exact alike_emitAtom h
    | binary => exact fun _ _ _ _ => alike_emitBinary h
    | call | property | construct => exact fun a _ => alike_checkArgument a.name a.passing
    | _ => trivial
  | statement s =>
    cases s with
    | expression value =>
      intro action action' haction
      rw [standsAlone_constants]
      split
      · exact comparison_alike.expressionLine rfl haction
      · exact alike_refuse (.statement (.expression value))
    | _ => trivial
  | member | raw => trivial

theorem comparesOn_of_agreeOn {nodes : List Node} (h : P → AgreeOn f g.config.target t nodes) :
    ComparesOn (Alike P { constant := f }) g (g.withTarget t) { constant := f } nodes :=
  fun node hnode => comparesAt_targets fun hP => (h hP).2 node hnode

/-- An expression is written alike for two targets. -/
theorem alike_emitExpr (e : Expr) (h : P → AgreeOn f g.config.target t e.rendered) :
    Alike P { constant := f } (emitExpr g e) (emitExpr (g.withTarget t) (e.revise { constant := f })) :=
  compares_emitExpr (compares_targets fun hP => (h hP).1) e (comparesOn_of_agreeOn h)

/-- A list of statements is written alike for two targets. -/
theorem alike_emitStatements (statements : List Statement)
    (h : P → AgreeOn f g.config.target t (renderedStatements statements)) :
    Alike P { constant := f } (emitStatements g statements)
      (emitStatements (g.withTarget t) (reviseStatements { constant := f } statements)) :=
  compares_emitStatements (compares_targets fun hP => (h hP).1) statements (comparesOn_of_agreeOn h)

/-! ## The generator -/

theorem Alike.answers {r : Revision} {action action' : Emit Unit} (h : Alike P r action action')
    (generator generator' : Generator) (finish : Draft → String) :
    (∃ text text', (generator.clear.run action finish).1 = .ok text ∧
      (generator'.clear.run action' finish).1 = .ok text' ∧ (P → text = text')) ∨
    ∃ error, (generator.clear.run action finish).1 = .error error ∧
      (generator'.clear.run action' finish).1 = .error (error.revise r) := by
  rcases h 0 with ⟨_, w, bit, w', bit', hadds, hadds', heq⟩ | ⟨error, hstops, hstops'⟩
  · exact .inl ⟨_, _, run_of_adds hadds, run_of_adds hadds', fun hP => by
      rw [(heq hP).1, (heq hP).2]⟩
  · exact .inr ⟨error, run_of_stops hstops, run_of_stops hstops'⟩

/-- A node that needs nothing that LuaJIT lacks: operators on bits, integer division, and a name for the
least integer. -/
def IsDialectFree : Node → Prop
  | .expression (.binary (.standard kind) _ _) =>
    kind ∉ [.bitwiseAnd, .bitwiseOr, .bitwiseXor, .shiftLeft, .shiftRight, .truncatedDivision]
  | .expression (.atom (.literal (.integer value))) => value ≠ Int64.minValue
  | _ => True

theorem agreeOn_luaJIT {nodes : List Node} (h : ∀ node ∈ nodes, IsDialectFree node) :
    AgreeOn id .lua53 .luaJIT nodes := by
  refine ⟨fun _ => rfl, fun node hnode => ?_⟩
  replace h := h node hnode
  cases node with
  | expression e =>
    cases e with
    | binary operator _ _ =>
      cases operator with
      | custom text => exact ⟨rfl, rfl⟩
      | standard kind =>
        revert h
        cases kind <;> simp [IsDialectFree, WrittenAlike, needsBitLibrary, binaryForm, bitFunction?,
          standardForm?, Target.hasNativeBitwise]
    | atom a =>
      cases a with
      | literal l =>
        cases l with
        | integer value =>
          have hvalue : value ≠ Int64.minValue := h
          simp [WrittenAlike, literalText, integerText, hvalue]
        | _ => rfl
      | _ => trivial
    | _ => trivial
  | _ => trivial

theorem agreeOn_lua54 (nodes : List Node) : AgreeOn (fun _ => false) .lua53 .lua54 nodes := by
  refine ⟨fun constant => by cases constant <;> rfl, fun node _ => ?_⟩
  cases node with
  | expression e =>
    cases e with
    | binary operator _ _ =>
      cases operator with
      | custom text => exact ⟨rfl, rfl⟩
      | standard kind => cases kind <;> exact ⟨rfl, rfl⟩
    | atom a =>
      cases a with
      | literal l => cases l <;> rfl
      | _ => trivial
    | _ => trivial
  | _ => trivial

/-- How the answers to one request differ from target to target. `plain` are the answers to the same
request without constants. -/
structure DifferOnly (answer plain : Target → Answer) (nodes : List Node) : Prop where
  refusals : ∀ t t' error, answer t = .error error ↔ answer t' = .error error
  constants : ∀ text, answer .lua53 = .ok text ↔ plain .lua54 = .ok text
  luaJIT : (∀ node ∈ nodes, IsDialectFree node) → answer .luaJIT = answer .lua53

theorem differOnly_of_alike {generator : Generator} {finish : Draft → String} {nodes : List Node}
    {action plain : Target → Emit Unit}
    (hsame : ∀ t t', Alike (AgreeOn id t t' nodes) {} (action t) (action t'))
    (hplain : ∀ t t', Alike (AgreeOn (fun _ => false) t t' nodes) { constant := fun _ => false }
      (action t) (plain t')) :
    DifferOnly (fun t => ((generator.withTarget t).clear.run (action t) finish).1)
      (fun t => ((generator.withTarget t).clear.run (plain t) finish).1) nodes where
  refusals t t' error := by
    rcases (hsame t t').answers (generator.withTarget t) (generator.withTarget t') finish with
      ⟨text, text', htext, htext', -⟩ | ⟨error', herror, herror'⟩
    · simp [htext, htext']
    · rw [EmitError.revise_id] at herror'
      rw [herror, herror']
  constants text := by
    rcases (hplain .lua53 .lua54).answers (generator.withTarget .lua53)
      (generator.withTarget .lua54) finish with
      ⟨text, text', htext, htext', heq⟩ | ⟨error, herror, herror'⟩
    · rw [htext, htext', heq (agreeOn_lua54 nodes)]
    · simp [herror, herror']
  luaJIT hfree := by
    rcases (hsame .lua53 .luaJIT).answers (generator.withTarget .lua53)
      (generator.withTarget .luaJIT) finish with
      ⟨text, text', htext, htext', heq⟩ | ⟨error, herror, herror'⟩
    · rw [htext, htext', heq (agreeOn_luaJIT hfree)]
    · rw [EmitError.revise_id] at herror'
      rw [herror, herror']

/-- No target refuses what another one accepts. Lua 5.3 and Lua 5.4 answer with one text once no
declaration is constant, and so do LuaJIT and Lua 5.3 if nothing is rendered that LuaJIT lacks. -/
theorem targets_differ_only (generator : Generator) :
    (∀ e, DifferOnly (fun t => ((generator.withTarget t).generateExpression e).1)
      (fun t => ((generator.withTarget t).generateExpression e.withoutConstants).1) e.rendered) ∧
    ∀ statements, DifferOnly (fun t => ((generator.withTarget t).generateStatements statements).1)
      (fun t => ((generator.withTarget t).generateStatements (withoutConstants statements)).1)
      (renderedStatements statements) := by
  refine ⟨fun e => ?_, fun statements => ?_⟩
  · have halike (f : Bool → Bool) (t t' : Target) : Alike (AgreeOn f t t' e.rendered) { constant := f }
        (emitExpr (generator.setting.withTarget t) e)
        (emitExpr (generator.setting.withTarget t') (e.revise { constant := f })) :=
      alike_emitExpr e id
    have hsame := halike id
    rw [Expr.revise_id] at hsame
    exact differOnly_of_alike hsame (halike fun _ => false)
  · have halike (f : Bool → Bool) (t t' : Target) :
        Alike (AgreeOn f t t' (renderedStatements statements)) { constant := f }
          (emitStatements (generator.setting.withTarget t) statements)
          (emitStatements (generator.setting.withTarget t')
            (reviseStatements { constant := f } statements)) :=
      alike_emitStatements statements id
    have hsame := halike id
    rw [reviseStatements_id] at hsame
    exact differOnly_of_alike hsame (halike fun _ => false)

/-- A constant local that is the quotient of two numbers is written alike for Lua 5.3 and LuaJIT. -/
theorem constant_quotient_targets :
    (((Generator.new ⟨["x"]⟩ {}).withTarget .luaJIT).generateStatements
        [.declaration ⟨⟨0⟩, none, some (.binary (.standard .division) (.literal (.integer 7))
          (.literal (.integer 2))), true⟩]).1 =
      (((Generator.new ⟨["x"]⟩ {}).withTarget .lua53).generateStatements
        [.declaration ⟨⟨0⟩, none, some (.binary (.standard .division) (.literal (.integer 7))
          (.literal (.integer 2))), true⟩]).1 :=
  ((targets_differ_only _).2 _).luaJIT (by
    have h₇ : (7 : Int64) ≠ Int64.minValue := by decide
    have h₂ : (2 : Int64) ≠ Int64.minValue := by decide
    simp [renderedStatements, Statement.rendered, renderedExpr?, Expr.rendered, Expr.literal,
      IsDialectFree, h₇, h₂])

end CodeTree.Lua
