import CodeTree.Proofs.Lines.Opening
import CodeTree.Proofs.Lines.Placement

/-! # What a line begins with

A line that begins with a parenthesis goes on with the line before, as a call. An expression statement
that would do so gets a semicolon in front, and no other statement gets one. Declarations, results and
blocks begin with a word of their own; an assignment begins like its target.

* `emitBare`: a statement without its indentation, the semicolon and the line break behind it.
* `begins_emitBare`: what it begins with.
* `line_begins_with_paren_iff`: the lines that begin with a parenthesis are assignments. -/

namespace CodeTree

set_option autoImplicit false

def Statement.isExpression : Statement → Bool
  | expression _ => true
  | _ => false

/-- Whether the text of a statement begins with a parenthesis, if nothing is put in front. -/
def Statement.opensParen (target : Lua.Target) : Statement → Bool
  | expression value => value.opensParen target
  | assignment assigned _ => assigned.opensParen target
  | _ => false

namespace Lua

variable {g : Setting} {n : Nat} {v w : List Char}

/-! ## Statements without precautions -/

/-- Writes a statement without its indentation and with nothing in front. -/
def emitBare (g : Setting) : Statement → Emit Unit
  | .expression value => emitExpr g value
  | .declaration declared => emitLocal g declared
  | .assignment target value => do
    emitExpr g target
    write " = "
    emitExpr g value
  | .result none => write "return"
  | .result (some value) => do
    write "return "
    emitExpr g value
  | .block body => do
    write "do\n"
    deeper (emitStatements g body)
    indent g.config.indentWidth
    write "end"

/-- The semicolon in front of an expression statement. -/
def separator (s : Statement) (v : List Char) : List Char := if s.isExpression then semicolon v else []

theorem exists_emitBare {s : Statement} (hw : Yields (emitStatement g s) n () w) :
    ∃ v, Yields (emitBare g s) n () v ∧
      w = List.replicate (n * g.config.indentWidth) ' ' ++ separator s v ++ v ++ ['\n'] := by
  cases s with
  | expression value =>
    obtain ⟨-, v, hv, rfl⟩ := yields_emitStatement_expression.1 hw
    exact ⟨v, hv, rfl⟩
  | declaration declared =>
    obtain ⟨v, hv, rfl⟩ := yields_emitStatement_declaration.1 hw
    exact ⟨v, hv, by simp [separator, Statement.isExpression]⟩
  | assignment target value =>
    obtain ⟨t, v, ht, hv, rfl⟩ := yields_emitStatement_assignment.1 hw
    refine ⟨t ++ " = ".toList ++ v, ?_, by simp [separator, Statement.isExpression]⟩
    simpa [emitBare] using ⟨t, ht, v, hv, rfl⟩
  | result value =>
    cases value with
    | none =>
      rw [yields_emitStatement_result_none.1 hw]
      exact ⟨_, yields_write.2 rfl, by simp [separator, Statement.isExpression]⟩
    | some value =>
      obtain ⟨v, hv, rfl⟩ := yields_emitStatement_result_some.1 hw
      refine ⟨"return ".toList ++ v, ?_, by simp [separator, Statement.isExpression]⟩
      simpa [emitBare] using hv
  | block body =>
    obtain ⟨b, hb, rfl⟩ := yields_emitStatement_block.1 hw
    refine ⟨"do\n".toList ++ b ++ List.replicate (n * g.config.indentWidth) ' ' ++ "end".toList, ?_,
      by simp [separator, Statement.isExpression]⟩
    simpa [emitBare] using hb

/-- What a statement begins with: the word of its kind, or what its expression begins with. -/
theorem begins_emitBare {s : Statement} (h : ∀ node ∈ s.rendered, Worded g node)
    (hv : Yields (emitBare g s) n () v) : Begins v (s.opensParen g.config.target) := by
  cases s with
  | expression value =>
    rw [Statement.rendered, List.forall_mem_cons] at h
    exact begins_emitExpr value h.2 hv
  | declaration declared =>
    obtain ⟨name, type, value, constant⟩ := declared
    replace hv : Yields (emitLocal g ⟨name, type, value, constant⟩) n () v := hv
    cases value with
    | none =>
      obtain ⟨text, -, rfl⟩ := yields_emitLocal_none.1 hv
      exact begins_letter rfl _
    | some value =>
      obtain ⟨text, u, -, -, rfl⟩ := yields_emitLocal_some.1 hv
      exact begins_letter rfl _
  | assignment target value =>
    simp only [Statement.rendered, List.forall_mem_cons, List.forall_mem_append] at h
    obtain ⟨t, ht, u, -, rfl⟩ := yields_unit_bind.1 hv
    exact (begins_emitExpr target h.2.1 ht).append u
  | result value =>
    cases value with
    | none =>
      rw [yields_write.1 hv]
      exact begins_letter rfl _
    | some value =>
      obtain ⟨_, hreturn, u, -, rfl⟩ := yields_unit_bind.1 hv
      rw [yields_write.1 hreturn]
      exact begins_letter rfl _
  | block body =>
    obtain ⟨_, hdo, u, -, rfl⟩ := yields_unit_bind.1 hv
    rw [yields_write.1 hdo]
    exact begins_letter rfl _

theorem separator_eq {s : Statement} {target : Target} (h : Begins v (s.opensParen target)) :
    separator s v = if s.isExpression && s.opensParen target then [';'] else [] := by
  cases hs : s.isExpression with
  | false => simp [separator, hs]
  | true => simp [separator, semicolon, hs, h.head_iff]

theorem head_line_iff {s : Statement} {target : Target} (h : Begins v (s.opensParen target)) :
    (separator s v ++ v).head? = some '(' ↔
      ∃ assigned value, s = .assignment assigned value ∧ assigned.opensParen target = true := by
  have hhead := h.head_iff
  rw [separator_eq h]
  cases s with
  | expression value =>
    refine iff_of_false ?_ nofun
    cases hparen : (Statement.expression value).opensParen target with
    | true => simp [Statement.isExpression]
    | false =>
      rw [hparen] at hhead
      simpa [Statement.isExpression] using hhead
  | assignment assigned value => simpa [Statement.isExpression, Statement.opensParen] using hhead
  | declaration | result | block =>
    exact iff_of_false (by simpa [Statement.isExpression, Statement.opensParen] using hhead) nofun

/-! ## The generator -/

/-- Every statement of an accepted list has a line of its own at the beginning of a line of the text, also
below blocks and methods. The line is the statement itself, with one semicolon in front if it is an
expression statement that begins with a parenthesis. It begins with a parenthesis exactly if it is an
assignment whose target does. -/
theorem line_begins_with_paren_iff {names : NameTable} {config : Config} {statements : List Statement}
    {text : String}
    (haccepted : ((Generator.new names config).generateStatements statements).1 = .ok text)
    (hraw : ∀ node ∈ renderedStatements statements, node.isRaw = false)
    (hnames : ∀ node ∈ renderedStatements statements, ∀ s ∈ node.symbols, ∀ name ∈ names.resolve s,
      isIdentifier name = true) :
    ∀ s, .statement s ∈ renderedStatements statements →
      ∃ before line v after n,
        '\n' :: text.toList =
          before ++ '\n' :: List.replicate (n * config.indentWidth) ' ' ++ line ++ '\n' :: after ∧
        Yields (emitBare ⟨names, config⟩ s) n () v ∧
        line = (if s.isExpression && s.opensParen config.target then [';'] else []) ++ v ∧
        (line.head? = some '(' ↔
          ∃ target value, s = .assignment target value ∧ target.opensParen config.target = true) := by
  intro s hs
  obtain ⟨w, bit, hw, rfl⟩ := generateStatements_eq_ok.1 haccepted
  replace hw : Yields (emitStatements ⟨names, config⟩ statements) 0 () w := ⟨bit, hw⟩
  have hprelude : EndsLine (if bit then bitPrelude else "").toList := by
    cases bit
    · exact endsLine_nil
    · exact endsLine_newline "local bit = require('bit')".toList
  have hplaced := (allPlaced_emitStatements statements hw).behind hprelude
  obtain ⟨⟨before, t, after, n, htext, ht⟩, hbelow⟩ := hplaced s hs
  obtain ⟨v, hv, rfl⟩ := exists_emitBare ht
  have hbegins := begins_emitBare (fun node hnode =>
    ⟨hraw node (hbelow hnode), hnames node (hbelow hnode)⟩) hv
  refine ⟨before, separator s v ++ v, v, after, n, ?_, hv, by rw [separator_eq hbegins],
    head_line_iff hbegins⟩
  rw [String.toList_append, String.toList_ofList, htext]
  simp

/-- A guarded call behind a declaration has a line of its own, behind a semicolon. -/
theorem line_of_guarded_call :
    ∃ before line v after n,
      '\n' :: "local a = x\n;(function(t) if t == nil then return nil end return t:f() end)(x)\n".toList =
        before ++ '\n' :: List.replicate (n * 2) ' ' ++ line ++ '\n' :: after ∧
      Yields (emitBare ⟨⟨["a", "x", "f"]⟩, {}⟩
        (.expression (.call (some (.identifier ⟨1⟩)) ⟨⟨2⟩, true, false⟩ [] false))) n () v ∧
      line = ';' :: v ∧ line.head? ≠ some '(' := by
  obtain ⟨before, line, v, after, n, htext, hv, hline, hparen⟩ :=
    @line_begins_with_paren_iff ⟨["a", "x", "f"]⟩ {}
      [.declaration ⟨⟨0⟩, none, some (.identifier ⟨1⟩), false⟩,
        .expression (.call (some (.identifier ⟨1⟩)) ⟨⟨2⟩, true, false⟩ [] false)] _ rfl
      (by decide) (by decide)
      (.expression (.call (some (.identifier ⟨1⟩)) ⟨⟨2⟩, true, false⟩ [] false))
      (by simp [renderedStatements, Statement.rendered])
  refine ⟨before, line, v, after, n, htext, hv, hline, fun h => ?_⟩
  obtain ⟨target, value, hassignment, -⟩ := hparen.1 h
  cases hassignment

/-- An assignment to a field of an expression in parentheses is accepted behind a declaration, and begins
with a parenthesis there: the two lines are read as `local a = x(x).f`, which no `=` can follow. -/
theorem not_separated_assignment :
    ((Generator.new ⟨["a", "x", "f"]⟩ {}).generateStatements
      [.declaration ⟨⟨0⟩, none, some (.identifier ⟨1⟩), false⟩,
        .assignment (.field (some (.wrapped .parentheses (.identifier ⟨1⟩))) (.named ⟨2⟩))
          (.literal (.integer 1))]).1 = .ok "local a = x\n(x).f = 1\n" ∧
    ¬ ∀ s, .statement s ∈ renderedStatements
        [.declaration ⟨⟨0⟩, none, some (.identifier ⟨1⟩), false⟩,
          .assignment (.field (some (.wrapped .parentheses (.identifier ⟨1⟩))) (.named ⟨2⟩))
            (.literal (.integer 1))] →
      ∀ n line, Yields (emitStatement ⟨⟨["a", "x", "f"]⟩, {}⟩ s) n ()
        (List.replicate (n * 2) ' ' ++ line) → line.head? ≠ some '(' := by
  refine ⟨rfl, fun h => ?_⟩
  have hsite : Yields (emitExpr ⟨⟨["a", "x", "f"]⟩, {}⟩ (.wrapped .parentheses (.identifier ⟨1⟩))) 0 ()
      "(x)".toList :=
    yields_emitExpr_parentheses.2 ⟨['x'], yields_emitAtom_identifier.2 ⟨"x", rfl, rfl⟩, rfl⟩
  have htarget : Yields (emitExpr ⟨⟨["a", "x", "f"]⟩, {}⟩
      (.field (some (.wrapped .parentheses (.identifier ⟨1⟩))) (.named ⟨2⟩))) 0 () "(x).f".toList :=
    yields_emitExpr_field_some.2 ⟨"f", _, rfl, hsite, rfl⟩
  have hvalue : Yields (emitExpr ⟨⟨["a", "x", "f"]⟩, {}⟩ (.literal (.integer 1))) 0 () ['1'] :=
    yields_emitAtom_literal.2 rfl
  have hassignment := yields_emitStatement_assignment.2 ⟨_, _, htarget, hvalue, rfl⟩
  exact h _ (by simp [renderedStatements, Statement.rendered]) 0 "(x).f = 1\n".toList hassignment rfl

end Lua

end CodeTree
