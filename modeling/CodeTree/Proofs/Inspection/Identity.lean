import CodeTree.Lua.Error
import CodeTree.Proofs.Inspection.Trees

/-! # Debug texts identify trees

A debug text tells its tree but for the patterns of NaNs, and of those it tells nothing. The messages of
refusals carry debug texts of statements and nodes, and each of these is the message of one refusal only.

* `Expr.inspectAround_revise_oneNaN`, `Statement.inspect_oneNaN`: no text depends on which NaN is there.
* `inspect_identifies`: the same texts come from the same trees, and the same messages from the same
  refusals. -/

namespace CodeTree

set_option autoImplicit false

/-! ## NaNs -/

theorem Binary64.write_oneNaN (x : Binary64) (n : Notation) : x.oneNaN.write n = x.write n := by
  cases h : x.isNaN with
  | true => rw [write_of_isNaN h, write_of_isNaN (x.isNaN_oneNaN.trans h)]
  | false => rw [oneNaN, if_neg (by simp [h])]

theorem Atom.contents?_oneNaN (a : Atom) : a.oneNaN.contents? = a.contents? := by
  cases a with
  | literal l =>
    cases l with
    | float x => simp only [oneNaN, Literal.oneNaN, contents?, Literal.inspect, Literal.inspectRecord,
        Literal.variant, Literal.inspectValue, x.write_oneNaN]
    | _ => rfl
  | _ => rfl

theorem Atom.variant_oneNaN (a : Atom) : a.oneNaN.variant = a.variant := by
  cases a <;> rfl

theorem Expr.inspectAround_revise_oneNaN (e : Expr) (contents : Option String) :
    (e.revise .oneNaN).inspectAround contents = e.inspectAround contents := by
  cases e with
  | atom a =>
    simp only [revise, inspectAround, variant, isShared, sentinel?, Revision.atom_oneNaN,
      a.variant_oneNaN]
  | _ => rfl

mutual

theorem Expr.contents?_oneNaN : ∀ e : Expr, (e.revise .oneNaN).contents? = e.contents?
  | .shared _ => rfl
  | .atom a => a.contents?_oneNaN
  | .array elements kind => by
    simp only [Expr.revise, Expr.contents?, inspectExprs_oneNaN elements]
    rfl
  | .dictionary entries => by
    simp only [Expr.revise, Expr.contents?, inspectEntries_oneNaN entries]
  | .tuple elements => by
    simp only [Expr.revise, Expr.contents?, inspectExprs_oneNaN elements]
  | .unary operator operand => by
    simp only [Expr.revise, Expr.contents?, Expr.inspectAround_revise_oneNaN, operand.contents?_oneNaN]
  | .binary operator left right => by
    simp only [Expr.revise, Expr.contents?, Expr.inspectAround_revise_oneNaN, left.contents?_oneNaN,
      right.contents?_oneNaN]
  | .field site selection => by
    simp only [Expr.revise, Expr.contents?, inspectExpr?_oneNaN site]
    rfl
  | .call site selection arguments optional => by
    simp only [Expr.revise, Expr.contents?, Revision.argumentName_oneNaN, inspectExpr?_oneNaN site,
      inspectArguments_oneNaN arguments]
    rfl
  | .property site selection indices => by
    simp only [Expr.revise, Expr.contents?, Revision.argumentName_oneNaN, inspectExpr?_oneNaN site,
      inspectArguments_oneNaN indices]
    rfl
  | .construct type constructor arguments initializers => by
    simp only [Expr.revise, Expr.contents?, Revision.argumentName_oneNaN,
      Revision.initializerName_oneNaN, inspectArguments_oneNaN arguments,
      inspectArguments_oneNaN initializers]
    rfl
  | .allocate type constructor bounds initializers => by
    simp only [Expr.revise, Revision.keepsAllocation_oneNaN, if_true, Expr.contents?,
      Revision.initializerName_oneNaN, inspectExprs_oneNaN bounds, inspectArguments_oneNaN initializers]
    rfl
  | .element array indices => by
    simp only [Expr.revise, Expr.contents?, Expr.inspectAround_revise_oneNaN, array.contents?_oneNaN,
      inspectExprs_oneNaN indices]
  | .wrapped wrapper inner => by
    simp only [Expr.revise, Expr.contents?, Expr.inspectAround_revise_oneNaN, inner.contents?_oneNaN]
  | .conditional condition consequence alternative => by
    simp only [Expr.revise, Expr.contents?, Expr.inspectAround_revise_oneNaN,
      condition.contents?_oneNaN, consequence.contents?_oneNaN, inspectExpr?_oneNaN alternative]
  | .cast value type throwing safe => by
    simp only [Expr.revise, Expr.contents?, Expr.inspectAround_revise_oneNaN, value.contents?_oneNaN]
    rfl
  | .assigned value inverted => by
    simp only [Expr.revise, Expr.contents?, Expr.inspectAround_revise_oneNaN, value.contents?_oneNaN]
  | .method lambda parameters returns body locals => by
    simp only [Expr.revise, Expr.contents?, inspectParameters_oneNaN parameters,
      inspectStatements_oneNaN body, inspectLocals?_oneNaN locals]
    rfl
  | .anonymousType kind members => by
    simp only [Expr.revise, Expr.contents?, inspectMembers_oneNaN members]
termination_by structural x => x

theorem inspectExpr?_oneNaN : ∀ e : Option Expr, inspectExpr? (reviseExpr? .oneNaN e) = inspectExpr? e
  | none => rfl
  | some e => by
    simp only [reviseExpr?, inspectExpr?, Expr.inspectAround_revise_oneNaN, e.contents?_oneNaN]
termination_by structural x => x

theorem inspectExprs_oneNaN : ∀ es : List Expr, inspectExprs (reviseExprs .oneNaN es) = inspectExprs es
  | [] => rfl
  | e :: es => by
    simp only [reviseExprs, inspectExprs, Expr.inspectAround_revise_oneNaN, e.contents?_oneNaN,
      inspectExprs_oneNaN es]
termination_by structural x => x

theorem inspectEntries_oneNaN : ∀ entries : List (Expr × Expr),
    inspectEntries (reviseEntries .oneNaN entries) = inspectEntries entries
  | [] => rfl
  | (key, value) :: entries => by
    simp only [reviseEntries, inspectEntries, Expr.inspectAround_revise_oneNaN, key.contents?_oneNaN,
      value.contents?_oneNaN, inspectEntries_oneNaN entries]
termination_by structural x => x

theorem inspectArguments_oneNaN : ∀ arguments : List Argument,
    inspectArguments (reviseArguments .oneNaN id arguments) = inspectArguments arguments
  | [] => rfl
  | ⟨name, value, passing⟩ :: arguments => by
    simp only [reviseArguments, inspectArguments, Expr.inspectAround_revise_oneNaN,
      value.contents?_oneNaN, inspectArguments_oneNaN arguments, id]
termination_by structural x => x

theorem inspectParameters_oneNaN : ∀ parameters : List Parameter,
    inspectParameters (reviseParameters .oneNaN parameters) = inspectParameters parameters
  | [] => rfl
  | ⟨name, type, passing, value⟩ :: parameters => by
    simp only [reviseParameters, inspectParameters, inspectExpr?_oneNaN value,
      inspectParameters_oneNaN parameters]
    rfl
termination_by structural x => x

theorem inspectLocals_oneNaN : ∀ locals : List Declaration,
    inspectLocals (reviseLocals .oneNaN locals) = inspectLocals locals
  | [] => rfl
  | ⟨name, type, value, constant⟩ :: locals => by
    simp only [reviseLocals, Declaration.revise, inspectLocals, inspectExpr?_oneNaN value,
      inspectLocals_oneNaN locals]
    rfl
termination_by structural x => x

theorem inspectLocals?_oneNaN : ∀ locals : Option (List Declaration),
    inspectLocals? (reviseLocals? .oneNaN locals) = inspectLocals? locals
  | none => rfl
  | some locals => by
    simp only [reviseLocals?, inspectLocals?, inspectLocals_oneNaN locals]
termination_by structural x => x

theorem Member.inspect_oneNaN : ∀ m : Member, (m.revise .oneNaN).inspect = m.inspect
  | .field ⟨name, type, value, constant⟩ => by
    simp only [Member.revise, Declaration.revise, Member.inspect, inspectExpr?_oneNaN value]
    rfl
  | .method name parameters returns body => by
    simp only [Member.revise, Member.inspect, inspectParameters_oneNaN parameters,
      inspectStatements_oneNaN body]
    rfl
termination_by structural x => x

theorem inspectMembers_oneNaN : ∀ members : List Member,
    inspectMembers (reviseMembers .oneNaN members) = inspectMembers members
  | [] => rfl
  | m :: members => by
    simp only [reviseMembers, inspectMembers, m.inspect_oneNaN, inspectMembers_oneNaN members]
termination_by structural x => x

theorem Statement.inspect_oneNaN : ∀ s : Statement, (s.revise .oneNaN).inspect = s.inspect
  | .expression value => by
    simp only [Statement.revise, Statement.inspect, Expr.inspectAround_revise_oneNaN,
      value.contents?_oneNaN]
  | .declaration ⟨name, type, value, constant⟩ => by
    simp only [Statement.revise, Declaration.revise, Statement.inspect, inspectExpr?_oneNaN value]
    rfl
  | .assignment target value => by
    simp only [Statement.revise, Statement.inspect, Expr.inspectAround_revise_oneNaN,
      target.contents?_oneNaN, value.contents?_oneNaN]
  | .result value => by
    simp only [Statement.revise, Statement.inspect, inspectExpr?_oneNaN value]
  | .block body => by
    simp only [Statement.revise, Statement.inspect, inspectStatements_oneNaN body]
termination_by structural x => x

theorem inspectStatements_oneNaN : ∀ statements : List Statement,
    inspectStatements (reviseStatements .oneNaN statements) = inspectStatements statements
  | [] => rfl
  | s :: statements => by
    simp only [reviseStatements, inspectStatements, s.inspect_oneNaN,
      inspectStatements_oneNaN statements]
termination_by structural x => x

end

theorem Expr.inspect_oneNaN (e : Expr) : (e.revise .oneNaN).inspect = e.inspect := by
  rw [inspect, inspect, inspectAround_revise_oneNaN, contents?_oneNaN]

/-! ## Identity -/

/-- Expressions have the same text exactly if they are the same but for NaNs. -/
theorem Expr.inspect_eq_iff (a b : Expr) :
    a.inspect = b.inspect ↔ a.revise .oneNaN = b.revise .oneNaN := by
  refine ⟨(Inspect.tells_expr a b).of_eq, fun h => ?_⟩
  rw [← a.inspect_oneNaN, h, b.inspect_oneNaN]

theorem Statement.inspect_eq_iff (s t : Statement) :
    s.inspect = t.inspect ↔ s.revise .oneNaN = t.revise .oneNaN := by
  refine ⟨(Inspect.tells_statement s t).of_eq, fun h => ?_⟩
  rw [← s.inspect_oneNaN, h, t.inspect_oneNaN]

theorem Expr.inspect_node (e : Expr) : e.node.inspect = e.inspectNode := by
  cases e <;> exact String.empty_append

theorem Expr.inspectNode_eq_iff (a b : Expr) :
    a.inspectNode = b.inspectNode ↔ a.node.revise .oneNaN = b.node.revise .oneNaN := by
  rw [← a.inspect_node, ← b.inspect_node, inspect_eq_iff]

/-! ## Messages -/

namespace Lua

/-- How the messages of a kind of refusal begin. -/
def ErrorKind.heading : ErrorKind → String
  | unknownSymbol => "unknown symbol: "
  | notPortable => "raw passthrough expression ("
  | unsupportedStatement => "Unsupported statement: "
  | unsupportedExpression => "Unsupported expression: "
  | unsupportedOperator => "Unsupported operator: "
  | formatting => "Formatting error: "

theorem prefix_append (a b : String) : a.toList <+: (a ++ b).toList := by
  rw [String.toList_append]
  exact List.prefix_append _ _

theorem prefix_append_of_eq {a u b c : String} (h : u = b ++ c) : (a ++ b).toList <+: (a ++ u).toList := by
  rw [h, ← String.append_assoc]
  exact prefix_append _ _

theorem heading_prefix_message (error : EmitError) :
    error.kind.heading.toList <+: error.message.toList := by
  cases error with
  | tree error =>
    cases error with
    | unknownSymbol symbol => exact prefix_append "unknown symbol: " _
    | notPortable lines =>
      refine (prefix_append "raw passthrough expression (" (toString lines)).trans ?_
      exact prefix_append _ " line(s)) is not portable across backends"
  | statement s => exact prefix_append "Unsupported statement: " _
  | expression e => exact prefix_append "Unsupported expression: " _
  | argumentPassing passing =>
    exact (prefix_append "Unsupported expression: " passing.name).trans (prefix_append _ _)
  | parameterPassing passing =>
    exact (prefix_append "Unsupported expression: " passing.name).trans (prefix_append _ _)
  | namedArgument name =>
    have hheading : "Unsupported expression: ".toList <+:
        "Unsupported expression: named argument '".toList := by simp
    exact hheading.trans ((prefix_append _ name).trans (prefix_append _ "'"))
  | unnamedInitializer => decide
  | unaryOperator kind => exact prefix_append "Unsupported operator: " _
  | binaryOperator kind => exact prefix_append "Unsupported operator: " _
  | formatting => decide

theorem eq_of_heading {k l : ErrorKind} (h : k.heading.toList <+: l.heading.toList) :
    k = l := by
  cases k <;> cases l <;> first | rfl | exact absurd h (by decide)

/-- The message tells the kind of a refusal. -/
theorem kind_eq_of_message_eq {a b : EmitError} (h : a.message = b.message) : a.kind = b.kind := by
  have ha := heading_prefix_message a
  have hb := heading_prefix_message b
  rw [← h] at hb
  rcases List.prefix_or_prefix_of_prefix ha hb with hbegins | hbegins
  · exact eq_of_heading hbegins
  · exact (eq_of_heading hbegins).symm

/-- The message of an unsupported statement is that of no other refusal. -/
theorem message_statement_eq_iff (s : Statement) (error : EmitError) :
    (EmitError.statement s).message = error.message ↔
      ∃ t, error = .statement t ∧ s.revise .oneNaN = t.revise .oneNaN := by
  constructor
  · intro h
    have hkind := kind_eq_of_message_eq h
    cases error with
    | statement t => exact ⟨t, rfl, (s.inspect_eq_iff t).1 ((String.append_right_inj _).1 h)⟩
    | tree error => cases error <;> cases hkind
    | _ => cases hkind
  · rintro ⟨t, rfl, h⟩
    exact congrArg ("Unsupported statement: " ++ ·) ((s.inspect_eq_iff t).2 h)

/-- In the text of a node there is no space behind the first word. -/
theorem not_spaced_prefix_inspectNode (e : Expr) {word : String} (hword : Inspect.IsWord word) :
    ¬ word.toList ++ [' '] <+: e.inspectNode.toList := by
  rintro ⟨rest, h⟩
  rw [List.append_assoc] at h
  have hspace : ∀ c ∈ ([' '] ++ rest).head?, Inspect.isWordPart c = false := by
    rintro c ⟨⟩
    decide
  rw [Expr.inspectNode] at h
  cases hcontents : e.contents? with
  | none =>
    rw [hcontents, assemble, ← List.append_nil e.variant.toList] at h
    have hrest := stretch_inj hword.isWordPart e.isWord_variant.isWordPart hspace (by simp) h
    exact absurd hrest.2 (by simp)
  | some contents =>
    rw [hcontents, assemble, Inspect.tagged, String.toList_append, String.toList_append,
      String.toList_append, List.append_assoc, List.append_assoc] at h
    have hrest := stretch_inj hword.isWordPart e.isWord_variant.isWordPart hspace
      (by rintro c ⟨⟩; decide) h
    exact absurd hrest.2 (by simp)

/-- The message of an unsupported node is that of no other refusal. -/
theorem message_expression_eq_iff (e : Expr) (error : EmitError) :
    (EmitError.expression e).message = error.message ↔
      ∃ f, error = .expression f ∧ e.node.revise .oneNaN = f.node.revise .oneNaN := by
  constructor
  · intro h
    have hkind := kind_eq_of_message_eq h
    -- The other refusals of this kind go on with a word and a space.
    have hspaced {word : String} (hword : Inspect.IsWord word)
        (hbegins : ("Unsupported expression: " ++ word ++ " ").toList <+: error.message.toList) :
        False := by
      rw [← h, String.append_assoc, String.toList_append, String.toList_append] at hbegins
      have hmessage : (EmitError.expression e).message.toList
          = "Unsupported expression: ".toList ++ e.inspectNode.toList := String.toList_append
      rw [hmessage, List.prefix_append_right_inj] at hbegins
      exact not_spaced_prefix_inspectNode e hword hbegins
    cases error with
    | expression f => exact ⟨f, rfl, (e.inspectNode_eq_iff f).1 ((String.append_right_inj _).1 h)⟩
    | argumentPassing passing =>
      have hspace : " argument passing" = " " ++ "argument passing" := rfl
      exact (hspaced (Inspect.isWord_passing passing) (prefix_append_of_eq hspace)).elim
    | parameterPassing passing =>
      have hspace : " parameter definition" = " " ++ "parameter definition" := rfl
      exact (hspaced (Inspect.isWord_passing passing) (prefix_append_of_eq hspace)).elim
    | namedArgument name =>
      have hword : Inspect.IsWord "named" := Inspect.isWord_ofList rfl
      have hheading : ("Unsupported expression: " ++ "named" ++ " ").toList <+:
          "Unsupported expression: named argument '".toList := by simp
      exact (hspaced hword
        (hheading.trans ((prefix_append _ name).trans (prefix_append _ "'")))).elim
    | unnamedInitializer =>
      have hword : Inspect.IsWord "property" := Inspect.isWord_ofList rfl
      exact (hspaced hword (by decide)).elim
    | tree error => cases error <;> cases hkind
    | _ => cases hkind
  · rintro ⟨f, rfl, h⟩
    exact congrArg ("Unsupported expression: " ++ ·) ((e.inspectNode_eq_iff f).2 h)

end Lua

/-- A debug text identifies its tree, node by node and with the same nodes shared, but for the patterns of
NaNs, and the mark in front of it says whether the tree itself is shared. So what stands in the message of
an unsupported statement or node is one statement or node, and no other refusal has this message. -/
theorem inspect_identifies :
    (∀ a b : Expr, a.inspect = b.inspect ↔ a.revise .oneNaN = b.revise .oneNaN) ∧
    (∀ s t : Statement, s.inspect = t.inspect ↔ s.revise .oneNaN = t.revise .oneNaN) ∧
    (∀ e : Expr, e.inspect.toList.head? = some '&' ↔ e.isShared = true) ∧
    (∀ (s : Statement) (error : Lua.EmitError),
      (Lua.EmitError.statement s).message = error.message ↔
        ∃ t, error = .statement t ∧ s.revise .oneNaN = t.revise .oneNaN) ∧
    (∀ (e : Expr) (error : Lua.EmitError),
      (Lua.EmitError.expression e).message = error.message ↔
        ∃ f, error = .expression f ∧ e.node.revise .oneNaN = f.node.revise .oneNaN) :=
  ⟨Expr.inspect_eq_iff, Statement.inspect_eq_iff,
    fun e => Inspect.head?_inspectAround e e.contents?, Lua.message_statement_eq_iff,
    Lua.message_expression_eq_iff⟩

end CodeTree
