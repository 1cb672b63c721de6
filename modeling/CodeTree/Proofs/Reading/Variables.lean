import CodeTree.Proofs.Reading.Chunk
import CodeTree.Proofs.Reading.Suffixes

/-! # What is assigned to

In Lua values are assigned to variables: names, fields and elements. A tree can assign to any expression,
and nothing looks at it: an assignment is accepted exactly if its target and its value are, each for
itself. What is written for the target is a variable or is not, whatever surrounds it.

* `Expr.hasVariableForm`: whether a variable of Lua is written for an expression.
* `isVariable_toLua?`: that this is so in Lua.
* `generateStatements_assignment_isOk`: which assignments are accepted.
* `assigned_isVariable_iff`: the targets in an accepted tree. -/

namespace CodeTree

set_option autoImplicit false

open Lua (Target)

/-- Of the literals only those that Lua has fields of `math` for are written as variables. -/
def Literal.hasVariableForm (target : Target) : Literal → Bool
  | integer value => decide (value = Int64.minValue) && target.hasIntegers
  | float value => value.isInfinite && !value.isNaN && !value.isNegative
  | string _ | character _ | boolean _ => false

def Atom.hasVariableForm (target : Target) : Atom → Bool
  | nil => false
  | literal value => value.hasVariableForm target
  | _ => true

/-- Whether what is written for an expression is a variable in Lua. A guarded access is a call, and with
indices behind it an element. Plus, casts and an element access without indices leave no trace and are
looked through. -/
def Expr.hasVariableForm (target : Target) : Expr → Bool
  | shared s => s.atom.hasVariableForm target
  | atom a => a.hasVariableForm target
  | unary (.standard .plus) operand => operand.hasVariableForm target
  | cast value _ _ _ => value.hasVariableForm target
  | field site selection => site.isNone || !selection.nilSafe
  | property site selection indices => !indices.isEmpty || site.isNone || !selection.nilSafe
  | element indexed [] => indexed.hasVariableForm target
  | element _ (_ :: _) => true
  | _ => false

namespace Lua

variable {ν : Type} {tag : Origin → String → ν} {g : Setting}

/-! ## What is a variable -/

theorem isVariable_signed (negative : Bool) (x : Exp ν) :
    (signed negative x).isVariable = (!negative && x.isVariable) := by
  cases negative <;> rfl

theorem isVariable_literalExp (target : Target) (l : Literal) :
    (literalExp tag target l).isVariable = l.hasVariableForm target := by
  cases l with
  | string value | character value | boolean value => rfl
  | integer value =>
    rw [literalExp, integerExp, Literal.hasVariableForm]
    by_cases hleast : value = Int64.minValue ∧ target.hasIntegers = true
    · rw [if_pos hleast]
      simp [hleast, Exp.isVariable]
    · rw [if_neg hleast, isVariable_signed]
      simpa [Exp.isVariable] using hleast
  | float value =>
    rw [literalExp, floatExp, Literal.hasVariableForm]
    cases value.isNaN <;> cases value.isInfinite <;> cases value.isNegative <;> rfl

theorem isVariable_atom {a : Atom} {x : Exp ν} (h : atomExp? tag g a = some x) :
    x.isVariable = a.hasVariableForm g.config.target := by
  cases a with
  | nil =>
    cases h
    rfl
  | literal l =>
    cases h
    exact isVariable_literalExp _ l
  | selfReference =>
    obtain rfl : given tag "self" = x := by simpa [atomExp?] using h
    rfl
  | identifier | localVariable | typeReference =>
    obtain ⟨name, -, rfl⟩ := Option.map_eq_some_iff.1 h
    rfl
  | enumValue value =>
    simp only [atomExp?, Option.bind_eq_bind, Option.bind_eq_some_iff, Option.some.injEq] at h
    obtain ⟨type, -, name, -, rfl⟩ := h
    rfl
  | propertyValue | inherited | selector | default | raw => cases h

theorem isVariable_unaryExp {operator : Operator UnaryKind} {x z : Exp ν}
    (hplus : operator ≠ .standard .plus) (h : unaryExp? operator x = some z) : z.isVariable = false := by
  match operator with
  | .standard .plus => exact absurd rfl hplus
  | .standard .addressOf => cases h
  | .standard .minus | .standard .not | .custom text =>
    cases h
    rfl

theorem isVariable_binaryExp {target : Target} {operator : Operator BinaryKind} {x y z : Exp ν}
    (h : binaryExp? tag target operator x y = some z) : z.isVariable = false := by
  cases operator with
  | custom text =>
    cases h
    rfl
  | standard kind =>
    rw [binaryExp?] at h
    split at h
    · cases h
      rfl
    · unfold standardExp? at h
      split at h
      · cases h
        rfl
      · cases h
        rfl
      · obtain ⟨op, -, rfl⟩ := Option.map_eq_some_iff.1 h
        rfl

theorem isVariable_memberExp (site : Option (Bool × Exp ν)) (selection : Selection) (member : String) :
    (memberExp tag site selection false member none).isVariable = (site.isNone || !selection.nilSafe) := by
  rcases site with - | ⟨isType, x⟩
  · rfl
  · cases hguard : selection.nilSafe <;> simp [memberExp, hguard, guarded, selected, Exp.isVariable]

theorem not_isVariable_memberExp_some (site : Option (Bool × Exp ν)) (selection : Selection)
    (optional : Bool) (member : String) (arguments : List (Exp ν)) :
    (memberExp tag site selection optional member (some arguments)).isVariable = false := by
  rcases site with - | ⟨isType, x⟩
  · rfl
  · unfold memberExp
    dsimp only
    split
    · rfl
    · cases isType <;> rfl

theorem isVariable_indexed (x : Exp ν) (keys : List (Exp ν)) :
    (indexed x keys).isVariable = (!keys.isEmpty || x.isVariable) := by
  induction keys generalizing x with
  | nil => rfl
  | cons key keys ih =>
    rw [indexed, List.foldl_cons, ← indexed, ih]
    simp [Exp.isVariable]

theorem isNone_toLuaSite? {site : Option Expr} {s : Option (Bool × Exp ν)}
    (h : toLuaSite? tag g site = some s) : s.isNone = site.isNone := by
  cases site with
  | none =>
    cases h
    rfl
  | some e =>
    obtain ⟨x, -, hs⟩ := Option.bind_eq_some_iff.1 h
    cases hs
    rfl

theorem isEmpty_toLuaArguments? {arguments : List Argument} {xs : List (Exp ν)}
    (h : toLuaArguments? tag g arguments = some xs) : xs.isEmpty = arguments.isEmpty := by
  cases arguments with
  | nil =>
    cases h
    rfl
  | cons argument arguments =>
    obtain ⟨_, _, _⟩ := argument
    simp only [toLuaArguments?, Option.bind_eq_bind, Option.bind_eq_some_iff, Option.some.injEq] at h
    obtain ⟨_, -, _, -, rfl⟩ := h
    rfl

/-- What is written for an expression is a variable exactly if the expression has the form for it. -/
theorem isVariable_toLua? : ∀ (e : Expr) {x : Exp ν}, toLua? tag g e = some x →
    x.isVariable = e.hasVariableForm g.config.target
  | .shared s, x, h => isVariable_atom h
  | .atom a, x, h => isVariable_atom h
  | .array _ _, x, h | .tuple _, x, h | .dictionary _, x, h => by
    simp only [toLua?, Option.bind_eq_bind, Option.bind_eq_some_iff, Option.some.injEq] at h
    obtain ⟨_, -, rfl⟩ := h
    rfl
  | .unary (.standard .plus) operand, x, h => by
    obtain ⟨y, hy, hx⟩ := Option.bind_eq_some_iff.1 h
    obtain rfl : y = x := by simpa [unaryExp?] using hx
    exact isVariable_toLua? operand hy
  | .unary (.standard .minus) _, x, h | .unary (.standard .not) _, x, h
  | .unary (.standard .addressOf) _, x, h | .unary (.custom _) _, x, h => by
    obtain ⟨_, -, hx⟩ := Option.bind_eq_some_iff.1 h
    exact isVariable_unaryExp (by simp) hx
  | .binary _ _ _, x, h => by
    obtain ⟨_, -, h⟩ := Option.bind_eq_some_iff.1 h
    obtain ⟨_, -, hx⟩ := Option.bind_eq_some_iff.1 h
    exact isVariable_binaryExp hx
  | .field _ _, x, h => by
    simp only [toLua?, Option.bind_eq_bind, Option.bind_eq_some_iff, Option.some.injEq] at h
    obtain ⟨s, hs, _, -, rfl⟩ := h
    rw [isVariable_memberExp, isNone_toLuaSite? hs, Expr.hasVariableForm]
  | .call _ _ _ _, x, h => by
    simp only [toLua?, Option.bind_eq_bind, Option.bind_eq_some_iff, Option.some.injEq] at h
    obtain ⟨_, -, _, -, _, -, rfl⟩ := h
    exact not_isVariable_memberExp_some _ _ _ _ _
  | .property _ _ _, x, h => by
    simp only [toLua?, Option.bind_eq_bind, Option.bind_eq_some_iff, Option.some.injEq] at h
    obtain ⟨s, hs, _, -, keys, hkeys, rfl⟩ := h
    rw [isVariable_indexed, isVariable_memberExp, isNone_toLuaSite? hs, isEmpty_toLuaArguments? hkeys,
      Expr.hasVariableForm, Bool.or_assoc]
  | .construct _ _ _ _, x, h => by
    simp only [toLua?, Option.bind_eq_bind, Option.bind_eq_some_iff, Option.some.injEq] at h
    obtain ⟨_, -, _, -, _, -, assignments, -, rfl⟩ := h
    cases assignments <;> rfl
  | .allocate _ _ _ _, x, h => by
    cases h
    rfl
  | .element array [], x, h => by
    simp only [toLua?, toLuaList?, Option.bind_eq_bind, Option.bind_eq_some_iff, Option.some.injEq] at h
    obtain ⟨y, hy, _, rfl, rfl⟩ := h
    exact isVariable_toLua? array hy
  | .element array (index :: indices), x, h => by
    simp only [toLua?, toLuaList?, Option.bind_eq_bind, Option.bind_eq_some_iff, Option.some.injEq] at h
    obtain ⟨y, -, _, ⟨key, -, keys, -, rfl⟩, rfl⟩ := h
    exact isVariable_indexed y (key :: keys)
  | .wrapped .parentheses _, x, h | .wrapped .typeOf _, x, h => by
    obtain ⟨_, -, hx⟩ := Option.bind_eq_some_iff.1 h
    cases hx
    rfl
  | .wrapped .sizeOf _, x, h | .wrapped .dereference _, x, h | .anonymousType _ _, x, h => by
    cases h
  | .conditional _ _ none, x, h => by
    simp only [toLua?, Option.bind_eq_bind, Option.bind_eq_some_iff, Option.some.injEq] at h
    obtain ⟨_, -, _, -, rfl⟩ := h
    rfl
  | .conditional _ _ (some _), x, h => by
    simp only [toLua?, Option.bind_eq_bind, Option.bind_eq_some_iff, Option.some.injEq] at h
    obtain ⟨_, -, _, -, _, -, rfl⟩ := h
    rfl
  | .cast value _ _ _, x, h => isVariable_toLua? value h
  | .assigned _ _, x, h => by
    obtain ⟨_, -, hx⟩ := Option.bind_eq_some_iff.1 h
    cases hx
    rfl
  | .method _ _ _ _ _, x, h => by
    simp only [toLua?, Option.bind_eq_bind, Option.bind_eq_some_iff, Option.some.injEq] at h
    obtain ⟨_, -, _, -, _, -, _, -, rfl⟩ := h
    rfl

/-! ## Accepted trees -/

/-- An assignment is accepted exactly if what it assigns to and what it assigns are, each for itself. -/
theorem generateStatements_assignment_isOk (generator : Generator) (target value : Expr) :
    ((generator.generateStatements [.assignment target value]).1.isOk = true ↔
      (generator.generateExpression target).1.isOk = true ∧
        (generator.generateExpression value).1.isOk = true) := by
  rw [generateStatements_isOk, generateExpression_isOk, generateExpression_isOk]
  simp [renderedStatements, Statement.rendered, RepresentableStatement]

/-- Nothing looks at what is assigned to: an assignment is accepted exactly if its target and its value
are, each for itself. Wherever an accepted tree has an assignment, the text of the target stands before
the equals sign, and it is that of a variable exactly if the target has the form for it. -/
theorem assigned_isVariable_iff (names : NameTable) (config : Config) :
    (∀ target value : Expr,
      ((Generator.new names config).generateStatements [.assignment target value]).1.isOk = true ↔
        ((Generator.new names config).generateExpression target).1.isOk = true ∧
          ((Generator.new names config).generateExpression value).1.isOk = true) ∧
    ∀ (source : Source) (text : String),
      ((Generator.new names config).generate source).1 = .ok text →
      (∀ node ∈ source.rendered, node.isRaw = false) →
      (∀ node ∈ source.rendered, ∀ s ∈ node.symbols, ∀ name ∈ names.resolve s, isName name = true) →
      ∀ target value, .statement (.assignment target value) ∈ source.rendered → ∃ x,
        toLua? (fun _ name => name) ⟨names, config⟩ target = some x ∧
        (x.isVariable = true ↔ target.hasVariableForm config.target = true) ∧
        ∀ n, ∃ v w, Yields (emitExpr ⟨names, config⟩ target) n () v ∧
          Yields (emitExpr ⟨names, config⟩ value) n () w ∧
          Yields (emitStatement ⟨names, config⟩ (.assignment target value)) n ()
            (List.replicate (n * config.indentWidth) ' ' ++ v ++ " = ".toList ++ w ++ ['\n']) ∧
          ((∀ node ∈ target.rendered, Composed (fun _ name => name) ⟨names, config⟩ True node) →
            readExpression (String.ofList v) = some x) := by
  refine ⟨generateStatements_assignment_isOk _, fun source text haccepted hraw hnames target value hnode => ?_⟩
  have hparts : (Statement.assignment target value).rendered ⊆ source.rendered :=
    Source.rendered_subset hnode
  have hbelow : target.rendered ⊆ source.rendered := fun node h =>
    hparts (List.mem_cons_of_mem _ (List.mem_append_left _ h))
  have hvalue : value.rendered ⊆ source.rendered := fun node h =>
    hparts (List.mem_cons_of_mem _ (List.mem_append_right _ h))
  have hrepresentable := allRepresentable_of_generate haccepted
  have hyields : ∀ e : Expr, e.rendered ⊆ source.rendered → ∀ n, ∃ w,
      Yields (emitExpr ⟨names, config⟩ e) n () w := fun e he n =>
    (succeeds_emitExpr e n).2 fun node h => hrepresentable node (he h)
  obtain ⟨_, hv⟩ := hyields target hbelow 0
  obtain ⟨x, hx⟩ := exists_toLua? (fun _ name => name) target (fun node h => hraw node (hbelow h)) hv
  refine ⟨x, hx, by rw [isVariable_toLua? target hx], fun n => ?_⟩
  obtain ⟨v, hv⟩ := hyields target hbelow n
  obtain ⟨w, hw⟩ := hyields value hvalue n
  refine ⟨v, w, hv, hw, yields_emitStatement_assignment.2 ⟨v, w, hv, hw, rfl⟩, fun hcomposed => ?_⟩
  have hspellable : ∀ node ∈ target.rendered, Spellable ⟨names, config⟩ node := fun node h =>
    ⟨hraw node (hbelow h), (hcomposed node h).standard, hnames node (hbelow h), (hcomposed node h).sites⟩
  obtain ⟨y, hy, hread⟩ := readExpression_of_composed hspellable hcomposed hv
  rwa [Option.some.inj (hx.symm.trans hy)]

/-- A property of the result of a call, assigned to in a block. -/
theorem assigned_isVariable_of_field :
    ∃ x, toLua? (fun _ name => name) ⟨⟨["f", "x"]⟩, {}⟩
        (.field (some (.call none (.named ⟨0⟩) [] false)) (.named ⟨1⟩)) = some x ∧ x.isVariable = true ∧
      ∀ n, ∃ v w, readExpression (String.ofList v) = some x ∧
        Yields (emitStatement ⟨⟨["f", "x"]⟩, {}⟩
          (.assignment (.field (some (.call none (.named ⟨0⟩) [] false)) (.named ⟨1⟩))
            (.literal (.integer 1)))) n ()
          (List.replicate (n * 2) ' ' ++ v ++ " = ".toList ++ w ++ ['\n']) := by
  obtain ⟨x, hx, hvariable, hread⟩ := (assigned_isVariable_iff ⟨["f", "x"]⟩ {}).2
    (.statements [.block [.assignment
      (.field (some (.call none (.named ⟨0⟩) [] false)) (.named ⟨1⟩)) (.literal (.integer 1))]])
    _ rfl (by decide) (by decide) _ _ (List.mem_cons_of_mem _ List.mem_cons_self)
  refine ⟨x, hx, hvariable.2 rfl, fun n => ?_⟩
  obtain ⟨v, w, -, -, hline, hread⟩ := hread n
  refine ⟨v, w, hread fun node hnode => ⟨?_, ?_, fun _ => trivial, fun _ => ?_, ?_⟩, hline⟩
  · revert node
    decide
  · revert node
    decide
  · revert node
    decide
  · rintro - s rfl
    simp [Expr.rendered, renderedExpr?, renderedArguments] at hnode

/-- A number is accepted as what is assigned to, and the line is no statement of Lua. -/
theorem not_isVariable_one :
    ((Generator.new ⟨[]⟩ {}).generate
      (.statements [.assignment (.literal (.integer 1)) (.literal (.integer 2))])).1 = .ok "1 = 2\n" ∧
    readExpression "1" = some (.numeral "1") ∧ (Exp.numeral "1" : Exp String).isVariable = false ∧
    readChunk "1 = 2\n" = none := by
  have hlex : lex "1".toList = [.numeral "1"] := by decide
  have hlex' : lex "1 = 2\n".toList = [.numeral "1", .mark .assign, .numeral "2"] := by decide
  refine ⟨rfl, ?_, rfl, ?_⟩
  · rw [readExpression, hlex, List.parseExp, List.parseOperand]
    simp [UnaryOp.ofToken?, List.parseSimple, List.parseTail]
  · rw [readChunk, hlex', List.parseBlock]
    simp [endsBlock, List.parseStatement, List.parsePrefix]

end Lua

end CodeTree
