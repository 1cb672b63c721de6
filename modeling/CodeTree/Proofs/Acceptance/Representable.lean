import CodeTree.Proofs.Emission.Rendered
import CodeTree.Proofs.Emission.Text

/-! # Which trees are accepted

A tree is written exactly if each of its rendered nodes can be represented, and a node can be
represented or not whatever is around it and whatever is below it.

* `Representable`: what Lua, the settings and the names ask of a node.
* `succeeds_emitExpr`, `succeeds_emitStatements`: writing succeeds exactly on representable nodes.
* `generate_isOk_iff`: the same for the answers of a generator. -/

namespace CodeTree.Lua

set_option autoImplicit false

/-! ## What is asked of a node -/

def Named (g : Setting) (s : Symbol) : Prop := ∃ name, g.names.resolve s = some name

/-- The operators on two operands that have a form in Lua. -/
def IsBinaryInLua : Operator BinaryKind → Prop
  | .standard kind =>
    kind ≠ .logicalXor ∧ kind ≠ .is ∧ kind ≠ .isNot ∧ kind ≠ .isIn ∧ kind ≠ .notIn
  | .custom _ => True

/-- The atoms of Lua. Their names must be known, and raw code must be allowed. -/
def RepresentableAtom (g : Setting) : Atom → Prop
  | .nil | .selfReference | .literal _ => True
  | .identifier name => Named g name
  | .localVariable read => Named g read.name
  | .typeReference type => Named g type.name
  | .enumValue value => Named g value.type.name ∧ Named g value.value
  | .raw _ => g.config.allowRaw = true
  | .propertyValue | .inherited | .selector _ | .default _ => False

/-- What is asked of an expression, whatever is below it. An array allocation needs the name of its
type, although the name is not in the text, and nothing else. -/
def RepresentableExpr (g : Setting) : Expr → Prop
  | .shared s => RepresentableAtom g s.atom
  | .atom a => RepresentableAtom g a
  | .unary operator _ => operator ≠ .standard .addressOf
  | .binary operator _ _ => IsBinaryInLua operator
  | .field _ selection => Named g selection.name
  | .call _ selection arguments _ =>
    Named g selection.name ∧ ∀ a ∈ arguments, admits g a.name a.passing
  | .property _ selection indices =>
    Named g selection.name ∧ ∀ a ∈ indices, admits g a.name a.passing
  | .construct type constructor arguments initializers =>
    Named g type.name ∧ (∀ s ∈ constructor, Named g s) ∧
      (∀ a ∈ arguments, admits g a.name a.passing) ∧
        ∀ i ∈ initializers, ∃ property, i.name = some property ∧ Named g property
  | .allocate type _ _ _ => Named g type.name
  | .method _ parameters _ _ locals =>
    (∀ p ∈ parameters, p.passing = .byValue ∧ Named g p.name) ∧
      ∀ declared ∈ locals.getD [], Named g declared.name
  | .array _ _ | .dictionary _ | .tuple _ | .element _ _ | .conditional _ _ _ | .cast _ _ _ _
  | .assigned _ _ | .wrapped .parentheses _ | .wrapped .typeOf _ => True
  | .wrapped .sizeOf _ | .wrapped .dereference _ | .anonymousType _ _ => False

/-- What is asked of a statement itself: of the expressions, only calls stand as statements, and raw
code where it is allowed. -/
def RepresentableStatement (g : Setting) : Statement → Prop
  | .expression value =>
    (∃ site selection arguments optional, value.node = .call site selection arguments optional) ∨
      value.isRaw = true ∧ g.config.allowRaw = true
  | .declaration declared => Named g declared.name
  | .assignment _ _ | .result _ | .block _ => True

def Representable (g : Setting) : Node → Prop
  | .expression e => RepresentableExpr g e
  | .statement s => RepresentableStatement g s
  | .member _ | .raw _ => False

/-- Whether all nodes of a list are representable. -/
def AllRepresentable (g : Setting) (nodes : List Node) : Prop := ∀ node ∈ nodes, Representable g node

/-- Whether an action adds something at a depth. -/
def Succeeds (action : Emit Unit) (n : Nat) : Prop := ∃ w, Yields action n () w

variable {g : Setting} {n : Nat}

@[simp] theorem allRepresentable_nil : AllRepresentable g [] ↔ True := by simp [AllRepresentable]

@[simp] theorem allRepresentable_expression {e : Expr} {nodes : List Node} :
    AllRepresentable g (.expression e :: nodes) ↔ RepresentableExpr g e ∧ AllRepresentable g nodes := by
  simp [AllRepresentable, Representable]

@[simp] theorem allRepresentable_statement {s : Statement} {nodes : List Node} :
    AllRepresentable g (.statement s :: nodes) ↔
      RepresentableStatement g s ∧ AllRepresentable g nodes := by
  simp [AllRepresentable, Representable]

@[simp] theorem allRepresentable_append {nodes nodes' : List Node} :
    AllRepresentable g (nodes ++ nodes') ↔ AllRepresentable g nodes ∧ AllRepresentable g nodes' :=
  List.forall_mem_append

/-! ## Nodes, given their parts -/

theorem standsAlone_iff {e : Expr} :
    standsAlone g e = true ↔ RepresentableStatement g (.expression e) := by
  simp only [standsAlone, RepresentableStatement, Expr.isRaw, Expr.raw?, Expr.atom?]
  generalize e.node = node
  cases node with
  | atom a => cases a <;> simp [Atom.raw?]
  | _ => simp

theorem succeeds_emitLines : ∀ lines : List String, Succeeds (emitLines g lines) n
  | [] => ⟨_, yields_pure.2 ⟨rfl, rfl⟩⟩
  | [line] => ⟨_, yields_write.2 rfl⟩
  | line :: line' :: lines => by
    obtain ⟨w, hw⟩ := succeeds_emitLines (line' :: lines)
    have := tidy_emitLines g (line' :: lines)
    have hcons : emitLines g (line :: line' :: lines) = (do
      write line
      newline
      indent g.config.indentWidth
      emitLines g (line' :: lines)) := rfl
    rw [hcons]
    simp only [Succeeds, yields_unit_bind, yields_write, yields_newline, yields_indent]
    exact ⟨_, _, rfl, _, ⟨_, rfl, _, ⟨_, rfl, _, hw, rfl⟩, rfl⟩, rfl⟩

theorem succeeds_emitAtom {a : Atom} : Succeeds (emitAtom g a) n ↔ RepresentableAtom g a := by
  cases a with
  | raw code =>
    rw [emitAtom, RepresentableAtom]
    by_cases hallow : g.config.allowRaw = true
    · rw [if_pos hallow]
      exact iff_of_true (succeeds_emitLines code.lines) hallow
    · rw [if_neg hallow]
      refine iff_of_false ?_ hallow
      rintro ⟨w, hw⟩
      exact not_yields_refuse hw
  | _ => simp [Succeeds, RepresentableAtom, Named]

theorem succeeds_emitUnary {operator : Operator UnaryKind} {operand : Expr} :
    Succeeds (emitUnary operator (emitExpr g operand)) n ↔
      operator ≠ .standard .addressOf ∧ Succeeds (emitExpr g operand) n := by
  match operator with
  | .standard .plus | .standard .minus | .standard .not | .standard .addressOf | .custom text =>
    simp [Succeeds, emitUnary, yields_emitPrefixed]

theorem isBinaryInLua_iff (target : Target) {operator : Operator BinaryKind} :
    (∃ form, binaryForm target operator = .ok form) ↔ IsBinaryInLua operator := by
  cases operator with
  | custom text => simp [binaryForm, IsBinaryInLua]
  | standard kind =>
    cases target <;> cases kind <;>
      simp [binaryForm, bitFunction?, standardForm?, Target.hasNativeBitwise, IsBinaryInLua]

theorem succeeds_emitExpr_binary {operator : Operator BinaryKind} {left right : Expr} :
    Succeeds (emitExpr g (.binary operator left right)) n ↔
      IsBinaryInLua operator ∧ Succeeds (emitExpr g left) n ∧ Succeeds (emitExpr g right) n := by
  rw [← isBinaryInLua_iff g.config.target]
  simp [Succeeds, yields_emitExpr_binary]

theorem succeeds_emitExpr_field {site : Option Expr} {selection : Selection} :
    Succeeds (emitExpr g (.field site selection)) n ↔
      Named g selection.name ∧ ∀ e ∈ site, Succeeds (emitExpr g e) n := by
  cases site with
  | none => simp [Succeeds, Named, yields_emitExpr_field_none]
  | some e => simp [Succeeds, Named, yields_emitExpr_field_some]

theorem succeeds_emitExpr_call {site : Option Expr} {selection : Selection}
    {arguments : List Argument} {optional : Bool} :
    Succeeds (emitExpr g (.call site selection arguments optional)) n ↔
      Named g selection.name ∧ Succeeds (emitArguments g true arguments) n ∧
        ∀ e ∈ site, Succeeds (emitExpr g e) n := by
  cases site with
  | none => simp [Succeeds, Named, yields_emitExpr_call_none]
  | some e => simp [Succeeds, Named, yields_emitExpr_call_some]

theorem succeeds_emitExpr_construct {type : TypeReference} {constructor : Option Symbol}
    {arguments initializers : List Argument} :
    Succeeds (emitExpr g (.construct type constructor arguments initializers)) n ↔
      (Named g type.name ∧ ∀ s ∈ constructor, Named g s) ∧
        Succeeds (emitArguments g true arguments) n ∧ Succeeds (emitInitializers g initializers) n := by
  have hconstructor : (∃ name, constructorName g constructor = some name) ↔
      ∀ s ∈ constructor, Named g s := by
    cases constructor <;> simp [constructorName, Named]
  have hcreation : Succeeds (emitExpr g (.construct type constructor arguments [])) n ↔
      (Named g type.name ∧ ∀ s ∈ constructor, Named g s) ∧
        Succeeds (emitArguments g true arguments) n := by
    rw [← hconstructor]
    simp [Succeeds, Named, yields_emitExpr_construct, and_assoc]
  cases initializers with
  | nil =>
    have hnone : Succeeds (emitInitializers g []) n := ⟨[], by simp⟩
    simp only [hcreation, hnone, and_true]
  | cons i is =>
    rw [← and_assoc, ← hcreation]
    simp [Succeeds, yields_emitExpr_construct_with]

theorem succeeds_emitParameterNames {isFirst : Bool} {parameters : List Parameter} :
    Succeeds (emitParameterNames g isFirst parameters) n ↔
      ∀ p ∈ parameters, p.passing = .byValue ∧ Named g p.name := by
  induction parameters generalizing isFirst with
  | nil => simp [Succeeds]
  | cons p parameters ih =>
    rw [List.forall_mem_cons, ← @ih false]
    simp [Succeeds, Named, and_assoc]

/-! ## Trees -/

mutual

/-- An expression is written exactly if all of its rendered nodes are representable. -/
theorem succeeds_emitExpr : ∀ (e : Expr) (n : Nat),
    Succeeds (emitExpr g e) n ↔ AllRepresentable g e.rendered
  | .shared s, n => by
    have hatom : Succeeds (emitExpr g (.shared s)) n ↔ RepresentableAtom g s.atom := succeeds_emitAtom
    simpa [Expr.rendered, RepresentableExpr] using hatom
  | .atom a, n => by
    have hatom : Succeeds (emitExpr g (.atom a)) n ↔ RepresentableAtom g a := succeeds_emitAtom
    simpa [Expr.rendered, RepresentableExpr] using hatom
  | .array elements kind, n => by
    simp [Expr.rendered, RepresentableExpr, ← succeeds_emitExprs elements true n,
      Succeeds, yields_emitExpr_array]
  | .dictionary entries, n => by
    simp [Expr.rendered, RepresentableExpr, ← succeeds_emitEntries entries true n,
      Succeeds, yields_emitExpr_dictionary]
  | .tuple elements, n => by
    simp [Expr.rendered, RepresentableExpr, ← succeeds_emitExprs elements true n,
      Succeeds, yields_emitExpr_tuple]
  | .unary operator operand, n => by
    have hunary : Succeeds (emitExpr g (.unary operator operand)) n ↔
      operator ≠ .standard .addressOf ∧ Succeeds (emitExpr g operand) n := succeeds_emitUnary
    simpa [Expr.rendered, RepresentableExpr, succeeds_emitExpr operand] using hunary
  | .binary operator left right, n => by
    simp [Expr.rendered, RepresentableExpr, succeeds_emitExpr_binary, succeeds_emitExpr left,
      succeeds_emitExpr right]
  | .field site selection, n => by
    rw [Expr.rendered, allRepresentable_expression, succeeds_emitExpr_field, succeeds_site site,
      RepresentableExpr]
  | .call site selection arguments optional, n => by
    have hparts : AllRepresentable g (if selection.nilSafe || optional then
        renderedArguments arguments ++ renderedExpr? site else
        renderedExpr? site ++ renderedArguments arguments) ↔
      AllRepresentable g (renderedArguments arguments) ∧ AllRepresentable g (renderedExpr? site) := by
      split
      · exact allRepresentable_append
      · exact allRepresentable_append.trans and_comm
    rw [Expr.rendered, allRepresentable_expression, hparts, succeeds_emitExpr_call,
      succeeds_emitArguments arguments, succeeds_site site, RepresentableExpr, and_assoc, and_assoc]
  | .property site selection indices, n => by
    rw [Expr.rendered, allRepresentable_expression, allRepresentable_append, RepresentableExpr,
      and_and_and_comm, ← succeeds_emitPropertyIndices indices n, ← succeeds_site site n,
      ← succeeds_emitExpr_field]
    simp [Succeeds, yields_emitExpr_property]
  | .construct type constructor arguments initializers, n => by
    rw [Expr.rendered, allRepresentable_expression, allRepresentable_append, RepresentableExpr,
      succeeds_emitExpr_construct, succeeds_emitArguments arguments,
      succeeds_emitInitializers initializers]
    grind
  | .allocate type constructor bounds initializers, n => by
    simp [Expr.rendered, RepresentableExpr, Succeeds, Named, yields_emitExpr_allocate]
  | .element array indices, n => by
    simp [Expr.rendered, RepresentableExpr, ← succeeds_emitExpr array n,
      ← succeeds_emitIndices indices n, Succeeds, yields_emitExpr_element]
  | .wrapped .parentheses inner, n => by
    simp [Expr.rendered, RepresentableExpr, ← succeeds_emitExpr inner n, Succeeds,
      yields_emitExpr_parentheses]
  | .wrapped .typeOf inner, n => by
    simp [Expr.rendered, RepresentableExpr, ← succeeds_emitExpr inner n, Succeeds,
      yields_emitExpr_typeOf]
  | .wrapped .sizeOf inner, n => by
    simp [Expr.rendered, RepresentableExpr, Succeeds, emitExpr]
  | .wrapped .dereference inner, n => by
    simp [Expr.rendered, RepresentableExpr, Succeeds, emitExpr]
  | .conditional condition consequence none, n => by
    simp [Expr.rendered, RepresentableExpr, renderedExpr?, ← succeeds_emitExpr condition n,
      ← succeeds_emitExpr consequence n, Succeeds, yields_emitExpr_conditional_none]
  | .conditional condition consequence (some alternative), n => by
    simp [Expr.rendered, RepresentableExpr, renderedExpr?, ← succeeds_emitExpr condition n,
      ← succeeds_emitExpr consequence n, ← succeeds_emitExpr alternative n, Succeeds,
      yields_emitExpr_conditional_some]
  | .cast value type throwing safe, n => by
    simp [Expr.rendered, RepresentableExpr, ← succeeds_emitExpr value n, Succeeds]
  | .assigned value inverted, n => by
    simp [Expr.rendered, RepresentableExpr, ← succeeds_emitExpr value n, Succeeds,
      yields_emitExpr_assigned]
  | .method lambda parameters returns body locals, n => by
    have hparts : Succeeds (emitExpr g (.method lambda parameters returns body locals)) n ↔
        Succeeds (emitParameterNames g true parameters) n ∧
          Succeeds (emitDefaultValues g parameters) (n + 1) ∧
            Succeeds (emitLocals? g locals) (n + 1) ∧ Succeeds (emitStatements g body) (n + 1) := by
      simp [Succeeds, yields_emitExpr_method]
    rw [hparts, succeeds_emitParameterNames, succeeds_emitLocals? locals, succeeds_emitStatements body,
      Expr.rendered, allRepresentable_expression, allRepresentable_append, allRepresentable_append,
      RepresentableExpr]
    have hdefaults (hparameters : ∀ p ∈ parameters, p.passing = .byValue ∧ Named g p.name) :=
      succeeds_emitDefaultValues parameters (n + 1) fun p hp => (hparameters p hp).2
    constructor
    · rintro ⟨hparameters, hd, ⟨hnames, hl⟩, hb⟩
      exact ⟨⟨hparameters, hnames⟩, ⟨(hdefaults hparameters).1 hd, hl⟩, hb⟩
    · rintro ⟨⟨hparameters, hnames⟩, ⟨hd, hl⟩, hb⟩
      exact ⟨hparameters, (hdefaults hparameters).2 hd, ⟨hnames, hl⟩, hb⟩
  | .anonymousType kind members, n => by
    simp [Expr.rendered, RepresentableExpr, Succeeds, emitExpr]

theorem succeeds_site : ∀ (site : Option Expr) (n : Nat),
    (∀ e ∈ site, Succeeds (emitExpr g e) n) ↔ AllRepresentable g (renderedExpr? site)
  | none, n => by simp [renderedExpr?]
  | some e, n => by simp [renderedExpr?, succeeds_emitExpr e]

theorem succeeds_emitExprs : ∀ (es : List Expr) (isFirst : Bool) (n : Nat),
    Succeeds (emitExprs g isFirst es) n ↔ AllRepresentable g (renderedExprs es)
  | [], _, n => by simp [Succeeds, renderedExprs]
  | e :: es, isFirst, n => by
    simp [renderedExprs, ← succeeds_emitExpr e n, ← succeeds_emitExprs es false n, Succeeds,
      yields_emitExprs_cons]

theorem succeeds_emitEntries : ∀ (entries : List (Expr × Expr)) (isFirst : Bool) (n : Nat),
    Succeeds (emitEntries g isFirst entries) n ↔ AllRepresentable g (renderedEntries entries)
  | [], _, n => by simp [Succeeds, renderedEntries]
  | (key, value) :: entries, isFirst, n => by
    simp [renderedEntries, ← succeeds_emitExpr key n, ← succeeds_emitExpr value n,
      ← succeeds_emitEntries entries false n, Succeeds, yields_emitEntries_cons]

theorem succeeds_emitArguments : ∀ (arguments : List Argument) (isFirst : Bool) (n : Nat),
    Succeeds (emitArguments g isFirst arguments) n ↔
      (∀ a ∈ arguments, admits g a.name a.passing) ∧ AllRepresentable g (renderedArguments arguments)
  | [], _, n => by simp [Succeeds, renderedArguments]
  | ⟨name, value, passing⟩ :: arguments, isFirst, n => by
    have hrest := succeeds_emitArguments arguments false n
    rw [List.forall_mem_cons, renderedArguments, allRepresentable_append, and_and_and_comm, ← hrest,
      ← succeeds_emitExpr value n]
    simp [Succeeds, yields_emitArguments_cons, and_assoc]

theorem succeeds_emitPropertyIndices : ∀ (indices : List Argument) (n : Nat),
    Succeeds (emitPropertyIndices g indices) n ↔
      (∀ a ∈ indices, admits g a.name a.passing) ∧ AllRepresentable g (renderedArguments indices)
  | [], n => by simp [Succeeds, renderedArguments]
  | ⟨name, value, passing⟩ :: indices, n => by
    have hrest := succeeds_emitPropertyIndices indices n
    rw [List.forall_mem_cons, renderedArguments, allRepresentable_append, and_and_and_comm, ← hrest,
      ← succeeds_emitExpr value n]
    simp [Succeeds, yields_emitPropertyIndices_cons, and_assoc]

theorem succeeds_emitIndices : ∀ (indices : List Expr) (n : Nat),
    Succeeds (emitIndices g indices) n ↔ AllRepresentable g (renderedExprs indices)
  | [], n => by simp [Succeeds, renderedExprs]
  | index :: indices, n => by
    simp [renderedExprs, ← succeeds_emitExpr index n, ← succeeds_emitIndices indices n,
      Succeeds, yields_emitIndices_cons]

theorem succeeds_emitInitializers : ∀ (initializers : List Argument) (n : Nat),
    Succeeds (emitInitializers g initializers) n ↔
      (∀ i ∈ initializers, ∃ property, i.name = some property ∧ Named g property) ∧
        AllRepresentable g (renderedArguments initializers)
  | [], n => by simp [Succeeds, renderedArguments]
  | ⟨name, value, passing⟩ :: initializers, n => by
    have hrest := succeeds_emitInitializers initializers n
    rw [List.forall_mem_cons, renderedArguments, allRepresentable_append, and_and_and_comm, ← hrest,
      ← succeeds_emitExpr value n]
    cases name <;> simp [Succeeds, Named, yields_emitInitializers_cons, and_assoc]

/-- The names of the parameters are written before their default values, so they are known here. -/
theorem succeeds_emitDefaultValues : ∀ (parameters : List Parameter) (n : Nat),
    (∀ p ∈ parameters, Named g p.name) →
      (Succeeds (emitDefaultValues g parameters) n ↔ AllRepresentable g (renderedDefaults parameters))
  | [], n, _ => by simp [Succeeds, renderedDefaults]
  | ⟨name, type, passing, none⟩ :: parameters, n, hnames => by
    have hrest := succeeds_emitDefaultValues parameters n (List.forall_mem_cons.1 hnames).2
    simpa [renderedDefaults, renderedExpr?, Succeeds] using hrest
  | ⟨name, type, passing, some value⟩ :: parameters, n, hnames => by
    obtain ⟨⟨text, htext⟩, hnames⟩ := List.forall_mem_cons.1 hnames
    have hrest := succeeds_emitDefaultValues parameters n hnames
    simp only at htext
    simp [renderedDefaults, renderedExpr?, ← hrest, ← succeeds_emitExpr value n, Succeeds,
      yields_emitDefaultValues_cons_some, htext]

theorem succeeds_emitLocal : ∀ (declared : Declaration) (n : Nat),
    Succeeds (emitLocal g declared) n ↔
      Named g declared.name ∧ AllRepresentable g (renderedExpr? declared.value)
  | ⟨name, type, none, constant⟩, n => by
    simp [renderedExpr?, Succeeds, Named, yields_emitLocal_none]
  | ⟨name, type, some value, constant⟩, n => by
    simp [renderedExpr?, ← succeeds_emitExpr value n, Succeeds, Named, yields_emitLocal_some]

theorem succeeds_emitLocals : ∀ (locals : List Declaration) (n : Nat),
    Succeeds (emitLocals g locals) n ↔
      (∀ declared ∈ locals, Named g declared.name) ∧ AllRepresentable g (renderedLocals locals)
  | [], n => by simp [Succeeds, renderedLocals]
  | ⟨name, type, value, constant⟩ :: locals, n => by
    rw [List.forall_mem_cons, renderedLocals, allRepresentable_append, and_and_and_comm,
      ← succeeds_emitLocals locals n,
      ← succeeds_emitLocal ⟨name, type, value, constant⟩ n]
    simp [Succeeds, yields_emitLocals_cons]

theorem succeeds_emitLocals? : ∀ (locals : Option (List Declaration)) (n : Nat),
    Succeeds (emitLocals? g locals) n ↔
      (∀ declared ∈ locals.getD [], Named g declared.name) ∧ AllRepresentable g (renderedLocals? locals)
  | none, n => by simp [Succeeds, renderedLocals?]
  | some locals, n => succeeds_emitLocals locals n

/-- A statement is written exactly if all of its rendered nodes are representable. -/
theorem succeeds_emitStatement : ∀ (s : Statement) (n : Nat),
    Succeeds (emitStatement g s) n ↔ AllRepresentable g s.rendered
  | .expression value, n => by
    rw [Statement.rendered, allRepresentable_statement, ← standsAlone_iff, ← succeeds_emitExpr value n]
    simp [Succeeds, yields_emitStatement_expression]
  | .declaration ⟨name, type, value, constant⟩, n => by
    rw [Statement.rendered, allRepresentable_statement, RepresentableStatement,
      ← succeeds_emitLocal ⟨name, type, value, constant⟩ n]
    simp [Succeeds, yields_emitStatement_declaration]
  | .assignment target value, n => by
    simp [Statement.rendered, RepresentableStatement, ← succeeds_emitExpr target n,
      ← succeeds_emitExpr value n, Succeeds, yields_emitStatement_assignment]
  | .result none, n => by
    simp [Statement.rendered, RepresentableStatement, renderedExpr?, Succeeds,
      yields_emitStatement_result_none]
  | .result (some value), n => by
    simp [Statement.rendered, RepresentableStatement, renderedExpr?, ← succeeds_emitExpr value n,
      Succeeds, yields_emitStatement_result_some]
  | .block body, n => by
    simp [Statement.rendered, RepresentableStatement, ← succeeds_emitStatements body (n + 1),
      Succeeds, yields_emitStatement_block]

theorem succeeds_emitStatements : ∀ (statements : List Statement) (n : Nat),
    Succeeds (emitStatements g statements) n ↔ AllRepresentable g (renderedStatements statements)
  | [], n => by simp [Succeeds, renderedStatements]
  | s :: statements, n => by
    simp [renderedStatements, ← succeeds_emitStatement s n,
      ← succeeds_emitStatements statements n, Succeeds, yields_emitStatements_cons]

end

/-! ## The generator -/

theorem run_isOk_iff {generator : Generator} {action : Emit Unit} [h : Tidy action]
    {finish : Draft → String} :
    (generator.clear.run action finish).1.isOk = true ↔ Succeeds action 0 := by
  rcases h.adds_or_stops 0 with ⟨_, w, bit, hadds⟩ | ⟨error, hstops⟩
  · rw [run_of_adds hadds]
    exact iff_of_true rfl ⟨w, bit, hadds⟩
  · rw [run_of_stops hstops]
    exact iff_of_false nofun fun ⟨_, _, hadds⟩ => hadds.not_stops hstops

theorem generateExpression_isOk {generator : Generator} {e : Expr} :
    (generator.generateExpression e).1.isOk = true ↔ AllRepresentable generator.setting e.rendered :=
  run_isOk_iff.trans (succeeds_emitExpr e 0)

theorem generateStatements_isOk {generator : Generator} {statements : List Statement} :
    (generator.generateStatements statements).1.isOk = true ↔
      AllRepresentable generator.setting (renderedStatements statements) :=
  run_isOk_iff.trans (succeeds_emitStatements statements 0)

/-- A generator answers with a text exactly if all rendered nodes are representable. -/
theorem generate_isOk_iff (generator : Generator) :
    (∀ e, (generator.generateExpression e).1.isOk = true ↔
      ∀ node ∈ e.rendered, Representable generator.setting node) ∧
    ∀ statements, (generator.generateStatements statements).1.isOk = true ↔
      ∀ node ∈ renderedStatements statements, Representable generator.setting node :=
  ⟨fun _ => generateExpression_isOk, fun _ => generateStatements_isOk⟩

end CodeTree.Lua
