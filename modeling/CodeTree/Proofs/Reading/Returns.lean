import CodeTree.Proofs.Reading.Emitted
import CodeTree.Proofs.Reading.WellFormed

/-! # Where returns stand

In Lua a return is the last statement of its block. The functions that are called at once keep to that,
so whether a syntax tree does depends on the bodies of methods and blocks of its tree alone: a return is
written where it stands, and what stands behind it is written behind it.

* `Exp.Orderly`, `orderlyStats`: in every block of a syntax tree only the last statement returns.
* `orderly_toLua?`, `orderly_toLuaStatements?`: the trees whose syntax trees are orderly. -/

namespace CodeTree.Lua

set_option autoImplicit false

variable {ν : Type}

/-! ## Orderly syntax trees -/

mutual

def Exp.Orderly : Exp ν → Prop
  | .nil | .boolean _ | .numeral _ | .string _ | .name _ => True
  | .field x _ => x.Orderly
  | .index x key => x.Orderly ∧ key.Orderly
  | .call f arguments => f.Orderly ∧ orderlyExps arguments
  | .invoke x _ arguments => x.Orderly ∧ orderlyExps arguments
  | .paren x => x.Orderly
  | .unary _ x => x.Orderly
  | .binary _ x y => x.Orderly ∧ y.Orderly
  | .table fields => orderlyFields fields
  | .function _ body => orderlyStats body

def orderlyExps : List (Exp ν) → Prop
  | [] => True
  | x :: xs => x.Orderly ∧ orderlyExps xs

def TableField.Orderly : TableField ν → Prop
  | .item value => value.Orderly
  | .keyed key value => key.Orderly ∧ value.Orderly

def orderlyFields : List (TableField ν) → Prop
  | [] => True
  | f :: fs => f.Orderly ∧ orderlyFields fs

def Stat.Orderly : Stat ν → Prop
  | .empty => True
  | .declare _ _ values => orderlyExps values
  | .assign target value => target.Orderly ∧ value.Orderly
  | .call x => x.Orderly
  | .block body => orderlyStats body
  | .conditional condition consequence alternative =>
    condition.Orderly ∧ orderlyStats consequence ∧ orderlyStats alternative
  | .result values => orderlyExps values

/-- Of these statements only the last one returns, and so in the blocks below them. -/
def orderlyStats : List (Stat ν) → Prop
  | [] => True
  | s :: statements => s.Orderly ∧ (s.isResult = true → statements = []) ∧ orderlyStats statements

end

/-! ## Parts of orderly trees -/

variable {tag : Origin → String → ν} {g : Setting} {x y z : Exp ν} {ss ts : List (Stat ν)}

section Parts

variable {f key : Exp ν} {xs : List (Exp ν)} {field : TableField ν} {fields : List (TableField ν)}
  {s : Stat ν} {body alternative : List (Stat ν)} {n : ν} {parameters : List ν} {op : UnaryOp}
  {op' : BinaryOp} {b : Bool} {text member : String} {bytes : List UInt8} {attrib : Option String}

@[simp] theorem Exp.orderly_nil : (Exp.nil : Exp ν).Orderly := trivial

@[simp] theorem Exp.orderly_boolean : (Exp.boolean b : Exp ν).Orderly := trivial

@[simp] theorem Exp.orderly_numeral : (Exp.numeral text : Exp ν).Orderly := trivial

@[simp] theorem Exp.orderly_string : (Exp.string bytes : Exp ν).Orderly := trivial

@[simp] theorem Exp.orderly_name : (Exp.name n).Orderly := trivial

@[simp] theorem Exp.orderly_field : (Exp.field x member).Orderly ↔ x.Orderly := Iff.rfl

@[simp] theorem Exp.orderly_index : (Exp.index x key).Orderly ↔ x.Orderly ∧ key.Orderly := Iff.rfl

@[simp] theorem Exp.orderly_call : (Exp.call f xs).Orderly ↔ f.Orderly ∧ orderlyExps xs := Iff.rfl

@[simp] theorem Exp.orderly_invoke :
    (Exp.invoke x member xs).Orderly ↔ x.Orderly ∧ orderlyExps xs := Iff.rfl

@[simp] theorem Exp.orderly_paren : (Exp.paren x).Orderly ↔ x.Orderly := Iff.rfl

@[simp] theorem Exp.orderly_unary : (Exp.unary op x).Orderly ↔ x.Orderly := Iff.rfl

@[simp] theorem Exp.orderly_binary : (Exp.binary op' x y).Orderly ↔ x.Orderly ∧ y.Orderly := Iff.rfl

@[simp] theorem Exp.orderly_table : (Exp.table fields).Orderly ↔ orderlyFields fields := Iff.rfl

@[simp] theorem Exp.orderly_function : (Exp.function parameters body).Orderly ↔ orderlyStats body :=
  Iff.rfl

@[simp] theorem orderlyExps_nil : orderlyExps ([] : List (Exp ν)) := trivial

@[simp] theorem orderlyExps_cons : orderlyExps (x :: xs) ↔ x.Orderly ∧ orderlyExps xs := Iff.rfl

@[simp] theorem TableField.orderly_item : (TableField.item x).Orderly ↔ x.Orderly := Iff.rfl

@[simp] theorem TableField.orderly_keyed :
    (TableField.keyed key x).Orderly ↔ key.Orderly ∧ x.Orderly := Iff.rfl

@[simp] theorem orderlyFields_nil : orderlyFields ([] : List (TableField ν)) := trivial

@[simp] theorem orderlyFields_cons :
    orderlyFields (field :: fields) ↔ field.Orderly ∧ orderlyFields fields := Iff.rfl

@[simp] theorem Stat.orderly_empty : (Stat.empty : Stat ν).Orderly := trivial

@[simp] theorem Stat.orderly_declare : (Stat.declare n attrib xs).Orderly ↔ orderlyExps xs :=
  Iff.rfl

@[simp] theorem Stat.orderly_assign : (Stat.assign x y).Orderly ↔ x.Orderly ∧ y.Orderly := Iff.rfl

@[simp] theorem Stat.orderly_call : (Stat.call x).Orderly ↔ x.Orderly := Iff.rfl

@[simp] theorem Stat.orderly_block : (Stat.block body).Orderly ↔ orderlyStats body := Iff.rfl

@[simp] theorem Stat.orderly_conditional :
    (Stat.conditional x body alternative).Orderly ↔
      x.Orderly ∧ orderlyStats body ∧ orderlyStats alternative := Iff.rfl

@[simp] theorem Stat.orderly_result : (Stat.result xs).Orderly ↔ orderlyExps xs := Iff.rfl

@[simp] theorem orderlyStats_nil : orderlyStats ([] : List (Stat ν)) := trivial

@[simp] theorem orderlyStats_cons :
    orderlyStats (s :: ss) ↔ s.Orderly ∧ (s.isResult = true → ss = []) ∧ orderlyStats ss := Iff.rfl

end Parts

theorem orderlyStats_append :
    orderlyStats (ss ++ ts) ↔
      orderlyStats ss ∧ orderlyStats ts ∧ (ts ≠ [] → ∀ s ∈ ss, s.isResult = false) := by
  induction ss with
  | nil => simp
  | cons s ss ih =>
    simp only [List.cons_append, orderlyStats_cons, ih, List.append_eq_nil_iff, List.forall_mem_cons]
    cases s.isResult <;> grind

theorem orderlyStats_append_of_goesOn (h : ∀ s ∈ ss, s.isResult = false) :
    orderlyStats (ss ++ ts) ↔ orderlyStats ss ∧ orderlyStats ts := by
  rw [orderlyStats_append]
  exact and_congr_right fun _ => and_iff_left fun _ => h

theorem orderlyStats_singleton {s : Stat ν} : orderlyStats [s] ↔ s.Orderly := by
  simp

theorem orderlyFields_map_item (xs : List (Exp ν)) : orderlyFields (xs.map .item) ↔ orderlyExps xs := by
  induction xs with
  | nil => exact Iff.rfl
  | cons x xs ih => exact and_congr_right fun _ => ih

/-! ## Trees whose blocks are in order -/

/-- In the bodies of these nodes only the last statement returns. -/
def InOrder (nodes : List Node) : Prop := ∀ node ∈ nodes, ∀ body ∈ node.bodies, ReturnsLast body

instance : DecidablePred InOrder := fun _ => inferInstanceAs (Decidable (∀ _ ∈ _, _))

@[simp] theorem inOrder_nil : InOrder [] := by simp [InOrder]

@[simp] theorem inOrder_cons {node : Node} {nodes : List Node} :
    InOrder (node :: nodes) ↔ (∀ body ∈ node.bodies, ReturnsLast body) ∧ InOrder nodes :=
  List.forall_mem_cons

@[simp] theorem inOrder_append {nodes nodes' : List Node} :
    InOrder (nodes ++ nodes') ↔ InOrder nodes ∧ InOrder nodes' :=
  List.forall_mem_append

/-! ## Forms -/

theorem orderly_signed {negative : Bool} : (signed negative x).Orderly ↔ x.Orderly := by
  cases negative <;> exact Iff.rfl

theorem orderly_literalExp (target : Target) (l : Literal) : (literalExp tag target l).Orderly := by
  cases l with
  | string | character | boolean => trivial
  | integer value =>
    rw [literalExp, integerExp]
    split
    · trivial
    · exact orderly_signed.2 trivial
  | float value =>
    rw [literalExp, floatExp]
    split
    · exact ⟨trivial, trivial⟩
    · split <;> exact orderly_signed.2 trivial

theorem orderly_atomExp {a : Atom} (h : atomExp? tag g a = some x) : x.Orderly := by
  cases a with
  | nil =>
    cases h
    trivial
  | literal l =>
    cases h
    exact orderly_literalExp _ l
  | selfReference =>
    obtain rfl : given tag "self" = x := by simpa [atomExp?] using h
    trivial
  | identifier | localVariable | typeReference =>
    obtain ⟨name, -, rfl⟩ := Option.map_eq_some_iff.1 h
    trivial
  | enumValue value =>
    simp only [atomExp?, Option.bind_eq_bind, Option.bind_eq_some_iff, Option.some.injEq] at h
    obtain ⟨type, -, name, -, rfl⟩ := h
    trivial
  | propertyValue | inherited | selector | default | raw => cases h

theorem orderly_unaryExp {operator : Operator UnaryKind} (h : unaryExp? operator x = some z) :
    z.Orderly ↔ x.Orderly := by
  match operator with
  | .standard .addressOf => cases h
  | .standard .plus | .standard .minus | .standard .not | .custom text =>
    cases h
    exact Iff.rfl

theorem orderly_truncatedDivision (target : Target) : (truncatedDivision tag target).Orderly := by
  simp [truncatedDivision, own]

theorem orderly_binaryExp {target : Target} {operator : Operator BinaryKind}
    (h : binaryExp? tag target operator x y = some z) : z.Orderly ↔ x.Orderly ∧ y.Orderly := by
  cases operator with
  | custom text =>
    cases h
    exact Iff.rfl
  | standard kind =>
    rw [binaryExp?] at h
    split at h
    · cases h
      simp [own]
    · unfold standardExp? at h
      split at h
      · cases h
        simp [orderly_truncatedDivision]
      · cases h
        exact Iff.rfl
      · obtain ⟨op, -, rfl⟩ := Option.map_eq_some_iff.1 h
        exact Iff.rfl

/-- Both branches return, each at the end of its block. -/
theorem orderly_conditional {alternative : Option (Exp ν)} :
    (conditional x y alternative).Orderly ↔
      x.Orderly ∧ y.Orderly ∧ ∀ z ∈ alternative, z.Orderly := by
  cases alternative <;>
    simp [conditional, Stat.isResult]

theorem orderly_selected {isType : Bool} {member : String} {arguments : Option (List (Exp ν))} :
    (selected x isType member arguments).Orderly ↔ x.Orderly ∧ orderlyExps (arguments.getD []) := by
  cases arguments <;> cases isType <;> simp [selected]

theorem orderly_guardExp (nilSafe optional : Bool) (member : String) :
    (guardExp tag nilSafe optional member).Orderly := by
  rw [guardExp]
  split
  · exact ⟨⟨trivial, trivial⟩, trivial, trivial⟩
  · split <;> exact ⟨trivial, trivial⟩

theorem orderly_memberExp {site : Option (Bool × Exp ν)} {selection : Selection} {optional : Bool}
    {member : String} {arguments : Option (List (Exp ν))} :
    (memberExp tag site selection optional member arguments).Orderly ↔
      (∀ s ∈ site, s.2.Orderly) ∧ orderlyExps (arguments.getD []) := by
  unfold memberExp
  split
  · split <;> simp [given]
  · split
    · simp [guarded, own, Stat.isResult, orderly_guardExp, orderly_selected, and_comm]
    · simp [orderly_selected]

theorem orderly_indexed {keys : List (Exp ν)} :
    (indexed x keys).Orderly ↔ x.Orderly ∧ orderlyExps keys := by
  induction keys generalizing x with
  | nil => simp [indexed]
  | cons key keys ih =>
    have hindexed : indexed x (key :: keys) = indexed (.index x key) keys := rfl
    rw [hindexed, ih, orderlyExps_cons, Exp.orderly_index, and_assoc]

/-- Behind the assignments of an initialized object only its own return stands. -/
theorem orderly_constructExp {type constructor : String} {arguments : List (Exp ν)}
    (h : ∀ s ∈ ss, s.isResult = false) :
    (constructExp tag type constructor arguments ss).Orderly ↔ orderlyExps arguments ∧ orderlyStats ss := by
  cases ss with
  | nil => simp [constructExp, given]
  | cons s ss =>
    have happend : orderlyStats (s :: ss ++ [.empty, .result [own tag "o"]]) ↔
        orderlyStats (s :: ss) ∧ orderlyStats [.empty, .result [own tag "o"]] :=
      orderlyStats_append_of_goesOn h
    rw [List.cons_append] at happend
    simp [constructExp, initialized, given, own, Stat.isResult] at happend ⊢
    grind

/-! ## Statements that go on -/

theorem goesOn_toLuaInitializers? {initializers : List Argument}
    (h : toLuaInitializers? tag g initializers = some ss) : ∀ s ∈ ss, s.isResult = false := by
  induction initializers generalizing ss with
  | nil =>
    cases h
    simp
  | cons i initializers ih =>
    obtain ⟨name, value, passing⟩ := i
    simp only [toLuaInitializers?, Option.bind_eq_bind, Option.bind_eq_some_iff,
      Option.some.injEq] at h
    obtain ⟨_, -, _, -, _, -, assignments, hassignments, rfl⟩ := h
    exact List.forall_mem_cons.2 ⟨rfl, List.forall_mem_cons.2 ⟨rfl, ih hassignments⟩⟩

theorem goesOn_toLuaDefaults? {parameters : List Parameter}
    (h : toLuaDefaults? tag g parameters = some ss) : ∀ s ∈ ss, s.isResult = false := by
  induction parameters generalizing ss with
  | nil =>
    cases h
    simp
  | cons p parameters ih =>
    obtain ⟨name, type, passing, value⟩ := p
    cases value with
    | none => exact ih h
    | some value =>
      simp only [toLuaDefaults?, Option.bind_eq_bind, Option.bind_eq_some_iff, Option.some.injEq] at h
      obtain ⟨_, -, _, -, defaults, hdefaults, rfl⟩ := h
      exact List.forall_mem_cons.2 ⟨rfl, ih hdefaults⟩

theorem isResult_toLuaLocal? {declared : Declaration} {s : Stat ν}
    (h : toLuaLocal? tag g declared = some s) : s.isResult = false := by
  obtain ⟨name, type, value, constant⟩ := declared
  cases value with
  | none =>
    simp only [toLuaLocal?, Option.bind_eq_bind, Option.bind_eq_some_iff, Option.some.injEq] at h
    obtain ⟨_, -, rfl⟩ := h
    rfl
  | some value =>
    simp only [toLuaLocal?, Option.bind_eq_bind, Option.bind_eq_some_iff, Option.some.injEq] at h
    obtain ⟨_, -, _, -, rfl⟩ := h
    rfl

theorem goesOn_toLuaLocalList? {locals : List Declaration}
    (h : toLuaLocalList? tag g locals = some ss) : ∀ s ∈ ss, s.isResult = false := by
  induction locals generalizing ss with
  | nil =>
    cases h
    simp
  | cons declared locals ih =>
    simp only [toLuaLocalList?, Option.bind_eq_bind, Option.bind_eq_some_iff, Option.some.injEq] at h
    obtain ⟨s, hs, rest, hrest, rfl⟩ := h
    exact List.forall_mem_cons.2 ⟨isResult_toLuaLocal? hs, ih hrest⟩

theorem goesOn_toLuaLocals? {locals : Option (List Declaration)}
    (h : toLuaLocals? tag g locals = some ss) : ∀ s ∈ ss, s.isResult = false := by
  cases locals with
  | none =>
    cases h
    simp
  | some locals => exact goesOn_toLuaLocalList? h

/-- A statement is one or more in Lua, which return if it does. -/
theorem isResult_toLuaStatement? {s : Statement} (h : toLuaStatement? tag g s = some ss) :
    ss ≠ [] ∧ ∀ s' ∈ ss, s'.isResult = s.isResult := by
  cases s with
  | expression value =>
    simp only [toLuaStatement?, Option.bind_eq_bind, Option.bind_eq_some_iff, Option.some.injEq] at h
    obtain ⟨x, -, rfl⟩ := h
    rw [callStats]
    split <;> simp [Stat.isResult, Statement.isResult]
  | declaration declared =>
    simp only [toLuaStatement?, Option.bind_eq_bind, Option.bind_eq_some_iff, Option.some.injEq] at h
    obtain ⟨s, hs, rfl⟩ := h
    simp [isResult_toLuaLocal? hs, Statement.isResult]
  | assignment target value =>
    simp only [toLuaStatement?, Option.bind_eq_bind, Option.bind_eq_some_iff, Option.some.injEq] at h
    obtain ⟨_, -, _, -, rfl⟩ := h
    simp [Stat.isResult, Statement.isResult]
  | result value =>
    cases value with
    | none =>
      cases h
      simp [Stat.isResult, Statement.isResult]
    | some value =>
      simp only [toLuaStatement?, Option.bind_eq_bind, Option.bind_eq_some_iff, Option.some.injEq] at h
      obtain ⟨_, -, rfl⟩ := h
      simp [Stat.isResult, Statement.isResult]
  | block body =>
    simp only [toLuaStatement?, Option.bind_eq_bind, Option.bind_eq_some_iff, Option.some.injEq] at h
    obtain ⟨_, -, rfl⟩ := h
    simp [Stat.isResult, Statement.isResult]

theorem toLuaStatements?_eq_nil {statements : List Statement}
    (h : toLuaStatements? tag g statements = some ss) : ss = [] ↔ statements = [] := by
  cases statements with
  | nil =>
    cases h
    exact iff_of_true rfl rfl
  | cons s statements =>
    simp only [toLuaStatements?, Option.bind_eq_bind, Option.bind_eq_some_iff, Option.some.injEq] at h
    obtain ⟨xs, hxs, ys, -, rfl⟩ := h
    simp [(isResult_toLuaStatement? hxs).1]

/-! ## Trees -/

mutual

/-- The syntax tree of an expression is orderly exactly if the methods and blocks in it are in order. -/
theorem orderly_toLua? : ∀ (e : Expr) {x : Exp ν}, toLua? tag g e = some x →
    (x.Orderly ↔ InOrder e.rendered)
  | .shared s, x, hx => by
    simpa [Expr.rendered, Node.bodies] using orderly_atomExp hx
  | .atom a, x, hx => by
    simpa [Expr.rendered, Node.bodies] using orderly_atomExp hx
  | .array elements kind, x, hx => by
    simp only [toLua?, Option.bind_eq_bind, Option.bind_eq_some_iff, Option.some.injEq] at hx
    obtain ⟨xs, hxs, rfl⟩ := hx
    simpa [orderlyFields_map_item, Expr.rendered, Node.bodies]
      using orderly_toLuaList? elements hxs
  | .dictionary entries, x, hx => by
    simp only [toLua?, Option.bind_eq_bind, Option.bind_eq_some_iff, Option.some.injEq] at hx
    obtain ⟨fields, hfields, rfl⟩ := hx
    simpa [Expr.rendered, Node.bodies] using orderly_toLuaEntries? entries hfields
  | .tuple elements, x, hx => by
    simp only [toLua?, Option.bind_eq_bind, Option.bind_eq_some_iff, Option.some.injEq] at hx
    obtain ⟨xs, hxs, rfl⟩ := hx
    simpa [orderlyFields_map_item, Expr.rendered, Node.bodies]
      using orderly_toLuaList? elements hxs
  | .unary operator operand, x, hx => by
    simp only [toLua?, Option.bind_eq_bind, Option.bind_eq_some_iff] at hx
    obtain ⟨y, hy, hx⟩ := hx
    simpa [orderly_unaryExp hx, Expr.rendered, Node.bodies] using orderly_toLua? operand hy
  | .binary operator left right, x, hx => by
    simp only [toLua?, Option.bind_eq_bind, Option.bind_eq_some_iff] at hx
    obtain ⟨y, hy, z, hz, hx⟩ := hx
    simp [orderly_binaryExp hx, orderly_toLua? left hy, orderly_toLua? right hz, Expr.rendered,
      Node.bodies]
  | .field site selection, x, hx => by
    simp only [toLua?, Option.bind_eq_bind, Option.bind_eq_some_iff, Option.some.injEq] at hx
    obtain ⟨s, hs, member, -, rfl⟩ := hx
    rw [orderly_memberExp, orderly_toLuaSite? site hs]
    simp [Expr.rendered, Node.bodies]
  | .call site selection arguments optional, x, hx => by
    simp only [toLua?, Option.bind_eq_bind, Option.bind_eq_some_iff, Option.some.injEq] at hx
    obtain ⟨s, hs, member, -, xs, hxs, rfl⟩ := hx
    simp only [orderly_memberExp, orderly_toLuaSite? site hs, Option.getD_some,
      orderly_toLuaArguments? arguments hxs, Expr.rendered, inOrder_cons]
    split <;> simp [Node.bodies, and_comm]
  | .property site selection indices, x, hx => by
    simp only [toLua?, Option.bind_eq_bind, Option.bind_eq_some_iff, Option.some.injEq] at hx
    obtain ⟨s, hs, member, -, keys, hkeys, rfl⟩ := hx
    rw [orderly_indexed, orderly_memberExp, orderly_toLuaSite? site hs,
      orderly_toLuaArguments? indices hkeys]
    simp [Expr.rendered, Node.bodies]
  | .construct type constructor arguments initializers, x, hx => by
    simp only [toLua?, Option.bind_eq_bind, Option.bind_eq_some_iff, Option.some.injEq] at hx
    obtain ⟨_, -, _, -, xs, hxs, assignments, hassignments, rfl⟩ := hx
    simp [orderly_constructExp (goesOn_toLuaInitializers? hassignments),
      orderly_toLuaArguments? arguments hxs, orderly_toLuaInitializers? initializers hassignments,
      Expr.rendered, Node.bodies]
  | .allocate _ _ _ _, x, hx => by
    cases hx
    simp [Expr.rendered, Node.bodies]
  | .element array indices, x, hx => by
    simp only [toLua?, Option.bind_eq_bind, Option.bind_eq_some_iff, Option.some.injEq] at hx
    obtain ⟨y, hy, keys, hkeys, rfl⟩ := hx
    simp [orderly_indexed, orderly_toLua? array hy, orderly_toLuaList? indices hkeys, Expr.rendered,
      Node.bodies]
  | .wrapped .parentheses inner, x, hx => by
    simp only [toLua?, Option.bind_eq_bind, Option.bind_eq_some_iff, Option.some.injEq] at hx
    obtain ⟨y, hy, rfl⟩ := hx
    simpa [Expr.rendered, Node.bodies] using orderly_toLua? inner hy
  | .wrapped .typeOf inner, x, hx => by
    simp only [toLua?, Option.bind_eq_bind, Option.bind_eq_some_iff, Option.some.injEq] at hx
    obtain ⟨y, hy, rfl⟩ := hx
    simpa [own, Expr.rendered, Node.bodies] using orderly_toLua? inner hy
  | .wrapped .sizeOf inner, x, hx => by cases hx
  | .wrapped .dereference inner, x, hx => by cases hx
  | .conditional condition consequence none, x, hx => by
    simp only [toLua?, Option.bind_eq_bind, Option.bind_eq_some_iff, Option.some.injEq] at hx
    obtain ⟨y, hy, z, hz, rfl⟩ := hx
    simp [orderly_conditional, orderly_toLua? condition hy, orderly_toLua? consequence hz,
      Expr.rendered, renderedExpr?, Node.bodies]
  | .conditional condition consequence (some alternative), x, hx => by
    simp only [toLua?, Option.bind_eq_bind, Option.bind_eq_some_iff, Option.some.injEq] at hx
    obtain ⟨y, hy, z, hz, a, ha, rfl⟩ := hx
    simp [orderly_conditional, orderly_toLua? condition hy, orderly_toLua? consequence hz,
      orderly_toLua? alternative ha, Expr.rendered, renderedExpr?, Node.bodies]
  | .cast value type throwing safe, x, hx => by
    simpa [Expr.rendered, Node.bodies] using orderly_toLua? value hx
  | .assigned value inverted, x, hx => by
    simp only [toLua?, Option.bind_eq_bind, Option.bind_eq_some_iff, Option.some.injEq] at hx
    obtain ⟨y, hy, rfl⟩ := hx
    simpa [Expr.rendered, Node.bodies] using orderly_toLua? value hy
  | .method _ parameters _ body locals, x, hx => by
    simp only [toLua?, Option.bind_eq_bind, Option.bind_eq_some_iff, Option.some.injEq] at hx
    obtain ⟨names, -, defaults, hdefaults, declared, hdeclared, statements, hstatements, rfl⟩ := hx
    simp only [Exp.orderly_function, List.append_assoc,
      orderlyStats_append_of_goesOn (goesOn_toLuaDefaults? hdefaults),
      orderlyStats_append_of_goesOn (goesOn_toLuaLocals? hdeclared),
      orderly_toLuaDefaults? parameters hdefaults, orderly_toLuaLocals? locals hdeclared,
      orderly_toLuaStatements? body hstatements, Expr.rendered, inOrder_cons, inOrder_append,
      Node.bodies, List.forall_mem_singleton]
    grind
  | .anonymousType _ _, x, hx => by cases hx

theorem orderly_toLuaSite? : ∀ (site : Option Expr) {s : Option (Bool × Exp ν)},
    toLuaSite? tag g site = some s → ((∀ p ∈ s, p.2.Orderly) ↔ InOrder (renderedExpr? site))
  | none, s, hs => by
    cases hs
    simp [renderedExpr?]
  | some site, s, hs => by
    simp only [toLuaSite?, Option.bind_eq_bind, Option.bind_eq_some_iff, Option.some.injEq] at hs
    obtain ⟨x, hx, rfl⟩ := hs
    simpa [renderedExpr?] using orderly_toLua? site hx

theorem orderly_toLuaList? : ∀ (es : List Expr) {xs : List (Exp ν)}, toLuaList? tag g es = some xs →
    (orderlyExps xs ↔ InOrder (renderedExprs es))
  | [], xs, hxs => by
    cases hxs
    simp [renderedExprs]
  | e :: es, xs, hxs => by
    simp only [toLuaList?, Option.bind_eq_bind, Option.bind_eq_some_iff, Option.some.injEq] at hxs
    obtain ⟨x, hx, xs, hxs, rfl⟩ := hxs
    simp [orderly_toLua? e hx, orderly_toLuaList? es hxs, renderedExprs]

theorem orderly_toLuaEntries? : ∀ (entries : List (Expr × Expr)) {fs : List (TableField ν)},
    toLuaEntries? tag g entries = some fs → (orderlyFields fs ↔ InOrder (renderedEntries entries))
  | [], fs, hfs => by
    cases hfs
    simp [renderedEntries]
  | (key, value) :: entries, fs, hfs => by
    simp only [toLuaEntries?, Option.bind_eq_bind, Option.bind_eq_some_iff, Option.some.injEq] at hfs
    obtain ⟨x, hx, y, hy, fs, hfs, rfl⟩ := hfs
    simp [orderly_toLua? key hx, orderly_toLua? value hy, orderly_toLuaEntries? entries hfs,
      renderedEntries, and_assoc]

theorem orderly_toLuaArguments? : ∀ (arguments : List Argument) {xs : List (Exp ν)},
    toLuaArguments? tag g arguments = some xs → (orderlyExps xs ↔ InOrder (renderedArguments arguments))
  | [], xs, hxs => by
    cases hxs
    simp [renderedArguments]
  | ⟨_, value, _⟩ :: arguments, xs, hxs => by
    simp only [toLuaArguments?, Option.bind_eq_bind, Option.bind_eq_some_iff, Option.some.injEq] at hxs
    obtain ⟨x, hx, xs, hxs, rfl⟩ := hxs
    simp [orderly_toLua? value hx, orderly_toLuaArguments? arguments hxs, renderedArguments]

theorem orderly_toLuaInitializers? : ∀ (initializers : List Argument) {ss : List (Stat ν)},
    toLuaInitializers? tag g initializers = some ss →
      (orderlyStats ss ↔ InOrder (renderedArguments initializers))
  | [], ss, hss => by
    cases hss
    simp [renderedArguments]
  | ⟨_, value, _⟩ :: initializers, ss, hss => by
    simp only [toLuaInitializers?, Option.bind_eq_bind, Option.bind_eq_some_iff,
      Option.some.injEq] at hss
    obtain ⟨_, -, property, -, x, hx, ss, hss, rfl⟩ := hss
    simp [initializer, own, Stat.isResult, orderly_toLua? value hx,
      orderly_toLuaInitializers? initializers hss, renderedArguments]

theorem orderly_toLuaDefaults? : ∀ (parameters : List Parameter) {ss : List (Stat ν)},
    toLuaDefaults? tag g parameters = some ss →
      (orderlyStats ss ↔ InOrder (renderedDefaults parameters))
  | [], ss, hss => by
    cases hss
    simp [renderedDefaults]
  | ⟨_, _, _, none⟩ :: parameters, ss, hss => by
    simpa [renderedDefaults, renderedExpr?] using orderly_toLuaDefaults? parameters hss
  | ⟨_, _, _, some value⟩ :: parameters, ss, hss => by
    simp only [toLuaDefaults?, Option.bind_eq_bind, Option.bind_eq_some_iff, Option.some.injEq] at hss
    obtain ⟨name, -, x, hx, ss, hss, rfl⟩ := hss
    simp [defaultStat, given, Stat.isResult, orderly_toLua? value hx,
      orderly_toLuaDefaults? parameters hss, renderedDefaults, renderedExpr?]

theorem orderly_toLuaLocal? : ∀ (declared : Declaration) {s : Stat ν},
    toLuaLocal? tag g declared = some s → (s.Orderly ↔ InOrder (renderedExpr? declared.value))
  | ⟨_, _, none, _⟩, s, hs => by
    simp only [toLuaLocal?, Option.bind_eq_bind, Option.bind_eq_some_iff, Option.some.injEq] at hs
    obtain ⟨_, -, rfl⟩ := hs
    simp [renderedExpr?]
  | ⟨_, _, some value, _⟩, s, hs => by
    simp only [toLuaLocal?, Option.bind_eq_bind, Option.bind_eq_some_iff, Option.some.injEq] at hs
    obtain ⟨_, -, x, hx, rfl⟩ := hs
    simp [orderly_toLua? value hx, renderedExpr?]

theorem orderly_toLuaLocalList? : ∀ (locals : List Declaration) {ss : List (Stat ν)},
    toLuaLocalList? tag g locals = some ss → (orderlyStats ss ↔ InOrder (renderedLocals locals))
  | [], ss, hss => by
    cases hss
    simp [renderedLocals]
  | ⟨name, type, value, constant⟩ :: locals, ss, hss => by
    simp only [toLuaLocalList?, Option.bind_eq_bind, Option.bind_eq_some_iff, Option.some.injEq] at hss
    obtain ⟨s, hs, ss, hss, rfl⟩ := hss
    simp [isResult_toLuaLocal? hs, orderly_toLuaLocal? ⟨name, type, value, constant⟩ hs,
      orderly_toLuaLocalList? locals hss, renderedLocals]

theorem orderly_toLuaLocals? : ∀ (locals : Option (List Declaration)) {ss : List (Stat ν)},
    toLuaLocals? tag g locals = some ss → (orderlyStats ss ↔ InOrder (renderedLocals? locals))
  | none, ss, hss => by
    cases hss
    simp [renderedLocals?]
  | some locals, ss, hss => orderly_toLuaLocalList? locals hss

theorem orderly_toLuaStatement? : ∀ (s : Statement) {ss : List (Stat ν)},
    toLuaStatement? tag g s = some ss → (orderlyStats ss ↔ InOrder s.rendered)
  | .expression value, ss, hss => by
    simp only [toLuaStatement?, Option.bind_eq_bind, Option.bind_eq_some_iff, Option.some.injEq] at hss
    obtain ⟨x, hx, rfl⟩ := hss
    have hcall : orderlyStats (callStats x) ↔ x.Orderly := by
      rw [callStats]
      split <;> simp [Stat.isResult]
    simp [hcall, orderly_toLua? value hx, Statement.rendered, Node.bodies]
  | .declaration ⟨name, type, value, constant⟩, ss, hss => by
    simp only [toLuaStatement?, Option.bind_eq_bind, Option.bind_eq_some_iff, Option.some.injEq] at hss
    obtain ⟨s, hs, rfl⟩ := hss
    simp [orderly_toLuaLocal? ⟨name, type, value, constant⟩ hs, Statement.rendered,
      Node.bodies]
  | .assignment target value, ss, hss => by
    simp only [toLuaStatement?, Option.bind_eq_bind, Option.bind_eq_some_iff, Option.some.injEq] at hss
    obtain ⟨x, hx, y, hy, rfl⟩ := hss
    simp [orderly_toLua? target hx, orderly_toLua? value hy, Statement.rendered, Node.bodies]
  | .result none, ss, hss => by
    cases hss
    simp [Statement.rendered, renderedExpr?, Node.bodies]
  | .result (some value), ss, hss => by
    simp only [toLuaStatement?, Option.bind_eq_bind, Option.bind_eq_some_iff, Option.some.injEq] at hss
    obtain ⟨x, hx, rfl⟩ := hss
    simp [orderly_toLua? value hx, Statement.rendered, renderedExpr?, Node.bodies]
  | .block body, ss, hss => by
    simp only [toLuaStatement?, Option.bind_eq_bind, Option.bind_eq_some_iff, Option.some.injEq] at hss
    obtain ⟨ts, hts, rfl⟩ := hss
    simp [orderly_toLuaStatements? body hts, Statement.rendered, Node.bodies]

/-- The syntax trees of statements are orderly exactly if the statements are, and the methods and blocks
in them. -/
theorem orderly_toLuaStatements? : ∀ (statements : List Statement) {ss : List (Stat ν)},
    toLuaStatements? tag g statements = some ss →
      (orderlyStats ss ↔ ReturnsLast statements ∧ InOrder (renderedStatements statements))
  | [], ss, hss => by
    cases hss
    simp [renderedStatements, ReturnsLast]
  | s :: statements, ss, hss => by
    simp only [toLuaStatements?, Option.bind_eq_bind, Option.bind_eq_some_iff, Option.some.injEq] at hss
    obtain ⟨xs, hxs, ys, hys, rfl⟩ := hss
    obtain ⟨hne, hresults⟩ := isResult_toLuaStatement? hxs
    have hlast : (ys ≠ [] → ∀ x ∈ xs, x.isResult = false) ↔ (s.isResult = true → statements = []) := by
      obtain ⟨x, xs, rfl⟩ := List.exists_cons_of_ne_nil hne
      rw [Ne, toLuaStatements?_eq_nil hys]
      cases hs : s.isResult <;> simp_all
    rw [orderlyStats_append, orderly_toLuaStatement? s hxs, orderly_toLuaStatements? statements hys,
      hlast, returnsLast_cons, renderedStatements, inOrder_append]
    grind

end

end CodeTree.Lua
