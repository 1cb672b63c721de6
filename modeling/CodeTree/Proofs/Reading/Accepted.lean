import CodeTree.Proofs.Emission.Rendered
import CodeTree.Proofs.Reading.Translation

/-! # Accepted trees have syntax trees

A tree that can be written and has no raw code in it has a syntax tree in Lua, whatever its names and
custom operators are: what has no syntax tree is refused, and so is a symbol without a name.

* `exists_toLua?`: the syntax tree of an expression that is written. -/

namespace CodeTree.Lua

set_option autoImplicit false

variable {ν : Type} (tag : Origin → String → ν) {g : Setting}

/-! ## Nodes, given their parts -/

variable {n : Nat} {w : List Char}

theorem exists_atomExp {a : Atom} (hraw : (Node.expression (.atom a)).isRaw = false)
    (hw : Yields (emitAtom g a) n () w) : ∃ x, atomExp? tag g a = some x := by
  cases a with
  | nil | selfReference | literal => exact ⟨_, rfl⟩
  | identifier s =>
    obtain ⟨name, hname, -⟩ := yields_emitAtom_identifier.1 hw
    exact ⟨given tag name, by simp [atomExp?, hname]⟩
  | localVariable read =>
    obtain ⟨name, hname, -⟩ := yields_emitAtom_localVariable.1 hw
    exact ⟨given tag name, by simp [atomExp?, hname]⟩
  | typeReference type =>
    obtain ⟨name, hname, -⟩ := yields_emitAtom_typeReference.1 hw
    exact ⟨given tag name, by simp [atomExp?, hname]⟩
  | enumValue value =>
    obtain ⟨type, htype, name, hname, -⟩ := yields_emitAtom_enumValue.1 hw
    exact ⟨.field (given tag type) name, by simp [atomExp?, htype, hname]⟩
  | propertyValue => exact absurd hw not_yields_emitAtom_propertyValue
  | inherited => exact absurd hw not_yields_emitAtom_inherited
  | selector name => exact absurd hw not_yields_emitAtom_selector
  | default type => exact absurd hw not_yields_emitAtom_default
  | raw lines => exact nomatch hraw

theorem exists_unaryExp {operator : Operator UnaryKind} {operand : Expr}
    (hoperand : ∀ v, Yields (emitExpr g operand) n () v → ∃ x, toLua? tag g operand = some x)
    (hw : Yields (emitUnary operator (emitExpr g operand)) n () w) :
    ∃ x, toLua? tag g (.unary operator operand) = some x := by
  match operator with
  | .standard .plus =>
    obtain ⟨x, hx⟩ := hoperand w (yields_emitUnary_plus.1 hw)
    exact ⟨x, by simp [toLua?, hx, unaryExp?]⟩
  | .standard .addressOf => exact absurd hw not_yields_emitUnary_addressOf
  | .standard .minus | .standard .not | .custom text =>
    obtain ⟨v, hv, -⟩ := yields_emitPrefixed.1 hw
    obtain ⟨x, hx⟩ := hoperand v hv
    simp [toLua?, hx, unaryExp?]

theorem exists_binaryExp {target : Target} {operator : Operator BinaryKind} {form : BinaryForm}
    (hform : binaryForm target operator = .ok form) (x y : Exp ν) :
    ∃ z, binaryExp? tag target operator x y = some z := by
  cases operator with
  | custom text => exact ⟨_, rfl⟩
  | standard kind =>
    rw [binaryExp?]
    split
    · exact ⟨_, rfl⟩
    · cases kind with
      | logicalXor | is | isNot | isIn | notIn => cases target <;> exact nomatch hform
      | truncatedDivision | implies | addition | subtraction | multiplication | division | modulus | equals
      | notEquals | lessThan | lessThanOrEquals | greaterThan | greaterThanOrEquals | logicalAnd
      | logicalOr | shiftLeft | shiftRight | bitwiseAnd | bitwiseOr | bitwiseXor => exact ⟨_, rfl⟩

section Access

variable {selection : Selection} {site : Option Expr}

theorem exists_field
    (hsite : ∀ e ∈ site, ∀ v, Yields (emitExpr g e) n () v → ∃ x, toLua? tag g e = some x)
    (hw : Yields (emitExpr g (.field site selection)) n () w) :
    ∃ s member, toLuaSite? tag g site = some s ∧ g.names.resolve selection.name = some member := by
  cases site with
  | none =>
    obtain ⟨member, hmember, -⟩ := yields_emitExpr_field_none.1 hw
    exact ⟨none, member, rfl, hmember⟩
  | some e =>
    obtain ⟨member, v, hmember, hv, -⟩ := yields_emitExpr_field_some.1 hw
    obtain ⟨x, hx⟩ := hsite e rfl v hv
    exact ⟨some (isTypeReference e, x), member, by simp [toLuaSite?, hx], hmember⟩

theorem exists_call {arguments : List Argument} {optional : Bool}
    (hsite : ∀ e ∈ site, ∀ v, Yields (emitExpr g e) n () v → ∃ x, toLua? tag g e = some x)
    (harguments : ∀ v, Yields (emitArguments g true arguments) n () v →
      ∃ xs, toLuaArguments? tag g arguments = some xs)
    (hw : Yields (emitExpr g (.call site selection arguments optional)) n () w) :
    ∃ x, toLua? tag g (.call site selection arguments optional) = some x := by
  cases site with
  | none =>
    obtain ⟨member, v, hmember, hv, -⟩ := yields_emitExpr_call_none.1 hw
    obtain ⟨xs, hxs⟩ := harguments v hv
    simp [toLua?, toLuaSite?, hmember, hxs]
  | some e =>
    obtain ⟨member, v, s, hmember, hv, hs, -⟩ := yields_emitExpr_call_some.1 hw
    obtain ⟨xs, hxs⟩ := harguments v hv
    obtain ⟨x, hx⟩ := hsite e rfl s hs
    simp [toLua?, toLuaSite?, hmember, hxs, hx]

end Access

theorem exists_construct {type : TypeReference} {constructor : Option Symbol}
    {arguments initializers : List Argument}
    (harguments : ∀ v, Yields (emitArguments g true arguments) n () v →
      ∃ xs, toLuaArguments? tag g arguments = some xs)
    (hinitializers : ∀ v, Yields (emitInitializers g initializers) n () v →
      ∃ ss, toLuaInitializers? tag g initializers = some ss)
    (hw : Yields (emitExpr g (.construct type constructor arguments initializers)) n () w) :
    ∃ x, toLua? tag g (.construct type constructor arguments initializers) = some x := by
  have hcreation : ∀ v, Yields (emitExpr g (.construct type constructor arguments [])) n () v →
      ∃ typeName name xs, g.names.resolve type.name = some typeName ∧
        constructorName g constructor = some name ∧ toLuaArguments? tag g arguments = some xs := by
    intro v hv
    obtain ⟨typeName, name, u, htype, hname, hu, -⟩ := yields_emitExpr_construct.1 hv
    obtain ⟨xs, hxs⟩ := harguments u hu
    exact ⟨typeName, name, xs, htype, hname, hxs⟩
  cases initializers with
  | nil =>
    obtain ⟨typeName, name, xs, htype, hname, hxs⟩ := hcreation w hw
    simp [toLua?, toLuaInitializers?, htype, hname, hxs]
  | cons i is =>
    obtain ⟨v, u, hv, hu, -⟩ := yields_emitExpr_construct_with.1 hw
    obtain ⟨typeName, name, xs, htype, hname, hxs⟩ := hcreation v hv
    obtain ⟨ss, hss⟩ := hinitializers u hu
    simp [toLua?, htype, hname, hxs, hss]

theorem exists_parameterNames {parameters : List Parameter} {isFirst : Bool}
    (hw : Yields (emitParameterNames g isFirst parameters) n () w) :
    ∃ names, parameterNames? tag g parameters = some names := by
  induction parameters generalizing isFirst w with
  | nil => exact ⟨[], rfl⟩
  | cons p parameters ih =>
    obtain ⟨-, name, v, hname, hv, -⟩ := yields_emitParameterNames_cons.1 hw
    obtain ⟨names, hnames⟩ := ih hv
    simp [parameterNames?, hname, hnames]

/-! ## Trees -/

mutual

/-- An expression that is written without raw code has a syntax tree. -/
theorem exists_toLua? : ∀ (e : Expr) {n : Nat} {w : List Char},
    (∀ node ∈ e.rendered, node.isRaw = false) → Yields (emitExpr g e) n () w →
      ∃ x, toLua? tag g e = some x
  | .shared s, n, w, h, hw => exists_atomExp tag (h _ (by simp [Expr.rendered])) hw
  | .atom a, n, w, h, hw => exists_atomExp tag (h _ (by simp [Expr.rendered])) hw
  | .array elements kind, n, w, h, hw => by
    obtain ⟨v, hv, -⟩ := yields_emitExpr_array.1 hw
    rw [Expr.rendered, List.forall_mem_cons] at h
    obtain ⟨xs, hxs⟩ := exists_toLuaList? elements h.2 hv
    simp [toLua?, hxs]
  | .dictionary entries, n, w, h, hw => by
    obtain ⟨v, hv, -⟩ := yields_emitExpr_dictionary.1 hw
    rw [Expr.rendered, List.forall_mem_cons] at h
    obtain ⟨fields, hfields⟩ := exists_toLuaEntries? entries h.2 hv
    simp [toLua?, hfields]
  | .tuple elements, n, w, h, hw => by
    obtain ⟨v, hv, -⟩ := yields_emitExpr_tuple.1 hw
    rw [Expr.rendered, List.forall_mem_cons] at h
    obtain ⟨xs, hxs⟩ := exists_toLuaList? elements h.2 hv
    simp [toLua?, hxs]
  | .unary operator operand, n, w, h, hw => by
    rw [Expr.rendered, List.forall_mem_cons] at h
    exact exists_unaryExp tag (fun v hv => exists_toLua? operand h.2 hv) (yields_emitExpr_unary.1 hw)
  | .binary operator left right, n, w, h, hw => by
    obtain ⟨form, v₁, v₂, hform, hv₁, hv₂, -⟩ := yields_emitExpr_binary.1 hw
    simp only [Expr.rendered, List.forall_mem_cons, List.forall_mem_append] at h
    obtain ⟨x, hx⟩ := exists_toLua? left h.2.1 hv₁
    obtain ⟨y, hy⟩ := exists_toLua? right h.2.2 hv₂
    obtain ⟨z, hz⟩ := exists_binaryExp tag hform x y
    exact ⟨z, by simp [toLua?, hx, hy, hz]⟩
  | .field site selection, n, w, h, hw => by
    rw [Expr.rendered, List.forall_mem_cons] at h
    obtain ⟨s, member, hs, hmember⟩ := exists_field tag (exists_toLuaSite? site h.2) hw
    simp [toLua?, hs, hmember]
  | .call site selection arguments optional, n, w, h, hw => by
    rw [Expr.rendered, List.forall_mem_cons] at h
    have hparts : (∀ node ∈ renderedExpr? site, node.isRaw = false) ∧
        ∀ node ∈ renderedArguments arguments, node.isRaw = false := by
      refine ⟨fun node hnode => h.2 node ?_, fun node hnode => h.2 node ?_⟩ <;>
        split <;> simp [hnode]
    exact exists_call tag (exists_toLuaSite? site hparts.1)
      (fun v hv => exists_toLuaArguments? arguments hparts.2 hv) hw
  | .property site selection indices, n, w, h, hw => by
    obtain ⟨v, i, hv, hi, -⟩ := yields_emitExpr_property.1 hw
    simp only [Expr.rendered, List.forall_mem_cons, List.forall_mem_append] at h
    obtain ⟨s, member, hs, hmember⟩ := exists_field tag (exists_toLuaSite? site h.2.1) hv
    obtain ⟨keys, hkeys⟩ := exists_toLuaIndices? indices h.2.2 hi
    simp [toLua?, hs, hmember, hkeys]
  | .construct type constructor arguments initializers, n, w, h, hw => by
    simp only [Expr.rendered, List.forall_mem_cons, List.forall_mem_append] at h
    exact exists_construct tag (fun v hv => exists_toLuaArguments? arguments h.2.1 hv)
      (fun v hv => exists_toLuaInitializers? initializers h.2.2 hv) hw
  | .allocate _ _ _ _, n, w, _, _ => ⟨_, rfl⟩
  | .element array indices, n, w, h, hw => by
    obtain ⟨v, i, hv, hi, -⟩ := yields_emitExpr_element.1 hw
    simp only [Expr.rendered, List.forall_mem_cons, List.forall_mem_append] at h
    obtain ⟨x, hx⟩ := exists_toLua? array h.2.1 hv
    obtain ⟨keys, hkeys⟩ := exists_toLuaKeys? indices h.2.2 hi
    simp [toLua?, hx, hkeys]
  | .wrapped .parentheses inner, n, w, h, hw => by
    obtain ⟨v, hv, -⟩ := yields_emitExpr_parentheses.1 hw
    rw [Expr.rendered, List.forall_mem_cons] at h
    obtain ⟨x, hx⟩ := exists_toLua? inner h.2 hv
    simp [toLua?, hx]
  | .wrapped .typeOf inner, n, w, h, hw => by
    obtain ⟨v, hv, -⟩ := yields_emitExpr_typeOf.1 hw
    rw [Expr.rendered, List.forall_mem_cons] at h
    obtain ⟨x, hx⟩ := exists_toLua? inner h.2 hv
    simp [toLua?, hx]
  | .wrapped .sizeOf inner, n, w, h, hw => absurd hw not_yields_refuse
  | .wrapped .dereference inner, n, w, h, hw => absurd hw not_yields_refuse
  | .conditional condition consequence none, n, w, h, hw => by
    obtain ⟨v₁, v₂, hv₁, hv₂, -⟩ := yields_emitExpr_conditional_none.1 hw
    simp only [Expr.rendered, List.forall_mem_cons, List.forall_mem_append] at h
    obtain ⟨x, hx⟩ := exists_toLua? condition h.2.1.1 hv₁
    obtain ⟨y, hy⟩ := exists_toLua? consequence h.2.1.2 hv₂
    simp [toLua?, hx, hy]
  | .conditional condition consequence (some alternative), n, w, h, hw => by
    obtain ⟨v₁, v₂, v₃, hv₁, hv₂, hv₃, -⟩ := yields_emitExpr_conditional_some.1 hw
    simp only [Expr.rendered, renderedExpr?, List.forall_mem_cons, List.forall_mem_append] at h
    obtain ⟨x, hx⟩ := exists_toLua? condition h.2.1.1 hv₁
    obtain ⟨y, hy⟩ := exists_toLua? consequence h.2.1.2 hv₂
    obtain ⟨z, hz⟩ := exists_toLua? alternative h.2.2 hv₃
    simp [toLua?, hx, hy, hz]
  | .cast value type throwing safe, n, w, h, hw => by
    rw [Expr.rendered, List.forall_mem_cons] at h
    exact exists_toLua? value h.2 (yields_emitExpr_cast.1 hw)
  | .assigned value inverted, n, w, h, hw => by
    obtain ⟨v, hv, -⟩ := yields_emitExpr_assigned.1 hw
    rw [Expr.rendered, List.forall_mem_cons] at h
    obtain ⟨x, hx⟩ := exists_toLua? value h.2 hv
    simp [toLua?, hx]
  | .method lambda parameters returns body locals, n, w, h, hw => by
    obtain ⟨v, d, l, b, hv, hd, hl, hb, -⟩ := yields_emitExpr_method.1 hw
    simp only [Expr.rendered, List.forall_mem_cons, List.forall_mem_append] at h
    obtain ⟨-, ⟨hdefaults, hlocals⟩, hbody⟩ := h
    obtain ⟨names, hnames⟩ := exists_parameterNames tag hv
    obtain ⟨defaults, hdefaults⟩ := exists_toLuaDefaults? parameters hdefaults hd
    obtain ⟨declared, hdeclared⟩ := exists_toLuaLocals? locals hlocals hl
    obtain ⟨statements, hstatements⟩ := exists_toLuaStatements? body hbody hb
    simp [toLua?, hnames, hdefaults, hdeclared, hstatements]
  | .anonymousType kind members, n, w, h, hw => absurd hw not_yields_refuse

theorem exists_toLuaSite? : ∀ (site : Option Expr) {n : Nat},
    (∀ node ∈ renderedExpr? site, node.isRaw = false) → ∀ e ∈ site, ∀ v,
      Yields (emitExpr g e) n () v → ∃ x, toLua? tag g e = some x
  | none, _, _, e, he => nomatch he
  | some site, n, h, e, he => by
    obtain rfl : site = e := by simpa using he
    exact fun v hv => exists_toLua? site h hv

theorem exists_toLuaList? : ∀ (es : List Expr) {isFirst : Bool} {n : Nat} {w : List Char},
    (∀ node ∈ renderedExprs es, node.isRaw = false) → Yields (emitExprs g isFirst es) n () w →
      ∃ xs, toLuaList? tag g es = some xs
  | [], isFirst, n, w, _, _ => ⟨[], rfl⟩
  | e :: es, isFirst, n, w, h, hw => by
    obtain ⟨v, vs, hv, hvs, -⟩ := yields_emitExprs_cons.1 hw
    rw [renderedExprs, List.forall_mem_append] at h
    obtain ⟨x, hx⟩ := exists_toLua? e h.1 hv
    obtain ⟨xs, hxs⟩ := exists_toLuaList? es h.2 hvs
    simp [toLuaList?, hx, hxs]

theorem exists_toLuaKeys? : ∀ (indices : List Expr) {n : Nat} {w : List Char},
    (∀ node ∈ renderedExprs indices, node.isRaw = false) → Yields (emitIndices g indices) n () w →
      ∃ keys, toLuaList? tag g indices = some keys
  | [], n, w, _, _ => ⟨[], rfl⟩
  | index :: indices, n, w, h, hw => by
    obtain ⟨v, vs, hv, hvs, -⟩ := yields_emitIndices_cons.1 hw
    rw [renderedExprs, List.forall_mem_append] at h
    obtain ⟨x, hx⟩ := exists_toLua? index h.1 hv
    obtain ⟨xs, hxs⟩ := exists_toLuaKeys? indices h.2 hvs
    simp [toLuaList?, hx, hxs]

theorem exists_toLuaEntries? : ∀ (entries : List (Expr × Expr)) {isFirst : Bool} {n : Nat}
    {w : List Char}, (∀ node ∈ renderedEntries entries, node.isRaw = false) →
      Yields (emitEntries g isFirst entries) n () w → ∃ fs, toLuaEntries? tag g entries = some fs
  | [], isFirst, n, w, _, _ => ⟨[], rfl⟩
  | (key, value) :: entries, isFirst, n, w, h, hw => by
    obtain ⟨k, v, vs, hk, hv, hvs, -⟩ := yields_emitEntries_cons.1 hw
    rw [renderedEntries, List.forall_mem_append, List.forall_mem_append] at h
    obtain ⟨x, hx⟩ := exists_toLua? key h.1.1 hk
    obtain ⟨y, hy⟩ := exists_toLua? value h.1.2 hv
    obtain ⟨fs, hfs⟩ := exists_toLuaEntries? entries h.2 hvs
    simp [toLuaEntries?, hx, hy, hfs]

theorem exists_toLuaArguments? : ∀ (arguments : List Argument) {isFirst : Bool} {n : Nat}
    {w : List Char}, (∀ node ∈ renderedArguments arguments, node.isRaw = false) →
      Yields (emitArguments g isFirst arguments) n () w →
        ∃ xs, toLuaArguments? tag g arguments = some xs
  | [], isFirst, n, w, _, _ => ⟨[], rfl⟩
  | ⟨name, value, passing⟩ :: arguments, isFirst, n, w, h, hw => by
    obtain ⟨-, v, vs, hv, hvs, -⟩ := yields_emitArguments_cons.1 hw
    rw [renderedArguments, List.forall_mem_append] at h
    obtain ⟨x, hx⟩ := exists_toLua? value h.1 hv
    obtain ⟨xs, hxs⟩ := exists_toLuaArguments? arguments h.2 hvs
    simp [toLuaArguments?, hx, hxs]

theorem exists_toLuaIndices? : ∀ (indices : List Argument) {n : Nat} {w : List Char},
    (∀ node ∈ renderedArguments indices, node.isRaw = false) →
      Yields (emitPropertyIndices g indices) n () w →
        ∃ keys, toLuaArguments? tag g indices = some keys
  | [], n, w, _, _ => ⟨[], rfl⟩
  | ⟨name, value, passing⟩ :: indices, n, w, h, hw => by
    obtain ⟨-, v, vs, hv, hvs, -⟩ := yields_emitPropertyIndices_cons.1 hw
    rw [renderedArguments, List.forall_mem_append] at h
    obtain ⟨x, hx⟩ := exists_toLua? value h.1 hv
    obtain ⟨xs, hxs⟩ := exists_toLuaIndices? indices h.2 hvs
    simp [toLuaArguments?, hx, hxs]

theorem exists_toLuaInitializers? : ∀ (initializers : List Argument) {n : Nat} {w : List Char},
    (∀ node ∈ renderedArguments initializers, node.isRaw = false) →
      Yields (emitInitializers g initializers) n () w →
        ∃ ss, toLuaInitializers? tag g initializers = some ss
  | [], n, w, _, _ => ⟨[], rfl⟩
  | ⟨name, value, passing⟩ :: initializers, n, w, h, hw => by
    obtain ⟨s, property, v, vs, rfl, hproperty, hv, hvs, -⟩ := yields_emitInitializers_cons.1 hw
    rw [renderedArguments, List.forall_mem_append] at h
    obtain ⟨x, hx⟩ := exists_toLua? value h.1 hv
    obtain ⟨ss, hss⟩ := exists_toLuaInitializers? initializers h.2 hvs
    simp [toLuaInitializers?, hproperty, hx, hss]

theorem exists_toLuaDefaults? : ∀ (parameters : List Parameter) {n : Nat} {w : List Char},
    (∀ node ∈ renderedDefaults parameters, node.isRaw = false) →
      Yields (emitDefaultValues g parameters) n () w → ∃ ss, toLuaDefaults? tag g parameters = some ss
  | [], n, w, _, _ => ⟨[], rfl⟩
  | ⟨name, type, passing, none⟩ :: parameters, n, w, h, hw => by
    obtain ⟨ss, hss⟩ := exists_toLuaDefaults? parameters h (yields_emitDefaultValues_cons_none.1 hw)
    exact ⟨ss, by simp only [toLuaDefaults?, hss]⟩
  | ⟨name, type, passing, some value⟩ :: parameters, n, w, h, hw => by
    obtain ⟨parameter, v, vs, hparameter, hv, hvs, -⟩ := yields_emitDefaultValues_cons_some.1 hw
    rw [renderedDefaults, renderedExpr?, List.forall_mem_append] at h
    obtain ⟨x, hx⟩ := exists_toLua? value h.1 hv
    obtain ⟨ss, hss⟩ := exists_toLuaDefaults? parameters h.2 hvs
    simp [toLuaDefaults?, hparameter, hx, hss]

theorem exists_toLuaLocal? : ∀ (declared : Declaration) {n : Nat} {w : List Char},
    (∀ node ∈ renderedExpr? declared.value, node.isRaw = false) →
      Yields (emitLocal g declared) n () w → ∃ s, toLuaLocal? tag g declared = some s
  | ⟨name, type, none, constant⟩, n, w, _, hw => by
    obtain ⟨declaredName, hname, -⟩ := yields_emitLocal_none.1 hw
    simp [toLuaLocal?, hname]
  | ⟨name, type, some value, constant⟩, n, w, h, hw => by
    obtain ⟨declaredName, v, hname, hv, -⟩ := yields_emitLocal_some.1 hw
    obtain ⟨x, hx⟩ := exists_toLua? value h hv
    simp [toLuaLocal?, hname, hx]

theorem exists_toLuaLocalList? : ∀ (locals : List Declaration) {n : Nat} {w : List Char},
    (∀ node ∈ renderedLocals locals, node.isRaw = false) → Yields (emitLocals g locals) n () w →
      ∃ ss, toLuaLocalList? tag g locals = some ss
  | [], n, w, _, _ => ⟨[], rfl⟩
  | ⟨name, type, value, constant⟩ :: locals, n, w, h, hw => by
    obtain ⟨v, vs, hv, hvs, -⟩ := yields_emitLocals_cons.1 hw
    rw [renderedLocals, List.forall_mem_append] at h
    obtain ⟨s, hs⟩ := exists_toLuaLocal? ⟨name, type, value, constant⟩ h.1 hv
    obtain ⟨ss, hss⟩ := exists_toLuaLocalList? locals h.2 hvs
    simp [toLuaLocalList?, hs, hss]

theorem exists_toLuaLocals? : ∀ (locals : Option (List Declaration)) {n : Nat} {w : List Char},
    (∀ node ∈ renderedLocals? locals, node.isRaw = false) → Yields (emitLocals? g locals) n () w →
      ∃ ss, toLuaLocals? tag g locals = some ss
  | none, _, _, _, _ => ⟨[], rfl⟩
  | some locals, _, _, h, hw => exists_toLuaLocalList? locals h (yields_emitLocals?_some.1 hw)

theorem exists_toLuaStatement? : ∀ (s : Statement) {n : Nat} {w : List Char},
    (∀ node ∈ s.rendered, node.isRaw = false) → Yields (emitStatement g s) n () w →
      ∃ ss, toLuaStatement? tag g s = some ss
  | .expression value, n, w, h, hw => by
    obtain ⟨-, v, hv, -⟩ := yields_emitStatement_expression.1 hw
    rw [Statement.rendered, List.forall_mem_cons] at h
    obtain ⟨x, hx⟩ := exists_toLua? value h.2 hv
    simp [toLuaStatement?, hx]
  | .declaration ⟨name, type, value, constant⟩, n, w, h, hw => by
    obtain ⟨v, hv, -⟩ := yields_emitStatement_declaration.1 hw
    rw [Statement.rendered, List.forall_mem_cons] at h
    obtain ⟨s, hs⟩ := exists_toLuaLocal? ⟨name, type, value, constant⟩ h.2 hv
    simp [toLuaStatement?, hs]
  | .assignment target value, n, w, h, hw => by
    obtain ⟨t, v, ht, hv, -⟩ := yields_emitStatement_assignment.1 hw
    rw [Statement.rendered, List.forall_mem_cons, List.forall_mem_append] at h
    obtain ⟨x, hx⟩ := exists_toLua? target h.2.1 ht
    obtain ⟨y, hy⟩ := exists_toLua? value h.2.2 hv
    simp [toLuaStatement?, hx, hy]
  | .result none, n, w, _, _ => ⟨_, rfl⟩
  | .result (some value), n, w, h, hw => by
    obtain ⟨v, hv, -⟩ := yields_emitStatement_result_some.1 hw
    rw [Statement.rendered, List.forall_mem_cons] at h
    obtain ⟨x, hx⟩ := exists_toLua? value h.2 hv
    simp [toLuaStatement?, hx]
  | .block body, n, w, h, hw => by
    obtain ⟨b, hb, -⟩ := yields_emitStatement_block.1 hw
    rw [Statement.rendered, List.forall_mem_cons] at h
    obtain ⟨ss, hss⟩ := exists_toLuaStatements? body h.2 hb
    simp [toLuaStatement?, hss]

theorem exists_toLuaStatements? : ∀ (statements : List Statement) {n : Nat} {w : List Char},
    (∀ node ∈ renderedStatements statements, node.isRaw = false) →
      Yields (emitStatements g statements) n () w →
        ∃ ss, toLuaStatements? tag g statements = some ss
  | [], n, w, _, _ => ⟨[], rfl⟩
  | s :: statements, n, w, h, hw => by
    obtain ⟨v, vs, hv, hvs, -⟩ := yields_emitStatements_cons.1 hw
    rw [renderedStatements, List.forall_mem_append] at h
    obtain ⟨ss, hss⟩ := exists_toLuaStatement? s h.1 hv
    obtain ⟨ts, hts⟩ := exists_toLuaStatements? statements h.2 hvs
    simp [toLuaStatements?, hss, hts]

end

end CodeTree.Lua
