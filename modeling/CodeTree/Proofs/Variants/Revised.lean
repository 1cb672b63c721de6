import CodeTree.Proofs.Variants.Agreement

/-! # Writing a revised tree

A revision is faithful if it changes nothing that a form of the emitter looks at: each node is written
as before, given parts that are. Then a whole tree is written as before, or refused for a reason of the
same kind.

* `Faithful`: what is asked of a revision, field by field.
* `Faithful.compares`, `Faithful.comparesAt`: the run on the revised tree compares with the first one.
* `agrees_emitExpr`, `agrees_emitStatements`: writing a faithfully revised tree.
* `generateExpression_revise`, `generateStatements_revise`: the same for the answers of a generator. -/

namespace CodeTree.Lua

set_option autoImplicit false

/-- A revision that no form of the emitter notices. The revised tree may have its names in another
table. Nothing is asked of a field that is never looked at. -/
structure Faithful (r : Revision) (g : Setting) (names : NameTable) : Prop where
  shared : ∀ s, (r.shared s).node = .atom s.atom
  atom : ∀ a, Agrees (emitAtom g a) (emitAtom (g.withNames names) (r.atom a))
  /-- Types are accessed in another way than other sites. -/
  isType : ∀ a, isTypeReference (.atom (r.atom a)) = isTypeReference (.atom a)
  /-- Raw code stands alone. -/
  isRaw : ∀ a, (r.atom a).raw?.isSome = a.raw?.isSome
  name : ∀ s, g.names.resolve s = names.resolve (r.name s)
  member : ∀ hasSite selection,
    g.names.resolve selection.name = names.resolve (r.selection hasSite selection).name
  nilSafe : ∀ selection, (r.selection true selection).nilSafe = selection.nilSafe
  optional : ∀ optional, r.optional true optional = optional
  argument : ∀ name passing, Agrees (checkArgument g name passing)
    (checkArgument (g.withNames names) (r.argumentName name) passing)
  initializer : ∀ name, name.map g.names.resolve = (r.initializerName name).map names.resolve
  created : ∀ type, g.names.resolve type.name = names.resolve (r.createdType type).name
  constructor : ∀ name, name.map g.names.resolve = (r.constructorName name).map names.resolve
  constant : ∀ constant, (r.constant constant && g.config.target.hasConstants) =
    (constant && g.config.target.hasConstants)

variable {r : Revision} {g : Setting} {names : NameTable}

/-! ## Nodes -/

/-- A name that may be missing is missing before and after, or means the same. -/
theorem sameName_of_map_eq {name name' : Option Symbol}
    (h : name.map g.names.resolve = name'.map names.resolve) :
    SameName Agrees g (g.withNames names) name name' := by
  match name, name' with
  | none, none => exact .none
  | some s, some s' => exact .some (agrees_nameOf (Option.some.inj h))
  | none, some _ | some _, none => cases h

theorem emitExpr_of_node {e : Expr} {a : Atom} (h : e.node = .atom a) :
    emitExpr g e = emitAtom g a := by
  cases e <;> cases h <;> rfl

theorem isTypeReference_revise (h : Faithful r g names) (e : Expr) :
    isTypeReference (e.revise r) = isTypeReference e := by
  have hshared (s : Sentinel) : isTypeReference (r.shared s) = isTypeReference (.shared s) := by
    simp only [isTypeReference, Expr.atom?, h.shared s, Expr.node_shared]
  cases e with
  | shared s => exact hshared s
  | atom a => exact h.isType a
  | allocate type constructor bounds initializers =>
    rw [Expr.revise]
    split <;> rfl
  | _ => rfl

theorem standsAlone_atom (a : Atom) :
    standsAlone g (.atom a) = (a.raw?.isSome && g.config.allowRaw) := by
  cases a <;> simp [standsAlone, Expr.node, Atom.raw?]

theorem standsAlone_revise (h : Faithful r g names) (e : Expr) :
    standsAlone (g.withNames names) (e.revise r) = standsAlone g e := by
  cases e with
  | shared s =>
    show standsAlone g (r.shared s) = standsAlone g (.shared s)
    simp only [standsAlone, h.shared s, Expr.node_shared]
  | atom a =>
    show standsAlone g (.atom (r.atom a)) = standsAlone g (.atom a)
    rw [standsAlone_atom, standsAlone_atom, h.isRaw a]
  | allocate type constructor bounds initializers =>
    rw [Expr.revise]
    split <;> rfl
  | _ => rfl

/-! ## Trees -/

/-- Writing a tree and writing it faithfully revised agree in what they look at. -/
theorem Faithful.compares (h : Faithful r g names) : Compares Agrees g (g.withNames names) r where
  toComparison := comparison_agrees
  width := rfl
  refused _ := agrees_refuse rfl
  shared s := by
    have hatom : Agrees (emitAtom g s.atom) (emitAtom (g.withNames names) s.atom) := by
      cases s <;> exact Agrees.refl _
    rw [emitExpr_of_node (h.shared s)]
    exact hatom
  isType := isTypeReference_revise h
  name s := agrees_nameOf (h.name s)
  localName s constant := by
    rw [emitLocalName, emitLocalName, Setting.withNames, h.constant]
    exact (agrees_nameOf (h.name s)).bind fun _ => .refl _
  selection hasSite selection := agrees_nameOf (h.member hasSite selection)
  nilSafe := h.nilSafe
  optional := h.optional
  initializer name := sameName_of_map_eq (h.initializer name)
  created type := agrees_nameOf (h.created type)
  constructor name := sameName_of_map_eq (h.constructor name)

theorem Faithful.comparesAt (h : Faithful r g names) (node : Node) :
    ComparesAt Agrees g (g.withNames names) r node := by
  cases node with
  | expression e =>
    cases e with
    | atom a => exact h.atom a
    | binary => exact fun _ _ _ _ => comparison_agrees.binary rfl
    | call | property | construct => exact fun a _ => h.argument a.name a.passing
    | _ => trivial
  | statement s =>
    cases s with
    | expression value =>
      intro action action' haction
      rw [standsAlone_revise h]
      split
      · exact comparison_agrees.expressionLine rfl haction
      · exact agrees_refuse rfl
    | _ => trivial
  | member | raw => trivial

/-- A faithfully revised expression is written as before. -/
theorem agrees_emitExpr (h : Faithful r g names) (e : Expr) :
    Agrees (emitExpr g e) (emitExpr (g.withNames names) (e.revise r)) :=
  compares_emitExpr h.compares e fun node _ => h.comparesAt node

/-- Faithfully revised statements are written as before. -/
theorem agrees_emitStatements (h : Faithful r g names) (statements : List Statement) :
    Agrees (emitStatements g statements)
      (emitStatements (g.withNames names) (reviseStatements r statements)) :=
  compares_emitStatements h.compares statements fun node _ => h.comparesAt node

/-! ## The generator -/

/-- A faithfully revised expression has the answer of the expression itself, or a refusal of its kind. -/
theorem generateExpression_revise (h : Faithful r g names) (e : Expr) (d d' : Draft) :
    ((Generator.mk g d).generateExpression e).1.mapError EmitError.kind =
      ((Generator.mk (g.withNames names) d').generateExpression (e.revise r)).1.mapError
        EmitError.kind :=
  (agrees_emitExpr h e).answer ⟨g, d⟩ ⟨g.withNames names, d'⟩ _

theorem generateStatements_revise (h : Faithful r g names) (statements : List Statement)
    (d d' : Draft) :
    ((Generator.mk g d).generateStatements statements).1.mapError EmitError.kind =
      ((Generator.mk (g.withNames names) d').generateStatements
        (reviseStatements r statements)).1.mapError EmitError.kind :=
  (agrees_emitStatements h statements).answer ⟨g, d⟩ ⟨g.withNames names, d'⟩ _

end CodeTree.Lua
