import CodeTree.Proofs.Acceptance.Reported
import CodeTree.Proofs.Variants.Comparison
import CodeTree.Proofs.Walking.Rendering

/-! # What the permissions change

The settings permit raw code or refuse it, and they drop the names of arguments or refuse them. Writing a
tree looks at these two settings only at raw nodes and at named arguments that it renders. A tree without
any is written the same whatever is permitted.

* `Setting.permitting`: other permissions, all else the same.
* `PermittedAlike`: nodes for which two permissions come to the same.
* `comparison_eq`: two runs that are the same compare.
* `emitExpr_permitting`, `emitStatements_permitting`: trees of such nodes. -/

namespace CodeTree.Lua

set_option autoImplicit false

/-- The same names, indentation and target, but other permissions. -/
def Setting.permitting (g : Setting) (allow : Bool) (named : NamedArguments) : Setting :=
  { g with config := { g.config with allowRaw := allow, namedArguments := named } }

variable {g : Setting} {allow : Bool} {named : NamedArguments}

/-! ## The forms of nodes -/

theorem comparison_eq : Comparison Eq where
  pure _ := rfl
  write _ := rfl
  indent _ := rfl
  useBitLibrary := rfl
  refuse _ := rfl
  bind h hnext := by rw [h, funext hnext]
  capture _ h := by rw [h]
  deeper h := by rw [h]

theorem emitAtom_permitting {a : Atom} (h : a.raw?.isSome = true → g.config.allowRaw = allow) :
    emitAtom (g.permitting allow named) a = emitAtom g a := by
  cases a with
  | raw code =>
    have hallow : (g.permitting allow named).config.allowRaw = g.config.allowRaw := (h rfl).symm
    have hwidth : g.config.indentWidth = (g.permitting allow named).config.indentWidth := rfl
    rw [emitAtom, emitAtom, comparison_eq.lines hwidth code.lines, hallow]
  | _ => rfl

theorem checkArgument_permitting {name : Option Symbol} {passing : Passing}
    (h : name.isSome = true → g.config.namedArguments = named) :
    checkArgument (g.permitting allow named) name passing = checkArgument g name passing := by
  cases passing with
  | byRef | out => rfl
  | byValue =>
    cases name with
    | none => rfl
    | some name =>
      unfold checkArgument
      rw [h rfl]
      rfl

theorem standsAlone_permitting {e : Expr}
    (h : (Node.expression e.node).isRaw = true → g.config.allowRaw = allow) :
    standsAlone (g.permitting allow named) e = standsAlone g e := by
  cases e with
  | atom a =>
    cases a with
    | raw code => exact (h rfl).symm
    | _ => rfl
  | shared s => cases s <;> rfl
  | _ => rfl

/-! ## Trees -/

/-- Two permissions come to the same for some nodes: they differ on raw code only if none of the nodes is
raw, and on the names of arguments only if none has a named argument. -/
def PermittedAlike (g : Setting) (allow : Bool) (named : NamedArguments) (nodes : List Node) : Prop :=
  ∀ node ∈ nodes, (node.isRaw = true → g.config.allowRaw = allow) ∧
    ∀ a ∈ node.arguments, a.name.isSome = true → g.config.namedArguments = named

/-- Whether an expression may stand alone is decided at the expression and not at the statement. -/
theorem comparesOn_of_permittedAlike {nodes : List Node} (h : PermittedAlike g allow named nodes)
    (hclosed : ∀ value, .statement (.expression value) ∈ nodes → .expression value.node ∈ nodes) :
    ComparesOn Eq (g.permitting allow named) g {} nodes := by
  intro node hnode
  obtain ⟨hraw, hnamed⟩ := h node hnode
  cases node with
  | expression e =>
    cases e with
    | atom a => exact emitAtom_permitting hraw
    | binary => exact fun _ _ _ _ => comparison_eq.binary rfl
    | call | property | construct => exact fun a ha => checkArgument_permitting (hnamed a ha)
    | _ => trivial
  | statement s =>
    cases s with
    | expression value =>
      rintro action _ rfl
      have hstands : standsAlone (g.permitting allow named) value = standsAlone g value :=
        standsAlone_permitting (h _ (hclosed value hnode)).1
      rw [value.revise_id, hstands]
      rfl
    | _ => trivial
  | member | raw => trivial

theorem compares_permitting : Compares Eq (g.permitting allow named) g {} :=
  comparison_eq.compares rfl (fun e => by rw [e.revise_id])
    (fun s => emitAtom_permitting fun hraw => by cases s <;> cases hraw) (fun _ => rfl)
    fun _ _ => rfl

/-- An expression that is a rendered statement is rendered itself. -/
theorem node_mem_rendered_of_statement (place : Node) (value : Expr)
    (h : .statement (.expression value) ∈ place.rendered) : .expression value.node ∈ place.rendered :=
  Node.rendered_subset_of_mem_rendered h (List.mem_cons_of_mem _ value.node_mem_rendered)

/-- An expression is written the same under permissions that come to the same for its nodes. -/
theorem emitExpr_permitting (e : Expr) (h : PermittedAlike g allow named e.rendered) :
    emitExpr (g.permitting allow named) e = emitExpr g e := by
  have hcompares := compares_emitExpr compares_permitting e
    (comparesOn_of_permittedAlike h (node_mem_rendered_of_statement (.expression e)))
  rwa [e.revise_id] at hcompares

/-- Statements are written the same under permissions that come to the same for their nodes. -/
theorem emitStatements_permitting (statements : List Statement)
    (h : PermittedAlike g allow named (renderedStatements statements)) :
    emitStatements (g.permitting allow named) statements = emitStatements g statements := by
  have hclosed (value : Expr)
      (hvalue : .statement (.expression value) ∈ renderedStatements statements) :
      .expression value.node ∈ renderedStatements statements := by
    rw [renderedStatements_eq] at hvalue ⊢
    obtain ⟨s, hs, hvalue⟩ := List.mem_flatMap.1 hvalue
    exact List.mem_flatMap.2 ⟨s, hs, node_mem_rendered_of_statement _ value hvalue⟩
  have hcompares :=
    compares_emitStatements compares_permitting statements (comparesOn_of_permittedAlike h hclosed)
  rwa [reviseStatements_id] at hcompares

end CodeTree.Lua
