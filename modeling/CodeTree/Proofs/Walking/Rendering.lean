import CodeTree.Proofs.Emission.Rendered
import CodeTree.Proofs.Walking.Listing
import Mathlib.Data.List.Perm.Basic

/-! # Writing and walking

The emitter and the traversal go through a tree on their own. The nodes that are rendered are those that
a traversal enters which stays out of array allocations and types without a name; the order may differ,
since a guarded call is written with its arguments before its site.

* `Node.isClosed`: the nodes below which nothing is rendered.
* `Node.rendered_perm_children`: one step of both, side by side.
* `Node.rendered_perm_listing`: whole trees. -/

namespace CodeTree

set_option autoImplicit false

namespace Node

/-- Whether nothing below a node is rendered: the parts of an array allocation are left out, and a type
without a name is refused as it stands. -/
def isClosed : Node → Bool
  | expression (.allocate _ _ _ _) | expression (.anonymousType _ _) => true
  | member _ => true
  | _ => false

/-- Whether a node is one of those that `rendered` lists. -/
def isWritten : Node → Bool
  | expression _ | statement _ => true
  | member _ | raw _ => false

/-- The nodes that are written for a place, in the order of the text. Raw code comes with the node
right above it. -/
def rendered : Node → List Node
  | expression e => e.rendered
  | statement s => s.rendered
  | member _ | raw _ => []

@[simp] theorem rendered_expression (e : Expr) : (expression e).rendered = e.rendered := rfl

@[simp] theorem rendered_statement (s : Statement) : (statement s).rendered = s.rendered := rfl

end Node

/-! ## Lists of parts -/

theorem renderedExpr?_eq (part : Option Expr) :
    renderedExpr? part = (part.toList.map Node.expression).flatMap Node.rendered := by
  cases part with
  | none => rfl
  | some e => simp [renderedExpr?]

theorem renderedExprs_eq (es : List Expr) :
    renderedExprs es = (es.map Node.expression).flatMap Node.rendered := by
  induction es with
  | nil => rfl
  | cons e es ih =>
    rw [renderedExprs, ih]
    rfl

theorem renderedEntries_eq (entries : List (Expr × Expr)) :
    renderedEntries entries =
      ((entries.flatMap fun entry => [entry.1, entry.2]).map Node.expression).flatMap
        Node.rendered := by
  induction entries with
  | nil => rfl
  | cons entry entries ih =>
    rw [renderedEntries, ih, List.append_assoc]
    rfl

theorem renderedArguments_eq (arguments : List Argument) :
    renderedArguments arguments =
      ((arguments.map (·.value)).map Node.expression).flatMap Node.rendered := by
  induction arguments with
  | nil => rfl
  | cons a arguments ih =>
    obtain ⟨name, value, passing⟩ := a
    rw [renderedArguments, ih]
    rfl

theorem renderedDefaults_eq (parameters : List Parameter) :
    renderedDefaults parameters =
      ((parameters.filterMap (·.defaultValue)).map Node.expression).flatMap Node.rendered := by
  induction parameters with
  | nil => rfl
  | cons p parameters ih =>
    obtain ⟨name, type, passing, value⟩ := p
    rw [renderedDefaults, ih]
    cases value <;> rfl

theorem renderedLocals_eq (locals : List Declaration) :
    renderedLocals locals =
      ((locals.filterMap (·.value)).map Node.expression).flatMap Node.rendered := by
  induction locals with
  | nil => rfl
  | cons declared locals ih =>
    obtain ⟨name, type, value, constant⟩ := declared
    rw [renderedLocals, ih]
    cases value <;> rfl

theorem renderedLocals?_eq (locals : Option (List Declaration)) :
    renderedLocals? locals =
      (((locals.getD []).filterMap (·.value)).map Node.expression).flatMap Node.rendered := by
  cases locals with
  | none => rfl
  | some locals => exact renderedLocals_eq locals

theorem renderedStatements_eq (statements : List Statement) :
    renderedStatements statements = (statements.map Node.statement).flatMap Node.rendered := by
  induction statements with
  | nil => rfl
  | cons s statements ih =>
    rw [renderedStatements, ih]
    rfl

/-! ## Nodes -/

/-- What is rendered at an expression: the expression and, unless it is closed, what is rendered at its
parts. -/
theorem Expr.rendered_perm_children (e : Expr) :
    e.rendered.Perm (.expression e.node ::
      if (Node.expression e.node).isClosed then []
      else (Node.expression e).children.flatMap Node.rendered) := by
  have hraw : (e.raw?.toList.map Node.raw).flatMap Node.rendered = [] := by
    cases e.raw? <;> rfl
  cases e with
  | call site selection arguments optional =>
    have hparts : (Node.expression (.call site selection arguments optional)).children.flatMap
        Node.rendered = renderedExpr? site ++ renderedArguments arguments := by
      simp [Node.children, Expr.operands, Expr.body, Expr.members, hraw, renderedExpr?_eq,
        renderedArguments_eq]
    rw [Expr.rendered, hparts]
    refine List.Perm.cons _ ?_
    split
    · exact List.perm_append_comm
    · exact List.Perm.refl _
  | _ =>
    refine List.Perm.of_eq ?_
    simp [Expr.rendered, Expr.node, Node.isClosed, Node.children, Expr.operands, Expr.body,
      Expr.members, hraw, renderedExpr?_eq, renderedExprs_eq, renderedEntries_eq,
      renderedArguments_eq, renderedDefaults_eq, renderedLocals?_eq, renderedStatements_eq]

theorem Expr.node_mem_rendered (e : Expr) : .expression e.node ∈ e.rendered :=
  e.rendered_perm_children.mem_iff.2 List.mem_cons_self

theorem Statement.rendered_eq_children (s : Statement) :
    s.rendered = .statement s :: (Node.statement s).children.flatMap Node.rendered := by
  rcases s with _ | ⟨_, _, _, _⟩ | _ | _ | _ <;>
    simp [Statement.rendered, Node.children, Statement.operands, Statement.body, renderedExpr?_eq,
      renderedStatements_eq]

namespace Node

/-- What is rendered at a place, said as `listing_eq` says what is entered there. -/
theorem rendered_perm_children (node : Node) :
    node.rendered.Perm ([node.seen].filter isWritten ++
      if node.seen.isClosed then [] else node.children.flatMap rendered) := by
  cases node with
  | expression e => exact e.rendered_perm_children
  | statement s => exact List.Perm.of_eq s.rendered_eq_children
  | member m => exact List.Perm.refl _
  | raw code => exact List.Perm.refl _

/-- The rendered nodes are the nodes that a traversal enters which stays out of closed ones. -/
theorem rendered_perm_listing (node : Node) :
    node.rendered.Perm ((node.listing isClosed).filter isWritten) := by
  have hchildren : (node.children.flatMap rendered).Perm
      ((node.children.flatMap (listing isClosed)).filter isWritten) := by
    rw [List.filter_flatMap]
    exact List.Perm.flatMap_left _ fun child _ => rendered_perm_listing child
  have hlisting : (node.listing isClosed).filter isWritten = [node.seen].filter isWritten ++
      (if node.seen.isClosed then [] else node.children.flatMap (listing isClosed)).filter
        isWritten := by
    rw [listing_eq]
    exact List.filter_append [node.seen] _
  refine node.rendered_perm_children.trans ?_
  rw [hlisting]
  refine List.Perm.append_left _ ?_
  split
  · exact List.Perm.refl _
  · exact hchildren
termination_by sizeOf node
decreasing_by exact sizeOf_lt_of_mem_children ‹_›

theorem mem_rendered {node other : Node} :
    other ∈ node.rendered ↔ other ∈ node.listing isClosed ∧ other.isWritten = true := by
  rw [(rendered_perm_listing node).mem_iff, List.mem_filter]

theorem rendered_subset_nodes (node : Node) : node.rendered ⊆ node.nodes :=
  fun _ h => listing_subset_nodes isClosed node (mem_rendered.1 h).1

theorem seen_mem_rendered {node : Node} (h : node.seen.isWritten = true) :
    node.seen ∈ node.rendered := by
  rw [mem_rendered, listing_eq]
  exact ⟨List.mem_cons_self, h⟩

theorem rendered_subset_of_mem_children {node child : Node} (h : node.seen.isClosed = false)
    (hchild : child ∈ node.children) : child.rendered ⊆ node.rendered := by
  intro other hother
  rw [node.rendered_perm_children.mem_iff, h]
  exact List.mem_append_right _ (List.mem_flatMap.2 ⟨child, hchild, hother⟩)

theorem rendered_seen (node : Node) : node.seen.rendered = node.rendered := by
  cases node with
  | expression e => cases e <;> rfl
  | statement | member | raw => rfl

/-- What is rendered at a rendered node is rendered. -/
theorem rendered_subset_of_mem_rendered {node other : Node} (h : other ∈ node.rendered) :
    other.rendered ⊆ node.rendered := by
  rw [node.rendered_perm_children.mem_iff, List.mem_append, List.mem_filter,
    List.mem_singleton] at h
  rcases h with ⟨rfl, -⟩ | h
  · rw [rendered_seen]
    exact fun _ => id
  · split at h
    · cases h
    · rename_i hopen
      obtain ⟨child, hchild, hother⟩ := List.mem_flatMap.1 h
      exact List.Subset.trans (rendered_subset_of_mem_rendered hother)
        (rendered_subset_of_mem_children (by simpa using hopen) hchild)
termination_by sizeOf node
decreasing_by exact sizeOf_lt_of_mem_children ‹_›

/-- Members stand in types without a name only. -/
theorem ne_member_of_mem_children {node child : Node} (h : node.seen.isClosed = false)
    (hchild : child ∈ node.children) (m : Member) : child ≠ member m := by
  rintro rfl
  cases node with
  | expression e =>
    have hmem : m ∈ e.members := by simpa [children] using hchild
    cases e with
    | anonymousType kind members => cases h
    | _ => cases hmem
  | statement | member | raw => simp [children] at hchild

end Node

end CodeTree
