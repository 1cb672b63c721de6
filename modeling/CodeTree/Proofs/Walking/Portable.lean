import CodeTree.Proofs.Emission.Rendered
import CodeTree.Proofs.Walking.Listing
import CodeTree.Tree.Portability

/-! # Raw code in a tree

A tree is portable if none of its nodes is raw code, wherever it stands. What is reported of a tree that
is not portable is the number of lines of its first raw node.

* `Node.code?`: the raw code at a node.
* `ensurePortable_eq`, `ensurePortableStatements_eq`: what is reported.
* `ensurePortable_eq_ok_iff`, `ensurePortableStatements_eq_ok_iff`: when nothing is. -/

namespace CodeTree

set_option autoImplicit false

/-- The raw code at a node, if it is that. -/
def Node.code? : Node → Option RawCode
  | expression e => e.raw?
  | _ => none

/-- What is reported of the first raw code, if there is any. -/
def reportRaw : Option RawCode → Except TreeError Unit
  | some code => .error (.notPortable code.lines.length)
  | none => .ok ()

theorem reportRaw_eq_ok_iff {code? : Option RawCode} : reportRaw code? = .ok () ↔ code? = none := by
  cases code? with
  | none => exact iff_of_true rfl rfl
  | some code => exact iff_of_false nofun nofun

theorem reportRaw_or (first second : Option RawCode) :
    reportRaw (first.or second) = (do reportRaw first; reportRaw second) := by
  cases first <;> rfl

namespace Node

theorem isRaw_eq (node : Node) : node.isRaw = node.code?.isSome := by
  cases node <;> rfl

/-- Raw code is entered right below the node that holds it, and nowhere else. -/
theorem code?_of_raw_mem_children {node : Node} {code : RawCode} (h : raw code ∈ node.children) :
    node.seen.code? = some code := by
  cases node with
  | expression e =>
    have hraw : e.raw? = some code := by simpa [children] using h
    rw [Expr.eq_of_raw?_eq_some hraw]
    rfl
  | statement | member | raw => simp [children] at h

theorem forM_walk_refuseRaw (places : List Node)
    (h : ∀ node ∈ places, node.walk refuseRaw = reportRaw (node.nodes.findSome? code?)) :
    forM places (Node.walk refuseRaw) = reportRaw ((places.flatMap nodes).findSome? code?) := by
  induction places with
  | nil => rfl
  | cons node places ih =>
    obtain ⟨hnode, hplaces⟩ := List.forall_mem_cons.1 h
    rw [List.forM_cons, hnode, ih hplaces, List.flatMap_cons, List.findSome?_append, reportRaw_or]

/-- Walking a tree that is not raw code by itself reports its first raw node. -/
theorem walk_refuseRaw (node : Node) (hnode : ∀ code, node ≠ raw code) :
    node.walk refuseRaw = reportRaw (node.nodes.findSome? code?) := by
  have henter : node.walk refuseRaw = forM node.children (Node.walk refuseRaw) := by
    rw [walk_eq]
    cases node with
    | expression | statement | member => rfl
    | raw code => exact absurd rfl (hnode code)
  rw [henter, nodes_eq, List.findSome?_cons]
  cases hseen : node.seen.code? with
  | some code =>
    -- The node is raw code, so the traversal stops at the only place below it.
    cases node with
    | expression e =>
      have hraw : e.raw? = some code := by
        simpa [seen, Node.code?, Expr.raw?, Expr.atom?] using hseen
      rw [Expr.eq_of_raw?_eq_some hraw]
      rfl
    | statement | member | raw => cases hseen
  | none =>
    refine forM_walk_refuseRaw node.children fun child hchild => walk_refuseRaw child ?_
    rintro code rfl
    rw [code?_of_raw_mem_children hchild] at hseen
    cases hseen
termination_by sizeOf node
decreasing_by exact sizeOf_lt_of_mem_children ‹_›

end Node

/-! ## Expressions and lists of statements -/

/-- What is reported of an expression is its first raw node. -/
theorem Expr.ensurePortable_eq (e : Expr) :
    e.ensurePortable = reportRaw ((Node.expression e).nodes.findSome? Node.code?) :=
  Node.walk_refuseRaw (.expression e) nofun

theorem ensurePortableStatements_eq (statements : List Statement) :
    ensurePortableStatements statements =
      reportRaw (((statements.map Node.statement).flatMap Node.nodes).findSome? Node.code?) := by
  rw [ensurePortableStatements, walkStatements_eq]
  refine Node.forM_walk_refuseRaw _ fun node hnode => Node.walk_refuseRaw node ?_
  obtain ⟨s, -, rfl⟩ := List.mem_map.1 hnode
  exact nofun

theorem reportRaw_findSome?_eq_ok_iff {nodes : List Node} :
    reportRaw (nodes.findSome? Node.code?) = .ok () ↔ ∀ node ∈ nodes, node.isRaw = false := by
  rw [reportRaw_eq_ok_iff, List.findSome?_eq_none_iff]
  refine forall₂_congr fun node _ => ?_
  rw [node.isRaw_eq]
  cases node.code? <;> simp

theorem Expr.ensurePortable_eq_ok_iff {e : Expr} :
    e.ensurePortable = .ok () ↔ ∀ node ∈ (Node.expression e).nodes, node.isRaw = false := by
  rw [ensurePortable_eq, reportRaw_findSome?_eq_ok_iff]

theorem ensurePortableStatements_eq_ok_iff {statements : List Statement} :
    ensurePortableStatements statements = .ok () ↔
      ∀ s ∈ statements, ∀ node ∈ (Node.statement s).nodes, node.isRaw = false := by
  rw [ensurePortableStatements_eq, reportRaw_findSome?_eq_ok_iff]
  simp only [List.mem_flatMap, List.mem_map]
  grind

end CodeTree
