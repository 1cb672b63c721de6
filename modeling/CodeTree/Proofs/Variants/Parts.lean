import CodeTree.Proofs.Variants.Revision
import CodeTree.Proofs.Walking.Listing

/-! # The parts of revised trees

A revision that changes no structure, not even that of array allocations and raw code, has the revised
parts of a node as the parts of the revised node. A traversal of the revised tree then enters the
revised nodes, in the same order.

* `KeepsParts`: revisions that change no structure.
* `children_revise`: the parts of a revised node.
* `walk_revise`, `listing_revise`: traversals and listings of a revised tree. -/

namespace CodeTree

set_option autoImplicit false

/-- A revision that leaves every part of a node in its place. -/
structure KeepsParts (r : Revision) : Prop where
  shared : ∀ s, (r.shared s).node = .atom (r.atom s.atom)
  raw : ∀ a, (r.atom a).raw? = a.raw?
  allocation : r.keepsAllocation = true

/-! ## Lists of parts -/

section Lists

variable (r : Revision)

theorem toList_reviseExpr? (part : Option Expr) :
    (reviseExpr? r part).toList = part.toList.map (Expr.revise r) := by
  cases part <;> rfl

theorem reviseExprs_eq_map (es : List Expr) : reviseExprs r es = es.map (Expr.revise r) := by
  induction es with
  | nil => rfl
  | cons e es ih => exact congrArg (e.revise r :: ·) ih

theorem operands_reviseEntries (entries : List (Expr × Expr)) :
    ((reviseEntries r entries).flatMap fun entry => [entry.1, entry.2]) =
      (entries.flatMap fun entry => [entry.1, entry.2]).map (Expr.revise r) := by
  induction entries with
  | nil => rfl
  | cons entry entries ih => exact congrArg (entry.1.revise r :: entry.2.revise r :: ·) ih

theorem values_reviseArguments (rename : Option Symbol → Option Symbol) (arguments : List Argument) :
    (reviseArguments r rename arguments).map (·.value) =
      (arguments.map (·.value)).map (Expr.revise r) := by
  induction arguments with
  | nil => rfl
  | cons a arguments ih =>
    obtain ⟨name, value, passing⟩ := a
    exact congrArg (value.revise r :: ·) ih

theorem defaults_reviseParameters (parameters : List Parameter) :
    (reviseParameters r parameters).filterMap (·.defaultValue) =
      (parameters.filterMap (·.defaultValue)).map (Expr.revise r) := by
  induction parameters with
  | nil => rfl
  | cons p parameters ih =>
    obtain ⟨name, type, passing, value⟩ := p
    cases value with
    | none => exact ih
    | some value => exact congrArg (value.revise r :: ·) ih

theorem values_reviseLocals (locals : List Declaration) :
    (reviseLocals r locals).filterMap (·.value) =
      (locals.filterMap (·.value)).map (Expr.revise r) := by
  induction locals with
  | nil => rfl
  | cons declared locals ih =>
    obtain ⟨name, type, value, constant⟩ := declared
    cases value with
    | none => exact ih
    | some value => exact congrArg (value.revise r :: ·) ih

theorem values_reviseLocals? (locals : Option (List Declaration)) :
    ((reviseLocals? r locals).getD []).filterMap (·.value) =
      ((locals.getD []).filterMap (·.value)).map (Expr.revise r) := by
  cases locals with
  | none => rfl
  | some locals => exact values_reviseLocals r locals

theorem reviseStatements_eq_map (statements : List Statement) :
    reviseStatements r statements = statements.map (Statement.revise r) := by
  induction statements with
  | nil => rfl
  | cons s statements ih => exact congrArg (s.revise r :: ·) ih

theorem reviseMembers_eq_map (members : List Member) :
    reviseMembers r members = members.map (Member.revise r) := by
  induction members with
  | nil => rfl
  | cons m members ih => exact congrArg (m.revise r :: ·) ih

end Lists

/-! ## The parts of a node -/

section Parts

variable {r : Revision}

theorem revise_allocate (h : KeepsParts r) (type : TypeReference) (constructor : Option Symbol)
    (bounds : List Expr) (initializers : List Argument) :
    (Expr.allocate type constructor bounds initializers).revise r =
      .allocate (r.createdType type) (r.constructorName constructor) (reviseExprs r bounds)
        (reviseArguments r r.initializerName initializers) := by
  rw [Expr.revise, if_pos h.allocation]

theorem node_revise (h : KeepsParts r) (e : Expr) : (e.revise r).node = e.node.revise r := by
  cases e with
  | shared s => exact h.shared s
  | allocate type constructor bounds initializers =>
    show (Expr.revise r _).node = Expr.revise r (.allocate type constructor bounds initializers)
    rw [revise_allocate h]
    rfl
  | _ => rfl

theorem seen_revise (h : KeepsParts r) (node : Node) :
    (node.revise r).seen = node.seen.revise r := by
  cases node with
  | expression e => exact congrArg Node.expression (node_revise h e)
  | statement | member | raw => rfl

theorem raw?_of_node {e : Expr} {a : Atom} (h : e.node = .atom a) : e.raw? = a.raw? := by
  cases e <;> cases h <;> rfl

theorem raw?_revise (h : KeepsParts r) (e : Expr) : (e.revise r).raw? = e.raw? := by
  cases e with
  | shared s =>
    have hnode : (r.shared s).raw? = (r.atom s.atom).raw? := raw?_of_node (h.shared s)
    exact hnode.trans (h.raw s.atom)
  | atom a => exact h.raw a
  | allocate type constructor bounds initializers =>
    rw [revise_allocate h]
    rfl
  | _ => rfl

/-- What a shared reference becomes has no parts either. -/
theorem parts_shared (h : KeepsParts r) (s : Sentinel) :
    (r.shared s).operands = [] ∧ (r.shared s).body = [] ∧ (r.shared s).members = [] := by
  have hnode := h.shared s
  revert hnode
  cases r.shared s with
  | shared | atom => exact fun _ => ⟨rfl, rfl, rfl⟩
  | _ => exact nofun

theorem operands_revise (h : KeepsParts r) (e : Expr) :
    (e.revise r).operands = e.operands.map (Expr.revise r) := by
  cases e with
  | shared s => exact (parts_shared h s).1
  | allocate type constructor bounds initializers =>
    rw [revise_allocate h]
    simp [Expr.operands, reviseExprs_eq_map, values_reviseArguments]
  | _ =>
    simp [Expr.revise, Expr.operands, reviseExprs_eq_map, values_reviseArguments,
      toList_reviseExpr?, operands_reviseEntries, defaults_reviseParameters, values_reviseLocals?]

theorem body_revise (h : KeepsParts r) (e : Expr) :
    (e.revise r).body = e.body.map (Statement.revise r) := by
  cases e with
  | shared s => exact (parts_shared h s).2.1
  | allocate =>
    rw [revise_allocate h]
    rfl
  | method lambda parameters returns body locals => exact reviseStatements_eq_map r body
  | _ => rfl

theorem members_revise (h : KeepsParts r) (e : Expr) :
    (e.revise r).members = e.members.map (Member.revise r) := by
  cases e with
  | shared s => exact (parts_shared h s).2.2
  | allocate =>
    rw [revise_allocate h]
    rfl
  | anonymousType kind members => exact reviseMembers_eq_map r members
  | _ => rfl

theorem children_revise (h : KeepsParts r) (node : Node) :
    (node.revise r).children = node.children.map (Node.revise r) := by
  cases node with
  | expression e =>
    simp [Node.revise, Node.children, operands_revise h, body_revise h, members_revise h,
      raw?_revise h, Function.comp_def]
  | statement s =>
    rcases s with _ | ⟨_, _, _ | _, _⟩ | _ | (_ | _) | _ <;>
      simp [Node.revise, Node.children, Statement.revise, Declaration.revise, reviseExpr?,
        Statement.operands, Statement.body, reviseStatements_eq_map, Function.comp_def]
  | member definition =>
    rcases definition with ⟨_, _, _ | _, _⟩ | _ <;>
      simp [Node.revise, Node.children, Member.revise, Declaration.revise, reviseExpr?,
        Member.operands, Member.body, reviseStatements_eq_map, defaults_reviseParameters,
        Function.comp_def]
  | raw code => rfl

end Parts

/-! ## Traversals -/

section Traversals

variable {r : Revision}

/-- Walking a revised tree is walking the tree and revising what is entered. -/
theorem walk_revise {m : Type → Type} [Monad m] [LawfulMonad m] (h : KeepsParts r)
    (enter : Node → m Bool) (node : Node) :
    (node.revise r).walk enter = node.walk fun entered => enter (entered.revise r) := by
  have hchildren : ∀ children : List Node, (∀ child ∈ children, (child.revise r).walk enter =
      child.walk fun entered => enter (entered.revise r)) →
        forM (children.map (Node.revise r)) (Node.walk enter) =
          forM children (Node.walk fun entered => enter (entered.revise r)) := by
    intro children
    induction children with
    | nil => exact fun _ => rfl
    | cons child children ih =>
      intro hwalk
      obtain ⟨hchild, hrest⟩ := List.forall_mem_cons.1 hwalk
      rw [List.map_cons, List.forM_cons, List.forM_cons, hchild, ih hrest]
  rw [Node.walk_eq, Node.walk_eq, seen_revise h, children_revise h,
    hchildren node.children fun child _ => walk_revise h enter child]
  rfl
termination_by sizeOf node
decreasing_by exact Node.sizeOf_lt_of_mem_children ‹_›

theorem listing_revise (h : KeepsParts r) (prunes : Node → Bool) (node : Node) :
    (node.revise r).listing prunes =
      (node.listing fun listed => prunes (listed.revise r)).map (Node.revise r) := by
  have hchildren : ∀ child ∈ node.children, (child.revise r).listing prunes =
      (child.listing fun listed => prunes (listed.revise r)).map (Node.revise r) :=
    fun child _ => listing_revise h prunes child
  rw [Node.listing_eq, Node.listing_eq, seen_revise h, children_revise h, List.flatMap_map,
    List.flatMap_congr hchildren, List.map_cons, apply_ite (List.map (Node.revise r)),
    List.map_flatMap]
  rfl
termination_by sizeOf node
decreasing_by exact Node.sizeOf_lt_of_mem_children ‹_›

end Traversals

end CodeTree
