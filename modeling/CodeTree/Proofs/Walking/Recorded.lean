import CodeTree.Proofs.Walking.Listing
import CodeTree.Tree.Portability
import CodeTree.Tree.Recorder
import Mathlib.Algebra.Ring.Nat

/-! # What a traversal notes

A traversal that notes each node and leaves out what is below pruned nodes notes a listing of the tree,
whatever noting does. A recorder is one of these, and so is counting expressions.

* `walk_announce`: such a traversal goes through the listing.
* `Recorder.record_eq`: what a recorder notes, and whether it is stopped.
* `traversal_in_order`, `stopped_run_is_prefix`: whole runs and stopped runs. -/

namespace CodeTree

set_option autoImplicit false

/-! ## Announcing nodes -/

section Announce

variable {m : Type → Type} [Monad m]

/-- Notes a node, and says to go below it unless it is pruned. -/
def announce (prunes : Node → Bool) (note : Node → m Unit) (node : Node) : m Bool := do
  note node
  return !prunes node

variable [LawfulMonad m]

theorem forM_walk_of_eq_listing {prunes : Node → Bool} {enter : Node → m Bool}
    {note : Node → m Unit} (nodes : List Node)
    (h : ∀ node ∈ nodes, node.walk enter = forM (node.listing prunes) note) :
    forM nodes (Node.walk enter) = forM (nodes.flatMap (Node.listing prunes)) note := by
  induction nodes with
  | nil => rfl
  | cons node nodes ih =>
    obtain ⟨hnode, hnodes⟩ := List.forall_mem_cons.1 h
    rw [List.forM_cons, List.flatMap_cons, List.forM_append, hnode, ih hnodes]

/-- Announcing the nodes of a tree is noting its listing. -/
theorem walk_announce (prunes : Node → Bool) (note : Node → m Unit) (node : Node) :
    node.walk (announce prunes note) = forM (node.listing prunes) note := by
  have hbelow : forM node.children (Node.walk (announce prunes note)) =
      forM (node.children.flatMap (Node.listing prunes)) note :=
    forM_walk_of_eq_listing node.children fun child _ => walk_announce prunes note child
  rw [Node.walk_eq, Node.listing_eq, List.forM_cons, enterThen, announce, bind_assoc, hbelow]
  refine bind_congr fun _ => ?_
  rw [pure_bind]
  cases prunes node.seen <;> rfl
termination_by sizeOf node
decreasing_by exact Node.sizeOf_lt_of_mem_children ‹_›

end Announce

/-! ## Recorders -/

/-- The places where a traversal of roots begins. -/
def Roots.nodes (roots : Roots) : List Node :=
  roots.expression.toList.map .expression ++ roots.statements.map .statement ++
    roots.members.map .member

namespace Recorder

/-- Notes a node, and stops if it is time to. -/
def note (stopAfter : Nat) (node : Node) : EStateM Stopped (Array Node) Unit := do
  modify (·.push node)
  if (← get).size = stopAfter then
    throw ⟨stopAfter⟩

theorem enter_eq_announce (r : Recorder) : r.enter = announce r.prunes (note r.stopAfter) := by
  funext node noted
  show (r.enter node).run noted = (announce r.prunes (note r.stopAfter) node).run noted
  simp only [enter, announce, note, EStateM.run_bind, EStateM.run_modify, EStateM.run_get]
  split <;> rfl

theorem run_eq (r : Recorder) (roots : Roots) :
    r.run roots = forM (roots.nodes.flatMap (Node.listing r.prunes)) (note r.stopAfter) := by
  have hroots : r.run roots = forM roots.nodes (Node.walk r.enter) := by
    rw [run, walkExpr?_eq, walkStatements_eq, walkMembers_eq, Roots.nodes, List.forM_append,
      List.forM_append, bind_assoc]
  rw [hroots, forM_walk_of_eq_listing roots.nodes fun node _ => ?_]
  rw [enter_eq_announce, walk_announce]

theorem note_run (stopAfter : Nat) (node : Node) (noted : Array Node) :
    (note stopAfter node).run noted =
      if noted.size + 1 = stopAfter then .error ⟨stopAfter⟩ (noted.push node)
      else .ok () (noted.push node) := by
  simp only [note, EStateM.run_bind, EStateM.run_modify, EStateM.run_get, Array.size_push]
  split <;> rfl

/-- Noting stops at the node that makes the count full, and otherwise notes all nodes. -/
theorem forM_note (stopAfter : Nat) (nodes : List Node) (noted : Array Node) :
    (forM nodes (note stopAfter)).run noted =
      if noted.size < stopAfter ∧ stopAfter ≤ noted.size + nodes.length then
        .error ⟨stopAfter⟩ (noted ++ nodes.take (stopAfter - noted.size))
      else
        .ok () (noted ++ nodes) := by
  induction nodes generalizing noted with
  | nil =>
    rw [if_neg (by simp)]
    exact congrArg (EStateM.Result.ok ()) (by simp)
  | cons node nodes ih =>
    rw [List.forM_cons, EStateM.run_bind, note_run]
    by_cases hstop : noted.size + 1 = stopAfter
    · have hone : stopAfter - noted.size = 1 := by omega
      rw [if_pos hstop, if_pos (by rw [List.length_cons]; omega), hone]
      simp
    · rw [if_neg hstop]
      show (forM nodes (note stopAfter)).run (noted.push node) = _
      rw [ih, Array.size_push, List.length_cons]
      by_cases hlater : noted.size + 1 < stopAfter ∧ stopAfter ≤ noted.size + 1 + nodes.length
      · obtain ⟨n, hn⟩ : ∃ n, stopAfter - noted.size = n + 1 := ⟨stopAfter - noted.size - 1, by omega⟩
        have hrest : stopAfter - (noted.size + 1) = n := by omega
        rw [if_pos hlater, if_pos (by omega), hn, hrest, List.take_succ_cons]
        simp
      · rw [if_neg hlater, if_neg (by omega)]
        simp

/-- A recorder notes the listing of its roots, all of it or up to the node that it stops after. -/
theorem record_eq (r : Recorder) (roots : Roots) :
    r.record roots =
      let nodes := roots.nodes.flatMap (Node.listing r.prunes)
      if 1 ≤ r.stopAfter ∧ r.stopAfter ≤ nodes.length then
        ⟨nodes.take r.stopAfter, .error ⟨r.stopAfter⟩⟩
      else
        ⟨nodes, .ok ()⟩ := by
  have htoList (nodes : List Node) : ((#[] : Array Node) ++ nodes).toList = nodes := by simp
  rw [record, run_eq, forM_note]
  simp only [List.size_toArray, List.length_nil, Nat.zero_add, Nat.sub_zero]
  by_cases h : 1 ≤ r.stopAfter ∧
      r.stopAfter ≤ (roots.nodes.flatMap (Node.listing r.prunes)).length
  · rw [if_pos h, if_pos (show 0 < _ ∧ _ from h)]
    simp only [htoList]
  · rw [if_neg h, if_neg (show ¬ (0 < _ ∧ _) from h)]
    simp only [htoList]

end Recorder

/-! ## Counting expressions -/

namespace Node

def isExpression : Node → Bool
  | expression _ => true
  | _ => false

/-- The number of expressions in a tree. -/
def count (node : Node) : Nat := (node.listing fun _ => false).countP isExpression

theorem count_eq (node : Node) :
    node.count = (if node.isExpression then 1 else 0) + (node.children.map count).sum := by
  have hseen : node.seen.isExpression = node.isExpression := by cases node <;> rfl
  rw [count, listing_eq, if_neg Bool.false_ne_true, List.countP_cons, List.countP_flatMap, hseen,
    Nat.add_comm]
  rfl

end Node

/-- Adds one at an expression. -/
def noteExpression : Node → StateM Nat Unit
  | .expression _ => modify (· + 1)
  | _ => pure ()

theorem forM_noteExpression (nodes : List Node) (n : Nat) :
    ((forM nodes noteExpression).run n).2 = n + nodes.countP Node.isExpression := by
  induction nodes generalizing n with
  | nil => rfl
  | cons node nodes ih =>
    cases node with
    | expression e =>
      show ((forM nodes noteExpression).run (n + 1)).2 = _
      rw [ih, List.countP_cons_of_pos rfl]
      omega
    | statement | member | raw =>
      show ((forM nodes noteExpression).run n).2 = _
      rw [ih, List.countP_cons_of_neg Bool.false_ne_true]

theorem Expr.nodeCount_eq_count (e : Expr) : e.nodeCount = (Node.expression e).count := by
  have hcount : countExpressions = announce (fun _ => false) noteExpression := by
    funext node
    cases node <;> rfl
  have hwalk : e.walk countExpressions =
      forM ((Node.expression e).listing fun _ => false) noteExpression := by
    rw [hcount]
    exact walk_announce _ _ (.expression e)
  rw [nodeCount, hwalk, forM_noteExpression, Nat.zero_add]
  rfl

mutual

/-- The slots of a statement that hold expressions, also those in its blocks. -/
def Statement.slots : Statement → List Expr
  | .expression value => [value]
  | .declaration declared => declared.value.toList
  | .assignment target value => [target, value]
  | .result value => value.toList
  | .block body => statementSlots body

def statementSlots : List Statement → List Expr
  | [] => []
  | s :: statements => s.slots ++ statementSlots statements

end

def Member.slots (m : Member) : List Expr := m.operands ++ statementSlots m.body

/-- The slots below an expression that no other expression is between. -/
def Expr.slots (e : Expr) : List Expr :=
  e.operands ++ statementSlots e.body ++ e.members.flatMap Member.slots

theorem Statement.slots_eq (s : Statement) : s.slots = s.operands ++ statementSlots s.body := by
  cases s <;> simp [slots, operands, body, statementSlots]

theorem sum_count_operands (operands : List Expr) :
    ((operands.map Node.expression).map Node.count).sum = (operands.map Expr.nodeCount).sum := by
  rw [List.map_map]
  exact congrArg List.sum (List.map_congr_left fun e _ => e.nodeCount_eq_count.symm)

theorem count_statement_of_body {s : Statement}
    (hbody : ((s.body.map Node.statement).map Node.count).sum =
      ((statementSlots s.body).map Expr.nodeCount).sum) :
    (Node.statement s).count = (s.slots.map Expr.nodeCount).sum := by
  rw [Node.count_eq, Node.children, List.map_append, List.sum_append, sum_count_operands, hbody,
    s.slots_eq, List.map_append, List.sum_append]
  exact Nat.zero_add _

mutual

theorem count_statement : ∀ s : Statement,
    (Node.statement s).count = (s.slots.map Expr.nodeCount).sum
  | .block body => count_statement_of_body (sum_count_statements body)
  | .expression _ | .declaration _ | .assignment _ _ | .result _ => count_statement_of_body rfl

theorem sum_count_statements : ∀ statements : List Statement,
    ((statements.map Node.statement).map Node.count).sum =
      ((statementSlots statements).map Expr.nodeCount).sum
  | [] => rfl
  | s :: statements => by
    rw [List.map_cons, List.map_cons, List.sum_cons, count_statement s,
      sum_count_statements statements, statementSlots, List.map_append, List.sum_append]

end

theorem count_member (m : Member) : (Node.member m).count = (m.slots.map Expr.nodeCount).sum := by
  rw [Node.count_eq, Node.children, List.map_append, List.sum_append, sum_count_operands,
    sum_count_statements, Member.slots, List.map_append, List.sum_append]
  exact Nat.zero_add _

theorem sum_count_members (members : List Member) :
    ((members.map Node.member).map Node.count).sum =
      ((members.flatMap Member.slots).map Expr.nodeCount).sum := by
  induction members with
  | nil => rfl
  | cons m members ih =>
    rw [List.map_cons, List.map_cons, List.sum_cons, count_member, ih, List.flatMap_cons,
      List.map_append, List.sum_append]

/-- The size of a tree is one more than the sizes in the slots right below. -/
theorem Expr.nodeCount_eq_sum_slots (e : Expr) :
    e.nodeCount = 1 + (e.slots.map Expr.nodeCount).sum := by
  have hraw : ((e.raw?.toList.map Node.raw).map Node.count).sum = 0 := by
    cases e.raw? with
    | none => rfl
    | some code => simp [Node.count_eq, Node.isExpression, Node.children]
  rw [nodeCount_eq_count, Node.count_eq, Node.children, List.map_append, List.map_append,
    List.map_append, List.sum_append, List.sum_append, List.sum_append, sum_count_operands,
    sum_count_statements, sum_count_members, hraw, slots, List.map_append, List.map_append,
    List.sum_append, List.sum_append]
  rfl

/-! ## Runs over whole trees -/

/-- A traversal enters everything once and in order. Over any roots a recorder that is not stopped notes
exactly the nodes of the trees that are below no pruned node, each before what is below it and the
parts of a node in the order of its fields. When it prunes nothing, it notes as many expressions as the
size of the tree, which is one more than the sizes in the slots right below. -/
theorem traversal_in_order :
    (∀ (prunes : Node → Bool) (roots : Roots),
      Recorder.record ⟨prunes, 0⟩ roots =
        ⟨((roots.nodes.flatMap (Node.occurrences [])).filter (Occurrence.isReached prunes)).map
          Occurrence.node, .ok ()⟩) ∧
    (∀ e : Expr, (Recorder.record ⟨fun _ => false, 0⟩ ⟨some e, [], []⟩).noted.countP
      Node.isExpression = e.nodeCount) ∧
    ∀ e : Expr, e.nodeCount = 1 + (e.slots.map Expr.nodeCount).sum := by
  have hall (prunes : Node → Bool) (roots : Roots) :
      Recorder.record ⟨prunes, 0⟩ roots = ⟨roots.nodes.flatMap (Node.listing prunes), .ok ()⟩ :=
    (Recorder.record_eq _ _).trans (if_neg (by simp))
  refine ⟨fun prunes roots => ?_, fun e => ?_, Expr.nodeCount_eq_sum_slots⟩
  · rw [hall, List.filter_flatMap, List.map_flatMap]
    congr 2
    funext node
    exact (Node.listing_eq_occurrences prunes node []).symm
  · rw [hall, e.nodeCount_eq_count]
    exact congrArg _ (List.flatMap_singleton _ _)

/-- A failing traversal stops right there. A recorder that is told to stop after a node that there is
notes the nodes up to this one, as the whole run does, and reports the stop. Told anything else, it
makes the whole run, which is not stopped. -/
theorem stopped_run_is_prefix (prunes : Node → Bool) (roots : Roots) (n : Nat) :
    let whole := Recorder.record ⟨prunes, 0⟩ roots
    whole.outcome = .ok () ∧
      Recorder.record ⟨prunes, n⟩ roots =
        if 1 ≤ n ∧ n ≤ whole.noted.length then ⟨whole.noted.take n, .error ⟨n⟩⟩ else whole := by
  intro whole
  have hwhole : whole = ⟨roots.nodes.flatMap (Node.listing prunes), .ok ()⟩ :=
    (Recorder.record_eq _ _).trans (if_neg (by simp))
  rw [hwhole]
  exact ⟨rfl, Recorder.record_eq ⟨prunes, n⟩ roots⟩

end CodeTree
