import CodeTree.Tree.Traversal
import Mathlib.Data.List.Basic

/-! # The nodes of a tree in order

What a traversal enters is said here without one: the parts of each kind of node in the order of its
fields, and from these the nodes of a whole tree, each before what is below it.

* `Expr.operands`, `Expr.body`, `Expr.members`: the parts of an expression, as for statements and
  members; `Node.children` are the nodes right below a node.
* `Node.occurrences`: the nodes of a tree in order, each with the nodes above it.
* `Node.listing`: the same without what is below pruned nodes; `Node.nodes`: with nothing pruned.
* `Node.walk_eq`: one step of a traversal. -/

namespace CodeTree

set_option autoImplicit false

/-! ## The parts of a node -/

namespace Expr

/-- The expressions right below an expression, in the order of its fields. -/
def operands : Expr → List Expr
  | shared _ | atom _ | anonymousType _ _ => []
  | array elements _ => elements
  | dictionary entries => entries.flatMap fun entry => [entry.1, entry.2]
  | tuple elements => elements
  | unary _ operand => [operand]
  | binary _ left right => [left, right]
  | field site _ => site.toList
  | call site _ arguments _ => site.toList ++ arguments.map (·.value)
  | property site _ indices => site.toList ++ indices.map (·.value)
  | construct _ _ arguments initializers => arguments.map (·.value) ++ initializers.map (·.value)
  | allocate _ _ bounds initializers => bounds ++ initializers.map (·.value)
  | element indexed indices => indexed :: indices
  | wrapped _ inner => [inner]
  | conditional condition consequence alternative => condition :: consequence :: alternative.toList
  | cast value _ _ _ => [value]
  | assigned value _ => [value]
  | method _ parameters _ _ locals =>
    parameters.filterMap (·.defaultValue) ++ (locals.getD []).filterMap (·.value)

/-- The statements right below an expression. -/
def body : Expr → List Statement
  | method _ _ _ body _ => body
  | _ => []

def members : Expr → List Member
  | anonymousType _ members => members
  | _ => []

end Expr

namespace Statement

def operands : Statement → List Expr
  | expression value => [value]
  | declaration declared => declared.value.toList
  | assignment target value => [target, value]
  | result value => value.toList
  | block _ => []

def body : Statement → List Statement
  | block body => body
  | _ => []

end Statement

namespace Member

def operands : Member → List Expr
  | field declared => declared.value.toList
  | method _ parameters _ _ => parameters.filterMap (·.defaultValue)

def body : Member → List Statement
  | field _ => []
  | method _ _ _ body => body

end Member

namespace Node

/-- The node that is entered at a place: a shared reference stands for its atom. -/
def seen : Node → Node
  | expression e => expression e.node
  | node => node

/-- The places right below a place, in order. -/
def children : Node → List Node
  | expression e =>
    e.operands.map expression ++ e.body.map statement ++ e.members.map member ++ e.raw?.toList.map raw
  | statement s => s.operands.map expression ++ s.body.map statement
  | member m => m.operands.map expression ++ m.body.map statement
  | raw _ => []

end Node

/-! ## Parts are smaller -/

section Size

theorem sizeOf_lt_of_mem_toList {e : Expr} {part : Option Expr} (h : e ∈ part.toList) :
    sizeOf e < sizeOf part := by
  cases Option.mem_toList.1 h
  simp only [Option.some.sizeOf_spec]
  omega

theorem sizeOf_lt_of_mem_values {e : Expr} {arguments : List Argument}
    (h : e ∈ arguments.map (·.value)) : sizeOf e < sizeOf arguments := by
  obtain ⟨⟨name, value, passing⟩, hmem, rfl⟩ := List.mem_map.1 h
  have hlt := List.sizeOf_lt_of_mem hmem
  simp only [Argument.mk.sizeOf_spec] at hlt
  show sizeOf value < _
  omega

theorem sizeOf_lt_of_mem_entries {e : Expr} {entries : List (Expr × Expr)}
    (h : e ∈ entries.flatMap fun entry => [entry.1, entry.2]) : sizeOf e < sizeOf entries := by
  obtain ⟨⟨key, value⟩, hmem, he⟩ := List.mem_flatMap.1 h
  have hlt := List.sizeOf_lt_of_mem hmem
  simp only [Prod.mk.sizeOf_spec] at hlt
  rcases List.mem_pair.1 he with he | he
  · rw [he]
    show sizeOf key < _
    omega
  · rw [he]
    show sizeOf value < _
    omega

theorem sizeOf_lt_of_mem_defaults {e : Expr} {parameters : List Parameter}
    (h : e ∈ parameters.filterMap (·.defaultValue)) : sizeOf e < sizeOf parameters := by
  obtain ⟨⟨name, type, passing, value⟩, hmem, rfl⟩ := List.mem_filterMap.1 h
  have hlt := List.sizeOf_lt_of_mem hmem
  simp only [Parameter.mk.sizeOf_spec, Option.some.sizeOf_spec] at hlt
  omega

theorem sizeOf_lt_of_mem_locals {e : Expr} {locals : Option (List Declaration)}
    (h : e ∈ (locals.getD []).filterMap (·.value)) : sizeOf e < sizeOf locals := by
  obtain ⟨⟨name, type, value, constant⟩, hmem, rfl⟩ := List.mem_filterMap.1 h
  cases locals with
  | none => cases hmem
  | some locals =>
    have hlt : sizeOf (Declaration.mk name type (some e) constant) < sizeOf locals :=
      List.sizeOf_lt_of_mem hmem
    simp only [Declaration.mk.sizeOf_spec, Option.some.sizeOf_spec] at hlt ⊢
    omega

theorem Expr.sizeOf_lt_of_mem_operands {e parent : Expr} (h : e ∈ parent.operands) :
    sizeOf e < sizeOf parent := by
  cases parent with
  | shared | atom | anonymousType => cases h
  | array elements kind | tuple elements =>
    have hpart : sizeOf e < sizeOf elements := List.sizeOf_lt_of_mem h
    simp only [array.sizeOf_spec, tuple.sizeOf_spec]
    omega
  | dictionary entries =>
    have hpart := sizeOf_lt_of_mem_entries h
    simp only [dictionary.sizeOf_spec]
    omega
  | unary operator inner | wrapped wrapper inner | cast inner type throwing safe
  | assigned inner inverted =>
    have hpart : e = inner := List.mem_singleton.1 h
    simp only [hpart, unary.sizeOf_spec, wrapped.sizeOf_spec, cast.sizeOf_spec,
      assigned.sizeOf_spec]
    omega
  | binary operator left right =>
    have hpart : e = left ∨ e = right := List.mem_pair.1 h
    simp only [binary.sizeOf_spec]
    rcases hpart with rfl | rfl <;> omega
  | field site selection =>
    have hpart := sizeOf_lt_of_mem_toList h
    simp only [field.sizeOf_spec]
    omega
  | call site selection arguments optional | property site selection arguments =>
    have hpart := (List.mem_append.1 h).imp sizeOf_lt_of_mem_toList sizeOf_lt_of_mem_values
    simp only [call.sizeOf_spec, property.sizeOf_spec]
    omega
  | construct type constructor arguments initializers =>
    have hpart := (List.mem_append.1 h).imp sizeOf_lt_of_mem_values sizeOf_lt_of_mem_values
    simp only [construct.sizeOf_spec]
    omega
  | allocate type constructor bounds initializers =>
    have hpart := (List.mem_append.1 h).imp List.sizeOf_lt_of_mem sizeOf_lt_of_mem_values
    simp only [allocate.sizeOf_spec]
    omega
  | element indexed indices =>
    have hpart := (List.mem_cons.1 h).imp (congrArg sizeOf) List.sizeOf_lt_of_mem
    simp only [element.sizeOf_spec]
    omega
  | conditional condition consequence alternative =>
    have hpart := (List.mem_cons.1 h).imp (congrArg sizeOf) fun h =>
      (List.mem_cons.1 h).imp (congrArg sizeOf) sizeOf_lt_of_mem_toList
    simp only [conditional.sizeOf_spec]
    omega
  | method lambda parameters returns body locals =>
    have hpart := (List.mem_append.1 h).imp sizeOf_lt_of_mem_defaults sizeOf_lt_of_mem_locals
    simp only [method.sizeOf_spec]
    omega

theorem Declaration.sizeOf_lt_of_mem_value {e : Expr} {declared : Declaration}
    (h : e ∈ declared.value.toList) : sizeOf e < sizeOf declared := by
  obtain ⟨name, type, value, constant⟩ := declared
  have hpart : sizeOf e < sizeOf value := sizeOf_lt_of_mem_toList h
  simp only [mk.sizeOf_spec]
  omega

theorem Statement.sizeOf_lt_of_mem_operands {e : Expr} {s : Statement} (h : e ∈ s.operands) :
    sizeOf e < sizeOf s := by
  cases s with
  | block => cases h
  | expression value =>
    have hpart : e = value := List.mem_singleton.1 h
    simp only [hpart, expression.sizeOf_spec]
    omega
  | declaration declared =>
    have hpart := declared.sizeOf_lt_of_mem_value h
    simp only [declaration.sizeOf_spec]
    omega
  | assignment target value =>
    have hpart : e = target ∨ e = value := List.mem_pair.1 h
    simp only [assignment.sizeOf_spec]
    rcases hpart with rfl | rfl <;> omega
  | result value =>
    have hpart := sizeOf_lt_of_mem_toList h
    simp only [result.sizeOf_spec]
    omega

theorem Member.sizeOf_lt_of_mem_operands {e : Expr} {m : Member} (h : e ∈ m.operands) :
    sizeOf e < sizeOf m := by
  cases m with
  | field declared =>
    have hpart := declared.sizeOf_lt_of_mem_value h
    simp only [field.sizeOf_spec]
    omega
  | method name parameters returns body =>
    have hpart := sizeOf_lt_of_mem_defaults h
    simp only [method.sizeOf_spec]
    omega

theorem Expr.sizeOf_lt_of_mem_body {s : Statement} {e : Expr} (h : s ∈ e.body) :
    sizeOf s < sizeOf e := by
  cases e with
  | method lambda parameters returns body locals =>
    have hpart : sizeOf s < sizeOf body := List.sizeOf_lt_of_mem h
    simp only [method.sizeOf_spec]
    omega
  | _ => cases h

theorem Expr.sizeOf_lt_of_mem_members {m : Member} {e : Expr} (h : m ∈ e.members) :
    sizeOf m < sizeOf e := by
  cases e with
  | anonymousType kind members =>
    have hpart : sizeOf m < sizeOf members := List.sizeOf_lt_of_mem h
    simp only [anonymousType.sizeOf_spec]
    omega
  | _ => cases h

theorem Statement.sizeOf_lt_of_mem_body {s t : Statement} (h : s ∈ t.body) :
    sizeOf s < sizeOf t := by
  cases t with
  | block body =>
    have hpart : sizeOf s < sizeOf body := List.sizeOf_lt_of_mem h
    simp only [block.sizeOf_spec]
    omega
  | _ => cases h

theorem Member.sizeOf_lt_of_mem_body {s : Statement} {m : Member} (h : s ∈ m.body) :
    sizeOf s < sizeOf m := by
  cases m with
  | field => cases h
  | method name parameters returns body =>
    have hpart : sizeOf s < sizeOf body := List.sizeOf_lt_of_mem h
    simp only [method.sizeOf_spec]
    omega

theorem Expr.eq_of_raw?_eq_some {e : Expr} {code : RawCode} (h : e.raw? = some code) :
    e = .atom (.raw code) := by
  cases e with
  | shared s => cases s <;> cases h
  | atom a =>
    cases a <;> cases h
    rfl
  | _ => cases h

namespace Node

theorem sizeOf_raw_lt {e : Expr} {code : RawCode} (h : code ∈ e.raw?.toList) :
    sizeOf code < sizeOf e := by
  rw [Expr.eq_of_raw?_eq_some (Option.mem_toList.1 h)]
  simp only [Expr.atom.sizeOf_spec, Atom.raw.sizeOf_spec]
  omega

/-- What is right below a node is smaller. -/
theorem sizeOf_lt_of_mem_children {node child : Node} (h : child ∈ node.children) :
    sizeOf child < sizeOf node := by
  cases node with
  | expression e =>
    simp only [children, List.mem_append, List.mem_map] at h
    obtain ((⟨operand, hmem, rfl⟩ | ⟨s, hmem, rfl⟩) | ⟨m, hmem, rfl⟩) | ⟨code, hmem, rfl⟩ := h
    · have hpart := Expr.sizeOf_lt_of_mem_operands hmem
      simp only [expression.sizeOf_spec]
      omega
    · have hpart := Expr.sizeOf_lt_of_mem_body hmem
      simp only [expression.sizeOf_spec, statement.sizeOf_spec]
      omega
    · have hpart := Expr.sizeOf_lt_of_mem_members hmem
      simp only [expression.sizeOf_spec, member.sizeOf_spec]
      omega
    · have hpart := sizeOf_raw_lt hmem
      simp only [expression.sizeOf_spec, raw.sizeOf_spec]
      omega
  | statement s =>
    simp only [children, List.mem_append, List.mem_map] at h
    obtain ⟨operand, hmem, rfl⟩ | ⟨t, hmem, rfl⟩ := h
    · have hpart := Statement.sizeOf_lt_of_mem_operands hmem
      simp only [expression.sizeOf_spec, statement.sizeOf_spec]
      omega
    · have hpart := Statement.sizeOf_lt_of_mem_body hmem
      simp only [statement.sizeOf_spec]
      omega
  | member m =>
    simp only [children, List.mem_append, List.mem_map] at h
    obtain ⟨operand, hmem, rfl⟩ | ⟨s, hmem, rfl⟩ := h
    · have hpart := Member.sizeOf_lt_of_mem_operands hmem
      simp only [expression.sizeOf_spec, member.sizeOf_spec]
      omega
    · have hpart := Member.sizeOf_lt_of_mem_body hmem
      simp only [statement.sizeOf_spec, member.sizeOf_spec]
      omega
  | raw code => cases h

end Node

end Size

/-! ## Whole trees -/

/-- A node in a tree, with the nodes above it, the nearest first. -/
structure Occurrence where
  node : Node
  above : List Node

/-- Whether no node above is pruned. -/
def Occurrence.isReached (prunes : Node → Bool) (o : Occurrence) : Bool :=
  o.above.all fun node => !prunes node

namespace Node

/-- The nodes of a tree in order, each before what is below it. -/
def occurrences (above : List Node) (node : Node) : List Occurrence :=
  ⟨node.seen, above⟩ ::
    node.children.attach.flatMap fun child => child.1.occurrences (node.seen :: above)
termination_by sizeOf node
decreasing_by exact sizeOf_lt_of_mem_children child.2

/-- The nodes of a tree in order, without what is below a pruned node. -/
def listing (prunes : Node → Bool) (node : Node) : List Node :=
  node.seen ::
    if prunes node.seen then [] else node.children.attach.flatMap fun child => child.1.listing prunes
termination_by sizeOf node
decreasing_by exact sizeOf_lt_of_mem_children child.2

theorem occurrences_eq (above : List Node) (node : Node) :
    node.occurrences above =
      ⟨node.seen, above⟩ :: node.children.flatMap (occurrences (node.seen :: above)) := by
  rw [occurrences, ← List.flatMap_map Subtype.val, List.attach_map_subtype_val]

theorem listing_eq (prunes : Node → Bool) (node : Node) :
    node.listing prunes =
      node.seen :: if prunes node.seen then [] else node.children.flatMap (listing prunes) := by
  rw [listing, ← List.flatMap_map Subtype.val, List.attach_map_subtype_val]

/-- The listing without pruned parts is the listing of the nodes below no pruned node. -/
theorem listing_eq_occurrences (prunes : Node → Bool) (node : Node) (above : List Node) :
    ((node.occurrences above).filter (Occurrence.isReached prunes)).map Occurrence.node =
      if above.all (fun node => !prunes node) then node.listing prunes else [] := by
  have hchildren (above : List Node) :
      ((node.children.flatMap (occurrences above)).filter (Occurrence.isReached prunes)).map
          Occurrence.node =
        if above.all (fun node => !prunes node) then node.children.flatMap (listing prunes)
        else [] := by
    rw [List.filter_flatMap, List.map_flatMap]
    have hchild : ∀ child ∈ node.children,
        ((child.occurrences above).filter (Occurrence.isReached prunes)).map Occurrence.node =
          if above.all (fun node => !prunes node) then child.listing prunes else [] :=
      fun child _ => listing_eq_occurrences prunes child above
    rw [List.flatMap_congr hchild]
    split <;> simp
  rw [occurrences_eq, listing_eq, List.filter_cons]
  by_cases habove : above.all fun node => !prunes node
  · rw [if_pos (show Occurrence.isReached prunes ⟨node.seen, above⟩ = true from habove), if_pos habove,
      List.map_cons, hchildren, List.all_cons, habove]
    cases prunes node.seen <;> rfl
  · rw [if_neg (show ¬ Occurrence.isReached prunes ⟨node.seen, above⟩ = true from habove),
      if_neg habove, hchildren, List.all_cons, if_neg (by simp [habove])]
termination_by sizeOf node
decreasing_by exact sizeOf_lt_of_mem_children ‹_›

/-- All nodes of a tree in order. -/
def nodes (node : Node) : List Node := node.listing fun _ => false

theorem nodes_eq (node : Node) : node.nodes = node.seen :: node.children.flatMap nodes := by
  rw [nodes, listing_eq, if_neg Bool.false_ne_true]
  rfl

theorem nodes_eq_occurrences (node : Node) :
    node.nodes = (node.occurrences []).map Occurrence.node := by
  have hreached : ∀ o ∈ node.occurrences [], o.isReached (fun _ => false) = true :=
    fun o _ => List.all_eq_true.2 fun _ _ => rfl
  rw [← List.filter_eq_self.2 hreached, listing_eq_occurrences]
  rfl

/-- Pruning only leaves nodes out. -/
theorem listing_subset_nodes (prunes : Node → Bool) (node : Node) :
    node.listing prunes ⊆ node.nodes := by
  intro other hmem
  rw [listing_eq, List.mem_cons] at hmem
  rw [nodes_eq, List.mem_cons]
  refine hmem.imp_right fun hbelow => ?_
  split at hbelow
  · cases hbelow
  · obtain ⟨child, hchild, hother⟩ := List.mem_flatMap.1 hbelow
    exact List.mem_flatMap.2 ⟨child, hchild, listing_subset_nodes prunes child hother⟩
termination_by sizeOf node
decreasing_by exact sizeOf_lt_of_mem_children ‹_›

end Node

/-! ## One step of a traversal -/

section Walk

variable {m : Type → Type} [Monad m] (enter : Node → m Bool)

/-- Runs an action over the tree at a place. -/
def Node.walk : Node → m Unit
  | expression e => e.walk enter
  | statement s => s.walk enter
  | member definition => definition.walk enter
  | raw code => discard (enter (raw code))

theorem walkExprs_eq (es : List Expr) :
    walkExprs enter es = forM (es.map .expression) (Node.walk enter) := by
  induction es with
  | nil => rfl
  | cons e es ih =>
    rw [walkExprs, ih, List.map_cons, List.forM_cons]
    rfl

theorem walkEntries_eq [LawfulMonad m] (entries : List (Expr × Expr)) :
    walkEntries enter entries =
      forM ((entries.flatMap fun entry => [entry.1, entry.2]).map .expression) (Node.walk enter) := by
  induction entries with
  | nil => rfl
  | cons entry entries ih =>
    rw [walkEntries, ih]
    rfl

theorem walkArguments_eq (arguments : List Argument) :
    walkArguments enter arguments =
      forM ((arguments.map (·.value)).map .expression) (Node.walk enter) := by
  induction arguments with
  | nil => rfl
  | cons a arguments ih =>
    obtain ⟨name, value, passing⟩ := a
    rw [walkArguments, ih]
    rfl

theorem walkMembers_eq (members : List Member) :
    walkMembers enter members = forM (members.map .member) (Node.walk enter) := by
  induction members with
  | nil => rfl
  | cons member members ih =>
    rw [walkMembers, ih]
    rfl

theorem walkStatements_eq (statements : List Statement) :
    walkStatements enter statements = forM (statements.map .statement) (Node.walk enter) := by
  induction statements with
  | nil => rfl
  | cons s statements ih =>
    rw [walkStatements, ih]
    rfl

variable [LawfulMonad m]

theorem walkExpr?_eq (part : Option Expr) :
    walkExpr? enter part = forM (part.toList.map .expression) (Node.walk enter) := by
  cases part with
  | none => rfl
  | some e => exact (bind_pure_unit).symm

theorem walkParameters_eq (parameters : List Parameter) :
    walkParameters enter parameters =
      forM ((parameters.filterMap (·.defaultValue)).map .expression) (Node.walk enter) := by
  induction parameters with
  | nil => rfl
  | cons p parameters ih =>
    obtain ⟨name, type, passing, value⟩ := p
    rw [walkParameters, ih]
    cases value with
    | none => exact pure_bind _ _
    | some value => rfl

theorem walkLocals_eq (locals : List Declaration) :
    walkLocals enter locals =
      forM ((locals.filterMap (·.value)).map .expression) (Node.walk enter) := by
  induction locals with
  | nil => rfl
  | cons declared locals ih =>
    obtain ⟨name, type, value, constant⟩ := declared
    rw [walkLocals, ih]
    cases value with
    | none => exact pure_bind _ _
    | some value => rfl

theorem walkLocals?_eq (locals : Option (List Declaration)) :
    walkLocals? enter locals =
      forM (((locals.getD []).filterMap (·.value)).map .expression) (Node.walk enter) := by
  cases locals with
  | none => rfl
  | some locals => exact walkLocals_eq enter locals

/-- A traversal enters a node and then, in order, the places right below it. -/
theorem Node.walk_eq (node : Node) :
    node.walk enter = enterThen enter node.seen (forM node.children (Node.walk enter)) := by
  cases node with
  | expression e =>
    have hatom (a : Atom) : a.walk enter =
        enterThen enter (.expression (.atom a)) (forM (a.raw?.toList.map raw) (Node.walk enter)) := by
      rw [Atom.walk]
      cases a.raw? with
      | none => rfl
      | some code => exact congrArg (enterThen enter _) bind_pure_unit.symm
    cases e with
    | shared s => exact hatom s.atom
    | atom a => exact hatom a
    | _ =>
      simp [Node.walk, Expr.walk, seen, children, Expr.operands, Expr.body, Expr.members, Expr.raw?,
        Expr.atom?, Expr.node, walkExprs_eq, walkEntries_eq, walkArguments_eq, walkMembers_eq,
        walkStatements_eq, walkExpr?_eq, walkParameters_eq, walkLocals?_eq, List.forM_append]
  | statement s =>
    rcases s with _ | ⟨_, _, _, _⟩ | _ | _ | _ <;>
      simp [Node.walk, Statement.walk, seen, children, Statement.operands, Statement.body,
        walkStatements_eq, walkExpr?_eq]
  | member definition =>
    rcases definition with ⟨_, _, _, _⟩ | _ <;>
      simp [Node.walk, Member.walk, seen, children, Member.operands, Member.body, walkStatements_eq,
        walkExpr?_eq, walkParameters_eq]
  | raw code =>
    have hdiscard : discard (enter (raw code)) = (fun _ => ()) <$> enter (raw code) :=
      congrFun (congrFun LawfulFunctor.map_const ()) (enter (raw code))
    rw [Node.walk, hdiscard, map_eq_pure_bind]
    exact bind_congr fun below => by cases below <;> rfl

end Walk

end CodeTree
