import CodeTree.Proofs.Equality.Numbers

/-! # Matching trees part by part

Two trees match if they are the same without sharing and without numbers and the numbers are equal one by
one. A tree is built from its parts by a constructor that neither mixes their shapes nor adds a number, so
two trees match if they are built alike and their parts match.

* `Comparable`: what has a shape and numbers; `Matches`: the comparison of both.
* `matches_pair`: parts are matched one by one.
* `Builds`: constructors; `builds_array` to `builds_statements`: those of trees. -/

namespace CodeTree

set_option autoImplicit false

/-! ## Parts of trees side by side -/

/-- What a comparison looks at in a part of a tree. -/
class Comparable (α : Type) where
  /-- The part with owned nodes only and without numbers. -/
  shape : α → α
  numbers : α → List Binary64
  length_numbers_shape : ∀ x, (numbers (shape x)).length = (numbers x).length

open Comparable

/-- Two parts have one shape, and their numbers are equal one by one. -/
def Matches {α : Type} [Comparable α] (x y : α) : Prop :=
  shape x = shape y ∧ List.Forall₂ (fun x y => x.equal y = true) (numbers x) (numbers y)

/-- Data that is no tree is all shape. -/
instance (priority := low) comparablePlain {α : Type} : Comparable α where
  shape := id
  numbers _ := []
  length_numbers_shape _ := rfl

instance {α β : Type} [Comparable α] [Comparable β] : Comparable (α × β) where
  shape p := (shape p.1, shape p.2)
  numbers p := numbers p.1 ++ numbers p.2
  length_numbers_shape p := by simp [length_numbers_shape]

section Matches

variable {α β : Type}

theorem matches_plain {x y : α} : Matches x y ↔ x = y :=
  ⟨fun h => h.1, fun h => ⟨h, List.Forall₂.nil⟩⟩

theorem forall₂_append_iff {R : α → β → Prop} {xs xs' : List α} {ys ys' : List β}
    (h : xs.length = ys.length) :
    List.Forall₂ R (xs ++ xs') (ys ++ ys') ↔ List.Forall₂ R xs ys ∧ List.Forall₂ R xs' ys' := by
  refine ⟨fun hall => ⟨?_, ?_⟩, fun hall => List.rel_append hall.1 hall.2⟩
  · simpa [← h] using List.forall₂_take_append _ _ _ hall
  · simpa [← h] using List.forall₂_drop_append _ _ _ hall

variable [Comparable α] [Comparable β]

theorem iff_of_shape_ne {x y : α} (h : shape x ≠ shape y) : false = true ↔ Matches x y :=
  iff_of_false Bool.false_ne_true fun hmatches => h hmatches.1

/-- The numbers of two parts are compared part by part, since equal shapes hold equally many. -/
theorem matches_pair {x x' : α} {y y' : β} :
    Matches (x, y) (x', y') ↔ Matches x x' ∧ Matches y y' := by
  have hsplit (h : shape x = shape x') :
      List.Forall₂ (fun n m => n.equal m = true) (numbers (x, y)) (numbers (x', y')) ↔
        List.Forall₂ (fun n m => n.equal m = true) (numbers x) (numbers x') ∧
          List.Forall₂ (fun n m => n.equal m = true) (numbers y) (numbers y') := by
    have hlength : (numbers x).length = (numbers x').length := by
      rw [← length_numbers_shape, h, length_numbers_shape]
    exact forall₂_append_iff hlength
  constructor
  · rintro ⟨hshape, hnumbers⟩
    obtain ⟨hx, hy⟩ := Prod.mk.inj hshape
    obtain ⟨hnumbers, hnumbers'⟩ := (hsplit hx).1 hnumbers
    exact ⟨⟨hx, hnumbers⟩, hy, hnumbers'⟩
  · rintro ⟨⟨hx, hnumbers⟩, hy, hnumbers'⟩
    exact ⟨Prod.ext hx hy, (hsplit hx).2 ⟨hnumbers, hnumbers'⟩⟩

/-- Building a tree from parts keeps them apart and adds no number. -/
structure Builds (build : β → α) : Prop where
  inj : ∀ p p', build p = build p' → p = p'
  shape_eq : ∀ p, shape (build p) = build (shape p)
  numbers_eq : ∀ p, numbers (build p) = numbers p

theorem Builds.iff_matches {build : β → α} {q : Prop} (h : Builds build) (p p' : β)
    (hparts : q ↔ Matches p p') : q ↔ Matches (build p) (build p') := by
  have hshape : shape (build p) = shape (build p') ↔ shape p = shape p' := by
    rw [h.shape_eq, h.shape_eq]
    exact ⟨h.inj _ _, congrArg build⟩
  rw [hparts, Matches, Matches, hshape, h.numbers_eq, h.numbers_eq]

end Matches

/-! ## The parts of nodes -/

section Parts

theorem length_flatMap_floats_shape (es : List Expr) :
    ((es.map fun e => e.owned.withoutFloats).flatMap Expr.floats).length =
      (es.flatMap Expr.floats).length := by
  have hlength (e : Expr) : e.owned.withoutFloats.floats.length = e.floats.length :=
    (Node.expression e).length_floats_shape
  simp [List.length_flatMap, Function.comp_def, hlength]

instance : Comparable Expr where
  shape e := e.owned.withoutFloats
  numbers e := e.floats
  length_numbers_shape e := (Node.expression e).length_floats_shape

instance : Comparable Statement where
  shape s := (s.revise .owning).revise .erasing
  numbers s := (Node.statement s).floats
  length_numbers_shape s := (Node.statement s).length_floats_shape

instance : Comparable Member where
  shape m := (m.revise .owning).revise .erasing
  numbers m := (Node.member m).floats
  length_numbers_shape m := (Node.member m).length_floats_shape

instance : Comparable (Option Expr) where
  shape part := reviseExpr? .erasing (reviseExpr? .owning part)
  numbers part := part.toList.flatMap Expr.floats
  length_numbers_shape part := by
    rw [toList_reviseExpr?, toList_reviseExpr?, List.map_map]
    exact length_flatMap_floats_shape _

instance : Comparable (List Expr) where
  shape es := reviseExprs .erasing (reviseExprs .owning es)
  numbers es := es.flatMap Expr.floats
  length_numbers_shape es := by
    rw [reviseExprs_eq_map, reviseExprs_eq_map, List.map_map]
    exact length_flatMap_floats_shape es

instance : Comparable (List (Expr × Expr)) where
  shape entries := reviseEntries .erasing (reviseEntries .owning entries)
  numbers entries := (entries.flatMap fun entry => [entry.1, entry.2]).flatMap Expr.floats
  length_numbers_shape entries := by
    rw [operands_reviseEntries, operands_reviseEntries, List.map_map]
    exact length_flatMap_floats_shape _

instance : Comparable (List Argument) where
  shape arguments := reviseArguments .erasing id (reviseArguments .owning id arguments)
  numbers arguments := (arguments.map (·.value)).flatMap Expr.floats
  length_numbers_shape arguments := by
    rw [values_reviseArguments, values_reviseArguments, List.map_map (f := Expr.revise _)]
    exact length_flatMap_floats_shape _

instance : Comparable (List Parameter) where
  shape parameters := reviseParameters .erasing (reviseParameters .owning parameters)
  numbers parameters := (parameters.filterMap (·.defaultValue)).flatMap Expr.floats
  length_numbers_shape parameters := by
    rw [defaults_reviseParameters, defaults_reviseParameters, List.map_map]
    exact length_flatMap_floats_shape _

instance : Comparable Declaration where
  shape declared := (declared.revise .owning).revise .erasing
  numbers declared := declared.value.toList.flatMap Expr.floats
  length_numbers_shape declared := by
    obtain ⟨name, type, value, constant⟩ := declared
    exact length_numbers_shape value

instance : Comparable (List Declaration) where
  shape locals := reviseLocals .erasing (reviseLocals .owning locals)
  numbers locals := (locals.filterMap (·.value)).flatMap Expr.floats
  length_numbers_shape locals := by
    rw [values_reviseLocals, values_reviseLocals, List.map_map]
    exact length_flatMap_floats_shape _

instance : Comparable (Option (List Declaration)) where
  shape locals := reviseLocals? .erasing (reviseLocals? .owning locals)
  numbers locals := ((locals.getD []).filterMap (·.value)).flatMap Expr.floats
  length_numbers_shape locals := by
    rw [values_reviseLocals?, values_reviseLocals?, List.map_map]
    exact length_flatMap_floats_shape _

instance : Comparable (List Member) where
  shape members := reviseMembers .erasing (reviseMembers .owning members)
  numbers members := members.flatMap numbers
  length_numbers_shape members := by
    rw [reviseMembers_eq_map, reviseMembers_eq_map, List.map_map]
    have hlength (m : Member) := length_numbers_shape m
    simp only [List.length_flatMap, List.map_map]
    exact congrArg List.sum (List.map_congr_left fun m _ => hlength m)

instance : Comparable (List Statement) where
  shape statements := reviseStatements .erasing (reviseStatements .owning statements)
  numbers statements := statements.flatMap numbers
  length_numbers_shape statements := by
    rw [reviseStatements_eq_map, reviseStatements_eq_map, List.map_map]
    have hlength (s : Statement) := length_numbers_shape s
    simp only [List.length_flatMap, List.map_map]
    exact congrArg List.sum (List.map_congr_left fun s _ => hlength s)

end Parts

/-! ## How trees are built -/

section Builds

theorem builds_array : Builds fun p : List Expr × ArrayKind => Expr.array p.1 p.2 where
  inj := by rintro ⟨_, _⟩ ⟨_, _⟩ ⟨⟩; rfl
  shape_eq _ := rfl
  numbers_eq _ := (Expr.floats_eq rfl).trans <| by
    simp [Expr.operands, Expr.body, Expr.members, numbers]

theorem builds_dictionary : Builds fun p : List (Expr × Expr) => Expr.dictionary p where
  inj := by rintro _ _ ⟨⟩; rfl
  shape_eq _ := rfl
  numbers_eq _ := (Expr.floats_eq rfl).trans <| by
    simp [Expr.operands, Expr.body, Expr.members, numbers]

theorem builds_tuple : Builds fun p : List Expr => Expr.tuple p where
  inj := by rintro _ _ ⟨⟩; rfl
  shape_eq _ := rfl
  numbers_eq _ := (Expr.floats_eq rfl).trans <| by
    simp [Expr.operands, Expr.body, Expr.members, numbers]

theorem builds_unary : Builds fun p : Expr × Operator UnaryKind => Expr.unary p.2 p.1 where
  inj := by rintro ⟨_, _⟩ ⟨_, _⟩ ⟨⟩; rfl
  shape_eq _ := rfl
  numbers_eq _ := (Expr.floats_eq rfl).trans <| by
    simp [Expr.operands, Expr.body, Expr.members, numbers]

theorem builds_binary :
    Builds fun p : Expr × Expr × Operator BinaryKind =>
      Expr.binary p.2.2 p.1 p.2.1 where
  inj := by rintro ⟨_, _, _⟩ ⟨_, _, _⟩ ⟨⟩; rfl
  shape_eq _ := rfl
  numbers_eq _ := (Expr.floats_eq rfl).trans <| by
    simp [Expr.operands, Expr.body, Expr.members, numbers]

theorem builds_field : Builds fun p : Option Expr × Selection => Expr.field p.1 p.2 where
  inj := by rintro ⟨_, _⟩ ⟨_, _⟩ ⟨⟩; rfl
  shape_eq _ := rfl
  numbers_eq _ := (Expr.floats_eq rfl).trans <| by
    simp [Expr.operands, Expr.body, Expr.members, numbers]

theorem builds_call :
    Builds fun p : Option Expr × Selection × List Argument × Bool =>
      Expr.call p.1 p.2.1 p.2.2.1 p.2.2.2 where
  inj := by rintro ⟨_, _, _, _⟩ ⟨_, _, _, _⟩ ⟨⟩; rfl
  shape_eq _ := rfl
  numbers_eq _ := (Expr.floats_eq rfl).trans <| by
    simp [Expr.operands, Expr.body, Expr.members, numbers]

theorem builds_property :
    Builds fun p : Option Expr × Selection × List Argument =>
      Expr.property p.1 p.2.1 p.2.2 where
  inj := by rintro ⟨_, _, _⟩ ⟨_, _, _⟩ ⟨⟩; rfl
  shape_eq _ := rfl
  numbers_eq _ := (Expr.floats_eq rfl).trans <| by
    simp [Expr.operands, Expr.body, Expr.members, numbers]

theorem builds_construct :
    Builds fun p : TypeReference × Option Symbol × List Argument × List Argument =>
      Expr.construct p.1 p.2.1 p.2.2.1 p.2.2.2 where
  inj := by rintro ⟨_, _, _, _⟩ ⟨_, _, _, _⟩ ⟨⟩; rfl
  shape_eq _ := rfl
  numbers_eq _ := (Expr.floats_eq rfl).trans <| by
    simp [Expr.operands, Expr.body, Expr.members, numbers]

theorem builds_allocate :
    Builds fun p : TypeReference × Option Symbol × List Expr × List Argument =>
      Expr.allocate p.1 p.2.1 p.2.2.1 p.2.2.2 where
  inj := by rintro ⟨_, _, _, _⟩ ⟨_, _, _, _⟩ ⟨⟩; rfl
  shape_eq _ := rfl
  numbers_eq _ := (Expr.floats_eq rfl).trans <| by
    simp [Expr.operands, Expr.body, Expr.members, numbers]

theorem builds_element : Builds fun p : Expr × List Expr => Expr.element p.1 p.2 where
  inj := by rintro ⟨_, _⟩ ⟨_, _⟩ ⟨⟩; rfl
  shape_eq _ := rfl
  numbers_eq _ := (Expr.floats_eq rfl).trans <| by
    simp [Expr.operands, Expr.body, Expr.members, numbers]

theorem builds_wrapped : Builds fun p : Wrapper × Expr => Expr.wrapped p.1 p.2 where
  inj := by rintro ⟨_, _⟩ ⟨_, _⟩ ⟨⟩; rfl
  shape_eq _ := rfl
  numbers_eq _ := (Expr.floats_eq rfl).trans <| by
    simp [Expr.operands, Expr.body, Expr.members, numbers]

theorem builds_conditional :
    Builds fun p : Expr × Expr × Option Expr =>
      Expr.conditional p.1 p.2.1 p.2.2 where
  inj := by rintro ⟨_, _, _⟩ ⟨_, _, _⟩ ⟨⟩; rfl
  shape_eq _ := rfl
  numbers_eq _ := (Expr.floats_eq rfl).trans <| by
    simp [Expr.operands, Expr.body, Expr.members, numbers]

theorem builds_cast :
    Builds fun p : Expr × TypeReference × Bool × Bool =>
      Expr.cast p.1 p.2.1 p.2.2.1 p.2.2.2 where
  inj := by rintro ⟨_, _, _, _⟩ ⟨_, _, _, _⟩ ⟨⟩; rfl
  shape_eq _ := rfl
  numbers_eq _ := (Expr.floats_eq rfl).trans <| by
    simp [Expr.operands, Expr.body, Expr.members, numbers]

theorem builds_assigned : Builds fun p : Expr × Bool => Expr.assigned p.1 p.2 where
  inj := by rintro ⟨_, _⟩ ⟨_, _⟩ ⟨⟩; rfl
  shape_eq _ := rfl
  numbers_eq _ := (Expr.floats_eq rfl).trans <| by
    simp [Expr.operands, Expr.body, Expr.members, numbers]

theorem builds_method :
    Builds fun p : Bool × List Parameter × Option (List Declaration) ×
        Option TypeReference × List Statement =>
      Expr.method p.1 p.2.1 p.2.2.2.1 p.2.2.2.2 p.2.2.1 where
  inj := by rintro ⟨_, _, _, _, _⟩ ⟨_, _, _, _, _⟩ ⟨⟩; rfl
  shape_eq _ := rfl
  numbers_eq _ := (Expr.floats_eq rfl).trans <| by
    simp [Expr.operands, Expr.body, Expr.members, numbers]

theorem builds_anonymousType :
    Builds fun p : AggregateKind × List Member =>
      Expr.anonymousType p.1 p.2 where
  inj := by rintro ⟨_, _⟩ ⟨_, _⟩ ⟨⟩; rfl
  shape_eq _ := rfl
  numbers_eq _ := (Expr.floats_eq rfl).trans <| by
    simp [Expr.operands, Expr.body, Expr.members, numbers]

theorem builds_expression : Builds fun p : Expr => Statement.expression p where
  inj := by rintro _ _ ⟨⟩; rfl
  shape_eq _ := rfl
  numbers_eq _ := (Statement.floats_eq _).trans <| by
    simp [Statement.operands, Statement.body, numbers]

theorem builds_declaration : Builds fun p : Declaration => Statement.declaration p where
  inj := by rintro _ _ ⟨⟩; rfl
  shape_eq _ := rfl
  numbers_eq _ := (Statement.floats_eq _).trans <| by
    simp [Statement.operands, Statement.body, numbers]

theorem builds_assignment : Builds fun p : Expr × Expr => Statement.assignment p.1 p.2 where
  inj := by rintro ⟨_, _⟩ ⟨_, _⟩ ⟨⟩; rfl
  shape_eq _ := rfl
  numbers_eq _ := (Statement.floats_eq _).trans <| by
    simp [Statement.operands, Statement.body, numbers]

theorem builds_result : Builds fun p : Option Expr => Statement.result p where
  inj := by rintro _ _ ⟨⟩; rfl
  shape_eq _ := rfl
  numbers_eq _ := (Statement.floats_eq _).trans <| by
    simp [Statement.operands, Statement.body, numbers]

theorem builds_block : Builds fun p : List Statement => Statement.block p where
  inj := by rintro _ _ ⟨⟩; rfl
  shape_eq _ := rfl
  numbers_eq _ := (Statement.floats_eq _).trans <| by
    simp [Statement.operands, Statement.body, numbers]

theorem builds_fieldMember : Builds fun p : Declaration => Member.field p where
  inj := by rintro _ _ ⟨⟩; rfl
  shape_eq _ := rfl
  numbers_eq _ := (Member.floats_eq _).trans <| by
    simp [Member.operands, Member.body, numbers]

theorem builds_methodMember :
    Builds fun p : Symbol × List Parameter × Option TypeReference × List Statement =>
      Member.method p.1 p.2.1 p.2.2.1 p.2.2.2 where
  inj := by rintro ⟨_, _, _, _⟩ ⟨_, _, _, _⟩ ⟨⟩; rfl
  shape_eq _ := rfl
  numbers_eq _ := (Member.floats_eq _).trans <| by
    simp [Member.operands, Member.body, numbers]

theorem builds_some : Builds fun p : Expr => (some p : Option Expr) where
  inj := by rintro _ _ ⟨⟩; rfl
  shape_eq _ := rfl
  numbers_eq _ := by simp [numbers]

theorem builds_exprs : Builds fun p : Expr × List Expr => p.1 :: p.2 where
  inj := by rintro ⟨_, _⟩ ⟨_, _⟩ ⟨⟩; rfl
  shape_eq _ := rfl
  numbers_eq _ := by simp [numbers]

theorem builds_entries : Builds fun p : (Expr × Expr) × List (Expr × Expr) => p.1 :: p.2 where
  inj := by rintro ⟨_, _⟩ ⟨_, _⟩ ⟨⟩; rfl
  shape_eq _ := rfl
  numbers_eq _ := by simp [numbers]

theorem builds_arguments :
    Builds fun p : Option Symbol × Expr × Passing × List Argument =>
      Argument.mk p.1 p.2.1 p.2.2.1 :: p.2.2.2 where
  inj := by rintro ⟨_, _, _, _⟩ ⟨_, _, _, _⟩ ⟨⟩; rfl
  shape_eq _ := rfl
  numbers_eq _ := by simp [numbers]

theorem builds_parameters :
    Builds fun p : Symbol × Option TypeReference × Passing × Option Expr × List Parameter =>
      Parameter.mk p.1 p.2.1 p.2.2.1 p.2.2.2.1 :: p.2.2.2.2 where
  inj := by rintro ⟨_, _, _, _, _⟩ ⟨_, _, _, _, _⟩ ⟨⟩; rfl
  shape_eq _ := rfl
  numbers_eq := by rintro ⟨_, _, _, _ | _, _⟩ <;> simp [numbers]

theorem builds_declared :
    Builds fun p : Symbol × Option TypeReference × Option Expr × Bool =>
      Declaration.mk p.1 p.2.1 p.2.2.1 p.2.2.2 where
  inj := by rintro ⟨_, _, _, _⟩ ⟨_, _, _, _⟩ ⟨⟩; rfl
  shape_eq _ := rfl
  numbers_eq _ := by simp [numbers]

theorem builds_locals : Builds fun p : Declaration × List Declaration => p.1 :: p.2 where
  inj := by rintro ⟨_, _⟩ ⟨_, _⟩ ⟨⟩; rfl
  shape_eq _ := rfl
  numbers_eq := by rintro ⟨⟨_, _, _ | _, _⟩, _⟩ <;> simp [numbers]

theorem builds_someLocals :
    Builds fun p : List Declaration =>
      (some p : Option (List Declaration)) where
  inj := by rintro _ _ ⟨⟩; rfl
  shape_eq _ := rfl
  numbers_eq _ := by simp [numbers]

theorem builds_members : Builds fun p : Member × List Member => p.1 :: p.2 where
  inj := by rintro ⟨_, _⟩ ⟨_, _⟩ ⟨⟩; rfl
  shape_eq _ := rfl
  numbers_eq _ := by simp [numbers]

theorem builds_statements : Builds fun p : Statement × List Statement => p.1 :: p.2 where
  inj := by rintro ⟨_, _⟩ ⟨_, _⟩ ⟨⟩; rfl
  shape_eq _ := rfl
  numbers_eq _ := by simp [numbers]

end Builds

end CodeTree
