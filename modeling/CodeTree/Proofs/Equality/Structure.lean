import CodeTree.Proofs.Equality.Matching

/-! # What equality compares

Trees are compared by identity where both sides refer to shared nodes, and node by node elsewhere.
That comes to the plain comparison of their owned copies: no two of the shared nodes are equal, and each
is equal to itself.

* `Expr.equal_iff`, `equalStatements_iff`: comparing is matching.
* `equal_iff_owned_structurallyEqual`: the plain comparison of owned copies. -/

namespace CodeTree

set_option autoImplicit false

open Comparable

/-! ## Atoms -/

theorem Sentinel.atom_equal (s t : Sentinel) : s.atom.equal t.atom = decide (s = t) := by
  cases s <;> cases t <;> rfl

/-- Atoms are compared by value, and numbers as numbers. -/
theorem Atom.equal_iff (a b : Atom) :
    a.equal b = true ↔ a.withoutFloat = b.withoutFloat ∧
      List.Forall₂ (fun x y => x.equal y = true) a.float?.toList b.float?.toList := by
  cases a with
  | literal l =>
    cases b with
    | literal l' =>
      cases l <;> cases l' <;>
        simp [Atom.equal, Literal.equal, Atom.withoutFloat, Atom.float?, Atom.literal?,
          Literal.float?]
    | _ => cases l <;> simp [Atom.equal, Atom.withoutFloat]
  | _ =>
    cases b with
    | literal l' => cases l' <;> simp [Atom.equal, Atom.withoutFloat]
    | _ => simp [Atom.equal, Atom.withoutFloat, Atom.float?, Atom.literal?]

/-- Expressions that refer to atoms match as these do. -/
theorem matches_of_atoms {e e' : Expr} {a a' : Atom} (h : e.node = .atom a)
    (h' : e'.node = .atom a') : Matches e e' ↔ a.equal a' = true := by
  have hshape {e : Expr} {a : Atom} (h : e.node = .atom a) : shape e = .atom a.withoutFloat := by
    cases e <;> cases h <;> rfl
  have hnumbers {e : Expr} {a : Atom} (h : e.node = .atom a) : numbers e = a.float?.toList :=
    Node.floats_of_atom h
  rw [Matches, hshape h, hshape h', hnumbers h, hnumbers h', Expr.atom.injEq, a.equal_iff]

/-! ## Trees -/

mutual

/-- Comparing two expressions is matching them. -/
theorem Expr.equal_iff : ∀ a b : Expr, a.equal b = true ↔ Matches a b
  | .shared s, b => by
    cases b with
    | shared t =>
      rw [Expr.equal, ← s.atom_equal t]
      exact (matches_of_atoms rfl rfl).symm
    | atom b => exact (matches_of_atoms rfl rfl).symm
    | _ => exact iff_of_shape_ne nofun
  | .atom a, b => by
    cases b with
    | shared | atom => exact (matches_of_atoms rfl rfl).symm
    | _ => exact iff_of_shape_ne nofun
  | .array elements kind, b => by
    cases b with
    | array elements' kind' =>
      refine builds_array.iff_matches (elements, kind) (elements', kind') ?_
      simp only [Expr.equal, Bool.and_eq_true, decide_eq_true_eq, matches_pair, matches_plain,
        equalExprs_iff elements]
    | _ => exact iff_of_shape_ne nofun
  | .dictionary entries, b => by
    cases b with
    | dictionary entries' =>
      refine builds_dictionary.iff_matches entries entries' ?_
      simp only [Expr.equal, equalEntries_iff entries]
    | _ => exact iff_of_shape_ne nofun
  | .tuple elements, b => by
    cases b with
    | tuple elements' =>
      refine builds_tuple.iff_matches elements elements' ?_
      simp only [Expr.equal, equalExprs_iff elements]
    | _ => exact iff_of_shape_ne nofun
  | .unary operator operand, b => by
    cases b with
    | unary operator' operand' =>
      refine builds_unary.iff_matches (operand, operator) (operand', operator') ?_
      simp only [Expr.equal, Bool.and_eq_true, decide_eq_true_eq, matches_pair, matches_plain,
        operand.equal_iff]
    | _ => exact iff_of_shape_ne nofun
  | .binary operator left right, b => by
    cases b with
    | binary operator' left' right' =>
      refine builds_binary.iff_matches (left, right, operator)
        (left', right', operator') ?_
      simp only [Expr.equal, Bool.and_eq_true, decide_eq_true_eq, matches_pair, matches_plain,
        and_assoc, left.equal_iff, right.equal_iff]
    | _ => exact iff_of_shape_ne nofun
  | .field site selection, b => by
    cases b with
    | field site' selection' =>
      refine builds_field.iff_matches (site, selection) (site', selection') ?_
      simp only [Expr.equal, Bool.and_eq_true, decide_eq_true_eq, matches_pair, matches_plain,
        equalExpr?_iff site]
    | _ => exact iff_of_shape_ne nofun
  | .call site selection arguments optional, b => by
    cases b with
    | call site' selection' arguments' optional' =>
      refine builds_call.iff_matches (site, selection, arguments, optional)
        (site', selection', arguments', optional') ?_
      simp only [Expr.equal, Bool.and_eq_true, decide_eq_true_eq, matches_pair, matches_plain,
        and_assoc, equalExpr?_iff site, equalArguments_iff arguments]
    | _ => exact iff_of_shape_ne nofun
  | .property site selection indices, b => by
    cases b with
    | property site' selection' indices' =>
      refine builds_property.iff_matches (site, selection, indices)
        (site', selection', indices') ?_
      simp only [Expr.equal, Bool.and_eq_true, decide_eq_true_eq, matches_pair, matches_plain,
        and_assoc, equalExpr?_iff site, equalArguments_iff indices]
    | _ => exact iff_of_shape_ne nofun
  | .construct type constructor arguments initializers, b => by
    cases b with
    | construct type' constructor' arguments' initializers' =>
      refine builds_construct.iff_matches (type, constructor, arguments, initializers)
        (type', constructor', arguments', initializers') ?_
      simp only [Expr.equal, Bool.and_eq_true, decide_eq_true_eq, matches_pair, matches_plain,
        and_assoc, equalArguments_iff arguments, equalArguments_iff initializers]
    | _ => exact iff_of_shape_ne nofun
  | .allocate type constructor bounds initializers, b => by
    cases b with
    | allocate type' constructor' bounds' initializers' =>
      refine builds_allocate.iff_matches (type, constructor, bounds, initializers)
        (type', constructor', bounds', initializers') ?_
      simp only [Expr.equal, Bool.and_eq_true, decide_eq_true_eq, matches_pair, matches_plain,
        and_assoc, equalExprs_iff bounds, equalArguments_iff initializers]
    | _ => exact iff_of_shape_ne nofun
  | .element array indices, b => by
    cases b with
    | element array' indices' =>
      refine builds_element.iff_matches (array, indices) (array', indices') ?_
      simp only [Expr.equal, Bool.and_eq_true, matches_pair, array.equal_iff,
        equalExprs_iff indices]
    | _ => exact iff_of_shape_ne nofun
  | .wrapped wrapper inner, b => by
    cases b with
    | wrapped wrapper' inner' =>
      refine builds_wrapped.iff_matches (wrapper, inner) (wrapper', inner') ?_
      simp only [Expr.equal, Bool.and_eq_true, decide_eq_true_eq, matches_pair, matches_plain,
        inner.equal_iff]
    | _ => exact iff_of_shape_ne nofun
  | .conditional condition consequence alternative, b => by
    cases b with
    | conditional condition' consequence' alternative' =>
      refine builds_conditional.iff_matches (condition, consequence, alternative)
        (condition', consequence', alternative') ?_
      simp only [Expr.equal, Bool.and_eq_true, matches_pair, and_assoc, condition.equal_iff,
        consequence.equal_iff, equalExpr?_iff alternative]
    | _ => exact iff_of_shape_ne nofun
  | .cast value type throwing safe, b => by
    cases b with
    | cast value' type' throwing' safe' =>
      refine builds_cast.iff_matches (value, type, throwing, safe)
        (value', type', throwing', safe') ?_
      simp only [Expr.equal, Bool.and_eq_true, decide_eq_true_eq, matches_pair, matches_plain,
        and_assoc, Prod.mk.injEq, value.equal_iff]
    | _ => exact iff_of_shape_ne nofun
  | .assigned value inverted, b => by
    cases b with
    | assigned value' inverted' =>
      refine builds_assigned.iff_matches (value, inverted) (value', inverted') ?_
      simp only [Expr.equal, Bool.and_eq_true, decide_eq_true_eq, matches_pair, matches_plain,
        value.equal_iff]
    | _ => exact iff_of_shape_ne nofun
  | .method lambda parameters returns body locals, b => by
    cases b with
    | method lambda' parameters' returns' body' locals' =>
      refine builds_method.iff_matches (lambda, parameters, locals, returns, body)
        (lambda', parameters', locals', returns', body') ?_
      simp only [Expr.equal, Bool.and_eq_true, decide_eq_true_eq, matches_pair, matches_plain,
        and_assoc, equalParameters_iff parameters, equalLocals?_iff locals, equalStatements_iff body]
      -- The locals are compared last but stand before the body.
      constructor
      · rintro ⟨hlambda, hparameters, hreturns, hbody, hlocals⟩
        exact ⟨hlambda, hparameters, hlocals, hreturns, hbody⟩
      · rintro ⟨hlambda, hparameters, hlocals, hreturns, hbody⟩
        exact ⟨hlambda, hparameters, hreturns, hbody, hlocals⟩
    | _ => exact iff_of_shape_ne nofun
  | .anonymousType kind members, b => by
    cases b with
    | anonymousType kind' members' =>
      refine builds_anonymousType.iff_matches (kind, members) (kind', members') ?_
      simp only [Expr.equal, Bool.and_eq_true, decide_eq_true_eq, matches_pair, matches_plain,
        equalMembers_iff members]
    | _ => exact iff_of_shape_ne nofun
termination_by structural x => x

theorem equalExpr?_iff : ∀ part part' : Option Expr,
    equalExpr? part part' = true ↔ Matches part part'
  | none, none => iff_of_true rfl ⟨rfl, .nil⟩
  | none, some _ => iff_of_shape_ne nofun
  | some _, none => iff_of_shape_ne nofun
  | some e, some e' => builds_some.iff_matches e e' (e.equal_iff e')
termination_by structural x => x

theorem equalExprs_iff : ∀ xs ys : List Expr, equalExprs xs ys = true ↔ Matches xs ys
  | [], [] => iff_of_true rfl ⟨rfl, .nil⟩
  | [], _ :: _ => iff_of_shape_ne nofun
  | _ :: _, [] => iff_of_shape_ne nofun
  | x :: xs, y :: ys => by
    refine builds_exprs.iff_matches (x, xs) (y, ys) ?_
    simp only [equalExprs, Bool.and_eq_true, matches_pair, x.equal_iff, equalExprs_iff xs]
termination_by structural x => x

theorem equalEntries_iff : ∀ xs ys : List (Expr × Expr), equalEntries xs ys = true ↔ Matches xs ys
  | [], [] => iff_of_true rfl ⟨rfl, .nil⟩
  | [], (_, _) :: _ => iff_of_shape_ne nofun
  | (_, _) :: _, [] => iff_of_shape_ne nofun
  | (key, value) :: xs, (key', value') :: ys => by
    refine builds_entries.iff_matches ((key, value), xs) ((key', value'), ys) ?_
    simp only [equalEntries, Bool.and_eq_true, matches_pair, key.equal_iff, value.equal_iff,
      equalEntries_iff xs]
termination_by structural x => x

theorem equalArguments_iff : ∀ xs ys : List Argument, equalArguments xs ys = true ↔ Matches xs ys
  | [], [] => iff_of_true rfl ⟨rfl, .nil⟩
  | [], ⟨_, _, _⟩ :: _ => iff_of_shape_ne nofun
  | ⟨_, _, _⟩ :: _, [] => iff_of_shape_ne nofun
  | ⟨name, value, passing⟩ :: xs, ⟨name', value', passing'⟩ :: ys => by
    refine builds_arguments.iff_matches (name, value, passing, xs)
      (name', value', passing', ys) ?_
    simp only [equalArguments, Bool.and_eq_true, decide_eq_true_eq, matches_pair, matches_plain,
      and_assoc, value.equal_iff, equalArguments_iff xs]
termination_by structural x => x

theorem equalParameters_iff : ∀ xs ys : List Parameter, equalParameters xs ys = true ↔ Matches xs ys
  | [], [] => iff_of_true rfl ⟨rfl, .nil⟩
  | [], ⟨_, _, _, _⟩ :: _ => iff_of_shape_ne nofun
  | ⟨_, _, _, _⟩ :: _, [] => iff_of_shape_ne nofun
  | ⟨name, type, passing, value⟩ :: xs, ⟨name', type', passing', value'⟩ :: ys => by
    refine builds_parameters.iff_matches (name, type, passing, value, xs)
      (name', type', passing', value', ys) ?_
    simp only [equalParameters, Bool.and_eq_true, decide_eq_true_eq, matches_pair, matches_plain,
      and_assoc, equalExpr?_iff value, equalParameters_iff xs]
termination_by structural x => x

theorem Declaration.equal_iff : ∀ d d' : Declaration, d.equal d' = true ↔ Matches d d'
  | ⟨name, type, value, constant⟩, ⟨name', type', value', constant'⟩ => by
    refine builds_declared.iff_matches (name, type, value, constant)
      (name', type', value', constant') ?_
    simp only [Declaration.equal, Bool.and_eq_true, decide_eq_true_eq, matches_pair, matches_plain,
      and_assoc, equalExpr?_iff value]
termination_by structural x => x

theorem equalLocals_iff : ∀ xs ys : List Declaration, equalLocals xs ys = true ↔ Matches xs ys
  | [], [] => iff_of_true rfl ⟨rfl, .nil⟩
  | [], _ :: _ => iff_of_shape_ne nofun
  | _ :: _, [] => iff_of_shape_ne nofun
  | x :: xs, y :: ys => by
    refine builds_locals.iff_matches (x, xs) (y, ys) ?_
    simp only [equalLocals, Bool.and_eq_true, matches_pair, x.equal_iff, equalLocals_iff xs]
termination_by structural x => x

theorem equalLocals?_iff : ∀ part part' : Option (List Declaration),
    equalLocals? part part' = true ↔ Matches part part'
  | none, none => iff_of_true rfl ⟨rfl, .nil⟩
  | none, some _ => iff_of_shape_ne nofun
  | some _, none => iff_of_shape_ne nofun
  | some xs, some ys => builds_someLocals.iff_matches xs ys (equalLocals_iff xs ys)
termination_by structural x => x

theorem Member.equal_iff : ∀ m m' : Member, m.equal m' = true ↔ Matches m m'
  | .field d, .field d' => builds_fieldMember.iff_matches d d' (d.equal_iff d')
  | .field _, .method _ _ _ _ => iff_of_shape_ne nofun
  | .method _ _ _ _, .field _ => iff_of_shape_ne nofun
  | .method name parameters returns body, .method name' parameters' returns' body' => by
    refine builds_methodMember.iff_matches (name, parameters, returns, body)
      (name', parameters', returns', body') ?_
    simp only [Member.equal, Bool.and_eq_true, decide_eq_true_eq, matches_pair, matches_plain,
      and_assoc, equalParameters_iff parameters, equalStatements_iff body]
termination_by structural x => x

theorem equalMembers_iff : ∀ xs ys : List Member, equalMembers xs ys = true ↔ Matches xs ys
  | [], [] => iff_of_true rfl ⟨rfl, .nil⟩
  | [], _ :: _ => iff_of_shape_ne nofun
  | _ :: _, [] => iff_of_shape_ne nofun
  | x :: xs, y :: ys => by
    refine builds_members.iff_matches (x, xs) (y, ys) ?_
    simp only [equalMembers, Bool.and_eq_true, matches_pair, x.equal_iff, equalMembers_iff xs]
termination_by structural x => x

theorem Statement.equal_iff : ∀ s t : Statement, s.equal t = true ↔ Matches s t
  | .expression value, t => by
    cases t with
    | expression value' => exact builds_expression.iff_matches value value' (value.equal_iff value')
    | _ => exact iff_of_shape_ne nofun
  | .declaration d, t => by
    cases t with
    | declaration d' => exact builds_declaration.iff_matches d d' (d.equal_iff d')
    | _ => exact iff_of_shape_ne nofun
  | .assignment target value, t => by
    cases t with
    | assignment target' value' =>
      refine builds_assignment.iff_matches (target, value) (target', value') ?_
      simp only [Statement.equal, Bool.and_eq_true, matches_pair, target.equal_iff, value.equal_iff]
    | _ => exact iff_of_shape_ne nofun
  | .result value, t => by
    cases t with
    | result value' =>
      exact builds_result.iff_matches value value' (equalExpr?_iff value value')
    | _ => exact iff_of_shape_ne nofun
  | .block body, t => by
    cases t with
    | block body' =>
      exact builds_block.iff_matches body body' (equalStatements_iff body body')
    | _ => exact iff_of_shape_ne nofun
termination_by structural x => x

theorem equalStatements_iff : ∀ xs ys : List Statement, equalStatements xs ys = true ↔ Matches xs ys
  | [], [] => iff_of_true rfl ⟨rfl, .nil⟩
  | [], _ :: _ => iff_of_shape_ne nofun
  | _ :: _, [] => iff_of_shape_ne nofun
  | x :: xs, y :: ys => by
    refine builds_statements.iff_matches (x, xs) (y, ys) ?_
    simp only [equalStatements, Bool.and_eq_true, matches_pair, x.equal_iff, equalStatements_iff xs]
termination_by structural x => x

end

/-! ## Owned copies -/

theorem structurallyEqual_owned_iff {a b : Expr} :
    a.owned.StructurallyEqual b.owned ↔ Matches a b := by
  have hfloats (e : Expr) : e.owned.floats = e.floats := (Node.expression e).floats_owned
  rw [Expr.StructurallyEqual, hfloats, hfloats]
  exact Iff.rfl

/-- Two trees are equal exactly if their owned copies are equal as structures, whichever of their nodes
are shared. -/
theorem equal_iff_owned_structurallyEqual (a b : Expr) :
    a.equal b = true ↔ a.owned.StructurallyEqual b.owned :=
  (a.equal_iff b).trans structurallyEqual_owned_iff.symm

end CodeTree
