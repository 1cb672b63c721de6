import CodeTree.Proofs.Equality.Structure

/-! # The laws of equality

Equality of trees is symmetric and transitive, however their nodes are shared. It is not reflexive: a tree
with a NaN in it does not equal itself, and that is the only exception.

* `Binary64.equal_trans`: the third law of numbers.
* `Matches.symm`, `Matches.trans`, `matches_self_iff`: the laws of matching.
* `equal_laws`: the laws of comparing expressions and lists of statements. -/

namespace CodeTree

set_option autoImplicit false

open Comparable

theorem Binary64.equal_trans {x y z : Binary64} (h : x.equal y = true) (h' : y.equal z = true) :
    x.equal z = true := by
  unfold Binary64.equal at *
  simp only [Bool.and_eq_true, Bool.or_eq_true, decide_eq_true_eq] at *
  obtain ⟨⟨hx, -⟩, hxy⟩ := h
  obtain ⟨⟨-, hz⟩, hyz⟩ := h'
  refine ⟨⟨hx, hz⟩, ?_⟩
  rcases hxy with rfl | ⟨hzero, hzero'⟩
  · exact hyz
  · rcases hyz with rfl | ⟨-, hzero''⟩
    · exact .inr ⟨hzero, hzero'⟩
    · exact .inr ⟨hzero, hzero''⟩

/-! ## Matching -/

section Matches

variable {α : Type} [Comparable α]

theorem Matches.symm {x y : α} (h : Matches x y) : Matches y x := by
  refine ⟨h.1.symm, List.Forall₂.flip ?_⟩
  refine h.2.imp fun n m hequal => ?_
  rw [flip, Binary64.equal_comm]
  exact hequal

theorem forall₂_equal_trans {xs ys zs : List Binary64}
    (h : List.Forall₂ (fun x y => x.equal y = true) xs ys)
    (h' : List.Forall₂ (fun x y => x.equal y = true) ys zs) :
    List.Forall₂ (fun x y => x.equal y = true) xs zs := by
  induction h generalizing zs with
  | nil => exact h'
  | cons hxy _ ih =>
    cases h' with
    | cons hyz hrest => exact .cons (Binary64.equal_trans hxy hyz) (ih hrest)

theorem Matches.trans {x y z : α} (h : Matches x y) (h' : Matches y z) : Matches x z :=
  ⟨h.1.trans h'.1, forall₂_equal_trans h.2 h'.2⟩

theorem matches_self_iff {x : α} : Matches x x ↔ ∀ n ∈ numbers x, n.isNaN = false := by
  have hself : Matches x x ↔ ∀ n ∈ numbers x, n.equal n = true :=
    (and_iff_right rfl).trans List.forall₂_same
  rw [hself]
  refine forall₂_congr fun n _ => ?_
  rw [n.equal_self, Bool.not_eq_true']

/-- A comparison that comes to matching has the laws of matching. -/
theorem laws_of_iff_matches {equal : α → α → Bool} (h : ∀ x y, equal x y = true ↔ Matches x y) :
    (∀ x y, equal x y = equal y x) ∧
    (∀ x y z, equal x y = true → equal y z = true → equal x z = true) ∧
    ∀ x, equal x x = true ↔ ∀ n ∈ numbers x, n.isNaN = false := by
  refine ⟨fun x y => ?_, fun x y z hxy hyz => ?_, fun x => (h x x).trans matches_self_iff⟩
  · rw [Bool.eq_iff_iff, h, h]
    exact ⟨Matches.symm, Matches.symm⟩
  · rw [h] at *
    exact hxy.trans hyz

end Matches

/-! ## Expressions and statements -/

/-- Equality is symmetric and transitive, of expressions and of lists of statements, and one that equals
itself is one without a NaN among its floating point literals. -/
theorem equal_laws :
    ((∀ a b : Expr, a.equal b = b.equal a) ∧
      (∀ a b c : Expr, a.equal b = true → b.equal c = true → a.equal c = true) ∧
      ∀ a : Expr, a.equal a = true ↔ ∀ x ∈ a.floats, x.isNaN = false) ∧
    (∀ body body' : List Statement, equalStatements body body' = equalStatements body' body) ∧
    (∀ body body' body'' : List Statement, equalStatements body body' = true →
      equalStatements body' body'' = true → equalStatements body body'' = true) ∧
    ∀ body : List Statement, equalStatements body body = true ↔
      ∀ s ∈ body, ∀ x ∈ (Node.statement s).floats, x.isNaN = false := by
  obtain ⟨hsymm, htrans, hself⟩ := laws_of_iff_matches equalStatements_iff
  refine ⟨laws_of_iff_matches Expr.equal_iff, hsymm, htrans, fun body => ?_⟩
  have hnumbers : numbers body = body.flatMap fun s => (Node.statement s).floats := rfl
  rw [hself, hnumbers]
  simp only [List.mem_flatMap]
  exact ⟨fun h s hs x hx => h x ⟨s, hs, hx⟩, fun h x ⟨s, hs, hx⟩ => h s hs x hx⟩

/-- A shared zero equals a negative one and this an owned one, in expressions and in statements. -/
theorem equal_laws_of_zeros :
    Expr.equal (.tuple [.shared .floatZero, .shared .nil])
        (.tuple [.atom (.literal (.float ⟨0x8000000000000000⟩)), .shared .nil]) = true ∧
      Expr.equal (.tuple [.atom (.literal (.float ⟨0x8000000000000000⟩)), .shared .nil])
        (.tuple [.atom (.literal (.float Binary64.zero)), .atom .nil]) = true ∧
      Expr.equal (.tuple [.shared .floatZero, .shared .nil])
        (.tuple [.atom (.literal (.float Binary64.zero)), .atom .nil]) = true ∧
      equalStatements [.result (some (.shared .floatZero))]
        [.result (some (.atom (.literal (.float ⟨0x8000000000000000⟩))))] = true ∧
      equalStatements [.result (some (.atom (.literal (.float ⟨0x8000000000000000⟩))))]
        [.result (some (.atom (.literal (.float Binary64.zero))))] = true ∧
      equalStatements [.result (some (.shared .floatZero))]
        [.result (some (.atom (.literal (.float Binary64.zero))))] = true :=
  ⟨rfl, rfl,
    equal_laws.1.2.1 _ (.tuple [.atom (.literal (.float ⟨0x8000000000000000⟩)), .shared .nil]) _
      rfl rfl,
    rfl, rfl,
    equal_laws.2.2.1 _ [.result (some (.atom (.literal (.float ⟨0x8000000000000000⟩))))] _ rfl rfl⟩

end CodeTree
