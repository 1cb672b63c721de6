import CodeTree.Proofs.Variants.Sharing
import CodeTree.Tree.Equality
import Mathlib.Data.List.Forall2

/-! # Trees and their numbers

A tree is taken apart into the numbers in its floating point literals and the rest. Two trees are equal
as structures if the rest is the same and the numbers are equal one by one, as numbers and not as
patterns.

* `Node.floats`: the numbers of a tree, in order.
* `Expr.withoutFloats`: the rest.
* `Expr.StructurallyEqual`: the plain comparison of two trees. -/

namespace CodeTree

set_option autoImplicit false

/-! ## The numbers of a tree -/

def Literal.float? : Literal → Option Binary64
  | float x => some x
  | _ => none

def Atom.float? (a : Atom) : Option Binary64 := a.literal?.bind Literal.float?

namespace Node

/-- The number at a node, if it is a floating point literal. -/
def float? : Node → Option Binary64
  | expression e => e.atom?.bind Atom.float?
  | _ => none

/-- The numbers in the floating point literals of a tree, in order. -/
def floats (node : Node) : List Binary64 := node.nodes.filterMap float?

theorem floats_eq (node : Node) :
    node.floats = node.seen.float?.toList ++ node.children.flatMap floats := by
  rw [floats, nodes_eq, List.filterMap_cons, List.filterMap_flatMap]
  cases node.seen.float? <;> rfl

theorem floats_of_atom {e : Expr} {a : Atom} (h : e.node = .atom a) :
    (expression e).floats = a.float?.toList := by
  have hraw (code : RawCode) : (raw code).floats = [] := by
    rw [floats_eq]
    rfl
  have hparts : (expression e).children.flatMap floats = [] := by
    cases e with
    | shared | atom =>
      refine List.flatMap_eq_nil_iff.2 fun child hchild => ?_
      simp only [children, Expr.operands, Expr.body, Expr.members, List.map_nil, List.nil_append,
        List.mem_map] at hchild
      obtain ⟨code, -, rfl⟩ := hchild
      exact hraw code
    | _ => cases h
  rw [floats_eq, hparts, List.append_nil, seen, h]
  rfl

end Node

/-- The numbers in the floating point literals of an expression, in order. -/
def Expr.floats (e : Expr) : List Binary64 := (Node.expression e).floats

/-! ## The rest of a tree -/

/-- The same atom with nothing but a zero for a floating point number. -/
def Atom.withoutFloat : Atom → Atom
  | literal (.float _) => literal (.float Binary64.zero)
  | a => a

def Revision.erasing : Revision where
  atom := Atom.withoutFloat

/-- The same tree with a zero for each floating point number. -/
def Expr.withoutFloats (e : Expr) : Expr := e.revise .erasing

/-- Two trees are the same but for their floating point numbers, and these are equal as numbers. -/
def Expr.StructurallyEqual (a b : Expr) : Prop :=
  a.withoutFloats = b.withoutFloats ∧
    List.Forall₂ (fun x y => x.equal y = true) a.floats b.floats

theorem keepsParts_erasing : KeepsParts .erasing where
  shared s := by cases s <;> rfl
  raw a := by
    cases a with
    | literal l => cases l <;> rfl
    | _ => rfl
  allocation := rfl

namespace Node

theorem nodes_revise {r : Revision} (h : KeepsParts r) (node : Node) :
    (node.revise r).nodes = node.nodes.map (revise r) :=
  listing_revise h (fun _ => false) node

/-- Owned copies of shared nodes hold the same numbers. -/
theorem floats_owned (node : Node) : node.owned.floats = node.floats := by
  have hfloat (node : Node) : (node.revise .owning).float? = node.float? := by
    cases node with
    | expression e => cases e <;> rfl
    | statement | member | raw => rfl
  rw [owned, floats, nodes_revise keepsParts_owning, List.filterMap_map, floats]
  exact congrArg (List.filterMap · node.nodes) (funext hfloat)

/-- A number stays a number when it is erased. -/
theorem length_floats_erasing (node : Node) :
    (node.revise .erasing).floats.length = node.floats.length := by
  have hatom (a : Atom) : a.withoutFloat.float?.isSome = a.float?.isSome := by
    cases a with
    | literal l => cases l <;> rfl
    | _ => rfl
  have hfloat (node : Node) : (node.revise .erasing).float?.isSome = node.float?.isSome := by
    cases node with
    | expression e =>
      cases e with
      | atom a => exact hatom a
      | _ => rfl
    | statement | member | raw => rfl
  rw [floats, nodes_revise keepsParts_erasing, List.filterMap_map, List.length_filterMap_eq_countP,
    floats, List.length_filterMap_eq_countP]
  exact congrArg (List.countP · node.nodes) (funext hfloat)

/-- A tree without sharing and without numbers. -/
def shape (node : Node) : Node := node.owned.revise .erasing

theorem length_floats_shape (node : Node) : node.shape.floats.length = node.floats.length := by
  rw [shape, length_floats_erasing, floats_owned]

end Node

/-! ## The numbers of the parts -/

/-- What is not an atom has the numbers of its parts. -/
theorem Expr.floats_eq {e : Expr} (h : e.atom? = none) :
    e.floats = e.operands.flatMap floats ++ (e.body.flatMap fun s => (Node.statement s).floats) ++
      e.members.flatMap fun m => (Node.member m).floats := by
  have hseen : (Node.expression e).seen.float? = none := by
    cases e with
    | shared | atom => cases h
    | _ => rfl
  have hraw : e.raw? = none := by
    rw [raw?, h]
    rfl
  rw [floats, Node.floats_eq, hseen, Node.children, hraw]
  simp only [List.flatMap_append, List.flatMap_map, Option.toList_none, List.map_nil,
    List.append_nil, List.nil_append]
  rfl

theorem Statement.floats_eq (s : Statement) :
    (Node.statement s).floats =
      s.operands.flatMap Expr.floats ++ s.body.flatMap fun t => (Node.statement t).floats := by
  rw [Node.floats_eq, Node.children, List.flatMap_append, List.flatMap_map, List.flatMap_map]
  rfl

theorem Member.floats_eq (m : Member) :
    (Node.member m).floats =
      m.operands.flatMap Expr.floats ++ m.body.flatMap fun s => (Node.statement s).floats := by
  rw [Node.floats_eq, Node.children, List.flatMap_append, List.flatMap_map, List.flatMap_map]
  rfl

end CodeTree
