import CodeTree.Proofs.Variants.Parts
import CodeTree.Proofs.Variants.Revised
import CodeTree.Proofs.Walking.Recorded

/-! # Shared and owned nodes

A tree that refers to shared nodes and one that owns copies of them are told apart by nobody who looks
at nodes: not by the emitter, not by a traversal, not by what is computed with one.

* `Expr.owned`: the tree that owns all of its nodes. Two trees that differ in sharing have the same one.
* `faithful_owning`, `keepsParts_owning`: owning changes nothing but the sharing.
* `sharing_is_invisible`: trees that differ in sharing. -/

namespace CodeTree

set_option autoImplicit false

/-- Puts a copy of its own in the place of each shared node. -/
def Revision.owning : Revision where
  shared s := .atom s.atom

/-- The tree that owns all of its nodes. -/
def Expr.owned (e : Expr) : Expr := e.revise .owning

def Node.owned (node : Node) : Node := node.revise .owning

theorem keepsParts_owning : KeepsParts .owning where
  shared _ := rfl
  raw _ := rfl
  allocation := rfl

theorem Lua.faithful_owning (g : Lua.Setting) : Lua.Faithful .owning g g.names where
  shared _ := rfl
  atom _ := .refl _
  isType _ := rfl
  isRaw _ := rfl
  name _ := rfl
  member _ _ := rfl
  nilSafe _ := rfl
  optional _ := rfl
  argument _ _ := .refl _
  initializer _ := rfl
  created _ := rfl
  constructor _ := rfl
  constant _ := rfl

/-! ## What is computed with a tree -/

section Owned

/-- A traversal that takes a node and its owned copy alike does not tell a tree from its owned copy. -/
theorem walk_owned {m : Type → Type} [Monad m] [LawfulMonad m] {enter : Node → m Bool}
    (h : ∀ node, enter node.owned = enter node) (e : Expr) : e.owned.walk enter = e.walk enter := by
  have hwalk : e.owned.walk enter = e.walk fun node => enter node.owned :=
    walk_revise keepsParts_owning enter (.expression e)
  rw [hwalk, funext h]

theorem nodeCount_owned (e : Expr) : e.owned.nodeCount = e.nodeCount := by
  have hcount (node : Node) : countExpressions node.owned = countExpressions node := by
    cases node <;> rfl
  rw [Expr.nodeCount, walk_owned hcount, Expr.nodeCount]

theorem ensurePortable_owned (e : Expr) : e.owned.ensurePortable = e.ensurePortable := by
  have hrefuse (node : Node) : refuseRaw node.owned = refuseRaw node := by
    cases node <;> rfl
  exact walk_owned hrefuse e

/-- A recorder notes the owned copies of what it notes in the tree itself. -/
theorem record_owned {r : Recorder} (h : ∀ node, r.prunes node.owned = r.prunes node) (e : Expr) :
    r.record ⟨some e.owned, [], []⟩ =
      ⟨(r.record ⟨some e, [], []⟩).noted.map Node.owned, (r.record ⟨some e, [], []⟩).outcome⟩ := by
  have hlisting : (Node.expression e.owned).listing r.prunes =
      ((Node.expression e).listing r.prunes).map Node.owned := by
    have hprunes : (fun node => r.prunes (node.revise .owning)) = r.prunes := funext h
    have hrevised := listing_revise keepsParts_owning r.prunes (.expression e)
    rwa [hprunes] at hrevised
  rw [Recorder.record_eq, Recorder.record_eq]
  simp only [Roots.nodes, Option.toList_some, List.map_cons, List.map_nil, List.append_nil,
    List.flatMap_cons, List.flatMap_nil, hlisting, List.length_map, ← List.map_take]
  split <;> rfl

end Owned

/-! ## Trees that differ in sharing -/

/-- Sharing is invisible. Trees with one owned copy come to one text or to refusals of one kind, are of
one size and portable alike. A traversal that looks at nodes, not at whether they are shared, makes the
same run over both, and a recorder notes the same nodes. -/
theorem sharing_is_invisible (e e' : Expr) (h : e.owned = e'.owned) :
    (∀ (g : Lua.Setting) (d d' : Lua.Draft),
      ((Lua.Generator.mk g d).generateExpression e).1.mapError Lua.EmitError.kind =
        ((Lua.Generator.mk g d').generateExpression e').1.mapError Lua.EmitError.kind) ∧
    e.nodeCount = e'.nodeCount ∧
    e.ensurePortable = e'.ensurePortable ∧
    (∀ (m : Type → Type) [Monad m] [LawfulMonad m] (enter : Node → m Bool),
      (∀ node, enter node.owned = enter node) → e.walk enter = e'.walk enter) ∧
    ∀ r : Recorder, (∀ node, r.prunes node.owned = r.prunes node) →
      (r.record ⟨some e, [], []⟩).noted.map Node.owned =
          (r.record ⟨some e', [], []⟩).noted.map Node.owned ∧
        (r.record ⟨some e, [], []⟩).outcome = (r.record ⟨some e', [], []⟩).outcome := by
  refine ⟨fun g d d' => ?_, ?_, ?_, fun m _ _ enter henter => ?_, fun r hr => ?_⟩
  · have hfaithful := Lua.faithful_owning g
    calc ((Lua.Generator.mk g d).generateExpression e).1.mapError Lua.EmitError.kind
        = ((Lua.Generator.mk g d).generateExpression e.owned).1.mapError Lua.EmitError.kind :=
          Lua.generateExpression_revise hfaithful e d d
      _ = ((Lua.Generator.mk g d).generateExpression e'.owned).1.mapError Lua.EmitError.kind := by
          rw [h]
      _ = ((Lua.Generator.mk g d').generateExpression e').1.mapError Lua.EmitError.kind :=
          (Lua.generateExpression_revise hfaithful e' d' d).symm
  · rw [← nodeCount_owned e, h, nodeCount_owned]
  · rw [← ensurePortable_owned e, h, ensurePortable_owned]
  · rw [← walk_owned henter e, h, walk_owned henter]
  · have hrecord := record_owned hr e
    rw [h, record_owned hr e'] at hrecord
    injection hrecord with hnoted houtcome
    exact ⟨hnoted.symm, houtcome.symm⟩

/-- A method with a default value, a local and a call, each with a shared node in one place: it does not
matter which of them are shared. -/
theorem sharing_in_method :
    ((Lua.Generator.mk ⟨⟨["p", "x", "f"]⟩, {}⟩ Lua.Draft.empty).generateExpression
        (.method false [⟨⟨0⟩, none, .byValue, some .nil⟩] none
          [.result (some (.call (some .selfReference) (.named ⟨2⟩) [] false))]
          (some [⟨⟨1⟩, none, some (.literal (.integer 0)), false⟩]))).1.mapError Lua.EmitError.kind =
      ((Lua.Generator.mk ⟨⟨["p", "x", "f"]⟩, {}⟩ Lua.Draft.empty).generateExpression
        (.method false [⟨⟨0⟩, none, .byValue, some (.atom .nil)⟩] none
          [.result (some (.call (some (.atom .selfReference)) (.named ⟨2⟩) [] false))]
          (some [⟨⟨1⟩, none, some (.shared .integerZero), false⟩]))).1.mapError
            Lua.EmitError.kind ∧
    Expr.walk refuseRaw (.tuple [.nil, .literal (.boolean true)]) =
      Expr.walk refuseRaw (.tuple [.atom .nil, .boolean true]) ∧
    (Recorder.record ⟨Node.isExpression, 2⟩ ⟨some (.tuple [.nil]), [], []⟩).noted.map Node.owned =
      (Recorder.record ⟨Node.isExpression, 2⟩ ⟨some (.tuple [.atom .nil]), [], []⟩).noted.map
        Node.owned :=
  ⟨(sharing_is_invisible _ _ rfl).1 _ _ _,
    (sharing_is_invisible _ _ rfl).2.2.2.1 _ refuseRaw fun node => by cases node <;> rfl,
    ((sharing_is_invisible _ _ rfl).2.2.2.2 _ fun node => by cases node <;> rfl).1⟩

end CodeTree
