import Mathlib.Tactic.ByContra
import CodeTree.Proofs.Variants.Revision
import CodeTree.Tree.Equality

/-! # Trees with positive zeros

Of two equal trees one may share a node of which the other owns a copy, and one may have a positive zero
where the other has a negative one. With owned nodes and positive zeros everywhere they are the same tree.
The other way round fails only for trees with a NaN in them, which equal nothing. So two trees that are
the same in this sense are those that come from each other when nodes are replaced by equal ones.

* `Expr.unsigned`: the tree with owned nodes and positive zeros.
* `unsigned_eq_of_equal`: equal trees have the same one.
* `Atom.eq_or_floats_of_unsigned_eq`: atoms that have the same one. -/

namespace CodeTree

set_option autoImplicit false

namespace Binary64

/-- The same number with positive zero for negative zero. -/
def unsigned (x : Binary64) : Binary64 := if x.isZero then zero else x

/-- The pattern of negative zero. -/
def negativeZero : Binary64 := ⟨0x8000000000000000⟩

theorem eq_zero_or_negativeZero {x : Binary64} (h : x.isZero = true) : x = zero ∨ x = negativeZero := by
  obtain ⟨bits⟩ := x
  unfold isZero at h
  obtain ⟨hexponent, hfraction⟩ := of_decide_eq_true h
  simp only [exponentField, Binary64.fraction, Nat.pow_eq] at hexponent hfraction
  have hlt : bits.toNat < 2 ^ 64 := bits.toNat_lt
  have hbits : bits.toNat = 0 ∨ bits.toNat = 0x8000000000000000 := by omega
  rcases hbits with hbits | hbits
  · exact .inl (congrArg mk (UInt64.toNat_inj.1 hbits))
  · exact .inr (congrArg mk (UInt64.toNat_inj.1 hbits))

theorem unsigned_eq_of_equal {x y : Binary64} (h : x.equal y = true) : x.unsigned = y.unsigned := by
  simp only [equal, Bool.and_eq_true, Bool.or_eq_true, decide_eq_true_eq] at h
  obtain ⟨-, rfl | ⟨hx, hy⟩⟩ := h
  · rfl
  · simp [unsigned, hx, hy]

/-- Numbers that differ in the signs of zeros are the same, or they are the two zeros. -/
theorem eq_or_zeros_of_unsigned_eq {x y : Binary64} (h : x.unsigned = y.unsigned) :
    x = y ∨ x = zero ∧ y = negativeZero ∨ x = negativeZero ∧ y = zero := by
  have hzero : zero.isZero = true := by decide
  unfold unsigned at h
  split at h
  · rename_i hx
    have hy : y.isZero = true := by
      by_contra hy
      rw [if_neg hy] at h
      exact hy (h ▸ hzero)
    rcases eq_zero_or_negativeZero hx with rfl | rfl <;>
      rcases eq_zero_or_negativeZero hy with rfl | rfl <;> simp
  · rename_i hx
    split at h
    · exact absurd (h ▸ hzero) hx
    · exact .inl h

end Binary64

def Atom.unsigned : Atom → Atom
  | literal (.float x) => literal (.float x.unsigned)
  | a => a

/-- Puts an owned copy in the place of each shared node, and positive zero in the place of negative zero. -/
def Revision.unsigned : Revision where
  shared s := .atom s.atom.unsigned
  atom := Atom.unsigned

/-- The tree with owned nodes and positive zeros. -/
def Expr.unsigned (e : Expr) : Expr := e.revise .unsigned

/-! ## Atoms -/

/-- Atoms that differ in the signs of zeros are the same, or they are numbers. -/
theorem Atom.eq_or_floats_of_unsigned_eq {a b : Atom} (h : a.unsigned = b.unsigned) :
    a = b ∨ ∃ x y, a = literal (.float x) ∧ b = literal (.float y) ∧ x.unsigned = y.unsigned := by
  cases a with
  | literal l =>
    cases b with
    | literal l' =>
      cases l <;> cases l' <;> simp_all [unsigned]
    | _ => cases l <;> cases h
  | _ =>
    cases b with
    | literal l' => cases l' <;> cases h
    | _ => exact .inl h

theorem Atom.unsigned_eq_of_equal {a b : Atom} (h : a.equal b = true) : a.unsigned = b.unsigned := by
  cases a with
  | literal l =>
    cases b with
    | literal l' =>
      cases l with
      | float x =>
        cases l' with
        | float y => exact congrArg (literal ∘ .float) (Binary64.unsigned_eq_of_equal h)
        | _ => cases h
      | _ => cases l' <;> exact congrArg (Atom.unsigned ∘ literal) (of_decide_eq_true h)
    | _ => cases h
  | _ => exact congrArg Atom.unsigned (of_decide_eq_true h)

/-! ## Trees -/

mutual

theorem revise_eq_of_equal : ∀ {a b : Expr}, a.equal b = true → a.revise .unsigned = b.revise .unsigned
  | .shared s, b, h => by
    cases b with
    | shared t =>
      obtain rfl : s = t := of_decide_eq_true h
      rfl
    | atom b => exact congrArg Expr.atom (Atom.unsigned_eq_of_equal h)
    | _ => cases h
  | .atom a, b, h => by
    cases b with
    | shared | atom => exact congrArg Expr.atom (Atom.unsigned_eq_of_equal h)
    | _ => cases h
  | .array elements kind, b, h => by
    cases b with
    | array elements' kind' =>
      simp only [Expr.equal, Bool.and_eq_true, decide_eq_true_eq] at h
      obtain ⟨helements, rfl⟩ := h
      simp only [Expr.revise, reviseExprs_eq_of_equal helements]
    | _ => cases h
  | .dictionary entries, b, h => by
    cases b with
    | dictionary entries' => simp only [Expr.revise, reviseEntries_eq_of_equal h]
    | _ => cases h
  | .tuple elements, b, h => by
    cases b with
    | tuple elements' => simp only [Expr.revise, reviseExprs_eq_of_equal h]
    | _ => cases h
  | .unary operator operand, b, h => by
    cases b with
    | unary operator' operand' =>
      simp only [Expr.equal, Bool.and_eq_true, decide_eq_true_eq] at h
      obtain ⟨hoperand, rfl⟩ := h
      simp only [Expr.revise, revise_eq_of_equal hoperand]
    | _ => cases h
  | .binary operator left right, b, h => by
    cases b with
    | binary operator' left' right' =>
      simp only [Expr.equal, Bool.and_eq_true, decide_eq_true_eq] at h
      obtain ⟨⟨hleft, hright⟩, rfl⟩ := h
      simp only [Expr.revise, revise_eq_of_equal hleft, revise_eq_of_equal hright]
    | _ => cases h
  | .field site selection, b, h => by
    cases b with
    | field site' selection' =>
      simp only [Expr.equal, Bool.and_eq_true, decide_eq_true_eq] at h
      obtain ⟨hsite, rfl⟩ := h
      exact congrArg (Expr.field · selection) (reviseExpr?_eq_of_equal hsite)
    | _ => cases h
  | .call site selection arguments optional, b, h => by
    cases b with
    | call site' selection' arguments' optional' =>
      simp only [Expr.equal, Bool.and_eq_true, decide_eq_true_eq] at h
      obtain ⟨⟨⟨hsite, rfl⟩, harguments⟩, rfl⟩ := h
      exact congrArg₂ (Expr.call · selection · optional) (reviseExpr?_eq_of_equal hsite)
        (reviseArguments_eq_of_equal harguments)
    | _ => cases h
  | .property site selection indices, b, h => by
    cases b with
    | property site' selection' indices' =>
      simp only [Expr.equal, Bool.and_eq_true, decide_eq_true_eq] at h
      obtain ⟨⟨hsite, rfl⟩, hindices⟩ := h
      exact congrArg₂ (Expr.property · selection ·) (reviseExpr?_eq_of_equal hsite)
        (reviseArguments_eq_of_equal hindices)
    | _ => cases h
  | .construct type constructor arguments initializers, b, h => by
    cases b with
    | construct type' constructor' arguments' initializers' =>
      simp only [Expr.equal, Bool.and_eq_true, decide_eq_true_eq] at h
      obtain ⟨⟨⟨rfl, rfl⟩, harguments⟩, hinitializers⟩ := h
      exact congrArg₂ (Expr.construct type constructor) (reviseArguments_eq_of_equal harguments)
        (reviseArguments_eq_of_equal hinitializers)
    | _ => cases h
  | .allocate type constructor bounds initializers, b, h => by
    cases b with
    | allocate type' constructor' bounds' initializers' =>
      simp only [Expr.equal, Bool.and_eq_true, decide_eq_true_eq] at h
      obtain ⟨⟨⟨rfl, rfl⟩, hbounds⟩, hinitializers⟩ := h
      exact congrArg₂ (Expr.allocate type constructor) (reviseExprs_eq_of_equal hbounds)
        (reviseArguments_eq_of_equal hinitializers)
    | _ => cases h
  | .element array indices, b, h => by
    cases b with
    | element array' indices' =>
      rw [Expr.equal, Bool.and_eq_true] at h
      simp only [Expr.revise, revise_eq_of_equal h.1, reviseExprs_eq_of_equal h.2]
    | _ => cases h
  | .wrapped wrapper inner, b, h => by
    cases b with
    | wrapped wrapper' inner' =>
      simp only [Expr.equal, Bool.and_eq_true, decide_eq_true_eq] at h
      obtain ⟨rfl, hinner⟩ := h
      simp only [Expr.revise, revise_eq_of_equal hinner]
    | _ => cases h
  | .conditional condition consequence alternative, b, h => by
    cases b with
    | conditional condition' consequence' alternative' =>
      simp only [Expr.equal, Bool.and_eq_true] at h
      obtain ⟨⟨hcondition, hconsequence⟩, halternative⟩ := h
      simp only [Expr.revise, revise_eq_of_equal hcondition, revise_eq_of_equal hconsequence,
        reviseExpr?_eq_of_equal halternative]
    | _ => cases h
  | .cast value type throwing safe, b, h => by
    cases b with
    | cast value' type' throwing' safe' =>
      simp only [Expr.equal, Bool.and_eq_true, decide_eq_true_eq] at h
      obtain ⟨⟨⟨hvalue, rfl⟩, rfl⟩, rfl⟩ := h
      simp only [Expr.revise, revise_eq_of_equal hvalue]
    | _ => cases h
  | .assigned value inverted, b, h => by
    cases b with
    | assigned value' inverted' =>
      simp only [Expr.equal, Bool.and_eq_true, decide_eq_true_eq] at h
      obtain ⟨hvalue, rfl⟩ := h
      simp only [Expr.revise, revise_eq_of_equal hvalue]
    | _ => cases h
  | .method lambda parameters returns body locals, b, h => by
    cases b with
    | method lambda' parameters' returns' body' locals' =>
      simp only [Expr.equal, Bool.and_eq_true, decide_eq_true_eq] at h
      obtain ⟨⟨⟨⟨rfl, hparameters⟩, rfl⟩, hbody⟩, hlocals⟩ := h
      simp only [Expr.revise, reviseParameters_eq_of_equal hparameters,
        reviseStatements_eq_of_equal hbody, reviseLocals?_eq_of_equal hlocals]
    | _ => cases h
  | .anonymousType kind members, b, h => by
    cases b with
    | anonymousType kind' members' =>
      simp only [Expr.equal, Bool.and_eq_true, decide_eq_true_eq] at h
      obtain ⟨rfl, hmembers⟩ := h
      simp only [Expr.revise, reviseMembers_eq_of_equal hmembers]
    | _ => cases h
termination_by structural x => x

theorem reviseExpr?_eq_of_equal : ∀ {e e' : Option Expr}, equalExpr? e e' = true →
    reviseExpr? .unsigned e = reviseExpr? .unsigned e'
  | none, none, _ => rfl
  | some _, some _, h => congrArg some (revise_eq_of_equal h)
termination_by structural x => x

theorem reviseExprs_eq_of_equal : ∀ {es es' : List Expr}, equalExprs es es' = true →
    reviseExprs .unsigned es = reviseExprs .unsigned es'
  | [], [], _ => rfl
  | e :: es, e' :: es', h => by
    rw [equalExprs, Bool.and_eq_true] at h
    simp only [reviseExprs, revise_eq_of_equal h.1, reviseExprs_eq_of_equal h.2]
termination_by structural x => x

theorem reviseEntries_eq_of_equal : ∀ {es es' : List (Expr × Expr)}, equalEntries es es' = true →
    reviseEntries .unsigned es = reviseEntries .unsigned es'
  | [], [], _ => rfl
  | (key, value) :: es, (key', value') :: es', h => by
    simp only [equalEntries, Bool.and_eq_true] at h
    simp only [reviseEntries, revise_eq_of_equal h.1.1, revise_eq_of_equal h.1.2,
      reviseEntries_eq_of_equal h.2]
termination_by structural x => x

theorem reviseArguments_eq_of_equal : ∀ {as as' : List Argument}, equalArguments as as' = true →
    reviseArguments .unsigned id as = reviseArguments .unsigned id as'
  | [], [], _ => rfl
  | ⟨name, value, passing⟩ :: as, ⟨name', value', passing'⟩ :: as', h => by
    simp only [equalArguments, Bool.and_eq_true, decide_eq_true_eq] at h
    obtain ⟨⟨⟨rfl, hvalue⟩, rfl⟩, has⟩ := h
    simp only [reviseArguments, revise_eq_of_equal hvalue, reviseArguments_eq_of_equal has]
termination_by structural x => x

theorem reviseParameters_eq_of_equal : ∀ {ps ps' : List Parameter}, equalParameters ps ps' = true →
    reviseParameters .unsigned ps = reviseParameters .unsigned ps'
  | [], [], _ => rfl
  | ⟨name, type, passing, value⟩ :: ps, ⟨name', type', passing', value'⟩ :: ps', h => by
    simp only [equalParameters, Bool.and_eq_true, decide_eq_true_eq] at h
    obtain ⟨⟨⟨⟨rfl, rfl⟩, rfl⟩, hvalue⟩, hps⟩ := h
    simp only [reviseParameters, reviseExpr?_eq_of_equal hvalue, reviseParameters_eq_of_equal hps]
termination_by structural x => x

theorem Declaration.revise_eq_of_equal : ∀ {d d' : Declaration}, d.equal d' = true →
    d.revise .unsigned = d'.revise .unsigned
  | ⟨name, type, value, constant⟩, ⟨name', type', value', constant'⟩, h => by
    simp only [Declaration.equal, Bool.and_eq_true, decide_eq_true_eq] at h
    obtain ⟨⟨⟨rfl, rfl⟩, hvalue⟩, rfl⟩ := h
    simp only [Declaration.revise, reviseExpr?_eq_of_equal hvalue]
termination_by structural x => x

theorem reviseLocals_eq_of_equal : ∀ {ds ds' : List Declaration}, equalLocals ds ds' = true →
    reviseLocals .unsigned ds = reviseLocals .unsigned ds'
  | [], [], _ => rfl
  | d :: ds, d' :: ds', h => by
    rw [equalLocals, Bool.and_eq_true] at h
    simp only [reviseLocals, d.revise_eq_of_equal h.1, reviseLocals_eq_of_equal h.2]
termination_by structural x => x

theorem reviseLocals?_eq_of_equal : ∀ {ds ds' : Option (List Declaration)},
    equalLocals? ds ds' = true → reviseLocals? .unsigned ds = reviseLocals? .unsigned ds'
  | none, none, _ => rfl
  | some _, some _, h => congrArg some (reviseLocals_eq_of_equal h)
termination_by structural x => x

theorem Member.revise_eq_of_equal : ∀ {m m' : Member}, m.equal m' = true →
    m.revise .unsigned = m'.revise .unsigned
  | .field _, .field _, h => congrArg Member.field (Declaration.revise_eq_of_equal h)
  | .method name parameters returns body, .method name' parameters' returns' body', h => by
    simp only [Member.equal, Bool.and_eq_true, decide_eq_true_eq] at h
    obtain ⟨⟨⟨rfl, hparameters⟩, rfl⟩, hbody⟩ := h
    simp only [Member.revise, reviseParameters_eq_of_equal hparameters,
      reviseStatements_eq_of_equal hbody]
termination_by structural x => x

theorem reviseMembers_eq_of_equal : ∀ {ms ms' : List Member}, equalMembers ms ms' = true →
    reviseMembers .unsigned ms = reviseMembers .unsigned ms'
  | [], [], _ => rfl
  | m :: ms, m' :: ms', h => by
    rw [equalMembers, Bool.and_eq_true] at h
    simp only [reviseMembers, m.revise_eq_of_equal h.1, reviseMembers_eq_of_equal h.2]
termination_by structural x => x

theorem Statement.revise_eq_of_equal : ∀ {s t : Statement}, s.equal t = true →
    s.revise .unsigned = t.revise .unsigned
  | .expression value, t, h => by
    cases t with
    | expression value' => simp only [Statement.revise, CodeTree.revise_eq_of_equal h]
    | _ => cases h
  | .declaration d, t, h => by
    cases t with
    | declaration d' => simp only [Statement.revise, d.revise_eq_of_equal h]
    | _ => cases h
  | .assignment target value, t, h => by
    cases t with
    | assignment target' value' =>
      rw [Statement.equal, Bool.and_eq_true] at h
      simp only [Statement.revise, CodeTree.revise_eq_of_equal h.1, CodeTree.revise_eq_of_equal h.2]
    | _ => cases h
  | .result value, t, h => by
    cases t with
    | result value' => simp only [Statement.revise, reviseExpr?_eq_of_equal h]
    | _ => cases h
  | .block body, t, h => by
    cases t with
    | block body' => simp only [Statement.revise, reviseStatements_eq_of_equal h]
    | _ => cases h
termination_by structural x => x

theorem reviseStatements_eq_of_equal : ∀ {ss ts : List Statement}, equalStatements ss ts = true →
    reviseStatements .unsigned ss = reviseStatements .unsigned ts
  | [], [], _ => rfl
  | s :: ss, t :: ts, h => by
    rw [equalStatements, Bool.and_eq_true] at h
    simp only [reviseStatements, s.revise_eq_of_equal h.1, reviseStatements_eq_of_equal h.2]
termination_by structural x => x

end

/-- Equal trees are the same with owned nodes and positive zeros. -/
theorem unsigned_eq_of_equal {a b : Expr} (h : a.equal b = true) : a.unsigned = b.unsigned :=
  revise_eq_of_equal h

end CodeTree
