import CodeTree.Proofs.Reading.Written

/-! # What begins with a parenthesis

A line that begins with a parenthesis can be taken for a call of what is before it.

* `Expr.opensParen`: whether the text of an expression begins with a parenthesis.
* `begins_emitExpr`: it does exactly in these cases. -/

namespace CodeTree

set_option autoImplicit false

open Lua

/-- NaN is written as a quotient. -/
def Atom.opensParen : Atom → Bool
  | literal (.float x) => x.isNaN
  | _ => false

/-- Whether the text of an expression begins with a parenthesis: operations and the functions that are
called at once do, names, literals, lists and calls into the `bit` library do not. -/
def Expr.opensParen (target : Target) : Expr → Bool
  | shared s => s.atom.opensParen
  | atom a => a.opensParen
  | unary (.standard .plus) operand => operand.opensParen target
  | unary _ _ => true
  | binary operator _ _ => !needsBitLibrary target operator
  | field (some site) selection => selection.nilSafe || site.opensParen target
  | call (some site) selection _ optional =>
    selection.nilSafe || optional || site.opensParen target
  | property (some site) selection _ => selection.nilSafe || site.opensParen target
  | construct _ _ _ initializers => !initializers.isEmpty
  | element indexed _ => indexed.opensParen target
  | wrapped .parentheses _ | conditional _ _ _ | assigned _ _ => true
  | cast value _ _ _ => value.opensParen target
  | _ => false

namespace Lua

/-- The text begins with a character of an expression, a parenthesis or another one. -/
def Begins (w : List Char) (paren : Bool) : Prop :=
  ∃ c cs, w = c :: cs ∧ isOpening c = true ∧ (c = '(' ↔ paren = true)

variable {g : Setting} {n : Nat} {v w : List Char} {paren : Bool}

/-! ## Beginnings -/

theorem Begins.append (h : Begins v paren) (w : List Char) : Begins (v ++ w) paren := by
  obtain ⟨c, cs, rfl, hc, hparen⟩ := h
  exact ⟨c, cs ++ w, rfl, hc, hparen⟩

theorem begins_letter {c : Char} (h : isLetter c = true) (w : List Char) : Begins (c :: w) false :=
  ⟨c, w, rfl, isOpening_of_isLetter h, iff_of_false (isLetter_ne h rfl) Bool.false_ne_true⟩

theorem Begins.head_iff (h : Begins w paren) : w.head? = some '(' ↔ paren = true := by
  obtain ⟨c, cs, rfl, -, hparen⟩ := h
  simpa using hparen

/-! ## Expressions -/

theorem Leads.begins {opening : Opening} (h : Leads w opening) : Begins w (decide (opening = .paren)) := by
  obtain ⟨c, cs, rfl, hc⟩ := h
  refine ⟨c, cs, rfl, ?_⟩
  cases opening with
  | word =>
    have hne : c ≠ '(' := by
      rintro rfl
      cases hc
    refine ⟨?_, iff_of_false hne (by decide)⟩
    rcases Bool.or_eq_true_iff.1 hc with hletter | hdigit
    · exact isOpening_of_isLetter hletter
    · exact isOpening_of_isDigit hdigit
  | minus | paren | brace | quote =>
    obtain rfl := beq_iff_eq.1 hc
    exact ⟨rfl, by decide⟩

theorem Atom.opensParen_eq (target : Target) (a : Atom) :
    a.opensParen = decide (a.opening target = .paren) := by
  cases a with
  | literal l =>
    cases l with
    | string | character | boolean => rfl
    | integer value =>
      rw [Atom.opening, Literal.opening]
      split
      · rfl
      · split <;> rfl
    | float value =>
      rw [Atom.opensParen, Atom.opening, Literal.opening]
      cases value.isNaN <;> cases value.isNegative <;> rfl
  | _ => rfl

/-- An expression begins with a parenthesis if a parenthesis is what it begins with. -/
theorem opensParen_eq (target : Target) : ∀ e : Expr,
    e.opensParen target = decide (e.opening target = .paren)
  | .shared s => Atom.opensParen_eq target s.atom
  | .atom a => Atom.opensParen_eq target a
  | .unary (.standard .plus) operand => opensParen_eq target operand
  | .cast value _ _ _ => opensParen_eq target value
  | .element indexed _ => opensParen_eq target indexed
  | .binary operator _ _ => by
    rw [Expr.opensParen, Expr.opening]
    cases needsBitLibrary target operator <;> rfl
  | .field (some site) selection | .property (some site) selection _ => by
    rw [Expr.opensParen, Expr.opening, opensParen_eq target site]
    cases selection.nilSafe <;> rfl
  | .call (some site) selection _ optional => by
    rw [Expr.opensParen, Expr.opening, opensParen_eq target site]
    cases selection.nilSafe <;> cases optional <;> rfl
  | .construct _ _ _ initializers => by
    rw [Expr.opensParen, Expr.opening]
    cases initializers <;> rfl
  | .array _ _ | .dictionary _ | .tuple _ | .allocate _ _ _ _ | .unary (.standard .minus) _
  | .unary (.standard .not) _ | .unary (.standard .addressOf) _ | .unary (.custom _) _ | .field none _
  | .call none _ _ _ | .property none _ _ | .wrapped .parentheses _ | .wrapped .sizeOf _
  | .wrapped .typeOf _ | .wrapped .dereference _ | .conditional _ _ _ | .assigned _ _
  | .method _ _ _ _ _ | .anonymousType _ _ => rfl

/-- The text of an expression begins with a parenthesis exactly if the expression does. -/
theorem begins_emitExpr (e : Expr) (h : ∀ node ∈ e.rendered, Worded g node)
    (hw : Yields (emitExpr g e) n () w) : Begins w (e.opensParen g.config.target) := by
  rw [opensParen_eq]
  exact (leads_emitExpr e h hw).begins

end Lua

end CodeTree
