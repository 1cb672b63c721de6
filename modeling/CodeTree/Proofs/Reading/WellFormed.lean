import CodeTree.Proofs.Reading.Grammar

/-! # Well-formed syntax trees

A syntax tree is well-formed when its spelling can be read only as this tree: accesses and calls stand
behind names, accesses, calls and parentheses; an operand binds tighter than the operator it belongs
to; a return ends its block; and no statement can be taken for a continuation of the one before it.

* `Exp.strength` and `Exp.tail`: how tightly an expression binds at its left and at its right end.
* `Exp.WF` and `Stat.WF`: well-formed trees. -/

namespace CodeTree.Lua

set_option autoImplicit false

variable {ν : Type}

/-- A priority above those of all operators. -/
def unlimited : Nat := 15

theorem BinaryOp.left_le (op : BinaryOp) : op.left ≤ unlimited := by
  cases op <;> first | decide | exact Nat.zero_le _

theorem BinaryOp.right_lt (op : BinaryOp) : op.right < unlimited := by
  cases op <;> first | decide | exact Nat.succ_pos _

namespace Exp

/-- The least priority against the left of the operators at the left end. -/
def strength : Exp ν → Nat
  | binary op x _ => min op.left x.strength
  | _ => unlimited

/-- The least priority against the right of the operators at the right end. -/
def tail : Exp ν → Nat
  | binary op _ y => min op.right y.tail
  | unary _ x => min UnaryOp.priority x.tail
  | _ => unlimited

end Exp

namespace Stat

def isResult : Stat ν → Bool
  | result _ => true
  | _ => false

def isEmpty : Stat ν → Bool
  | empty => true
  | _ => false

end Stat

mutual

def Exp.WF : Exp ν → Prop
  | .nil | .boolean _ | .numeral _ | .string _ | .name _ => True
  | .field x _ => x.isPrefix = true ∧ x.WF
  | .index x key => x.isPrefix = true ∧ x.WF ∧ key.WF
  | .call f arguments => f.isPrefix = true ∧ f.WF ∧ wfExps arguments
  | .invoke x _ arguments => x.isPrefix = true ∧ x.WF ∧ wfExps arguments
  | .paren x => x.WF
  | .unary op x => op.isCustom = false ∧ x.WF ∧ UnaryOp.priority < x.strength
  | .binary op x y =>
    op.isCustom = false ∧ x.WF ∧ y.WF ∧ op.left ≤ x.tail ∧ op.right < y.strength
  | .table fields => wfFields fields
  | .function _ body => wfStats body

def wfExps : List (Exp ν) → Prop
  | [] => True
  | x :: xs => x.WF ∧ wfExps xs

def TableField.WF : TableField ν → Prop
  | .item value => value.WF
  | .keyed key value => key.WF ∧ value.WF

def wfFields : List (TableField ν) → Prop
  | [] => True
  | f :: fs => f.WF ∧ wfFields fs

def Stat.WF : Stat ν → Prop
  | .empty => True
  | .declare _ _ values => wfExps values
  | .assign target value => target.isVariable = true ∧ target.WF ∧ value.WF
  | .call x => x.isCall = true ∧ x.WF
  | .block body => wfStats body
  | .conditional condition consequence alternative =>
    condition.WF ∧ wfStats consequence ∧ wfStats alternative
  | .result values => wfExps values

def wfStats : List (Stat ν) → Prop
  | [] => True
  | s :: statements =>
    s.WF ∧ (s.isResult = true → statements = []) ∧
      (s.isEmpty = true ∨ Stat.opensParen statements = false) ∧ wfStats statements

end

/-! ## Lemmas -/

theorem Exp.strength_pos {x : Exp ν} (h : x.WF) : 0 < x.strength := by
  match x with
  | .binary op x y =>
    rw [Exp.WF] at h
    rw [Exp.strength]
    exact Nat.lt_min.2 ⟨BinaryOp.left_pos h.1, Exp.strength_pos h.2.1⟩
  | .nil | .boolean _ | .numeral _ | .string _ | .name _ | .field _ _ | .index _ _ | .call _ _
  | .invoke _ _ _ | .paren _ | .unary _ _ | .table _ | .function _ _ => exact Nat.succ_pos 14

theorem Exp.isPrefix_of_isVariable {x : Exp ν} (h : x.isVariable = true) : x.isPrefix = true := by
  cases x <;> first | rfl | exact nomatch h

theorem Exp.isPrefix_of_isCall {x : Exp ν} (h : x.isCall = true) : x.isPrefix = true := by
  cases x <;> first | rfl | exact nomatch h

theorem Exp.strength_of_isPrefix {x : Exp ν} (h : x.isPrefix = true) : x.strength = unlimited := by
  cases x <;> first | rfl | exact nomatch h

theorem Exp.tail_of_isPrefix {x : Exp ν} (h : x.isPrefix = true) : x.tail = unlimited := by
  cases x <;> first | rfl | exact nomatch h

def opensExp : Token → Bool
  | .keyword .nilWord | .keyword .trueWord | .keyword .falseWord | .keyword .notWord
  | .keyword .functionWord => true
  | .keyword _ => false
  | .mark .leftParen | .mark .leftBrace | .mark .minus | .mark .hash | .mark .tilde => true
  | .mark _ => false
  | .name _ | .numeral _ | .string _ | .invalid => true

theorem opensExp_token (op : UnaryOp) : opensExp op.token = true := by
  cases op <;> rfl

theorem Exp.exists_tokens (text : ν → String) :
    ∀ x : Exp ν, ∃ t ts, x.tokens text = t :: ts ∧ opensExp t = true
  | .nil | .numeral _ | .string _ | .name _ | .paren _ | .table _ | .function _ _ =>
    ⟨_, _, rfl, rfl⟩
  | .boolean value => ⟨_, _, rfl, by cases value <;> rfl⟩
  | .unary op x => ⟨_, _, rfl, opensExp_token op⟩
  | .field x member => by
    obtain ⟨t, ts, hx, ht⟩ := Exp.exists_tokens text x
    exact ⟨t, _, by rw [Exp.tokens, hx]; rfl, ht⟩
  | .index x key => by
    obtain ⟨t, ts, hx, ht⟩ := Exp.exists_tokens text x
    exact ⟨t, _, by rw [Exp.tokens, hx]; rfl, ht⟩
  | .call f arguments => by
    obtain ⟨t, ts, hx, ht⟩ := Exp.exists_tokens text f
    exact ⟨t, _, by rw [Exp.tokens, hx]; rfl, ht⟩
  | .invoke x member arguments => by
    obtain ⟨t, ts, hx, ht⟩ := Exp.exists_tokens text x
    exact ⟨t, _, by rw [Exp.tokens, hx]; rfl, ht⟩
  | .binary op x y => by
    obtain ⟨t, ts, hx, ht⟩ := Exp.exists_tokens text x
    exact ⟨t, _, by rw [Exp.tokens, hx]; rfl, ht⟩

end CodeTree.Lua
