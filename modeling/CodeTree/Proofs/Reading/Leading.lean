import CodeTree.Proofs.Emission.Rendered
import CodeTree.Proofs.Emission.Text
import CodeTree.Proofs.Reading.Spelling
import CodeTree.Proofs.Reading.Translation

/-! # What an expression begins with

The text of an expression begins with what is leftmost in it. That is found through sites, indexed
arrays, casts and unary plus, which stand behind their operand or leave no trace. No operand gets
parentheses of its own, so it is the first character that an operator before the operand meets.

* `Opening`: the kinds of characters that texts begin with.
* `Expr.opening`: what the text of an expression begins with.
* `Node.keepsOperands`: the operations whose custom operators cannot be misread for that.
* `leads_emitExpr`: an expression does begin like this. -/

namespace CodeTree

set_option autoImplicit false

open Lua

/-- What a text can begin with: a letter or a digit, or one of some marks. -/
inductive Opening
  | word | minus | paren | brace | quote
  deriving DecidableEq

def Opening.admits : Opening → Char → Bool
  | word, c => isWordChar c
  | minus, c => c == '-'
  | paren, c => c == '('
  | brace, c => c == '\x7b'
  | quote, c => c == '"'

/-- The least integer is written as a name where there is one, and NaN as a quotient. -/
def Literal.opening (target : Target) : Literal → Opening
  | string _ | character _ => .quote
  | integer value =>
    if value = Int64.minValue ∧ target.hasIntegers then .word
    else if value.toInt < 0 then .minus
    else .word
  | float value => if value.isNaN then .paren else if value.isNegative then .minus else .word
  | boolean _ => .word

def Atom.opening (target : Target) : Atom → Opening
  | literal value => value.opening target
  | _ => .word

/-- What the text of an expression begins with: operations and functions that are called at once begin with
a parenthesis, names and calls into the `bit` library with a letter. -/
def Expr.opening (target : Target) : Expr → Opening
  | shared s => s.atom.opening target
  | atom a => a.opening target
  | array _ _ | dictionary _ | tuple _ | allocate _ _ _ _ => .brace
  | unary (.standard .plus) operand => operand.opening target
  | unary _ _ => .paren
  | binary operator _ _ => if needsBitLibrary target operator then .word else .paren
  | field (some site) selection => if selection.nilSafe then .paren else site.opening target
  | call (some site) selection _ optional =>
    if selection.nilSafe || optional then .paren else site.opening target
  | property (some site) selection _ => if selection.nilSafe then .paren else site.opening target
  | construct _ _ _ initializers => if initializers.isEmpty then .word else .paren
  | element indexed _ => indexed.opening target
  | wrapped .parentheses _ | conditional _ _ _ | assigned _ _ => .paren
  | cast value _ _ _ => value.opening target
  | _ => .word

/-- Whether the custom operator of a node, if it has one, is an operator of Lua and cannot be misread. `not`
runs into a word, and in front of a power a minus sign comes after it. -/
def Node.keepsOperands (target : Target) : Node → Bool
  | .expression (.unary (.custom operator) operand) =>
    !(UnaryOp.ofText operator).isCustom && (operator != "not" || operand.opening target != .word)
  | .expression (.binary (.custom operator) left _) =>
    !(BinaryOp.ofText operator).isCustom && (operator != "^" || left.opening target != .minus)
  | _ => true

theorem Node.keepsOperands_unary {target : Target} {operator : String} {operand : Expr} :
    (Node.expression (.unary (.custom operator) operand)).keepsOperands target = true ↔
      (UnaryOp.ofText operator).isCustom = false ∧ (operator = "not" → operand.opening target ≠ .word) := by
  simp [Node.keepsOperands, imp_iff_not_or]

theorem Node.keepsOperands_binary {target : Target} {operator : String} {left right : Expr} :
    (Node.expression (.binary (.custom operator) left right)).keepsOperands target = true ↔
      (BinaryOp.ofText operator).isCustom = false ∧ (operator = "^" → left.opening target ≠ .minus) := by
  simp [Node.keepsOperands, imp_iff_not_or]

theorem Node.keepsOperands_of_standard {target : Target} {node : Node} (h : node.customText? = none) :
    node.keepsOperands target = true := by
  unfold Node.keepsOperands
  split
  · cases h
  · cases h
  · rfl

namespace Lua

/-- The text begins with a character of a kind. -/
def Leads (w : List Char) (opening : Opening) : Prop :=
  ∃ c cs, w = c :: cs ∧ opening.admits c = true

/-- A node that is not raw code and that is written with names of Lua. -/
structure Worded (g : Setting) (node : Node) : Prop where
  notRaw : node.isRaw = false
  names : ∀ s ∈ node.symbols, ∀ name ∈ g.names.resolve s, isIdentifier name = true

variable {g : Setting} {n : Nat} {v w : List Char} {opening : Opening}

theorem opening_core (target : Target) (e : Expr) : e.core.opening target = e.opening target := by
  fun_induction Expr.core e with
  | case1 | case4 => rfl
  | case2 operand ih => exact ih
  | case3 value type throwing safe ih => exact ih

/-- What takes an access begins with a letter or with a parenthesis. -/
theorem opening_of_takesSuffix (target : Target) : ∀ e : Expr,
    (∀ node ∈ e.rendered, ∀ site ∈ node.sites, site.takesSuffix = true) → e.takesSuffix = true →
      e.opening target = .word ∨ e.opening target = .paren
  | .shared s, _, h => by cases s <;> first | exact .inl rfl | cases h
  | .atom a, _, h => by cases a <;> first | exact .inl rfl | cases h
  | .array _ _, _, h | .dictionary _, _, h | .tuple _, _, h | .allocate _ _ _ _, _, h => by cases h
  | .unary (.standard .plus) operand, hsites, h => by
    rw [Expr.rendered, List.forall_mem_cons] at hsites
    exact opening_of_takesSuffix target operand hsites.2 h
  | .cast value _ _ _, hsites, h => by
    rw [Expr.rendered, List.forall_mem_cons] at hsites
    exact opening_of_takesSuffix target value hsites.2 h
  | .element indexed _, hsites, _ => by
    rw [Expr.rendered, List.forall_mem_cons, List.forall_mem_append] at hsites
    exact opening_of_takesSuffix target indexed hsites.2.1
      (hsites.1 indexed (by simp [Node.sites, Expr.sites]))
  | .field (some site) selection, hsites, _ => by
    rw [Expr.rendered, List.forall_mem_cons] at hsites
    rw [Expr.opening]
    split
    · exact .inr rfl
    · exact opening_of_takesSuffix target site hsites.2
        (hsites.1 site (by simp [Node.sites, Expr.sites]))
  | .call (some site) selection _ optional, hsites, _ => by
    rw [Expr.rendered, List.forall_mem_cons] at hsites
    have hsite : ∀ node ∈ site.rendered, ∀ e ∈ node.sites, e.takesSuffix = true := by
      refine fun node hnode => hsites.2 node ?_
      split <;> simp [renderedExpr?, hnode]
    rw [Expr.opening]
    split
    · exact .inr rfl
    · exact opening_of_takesSuffix target site hsite
        (hsites.1 site (by simp [Node.sites, Expr.sites]))
  | .property (some site) selection _, hsites, _ => by
    rw [Expr.rendered, List.forall_mem_cons, List.forall_mem_append] at hsites
    rw [Expr.opening]
    split
    · exact .inr rfl
    · exact opening_of_takesSuffix target site hsites.2.1
        (hsites.1 site (by simp [Node.sites, Expr.sites]))
  | .binary operator _ _, _, _ => by
    rw [Expr.opening]
    split
    · exact .inl rfl
    · exact .inr rfl
  | .construct _ _ _ initializers, _, _ => by
    rw [Expr.opening]
    split
    · exact .inl rfl
    · exact .inr rfl
  | .unary (.standard .minus) _, _, _ | .unary (.standard .not) _, _, _
  | .unary (.standard .addressOf) _, _, _ | .unary (.custom _) _, _, _ | .wrapped .parentheses _, _, _
  | .conditional _ _ _, _, _ | .assigned _ _, _, _ => .inr rfl
  | .field none _, _, _ | .call none _ _ _, _, _ | .property none _ _, _, _ | .wrapped .sizeOf _, _, _
  | .wrapped .typeOf _, _, _ | .wrapped .dereference _, _, _ | .method _ _ _ _ _, _, _
  | .anonymousType _ _, _, _ => .inl rfl

/-! ## First characters -/

theorem Leads.append (h : Leads v opening) (w : List Char) : Leads (v ++ w) opening := by
  obtain ⟨c, cs, rfl, hc⟩ := h
  exact ⟨c, cs ++ w, rfl, hc⟩

theorem Leads.isApart_iff (h : Leads w opening) : isApart false w = true ↔ opening ≠ .word := by
  obtain ⟨c, cs, rfl, hc⟩ := h
  have hword : isApart false (c :: cs) = !isWordChar c := by simp [isApart]
  rw [hword]
  cases opening with
  | word =>
    rw [show isWordChar c = true from hc]
    decide
  | minus | paren | brace | quote =>
    obtain rfl := beq_iff_eq.1 hc
    decide

theorem leads_paren (w : List Char) : Leads ('(' :: w) .paren := ⟨'(', w, rfl, rfl⟩

theorem leads_brace (w : List Char) : Leads ('\x7b' :: w) .brace := ⟨'\x7b', w, rfl, rfl⟩

theorem leads_word {c : Char} (h : isWordChar c = true) (w : List Char) : Leads (c :: w) .word :=
  ⟨c, w, rfl, h⟩

theorem leads_name {name : String} (h : isIdentifier name = true) : Leads name.toList .word := by
  obtain ⟨c, cs, hname, hc, -⟩ := exists_of_isIdentifier h
  rw [hname]
  exact leads_word (isWordChar_of_isLetter hc) cs

theorem leads_digits (h : IsDigits w) : Leads w .word := by
  obtain ⟨c, cs, rfl⟩ := List.exists_cons_of_ne_nil h.ne_nil
  exact leads_word (isWordChar_of_isDigit (h.isDigit c (by simp))) cs

theorem leads_sign (h : Leads w .word) (negative : Bool) :
    Leads (sign negative ++ w) (if negative then .minus else .word) := by
  cases negative with
  | false => exact h
  | true => exact ⟨'-', w, rfl, rfl⟩

theorem Worded.leads {e : Expr} (h : Worded g (.expression e)) {s : Symbol} {name : String}
    (hs : s ∈ e.symbols) (hname : g.names.resolve s = some name) : Leads name.toList .word :=
  leads_name (h.names s hs name hname)

/-! ## Operators -/

theorem UnaryOp.ofText_cases {operator : String} (h : (UnaryOp.ofText operator).isCustom = false) :
    operator = "-" ∨ operator = "not" ∨ operator = "#" ∨ operator = "~" := by
  unfold UnaryOp.ofText at h
  split at h
  · exact .inl rfl
  · exact .inr (.inl rfl)
  · exact .inr (.inr (.inl rfl))
  · exact .inr (.inr (.inr rfl))
  · cases h

/-- Before what an expression begins with, a minus sign or a tilde grows only into a comment. -/
theorem grow?_of_leads {m : Mark} (hm : m = .minus ∨ m = .tilde)
    (h : Leads v opening) (hminus : m = .minus → v.head? ≠ some '-') (rest : List Char) :
    ∀ c ∈ (v ++ rest).head?, (Lexeme.mark m).grow? c = none := by
  obtain ⟨c, cs, rfl, hc⟩ := h
  rintro _ ⟨⟩
  have hequals : c ≠ '=' := by
    rintro rfl
    cases opening <;> cases hc
  rcases hm with rfl | rfl
  · exact grow?_minus fun heq => hminus rfl (by rw [heq]; rfl)
  · simp [Lexeme.grow?, Mark.goesWrong, Mark.grow?, hequals]

/-- An operator before an operand remains a token of its own, unless it is a word before another one. -/
theorem lex_operator {operator : String} (hlua : (UnaryOp.ofText operator).isCustom = false)
    (hleads : Leads v opening) (hword : operator = "not" → opening ≠ .word) (rest : List Char) :
    lex (operator.toList ++ gap operator v ++ (v ++ rest)) =
      (UnaryOp.ofText operator).token :: lex (v ++ rest) := by
  rcases UnaryOp.ofText_cases hlua with rfl | rfl | rfl | rfl
  · by_cases hminus : v.head? = some '-'
    · have hblank : Fixed "- ".toList [.mark .minus] := fixed_of_run rfl rfl
      rw [gap, if_pos ⟨rfl, hminus⟩]
      exact hblank _
    · rw [gap, if_neg fun hboth => hminus hboth.2, List.append_nil]
      exact lex_mark rfl (grow?_of_leads (.inl rfl) hleads (fun _ => hminus) rest)
  · have hnot : Spells false "not".toList [.keyword .notWord] := spells_of_run rfl rfl
    rw [gap_eq_nil rfl, List.append_nil]
    exact hnot _ (apart_append (hleads.isApart_iff.2 (hword rfl)) rest)
  · have hhash : Fixed "#".toList [.mark .hash] := fixed_of_run rfl rfl
    rw [gap_eq_nil rfl, List.append_nil]
    exact hhash _
  · rw [gap_eq_nil rfl, List.append_nil]
    exact lex_mark rfl (grow?_of_leads (.inr rfl) hleads (fun h => by cases h) rest)

/-! ## Forms -/

theorem leads_literalText (target : Target) (l : Literal) :
    Leads (literalText target l).toList (l.opening target) := by
  have hquote : ∀ value : String, Leads (quote value).toList .quote := by
    intro value
    exact ⟨'"', (escape value).toList ++ ['"'], by simp [quote], rfl⟩
  cases l with
  | string value => exact hquote value
  | character value => exact hquote (String.singleton value)
  | integer value =>
    rw [literalText, integerText, Literal.opening]
    split
    · exact leads_word rfl _
    · have hsigned := leads_sign (leads_digits (isDigits_toDigits value.toInt.natAbs)) (decide (value.toInt < 0))
      rw [toList_integerText]
      simpa using hsigned
  | float value =>
    rw [literalText, Literal.opening]
    by_cases hnan : value.isNaN = true
    · rw [floatText, if_pos hnan, if_pos hnan]
      exact leads_paren _
    · rw [if_neg hnan]
      rw [Bool.not_eq_true] at hnan
      by_cases hinfinite : value.isInfinite = true
      · have hhuge : (floatText value).toList = sign value.isNegative ++ "math.huge".toList := by
          simp only [floatText, hnan, hinfinite, Bool.false_eq_true, if_false, if_true]
          cases value.isNegative <;> rfl
        rw [hhuge]
        exact leads_sign (leads_word (c := 'm') rfl _) _
      · rw [Bool.not_eq_true] at hinfinite
        obtain ⟨whole, fraction, hwhole, -, hpositional⟩ := isPositional_positional value.shortest
        rw [toList_floatText hnan hinfinite, hpositional]
        exact leads_sign ((leads_digits hwhole).append _) _
  | boolean value =>
    have hfalse : Leads "false".toList .word := leads_word (c := 'f') rfl _
    have htrue : Leads "true".toList .word := leads_word (c := 't') rfl _
    cases value with
    | false => exact hfalse
    | true => exact htrue

theorem leads_emitAtom {a : Atom} (h : Worded g (.expression (.atom a)))
    (hw : Yields (emitAtom g a) n () w) : Leads w (a.opening g.config.target) := by
  cases a with
  | nil =>
    rw [yields_emitAtom_nil.1 hw]
    exact leads_word (c := 'n') rfl _
  | selfReference =>
    rw [yields_emitAtom_self.1 hw]
    exact leads_word (c := 's') rfl _
  | literal l =>
    rw [yields_emitAtom_literal.1 hw]
    exact leads_literalText _ l
  | identifier s =>
    obtain ⟨name, hname, rfl⟩ := yields_emitAtom_identifier.1 hw
    exact h.leads (by simp [Expr.symbols, Atom.symbols]) hname
  | localVariable read =>
    obtain ⟨name, hname, rfl⟩ := yields_emitAtom_localVariable.1 hw
    exact h.leads (by simp [Expr.symbols, Atom.symbols]) hname
  | typeReference type =>
    obtain ⟨name, hname, rfl⟩ := yields_emitAtom_typeReference.1 hw
    exact h.leads (by simp [Expr.symbols, Atom.symbols]) hname
  | enumValue value =>
    obtain ⟨type, htype, name, -, rfl⟩ := yields_emitAtom_enumValue.1 hw
    exact (h.leads (by simp [Expr.symbols, Atom.symbols]) htype).append _
  | propertyValue => exact absurd hw not_yields_emitAtom_propertyValue
  | inherited => exact absurd hw not_yields_emitAtom_inherited
  | selector name => exact absurd hw not_yields_emitAtom_selector
  | default type => exact absurd hw not_yields_emitAtom_default
  | raw lines =>
    have hraw := h.notRaw
    cases hraw

theorem leads_binaryForm {target : Target} {operator : Operator BinaryKind} {form : BinaryForm}
    (h : binaryForm target operator = .ok form) :
    Leads form.opening.toList (if needsBitLibrary target operator then .word else .paren) := by
  cases operator with
  | custom text =>
    cases h
    show Leads "(".toList .paren
    exact leads_paren []
  | standard kind =>
    cases target <;> cases kind <;> cases h <;>
      first | exact leads_paren _ | exact leads_word (c := 'b') rfl _

/-- An access begins like its site unless it is guarded. -/
theorem leads_accessText {guarded : Bool} {guard : String} {operator : Char} {member : String}
    {site call : List Char} (h : Leads site opening) :
    Leads (accessText guarded guard operator member site call) (if guarded then .paren else opening) := by
  cases guarded with
  | true => exact leads_paren _
  | false => exact (h.append _).append _

/-- The text of an expression begins with what the expression does. -/
theorem leads_emitExpr : ∀ (e : Expr) {n : Nat} {w : List Char},
    (∀ node ∈ e.rendered, Worded g node) → Yields (emitExpr g e) n () w →
      Leads w (e.opening g.config.target)
  | .shared s, _, _, h, hw => leads_emitAtom (h _ (by simp [Expr.rendered])) hw
  | .atom a, _, _, h, hw => leads_emitAtom (h _ (by simp [Expr.rendered])) hw
  | .array _ _, _, _, _, hw => by
    obtain ⟨v, -, rfl⟩ := yields_emitExpr_array.1 hw
    exact leads_brace _
  | .dictionary _, _, _, _, hw => by
    obtain ⟨v, -, rfl⟩ := yields_emitExpr_dictionary.1 hw
    exact leads_brace _
  | .tuple _, _, _, _, hw => by
    obtain ⟨v, -, rfl⟩ := yields_emitExpr_tuple.1 hw
    exact leads_brace _
  | .unary (.standard .plus) operand, _, _, h, hw => by
    rw [Expr.rendered, List.forall_mem_cons] at h
    exact leads_emitExpr operand h.2 (yields_emitUnary_plus.1 hw)
  | .unary (.standard .addressOf) operand, _, _, _, hw => absurd hw not_yields_emitUnary_addressOf
  | .unary (.standard .minus) operand, _, _, _, hw | .unary (.standard .not) operand, _, _, _, hw
  | .unary (.custom _) operand, _, _, _, hw => by
    obtain ⟨v, -, rfl⟩ := yields_emitPrefixed.1 hw
    exact leads_paren _
  | .binary operator left right, _, _, _, hw => by
    obtain ⟨form, v₁, v₂, hform, -, -, rfl⟩ := yields_emitExpr_binary.1 hw
    simp only [List.append_assoc]
    exact (leads_binaryForm hform).append _
  | .field none selection, _, _, h, hw => by
    obtain ⟨member, hmember, rfl⟩ := yields_emitExpr_field_none.1 hw
    rw [Expr.rendered, List.forall_mem_cons] at h
    exact h.1.leads (by simp [Expr.symbols]) hmember
  | .field (some site) selection, _, _, h, hw => by
    obtain ⟨member, v, -, hv, rfl⟩ := yields_emitExpr_field_some.1 hw
    rw [Expr.rendered, List.forall_mem_cons] at h
    exact leads_accessText (leads_emitExpr site h.2 hv)
  | .call none selection arguments optional, _, _, h, hw => by
    obtain ⟨member, v, hmember, -, rfl⟩ := yields_emitExpr_call_none.1 hw
    rw [Expr.rendered, List.forall_mem_cons] at h
    rw [List.append_assoc]
    exact (h.1.leads (by simp [Expr.symbols]) hmember).append _
  | .call (some site) selection arguments optional, _, _, h, hw => by
    obtain ⟨member, v, s, -, -, hs, rfl⟩ := yields_emitExpr_call_some.1 hw
    have hsite : ∀ node ∈ site.rendered, Worded g node := by
      intro node hnode
      refine h node ?_
      rw [Expr.rendered]
      split <;> simp [renderedExpr?, hnode]
    exact leads_accessText (leads_emitExpr site hsite hs)
  | .property none selection indices, _, _, h, hw => by
    obtain ⟨v, i, hv, -, rfl⟩ := yields_emitExpr_property.1 hw
    obtain ⟨member, hmember, rfl⟩ := yields_emitExpr_field_none.1 hv
    rw [Expr.rendered, List.forall_mem_cons] at h
    exact (h.1.leads (by simp [Expr.symbols]) hmember).append _
  | .property (some site) selection indices, _, _, h, hw => by
    obtain ⟨v, i, hv, -, rfl⟩ := yields_emitExpr_property.1 hw
    obtain ⟨member, s, -, hs, rfl⟩ := yields_emitExpr_field_some.1 hv
    simp only [Expr.rendered, List.forall_mem_cons, List.forall_mem_append] at h
    exact (leads_accessText (leads_emitExpr site h.2.1 hs)).append _
  | .construct type constructor arguments [], _, _, h, hw => by
    obtain ⟨typeName, name, v, htype, -, -, rfl⟩ := yields_emitExpr_construct.1 hw
    rw [Expr.rendered, List.forall_mem_cons] at h
    simp only [constructorText, List.append_assoc]
    exact (h.1.leads (by simp [Expr.symbols]) htype).append _
  | .construct type constructor arguments (i :: is), _, _, _, hw => by
    obtain ⟨v, u, -, -, rfl⟩ := yields_emitExpr_construct_with.1 hw
    exact leads_paren _
  | .allocate _ _ _ _, _, _, _, hw => by
    obtain ⟨-, rfl⟩ := yields_emitExpr_allocate.1 hw
    exact leads_brace _
  | .element indexed indices, _, _, h, hw => by
    obtain ⟨v, i, hv, -, rfl⟩ := yields_emitExpr_element.1 hw
    simp only [Expr.rendered, List.forall_mem_cons, List.forall_mem_append] at h
    exact (leads_emitExpr indexed h.2.1 hv).append _
  | .wrapped .parentheses inner, _, _, _, hw => by
    obtain ⟨v, -, rfl⟩ := yields_emitExpr_parentheses.1 hw
    exact leads_paren _
  | .wrapped .typeOf inner, _, _, _, hw => by
    obtain ⟨v, -, rfl⟩ := yields_emitExpr_typeOf.1 hw
    exact leads_word (c := 't') rfl _
  | .wrapped .sizeOf inner, _, _, _, hw => absurd hw not_yields_refuse
  | .wrapped .dereference inner, _, _, _, hw => absurd hw not_yields_refuse
  | .conditional _ _ none, _, _, _, hw => by
    obtain ⟨v₁, v₂, -, -, rfl⟩ := yields_emitExpr_conditional_none.1 hw
    exact leads_paren _
  | .conditional _ _ (some _), _, _, _, hw => by
    obtain ⟨v₁, v₂, v₃, -, -, -, rfl⟩ := yields_emitExpr_conditional_some.1 hw
    exact leads_paren _
  | .cast value _ _ _, _, _, h, hw => by
    rw [Expr.rendered, List.forall_mem_cons] at h
    exact leads_emitExpr value h.2 hw
  | .assigned value _, _, _, _, hw => by
    obtain ⟨v, -, rfl⟩ := yields_emitExpr_assigned.1 hw
    exact leads_paren _
  | .method _ _ _ _ _, _, _, _, hw => by
    obtain ⟨v, d, l, b, -, -, -, -, rfl⟩ := yields_emitExpr_method.1 hw
    exact leads_word (c := 'f') rfl _
  | .anonymousType _ _, _, _, _, hw => absurd hw not_yields_refuse

end Lua

end CodeTree
