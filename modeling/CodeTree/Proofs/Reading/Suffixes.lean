import CodeTree.Proofs.Acceptance.Representable
import CodeTree.Proofs.Emission.Source
import CodeTree.Proofs.Reading.Accepted
import CodeTree.Proofs.Reading.Roundtrip
import CodeTree.Proofs.Walking.Rendering

/-! # Where accesses are written

A field access, a call, a property access and an element access go on behind the text of another
expression, unless they are guarded: then the site is handed over in parentheses. In Lua an access can
stand behind a name, another access, a call or parentheses only, and what is written for a site is one
of these or is not, whatever surrounds it.

* `Expr.suffixed?`: the expression behind whose text an access is written.
* `Expr.hasPrefixForm`: whether an access can stand behind what is written for an expression.
* `isPrefix_toLua?`: that this is so in Lua.
* `suffixed_isPrefix_iff`: the sites of an accepted tree that take the access behind them. -/

namespace CodeTree

set_option autoImplicit false

open Lua (Target)

/-- The expression behind whose text a node writes an access or an index. -/
def Expr.suffixed? : Expr → Option Expr
  | field site selection => if selection.nilSafe then none else site
  | call site selection _ optional => if selection.nilSafe || optional then none else site
  | property site selection _ => if selection.nilSafe then none else site
  | element indexed (_ :: _) => some indexed
  | _ => none

/-- Of the literals only those that Lua has no digits for are written as accesses or in parentheses. -/
def Literal.hasPrefixForm (target : Target) : Literal → Bool
  | integer value => decide (value = Int64.minValue) && target.hasIntegers
  | float value => value.isNaN || (value.isInfinite && !value.isNegative)
  | string _ | character _ | boolean _ => false

def Atom.hasPrefixForm (target : Target) : Atom → Bool
  | nil => false
  | literal value => value.hasPrefixForm target
  | _ => true

/-- Whether an access can stand behind an expression in Lua. Plus, casts and an element access without
indices leave no trace and are looked through. -/
def Expr.hasPrefixForm (target : Target) : Expr → Bool
  | shared s => s.atom.hasPrefixForm target
  | atom a => a.hasPrefixForm target
  | array _ _ | dictionary _ | tuple _ | allocate _ _ _ _ | method _ _ _ _ _ => false
  | unary (.standard .plus) operand => operand.hasPrefixForm target
  | cast value _ _ _ => value.hasPrefixForm target
  | element indexed [] => indexed.hasPrefixForm target
  | _ => true

namespace Lua

variable {ν : Type} {tag : Origin → String → ν} {g : Setting}

/-! ## What stands before an access -/

theorem isPrefix_signed (negative : Bool) (x : Exp ν) :
    (signed negative x).isPrefix = (!negative && x.isPrefix) := by
  cases negative <;> rfl

theorem isPrefix_literalExp (target : Target) (l : Literal) :
    (literalExp tag target l).isPrefix = l.hasPrefixForm target := by
  cases l with
  | string value | character value | boolean value => rfl
  | integer value =>
    rw [literalExp, integerExp, Literal.hasPrefixForm]
    by_cases hleast : value = Int64.minValue ∧ target.hasIntegers = true
    · rw [if_pos hleast]
      simp [hleast, Exp.isPrefix]
    · rw [if_neg hleast, isPrefix_signed]
      simpa [Exp.isPrefix] using hleast
  | float value =>
    rw [literalExp, floatExp, Literal.hasPrefixForm]
    cases value.isNaN <;> cases value.isInfinite <;> cases value.isNegative <;> rfl

theorem isPrefix_atom {a : Atom} {x : Exp ν} (h : atomExp? tag g a = some x) :
    x.isPrefix = a.hasPrefixForm g.config.target := by
  cases a with
  | nil =>
    cases h
    rfl
  | literal l =>
    cases h
    exact isPrefix_literalExp _ l
  | _ => exact isPrefix_atomExp h rfl

theorem indexed_cons_isPrefix (x key : Exp ν) (keys : List (Exp ν)) :
    (indexed x (key :: keys)).isPrefix = true :=
  isPrefix_indexed (x := .index x key) rfl keys

/-- What is written for an expression takes accesses exactly if the expression has the form for it. -/
theorem isPrefix_toLua? : ∀ (e : Expr) {x : Exp ν}, toLua? tag g e = some x →
    x.isPrefix = e.hasPrefixForm g.config.target
  | .shared s, x, h => isPrefix_atom h
  | .atom a, x, h => isPrefix_atom h
  | .array _ _, x, h | .tuple _, x, h | .dictionary _, x, h => by
    simp only [toLua?, Option.bind_eq_bind, Option.bind_eq_some_iff, Option.some.injEq] at h
    obtain ⟨_, -, rfl⟩ := h
    rfl
  | .unary (.standard .plus) operand, x, h => by
    obtain ⟨y, hy, hx⟩ := Option.bind_eq_some_iff.1 h
    obtain rfl : y = x := by simpa [unaryExp?] using hx
    exact isPrefix_toLua? operand hy
  | .unary (.standard .minus) _, x, h | .unary (.standard .not) _, x, h | .unary (.custom _) _, x, h => by
    obtain ⟨_, -, hx⟩ := Option.bind_eq_some_iff.1 h
    exact isPrefix_unaryExp (by simp) hx
  | .unary (.standard .addressOf) _, x, h => by
    obtain ⟨_, -, hx⟩ := Option.bind_eq_some_iff.1 h
    cases hx
  | .binary _ _ _, x, h => by
    obtain ⟨_, -, h⟩ := Option.bind_eq_some_iff.1 h
    obtain ⟨_, -, hx⟩ := Option.bind_eq_some_iff.1 h
    exact isPrefix_binaryExp hx
  | .field _ _, x, h => by
    simp only [toLua?, Option.bind_eq_bind, Option.bind_eq_some_iff, Option.some.injEq] at h
    obtain ⟨_, -, _, -, rfl⟩ := h
    exact isPrefix_memberExp _ _ _ _ _
  | .call _ _ _ _, x, h => by
    simp only [toLua?, Option.bind_eq_bind, Option.bind_eq_some_iff, Option.some.injEq] at h
    obtain ⟨_, -, _, -, _, -, rfl⟩ := h
    exact isPrefix_memberExp _ _ _ _ _
  | .property _ _ _, x, h => by
    simp only [toLua?, Option.bind_eq_bind, Option.bind_eq_some_iff, Option.some.injEq] at h
    obtain ⟨_, -, _, -, _, -, rfl⟩ := h
    exact isPrefix_indexed (isPrefix_memberExp _ _ _ _ _) _
  | .construct _ _ _ _, x, h => by
    simp only [toLua?, Option.bind_eq_bind, Option.bind_eq_some_iff, Option.some.injEq] at h
    obtain ⟨_, -, _, -, _, -, _, -, rfl⟩ := h
    exact isPrefix_constructExp _ _ _ _
  | .allocate _ _ _ _, x, h => by
    cases h
    rfl
  | .element array [], x, h => by
    simp only [toLua?, toLuaList?, Option.bind_eq_bind, Option.bind_eq_some_iff, Option.some.injEq] at h
    obtain ⟨y, hy, _, rfl, rfl⟩ := h
    exact isPrefix_toLua? array hy
  | .element array (index :: indices), x, h => by
    simp only [toLua?, toLuaList?, Option.bind_eq_bind, Option.bind_eq_some_iff, Option.some.injEq] at h
    obtain ⟨y, -, _, ⟨key, -, keys, -, rfl⟩, rfl⟩ := h
    exact indexed_cons_isPrefix y key keys
  | .wrapped .parentheses _, x, h | .wrapped .typeOf _, x, h => by
    obtain ⟨_, -, hx⟩ := Option.bind_eq_some_iff.1 h
    cases hx
    rfl
  | .wrapped .sizeOf _, x, h | .wrapped .dereference _, x, h | .anonymousType _ _, x, h => by
    cases h
  | .conditional _ _ none, x, h => by
    simp only [toLua?, Option.bind_eq_bind, Option.bind_eq_some_iff, Option.some.injEq] at h
    obtain ⟨_, -, _, -, rfl⟩ := h
    rfl
  | .conditional _ _ (some _), x, h => by
    simp only [toLua?, Option.bind_eq_bind, Option.bind_eq_some_iff, Option.some.injEq] at h
    obtain ⟨_, -, _, -, _, -, rfl⟩ := h
    rfl
  | .cast value _ _ _, x, h => isPrefix_toLua? value h
  | .assigned _ _, x, h => by
    obtain ⟨_, -, hx⟩ := Option.bind_eq_some_iff.1 h
    cases hx
    rfl
  | .method _ _ _ _ _, x, h => by
    simp only [toLua?, Option.bind_eq_bind, Option.bind_eq_some_iff, Option.some.injEq] at h
    obtain ⟨_, -, _, -, _, -, _, -, rfl⟩ := h
    rfl

/-! ## The text before an access -/

/-- Whether a text begins like an access, a call or an index. -/
def OpensSuffix (text : List Char) : Prop := ∃ c ∈ ['.', ':', '['], text.head? = some c

theorem opensSuffix_accessOperator (hasArguments isType : Bool) (text : List Char) :
    OpensSuffix (accessOperator hasArguments isType :: text) := by
  cases hasArguments <;> cases isType <;> exact ⟨_, by decide, rfl⟩

variable {n : Nat} {w : List Char}

theorem exists_suffix_field {site : Option Expr} {selection : Selection} {e : Expr}
    (he : e ∈ (Expr.field site selection).suffixed?)
    (hw : Yields (emitExpr g (.field site selection)) n () w) :
    ∃ v suffix, Yields (emitExpr g e) n () v ∧ OpensSuffix suffix ∧ w = v ++ suffix := by
  rw [Expr.suffixed?] at he
  split at he
  · cases he
  · rename_i hguard
    obtain rfl := Option.mem_def.1 he
    obtain ⟨member, v, -, hv, rfl⟩ := yields_emitExpr_field_some.1 hw
    exact ⟨v, _, hv, opensSuffix_accessOperator false false member.toList, by
      simp [accessText, hguard, accessOperator]⟩

theorem exists_suffix_call {site : Option Expr} {selection : Selection} {arguments : List Argument}
    {optional : Bool} {e : Expr} (he : e ∈ (Expr.call site selection arguments optional).suffixed?)
    (hw : Yields (emitExpr g (.call site selection arguments optional)) n () w) :
    ∃ v suffix, Yields (emitExpr g e) n () v ∧ OpensSuffix suffix ∧ w = v ++ suffix := by
  rw [Expr.suffixed?] at he
  split at he
  · cases he
  · rename_i hguard
    obtain rfl := Option.mem_def.1 he
    obtain ⟨member, a, v, -, -, hv, rfl⟩ := yields_emitExpr_call_some.1 hw
    exact ⟨v, _, hv,
      opensSuffix_accessOperator true (isTypeReference e) (member.toList ++ '(' :: a ++ [')']), by
        simp [accessText, hguard]⟩

/-- The text of a node with an access behind a site is the text of the site and the access. -/
theorem exists_suffix {e site : Expr} (hsite : site ∈ e.suffixed?) (hw : Yields (emitExpr g e) n () w) :
    ∃ v suffix, Yields (emitExpr g site) n () v ∧ OpensSuffix suffix ∧ w = v ++ suffix := by
  cases e with
  | field site' selection => exact exists_suffix_field hsite hw
  | call site' selection arguments optional => exact exists_suffix_call hsite hw
  | property site' selection indices =>
    obtain ⟨u, i, hu, -, rfl⟩ := yields_emitExpr_property.1 hw
    obtain ⟨v, suffix, hv, ⟨c, hc, hhead⟩, rfl⟩ := exists_suffix_field hsite hu
    refine ⟨v, suffix ++ i, hv, ⟨c, hc, ?_⟩, by simp⟩
    rw [List.head?_append, hhead]
    rfl
  | element array indices =>
    cases indices with
    | nil => cases hsite
    | cons index indices =>
      obtain rfl : array = site := Option.some.inj hsite
      obtain ⟨v, i, hv, hi, rfl⟩ := yields_emitExpr_element.1 hw
      obtain ⟨k, ks, -, -, rfl⟩ := yields_emitIndices_cons.1 hi
      exact ⟨v, _, hv, ⟨'[', by decide, rfl⟩, rfl⟩
  | shared | atom | array | dictionary | tuple | unary | binary | construct | allocate | wrapped
  | conditional | cast | assigned | method | anonymousType => cases hsite

theorem mem_children_of_suffixed {e site : Expr} (h : site ∈ e.suffixed?) :
    .expression site ∈ (Node.expression e).children ∧ (Node.expression e).seen.isClosed = false := by
  have hoperand : site ∈ e.operands := by
    cases e with
    | field site' selection =>
      rw [Expr.suffixed?] at h
      split at h <;> simp_all [Expr.operands]
    | call site' selection arguments optional =>
      rw [Expr.suffixed?] at h
      split at h <;> simp_all [Expr.operands]
    | property site' selection indices =>
      rw [Expr.suffixed?] at h
      split at h <;> simp_all [Expr.operands]
    | element array indices => cases indices <;> simp_all [Expr.operands, Expr.suffixed?]
    | shared | atom | array | dictionary | tuple | unary | binary | construct | allocate | wrapped
    | conditional | cast | assigned | method | anonymousType => cases h
  refine ⟨by simp [Node.children, hoperand], ?_⟩
  cases e <;> first | rfl | cases h

/-! ## Accepted trees -/

theorem Source.rendered_subset {source : Source} {node : Node} (h : node ∈ source.rendered) :
    node.rendered ⊆ source.rendered := by
  cases source with
  | expression e =>
    have hroot : node ∈ (Node.expression e).rendered := h
    exact Node.rendered_subset_of_mem_rendered hroot
  | statements body =>
    rw [Source.rendered, renderedStatements_eq] at h ⊢
    obtain ⟨s, hs, hnode⟩ := List.mem_flatMap.1 h
    exact fun other hother => List.mem_flatMap.2
      ⟨s, hs, Node.rendered_subset_of_mem_rendered hnode hother⟩

theorem allRepresentable_of_generate {generator : Generator} {source : Source} {text : String}
    (h : (generator.generate source).1 = .ok text) :
    AllRepresentable generator.setting source.rendered := by
  cases source with
  | expression e =>
    have haccepted : (generator.generateExpression e).1 = .ok text := h
    exact generateExpression_isOk.1 (by rw [haccepted]; rfl)
  | statements body =>
    have haccepted : (generator.generateStatements body).1 = .ok text := h
    exact generateStatements_isOk.1 (by rw [haccepted]; rfl)

/-- Wherever an access is written behind a site in an accepted tree, the text of the site is that of a
name, another access, a call or something in parentheses exactly if the site has the form for it. -/
theorem suffixed_isPrefix_iff {names : NameTable} {config : Config} {source : Source} {text : String}
    (haccepted : ((Generator.new names config).generate source).1 = .ok text)
    (hraw : ∀ node ∈ source.rendered, node.isRaw = false)
    (hnames : ∀ node ∈ source.rendered, ∀ s ∈ node.symbols, ∀ name ∈ names.resolve s,
      isName name = true) :
    ∀ e, .expression e ∈ source.rendered → ∀ site ∈ e.suffixed?, ∃ x,
      toLua? (fun _ name => name) ⟨names, config⟩ site = some x ∧
      (x.isPrefix = true ↔ site.hasPrefixForm config.target = true) ∧
      ∀ n, ∃ v suffix, Yields (emitExpr ⟨names, config⟩ e) n () (v ++ suffix) ∧
        Yields (emitExpr ⟨names, config⟩ site) n () v ∧ OpensSuffix suffix ∧
        ((∀ node ∈ site.rendered, Composed (fun _ name => name) ⟨names, config⟩ True node) →
          readExpression (String.ofList v) = some x) := by
  intro e he site hsite
  obtain ⟨hchild, hopen⟩ := mem_children_of_suffixed hsite
  have hbelow : site.rendered ⊆ source.rendered :=
    List.Subset.trans (Node.rendered_subset_of_mem_children hopen hchild) (Source.rendered_subset he)
  have hrepresentable := allRepresentable_of_generate haccepted
  obtain ⟨_, hv⟩ := (succeeds_emitExpr site 0).2 fun node hnode => hrepresentable node (hbelow hnode)
  obtain ⟨x, hx⟩ := exists_toLua? (fun _ name => name) site (fun node hnode => hraw node (hbelow hnode)) hv
  refine ⟨x, hx, by rw [isPrefix_toLua? site hx]; rfl, fun n => ?_⟩
  obtain ⟨w, hw⟩ := (succeeds_emitExpr e n).2 fun node hnode =>
    hrepresentable node (Source.rendered_subset he hnode)
  obtain ⟨v, suffix, hv, hsuffix, rfl⟩ := exists_suffix hsite hw
  refine ⟨v, suffix, hw, hv, hsuffix, fun hcomposed => ?_⟩
  have hspellable : ∀ node ∈ site.rendered, Spellable ⟨names, config⟩ node := fun node hnode =>
    ⟨hraw node (hbelow hnode), (hcomposed node hnode).standard, hnames node (hbelow hnode),
      (hcomposed node hnode).sites⟩
  obtain ⟨y, hy, hread⟩ := readExpression_of_composed hspellable hcomposed hv
  rwa [Option.some.inj (hx.symm.trans hy)]

/-- An element of the result of a call: the text of the call is read as a call. -/
theorem suffixed_isPrefix_of_call :
    ∃ x, toLua? (fun _ name => name) ⟨⟨["x", "f"]⟩, {}⟩
        (.call (some (.identifier ⟨0⟩)) (.named ⟨1⟩) [] false) = some x ∧ x.isPrefix = true ∧
      ∀ n, ∃ v suffix, Yields (emitExpr ⟨⟨["x", "f"]⟩, {}⟩
          (.element (.call (some (.identifier ⟨0⟩)) (.named ⟨1⟩) [] false) [.literal (.string "k")]))
          n () (v ++ suffix) ∧ OpensSuffix suffix ∧ readExpression (String.ofList v) = some x := by
  obtain ⟨x, hx, hprefix, hread⟩ := @suffixed_isPrefix_iff ⟨["x", "f"]⟩ {}
    (.expression (.element (.call (some (.identifier ⟨0⟩)) (.named ⟨1⟩) [] false)
      [.literal (.string "k")])) _ rfl (by decide) (by decide) _ List.mem_cons_self _ rfl
  refine ⟨x, hx, hprefix.2 rfl, fun n => ?_⟩
  obtain ⟨v, suffix, hw, -, hsuffix, hread⟩ := hread n
  refine ⟨v, suffix, hw, hsuffix, hread fun node hnode => ⟨?_, ?_, fun _ => trivial, fun _ => ?_, ?_⟩⟩
  · revert node
    decide
  · revert node
    decide
  · revert node
    decide
  · rintro - s rfl
    simp [Expr.rendered, Expr.identifier, renderedExpr?, renderedArguments] at hnode

/-- A call on a string is accepted and written behind its bare text, and cannot be read. -/
theorem not_isPrefix_string :
    ((Generator.new ⟨["upper"]⟩ {}).generate
      (.expression (.call (some (.literal (.string "abc"))) (.named ⟨0⟩) [] false))).1 =
        .ok "\"abc\":upper()" ∧
    (Expr.call (some (.literal (.string "abc"))) (.named ⟨0⟩) [] false).suffixed? =
      some (.literal (.string "abc")) ∧
    readExpression "\"abc\"" = some (.string [97, 98, 99]) ∧
    (Exp.string [97, 98, 99] : Exp String).isPrefix = false ∧
    readExpression "\"abc\":upper()" = none := by
  have hlex : lex "\"abc\"".toList = [.string [97, 98, 99]] := by decide
  have hlex' : lex "\"abc\":upper()".toList =
      [.string [97, 98, 99], .mark .colon, .name "upper", .mark .leftParen, .mark .rightParen] := by
    decide
  refine ⟨rfl, rfl, ?_, rfl, ?_⟩
  · rw [readExpression, hlex, List.parseExp, List.parseOperand]
    simp [UnaryOp.ofToken?, List.parseSimple, List.parseTail]
  · rw [readExpression, hlex', List.parseExp, List.parseOperand]
    simp [UnaryOp.ofToken?, List.parseSimple, List.parseTail, BinaryOp.ofToken?]

end Lua

end CodeTree
