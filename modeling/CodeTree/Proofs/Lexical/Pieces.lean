import CodeTree.Proofs.Emission.Rendered
import CodeTree.Proofs.Emission.Text
import CodeTree.Proofs.Lexical.Scan

/-! # Code and strings in the pieces of a text

The text of a node is put together from fixed pieces, names, literals, custom operators and the texts
of its parts. Each of these reads as code and whole strings, wherever the pieces are put together in
the way of the emitter. Names must be names, and custom operators must not contain quotes, opening
brackets or comments themselves.

* `Legible`: the condition on each node.
* `Neat u ss`: `u` is the text of an expression with the strings `ss`.
* `Neat.prefixed`, `neat_literalText`, `neat_form`, `neat_accessText`: the pieces.
* `neat_emitAtom`, `neat_emitUnary`, `neat_emitField`, `neat_emitCall`: nodes, given their parts. -/

namespace CodeTree.Lua

set_option autoImplicit false

/-- Whether a custom operator leaves strings and comments alone. -/
def IsHarmless (operator : String) : Prop :=
  (∀ c ∈ operator.toList, isQuote c = false ∧ c ≠ '[') ∧ ¬ ['-', '-'] <:+: operator.toList

-- The bounded quantifier is decided along the text and not by going through all characters.
instance (operator : String) : Decidable (IsHarmless operator) :=
  @instDecidableAnd _ _ (List.decidableBAll _ operator.toList)
    (@instDecidableNot _ (List.instDecidableIsInfixOfDecidableEq ['-', '-'] operator.toList))

/-- A node without raw code whose names are names and whose operator is harmless. -/
structure Legible (g : Setting) (node : Node) : Prop where
  notRaw : node.isRaw = false
  names : ∀ s ∈ node.symbols, ∀ name, g.names.resolve s = some name → isIdentifier name = true
  operator : ∀ text ∈ node.customText?, IsHarmless text

def stringsOf (nodes : List Node) : List (List UInt8) :=
  (nodes.flatMap Node.strings).map bytesOf

@[simp] theorem stringsOf_nil : stringsOf [] = [] := rfl

@[simp] theorem stringsOf_cons (node : Node) (nodes : List Node) :
    stringsOf (node :: nodes) = node.strings.map bytesOf ++ stringsOf nodes := by
  simp [stringsOf]

theorem stringsOf_node {e : Expr} {nodes : List Node} (h : e.literal? = none) :
    stringsOf (.expression e :: nodes) = stringsOf nodes := by
  simp [Node.strings, h]

@[simp] theorem stringsOf_append (nodes nodes' : List Node) :
    stringsOf (nodes ++ nodes') = stringsOf nodes ++ stringsOf nodes' := by
  simp [stringsOf]

/-- The text of an expression: it can stand behind a bracket. -/
structure Neat (u : List Char) (ss : List (List UInt8)) : Prop where
  scans : Scans u ss
  opens : ∃ c cs, u = c :: cs ∧ c ≠ '[' ∧ c ≠ '='

variable {g : Setting} {n : Nat} {u v w : List Char} {ss ts : List (List UInt8)}

theorem Neat.append (hu : Neat u ss) (hv : Scans v ts) : Neat (u ++ v) (ss ++ ts) := by
  obtain ⟨c, cs, rfl, hc⟩ := hu.opens
  exact ⟨hu.scans.append hv, c, cs ++ v, rfl, hc⟩

theorem Neat.append_silent (hu : Neat u ss) (hv : Scans v []) : Neat (u ++ v) ss := by
  simpa using hu.append hv

/-! ## Pieces -/

theorem neat_name {name : String} (h : isIdentifier name = true) : Neat name.toList [] := by
  refine ⟨scans_name h, ?_⟩
  obtain ⟨c, cs, hname, hc, -⟩ := exists_of_isIdentifier h
  refine ⟨c, cs, hname, ?_, ?_⟩ <;> (rintro rfl; exact absurd hc (by decide))

theorem scans_dot {name : String} (h : isIdentifier name = true) : Scans ('.' :: name.toList) [] :=
  (scans_of_isSilent (u := ['.']) rfl).silent_append (scans_name h)

theorem Neat.bracketed (h : Neat v ss) : Scans ('[' :: v ++ [']']) ss := by
  intro a found ha
  obtain ⟨c, cs, hv, hc⟩ := h.opens
  have hopen : Scan.step (.code a found) '[' = .code '[' found := by
    simp [Scan.step, opensComment_of_isCalm ha, isQuote]
  have hbehind : ∀ d ∈ v.head?, opensComment '[' d = false := by
    rintro d hd
    obtain rfl : c = d := by simpa [hv] using hd
    simp [opensComment, hc.1, hc.2]
  obtain ⟨b, hb, hscan⟩ := h.scans.foldl hbehind (by simp [hv]) found
  refine ⟨']', ⟨by decide, by decide⟩, ?_⟩
  rw [List.cons_append, List.foldl_cons, hopen, List.foldl_append, hscan]
  simp [Scan.step, opensComment_of_isCalm hb, isQuote]

theorem foldl_operator {text : List Char} (h : ∀ c ∈ text, isQuote c = false ∧ c ≠ '[') {a : Char}
    (ha : a ≠ '[') (hcomment : ¬ ['-', '-'] <:+: a :: text) (found : List (List UInt8)) :
    text.foldl Scan.step (.code a found) = .code (text.getLastD a) found := by
  induction text generalizing a with
  | nil => rfl
  | cons c cs ih =>
    have hc := h c (by simp)
    have hopens : opensComment a c = false := by
      by_contra hopens
      obtain ⟨rfl, rfl⟩ : c = '-' ∧ a = '-' := by simpa [opensComment, ha] using hopens
      exact hcomment ⟨[], cs, rfl⟩
    have hstep : Scan.step (.code a found) c = .code c found := by
      simp [Scan.step, hopens, hc.1]
    rw [List.foldl_cons, hstep, List.getLastD_cons]
    refine ih (fun d hd => h d (List.mem_cons_of_mem c hd)) hc.2 fun hinner => ?_
    exact hcomment (hinner.trans (List.suffix_cons a (c :: cs)).isInfix)

theorem foldl_operator_behind {operator : String} (h : IsHarmless operator) {a : Char}
    (ha : isCalm a) (found : List (List UInt8)) :
    operator.toList.foldl Scan.step (.code a found) = .code (operator.toList.getLastD a) found := by
  refine foldl_operator h.1 ha.2 ?_ found
  rw [List.infix_cons_iff]
  rintro (hhead | hinner)
  · exact ha.1 (List.cons_prefix_cons.1 hhead).1.symm
  · exact h.2 hinner

theorem scans_operator {operator : String} (h : IsHarmless operator) :
    Scans (" " ++ operator ++ " ").toList [] := by
  intro a found ha
  refine ⟨' ', ⟨by decide, by decide⟩, ?_⟩
  have hblank : [' '].foldl Scan.step (.code a found) = .code ' ' found := by
    simp [Scan.step, opensComment_of_isCalm ha, isQuote]
  simp only [String.toList_append, List.foldl_append, show " ".toList = [' '] from rfl]
  rw [hblank, foldl_operator_behind h ⟨by decide, by decide⟩]
  simp [Scan.step, opensComment, isQuote]

/-- The blank behind a minus sign keeps it from opening a comment together with another one. -/
theorem Neat.prefixed {operator : String} (h : IsHarmless operator) (hv : Neat v ss) :
    Neat ('(' :: operator.toList ++ gap operator v ++ v ++ [')']) ss := by
  refine ⟨?_, '(', _, rfl, by decide, by decide⟩
  intro a found ha
  have hopen : ['('].foldl Scan.step (.code a found) = .code '(' found := by
    simp [Scan.step, opensComment_of_isCalm ha, isQuote]
  obtain ⟨c, cs, hcs, hc⟩ := hv.opens
  -- Reading the operand starts behind the blank, or behind the end of the operator.
  have hoperand : ∃ b, isCalm b ∧ (gap operator v ++ v).foldl Scan.step
      (.code (operator.toList.getLastD '(') found) = .code b (found ++ ss) := by
    by_cases hgap : endsWith '-' operator ∧ v.head? = some '-'
    · obtain ⟨b, hb, hscan⟩ := hv.scans ' ' found ⟨by decide, by decide⟩
      refine ⟨b, hb, ?_⟩
      rw [gap, if_pos hgap, List.cons_append, List.nil_append, List.foldl_cons, ← hscan]
      simp [Scan.step, opensComment, isQuote]
    · rw [gap, if_neg hgap, List.nil_append]
      refine hv.scans.foldl ?_ (by simp [hcs]) found
      rintro d hd
      obtain rfl : c = d := by simpa [hcs] using hd
      have hminus : ¬ (c = '-' ∧ operator.toList.getLastD '(' = '-') := by
        rintro ⟨rfl, hminus⟩
        refine hgap ⟨?_, by simp [hcs]⟩
        rw [List.getLastD_eq_getLast?] at hminus
        cases hend : operator.toList.getLast? with
        | none => simp [hend] at hminus
        | some d =>
          obtain rfl : d = '-' := by simpa [hend] using hminus
          simp [endsWith, hend]
      simpa [opensComment, hc.1, hc.2] using hminus
  obtain ⟨b, hb, hscan⟩ := hoperand
  refine ⟨')', ⟨by decide, by decide⟩, ?_⟩
  have htext : '(' :: operator.toList ++ gap operator v ++ v ++ [')'] =
      ['('] ++ operator.toList ++ (gap operator v ++ v) ++ [')'] := by simp
  rw [htext]
  simp only [List.foldl_append] at hscan ⊢
  rw [hopen, foldl_operator_behind h ⟨by decide, by decide⟩, hscan]
  simp [Scan.step, opensComment_of_isCalm hb, isQuote]

def opensCode : List Char → Bool
  | [] => false
  | c :: _ => c != '[' && c != '='

/-- A fixed text that is the whole or the beginning of an expression. -/
theorem neat_of_isSilent (h : isSilent ' ' u = true) (hopens : opensCode u = true) : Neat u [] := by
  refine ⟨scans_of_isSilent h, ?_⟩
  cases u with
  | nil => exact nomatch hopens
  | cons c cs =>
    rw [opensCode, Bool.and_eq_true, bne_iff_ne, bne_iff_ne] at hopens
    exact ⟨c, cs, rfl, hopens⟩

/-! ## Literals -/

theorem neat_of_forall_isInert (hne : u ≠ []) (h : ∀ c ∈ u, isInert c = true) : Neat u [] := by
  refine ⟨scans_of_forall_isInert h, ?_⟩
  cases u with
  | nil => exact absurd rfl hne
  | cons c cs =>
    have hc : isInert c = true := h c (by simp)
    refine ⟨c, cs, rfl, ?_, ?_⟩ <;> (rintro rfl; exact absurd hc (by decide))

theorem neat_signed (negative : Bool) (hne : u ≠ []) (h : ∀ c ∈ u, isInert c = true) :
    Neat (sign negative ++ u) [] := by
  have hu := neat_of_forall_isInert hne h
  cases negative with
  | false => exact hu
  | true =>
    refine ⟨?_, '-', u, rfl, by decide, by decide⟩
    intro a found ha
    obtain ⟨c, cs, rfl, -⟩ := hu.opens
    have hminus : ∀ d ∈ (c :: cs).head?, opensComment '-' d = false := by
      rintro d ⟨⟩
      have hc : isInert c = true := h c (by simp)
      have hne : c ≠ '-' := by rintro rfl; exact absurd hc (by decide)
      simp [opensComment, hne]
    obtain ⟨b, hb, hscan⟩ := hu.scans.foldl hminus (by simp) found
    refine ⟨b, hb, ?_⟩
    rw [show sign true ++ c :: cs = '-' :: c :: cs from rfl, List.foldl_cons, ← hscan]
    simp [Scan.step, opensComment_of_isCalm ha, isQuote]

theorem isInert_of_isDigit {c : Char} (h : c.isDigit = true) : isInert c = true := by
  simp [isInert, isWordChar_of_isDigit h]

theorem isInert_of_isPositional (h : IsPositional u) : ∀ c ∈ u, isInert c = true := by
  obtain ⟨whole, fraction, hwhole, hfraction, rfl⟩ := h
  intro c hc
  rcases List.mem_append.1 hc with hc | hc
  · exact isInert_of_isDigit (hwhole.isDigit c hc)
  · rcases List.mem_cons.1 hc with rfl | hc
    · rfl
    · exact isInert_of_isDigit (hfraction.isDigit c hc)

theorem IsPositional.ne_nil (h : IsPositional u) : u ≠ [] := by
  obtain ⟨_, _, _, _, rfl⟩ := h
  simp

theorem neat_integerText (target : Target) (value : Int64) :
    Neat (integerText target value).toList [] := by
  rw [integerText]
  split
  · exact neat_of_isSilent rfl rfl
  · rw [toList_integerText]
    have hdigits := isDigits_toDigits value.toInt.natAbs
    exact neat_signed _ hdigits.ne_nil fun c hc => isInert_of_isDigit (hdigits.isDigit c hc)

theorem neat_floatText (value : Binary64) : Neat (floatText value).toList [] := by
  by_cases hnan : value.isNaN = true
  · rw [floatText, if_pos hnan]
    exact neat_of_isSilent rfl rfl
  · rw [Bool.not_eq_true] at hnan
    by_cases hinfinite : value.isInfinite = true
    · simp only [floatText, hnan, hinfinite, Bool.false_eq_true, if_false, if_true]
      cases value.isNegative <;> exact neat_of_isSilent rfl rfl
    · rw [Bool.not_eq_true] at hinfinite
      have hpositional := isPositional_positional value.shortest
      rw [toList_floatText hnan hinfinite]
      exact neat_signed _ hpositional.ne_nil (isInert_of_isPositional hpositional)

/-- A literal is its own string, or no string. -/
theorem neat_literalText (target : Target) (l : Literal) :
    Neat (literalText target l).toList (l.text?.toList.map bytesOf) := by
  have hquote : ∀ text : String, Neat (quote text).toList [bytesOf text.toList] := by
    intro text
    exact ⟨scans_quote text, '"', _, by simp [quote]; rfl, by decide, by decide⟩
  cases l with
  | string value => exact hquote value
  | character value =>
    show Neat _ [bytesOf [value]]
    rw [show [value] = (String.singleton value).toList by simp]
    exact hquote (String.singleton value)
  | integer value => exact neat_integerText target value
  | float value => exact neat_floatText value
  | boolean value =>
    have htrue : Neat "true".toList [] := neat_of_isSilent rfl rfl
    have hfalse : Neat "false".toList [] := neat_of_isSilent rfl rfl
    cases value
    · exact hfalse
    · exact htrue

/-! ## Forms -/

def BinaryForm.isCode (form : BinaryForm) : Bool :=
  isSilent ' ' form.opening.toList && opensCode form.opening.toList
    && isSilent ' ' form.between.toList && isSilent ' ' form.closing.toList

theorem isCode_of_standard {target : Target} {kind : BinaryKind} {form : BinaryForm}
    (h : binaryForm target (.standard kind) = .ok form) : form.isCode = true := by
  have hall : ∀ form ∈ (binaryForm target (.standard kind)).toOption, form.isCode = true := by
    cases target <;> cases kind <;> decide
  exact hall form (by simp [h, Except.toOption])

theorem neat_form {target : Target} {operator : Operator BinaryKind} {form : BinaryForm}
    (hoperator : ∀ text ∈ operator.customText?, IsHarmless text)
    (h : binaryForm target operator = .ok form) :
    Neat form.opening.toList [] ∧ Scans form.between.toList [] ∧ Scans form.closing.toList [] := by
  cases operator with
  | custom text =>
    obtain rfl : BinaryForm.parenthesized text = form := by simpa [binaryForm] using h
    have hopening : Neat "(".toList [] := neat_of_isSilent rfl rfl
    have hclosing : Scans ")".toList [] := scans_of_isSilent rfl
    exact ⟨hopening, scans_operator (hoperator text rfl), hclosing⟩
  | standard kind =>
    have hcode := isCode_of_standard h
    simp only [BinaryForm.isCode, Bool.and_eq_true] at hcode
    obtain ⟨⟨⟨hopening, hopens⟩, hbetween⟩, hclosing⟩ := hcode
    exact ⟨neat_of_isSilent hopening hopens, scans_of_isSilent hbetween, scans_of_isSilent hclosing⟩

theorem scans_guardText {nilSafe optional : Bool} {member : String}
    (h : isIdentifier member = true) : Scans (guardText nilSafe optional member).toList [] := by
  have hoptional : Scans ("t." ++ member ++ " == nil").toList [] := by
    simp only [String.toList_append]
    exact ((scans_of_isSilent rfl).silent_append (scans_name h)).silent_append
      (scans_of_isSilent rfl)
  have hnil : Scans "t == nil".toList [] := scans_of_isSilent rfl
  cases nilSafe <;> cases optional
  · exact Scans.nil
  · simpa [guardText] using hoptional
  · simpa [guardText] using hnil
  · have hboth : (guardText true true member).toList =
        "t == nil or ".toList ++ ("t." ++ member ++ " == nil").toList := by
      simp [guardText]
    rw [hboth]
    exact (scans_of_isSilent rfl).silent_append hoptional

/-- A guarded access reads its call before its site, any other its site before its call. -/
theorem neat_accessText {guarded : Bool} {guard : String} {operator : Char} {member : String}
    (hguard : Scans guard.toList []) (hoperator : operator = '.' ∨ operator = ':')
    (hmember : isIdentifier member = true) (hu : Neat u ss) (hv : Scans v ts) :
    Neat (accessText guarded guard operator member u v) (if guarded then ts ++ ss else ss ++ ts) := by
  have hselect : Scans (operator :: member.toList) [] := by
    have hone : Scans [operator] [] := by rcases hoperator with rfl | rfl <;> exact scans_of_isSilent rfl
    exact hone.silent_append (scans_name hmember)
  cases guarded with
  | false => exact (hu.append_silent hselect).append hv
  | true =>
    have hopening : Neat "(function(t) if ".toList [] := neat_of_isSilent rfl rfl
    have hreturn : Scans " then return nil end return t".toList [] := scans_of_isSilent rfl
    have hclosing : Scans " end)(".toList [] := scans_of_isSilent rfl
    have hend : Scans [')'] [] := scans_of_isSilent rfl
    have hbody := ((hopening.append_silent hguard).append_silent hreturn).append_silent hselect
    have hcall := (hbody.append hv).append_silent hclosing
    exact (hcall.append hu.scans).append_silent hend

/-! ## Nodes -/

theorem Scans.between {opening closing : List Char} (hv : Scans v ss) (hopening : Neat opening [])
    (hclosing : Scans closing []) : Neat (opening ++ v ++ closing) ss := by
  simpa using (hopening.append hv).append_silent hclosing

theorem neat_parenthesis : Neat ['('] [] := neat_of_isSilent rfl rfl

theorem scans_parenthesis : Scans [')'] [] := scans_of_isSilent rfl

theorem Scans.braced (h : Scans v ss) : Neat ('{' :: v ++ ['}']) ss := by
  have hopening : Neat ['{'] [] := neat_of_isSilent rfl rfl
  have hclosing : Scans ['}'] [] := scans_of_isSilent rfl
  exact h.between hopening hclosing

theorem scans_comma (isFirst : Bool) : Scans (comma isFirst) [] := by
  cases isFirst
  · exact scans_of_isSilent rfl
  · exact Scans.nil

theorem scans_spaces (k : Nat) : Scans (List.replicate k ' ') [] := by
  induction k with
  | zero => exact Scans.nil
  | succ k ih =>
    have hblank : Scans [' '] [] := scans_of_isSilent rfl
    exact hblank.silent_append ih

theorem neat_emitAtom {a : Atom} (h : Legible g (.expression (.atom a)))
    (hw : Yields (emitAtom g a) n () w) : Neat w (stringsOf [.expression (.atom a)]) := by
  cases a with
  | nil =>
    rw [yields_emitAtom_nil.1 hw]
    exact neat_of_isSilent rfl rfl
  | selfReference =>
    rw [yields_emitAtom_self.1 hw]
    exact neat_of_isSilent rfl rfl
  | literal l =>
    rw [yields_emitAtom_literal.1 hw, stringsOf_cons, stringsOf_nil, List.append_nil]
    exact neat_literalText g.config.target l
  | identifier name =>
    obtain ⟨text, htext, rfl⟩ := yields_emitAtom_identifier.1 hw
    exact neat_name (h.names name (by simp [Node.symbols, Expr.symbols, Atom.symbols]) text htext)
  | localVariable read =>
    obtain ⟨text, htext, rfl⟩ := yields_emitAtom_localVariable.1 hw
    exact neat_name (h.names read.name (by simp [Node.symbols, Expr.symbols, Atom.symbols]) text htext)
  | typeReference type =>
    obtain ⟨text, htext, rfl⟩ := yields_emitAtom_typeReference.1 hw
    exact neat_name (h.names type.name (by simp [Node.symbols, Expr.symbols, Atom.symbols]) text htext)
  | enumValue value =>
    obtain ⟨type, htype, name, hname, rfl⟩ := yields_emitAtom_enumValue.1 hw
    have htype := h.names value.type.name (by simp [Node.symbols, Expr.symbols, Atom.symbols]) type htype
    have hname := h.names value.value (by simp [Node.symbols, Expr.symbols, Atom.symbols]) name hname
    exact (neat_name htype).append_silent (scans_dot hname)
  | raw code => exact nomatch h.notRaw
  | propertyValue => exact absurd hw not_yields_emitAtom_propertyValue
  | inherited => exact absurd hw not_yields_emitAtom_inherited
  | selector name => exact absurd hw not_yields_emitAtom_selector
  | default type => exact absurd hw not_yields_emitAtom_default

theorem neat_emitUnary {operator : Operator UnaryKind} {operand : Emit Unit} [Tidy operand]
    (h : ∀ text ∈ operator.customText?, IsHarmless text)
    (hoperand : ∀ v, Yields operand n () v → Neat v ss)
    (hw : Yields (emitUnary operator operand) n () w) : Neat w ss := by
  have hoperator : ∀ text : String, IsHarmless text →
      Yields (emitPrefixed text operand) n () w → Neat w ss := by
    intro text htext hw
    obtain ⟨v, hv, rfl⟩ := yields_emitPrefixed.1 hw
    exact (hoperand v hv).prefixed htext
  match operator with
  | .standard .plus => exact hoperand w hw
  | .standard .minus => exact hoperator "-" (by decide) hw
  | .standard .not => exact hoperator "not " (by decide) hw
  | .standard .addressOf => exact absurd hw not_yields_emitUnary_addressOf
  | .custom text => exact hoperator text (h text rfl) hw

section Access

variable {site : Option Expr} {selection : Selection}

theorem neat_emitField (hname : ∀ name, g.names.resolve selection.name = some name →
      isIdentifier name = true)
    (hsite : ∀ e ∈ site, ∀ v, Yields (emitExpr g e) n () v → Neat v (stringsOf e.rendered))
    (hw : Yields (emitExpr g (.field site selection)) n () w) :
    Neat w (stringsOf (renderedExpr? site)) := by
  cases site with
  | none =>
    obtain ⟨member, hmember, rfl⟩ := yields_emitExpr_field_none.1 hw
    exact neat_name (hname member hmember)
  | some e =>
    obtain ⟨member, v, hmember, hv, rfl⟩ := yields_emitExpr_field_some.1 hw
    have hmember := hname member hmember
    have hguard : Scans (guardText selection.nilSafe false member).toList [] :=
      scans_guardText hmember
    have haccess : Neat (accessText selection.nilSafe (guardText selection.nilSafe false member) '.'
        member v []) _ :=
      neat_accessText hguard (Or.inl rfl) hmember (hsite e rfl v hv) Scans.nil
    simpa [renderedExpr?] using haccess

theorem neat_emitCall {arguments : List Argument} {optional : Bool}
    (hname : ∀ name, g.names.resolve selection.name = some name → isIdentifier name = true)
    (hsite : ∀ e ∈ site, ∀ v, Yields (emitExpr g e) n () v → Neat v (stringsOf e.rendered))
    (harguments : ∀ v, Yields (emitArguments g true arguments) n () v → Scans v ss)
    (hw : Yields (emitExpr g (.call site selection arguments optional)) n () w) :
    Neat w (if selection.nilSafe || optional then ss ++ stringsOf (renderedExpr? site)
      else stringsOf (renderedExpr? site) ++ ss) := by
  cases site with
  | none =>
    obtain ⟨member, v, hmember, hv, rfl⟩ := yields_emitExpr_call_none.1 hw
    have hcall := (harguments v hv).between neat_parenthesis scans_parenthesis
    simpa [renderedExpr?] using (neat_name (hname member hmember)).append hcall.scans
  | some e =>
    obtain ⟨member, v, s, hmember, hv, hs, rfl⟩ := yields_emitExpr_call_some.1 hw
    have hmember := hname member hmember
    have hcall := (harguments v hv).between neat_parenthesis scans_parenthesis
    have hoperator : accessOperator true (isTypeReference e) = '.' ∨
        accessOperator true (isTypeReference e) = ':' := by
      rw [accessOperator]
      split
      · exact Or.inr rfl
      · exact Or.inl rfl
    exact neat_accessText (scans_guardText hmember) hoperator hmember (hsite e rfl s hs) hcall.scans

end Access

theorem neat_emitConstruct {type : TypeReference} {constructor : Option Symbol}
    {arguments initializers : List Argument}
    (h : Legible g (.expression (.construct type constructor arguments initializers)))
    (harguments : ∀ v, Yields (emitArguments g true arguments) n () v → Scans v ss)
    (hinitializers : ∀ v, Yields (emitInitializers g initializers) n () v → Scans v ts)
    (hw : Yields (emitExpr g (.construct type constructor arguments initializers)) n () w) :
    Neat w (ss ++ ts) := by
  have hcreation : ∀ v, Yields (emitExpr g (.construct type constructor arguments [])) n () v →
      Neat v ss := by
    intro v hv
    obtain ⟨typeName, name, a, htype, hname, ha, rfl⟩ := yields_emitExpr_construct.1 hv
    have htype : isIdentifier typeName = true :=
      h.names type.name (by simp [Node.symbols, Expr.symbols]) typeName htype
    have hname : isIdentifier name = true := by
      cases constructor with
      | none =>
        obtain rfl : "new" = name := by simpa [constructorName] using hname
        rfl
      | some s => exact h.names s (by simp [Node.symbols, Expr.symbols]) name hname
    have hopening : Neat (constructorText typeName name) [] :=
      ((neat_name htype).append_silent (scans_dot hname)).append_silent neat_parenthesis.scans
    exact (harguments a ha).between hopening scans_parenthesis
  cases initializers with
  | nil => simpa using (hcreation w hw).append (hinitializers [] (yields_emitInitializers_nil.2 rfl))
  | cons i is =>
    obtain ⟨v, u, hv, hu, rfl⟩ := yields_emitExpr_construct_with.1 hw
    have hopening : Neat "(function() local o = ".toList [] := neat_of_isSilent rfl rfl
    have hclosing : Scans "; return o end)()".toList [] := scans_of_isSilent rfl
    simpa using ((hopening.append (hcreation v hv).scans).append (hinitializers u hu)).append_silent
      hclosing

theorem scans_emitParameterNames {isFirst : Bool} {parameters : List Parameter}
    (h : ∀ p ∈ parameters, ∀ name, g.names.resolve p.name = some name → isIdentifier name = true)
    (hw : Yields (emitParameterNames g isFirst parameters) n () w) : Scans w [] := by
  induction parameters generalizing isFirst w with
  | nil =>
    rw [yields_emitParameterNames_nil.1 hw]
    exact Scans.nil
  | cons p parameters ih =>
    obtain ⟨-, name, v, hname, hv, rfl⟩ := yields_emitParameterNames_cons.1 hw
    rw [List.forall_mem_cons] at h
    exact ((scans_comma isFirst).silent_append (scans_name (h.1 name hname))).silent_append (ih h.2 hv)

theorem scans_localText {name : String} (h : isIdentifier name = true) (constant : Bool) :
    Scans (localText g name constant) [] := by
  have hlocal : Scans "local ".toList [] := scans_of_isSilent rfl
  have hconstant : Scans (if constant && g.config.target.hasConstants then " <const>".toList
      else []) [] := by
    split
    · exact scans_of_isSilent rfl
    · exact Scans.nil
  exact (hlocal.silent_append (scans_name h)).silent_append hconstant

end CodeTree.Lua
