import CodeTree.Proofs.Reading.Leading

/-! # The texts of syntax trees

A text is written for a syntax tree when it spells the tokens of the tree and opens with a parenthesis
exactly when the tree does. Each form of text that the emitter puts together is written for the form of
syntax tree that goes with it, given that the texts of the parts are.

* `Written text w x`: the text `w` is written for `x`, where `text` gives the texts of the names.
* `Trails w ts`: `w` spells `ts` and does not run into an expression before it.
* `Listed isFirst w ts`: a list, from its first element or from a further one.
* `written_guarded`, `written_literalText` and the like: the forms of text. -/

namespace CodeTree.Lua

set_option autoImplicit false

variable {ν : Type}

def Exp.endsNumeral : Exp ν → Bool
  | numeral _ => true
  | unary _ x => x.endsNumeral
  | binary _ _ y => y.endsNumeral
  | _ => false

theorem Exp.endsNumeral_of_isPrefix {x : Exp ν} (h : x.isPrefix = true) : x.endsNumeral = false := by
  cases x <;> first | rfl | exact nomatch h

def isOpening (c : Char) : Bool :=
  isLetter c || c.isDigit || c == '(' || c == '-' || c == '\x7b' || c == '"'

structure Written (text : ν → String) (w : List Char) (x : Exp ν) : Prop where
  spells : Spells x.endsNumeral w (x.tokens text)
  opens : ∃ c cs, w = c :: cs ∧ isOpening c = true ∧ (c = '(' ↔ x.opensParen = true)

/-- A text behind an expression that goes on with a mark or is empty. -/
structure Trails (w : List Char) (ts : List Token) : Prop where
  apart : ∀ rest, Apart true rest → Apart true (w ++ rest)
  spells : Spells true w ts

variable {text : ν → String} {u v w : List Char} {us vs ts : List Token} {x y : Exp ν}

/-! ## Pieces -/

theorem Spells.weaken {numeral : Bool} (h : Spells numeral u us) : Spells true u us := by
  intro rest hrest
  refine h rest fun c hc => ⟨(hrest c hc).1, fun _ => (hrest c hc).2 rfl⟩

theorem Trails.nil : Trails [] [] := ⟨fun _ h => h, Fixed.nil.toSpells true⟩

theorem Trails.cons {c : Char} (hc : isWordChar c = false) (hdot : c ≠ '.')
    (h : Spells true (c :: v) vs) : Trails (c :: v) vs :=
  ⟨fun _ _ => Apart.cons hc (fun _ => hdot) _, h⟩

theorem Spells.trails {numeral : Bool} (hu : Spells numeral u us) (hv : Trails v vs) :
    Spells true (u ++ v) (us ++ vs) := by
  intro rest hrest
  rw [List.append_assoc, hu.weaken (v ++ rest) (hv.apart rest hrest), hv.spells rest hrest,
    List.append_assoc]

theorem fixed_openParen : Fixed ['('] [.mark .leftParen] :=
  fixed_of_run rfl rfl

theorem fixed_closeParen : Fixed [')'] [.mark .rightParen] :=
  fixed_of_run rfl rfl

theorem fixed_closeBracket : Fixed [']'] [.mark .rightBracket] :=
  fixed_of_run rfl rfl

theorem Spells.parenthesized {numeral : Bool} (h : Spells numeral v vs) :
    Fixed ('(' :: v ++ [')']) (.mark .leftParen :: vs ++ [.mark .rightParen]) := by
  have hclosed := (h.fixed fixed_closeParen rfl)
  exact (fixed_openParen.append hclosed).congr (by simp) (by simp)

/-- An opening bracket opens a long bracket only before another one and before an equals sign. -/
theorem Spells.bracketed {numeral : Bool} {c : Char} {cs : List Char}
    (h : Spells numeral (c :: cs) us) (hbracket : c ≠ '[') (hequals : c ≠ '=') :
    Spells numeral ('[' :: c :: cs) (.mark .leftBracket :: us) := by
  have hwrong : Mark.leftBracket.goesWrong c = false := by
    unfold Mark.goesWrong
    split <;> simp_all
  exact spells_mark (m := .leftBracket) rfl (by simp [Lexeme.grow?, hwrong, Mark.grow?]) h

/-- The blank keeps two minus signs apart. -/
theorem Spells.minus {numeral : Bool} {c : Char} {cs : List Char} (h : Spells numeral (c :: cs) us) :
    Spells numeral ('-' :: (gap "-" (c :: cs) ++ c :: cs)) (.mark .minus :: us) := by
  by_cases hc : c = '-'
  · have hblank : Fixed ['-', ' '] [.mark .minus] := fixed_of_run rfl rfl
    rw [gap, if_pos ⟨rfl, by simp [hc]⟩]
    exact hblank.spells h
  · rw [gap, if_neg (fun hgap => hc (by simpa using hgap.2))]
    exact spells_mark (m := .minus) rfl (grow?_minus hc) h

theorem isLetter_ne {c d : Char} (h : isLetter c = true) (hd : isLetter d = false) : c ≠ d := by
  rintro rfl
  rw [h] at hd
  exact nomatch hd

theorem isOpening_ne {c d : Char} (h : isOpening c = true) (hd : isOpening d = false) : c ≠ d := by
  rintro rfl
  rw [h] at hd
  exact nomatch hd

theorem isOpening_of_isLetter {c : Char} (h : isLetter c = true) : isOpening c = true := by
  simp [isOpening, h]

theorem isOpening_of_isDigit {c : Char} (h : c.isDigit = true) : isOpening c = true := by
  simp [isOpening, h]

/-! ## Names and access -/

theorem exists_letter_of_isName {name : String} (h : isName name = true) :
    ∃ c cs, name.toList = c :: cs ∧ isLetter c = true := by
  obtain ⟨c, cs, hname, hc, -⟩ := exists_of_isIdentifier (isIdentifier_of_isName h)
  exact ⟨c, cs, hname, hc⟩

theorem written_name {n : ν} (h : isName (text n) = true) : Written text (text n).toList (.name n) := by
  obtain ⟨c, cs, hname, hc⟩ := exists_letter_of_isName h
  refine ⟨spells_name h, c, cs, hname, isOpening_of_isLetter hc, ?_⟩
  exact iff_of_false (isLetter_ne hc rfl) nofun

theorem grow?_dot {d : Char} (h : isLetter d = true) : (Lexeme.mark .dot).grow? d = none := by
  have hdigit : d.isDigit = false := by
    rw [Bool.eq_false_iff]
    intro hd
    rw [not_isLetter_of_isDigit hd] at h
    exact nomatch h
  have hgrow : Mark.dot.grow? d = none := by
    unfold Mark.grow?
    split
    all_goals first
      | rfl
      | exact nomatch h
  simp [Lexeme.grow?, Mark.goesWrong, hdigit, hgrow]

theorem grow?_colon {d : Char} (h : isLetter d = true) : (Lexeme.mark .colon).grow? d = none := by
  have hgrow : Mark.colon.grow? d = none := by
    unfold Mark.grow?
    split
    all_goals first
      | rfl
      | exact nomatch h
  simp [Lexeme.grow?, Mark.goesWrong, hgrow]

theorem spells_dot {name : String} (h : isName name = true) :
    Spells false ('.' :: name.toList) [.mark .dot, .name name] := by
  obtain ⟨c, cs, hname, hc⟩ := exists_letter_of_isName h
  have hspells := spells_name h
  rw [hname] at hspells ⊢
  exact spells_mark (m := .dot) rfl (grow?_dot hc) hspells

theorem spells_colon {name : String} (h : isName name = true) :
    Spells false (':' :: name.toList) [.mark .colon, .name name] := by
  obtain ⟨c, cs, hname, hc⟩ := exists_letter_of_isName h
  have hspells := spells_name h
  rw [hname] at hspells ⊢
  exact spells_mark (m := .colon) rfl (grow?_colon hc) hspells

theorem Written.opens_append (h : Written text w x) (hopens : y.opensParen = x.opensParen) :
    ∃ c cs, w ++ v = c :: cs ∧ isOpening c = true ∧ (c = '(' ↔ y.opensParen = true) := by
  obtain ⟨c, cs, rfl, hc, hparen⟩ := h.opens
  exact ⟨c, cs ++ v, rfl, hc, hopens ▸ hparen⟩

theorem Written.field {name : String} (h : Written text w x) (hx : x.endsNumeral = false)
    (hname : isName name = true) : Written text (w ++ '.' :: name.toList) (.field x name) := by
  have hspells := h.spells
  rw [hx] at hspells
  exact ⟨hspells.spells (spells_dot hname) rfl, h.opens_append rfl⟩

theorem Written.spells_bracket (h : Written text w x) :
    Spells x.endsNumeral ('[' :: w) (.mark .leftBracket :: x.tokens text) := by
  obtain ⟨c, cs, rfl, hc, -⟩ := h.opens
  exact h.spells.bracketed (isOpening_ne hc rfl) (isOpening_ne hc rfl)

theorem Written.index (h : Written text w x) (hy : Written text v y) :
    Written text (w ++ '[' :: v ++ [']']) (.index x y) := by
  have hbracket := hy.spells_bracket.fixed fixed_closeBracket rfl
  have hindex := h.spells.fixed hbracket rfl
  refine ⟨(hindex.toSpells false).congr (by simp) (by simp [Exp.tokens]), ?_⟩
  rw [List.append_assoc]
  exact h.opens_append rfl

theorem Written.call {xs : List (Exp ν)} (h : Written text w x)
    (hxs : Spells true v (tokensExps text true xs)) :
    Written text (w ++ '(' :: v ++ [')']) (.call x xs) := by
  have hcall := h.spells.fixed hxs.parenthesized rfl
  refine ⟨(hcall.toSpells false).congr (by simp) (by simp [Exp.tokens]), ?_⟩
  rw [List.append_assoc]
  exact h.opens_append rfl

theorem Written.invoke {name : String} {xs : List (Exp ν)} (h : Written text w x)
    (hname : isName name = true) (hxs : Spells true v (tokensExps text true xs)) :
    Written text (w ++ ':' :: name.toList ++ '(' :: v ++ [')']) (.invoke x name xs) := by
  have hmember := h.spells.spells (spells_colon hname) rfl
  have hcall := hmember.fixed hxs.parenthesized rfl
  refine ⟨(hcall.toSpells false).congr (by simp) (by simp [Exp.tokens]), ?_⟩
  rw [List.append_assoc, List.append_assoc]
  exact h.opens_append rfl

/-! ## Parentheses and operations -/

theorem written_of_fixed (h : Fixed w (x.tokens text)) (hw : w.head? = some '(')
    (hopens : x.opensParen = true) : Written text w x := by
  obtain ⟨cs, rfl⟩ : ∃ cs, w = '(' :: cs := List.head?_eq_some_iff.1 hw
  exact ⟨h.toSpells _, '(', cs, rfl, rfl, iff_of_true rfl hopens⟩

theorem Written.paren (h : Written text w x) : Written text ('(' :: w ++ [')']) (.paren x) :=
  written_of_fixed h.spells.parenthesized rfl rfl

theorem Written.negated (h : Written text w x) :
    Written text ('(' :: '-' :: gap "-" w ++ w ++ [')']) (.paren (.unary .minus x)) := by
  obtain ⟨c, cs, rfl, -⟩ := h.opens
  have hparen := h.spells.minus.parenthesized
  refine written_of_fixed (hparen.congr (by simp) (by simp [Exp.tokens, UnaryOp.token])) rfl rfl

theorem Written.notted (h : Written text w x) :
    Written text ("(not ".toList ++ w ++ [')']) (.paren (.unary .not x)) := by
  have hnot : Fixed "(not ".toList [.mark .leftParen, .keyword .notWord] :=
    fixed_of_run rfl rfl
  have hparen := (hnot.spells h.spells).fixed fixed_closeParen rfl
  exact written_of_fixed (hparen.congr rfl (by simp [Exp.tokens, UnaryOp.token])) rfl rfl

/-- A custom operator stands directly before its operand. A word must not run into it. -/
theorem Written.prefixed {operator : String} {opening : Opening} (h : Written text w x)
    (hlua : (UnaryOp.ofText operator).isCustom = false) (hleads : Leads w opening)
    (hword : operator = "not" → opening ≠ .word) :
    Written text ('(' :: operator.toList ++ gap operator w ++ w ++ [')'])
      (.paren (.unary (.ofText operator) x)) := by
  have hprefixed : Spells x.endsNumeral (operator.toList ++ gap operator w ++ w)
      ((UnaryOp.ofText operator).token :: x.tokens text) := by
    intro rest hrest
    rw [List.append_assoc, lex_operator hlua hleads hword, h.spells rest hrest, List.cons_append]
  exact written_of_fixed (hprefixed.parenthesized.congr rfl (by simp [Exp.tokens])) rfl rfl

theorem Written.infixed {op : BinaryOp} {between : List Char} (hx : Written text w x)
    (hy : Written text v y) (hbetween : Fixed between [op.token])
    (hapart : isApart x.endsNumeral between = true) :
    Written text ('(' :: w ++ between ++ v ++ [')']) (.paren (.binary op x y)) := by
  have hleft := hx.spells.fixed hbetween hapart
  have hparen := (hleft.spells hy.spells).parenthesized
  exact written_of_fixed (hparen.congr (by simp) (by simp [Exp.tokens])) rfl rfl

theorem fixed_ofText {operator : String} (h : (BinaryOp.ofText operator).isCustom = false) :
    Fixed (' ' :: operator.toList ++ [' ']) [(BinaryOp.ofText operator).token] := by
  unfold BinaryOp.ofText at h ⊢
  split at h
  all_goals first
    | exact fixed_of_run rfl rfl
    | cases h

theorem Written.assigned (h : Written text w x) (inverted : Bool) :
    Written text ('(' :: w ++ (if inverted then " == nil)" else " ~= nil)").toList)
      (.paren (.binary (if inverted then .equal else .notEqual) x .nil)) := by
  have hequal : Fixed " == nil)".toList [.mark .equal, .keyword .nilWord, .mark .rightParen] :=
    fixed_of_run rfl rfl
  have hnotEqual : Fixed " ~= nil)".toList [.mark .notEqual, .keyword .nilWord, .mark .rightParen] :=
    fixed_of_run rfl rfl
  have hclosing : Fixed (if inverted then " == nil)" else " ~= nil)").toList
      [(if inverted then BinaryOp.equal else .notEqual).token, .keyword .nilWord, .mark .rightParen] := by
    cases inverted
    · exact hnotEqual
    · exact hequal
  have hparen := fixed_openParen.append (h.spells.fixed hclosing (by cases inverted <;> rfl))
  exact written_of_fixed (hparen.congr rfl (by simp [Exp.tokens])) rfl rfl

theorem Written.called {function : List Char} (hfunction : Written text function y) (hx : Written text w x) :
    Written text (function ++ '(' :: w ++ [')']) (.call y [x]) :=
  hfunction.call (hx.spells.weaken.congr rfl (by simp [tokensExps]))

/-! ## Lists -/

section Lists

variable {xs : List (Exp ν)}

theorem fixed_comma : Fixed [',', ' '] [.mark .comma] := fixed_of_run rfl rfl

/-- What a list adds to its opening if it comes first, and to other elements if it does not. -/
def Listed (isFirst : Bool) (w : List Char) (ts : List Token) : Prop :=
  if isFirst then Spells true w ts else Trails w ts

theorem Listed.nil (isFirst : Bool) : Listed isFirst [] [] := by
  cases isFirst
  · exact Trails.nil
  · exact Trails.nil.spells

theorem Spells.listed {numeral isFirst : Bool} (h : Spells numeral w (x.tokens text))
    (hxs : Listed false v (tokensExps text false xs)) :
    Listed isFirst (comma isFirst ++ w ++ v) (tokensExps text isFirst (x :: xs)) := by
  have hfirst : Spells true (w ++ v) (tokensExps text true (x :: xs)) := h.trails hxs
  cases isFirst
  · exact Trails.cons rfl (by decide) ((fixed_comma.spells hfirst).congr rfl rfl)
  · exact hfirst

theorem Written.listed {isFirst : Bool} (h : Written text w x)
    (hxs : Listed false v (tokensExps text false xs)) :
    Listed isFirst (comma isFirst ++ w ++ v) (tokensExps text isFirst (x :: xs)) :=
  h.spells.listed hxs

variable {fs : List (TableField ν)}

theorem Written.table (h : Spells true v (tokensFields text true fs)) :
    Written text ('{' :: v ++ ['}']) (.table fs) := by
  have hopen : Fixed ['{'] [.mark .leftBrace] := fixed_of_run rfl rfl
  have hclose : Fixed ['}'] [.mark .rightBrace] := fixed_of_run rfl rfl
  have htable := hopen.append (h.fixed hclose rfl)
  have htable : Fixed ('{' :: v ++ ['}']) ((Exp.table fs).tokens text) :=
    htable.congr (by simp) (by simp [Exp.tokens])
  exact ⟨htable.toSpells _, '{', _, rfl, rfl, iff_of_false (by decide) nofun⟩

theorem tokensFields_map_item (isFirst : Bool) (xs : List (Exp ν)) :
    tokensFields text isFirst (xs.map .item) = tokensExps text isFirst xs := by
  induction xs generalizing isFirst with
  | nil => rfl
  | cons x xs ih => cases isFirst <;> simp [tokensFields, tokensExps, TableField.tokens, ih]

theorem Written.entry {isFirst : Bool} {k : List Char} {key : Exp ν} (hk : Written text k key)
    (h : Written text w x) (hfs : Listed false v (tokensFields text false fs)) :
    Listed isFirst (comma isFirst ++ '[' :: k ++ "] = ".toList ++ w ++ v)
      (tokensFields text isFirst (.keyed key x :: fs)) := by
  have hequals : Fixed (']' :: " = ".toList) [.mark .rightBracket, .mark .assign] := fixed_of_run rfl rfl
  have hkey := hk.spells_bracket.fixed hequals rfl
  have hfirst : Spells true ('[' :: k ++ "] = ".toList ++ w ++ v)
      (tokensFields text true (.keyed key x :: fs)) :=
    (hkey.spells (h.spells.trails hfs)).congr (by simp) (by simp [tokensFields, TableField.tokens])
  cases isFirst
  · exact Trails.cons rfl (by decide) ((fixed_comma.spells hfirst).congr rfl rfl)
  · exact hfirst

end Lists

/-! ## Functions called at once -/

theorem Written.conditional_none {c a : List Char} {condition consequence : Exp ν}
    (hc : Written text c condition) (ha : Written text a consequence) :
    Written text ("(function() if ".toList ++ c ++ " then return ".toList ++ a ++ " end end)()".toList)
      (conditional condition consequence none) := by
  have hif : Fixed "(function() if ".toList [.mark .leftParen, .keyword .functionWord,
      .mark .leftParen, .mark .rightParen, .keyword .ifWord] := fixed_of_run rfl rfl
  have hthen : Fixed " then return ".toList [.keyword .thenWord, .keyword .returnWord] :=
    fixed_of_run rfl rfl
  have hend : Fixed " end end)()".toList [.keyword .endWord, .keyword .endWord, .mark .rightParen,
      .mark .leftParen, .mark .rightParen] := fixed_of_run rfl rfl
  have hcondition := (hif.spells hc.spells).fixed hthen rfl
  have hconsequence := (hcondition.spells ha.spells).fixed hend rfl
  refine written_of_fixed (hconsequence.congr rfl ?_) rfl rfl
  simp [conditional, Exp.tokens, Stat.tokens, tokensStats, tokensExps, tokensNames]

theorem Written.conditional_some {c a b : List Char} {condition consequence alternative : Exp ν}
    (hc : Written text c condition) (ha : Written text a consequence) (hb : Written text b alternative) :
    Written text ("(function() if ".toList ++ c ++ " then return ".toList ++ a
        ++ " else return ".toList ++ b ++ " end end)()".toList)
      (conditional condition consequence (some alternative)) := by
  have hif : Fixed "(function() if ".toList [.mark .leftParen, .keyword .functionWord,
      .mark .leftParen, .mark .rightParen, .keyword .ifWord] := fixed_of_run rfl rfl
  have hthen : Fixed " then return ".toList [.keyword .thenWord, .keyword .returnWord] :=
    fixed_of_run rfl rfl
  have helse : Fixed " else return ".toList [.keyword .elseWord, .keyword .returnWord] :=
    fixed_of_run rfl rfl
  have hend : Fixed " end end)()".toList [.keyword .endWord, .keyword .endWord, .mark .rightParen,
      .mark .leftParen, .mark .rightParen] := fixed_of_run rfl rfl
  have hcondition := (hif.spells hc.spells).fixed hthen rfl
  have hconsequence := (hcondition.spells ha.spells).fixed helse rfl
  have halternative := (hconsequence.spells hb.spells).fixed hend rfl
  refine written_of_fixed (halternative.congr rfl ?_) rfl rfl
  simp [conditional, Exp.tokens, Stat.tokens, tokensStats, tokensExps, tokensNames]

/-! ## Names of the emitter -/

section Names

variable {tag : Origin → String → ν} (htext : ∀ origin name, text (tag origin name) = name)

include htext

theorem written_own (name : String) (h : isName name = true) :
    Written text name.toList (own tag name) := by
  have hname : text (tag .emitter name) = name := htext _ _
  have hwritten : Written text (text (tag .emitter name)).toList _ := written_name (by rwa [hname])
  rwa [hname] at hwritten

theorem written_given {name : String} (h : isName name = true) :
    Written text name.toList (given tag name) := by
  have hname : text (tag .tree name) = name := htext _ _
  have hwritten : Written text (text (tag .tree name)).toList _ := written_name (by rwa [hname])
  rwa [hname] at hwritten

/-! ## Accesses -/

/-- The text of a call, or no text where nothing is called. -/
def Calls (text : ν → String) (call : List Char) : Option (List (Exp ν)) → Prop
  | none => call = []
  | some xs => ∃ v, call = '(' :: v ++ [')'] ∧ Spells true v (tokensExps text true xs)

omit htext in
theorem Written.select (isType : Bool) {member : String} {arguments : Option (List (Exp ν))}
    {call : List Char} (h : Written text w x) (hx : x.endsNumeral = false)
    (hmember : isName member = true) (hcall : Calls text call arguments) :
    Written text (w ++ accessOperator arguments.isSome isType :: member.toList ++ call)
      (selected x isType member arguments) := by
  cases arguments with
  | none =>
    obtain rfl : call = [] := hcall
    simpa [accessOperator, selected] using h.field hx hmember
  | some xs =>
    obtain ⟨v, rfl, hv⟩ := hcall
    cases isType with
    | true =>
      simpa [accessOperator, selected] using (h.field hx hmember).call hv
    | false =>
      simpa [accessOperator, selected] using h.invoke hmember hv

theorem spells_guardText {nilSafe optional : Bool} {member : String}
    (hguard : (nilSafe || optional) = true) (hmember : isName member = true) :
    Spells false (guardText nilSafe optional member).toList
      ((guardExp tag nilSafe optional member).tokens text) := by
  have hnil : Spells false " == nil".toList [.mark .equal, .keyword .nilWord] := spells_of_run rfl rfl
  have ht := written_own htext "t" rfl
  have hisNil : Spells false ("t".toList ++ " == nil".toList) _ := ht.spells.spells hnil rfl
  have hhasNone : Spells false ("t".toList ++ '.' :: member.toList ++ " == nil".toList) _ :=
    (ht.field rfl hmember).spells.spells hnil rfl
  match nilSafe, optional, hguard with
  | true, false, _ =>
    exact hisNil.congr (by simp [guardText]) (by simp [guardExp, Exp.tokens, BinaryOp.token])
  | false, true, _ =>
    exact hhasNone.congr (by simp [guardText]) (by simp [guardExp, Exp.tokens, BinaryOp.token])
  | true, true, _ =>
    have hor : Fixed " or ".toList [.keyword .orWord] := fixed_of_run rfl rfl
    have hboth := (hisNil.fixed hor rfl).spells hhasNone
    exact hboth.congr (by simp [guardText]) (by simp [guardExp, Exp.tokens, BinaryOp.token])

/-- The site of a guard is handed over in parentheses, so any expression can be one. -/
theorem written_guarded {numeral : Bool} (isType nilSafe optional : Bool) {member : String}
    {arguments : Option (List (Exp ν))} {call : List Char} (h : Spells numeral w (x.tokens text))
    (hguard : (nilSafe || optional) = true) (hmember : isName member = true)
    (hcall : Calls text call arguments) :
    Written text (accessText true (guardText nilSafe optional member)
        (accessOperator arguments.isSome isType) member w call)
      (guarded tag x isType nilSafe optional member arguments) := by
  have hfunction : Fixed "(function(t) if ".toList [.mark .leftParen, .keyword .functionWord,
      .mark .leftParen, .name "t", .mark .rightParen, .keyword .ifWord] := fixed_of_run rfl rfl
  have hreturn : Fixed " then return nil end return ".toList [.keyword .thenWord,
      .keyword .returnWord, .keyword .nilWord, .keyword .endWord, .keyword .returnWord] :=
    fixed_of_run rfl rfl
  have hend : Fixed " end)".toList [.keyword .endWord, .mark .rightParen] := fixed_of_run rfl rfl
  have ht := (written_own htext "t" rfl).select isType rfl hmember hcall
  have hcondition := (hfunction.spells (spells_guardText htext hguard hmember)).fixed hreturn rfl
  have hbody := (hcondition.spells ht.spells).fixed hend rfl
  have hwhole := hbody.append h.parenthesized
  rw [accessText, if_pos rfl]
  refine written_of_fixed (hwhole.congr ?_ ?_) rfl rfl
  · simp
  · simp [guarded, Exp.tokens, Stat.tokens, tokensStats, tokensExps, tokensNames, htext]

theorem Written.accessed (isType nilSafe optional : Bool) {member : String}
    {arguments : Option (List (Exp ν))} {call : List Char} (h : Written text w x)
    (hx : x.endsNumeral = false) (hmember : isName member = true)
    (hcall : Calls text call arguments) :
    Written text (accessText (nilSafe || optional) (guardText nilSafe optional member)
        (accessOperator arguments.isSome isType) member w call)
      (if nilSafe || optional then guarded tag x isType nilSafe optional member arguments
        else selected x isType member arguments) := by
  by_cases hguard : (nilSafe || optional) = true
  · rw [if_pos hguard, hguard]
    exact written_guarded htext isType nilSafe optional h.spells hguard hmember hcall
  · rw [if_neg hguard, accessText, if_neg hguard]
    exact h.select isType hx hmember hcall

/-! ## Constructions -/

omit htext in
theorem tokensStats_append {ss ts : List (Stat ν)} :
    tokensStats text (ss ++ ts) = tokensStats text ss ++ tokensStats text ts := by
  induction ss with
  | nil => rfl
  | cons s ss ih => simp [tokensStats, ih]

theorem Written.initialized {assignments : List (Stat ν)} (h : Written text w x)
    (hassignments : Trails v (tokensStats text assignments)) :
    Written text ("(function() local o = ".toList ++ w ++ v ++ "; return o end)()".toList)
      (initialized tag x assignments) := by
  have hlocal : Fixed "(function() local o = ".toList [.mark .leftParen, .keyword .functionWord,
      .mark .leftParen, .mark .rightParen, .keyword .localWord, .name "o", .mark .assign] :=
    fixed_of_run rfl rfl
  have hreturn : Fixed "; return o end)()".toList [.mark .semicolon, .keyword .returnWord, .name "o",
      .keyword .endWord, .mark .rightParen, .mark .leftParen, .mark .rightParen] :=
    fixed_of_run rfl rfl
  have hbody := (hlocal.spells (h.spells.trails hassignments)).fixed hreturn rfl
  refine written_of_fixed (hbody.congr ?_ ?_) ?_ rfl
  · simp only [List.append_assoc]
  · simp [CodeTree.Lua.initialized, Exp.tokens, Stat.tokens, tokensStats, tokensExps, tokensNames,
      tokensAttribute, tokensStats_append, own, htext]
  · rfl

theorem Spells.initializer {numeral : Bool} {property : String} {assignments : List (Stat ν)}
    (h : Spells numeral w (x.tokens text)) (hproperty : isName property = true)
    (hassignments : Trails v (tokensStats text assignments)) :
    Trails ("; o.".toList ++ property.toList ++ " = ".toList ++ w ++ v)
      (tokensStats text (initializer tag property x ++ assignments)) := by
  have htarget := (written_own htext "o" rfl).field rfl hproperty
  have hempty : Fixed "; ".toList [.mark .semicolon] := fixed_of_run rfl rfl
  have hassign : Fixed " = ".toList [.mark .assign] := fixed_of_run rfl rfl
  have hleft := (hempty.spells htarget.spells).fixed hassign rfl
  have hwhole := hleft.spells (h.trails hassignments)
  have hspells : Spells true ("; o.".toList ++ property.toList ++ " = ".toList ++ w ++ v) _ :=
    hwhole.congr (by simp) (by simp only [List.append_assoc]; rfl)
  refine ⟨fun rest _ => ?_, hspells⟩
  exact Apart.cons rfl (fun _ => by decide) _

/-! ## Literals -/

omit htext in
theorem written_digits (h : IsDigits w) : Written text w (.numeral (String.ofList w)) := by
  refine ⟨spells_digits h, ?_⟩
  obtain ⟨c, cs, rfl⟩ := List.exists_cons_of_ne_nil h.ne_nil
  have hc : c.isDigit = true := h.isDigit c (by simp)
  refine ⟨c, cs, rfl, isOpening_of_isDigit hc, iff_of_false ?_ nofun⟩
  rintro rfl
  cases hc

omit htext in
theorem written_positional (h : IsPositional w) : Written text w (.numeral (String.ofList w)) := by
  refine ⟨spells_positional h, ?_⟩
  obtain ⟨whole, fraction, hwhole, -, rfl⟩ := h
  obtain ⟨c, cs, rfl⟩ := List.exists_cons_of_ne_nil hwhole.ne_nil
  have hc : c.isDigit = true := hwhole.isDigit c (by simp)
  refine ⟨c, _, rfl, isOpening_of_isDigit hc, iff_of_false ?_ nofun⟩
  rintro rfl
  cases hc

omit htext in
theorem Written.signed {negative : Bool} {c : Char} {cs : List Char} (h : Written text (c :: cs) x)
    (hc : c ≠ '-') :
    Written text (sign negative ++ c :: cs) (signed negative x) := by
  cases negative with
  | false => exact h
  | true =>
    refine ⟨spells_mark (c := '-') rfl (grow?_minus hc) h.spells, '-', c :: cs, rfl, rfl, ?_⟩
    exact iff_of_false (by decide) Bool.false_ne_true

theorem written_integerText (target : Target) (value : Int64) :
    Written text (integerText target value).toList (integerExp tag target value) := by
  rw [integerText, integerExp]
  split
  · exact (written_own htext "math" rfl).field rfl (show isName "mininteger" = true from rfl)
  · have hdigits := isDigits_toDigits value.toInt.natAbs
    have hwritten : Written text _ _ := written_digits hdigits
    have hnumeral : String.ofList (Nat.toDigits 10 value.toInt.natAbs) =
        toString value.toInt.natAbs := Nat.toString_eq_ofList_toDigits.symm
    rw [toList_integerText, ← hnumeral]
    obtain ⟨c, cs, hcons⟩ := List.exists_cons_of_ne_nil hdigits.ne_nil
    have hc : c.isDigit = true := hdigits.isDigit c (by simp [hcons])
    rw [hcons] at hwritten ⊢
    refine hwritten.signed ?_
    rintro rfl
    cases hc

theorem written_floatText (value : Binary64) :
    Written text (floatText value).toList (floatExp tag value) := by
  by_cases hnan : value.isNaN = true
  · have hfixed : Fixed "(0/0)".toList [.mark .leftParen, .numeral "0", .mark .slash, .numeral "0",
        .mark .rightParen] := fixed_of_run rfl rfl
    rw [floatText, floatExp, if_pos hnan, if_pos hnan]
    exact written_of_fixed hfixed rfl rfl
  · rw [Bool.not_eq_true] at hnan
    by_cases hinfinite : value.isInfinite = true
    · have hhuge := (written_own htext "math" rfl).field rfl (show isName "huge" = true from rfl)
      have hsigned : Written text (sign value.isNegative ++ "math.huge".toList) _ :=
        Written.signed (c := 'm') hhuge (by decide)
      simp only [floatText, floatExp, hnan, hinfinite, Bool.false_eq_true, if_false, if_true]
      cases hnegative : value.isNegative <;> rw [hnegative] at hsigned <;> exact hsigned
    · rw [Bool.not_eq_true] at hinfinite
      have hpositional := isPositional_positional value.shortest
      have hwritten : Written text _ _ := written_positional hpositional
      rw [toList_floatText hnan hinfinite]
      simp only [floatExp, hnan, hinfinite, Bool.false_eq_true, if_false]
      obtain ⟨whole, fraction, hwhole, -, htext'⟩ := hpositional
      obtain ⟨c, cs, rfl⟩ := List.exists_cons_of_ne_nil hwhole.ne_nil
      rw [String.ofList_toList] at hwritten
      rw [htext'] at hwritten ⊢
      refine hwritten.signed ?_
      rintro rfl
      cases hwhole.isDigit '-' (by simp)

theorem written_literalText (target : Target) (l : Literal) :
    Written text (literalText target l).toList (literalExp tag target l) := by
  have hquote : ∀ value : String,
      Written text (quote value).toList (.string (bytesOf value.toList)) := by
    intro value
    have hhead : (quote value).toList = '"' :: ((escape value).toList ++ ['"']) := by simp [quote]
    exact ⟨(fixed_quote value).toSpells _, '"', _, hhead, rfl, iff_of_false (by decide) Bool.false_ne_true⟩
  cases l with
  | string value => exact hquote value
  | character value =>
    have hsingleton := hquote (String.singleton value)
    rwa [String.toList_singleton] at hsingleton
  | integer value => exact written_integerText htext target value
  | float value => exact written_floatText htext value
  | boolean value =>
    have htrue : Written text "true".toList (.boolean true) :=
      ⟨spells_of_run rfl rfl, 't', "rue".toList, by simp, rfl, iff_of_false (by decide) Bool.false_ne_true⟩
    have hfalse : Written text "false".toList (.boolean false) :=
      ⟨spells_of_run rfl rfl, 'f', "alse".toList, by simp, rfl, iff_of_false (by decide) Bool.false_ne_true⟩
    cases value with
    | false => exact hfalse
    | true => exact htrue

/-! ## Operations -/

omit htext in
theorem bitFunction?_eq (target : Target) (kind : BinaryKind) :
    bitFunction? target kind = (bitName? target kind).map ("bit." ++ ·) := by
  unfold bitFunction? bitName?
  split
  · rfl
  · cases kind <;> rfl

omit htext in
theorem written_parenthesized {op : BinaryOp} {operator : String} (hx : Written text w x)
    (hy : Written text v y) (hop : Fixed (' ' :: operator.toList ++ [' ']) [op.token]) :
    Written text ((BinaryForm.parenthesized operator).opening.toList ++ w
        ++ (BinaryForm.parenthesized operator).between.toList ++ v
        ++ (BinaryForm.parenthesized operator).closing.toList)
      (.paren (.binary op x y)) := by
  have hwritten := hx.infixed hy hop rfl
  simpa [BinaryForm.parenthesized] using hwritten

omit htext in
theorem written_calling {function : String} {f : Exp ν} (hf : Written text function.toList f)
    (hx : Written text w x) (hy : Written text v y) :
    Written text ((BinaryForm.calling function).opening.toList ++ w
        ++ (BinaryForm.calling function).between.toList ++ v
        ++ (BinaryForm.calling function).closing.toList) (.call f [x, y]) := by
  have harguments : Listed true (comma true ++ w ++ (comma false ++ v ++ []))
      (tokensExps text true [x, y]) := hx.listed (hy.listed Trails.nil)
  have hcall := hf.call harguments
  simpa [BinaryForm.calling, comma] using hcall

omit htext in
theorem toList_truncatingDivision (target : Target) : (truncatingDivision target).toList =
    "(function(a, b) return (a - math.fmod(a, b)) ".toList
      ++ ((if target.hasIntegers then "//" else "/").toList ++ " b end)".toList) :=
  String.toList_append.trans ((congrArg (· ++ " b end)".toList) String.toList_append).trans
    (List.append_assoc _ _ _))

theorem written_truncatingDivision (target : Target) :
    Written text (truncatingDivision target).toList (.paren (truncatedDivision tag target)) := by
  have hdifference : Fixed "(function(a, b) return (a - math.fmod(a, b)) ".toList
      [.mark .leftParen, .keyword .functionWord, .mark .leftParen, .name "a", .mark .comma, .name "b",
       .mark .rightParen, .keyword .returnWord, .mark .leftParen, .name "a", .mark .minus,
       .name "math", .mark .dot, .name "fmod", .mark .leftParen, .name "a", .mark .comma, .name "b",
       .mark .rightParen, .mark .rightParen] := fixed_of_run rfl rfl
  have hfloor : Fixed ("//".toList ++ " b end)".toList)
      [BinaryOp.floorDivide.token, .name "b", .keyword .endWord, .mark .rightParen] :=
    fixed_of_run rfl rfl
  have hslash : Fixed ("/".toList ++ " b end)".toList)
      [BinaryOp.divide.token, .name "b", .keyword .endWord, .mark .rightParen] :=
    fixed_of_run rfl rfl
  have hquotient : Fixed ((if target.hasIntegers then "//" else "/").toList ++ " b end)".toList)
      [(if target.hasIntegers then BinaryOp.floorDivide else .divide).token, .name "b",
        .keyword .endWord, .mark .rightParen] := by
    cases target
    · exact hfloor
    · exact hfloor
    · exact hslash
  rw [toList_truncatingDivision]
  refine written_of_fixed ((hdifference.append hquotient).congr rfl ?_) rfl rfl
  simp only [truncatedDivision, Exp.tokens, Stat.tokens, tokensStats, tokensExps, tokensNames, own, htext,
    BinaryOp.token, List.cons_append, List.nil_append, List.append_nil]

omit htext in
theorem isName_bitName? {target : Target} {kind : BinaryKind} {name : String}
    (h : bitName? target kind = some name) : isName name = true := by
  unfold bitName? at h
  split at h
  · exact nomatch h
  · cases kind <;> cases h <;> rfl

theorem written_form {target : Target} {kind : BinaryKind} {form : BinaryForm}
    (hform : binaryForm target (.standard kind) = .ok form) (hx : Written text w x)
    (hy : Written text v y) :
    ∃ z, binaryExp? tag target (.standard kind) x y = some z ∧
      Written text (form.opening.toList ++ w ++ form.between.toList ++ v ++ form.closing.toList) z := by
  rw [binaryForm, bitFunction?_eq] at hform
  cases hbit : bitName? target kind with
  | some name =>
    obtain rfl : BinaryForm.calling ("bit." ++ name) = form := by simpa [hbit] using hform
    have hfunction := (written_own htext "bit" rfl).field rfl (isName_bitName? hbit)
    have hfunction : Written text ("bit." ++ name).toList (.field (own tag "bit") name) := by
      simpa using hfunction
    exact ⟨_, by simp only [binaryExp?, hbit], written_calling hfunction hx hy⟩
  | none =>
    have hstandard : standardForm? target kind = some form := by
      rw [hbit] at hform
      cases hsome : standardForm? target kind with
      | none => simp [hsome] at hform
      | some form' => simpa [hsome] using hform
    have hexp : binaryExp? tag target (.standard kind) x y = standardExp? tag target kind x y := by
      simp only [binaryExp?, hbit]
    rw [hexp]
    cases kind with
    | logicalXor | is | isNot | isIn | notIn => cases hstandard
    | truncatedDivision =>
      cases hstandard
      exact ⟨_, rfl, written_calling (written_truncatingDivision htext target) hx hy⟩
    | implies =>
      cases hstandard
      have hor : Fixed " or ".toList [BinaryOp.or.token] := fixed_of_run rfl rfl
      have hwritten := hx.notted.infixed hy hor rfl
      exact ⟨_, rfl, by simpa using hwritten⟩
    | addition | subtraction | multiplication | division | modulus | equals | notEquals | lessThan
    | lessThanOrEquals | greaterThan | greaterThanOrEquals | logicalAnd | logicalOr | shiftLeft
    | shiftRight | bitwiseAnd | bitwiseOr | bitwiseXor =>
      cases hstandard
      exact ⟨_, rfl, written_parenthesized hx hy (fixed_of_run rfl rfl)⟩

end Names

end CodeTree.Lua
