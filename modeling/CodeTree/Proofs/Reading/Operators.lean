import CodeTree.Proofs.Acceptance.Representable
import CodeTree.Proofs.Emission.Source
import CodeTree.Proofs.Reading.Extension
import CodeTree.Proofs.Reading.Suffixes

/-! # What custom operators apply to

A custom operator is taken at its word: in parentheses, directly before its operand or between blanks. The
operands stand there as they are written on their own, so they are the operands in Lua exactly if the
operator remains a token of its own and neither end of an operand is taken by it.

* `lex_append`: the tokens of a text before a blank or a closing parenthesis.
* `parseExp_paren_unary`, `parseExp_paren_binary`: operations on whole expressions, in tokens.
* `ReadsAs`: what the text of an expression is in Lua.
* `readsAs_custom_iff`: when a custom operation is the operation on what its operands are. -/

namespace CodeTree.Lua

open List

set_option autoImplicit false

variable {x y : Exp String} {ts us : List Token} {u v w : List Char}

/-! ## Tokens -/

theorem readExpression_eq_some {text : String} :
    readExpression text = some x ↔ parseExp 0 (lex text.toList) = some (x, []) := by
  rw [readExpression]
  split
  · rename_i heq
    rw [heq]
    simp
  · rename_i hne
    exact iff_of_false (by simp) (hne x)

/-- A text without an invalid token ends in a token that a blank or a closing parenthesis ends. -/
theorem lex_append {c : Char} (h : .invalid ∉ lex u) (hc : c = ' ' ∨ c = ')') (rest : List Char) :
    lex (u ++ c :: rest) = lex u ++ lex (c :: rest) := by
  have hlex : lex u = (Lexeme.blank.run u).1 ++ (Lexeme.blank.run u).2.tokens := by
    have happend := lexFrom_append .blank u []
    rwa [List.append_nil] at happend
  have hgrow : (Lexeme.blank.run u).2.grow? c = none := by
    rw [hlex] at h
    cases hlast : (Lexeme.blank.run u).2 with
    | blank => rfl
    | word text | numeral text => rcases hc with rfl | rfl <;> rfl
    | mark m => rcases hc with rfl | rfl <;> cases m <;> rfl
    | string quote reading =>
      cases reading with
      | closed value => rfl
      | _ => simp [hlast, Lexeme.tokens] at h
    | invalid => simp [hlast, Lexeme.tokens] at h
  rw [lex, lexFrom_append, lexFrom_of_grow? (by rintro _ ⟨⟩; exact hgrow), ← List.append_assoc, ← hlex]

theorem not_mem_lex_of_parseExp (h : parseExp 0 ts = some (x, [])) : .invalid ∉ ts := by
  obtain ⟨us, hts, hus⟩ := (derived_parse (.exp 0) ts _ h).takes
  rw [List.append_nil] at hts
  exact hts ▸ hus

/-! ## Operations -/

theorem halts_rightParen : Halts [.mark .rightParen] := by
  rintro _ ⟨⟩
  rfl

theorem below_rightParen (limit : Nat) : Below limit [.mark .rightParen] := by
  rintro _ ⟨⟩ op hop
  cases hop

theorem parseTail_rightParen (limit : Nat) (x : Exp String) :
    parseTail limit x [.mark .rightParen] = some (x, [.mark .rightParen]) :=
  parseTail_of_below (below_rightParen limit)

theorem parseExp_rightParen {limit : Nat} (h : parseExp 0 ts = some (x, [])) (hlimit : limit < x.strength) :
    parseExp limit (ts ++ [.mark .rightParen]) = some (x, [.mark .rightParen]) :=
  parseExp_append h halts_rightParen (below_rightParen _) hlimit (parseTail_rightParen limit x)

theorem parseExp_paren (h : parseExp 0 (ts ++ [.mark .rightParen]) = some (x, [.mark .rightParen])) :
    parseExp 0 (.mark .leftParen :: ts ++ [.mark .rightParen]) = some (.paren x, []) := by
  have hparen := Derives.paren (derived_parse (.exp 0) _ _ h) (.noSuffix rfl)
  exact (Derives.exp (.simple (.primary hparen)) (.noBinary (below_nil 0))).parse_eq

theorem readUpTo_of_parseExp (h : parseExp 0 ts = some (x, us)) : ReadUpTo 0 x us ∧ x.OpensWith ts :=
  (derived_parse (.exp 0) ts _ h).binds (by decide)

theorem bound_of_parseExp (h : parseExp 0 ts = some (x, us)) : x.Bound := (readUpTo_of_parseExp h).1.bound

/-- An operator before a whole expression applies to it exactly if it binds tighter. -/
theorem parseExp_paren_unary {op : UnaryOp} (hop : op.isCustom = false) (h : parseExp 0 ts = some (x, [])) :
    parseExp 0 (.mark .leftParen :: op.token :: ts ++ [.mark .rightParen]) = some (.paren (.unary op x), []) ↔
      UnaryOp.priority < x.strength := by
  constructor
  · exact fun hread => bound_of_parseExp hread
  · intro hstrength
    have hx := derived_parse (.exp UnaryOp.priority) _ _ (parseExp_rightParen h hstrength)
    have hunary := Derives.unary (UnaryOp.ofToken?_token hop) hx
    exact parseExp_paren (Derives.exp hunary (.noBinary (below_rightParen 0))).parse_eq

theorem parseExp_paren_binary {op : BinaryOp} (hop : op.isCustom = false)
    (hx : parseExp 0 ts = some (x, [])) (hy : parseExp 0 us = some (y, [])) :
    parseExp 0 (.mark .leftParen :: (ts ++ op.token :: us) ++ [.mark .rightParen]) =
        some (.paren (.binary op x y), []) ↔ op.left ≤ x.tail ∧ op.right < y.strength := by
  constructor
  · exact fun hread => bound_of_parseExp hread
  · rintro ⟨hleft, hright⟩
    have htoken := BinaryOp.ofToken?_token hop
    have hs : Halts (op.token :: (us ++ [.mark .rightParen])) := by
      rintro _ ⟨⟩
      simp [isHalt, htoken]
    have htail : Below x.tail (op.token :: (us ++ [.mark .rightParen])) := by
      refine below_cons fun op' hop' => ?_
      obtain rfl : op = op' := Option.some.inj (htoken.symm.trans hop')
      exact hleft
    have hstrength := (readUpTo_of_parseExp hx).1.strength
    have hright := derived_parse (.exp op.right) _ _ (parseExp_rightParen hy hright)
    have hbinary := Derives.binary htoken (BinaryOp.left_pos hop) hright
      (.noBinary (x := .binary op x y) (below_rightParen 0))
    refine parseExp_paren ?_
    rw [List.append_assoc, List.cons_append]
    exact parseExp_append hx hs htail hstrength hbinary.parse_eq

/-! ## Texts -/

theorem lex_leftParen (rest : List Char) : lex ('(' :: rest) = .mark .leftParen :: lex rest :=
  fixed_openParen rest

theorem lex_prefixed {operator : String} {opening : Opening} (hlua : (UnaryOp.ofText operator).isCustom = false)
    (hleads : Leads v opening) (hword : operator = "not" → opening ≠ .word) (hv : .invalid ∉ lex v) :
    lex ('(' :: operator.toList ++ gap operator v ++ v ++ [')']) =
      .mark .leftParen :: (UnaryOp.ofText operator).token :: lex v ++ [.mark .rightParen] := by
  have hclosed : lex (v ++ [')']) = lex v ++ [.mark .rightParen] := lex_append hv (.inr rfl) []
  have hprefixed : lex (operator.toList ++ gap operator v ++ v ++ [')']) =
      (UnaryOp.ofText operator).token :: lex v ++ [.mark .rightParen] := by
    rw [List.append_assoc, lex_operator hlua hleads hword, hclosed, List.cons_append]
  exact (lex_leftParen _).trans (congrArg (List.cons (.mark .leftParen)) hprefixed)

/-- The word that a text begins with, up to its first character that is not of it. -/
theorem lexFrom_word_eq (text cs : List Char) :
    ∃ more ts, lexFrom (.word text) cs = .ofWord (String.ofList (text ++ more)) :: ts := by
  induction cs generalizing text with
  | nil => exact ⟨[], [], by simp [lexFrom, Lexeme.tokens]⟩
  | cons c cs ih =>
    by_cases hc : isWordChar c = true
    · obtain ⟨more, ts, hmore⟩ := ih (text ++ [c])
      have hgrow : (Lexeme.word text).grow? c = some (.word (text ++ [c])) := if_pos hc
      exact ⟨c :: more, ts, by rw [lexFrom_grow hgrow, hmore]; simp⟩
    · have hgrow : (Lexeme.word text).grow? c = none := if_neg hc
      exact ⟨[], _, by rw [lexFrom, hgrow, List.append_nil]; rfl⟩

/-- `not` and the word behind it are one word. -/
theorem lex_not_word (h : Leads v .word) :
    ∃ word ts, lex ("(not".toList ++ v) = .mark .leftParen :: .ofWord word :: ts ∧ word ≠ "not" := by
  obtain ⟨c, cs, rfl, hc⟩ := h
  have hgrow : (Lexeme.word "not".toList).grow? c = some (.word ("not".toList ++ [c])) := if_pos hc
  obtain ⟨more, ts, hmore⟩ := lexFrom_word_eq ("not".toList ++ [c]) cs
  refine ⟨String.ofList ("not".toList ++ [c] ++ more), ts, ?_, ?_⟩
  · rw [← hmore, ← lexFrom_grow hgrow]
    rfl
  · intro heq
    have hlength := congrArg (fun word => word.toList.length) heq
    rw [String.toList_ofList, List.length_append, List.length_append] at hlength
    exact absurd hlength (by simp; omega)

theorem lex_infixed {operator : String} (hlua : (BinaryOp.ofText operator).isCustom = false)
    (hu : .invalid ∉ lex u) (hv : .invalid ∉ lex v) :
    lex ('(' :: u ++ (' ' :: operator.toList ++ [' ']) ++ v ++ [')']) =
      .mark .leftParen :: (lex u ++ (BinaryOp.ofText operator).token :: lex v) ++ [.mark .rightParen] := by
  have hclosed : lex (v ++ [')']) = lex v ++ [.mark .rightParen] := lex_append hv (.inr rfl) []
  have hoperator := fixed_ofText hlua (v ++ [')'])
  have hleft : lex (u ++ (' ' :: operator.toList ++ [' ']) ++ v ++ [')']) =
      lex u ++ (BinaryOp.ofText operator).token :: lex v ++ [.mark .rightParen] := by
    rw [List.append_assoc, List.append_assoc, List.cons_append, List.cons_append,
      lex_append hu (.inl rfl), ← List.cons_append, ← List.cons_append, hoperator, hclosed]
    simp
  exact (lex_leftParen _).trans (congrArg (List.cons (.mark .leftParen)) hleft)

/-! ## Custom operations -/

variable {g : Setting} {n : Nat} {operator : String} {operand left right : Expr}

/-- The text of an expression, by itself, is an expression of Lua. -/
def ReadsAs (g : Setting) (e : Expr) (n : Nat) (x : Exp String) : Prop :=
  ∃ v, Yields (emitExpr g e) n () v ∧ readExpression (String.ofList v) = some x

theorem readsAs_iff {e : Expr} (hw : Yields (emitExpr g e) n () w) :
    ReadsAs g e n x ↔ parseExp 0 (lex w) = some (x, []) := by
  have hread : readExpression (String.ofList w) = some x ↔ parseExp 0 (lex w) = some (x, []) := by
    rw [readExpression_eq_some, String.toList_ofList]
  rw [← hread]
  constructor
  · rintro ⟨v, ⟨_, hv⟩, hx⟩
    obtain ⟨_, hw⟩ := hw
    rwa [(hw.unique hv).2]
  · exact fun hx => ⟨w, hw, hx⟩

theorem text_of_ofWord_eq {word : String} {k : Keyword} (h : Token.ofWord word = .keyword k) :
    k.text = word := by
  unfold Token.ofWord at h
  split at h
  · rename_i reserved hreserved
    cases h
    simpa using List.find?_some hreserved
  · cases h

/-- An operation by a custom operator that stands before its operand. -/
theorem readsAs_unary_iff (hlua : (UnaryOp.ofText operator).isCustom = false)
    (hworded : ∀ node ∈ operand.rendered, Worded g node) (hx : ReadsAs g operand n x) :
    ReadsAs g (.unary (.custom operator) operand) n (.paren (.unary (.ofText operator) x)) ↔
      (operator = "not" → operand.opening g.config.target ≠ .word) ∧ UnaryOp.priority < x.strength := by
  obtain ⟨v, hv, hread⟩ := hx
  have hleads := leads_emitExpr operand hworded hv
  have hparse : parseExp 0 (lex v) = some (x, []) := (readsAs_iff hv).1 ⟨v, hv, hread⟩
  have hw : Yields (emitExpr g (.unary (.custom operator) operand)) n ()
      ('(' :: operator.toList ++ gap operator v ++ v ++ [')']) := yields_emitPrefixed.2 ⟨v, hv, rfl⟩
  rw [readsAs_iff hw]
  by_cases hword : operator = "not" → operand.opening g.config.target ≠ .word
  · rw [lex_prefixed hlua hleads hword (not_mem_lex_of_parseExp hparse), parseExp_paren_unary hlua hparse]
    exact (and_iff_right hword).symm
  · refine iff_of_false (fun hread => ?_) fun h => hword h.1
    obtain ⟨rfl, hopening⟩ := Classical.not_imp.1 hword
    rw [Classical.not_not.1 hopening] at hleads
    obtain ⟨word, ts, hlex, hne⟩ := lex_not_word (hleads.append [')'])
    -- The parentheses would have to begin with `not`, and they begin with a longer word.
    obtain ⟨rest, hopen, t, us, hrest, hop⟩ := (readUpTo_of_parseExp hread).2
    rw [gap_eq_nil rfl, List.append_nil, List.append_assoc] at hopen
    obtain rfl : .ofWord word = t :=
      (List.cons.inj ((List.cons.inj (hlex.symm.trans hopen)).2.trans hrest)).1
    cases hkeyword : Token.ofWord word with
    | keyword k =>
      rw [hkeyword] at hop
      obtain rfl : k = .notWord := by
        cases k <;> first | rfl | cases hop
      exact hne (text_of_ofWord_eq hkeyword).symm
    | name | numeral | string | invalid =>
      rw [hkeyword] at hop
      cases hop
    | mark m =>
      rw [hkeyword] at hop
      cases m <;> cases hop

/-- An operation by a custom operator between its operands. -/
theorem readsAs_binary_iff (hlua : (BinaryOp.ofText operator).isCustom = false)
    (hx : ReadsAs g left n x) (hy : ReadsAs g right n y) :
    ReadsAs g (.binary (.custom operator) left right) n (.paren (.binary (.ofText operator) x y)) ↔
      (BinaryOp.ofText operator).left ≤ x.tail ∧ (BinaryOp.ofText operator).right < y.strength := by
  obtain ⟨u, hu, hleft⟩ := hx
  obtain ⟨v, hv, hright⟩ := hy
  have hleft : parseExp 0 (lex u) = some (x, []) := (readsAs_iff hu).1 ⟨u, hu, hleft⟩
  have hright : parseExp 0 (lex v) = some (y, []) := (readsAs_iff hv).1 ⟨v, hv, hright⟩
  have hw : Yields (emitExpr g (.binary (.custom operator) left right)) n ()
      ('(' :: u ++ (' ' :: operator.toList ++ [' ']) ++ v ++ [')']) :=
    yields_emitExpr_binary.2 ⟨_, u, v, rfl, hu, hv, by simp [BinaryForm.parenthesized]⟩
  rw [readsAs_iff hw, lex_infixed hlua (not_mem_lex_of_parseExp hleft) (not_mem_lex_of_parseExp hright),
    parseExp_paren_binary hlua hleft hright]

/-! ## Accepted trees -/

/-- The names of a tree stand for themselves. -/
abbrev plain : Origin → String → String := fun _ name => name

/-- At every depth the text of an expression is its syntax tree. -/
theorem exists_readsAs {e : Expr} (haccepted : AllRepresentable g e.rendered)
    (hreadable : ∀ node ∈ e.rendered, Readable g node)
    (hassembled : ∀ node ∈ e.rendered, Assembled plain g True node) :
    ∃ x, toLua? plain g e = some x ∧ Solid x ∧ ∀ n, ReadsAs g e n x := by
  have hyields : ∀ n, ∃ v, Yields (emitExpr g e) n () v := fun n => (succeeds_emitExpr e n).2 haccepted
  obtain ⟨v, hv⟩ := hyields 0
  obtain ⟨x, hx, hsolid, -⟩ := readExpression_of_assembled hreadable hassembled hv
  refine ⟨x, hx, hsolid, fun n => ?_⟩
  obtain ⟨v, hv⟩ := hyields n
  obtain ⟨y, hy, -, hread⟩ := readExpression_of_assembled hreadable hassembled hv
  obtain rfl : x = y := Option.some.inj (hx.symm.trans hy)
  exact ⟨v, hv, hread⟩

/-- In an accepted tree, a custom operation is the operation on what its operands are by themselves exactly
if `not` is before no word and the ends of the operands bind tighter than the operator. They do unless the
operator is a power and its left operand a negative number, where the nodes of the operands are assembled. -/
theorem readsAs_custom_iff {names : NameTable} {config : Config} {source : Source} {text : String}
    (haccepted : ((Generator.new names config).generate source).1 = .ok text)
    (hraw : ∀ node ∈ source.rendered, node.isRaw = false)
    (hnames : ∀ node ∈ source.rendered, ∀ s ∈ node.symbols, ∀ name ∈ names.resolve s,
      isName name = true) :
    (∀ operator operand, .expression (.unary (.custom operator) operand) ∈ source.rendered →
      (UnaryOp.ofText operator).isCustom = false →
        (∀ n x, ReadsAs ⟨names, config⟩ operand n x →
          (ReadsAs ⟨names, config⟩ (.unary (.custom operator) operand) n
              (.paren (.unary (.ofText operator) x)) ↔
            (operator = "not" → operand.opening config.target ≠ .word) ∧
              UnaryOp.priority < x.strength)) ∧
        ((∀ node ∈ operand.rendered, Assembled plain ⟨names, config⟩ True node) → ∃ x,
          toLua? plain ⟨names, config⟩ operand = some x ∧ (∀ n, ReadsAs ⟨names, config⟩ operand n x) ∧
            UnaryOp.priority < x.strength)) ∧
    ∀ operator left right, .expression (.binary (.custom operator) left right) ∈ source.rendered →
      (BinaryOp.ofText operator).isCustom = false →
        (∀ n x y, ReadsAs ⟨names, config⟩ left n x → ReadsAs ⟨names, config⟩ right n y →
          (ReadsAs ⟨names, config⟩ (.binary (.custom operator) left right) n
              (.paren (.binary (.ofText operator) x y)) ↔
            (BinaryOp.ofText operator).left ≤ x.tail ∧
              (BinaryOp.ofText operator).right < y.strength)) ∧
        ((∀ node ∈ left.rendered ++ right.rendered, Assembled plain ⟨names, config⟩ True node) → ∃ x y,
          toLua? plain ⟨names, config⟩ left = some x ∧ (∀ n, ReadsAs ⟨names, config⟩ left n x) ∧
          toLua? plain ⟨names, config⟩ right = some y ∧ (∀ n, ReadsAs ⟨names, config⟩ right n y) ∧
            ((BinaryOp.ofText operator).left ≤ x.tail ∧ (BinaryOp.ofText operator).right < y.strength ↔
              (operator = "^" → left.opening config.target ≠ .minus))) := by
  have hread : ∀ e : Expr, e.rendered ⊆ source.rendered →
      (∀ node ∈ e.rendered, Assembled plain ⟨names, config⟩ True node) → ∃ x,
        toLua? plain ⟨names, config⟩ e = some x ∧ Solid x ∧ ∀ n, ReadsAs ⟨names, config⟩ e n x := by
    intro e hbelow hassembled
    refine exists_readsAs (fun node hnode => allRepresentable_of_generate haccepted node (hbelow hnode))
      (fun node hnode => ?_) hassembled
    exact ⟨hraw node (hbelow hnode), (hassembled node hnode).operators, hnames node (hbelow hnode),
      (hassembled node hnode).sites⟩
  constructor
  · intro operator operand hnode hlua
    have hbelow : operand.rendered ⊆ source.rendered := fun node h =>
      Source.rendered_subset hnode (List.mem_cons_of_mem _ h)
    have hworded : ∀ node ∈ operand.rendered, Worded ⟨names, config⟩ node := fun node h =>
      ⟨hraw node (hbelow h), fun s hs name hname =>
        isIdentifier_of_isName (hnames node (hbelow h) s hs name hname)⟩
    refine ⟨fun n x hx => readsAs_unary_iff hlua hworded hx, fun hassembled => ?_⟩
    obtain ⟨x, hx, hsolid, hreads⟩ := hread operand hbelow hassembled
    exact ⟨x, hx, hreads, by rw [hsolid.strength]; decide⟩
  · intro operator left right hnode hlua
    have hbelow : left.rendered ++ right.rendered ⊆ source.rendered := fun node h =>
      Source.rendered_subset hnode (List.mem_cons_of_mem _ h)
    refine ⟨fun n x y hx hy => readsAs_binary_iff hlua hx hy, fun hassembled => ?_⟩
    rw [List.forall_mem_append] at hassembled
    obtain ⟨x, hx, hsolidx, hreadsx⟩ := hread left (List.append_subset.1 hbelow).1 hassembled.1
    obtain ⟨y, hy, hsolidy, hreadsy⟩ := hread right (List.append_subset.1 hbelow).2 hassembled.2
    have htail := tail_toLua? (fun node h => (hassembled.1 node h).sites) hx
    refine ⟨x, y, hx, hreadsx, hy, hreadsy, fun h => ?_, fun hpower => ⟨?_, hsolidy.right_lt_strength _⟩⟩
    · rintro rfl hminus
      rw [htail, if_pos hminus] at h
      exact absurd h.1 (by decide)
    · exact hsolidx.left_le_tail fun htext => by rw [htail, if_neg (hpower htext)]

/-- The quotient of the opposite of a negated name and a negative number. -/
theorem readsAs_custom_of_quotient :
    ∃ x y, toLua? plain ⟨⟨["x"]⟩, {}⟩
        (.unary (.custom "-") (.unary (.standard .minus) (.identifier ⟨0⟩))) = some x ∧
      toLua? plain ⟨⟨["x"]⟩, {}⟩ (.literal (.integer (-5))) = some y ∧
      ∀ n, ReadsAs ⟨⟨["x"]⟩, {}⟩
        (.binary (.custom "//") (.unary (.custom "-") (.unary (.standard .minus) (.identifier ⟨0⟩)))
          (.literal (.integer (-5)))) n (.paren (.binary .floorDivide x y)) := by
  obtain ⟨hiff, hreads⟩ := (@readsAs_custom_iff ⟨["x"]⟩ {}
    (.expression (.binary (.custom "//")
      (.unary (.custom "-") (.unary (.standard .minus) (.identifier ⟨0⟩))) (.literal (.integer (-5)))))
    _ rfl (by decide) (by decide)).2 _ _ _ List.mem_cons_self rfl
  have hassembled : ∀ node ∈ Expr.rendered
        (.unary (.custom "-") (.unary (.standard .minus) (.identifier ⟨0⟩))) ++
      (Expr.literal (.integer (-5))).rendered, Assembled plain ⟨⟨["x"]⟩, {}⟩ True node := by
    refine fun node hnode => ⟨?_, ?_, fun _ => trivial, fun _ => ?_, ?_⟩
    · revert node
      decide
    · revert node
      decide
    · revert node
      decide
    · rintro - s rfl
      simp [Expr.rendered, Expr.identifier, Expr.literal] at hnode
  obtain ⟨x, y, hx, hreadsx, hy, hreadsy, hbinds⟩ := hreads hassembled
  exact ⟨x, y, hx, hy, fun n => (hiff n x y (hreadsx n) (hreadsy n)).2 (hbinds.2 (by decide))⟩

/-- `not` runs into a name, and in front of a power the minus sign of a number comes after it. Both are
accepted. -/
theorem custom_operators_misread :
    ((Generator.new ⟨["x"]⟩ {}).generate
      (.expression (.unary (.custom "not") (.identifier ⟨0⟩)))).1 = .ok "(notx)" ∧
    readExpression "x" = some (.name "x") ∧ readExpression "(notx)" = some (.paren (.name "notx")) ∧
    ((Generator.new ⟨[]⟩ {}).generate
      (.expression (.binary (.custom "^") (.literal (.integer (-2))) (.literal (.integer 2))))).1 =
        .ok "(-2 ^ 2)" ∧
    readExpression "-2" = some (.unary .minus (.numeral "2")) ∧
    readExpression "(-2 ^ 2)" =
      some (.paren (.unary .minus (.binary .power (.numeral "2") (.numeral "2")))) := by
  have hname : lex "x".toList = [.name "x"] := by decide
  have hword : lex "(notx)".toList = [.mark .leftParen, .name "notx", .mark .rightParen] := by decide
  have hnumber : lex "-2".toList = [.mark .minus, .numeral "2"] := by decide
  have hpower : lex "(-2 ^ 2)".toList =
      [.mark .leftParen, .mark .minus, .numeral "2", .mark .caret, .numeral "2", .mark .rightParen] := by
    decide
  have hread : ∀ n, List.parseExp 0 [.name n] = some (.name n, []) := fun n => by
    rw [List.parseExp, List.parseOperand]
    simp [UnaryOp.ofToken?, List.parseSimple, List.parsePrefix, List.parseSuffixes, List.parseTail]
  have htwo : ∀ limit, List.parseExp limit [.numeral "2"] = some (.numeral "2", []) := fun limit => by
    rw [List.parseExp, List.parseOperand]
    simp [UnaryOp.ofToken?, List.parseSimple, List.parseTail]
  have hsquare : List.parseExp UnaryOp.priority [.numeral "2", .mark .caret, .numeral "2"] =
      some (.binary .power (.numeral "2") (.numeral "2"), []) := by
    rw [List.parseExp, List.parseOperand]
    simp [UnaryOp.ofToken?, List.parseSimple, List.parseTail, BinaryOp.ofToken?, BinaryOp.left,
      UnaryOp.priority, htwo]
  have hopposite : List.parseExp 0 [.mark .minus, .numeral "2", .mark .caret, .numeral "2"] =
      some (.unary .minus (.binary .power (.numeral "2") (.numeral "2")), []) := by
    rw [List.parseExp, List.parseOperand]
    simp [UnaryOp.ofToken?, hsquare, List.parseTail]
  refine ⟨rfl, ?_, ?_, rfl, ?_, ?_⟩
  · rw [readExpression_eq_some, hname, hread]
  · rw [readExpression_eq_some, hword]
    exact parseExp_paren (parseExp_rightParen (hread "notx") (by decide))
  · rw [readExpression_eq_some, hnumber, List.parseExp, List.parseOperand]
    simp [UnaryOp.ofToken?, htwo, List.parseTail]
  · rw [readExpression_eq_some, hpower]
    exact parseExp_paren (parseExp_rightParen hopposite (by decide))

end CodeTree.Lua
