import CodeTree.Proofs.Lexical.Pieces

/-! # Lexical integrity of emitted text

Whatever the strings of a tree contain, an emitted text can be told apart into code and strings: no
comment and no long bracket is opened in it, every string is closed on its line, and the strings are
those of the tree, in the order of the text.

* `neat_emitExpr` and `scans_emitStatement`: the text of each kind of node.
* `scan_generateExpression`: the strings of an emitted text are the string literals of the tree. -/

namespace CodeTree.Lua

set_option autoImplicit false

variable {g : Setting}

/-! ## Fixed pieces -/

theorem neat_if : Neat "(function() if ".toList [] := neat_of_isSilent rfl rfl

theorem scans_then : Scans " then return ".toList [] := scans_of_isSilent rfl

theorem scans_equals : Scans " = ".toList [] := scans_of_isSilent rfl

theorem scans_newline : Scans ['\n'] [] := scans_of_isSilent rfl

/-! ## Trees -/

mutual

/-- The text of an expression reads as code and the strings of its nodes. -/
theorem neat_emitExpr : ∀ (e : Expr) {n : Nat} {w : List Char},
    (∀ node ∈ e.rendered, Legible g node) → Yields (emitExpr g e) n () w →
      Neat w (stringsOf e.rendered)
  | .shared s, n, w, h, hw => neat_emitAtom (h _ (by simp [Expr.rendered])) hw
  | .atom a, n, w, h, hw => neat_emitAtom (h _ (by simp [Expr.rendered])) hw
  | .array elements kind, n, w, h, hw => by
    obtain ⟨v, hv, rfl⟩ := yields_emitExpr_array.1 hw
    rw [Expr.rendered, List.forall_mem_cons] at h
    exact (scans_emitExprs elements h.2 hv).braced
  | .dictionary entries, n, w, h, hw => by
    obtain ⟨v, hv, rfl⟩ := yields_emitExpr_dictionary.1 hw
    rw [Expr.rendered, List.forall_mem_cons] at h
    exact (scans_emitEntries entries h.2 hv).braced
  | .tuple elements, n, w, h, hw => by
    obtain ⟨v, hv, rfl⟩ := yields_emitExpr_tuple.1 hw
    rw [Expr.rendered, List.forall_mem_cons] at h
    exact (scans_emitExprs elements h.2 hv).braced
  | .unary operator operand, n, w, h, hw => by
    rw [Expr.rendered, List.forall_mem_cons] at h
    exact neat_emitUnary h.1.operator (fun v hv => neat_emitExpr operand h.2 hv)
      (yields_emitExpr_unary.1 hw)
  | .binary operator left right, n, w, h, hw => by
    obtain ⟨form, v₁, v₂, hform, hv₁, hv₂, rfl⟩ := yields_emitExpr_binary.1 hw
    simp only [Expr.rendered, List.forall_mem_cons, List.forall_mem_append] at h
    obtain ⟨hnode, hleft, hright⟩ := h
    obtain ⟨hopening, hbetween, hclosing⟩ := neat_form hnode.operator hform
    have hl := (hopening.append (neat_emitExpr left hleft hv₁).scans).append_silent hbetween
    have hr := (hl.append (neat_emitExpr right hright hv₂).scans).append_silent hclosing
    rw [Expr.rendered, stringsOf_node rfl, stringsOf_append]
    exact hr
  | .field site selection, n, w, h, hw => by
    rw [Expr.rendered, List.forall_mem_cons] at h
    exact neat_emitField (h.1.names selection.name (by simp [Node.symbols, Expr.symbols]))
      (neat_emitSite? site h.2) hw
  | .call site selection arguments optional, n, w, h, hw => by
    rw [Expr.rendered, List.forall_mem_cons] at h
    have hparts : (∀ node ∈ renderedExpr? site, Legible g node) ∧
        ∀ node ∈ renderedArguments arguments, Legible g node := by
      refine ⟨fun node hnode => h.2 node ?_, fun node hnode => h.2 node ?_⟩ <;>
        split <;> simp [hnode]
    have hcall := neat_emitCall (h.1.names selection.name (by simp [Node.symbols, Expr.symbols]))
      (neat_emitSite? site hparts.1) (fun v hv => scans_emitArguments arguments hparts.2 hv) hw
    rw [Expr.rendered, stringsOf_node rfl]
    by_cases hguard : (selection.nilSafe || optional) = true
    · rw [if_pos hguard] at hcall ⊢
      rwa [stringsOf_append]
    · rw [if_neg hguard] at hcall ⊢
      rwa [stringsOf_append]
  | .property site selection indices, n, w, h, hw => by
    obtain ⟨v, i, hv, hi, rfl⟩ := yields_emitExpr_property.1 hw
    simp only [Expr.rendered, List.forall_mem_cons, List.forall_mem_append] at h
    obtain ⟨hnode, hsite, hindices⟩ := h
    have hfield := neat_emitField
      (hnode.names selection.name (by simp [Node.symbols, Expr.symbols])) (neat_emitSite? site hsite) hv
    rw [Expr.rendered, stringsOf_node rfl, stringsOf_append]
    exact hfield.append (scans_emitPropertyIndices indices hindices hi)
  | .construct type constructor arguments initializers, n, w, h, hw => by
    simp only [Expr.rendered, List.forall_mem_cons, List.forall_mem_append] at h
    obtain ⟨hnode, harguments, hinitializers⟩ := h
    have hnames : ∀ i ∈ initializers, ∀ s ∈ i.name, ∀ name, g.names.resolve s = some name →
        isIdentifier name = true := by
      intro i hi s hs
      refine hnode.names s ?_
      simp only [Node.symbols, Expr.symbols, List.mem_append, List.mem_filterMap]
      exact Or.inr ⟨i, hi, hs⟩
    rw [Expr.rendered, stringsOf_node rfl, stringsOf_append]
    exact neat_emitConstruct hnode (fun v hv => scans_emitArguments arguments harguments hv)
      (fun v hv => scans_emitInitializers initializers hnames hinitializers hv) hw
  | .allocate type constructor bounds initializers, n, w, h, hw => by
    obtain ⟨-, rfl⟩ := yields_emitExpr_allocate.1 hw
    exact neat_of_isSilent rfl rfl
  | .element array indices, n, w, h, hw => by
    obtain ⟨v, i, hv, hi, rfl⟩ := yields_emitExpr_element.1 hw
    simp only [Expr.rendered, List.forall_mem_cons, List.forall_mem_append] at h
    rw [Expr.rendered, stringsOf_node rfl, stringsOf_append]
    exact (neat_emitExpr array h.2.1 hv).append (scans_emitIndices indices h.2.2 hi)
  | .wrapped .parentheses inner, n, w, h, hw => by
    obtain ⟨v, hv, rfl⟩ := yields_emitExpr_parentheses.1 hw
    rw [Expr.rendered, List.forall_mem_cons] at h
    exact (neat_emitExpr inner h.2 hv).scans.between neat_parenthesis scans_parenthesis
  | .wrapped .typeOf inner, n, w, h, hw => by
    obtain ⟨v, hv, rfl⟩ := yields_emitExpr_typeOf.1 hw
    rw [Expr.rendered, List.forall_mem_cons] at h
    have htype : Neat "type(".toList [] := neat_of_isSilent rfl rfl
    exact (neat_emitExpr inner h.2 hv).scans.between htype scans_parenthesis
  | .wrapped .sizeOf inner, n, w, h, hw => absurd hw not_yields_refuse
  | .wrapped .dereference inner, n, w, h, hw => absurd hw not_yields_refuse
  | .conditional condition consequence none, n, w, h, hw => by
    obtain ⟨v₁, v₂, hv₁, hv₂, rfl⟩ := yields_emitExpr_conditional_none.1 hw
    simp only [Expr.rendered, List.forall_mem_cons, List.forall_mem_append] at h
    have hif := (neat_emitExpr condition h.2.1.1 hv₁).scans.between neat_if scans_then
    have hend : Scans " end end)()".toList [] := scans_of_isSilent rfl
    rw [Expr.rendered, stringsOf_node rfl, renderedExpr?, List.append_nil, stringsOf_append]
    exact (hif.append (neat_emitExpr consequence h.2.1.2 hv₂).scans).append_silent hend
  | .conditional condition consequence (some alternative), n, w, h, hw => by
    obtain ⟨v₁, v₂, v₃, hv₁, hv₂, hv₃, rfl⟩ := yields_emitExpr_conditional_some.1 hw
    simp only [Expr.rendered, renderedExpr?, List.forall_mem_cons, List.forall_mem_append] at h
    have hif := (neat_emitExpr condition h.2.1.1 hv₁).scans.between neat_if scans_then
    have helse : Scans " else return ".toList [] := scans_of_isSilent rfl
    have hend : Scans " end end)()".toList [] := scans_of_isSilent rfl
    have hthen := (hif.append (neat_emitExpr consequence h.2.1.2 hv₂).scans).append_silent helse
    rw [Expr.rendered, stringsOf_node rfl, renderedExpr?, stringsOf_append, stringsOf_append]
    exact (hthen.append (neat_emitExpr alternative h.2.2 hv₃).scans).append_silent hend
  | .cast value type throwing safe, n, w, h, hw => by
    rw [Expr.rendered, List.forall_mem_cons] at h
    exact neat_emitExpr value h.2 (yields_emitExpr_cast.1 hw)
  | .assigned value inverted, n, w, h, hw => by
    obtain ⟨v, hv, rfl⟩ := yields_emitExpr_assigned.1 hw
    rw [Expr.rendered, List.forall_mem_cons] at h
    have hend : Scans (if inverted then " == nil)" else " ~= nil)").toList [] := by
      cases inverted <;> exact scans_of_isSilent rfl
    exact (neat_emitExpr value h.2 hv).scans.between neat_parenthesis hend
  | .method lambda parameters returns body locals, n, w, h, hw => by
    obtain ⟨v, d, l, b, hv, hd, hl, hb, rfl⟩ := yields_emitExpr_method.1 hw
    simp only [Expr.rendered, List.forall_mem_cons, List.forall_mem_append] at h
    obtain ⟨hnode, ⟨hdefaults, hlocals⟩, hbody⟩ := h
    have hparameters : ∀ p ∈ parameters, ∀ name, g.names.resolve p.name = some name →
        isIdentifier name = true := fun p hp =>
      hnode.names p.name (List.mem_append_left _ (List.mem_map_of_mem hp))
    have hnames : ∀ l ∈ locals.getD [], ∀ name, g.names.resolve l.name = some name →
        isIdentifier name = true := fun l hl =>
      hnode.names l.name (List.mem_append_right _ (List.mem_map_of_mem hl))
    have hfunction : Neat "function(".toList [] := neat_of_isSilent rfl rfl
    have hline : Scans ")\n".toList [] := scans_of_isSilent rfl
    have hend : Scans "end".toList [] := scans_of_isSilent rfl
    have hhead := (scans_emitParameterNames hparameters hv).between hfunction hline
    have hlines := ((hhead.append (scans_emitDefaultValues parameters hparameters hdefaults hd)).append
      (scans_emitLocals? locals hnames hlocals hl)).append (scans_emitStatements body hbody hb)
    rw [Expr.rendered, stringsOf_node rfl, stringsOf_append, stringsOf_append]
    exact (hlines.append_silent (scans_spaces (n * g.config.indentWidth))).append_silent hend
  | .anonymousType kind members, n, w, h, hw => absurd hw not_yields_refuse

theorem neat_emitSite? : ∀ (site : Option Expr) {n : Nat},
    (∀ node ∈ renderedExpr? site, Legible g node) → ∀ e ∈ site, ∀ w, Yields (emitExpr g e) n () w →
      Neat w (stringsOf e.rendered)
  | none, _, _, e, he => nomatch he
  | some site, n, h, e, he => by
    obtain rfl : site = e := by simpa using he
    exact fun w hw => neat_emitExpr site h hw

theorem scans_emitExprs : ∀ (es : List Expr) {isFirst : Bool} {n : Nat} {w : List Char},
    (∀ node ∈ renderedExprs es, Legible g node) → Yields (emitExprs g isFirst es) n () w →
      Scans w (stringsOf (renderedExprs es))
  | [], isFirst, n, w, _, hw => by
    rw [yields_emitExprs_nil.1 hw]
    exact Scans.nil
  | e :: es, isFirst, n, w, h, hw => by
    obtain ⟨v, vs, hv, hvs, rfl⟩ := yields_emitExprs_cons.1 hw
    rw [renderedExprs, List.forall_mem_append] at h
    rw [renderedExprs, stringsOf_append]
    exact ((scans_comma isFirst).silent_append (neat_emitExpr e h.1 hv).scans).append
      (scans_emitExprs es h.2 hvs)

theorem scans_emitEntries : ∀ (entries : List (Expr × Expr)) {isFirst : Bool} {n : Nat}
    {w : List Char}, (∀ node ∈ renderedEntries entries, Legible g node) →
      Yields (emitEntries g isFirst entries) n () w → Scans w (stringsOf (renderedEntries entries))
  | [], isFirst, n, w, _, hw => by
    rw [yields_emitEntries_nil.1 hw]
    exact Scans.nil
  | (key, value) :: entries, isFirst, n, w, h, hw => by
    obtain ⟨k, v, vs, hk, hv, hvs, rfl⟩ := yields_emitEntries_cons.1 hw
    rw [renderedEntries, List.forall_mem_append, List.forall_mem_append] at h
    have hkey := (neat_emitExpr key h.1.1 hk).bracketed
    have hentry := (hkey.append_silent scans_equals).append (neat_emitExpr value h.1.2 hv).scans
    have hentries := ((scans_comma isFirst).silent_append hentry).append
      (scans_emitEntries entries h.2 hvs)
    rw [renderedEntries, stringsOf_append, stringsOf_append]
    simpa using hentries

theorem scans_emitArguments : ∀ (arguments : List Argument) {isFirst : Bool} {n : Nat}
    {w : List Char}, (∀ node ∈ renderedArguments arguments, Legible g node) →
      Yields (emitArguments g isFirst arguments) n () w →
        Scans w (stringsOf (renderedArguments arguments))
  | [], isFirst, n, w, _, hw => by
    rw [yields_emitArguments_nil.1 hw]
    exact Scans.nil
  | ⟨name, value, passing⟩ :: arguments, isFirst, n, w, h, hw => by
    obtain ⟨-, v, vs, hv, hvs, rfl⟩ := yields_emitArguments_cons.1 hw
    rw [renderedArguments, List.forall_mem_append] at h
    rw [renderedArguments, stringsOf_append]
    exact ((scans_comma isFirst).silent_append (neat_emitExpr value h.1 hv).scans).append
      (scans_emitArguments arguments h.2 hvs)

theorem scans_emitPropertyIndices : ∀ (indices : List Argument) {n : Nat} {w : List Char},
    (∀ node ∈ renderedArguments indices, Legible g node) →
      Yields (emitPropertyIndices g indices) n () w →
        Scans w (stringsOf (renderedArguments indices))
  | [], n, w, _, hw => by
    rw [yields_emitPropertyIndices_nil.1 hw]
    exact Scans.nil
  | ⟨name, value, passing⟩ :: indices, n, w, h, hw => by
    obtain ⟨-, v, vs, hv, hvs, rfl⟩ := yields_emitPropertyIndices_cons.1 hw
    rw [renderedArguments, List.forall_mem_append] at h
    have hindex := (neat_emitExpr value h.1 hv).bracketed
    rw [renderedArguments, stringsOf_append]
    simpa using hindex.append (scans_emitPropertyIndices indices h.2 hvs)

theorem scans_emitIndices : ∀ (indices : List Expr) {n : Nat} {w : List Char},
    (∀ node ∈ renderedExprs indices, Legible g node) → Yields (emitIndices g indices) n () w →
      Scans w (stringsOf (renderedExprs indices))
  | [], n, w, _, hw => by
    rw [yields_emitIndices_nil.1 hw]
    exact Scans.nil
  | index :: indices, n, w, h, hw => by
    obtain ⟨v, vs, hv, hvs, rfl⟩ := yields_emitIndices_cons.1 hw
    rw [renderedExprs, List.forall_mem_append] at h
    have hindex := (neat_emitExpr index h.1 hv).bracketed
    rw [renderedExprs, stringsOf_append]
    simpa using hindex.append (scans_emitIndices indices h.2 hvs)

theorem scans_emitInitializers : ∀ (initializers : List Argument) {n : Nat} {w : List Char},
    (∀ i ∈ initializers, ∀ s ∈ i.name, ∀ name, g.names.resolve s = some name →
      isIdentifier name = true) →
    (∀ node ∈ renderedArguments initializers, Legible g node) →
      Yields (emitInitializers g initializers) n () w →
        Scans w (stringsOf (renderedArguments initializers))
  | [], n, w, _, _, hw => by
    rw [yields_emitInitializers_nil.1 hw]
    exact Scans.nil
  | ⟨name, value, passing⟩ :: initializers, n, w, hnames, h, hw => by
    obtain ⟨s, property, v, vs, rfl, hproperty, hv, hvs, rfl⟩ := yields_emitInitializers_cons.1 hw
    rw [List.forall_mem_cons] at hnames
    rw [renderedArguments, List.forall_mem_append] at h
    have htarget : Scans "; o.".toList [] := scans_of_isSilent rfl
    have hleft := (htarget.silent_append (scans_name (hnames.1 s rfl property hproperty))).silent_append
      scans_equals
    rw [renderedArguments, stringsOf_append]
    exact (hleft.silent_append (neat_emitExpr value h.1 hv).scans).append
      (scans_emitInitializers initializers hnames.2 h.2 hvs)

theorem scans_emitDefaultValues : ∀ (parameters : List Parameter) {n : Nat} {w : List Char},
    (∀ p ∈ parameters, ∀ name, g.names.resolve p.name = some name → isIdentifier name = true) →
    (∀ node ∈ renderedDefaults parameters, Legible g node) →
      Yields (emitDefaultValues g parameters) n () w →
        Scans w (stringsOf (renderedDefaults parameters))
  | [], n, w, _, _, hw => by
    rw [yields_emitDefaultValues_nil.1 hw]
    exact Scans.nil
  | ⟨name, type, passing, none⟩ :: parameters, n, w, hnames, h, hw => by
    rw [List.forall_mem_cons] at hnames
    exact scans_emitDefaultValues parameters hnames.2 h (yields_emitDefaultValues_cons_none.1 hw)
  | ⟨name, type, passing, some value⟩ :: parameters, n, w, hnames, h, hw => by
    obtain ⟨text, v, vs, htext, hv, hvs, rfl⟩ := yields_emitDefaultValues_cons_some.1 hw
    rw [List.forall_mem_cons] at hnames
    rw [renderedDefaults, renderedExpr?, List.forall_mem_append] at h
    have hname := scans_name (hnames.1 text htext)
    have hif : Scans "if ".toList [] := scans_of_isSilent rfl
    have hthen : Scans " == nil then ".toList [] := scans_of_isSilent rfl
    have hend : Scans " end\n".toList [] := scans_of_isSilent rfl
    have hcondition := (((scans_spaces (n * g.config.indentWidth)).silent_append hif).silent_append
      hname).silent_append hthen
    have hline := ((hcondition.silent_append hname).silent_append scans_equals).silent_append
      (neat_emitExpr value h.1 hv).scans
    rw [renderedDefaults, renderedExpr?, stringsOf_append]
    exact (hline.append_silent hend).append (scans_emitDefaultValues parameters hnames.2 h.2 hvs)

theorem scans_emitLocal : ∀ (declared : Declaration) {n : Nat} {w : List Char},
    (∀ name, g.names.resolve declared.name = some name → isIdentifier name = true) →
    (∀ node ∈ renderedExpr? declared.value, Legible g node) →
      Yields (emitLocal g declared) n () w → Scans w (stringsOf (renderedExpr? declared.value))
  | ⟨name, type, none, constant⟩, n, w, hname, _, hw => by
    obtain ⟨text, htext, rfl⟩ := yields_emitLocal_none.1 hw
    exact scans_localText (hname text htext) constant
  | ⟨name, type, some value, constant⟩, n, w, hname, h, hw => by
    obtain ⟨text, v, htext, hv, rfl⟩ := yields_emitLocal_some.1 hw
    exact ((scans_localText (hname text htext) constant).silent_append scans_equals).silent_append
      (neat_emitExpr value h hv).scans

theorem scans_emitLocals : ∀ (locals : List Declaration) {n : Nat} {w : List Char},
    (∀ l ∈ locals, ∀ name, g.names.resolve l.name = some name → isIdentifier name = true) →
    (∀ node ∈ renderedLocals locals, Legible g node) → Yields (emitLocals g locals) n () w →
      Scans w (stringsOf (renderedLocals locals))
  | [], n, w, _, _, hw => by
    rw [yields_emitLocals_nil.1 hw]
    exact Scans.nil
  | ⟨name, type, value, constant⟩ :: locals, n, w, hnames, h, hw => by
    obtain ⟨v, vs, hv, hvs, rfl⟩ := yields_emitLocals_cons.1 hw
    rw [List.forall_mem_cons] at hnames
    rw [renderedLocals, List.forall_mem_append] at h
    have hdeclared := scans_emitLocal ⟨name, type, value, constant⟩ hnames.1 h.1 hv
    have hline := ((scans_spaces (n * g.config.indentWidth)).silent_append hdeclared).append_silent
      scans_newline
    rw [renderedLocals, stringsOf_append]
    have hrest := hline.append (scans_emitLocals locals hnames.2 h.2 hvs)
    simpa using hrest

theorem scans_emitLocals? : ∀ (locals : Option (List Declaration)) {n : Nat} {w : List Char},
    (∀ l ∈ locals.getD [], ∀ name, g.names.resolve l.name = some name → isIdentifier name = true) →
    (∀ node ∈ renderedLocals? locals, Legible g node) → Yields (emitLocals? g locals) n () w →
      Scans w (stringsOf (renderedLocals? locals))
  | none, n, w, _, _, hw => by
    rw [yields_emitLocals?_none.1 hw]
    exact Scans.nil
  | some locals, n, w, hnames, h, hw =>
    scans_emitLocals locals hnames h (yields_emitLocals?_some.1 hw)

theorem scans_emitStatement : ∀ (s : Statement) {n : Nat} {w : List Char},
    (∀ node ∈ s.rendered, Legible g node) → Yields (emitStatement g s) n () w →
      Scans w (stringsOf s.rendered)
  | .expression value, n, w, h, hw => by
    obtain ⟨-, v, hv, rfl⟩ := yields_emitStatement_expression.1 hw
    rw [Statement.rendered, List.forall_mem_cons] at h
    have hsemicolon : Scans (semicolon v) [] := by
      rw [semicolon]
      split
      · exact scans_of_isSilent rfl
      · exact Scans.nil
    exact (((scans_spaces (n * g.config.indentWidth)).silent_append hsemicolon).silent_append
      (neat_emitExpr value h.2 hv).scans).append_silent scans_newline
  | .declaration ⟨name, type, value, constant⟩, n, w, h, hw => by
    obtain ⟨v, hv, rfl⟩ := yields_emitStatement_declaration.1 hw
    rw [Statement.rendered, List.forall_mem_cons] at h
    have hname := h.1.names name (by simp [Node.symbols])
    have hdeclared := scans_emitLocal ⟨name, type, value, constant⟩ hname h.2 hv
    exact ((scans_spaces (n * g.config.indentWidth)).silent_append hdeclared).append_silent
      scans_newline
  | .assignment target value, n, w, h, hw => by
    obtain ⟨t, v, ht, hv, rfl⟩ := yields_emitStatement_assignment.1 hw
    rw [Statement.rendered, List.forall_mem_cons, List.forall_mem_append] at h
    have hleft := ((scans_spaces (n * g.config.indentWidth)).silent_append
      (neat_emitExpr target h.2.1 ht).scans).append_silent scans_equals
    rw [Statement.rendered, stringsOf_cons, stringsOf_append]
    exact (hleft.append (neat_emitExpr value h.2.2 hv).scans).append_silent scans_newline
  | .result none, n, w, _, hw => by
    rw [yields_emitStatement_result_none.1 hw]
    have hreturn : Scans "return\n".toList [] := scans_of_isSilent rfl
    exact (scans_spaces _).silent_append hreturn
  | .result (some value), n, w, h, hw => by
    obtain ⟨v, hv, rfl⟩ := yields_emitStatement_result_some.1 hw
    rw [Statement.rendered, List.forall_mem_cons] at h
    have hreturn : Scans "return ".toList [] := scans_of_isSilent rfl
    exact (((scans_spaces (n * g.config.indentWidth)).silent_append hreturn).silent_append
      (neat_emitExpr value h.2 hv).scans).append_silent scans_newline
  | .block body, n, w, h, hw => by
    obtain ⟨b, hb, rfl⟩ := yields_emitStatement_block.1 hw
    rw [Statement.rendered, List.forall_mem_cons] at h
    have hdo : Scans "do\n".toList [] := scans_of_isSilent rfl
    have hend : Scans "end\n".toList [] := scans_of_isSilent rfl
    have hopening := (scans_spaces (n * g.config.indentWidth)).silent_append hdo
    exact ((hopening.silent_append (scans_emitStatements body h.2 hb)).append_silent
      (scans_spaces _)).append_silent hend

theorem scans_emitStatements : ∀ (statements : List Statement) {n : Nat} {w : List Char},
    (∀ node ∈ renderedStatements statements, Legible g node) →
      Yields (emitStatements g statements) n () w →
        Scans w (stringsOf (renderedStatements statements))
  | [], n, w, _, hw => by
    rw [yields_emitStatements_nil.1 hw]
    exact Scans.nil
  | s :: statements, n, w, h, hw => by
    obtain ⟨v, vs, hv, hvs, rfl⟩ := yields_emitStatements_cons.1 hw
    rw [renderedStatements, List.forall_mem_append] at h
    rw [renderedStatements, stringsOf_append]
    exact (scans_emitStatement s h.1 hv).append (scans_emitStatements statements h.2 hvs)

end

/-! ## The generator -/

/-- An emitted text, read from its start, opens no comment and no long bracket and leaves no string
open, and its strings are the string and character literals of the tree in the order of the text. -/
theorem scan_generateExpression {names : NameTable} {config : Config} {e : Expr} {text : String}
    (haccepted : ((Generator.new names config).generateExpression e).1 = .ok text)
    (hraw : ∀ node ∈ e.rendered, node.isRaw = false)
    (hnames : ∀ node ∈ e.rendered, ∀ s ∈ node.symbols, ∀ name ∈ names.resolve s,
      isIdentifier name = true)
    (hoperators : ∀ node ∈ e.rendered, ∀ operator ∈ node.customText?, IsHarmless operator) :
    scan text.toList = some ((e.rendered.flatMap Node.strings).map bytesOf) := by
  have hlegible : ∀ node ∈ e.rendered, Legible ⟨names, config⟩ node :=
    fun node hnode => ⟨hraw node hnode, hnames node hnode, hoperators node hnode⟩
  have hneat := neat_emitExpr e hlegible (generateExpression_eq_ok.1 haccepted)
  obtain ⟨b, -, hscan⟩ := hneat.scans ' ' [] ⟨by decide, by decide⟩
  rw [scan, hscan]
  rfl

/-- A call with a string that looks like a comment and the opposite of a negative number. -/
theorem scan_call_of_comment_and_negative :
    scan "f(\"--\\\"\", (- -5))".toList = some [[45, 45, 34]] :=
  @scan_generateExpression ⟨["f"]⟩ {}
    (.call none (.named ⟨0⟩) [.positional (.literal (.string "--\"")),
      .positional (.unary (.standard .minus) (.literal (.integer (-5))))] false) _
    rfl (by decide) (by decide) (by decide)

end CodeTree.Lua
