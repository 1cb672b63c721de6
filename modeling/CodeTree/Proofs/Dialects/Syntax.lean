import CodeTree.Proofs.Dialects.Phrases
import CodeTree.Proofs.Emission.Library
import CodeTree.Proofs.Emission.Source

/-! # Emitted text stays within the dialect

Whatever a tree without raw code and custom operators is written for, its tokens are tokens of the
dialect, and the locals that its text declares are those of the tree, with attributes on the constant
ones where the dialect has attributes.

* `Usual`: the condition on each node.
* `phrase_emitExpr` and `rows_emitStatements`: the text of an expression and of statements.
* `tokens_generate`: the tokens of an emitted text. -/

namespace CodeTree.Lua

set_option autoImplicit false

/-- A node without raw code and custom operators, whose names are names. -/
structure Usual (g : Setting) (plain : Prop) (node : Node) : Prop where
  notRaw : node.isRaw = false
  standard : node.customText? = none
  names : ∀ s ∈ node.symbols, ∀ name ∈ g.names.resolve s, IsMember plain name

variable {g : Setting} {plain : Prop} {n : Nat} {v w : List Char} {ds es : List (String × Bool)}

/-! ## Nodes, given their parts -/

theorem phrase_emitAtom {a : Atom} (h : Usual g plain (.expression (.atom a)))
    (hw : Yields (emitAtom g a) n () w) : Phrase g.config.target plain w [] := by
  have hname : ∀ s ∈ a.symbols, ∀ name ∈ g.names.resolve s, IsMember plain name := h.names
  cases a with
  | nil =>
    rw [yields_emitAtom_nil.1 hw]
    exact phrase_of_isCommon rfl ⟨'n', _, rfl, rfl⟩
  | selfReference =>
    rw [yields_emitAtom_self.1 hw]
    exact phrase_of_isCommon rfl ⟨'s', _, rfl, rfl⟩
  | literal l =>
    rw [yields_emitAtom_literal.1 hw]
    exact phrase_literalText _ l
  | identifier name =>
    obtain ⟨text, htext, rfl⟩ := yields_emitAtom_identifier.1 hw
    exact phrase_name (hname name (by simp [Atom.symbols]) text htext)
  | localVariable read =>
    obtain ⟨text, htext, rfl⟩ := yields_emitAtom_localVariable.1 hw
    exact phrase_name (hname read.name (by simp [Atom.symbols]) text htext)
  | typeReference type =>
    obtain ⟨text, htext, rfl⟩ := yields_emitAtom_typeReference.1 hw
    exact phrase_name (hname type.name (by simp [Atom.symbols]) text htext)
  | enumValue value =>
    obtain ⟨type, htype, name, hvalue, rfl⟩ := yields_emitAtom_enumValue.1 hw
    exact (phrase_name (hname value.type.name (by simp [Atom.symbols]) type htype)).field
      (hname value.value (by simp [Atom.symbols]) name hvalue)
  | raw code => cases h.notRaw
  | propertyValue => exact absurd hw not_yields_emitAtom_propertyValue
  | inherited => exact absurd hw not_yields_emitAtom_inherited
  | selector name => exact absurd hw not_yields_emitAtom_selector
  | default type => exact absurd hw not_yields_emitAtom_default

theorem phrase_emitUnary {operator : Operator UnaryKind} {operand : Emit Unit} [Tidy operand]
    (h : operator.customText? = none)
    (hoperand : ∀ v, Yields operand n () v → Phrase g.config.target plain v ds)
    (hw : Yields (emitUnary operator operand) n () w) : Phrase g.config.target plain w ds := by
  match operator with
  | .standard .plus => exact hoperand w hw
  | .standard .minus =>
    obtain ⟨v, hv, rfl⟩ := yields_emitPrefixed.1 hw
    exact (hoperand v hv).negated
  | .standard .not =>
    obtain ⟨v, hv, rfl⟩ := yields_emitPrefixed.1 hw
    exact (hoperand v hv).notted
  | .standard .addressOf => exact absurd hw not_yields_emitUnary_addressOf
  | .custom text => exact nomatch h

section Access

variable {site : Option Expr} {selection : Selection}

theorem phrase_emitField
    (hname : ∀ name ∈ g.names.resolve selection.name, IsMember plain name)
    (hsite : ∀ e ∈ site, ∀ v, Yields (emitExpr g e) n () v →
      Phrase g.config.target plain v (localsOf g.names e))
    (hw : Yields (emitExpr g (.field site selection)) n () w) :
    Phrase g.config.target plain w (localsOf? g.names site) := by
  cases site with
  | none =>
    obtain ⟨member, hmember, rfl⟩ := yields_emitExpr_field_none.1 hw
    exact phrase_name (hname member hmember)
  | some e =>
    obtain ⟨member, v, hmember, hv, rfl⟩ := yields_emitExpr_field_some.1 hw
    have hmember := hname member hmember
    have hguard : selection.nilSafe = true →
        Code g.config.target plain (guardText selection.nilSafe false member).toList [] :=
      fun hguarded => code_guardText hmember (by simp [hguarded])
    have haccess := phrase_accessText hguard hmember (hsite e rfl v hv) .none
    cases hguarded : selection.nilSafe <;> simpa [hguarded, localsOf?] using haccess

theorem phrase_emitCall {arguments : List Argument} {optional : Bool}
    (hname : ∀ name ∈ g.names.resolve selection.name, IsMember plain name)
    (hsite : ∀ e ∈ site, ∀ v, Yields (emitExpr g e) n () v →
      Phrase g.config.target plain v (localsOf g.names e))
    (harguments : ∀ v, Yields (emitArguments g true arguments) n () v →
      Code g.config.target plain v es)
    (hw : Yields (emitExpr g (.call site selection arguments optional)) n () w) :
    Phrase g.config.target plain w (if selection.nilSafe || optional then
      es ++ localsOf? g.names site else localsOf? g.names site ++ es) := by
  cases site with
  | none =>
    obtain ⟨member, v, hmember, hv, rfl⟩ := yields_emitExpr_call_none.1 hw
    have hphrase : Phrase g.config.target plain member.toList [] := phrase_name (hname member hmember)
    obtain ⟨c, cs, hc⟩ := hphrase.opens
    have hpiece := hphrase.code.piece (harguments v hv).parenthesized rfl
    have hphrase := hpiece.phrase ⟨c, cs ++ _, by rw [hc.1]; rfl, hc.2⟩
    simpa [localsOf?] using hphrase
  | some e =>
    obtain ⟨member, v, s, hmember, hv, hs, rfl⟩ := yields_emitExpr_call_some.1 hw
    have hmember := hname member hmember
    have hoperator : accessOperator true (isTypeReference e) = '.' ∨
        accessOperator true (isTypeReference e) = ':' := by
      rw [accessOperator]
      split
      · exact Or.inr rfl
      · exact Or.inl rfl
    exact phrase_accessText (fun hguarded => code_guardText hmember hguarded) hmember
      (hsite e rfl s hs) (.some hoperator (harguments v hv))

end Access

theorem phrase_emitConstruct {type : TypeReference} {constructor : Option Symbol}
    {arguments initializers : List Argument}
    (h : Usual g plain (.expression (.construct type constructor arguments initializers)))
    (harguments : ∀ v, Yields (emitArguments g true arguments) n () v →
      Code g.config.target plain v ds)
    (hinitializers : ∀ v, Yields (emitInitializers g initializers) n () v →
      Tail g.config.target plain v es)
    (hes : initializers = [] → es = [])
    (hw : Yields (emitExpr g (.construct type constructor arguments initializers)) n () w) :
    Phrase g.config.target plain w (constructedLocal initializers ++ (ds ++ es)) := by
  have hcreation : ∀ v, Yields (emitExpr g (.construct type constructor arguments [])) n () v →
      Phrase g.config.target plain v ds := by
    intro v hv
    obtain ⟨typeName, name, a, htype, hname, ha, rfl⟩ := yields_emitExpr_construct.1 hv
    have htype := h.names type.name (by simp [Node.symbols, Expr.symbols]) typeName htype
    have hname : IsMember plain name := by
      cases constructor with
      | none =>
        obtain rfl : "new" = name := by simpa [constructorName] using hname
        exact isMember_of_fixed rfl (by decide)
      | some s => exact h.names s (by simp [Node.symbols, Expr.symbols]) name hname
    exact Phrase.creation htype hname (harguments a ha)
  cases initializers with
  | nil =>
    rw [hes rfl, List.append_nil]
    exact hcreation w hw
  | cons i is =>
    obtain ⟨v, u, hv, hu, rfl⟩ := yields_emitExpr_construct_with.1 hw
    exact (hcreation v hv).initialized (hinitializers u hu)

theorem phrase_conditional {u v t : List Char} {cs : List (String × Bool)}
    (hcondition : Phrase g.config.target plain u ds) (hconsequence : Phrase g.config.target plain v es)
    (halternative : Piece g.config.target plain t cs) (hapart : isApart true t = true) :
    Phrase g.config.target plain
      ("(function() if ".toList ++ u ++ " then return ".toList ++ v ++ t) (ds ++ es ++ cs) := by
  have hif : Piece g.config.target plain "(function() if ".toList [] := piece_of_isCommon rfl
  have hthen : Piece g.config.target plain " then return ".toList [] := piece_of_isCommon rfl
  have hhead := (hif.append_code hcondition.code).piece hthen rfl
  have hpiece := (hhead.append_code hconsequence.code).piece halternative hapart
  refine Piece.phrase ?_ ⟨'(', _, rfl, rfl⟩
  simpa using hpiece

theorem code_assignment {t : List Char} (ht : Phrase g.config.target plain t ds)
    (hv : Phrase g.config.target plain v es) :
    Code g.config.target plain (t ++ " = ".toList ++ v) (ds ++ es) := by
  have hequals : Piece g.config.target plain " = ".toList [] := piece_of_isCommon rfl
  have hcode := (ht.code.piece hequals rfl).append_code hv.code
  rwa [List.append_nil] at hcode

theorem rows_defaultLine {name : String} (h : IsMember plain name)
    (hv : Phrase g.config.target plain v ds) (k : Nat) :
    Rows g.config.target plain (List.replicate k ' ' ++ "if ".toList ++ name.toList
      ++ " == nil then ".toList ++ name.toList ++ " = ".toList ++ v ++ " end\n".toList) ds := by
  have hif : Piece g.config.target plain "if ".toList [] := piece_of_isCommon rfl
  have hthen : Piece g.config.target plain " == nil then ".toList [] := piece_of_isCommon rfl
  have hend : Code g.config.target plain " end".toList [] := code_of_isCommon rfl
  have hcondition := (hif.append_code (phrase_name h).code).piece hthen rfl
  have hcode := (hcondition.append_code (code_assignment (phrase_name h) hv)).append hend rfl
  have hrows := hcode.line rfl k
  simpa using hrows

theorem rows_block {b : List Char} (h : Rows g.config.target plain b ds) (k : Nat) :
    Rows g.config.target plain (List.replicate k ' ' ++ "do\n".toList ++ b
      ++ List.replicate k ' ' ++ "end\n".toList) ds := by
  have hdo : Code g.config.target plain "do".toList [] := code_of_isCommon rfl
  have hend : Code g.config.target plain "end".toList [] := code_of_isCommon rfl
  have hrows := ((hdo.line rfl k).append h).append (hend.line rfl k)
  simpa using hrows

/-! ## Trees -/

mutual

/-- The text of an expression has tokens of the dialect and declares the locals of the expression. -/
theorem phrase_emitExpr : ∀ (e : Expr) {n : Nat} {w : List Char},
    (∀ node ∈ e.rendered, Usual g plain node) → Yields (emitExpr g e) n () w →
      Phrase g.config.target plain w (localsOf g.names e)
  | .shared s, n, w, h, hw => phrase_emitAtom (h _ (by simp [Expr.rendered])) hw
  | .atom a, n, w, h, hw => phrase_emitAtom (h _ (by simp [Expr.rendered])) hw
  | .array elements kind, n, w, h, hw => by
    obtain ⟨v, hv, rfl⟩ := yields_emitExpr_array.1 hw
    rw [Expr.rendered, List.forall_mem_cons] at h
    exact Code.braced (items_emitExprs elements h.2 hv)
  | .dictionary entries, n, w, h, hw => by
    obtain ⟨v, hv, rfl⟩ := yields_emitExpr_dictionary.1 hw
    rw [Expr.rendered, List.forall_mem_cons] at h
    exact Code.braced (items_emitEntries entries h.2 hv)
  | .tuple elements, n, w, h, hw => by
    obtain ⟨v, hv, rfl⟩ := yields_emitExpr_tuple.1 hw
    rw [Expr.rendered, List.forall_mem_cons] at h
    exact Code.braced (items_emitExprs elements h.2 hv)
  | .unary operator operand, n, w, h, hw => by
    rw [Expr.rendered, List.forall_mem_cons] at h
    exact phrase_emitUnary h.1.standard (fun v hv => phrase_emitExpr operand h.2 hv)
      (yields_emitExpr_unary.1 hw)
  | .binary (.custom text) left right, n, w, h, hw => nomatch (h _ (List.mem_cons_self)).standard
  | .binary (.standard kind) left right, n, w, h, hw => by
    obtain ⟨form, v₁, v₂, hform, hv₁, hv₂, rfl⟩ := yields_emitExpr_binary.1 hw
    simp only [Expr.rendered, List.forall_mem_cons, List.forall_mem_append] at h
    exact phrase_form hform (phrase_emitExpr left h.2.1 hv₁) (phrase_emitExpr right h.2.2 hv₂)
  | .field site selection, n, w, h, hw => by
    rw [Expr.rendered, List.forall_mem_cons] at h
    exact phrase_emitField (h.1.names selection.name (by simp [Node.symbols, Expr.symbols]))
      (phrase_emitSite? site h.2) hw
  | .call site selection arguments optional, n, w, h, hw => by
    rw [Expr.rendered, List.forall_mem_cons] at h
    have hparts : (∀ node ∈ renderedExpr? site, Usual g plain node) ∧
        ∀ node ∈ renderedArguments arguments, Usual g plain node := by
      refine ⟨fun node hnode => h.2 node ?_, fun node hnode => h.2 node ?_⟩ <;>
        split <;> simp [hnode]
    exact phrase_emitCall (h.1.names selection.name (by simp [Node.symbols, Expr.symbols]))
      (phrase_emitSite? site hparts.1) (fun v hv => items_emitArguments arguments hparts.2 hv) hw
  | .property site selection indices, n, w, h, hw => by
    obtain ⟨v, i, hv, hi, rfl⟩ := yields_emitExpr_property.1 hw
    simp only [Expr.rendered, List.forall_mem_cons, List.forall_mem_append] at h
    have hfield := phrase_emitField
      (h.1.names selection.name (by simp [Node.symbols, Expr.symbols])) (phrase_emitSite? site h.2.1) hv
    exact hfield.indexed (brackets_emitPropertyIndices indices h.2.2 hi)
  | .construct type constructor arguments initializers, n, w, h, hw => by
    simp only [Expr.rendered, List.forall_mem_cons, List.forall_mem_append] at h
    obtain ⟨hnode, harguments, hinitializers⟩ := h
    have hnames : ∀ i ∈ initializers, ∀ s ∈ i.name, ∀ name ∈ g.names.resolve s,
        IsMember plain name := by
      intro i hi s hs
      refine hnode.names s ?_
      simp only [Node.symbols, Expr.symbols, List.mem_append, List.mem_filterMap]
      exact Or.inr ⟨i, hi, hs⟩
    exact phrase_emitConstruct hnode (fun v hv => items_emitArguments arguments harguments hv)
      (fun v hv => tail_emitInitializers initializers hnames hinitializers hv)
      (by rintro rfl; rfl) hw
  | .allocate type constructor bounds initializers, n, w, h, hw => by
    obtain ⟨-, rfl⟩ := yields_emitExpr_allocate.1 hw
    have hempty : Code g.config.target plain [] [] := ⟨[], Fixed.nil.toSpells true, Carries.nil⟩
    exact hempty.braced
  | .element array indices, n, w, h, hw => by
    obtain ⟨v, i, hv, hi, rfl⟩ := yields_emitExpr_element.1 hw
    simp only [Expr.rendered, List.forall_mem_cons, List.forall_mem_append] at h
    exact (phrase_emitExpr array h.2.1 hv).indexed (brackets_emitIndices indices h.2.2 hi)
  | .wrapped .parentheses inner, n, w, h, hw => by
    obtain ⟨v, hv, rfl⟩ := yields_emitExpr_parentheses.1 hw
    rw [Expr.rendered, List.forall_mem_cons] at h
    exact phrase_of_piece_paren (phrase_emitExpr inner h.2 hv).code.parenthesized
  | .wrapped .typeOf inner, n, w, h, hw => by
    obtain ⟨v, hv, rfl⟩ := yields_emitExpr_typeOf.1 hw
    rw [Expr.rendered, List.forall_mem_cons] at h
    have htype : Piece g.config.target plain "type(".toList [] := piece_of_isCommon rfl
    exact ((phrase_emitExpr inner h.2 hv).code.between htype piece_closeParen rfl).phrase
      ⟨'t', _, rfl, rfl⟩
  | .wrapped .sizeOf inner, n, w, h, hw => absurd hw not_yields_refuse
  | .wrapped .dereference inner, n, w, h, hw => absurd hw not_yields_refuse
  | .conditional condition consequence none, n, w, h, hw => by
    obtain ⟨v₁, v₂, hv₁, hv₂, rfl⟩ := yields_emitExpr_conditional_none.1 hw
    simp only [Expr.rendered, List.forall_mem_cons, List.forall_mem_append] at h
    have hend : Piece g.config.target plain " end end)()".toList [] := piece_of_isCommon rfl
    exact phrase_conditional (phrase_emitExpr condition h.2.1.1 hv₁)
      (phrase_emitExpr consequence h.2.1.2 hv₂) hend rfl
  | .conditional condition consequence (some alternative), n, w, h, hw => by
    obtain ⟨v₁, v₂, v₃, hv₁, hv₂, hv₃, rfl⟩ := yields_emitExpr_conditional_some.1 hw
    simp only [Expr.rendered, renderedExpr?, List.forall_mem_cons, List.forall_mem_append] at h
    have helse : Piece g.config.target plain " else return ".toList [] := piece_of_isCommon rfl
    have hend : Piece g.config.target plain " end end)()".toList [] := piece_of_isCommon rfl
    have halternative := (phrase_emitExpr alternative h.2.2 hv₃).code.between helse hend rfl
    have hphrase := phrase_conditional (phrase_emitExpr condition h.2.1.1 hv₁)
      (phrase_emitExpr consequence h.2.1.2 hv₂) halternative rfl
    simpa [localsOf, localsOf?] using hphrase
  | .cast value type throwing safe, n, w, h, hw => by
    rw [Expr.rendered, List.forall_mem_cons] at h
    exact phrase_emitExpr value h.2 (yields_emitExpr_cast.1 hw)
  | .assigned value inverted, n, w, h, hw => by
    obtain ⟨v, hv, rfl⟩ := yields_emitExpr_assigned.1 hw
    rw [Expr.rendered, List.forall_mem_cons] at h
    exact phrase_assigned (phrase_emitExpr value h.2 hv) inverted
  | .method lambda parameters returns body locals, n, w, h, hw => by
    obtain ⟨v, d, l, b, hv, hd, hl, hb, rfl⟩ := yields_emitExpr_method.1 hw
    simp only [Expr.rendered, List.forall_mem_cons, List.forall_mem_append] at h
    obtain ⟨hnode, ⟨hdefaults, hlocals⟩, hbody⟩ := h
    have hparameters : ∀ p ∈ parameters, ∀ name ∈ g.names.resolve p.name, IsMember plain name :=
      fun p hp => hnode.names p.name (List.mem_append_left _ (List.mem_map_of_mem hp))
    have hnames : ∀ l ∈ locals.getD [], ∀ name ∈ g.names.resolve l.name, IsMember plain name :=
      fun l hl => hnode.names l.name (List.mem_append_right _ (List.mem_map_of_mem hl))
    have hfunction : Piece g.config.target plain "function(".toList [] := piece_of_isCommon rfl
    have hline : Piece g.config.target plain ")\n".toList [] := piece_of_isCommon rfl
    have hhead : Piece g.config.target plain ("function(".toList ++ v ++ ")\n".toList) [] :=
      Code.between (items_parameterNames hparameters hv) hfunction hline rfl
    have hrows := ((rows_emitDefaultValues parameters hparameters hdefaults hd).append
      (rows_emitLocals? locals hnames hlocals hl)).append (rows_emitStatements body hbody hb)
    obtain ⟨us, hus, hcarriesHead⟩ := hhead
    obtain ⟨ts, hts, hcarries⟩ := hrows.ended (n * g.config.indentWidth)
    have hspells := hus.spells hts
    refine phrase_of_spells ?_ (hcarriesHead.append hcarries) ⟨'f', _, rfl, rfl⟩
    simpa using hspells
  | .anonymousType kind members, n, w, h, hw => absurd hw not_yields_refuse

theorem phrase_emitSite? : ∀ (site : Option Expr) {n : Nat},
    (∀ node ∈ renderedExpr? site, Usual g plain node) → ∀ e ∈ site, ∀ w,
      Yields (emitExpr g e) n () w → Phrase g.config.target plain w (localsOf g.names e)
  | none, _, _, e, he => nomatch he
  | some site, n, h, e, he => by
    obtain rfl : site = e := by simpa using he
    exact fun w hw => phrase_emitExpr site h hw

theorem items_emitExprs : ∀ (es : List Expr) {isFirst : Bool} {n : Nat} {w : List Char},
    (∀ node ∈ renderedExprs es, Usual g plain node) → Yields (emitExprs g isFirst es) n () w →
      Items g.config.target plain isFirst w (localsOfExprs g.names es)
  | [], isFirst, n, w, _, hw => by
    rw [yields_emitExprs_nil.1 hw]
    exact Items.nil isFirst
  | e :: es, isFirst, n, w, h, hw => by
    obtain ⟨v, vs, hv, hvs, rfl⟩ := yields_emitExprs_cons.1 hw
    rw [renderedExprs, List.forall_mem_append] at h
    exact (phrase_emitExpr e h.1 hv).code.items isFirst (items_emitExprs es h.2 hvs)

theorem items_emitEntries : ∀ (entries : List (Expr × Expr)) {isFirst : Bool} {n : Nat}
    {w : List Char}, (∀ node ∈ renderedEntries entries, Usual g plain node) →
      Yields (emitEntries g isFirst entries) n () w →
        Items g.config.target plain isFirst w (localsOfEntries g.names entries)
  | [], isFirst, n, w, _, hw => by
    rw [yields_emitEntries_nil.1 hw]
    exact Items.nil isFirst
  | (key, value) :: entries, isFirst, n, w, h, hw => by
    obtain ⟨k, v, vs, hk, hv, hvs, rfl⟩ := yields_emitEntries_cons.1 hw
    rw [renderedEntries, List.forall_mem_append, List.forall_mem_append] at h
    have hentry := (phrase_emitExpr key h.1.1 hk).entry (phrase_emitExpr value h.1.2 hv)
    have hentries := hentry.items isFirst (items_emitEntries entries h.2 hvs)
    simpa [localsOfEntries] using hentries

theorem items_emitArguments : ∀ (arguments : List Argument) {isFirst : Bool} {n : Nat}
    {w : List Char}, (∀ node ∈ renderedArguments arguments, Usual g plain node) →
      Yields (emitArguments g isFirst arguments) n () w →
        Items g.config.target plain isFirst w (localsOfArguments g.names arguments)
  | [], isFirst, n, w, _, hw => by
    rw [yields_emitArguments_nil.1 hw]
    exact Items.nil isFirst
  | ⟨name, value, passing⟩ :: arguments, isFirst, n, w, h, hw => by
    obtain ⟨-, v, vs, hv, hvs, rfl⟩ := yields_emitArguments_cons.1 hw
    rw [renderedArguments, List.forall_mem_append] at h
    exact (phrase_emitExpr value h.1 hv).code.items isFirst (items_emitArguments arguments h.2 hvs)

theorem brackets_emitPropertyIndices : ∀ (indices : List Argument) {n : Nat} {w : List Char},
    (∀ node ∈ renderedArguments indices, Usual g plain node) →
      Yields (emitPropertyIndices g indices) n () w →
        Brackets g.config.target plain w (localsOfArguments g.names indices)
  | [], n, w, _, hw => by
    rw [yields_emitPropertyIndices_nil.1 hw]
    exact Brackets.nil
  | ⟨name, value, passing⟩ :: indices, n, w, h, hw => by
    obtain ⟨-, v, vs, hv, hvs, rfl⟩ := yields_emitPropertyIndices_cons.1 hw
    rw [renderedArguments, List.forall_mem_append] at h
    exact (phrase_emitExpr value h.1 hv).brackets (brackets_emitPropertyIndices indices h.2 hvs)

theorem brackets_emitIndices : ∀ (indices : List Expr) {n : Nat} {w : List Char},
    (∀ node ∈ renderedExprs indices, Usual g plain node) → Yields (emitIndices g indices) n () w →
      Brackets g.config.target plain w (localsOfExprs g.names indices)
  | [], n, w, _, hw => by
    rw [yields_emitIndices_nil.1 hw]
    exact Brackets.nil
  | index :: indices, n, w, h, hw => by
    obtain ⟨v, vs, hv, hvs, rfl⟩ := yields_emitIndices_cons.1 hw
    rw [renderedExprs, List.forall_mem_append] at h
    exact (phrase_emitExpr index h.1 hv).brackets (brackets_emitIndices indices h.2 hvs)

theorem tail_emitInitializers : ∀ (initializers : List Argument) {n : Nat} {w : List Char},
    (∀ i ∈ initializers, ∀ s ∈ i.name, ∀ name ∈ g.names.resolve s, IsMember plain name) →
    (∀ node ∈ renderedArguments initializers, Usual g plain node) →
      Yields (emitInitializers g initializers) n () w →
        Tail g.config.target plain w (localsOfArguments g.names initializers)
  | [], n, w, _, _, hw => by
    rw [yields_emitInitializers_nil.1 hw]
    exact Tail.nil
  | ⟨name, value, passing⟩ :: initializers, n, w, hnames, h, hw => by
    obtain ⟨s, property, v, vs, rfl, hproperty, hv, hvs, rfl⟩ := yields_emitInitializers_cons.1 hw
    rw [List.forall_mem_cons] at hnames
    rw [renderedArguments, List.forall_mem_append] at h
    exact tail_initializer (hnames.1 s rfl property hproperty) (phrase_emitExpr value h.1 hv)
      (tail_emitInitializers initializers hnames.2 h.2 hvs)

theorem rows_emitDefaultValues : ∀ (parameters : List Parameter) {n : Nat} {w : List Char},
    (∀ p ∈ parameters, ∀ name ∈ g.names.resolve p.name, IsMember plain name) →
    (∀ node ∈ renderedDefaults parameters, Usual g plain node) →
      Yields (emitDefaultValues g parameters) n () w →
        Rows g.config.target plain w (localsOfDefaults g.names parameters)
  | [], n, w, _, _, hw => by
    rw [yields_emitDefaultValues_nil.1 hw]
    exact Rows.nil
  | ⟨name, type, passing, none⟩ :: parameters, n, w, hnames, h, hw => by
    rw [List.forall_mem_cons] at hnames
    exact rows_emitDefaultValues parameters hnames.2 h (yields_emitDefaultValues_cons_none.1 hw)
  | ⟨name, type, passing, some value⟩ :: parameters, n, w, hnames, h, hw => by
    obtain ⟨text, v, vs, htext, hv, hvs, rfl⟩ := yields_emitDefaultValues_cons_some.1 hw
    rw [List.forall_mem_cons] at hnames
    rw [renderedDefaults, renderedExpr?, List.forall_mem_append] at h
    exact (rows_defaultLine (hnames.1 text htext) (phrase_emitExpr value h.1 hv) _).append
      (rows_emitDefaultValues parameters hnames.2 h.2 hvs)

/-- The line of a declaration. -/
theorem rows_emitLocal : ∀ (declared : Declaration) {n : Nat} {w : List Char} (k : Nat),
    (∀ name ∈ g.names.resolve declared.name, IsMember plain name) →
    (∀ node ∈ renderedExpr? declared.value, Usual g plain node) →
      Yields (emitLocal g declared) n () w →
        Rows g.config.target plain (List.replicate k ' ' ++ w ++ ['\n'])
          (localOf g.names declared.name declared.constant ++ localsOf? g.names declared.value)
  | ⟨name, type, none, constant⟩, n, w, k, hname, _, hw => by
    obtain ⟨text, htext, rfl⟩ := yields_emitLocal_none.1 hw
    have hlocal : localOf g.names name constant = [(text, constant)] := by simp [localOf, htext]
    show Rows _ _ _ (localOf g.names name constant ++ [])
    rw [hlocal, List.append_nil]
    exact rows_local (hname text htext) k
  | ⟨name, type, some value, constant⟩, n, w, k, hname, h, hw => by
    obtain ⟨text, v, htext, hv, rfl⟩ := yields_emitLocal_some.1 hw
    have hlocal : localOf g.names name constant = [(text, constant)] := by simp [localOf, htext]
    show Rows _ _ _ (localOf g.names name constant ++ localsOf g.names value)
    rw [hlocal]
    exact (code_local (hname text htext) (phrase_emitExpr value h hv)).line rfl k

theorem rows_emitLocals : ∀ (locals : List Declaration) {n : Nat} {w : List Char},
    (∀ l ∈ locals, ∀ name ∈ g.names.resolve l.name, IsMember plain name) →
    (∀ node ∈ renderedLocals locals, Usual g plain node) → Yields (emitLocals g locals) n () w →
      Rows g.config.target plain w (localsOfLocals g.names locals)
  | [], n, w, _, _, hw => by
    rw [yields_emitLocals_nil.1 hw]
    exact Rows.nil
  | ⟨name, type, value, constant⟩ :: locals, n, w, hnames, h, hw => by
    obtain ⟨v, vs, hv, hvs, rfl⟩ := yields_emitLocals_cons.1 hw
    rw [List.forall_mem_cons] at hnames
    rw [renderedLocals, List.forall_mem_append] at h
    have hline := rows_emitLocal ⟨name, type, value, constant⟩ (n * g.config.indentWidth) hnames.1 h.1 hv
    have hrows := hline.append (rows_emitLocals locals hnames.2 h.2 hvs)
    simpa [localsOfLocals] using hrows

theorem rows_emitLocals? : ∀ (locals : Option (List Declaration)) {n : Nat} {w : List Char},
    (∀ l ∈ locals.getD [], ∀ name ∈ g.names.resolve l.name, IsMember plain name) →
    (∀ node ∈ renderedLocals? locals, Usual g plain node) → Yields (emitLocals? g locals) n () w →
      Rows g.config.target plain w (localsOfLocals? g.names locals)
  | none, n, w, _, _, hw => by
    rw [yields_emitLocals?_none.1 hw]
    exact Rows.nil
  | some locals, n, w, hnames, h, hw => rows_emitLocals locals hnames h hw

theorem rows_emitStatement : ∀ (s : Statement) {n : Nat} {w : List Char},
    (∀ node ∈ s.rendered, Usual g plain node) → Yields (emitStatement g s) n () w →
      Rows g.config.target plain w (localsOfStatement g.names s)
  | .expression value, n, w, h, hw => by
    obtain ⟨-, v, hv, rfl⟩ := yields_emitStatement_expression.1 hw
    rw [Statement.rendered, List.forall_mem_cons] at h
    have hphrase := phrase_emitExpr value h.2 hv
    have hsemicolon : Piece g.config.target plain (semicolon v) [] := by
      rw [semicolon]
      split
      · exact piece_of_isCommon rfl
      · exact piece_spaces 0
    have hstart : startsLine (semicolon v ++ v) = true := by
      rw [semicolon]
      split
      · rfl
      · simpa using startsLine_of_isOpening hphrase.opens []
    have hrows := (hsemicolon.append_code hphrase.code).line hstart (n * g.config.indentWidth)
    simpa [localsOfStatement] using hrows
  | .declaration ⟨name, type, value, constant⟩, n, w, h, hw => by
    obtain ⟨v, hv, rfl⟩ := yields_emitStatement_declaration.1 hw
    rw [Statement.rendered, List.forall_mem_cons] at h
    exact rows_emitLocal ⟨name, type, value, constant⟩ _
      (h.1.names name (by simp [Node.symbols])) h.2 hv
  | .assignment target value, n, w, h, hw => by
    obtain ⟨t, v, ht, hv, rfl⟩ := yields_emitStatement_assignment.1 hw
    rw [Statement.rendered, List.forall_mem_cons, List.forall_mem_append] at h
    have htarget := phrase_emitExpr target h.2.1 ht
    have hcode := code_assignment htarget (phrase_emitExpr value h.2.2 hv)
    have hstart : startsLine (t ++ " = ".toList ++ v) = true := by
      rw [List.append_assoc]
      exact startsLine_of_isOpening htarget.opens _
    have hrows := hcode.line hstart (n * g.config.indentWidth)
    simpa [localsOfStatement] using hrows
  | .result none, n, w, h, hw => by
    rw [yields_emitStatement_result_none.1 hw]
    have hreturn : Code g.config.target plain "return".toList [] := code_of_isCommon rfl
    have hrows := hreturn.line rfl (n * g.config.indentWidth)
    simpa [localsOfStatement, localsOf?] using hrows
  | .result (some value), n, w, h, hw => by
    obtain ⟨v, hv, rfl⟩ := yields_emitStatement_result_some.1 hw
    rw [Statement.rendered, List.forall_mem_cons] at h
    have hreturn : Piece g.config.target plain "return ".toList [] := piece_of_isCommon rfl
    have hrows := (hreturn.append_code (phrase_emitExpr value h.2 hv).code).line rfl
      (n * g.config.indentWidth)
    simpa [localsOfStatement, localsOf?] using hrows
  | .block body, n, w, h, hw => by
    obtain ⟨b, hb, rfl⟩ := yields_emitStatement_block.1 hw
    rw [Statement.rendered, List.forall_mem_cons] at h
    exact rows_block (rows_emitStatements body h.2 hb) _

/-- The text of statements has tokens of the dialect and declares the locals of the statements. -/
theorem rows_emitStatements : ∀ (statements : List Statement) {n : Nat} {w : List Char},
    (∀ node ∈ renderedStatements statements, Usual g plain node) →
      Yields (emitStatements g statements) n () w →
        Rows g.config.target plain w (localsOfStatements g.names statements)
  | [], n, w, _, hw => by
    rw [yields_emitStatements_nil.1 hw]
    exact Rows.nil
  | s :: statements, n, w, h, hw => by
    obtain ⟨v, vs, hv, hvs, rfl⟩ := yields_emitStatements_cons.1 hw
    rw [renderedStatements, List.forall_mem_append] at h
    exact (rows_emitStatement s h.1 hv).append (rows_emitStatements statements h.2 hvs)

end

/-! ## Emitted texts -/

/-- The locals that are declared in the text of a source: before those of the statements the library,
if it is loaded. -/
def Source.locals (g : Setting) : Source → List (String × Bool)
  | expression e => localsOf g.names e
  | statements body =>
    (if usesLibrary g.config.target (renderedStatements body) then [("bit", false)] else [])
      ++ localsOfStatements g.names body

/-- The tokens of an emitted text, whole. -/
theorem carries_generate {generator : Generator} {source : Source} {text : String}
    (haccepted : (generator.generate source).1 = .ok text)
    (h : ∀ node ∈ source.rendered, Usual generator.setting plain node) :
    (∀ t ∈ lex text.toList, t.isWithin generator.setting.config.target = true) ∧
      (plain → declaredLocals (lex text.toList) =
        marked generator.setting.config.target (source.locals generator.setting)) := by
  cases source with
  | expression e =>
    obtain ⟨ts, hts, hcarries⟩ := (phrase_emitExpr e h (generateExpression_eq_ok.1 haccepted)).code
    have hlex : lex text.toList = ts := by simpa using hts [] nofun
    rw [hlex]
    exact ⟨hcarries.within, fun hplain => by
      simpa [declaredLocals, Source.locals] using hcarries.declared hplain []⟩
  | statements body =>
    obtain ⟨w, bit, hadds, rfl⟩ := generateStatements_eq_ok.1 haccepted
    obtain rfl := marks_emitStatements body _ _ _ _ hadds
    have hbody := rows_emitStatements body h ⟨_, hadds⟩
    have hrows : Rows generator.setting.config.target plain
        ((if usesLibrary generator.setting.config.target (renderedStatements body)
          then bitPrelude else "") ++ String.ofList w).toList
        (Source.locals generator.setting (.statements body)) := by
      rw [Source.locals, String.toList_append, String.toList_ofList]
      refine Rows.append ?_ hbody
      split
      · exact rows_bitPrelude
      · exact Rows.nil
    obtain ⟨ts, hts, hcarries⟩ := hrows
    have hlex := hts []
    rw [List.append_nil, lex_nil, List.append_nil] at hlex
    rw [hlex]
    exact ⟨hcarries.within, fun hplain => by
      simpa [declaredLocals] using hcarries.declared hplain [] rfl⟩

/-- Without raw code and custom operators, the text for LuaJIT has none of the marks that LuaJIT does
not have, the text for another target has no integer above the largest one, and the locals that a text
declares, at any depth, are those of the tree, the constant ones and no others with an attribute if the
target is Lua 5.4 and none of them otherwise. -/
theorem tokens_generate {names : NameTable} {config : Config} {source : Source} {text : String}
    (haccepted : ((Generator.new names config).generate source).1 = .ok text)
    (hraw : ∀ node ∈ source.rendered, node.isRaw = false)
    (hstandard : ∀ node ∈ source.rendered, node.customText? = none)
    (hnames : ∀ node ∈ source.rendered, ∀ s ∈ node.symbols, ∀ name ∈ names.resolve s,
      isIdentifier name = true) :
    (config.target = .luaJIT → ∀ m : Mark, m.isRecent = true → .mark m ∉ lex text.toList) ∧
    (config.target ≠ .luaJIT → ∀ digits, .numeral digits ∈ lex text.toList →
      digits.toList.all Char.isDigit = true → Nat.ofDigitChars 10 digits.toList 0 ≤ 2 ^ 63 - 1) ∧
    ((∀ node ∈ source.rendered, ∀ s ∈ node.symbols, ∀ name ∈ names.resolve s, name ≠ "local") →
      declaredLocals (lex text.toList) = (source.locals ⟨names, config⟩).map fun declared =>
        (declared.1, declared.2 && decide (config.target = .lua54))) := by
  have husual : ∀ node ∈ source.rendered, Usual ⟨names, config⟩
      (∀ node ∈ source.rendered, ∀ s ∈ node.symbols, ∀ name ∈ names.resolve s, name ≠ "local")
      node := fun node hnode => ⟨hraw node hnode, hstandard node hnode, fun s hs name hname =>
    ⟨hnames node hnode s hs name hname, fun hplain => hplain node hnode s hs name hname⟩⟩
  obtain ⟨hwithin, hdeclared⟩ := carries_generate haccepted husual
  refine ⟨fun htarget m hrecent hm => ?_, fun htarget digits hdigits hall => ?_, hdeclared⟩
  · have hmark := hwithin _ hm
    rw [show (Generator.new names config).setting.config.target = .luaJIT from htarget] at hmark
    simp [Token.isWithin, hrecent] at hmark
  · have hnumeral := hwithin _ hdigits
    have hfits : fitsInteger digits.toList = true := by
      simpa [Token.isWithin, hall, show (Generator.new names config).setting.config.target ≠ .luaJIT
        from htarget] using hnumeral
    have hless : Nat.ofDigitChars 10 digits.toList 0 < 2 ^ 63 := of_decide_eq_true hfits
    omega

/-- The declaration of a method with a constant and a variable that returns the least integer. -/
def methodWithConstant : Statement :=
  .declaration ⟨⟨0⟩, none, some (.method false [] none
    [.result (some (.literal (.integer (-9223372036854775808))))]
    (some [⟨⟨1⟩, none, none, true⟩, ⟨⟨2⟩, none, none, false⟩])), false⟩

/-- The constant of the method is declared with an attribute in Lua 5.4 and the other locals without. -/
theorem tokens_generate_method :
    ((Generator.new ⟨["f", "a", "b"]⟩ { target := .lua54 }).generate
      (.statements [methodWithConstant])).1 =
      .ok "local f = function()\n  local a <const>\n  local b\n  return math.mininteger\nend\n" ∧
    declaredLocals (lex
      "local f = function()\n  local a <const>\n  local b\n  return math.mininteger\nend\n".toList) =
      [("f", false), ("a", true), ("b", false)] := by
  refine (fun haccepted => ⟨haccepted, ?_⟩) (by rfl)
  exact (tokens_generate haccepted (by decide) (by decide) (by decide)).2.2 (by decide)

end CodeTree.Lua
