import CodeTree.Proofs.Reading.Written

/-! # Emitted text spells the syntax tree

The text that is written for a tree spells the tokens of the Lua syntax tree of that tree. Names must be
names that are not reserved, there must be no raw code, custom operators must be operators of Lua that
keep their operands, and behind a number or another expression that takes no access none may be written.

* `Readable`: the condition on each node, and `Spellable`: without custom operators.
* `written_of_readable` and `fixed_of_readable`: the text of an expression and of statements. -/

namespace CodeTree.Lua

set_option autoImplicit false

/-- A node without raw code and custom operators, whose names are names and which writes accesses only
behind expressions that take them. -/
structure Spellable (g : Setting) (node : Node) : Prop where
  notRaw : node.isRaw = false
  standard : node.customText? = none
  names : ∀ s ∈ node.symbols, ∀ name ∈ g.names.resolve s, isName name = true
  sites : ∀ site ∈ node.sites, site.takesSuffix = true

/-- A node like this whose custom operators are operators of Lua that keep their operands. -/
structure Readable (g : Setting) (node : Node) : Prop where
  notRaw : node.isRaw = false
  operators : node.keepsOperands g.config.target = true
  names : ∀ s ∈ node.symbols, ∀ name ∈ g.names.resolve s, isName name = true
  sites : ∀ site ∈ node.sites, site.takesSuffix = true

variable {ν : Type} {tag : Origin → String → ν} {g : Setting}

theorem Spellable.readable {node : Node} (h : Spellable g node) : Readable g node :=
  ⟨h.notRaw, Node.keepsOperands_of_standard h.standard, h.names, h.sites⟩

theorem Readable.worded {node : Node} (h : Readable g node) : Worded g node :=
  ⟨h.notRaw, fun s hs name hname => isIdentifier_of_isName (h.names s hs name hname)⟩

/-! ## What takes an access -/

theorem isPrefix_atomExp {a : Atom} {x : Exp ν} (h : atomExp? tag g a = some x)
    (hsuffix : (Expr.atom a).takesSuffix = true) : x.isPrefix = true := by
  cases a with
  | nil | literal => exact nomatch hsuffix
  | selfReference =>
    obtain rfl : given tag "self" = x := by simpa [atomExp?] using h
    rfl
  | identifier | localVariable | typeReference =>
    obtain ⟨name, -, rfl⟩ := Option.map_eq_some_iff.1 h
    rfl
  | enumValue value =>
    simp only [atomExp?, Option.bind_eq_bind, Option.bind_eq_some_iff, Option.some.injEq] at h
    obtain ⟨type, -, name, -, rfl⟩ := h
    rfl
  | propertyValue | inherited | selector | default | raw => exact nomatch h

theorem isPrefix_unaryExp {operator : Operator UnaryKind} {x z : Exp ν}
    (hplus : operator ≠ .standard .plus) (h : unaryExp? operator x = some z) : z.isPrefix = true := by
  match operator with
  | .standard .plus => exact absurd rfl hplus
  | .standard .addressOf => exact nomatch h
  | .standard .minus | .standard .not | .custom _ =>
    cases h
    rfl

theorem isPrefix_binaryExp {target : Target} {operator : Operator BinaryKind} {x y z : Exp ν}
    (h : binaryExp? tag target operator x y = some z) : z.isPrefix = true := by
  cases operator with
  | custom text =>
    cases h
    rfl
  | standard kind =>
    rw [binaryExp?] at h
    split at h
    · cases h
      rfl
    · unfold standardExp? at h
      split at h
      · cases h
        rfl
      · cases h
        rfl
      · obtain ⟨op, -, rfl⟩ := Option.map_eq_some_iff.1 h
        rfl

theorem isPrefix_selected (x : Exp ν) (isType : Bool) (member : String)
    (arguments : Option (List (Exp ν))) : (selected x isType member arguments).isPrefix = true := by
  cases arguments <;> cases isType <;> rfl

theorem isPrefix_memberExp (site : Option (Bool × Exp ν)) (selection : Selection) (optional : Bool)
    (member : String) (arguments : Option (List (Exp ν))) :
    (memberExp tag site selection optional member arguments).isPrefix = true := by
  unfold memberExp
  split
  · split <;> rfl
  · split
    · rfl
    · exact isPrefix_selected _ _ _ _

theorem isPrefix_indexed {x : Exp ν} (h : x.isPrefix = true) (keys : List (Exp ν)) :
    (indexed x keys).isPrefix = true := by
  induction keys generalizing x with
  | nil => exact h
  | cons key keys ih => exact ih (x := .index x key) rfl

theorem isPrefix_constructExp (type constructor : String) (arguments : List (Exp ν))
    (assignments : List (Stat ν)) :
    (constructExp tag type constructor arguments assignments).isPrefix = true := by
  unfold constructExp
  dsimp only
  split <;> rfl

/-- What takes accesses in the tree takes them in Lua. -/
theorem isPrefix_of_takesSuffix : ∀ (e : Expr) {x : Exp ν},
    (∀ node ∈ e.rendered, ∀ site ∈ node.sites, site.takesSuffix = true) → toLua? tag g e = some x →
      e.takesSuffix = true → x.isPrefix = true
  | .shared s, x, _, h, hsuffix => isPrefix_atomExp h hsuffix
  | .atom a, x, _, h, hsuffix => isPrefix_atomExp h hsuffix
  | .unary (.standard .plus) operand, x, hsites, h, hsuffix => by
    rw [toLua?] at h
    rw [Expr.rendered, List.forall_mem_cons] at hsites
    obtain ⟨y, hy, hx⟩ := Option.bind_eq_some_iff.1 h
    obtain rfl : y = x := by simpa [unaryExp?] using hx
    exact isPrefix_of_takesSuffix operand hsites.2 hy hsuffix
  | .unary (.standard .minus) operand, x, _, h, _ => by
    rw [toLua?] at h
    obtain ⟨y, -, hx⟩ := Option.bind_eq_some_iff.1 h
    exact isPrefix_unaryExp (by simp) hx
  | .unary (.standard .not) operand, x, _, h, _ => by
    rw [toLua?] at h
    obtain ⟨y, -, hx⟩ := Option.bind_eq_some_iff.1 h
    exact isPrefix_unaryExp (by simp) hx
  | .unary (.standard .addressOf) operand, x, _, h, _ => by
    rw [toLua?] at h
    obtain ⟨y, -, hx⟩ := Option.bind_eq_some_iff.1 h
    cases hx
  | .unary (.custom text) operand, x, _, h, _ => by
    rw [toLua?] at h
    obtain ⟨y, -, hx⟩ := Option.bind_eq_some_iff.1 h
    exact isPrefix_unaryExp (by simp) hx
  | .binary operator left right, x, _, h, _ => by
    rw [toLua?] at h
    obtain ⟨y, -, h⟩ := Option.bind_eq_some_iff.1 h
    obtain ⟨z, -, h⟩ := Option.bind_eq_some_iff.1 h
    exact isPrefix_binaryExp h
  | .field site selection, x, _, h, _ => by
    simp only [toLua?, Option.bind_eq_bind, Option.bind_eq_some_iff, Option.some.injEq] at h
    obtain ⟨_, -, _, -, rfl⟩ := h
    exact isPrefix_memberExp _ _ _ _ _
  | .call site selection arguments optional, x, _, h, _ => by
    simp only [toLua?, Option.bind_eq_bind, Option.bind_eq_some_iff, Option.some.injEq] at h
    obtain ⟨_, -, _, -, _, -, rfl⟩ := h
    exact isPrefix_memberExp _ _ _ _ _
  | .property site selection indices, x, _, h, _ => by
    simp only [toLua?, Option.bind_eq_bind, Option.bind_eq_some_iff, Option.some.injEq] at h
    obtain ⟨_, -, _, -, _, -, rfl⟩ := h
    exact isPrefix_indexed (isPrefix_memberExp _ _ _ _ _) _
  | .construct type constructor arguments initializers, x, _, h, _ => by
    simp only [toLua?, Option.bind_eq_bind, Option.bind_eq_some_iff, Option.some.injEq] at h
    obtain ⟨_, -, _, -, _, -, _, -, rfl⟩ := h
    exact isPrefix_constructExp _ _ _ _
  | .element array indices, x, hsites, h, _ => by
    simp only [toLua?, Option.bind_eq_bind, Option.bind_eq_some_iff, Option.some.injEq] at h
    obtain ⟨y, hy, keys, -, rfl⟩ := h
    simp only [Expr.rendered, List.forall_mem_cons, List.forall_mem_append] at hsites
    have hsuffix : Expr.takesSuffix array = true := hsites.1 _ (by simp [Node.sites, Expr.sites])
    exact isPrefix_indexed (isPrefix_of_takesSuffix _ hsites.2.1 hy hsuffix) keys
  | .wrapped .parentheses inner, x, _, h, _ => by
    rw [toLua?] at h
    obtain ⟨y, -, hx⟩ := Option.bind_eq_some_iff.1 h
    cases hx
    rfl
  | .wrapped .typeOf inner, x, _, h, _ => by
    rw [toLua?] at h
    obtain ⟨y, -, hx⟩ := Option.bind_eq_some_iff.1 h
    cases hx
    rfl
  | .wrapped .sizeOf inner, x, _, h, _ => by cases h
  | .wrapped .dereference inner, x, _, h, _ => by cases h
  | .conditional condition consequence none, x, _, h, _ => by
    simp only [toLua?, Option.bind_eq_bind, Option.bind_eq_some_iff, Option.some.injEq] at h
    obtain ⟨_, -, _, -, rfl⟩ := h
    rfl
  | .conditional condition consequence (some alternative), x, _, h, _ => by
    simp only [toLua?, Option.bind_eq_bind, Option.bind_eq_some_iff, Option.some.injEq] at h
    obtain ⟨_, -, _, -, _, -, rfl⟩ := h
    rfl
  | .cast value type throwing safe, x, hsites, h, hsuffix => by
    rw [Expr.rendered, List.forall_mem_cons] at hsites
    exact isPrefix_of_takesSuffix value hsites.2 h hsuffix
  | .assigned value inverted, x, _, h, _ => by
    rw [toLua?] at h
    obtain ⟨y, -, hx⟩ := Option.bind_eq_some_iff.1 h
    cases hx
    rfl
  | .array _ _, _, _, _, hsuffix | .dictionary _, _, _, _, hsuffix | .tuple _, _, _, _, hsuffix
  | .allocate _ _ _ _, _, _, _, hsuffix | .method _ _ _ _ _, _, _, _, hsuffix => by
    cases hsuffix
  | .anonymousType kind members, x, _, h, _ => by cases h

/-! ## Nodes, given their parts -/

variable {text : ν → String} (htext : ∀ origin name, text (tag origin name) = name)
variable {n : Nat} {w : List Char}

section Nodes

include htext

theorem written_emitAtom {a : Atom} (h : Readable g (.expression (.atom a)))
    (hw : Yields (emitAtom g a) n () w) :
    ∃ x, atomExp? tag g a = some x ∧ Written text w x := by
  have hnames : ∀ s ∈ a.symbols, ∀ name ∈ g.names.resolve s, isName name = true := h.names
  cases a with
  | nil =>
    rw [yields_emitAtom_nil.1 hw]
    have hnil : Written text "nil".toList .nil :=
      ⟨spells_of_run rfl rfl, 'n', "il".toList, by simp, rfl, iff_of_false (by decide) Bool.false_ne_true⟩
    exact ⟨_, rfl, hnil⟩
  | selfReference =>
    rw [yields_emitAtom_self.1 hw]
    exact ⟨_, rfl, written_given htext rfl⟩
  | literal l =>
    rw [yields_emitAtom_literal.1 hw]
    exact ⟨_, rfl, written_literalText htext _ l⟩
  | identifier s =>
    obtain ⟨name, hname, rfl⟩ := yields_emitAtom_identifier.1 hw
    exact ⟨_, by simp [atomExp?, hname], written_given htext (hnames s (by simp [Atom.symbols]) name hname)⟩
  | localVariable read =>
    obtain ⟨name, hname, rfl⟩ := yields_emitAtom_localVariable.1 hw
    exact ⟨_, by simp [atomExp?, hname],
      written_given htext (hnames read.name (by simp [Atom.symbols]) name hname)⟩
  | typeReference type =>
    obtain ⟨name, hname, rfl⟩ := yields_emitAtom_typeReference.1 hw
    exact ⟨_, by simp [atomExp?, hname],
      written_given htext (hnames type.name (by simp [Atom.symbols]) name hname)⟩
  | enumValue value =>
    obtain ⟨type, htype, name, hname, rfl⟩ := yields_emitAtom_enumValue.1 hw
    have htypeName := hnames value.type.name (by simp [Atom.symbols]) type htype
    have hvalueName := hnames value.value (by simp [Atom.symbols]) name hname
    exact ⟨_, by simp [atomExp?, htype, hname], (written_given htext htypeName).field rfl hvalueName⟩
  | propertyValue => exact absurd hw not_yields_emitAtom_propertyValue
  | inherited => exact absurd hw not_yields_emitAtom_inherited
  | selector name => exact absurd hw not_yields_emitAtom_selector
  | default type => exact absurd hw not_yields_emitAtom_default
  | raw lines =>
    have hraw := h.notRaw
    cases hraw

omit htext in
theorem written_emitUnary {operator : Operator UnaryKind} {operand : Expr}
    (h : (Node.expression (.unary operator operand)).keepsOperands g.config.target = true)
    (hleads : ∀ v, Yields (emitExpr g operand) n () v → Leads v (operand.opening g.config.target))
    (hoperand : ∀ v, Yields (emitExpr g operand) n () v →
      ∃ x, toLua? tag g operand = some x ∧ Written text v x)
    (hw : Yields (emitUnary operator (emitExpr g operand)) n () w) :
    ∃ z, toLua? tag g (.unary operator operand) = some z ∧ Written text w z := by
  match operator with
  | .standard .plus =>
    obtain ⟨x, hx, hwritten⟩ := hoperand w (yields_emitUnary_plus.1 hw)
    exact ⟨x, by simp [toLua?, hx, unaryExp?], hwritten⟩
  | .standard .minus =>
    obtain ⟨v, hv, rfl⟩ := yields_emitPrefixed.1 hw
    obtain ⟨x, hx, hwritten⟩ := hoperand v hv
    exact ⟨_, by simp [toLua?, hx, unaryExp?], hwritten.negated⟩
  | .standard .not =>
    obtain ⟨v, hv, rfl⟩ := yields_emitPrefixed.1 hw
    obtain ⟨x, hx, hwritten⟩ := hoperand v hv
    have hnot : '(' :: "not ".toList ++ gap "not " v ++ v ++ [')'] = "(not ".toList ++ v ++ [')'] := by
      rw [gap_eq_nil rfl, List.append_nil]
      rfl
    exact ⟨_, by simp [toLua?, hx, unaryExp?], hnot ▸ hwritten.notted⟩
  | .standard .addressOf => exact absurd hw not_yields_emitUnary_addressOf
  | .custom text =>
    obtain ⟨v, hv, rfl⟩ := yields_emitPrefixed.1 hw
    obtain ⟨x, hx, hwritten⟩ := hoperand v hv
    obtain ⟨hlua, hword⟩ := Node.keepsOperands_unary.1 h
    exact ⟨_, by simp [toLua?, hx, unaryExp?],
      hwritten.prefixed hlua (hleads v hv) hword⟩

section Access

variable {selection : Selection} {site : Option Expr}

theorem written_emitField (hname : ∀ name ∈ g.names.resolve selection.name, isName name = true)
    (hsite : ∀ e ∈ site, ∀ v, Yields (emitExpr g e) n () v →
      ∃ x, toLua? tag g e = some x ∧ x.endsNumeral = false ∧ Written text v x)
    (hw : Yields (emitExpr g (.field site selection)) n () w) :
    ∃ x, toLua? tag g (.field site selection) = some x ∧ Written text w x := by
  cases site with
  | none =>
    obtain ⟨member, hmember, rfl⟩ := yields_emitExpr_field_none.1 hw
    exact ⟨given tag member, by simp [toLua?, toLuaSite?, hmember, memberExp],
      written_given htext (hname member hmember)⟩
  | some e =>
    obtain ⟨member, v, hmember, hv, rfl⟩ := yields_emitExpr_field_some.1 hw
    obtain ⟨x, hx, hends, hwritten⟩ := hsite e rfl v hv
    have hcall : Calls text [] none := rfl
    have haccess := hwritten.accessed htext (isTypeReference e) selection.nilSafe false hends
      (hname member hmember) hcall
    rw [Bool.or_false] at haccess
    exact ⟨_, by simp [toLua?, toLuaSite?, hmember, hx, memberExp], haccess⟩

theorem written_emitCall {arguments : List Argument} {optional : Bool}
    (hname : ∀ name ∈ g.names.resolve selection.name, isName name = true)
    (hsite : ∀ e ∈ site, ∀ v, Yields (emitExpr g e) n () v →
      ∃ x, toLua? tag g e = some x ∧ x.endsNumeral = false ∧ Written text v x)
    (harguments : ∀ v, Yields (emitArguments g true arguments) n () v →
      ∃ xs, toLuaArguments? tag g arguments = some xs ∧ Listed true v (tokensExps text true xs))
    (hw : Yields (emitExpr g (.call site selection arguments optional)) n () w) :
    ∃ x, toLua? tag g (.call site selection arguments optional) = some x ∧ Written text w x := by
  cases site with
  | none =>
    obtain ⟨member, v, hmember, hv, rfl⟩ := yields_emitExpr_call_none.1 hw
    obtain ⟨xs, hxs, hlisted⟩ := harguments v hv
    have hcall := (written_given htext (hname member hmember)).call hlisted
    exact ⟨.call (given tag member) xs, by simp [toLua?, toLuaSite?, hmember, hxs, memberExp], hcall⟩
  | some e =>
    obtain ⟨member, v, s, hmember, hv, hs, rfl⟩ := yields_emitExpr_call_some.1 hw
    obtain ⟨xs, hxs, hlisted⟩ := harguments v hv
    obtain ⟨x, hx, hends, hwritten⟩ := hsite e rfl s hs
    have hcall : Calls text ('(' :: v ++ [')']) (some xs) := ⟨v, rfl, hlisted⟩
    have haccess := hwritten.accessed htext (isTypeReference e) selection.nilSafe optional hends
      (hname member hmember) hcall
    exact ⟨_, by simp [toLua?, toLuaSite?, hmember, hx, hxs, memberExp], haccess⟩

omit htext in
theorem toLua?_property {indices : List Argument} {x : Exp ν} {keys : List (Exp ν)}
    (hx : toLua? tag g (.field site selection) = some x)
    (hkeys : toLuaArguments? tag g indices = some keys) :
    toLua? tag g (.property site selection indices) = some (indexed x keys) := by
  simp only [toLua?, Option.bind_eq_bind, Option.bind_eq_some_iff, Option.some.injEq] at hx ⊢
  obtain ⟨s, hs, member, hmember, rfl⟩ := hx
  exact ⟨s, hs, member, hmember, keys, hkeys, rfl⟩

end Access

theorem written_emitConstruct {type : TypeReference} {constructor : Option Symbol}
    {arguments initializers : List Argument}
    (h : Readable g (.expression (.construct type constructor arguments initializers)))
    (harguments : ∀ v, Yields (emitArguments g true arguments) n () v →
      ∃ xs, toLuaArguments? tag g arguments = some xs ∧ Listed true v (tokensExps text true xs))
    (hinitializers : ∀ v, Yields (emitInitializers g initializers) n () v →
      ∃ ss, toLuaInitializers? tag g initializers = some ss ∧ Trails v (tokensStats text ss) ∧
        (ss = [] → initializers = []))
    (hw : Yields (emitExpr g (.construct type constructor arguments initializers)) n () w) :
    ∃ x, toLua? tag g (.construct type constructor arguments initializers) = some x ∧
      Written text w x := by
  have hcreation : ∀ v, Yields (emitExpr g (.construct type constructor arguments [])) n () v →
      ∃ typeName name xs, g.names.resolve type.name = some typeName ∧
        constructorName g constructor = some name ∧ toLuaArguments? tag g arguments = some xs ∧
          Written text v (.call (.field (given tag typeName) name) xs) := by
    intro v hv
    obtain ⟨typeName, name, u, htype, hname, hu, rfl⟩ := yields_emitExpr_construct.1 hv
    obtain ⟨xs, hxs, hlisted⟩ := harguments u hu
    have htypeName : isName typeName = true :=
      h.names type.name (by simp [Node.symbols, Expr.symbols]) typeName htype
    have hconstructor : isName name = true := by
      cases constructor with
      | none =>
        obtain rfl : "new" = name := by simpa [constructorName] using hname
        rfl
      | some c => exact h.names c (by simp [Node.symbols, Expr.symbols]) name hname
    have hcall := ((written_given htext htypeName).field rfl hconstructor).call hlisted
    exact ⟨typeName, name, xs, htype, hname, hxs, by simpa [constructorText] using hcall⟩
  cases initializers with
  | nil =>
    obtain ⟨typeName, name, xs, htype, hname, hxs, hwritten⟩ := hcreation w hw
    exact ⟨_, by simp [toLua?, toLuaInitializers?, htype, hname, hxs, constructExp], hwritten⟩
  | cons i is =>
    obtain ⟨v, u, hv, hu, rfl⟩ := yields_emitExpr_construct_with.1 hw
    obtain ⟨typeName, name, xs, htype, hname, hxs, hwritten⟩ := hcreation v hv
    obtain ⟨ss, hss, htrails, hempty⟩ := hinitializers u hu
    have hsome : ss ≠ [] := fun hnil => List.cons_ne_nil i is (hempty hnil)
    refine ⟨_, ?_, hwritten.initialized htext htrails⟩
    simp [toLua?, hss, htype, hname, hxs, constructExp, hsome]

end Nodes

/-! ## Lines -/

theorem fixed_spaces (k : Nat) : Fixed (List.replicate k ' ') [] := by
  induction k with
  | zero => exact Fixed.nil
  | succ k ih =>
    have hblank : Fixed [' '] [] := fixed_of_run rfl rfl
    exact hblank.append ih

theorem fixed_newline : Fixed ['\n'] [] := fixed_of_run rfl rfl

theorem Spells.line {numeral : Bool} {v : List Char} {ts : List Token} (h : Spells numeral v ts)
    (k : Nat) : Fixed (List.replicate k ' ' ++ v ++ ['\n']) ts := by
  have hline := (fixed_spaces k).append (h.fixed fixed_newline (by cases numeral <;> rfl))
  exact hline.congr (List.append_assoc _ _ _) (by simp)

theorem Written.defaultLine (htext : ∀ origin name, text (tag origin name) = name) {name : String}
    {v : List Char} {x : Exp ν} (h : Written text v x) (hname : isName name = true) (k : Nat) :
    Fixed (List.replicate k ' ' ++ "if ".toList ++ name.toList ++ " == nil then ".toList ++ name.toList
      ++ " = ".toList ++ v ++ " end\n".toList) ((defaultStat tag name x).tokens text) := by
  have hif : Fixed "if ".toList [.keyword .ifWord] := fixed_of_run rfl rfl
  have hthen : Fixed " == nil then ".toList [.mark .equal, .keyword .nilWord, .keyword .thenWord] :=
    fixed_of_run rfl rfl
  have hequals : Fixed " = ".toList [.mark .assign] := fixed_of_run rfl rfl
  have hend : Fixed " end\n".toList [.keyword .endWord] := fixed_of_run rfl rfl
  have hcondition := (((fixed_spaces k).append hif).spells (spells_name hname)).fixed hthen rfl
  have hassign := (hcondition.spells (spells_name hname)).fixed hequals rfl
  have hline := (hassign.spells h.spells.weaken).fixed hend rfl
  exact hline.congr rfl
    (by simp [defaultStat, Exp.tokens, Stat.tokens, tokensStats, given, htext, BinaryOp.token])

theorem Written.function {names : List ν} {body : List (Stat ν)} {v lines closing : List Char}
    (h : Listed true v (tokensNames text true names)) (hlines : Fixed lines (tokensStats text body))
    (hclosing : Fixed closing []) :
    Written text ("function(".toList ++ v ++ ")\n".toList ++ lines ++ closing ++ "end".toList)
      (.function names body) := by
  have hfunction : Fixed "function(".toList [.keyword .functionWord, .mark .leftParen] :=
    fixed_of_run rfl rfl
  have hparen : Fixed ")\n".toList [.mark .rightParen] := fixed_of_run rfl rfl
  have hend : Spells false "end".toList [.keyword .endWord] := spells_of_run rfl rfl
  have hhead := (hfunction.spells h).fixed hparen rfl
  have hwhole := ((hhead.append hlines).append hclosing).spells hend
  refine ⟨hwhole.congr rfl (by simp [Exp.tokens]), 'f', _, rfl, rfl, ?_⟩
  exact iff_of_false (by decide) Bool.false_ne_true

/-- A call as a statement: the text gets a semicolon exactly when the statement does. -/
theorem Written.callStats {v : List Char} {x : Exp ν} (h : Written text v x) :
    Spells x.endsNumeral (semicolon v ++ v) (tokensStats text (callStats x)) := by
  obtain ⟨c, cs, rfl, -, hparen⟩ := h.opens
  rw [semicolon, CodeTree.Lua.callStats]
  by_cases hc : c = '('
  · have hsemicolon : Fixed [';'] [.mark .semicolon] := fixed_of_run rfl rfl
    rw [if_pos (by simp [hc]), if_pos (hparen.1 hc)]
    exact (hsemicolon.spells h.spells).congr rfl (by simp [tokensStats, Stat.tokens])
  · rw [if_neg (by simpa using hc), if_neg (fun hopens => hc (hparen.2 hopens))]
    exact h.spells.congr rfl (by simp [tokensStats, Stat.tokens])

theorem written_emitParameterNames {parameters : List Parameter} {isFirst : Bool}
    (htext : ∀ origin name, text (tag origin name) = name)
    (h : ∀ p ∈ parameters, ∀ name ∈ g.names.resolve p.name, isName name = true)
    (hw : Yields (emitParameterNames g isFirst parameters) n () w) :
    ∃ names, parameterNames? tag g parameters = some names ∧
      Listed isFirst w (tokensNames text isFirst names) := by
  induction parameters generalizing isFirst w with
  | nil =>
    rw [yields_emitParameterNames_nil.1 hw]
    exact ⟨[], rfl, Listed.nil isFirst⟩
  | cons p parameters ih =>
    obtain ⟨-, name, v, hname, hv, rfl⟩ := yields_emitParameterNames_cons.1 hw
    rw [List.forall_mem_cons] at h
    obtain ⟨names, hnames, hlisted⟩ := ih h.2 hv
    have hspells : Spells true (name.toList ++ v) (.name name :: tokensNames text false names) :=
      (spells_name (h.1 name hname)).trails hlisted
    refine ⟨tag .tree name :: names, by simp [parameterNames?, hname, hnames], ?_⟩
    cases isFirst
    · exact Trails.cons rfl (by decide)
        ((fixed_comma.spells hspells).congr rfl (by simp [tokensNames, htext]))
    · exact hspells.congr rfl (by simp [tokensNames, htext])

theorem fixed_localText {name : String} {after : List Char} {ts : List Token} (h : isName name = true)
    (constant : Bool) (hafter : Fixed after ts) (hapart : isApart false after = true)
    (hconst : Fixed (" <const>".toList ++ after) (.mark .less :: .name "const" :: .mark .greater :: ts)) :
    Fixed (localText g name constant ++ after)
      (.keyword .localWord :: .name name :: tokensAttribute (attribute? g constant) ++ ts) := by
  have hlocal : Fixed "local ".toList [.keyword .localWord] := fixed_of_run rfl rfl
  have hname := hlocal.spells (spells_name h)
  have hlocalText : localText g name constant = "local ".toList ++ name.toList
      ++ if constant && g.config.target.hasConstants then " <const>".toList else [] := rfl
  rw [hlocalText, attribute?]
  split
  · exact (hname.fixed hconst rfl).congr (List.append_assoc _ _ _) rfl
  · exact (hname.fixed hafter hapart).congr (by rw [List.append_nil]) rfl

/-! ## Trees -/

section Trees

set_option linter.unusedSectionVars false

include htext

mutual

/-- The text of an expression is written for its syntax tree. -/
theorem written_of_readable : ∀ (e : Expr) {n : Nat} {w : List Char},
    (∀ node ∈ e.rendered, Readable g node) → Yields (emitExpr g e) n () w →
      ∃ x, toLua? tag g e = some x ∧ Written text w x
  | .shared s, n, w, h, hw => written_emitAtom htext (h _ (by simp [Expr.rendered])) hw
  | .atom a, n, w, h, hw => written_emitAtom htext (h _ (by simp [Expr.rendered])) hw
  | .array elements kind, n, w, h, hw => by
    obtain ⟨v, hv, rfl⟩ := yields_emitExpr_array.1 hw
    rw [Expr.rendered, List.forall_mem_cons] at h
    obtain ⟨xs, hxs, hlisted⟩ := listed_emitExprs elements h.2 hv
    rw [← tokensFields_map_item] at hlisted
    exact ⟨_, by simp [toLua?, hxs], Written.table hlisted⟩
  | .dictionary entries, n, w, h, hw => by
    obtain ⟨v, hv, rfl⟩ := yields_emitExpr_dictionary.1 hw
    rw [Expr.rendered, List.forall_mem_cons] at h
    obtain ⟨fields, hfields, hlisted⟩ := listed_emitEntries entries h.2 hv
    exact ⟨_, by simp [toLua?, hfields], Written.table hlisted⟩
  | .tuple elements, n, w, h, hw => by
    obtain ⟨v, hv, rfl⟩ := yields_emitExpr_tuple.1 hw
    rw [Expr.rendered, List.forall_mem_cons] at h
    obtain ⟨xs, hxs, hlisted⟩ := listed_emitExprs elements h.2 hv
    rw [← tokensFields_map_item] at hlisted
    exact ⟨_, by simp [toLua?, hxs], Written.table hlisted⟩
  | .unary operator operand, n, w, h, hw => by
    rw [Expr.rendered, List.forall_mem_cons] at h
    exact written_emitUnary h.1.operators
      (fun v hv => leads_emitExpr operand (fun node hnode => (h.2 node hnode).worded) hv)
      (fun v hv => written_of_readable operand h.2 hv) (yields_emitExpr_unary.1 hw)
  | .binary operator left right, n, w, h, hw => by
    obtain ⟨form, v₁, v₂, hform, hv₁, hv₂, rfl⟩ := yields_emitExpr_binary.1 hw
    simp only [Expr.rendered, List.forall_mem_cons, List.forall_mem_append] at h
    obtain ⟨hnode, hleft, hright⟩ := h
    obtain ⟨x, hx, hwrittenx⟩ := written_of_readable left hleft hv₁
    obtain ⟨y, hy, hwritteny⟩ := written_of_readable right hright hv₂
    match operator with
    | .custom operator =>
      cases hform
      have hoperator := fixed_ofText (Node.keepsOperands_binary.1 hnode.operators).1
      exact ⟨_, by simp [toLua?, hx, hy, binaryExp?], written_parenthesized hwrittenx hwritteny hoperator⟩
    | .standard kind =>
      obtain ⟨z, hz, hwritten⟩ := written_form htext hform hwrittenx hwritteny
      exact ⟨z, by simp [toLua?, hx, hy, hz], hwritten⟩
  | .field site selection, n, w, h, hw => by
    rw [Expr.rendered, List.forall_mem_cons] at h
    exact written_emitField htext (h.1.names _ (by simp [Node.symbols, Expr.symbols]))
      (written_emitSite? site h.2 fun e he => h.1.sites e (by simpa [Node.sites, Expr.sites] using he)) hw
  | .call site selection arguments optional, n, w, h, hw => by
    rw [Expr.rendered, List.forall_mem_cons] at h
    have hparts : (∀ node ∈ renderedExpr? site, Readable g node) ∧
        ∀ node ∈ renderedArguments arguments, Readable g node := by
      refine ⟨fun node hnode => h.2 node ?_, fun node hnode => h.2 node ?_⟩ <;>
        split <;> simp [hnode]
    exact written_emitCall htext (h.1.names _ (by simp [Node.symbols, Expr.symbols]))
      (written_emitSite? site hparts.1 fun e he =>
        h.1.sites e (by simpa [Node.sites, Expr.sites] using he))
      (fun v hv => listed_emitArguments arguments hparts.2 hv) hw
  | .property site selection indices, n, w, h, hw => by
    obtain ⟨v, i, hv, hi, rfl⟩ := yields_emitExpr_property.1 hw
    simp only [Expr.rendered, List.forall_mem_cons, List.forall_mem_append] at h
    obtain ⟨hnode, hsite, hindices⟩ := h
    obtain ⟨x, hx, hwritten⟩ := written_emitField htext
      (hnode.names _ (by simp [Node.symbols, Expr.symbols]))
      (written_emitSite? site hsite fun e he =>
        hnode.sites e (by simpa [Node.sites, Expr.sites] using he)) hv
    obtain ⟨keys, hkeys, hindexed⟩ := written_emitPropertyIndices indices hindices hi
    exact ⟨_, toLua?_property hx hkeys, hindexed hwritten⟩
  | .construct type constructor arguments initializers, n, w, h, hw => by
    simp only [Expr.rendered, List.forall_mem_cons, List.forall_mem_append] at h
    obtain ⟨hnode, harguments, hinitializers⟩ := h
    have hnames : ∀ i ∈ initializers, ∀ s ∈ i.name, ∀ name ∈ g.names.resolve s,
        isName name = true := by
      intro i hi s hs
      refine hnode.names s ?_
      simp only [Node.symbols, Expr.symbols, List.mem_append, List.mem_filterMap]
      exact Or.inr ⟨i, hi, hs⟩
    exact written_emitConstruct htext hnode (fun v hv => listed_emitArguments arguments harguments hv)
      (fun v hv => trails_emitInitializers initializers hnames hinitializers hv) hw
  | .allocate type constructor bounds initializers, n, w, h, hw => by
    obtain ⟨-, rfl⟩ := yields_emitExpr_allocate.1 hw
    have htable : Written text ('{' :: [] ++ ['}']) (.table []) := Written.table (Listed.nil true)
    exact ⟨.table [], rfl, htable⟩
  | .element array indices, n, w, h, hw => by
    obtain ⟨v, i, hv, hi, rfl⟩ := yields_emitExpr_element.1 hw
    simp only [Expr.rendered, List.forall_mem_cons, List.forall_mem_append] at h
    obtain ⟨x, hx, hwritten⟩ := written_of_readable array h.2.1 hv
    obtain ⟨keys, hkeys, hindexed⟩ := written_emitIndices indices h.2.2 hi
    exact ⟨indexed x keys, by simp [toLua?, hx, hkeys], hindexed hwritten⟩
  | .wrapped .parentheses inner, n, w, h, hw => by
    obtain ⟨v, hv, rfl⟩ := yields_emitExpr_parentheses.1 hw
    rw [Expr.rendered, List.forall_mem_cons] at h
    obtain ⟨x, hx, hwritten⟩ := written_of_readable inner h.2 hv
    exact ⟨.paren x, by simp [toLua?, hx], hwritten.paren⟩
  | .wrapped .typeOf inner, n, w, h, hw => by
    obtain ⟨v, hv, rfl⟩ := yields_emitExpr_typeOf.1 hw
    rw [Expr.rendered, List.forall_mem_cons] at h
    obtain ⟨x, hx, hwritten⟩ := written_of_readable inner h.2 hv
    have hcall := Written.called (written_own htext "type" rfl) hwritten
    exact ⟨.call (own tag "type") [x], by simp [toLua?, hx], by simpa using hcall⟩
  | .wrapped .sizeOf inner, n, w, h, hw => absurd hw not_yields_refuse
  | .wrapped .dereference inner, n, w, h, hw => absurd hw not_yields_refuse
  | .conditional condition consequence none, n, w, h, hw => by
    obtain ⟨v₁, v₂, hv₁, hv₂, rfl⟩ := yields_emitExpr_conditional_none.1 hw
    simp only [Expr.rendered, List.forall_mem_cons, List.forall_mem_append] at h
    obtain ⟨x, hx, hcondition⟩ := written_of_readable condition h.2.1.1 hv₁
    obtain ⟨y, hy, hconsequence⟩ := written_of_readable consequence h.2.1.2 hv₂
    exact ⟨_, by simp [toLua?, hx, hy], hcondition.conditional_none hconsequence⟩
  | .conditional condition consequence (some alternative), n, w, h, hw => by
    obtain ⟨v₁, v₂, v₃, hv₁, hv₂, hv₃, rfl⟩ := yields_emitExpr_conditional_some.1 hw
    simp only [Expr.rendered, renderedExpr?, List.forall_mem_cons, List.forall_mem_append] at h
    obtain ⟨x, hx, hcondition⟩ := written_of_readable condition h.2.1.1 hv₁
    obtain ⟨y, hy, hconsequence⟩ := written_of_readable consequence h.2.1.2 hv₂
    obtain ⟨z, hz, halternative⟩ := written_of_readable alternative h.2.2 hv₃
    exact ⟨_, by simp [toLua?, hx, hy, hz], hcondition.conditional_some hconsequence halternative⟩
  | .cast value type throwing safe, n, w, h, hw => by
    rw [Expr.rendered, List.forall_mem_cons] at h
    exact written_of_readable value h.2 (yields_emitExpr_cast.1 hw)
  | .assigned value inverted, n, w, h, hw => by
    obtain ⟨v, hv, rfl⟩ := yields_emitExpr_assigned.1 hw
    rw [Expr.rendered, List.forall_mem_cons] at h
    obtain ⟨x, hx, hwritten⟩ := written_of_readable value h.2 hv
    exact ⟨_, by simp [toLua?, hx], hwritten.assigned inverted⟩
  | .method lambda parameters returns body locals, n, w, h, hw => by
    obtain ⟨v, d, l, b, hv, hd, hl, hb, rfl⟩ := yields_emitExpr_method.1 hw
    simp only [Expr.rendered, List.forall_mem_cons, List.forall_mem_append] at h
    obtain ⟨hnode, ⟨hdefaults, hlocals⟩, hbody⟩ := h
    have hparameters : ∀ p ∈ parameters, ∀ name ∈ g.names.resolve p.name, isName name = true :=
      fun p hp => hnode.names p.name (List.mem_append_left _ (List.mem_map_of_mem hp))
    have hnames : ∀ l ∈ locals.getD [], ∀ name ∈ g.names.resolve l.name, isName name = true :=
      fun l hl => hnode.names l.name (List.mem_append_right _ (List.mem_map_of_mem hl))
    obtain ⟨names, hnames', hlisted⟩ := written_emitParameterNames htext hparameters hv
    obtain ⟨defaults, hdefaults', hd⟩ := fixed_emitDefaultValues parameters hparameters hdefaults hd
    obtain ⟨declared, hdeclared, hl⟩ := fixed_emitLocals? locals hnames hlocals hl
    obtain ⟨statements, hstatements, hb⟩ := fixed_of_readable body hbody hb
    have hlines : Fixed (d ++ l ++ b) (tokensStats text (defaults ++ declared ++ statements)) :=
      ((hd.append hl).append hb).congr rfl (by simp [tokensStats_append])
    have hfunction := Written.function hlisted hlines (fixed_spaces (n * g.config.indentWidth))
    exact ⟨.function names (defaults ++ declared ++ statements),
      by simp [toLua?, hnames', hdefaults', hdeclared, hstatements], by simpa using hfunction⟩
  | .anonymousType kind members, n, w, h, hw => absurd hw not_yields_refuse

theorem written_emitSite? : ∀ (site : Option Expr) {n : Nat},
    (∀ node ∈ renderedExpr? site, Readable g node) → (∀ e ∈ site, e.takesSuffix = true) →
      ∀ e ∈ site, ∀ v, Yields (emitExpr g e) n () v →
        ∃ x, toLua? tag g e = some x ∧ x.endsNumeral = false ∧ Written text v x
  | none, _, _, _, e, he => nomatch he
  | some site, n, h, hsuffix, e, he => by
    obtain rfl : site = e := by simpa using he
    intro v hv
    obtain ⟨x, hx, hwritten⟩ := written_of_readable site h hv
    have hprimary := isPrefix_of_takesSuffix site (fun node hnode => (h node hnode).sites) hx
      (hsuffix site rfl)
    exact ⟨x, hx, Exp.endsNumeral_of_isPrefix hprimary, hwritten⟩

theorem listed_emitExprs : ∀ (es : List Expr) {isFirst : Bool} {n : Nat} {w : List Char},
    (∀ node ∈ renderedExprs es, Readable g node) → Yields (emitExprs g isFirst es) n () w →
      ∃ xs, toLuaList? tag g es = some xs ∧ Listed isFirst w (tokensExps text isFirst xs)
  | [], isFirst, n, w, _, hw => by
    rw [yields_emitExprs_nil.1 hw]
    exact ⟨[], rfl, Listed.nil isFirst⟩
  | e :: es, isFirst, n, w, h, hw => by
    obtain ⟨v, vs, hv, hvs, rfl⟩ := yields_emitExprs_cons.1 hw
    rw [renderedExprs, List.forall_mem_append] at h
    obtain ⟨x, hx, hwritten⟩ := written_of_readable e h.1 hv
    obtain ⟨xs, hxs, hlisted⟩ := listed_emitExprs es h.2 hvs
    exact ⟨x :: xs, by simp [toLuaList?, hx, hxs], hwritten.listed hlisted⟩

theorem listed_emitEntries : ∀ (entries : List (Expr × Expr)) {isFirst : Bool} {n : Nat}
    {w : List Char}, (∀ node ∈ renderedEntries entries, Readable g node) →
      Yields (emitEntries g isFirst entries) n () w →
        ∃ fs, toLuaEntries? tag g entries = some fs ∧ Listed isFirst w (tokensFields text isFirst fs)
  | [], isFirst, n, w, _, hw => by
    rw [yields_emitEntries_nil.1 hw]
    exact ⟨[], rfl, Listed.nil isFirst⟩
  | (key, value) :: entries, isFirst, n, w, h, hw => by
    obtain ⟨k, v, vs, hk, hv, hvs, rfl⟩ := yields_emitEntries_cons.1 hw
    rw [renderedEntries, List.forall_mem_append, List.forall_mem_append] at h
    obtain ⟨x, hx, hkey⟩ := written_of_readable key h.1.1 hk
    obtain ⟨y, hy, hvalue⟩ := written_of_readable value h.1.2 hv
    obtain ⟨fs, hfs, hlisted⟩ := listed_emitEntries entries h.2 hvs
    exact ⟨.keyed x y :: fs, by simp [toLuaEntries?, hx, hy, hfs], hkey.entry hvalue hlisted⟩

theorem listed_emitArguments : ∀ (arguments : List Argument) {isFirst : Bool} {n : Nat}
    {w : List Char}, (∀ node ∈ renderedArguments arguments, Readable g node) →
      Yields (emitArguments g isFirst arguments) n () w →
        ∃ xs, toLuaArguments? tag g arguments = some xs ∧
          Listed isFirst w (tokensExps text isFirst xs)
  | [], isFirst, n, w, _, hw => by
    rw [yields_emitArguments_nil.1 hw]
    exact ⟨[], rfl, Listed.nil isFirst⟩
  | ⟨name, value, passing⟩ :: arguments, isFirst, n, w, h, hw => by
    obtain ⟨-, v, vs, hv, hvs, rfl⟩ := yields_emitArguments_cons.1 hw
    rw [renderedArguments, List.forall_mem_append] at h
    obtain ⟨x, hx, hwritten⟩ := written_of_readable value h.1 hv
    obtain ⟨xs, hxs, hlisted⟩ := listed_emitArguments arguments h.2 hvs
    exact ⟨x :: xs, by simp [toLuaArguments?, hx, hxs], hwritten.listed hlisted⟩

theorem written_emitPropertyIndices : ∀ (indices : List Argument) {n : Nat} {w : List Char},
    (∀ node ∈ renderedArguments indices, Readable g node) →
      Yields (emitPropertyIndices g indices) n () w →
        ∃ keys, toLuaArguments? tag g indices = some keys ∧
          ∀ {v : List Char} {x : Exp ν}, Written text v x → Written text (v ++ w) (indexed x keys)
  | [], n, w, _, hw => by
    rw [yields_emitPropertyIndices_nil.1 hw]
    exact ⟨[], rfl, fun hx => by rwa [List.append_nil]⟩
  | ⟨name, value, passing⟩ :: indices, n, w, h, hw => by
    obtain ⟨-, k, u, hk, hu, rfl⟩ := yields_emitPropertyIndices_cons.1 hw
    rw [renderedArguments, List.forall_mem_append] at h
    obtain ⟨key, hkey, hwritten⟩ := written_of_readable value h.1 hk
    obtain ⟨keys, hkeys, hindexed⟩ := written_emitPropertyIndices indices h.2 hu
    exact ⟨key :: keys, by simp [toLuaArguments?, hkey, hkeys], fun hx =>
      by simpa [indexed] using hindexed (hx.index hwritten)⟩

theorem written_emitIndices : ∀ (indices : List Expr) {n : Nat} {w : List Char},
    (∀ node ∈ renderedExprs indices, Readable g node) → Yields (emitIndices g indices) n () w →
      ∃ keys, toLuaList? tag g indices = some keys ∧
        ∀ {v : List Char} {x : Exp ν}, Written text v x → Written text (v ++ w) (indexed x keys)
  | [], n, w, _, hw => by
    rw [yields_emitIndices_nil.1 hw]
    exact ⟨[], rfl, fun hx => by rwa [List.append_nil]⟩
  | index :: indices, n, w, h, hw => by
    obtain ⟨k, u, hk, hu, rfl⟩ := yields_emitIndices_cons.1 hw
    rw [renderedExprs, List.forall_mem_append] at h
    obtain ⟨key, hkey, hwritten⟩ := written_of_readable index h.1 hk
    obtain ⟨keys, hkeys, hindexed⟩ := written_emitIndices indices h.2 hu
    exact ⟨key :: keys, by simp [toLuaList?, hkey, hkeys], fun hx =>
      by simpa [indexed] using hindexed (hx.index hwritten)⟩

theorem trails_emitInitializers : ∀ (initializers : List Argument) {n : Nat} {w : List Char},
    (∀ i ∈ initializers, ∀ s ∈ i.name, ∀ name ∈ g.names.resolve s, isName name = true) →
    (∀ node ∈ renderedArguments initializers, Readable g node) →
      Yields (emitInitializers g initializers) n () w →
        ∃ ss, toLuaInitializers? tag g initializers = some ss ∧ Trails w (tokensStats text ss) ∧
          (ss = [] → initializers = [])
  | [], n, w, _, _, hw => by
    rw [yields_emitInitializers_nil.1 hw]
    exact ⟨[], rfl, Trails.nil, fun _ => rfl⟩
  | ⟨name, value, passing⟩ :: initializers, n, w, hnames, h, hw => by
    obtain ⟨s, property, v, vs, rfl, hproperty, hv, hvs, rfl⟩ := yields_emitInitializers_cons.1 hw
    rw [List.forall_mem_cons] at hnames
    rw [renderedArguments, List.forall_mem_append] at h
    obtain ⟨x, hx, hwritten⟩ := written_of_readable value h.1 hv
    obtain ⟨ss, hss, htrails, -⟩ := trails_emitInitializers initializers hnames.2 h.2 hvs
    have hproperty' := hnames.1 s rfl property hproperty
    exact ⟨_, by simp [toLuaInitializers?, hproperty, hx, hss],
      hwritten.spells.initializer htext hproperty' htrails, nofun⟩

theorem fixed_emitDefaultValues : ∀ (parameters : List Parameter) {n : Nat} {w : List Char},
    (∀ p ∈ parameters, ∀ name ∈ g.names.resolve p.name, isName name = true) →
    (∀ node ∈ renderedDefaults parameters, Readable g node) →
      Yields (emitDefaultValues g parameters) n () w →
        ∃ ss, toLuaDefaults? tag g parameters = some ss ∧ Fixed w (tokensStats text ss)
  | [], n, w, _, _, hw => by
    rw [yields_emitDefaultValues_nil.1 hw]
    exact ⟨[], rfl, Fixed.nil⟩
  | ⟨name, type, passing, none⟩ :: parameters, n, w, hnames, h, hw => by
    rw [List.forall_mem_cons] at hnames
    simp only [toLuaDefaults?]
    exact fixed_emitDefaultValues parameters hnames.2 h (yields_emitDefaultValues_cons_none.1 hw)
  | ⟨name, type, passing, some value⟩ :: parameters, n, w, hnames, h, hw => by
    obtain ⟨parameter, v, vs, hparameter, hv, hvs, rfl⟩ := yields_emitDefaultValues_cons_some.1 hw
    rw [List.forall_mem_cons] at hnames
    rw [renderedDefaults, renderedExpr?, List.forall_mem_append] at h
    obtain ⟨x, hx, hwritten⟩ := written_of_readable value h.1 hv
    obtain ⟨ss, hss, hfixed⟩ := fixed_emitDefaultValues parameters hnames.2 h.2 hvs
    refine ⟨defaultStat tag parameter x :: ss, by simp [toLuaDefaults?, hparameter, hx, hss], ?_⟩
    exact (hwritten.defaultLine htext (hnames.1 parameter hparameter) _).append hfixed

theorem fixed_emitLocal : ∀ (declared : Declaration) {n : Nat} {w : List Char},
    (∀ name ∈ g.names.resolve declared.name, isName name = true) →
    (∀ node ∈ renderedExpr? declared.value, Readable g node) → Yields (emitLocal g declared) n () w →
      ∃ s, toLuaLocal? tag g declared = some s ∧ Fixed (w ++ ['\n']) (s.tokens text)
  | ⟨name, type, none, constant⟩, n, w, hname, _, hw => by
    obtain ⟨declaredName, hvariable, rfl⟩ := yields_emitLocal_none.1 hw
    have hconst : Fixed (" <const>".toList ++ ['\n']) [.mark .less, .name "const", .mark .greater] :=
      fixed_of_run rfl rfl
    have hline := fixed_localText (g := g) (hname declaredName hvariable) constant fixed_newline rfl hconst
    exact ⟨.declare (tag .tree declaredName) (attribute? g constant) [], by simp [toLuaLocal?, hvariable],
      hline.congr rfl (by simp [Stat.tokens, htext])⟩
  | ⟨name, type, some value, constant⟩, n, w, hname, h, hw => by
    obtain ⟨declaredName, v, hvariable, hv, rfl⟩ := yields_emitLocal_some.1 hw
    obtain ⟨x, hx, hwritten⟩ := written_of_readable value h hv
    have hequals : Fixed " = ".toList [.mark .assign] := fixed_of_run rfl rfl
    have hconst : Fixed (" <const>".toList ++ " = ".toList)
        [.mark .less, .name "const", .mark .greater, .mark .assign] := fixed_of_run rfl rfl
    have hleft := fixed_localText (g := g) (hname declaredName hvariable) constant hequals rfl hconst
    have hline := (hleft.spells hwritten.spells.weaken).fixed fixed_newline rfl
    exact ⟨.declare (tag .tree declaredName) (attribute? g constant) [x],
      by simp [toLuaLocal?, hvariable, hx],
      hline.congr rfl (by simp [Stat.tokens, tokensExps, htext])⟩

theorem fixed_emitLocals : ∀ (locals : List Declaration) {n : Nat} {w : List Char},
    (∀ l ∈ locals, ∀ name ∈ g.names.resolve l.name, isName name = true) →
    (∀ node ∈ renderedLocals locals, Readable g node) → Yields (emitLocals g locals) n () w →
      ∃ ss, toLuaLocalList? tag g locals = some ss ∧ Fixed w (tokensStats text ss)
  | [], n, w, _, _, hw => by
    rw [yields_emitLocals_nil.1 hw]
    exact ⟨[], rfl, Fixed.nil⟩
  | ⟨name, type, value, constant⟩ :: locals, n, w, hnames, h, hw => by
    obtain ⟨v, vs, hv, hvs, rfl⟩ := yields_emitLocals_cons.1 hw
    rw [List.forall_mem_cons] at hnames
    rw [renderedLocals, List.forall_mem_append] at h
    obtain ⟨s, hs, hline⟩ := fixed_emitLocal ⟨name, type, value, constant⟩ hnames.1 h.1 hv
    obtain ⟨ss, hss, hfixed⟩ := fixed_emitLocals locals hnames.2 h.2 hvs
    have hlines := ((fixed_spaces (n * g.config.indentWidth)).append hline).append hfixed
    exact ⟨s :: ss, by simp [toLuaLocalList?, hs, hss], hlines.congr (by simp) (by simp [tokensStats])⟩

theorem fixed_emitLocals? : ∀ (locals : Option (List Declaration)) {n : Nat} {w : List Char},
    (∀ l ∈ locals.getD [], ∀ name ∈ g.names.resolve l.name, isName name = true) →
    (∀ node ∈ renderedLocals? locals, Readable g node) → Yields (emitLocals? g locals) n () w →
      ∃ ss, toLuaLocals? tag g locals = some ss ∧ Fixed w (tokensStats text ss)
  | none, n, w, _, _, hw => by
    rw [yields_emitLocals?_none.1 hw]
    exact ⟨[], rfl, Fixed.nil⟩
  | some locals, n, w, hnames, h, hw =>
    fixed_emitLocals locals hnames h (yields_emitLocals?_some.1 hw)

theorem fixed_emitStatement : ∀ (s : Statement) {n : Nat} {w : List Char},
    (∀ node ∈ s.rendered, Readable g node) → Yields (emitStatement g s) n () w →
      ∃ ss, toLuaStatement? tag g s = some ss ∧ Fixed w (tokensStats text ss)
  | .expression value, n, w, h, hw => by
    obtain ⟨-, v, hv, rfl⟩ := yields_emitStatement_expression.1 hw
    rw [Statement.rendered, List.forall_mem_cons] at h
    obtain ⟨x, hx, hwritten⟩ := written_of_readable value h.2 hv
    have hline := hwritten.callStats.line (n * g.config.indentWidth)
    exact ⟨callStats x, by simp [toLuaStatement?, hx], hline.congr (by simp) rfl⟩
  | .declaration ⟨name, type, value, constant⟩, n, w, h, hw => by
    obtain ⟨v, hv, rfl⟩ := yields_emitStatement_declaration.1 hw
    rw [Statement.rendered, List.forall_mem_cons] at h
    have hname := h.1.names name (by simp [Node.symbols])
    obtain ⟨s, hs, hline⟩ := fixed_emitLocal ⟨name, type, value, constant⟩ hname h.2 hv
    have hlines := (fixed_spaces (n * g.config.indentWidth)).append hline
    exact ⟨[s], by simp [toLuaStatement?, hs], hlines.congr (by simp) (by simp [tokensStats])⟩
  | .assignment target value, n, w, h, hw => by
    obtain ⟨t, v, ht, hv, rfl⟩ := yields_emitStatement_assignment.1 hw
    rw [Statement.rendered, List.forall_mem_cons, List.forall_mem_append] at h
    obtain ⟨x, hx, htarget⟩ := written_of_readable target h.2.1 ht
    obtain ⟨y, hy, hvalue⟩ := written_of_readable value h.2.2 hv
    have hequals : Fixed " = ".toList [.mark .assign] := fixed_of_run rfl rfl
    have hleft := htarget.spells.weaken.fixed hequals rfl
    have hline := (hleft.spells hvalue.spells.weaken).line (n * g.config.indentWidth)
    exact ⟨[.assign x y], by simp [toLuaStatement?, hx, hy],
      hline.congr (by simp) (by simp [tokensStats, Stat.tokens])⟩
  | .result none, n, w, _, hw => by
    rw [yields_emitStatement_result_none.1 hw]
    have hreturn : Fixed "return\n".toList [.keyword .returnWord] := fixed_of_run rfl rfl
    exact ⟨[.result []], rfl, (fixed_spaces _).append hreturn⟩
  | .result (some value), n, w, h, hw => by
    obtain ⟨v, hv, rfl⟩ := yields_emitStatement_result_some.1 hw
    rw [Statement.rendered, List.forall_mem_cons] at h
    obtain ⟨x, hx, hwritten⟩ := written_of_readable value h.2 hv
    have hreturn : Fixed "return ".toList [.keyword .returnWord] := fixed_of_run rfl rfl
    have hline := (hreturn.spells hwritten.spells.weaken).line (n * g.config.indentWidth)
    exact ⟨[.result [x]], by simp [toLuaStatement?, hx],
      hline.congr (by simp) (by simp [tokensStats, Stat.tokens, tokensExps])⟩
  | .block body, n, w, h, hw => by
    obtain ⟨b, hb, rfl⟩ := yields_emitStatement_block.1 hw
    rw [Statement.rendered, List.forall_mem_cons] at h
    obtain ⟨ss, hss, hfixed⟩ := fixed_of_readable body h.2 hb
    have hdo : Fixed "do\n".toList [.keyword .doWord] := fixed_of_run rfl rfl
    have hend : Fixed "end\n".toList [.keyword .endWord] := fixed_of_run rfl rfl
    have hopening := (fixed_spaces (n * g.config.indentWidth)).append hdo
    have hblock := ((hopening.append hfixed).append (fixed_spaces (n * g.config.indentWidth))).append hend
    exact ⟨[.block ss], by simp [toLuaStatement?, hss],
      hblock.congr rfl (by simp [tokensStats, Stat.tokens])⟩

theorem fixed_of_readable : ∀ (statements : List Statement) {n : Nat} {w : List Char},
    (∀ node ∈ renderedStatements statements, Readable g node) →
      Yields (emitStatements g statements) n () w →
        ∃ ss, toLuaStatements? tag g statements = some ss ∧ Fixed w (tokensStats text ss)
  | [], n, w, _, hw => by
    rw [yields_emitStatements_nil.1 hw]
    exact ⟨[], rfl, Fixed.nil⟩
  | s :: statements, n, w, h, hw => by
    obtain ⟨v, vs, hv, hvs, rfl⟩ := yields_emitStatements_cons.1 hw
    rw [renderedStatements, List.forall_mem_append] at h
    obtain ⟨ss, hss, hfixed⟩ := fixed_emitStatement s h.1 hv
    obtain ⟨ts, hts, hrest⟩ := fixed_of_readable statements h.2 hvs
    exact ⟨ss ++ ts, by simp [toLuaStatements?, hss, hts],
      (hfixed.append hrest).congr rfl tokensStats_append⟩

end

theorem written_emitExpr (e : Expr) (h : ∀ node ∈ e.rendered, Spellable g node)
    (hw : Yields (emitExpr g e) n () w) : ∃ x, toLua? tag g e = some x ∧ Written text w x :=
  written_of_readable htext e (fun node hnode => (h node hnode).readable) hw

theorem fixed_emitStatements (statements : List Statement)
    (h : ∀ node ∈ renderedStatements statements, Spellable g node)
    (hw : Yields (emitStatements g statements) n () w) :
    ∃ ss, toLuaStatements? tag g statements = some ss ∧ Fixed w (tokensStats text ss) :=
  fixed_of_readable htext statements (fun node hnode => (h node hnode).readable) hw

end Trees

end CodeTree.Lua
