import CodeTree.Proofs.Dialects.Alike
import CodeTree.Proofs.Emission.Passage
import CodeTree.Proofs.Lines.Layout
import CodeTree.Proofs.Lines.Nesting

/-! # Every line is indented by its depth

Each form of the emitter writes its line breaks in one of three ways: between the lines of raw code, around
the lines of a method and around those of a block. In all of them the line behind the break is indented,
so every tree is written as a layout, and its lines are as deep as they are nested. Without line feeds in
names, operators and raw code these are all the lines there are.

* `lays_emitAtom` to `lays_emitLocalName`: one statement for each form of the emitter.
* `lays_emitExpr`, `laysLines_emitStatements`: the layout of a tree.
* `block_indents_lines`: blocks and lines at any depth. -/

namespace CodeTree.Lua

set_option autoImplicit false
set_option synthInstance.maxSize 1000

/-! ## The forms of nodes -/

section Forms

variable {α : Type} {P : Prop} {g : Setting} {width : Nat} {action left right : Emit Unit}
  {ds ds' : List Nat}

theorem nameOf_bind_eq_or_stops (s : Symbol) (next : String → Emit α) :
    (∃ name, g.names.resolve s = some name ∧ (nameOf g s >>= next) = next name) ∨
      ∃ error, ∀ n, Stops (nameOf g s >>= next) n error := by
  rw [nameOf_eq]
  cases g.names.resolve s with
  | none => exact .inr ⟨_, fun n => (stops_refuse _ n).bind⟩
  | some name => exact .inl ⟨name, rfl, pure_bind name next⟩

theorem lays_nameOf_bind {s : Symbol} {next : String → Emit α}
    (h : ∀ name, g.names.resolve s = some name → Lays P width (next name) ds) :
    Lays P width (nameOf g s >>= next) ds := by
  rcases nameOf_bind_eq_or_stops s next with ⟨name, hname, heq⟩ | hstops
  · rw [heq]
    exact h name hname
  · exact .inr hstops

theorem laysLines_nameOf_bind {s : Symbol} {next : String → Emit Unit}
    (h : ∀ name, g.names.resolve s = some name → LaysLines P width (next name) ds) :
    LaysLines P width (nameOf g s >>= next) ds := by
  rcases nameOf_bind_eq_or_stops s next with ⟨name, hname, heq⟩ | hstops
  · rw [heq]
    exact h name hname
  · exact .inr hstops

theorem lays_writeName {s : Symbol} (h : P → g.names.Unbroken s) : Lays P width (writeName g s) [] :=
  lays_nameOf_bind fun name hname => lays_write_of fun hP => h hP name hname

theorem lays_emitLines : ∀ lines : List String, (P → ∀ line ∈ lines, '\n' ∉ line.toList) →
    Lays P g.config.indentWidth (emitLines g lines) (List.replicate (lines.length - 1) 0)
  | [], _ => lays_pure ()
  | [line], h => lays_write_of fun hP => h hP line List.mem_cons_self
  | line :: line' :: lines, h => by
    have hrest := lays_emitLines (line' :: lines) fun hP l hl => h hP l (List.mem_cons_of_mem _ hl)
    exact (lays_write_of fun hP => h hP line List.mem_cons_self).then fun _ => hrest.afterBreak

theorem lays_emitAtom {a : Atom} (h : P → (Node.expression (.atom a)).Unbroken g.names) :
    Lays P g.config.indentWidth (emitAtom g a) a.nesting := by
  cases a with
  | nil => exact lays_write (by decide)
  | selfReference => exact lays_write (by decide)
  | literal value => exact lays_write (newline_notMem_literalText _ value)
  | identifier | localVariable | typeReference =>
    exact lays_writeName fun hP => (h hP).symbols _ List.mem_cons_self
  | enumValue value =>
    refine lays_nameOf_bind fun type htype => lays_nameOf_bind fun name hname => ?_
    refine lays_write_of fun hP => ?_
    simp only [String.toList_append, List.mem_append, not_or]
    exact ⟨⟨(h hP).symbols _ List.mem_cons_self type htype, by decide⟩,
      (h hP).symbols _ (List.mem_cons_of_mem _ List.mem_cons_self) name hname⟩
  | raw code =>
    rw [emitAtom]
    split
    · exact lays_emitLines _ fun hP => (h hP).code code rfl
    · exact lays_refuse _
  | propertyValue | inherited | selector | default => exact lays_refuse _

theorem Lays.between (h : Lays P width action ds) {opening closing : String}
    (hopening : P → '\n' ∉ opening.toList) (hclosing : '\n' ∉ closing.toList) :
    Lays P width (emitBetween opening closing action) ds :=
  (lays_write_of hopening).then fun _ => h.before fun _ => lays_write hclosing

theorem opensWith_congr {c : Char} {text text' : String}
    (h : text.toList.head? = text'.toList.head?) : opensWith c text = opensWith c text' := by
  rw [opensWith, opensWith, h]

theorem Lays.prefixed (h : Lays P width action ds) {operator : String}
    (hoperator : P → '\n' ∉ operator.toList) : Lays P width (emitPrefixed operator action) ds := by
  -- Whether a space comes before the operand is read off its first character, which no depth changes.
  have hoperand := h.capture (fun text => endsWith '-' operator && opensWith '-' text)
    (by decide : '\n' ∉ " ".toList) fun _ _ hhead => congrArg _ (opensWith_congr hhead)
  have hclosed := hoperand.before fun _ => lays_write (by decide : '\n' ∉ ")".toList)
  rw [bind_assoc] at hclosed
  exact (lays_write_of fun hP => by simpa using hoperator hP).then fun _ => hclosed

theorem Lays.unary (h : Lays P width action ds) {operator : Operator UnaryKind}
    (hoperator : P → ∀ text ∈ operator.customText?, '\n' ∉ text.toList) :
    Lays P width (emitUnary operator action) ds := by
  match operator with
  | .standard .plus => exact h
  | .standard .minus => exact h.prefixed fun _ => by decide
  | .standard .not => exact h.prefixed fun _ => by decide
  | .standard .addressOf => exact lays_refuse _
  | .custom text => exact h.prefixed fun hP => hoperator hP text rfl

theorem Lays.binary (hleft : Lays P width left ds) (hright : Lays P width right ds')
    {operator : Operator BinaryKind} (hoperator : P → ∀ text ∈ operator.customText?, '\n' ∉ text.toList) :
    Lays P width (emitBinary g operator left right) (ds ++ ds') := by
  have hlibrary : Lays P width
      (if needsBitLibrary g.config.target operator then useBitLibrary else pure ()) [] := by
    split
    · exact lays_useBitLibrary
    · exact lays_pure ()
  rw [emitBinary_eq]
  refine hlibrary.then fun _ => ?_
  cases hform : binaryForm g.config.target operator with
  | error kind => exact lays_refuse _
  | ok form =>
    have htexts := fun hP => unbroken_binaryForm (hoperator hP) hform
    exact (lays_write_of fun hP => (htexts hP).opening).then fun _ => hleft.bind fun _ =>
      (lays_write_of fun hP => (htexts hP).between).then fun _ => hright.before fun _ =>
        lays_write_of fun hP => (htexts hP).closing

theorem lays_emitMember_none {selection : Selection} {arguments : Option (Emit Unit)} {optional : Bool}
    (hname : P → g.names.Unbroken selection.name) (hcall : Lays P width (emitCall arguments) ds) :
    Lays P width (emitMember g none selection arguments optional) ds := by
  rw [emitMember_eq]
  exact lays_nameOf_bind fun member hmember =>
    (lays_write_of fun hP => hname hP member hmember).then fun _ => hcall

/-- The lines of the site come before those of the arguments, unless the access is guarded. -/
theorem lays_emitMember_some {isType : Bool} {selection : Selection} {arguments : Option (Emit Unit)}
    {optional : Bool} (hname : P → g.names.Unbroken selection.name) (hsite : Lays P width action ds)
    (hcall : Lays P width (emitCall arguments) ds') :
    Lays P width (emitMember g (some ⟨isType, action⟩) selection arguments optional)
      (if selection.nilSafe || optional then ds' ++ ds else ds ++ ds') := by
  rw [emitMember_eq]
  refine lays_nameOf_bind fun member hmember => ?_
  have haccess : Lays P width
      (write ((if arguments.isSome && !isType then ":" else ".") ++ member)) [] := by
    refine lays_write_of fun hP => ?_
    have := hname hP member hmember
    split <;> simpa
  rw [emitAccess]
  split
  · refine (lays_write_of fun hP => ?_).then fun _ => haccess.then fun _ => hcall.bind fun _ =>
      (lays_write (by decide)).then fun _ => hsite.before fun _ => lays_write (by decide)
    simpa using newline_notMem_guardText selection.nilSafe optional (hname hP member hmember)
  · exact hsite.bind fun _ => haccess.then fun _ => hcall

theorem lays_checkArgument (name : Option Symbol) (passing : Passing) :
    Lays P width (checkArgument g name passing) [] := by
  unfold checkArgument
  cases passing with
  | byRef | out => exact lays_refuse _
  | byValue =>
    cases name with
    | none => exact lays_pure ()
    | some name =>
      cases g.config.namedArguments with
      | positional => exact lays_pure ()
      | reject => exact lays_nameOf_bind fun _ _ => lays_refuse _

theorem Lays.afterComma (h : Lays P width action ds) (isFirst : Bool) :
    Lays P width (if isFirst = true then action else write ", " >>= fun _ => action) ds := by
  cases isFirst with
  | true => exact h
  | false => exact (lays_write (by decide)).then fun _ => h

theorem lays_emitParameterNames (isFirst : Bool) (parameters : List Parameter)
    (h : P → ∀ p ∈ parameters, g.names.Unbroken p.name) :
    Lays P width (emitParameterNames g isFirst parameters) [] := by
  induction parameters generalizing isFirst with
  | nil => exact lays_pure ()
  | cons p parameters ih =>
    have hrest := ih false fun hP q hq => h hP q (List.mem_cons_of_mem _ hq)
    have hnames := ((lays_writeName fun hP => h hP p List.mem_cons_self).then fun _ =>
      hrest).afterComma isFirst
    rw [emitParameterNames]
    split
    · exact .inr ⟨_, fun n => (stops_refuse _ n).bind⟩
    · exact hnames

theorem Lays.expressionLine (h : Lays P g.config.indentWidth action ds) :
    LaysLines P g.config.indentWidth (emitExpressionLine g action) (0 :: ds) := by
  have htext := h.capture (opensWith '(') (by decide : '\n' ∉ ";".toList) fun _ _ => opensWith_congr
  have hline := htext.line
  rw [bind_assoc] at hline
  exact hline

theorem lays_emitLocalName {name : Symbol} (constant : Bool) (h : P → g.names.Unbroken name) :
    Lays P width (emitLocalName g name constant) [] := by
  refine lays_nameOf_bind fun text htext => ?_
  refine (lays_write_of fun hP => by simpa using h hP text htext).then fun _ => ?_
  split
  · exact lays_write (by decide)
  · exact lays_pure ()

end Forms

/-! ## Trees -/

section Trees

variable {P : Prop} {g : Setting}

mutual

/-- An expression is written as a layout with the lines of the tree. -/
theorem lays_emitExpr : ∀ e : Expr, (P → AllUnbroken g.names e.rendered) →
    Lays P g.config.indentWidth (emitExpr g e) e.nesting
  | .shared s, h => lays_emitAtom fun hP => (allUnbroken_cons.1 (h hP)).1
  | .atom a, h => lays_emitAtom fun hP => (allUnbroken_cons.1 (h hP)).1
  | .array elements _, h => by
    simp only [Expr.rendered, allUnbroken_cons] at h
    exact (lays_emitExprs true elements fun hP => (h hP).2).between (fun _ => by decide) (by decide)
  | .dictionary entries, h => by
    simp only [Expr.rendered, allUnbroken_cons] at h
    exact (lays_emitEntries true entries fun hP => (h hP).2).between (fun _ => by decide) (by decide)
  | .tuple elements, h => by
    simp only [Expr.rendered, allUnbroken_cons] at h
    exact (lays_emitExprs true elements fun hP => (h hP).2).between (fun _ => by decide) (by decide)
  | .unary operator operand, h => by
    simp only [Expr.rendered, allUnbroken_cons] at h
    exact (lays_emitExpr operand fun hP => (h hP).2).unary fun hP => (h hP).1.customText
  | .binary operator left right, h => by
    simp only [Expr.rendered, allUnbroken_cons, allUnbroken_append] at h
    exact (lays_emitExpr left fun hP => (h hP).2.1).binary (lays_emitExpr right fun hP => (h hP).2.2)
      fun hP => (h hP).1.customText
  | .field site selection, h => by
    simp only [Expr.rendered, allUnbroken_cons] at h
    have hfield : Lays P g.config.indentWidth (emitMember g (emitSite? g site) selection none false) _ :=
      lays_emitMember_site site (fun hP => (h hP).1.symbols _ List.mem_cons_self) (fun hP => (h hP).2)
        (lays_pure ())
    simp only [List.nil_append, List.append_nil, ite_self] at hfield
    exact hfield
  | .call site selection arguments optional, h => by
    have hparts : P → AllUnbroken g.names (renderedExpr? site) ∧
        AllUnbroken g.names (renderedArguments arguments) := by
      intro hP
      have hnodes := (allUnbroken_cons.1 (h hP)).2
      split at hnodes
      · exact (allUnbroken_append.1 hnodes).symm
      · exact allUnbroken_append.1 hnodes
    have hcall : Lays P g.config.indentWidth (emitCall (some (emitArguments g true arguments))) _ :=
      (lays_emitArguments true arguments fun hP => (hparts hP).2).between (fun _ => by decide) (by decide)
    exact lays_emitMember_site site
      (fun hP => (allUnbroken_cons.1 (h hP)).1.symbols _ List.mem_cons_self) (fun hP => (hparts hP).1) hcall
  | .property site selection indices, h => by
    simp only [Expr.rendered, allUnbroken_cons, allUnbroken_append] at h
    have hfield : Lays P g.config.indentWidth (emitMember g (emitSite? g site) selection none false) _ :=
      lays_emitMember_site site (fun hP => (h hP).1.symbols _ List.mem_cons_self) (fun hP => (h hP).2.1)
        (lays_pure ())
    simp only [List.nil_append, List.append_nil, ite_self] at hfield
    rw [emitExpr]
    exact hfield.bind fun _ => lays_emitPropertyIndices indices fun hP => (h hP).2.2
  | .construct type constructor arguments initializers, h => by
    simp only [Expr.rendered, allUnbroken_cons, allUnbroken_append] at h
    have hcreation {typeName constructorName : String} (htype : P → '\n' ∉ typeName.toList)
        (hconstructor : P → '\n' ∉ constructorName.toList) :
        Lays P g.config.indentWidth (emitBetween (typeName ++ "." ++ constructorName ++ "(") ")"
          (emitArguments g true arguments)) (nestingArguments arguments) :=
      (lays_emitArguments true arguments fun hP => (h hP).2.1).between
        (fun hP => by simp [htype hP, hconstructor hP]) (by decide)
    have hnames : P → ∀ i ∈ initializers, ∀ name ∈ i.name, g.names.Unbroken name :=
      fun hP i hi name hname => (h hP).1.symbols name
        (List.mem_append_right _ (List.mem_filterMap.2 ⟨i, hi, hname⟩))
    have hinitializers := lays_emitInitializers initializers hnames fun hP => (h hP).2.2
    have hassigned {creation : Emit Unit}
        (h : Lays P g.config.indentWidth creation (nestingArguments arguments)) :=
      (lays_write (by decide : '\n' ∉ "(function() local o = ".toList)).then fun _ => h.bind fun _ =>
        hinitializers.before fun _ => lays_write (by decide : '\n' ∉ "; return o end)()".toList)
    rw [Expr.nesting, emitExpr]
    refine lays_nameOf_bind fun typeName htypeName => ?_
    have htype : P → '\n' ∉ typeName.toList :=
      fun hP => (h hP).1.symbols type.name List.mem_cons_self typeName htypeName
    cases constructor with
    | none =>
      have hnew : P → '\n' ∉ "new".toList := fun _ => by decide
      cases initializers with
      | nil =>
        rw [nestingArguments, List.append_nil]
        exact hcreation htype hnew
      | cons i is => exact hassigned (hcreation htype hnew)
    | some constructor =>
      refine lays_nameOf_bind fun name hname => ?_
      have hconstructor : P → '\n' ∉ name.toList := fun hP => (h hP).1.symbols constructor
        (List.mem_cons_of_mem _ (List.mem_append_left _ List.mem_cons_self)) name hname
      cases initializers with
      | nil =>
        rw [nestingArguments, List.append_nil]
        exact hcreation htype hconstructor
      | cons i is => exact hassigned (hcreation htype hconstructor)
  | .allocate type _ _ _, h => lays_nameOf_bind fun _ _ => lays_write (by decide)
  | .element array indices, h => by
    simp only [Expr.rendered, allUnbroken_cons, allUnbroken_append] at h
    rw [emitExpr]
    exact (lays_emitExpr array fun hP => (h hP).2.1).bind fun _ =>
      lays_emitIndices indices fun hP => (h hP).2.2
  | .wrapped .parentheses inner, h => by
    simp only [Expr.rendered, allUnbroken_cons] at h
    exact (lays_emitExpr inner fun hP => (h hP).2).between (fun _ => by decide) (by decide)
  | .wrapped .typeOf inner, h => by
    simp only [Expr.rendered, allUnbroken_cons] at h
    exact (lays_emitExpr inner fun hP => (h hP).2).between (fun _ => by decide) (by decide)
  | .wrapped .sizeOf _, _ => lays_refuse _
  | .wrapped .dereference _, _ => lays_refuse _
  | .conditional condition consequence none, h => by
    simp only [Expr.rendered, allUnbroken_cons, allUnbroken_append] at h
    rw [Expr.nesting, nestingExpr?, List.append_nil, emitExpr]
    exact (lays_write (by decide)).then fun _ =>
      (lays_emitExpr condition fun hP => (h hP).2.1.1).bind fun _ => (lays_write (by decide)).then fun _ =>
        (lays_emitExpr consequence fun hP => (h hP).2.1.2).before fun _ =>
          (lays_pure ()).then fun _ => lays_write (by decide)
  | .conditional condition consequence (some alternative), h => by
    simp only [Expr.rendered, renderedExpr?, allUnbroken_cons, allUnbroken_append] at h
    rw [Expr.nesting, nestingExpr?, List.append_assoc, emitExpr]
    exact (lays_write (by decide)).then fun _ =>
      (lays_emitExpr condition fun hP => (h hP).2.1.1).bind fun _ => (lays_write (by decide)).then fun _ =>
        (lays_emitExpr consequence fun hP => (h hP).2.1.2).bind fun _ =>
          (lays_write (by decide)).then fun _ =>
            (lays_emitExpr alternative fun hP => (h hP).2.2).before fun _ => lays_write (by decide)
  | .cast value _ _ _, h => lays_emitExpr value fun hP => (allUnbroken_cons.1 (h hP)).2
  | .assigned value inverted, h => by
    simp only [Expr.rendered, allUnbroken_cons] at h
    exact (lays_emitExpr value fun hP => (h hP).2).between (fun _ => by decide)
      (by cases inverted <;> decide)
  | .method _ parameters _ body locals, h => by
    simp only [Expr.rendered, allUnbroken_cons, allUnbroken_append] at h
    have hnames : P → ∀ p ∈ parameters, g.names.Unbroken p.name := fun hP p hp =>
      (h hP).1.symbols p.name (List.mem_append_left _ (List.mem_map_of_mem hp))
    have hlocals : P → ∀ l ∈ locals.getD [], g.names.Unbroken l.name := fun hP l hl =>
      (h hP).1.symbols l.name (List.mem_append_right _ (List.mem_map_of_mem hl))
    have hlines := (laysLines_emitDefaultValues parameters hnames fun hP => (h hP).2.1.1).bind
      ((laysLines_emitLocals? locals hlocals fun hP => (h hP).2.1.2).bind
        (laysLines_emitStatements body fun hP => (h hP).2.2))
    rw [Expr.nesting, List.append_assoc, emitExpr]
    exact (lays_write (by decide)).then fun _ => (lays_emitParameterNames true parameters hnames).then
      fun _ => (lays_write (by decide)).then fun _ => hlines.inside (lays_write (by decide))
  | .anonymousType _ _, _ => lays_refuse _

theorem lays_emitMember_site : ∀ (site : Option Expr) {selection : Selection}
    {arguments : Option (Emit Unit)} {optional : Bool} {ds : List Nat},
    (P → g.names.Unbroken selection.name) → (P → AllUnbroken g.names (renderedExpr? site)) →
      Lays P g.config.indentWidth (emitCall arguments) ds →
        Lays P g.config.indentWidth (emitMember g (emitSite? g site) selection arguments optional)
          (if selection.nilSafe || optional then ds ++ nestingExpr? site else nestingExpr? site ++ ds)
  | none, _, _, _, _, hname, _, hcall => by
    rw [nestingExpr?, List.append_nil, List.nil_append, ite_self]
    exact lays_emitMember_none hname hcall
  | some site, _, _, _, _, hname, h, hcall => lays_emitMember_some hname (lays_emitExpr site h) hcall

theorem lays_emitExprs : ∀ (isFirst : Bool) (es : List Expr),
    (P → AllUnbroken g.names (renderedExprs es)) →
      Lays P g.config.indentWidth (emitExprs g isFirst es) (nestingExprs es)
  | _, [], _ => lays_pure ()
  | isFirst, e :: es, h => by
    simp only [renderedExprs, allUnbroken_append] at h
    rw [emitExprs]
    exact ((lays_emitExpr e fun hP => (h hP).1).bind fun _ =>
      lays_emitExprs false es fun hP => (h hP).2).afterComma isFirst

theorem lays_emitEntries : ∀ (isFirst : Bool) (entries : List (Expr × Expr)),
    (P → AllUnbroken g.names (renderedEntries entries)) →
      Lays P g.config.indentWidth (emitEntries g isFirst entries) (nestingEntries entries)
  | _, [], _ => lays_pure ()
  | isFirst, (key, value) :: entries, h => by
    simp only [renderedEntries, allUnbroken_append] at h
    have hkey := (lays_emitExpr key fun hP => (h hP).1.1).between
      (fun _ => by decide : P → '\n' ∉ "[".toList) (by decide : '\n' ∉ "] = ".toList)
    rw [nestingEntries, List.append_assoc, emitEntries]
    exact (hkey.bind fun _ => (lays_emitExpr value fun hP => (h hP).1.2).bind fun _ =>
      lays_emitEntries false entries fun hP => (h hP).2).afterComma isFirst

theorem lays_emitArguments : ∀ (isFirst : Bool) (arguments : List Argument),
    (P → AllUnbroken g.names (renderedArguments arguments)) →
      Lays P g.config.indentWidth (emitArguments g isFirst arguments) (nestingArguments arguments)
  | _, [], _ => lays_pure ()
  | isFirst, ⟨name, value, passing⟩ :: arguments, h => by
    simp only [renderedArguments, allUnbroken_append] at h
    rw [emitArguments]
    exact (lays_checkArgument name passing).then fun _ => ((lays_emitExpr value fun hP => (h hP).1).bind
      fun _ => lays_emitArguments false arguments fun hP => (h hP).2).afterComma isFirst

theorem lays_emitPropertyIndices : ∀ (indices : List Argument),
    (P → AllUnbroken g.names (renderedArguments indices)) →
      Lays P g.config.indentWidth (emitPropertyIndices g indices) (nestingArguments indices)
  | [], _ => lays_pure ()
  | ⟨name, value, passing⟩ :: indices, h => by
    simp only [renderedArguments, allUnbroken_append] at h
    rw [emitPropertyIndices]
    exact (lays_checkArgument name passing).then fun _ =>
      ((lays_emitExpr value fun hP => (h hP).1).between (fun _ => by decide) (by decide)).bind fun _ =>
        lays_emitPropertyIndices indices fun hP => (h hP).2

theorem lays_emitIndices : ∀ (indices : List Expr), (P → AllUnbroken g.names (renderedExprs indices)) →
    Lays P g.config.indentWidth (emitIndices g indices) (nestingExprs indices)
  | [], _ => lays_pure ()
  | index :: indices, h => by
    simp only [renderedExprs, allUnbroken_append] at h
    rw [emitIndices]
    exact ((lays_emitExpr index fun hP => (h hP).1).between (fun _ => by decide) (by decide)).bind
      fun _ => lays_emitIndices indices fun hP => (h hP).2

theorem lays_emitInitializers : ∀ (initializers : List Argument),
    (P → ∀ i ∈ initializers, ∀ name ∈ i.name, g.names.Unbroken name) →
      (P → AllUnbroken g.names (renderedArguments initializers)) →
        Lays P g.config.indentWidth (emitInitializers g initializers) (nestingArguments initializers)
  | [], _, _ => lays_pure ()
  | ⟨none, _, _⟩ :: _, _, _ => lays_refuse _
  | ⟨some name, value, passing⟩ :: initializers, hnames, h => by
    simp only [renderedArguments, allUnbroken_append] at h
    rw [emitInitializers]
    refine lays_nameOf_bind fun property hproperty => ?_
    have hname : P → '\n' ∉ property.toList :=
      fun hP => hnames hP _ List.mem_cons_self name rfl property hproperty
    exact (lays_write_of fun hP => by simpa using hname hP).then fun _ =>
      (lays_emitExpr value fun hP => (h hP).1).bind fun _ =>
        lays_emitInitializers initializers (fun hP i hi => hnames hP i (List.mem_cons_of_mem _ hi))
          fun hP => (h hP).2

theorem laysLines_emitDefaultValues : ∀ (parameters : List Parameter),
    (P → ∀ p ∈ parameters, g.names.Unbroken p.name) →
      (P → AllUnbroken g.names (renderedDefaults parameters)) →
        LaysLines P g.config.indentWidth (emitDefaultValues g parameters) (nestingDefaults parameters)
  | [], _, _ => laysLines_pure
  | ⟨_, _, _, none⟩ :: parameters, hnames, h =>
    laysLines_emitDefaultValues parameters (fun hP p hp => hnames hP p (List.mem_cons_of_mem _ hp)) h
  | ⟨name, _, _, some value⟩ :: parameters, hnames, h => by
    simp only [renderedDefaults, renderedExpr?, allUnbroken_append] at h
    rw [emitDefaultValues]
    refine laysLines_nameOf_bind fun text htext => ?_
    have hname : P → '\n' ∉ text.toList := fun hP => hnames hP _ List.mem_cons_self text htext
    have hvalue := (lays_emitExpr value fun hP => (h hP).1).between
      (fun hP => by simp [hname hP] :
        P → '\n' ∉ ("if " ++ text ++ " == nil then " ++ text ++ " = ").toList)
      (by decide : '\n' ∉ " end".toList)
    exact hvalue.line.bind (laysLines_emitDefaultValues parameters
      (fun hP p hp => hnames hP p (List.mem_cons_of_mem _ hp)) fun hP => (h hP).2)

/-- The declaration of a local has the lines of its value, if it has one. -/
theorem lays_emitLocal : ∀ (declared : Declaration), (P → g.names.Unbroken declared.name) →
    (P → AllUnbroken g.names (renderedExpr? declared.value)) →
      Lays P g.config.indentWidth (emitLocal g declared) (nestingExpr? declared.value)
  | ⟨_, _, none, constant⟩, hname, _ => lays_emitLocalName constant hname
  | ⟨_, _, some value, constant⟩, hname, h => by
    rw [emitLocal]
    exact (lays_emitLocalName constant hname).then fun _ => (lays_write (by decide)).then fun _ =>
      lays_emitExpr value h

theorem laysLines_emitLocals : ∀ (locals : List Declaration),
    (P → ∀ l ∈ locals, g.names.Unbroken l.name) → (P → AllUnbroken g.names (renderedLocals locals)) →
      LaysLines P g.config.indentWidth (emitLocals g locals) (nestingLocals locals)
  | [], _, _ => laysLines_pure
  | ⟨name, type, value, constant⟩ :: locals, hnames, h => by
    simp only [renderedLocals, allUnbroken_append] at h
    have hlocal := lays_emitLocal ⟨name, type, value, constant⟩
      (fun hP => hnames hP _ List.mem_cons_self) fun hP => (h hP).1
    rw [emitLocals]
    exact hlocal.line.bind (laysLines_emitLocals locals
      (fun hP l hl => hnames hP l (List.mem_cons_of_mem _ hl)) fun hP => (h hP).2)

theorem laysLines_emitLocals? : ∀ (locals : Option (List Declaration)),
    (P → ∀ l ∈ locals.getD [], g.names.Unbroken l.name) →
      (P → AllUnbroken g.names (renderedLocals? locals)) →
        LaysLines P g.config.indentWidth (emitLocals? g locals) (nestingLocals? locals)
  | none, _, _ => laysLines_pure
  | some locals, hnames, h => laysLines_emitLocals locals hnames h

theorem laysLines_emitStatement : ∀ (s : Statement), (P → AllUnbroken g.names s.rendered) →
    LaysLines P g.config.indentWidth (emitStatement g s) s.nesting
  | .expression value, h => by
    simp only [Statement.rendered, allUnbroken_cons] at h
    rw [emitStatement]
    split
    · exact (lays_emitExpr value fun hP => (h hP).2).expressionLine
    · exact laysLines_refuse _
  | .declaration ⟨name, type, value, constant⟩, h => by
    simp only [Statement.rendered, allUnbroken_cons] at h
    exact (lays_emitLocal ⟨name, type, value, constant⟩
      (fun hP => (h hP).1.symbols _ List.mem_cons_self) fun hP => (h hP).2).line
  | .assignment target value, h => by
    simp only [Statement.rendered, allUnbroken_cons, allUnbroken_append] at h
    rw [emitStatement]
    exact ((lays_emitExpr target fun hP => (h hP).2.1).bind fun _ => (lays_write (by decide)).then
      fun _ => lays_emitExpr value fun hP => (h hP).2.2).line
  | .result none, _ => (lays_write (by decide)).line
  | .result (some value), h => by
    simp only [Statement.rendered, renderedExpr?, allUnbroken_cons] at h
    rw [emitStatement]
    exact ((lays_write (by decide)).then fun _ => lays_emitExpr value fun hP => (h hP).2).line
  | .block body, h => by
    simp only [Statement.rendered, allUnbroken_cons] at h
    rw [emitStatement]
    exact (lays_write (by decide : '\n' ∉ "do".toList)).line.bind
      ((laysLines_emitStatements body fun hP => (h hP).2).deeper.bind
        (lays_write (by decide : '\n' ∉ "end".toList)).line)

/-- Statements are written as lines of their own. -/
theorem laysLines_emitStatements : ∀ (statements : List Statement),
    (P → AllUnbroken g.names (renderedStatements statements)) →
      LaysLines P g.config.indentWidth (emitStatements g statements) (nestingStatements statements)
  | [], _ => laysLines_pure
  | s :: statements, h => by
    simp only [renderedStatements, allUnbroken_append] at h
    rw [emitStatements]
    exact (laysLines_emitStatement s fun hP => (h hP).1).bind
      (laysLines_emitStatements statements fun hP => (h hP).2)

end

end Trees

/-! ## Blocks -/

theorem Line.indented_succ (width n : Nat) (line : Line) :
    line.indented width (n + 1) = List.replicate width ' ' ++ line.indented width n := by
  rw [Line.indented, Line.indented, ← List.append_assoc, List.replicate_append_replicate]
  congr 2
  rw [Nat.add_right_comm, Nat.add_mul, Nat.one_mul, Nat.add_comm]

section Blocks

variable {g : Setting} {width : Nat} {action : Emit Unit} {ds : List Nat}

theorem LaysLines.exists_lines (h : LaysLines True width action ds) :
    (∃ (lines : List Line) (bit : Bool), lines.map Line.depth = ds ∧ ∀ n, Adds action n ()
        (lines.flatMap fun line => line.indented width n ++ ['\n']) bit) ∨
      ∃ error, ∀ n, Stops action n error := by
  refine h.imp_left ?_
  rintro ⟨layout, bit, rfl, hunbroken, hadds⟩
  obtain ⟨lines, hdepths, htext⟩ := layout.exists_wholeLines (hunbroken trivial)
  refine ⟨lines, bit, hdepths, fun n => ?_⟩
  obtain ⟨w, hw, hlines⟩ := hadds n
  rwa [htext width n w hw] at hlines

theorem Lays.exists_lines (h : Lays True width action ds) :
    (∃ (first : List Char) (lines : List Line) (bit : Bool), '\n' ∉ first ∧
        lines.map Line.depth = ds ∧ ∀ n, Adds action n ()
          (first ++ lines.flatMap fun line => '\n' :: line.indented width n) bit) ∨
      ∃ error, ∀ n, Stops action n error := by
  refine h.imp_left ?_
  rintro ⟨_, layout, bit, rfl, hunbroken, hadds⟩
  obtain ⟨first, lines, hfirst, hdepths, htext⟩ := layout.exists_lines (hunbroken trivial)
  exact ⟨first, lines, bit, hfirst, hdepths, fun n => htext width n ▸ hadds n⟩

/-- Whatever the names are, the depth makes no difference to what is refused. -/
theorem LaysLines.written_eq_error_iff {P : Prop} (h : LaysLines P width action ds) {n m : Nat}
    {error : EmitError} : written action n = .error error ↔ written action m = .error error := by
  rcases h with ⟨layout, bit, -, -, hadds⟩ | ⟨error', hstops⟩
  · obtain ⟨w, -, hw⟩ := hadds n
    obtain ⟨w', -, hw'⟩ := hadds m
    simp [hw.written, hw'.written]
  · rw [(hstops n).written, (hstops m).written]

theorem Generator.body_block (generator : Generator) (statements : List Statement) :
    generator.body [.block statements] = (do
      let inner ← written (emitStatements generator.setting statements) 1
      return .line generator.setting.config.indentWidth 0 "do" ++ inner ++
        .line generator.setting.config.indentWidth 0 "end") := by
  rw [body, emitStatements, emitStatements, written_bind, written_emitStatement_block, written_pure]
  cases written (emitStatements generator.setting statements) 1 with
  | error error => rfl
  | ok inner =>
    refine congrArg Except.ok ?_
    simp [Passage.append_eq, Passage.plain]

theorem Generator.body_block_eq_error_iff (generator : Generator) {statements : List Statement}
    {error : EmitError} :
    generator.body [.block statements] = .error error ↔ generator.body statements = .error error := by
  -- Line feeds in names do not matter here, so nothing is asked of the nodes.
  have hlays := laysLines_emitStatements (P := False) (g := generator.setting) statements nofun
  have hdepth : generator.body statements = .error error ↔
      written (emitStatements generator.setting statements) 1 = .error error :=
    hlays.written_eq_error_iff
  rw [hdepth, generator.body_block]
  cases written (emitStatements generator.setting statements) 1 with
  | error error' => exact Iff.rfl
  | ok inner => exact iff_of_false nofun nofun

end Blocks

theorem Line.newline_notMem_indented (width n : Nat) (line : Line) : '\n' ∉ line.indented width n := by
  simp [Line.indented, line.unbroken]

/-- A block is refused if and only if its statements are, and then for the same reason. If no name, custom
operator or line of raw code has a line feed, its text is that of the statements with one step of spaces
in front of every line, between two lines of its own.

Whatever the depth of the draft, statements are then written as the same lines, each indented by the depth
of the draft and its own nesting depth, and an expression as the rest of a line with such lines behind it.
The draft is as deep afterwards as it was before. -/
theorem block_indents_lines (generator : Generator) :
    (∀ statements, (generator.generateStatements statements).1 =
      (generator.body statements).map Passage.answer) ∧
    (∀ statements error, generator.body [.block statements] = .error error ↔
      generator.body statements = .error error) ∧
    (∀ statements body, AllUnbroken generator.setting.names (renderedStatements statements) →
      generator.body statements = .ok body →
        ∃ lines : List (List Char), (∀ line ∈ lines, '\n' ∉ line) ∧
          body.text = lines.flatMap (· ++ ['\n']) ∧
          generator.body [.block statements] = .ok
            ⟨"do\n".toList ++ lines.flatMap (fun line =>
              List.replicate generator.setting.config.indentWidth ' ' ++ line ++ ['\n']) ++
                "end\n".toList, body.usesLibrary⟩) ∧
    (∀ statements, AllUnbroken generator.setting.names (renderedStatements statements) →
      (∃ lines : List Line, lines.map Line.depth = nestingStatements statements ∧
        ∀ d : Draft, ∃ d', emitStatements generator.setting statements d = .ok () d' ∧
          d'.depth = d.depth ∧ d'.text.toList = d.text.toList ++ lines.flatMap fun line =>
            line.indented generator.setting.config.indentWidth d.depth ++ ['\n']) ∨
      ∃ error, ∀ d : Draft, ∃ d', emitStatements generator.setting statements d = .error error d') ∧
    ∀ e : Expr, AllUnbroken generator.setting.names e.rendered →
      (∃ (first : List Char) (lines : List Line), '\n' ∉ first ∧ lines.map Line.depth = e.nesting ∧
        ∀ d : Draft, ∃ d', emitExpr generator.setting e d = .ok () d' ∧
          d'.depth = d.depth ∧ d'.text.toList = d.text.toList ++ (first ++ lines.flatMap fun line =>
            '\n' :: line.indented generator.setting.config.indentWidth d.depth)) ∨
      ∃ error, ∀ d : Draft, ∃ d', emitExpr generator.setting e d = .error error d' := by
  refine ⟨generator.generateStatements_eq_body, fun _ _ => generator.body_block_eq_error_iff,
    fun statements body hunbroken hbody => ?_, fun statements hunbroken => ?_, fun e hunbroken => ?_⟩
  · -- The lines of the body are those at depth 0; inside of the block they are written at depth 1.
    rcases (laysLines_emitStatements statements fun _ => hunbroken).exists_lines with
      ⟨lines, bit, -, hadds⟩ | ⟨error, hstops⟩
    · obtain rfl : Passage.mk _ bit = body := Except.ok.inj ((hadds 0).written.symm.trans hbody)
      refine ⟨lines.map (Line.indented generator.setting.config.indentWidth 0), ?_, ?_, ?_⟩
      · simp [Line.newline_notMem_indented]
      · simp [List.flatMap_map]
      · rw [generator.body_block, (hadds 1).written]
        refine congrArg Except.ok ?_
        simp [Passage.append_eq, Passage.line, Passage.plain, Line.indented_succ, List.flatMap_map]
    · exact absurd hbody (by simp [Generator.body, (hstops 0).written])
  · refine (laysLines_emitStatements statements fun _ => hunbroken).exists_lines.imp ?_ ?_
    · rintro ⟨lines, bit, hdepths, hadds⟩
      exact ⟨lines, hdepths, fun d => ⟨_, hadds d.depth d rfl, rfl, by simp [Draft.add]⟩⟩
    · rintro ⟨error, hstops⟩
      exact ⟨error, fun d => hstops d.depth d rfl⟩
  · refine (lays_emitExpr e fun _ => hunbroken).exists_lines.imp ?_ ?_
    · rintro ⟨first, lines, bit, hfirst, hdepths, hadds⟩
      exact ⟨first, lines, hfirst, hdepths,
        fun d => ⟨_, hadds d.depth d rfl, rfl, by simp [Draft.add]⟩⟩
    · rintro ⟨error, hstops⟩
      exact ⟨error, fun d => hstops d.depth d rfl⟩

/-- A returned method with a return in it, inside of a block: its lines are nested 0, 1 and 0 deep. -/
theorem block_of_returned_method :
    (∃ lines : List (List Char), (∀ line ∈ lines, '\n' ∉ line) ∧
      "return function()\n  return\nend\n".toList = lines.flatMap (· ++ ['\n']) ∧
      (Generator.new ⟨[]⟩ {}).body [.block [.result (some (.method false [] none [.result none] none))]] =
        .ok ⟨"do\n".toList ++ lines.flatMap (fun line => List.replicate 2 ' ' ++ line ++ ['\n']) ++
          "end\n".toList, false⟩) ∧
    (∃ lines : List Line, lines.map Line.depth = [0, 1, 0] ∧ ∀ d : Draft, ∃ d',
      emitStatements ⟨⟨[]⟩, {}⟩ [.result (some (.method false [] none [.result none] none))] d =
        .ok () d' ∧ d'.depth = d.depth ∧ d'.text.toList = d.text.toList ++
          lines.flatMap fun line => line.indented 2 d.depth ++ ['\n']) ∧
    ∃ (first : List Char) (lines : List Line), '\n' ∉ first ∧ lines.map Line.depth = [1, 0] ∧
      ∀ d : Draft, ∃ d', emitExpr ⟨⟨[]⟩, {}⟩ (.method false [] none [.result none] none) d = .ok () d' ∧
        d'.depth = d.depth ∧ d'.text.toList = d.text.toList ++
          (first ++ lines.flatMap fun line => '\n' :: line.indented 2 d.depth) := by
  obtain ⟨-, -, hblock, hlines, hexpression⟩ := block_indents_lines (Generator.new ⟨[]⟩ {})
  have hbody : (Generator.new ⟨[]⟩ {}).body [.result (some (.method false [] none [.result none] none))] =
      .ok ⟨"return function()\n  return\nend\n".toList, false⟩ := rfl
  refine ⟨hblock _ _ (by decide) hbody,
    (hlines [.result (some (.method false [] none [.result none] none))] (by decide)).resolve_right ?_,
    (hexpression (.method false [] none [.result none] none) (by decide)).resolve_right ?_⟩
  all_goals
    rintro ⟨error, herror⟩
    obtain ⟨d', hrun⟩ := herror Draft.empty
    cases hrun

end CodeTree.Lua
