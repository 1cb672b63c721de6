import CodeTree.Proofs.Emission.Rendered
import CodeTree.Proofs.Emission.Text
import Mathlib.Data.List.Forall2

/-! # The use of the `bit` library

A draft remembers whether anything written on it calls the `bit` library. Only an operation on two
operands ever marks it, so whether it is marked at the end is a property of the nodes that are written,
wherever in the tree they stand.

* `Marks action needed`: wherever the action ends, it has marked the library exactly if `needed`.
* `usesLibrary target nodes`: whether one of the nodes is written as a call into the library.
* `marks_emitExpr` and `marks_emitStatements`: what writing a tree marks.
* `prelude_iff_bitwise`: the line that loads the library is written exactly when it is needed. -/

namespace CodeTree

set_option autoImplicit false

/-- The operators on bits and the shifts. -/
def BinaryKind.isBitwise : BinaryKind → Bool
  | shiftLeft | shiftRight | bitwiseAnd | bitwiseOr | bitwiseXor => true
  | _ => false

def Expr.binaryOperator? : Expr → Option (Operator BinaryKind)
  | binary operator _ _ => some operator
  | _ => none

def Node.binaryOperator? : Node → Option (Operator BinaryKind)
  | expression e => e.binaryOperator?
  | _ => none

/-- Whether a node is an operation by a standard operator on bits. -/
def Node.isBitwise (node : Node) : Bool :=
  (node.binaryOperator?.bind Operator.kind?).any BinaryKind.isBitwise

end CodeTree

namespace CodeTree.Lua

set_option autoImplicit false
set_option synthInstance.maxSize 1000

/-- Whether a node is written as a call of a function of the `bit` library. -/
def CallsLibrary (target : Target) (node : Node) : Prop :=
  ∃ operator ∈ node.binaryOperator?, ∃ form, binaryForm target operator = .ok form ∧
    "bit.".toList <+: form.opening.toList

def usesLibrary (target : Target) (nodes : List Node) : Bool :=
  nodes.any fun node => node.binaryOperator?.any (needsBitLibrary target)

section Nodes

variable {target : Target} {nodes nodes' : List Node}

@[simp] theorem usesLibrary_nil : usesLibrary target [] = false := rfl

@[simp] theorem usesLibrary_cons (node : Node) : usesLibrary target (node :: nodes) =
    (node.binaryOperator?.any (needsBitLibrary target) || usesLibrary target nodes) := rfl

@[simp] theorem usesLibrary_append :
    usesLibrary target (nodes ++ nodes') = (usesLibrary target nodes || usesLibrary target nodes') :=
  List.any_append

theorem needsBitLibrary_standard (target : Target) (kind : BinaryKind) :
    needsBitLibrary target (.standard kind) = (decide (target = .luaJIT) && kind.isBitwise) := by
  cases target <;> cases kind <;> rfl

theorem usesLibrary_iff_bitwise :
    usesLibrary target nodes = true ↔ target = .luaJIT ∧ ∃ node ∈ nodes, node.isBitwise = true := by
  have hnode : ∀ node : Node, node.binaryOperator?.any (needsBitLibrary target) =
      (decide (target = .luaJIT) && node.isBitwise) := by
    intro node
    rw [Node.isBitwise]
    match node.binaryOperator? with
    | none => simp
    | some (.custom text) => simp [needsBitLibrary, Operator.kind?]
    | some (.standard kind) => simp [needsBitLibrary_standard, Operator.kind?]
  simp [usesLibrary, hnode, and_left_comm]

/-- A call of a library function is the only form that begins with the name of the library. -/
theorem callsLibrary_iff {node : Node} :
    CallsLibrary target node ↔ node.binaryOperator?.any (needsBitLibrary target) = true := by
  have hcustom : ∀ text, ¬ "bit.".toList <+: (BinaryForm.parenthesized text).opening.toList := by
    intro text
    exact (by decide : ¬ "bit.".toList <+: "(".toList)
  have hstandard : ∀ kind, (∃ form, binaryForm target (.standard kind) = .ok form ∧
      "bit.".toList <+: form.opening.toList) ↔ needsBitLibrary target (.standard kind) = true := by
    intro kind
    have hforms : (∃ form ∈ (binaryForm target (.standard kind)).toOption,
        "bit.".toList <+: form.opening.toList) ↔ needsBitLibrary target (.standard kind) = true := by
      cases target <;> cases kind <;> decide
    rw [← hforms]
    cases binaryForm target (.standard kind) <;> simp [Except.toOption]
  rw [CallsLibrary]
  match node.binaryOperator? with
  | none => simp
  | some (.custom text) => simpa [binaryForm, needsBitLibrary] using hcustom text
  | some (.standard kind) => simpa using hstandard kind

theorem usesLibrary_iff_calls :
    usesLibrary target nodes = true ↔ ∃ node ∈ nodes, CallsLibrary target node := by
  simp [usesLibrary, callsLibrary_iff]

end Nodes

/-! ## What an action marks -/

section Actions

variable {α β : Type} {action : Emit α} {next : α → Emit β} {x y : Bool}

/-- Wherever the action ends, it has marked the library exactly if `needed`. -/
def Marks (action : Emit α) (needed : Bool) : Prop :=
  ∀ n a w bit, Adds action n a w bit → bit = needed

theorem Marks.bind [h₁ : Tidy action] [h₂ : ∀ a, Tidy (next a)] (hx : Marks action x)
    (hy : ∀ a, Marks (next a) y) : Marks (action >>= next) (x || y) := by
  intro n b w bit h
  rcases h₁.adds_or_stops n with ⟨a, w₁, b₁, ha⟩ | ⟨error, ha⟩
  · rcases (h₂ a).adds_or_stops n with ⟨b', w₂, b₂, hb⟩ | ⟨error, hb⟩
    · obtain ⟨-, rfl⟩ := h.unique_library (ha.bind hb)
      rw [hx n a w₁ b₁ ha, hy a n b' w₂ b₂ hb]
    · exact absurd (ha.bind_stops hb) h.not_stops
  · exact absurd ha.bind h.not_stops

/-- An action that marks nothing leaves it to the next one. -/
theorem Marks.then [Tidy action] [∀ a, Tidy (next a)] (hx : Marks action false)
    (hy : ∀ a, Marks (next a) y) : Marks (action >>= next) y := hx.bind hy

theorem Marks.before [Tidy action] [∀ a, Tidy (next a)] (hx : Marks action x)
    (hy : ∀ a, Marks (next a) false) : Marks (action >>= next) x := by
  simpa using hx.bind hy

theorem marks_of_adds {a : α} {w : Nat → List Char} (h : ∀ n, Adds action n a (w n) x) :
    Marks action x := fun n _ _ _ h' => (h'.unique_library (h n)).2

theorem marks_pure (a : α) : Marks (pure a : Emit α) false := marks_of_adds (adds_pure a)

theorem marks_write (text : String) : Marks (write text) false := marks_of_adds (adds_write text)

theorem marks_newline : Marks newline false := marks_write "\n"

theorem marks_indent (width : Nat) : Marks (indent width) false := marks_of_adds (adds_indent width)

theorem marks_useBitLibrary : Marks useBitLibrary true := marks_of_adds adds_useBitLibrary

/-- What is refused has no end. -/
theorem marks_refuse (error : EmitError) (needed : Bool) : Marks (refuse error : Emit α) needed :=
  fun n _ _ _ h => absurd (stops_refuse error n) h.not_stops

theorem Marks.capture {action : Emit Unit} [h : Tidy action] (hx : Marks action x) :
    Marks (capture action) x := by
  intro n text w bit hw
  rcases h.adds_or_stops n with ⟨_, v, b, ha⟩ | ⟨error, hs⟩
  · rw [(hw.unique_library ha.capture).2]
    exact hx n () v b ha
  · exact absurd hs.capture hw.not_stops

theorem Marks.deeper {action : Emit Unit} [h : Tidy action] (hx : Marks action x) :
    Marks (deeper action) x := by
  intro n _ w bit hw
  rcases h.adds_or_stops (n + 1) with ⟨_, v, b, ha⟩ | ⟨error, hs⟩
  · rw [(hw.unique_library ha.deeper).2]
    exact hx (n + 1) () v b ha
  · exact absurd hs.deeper hw.not_stops

end Actions

/-! ## The forms of nodes -/

section Forms

variable {g : Setting} {inner left right : Emit Unit} {x y : Bool}

theorem marks_nameOf (s : Symbol) : Marks (nameOf g s) false := by
  rw [nameOf_eq]
  cases g.names.resolve s with
  | none => exact marks_refuse _ _
  | some name => exact marks_pure name

theorem marks_writeName (s : Symbol) : Marks (writeName g s) false :=
  (marks_nameOf s).then marks_write

theorem marks_emitLines : ∀ lines, Marks (emitLines g lines) false
  | [] => marks_pure ()
  | [line] => marks_write line
  | line :: line' :: lines => by
    have := tidy_emitLines g (line' :: lines)
    exact (marks_write line).then fun _ => marks_newline.then fun _ => (marks_indent _).then fun _ =>
      marks_emitLines (line' :: lines)

theorem marks_emitAtom (a : Atom) : Marks (emitAtom g a) false := by
  cases a with
  | nil | selfReference | literal => exact marks_write _
  | identifier | localVariable | typeReference => exact marks_writeName _
  | enumValue value =>
    exact (marks_nameOf _).then fun _ => (marks_nameOf _).then fun _ => marks_write _
  | raw code =>
    rw [emitAtom]
    split
    · exact marks_emitLines _
    · exact marks_refuse _ _
  | propertyValue | inherited | selector | default => exact marks_refuse _ _

theorem Marks.between [Tidy inner] (hx : Marks inner x) (opening closing : String) :
    Marks (emitBetween opening closing inner) x :=
  (marks_write opening).then fun _ => hx.before fun _ => marks_write closing

theorem Marks.prefixed [Tidy inner] (hx : Marks inner x) (operator : String) :
    Marks (emitPrefixed operator inner) x :=
  (marks_write _).then fun _ => hx.capture.before fun _ => (marks_write _).then fun _ => marks_write _

theorem Marks.unary [Tidy inner] (hx : Marks inner x) (operator : Operator UnaryKind) :
    Marks (emitUnary operator inner) x := by
  match operator with
  | .standard .plus => exact hx
  | .standard .minus | .standard .not | .custom text => exact hx.prefixed _
  | .standard .addressOf => exact marks_refuse _ _

theorem Marks.inForm [Tidy left] [Tidy right] (hx : Marks left x) (hy : Marks right y)
    (form : BinaryForm) : Marks (emitInForm form left right) (x || y) :=
  (marks_write _).then fun _ => hx.bind fun _ => (marks_write _).then fun _ =>
    hy.before fun _ => marks_write _

theorem Marks.afterLibrary [Tidy inner] (hx : Marks inner x) (needed : Bool) :
    Marks (do
      if needed then useBitLibrary
      inner) (needed || x) := by
  cases needed with
  | false => exact (marks_pure ()).then fun _ => hx
  | true => exact marks_useBitLibrary.bind fun _ => hx

/-- The one place where the library is marked. -/
theorem Marks.binary [Tidy left] [Tidy right] (hx : Marks left x) (hy : Marks right y)
    (operator : Operator BinaryKind) : Marks (emitBinary g operator left right)
      (needsBitLibrary g.config.target operator || (x || y)) := by
  rw [emitBinary]
  cases binaryForm g.config.target operator with
  | ok form => exact (hx.inForm hy form).afterLibrary _
  | error kind => exact (marks_refuse _ _).afterLibrary _

/-- An access marks what its site and its arguments mark, whichever is written first. -/
theorem marks_emitMember {site : Option Site} {selection : Selection}
    {arguments : Option (Emit Unit)} {optional : Bool} (hsite : ∀ s ∈ site, Tidy s.emit)
    (harguments : ∀ a ∈ arguments, Tidy a) (hx : ∀ s ∈ site, Marks s.emit x)
    (hnosite : site = none → x = false) (hy : Marks (emitCall arguments) y) :
    Marks (emitMember g site selection arguments optional) (x || y) := by
  have hcall := tidy_emitCall harguments
  have : ∀ member, Tidy (emitAccess site selection arguments optional member) :=
    tidy_emitAccess hsite harguments
  rw [emitMember_eq]
  refine (marks_nameOf _).then fun member => ?_
  cases site with
  | none =>
    rw [hnosite rfl]
    exact (marks_write member).then fun _ => hy
  | some site =>
    have hemit : Tidy site.emit := hsite _ rfl
    have hmarks := hx site rfl
    rw [emitAccess]
    split
    · rw [Bool.or_comm]
      exact (marks_write _).then fun _ => (marks_write _).then fun _ => hy.bind fun _ =>
        (marks_write _).then fun _ => hmarks.before fun _ => marks_write _
    · exact hmarks.bind fun _ => (marks_write _).then fun _ => hy

theorem marks_checkArgument (name : Option Symbol) (passing : Passing) :
    Marks (checkArgument g name passing) false := by
  unfold checkArgument
  cases passing with
  | byRef | out => exact marks_refuse _ _
  | byValue =>
    cases name with
    | none => exact marks_pure ()
    | some name =>
      cases g.config.namedArguments with
      | positional => exact marks_pure ()
      | reject => exact (marks_nameOf name).then fun _ => marks_refuse _ _

theorem Marks.afterComma [Tidy inner] (hx : Marks inner x) (isFirst : Bool) :
    Marks (if isFirst = true then inner else write ", " >>= fun _ => inner) x := by
  cases isFirst
  · exact (marks_write ", ").then fun _ => hx
  · exact hx

theorem marks_emitParameterNames (isFirst : Bool) (parameters : List Parameter) :
    Marks (emitParameterNames g isFirst parameters) false := by
  induction parameters generalizing isFirst with
  | nil => exact marks_pure ()
  | cons p parameters ih =>
    have hnames := ((marks_writeName (g := g) p.name).then fun _ => ih false).afterComma isFirst
    rw [emitParameterNames]
    split
    · exact (marks_refuse _ false).then fun _ => hnames
    · exact hnames

theorem Marks.line [Tidy inner] (hx : Marks inner x) : Marks (emitLine g inner) x :=
  (marks_indent _).then fun _ => hx.before fun _ => marks_newline

theorem Marks.expressionLine [Tidy inner] (hx : Marks inner x) :
    Marks (emitExpressionLine g inner) x :=
  (marks_indent _).then fun _ => hx.capture.before fun _ => (marks_write _).then fun _ =>
    marks_newline

theorem marks_emitLocalName (name : Symbol) (constant : Bool) :
    Marks (emitLocalName g name constant) false := by
  refine (marks_nameOf name).then fun text => (marks_write _).then fun _ => ?_
  split
  · exact marks_write _
  · exact marks_pure ()

end Forms

/-! ## Trees -/

variable {g : Setting}

theorem usesLibrary_of_no_site {target : Target} {site : Option Expr} (h : emitSite? g site = none) :
    usesLibrary target (renderedExpr? site) = false := by
  cases site with
  | none => rfl
  | some site => exact nomatch h

mutual

/-- Writing an expression marks the library exactly if one of the nodes that are written needs it. -/
theorem marks_emitExpr : ∀ e : Expr, Marks (emitExpr g e) (usesLibrary g.config.target e.rendered)
  | .shared s => marks_emitAtom s.atom
  | .atom a => marks_emitAtom a
  | .array elements _ => (marks_emitExprs true elements).between _ _
  | .dictionary entries => (marks_emitEntries true entries).between _ _
  | .tuple elements => (marks_emitExprs true elements).between _ _
  | .unary operator operand => (marks_emitExpr operand).unary operator
  | .binary operator left right => by
    rw [Expr.rendered, usesLibrary_cons, usesLibrary_append]
    exact (marks_emitExpr left).binary (marks_emitExpr right) operator
  | .field site selection => by
    have hfield : Marks (emitMember g (emitSite? g site) selection none false) (_ || false) :=
      marks_emitMember (tidy_emitSite? g site) (by simp) (marks_emitSite? site)
        usesLibrary_of_no_site (marks_pure ())
    rwa [Bool.or_false] at hfield
  | .call site selection arguments optional => by
    have hcall : Marks (emitMember g (emitSite? g site) selection (some (emitArguments g true arguments))
        optional) (_ || _) :=
      marks_emitMember (tidy_emitSite? g site) (by rintro _ ⟨⟩; infer_instance) (marks_emitSite? site)
        usesLibrary_of_no_site ((marks_emitArguments true arguments).between "(" ")")
    have hnodes : usesLibrary g.config.target (Expr.call site selection arguments optional).rendered =
        (usesLibrary g.config.target (renderedExpr? site)
          || usesLibrary g.config.target (renderedArguments arguments)) := by
      rw [Expr.rendered, usesLibrary_cons]
      split
      · rw [usesLibrary_append, Bool.or_comm (usesLibrary _ (renderedArguments arguments))]
        rfl
      · rw [usesLibrary_append]
        rfl
    rw [hnodes]
    exact hcall
  | .property site selection indices => by
    have hfield : Marks (emitMember g (emitSite? g site) selection none false) (_ || false) :=
      marks_emitMember (tidy_emitSite? g site) (by simp) (marks_emitSite? site)
        usesLibrary_of_no_site (marks_pure ())
    have : Tidy (emitMember g (emitSite? g site) selection none false) :=
      tidy_emitMember (tidy_emitSite? g site) (by simp)
    rw [Bool.or_false] at hfield
    rw [Expr.rendered, usesLibrary_cons, usesLibrary_append]
    exact hfield.bind fun _ => marks_emitPropertyIndices indices
  | .construct type constructor arguments initializers => by
    have hcreation := fun opening => (marks_emitArguments true arguments).between opening ")"
    have hwith := fun opening => (marks_write "(function() local o = ").then fun _ =>
      (hcreation opening).bind fun _ =>
        (marks_emitInitializers initializers).before fun _ => marks_write "; return o end)()"
    rw [Expr.rendered, usesLibrary_cons, usesLibrary_append, emitExpr]
    cases initializers with
    | nil =>
      rw [renderedArguments, usesLibrary_nil, Bool.or_false]
      cases constructor with
      | none => exact (marks_nameOf _).then fun _ => (marks_pure "new").then fun _ => hcreation _
      | some name => exact (marks_nameOf _).then fun _ => (marks_nameOf name).then fun _ => hcreation _
    | cons i is =>
      cases constructor with
      | none => exact (marks_nameOf _).then fun _ => (marks_pure "new").then fun _ => hwith _
      | some name => exact (marks_nameOf _).then fun _ => (marks_nameOf name).then fun _ => hwith _
  | .allocate type _ _ _ => (marks_nameOf type.name).then fun _ => marks_write _
  | .element array indices => by
    rw [Expr.rendered, usesLibrary_cons, usesLibrary_append]
    exact (marks_emitExpr array).bind fun _ => marks_emitIndices indices
  | .wrapped .parentheses inner => (marks_emitExpr inner).between _ _
  | .wrapped .typeOf inner => (marks_emitExpr inner).between _ _
  | .wrapped .sizeOf _ => marks_refuse _ _
  | .wrapped .dereference _ => marks_refuse _ _
  | .conditional condition consequence none => by
    have hend := (marks_pure ()).then fun _ => marks_write " end end)()"
    rw [Expr.rendered, usesLibrary_cons, usesLibrary_append, usesLibrary_append, emitExpr,
      renderedExpr?, usesLibrary_nil, Bool.or_false]
    exact (marks_write _).then fun _ => (marks_emitExpr condition).bind fun _ =>
      (marks_write _).then fun _ => (marks_emitExpr consequence).before fun _ => hend
  | .conditional condition consequence (some alternative) => by
    rw [Expr.rendered, usesLibrary_cons, usesLibrary_append, usesLibrary_append, emitExpr,
      renderedExpr?, Bool.or_assoc]
    exact (marks_write _).then fun _ => (marks_emitExpr condition).bind fun _ =>
      (marks_write _).then fun _ => (marks_emitExpr consequence).bind fun _ =>
        (marks_write _).then fun _ => (marks_emitExpr alternative).before fun _ => marks_write _
  | .cast value _ _ _ => marks_emitExpr value
  | .assigned value _ => (marks_emitExpr value).between _ _
  | .method _ parameters _ body locals => by
    have hlines := ((marks_emitDefaultValues parameters).bind fun _ =>
      (marks_emitLocals? locals).bind fun _ => marks_emitStatements body).deeper
    rw [Expr.rendered, usesLibrary_cons, usesLibrary_append, usesLibrary_append, emitExpr, Bool.or_assoc]
    exact (marks_write _).then fun _ => (marks_emitParameterNames true parameters).then fun _ =>
      (marks_write _).then fun _ => marks_newline.then fun _ => hlines.before fun _ =>
        (marks_indent _).then fun _ => marks_write _
  | .anonymousType _ _ => marks_refuse _ _

theorem marks_emitSite? : ∀ (site : Option Expr), ∀ s ∈ emitSite? g site,
    Marks s.emit (usesLibrary g.config.target (renderedExpr? site))
  | none => by simp [emitSite?]
  | some site => by
    rintro _ ⟨⟩
    exact marks_emitExpr site

theorem marks_emitExprs : ∀ isFirst es,
    Marks (emitExprs g isFirst es) (usesLibrary g.config.target (renderedExprs es))
  | _, [] => marks_pure ()
  | isFirst, e :: es => by
    rw [renderedExprs, usesLibrary_append, emitExprs]
    exact ((marks_emitExpr e).bind fun _ => marks_emitExprs false es).afterComma isFirst

theorem marks_emitEntries : ∀ isFirst entries,
    Marks (emitEntries g isFirst entries) (usesLibrary g.config.target (renderedEntries entries))
  | _, [] => marks_pure ()
  | isFirst, (key, value) :: entries => by
    rw [renderedEntries, usesLibrary_append, usesLibrary_append, Bool.or_assoc, emitEntries]
    exact (((marks_emitExpr key).between _ _).bind fun _ => (marks_emitExpr value).bind fun _ =>
      marks_emitEntries false entries).afterComma isFirst

theorem marks_emitArguments : ∀ isFirst arguments,
    Marks (emitArguments g isFirst arguments)
      (usesLibrary g.config.target (renderedArguments arguments))
  | _, [] => marks_pure ()
  | isFirst, ⟨name, value, passing⟩ :: arguments => by
    rw [renderedArguments, usesLibrary_append, emitArguments]
    exact (marks_checkArgument name passing).then fun _ => ((marks_emitExpr value).bind fun _ =>
      marks_emitArguments false arguments).afterComma isFirst

theorem marks_emitPropertyIndices : ∀ indices,
    Marks (emitPropertyIndices g indices) (usesLibrary g.config.target (renderedArguments indices))
  | [] => marks_pure ()
  | ⟨name, value, passing⟩ :: indices => by
    rw [renderedArguments, usesLibrary_append, emitPropertyIndices]
    exact (marks_checkArgument name passing).then fun _ =>
      ((marks_emitExpr value).between _ _).bind fun _ => marks_emitPropertyIndices indices

theorem marks_emitIndices : ∀ indices,
    Marks (emitIndices g indices) (usesLibrary g.config.target (renderedExprs indices))
  | [] => marks_pure ()
  | index :: indices => by
    rw [renderedExprs, usesLibrary_append, emitIndices]
    exact ((marks_emitExpr index).between _ _).bind fun _ => marks_emitIndices indices

theorem marks_emitInitializers : ∀ initializers,
    Marks (emitInitializers g initializers)
      (usesLibrary g.config.target (renderedArguments initializers))
  | [] => marks_pure ()
  | ⟨none, _, _⟩ :: _ => marks_refuse _ _
  | ⟨some name, value, _⟩ :: initializers => by
    rw [renderedArguments, usesLibrary_append, emitInitializers]
    exact (marks_nameOf name).then fun _ => (marks_write _).then fun _ =>
      (marks_emitExpr value).bind fun _ => marks_emitInitializers initializers

theorem marks_emitDefaultValues : ∀ parameters,
    Marks (emitDefaultValues g parameters) (usesLibrary g.config.target (renderedDefaults parameters))
  | [] => marks_pure ()
  | ⟨_, _, _, none⟩ :: parameters => by
    rw [renderedDefaults, renderedExpr?, List.nil_append, emitDefaultValues]
    exact marks_emitDefaultValues parameters
  | ⟨name, _, _, some value⟩ :: parameters => by
    rw [renderedDefaults, renderedExpr?, usesLibrary_append, emitDefaultValues]
    exact (marks_nameOf name).then fun _ => ((marks_emitExpr value).between _ _).line.bind fun _ =>
      marks_emitDefaultValues parameters

theorem marks_emitLocal : ∀ declared : Declaration,
    Marks (emitLocal g declared) (usesLibrary g.config.target (renderedExpr? declared.value))
  | ⟨name, _, none, constant⟩ => marks_emitLocalName name constant
  | ⟨name, _, some value, constant⟩ =>
    (marks_emitLocalName name constant).then fun _ => (marks_write _).then fun _ =>
      marks_emitExpr value

theorem marks_emitLocals : ∀ locals,
    Marks (emitLocals g locals) (usesLibrary g.config.target (renderedLocals locals))
  | [] => marks_pure ()
  | ⟨name, type, value, constant⟩ :: locals => by
    rw [renderedLocals, usesLibrary_append, emitLocals]
    exact (marks_emitLocal ⟨name, type, value, constant⟩).line.bind fun _ => marks_emitLocals locals

theorem marks_emitLocals? : ∀ locals,
    Marks (emitLocals? g locals) (usesLibrary g.config.target (renderedLocals? locals))
  | none => marks_pure ()
  | some locals => marks_emitLocals locals

theorem marks_emitStatement : ∀ s : Statement,
    Marks (emitStatement g s) (usesLibrary g.config.target s.rendered)
  | .expression value => by
    rw [emitStatement]
    split
    · exact (marks_emitExpr value).expressionLine
    · exact marks_refuse _ _
  | .declaration ⟨name, type, value, constant⟩ =>
    (marks_emitLocal ⟨name, type, value, constant⟩).line
  | .assignment target value => by
    rw [Statement.rendered, usesLibrary_cons, usesLibrary_append]
    exact ((marks_emitExpr target).bind fun _ => (marks_write _).then fun _ =>
      marks_emitExpr value).line
  | .result none => (marks_write _).line
  | .result (some value) => ((marks_write _).then fun _ => marks_emitExpr value).line
  | .block body =>
    (marks_write _).line.then fun _ => (marks_emitStatements body).deeper.before fun _ =>
      (marks_write _).line

theorem marks_emitStatements : ∀ statements,
    Marks (emitStatements g statements) (usesLibrary g.config.target (renderedStatements statements))
  | [] => marks_pure ()
  | s :: statements => by
    rw [renderedStatements, usesLibrary_append, emitStatements]
    exact (marks_emitStatement s).bind fun _ => marks_emitStatements statements

end

/-! ## The line that loads the library -/

/-- The text of statements is the texts of each of them, one after the other. -/
theorem exists_lines {n : Nat} : ∀ {statements : List Statement} {w : List Char},
    Yields (emitStatements g statements) n () w →
      ∃ lines, List.Forall₂ (fun s line => Yields (emitStatement g s) n () line) statements lines ∧
        w = lines.flatten
  | [], _, hw => ⟨[], .nil, yields_emitStatements_nil.1 hw⟩
  | _ :: _, _, hw => by
    obtain ⟨v, vs, hv, hvs, rfl⟩ := yields_emitStatements_cons.1 hw
    obtain ⟨lines, hlines, rfl⟩ := exists_lines hvs
    exact ⟨v :: lines, .cons hv hlines, rfl⟩

/-- The text of accepted statements is their own texts in order, behind the line that loads the `bit`
library if the target is LuaJIT and one of the nodes that are written is an operation by a standard
operator on bits. That is so exactly if one of them is written as a call into the library. The text of
an expression is its own text and nothing else, also where it calls the library. What the generator has
written before does not matter. -/
theorem prelude_iff_bitwise (generator : Generator) :
    (∀ statements text, (generator.generateStatements statements).1 = .ok text →
      ∃ lines,
        List.Forall₂ (fun s line => Yields (emitStatement generator.setting s) 0 () line)
          statements lines ∧
        text = (if generator.setting.config.target = .luaJIT ∧
            ∃ node ∈ renderedStatements statements, node.isBitwise = true
          then bitPrelude else "") ++ String.ofList lines.flatten ∧
        ((generator.setting.config.target = .luaJIT ∧
            ∃ node ∈ renderedStatements statements, node.isBitwise = true) ↔
          ∃ node ∈ renderedStatements statements,
            CallsLibrary generator.setting.config.target node)) ∧
    ∀ e text, (generator.generateExpression e).1 = .ok text →
      ∃ bit, Adds (emitExpr generator.setting e) 0 () text.toList bit ∧
        (bit = true ↔ ∃ node ∈ e.rendered, CallsLibrary generator.setting.config.target node) := by
  refine ⟨fun statements text haccepted => ?_, fun e text haccepted => ?_⟩
  · obtain ⟨w, bit, hadds, rfl⟩ := generateStatements_eq_ok.1 haccepted
    obtain ⟨lines, hlines, rfl⟩ := exists_lines ⟨bit, hadds⟩
    obtain rfl := marks_emitStatements statements _ _ _ _ hadds
    refine ⟨lines, hlines, ?_, usesLibrary_iff_bitwise.symm.trans usesLibrary_iff_calls⟩
    simp only [usesLibrary_iff_bitwise]
  · obtain ⟨bit, hadds⟩ := generateExpression_eq_ok.1 haccepted
    obtain rfl := marks_emitExpr e _ _ _ _ hadds
    exact ⟨_, hadds, usesLibrary_iff_calls⟩

/-- The shift of `x` by one. -/
def shiftOfX : Expr := .binary (.standard .shiftLeft) (.identifier ⟨1⟩) (.literal (.integer 1))

/-- The declaration of a local as a method with a shift, written by a generator that has just called the
library: the declaration loads the library, the shift as an expression does not. -/
theorem prelude_of_shift_in_method :
    ((Generator.mk ⟨⟨["f", "x"]⟩, { target := .luaJIT }⟩ ⟨"bit.band(x, 1)", 0, true⟩).generateStatements
      [.declaration ⟨⟨0⟩, none, some (.method false [] none [.result (some shiftOfX)] none), false⟩]).1 =
      .ok "local bit = require('bit')\nlocal f = function()\n  return bit.lshift(x, 1)\nend\n" ∧
    (∃ node ∈ renderedStatements [.declaration ⟨⟨0⟩, none,
        some (.method false [] none [.result (some shiftOfX)] none), false⟩],
      CallsLibrary .luaJIT node) ∧
    ((Generator.mk ⟨⟨["f", "x"]⟩, { target := .luaJIT }⟩ ⟨"bit.band(x, 1)", 0, true⟩).generateExpression
      shiftOfX).1 = .ok "bit.lshift(x, 1)" ∧
    Adds (emitExpr ⟨⟨["f", "x"]⟩, { target := .luaJIT }⟩ shiftOfX) 0 () "bit.lshift(x, 1)".toList true := by
  refine (fun hbody hshift => ⟨hbody, ?_, hshift, ?_⟩) (by rfl) (by rfl)
  · obtain ⟨_, -, -, hcalls⟩ := (prelude_iff_bitwise _).1 _ _ hbody
    exact hcalls.1 ⟨rfl, by decide⟩
  · obtain ⟨bit, hadds, hbit⟩ := (prelude_iff_bitwise _).2 _ _ hshift
    have hnode : CallsLibrary .luaJIT (.expression shiftOfX) := ⟨_, rfl, _, rfl, by decide⟩
    obtain rfl : bit = true := hbit.2 ⟨_, List.mem_cons_self, hnode⟩
    exact hadds

end CodeTree.Lua
