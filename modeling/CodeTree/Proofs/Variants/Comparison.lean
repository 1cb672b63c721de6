import CodeTree.Proofs.Emission.Frame
import CodeTree.Proofs.Emission.Rendered
import CodeTree.Proofs.Variants.Revision

/-! # Comparing two runs of the emitter

A relation between actions is a comparison if it is kept by everything that the emitter is built from:
the same text on both sides, the same indentation, one action after another, an action further in, and a
captured text that is written. Then it is kept by every form of the emitter. Whether it holds of the runs
on two trees of one shape, under two settings, is decided where a run looks at more than texts: at names,
at nodes without parts, at operators, at arguments, at lines of one expression and at refusals.

* `Comparison`: what is asked of a relation.
* `Comparison.between` to `Comparison.expressionLine`: one statement for each form of the emitter.
* `Compares`, `ComparesAt`: what is asked of two settings, and at each node.
* `Comparison.compares`: what is asked where the tree is revised in its constant flags only.
* `compares_emitExpr`, `compares_emitStatements`: the runs on a tree and on the revised tree compare. -/

namespace CodeTree.Lua

set_option autoImplicit false

/-- A refusal that shows a part of the tree. -/
def EmitError.showsTree : EmitError → Bool
  | .statement _ | .expression _ => true
  | _ => false

/-- A relation between actions that is kept by what the emitter is built from. -/
structure Comparison (R : {α : Type} → Emit α → Emit α → Prop) : Prop where
  pure {α : Type} (a : α) : R (pure a) (pure a)
  write (text : String) : R (write text) (write text)
  indent (width : Nat) : R (indent width) (indent width)
  useBitLibrary : R useBitLibrary useBitLibrary
  refuse {α : Type} {error : EmitError} (h : error.showsTree = false) :
    R (refuse error : Emit α) (refuse error)
  bind {α β : Type} {action action' : Emit α} {next next' : α → Emit β} (h : R action action')
    (hnext : ∀ a, R (next a) (next' a)) : R (action >>= next) (action' >>= next')
  /-- Two captured texts may differ, so only an action that takes every text can follow: writing. -/
  capture {action action' : Emit Unit} (format : String → String) (h : R action action') :
    R (capture action >>= fun text => Lua.write (format text))
      (Lua.capture action' >>= fun text => Lua.write (format text))
  deeper {action action' : Emit Unit} (h : R action action') : R (deeper action) (deeper action')

/-! ## The forms of nodes -/

namespace Comparison

variable {R : {α : Type} → Emit α → Emit α → Prop} (hR : Comparison R) {g g' : Setting}
  {action action' : Emit Unit}

include hR

theorem newline : R Lua.newline Lua.newline := hR.write "\n"

theorem indented (hwidth : g'.config.indentWidth = g.config.indentWidth) :
    R (Lua.indent g.config.indentWidth) (Lua.indent g'.config.indentWidth) :=
  hwidth ▸ hR.indent _

theorem writeName {s s' : Symbol} (h : R (nameOf g s) (nameOf g' s')) :
    R (writeName g s) (Lua.writeName g' s') :=
  hR.bind h hR.write

theorem lines (hwidth : g'.config.indentWidth = g.config.indentWidth) :
    ∀ lines : List String, R (emitLines g lines) (emitLines g' lines)
  | [] => hR.pure ()
  | [line] => hR.write line
  | line :: line' :: rest =>
    hR.bind (hR.write line) fun _ => hR.bind hR.newline fun _ => hR.bind (hR.indented hwidth) fun _ =>
      lines hwidth (line' :: rest)

theorem between (opening closing : String) (h : R action action') :
    R (emitBetween opening closing action) (emitBetween opening closing action') :=
  hR.bind (hR.write opening) fun _ => hR.bind h fun _ => hR.write closing

theorem prefixed (operator : String) (h : R action action') :
    R (emitPrefixed operator action) (emitPrefixed operator action') := by
  -- The form writes the captured operand and goes on, the rule for captures ends with the writing.
  have hoperand := hR.capture (fun text =>
    if endsWith '-' operator && opensWith '-' text then " " ++ text else text) h
  have hclosed := hR.bind hoperand fun _ => hR.write ")"
  rw [bind_assoc, bind_assoc] at hclosed
  exact hR.bind (hR.write _) fun _ => hclosed

theorem unary (operator : Operator UnaryKind) (h : R action action') :
    R (emitUnary operator action) (emitUnary operator action') := by
  match operator with
  | .standard .plus => exact h
  | .standard .addressOf => exact hR.refuse rfl
  | .standard .minus | .standard .not | .custom text => exact hR.prefixed _ h

theorem inForm (form : BinaryForm) {left left' right right' : Emit Unit} (hleft : R left left')
    (hright : R right right') : R (emitInForm form left right) (emitInForm form left' right') :=
  hR.bind (hR.write _) fun _ => hR.bind hleft fun _ => hR.bind (hR.write _) fun _ =>
    hR.bind hright fun _ => hR.write _

theorem binary {operator : Operator BinaryKind} {left left' right right' : Emit Unit}
    (htarget : g'.config.target = g.config.target) (hleft : R left left') (hright : R right right') :
    R (emitBinary g operator left right) (emitBinary g' operator left' right') := by
  unfold emitBinary
  rw [htarget]
  cases binaryForm g.config.target operator with
  | error kind =>
    cases needsBitLibrary g.config.target operator with
    | false => exact hR.refuse rfl
    | true => exact hR.bind hR.useBitLibrary fun _ => hR.refuse rfl
  | ok form =>
    cases needsBitLibrary g.config.target operator with
    | false => exact hR.inForm form hleft hright
    | true => exact hR.bind hR.useBitLibrary fun _ => hR.inForm form hleft hright

theorem call (h : R action action') : R (emitCall (some action)) (emitCall (some action')) :=
  hR.between "(" ")" h

theorem member_none {selection selection' : Selection} {arguments arguments' : Option (Emit Unit)}
    {optional optional' : Bool} (hname : R (nameOf g selection.name) (nameOf g' selection'.name))
    (hcall : R (emitCall arguments) (emitCall arguments')) :
    R (emitMember g none selection arguments optional)
      (emitMember g' none selection' arguments' optional') := by
  rw [emitMember_eq, emitMember_eq]
  exact hR.bind hname fun member => hR.bind (hR.write member) fun _ => hcall

theorem member_some {isType : Bool} {selection selection' : Selection}
    {arguments arguments' : Option (Emit Unit)} {optional : Bool}
    (hname : R (nameOf g selection.name) (nameOf g' selection'.name))
    (hnilSafe : selection'.nilSafe = selection.nilSafe) (hsite : R action action')
    (hcall : R (emitCall arguments) (emitCall arguments'))
    (hsome : arguments.isSome = arguments'.isSome) :
    R (emitMember g (some ⟨isType, action⟩) selection arguments optional)
      (emitMember g' (some ⟨isType, action'⟩) selection' arguments' optional) := by
  rw [emitMember_eq, emitMember_eq]
  refine hR.bind hname fun member => ?_
  simp only [emitAccess, hsome, hnilSafe]
  split
  · exact hR.bind (hR.write _) fun _ => hR.bind (hR.write _) fun _ => hR.bind hcall fun _ =>
      hR.bind (hR.write _) fun _ => hR.bind hsite fun _ => hR.write _
  · exact hR.bind hsite fun _ => hR.bind (hR.write _) fun _ => hcall

theorem line (hwidth : g'.config.indentWidth = g.config.indentWidth) (h : R action action') :
    R (emitLine g action) (emitLine g' action') :=
  hR.bind (hR.indented hwidth) fun _ => hR.bind h fun _ => hR.newline

theorem expressionLine (hwidth : g'.config.indentWidth = g.config.indentWidth) (h : R action action') :
    R (emitExpressionLine g action) (emitExpressionLine g' action') := by
  have htext := hR.capture (fun text => if opensWith '(' text then ";" ++ text else text) h
  have hline := hR.bind htext fun _ => hR.newline
  rw [bind_assoc, bind_assoc] at hline
  exact hR.bind (hR.indented hwidth) fun _ => hline

/-- An item of a list stands behind a comma, unless it is the first one. -/
theorem item (isFirst : Bool) (h : R action action') :
    R
      (do
        unless isFirst do Lua.write ", "
        action)
      (do
        unless isFirst do Lua.write ", "
        action') := by
  cases isFirst with
  | true => exact h
  | false => exact hR.bind (hR.write ", ") fun _ => h

end Comparison

/-! ## What is asked at the nodes of a tree -/

section Settings

variable (R : {α : Type} → Emit α → Emit α → Prop) (g g' : Setting) (r : Revision)

/-- Two names that may be missing are both missing, or looking them up compares. -/
def SameName : Option Symbol → Option Symbol → Prop :=
  Option.Rel fun s s' => R (nameOf g s) (nameOf g' s')

/-- The first run writes a tree under `g`, the second one the tree revised by `r` under `g'`. They compare
wherever they look at the name of something that is no atom. -/
structure Compares : Prop extends Comparison R where
  width : g'.config.indentWidth = g.config.indentWidth
  refused {α : Type} (e : Expr) : R (Lua.refuse (.expression e) : Emit α)
    (Lua.refuse (.expression (e.revise r)))
  shared (s : Sentinel) : R (emitAtom g s.atom) (emitExpr g' (r.shared s))
  /-- Types are accessed in another way than other sites. -/
  isType (e : Expr) : isTypeReference (e.revise r) = isTypeReference e
  name (s : Symbol) : R (nameOf g s) (nameOf g' (r.name s))
  localName (s : Symbol) (constant : Bool) :
    R (emitLocalName g s constant) (emitLocalName g' (r.name s) (r.constant constant))
  selection (hasSite : Bool) (selection : Selection) :
    R (nameOf g selection.name) (nameOf g' (r.selection hasSite selection).name)
  nilSafe (selection : Selection) : (r.selection true selection).nilSafe = selection.nilSafe
  optional (optional : Bool) : r.optional true optional = optional
  initializer (name : Option Symbol) : SameName R g g' name (r.initializerName name)
  created (type : TypeReference) : R (nameOf g type.name) (nameOf g' (r.createdType type).name)
  constructor (name : Option Symbol) : SameName R g g' name (r.constructorName name)

/-- The runs compare in what they do at a node besides writing its parts. -/
def ComparesAt : Node → Prop
  | .expression (.atom a) => R (emitAtom g a) (emitAtom g' (r.atom a))
  | .expression (.binary operator _ _) => ∀ left left' right right' : Emit Unit, R left left' →
      R right right' → R (emitBinary g operator left right) (emitBinary g' operator left' right')
  | .expression (.call _ _ arguments _) | .expression (.property _ _ arguments)
  | .expression (.construct _ _ arguments _) => ∀ a ∈ arguments,
      R (checkArgument g a.name a.passing) (checkArgument g' (r.argumentName a.name) a.passing)
  | .statement (.expression value) => ∀ action action' : Emit Unit, R action action' →
      R (if standsAlone g value then emitExpressionLine g action
          else refuse (.statement (.expression value)))
        (if standsAlone g' (value.revise r) then emitExpressionLine g' action'
          else refuse (.statement (.expression (value.revise r))))
  | _ => True

/-- The runs compare at each of some nodes. -/
def ComparesOn (nodes : List Node) : Prop := ∀ node ∈ nodes, ComparesAt R g g' r node

end Settings

variable {R : {α : Type} → Emit α → Emit α → Prop} {g g' : Setting} {r : Revision}

theorem comparesOn_cons {node : Node} {nodes : List Node} : ComparesOn R g g' r (node :: nodes) ↔
    ComparesAt R g g' r node ∧ ComparesOn R g g' r nodes :=
  List.forall_mem_cons

theorem comparesOn_append {nodes nodes' : List Node} : ComparesOn R g g' r (nodes ++ nodes') ↔
    ComparesOn R g g' r nodes ∧ ComparesOn R g g' r nodes' :=
  List.forall_mem_append

/-- A new object is written with the name of its constructor, or with `new` if none is named. -/
theorem Comparison.constructed (hR : Comparison R) {next next' : String → Emit Unit}
    (hnext : ∀ s, R (next s) (next' s)) (name name' : Option Symbol) : SameName R g g' name name' →
    R
      (match name with
        | some s => nameOf g s >>= next
        | none => Pure.pure "new" >>= next)
      (match name' with
        | some s => nameOf g' s >>= next'
        | none => Pure.pure "new" >>= next') := by
  intro hname
  cases hname with
  | none => exact hR.bind (hR.pure "new") hnext
  | some hname => exact hR.bind hname hnext

theorem isTypeReference_constants (f : Bool → Bool) (e : Expr) :
    isTypeReference (e.revise { constant := f }) = isTypeReference e := by
  cases e <;> rfl

/-- A tree of which only constant flags change: what compares for each symbol compares for each name in
the tree. -/
theorem Comparison.compares (hR : Comparison R) {f : Bool → Bool}
    (width : g'.config.indentWidth = g.config.indentWidth)
    (refused : ∀ {α : Type} (e : Expr), R (Lua.refuse (.expression e) : Emit α)
      (Lua.refuse (.expression (e.revise { constant := f }))))
    (shared : ∀ s : Sentinel, R (emitAtom g s.atom) (emitAtom g' s.atom))
    (name : ∀ s, R (nameOf g s) (nameOf g' s))
    (localName : ∀ s constant, R (emitLocalName g s constant) (emitLocalName g' s (f constant))) :
    Compares R g g' { constant := f } := by
  have hnames (name? : Option Symbol) : SameName R g g' name? name? := by
    cases name? with
    | none => exact .none
    | some s => exact .some (name s)
  exact {
    toComparison := hR
    width
    refused
    shared
    isType := isTypeReference_constants f
    name
    localName
    selection := fun _ selection => name selection.name
    nilSafe := fun _ => rfl
    optional := fun _ => rfl
    initializer := hnames
    created := fun type => name type.name
    constructor := hnames }

/-! ## Trees -/

theorem compares_emitParameterNames (h : Compares R g g' r) :
    ∀ (isFirst : Bool) (parameters : List Parameter), R (emitParameterNames g isFirst parameters)
      (emitParameterNames g' isFirst (reviseParameters r parameters))
  | _, [] => h.pure ()
  | isFirst, ⟨name, type, passing, value⟩ :: parameters => by
    have hnames := h.item isFirst (h.bind (h.writeName (h.name name)) fun _ =>
      compares_emitParameterNames h false parameters)
    rw [reviseParameters, emitParameterNames, emitParameterNames]
    cases passing with
    | byRef | out => exact h.bind (h.refuse rfl) fun _ => hnames
    | byValue => exact hnames

mutual

/-- An expression and the revised expression: the runs compare if they do at each node. -/
theorem compares_emitExpr (h : Compares R g g' r) : ∀ e : Expr, ComparesOn R g g' r e.rendered →
    R (emitExpr g e) (emitExpr g' (e.revise r))
  | .shared s, _ => h.shared s
  | .atom _, hnodes => (comparesOn_cons.1 hnodes).1
  | .array elements _, hnodes =>
    h.between _ _ (compares_emitExprs h true elements (comparesOn_cons.1 hnodes).2)
  | .dictionary entries, hnodes =>
    h.between _ _ (compares_emitEntries h true entries (comparesOn_cons.1 hnodes).2)
  | .tuple elements, hnodes =>
    h.between _ _ (compares_emitExprs h true elements (comparesOn_cons.1 hnodes).2)
  | .unary operator operand, hnodes =>
    h.unary operator (compares_emitExpr h operand (comparesOn_cons.1 hnodes).2)
  | .binary operator left right, hnodes => by
    obtain ⟨hat, hparts⟩ := comparesOn_cons.1 hnodes
    obtain ⟨hleft, hright⟩ := comparesOn_append.1 hparts
    exact hat _ _ _ _ (compares_emitExpr h left hleft) (compares_emitExpr h right hright)
  | .field site selection, hnodes =>
    compares_emitMember h site selection (comparesOn_cons.1 hnodes).2 (fun _ => rfl) (h.pure ()) rfl
  | .call site selection arguments optional, hnodes => by
    obtain ⟨hat, hparts⟩ := comparesOn_cons.1 hnodes
    have hboth : ComparesOn R g g' r (renderedExpr? site) ∧
        ComparesOn R g g' r (renderedArguments arguments) := by
      split at hparts
      · exact (comparesOn_append.1 hparts).symm
      · exact comparesOn_append.1 hparts
    have hoptional : site.isSome = true → r.optional site.isSome optional = optional := by
      intro hsite
      rw [hsite, h.optional]
    exact compares_emitMember h site selection hboth.1 hoptional
      (h.call (compares_emitArguments h true arguments hat hboth.2)) rfl
  | .property site selection indices, hnodes => by
    obtain ⟨hat, hparts⟩ := comparesOn_cons.1 hnodes
    obtain ⟨hsite, hindices⟩ := comparesOn_append.1 hparts
    exact h.bind (compares_emitMember h site selection hsite (fun _ => rfl) (h.pure ()) rfl) fun _ =>
      compares_emitPropertyIndices h indices hat hindices
  | .construct type constructor arguments initializers, hnodes => by
    obtain ⟨hat, hparts⟩ := comparesOn_cons.1 hnodes
    obtain ⟨harguments, hinitializers⟩ := comparesOn_append.1 hparts
    have harguments := compares_emitArguments h true arguments hat harguments
    have hinitializers := compares_emitInitializers h initializers hinitializers
    rw [Expr.revise, emitExpr, emitExpr]
    refine h.bind (h.created type) fun typeName => ?_
    have hcreation (name : String) := h.between (typeName ++ "." ++ name ++ "(") ")" harguments
    cases initializers with
    | nil => exact h.constructed hcreation _ _ (h.constructor constructor)
    | cons i is =>
      obtain ⟨property, value, passing⟩ := i
      refine h.constructed (fun name => ?_) _ _ (h.constructor constructor)
      exact h.bind (h.write "(function() local o = ") fun _ => h.bind (hcreation name) fun _ =>
        h.bind hinitializers fun _ => h.write "; return o end)()"
  | .allocate type constructor bounds initializers, _ => by
    have hname := h.bind (h.created type) fun _ => h.write "\x7b\x7d"
    rw [Expr.revise]
    split <;> exact hname
  | .element array indices, hnodes => by
    obtain ⟨harray, hindices⟩ := comparesOn_append.1 (comparesOn_cons.1 hnodes).2
    exact h.bind (compares_emitExpr h array harray) fun _ => compares_emitIndices h indices hindices
  | .wrapped .parentheses inner, hnodes =>
    h.between _ _ (compares_emitExpr h inner (comparesOn_cons.1 hnodes).2)
  | .wrapped .typeOf inner, hnodes =>
    h.between _ _ (compares_emitExpr h inner (comparesOn_cons.1 hnodes).2)
  | .wrapped .sizeOf inner, _ => h.refused (.wrapped .sizeOf inner)
  | .wrapped .dereference inner, _ => h.refused (.wrapped .dereference inner)
  | .conditional condition consequence alternative, hnodes => by
    obtain ⟨hfirst, halternative⟩ := comparesOn_append.1 (comparesOn_cons.1 hnodes).2
    obtain ⟨hcondition, hconsequence⟩ := comparesOn_append.1 hfirst
    rw [Expr.revise, emitExpr, emitExpr]
    refine h.bind (h.write _) fun _ => h.bind (compares_emitExpr h condition hcondition) fun _ =>
      h.bind (h.write _) fun _ => h.bind (compares_emitExpr h consequence hconsequence) fun _ => ?_
    cases alternative with
    | none => exact h.write " end end)()"
    | some alternative =>
      exact h.bind (h.write _) fun _ => h.bind (compares_emitExpr h alternative halternative) fun _ =>
        h.write " end end)()"
  | .cast value _ _ _, hnodes => compares_emitExpr h value (comparesOn_cons.1 hnodes).2
  | .assigned value _, hnodes =>
    h.between _ _ (compares_emitExpr h value (comparesOn_cons.1 hnodes).2)
  | .method _ parameters _ body locals, hnodes => by
    obtain ⟨hfirst, hbody⟩ := comparesOn_append.1 (comparesOn_cons.1 hnodes).2
    obtain ⟨hdefaults, hlocals⟩ := comparesOn_append.1 hfirst
    have hblock := h.bind (compares_emitDefaultValues h parameters hdefaults) fun _ =>
      h.bind (compares_emitLocals? h locals hlocals) fun _ => compares_emitStatements h body hbody
    exact h.bind (h.write _) fun _ => h.bind (compares_emitParameterNames h true parameters) fun _ =>
      h.bind (h.write _) fun _ => h.bind h.newline fun _ => h.bind (h.deeper hblock) fun _ =>
        h.bind (h.indented h.width) fun _ => h.write "end"
  | .anonymousType kind members, _ => h.refused (.anonymousType kind members)

theorem compares_emitMember (h : Compares R g g' r) : ∀ (site : Option Expr) (selection : Selection)
    {arguments arguments' : Option (Emit Unit)} {optional optional' : Bool},
    ComparesOn R g g' r (renderedExpr? site) → (site.isSome = true → optional' = optional) →
      R (emitCall arguments) (emitCall arguments') → arguments.isSome = arguments'.isSome →
        R (emitMember g (emitSite? g site) selection arguments optional)
          (emitMember g' (emitSite? g' (reviseExpr? r site))
            (r.selection site.isSome selection) arguments' optional')
  | none, selection, _, _, _, _, _, _, hcall, _ => h.member_none (h.selection false selection) hcall
  | some site, selection, _, _, _, _, hnodes, hoptional, hcall, hsome => by
    rw [hoptional rfl, reviseExpr?, emitSite?, emitSite?, h.isType]
    exact h.member_some (h.selection true selection) (h.nilSafe selection)
      (compares_emitExpr h site hnodes) hcall hsome

theorem compares_emitExprs (h : Compares R g g' r) : ∀ (isFirst : Bool) (es : List Expr),
    ComparesOn R g g' r (renderedExprs es) → R (emitExprs g isFirst es)
      (emitExprs g' isFirst (reviseExprs r es))
  | _, [], _ => h.pure ()
  | isFirst, e :: es, hnodes => by
    obtain ⟨he, hes⟩ := comparesOn_append.1 hnodes
    exact h.item isFirst (h.bind (compares_emitExpr h e he) fun _ => compares_emitExprs h false es hes)

theorem compares_emitEntries (h : Compares R g g' r) : ∀ (isFirst : Bool) (entries : List (Expr × Expr)),
    ComparesOn R g g' r (renderedEntries entries) → R (emitEntries g isFirst entries)
      (emitEntries g' isFirst (reviseEntries r entries))
  | _, [], _ => h.pure ()
  | isFirst, (key, value) :: entries, hnodes => by
    obtain ⟨hentry, hentries⟩ := comparesOn_append.1 hnodes
    obtain ⟨hkey, hvalue⟩ := comparesOn_append.1 hentry
    exact h.item isFirst (h.bind (h.between _ _ (compares_emitExpr h key hkey)) fun _ =>
      h.bind (compares_emitExpr h value hvalue) fun _ => compares_emitEntries h false entries hentries)

theorem compares_emitArguments (h : Compares R g g' r) : ∀ (isFirst : Bool) (arguments : List Argument),
    (∀ a ∈ arguments,
      R (checkArgument g a.name a.passing) (checkArgument g' (r.argumentName a.name) a.passing)) →
    ComparesOn R g g' r (renderedArguments arguments) → R (emitArguments g isFirst arguments)
      (emitArguments g' isFirst (reviseArguments r r.argumentName arguments))
  | _, [], _, _ => h.pure ()
  | isFirst, ⟨name, value, passing⟩ :: arguments, hchecks, hnodes => by
    obtain ⟨hcheck, hchecks⟩ := List.forall_mem_cons.1 hchecks
    obtain ⟨hvalue, harguments⟩ := comparesOn_append.1 hnodes
    exact h.bind hcheck fun _ => h.item isFirst (h.bind (compares_emitExpr h value hvalue) fun _ =>
      compares_emitArguments h false arguments hchecks harguments)

theorem compares_emitPropertyIndices (h : Compares R g g' r) : ∀ indices : List Argument,
    (∀ a ∈ indices,
      R (checkArgument g a.name a.passing) (checkArgument g' (r.argumentName a.name) a.passing)) →
    ComparesOn R g g' r (renderedArguments indices) → R (emitPropertyIndices g indices)
      (emitPropertyIndices g' (reviseArguments r r.argumentName indices))
  | [], _, _ => h.pure ()
  | ⟨name, value, passing⟩ :: indices, hchecks, hnodes => by
    obtain ⟨hcheck, hchecks⟩ := List.forall_mem_cons.1 hchecks
    obtain ⟨hvalue, hindices⟩ := comparesOn_append.1 hnodes
    exact h.bind hcheck fun _ => h.bind (h.between _ _ (compares_emitExpr h value hvalue)) fun _ =>
      compares_emitPropertyIndices h indices hchecks hindices

theorem compares_emitIndices (h : Compares R g g' r) : ∀ indices : List Expr,
    ComparesOn R g g' r (renderedExprs indices) →
      R (emitIndices g indices) (emitIndices g' (reviseExprs r indices))
  | [], _ => h.pure ()
  | index :: indices, hnodes => by
    obtain ⟨hindex, hindices⟩ := comparesOn_append.1 hnodes
    exact h.bind (h.between _ _ (compares_emitExpr h index hindex)) fun _ =>
      compares_emitIndices h indices hindices

theorem compares_emitInitializers (h : Compares R g g' r) : ∀ initializers : List Argument,
    ComparesOn R g g' r (renderedArguments initializers) → R (emitInitializers g initializers)
      (emitInitializers g' (reviseArguments r r.initializerName initializers))
  | [], _ => h.pure ()
  | ⟨name, value, passing⟩ :: initializers, hnodes => by
    obtain ⟨hvalue, hinitializers⟩ := comparesOn_append.1 hnodes
    have hname := h.initializer name
    rw [reviseArguments]
    generalize r.initializerName name = name' at hname ⊢
    cases hname with
    | none => exact h.refuse rfl
    | some hname =>
      exact h.bind hname fun _ => h.bind (h.write _) fun _ =>
        h.bind (compares_emitExpr h value hvalue) fun _ =>
          compares_emitInitializers h initializers hinitializers

theorem compares_emitDefaultValues (h : Compares R g g' r) : ∀ parameters : List Parameter,
    ComparesOn R g g' r (renderedDefaults parameters) → R (emitDefaultValues g parameters)
      (emitDefaultValues g' (reviseParameters r parameters))
  | [], _ => h.pure ()
  | ⟨_, _, _, none⟩ :: parameters, hnodes => compares_emitDefaultValues h parameters hnodes
  | ⟨name, _, _, some value⟩ :: parameters, hnodes => by
    obtain ⟨hvalue, hparameters⟩ := comparesOn_append.1 hnodes
    exact h.bind (h.name name) fun _ =>
      h.bind (h.line h.width (h.between _ _ (compares_emitExpr h value hvalue))) fun _ =>
        compares_emitDefaultValues h parameters hparameters

theorem compares_emitLocal (h : Compares R g g' r) : ∀ declared : Declaration,
    ComparesOn R g g' r (renderedExpr? declared.value) →
      R (emitLocal g declared) (emitLocal g' (declared.revise r))
  | ⟨name, _, none, constant⟩, _ => h.localName name constant
  | ⟨name, _, some value, constant⟩, hnodes =>
    h.bind (h.localName name constant) fun _ => h.bind (h.write " = ") fun _ =>
      compares_emitExpr h value hnodes

theorem compares_emitLocals (h : Compares R g g' r) : ∀ locals : List Declaration,
    ComparesOn R g g' r (renderedLocals locals) →
      R (emitLocals g locals) (emitLocals g' (reviseLocals r locals))
  | [], _ => h.pure ()
  | ⟨name, type, value, constant⟩ :: locals, hnodes => by
    obtain ⟨hvalue, hlocals⟩ := comparesOn_append.1 hnodes
    exact h.bind (h.line h.width (compares_emitLocal h ⟨name, type, value, constant⟩ hvalue)) fun _ =>
      compares_emitLocals h locals hlocals

theorem compares_emitLocals? (h : Compares R g g' r) : ∀ locals : Option (List Declaration),
    ComparesOn R g g' r (renderedLocals? locals) →
      R (emitLocals? g locals) (emitLocals? g' (reviseLocals? r locals))
  | none, _ => h.pure ()
  | some locals, hnodes => compares_emitLocals h locals hnodes

theorem compares_emitStatement (h : Compares R g g' r) : ∀ s : Statement,
    ComparesOn R g g' r s.rendered →
      R (emitStatement g s) (emitStatement g' (s.revise r))
  | .expression value, hnodes => by
    obtain ⟨hat, hvalue⟩ := comparesOn_cons.1 hnodes
    exact hat _ _ (compares_emitExpr h value hvalue)
  | .declaration ⟨name, type, value, constant⟩, hnodes =>
    h.line h.width (compares_emitLocal h ⟨name, type, value, constant⟩ (comparesOn_cons.1 hnodes).2)
  | .assignment target value, hnodes => by
    obtain ⟨htarget, hvalue⟩ := comparesOn_append.1 (comparesOn_cons.1 hnodes).2
    exact h.line h.width (h.bind (compares_emitExpr h target htarget) fun _ =>
      h.bind (h.write " = ") fun _ => compares_emitExpr h value hvalue)
  | .result none, _ => h.line h.width (h.write "return")
  | .result (some value), hnodes =>
    h.line h.width (h.bind (h.write "return ") fun _ =>
      compares_emitExpr h value (comparesOn_cons.1 hnodes).2)
  | .block body, hnodes =>
    h.bind (h.line h.width (h.write "do")) fun _ =>
      h.bind (h.deeper (compares_emitStatements h body (comparesOn_cons.1 hnodes).2)) fun _ =>
        h.line h.width (h.write "end")

/-- A list of statements and the revised list: the runs compare if they do at each node. -/
theorem compares_emitStatements (h : Compares R g g' r) : ∀ statements : List Statement,
    ComparesOn R g g' r (renderedStatements statements) → R (emitStatements g statements)
      (emitStatements g' (reviseStatements r statements))
  | [], _ => h.pure ()
  | s :: statements, hnodes => by
    obtain ⟨hs, hstatements⟩ := comparesOn_append.1 hnodes
    exact h.bind (compares_emitStatement h s hs) fun _ =>
      compares_emitStatements h statements hstatements

end

end CodeTree.Lua
