import CodeTree.Lua.Generator
import CodeTree.Proofs.Emission.Frame
import CodeTree.Proofs.Walking.Portable

/-! # Which errors about trees are reported

Some refusals say that the tree itself is at fault: a symbol has no name, or there is raw code where none
may be. Such an error comes from a rendered node. What stands below an array allocation, in a type that
is not written or in an argument name that is dropped is not even looked at.

* `Node.asked`: the symbols whose names a node asks for.
* `Node.Fault`: the errors that a node gives reason for.
* `Reports P action`: an error about the tree that an action reports is one of `P`.
* `reports_emitExpr`, `reports_emitStatements`: trees report the faults of their rendered nodes.
* `exists_fault_of_generateExpression`, `exists_fault_of_generateStatements`: so do generators. -/

namespace CodeTree

set_option autoImplicit false

/-- The names of arguments are asked for only to refuse them. -/
def Lua.NamedArguments.asked : Lua.NamedArguments → List Argument → List Symbol
  | positional, _ => []
  | reject, arguments => arguments.filterMap (·.name)

/-- The symbols whose names writing an expression asks for, whatever is below it. An allocation asks
for the name of its type without writing it. -/
def Expr.asked (named : Lua.NamedArguments) : Expr → List Symbol
  | allocate type _ _ _ => [type.name]
  | e => e.symbols ++ named.asked (e.arguments?.getD [])

def Node.asked (named : Lua.NamedArguments) : Node → List Symbol
  | expression e => e.asked named
  | statement (.declaration declared) => [declared.name]
  | _ => []

theorem Expr.mem_asked_of_mem_symbols {e : Expr} {named : Lua.NamedArguments} {s : Symbol}
    (h : s ∈ e.symbols) : s ∈ e.asked named := by
  cases e with
  | allocate => cases h
  | _ => exact List.mem_append_left _ h

/-- The errors about the tree that a node gives reason for. -/
inductive Node.Fault (g : Lua.Setting) (node : Node) : TreeError → Prop
  | unknownSymbol {s : Symbol} (hasked : s ∈ node.asked g.config.namedArguments)
      (hunknown : g.names.resolve s = none) : Fault g node (.unknownSymbol s)
  | notPortable {code : RawCode} (hcode : node.code? = some code)
      (hrefused : g.config.allowRaw = false) : Fault g node (.notPortable code.lines.length)

namespace Lua

set_option synthInstance.maxSize 1000

/-! ## Composition -/

section Composition

variable {α β : Type}

/-- An error about the tree that the action reports is one of `P`. -/
class Reports (P : TreeError → Prop) (action : Emit α) : Prop where
  holds : ∀ d reported d', action d = .error (.tree reported) d' → P reported

variable {P : TreeError → Prop}

theorem Reports.bind {action : Emit α} {next : α → Emit β} (h : Reports P action)
    (hnext : ∀ a, Reports P (next a)) : Reports P (action >>= next) := by
  refine ⟨fun d reported d' hrun => ?_⟩
  change EStateM.bind action next d = _ at hrun
  rw [EStateM.bind] at hrun
  cases haction : action d with
  | ok a d₁ =>
    rw [haction] at hrun
    exact (hnext a).holds d₁ reported d' hrun
  | error error d₁ =>
    rw [haction] at hrun
    cases hrun
    exact h.holds d reported d' haction

instance {action : Emit α} {next : α → Emit β} [h : Reports P action]
    [hnext : ∀ a, Reports P (next a)] : Reports P (action >>= next) := h.bind hnext

instance {c : Prop} [Decidable c] {action action' : Emit α} [Reports P action]
    [Reports P action'] : Reports P (if c then action else action') := by
  split <;> infer_instance

/-- An action that never stops reports nothing. -/
theorem reports_of_ok {action : Emit α} (h : ∀ d, ∃ a d', action d = .ok a d') :
    Reports P action := by
  refine ⟨fun d reported d' hrun => ?_⟩
  obtain ⟨a, d₁, hok⟩ := h d
  rw [hok] at hrun
  cases hrun

instance reports_pure (a : α) : Reports P (pure a : Emit α) := reports_of_ok fun d => ⟨a, d, rfl⟩

instance reports_write (text : String) : Reports P (write text) :=
  reports_of_ok fun _ => ⟨_, _, rfl⟩

instance reports_newline : Reports P newline := reports_write "\n"

instance reports_indent (width : Nat) : Reports P (indent width) := reports_of_ok fun _ => ⟨_, _, rfl⟩

instance reports_useBitLibrary : Reports P useBitLibrary := reports_of_ok fun _ => ⟨_, _, rfl⟩

theorem reports_refuse {error : EmitError} (h : ∀ reported, error = .tree reported → P reported) :
    Reports P (refuse error : Emit α) := by
  refine ⟨fun d reported d' hrun => ?_⟩
  injection hrun with herror
  exact h reported herror

/-- Other refusals are not about the tree. -/
theorem reports_refuse_of_ne {error : EmitError} (h : ∀ reported, error ≠ .tree reported) :
    Reports P (refuse error : Emit α) :=
  reports_refuse fun reported herror => absurd herror (h reported)

instance reports_capture {action : Emit Unit} [h : Reports P action] : Reports P (capture action) := by
  refine ⟨fun d reported d' hrun => ?_⟩
  rw [capture_apply] at hrun
  cases haction : action { d with text := "" } with
  | ok a d₁ =>
    rw [haction] at hrun
    cases hrun
  | error error d₁ =>
    rw [haction] at hrun
    cases hrun
    exact h.holds _ reported d' haction

instance reports_deeper {action : Emit Unit} [h : Reports P action] : Reports P (deeper action) := by
  refine ⟨fun d reported d' hrun => ?_⟩
  rw [deeper_apply] at hrun
  cases haction : action { d with depth := d.depth + 1 } with
  | ok a d₁ =>
    rw [haction] at hrun
    cases hrun
  | error error d₁ =>
    rw [haction] at hrun
    cases hrun
    exact h.holds _ reported d' haction

end Composition

/-! ## The forms of nodes -/

section Forms

variable {P : TreeError → Prop} {g : Setting}

/-- An unknown symbol may be reported. -/
def MayMiss (g : Setting) (P : TreeError → Prop) (s : Symbol) : Prop :=
  g.names.resolve s = none → P (.unknownSymbol s)

theorem reports_nameOf {s : Symbol} (h : MayMiss g P s) : Reports P (nameOf g s) := by
  rw [nameOf_eq]
  cases hs : g.names.resolve s with
  | some name => exact reports_pure name
  | none =>
    refine reports_refuse fun reported herror => ?_
    injection herror with herror
    exact herror ▸ h hs

theorem reports_writeName {s : Symbol} (h : MayMiss g P s) : Reports P (writeName g s) :=
  (reports_nameOf h).bind reports_write

theorem reports_emitLines : ∀ lines : List String, Reports P (emitLines g lines)
  | [] => reports_pure ()
  | [line] => reports_write line
  | line :: line' :: lines =>
    (reports_write line).bind fun _ => reports_newline.bind fun _ =>
      (reports_indent _).bind fun _ => reports_emitLines (line' :: lines)

theorem reports_emitAtom {a : Atom}
    (h : ∀ reported, (Node.expression (.atom a)).Fault g reported → P reported) :
    Reports P (emitAtom g a) := by
  have hname : ∀ s ∈ a.symbols, MayMiss g P s := fun s hs hunknown =>
    h _ (.unknownSymbol (List.mem_append_left _ hs) hunknown)
  cases a with
  | nil | selfReference | literal => exact reports_write _
  | identifier | localVariable | typeReference =>
    exact reports_writeName (hname _ (List.mem_singleton_self _))
  | enumValue value =>
    have := reports_nameOf (hname value.type.name List.mem_cons_self)
    have := reports_nameOf (hname value.value (List.mem_cons_of_mem _ List.mem_cons_self))
    rw [emitAtom]
    infer_instance
  | raw code =>
    rw [emitAtom]
    by_cases hallow : g.config.allowRaw = true
    · rw [if_pos hallow]
      exact reports_emitLines _
    · rw [if_neg hallow]
      refine reports_refuse fun reported herror => ?_
      injection herror with herror
      exact herror ▸ h _ (.notPortable rfl ((Bool.not_eq_true _).mp hallow))
  | propertyValue | inherited | selector | default => exact reports_refuse_of_ne nofun

instance reports_emitBetween {opening closing : String} {inner : Emit Unit} [Reports P inner] :
    Reports P (emitBetween opening closing inner) := by
  rw [emitBetween]
  infer_instance

instance reports_emitPrefixed {operator : String} {operand : Emit Unit} [Reports P operand] :
    Reports P (emitPrefixed operator operand) := by
  rw [emitPrefixed]
  infer_instance

instance reports_emitUnary {operator : Operator UnaryKind} {operand : Emit Unit}
    [h : Reports P operand] : Reports P (emitUnary operator operand) := by
  cases operator with
  | custom text => exact reports_emitPrefixed
  | standard kind =>
    cases kind with
    | plus => exact h
    | addressOf => exact reports_refuse_of_ne nofun
    | minus | not => exact reports_emitPrefixed

instance reports_emitBinary {operator : Operator BinaryKind} {left right : Emit Unit}
    [Reports P left] [Reports P right] : Reports P (emitBinary g operator left right) := by
  have hform (form : BinaryForm) : Reports P (emitInForm form left right) := by
    rw [emitInForm]
    infer_instance
  have hrefuse (kind : BinaryKind) : Reports P (refuse (.binaryOperator kind) : Emit Unit) :=
    reports_refuse_of_ne nofun
  rw [emitBinary]
  cases binaryForm g.config.target operator <;> split <;> infer_instance

theorem reports_emitMember {site : Option Site} {selection : Selection}
    {arguments : Option (Emit Unit)} {optional : Bool}
    (hname : MayMiss g P selection.name) (hsite : ∀ s ∈ site, Reports P s.emit)
    (harguments : ∀ a ∈ arguments, Reports P a) :
    Reports P (emitMember g site selection arguments optional) := by
  have hcall : Reports P (emitCall arguments) := by
    cases arguments with
    | none => exact reports_pure ()
    | some arguments =>
      have := harguments arguments rfl
      exact reports_emitBetween
  rw [emitMember_eq]
  refine (reports_nameOf hname).bind fun member => ?_
  cases site with
  | none =>
    rw [emitAccess]
    infer_instance
  | some site =>
    have hemit : Reports P site.emit := hsite site rfl
    rw [emitAccess]
    infer_instance

/-- Under the setting that refuses them, the names of arguments are asked for. -/
theorem reports_checkArgument {name : Option Symbol} {passing : Passing}
    (h : g.config.namedArguments = .reject → ∀ s ∈ name, MayMiss g P s) :
    Reports P (checkArgument g name passing) := by
  cases passing with
  | byRef | out => exact reports_refuse_of_ne nofun
  | byValue =>
    cases name with
    | none => exact reports_pure ()
    | some name =>
      unfold checkArgument
      cases hnamed : g.config.namedArguments with
      | positional => exact reports_pure ()
      | reject =>
        exact (reports_nameOf (h hnamed name rfl)).bind fun _ => reports_refuse_of_ne nofun

theorem reports_emitParameterNames : ∀ (isFirst : Bool) (parameters : List Parameter),
    (∀ p ∈ parameters, MayMiss g P p.name) → Reports P (emitParameterNames g isFirst parameters)
  | _, [], _ => reports_pure ()
  | isFirst, p :: parameters, h => by
    obtain ⟨hname, hnames⟩ := List.forall_mem_cons.1 h
    have := reports_writeName hname
    have := reports_emitParameterNames false parameters hnames
    have : Reports P (refuse (.parameterPassing p.passing) : Emit Unit) := reports_refuse_of_ne nofun
    rw [emitParameterNames]
    infer_instance

instance reports_emitExpressionLine {expression : Emit Unit} [Reports P expression] :
    Reports P (emitExpressionLine g expression) := by
  rw [emitExpressionLine]
  infer_instance

instance reports_emitLine {line : Emit Unit} [Reports P line] : Reports P (emitLine g line) := by
  rw [emitLine]
  infer_instance

theorem reports_emitLocalName {name : Symbol} (constant : Bool) (h : MayMiss g P name) :
    Reports P (emitLocalName g name constant) := by
  have := reports_nameOf h
  rw [emitLocalName]
  infer_instance

end Forms

/-! ## Trees -/

section Trees

variable {P : TreeError → Prop} {g : Setting}

/-- The faults of nodes are all in `P`. -/
def Covers (g : Setting) (P : TreeError → Prop) (nodes : List Node) : Prop :=
  ∀ node ∈ nodes, ∀ reported, node.Fault g reported → P reported

@[simp] theorem covers_cons {node : Node} {nodes : List Node} :
    Covers g P (node :: nodes) ↔
      (∀ reported, node.Fault g reported → P reported) ∧ Covers g P nodes :=
  List.forall_mem_cons

@[simp] theorem covers_append {nodes nodes' : List Node} :
    Covers g P (nodes ++ nodes') ↔ Covers g P nodes ∧ Covers g P nodes' :=
  List.forall_mem_append

/-- The symbols that a node asks for are covered. -/
theorem Covers.asked {node : Node} {nodes : List Node} (h : Covers g P (node :: nodes)) :
    ∀ s ∈ node.asked g.config.namedArguments, MayMiss g P s :=
  fun _ hs hunknown => (covers_cons.1 h).1 _ (.unknownSymbol hs hunknown)

/-- So are those that an expression is written with. -/
theorem Covers.symbols {e : Expr} {nodes : List Node} (h : Covers g P (.expression e :: nodes)) :
    ∀ s ∈ e.symbols, MayMiss g P s :=
  fun s hs => h.asked s (Expr.mem_asked_of_mem_symbols hs)

/-- Where names of arguments are refused, those of an expression with arguments are covered. -/
theorem Covers.argumentNames {e : Expr} {arguments : List Argument} {nodes : List Node}
    (h : Covers g P (.expression e :: nodes)) (harguments : e.arguments? = some arguments) :
    g.config.namedArguments = .reject → ∀ a ∈ arguments, ∀ s ∈ a.name, MayMiss g P s := by
  intro hnamed a ha s hs
  refine h.asked s ?_
  rw [hnamed]
  have hmem : s ∈ Lua.NamedArguments.reject.asked (e.arguments?.getD []) := by
    rw [harguments]
    exact List.mem_filterMap.2 ⟨a, ha, hs⟩
  cases e with
  | allocate =>
    cases harguments
    cases ha
  | _ => exact List.mem_append_right _ hmem

mutual

/-- What writing an expression reports is covered by its rendered nodes. -/
theorem reports_emitExpr : ∀ e : Expr, Covers g P e.rendered → Reports P (emitExpr g e)
  | .shared s, h => reports_emitAtom (covers_cons.1 h).1
  | .atom a, h => reports_emitAtom (covers_cons.1 h).1
  | .array elements _, h => by
    have := reports_emitExprs true elements (covers_cons.1 h).2
    exact reports_emitBetween
  | .dictionary entries, h => by
    have := reports_emitEntries true entries (covers_cons.1 h).2
    exact reports_emitBetween
  | .tuple elements, h => by
    have := reports_emitExprs true elements (covers_cons.1 h).2
    exact reports_emitBetween
  | .unary _ operand, h => by
    have := reports_emitExpr operand (covers_cons.1 h).2
    exact reports_emitUnary
  | .binary _ left right, h => by
    obtain ⟨hleft, hright⟩ := covers_append.1 (covers_cons.1 h).2
    have := reports_emitExpr left hleft
    have := reports_emitExpr right hright
    exact reports_emitBinary
  | .field site selection, h =>
    reports_emitMember (h.symbols _ (List.mem_singleton_self _))
      (reports_emitSite? site (covers_cons.1 h).2) nofun
  | .call site selection arguments optional, h => by
    have hparts : Covers g P (renderedExpr? site) ∧ Covers g P (renderedArguments arguments) := by
      have hrest := (covers_cons.1 h).2
      split at hrest
      · exact (covers_append.1 hrest).symm
      · exact covers_append.1 hrest
    refine reports_emitMember (h.symbols _ (List.mem_singleton_self _))
      (reports_emitSite? site hparts.1) ?_
    rintro _ ⟨⟩
    exact reports_emitArguments true arguments (h.argumentNames rfl) hparts.2
  | .property site selection indices, h => by
    obtain ⟨hsite, hindices⟩ := covers_append.1 (covers_cons.1 h).2
    have hmember : Reports P (emitMember g (emitSite? g site) selection none false) :=
      reports_emitMember (h.symbols _ (List.mem_singleton_self _)) (reports_emitSite? site hsite) nofun
    have := reports_emitPropertyIndices indices (h.argumentNames rfl) hindices
    rw [emitExpr]
    infer_instance
  | .construct type constructor arguments initializers, h => by
    obtain ⟨harguments, hinitializers⟩ := covers_append.1 (covers_cons.1 h).2
    have htype := reports_nameOf (h.symbols type.name (List.mem_append_left _ List.mem_cons_self))
    have hconstructor : ∀ s ∈ constructor, Reports P (nameOf g s) := fun s hs =>
      reports_nameOf (h.symbols s
        (List.mem_append_left _ (List.mem_cons_of_mem _ (Option.mem_toList.2 hs))))
    have := reports_emitArguments true arguments (h.argumentNames rfl) harguments
    have := reports_emitInitializers initializers
      (fun i hi s hs => h.symbols s (List.mem_append_right _ (List.mem_filterMap.2 ⟨i, hi, hs⟩)))
      hinitializers
    rw [emitExpr]
    cases constructor with
    | none => cases initializers <;> infer_instance
    | some constructor =>
      have := hconstructor constructor rfl
      cases initializers <;> infer_instance
  | .allocate type _ _ _, h => by
    have := reports_nameOf (h.asked type.name (List.mem_singleton_self _))
    rw [emitExpr]
    infer_instance
  | .element array indices, h => by
    obtain ⟨harray, hindices⟩ := covers_append.1 (covers_cons.1 h).2
    have := reports_emitExpr array harray
    have := reports_emitIndices indices hindices
    rw [emitExpr]
    infer_instance
  | .wrapped .parentheses inner, h => by
    have := reports_emitExpr inner (covers_cons.1 h).2
    exact reports_emitBetween
  | .wrapped .typeOf inner, h => by
    have := reports_emitExpr inner (covers_cons.1 h).2
    exact reports_emitBetween
  | .wrapped .sizeOf _, _ => reports_refuse_of_ne nofun
  | .wrapped .dereference _, _ => reports_refuse_of_ne nofun
  | .conditional condition consequence alternative, h => by
    obtain ⟨hfirst, halternative⟩ := covers_append.1 (covers_cons.1 h).2
    obtain ⟨hcondition, hconsequence⟩ := covers_append.1 hfirst
    have := reports_emitExpr condition hcondition
    have := reports_emitExpr consequence hconsequence
    rw [emitExpr]
    cases alternative with
    | none => infer_instance
    | some alternative =>
      have := reports_emitExpr alternative halternative
      simp only
      infer_instance
  | .cast value _ _ _, h => reports_emitExpr value (covers_cons.1 h).2
  | .assigned value _, h => by
    have := reports_emitExpr value (covers_cons.1 h).2
    exact reports_emitBetween
  | .method _ parameters _ body locals, h => by
    obtain ⟨hfirst, hbody⟩ := covers_append.1 (covers_cons.1 h).2
    obtain ⟨hdefaults, hlocals⟩ := covers_append.1 hfirst
    have hnames : ∀ p ∈ parameters, MayMiss g P p.name := fun p hp =>
      h.symbols _ (List.mem_append_left _ (List.mem_map_of_mem hp))
    have := reports_emitParameterNames (g := g) true parameters hnames
    have := reports_emitDefaultValues parameters hnames hdefaults
    have := reports_emitLocals? locals (fun declared hmem =>
      h.symbols _ (List.mem_append_right _ (List.mem_map_of_mem hmem))) hlocals
    have := reports_emitStatements body hbody
    rw [emitExpr]
    infer_instance
  | .anonymousType _ _, _ => reports_refuse_of_ne nofun

theorem reports_emitSite? : ∀ site : Option Expr, Covers g P (renderedExpr? site) →
    ∀ s ∈ emitSite? g site, Reports P s.emit
  | none, _ => nofun
  | some site, h => by
    rintro _ ⟨⟩
    exact reports_emitExpr site h

theorem reports_emitExprs : ∀ (isFirst : Bool) (es : List Expr), Covers g P (renderedExprs es) →
    Reports P (emitExprs g isFirst es)
  | _, [], _ => reports_pure ()
  | isFirst, e :: es, h => by
    obtain ⟨he, hes⟩ := covers_append.1 h
    have := reports_emitExpr e he
    have := reports_emitExprs false es hes
    rw [emitExprs]
    infer_instance

theorem reports_emitEntries : ∀ (isFirst : Bool) (entries : List (Expr × Expr)),
    Covers g P (renderedEntries entries) → Reports P (emitEntries g isFirst entries)
  | _, [], _ => reports_pure ()
  | isFirst, (key, value) :: entries, h => by
    obtain ⟨hentry, hentries⟩ := covers_append.1 h
    obtain ⟨hkey, hvalue⟩ := covers_append.1 hentry
    have := reports_emitExpr key hkey
    have := reports_emitExpr value hvalue
    have := reports_emitEntries false entries hentries
    rw [emitEntries]
    infer_instance

theorem reports_emitArguments : ∀ (isFirst : Bool) (arguments : List Argument),
    (g.config.namedArguments = .reject → ∀ a ∈ arguments, ∀ s ∈ a.name, MayMiss g P s) →
    Covers g P (renderedArguments arguments) → Reports P (emitArguments g isFirst arguments)
  | _, [], _, _ => reports_pure ()
  | isFirst, ⟨name, value, passing⟩ :: arguments, hnames, h => by
    obtain ⟨hvalue, hrest⟩ := covers_append.1 h
    have : Reports P (checkArgument g name passing) := reports_checkArgument fun hnamed =>
      (List.forall_mem_cons.1 (hnames hnamed)).1
    have := reports_emitExpr value hvalue
    have := reports_emitArguments false arguments
      (fun hnamed => (List.forall_mem_cons.1 (hnames hnamed)).2) hrest
    rw [emitArguments]
    infer_instance

theorem reports_emitPropertyIndices : ∀ indices : List Argument,
    (g.config.namedArguments = .reject → ∀ a ∈ indices, ∀ s ∈ a.name, MayMiss g P s) →
    Covers g P (renderedArguments indices) → Reports P (emitPropertyIndices g indices)
  | [], _, _ => reports_pure ()
  | ⟨name, value, passing⟩ :: indices, hnames, h => by
    obtain ⟨hvalue, hrest⟩ := covers_append.1 h
    have : Reports P (checkArgument g name passing) := reports_checkArgument fun hnamed =>
      (List.forall_mem_cons.1 (hnames hnamed)).1
    have := reports_emitExpr value hvalue
    have := reports_emitPropertyIndices indices
      (fun hnamed => (List.forall_mem_cons.1 (hnames hnamed)).2) hrest
    rw [emitPropertyIndices]
    infer_instance

theorem reports_emitIndices : ∀ indices : List Expr, Covers g P (renderedExprs indices) →
    Reports P (emitIndices g indices)
  | [], _ => reports_pure ()
  | index :: indices, h => by
    obtain ⟨hindex, hrest⟩ := covers_append.1 h
    have := reports_emitExpr index hindex
    have := reports_emitIndices indices hrest
    rw [emitIndices]
    infer_instance

theorem reports_emitInitializers : ∀ initializers : List Argument,
    (∀ i ∈ initializers, ∀ s ∈ i.name, MayMiss g P s) →
    Covers g P (renderedArguments initializers) → Reports P (emitInitializers g initializers)
  | [], _, _ => reports_pure ()
  | ⟨none, _, _⟩ :: _, _, _ => reports_refuse_of_ne nofun
  | ⟨some name, value, _⟩ :: initializers, hnames, h => by
    obtain ⟨hname, hnames⟩ := List.forall_mem_cons.1 hnames
    obtain ⟨hvalue, hrest⟩ := covers_append.1 h
    have := reports_nameOf (hname name rfl)
    have := reports_emitExpr value hvalue
    have := reports_emitInitializers initializers hnames hrest
    rw [emitInitializers]
    infer_instance

theorem reports_emitDefaultValues : ∀ parameters : List Parameter,
    (∀ p ∈ parameters, MayMiss g P p.name) →
    Covers g P (renderedDefaults parameters) → Reports P (emitDefaultValues g parameters)
  | [], _, _ => reports_pure ()
  | ⟨_, _, _, none⟩ :: parameters, hnames, h =>
    reports_emitDefaultValues parameters (List.forall_mem_cons.1 hnames).2 h
  | ⟨name, _, _, some value⟩ :: parameters, hnames, h => by
    obtain ⟨hname, hnames⟩ := List.forall_mem_cons.1 hnames
    obtain ⟨hvalue, hrest⟩ := covers_append.1 h
    have := reports_nameOf hname
    have := reports_emitExpr value hvalue
    have := reports_emitDefaultValues parameters hnames hrest
    rw [emitDefaultValues]
    infer_instance

theorem reports_emitLocal : ∀ declared : Declaration,
    (MayMiss g P declared.name) →
    Covers g P (renderedExpr? declared.value) → Reports P (emitLocal g declared)
  | ⟨_, _, none, constant⟩, hname, _ => reports_emitLocalName constant hname
  | ⟨_, _, some value, constant⟩, hname, h => by
    have := reports_emitLocalName constant hname
    have := reports_emitExpr value h
    rw [emitLocal]
    infer_instance

theorem reports_emitLocals : ∀ locals : List Declaration,
    (∀ declared ∈ locals, MayMiss g P declared.name) →
    Covers g P (renderedLocals locals) → Reports P (emitLocals g locals)
  | [], _, _ => reports_pure ()
  | ⟨name, type, value, constant⟩ :: locals, hnames, h => by
    obtain ⟨hname, hnames⟩ := List.forall_mem_cons.1 hnames
    obtain ⟨hvalue, hrest⟩ := covers_append.1 h
    have := reports_emitLocal ⟨name, type, value, constant⟩ hname hvalue
    have := reports_emitLocals locals hnames hrest
    rw [emitLocals]
    infer_instance

theorem reports_emitLocals? : ∀ locals : Option (List Declaration),
    (∀ declared ∈ locals.getD [], MayMiss g P declared.name) →
    Covers g P (renderedLocals? locals) → Reports P (emitLocals? g locals)
  | none, _, _ => reports_pure ()
  | some locals, hnames, h => reports_emitLocals locals hnames h

theorem reports_emitStatement : ∀ s : Statement, Covers g P s.rendered →
    Reports P (emitStatement g s)
  | .expression value, h => by
    have := reports_emitExpr value (covers_cons.1 h).2
    rw [emitStatement]
    split
    · infer_instance
    · exact reports_refuse_of_ne nofun
  | .declaration ⟨name, type, value, constant⟩, h => by
    have hname := h.asked name (List.mem_singleton_self _)
    have := reports_emitLocal ⟨name, type, value, constant⟩ hname (covers_cons.1 h).2
    exact reports_emitLine
  | .assignment target value, h => by
    obtain ⟨htarget, hvalue⟩ := covers_append.1 (covers_cons.1 h).2
    have := reports_emitExpr target htarget
    have := reports_emitExpr value hvalue
    rw [emitStatement]
    infer_instance
  | .result none, _ => reports_emitLine
  | .result (some value), h => by
    have := reports_emitExpr value (covers_cons.1 h).2
    rw [emitStatement]
    infer_instance
  | .block body, h => by
    have := reports_emitStatements body (covers_cons.1 h).2
    rw [emitStatement]
    infer_instance

theorem reports_emitStatements : ∀ statements : List Statement,
    Covers g P (renderedStatements statements) → Reports P (emitStatements g statements)
  | [], _ => reports_pure ()
  | s :: statements, h => by
    obtain ⟨hs, hrest⟩ := covers_append.1 h
    have := reports_emitStatement s hs
    have := reports_emitStatements statements hrest
    rw [emitStatements]
    infer_instance

end

end Trees

/-! ## The generator -/

theorem covers_faults (g : Setting) (nodes : List Node) :
    Covers g (fun reported => ∃ node ∈ nodes, node.Fault g reported) nodes :=
  fun node hnode _ hfault => ⟨node, hnode, hfault⟩

theorem Reports.answer {P : TreeError → Prop} {action : Emit Unit} (h : Reports P action)
    {generator : Generator} {finish : Draft → String} {reported : TreeError}
    (hanswer : (generator.clear.run action finish).1 = .error (.tree reported)) : P reported := by
  have hdraft : generator.clear.draft = Draft.empty := rfl
  rw [Generator.run, EStateM.run, hdraft] at hanswer
  cases hrun : action Draft.empty with
  | ok a d =>
    rw [hrun] at hanswer
    cases hanswer
  | error error d =>
    rw [hrun] at hanswer
    cases hanswer
    exact h.holds _ reported d hrun

/-- An error about the tree that a generator reports is the fault of a rendered node. -/
theorem exists_fault_of_generateExpression {generator : Generator} {e : Expr} {reported : TreeError}
    (h : (generator.generateExpression e).1 = .error (.tree reported)) :
    ∃ node ∈ e.rendered, node.Fault generator.setting reported :=
  (reports_emitExpr e (covers_faults _ _)).answer h

theorem exists_fault_of_generateStatements {generator : Generator} {statements : List Statement}
    {reported : TreeError}
    (h : (generator.generateStatements statements).1 = .error (.tree reported)) :
    ∃ node ∈ renderedStatements statements, node.Fault generator.setting reported :=
  (reports_emitStatements statements (covers_faults _ _)).answer h

/-- One of the nodes asks for an unknown symbol. -/
def AsksUnknown (g : Setting) (nodes : List Node) (s : Symbol) : Prop :=
  ∃ node ∈ nodes, s ∈ node.asked g.config.namedArguments ∧ g.names.resolve s = none

theorem asksUnknown_of_exists_fault {g : Setting} {nodes : List Node} {s : Symbol}
    (h : ∃ node ∈ nodes, node.Fault g (.unknownSymbol s)) : AsksUnknown g nodes s := by
  obtain ⟨node, hnode, hasked, hunknown⟩ := h
  exact ⟨node, hnode, hasked, hunknown⟩

/-- A symbol that a generator reports as unknown is asked for by a rendered node. -/
theorem asksUnknown_of_generateExpression {generator : Generator} {e : Expr} {s : Symbol}
    (h : (generator.generateExpression e).1 = .error (.tree (.unknownSymbol s))) :
    AsksUnknown generator.setting e.rendered s :=
  asksUnknown_of_exists_fault (exists_fault_of_generateExpression h)

theorem asksUnknown_of_generateStatements {generator : Generator} {statements : List Statement}
    {s : Symbol}
    (h : (generator.generateStatements statements).1 = .error (.tree (.unknownSymbol s))) :
    AsksUnknown generator.setting (renderedStatements statements) s :=
  asksUnknown_of_exists_fault (exists_fault_of_generateStatements h)

end Lua

end CodeTree
