import CodeTree.Proofs.Acceptance.Reported
import CodeTree.Proofs.Variants.Revised

/-! # What Lua does not express

Some fields of a tree say nothing that Lua can say: the types of variables and casts, type arguments,
what an array is stored in, the size and contents of a new array. Masking sets all of them to fixed
values. Masking is faithful, so two trees that differ only in such fields, wherever they stand, come to
the same text or to a refusal of the same kind, and what stands in them is never reported.

* `Revision.masking`: the fields and their fixed values.
* `faithful_masking`: the emitter does not notice a mask.
* `answers_alike_of_masked_eq`: trees with the same mask. -/

namespace CodeTree

set_option autoImplicit false

/-! ## Masks -/

/-- A type of which only the name is left. -/
def TypeReference.plain (type : TypeReference) : TypeReference := .named type.name

def Atom.masked : Atom → Atom
  | localVariable read => localVariable (.named read.name)
  | typeReference type => typeReference type.plain
  | enumValue value => enumValue ⟨value.type.plain, value.value⟩
  | default type => default type.plain
  | a => a

/-- Without a site an access has nothing that could be nil. -/
def Selection.masked (hasSite : Bool) (selection : Selection) : Selection :=
  ⟨selection.name, hasSite && selection.nilSafe, false⟩

/-- The names of arguments do not matter where they are dropped. -/
def Lua.NamedArguments.masked : Lua.NamedArguments → Option Symbol → Option Symbol
  | positional, _ => none
  | reject, name => name

/-- Sets the fields that Lua does not express to fixed values. -/
def Revision.masking (named : Lua.NamedArguments) : Revision where
  atom := Atom.masked
  declaredType _ := none
  arrayKind _ := .static
  selection := Selection.masked
  optional hasSite optional := hasSite && optional
  argumentName := named.masked
  createdType := TypeReference.plain
  keepsAllocation := false
  castType _ := default
  throwing _ := false
  guaranteedSafe _ := false
  lambda _ := false
  returns _ := none

/-- The expression without what Lua does not express. -/
def Expr.masked (named : Lua.NamedArguments) (e : Expr) : Expr := e.revise (.masking named)

def maskedStatements (named : Lua.NamedArguments) (statements : List Statement) : List Statement :=
  reviseStatements (.masking named) statements

def Node.masked (named : Lua.NamedArguments) (node : Node) : Node := node.revise (.masking named)

/-! ## Masked symbols -/

section Symbols

variable {named : Lua.NamedArguments}

theorem Atom.symbols_masked (a : Atom) : a.masked.symbols = a.symbols := by cases a <;> rfl

theorem asked_reviseArguments (arguments : List Argument) :
    named.asked (reviseArguments (.masking named) named.masked arguments) = named.asked arguments := by
  induction arguments with
  | nil => cases named <;> rfl
  | cons a arguments ih =>
    obtain ⟨name, value, passing⟩ := a
    cases named with
    | positional => rfl
    | reject =>
      cases name with
      | none => exact ih
      | some name => exact congrArg (name :: ·) ih

theorem names_reviseArguments (r : Revision) (arguments : List Argument) :
    (reviseArguments r id arguments).filterMap (·.name) = arguments.filterMap (·.name) := by
  induction arguments with
  | nil => rfl
  | cons a arguments ih =>
    obtain ⟨name, value, passing⟩ := a
    cases name with
    | none => exact ih
    | some name => exact congrArg (name :: ·) ih

theorem names_reviseParameters (parameters : List Parameter) :
    (reviseParameters (.masking named) parameters).map (·.name) = parameters.map (·.name) := by
  induction parameters with
  | nil => rfl
  | cons p parameters ih =>
    obtain ⟨name, type, passing, value⟩ := p
    exact congrArg (name :: ·) ih

theorem names_reviseLocals (locals : List Declaration) :
    (reviseLocals (.masking named) locals).map (·.name) = locals.map (·.name) := by
  induction locals with
  | nil => rfl
  | cons declared locals ih =>
    obtain ⟨name, type, value, constant⟩ := declared
    exact congrArg (name :: ·) ih

/-- Nothing that a mask hides is asked for. -/
theorem Expr.asked_masked (e : Expr) : (e.masked named).asked named = e.asked named := by
  cases e with
  | atom a =>
    show a.masked.symbols ++ _ = a.symbols ++ _
    rw [a.symbols_masked]
    rfl
  | call site selection arguments optional =>
    exact congrArg (selection.name :: ·) (asked_reviseArguments arguments)
  | property site selection indices =>
    exact congrArg (selection.name :: ·) (asked_reviseArguments indices)
  | construct type constructor arguments initializers =>
    show type.name :: constructor.toList ++
      (reviseArguments (.masking named) id initializers).filterMap (·.name) ++
        named.asked (reviseArguments (.masking named) named.masked arguments) = _
    rw [names_reviseArguments, asked_reviseArguments]
    rfl
  | method lambda parameters returns body locals =>
    have hlocals : ((reviseLocals? (.masking named) locals).getD []).map (·.name) =
      (locals.getD []).map (·.name) := by
      cases locals with
      | none => rfl
      | some locals => exact names_reviseLocals locals
    show (reviseParameters (.masking named) parameters).map (·.name) ++ _ ++ named.asked [] = _
    rw [names_reviseParameters, hlocals]
    rfl
  | _ => rfl

theorem Node.asked_masked (node : Node) : (node.masked named).asked named = node.asked named := by
  cases node with
  | expression e => exact e.asked_masked
  | statement s =>
    cases s with
    | declaration declared =>
      obtain ⟨name, type, value, constant⟩ := declared
      rfl
    | _ => rfl
  | member | raw => rfl

end Symbols

namespace Lua

/-! ## Writing masked trees -/

theorem agrees_emitAtom_masked (g : Setting) (a : Atom) :
    Agrees (emitAtom g a) (emitAtom g a.masked) := by
  cases a with
  | default => exact agrees_refuse rfl
  | _ => exact Agrees.refl _

theorem agrees_checkArgument_masked (g : Setting) (name : Option Symbol) (passing : Passing) :
    Agrees (checkArgument g name passing)
      (checkArgument g (g.config.namedArguments.masked name) passing) := by
  cases passing with
  | byRef | out => exact Agrees.refl _
  | byValue =>
    unfold checkArgument
    cases g.config.namedArguments with
    | positional => cases name <;> exact Agrees.refl _
    | reject => exact Agrees.refl _

/-- No form of the emitter notices a mask. -/
theorem faithful_masking (g : Setting) :
    Faithful (.masking g.config.namedArguments) g g.names where
  shared _ := rfl
  atom := agrees_emitAtom_masked g
  isType a := by cases a <;> rfl
  isRaw a := by cases a <;> rfl
  name _ := rfl
  member _ _ := rfl
  nilSafe _ := rfl
  optional _ := rfl
  argument := agrees_checkArgument_masked g
  initializer _ := rfl
  created _ := rfl
  constructor _ := rfl
  constant _ := rfl

/-- What Lua does not express never shows. Trees with one mask come to one text or to refusals of one
kind, whatever was written before, and a symbol that is reported as unknown is one that a rendered node
still asks for when it is masked. -/
theorem answers_alike_of_masked_eq (g : Setting) :
    (∀ (e e' : Expr) (d d' : Draft),
      e.masked g.config.namedArguments = e'.masked g.config.namedArguments →
        ((Generator.mk g d).generateExpression e).1.mapError EmitError.kind =
          ((Generator.mk g d').generateExpression e').1.mapError EmitError.kind) ∧
    (∀ (statements statements' : List Statement) (d d' : Draft),
      maskedStatements g.config.namedArguments statements =
          maskedStatements g.config.namedArguments statements' →
        ((Generator.mk g d).generateStatements statements).1.mapError EmitError.kind =
          ((Generator.mk g d').generateStatements statements').1.mapError EmitError.kind) ∧
    (∀ (e : Expr) (d : Draft) (s : Symbol),
      ((Generator.mk g d).generateExpression e).1 = .error (.tree (.unknownSymbol s)) →
        g.names.resolve s = none ∧ ∃ node ∈ e.rendered,
          s ∈ (node.masked g.config.namedArguments).asked g.config.namedArguments) ∧
    ∀ (statements : List Statement) (d : Draft) (s : Symbol),
      ((Generator.mk g d).generateStatements statements).1 = .error (.tree (.unknownSymbol s)) →
        g.names.resolve s = none ∧ ∃ node ∈ renderedStatements statements,
          s ∈ (node.masked g.config.namedArguments).asked g.config.namedArguments := by
  have hfaithful := faithful_masking g
  have hasked {nodes : List Node} {s : Symbol} (h : AsksUnknown g nodes s) :
      g.names.resolve s = none ∧ ∃ node ∈ nodes,
        s ∈ (node.masked g.config.namedArguments).asked g.config.namedArguments := by
    obtain ⟨node, hnode, hs, hunknown⟩ := h
    exact ⟨hunknown, node, hnode, node.asked_masked ▸ hs⟩
  refine ⟨fun e e' d d' h => ?_, fun statements statements' d d' h => ?_, fun e d s h => ?_,
    fun statements d s h => ?_⟩
  · calc ((Generator.mk g d).generateExpression e).1.mapError EmitError.kind
        = ((Generator.mk g d).generateExpression (e.masked _)).1.mapError EmitError.kind :=
          generateExpression_revise hfaithful e d d
      _ = ((Generator.mk g d).generateExpression (e'.masked _)).1.mapError EmitError.kind := by rw [h]
      _ = ((Generator.mk g d').generateExpression e').1.mapError EmitError.kind :=
          (generateExpression_revise hfaithful e' d' d).symm
  · calc ((Generator.mk g d).generateStatements statements).1.mapError EmitError.kind
        = ((Generator.mk g d).generateStatements (maskedStatements _ statements)).1.mapError
            EmitError.kind := generateStatements_revise hfaithful statements d d
      _ = ((Generator.mk g d).generateStatements (maskedStatements _ statements')).1.mapError
            EmitError.kind := by rw [h]
      _ = ((Generator.mk g d').generateStatements statements').1.mapError EmitError.kind :=
          (generateStatements_revise hfaithful statements' d' d).symm
  · exact hasked (asksUnknown_of_generateExpression h)
  · exact hasked (asksUnknown_of_generateStatements h)

/-- In `local x = {}; f(x)` neither the type of `x` shows nor the type arguments, size and contents of the
array nor the name of the argument, although their symbols are unknown. Nor does the type of a cast; what
is refused is the unknown name under it. -/
theorem unexpressed_array_and_call :
    ((Generator.mk ⟨⟨["T", "x", "f"]⟩, {}⟩ Draft.empty).generateStatements
        [.declaration ⟨⟨1⟩, none, some (.allocate (.named ⟨0⟩) none [] []), false⟩,
          .expression (.call none (.named ⟨2⟩) [.positional (.identifier ⟨1⟩)] false)]).1.mapError
            EmitError.kind =
      ((Generator.mk ⟨⟨["T", "x", "f"]⟩, {}⟩ Draft.empty).generateStatements
        [.declaration ⟨⟨1⟩, some (.named ⟨9⟩), some (.allocate ⟨⟨0⟩, [.named ⟨8⟩], true⟩ (some ⟨7⟩)
            [.identifier ⟨6⟩] [.named .nil ⟨5⟩]), false⟩,
          .expression (.call none ⟨⟨2⟩, true, true⟩ [.named (.identifier ⟨1⟩) ⟨9⟩] true)]).1.mapError
            EmitError.kind ∧
    ((Generator.mk ⟨⟨["T", "x", "f"]⟩, {}⟩ Draft.empty).generateExpression
        (.cast (.atom (.localVariable ⟨⟨1⟩, true, true⟩)) (.named ⟨9⟩) true true)).1.mapError
          EmitError.kind =
      ((Generator.mk ⟨⟨["T", "x", "f"]⟩, {}⟩ Draft.empty).generateExpression
        (.cast (.atom (.localVariable (.named ⟨1⟩))) (.named ⟨0⟩) false false)).1.mapError
          EmitError.kind ∧
    (NameTable.mk ["T", "x", "f"]).resolve ⟨8⟩ = none ∧
    (NameTable.mk ["T", "x", "f"]).resolve ⟨7⟩ = none :=
  have h := answers_alike_of_masked_eq ⟨⟨["T", "x", "f"]⟩, {}⟩
  ⟨h.2.1 _ _ _ _ rfl, h.1 _ _ _ _ rfl,
    (h.2.2.1 (.cast (.identifier ⟨8⟩) (.named ⟨9⟩) true false) Draft.empty ⟨8⟩ rfl).1,
    (h.2.2.2 [.result (some (.cast (.identifier ⟨7⟩) (.named ⟨9⟩) true false))] Draft.empty ⟨7⟩ rfl).1⟩

end Lua

end CodeTree
