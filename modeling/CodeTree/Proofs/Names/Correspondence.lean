import CodeTree.Proofs.Names.Renaming
import Mathlib.Data.List.Forall2

/-! # Trees of one shape

Two trees correspond if they have one shape and related symbols in the same places. Everything else is
the same in both, except that a shared node may stand for a copy of it. Trees that correspond become
the same when related symbols are renamed to the same ones.

* `Expr.Corresponds`, `Statement.Corresponds`: the relation, one rule for each kind of node.
* `Revision.merging`: renaming all symbols, without sharing.
* `Expr.Corresponds.revise_eq`, `reviseStatements_eq_of_correspond`: corresponding trees become one. -/

namespace CodeTree

set_option autoImplicit false

/-! ## The relation -/

section Relation

variable (R : Symbol → Symbol → Prop)

inductive TypeReference.Corresponds : TypeReference → TypeReference → Prop
  | intro {name name' : Symbol} {arguments arguments' : List TypeReference} (nullable : Bool)
      (hname : R name name') (harguments : List.Forall₂ Corresponds arguments arguments') :
      Corresponds ⟨name, arguments, nullable⟩ ⟨name', arguments', nullable⟩

inductive Atom.Corresponds : Atom → Atom → Prop
  | nil : Corresponds .nil .nil
  | selfReference : Corresponds .selfReference .selfReference
  | propertyValue : Corresponds .propertyValue .propertyValue
  | inherited : Corresponds .inherited .inherited
  | literal (value : Literal) : Corresponds (.literal value) (.literal value)
  | raw (code : RawCode) : Corresponds (.raw code) (.raw code)
  | identifier {name name' : Symbol} (hname : R name name') :
      Corresponds (.identifier name) (.identifier name')
  | localVariable {name name' : Symbol} (nilSafe unwrap : Bool) (hname : R name name') :
      Corresponds (.localVariable ⟨name, nilSafe, unwrap⟩) (.localVariable ⟨name', nilSafe, unwrap⟩)
  | typeReference {type type' : TypeReference} (htype : type.Corresponds R type') :
      Corresponds (.typeReference type) (.typeReference type')
  | enumValue {type type' : TypeReference} {value value' : Symbol} (htype : type.Corresponds R type')
      (hvalue : R value value') : Corresponds (.enumValue ⟨type, value⟩) (.enumValue ⟨type', value'⟩)
  | selector {name name' : Symbol} (hname : R name name') :
      Corresponds (.selector name) (.selector name')
  | default {type type' : TypeReference} (htype : type.Corresponds R type') :
      Corresponds (.default type) (.default type')

inductive Selection.Corresponds : Selection → Selection → Prop
  | intro {name name' : Symbol} (nilSafe unwrap : Bool) (hname : R name name') :
      Corresponds ⟨name, nilSafe, unwrap⟩ ⟨name', nilSafe, unwrap⟩

mutual

/-- Two expressions have one shape and related symbols in the same places. -/
inductive Expr.Corresponds : Expr → Expr → Prop
  | shared (s : Sentinel) : Expr.Corresponds (.shared s) (.shared s)
  | copy (s : Sentinel) : Expr.Corresponds (.shared s) (.atom s.atom)
  | copied (s : Sentinel) : Expr.Corresponds (.atom s.atom) (.shared s)
  | atom {a a' : Atom} (ha : a.Corresponds R a') : Expr.Corresponds (.atom a) (.atom a')
  | array {elements elements' : List Expr} (kind : ArrayKind)
      (helements : List.Forall₂ Expr.Corresponds elements elements') :
      Expr.Corresponds (.array elements kind) (.array elements' kind)
  | dictionary {entries entries' : List (Expr × Expr)}
      (hentries : List.Forall₂ EntryCorresponds entries entries') :
      Expr.Corresponds (.dictionary entries) (.dictionary entries')
  | tuple {elements elements' : List Expr}
      (helements : List.Forall₂ Expr.Corresponds elements elements') :
      Expr.Corresponds (.tuple elements) (.tuple elements')
  | unary {operand operand' : Expr} (operator : Operator UnaryKind)
      (hoperand : operand.Corresponds operand') :
      Expr.Corresponds (.unary operator operand) (.unary operator operand')
  | binary {left left' right right' : Expr} (operator : Operator BinaryKind)
      (hleft : left.Corresponds left') (hright : right.Corresponds right') :
      Expr.Corresponds (.binary operator left right) (.binary operator left' right')
  | field {site site' : Option Expr} {selection selection' : Selection}
      (hsite : Option.Rel Expr.Corresponds site site')
      (hselection : selection.Corresponds R selection') :
      Expr.Corresponds (.field site selection) (.field site' selection')
  | call {site site' : Option Expr} {selection selection' : Selection}
      {arguments arguments' : List Argument} (optional : Bool)
      (hsite : Option.Rel Expr.Corresponds site site')
      (hselection : selection.Corresponds R selection')
      (harguments : List.Forall₂ Argument.Corresponds arguments arguments') :
      Expr.Corresponds (.call site selection arguments optional)
        (.call site' selection' arguments' optional)
  | property {site site' : Option Expr} {selection selection' : Selection}
      {indices indices' : List Argument} (hsite : Option.Rel Expr.Corresponds site site')
      (hselection : selection.Corresponds R selection')
      (hindices : List.Forall₂ Argument.Corresponds indices indices') :
      Expr.Corresponds (.property site selection indices) (.property site' selection' indices')
  | construct {type type' : TypeReference} {constructor constructor' : Option Symbol}
      {arguments arguments' initializers initializers' : List Argument}
      (htype : type.Corresponds R type') (hconstructor : Option.Rel R constructor constructor')
      (harguments : List.Forall₂ Argument.Corresponds arguments arguments')
      (hinitializers : List.Forall₂ Argument.Corresponds initializers initializers') :
      Expr.Corresponds (.construct type constructor arguments initializers)
        (.construct type' constructor' arguments' initializers')
  | allocate {type type' : TypeReference} {constructor constructor' : Option Symbol}
      {bounds bounds' : List Expr} {initializers initializers' : List Argument}
      (htype : type.Corresponds R type') (hconstructor : Option.Rel R constructor constructor')
      (hbounds : List.Forall₂ Expr.Corresponds bounds bounds')
      (hinitializers : List.Forall₂ Argument.Corresponds initializers initializers') :
      Expr.Corresponds (.allocate type constructor bounds initializers)
        (.allocate type' constructor' bounds' initializers')
  | element {array array' : Expr} {indices indices' : List Expr} (harray : array.Corresponds array')
      (hindices : List.Forall₂ Expr.Corresponds indices indices') :
      Expr.Corresponds (.element array indices) (.element array' indices')
  | wrapped {inner inner' : Expr} (wrapper : Wrapper) (hinner : inner.Corresponds inner') :
      Expr.Corresponds (.wrapped wrapper inner) (.wrapped wrapper inner')
  | conditional {condition condition' consequence consequence' : Expr}
      {alternative alternative' : Option Expr} (hcondition : condition.Corresponds condition')
      (hconsequence : consequence.Corresponds consequence')
      (halternative : Option.Rel Expr.Corresponds alternative alternative') :
      Expr.Corresponds (.conditional condition consequence alternative)
        (.conditional condition' consequence' alternative')
  | cast {value value' : Expr} {type type' : TypeReference} (throwing guaranteedSafe : Bool)
      (hvalue : value.Corresponds value') (htype : type.Corresponds R type') :
      Expr.Corresponds (.cast value type throwing guaranteedSafe)
        (.cast value' type' throwing guaranteedSafe)
  | assigned {value value' : Expr} (inverted : Bool) (hvalue : value.Corresponds value') :
      Expr.Corresponds (.assigned value inverted) (.assigned value' inverted)
  | method {parameters parameters' : List Parameter} {returns returns' : Option TypeReference}
      {body body' : List Statement} {locals locals' : Option (List Declaration)} (lambda : Bool)
      (hparameters : List.Forall₂ Parameter.Corresponds parameters parameters')
      (hreturns : Option.Rel (TypeReference.Corresponds R) returns returns')
      (hbody : List.Forall₂ Statement.Corresponds body body')
      (hlocals : Option.Rel (List.Forall₂ Declaration.Corresponds) locals locals') :
      Expr.Corresponds (.method lambda parameters returns body locals)
        (.method lambda parameters' returns' body' locals')
  | anonymousType {members members' : List Member} (kind : AggregateKind)
      (hmembers : List.Forall₂ Member.Corresponds members members') :
      Expr.Corresponds (.anonymousType kind members) (.anonymousType kind members')

/-- A key and its value in a dictionary. -/
inductive EntryCorresponds : Expr × Expr → Expr × Expr → Prop
  | intro {key key' value value' : Expr} (hkey : key.Corresponds key')
      (hvalue : value.Corresponds value') : EntryCorresponds (key, value) (key', value')

inductive Argument.Corresponds : Argument → Argument → Prop
  | intro {name name' : Option Symbol} {value value' : Expr} (passing : Passing)
      (hname : Option.Rel R name name') (hvalue : value.Corresponds value') :
      Argument.Corresponds ⟨name, value, passing⟩ ⟨name', value', passing⟩

inductive Parameter.Corresponds : Parameter → Parameter → Prop
  | intro {name name' : Symbol} {type type' : Option TypeReference} {value value' : Option Expr}
      (passing : Passing) (hname : R name name')
      (htype : Option.Rel (TypeReference.Corresponds R) type type')
      (hvalue : Option.Rel Expr.Corresponds value value') :
      Parameter.Corresponds ⟨name, type, passing, value⟩ ⟨name', type', passing, value'⟩

inductive Declaration.Corresponds : Declaration → Declaration → Prop
  | intro {name name' : Symbol} {type type' : Option TypeReference} {value value' : Option Expr}
      (constant : Bool) (hname : R name name')
      (htype : Option.Rel (TypeReference.Corresponds R) type type')
      (hvalue : Option.Rel Expr.Corresponds value value') :
      Declaration.Corresponds ⟨name, type, value, constant⟩ ⟨name', type', value', constant⟩

inductive Member.Corresponds : Member → Member → Prop
  | field {declared declared' : Declaration} (hdeclared : declared.Corresponds declared') :
      Member.Corresponds (.field declared) (.field declared')
  | method {name name' : Symbol} {parameters parameters' : List Parameter}
      {returns returns' : Option TypeReference} {body body' : List Statement} (hname : R name name')
      (hparameters : List.Forall₂ Parameter.Corresponds parameters parameters')
      (hreturns : Option.Rel (TypeReference.Corresponds R) returns returns')
      (hbody : List.Forall₂ Statement.Corresponds body body') :
      Member.Corresponds (.method name parameters returns body)
        (.method name' parameters' returns' body')

inductive Statement.Corresponds : Statement → Statement → Prop
  | expression {value value' : Expr} (hvalue : value.Corresponds value') :
      Statement.Corresponds (.expression value) (.expression value')
  | declaration {declared declared' : Declaration} (hdeclared : declared.Corresponds declared') :
      Statement.Corresponds (.declaration declared) (.declaration declared')
  | assignment {target target' value value' : Expr} (htarget : target.Corresponds target')
      (hvalue : value.Corresponds value') :
      Statement.Corresponds (.assignment target value) (.assignment target' value')
  | result {value value' : Option Expr} (hvalue : Option.Rel Expr.Corresponds value value') :
      Statement.Corresponds (.result value) (.result value')
  | block {body body' : List Statement} (hbody : List.Forall₂ Statement.Corresponds body body') :
      Statement.Corresponds (.block body) (.block body')

end

end Relation

/-! ## Renaming to the same symbols -/

/-- Puts another symbol in the place of each one and a copy in the place of each shared node. -/
def Revision.merging (ρ : Symbol → Symbol) : Revision :=
  { Revision.renaming ρ with shared := fun s => .atom s.atom }

theorem Lua.faithful_merging {g : Lua.Setting} {names : NameTable} {ρ : Symbol → Symbol}
    (h : ∀ s, g.names.resolve s = names.resolve (ρ s)) : Lua.Faithful (.merging ρ) g names :=
  { Lua.faithful_renaming h with shared := fun _ => rfl }

section Fields

variable (ρ : Symbol → Symbol)

theorem merging_name (s : Symbol) : (Revision.merging ρ).name s = ρ s := rfl

theorem merging_declaredType (type : Option TypeReference) :
    (Revision.merging ρ).declaredType type = type.map (TypeReference.rename ρ) := rfl

theorem merging_selection (hasSite : Bool) (selection : Selection) :
    (Revision.merging ρ).selection hasSite selection = selection.rename ρ := rfl

theorem merging_optional (hasSite optional : Bool) :
    (Revision.merging ρ).optional hasSite optional = optional := rfl

theorem merging_constant (constant : Bool) : (Revision.merging ρ).constant constant = constant := rfl

theorem merging_argumentName : (Revision.merging ρ).argumentName = Option.map ρ := rfl

theorem merging_initializerName : (Revision.merging ρ).initializerName = Option.map ρ := rfl

theorem merging_createdType (type : TypeReference) :
    (Revision.merging ρ).createdType type = type.rename ρ := rfl

theorem merging_constructorName (name : Option Symbol) :
    (Revision.merging ρ).constructorName name = name.map ρ := rfl

theorem merging_keepsAllocation : (Revision.merging ρ).keepsAllocation = true := rfl

theorem merging_returns (type : Option TypeReference) :
    (Revision.merging ρ).returns type = type.map (TypeReference.rename ρ) := rfl

end Fields

theorem Sentinel.atom_rename (s : Sentinel) (ρ : Symbol → Symbol) : s.atom.rename ρ = s.atom := by
  cases s <;> rfl

section Merging

variable {R : Symbol → Symbol → Prop} {ρ ρ' : Symbol → Symbol}

theorem map_eq_of_rel {α β : Type} {Q : α → α → Prop} {f f' : α → β} {a a' : Option α}
    (h : ∀ a a', Q a a' → f a = f' a') (hrel : Option.Rel Q a a') : a.map f = a'.map f' := by
  cases hrel with
  | none => rfl
  | some ha => exact congrArg some (h _ _ ha)

mutual

theorem TypeReference.Corresponds.rename_eq (h : ∀ s s', R s s' → ρ s = ρ' s') :
    ∀ {type type' : TypeReference}, type.Corresponds R type' → type.rename ρ = type'.rename ρ'
  | _, _, .intro nullable hname harguments => by
    rw [TypeReference.rename, TypeReference.rename, h _ _ hname,
      renameTypes_eq_of_correspond h harguments]

theorem renameTypes_eq_of_correspond (h : ∀ s s', R s s' → ρ s = ρ' s') :
    ∀ {types types' : List TypeReference},
      List.Forall₂ (TypeReference.Corresponds R) types types' →
        renameTypes ρ types = renameTypes ρ' types'
  | _, _, .nil => rfl
  | _, _, .cons htype htypes =>
    congrArg₂ List.cons (htype.rename_eq h) (renameTypes_eq_of_correspond h htypes)

end

theorem Atom.Corresponds.rename_eq (h : ∀ s s', R s s' → ρ s = ρ' s') {a a' : Atom}
    (ha : a.Corresponds R a') : a.rename ρ = a'.rename ρ' := by
  cases ha with
  | identifier hname => exact congrArg Atom.identifier (h _ _ hname)
  | localVariable nilSafe unwrap hname =>
    exact congrArg (fun name => Atom.localVariable ⟨name, nilSafe, unwrap⟩) (h _ _ hname)
  | typeReference htype => exact congrArg Atom.typeReference (htype.rename_eq h)
  | enumValue htype hvalue => simp only [Atom.rename, htype.rename_eq h, h _ _ hvalue]
  | selector hname => exact congrArg Atom.selector (h _ _ hname)
  | default htype => exact congrArg Atom.default (htype.rename_eq h)
  | _ => rfl

theorem Selection.Corresponds.rename_eq (h : ∀ s s', R s s' → ρ s = ρ' s')
    {selection selection' : Selection} (hselection : selection.Corresponds R selection') :
    selection.rename ρ = selection'.rename ρ' := by
  obtain ⟨nilSafe, unwrap, hname⟩ := hselection
  exact congrArg (Selection.mk · nilSafe unwrap) (h _ _ hname)

theorem map_rename_eq_of_rel (h : ∀ s s', R s s' → ρ s = ρ' s') {type type' : Option TypeReference}
    (htype : Option.Rel (TypeReference.Corresponds R) type type') :
    type.map (TypeReference.rename ρ) = type'.map (TypeReference.rename ρ') :=
  map_eq_of_rel (fun _ _ htype => htype.rename_eq h) htype

-- The rules are nested in lists of parts, so the recursion is on the first of the two trees.
mutual

/-- Corresponding trees become one tree. -/
theorem Expr.Corresponds.revise_eq (h : ∀ s s', R s s' → ρ s = ρ' s') :
    ∀ {e e' : Expr}, e.Corresponds R e' → e.revise (.merging ρ) = e'.revise (.merging ρ')
  | _, _, .shared _ => rfl
  | _, _, .copy s => congrArg Expr.atom (s.atom_rename ρ').symm
  | _, _, .copied s => congrArg Expr.atom (s.atom_rename ρ)
  | _, _, .atom ha => congrArg Expr.atom (ha.rename_eq h)
  | _, _, .array kind helements =>
    congrArg (Expr.array · kind) (reviseExprs_eq_of_correspond h helements)
  | _, _, .dictionary hentries =>
    congrArg Expr.dictionary (reviseEntries_eq_of_correspond h hentries)
  | _, _, .tuple helements => congrArg Expr.tuple (reviseExprs_eq_of_correspond h helements)
  | _, _, .unary operator hoperand => congrArg (Expr.unary operator) (hoperand.revise_eq h)
  | _, _, .binary operator hleft hright =>
    congrArg₂ (Expr.binary operator) (hleft.revise_eq h) (hright.revise_eq h)
  | _, _, .field hsite hselection =>
    congrArg₂ Expr.field (reviseExpr?_eq_of_correspond h hsite) (hselection.rename_eq h)
  | _, _, .call optional hsite hselection harguments => by
    simp only [Expr.revise, merging_selection, merging_argumentName, merging_optional,
      reviseExpr?_eq_of_correspond h hsite, hselection.rename_eq h,
      reviseArguments_eq_of_correspond h harguments]
  | _, _, .property hsite hselection hindices => by
    simp only [Expr.revise, merging_selection, merging_argumentName,
      reviseExpr?_eq_of_correspond h hsite, hselection.rename_eq h,
      reviseArguments_eq_of_correspond h hindices]
  | _, _, .construct htype hconstructor harguments hinitializers => by
    simp only [Expr.revise, merging_createdType, merging_constructorName, merging_argumentName,
      merging_initializerName, htype.rename_eq h, map_eq_of_rel h hconstructor,
      reviseArguments_eq_of_correspond h harguments, reviseArguments_eq_of_correspond h hinitializers]
  | _, _, .allocate htype hconstructor hbounds hinitializers => by
    simp only [Expr.revise, merging_keepsAllocation, merging_createdType, merging_constructorName,
      merging_initializerName, htype.rename_eq h, map_eq_of_rel h hconstructor,
      reviseExprs_eq_of_correspond h hbounds, reviseArguments_eq_of_correspond h hinitializers]
  | _, _, .element harray hindices =>
    congrArg₂ Expr.element (harray.revise_eq h) (reviseExprs_eq_of_correspond h hindices)
  | _, _, .wrapped wrapper hinner => congrArg (Expr.wrapped wrapper) (hinner.revise_eq h)
  | _, _, .conditional hcondition hconsequence halternative => by
    rw [Expr.revise, Expr.revise, hcondition.revise_eq h, hconsequence.revise_eq h,
      reviseExpr?_eq_of_correspond h halternative]
  | _, _, .cast throwing guaranteedSafe hvalue htype =>
    congrArg₂ (Expr.cast · · throwing guaranteedSafe) (hvalue.revise_eq h) (htype.rename_eq h)
  | _, _, .assigned inverted hvalue => congrArg (Expr.assigned · inverted) (hvalue.revise_eq h)
  | _, _, .method lambda hparameters hreturns hbody hlocals => by
    rw [Expr.revise, Expr.revise, merging_returns, merging_returns,
      reviseParameters_eq_of_correspond h hparameters, map_rename_eq_of_rel h hreturns,
      reviseStatements_eq_of_correspond h hbody, reviseLocals?_eq_of_correspond h hlocals]
    rfl
  | _, _, .anonymousType kind hmembers =>
    congrArg (Expr.anonymousType kind) (reviseMembers_eq_of_correspond h hmembers)
termination_by structural tree => tree

theorem reviseExpr?_eq_of_correspond (h : ∀ s s', R s s' → ρ s = ρ' s') :
    ∀ {part part' : Option Expr}, Option.Rel (Expr.Corresponds R) part part' →
      reviseExpr? (.merging ρ) part = reviseExpr? (.merging ρ') part'
  | _, _, .none => rfl
  | _, _, .some he => congrArg some (he.revise_eq h)
termination_by structural tree => tree

theorem reviseExprs_eq_of_correspond (h : ∀ s s', R s s' → ρ s = ρ' s') :
    ∀ {es es' : List Expr}, List.Forall₂ (Expr.Corresponds R) es es' →
      reviseExprs (.merging ρ) es = reviseExprs (.merging ρ') es'
  | _, _, .nil => rfl
  | _, _, .cons he hes => congrArg₂ List.cons (he.revise_eq h) (reviseExprs_eq_of_correspond h hes)
termination_by structural tree => tree

theorem reviseEntries_eq_of_correspond (h : ∀ s s', R s s' → ρ s = ρ' s') :
    ∀ {entries entries' : List (Expr × Expr)}, List.Forall₂ (EntryCorresponds R) entries entries' →
      reviseEntries (.merging ρ) entries = reviseEntries (.merging ρ') entries'
  | _, _, .nil => rfl
  | _, _, .cons (.intro hkey hvalue) hentries => by
    rw [reviseEntries, reviseEntries, hkey.revise_eq h, hvalue.revise_eq h,
      reviseEntries_eq_of_correspond h hentries]
termination_by structural tree => tree

theorem reviseArguments_eq_of_correspond (h : ∀ s s', R s s' → ρ s = ρ' s') :
    ∀ {arguments arguments' : List Argument},
      List.Forall₂ (Argument.Corresponds R) arguments arguments' →
        reviseArguments (.merging ρ) (Option.map ρ) arguments =
          reviseArguments (.merging ρ') (Option.map ρ') arguments'
  | _, _, .nil => rfl
  | _, _, .cons (.intro passing hname hvalue) harguments => by
    rw [reviseArguments, reviseArguments, map_eq_of_rel h hname, hvalue.revise_eq h,
      reviseArguments_eq_of_correspond h harguments]
termination_by structural tree => tree

theorem reviseParameters_eq_of_correspond (h : ∀ s s', R s s' → ρ s = ρ' s') :
    ∀ {parameters parameters' : List Parameter},
      List.Forall₂ (Parameter.Corresponds R) parameters parameters' →
        reviseParameters (.merging ρ) parameters = reviseParameters (.merging ρ') parameters'
  | _, _, .nil => rfl
  | _, _, .cons (.intro passing hname htype hvalue) hparameters => by
    simp only [reviseParameters, merging_name, merging_declaredType, h _ _ hname,
      map_rename_eq_of_rel h htype, reviseExpr?_eq_of_correspond h hvalue,
      reviseParameters_eq_of_correspond h hparameters]
termination_by structural tree => tree

theorem Declaration.Corresponds.revise_eq (h : ∀ s s', R s s' → ρ s = ρ' s') :
    ∀ {declared declared' : Declaration}, declared.Corresponds R declared' →
      declared.revise (.merging ρ) = declared'.revise (.merging ρ')
  | _, _, .intro constant hname htype hvalue => by
    simp only [Declaration.revise, merging_name, merging_declaredType, merging_constant, h _ _ hname,
      map_rename_eq_of_rel h htype, reviseExpr?_eq_of_correspond h hvalue]
termination_by structural tree => tree

theorem reviseLocals_eq_of_correspond (h : ∀ s s', R s s' → ρ s = ρ' s') :
    ∀ {locals locals' : List Declaration}, List.Forall₂ (Declaration.Corresponds R) locals locals' →
      reviseLocals (.merging ρ) locals = reviseLocals (.merging ρ') locals'
  | _, _, .nil => rfl
  | _, _, .cons hdeclared hlocals =>
    congrArg₂ List.cons (hdeclared.revise_eq h) (reviseLocals_eq_of_correspond h hlocals)
termination_by structural tree => tree

theorem reviseLocals?_eq_of_correspond (h : ∀ s s', R s s' → ρ s = ρ' s') :
    ∀ {locals locals' : Option (List Declaration)},
      Option.Rel (List.Forall₂ (Declaration.Corresponds R)) locals locals' →
        reviseLocals? (.merging ρ) locals = reviseLocals? (.merging ρ') locals'
  | _, _, .none => rfl
  | _, _, .some hlocals => congrArg some (reviseLocals_eq_of_correspond h hlocals)
termination_by structural tree => tree

theorem Member.Corresponds.revise_eq (h : ∀ s s', R s s' → ρ s = ρ' s') :
    ∀ {m m' : Member}, m.Corresponds R m' → m.revise (.merging ρ) = m'.revise (.merging ρ')
  | _, _, .field hdeclared => congrArg Member.field (hdeclared.revise_eq h)
  | _, _, .method hname hparameters hreturns hbody => by
    simp only [Member.revise, merging_name, merging_returns, h _ _ hname,
      reviseParameters_eq_of_correspond h hparameters, map_rename_eq_of_rel h hreturns,
      reviseStatements_eq_of_correspond h hbody]
termination_by structural tree => tree

theorem reviseMembers_eq_of_correspond (h : ∀ s s', R s s' → ρ s = ρ' s') :
    ∀ {members members' : List Member}, List.Forall₂ (Member.Corresponds R) members members' →
      reviseMembers (.merging ρ) members = reviseMembers (.merging ρ') members'
  | _, _, .nil => rfl
  | _, _, .cons hm hmembers =>
    congrArg₂ List.cons (hm.revise_eq h) (reviseMembers_eq_of_correspond h hmembers)
termination_by structural tree => tree

theorem Statement.Corresponds.revise_eq (h : ∀ s s', R s s' → ρ s = ρ' s') :
    ∀ {s s' : Statement}, s.Corresponds R s' → s.revise (.merging ρ) = s'.revise (.merging ρ')
  | _, _, .expression hvalue => congrArg Statement.expression (hvalue.revise_eq h)
  | _, _, .declaration hdeclared => congrArg Statement.declaration (hdeclared.revise_eq h)
  | _, _, .assignment htarget hvalue =>
    congrArg₂ Statement.assignment (htarget.revise_eq h) (hvalue.revise_eq h)
  | _, _, .result hvalue => congrArg Statement.result (reviseExpr?_eq_of_correspond h hvalue)
  | _, _, .block hbody => congrArg Statement.block (reviseStatements_eq_of_correspond h hbody)
termination_by structural tree => tree

/-- Corresponding statements become one list of statements. -/
theorem reviseStatements_eq_of_correspond (h : ∀ s s', R s s' → ρ s = ρ' s') :
    ∀ {statements statements' : List Statement},
      List.Forall₂ (Statement.Corresponds R) statements statements' →
        reviseStatements (.merging ρ) statements = reviseStatements (.merging ρ') statements'
  | _, _, .nil => rfl
  | _, _, .cons hs hstatements =>
    congrArg₂ List.cons (hs.revise_eq h) (reviseStatements_eq_of_correspond h hstatements)
termination_by structural tree => tree

end

end Merging

end CodeTree
