import CodeTree.Proofs.Equality.Twins
import CodeTree.Proofs.Variants.Replacement

/-! # The texts of equal trees

Equality takes positive and negative zero for the same number, and they are written differently. That is
all: equal trees are written as twins, so their texts are the same but for the signs of zeros, and what is
refused of one is refused of the other for a reason of the same kind. The same holds of two trees if one
comes from the other when a node in it is replaced by an equal one. With a NaN somewhere else such trees are
not equal, so the induction is on trees that are the same with owned nodes and positive zeros.

* `writesTwins_emitExpr`, `writesTwins_emitStatements`: writing such trees.
* `AnswersAlike`: the same text but for the signs of zeros, or refusals of one kind.
* `generateExpression_of_equal`: the answers for equal expressions and for replaced nodes.
* `generateExpression_negativeZero`: equal expressions with different texts. -/

namespace CodeTree.Lua

set_option autoImplicit false

variable {g : Setting}

/-! ## Atoms -/

theorem writesTwins_emitAtom {a b : Atom} (h : a.unsigned = b.unsigned) :
    WritesTwins [.expression (.atom a)] [.expression (.atom b)] (emitAtom g a) (emitAtom g b) := by
  have hfloats {x y : Binary64} (hxy : x.unsigned = y.unsigned) :
      WritesTwins [.expression (.atom (.literal (.float x)))] [.expression (.atom (.literal (.float y)))]
        (emitAtom g (.literal (.float x))) (emitAtom g (.literal (.float y))) := fun n =>
    .inl ⟨_, _, false, adds_write (floatText x) n, adds_write (floatText y) n, twins_floatText hxy⟩
  rcases Atom.eq_or_floats_of_unsigned_eq h with rfl | ⟨x, y, rfl, rfl, hxy⟩
  · cases a with
    | literal l =>
      cases l with
      | float x => exact hfloats rfl
      | _ => exact (WritesTwins.refl _).below rfl rfl
    | _ => exact (WritesTwins.refl _).below rfl rfl
  · exact hfloats hxy

/-- Of two such expressions both are references to types or none is, and both stand alone or none does. -/
theorem forms_of_unsigned_eq (g : Setting) {a b : Expr} (h : a.unsigned = b.unsigned) :
    isTypeReference a = isTypeReference b ∧ standsAlone g a = standsAlone g b := by
  have hatoms {c d : Atom} (h : c.unsigned = d.unsigned) :
      isTypeReference (.atom c) = isTypeReference (.atom d) ∧
        standsAlone g (.atom c) = standsAlone g (.atom d) := by
    rcases Atom.eq_or_floats_of_unsigned_eq h with rfl | ⟨x, y, rfl, rfl, -⟩ <;> exact ⟨rfl, rfl⟩
  cases a with
  | shared s =>
    cases b with
    | shared | atom => exact hatoms (Expr.atom.inj h)
    | _ => cases h
  | atom c =>
    cases b with
    | shared | atom => exact hatoms (Expr.atom.inj h)
    | _ => cases h
  | _ => cases b <;> first | exact ⟨rfl, rfl⟩ | cases h

/-- Of parameters only names and ways of passing are written. -/
theorem emitParameterNames_of_revise_eq : ∀ (isFirst : Bool) {ps ps' : List Parameter},
    reviseParameters .unsigned ps = reviseParameters .unsigned ps' →
      emitParameterNames g isFirst ps = emitParameterNames g isFirst ps'
  | _, [], [], _ => rfl
  | _, [], ⟨_, _, _, _⟩ :: _, h => nomatch h
  | isFirst, ⟨name, type, passing, value⟩ :: ps, ⟨name', type', passing', value'⟩ :: ps', h => by
    obtain ⟨hparameter, hrest⟩ := List.cons.inj h
    obtain ⟨hname, -, rfl, -⟩ := Parameter.mk.inj hparameter
    obtain rfl : name = name' := hname
    rw [emitParameterNames, emitParameterNames, emitParameterNames_of_revise_eq false hrest]

/-! ## Trees -/

mutual

/-- Expressions that differ in shared nodes and the signs of zeros are written as twins. -/
theorem writesTwins_emitExpr : ∀ {a b : Expr}, a.revise .unsigned = b.revise .unsigned →
    WritesTwins a.rendered b.rendered (emitExpr g a) (emitExpr g b)
  | .shared s, b, h => by
    cases b with
    | shared | atom => exact writesTwins_emitAtom (Expr.atom.inj h)
    | _ => cases h
  | .atom a, b, h => by
    cases b with
    | shared | atom => exact writesTwins_emitAtom (Expr.atom.inj h)
    | _ => cases h
  | .array elements kind, b, h => by
    cases b with
    | array elements' kind' =>
      obtain ⟨helements, -⟩ := Expr.array.inj h
      exact (writesTwins_emitBetween _ _ (writesTwins_emitExprs true helements)).below rfl rfl
    | _ => cases h
  | .dictionary entries, b, h => by
    cases b with
    | dictionary entries' =>
      have hentries := Expr.dictionary.inj h
      exact (writesTwins_emitBetween _ _ (writesTwins_emitEntries true hentries)).below rfl rfl
    | _ => cases h
  | .tuple elements, b, h => by
    cases b with
    | tuple elements' =>
      have helements := Expr.tuple.inj h
      exact (writesTwins_emitBetween _ _ (writesTwins_emitExprs true helements)).below rfl rfl
    | _ => cases h
  | .unary operator operand, b, h => by
    cases b with
    | unary operator' operand' =>
      obtain ⟨rfl, hoperand⟩ := Expr.unary.inj h
      exact (writesTwins_emitUnary operator (writesTwins_emitExpr hoperand)).below rfl rfl
    | _ => cases h
  | .binary operator left right, b, h => by
    cases b with
    | binary operator' left' right' =>
      obtain ⟨rfl, hleft, hright⟩ := Expr.binary.inj h
      exact (writesTwins_emitBinary (writesTwins_emitExpr hleft)
        (writesTwins_emitExpr hright)).below rfl rfl
    | _ => cases h
  | .field site selection, b, h => by
    cases b with
    | field site' selection' =>
      obtain ⟨hsite, hselection⟩ := Expr.field.inj h
      obtain rfl : selection = selection' := hselection
      have hcall : WritesTwins [] [] (emitCall none) (emitCall none) := .refl (pure ())
      have haccess := writesTwins_emitMember_site hsite selection false hcall rfl
      simp only [List.append_nil, List.nil_append, ite_self] at haccess
      exact haccess.below rfl rfl
    | _ => cases h
  | .call site selection arguments optional, b, h => by
    cases b with
    | call site' selection' arguments' optional' =>
      obtain ⟨hsite, hselection, harguments, hoptional⟩ := Expr.call.inj h
      obtain rfl : selection = selection' := hselection
      obtain rfl : optional = optional' := hoptional
      have hcall : WritesTwins _ _ (emitCall (some (emitArguments g true arguments)))
          (emitCall (some (emitArguments g true arguments'))) :=
        writesTwins_emitBetween "(" ")" (writesTwins_emitArguments true harguments)
      exact (writesTwins_emitMember_site hsite selection optional hcall rfl).below rfl rfl
    | _ => cases h
  | .property site selection indices, b, h => by
    cases b with
    | property site' selection' indices' =>
      obtain ⟨hsite, hselection, hindices⟩ := Expr.property.inj h
      obtain rfl : selection = selection' := hselection
      have hcall : WritesTwins [] [] (emitCall none) (emitCall none) := .refl (pure ())
      have haccess := writesTwins_emitMember_site hsite selection false hcall rfl
      simp only [List.append_nil, List.nil_append, ite_self] at haccess
      exact (haccess.bind fun _ => writesTwins_emitPropertyIndices hindices).below rfl rfl
    | _ => cases h
  | .construct type constructor arguments initializers, b, h => by
    cases b with
    | construct type' constructor' arguments' initializers' =>
      obtain ⟨htype, hconstructor, harguments, hinitializers⟩ := Expr.construct.inj h
      obtain rfl : type = type' := htype
      obtain rfl : constructor = constructor' := hconstructor
      rw [emitExpr, emitExpr]
      refine (WritesTwins.after fun typeName => ?_).below rfl rfl
      have hcreation (name : String) := writesTwins_emitBetween (typeName ++ "." ++ name ++ "(") ")"
        (writesTwins_emitArguments true harguments)
      match initializers, initializers', hinitializers with
      | [], [], _ =>
        simp only [renderedArguments, List.append_nil]
        cases constructor <;> exact .after hcreation
      | [], ⟨_, _, _⟩ :: _, h => cases h
      | ⟨_, _, _⟩ :: _, ⟨_, _, _⟩ :: _, hinitializers =>
        have hproperties := writesTwins_emitInitializers hinitializers
        cases constructor <;> exact .after fun name => .after fun _ =>
          (hcreation name).bind fun _ => hproperties.before
    | _ => cases h
  | .allocate type constructor bounds initializers, b, h => by
    cases b with
    | allocate type' constructor' bounds' initializers' =>
      obtain ⟨htype, hconstructor, -, -⟩ := Expr.allocate.inj h
      obtain rfl : type = type' := htype
      obtain rfl : constructor = constructor' := hconstructor
      exact (WritesTwins.refl (emitExpr g (.allocate type constructor bounds initializers))).below rfl rfl
    | _ => cases h
  | .element array indices, b, h => by
    cases b with
    | element array' indices' =>
      obtain ⟨harray, hindices⟩ := Expr.element.inj h
      exact ((writesTwins_emitExpr harray).bind fun _ => writesTwins_emitIndices hindices).below rfl rfl
    | _ => cases h
  | .wrapped wrapper inner, b, h => by
    cases b with
    | wrapped wrapper' inner' =>
      obtain ⟨rfl, hinner⟩ := Expr.wrapped.inj h
      cases wrapper with
      | parentheses | typeOf =>
        exact (writesTwins_emitBetween _ _ (writesTwins_emitExpr hinner)).below rfl rfl
      | sizeOf | dereference => exact writesTwins_refuse rfl
    | _ => cases h
  | .conditional condition consequence alternative, b, h => by
    cases b with
    | conditional condition' consequence' alternative' =>
      obtain ⟨hcondition, hconsequence, halternative⟩ := Expr.conditional.inj h
      rw [Expr.rendered, Expr.rendered, List.append_assoc, List.append_assoc]
      match alternative, alternative', halternative with
      | none, none, _ =>
        exact (WritesTwins.after fun _ => (writesTwins_emitExpr hcondition).bind fun _ => .after fun _ =>
          (writesTwins_emitExpr hconsequence).bind fun _ => .refl _).below rfl rfl
      | some e, some e', halternative =>
        exact (WritesTwins.after fun _ => (writesTwins_emitExpr hcondition).bind fun _ => .after fun _ =>
          (writesTwins_emitExpr hconsequence).bind fun _ => .after fun _ =>
            (writesTwins_emitExpr (Option.some.inj halternative)).before).below rfl rfl
    | _ => cases h
  | .cast value type throwing safe, b, h => by
    cases b with
    | cast value' type' throwing' safe' =>
      obtain ⟨hvalue, -⟩ := Expr.cast.inj h
      exact (writesTwins_emitExpr hvalue).below rfl rfl
    | _ => cases h
  | .assigned value inverted, b, h => by
    cases b with
    | assigned value' inverted' =>
      obtain ⟨hvalue, rfl⟩ := Expr.assigned.inj h
      exact (writesTwins_emitBetween _ _ (writesTwins_emitExpr hvalue)).below rfl rfl
    | _ => cases h
  | .method lambda parameters returns body locals, b, h => by
    cases b with
    | method lambda' parameters' returns' body' locals' =>
      obtain ⟨hlambda, hparameters, -, hbody, hlocals⟩ := Expr.method.inj h
      obtain rfl : lambda = lambda' := hlambda
      have hinner := (writesTwins_emitDefaultValues hparameters).bind fun _ =>
        (writesTwins_emitLocals? hlocals).bind fun _ => writesTwins_emitStatements hbody
      rw [Expr.rendered, Expr.rendered, List.append_assoc, List.append_assoc, emitExpr, emitExpr,
        emitParameterNames_of_revise_eq true hparameters]
      exact (WritesTwins.after fun _ => .after fun _ => .after fun _ => .after fun _ =>
        hinner.deeper.before).below rfl rfl
    | _ => cases h
  | .anonymousType kind members, b, h => by
    cases b with
    | anonymousType kind' members' => exact writesTwins_refuse rfl
    | _ => cases h
termination_by structural x => x

theorem writesTwins_emitMember_site : ∀ {site site' : Option Expr},
    reviseExpr? .unsigned site = reviseExpr? .unsigned site' →
    ∀ (selection : Selection) {arguments arguments' : Option (Emit Unit)} (optional : Bool)
      {nodes nodes' : List Node},
      WritesTwins nodes nodes' (emitCall arguments) (emitCall arguments') →
        arguments.isSome = arguments'.isSome →
        WritesTwins
          (if selection.nilSafe || optional then nodes ++ renderedExpr? site else renderedExpr? site ++ nodes)
          (if selection.nilSafe || optional then nodes' ++ renderedExpr? site'
            else renderedExpr? site' ++ nodes')
          (emitMember g (emitSite? g site) selection arguments optional)
          (emitMember g (emitSite? g site') selection arguments' optional)
  | none, none, _, selection, _, _, optional, _, _, hcall, _ => by
    simp only [renderedExpr?, List.append_nil, List.nil_append, ite_self]
    exact writesTwins_emitMember_none hcall
  | some site, some site', h, selection, _, _, optional, _, _, hcall, hsome => by
    have hsite := Option.some.inj h
    rw [emitSite?, emitSite?, (forms_of_unsigned_eq g hsite).1]
    exact writesTwins_emitMember_some (writesTwins_emitExpr hsite) hcall hsome
termination_by structural x => x

theorem writesTwins_emitExprs (isFirst : Bool) : ∀ {es es' : List Expr},
    reviseExprs .unsigned es = reviseExprs .unsigned es' →
      WritesTwins (renderedExprs es) (renderedExprs es') (emitExprs g isFirst es) (emitExprs g isFirst es')
  | [], [], _ => .refl _
  | e :: es, e' :: es', h => by
    obtain ⟨he, hes⟩ := List.cons.inj h
    have hrest := (writesTwins_emitExpr he).bind fun _ => writesTwins_emitExprs false hes
    cases isFirst with
    | true => exact hrest
    | false => exact .after fun _ => hrest
termination_by structural x => x

theorem writesTwins_emitEntries (isFirst : Bool) : ∀ {es es' : List (Expr × Expr)},
    reviseEntries .unsigned es = reviseEntries .unsigned es' →
      WritesTwins (renderedEntries es) (renderedEntries es') (emitEntries g isFirst es)
        (emitEntries g isFirst es')
  | [], [], _ => .refl _
  | (key, value) :: es, (key', value') :: es', h => by
    obtain ⟨hentry, hes⟩ := List.cons.inj h
    obtain ⟨hkey, hvalue⟩ := Prod.mk.inj hentry
    have hrest := (writesTwins_emitBetween "[" "] = " (writesTwins_emitExpr hkey)).bind fun _ =>
      (writesTwins_emitExpr hvalue).bind fun _ => writesTwins_emitEntries false hes
    rw [renderedEntries, renderedEntries, List.append_assoc, List.append_assoc]
    cases isFirst with
    | true => exact hrest
    | false => exact .after fun _ => hrest
termination_by structural x => x

theorem writesTwins_emitArguments (isFirst : Bool) : ∀ {as as' : List Argument},
    reviseArguments .unsigned id as = reviseArguments .unsigned id as' →
      WritesTwins (renderedArguments as) (renderedArguments as') (emitArguments g isFirst as)
        (emitArguments g isFirst as')
  | [], [], _ => .refl _
  | [], ⟨_, _, _⟩ :: _, h => nomatch h
  | ⟨name, value, passing⟩ :: as, ⟨name', value', passing'⟩ :: as', h => by
    obtain ⟨hargument, has⟩ := List.cons.inj h
    obtain ⟨hname, hvalue, rfl⟩ := Argument.mk.inj hargument
    obtain rfl : name = name' := hname
    have hrest := (writesTwins_emitExpr hvalue).bind fun _ => writesTwins_emitArguments false has
    refine .after fun _ => ?_
    cases isFirst with
    | true => exact hrest
    | false => exact .after fun _ => hrest
termination_by structural x => x

theorem writesTwins_emitPropertyIndices : ∀ {as as' : List Argument},
    reviseArguments .unsigned id as = reviseArguments .unsigned id as' →
      WritesTwins (renderedArguments as) (renderedArguments as') (emitPropertyIndices g as)
        (emitPropertyIndices g as')
  | [], [], _ => .refl _
  | [], ⟨_, _, _⟩ :: _, h => nomatch h
  | ⟨name, value, passing⟩ :: as, ⟨name', value', passing'⟩ :: as', h => by
    obtain ⟨hargument, has⟩ := List.cons.inj h
    obtain ⟨hname, hvalue, rfl⟩ := Argument.mk.inj hargument
    obtain rfl : name = name' := hname
    exact .after fun _ => (writesTwins_emitBetween _ _ (writesTwins_emitExpr hvalue)).bind
      fun _ => writesTwins_emitPropertyIndices has
termination_by structural x => x

theorem writesTwins_emitIndices : ∀ {es es' : List Expr},
    reviseExprs .unsigned es = reviseExprs .unsigned es' →
      WritesTwins (renderedExprs es) (renderedExprs es') (emitIndices g es) (emitIndices g es')
  | [], [], _ => .refl _
  | e :: es, e' :: es', h => by
    obtain ⟨he, hes⟩ := List.cons.inj h
    exact (writesTwins_emitBetween _ _ (writesTwins_emitExpr he)).bind fun _ => writesTwins_emitIndices hes
termination_by structural x => x

theorem writesTwins_emitInitializers : ∀ {as as' : List Argument},
    reviseArguments .unsigned id as = reviseArguments .unsigned id as' →
      WritesTwins (renderedArguments as) (renderedArguments as') (emitInitializers g as)
        (emitInitializers g as')
  | [], [], _ => .refl _
  | [], ⟨_, _, _⟩ :: _, h => nomatch h
  | ⟨name, value, passing⟩ :: as, ⟨name', value', passing'⟩ :: as', h => by
    obtain ⟨hargument, has⟩ := List.cons.inj h
    obtain ⟨hname, hvalue, -⟩ := Argument.mk.inj hargument
    obtain rfl : name = name' := hname
    cases name with
    | none => exact writesTwins_refuse rfl
    | some name =>
      exact .after fun _ => .after fun _ =>
        (writesTwins_emitExpr hvalue).bind fun _ => writesTwins_emitInitializers has
termination_by structural x => x

theorem writesTwins_emitDefaultValues : ∀ {ps ps' : List Parameter},
    reviseParameters .unsigned ps = reviseParameters .unsigned ps' →
      WritesTwins (renderedDefaults ps) (renderedDefaults ps') (emitDefaultValues g ps)
        (emitDefaultValues g ps')
  | [], [], _ => .refl _
  | [], ⟨_, _, _, _⟩ :: _, h => nomatch h
  | ⟨name, type, passing, value⟩ :: ps, ⟨name', type', passing', value'⟩ :: ps', h => by
    obtain ⟨hparameter, hps⟩ := List.cons.inj h
    obtain ⟨hname, -, -, hvalue⟩ := Parameter.mk.inj hparameter
    obtain rfl : name = name' := hname
    have hrest := writesTwins_emitDefaultValues hps
    match value, value', hvalue with
    | none, none, _ => exact hrest
    | some e, some e', hvalue =>
      exact .after fun _ => (writesTwins_emitLine (writesTwins_emitBetween _ _
        (writesTwins_emitExpr (Option.some.inj hvalue)))).bind fun _ => hrest
termination_by structural x => x

theorem writesTwins_emitLocal : ∀ {d d' : Declaration}, d.revise .unsigned = d'.revise .unsigned →
    WritesTwins (renderedExpr? d.value) (renderedExpr? d'.value) (emitLocal g d) (emitLocal g d')
  | ⟨name, type, value, constant⟩, ⟨name', type', value', constant'⟩, h => by
    obtain ⟨hname, -, hvalue, hconstant⟩ := Declaration.mk.inj h
    obtain rfl : name = name' := hname
    obtain rfl : constant = constant' := hconstant
    match value, value', hvalue with
    | none, none, _ => exact .refl _
    | some e, some e', hvalue =>
      exact .after fun _ => .after fun _ => writesTwins_emitExpr (Option.some.inj hvalue)
termination_by structural x => x

theorem writesTwins_emitLocals : ∀ {ds ds' : List Declaration},
    reviseLocals .unsigned ds = reviseLocals .unsigned ds' →
      WritesTwins (renderedLocals ds) (renderedLocals ds') (emitLocals g ds) (emitLocals g ds')
  | [], [], _ => .refl _
  | ⟨_, _, _, _⟩ :: ds, ⟨_, _, _, _⟩ :: ds', h => by
    obtain ⟨hd, hds⟩ := List.cons.inj h
    exact (writesTwins_emitLine (writesTwins_emitLocal hd)).bind fun _ => writesTwins_emitLocals hds
termination_by structural x => x

theorem writesTwins_emitLocals? : ∀ {ds ds' : Option (List Declaration)},
    reviseLocals? .unsigned ds = reviseLocals? .unsigned ds' →
      WritesTwins (renderedLocals? ds) (renderedLocals? ds') (emitLocals? g ds) (emitLocals? g ds')
  | none, none, _ => .refl _
  | some _, some _, h => writesTwins_emitLocals (Option.some.inj h)
termination_by structural x => x

theorem writesTwins_emitStatement : ∀ {s t : Statement}, s.revise .unsigned = t.revise .unsigned →
    WritesTwins s.rendered t.rendered (emitStatement g s) (emitStatement g t)
  | .expression value, t, h => by
    cases t with
    | expression value' =>
      have hvalue := Statement.expression.inj h
      rw [emitStatement, emitStatement, ← (forms_of_unsigned_eq g hvalue).2]
      split
      · exact (writesTwins_emitExpressionLine (writesTwins_emitExpr hvalue)).below rfl rfl
      · exact writesTwins_refuse rfl
    | _ => cases h
  | .declaration ⟨_, _, _, _⟩, t, h => by
    cases t with
    | declaration d' =>
      obtain ⟨_, _, _, _⟩ := d'
      exact (writesTwins_emitLine (writesTwins_emitLocal (Statement.declaration.inj h))).below rfl rfl
    | _ => cases h
  | .assignment target value, t, h => by
    cases t with
    | assignment target' value' =>
      obtain ⟨htarget, hvalue⟩ := Statement.assignment.inj h
      exact (writesTwins_emitLine ((writesTwins_emitExpr htarget).bind fun _ =>
        .after fun _ => writesTwins_emitExpr hvalue)).below rfl rfl
    | _ => cases h
  | .result none, t, h => by
    cases t with
    | result value' =>
      cases value' with
      | none => exact (WritesTwins.refl _).below rfl rfl
      | some e' => cases h
    | _ => cases h
  | .result (some e), t, h => by
    cases t with
    | result value' =>
      cases value' with
      | none => cases h
      | some e' =>
        have hvalue := Option.some.inj (Statement.result.inj h)
        exact (writesTwins_emitLine (.after fun _ => writesTwins_emitExpr hvalue)).below rfl rfl
    | _ => cases h
  | .block body, t, h => by
    cases t with
    | block body' =>
      have hbody := Statement.block.inj h
      exact (WritesTwins.after fun _ => (writesTwins_emitStatements hbody).deeper.before).below rfl rfl
    | _ => cases h
termination_by structural x => x

/-- Lists of statements that differ in shared nodes and the signs of zeros are written as twins. -/
theorem writesTwins_emitStatements : ∀ {ss ts : List Statement},
    reviseStatements .unsigned ss = reviseStatements .unsigned ts →
      WritesTwins (renderedStatements ss) (renderedStatements ts) (emitStatements g ss)
        (emitStatements g ts)
  | [], [], _ => .refl _
  | s :: ss, t :: ts, h => by
    obtain ⟨hs, hss⟩ := List.cons.inj h
    exact (writesTwins_emitStatement hs).bind fun _ => writesTwins_emitStatements hss
termination_by structural x => x

end

/-! ## Answers -/

/-- Two answers to requests for text: both are texts, which are the same but for the signs of zeros and the
same exactly if the numbers in them have the same signs, or both are refusals of one kind. -/
def AnswersAlike (xs ys : List Binary64) (answer answer' : Answer) : Prop :=
  (∃ v w, answer = .ok v ∧ answer' = .ok w ∧ Twins xs ys v.toList w.toList ∧
      (v = w ↔ xs.map Binary64.isNegative = ys.map Binary64.isNegative)) ∨
    ∃ error error', answer = .error error ∧ answer' = .error error' ∧ error.kind = error'.kind

theorem WritesTwins.answersAlike {nodes nodes' : List Node} {action action' : Emit Unit}
    {finish : Draft → String} (lead : Bool → String) (h : WritesTwins nodes nodes' action action')
    (hfinish : ∀ text bit, finish ⟨text, 0, bit⟩ = lead bit ++ text) (generator : Generator) :
    AnswersAlike (numbers nodes) (numbers nodes') (generator.clear.run action finish).1
      (generator.clear.run action' finish).1 := by
  rcases h 0 with ⟨v, w, bit, hv, hw, htwins⟩ | ⟨error, error', hs, hs', hkind⟩
  · have hanswers : Twins (numbers nodes) (numbers nodes') (lead bit ++ String.ofList v).toList
        (lead bit ++ String.ofList w).toList := by
      simpa using htwins.behind (lead bit).toList
    refine .inl ⟨lead bit ++ String.ofList v, lead bit ++ String.ofList w, ?_, ?_, hanswers, ?_⟩
    · rw [run_of_adds hv, hfinish]
    · rw [run_of_adds hw, hfinish]
    · rw [← String.toList_inj]
      exact hanswers.eq_iff
  · exact .inr ⟨error, error', run_of_stops hs, run_of_stops hs', hkind⟩

/-- All that counts is that two trees are the same with owned nodes and positive zeros. -/
theorem answersAlike_generateExpression (generator : Generator) {a b : Expr}
    (h : a.unsigned = b.unsigned) :
    AnswersAlike (numbers a.rendered) (numbers b.rendered) (generator.generateExpression a).1
      (generator.generateExpression b).1 :=
  (writesTwins_emitExpr h).answersAlike (fun _ => "") (fun _ _ => String.empty_append.symm) generator

theorem answersAlike_generateStatements (generator : Generator) {ss ts : List Statement}
    (h : reviseStatements .unsigned ss = reviseStatements .unsigned ts) :
    AnswersAlike (numbers (renderedStatements ss)) (numbers (renderedStatements ts))
      (generator.generateStatements ss).1 (generator.generateStatements ts).1 := by
  refine (writesTwins_emitStatements h).answersAlike (fun bit => if bit then bitPrelude else "")
    (fun text bit => ?_) generator
  cases bit
  · exact String.empty_append.symm
  · rfl

/-- Equal expressions have texts that are the same but for the signs of zeros, or both are refused for
reasons of one kind. So have a tree and what becomes of it when an equal expression takes the place of one
in it, wherever that is. A NaN elsewhere does no harm, though a tree that has one equals nothing. -/
theorem generateExpression_of_equal (generator : Generator) :
    (∀ a b : Expr, a.equal b = true →
      AnswersAlike (numbers a.rendered) (numbers b.rendered) (generator.generateExpression a).1
        (generator.generateExpression b).1) ∧
    (∀ a b e e' : Expr, a.equal b = true → Expr.Replaced a b e e' →
      AnswersAlike (numbers e.rendered) (numbers e'.rendered) (generator.generateExpression e).1
        (generator.generateExpression e').1) ∧
    ∀ (a b : Expr) (s s' : Statement) (before after : List Statement), a.equal b = true →
      Statement.Replaced a b s s' →
        AnswersAlike (numbers (renderedStatements (before ++ s :: after)))
          (numbers (renderedStatements (before ++ s' :: after)))
          (generator.generateStatements (before ++ s :: after)).1
          (generator.generateStatements (before ++ s' :: after)).1 :=
  ⟨fun _ _ h => answersAlike_generateExpression generator (unsigned_eq_of_equal h),
    fun _ _ _ _ h hreplaced =>
      answersAlike_generateExpression generator (hreplaced.revise_eq (unsigned_eq_of_equal h)),
    fun _ _ _ _ before after h hreplaced => answersAlike_generateStatements generator
      (reviseStatements_eq_of_replaced (unsigned_eq_of_equal h) before after hreplaced)⟩

/-- A negative zero in the place of a shared one: behind a minus sign, where it is written with a blank, in a
list with a NaN, whose two forms are not equal, and in a statement. -/
theorem answersAlike_of_zeros :
    let generator := Generator.new ⟨[]⟩ {}
    let zero : Expr := .shared .floatZero
    let negative : Expr := .literal (.float .negativeZero)
    let nan : Binary64 := ⟨0x7ff8000000000000⟩
    zero.equal negative = true ∧
      (generator.generateExpression (.unary (.standard .minus) zero)).1 = .ok "(-0.0)" ∧
      (generator.generateExpression (.unary (.standard .minus) negative)).1 = .ok "(- -0.0)" ∧
      AnswersAlike [.zero] [.negativeZero]
        (generator.generateExpression (.unary (.standard .minus) zero)).1
        (generator.generateExpression (.unary (.standard .minus) negative)).1 ∧
      Expr.equal (.tuple [zero, .literal (.float nan)]) (.tuple [negative, .literal (.float nan)]) = false ∧
      AnswersAlike [.zero, nan] [.negativeZero, nan]
        (generator.generateExpression (.tuple [zero, .literal (.float nan)])).1
        (generator.generateExpression (.tuple [negative, .literal (.float nan)])).1 ∧
      AnswersAlike [.zero] [.negativeZero] (generator.generateStatements [.result (some zero)]).1
        (generator.generateStatements [.result (some negative)]).1 := by
  have hzero : ((Generator.new ⟨[]⟩ {}).generateExpression
      (.unary (.standard .minus) (.shared .floatZero))).1 = .ok "(-0.0)" := rfl
  have hnegative : ((Generator.new ⟨[]⟩ {}).generateExpression
      (.unary (.standard .minus) (.literal (.float .negativeZero)))).1 = .ok "(- -0.0)" := by rfl
  intro generator zero negative nan
  obtain ⟨hequal, hexpression, hstatements⟩ := generateExpression_of_equal generator
  exact ⟨rfl, hzero, hnegative,
    hequal (.unary (.standard .minus) zero) (.unary (.standard .minus) negative) rfl,
    by decide +revert,
    hexpression zero negative _ _ rfl (.tupleElement [] [.literal (.float nan)] .here),
    hstatements zero negative _ _ [] [] rfl (.result .here)⟩

/-- A shared zero and a negative one are equal expressions with different texts. -/
theorem generateExpression_negativeZero :
    ¬ ∀ a b : Expr, a.equal b = true → ∀ generator : Generator,
      (generator.generateExpression a).1 = (generator.generateExpression b).1 ∨
        ∃ error error', (generator.generateExpression a).1 = .error error ∧
          (generator.generateExpression b).1 = .error error' ∧ error.kind = error'.kind := by
  intro h
  have hzeros := h (.shared .floatZero) (.atom (.literal (.float Binary64.negativeZero))) rfl
    (Generator.new ⟨[]⟩ {})
  have hzero : ((Generator.new ⟨[]⟩ {}).generateExpression (.shared .floatZero)).1 = .ok "0.0" := rfl
  have hnegative : ((Generator.new ⟨[]⟩ {}).generateExpression
      (.atom (.literal (.float Binary64.negativeZero)))).1 = .ok "-0.0" := rfl
  rw [hzero, hnegative] at hzeros
  simp at hzeros

end CodeTree.Lua
