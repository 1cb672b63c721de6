import CodeTree.Proofs.Binding.Mentions
import CodeTree.Proofs.Binding.Scope
import CodeTree.Proofs.Reading.Accepted
import CodeTree.Proofs.Reading.Roundtrip

/-! # Hygiene of emitted text

A name of the tree can only be captured in the arguments of a guarded call, by the parameter of the
guard, and in the values of property initializers, by the new object. The operands of a division and the
site of a guard are handed over as arguments, outside of the functions that bind names. So an emitted
text is hygienic exactly when no guarded call mentions `t` in its arguments and no construction mentions
`o` in its initializers.

* `caught_toLua?`: the captured names of an expression, in any scope.
* `hygienic_generateExpression_iff`: the texts that are hygienic. -/

namespace CodeTree.Lua

set_option autoImplicit false

/-- One of some names is captured in a scope. -/
def Exposed (scope : List Marked) (P : String → Prop) : Prop := ∃ name, P name ∧ IsCaptured scope name

variable {g : Setting} {scope : List Marked} {P Q : String → Prop} {name : String}

@[simp] theorem not_exposed_false : ¬ Exposed scope fun _ => False := by simp [Exposed]

@[simp] theorem exposed_or :
    (Exposed scope fun name => P name ∨ Q name) ↔ Exposed scope P ∨ Exposed scope Q := by
  simp [Exposed, or_and_right, exists_or]

@[simp] theorem exposed_eq : (Exposed scope fun other => name = other) ↔ IsCaptured scope name := by
  simp [Exposed]

@[simp] theorem exposed_emitter_cons :
    Exposed (⟨.emitter, name⟩ :: scope) P ↔ P name ∨ Exposed scope P := by
  simp [Exposed, and_or_left, exists_or]

/-! ## Forms -/

section Forms

variable {x y z : Exp Marked}

theorem not_caught_literalExp (target : Target) (l : Literal) :
    ¬ Caught ((literalExp Marked.mk target l).occurrences scope) := by
  have hsigned : ∀ (negative : Bool) (x : Exp Marked), ¬ Caught (x.occurrences scope) →
      ¬ Caught ((signed negative x).occurrences scope) := by
    intro negative x hx
    cases negative
    · exact hx
    · exact hx
  cases l with
  | string value | character value | boolean value => exact not_caught_nil
  | integer value =>
    rw [literalExp, integerExp]
    split
    · exact not_caught_own
    · exact hsigned _ _ not_caught_nil
  | float value =>
    rw [literalExp, floatExp]
    split
    · exact not_caught_nil
    · split
      · exact hsigned _ _ not_caught_own
      · exact hsigned _ _ not_caught_nil

theorem caught_atomExp {a : Atom} (h : atomExp? Marked.mk g a = some x) :
    Caught (x.occurrences scope) ↔ Exposed scope (AtomMentions g · a) := by
  cases a with
  | nil =>
    cases h
    simp [Exp.occurrences, AtomMentions]
  | literal l =>
    cases h
    simp [not_caught_literalExp, AtomMentions]
  | selfReference =>
    obtain rfl : given Marked.mk "self" = x := by simpa [atomExp?] using h
    simp [AtomMentions, Exposed]
  | identifier | localVariable | typeReference =>
    obtain ⟨name, hname, rfl⟩ := Option.map_eq_some_iff.1 h
    simp [AtomMentions, hname]
  | enumValue value =>
    simp only [atomExp?, Option.bind_eq_bind, Option.bind_eq_some_iff, Option.some.injEq] at h
    obtain ⟨type, htype, name, -, rfl⟩ := h
    simp [AtomMentions, htype, Exp.occurrences]
  | propertyValue | inherited | selector | default | raw => cases h

theorem caught_unaryExp {operator : Operator UnaryKind} (h : unaryExp? operator x = some z) :
    Caught (z.occurrences scope) ↔ Caught (x.occurrences scope) := by
  match operator with
  | .standard .addressOf => exact nomatch h
  | .standard .plus | .standard .minus | .standard .not | .custom text =>
    cases h
    exact Iff.rfl

/-- The function that divides reads only its own names. -/
theorem not_caught_truncatedDivision (target : Target) :
    ¬ Caught ((truncatedDivision Marked.mk target).occurrences scope) := by
  simp [truncatedDivision, Exp.occurrences, occurrencesStats, Stat.occurrences, occurrencesExps]

theorem caught_binaryExp {target : Target} {operator : Operator BinaryKind}
    (h : binaryExp? Marked.mk target operator x y = some z) :
    Caught (z.occurrences scope) ↔ Caught (x.occurrences scope) ∨ Caught (y.occurrences scope) := by
  cases operator with
  | custom text =>
    cases h
    simp [Exp.occurrences]
  | standard kind =>
    rw [binaryExp?] at h
    split at h
    · cases h
      simp [Exp.occurrences, occurrencesExps]
    · unfold standardExp? at h
      split at h
      · cases h
        simp [Exp.occurrences, occurrencesExps, not_caught_truncatedDivision]
      · cases h
        simp [Exp.occurrences]
      · obtain ⟨op, -, rfl⟩ := Option.map_eq_some_iff.1 h
        simp [Exp.occurrences]

theorem caught_conditional {alternative : Option (Exp Marked)} :
    Caught ((conditional x y alternative).occurrences scope) ↔
      Caught (x.occurrences scope) ∨ Caught (y.occurrences scope) ∨
        ∃ z ∈ alternative, Caught (z.occurrences scope) := by
  cases alternative <;>
    simp [conditional, Exp.occurrences, occurrencesStats, Stat.occurrences, occurrencesExps]

theorem caught_selected {isType : Bool} {member : String} {arguments : Option (List (Exp Marked))} :
    Caught ((selected x isType member arguments).occurrences scope) ↔
      Caught (x.occurrences scope) ∨ Caught (occurrencesExps scope (arguments.getD [])) := by
  cases arguments <;> cases isType <;> simp [selected, Exp.occurrences, occurrencesExps]

theorem caught_memberExp_none {selection : Selection} {optional : Bool} {member : String}
    {arguments : Option (List (Exp Marked))} :
    Caught ((memberExp Marked.mk none selection optional member arguments).occurrences scope) ↔
      IsCaptured scope member ∨ Caught (occurrencesExps scope (arguments.getD [])) := by
  cases arguments <;> simp [memberExp, Exp.occurrences, occurrencesExps]

/-- The arguments of a guarded call are inside of the function that binds `t`. -/
theorem caught_memberExp_some {isType optional : Bool} {selection : Selection} {member : String}
    {arguments : Option (List (Exp Marked))} :
    Caught ((memberExp Marked.mk (some (isType, x)) selection optional member arguments).occurrences
        scope) ↔
      Caught (x.occurrences scope) ∨
        if selection.nilSafe || optional then
          Caught (occurrencesExps (⟨.emitter, "t"⟩ :: scope) (arguments.getD []))
        else Caught (occurrencesExps scope (arguments.getD [])) := by
  have hguard : ∀ nilSafe optional, ¬ Caught ((guardExp Marked.mk nilSafe optional member).occurrences
      (⟨.emitter, "t"⟩ :: scope)) := by
    intro nilSafe optional
    rw [guardExp]
    split
    · simp [Exp.occurrences]
    · split <;> simp [Exp.occurrences]
  by_cases h : (selection.nilSafe || optional) = true
  · simp only [memberExp, h, if_true, guarded, Exp.occurrences, occurrencesStats, Stat.occurrences,
      occurrencesExps, Stat.bound, List.reverse_singleton, List.cons_append, List.nil_append,
      List.append_nil, caught_append, hguard, caught_selected, not_caught_own,
      false_or]
    exact or_comm
  · rw [Bool.not_eq_true] at h
    simp only [memberExp, h, Bool.false_eq_true, if_false, caught_selected]

theorem caught_indexed {keys : List (Exp Marked)} :
    Caught ((indexed x keys).occurrences scope) ↔
      Caught (x.occurrences scope) ∨ Caught (occurrencesExps scope keys) := by
  induction keys generalizing x with
  | nil => simp [indexed, occurrencesExps]
  | cons key keys ih =>
    have hindexed : indexed x (key :: keys) = indexed (.index x key) keys := rfl
    rw [hindexed, ih]
    simp [Exp.occurrences, occurrencesExps, or_assoc]

/-- The values of initializers are inside of the function that binds `o`, behind its binding. -/
theorem caught_constructExp {type constructor : String} {arguments : List (Exp Marked)}
    {assignments : List (Stat Marked)} (hbound : scopeAfter (⟨.emitter, "o"⟩ :: scope) assignments =
      ⟨.emitter, "o"⟩ :: scope) :
    Caught ((constructExp Marked.mk type constructor arguments assignments).occurrences scope) ↔
      IsCaptured scope type ∨ Caught (occurrencesExps scope arguments) ∨
        Caught (occurrencesStats (⟨.emitter, "o"⟩ :: scope) assignments) := by
  cases assignments with
  | nil => simp [constructExp, Exp.occurrences, occurrencesStats]
  | cons s assignments =>
    simp [constructExp, initialized, Exp.occurrences, occurrencesStats, Stat.occurrences,
      occurrencesExps, Stat.bound, occurrencesStats_append]

theorem occurrencesFields_map_item (xs : List (Exp Marked)) :
    occurrencesFields scope (xs.map .item) = occurrencesExps scope xs := by
  induction xs with
  | nil => rfl
  | cons x xs ih => simp [occurrencesFields, occurrencesExps, TableField.occurrences, ih]

end Forms

/-! ## Bindings of the tree -/

theorem isCaptured_parameterNames {parameters : List Parameter} {names : List Marked}
    (h : parameterNames? Marked.mk g parameters = some names) :
    IsCaptured (names.reverse ++ scope) name ↔
      (∀ p ∈ parameters, g.names.resolve p.name ≠ some name) ∧ IsCaptured scope name := by
  induction parameters generalizing names scope with
  | nil =>
    cases h
    simp
  | cons p parameters ih =>
    simp only [parameterNames?, Option.bind_eq_bind, Option.bind_eq_some_iff, Option.some.injEq] at h
    obtain ⟨bound, hbound, names, hnames, rfl⟩ := h
    have hne : some bound ≠ some name ↔ bound ≠ name := not_congr Option.some_inj
    rw [List.reverse_cons, List.append_assoc, List.singleton_append, ih hnames, isCaptured_tree_cons,
      List.forall_mem_cons, hbound, hne]
    grind

/-- A declaration of the tree binds its name behind its value. -/
theorem caught_toLuaLocal {declared : Declaration} {s : Stat Marked}
    (hvalue : ∀ e ∈ declared.value, ∀ x, toLua? Marked.mk g e = some x →
      (Caught (x.occurrences scope) ↔ SomeCaptures g e.rendered ∨ Exposed scope (Mentions g · e)))
    (h : toLuaLocal? Marked.mk g declared = some s) :
    (Caught (s.occurrences scope) ↔ SomeCaptures g (renderedExpr? declared.value) ∨
      Exposed scope (MentionsExpr? g · declared.value)) ∧
    ∃ bound, g.names.resolve declared.name = some bound ∧ s.bound = [⟨.tree, bound⟩] := by
  obtain ⟨declaredName, type, value, constant⟩ := declared
  cases value with
  | none =>
    simp only [toLuaLocal?, Option.bind_eq_bind, Option.bind_eq_some_iff, Option.some.injEq] at h
    obtain ⟨bound, hbound, rfl⟩ := h
    exact ⟨by simp [Stat.occurrences, occurrencesExps, renderedExpr?, MentionsExpr?],
      bound, hbound, rfl⟩
  | some e =>
    simp only [toLuaLocal?, Option.bind_eq_bind, Option.bind_eq_some_iff, Option.some.injEq] at h
    obtain ⟨bound, hbound, x, hx, rfl⟩ := h
    have hcaught := hvalue e rfl x hx
    exact ⟨by simpa [Stat.occurrences, occurrencesExps, renderedExpr?, MentionsExpr?] using hcaught,
      bound, hbound, rfl⟩

theorem caught_toLuaMember {site : Option Expr} {t : Option (Bool × Exp Marked)} {selection : Selection}
    {optional : Bool} {member : String} {arguments : Option (List (Exp Marked))}
    (hsite : ∀ e ∈ site, ∀ x, toLua? Marked.mk g e = some x →
      (Caught (x.occurrences scope) ↔ SomeCaptures g e.rendered ∨ Exposed scope (Mentions g · e)))
    (ht : toLuaSite? Marked.mk g site = some t) (hmember : g.names.resolve selection.name = some member) :
    Caught ((memberExp Marked.mk t selection optional member arguments).occurrences scope) ↔
      SomeCaptures g (renderedExpr? site) ∨ Exposed scope (MentionsSite g · selection site) ∨
        Caught (occurrencesExps
          (if site.isSome && (selection.nilSafe || optional) then ⟨.emitter, "t"⟩ :: scope else scope)
          (arguments.getD [])) := by
  cases site with
  | none =>
    cases ht
    simp [caught_memberExp_none, renderedExpr?, MentionsSite, hmember]
  | some e =>
    simp only [toLuaSite?, Option.bind_eq_bind, Option.bind_eq_some_iff, Option.some.injEq] at ht
    obtain ⟨x, hx, rfl⟩ := ht
    rw [caught_memberExp_some, hsite e rfl x hx, or_assoc, Option.isSome_some, Bool.true_and]
    by_cases hguard : (selection.nilSafe || optional) = true
    · rw [if_pos hguard, if_pos hguard]
      rfl
    · rw [if_neg hguard, if_neg hguard]
      rfl

/-- Bindings that take some names away from those that are captured. -/
theorem exposed_of_isCaptured_iff {inner : List Marked}
    (h : ∀ name, IsCaptured inner name ↔ Q name ∧ IsCaptured scope name) :
    Exposed inner P ↔ Exposed scope fun name => Q name ∧ P name := by
  simp only [Exposed, h]
  exact exists_congr fun name => by grind

theorem caught_function {names : List Marked} {defaults declared statements : List (Stat Marked)}
    {defaultNodes localNodes bodyNodes : List Node} {P Q R IsUnboundBefore IsUnbound : String → Prop}
    (hparameters : ∀ name, IsCaptured (names.reverse ++ scope) name ↔
      IsUnboundBefore name ∧ IsCaptured scope name)
    (hdefaults : (Caught (occurrencesStats (names.reverse ++ scope) defaults) ↔
      SomeCaptures g defaultNodes ∨ Exposed (names.reverse ++ scope) P) ∧
        scopeAfter (names.reverse ++ scope) defaults = names.reverse ++ scope)
    (hlocals : (Caught (occurrencesStats (names.reverse ++ scope) declared) ↔
      SomeCaptures g localNodes ∨ Exposed (names.reverse ++ scope) Q) ∧
        ∀ name, IsCaptured (scopeAfter (names.reverse ++ scope) declared) name ↔
          IsUnbound name ∧ IsCaptured (names.reverse ++ scope) name)
    (hbody : Caught (occurrencesStats (scopeAfter (names.reverse ++ scope) declared) statements) ↔
      SomeCaptures g bodyNodes ∨ Exposed (scopeAfter (names.reverse ++ scope) declared) R) :
    Caught ((Exp.function names (defaults ++ declared ++ statements)).occurrences scope) ↔
      SomeCaptures g (defaultNodes ++ localNodes ++ bodyNodes) ∨
        Exposed scope fun name =>
          IsUnboundBefore name ∧ (P name ∨ Q name ∨ (IsUnbound name ∧ R name)) := by
  rw [exposed_of_isCaptured_iff hlocals.2] at hbody
  rw [← exposed_of_isCaptured_iff hparameters, Exp.occurrences, occurrencesStats_append,
    occurrencesStats_append, scopeAfter_append, hdefaults.2, caught_append, caught_append, hdefaults.1,
    hlocals.1, hbody, someCaptures_append, someCaptures_append, exposed_or, exposed_or]
  grind

/-! ## Trees -/

mutual

/-- A name of an expression is captured if a node captures it, or if it is mentioned and captured in
the scope of the expression. -/
theorem caught_toLua? : ∀ (e : Expr) (scope : List Marked)
    {x : Exp Marked},
        toLua? Marked.mk g e = some x →
      (Caught (x.occurrences scope) ↔ SomeCaptures g e.rendered ∨ Exposed scope (Mentions g · e))
  | .shared s, scope, x, hx => by
    simpa [Expr.rendered, Captures, Mentions] using caught_atomExp hx
  | .atom a, scope, x, hx => by
    simpa [Expr.rendered, Captures, Mentions] using caught_atomExp hx
  | .array elements kind, scope, x, hx => by
    simp only [toLua?, Option.bind_eq_bind, Option.bind_eq_some_iff, Option.some.injEq] at hx
    obtain ⟨xs, hxs, rfl⟩ := hx
    simpa [Exp.occurrences, occurrencesFields_map_item, Expr.rendered, Captures, Mentions]
      using caught_toLuaList? elements _ hxs
  | .dictionary entries, scope, x, hx => by
    simp only [toLua?, Option.bind_eq_bind, Option.bind_eq_some_iff, Option.some.injEq] at hx
    obtain ⟨fields, hfields, rfl⟩ := hx
    simpa [Exp.occurrences, Expr.rendered, Captures, Mentions]
      using caught_toLuaEntries? entries _ hfields
  | .tuple elements, scope, x, hx => by
    simp only [toLua?, Option.bind_eq_bind, Option.bind_eq_some_iff, Option.some.injEq] at hx
    obtain ⟨xs, hxs, rfl⟩ := hx
    simpa [Exp.occurrences, occurrencesFields_map_item, Expr.rendered, Captures, Mentions]
      using caught_toLuaList? elements _ hxs
  | .unary operator operand, scope, x, hx => by
    simp only [toLua?, Option.bind_eq_bind, Option.bind_eq_some_iff] at hx
    obtain ⟨y, hy, hx⟩ := hx
    simpa [caught_unaryExp hx, Expr.rendered, Captures, Mentions] using caught_toLua? operand _ hy
  | .binary operator left right, scope, x, hx => by
    simp only [toLua?, Option.bind_eq_bind, Option.bind_eq_some_iff] at hx
    obtain ⟨y, hy, z, hz, hx⟩ := hx
    simp only [caught_binaryExp hx, caught_toLua? left _ hy, caught_toLua? right _ hz, Expr.rendered,
      Captures, Mentions, someCaptures_cons, someCaptures_append, exposed_or]
    grind
  | .field site selection, scope, x, hx => by
    simp only [toLua?, Option.bind_eq_bind, Option.bind_eq_some_iff, Option.some.injEq] at hx
    obtain ⟨s, hs, member, hmember, rfl⟩ := hx
    simp only [caught_toLuaMember (caught_toLuaSite? site _) hs hmember, Expr.rendered, Captures, Mentions,
      someCaptures_cons, Option.getD_none, occurrencesExps, not_caught_nil]
    grind
  | .call site selection arguments optional, scope, x, hx => by
    simp only [toLua?, Option.bind_eq_bind, Option.bind_eq_some_iff, Option.some.injEq] at hx
    obtain ⟨s, hs, member, hmember, xs, hxs, rfl⟩ := hx
    have hnode : Captures g (.expression (.call site selection arguments optional)) ↔
        (site.isSome && (selection.nilSafe || optional)) = true ∧ MentionsArgument g "t" arguments := by
      cases site <;> simp [Captures]
    have hrendered : SomeCaptures g (if selection.nilSafe || optional then
          renderedArguments arguments ++ renderedExpr? site
        else renderedExpr? site ++ renderedArguments arguments) ↔
        SomeCaptures g (renderedArguments arguments) ∨ SomeCaptures g (renderedExpr? site) := by
      split
      · exact someCaptures_append
      · rw [someCaptures_append, or_comm]
    simp only [caught_toLuaMember (caught_toLuaSite? site _) hs hmember, Expr.rendered, Mentions,
      someCaptures_cons, hnode, hrendered, exposed_or, Option.getD_some]
    by_cases hguard : (site.isSome && (selection.nilSafe || optional)) = true
    · simp only [hguard, if_true, caught_toLuaArguments? arguments _ hxs, exposed_emitter_cons]
      grind
    · simp only [hguard, caught_toLuaArguments? arguments _ hxs]
      grind
  | .property site selection indices, scope, x, hx => by
    simp only [toLua?, Option.bind_eq_bind, Option.bind_eq_some_iff, Option.some.injEq] at hx
    obtain ⟨s, hs, member, hmember, keys, hkeys, rfl⟩ := hx
    simp only [caught_indexed, caught_toLuaMember (caught_toLuaSite? site _) hs hmember,
      caught_toLuaArguments? indices _ hkeys, Expr.rendered, Captures, Mentions, someCaptures_cons,
      someCaptures_append, exposed_or, Option.getD_none, occurrencesExps, not_caught_nil]
    grind
  | .construct type constructor arguments initializers, scope, x, hx => by
    simp only [toLua?, Option.bind_eq_bind, Option.bind_eq_some_iff, Option.some.injEq] at hx
    obtain ⟨typeName, htype, _, -, xs, hxs, assignments, hassignments, rfl⟩ := hx
    obtain ⟨hcaught, hbound⟩ :=
      caught_toLuaInitializers? initializers (⟨.emitter, "o"⟩ :: scope) hassignments
    simp only [caught_constructExp hbound, hcaught, caught_toLuaArguments? arguments _ hxs, Expr.rendered,
      Captures, Mentions, someCaptures_cons, someCaptures_append, exposed_or, exposed_emitter_cons, htype,
      Option.some.injEq, exposed_eq]
    grind
  | .allocate _ _ _ _, scope, x, hx => by
    cases hx
    simp [Exp.occurrences, occurrencesFields, Expr.rendered, Captures, Mentions]
  | .element array indices, scope, x, hx => by
    simp only [toLua?, Option.bind_eq_bind, Option.bind_eq_some_iff, Option.some.injEq] at hx
    obtain ⟨y, hy, keys, hkeys, rfl⟩ := hx
    simp only [caught_indexed, caught_toLua? array _ hy, caught_toLuaList? indices _ hkeys, Expr.rendered,
      Captures, Mentions, someCaptures_cons, someCaptures_append, exposed_or]
    grind
  | .wrapped .parentheses inner, scope, x, hx => by
    simp only [toLua?, Option.bind_eq_bind, Option.bind_eq_some_iff, Option.some.injEq] at hx
    obtain ⟨y, hy, rfl⟩ := hx
    simpa [Exp.occurrences, Expr.rendered, Captures, Mentions] using caught_toLua? inner _ hy
  | .wrapped .typeOf inner, scope, x, hx => by
    simp only [toLua?, Option.bind_eq_bind, Option.bind_eq_some_iff, Option.some.injEq] at hx
    obtain ⟨y, hy, rfl⟩ := hx
    simpa [Exp.occurrences, occurrencesExps, Expr.rendered, Captures, Mentions]
      using caught_toLua? inner _ hy
  | .wrapped .sizeOf inner, _, x, hx => nomatch hx
  | .wrapped .dereference inner, _, x, hx => nomatch hx
  | .conditional condition consequence none, scope, x, hx => by
    simp only [toLua?, Option.bind_eq_bind, Option.bind_eq_some_iff, Option.some.injEq] at hx
    obtain ⟨y, hy, z, hz, rfl⟩ := hx
    simp [caught_conditional, caught_toLua? condition _ hy, caught_toLua? consequence _ hz, Expr.rendered,
      renderedExpr?, Captures, Mentions, MentionsExpr?]
    grind
  | .conditional condition consequence (some alternative), scope, x, hx => by
    simp only [toLua?, Option.bind_eq_bind, Option.bind_eq_some_iff, Option.some.injEq] at hx
    obtain ⟨y, hy, z, hz, a, ha, rfl⟩ := hx
    simp [caught_conditional, caught_toLua? condition _ hy, caught_toLua? consequence _ hz,
      caught_toLua? alternative _ ha, Expr.rendered, renderedExpr?, Captures, Mentions, MentionsExpr?]
    grind
  | .cast value type throwing safe, scope, x, hx => by
    simpa [Expr.rendered, Captures, Mentions] using caught_toLua? value _ hx
  | .assigned value inverted, scope, x, hx => by
    simp only [toLua?, Option.bind_eq_bind, Option.bind_eq_some_iff, Option.some.injEq] at hx
    obtain ⟨y, hy, rfl⟩ := hx
    simpa [Exp.occurrences, Expr.rendered, Captures, Mentions] using caught_toLua? value _ hy
  | .method _ parameters _ body locals, scope, x, hx => by
    simp only [toLua?, Option.bind_eq_bind, Option.bind_eq_some_iff, Option.some.injEq] at hx
    obtain ⟨names, hnames, defaults, hdefaults, declared, hdeclared, statements, hstatements, rfl⟩ := hx
    have hparameters : ∀ name, IsCaptured (names.reverse ++ scope) name ↔
        (∀ p ∈ parameters, g.names.resolve p.name ≠ some name) ∧ IsCaptured scope name :=
      fun name => isCaptured_parameterNames hnames
    have hown : ∀ p ∈ parameters, ∀ name, g.names.resolve p.name = some name →
        ¬ IsCaptured (names.reverse ++ scope) name :=
      fun p hp name hname hcaptured => ((hparameters name).1 hcaptured).1 p hp hname
    have hcaught := caught_function hparameters
      (caught_toLuaDefaults? parameters (names.reverse ++ scope) hown hdefaults)
      (caught_toLuaLocals? locals (names.reverse ++ scope) hdeclared)
      (caught_toLuaStatements? body (scopeAfter (names.reverse ++ scope) declared) hstatements)
    rw [hcaught, Expr.rendered, someCaptures_cons]
    simp only [Captures, Mentions, false_or]
  | .anonymousType _ _, _, x, hx => nomatch hx

theorem caught_toLuaList? : ∀ (es : List Expr) (scope : List Marked) {xs : List (Exp Marked)},
    toLuaList? Marked.mk g es = some xs →
      (Caught (occurrencesExps scope xs) ↔
        SomeCaptures g (renderedExprs es) ∨ Exposed scope (MentionsAny g · es))
  | [], scope, xs, hxs => by
    cases hxs
    simp [occurrencesExps, renderedExprs, MentionsAny]
  | e :: es, scope, xs, hxs => by
    simp only [toLuaList?, Option.bind_eq_bind, Option.bind_eq_some_iff, Option.some.injEq] at hxs
    obtain ⟨x, hx, xs, hxs, rfl⟩ := hxs
    simp only [occurrencesExps, caught_append, caught_toLua? e _ hx, caught_toLuaList? es _ hxs,
      renderedExprs, MentionsAny, someCaptures_append, exposed_or]
    grind

theorem caught_toLuaEntries? : ∀ (entries : List (Expr × Expr)) (scope : List Marked)
    {fs : List (TableField Marked)},
    toLuaEntries? Marked.mk g entries = some fs →
      (Caught (occurrencesFields scope fs) ↔
        SomeCaptures g (renderedEntries entries) ∨ Exposed scope (MentionsEntry g · entries))
  | [], scope, fs, hfs => by
    cases hfs
    simp [occurrencesFields, renderedEntries, MentionsEntry]
  | (key, value) :: entries, scope, fs, hfs => by
    simp only [toLuaEntries?, Option.bind_eq_bind, Option.bind_eq_some_iff, Option.some.injEq] at hfs
    obtain ⟨x, hx, y, hy, fs, hfs, rfl⟩ := hfs
    simp only [occurrencesFields, TableField.occurrences, caught_append, caught_toLua? key _ hx,
      caught_toLua? value _ hy, caught_toLuaEntries? entries _ hfs, renderedEntries, MentionsEntry,
      someCaptures_append, exposed_or]
    grind

theorem caught_toLuaArguments? : ∀ (arguments : List Argument) (scope : List Marked)
    {xs : List (Exp Marked)},
    toLuaArguments? Marked.mk g arguments = some xs →
      (Caught (occurrencesExps scope xs) ↔
        SomeCaptures g (renderedArguments arguments) ∨ Exposed scope (MentionsArgument g · arguments))
  | [], scope, xs, hxs => by
    cases hxs
    simp [occurrencesExps, renderedArguments, MentionsArgument]
  | ⟨_, value, _⟩ :: arguments, scope, xs, hxs => by
    simp only [toLuaArguments?, Option.bind_eq_bind, Option.bind_eq_some_iff, Option.some.injEq] at hxs
    obtain ⟨x, hx, xs, hxs, rfl⟩ := hxs
    simp only [occurrencesExps, caught_append, caught_toLua? value _ hx,
      caught_toLuaArguments? arguments _ hxs, renderedArguments, MentionsArgument, someCaptures_append,
      exposed_or]
    grind

theorem caught_toLuaSite? : ∀ (site : Option Expr) (scope : List Marked), ∀ e ∈ site, ∀ x,
    toLua? Marked.mk g e = some x →
      (Caught (x.occurrences scope) ↔ SomeCaptures g e.rendered ∨ Exposed scope (Mentions g · e))
  | none, _, e, he => nomatch he
  | some site, scope, e, he => by
    obtain rfl : site = e := by simpa using he
    exact fun x hx => caught_toLua? site _ hx

theorem caught_toLuaInitializers? : ∀ (initializers : List Argument) (scope : List Marked)
    {ss : List (Stat Marked)},
    toLuaInitializers? Marked.mk g initializers = some ss →
      (Caught (occurrencesStats scope ss) ↔ SomeCaptures g (renderedArguments initializers) ∨
        Exposed scope (MentionsArgument g · initializers)) ∧ scopeAfter scope ss = scope
  | [], scope, ss, hss => by
    cases hss
    simp [occurrencesStats, renderedArguments, MentionsArgument, scopeAfter]
  | ⟨_, value, _⟩ :: initializers, scope, ss, hss => by
    simp only [toLuaInitializers?, Option.bind_eq_bind, Option.bind_eq_some_iff,
      Option.some.injEq] at hss
    obtain ⟨_, -, property, -, x, hx, ss, hss, rfl⟩ := hss
    obtain ⟨hcaught, hbound⟩ := caught_toLuaInitializers? initializers scope hss
    refine ⟨?_, hbound⟩
    simp only [initializer, List.cons_append, List.nil_append, occurrencesStats, Stat.occurrences,
      Stat.bound, Exp.occurrences, caught_append, not_caught_own, caught_toLua? value _ hx,
      hcaught, renderedArguments, MentionsArgument, someCaptures_append, exposed_or]
    grind

theorem caught_toLuaDefaults? : ∀ (parameters : List Parameter) (scope : List Marked)
    {ss : List (Stat Marked)},
    (∀ p ∈ parameters, ∀ name, g.names.resolve p.name = some name → ¬ IsCaptured scope name) →
    toLuaDefaults? Marked.mk g parameters = some ss →
      (Caught (occurrencesStats scope ss) ↔ SomeCaptures g (renderedDefaults parameters) ∨
        Exposed scope (MentionsDefault g · parameters)) ∧ scopeAfter scope ss = scope
  | [], scope, ss, _, hss => by
    cases hss
    simp [occurrencesStats, renderedDefaults, MentionsDefault, scopeAfter]
  | ⟨_, _, _, none⟩ :: parameters, scope, ss, hown, hss => by
    rw [List.forall_mem_cons] at hown
    have hrest := caught_toLuaDefaults? parameters scope hown.2 hss
    simpa [renderedDefaults, renderedExpr?, MentionsDefault, MentionsExpr?] using hrest
  | ⟨_, _, _, some value⟩ :: parameters, scope, ss, hown, hss => by
    simp only [toLuaDefaults?, Option.bind_eq_bind, Option.bind_eq_some_iff, Option.some.injEq] at hss
    obtain ⟨name, hname, x, hx, ss, hss, rfl⟩ := hss
    rw [List.forall_mem_cons] at hown
    obtain ⟨hcaught, hbound⟩ := caught_toLuaDefaults? parameters scope hown.2 hss
    refine ⟨?_, hbound⟩
    simp only [defaultStat, occurrencesStats, Stat.occurrences, Stat.bound, Exp.occurrences,
      List.nil_append, caught_append, not_caught_nil, caught_given, hown.1 name hname,
      caught_toLua? value _ hx, hcaught, renderedDefaults, renderedExpr?, MentionsDefault, MentionsExpr?,
      someCaptures_append, exposed_or]
    grind

theorem caught_toLuaLocalList? : ∀ (locals : List Declaration) (scope : List Marked)
    {ss : List (Stat Marked)},
    toLuaLocalList? Marked.mk g locals = some ss →
      (Caught (occurrencesStats scope ss) ↔
        SomeCaptures g (renderedLocals locals) ∨ Exposed scope (MentionsLocal g · locals)) ∧
      ∀ name, IsCaptured (scopeAfter scope ss) name ↔
        (∀ l ∈ locals, g.names.resolve l.name ≠ some name) ∧ IsCaptured scope name
  | [], scope, ss, hss => by
    cases hss
    simp [occurrencesStats, renderedLocals, MentionsLocal, scopeAfter]
  | ⟨declaredName, type, value, constant⟩ :: locals, scope, ss, hss => by
    simp only [toLuaLocalList?, Option.bind_eq_bind, Option.bind_eq_some_iff, Option.some.injEq] at hss
    obtain ⟨s, hs, ss, hss, rfl⟩ := hss
    obtain ⟨hcaught, bound, hbound, hs⟩ := caught_toLuaLocal (caught_toLuaSite? value scope) hs
    obtain ⟨hrest, hinner⟩ := caught_toLuaLocalList? locals (⟨.tree, bound⟩ :: scope) hss
    have hne : ∀ name, bound ≠ name ↔ g.names.resolve declaredName ≠ some name :=
      fun name => by rw [hbound]; exact not_congr Option.some_inj.symm
    have hscope : ∀ name, IsCaptured (⟨.tree, bound⟩ :: scope) name ↔
        g.names.resolve declaredName ≠ some name ∧ IsCaptured scope name :=
      fun name => by rw [isCaptured_tree_cons, hne]
    refine ⟨?_, fun name => ?_⟩
    · simp only [occurrencesStats, hs, List.singleton_append, caught_append, hcaught, hrest,
        exposed_of_isCaptured_iff hscope, renderedLocals, MentionsLocal, someCaptures_append, exposed_or]
      grind
    · rw [scopeAfter, hs, List.singleton_append, hinner, hscope, List.forall_mem_cons]
      grind

theorem caught_toLuaLocals? : ∀ (locals : Option (List Declaration)) (scope : List Marked)
    {ss : List (Stat Marked)},
    toLuaLocals? Marked.mk g locals = some ss →
      (Caught (occurrencesStats scope ss) ↔
        SomeCaptures g (renderedLocals? locals) ∨ Exposed scope (MentionsLocal? g · locals)) ∧
      ∀ name, IsCaptured (scopeAfter scope ss) name ↔
        (∀ l ∈ locals.getD [], g.names.resolve l.name ≠ some name) ∧ IsCaptured scope name
  | none, scope, ss, hss => by
    cases hss
    simp [occurrencesStats, renderedLocals?, MentionsLocal?, scopeAfter]
  | some locals, scope, ss, hss => caught_toLuaLocalList? locals _ hss

/-- The same of the statements that a statement is in Lua, and what they bind in what follows. -/
theorem caught_toLuaStatement? : ∀ (s : Statement) (scope : List Marked)
    {ss : List (Stat Marked)},
    toLuaStatement? Marked.mk g s = some ss →
      (Caught (occurrencesStats scope ss) ↔
        SomeCaptures g s.rendered ∨ Exposed scope (MentionsIn g · s)) ∧
      ∀ name, IsCaptured (scopeAfter scope ss) name ↔ ¬ Declares g name s ∧ IsCaptured scope name
  | .expression value, scope, ss, hss => by
    simp only [toLuaStatement?, Option.bind_eq_bind, Option.bind_eq_some_iff, Option.some.injEq] at hss
    obtain ⟨x, hx, rfl⟩ := hss
    have hcaught := caught_toLua? value scope hx
    rw [callStats]
    split <;> simpa [occurrencesStats, Stat.occurrences, Stat.bound, scopeAfter, Statement.rendered,
      Captures, MentionsIn, Declares] using hcaught
  | .declaration ⟨declaredName, type, value, constant⟩, scope, ss, hss => by
    simp only [toLuaStatement?, Option.bind_eq_bind, Option.bind_eq_some_iff, Option.some.injEq] at hss
    obtain ⟨s, hs, rfl⟩ := hss
    obtain ⟨hcaught, bound, hbound, hs⟩ := caught_toLuaLocal (caught_toLuaSite? value scope) hs
    refine ⟨?_, fun name => ?_⟩
    · simpa [occurrencesStats, Statement.rendered, Captures, MentionsIn] using hcaught
    · simp [scopeAfter, hs, Declares, hbound]
  | .assignment target value, scope, ss, hss => by
    simp only [toLuaStatement?, Option.bind_eq_bind, Option.bind_eq_some_iff, Option.some.injEq] at hss
    obtain ⟨x, hx, y, hy, rfl⟩ := hss
    refine ⟨?_, fun name => by simp [scopeAfter, Stat.bound, Declares]⟩
    simp only [occurrencesStats, Stat.occurrences, List.append_nil, caught_append,
      caught_toLua? target _ hx, caught_toLua? value _ hy, Statement.rendered, Captures, MentionsIn,
      someCaptures_cons, someCaptures_append, exposed_or]
    grind
  | .result none, scope, ss, hss => by
    cases hss
    simp [occurrencesStats, Stat.occurrences, occurrencesExps, Statement.rendered, renderedExpr?, Captures,
      MentionsIn, MentionsExpr?, scopeAfter, Stat.bound, Declares]
  | .result (some value), scope, ss, hss => by
    simp only [toLuaStatement?, Option.bind_eq_bind, Option.bind_eq_some_iff, Option.some.injEq] at hss
    obtain ⟨x, hx, rfl⟩ := hss
    have hcaught := caught_toLua? value scope hx
    simpa [occurrencesStats, Stat.occurrences, occurrencesExps, Statement.rendered, renderedExpr?, Captures,
      MentionsIn, MentionsExpr?, scopeAfter, Stat.bound, Declares] using hcaught
  | .block body, scope, ss, hss => by
    simp only [toLuaStatement?, Option.bind_eq_bind, Option.bind_eq_some_iff, Option.some.injEq] at hss
    obtain ⟨statements, hstatements, rfl⟩ := hss
    have hcaught := caught_toLuaStatements? body scope hstatements
    simpa [occurrencesStats, Stat.occurrences, Statement.rendered, Captures, MentionsIn, scopeAfter,
      Stat.bound, Declares] using hcaught

theorem caught_toLuaStatements? : ∀ (statements : List Statement) (scope : List Marked)
    {ss : List (Stat Marked)},
    toLuaStatements? Marked.mk g statements = some ss →
      (Caught (occurrencesStats scope ss) ↔ SomeCaptures g (renderedStatements statements) ∨
        Exposed scope (MentionsStatement g · statements))
  | [], scope, ss, hss => by
    cases hss
    simp [occurrencesStats, renderedStatements, MentionsStatement]
  | s :: statements, scope, ss, hss => by
    simp only [toLuaStatements?, Option.bind_eq_bind, Option.bind_eq_some_iff, Option.some.injEq] at hss
    obtain ⟨ss, hss, ts, hts, rfl⟩ := hss
    obtain ⟨hcaught, hinner⟩ := caught_toLuaStatement? s scope hss
    have hrest := caught_toLuaStatements? statements (scopeAfter scope ss) hts
    simp only [occurrencesStats_append, caught_append, hcaught, hrest, exposed_of_isCaptured_iff hinner,
      renderedStatements, MentionsStatement, someCaptures_append, exposed_or]
    grind

end

/-! ## The generator -/

/-- An emitted text is hygienic exactly when no node of the tree captures a name. -/
theorem hygienic_generateExpression_iff {names : NameTable} {config : Config} {e : Expr} {text : String}
    (haccepted : ((Generator.new names config).generateExpression e).1 = .ok text)
    (hraw : ∀ node ∈ e.rendered, node.isRaw = false)
    (hnames : ∀ node ∈ e.rendered, ∀ s ∈ node.symbols, ∀ name ∈ names.resolve s, isName name = true) :
    ∃ x, toLua? Marked.mk ⟨names, config⟩ e = some x ∧
      ((∀ node ∈ e.rendered, node.customText? = none) →
        (∀ node ∈ e.rendered, ∀ site ∈ node.sites, site.takesSuffix = true) →
          lex text.toList = x.tokens Marked.text) ∧
      (Hygienic x ↔ ∀ node ∈ e.rendered, ¬ Captures ⟨names, config⟩ node) := by
  have hw : Yields (emitExpr ⟨names, config⟩ e) 0 () text.toList := generateExpression_eq_ok.1 haccepted
  obtain ⟨x, hx⟩ := exists_toLua? Marked.mk e hraw hw
  refine ⟨x, hx, fun hoperators hsites => ?_, ?_⟩
  · have hspellable : ∀ node ∈ e.rendered, Spellable ⟨names, config⟩ node := fun node hnode =>
      ⟨hraw node hnode, hoperators node hnode, hnames node hnode, hsites node hnode⟩
    have hsome : ∃ y, toLua? Marked.mk ⟨names, config⟩ e = some y ∧ Written Marked.text text.toList y :=
      written_emitExpr (fun _ _ => rfl) e hspellable hw
    obtain ⟨y, hy, hwritten⟩ := hsome
    obtain rfl : x = y := Option.some_inj.1 (hx.symm.trans hy)
    exact lex_of_written hwritten
  · rw [hygienic_iff_not_caught, caught_toLua? e [] hx]
    simp [Exposed, SomeCaptures]

/-- The operands of a division can have the names of its parameters. -/
theorem hygienic_division_of_a_by_b :
    ∃ x, toLua? Marked.mk ⟨⟨["a", "b"]⟩, {}⟩
        (.binary (.standard .truncatedDivision) (.identifier ⟨0⟩) (.identifier ⟨1⟩)) = some x ∧
      ((∀ node ∈ (Expr.binary (.standard .truncatedDivision) (.identifier ⟨0⟩)
            (.identifier ⟨1⟩)).rendered, node.customText? = none) →
        (∀ node ∈ (Expr.binary (.standard .truncatedDivision) (.identifier ⟨0⟩)
            (.identifier ⟨1⟩)).rendered, ∀ site ∈ node.sites, site.takesSuffix = true) →
          lex "(function(a, b) return (a - math.fmod(a, b)) // b end)(a, b)".toList =
            x.tokens Marked.text) ∧
      (Hygienic x ↔ ∀ node ∈ (Expr.binary (.standard .truncatedDivision) (.identifier ⟨0⟩)
        (.identifier ⟨1⟩)).rendered, ¬ Captures ⟨⟨["a", "b"]⟩, {}⟩ node) :=
  hygienic_generateExpression_iff rfl (by decide) (by decide)

/-- An argument of a guarded call with the name of the parameter of the guard is captured. -/
theorem not_hygienic_guarded_call_with_t :
    ∃ text x,
      ((Generator.new ⟨["x", "foo", "t"]⟩ {}).generateExpression
        (.call (some (.identifier ⟨0⟩)) ⟨⟨1⟩, true, false⟩ [.positional (.identifier ⟨2⟩)] false)).1 =
          .ok text ∧
      toLua? Marked.mk ⟨⟨["x", "foo", "t"]⟩, {}⟩
        (.call (some (.identifier ⟨0⟩)) ⟨⟨1⟩, true, false⟩ [.positional (.identifier ⟨2⟩)] false) =
          some x ∧
      lex text.toList = x.tokens Marked.text ∧ ¬ Hygienic x :=
  ⟨"(function(t) if t == nil then return nil end return t:foo(t) end)(x)", _, rfl, rfl, rfl, by decide⟩

end CodeTree.Lua
