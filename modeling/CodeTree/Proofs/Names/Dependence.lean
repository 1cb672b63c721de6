import CodeTree.Proofs.Acceptance.Strictness
import CodeTree.Proofs.Names.Occurrences

/-! # Symbols and generated text

What is written depends on the symbols of a tree only by the texts they stand for. Two trees of one
shape, each with its own table, are renamed to one tree over a table that has the names of both, and
that tree is written as either of them. So it does not matter which other names a table has, nor in which
order, and an unknown symbol is reported only if the tree has one.

* `Source.Corresponds`, `Source.symbols`: correspondence and symbols of what is written.
* `generate_revise`: faithful revisions are not noticed.
* `generate_eq_of_corresponds`: two runs over two tables.
* `answers_depend_on_names`: all of this for a generator. -/

namespace CodeTree.Lua

set_option autoImplicit false

namespace Source

/-- Two sources have one shape and related symbols in the same places. -/
def Corresponds (R : Symbol → Symbol → Prop) : Source → Source → Prop
  | expression e, expression e' => e.Corresponds R e'
  | statements body, statements body' => List.Forall₂ (Statement.Corresponds R) body body'
  | _, _ => False

/-- The symbols in the fields of all nodes. -/
def symbols : Source → List Symbol
  | expression e => (Node.expression e).allSymbols
  | statements body => body.flatMap fun s => (Node.statement s).allSymbols

def revise (r : Revision) : Source → Source
  | expression e => expression (e.revise r)
  | statements body => statements (reviseStatements r body)

theorem revise_eq_of_corresponds {R : Symbol → Symbol → Prop} {ρ ρ' : Symbol → Symbol}
    (h : ∀ s s', R s s' → ρ s = ρ' s') {source source' : Source}
    (hsource : source.Corresponds R source') :
    source.revise (.merging ρ) = source'.revise (.merging ρ') := by
  cases source with
  | expression e =>
    cases source' with
    | expression e' => exact congrArg expression (Expr.Corresponds.revise_eq h hsource)
    | statements body' => exact hsource.elim
  | statements body =>
    cases source' with
    | expression e' => exact hsource.elim
    | statements body' =>
      exact congrArg statements (reviseStatements_eq_of_correspond h hsource)

theorem corresponds_self {R : Symbol → Symbol → Prop} (source : Source)
    (h : ∀ s ∈ source.symbols, R s s) : source.Corresponds R source := by
  cases source with
  | expression e => exact (Node.expression e).corresponds_self h
  | statements body =>
    exact List.forall₂_same.2 fun s hs => (Node.statement s).corresponds_self fun t ht =>
      h t (List.mem_flatMap.2 ⟨s, hs, ht⟩)

/-- A symbol that is asked for stands in a field. -/
theorem mem_symbols_of_asked {named : NamedArguments} {source : Source} {node : Node} {s : Symbol}
    (hnode : node ∈ source.rendered) (hs : s ∈ node.asked named) : s ∈ source.symbols := by
  have hfield : s ∈ node.fieldSymbols := node.asked_subset_fieldSymbols named hs
  cases source with
  | expression e =>
    exact List.mem_flatMap.2 ⟨node, (Node.expression e).rendered_subset_nodes hnode, hfield⟩
  | statements body =>
    rw [rendered, renderedStatements_eq] at hnode
    obtain ⟨_, hstatement, hnode⟩ := List.mem_flatMap.1 hnode
    obtain ⟨statement, hmem, rfl⟩ := List.mem_map.1 hstatement
    have hall := List.mem_flatMap.2
      ⟨node, (Node.statement statement).rendered_subset_nodes hnode, hfield⟩
    exact List.mem_flatMap.2 ⟨statement, hmem, hall⟩

end Source

/-! ## Two runs -/

/-- A faithful revision is written as before, or refused for a reason of the same kind. -/
theorem generate_revise {r : Revision} {g : Setting} {names : NameTable} (h : Faithful r g names)
    (source : Source) (d d' : Draft) :
    ((Generator.mk g d).generate source).1.mapError EmitError.kind =
      ((Generator.mk (g.withNames names) d').generate (source.revise r)).1.mapError EmitError.kind := by
  cases source with
  | expression e => exact generateExpression_revise h e d d'
  | statements body => exact generateStatements_revise h body d d'

variable {config : Config} {names names' : NameTable}

/-- Corresponding sources have one text, or are refused for reasons of one kind, if related symbols stand
for the same texts. -/
theorem generate_eq_of_corresponds {R : Symbol → Symbol → Prop}
    (h : ∀ s s', R s s' → names.resolve s = names'.resolve s') {source source' : Source}
    (hsource : source.Corresponds R source') (d d' : Draft) :
    ((Generator.mk ⟨names, config⟩ d).generate source).1.mapError EmitError.kind =
      ((Generator.mk ⟨names', config⟩ d').generate source').1.mapError EmitError.kind := by
  -- Both are renamed to symbols of a table with the names of both.
  let joint : NameTable := ⟨names.names ++ names'.names⟩
  have hmerge (t : NameTable) (hsubset : t.names ⊆ joint.names) (source : Source) (d : Draft) :
      ((Generator.mk ⟨t, config⟩ d).generate source).1.mapError EmitError.kind =
        ((Generator.mk ⟨joint, config⟩ Draft.empty).generate
          (source.revise (.merging (t.translate joint)))).1.mapError EmitError.kind :=
    generate_revise (faithful_merging (g := ⟨t, config⟩) fun s =>
      (NameTable.resolve_translate hsubset s).symm) source d Draft.empty
  have hmerged : source.revise (.merging (names.translate joint)) =
      source'.revise (.merging (names'.translate joint)) :=
    Source.revise_eq_of_corresponds
      (fun s s' hs => NameTable.translate_eq_of_resolve_eq (h s s' hs)) hsource
  rw [hmerge names (List.subset_append_left _ _), hmerge names' (List.subset_append_right _ _), hmerged]

/-- A symbol that is reported as unknown stands in the tree and has no name. -/
theorem mem_symbols_of_unknownSymbol {source : Source} {d : Draft} {s : Symbol}
    (h : ((Generator.mk ⟨names, config⟩ d).generate source).1 = .error (.tree (.unknownSymbol s))) :
    s ∈ source.symbols ∧ names.resolve s = none := by
  have hasks : AsksUnknown ⟨names, config⟩ source.rendered s := by
    cases source with
    | expression e => exact asksUnknown_of_generateExpression h
    | statements body => exact asksUnknown_of_generateStatements h
  obtain ⟨node, hnode, hasked, hunknown⟩ := hasks
  exact ⟨Source.mem_symbols_of_asked hnode hasked, hunknown⟩

/-- Only the names of symbols show. Sources of one shape whose symbols stand for the same texts have one
text, or are refused for reasons of one kind, whatever tables they are written with. Further names in the
table change no text, and no answer if all symbols had names before; nor does another order of the names.
An unknown symbol is reported only if it stands in the source. -/
theorem answers_depend_on_names (config : Config) (source : Source) (d d' : Draft) :
    (∀ (names names' : NameTable) (source' : Source),
      source.Corresponds (fun s s' => names.resolve s = names'.resolve s') source' →
        ((Generator.mk ⟨names, config⟩ d).generate source).1.mapError EmitError.kind =
          ((Generator.mk ⟨names', config⟩ d').generate source').1.mapError EmitError.kind) ∧
    (∀ (names : NameTable) (more : List String) (text : String),
      ((Generator.mk ⟨names, config⟩ d).generate source).1 = .ok text →
        ((Generator.mk ⟨names.internAll more, config⟩ d').generate source).1 = .ok text) ∧
    (∀ (names : NameTable) (more : List String),
      (∀ s ∈ source.symbols, (names.resolve s).isSome = true) →
        ((Generator.mk ⟨names, config⟩ d).generate source).1.mapError EmitError.kind =
          ((Generator.mk ⟨names.internAll more, config⟩ d').generate source).1.mapError
            EmitError.kind) ∧
    (∀ texts texts' : List String, (∀ text, text ∈ texts ↔ text ∈ texts') →
      let names := NameTable.ofList texts
      let names' := NameTable.ofList texts'
      ((Generator.mk ⟨names, config⟩ d).generate source).1.mapError EmitError.kind =
        ((Generator.mk ⟨names', config⟩ d').generate
          (source.revise (.renaming (names.translate names')))).1.mapError EmitError.kind) ∧
    (∀ (names : NameTable) (s : Symbol),
      ((Generator.mk ⟨names, config⟩ d).generate source).1 = .error (.tree (.unknownSymbol s)) →
        s ∈ source.symbols ∧ names.resolve s = none) ∧
    ∀ names : NameTable, (∀ s ∈ source.symbols, (names.resolve s).isSome = true) →
      ∀ s, ((Generator.mk ⟨names, config⟩ d).generate source).1 ≠
        .error (.tree (.unknownSymbol s)) := by
  refine ⟨fun names names' source' h => generate_eq_of_corresponds (fun _ _ hs => hs) h d d',
    fun names more text htext => ?_, fun names more hknown => ?_, fun texts texts' hsame => ?_,
    fun names s => mem_symbols_of_unknownSymbol, fun names hknown s h => ?_⟩
  · have hrelaxes : Relaxes ⟨names, config⟩ (names.internAll more) config.allowRaw
        config.namedArguments := ⟨fun s text hs => NameTable.resolve_internAll hs more, id, id⟩
    exact generate_relaxed hrelaxes d d' htext
  · have hkept : ∀ s ∈ source.symbols, names.resolve s = (names.internAll more).resolve s := by
      intro s hs
      obtain ⟨text, htext⟩ := Option.isSome_iff_exists.1 (hknown s hs)
      rw [htext, NameTable.resolve_internAll htext more]
    exact generate_eq_of_corresponds (fun _ _ hs => hs) (source.corresponds_self hkept) d d'
  · have hsubset : (NameTable.ofList texts).names ⊆ (NameTable.ofList texts').names := by
      intro text htext
      rw [NameTable.names_ofList, List.mem_eraseDups] at htext ⊢
      exact (hsame text).1 htext
    have hfaithful := faithful_renaming (g := ⟨NameTable.ofList texts, config⟩)
      fun s => (NameTable.resolve_translate hsubset s).symm
    exact generate_revise hfaithful source d d'
  · obtain ⟨hs, hunknown⟩ := mem_symbols_of_unknownSymbol h
    have hsome := hknown s hs
    rw [hunknown] at hsome
    cases hsome

/-- The call `f(x)` over two tables, and with an unknown symbol for its argument. -/
theorem names_of_call :
    let call (f x : Symbol) : Source :=
      .statements [.expression (.call none (.named f) [.positional (.identifier x)] false)]
    let answer (texts : List String) (source : Source) : Answer :=
      ((Generator.mk ⟨.ofList texts, {}⟩ Draft.empty).generate source).1
    (answer ["f", "x"] (call ⟨0⟩ ⟨1⟩)).mapError EmitError.kind =
        (answer ["x", "y", "f"] (call ⟨2⟩ ⟨0⟩)).mapError EmitError.kind ∧
      answer ["f", "x", "y"] (call ⟨0⟩ ⟨1⟩) = .ok "f(x)\n" ∧
      (answer ["f", "x"] (call ⟨0⟩ ⟨1⟩)).mapError EmitError.kind =
        (answer ["f", "x", "y"] (call ⟨0⟩ ⟨1⟩)).mapError EmitError.kind ∧
      (answer ["f", "x"] (call ⟨0⟩ ⟨1⟩)).mapError EmitError.kind =
        (answer ["x", "f"] (call ⟨1⟩ ⟨0⟩)).mapError EmitError.kind ∧
      (⟨7⟩ : Symbol) ∈ (call ⟨0⟩ ⟨7⟩).symbols ∧
      ∀ s, answer ["f", "x"] (call ⟨0⟩ ⟨1⟩) ≠ .error (.tree (.unknownSymbol s)) := by
  intro call answer
  obtain ⟨hshape, hmore, hknown, horder, -, hnever⟩ :=
    answers_depend_on_names {} (call ⟨0⟩ ⟨1⟩) Draft.empty Draft.empty
  have hunknown := (answers_depend_on_names {} (call ⟨0⟩ ⟨7⟩) Draft.empty Draft.empty).2.2.2.2.1
  have hall : ∀ s ∈ (call ⟨0⟩ ⟨1⟩).symbols, ((NameTable.ofList ["f", "x"]).resolve s).isSome = true := by
    have hsymbols : (call ⟨0⟩ ⟨1⟩).symbols = [⟨0⟩, ⟨1⟩] := by
      simp [call, Source.symbols, Node.allSymbols_eq, Node.seen, Node.children, Node.fieldSymbols,
        Expr.node, Expr.fieldSymbols, Atom.fieldSymbols, Statement.operands, Statement.body,
        Expr.operands, Expr.body, Expr.members, Expr.raw?, Expr.atom?, Atom.raw?, Expr.identifier,
        Selection.named, Argument.positional]
    rw [hsymbols]
    decide
  have hcall : (call ⟨0⟩ ⟨1⟩).Corresponds (fun s s' =>
      (NameTable.ofList ["f", "x"]).resolve s = (NameTable.ofList ["x", "y", "f"]).resolve s')
      (call ⟨2⟩ ⟨0⟩) :=
    .cons (.expression (.call false .none (.intro false false rfl)
      (.cons (.intro .byValue .none (.atom (.identifier rfl))) .nil))) .nil
  exact ⟨hshape _ _ _ hcall, hmore _ ["y"] _ rfl, hknown _ ["y"] hall,
    horder ["f", "x"] ["x", "f"] (by simp [or_comm]), (hunknown (.ofList ["f", "x"]) ⟨7⟩ rfl).1,
    hnever _ hall⟩

end CodeTree.Lua
