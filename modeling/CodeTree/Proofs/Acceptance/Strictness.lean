import CodeTree.Proofs.Acceptance.Relaxed
import CodeTree.Proofs.Acceptance.Representable
import CodeTree.Proofs.Emission.Source

/-! # What strict settings cost

Two settings say what is refused: raw code may be forbidden, and so may the names of arguments. Each of
them takes answers away and changes none. Forbidding names costs exactly the trees in which a rendered
call, indexed property or constructor has a named argument.

* `Keeps.answer_eq_ok`: answers of actions that keep what another one writes.
* `representable_rejecting_iff`: what forbidding names asks of a node.
* `strictness_only_refuses`: the answers under strict and relaxed settings. -/

namespace CodeTree.Lua

set_option autoImplicit false

/-! ## Relaxing -/

/-- What is written from an empty draft is kept, and so is the text made of it. -/
theorem Keeps.answer_eq_ok {action action' : Emit Unit} (h : Keeps action action')
    (generator generator' : Generator) {finish : Draft → String} {text : String}
    (hanswer : (generator.clear.run action finish).1 = .ok text) :
    (generator'.clear.run action' finish).1 = .ok text := by
  have hdraft (generator : Generator) : generator.clear.draft = Draft.empty := rfl
  rw [Generator.run, EStateM.run, hdraft] at hanswer ⊢
  cases hrun : action Draft.empty with
  | ok a d =>
    rw [hrun] at hanswer
    rw [h _ a d hrun]
    exact hanswer
  | error error d =>
    rw [hrun] at hanswer
    cases hanswer

theorem keeps_emit {g : Setting} {names : NameTable} {allow : Bool} {named : NamedArguments}
    (h : Relaxes g names allow named) (source : Source) :
    Keeps (source.emit g) (source.emit (g.relaxed names allow named)) := by
  cases source with
  | expression e => exact keeps_emitExpr h e
  | statements body => exact keeps_emitStatements h body

/-- A text is the same under relaxed settings, whatever was written before. -/
theorem generate_relaxed {g : Setting} {names : NameTable} {allow : Bool} {named : NamedArguments}
    (h : Relaxes g names allow named) {source : Source} {text : String} (d d' : Draft)
    (htext : ((Generator.mk g d).generate source).1 = .ok text) :
    ((Generator.mk (g.relaxed names allow named) d').generate source).1 = .ok text := by
  rw [Generator.generate_eq] at htext ⊢
  exact (keeps_emit h source).answer_eq_ok _ _ htext

/-! ## Forbidding names -/

theorem isOk_generate_iff {generator : Generator} {source : Source} :
    (generator.generate source).1.isOk = true ↔
      AllRepresentable generator.setting source.rendered := by
  cases source with
  | expression e => exact generateExpression_isOk
  | statements body => exact generateStatements_isOk

section Rejecting

variable {g : Setting}

/-- The same settings without names of arguments. -/
def Setting.rejecting (g : Setting) : Setting := g.permitting g.config.allowRaw .reject

theorem admits_rejecting_iff (hpositional : g.config.namedArguments = .positional)
    {name : Option Symbol} {passing : Passing} :
    admits g.rejecting name passing ↔ admits g name passing ∧ name = none := by
  simp [admits, Setting.rejecting, Setting.permitting, hpositional]

theorem admitted_rejecting_iff (hpositional : g.config.namedArguments = .positional)
    {arguments : List Argument} :
    (∀ a ∈ arguments, admits g.rejecting a.name a.passing) ↔
      (∀ a ∈ arguments, admits g a.name a.passing) ∧ ∀ a ∈ arguments, a.name = none := by
  simp only [admits_rejecting_iff hpositional, imp_and, forall_and]

/-- Without names of arguments a node is representable if it was before and has no named argument. -/
theorem representable_rejecting_iff (hpositional : g.config.namedArguments = .positional)
    {node : Node} :
    Representable g.rejecting node ↔ Representable g node ∧ ∀ a ∈ node.arguments, a.name = none := by
  have hnone {node : Node} (hsame : Representable g.rejecting node = Representable g node)
      (harguments : node.arguments = []) :
      Representable g.rejecting node ↔
        Representable g node ∧ ∀ a ∈ node.arguments, a.name = none := by
    rw [hsame, harguments]
    simp
  cases node with
  | expression e =>
    cases e with
    | call site selection arguments optional =>
      show Named g _ ∧ _ ↔ (Named g _ ∧ _) ∧ ∀ a ∈ arguments, a.name = none
      rw [admitted_rejecting_iff hpositional, and_assoc]
    | property site selection indices =>
      show Named g _ ∧ _ ↔ (Named g _ ∧ _) ∧ ∀ a ∈ indices, a.name = none
      rw [admitted_rejecting_iff hpositional, and_assoc]
    | construct type constructor arguments initializers =>
      show Named g _ ∧ _ ∧ _ ∧ (∀ i ∈ initializers, ∃ property, _ ∧ Named g property) ↔
        (Named g _ ∧ _ ∧ _ ∧ _) ∧ ∀ a ∈ arguments, a.name = none
      rw [admitted_rejecting_iff hpositional]
      constructor
      · rintro ⟨htype, hconstructor, ⟨hadmitted, hnames⟩, hinitializers⟩
        exact ⟨⟨htype, hconstructor, hadmitted, hinitializers⟩, hnames⟩
      · rintro ⟨⟨htype, hconstructor, hadmitted, hinitializers⟩, hnames⟩
        exact ⟨htype, hconstructor, ⟨hadmitted, hnames⟩, hinitializers⟩
    | wrapped wrapper inner => cases wrapper <;> exact hnone rfl rfl
    | shared s => exact hnone rfl rfl
    | atom a => cases a <;> exact hnone rfl rfl
    | _ => exact hnone rfl rfl
  | statement s => cases s <;> exact hnone rfl rfl
  | member | raw => exact hnone rfl rfl

theorem allRepresentable_rejecting_iff (hpositional : g.config.namedArguments = .positional)
    {nodes : List Node} :
    AllRepresentable g.rejecting nodes ↔
      AllRepresentable g nodes ∧ ∀ node ∈ nodes, ∀ a ∈ node.arguments, a.name = none := by
  simp only [AllRepresentable, representable_rejecting_iff hpositional, imp_and, forall_and]

end Rejecting

/-- Strict settings refuse some trees and change no text. What is written while raw code or names of
arguments are forbidden is written the same once they are permitted. What is written with names of
arguments is refused without them exactly if a rendered node has a named argument. -/
theorem strictness_only_refuses (g : Setting) (source : Source) (d d' : Draft) :
    (∀ (allow : Bool) (named : NamedArguments) (text : String),
      (g.config.allowRaw = true → allow = true) →
      (g.config.namedArguments = .positional → named = .positional) →
      ((Generator.mk g d).generate source).1 = .ok text →
        ((Generator.mk (g.permitting allow named) d').generate source).1 = .ok text) ∧
    (g.config.namedArguments = .positional →
      ((Generator.mk g d).generate source).1.isOk = true →
        (((Generator.mk (g.permitting g.config.allowRaw .reject) d').generate source).1.isOk = false ↔
          ∃ node ∈ source.rendered, ∃ a ∈ node.arguments, a.name.isSome = true)) := by
  refine ⟨fun allow named text hallow hnamed htext => ?_, fun hpositional hok => ?_⟩
  · have hrelaxes : Relaxes g g.names allow named := ⟨fun _ _ hname => hname, hallow, hnamed⟩
    exact generate_relaxed hrelaxes d d' htext
  · have hwritten : AllRepresentable g source.rendered := isOk_generate_iff.1 hok
    have hstrict : ((Generator.mk g.rejecting d').generate source).1.isOk = true ↔
        ∀ node ∈ source.rendered, ∀ a ∈ node.arguments, a.name = none := by
      rw [isOk_generate_iff]
      exact (allRepresentable_rejecting_iff hpositional).trans (and_iff_right hwritten)
    show ((Generator.mk g.rejecting d').generate source).1.isOk = false ↔ _
    rw [← Bool.not_eq_true, hstrict]
    simp only [not_forall, exists_prop, Option.isSome_iff_ne_none, ne_eq]

/-- The indexed property `x.p[y]` under the three laxer settings, and with a name for its index. -/
theorem strictness_of_indexed_property :
    let names : NameTable := ⟨["x", "p", "y"]⟩
    let property (index : Argument) : Source :=
      .expression (.property (some (.identifier ⟨0⟩)) (.named ⟨1⟩) [index])
    let answer (allow : Bool) (named : NamedArguments) (index : Argument) : Answer :=
      ((Generator.mk ⟨names, { allowRaw := allow, namedArguments := named }⟩ Draft.empty).generate
        (property index)).1
    (answer false .reject (.positional (.identifier ⟨2⟩)) = .ok "x.p[y]" ∧
      answer true .reject (.positional (.identifier ⟨2⟩)) = .ok "x.p[y]" ∧
      answer false .positional (.positional (.identifier ⟨2⟩)) = .ok "x.p[y]" ∧
      answer true .positional (.positional (.identifier ⟨2⟩)) = .ok "x.p[y]") ∧
    (answer false .positional (.named (.identifier ⟨2⟩) ⟨1⟩)).isOk = true ∧
      (answer false .reject (.named (.identifier ⟨2⟩) ⟨1⟩)).isOk = false := by
  have hstrict (source : Source) := strictness_only_refuses
    ⟨⟨["x", "p", "y"]⟩, { namedArguments := .reject }⟩ source Draft.empty Draft.empty
  have hlax (source : Source) := strictness_only_refuses
    ⟨⟨["x", "p", "y"]⟩, {}⟩ source Draft.empty Draft.empty
  refine ⟨⟨rfl, (hstrict _).1 true .reject _ nofun nofun rfl, (hstrict _).1 false .positional _ nofun
    (fun _ => rfl) rfl, (hstrict _).1 true .positional _ nofun (fun _ => rfl) rfl⟩, rfl, ?_⟩
  exact ((hlax _).2 rfl rfl).2 ⟨_, List.mem_cons_self, _, List.mem_cons_self, rfl⟩

end CodeTree.Lua
