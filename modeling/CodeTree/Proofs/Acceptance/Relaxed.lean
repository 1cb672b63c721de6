import CodeTree.Proofs.Acceptance.Permissions
import CodeTree.Proofs.Variants.Agreement

/-! # Settings that allow more

A setting is relaxed by permissions and by further names. Where the strict setting writes something, the
relaxed one writes the same: a permission is looked at only to refuse, and a name that was found stays
what it is. So texts are never changed by relaxing a setting, only added.

* `Keeps`: an action ends as another one does wherever that one ends.
* `comparison_keeps`: this is kept by everything the emitter is built from.
* `Setting.relaxed` and `Relaxes`: the settings.
* `keeps_emitExpr`, `keeps_emitStatements`: writing a tree under them. -/

namespace CodeTree.Lua

set_option autoImplicit false

variable {α β : Type}

/-- Wherever the first action ends, the second one ends with the same value and the same draft. -/
def Keeps (action action' : Emit α) : Prop := ∀ d a d', action d = .ok a d' → action' d = .ok a d'

/-! ## Composition -/

@[refl] theorem Keeps.refl (action : Emit α) : Keeps action action := fun _ _ _ h => h

theorem Keeps.bind {action action' : Emit α} {next next' : α → Emit β} (h : Keeps action action')
    (hnext : ∀ a, Keeps (next a) (next' a)) : Keeps (action >>= next) (action' >>= next') := by
  intro d b d' hrun
  change EStateM.bind action next d = .ok b d' at hrun
  show EStateM.bind action' next' d = .ok b d'
  rw [EStateM.bind] at hrun ⊢
  cases haction : action d with
  | ok a d₁ =>
    rw [haction] at hrun
    rw [h d a d₁ haction]
    exact hnext a d₁ b d' hrun
  | error error d₁ =>
    rw [haction] at hrun
    cases hrun

/-- The same action, and then two that agree where the first of them ends. -/
theorem Keeps.after {action : Emit α} {next next' : α → Emit β} (h : ∀ a, Keeps (next a) (next' a)) :
    Keeps (action >>= next) (action >>= next') :=
  (Keeps.refl action).bind h

/-- A refusal keeps nothing, so anything may stand for it. -/
theorem keeps_refuse (error : EmitError) (action : Emit α) : Keeps (refuse error) action := nofun

theorem keeps_bind_refuse (action : Emit α) (error : α → EmitError) (action' : Emit β) :
    Keeps (action >>= fun a => refuse (error a)) action' := by
  intro d b d' hrun
  change EStateM.bind action (fun a => refuse (error a)) d = .ok b d' at hrun
  rw [EStateM.bind] at hrun
  cases haction : action d <;> rw [haction] at hrun <;> cases hrun

theorem Keeps.capture {action action' : Emit Unit} (h : Keeps action action') :
    Keeps (capture action) (Lua.capture action') :=
  Keeps.after fun _ => Keeps.after fun _ => h.bind fun _ => Keeps.refl _

theorem Keeps.deeper {action action' : Emit Unit} (h : Keeps action action') :
    Keeps (deeper action) (Lua.deeper action') :=
  Keeps.after fun _ => h.bind fun _ => Keeps.refl _

theorem comparison_keeps : Comparison Keeps where
  pure _ := .refl _
  write _ := .refl _
  indent _ := .refl _
  useBitLibrary := .refl _
  refuse _ := .refl _
  bind := .bind
  capture _ h := h.capture.bind fun _ => .refl _
  deeper := .deeper

/-! ## Relaxed settings -/

/-- Another table of names and other permissions, all else the same. -/
def Setting.relaxed (g : Setting) (names : NameTable) (allow : Bool) (named : NamedArguments) : Setting :=
  (g.withNames names).permitting allow named

/-- Names that are found stay as they are, and what is permitted stays permitted. -/
structure Relaxes (g : Setting) (names : NameTable) (allow : Bool) (named : NamedArguments) : Prop where
  names : ∀ s name, g.names.resolve s = some name → names.resolve s = some name
  raw : g.config.allowRaw = true → allow = true
  named : g.config.namedArguments = .positional → named = .positional

variable {g : Setting} {names : NameTable} {allow : Bool} {named : NamedArguments}

/-! ## The forms of nodes -/

theorem keeps_nameOf (h : Relaxes g names allow named) (s : Symbol) :
    Keeps (nameOf g s) (nameOf (g.relaxed names allow named) s) := by
  have hnames : (g.relaxed names allow named).names.resolve s = names.resolve s := rfl
  rw [nameOf_eq, nameOf_eq, hnames]
  cases hs : g.names.resolve s with
  | none => exact keeps_refuse _ _
  | some name => rw [h.names s name hs]

theorem keeps_writeName (h : Relaxes g names allow named) (s : Symbol) :
    Keeps (writeName g s) (writeName (g.relaxed names allow named) s) :=
  (keeps_nameOf h s).bind fun _ => Keeps.refl _

theorem keeps_emitAtom (h : Relaxes g names allow named) (a : Atom) :
    Keeps (emitAtom g a) (emitAtom (g.relaxed names allow named) a) := by
  cases a with
  | identifier name => exact keeps_writeName h name
  | localVariable read => exact keeps_writeName h read.name
  | typeReference type => exact keeps_writeName h type.name
  | enumValue value =>
    exact (keeps_nameOf h value.type.name).bind fun _ => (keeps_nameOf h value.value).bind fun _ =>
      Keeps.refl _
  | raw code =>
    rw [emitAtom, emitAtom]
    by_cases hallow : g.config.allowRaw = true
    · have hrelaxed : (g.relaxed names allow named).config.allowRaw = true := h.raw hallow
      rw [if_pos hallow, if_pos hrelaxed]
      exact comparison_keeps.lines (by rfl) code.lines
    · rw [if_neg hallow]
      exact keeps_refuse _ _
  | _ => exact Keeps.refl _

/-- The name of an argument is looked at only where names are refused. -/
theorem keeps_checkArgument (h : Relaxes g names allow named) (name : Option Symbol)
    (passing : Passing) :
    Keeps (checkArgument g name passing)
      (checkArgument (g.relaxed names allow named) name passing) := by
  cases passing with
  | byRef | out => exact Keeps.refl _
  | byValue =>
    cases name with
    | none => exact Keeps.refl _
    | some name =>
      have hnamed : (g.relaxed names allow named).config.namedArguments = named := rfl
      unfold checkArgument
      rw [hnamed]
      cases hpositional : g.config.namedArguments with
      | positional => rw [h.named hpositional]
      | reject => exact keeps_bind_refuse _ _ _

theorem standsAlone_relaxed (h : Relaxes g names allow named) {e : Expr}
    (hstands : standsAlone g e = true) :
    standsAlone (g.relaxed names allow named) e = true := by
  unfold standsAlone at hstands ⊢
  split at hstands
  · rfl
  · exact h.raw hstands
  · cases hstands

/-! ## Trees -/

theorem compares_relaxed (h : Relaxes g names allow named) :
    Compares Keeps g (g.relaxed names allow named) {} :=
  comparison_keeps.compares rfl (fun _ => keeps_refuse _ _) (fun s => keeps_emitAtom h s.atom)
    (keeps_nameOf h) fun s _ => (keeps_nameOf h s).bind fun _ => .refl _

theorem comparesAt_relaxed (h : Relaxes g names allow named) (node : Node) :
    ComparesAt Keeps g (g.relaxed names allow named) {} node := by
  cases node with
  | expression e =>
    cases e with
    | atom a => exact keeps_emitAtom h a
    | binary => exact fun _ _ _ _ => comparison_keeps.binary rfl
    | call | property | construct => exact fun a _ => keeps_checkArgument h a.name a.passing
    | _ => trivial
  | statement s =>
    cases s with
    | expression value =>
      intro action action' haction
      rw [value.revise_id]
      by_cases hstands : standsAlone g value = true
      · rw [if_pos hstands, if_pos (standsAlone_relaxed h hstands)]
        exact comparison_keeps.expressionLine rfl haction
      · rw [if_neg hstands]
        exact keeps_refuse _ _
    | _ => trivial
  | member | raw => trivial

/-- Where the strict setting writes an expression, the relaxed one writes the same. -/
theorem keeps_emitExpr (h : Relaxes g names allow named) (e : Expr) :
    Keeps (emitExpr g e) (emitExpr (g.relaxed names allow named) e) := by
  have hcompares := compares_emitExpr (compares_relaxed h) e fun node _ => comparesAt_relaxed h node
  rwa [e.revise_id] at hcompares

/-- Where the strict setting writes statements, the relaxed one writes the same. -/
theorem keeps_emitStatements (h : Relaxes g names allow named) (statements : List Statement) :
    Keeps (emitStatements g statements) (emitStatements (g.relaxed names allow named) statements) := by
  have hcompares :=
    compares_emitStatements (compares_relaxed h) statements fun node _ => comparesAt_relaxed h node
  rwa [reviseStatements_id] at hcompares

end CodeTree.Lua
