import CodeTree.Lua.Generator
import CodeTree.Proofs.Variants.Comparison

/-! # Runs that come to the same

A run of the emitter comes to a value and a draft or to a kind of refusal. Two runs agree if they come
to the same on every draft; what a refusal shows and how far the draft got before it may differ.
Agreement is a comparison, so it is kept by every form of the emitter. The two runs may look names up in
different tables, as long as they find the same texts.

* `outcome`: what a run comes to.
* `Agrees`: two actions come to the same.
* `comparison_agrees`: agreement is kept by everything the emitter is built from.
* `Agrees.answer`: the answers of generators whose runs agree. -/

namespace CodeTree.Lua

set_option autoImplicit false

variable {α β : Type}

/-- What a run comes to: its value and the draft that it leaves, or the kind of its refusal. -/
def outcome (action : Emit α) (d : Draft) : Except ErrorKind (α × Draft) :=
  match action d with
  | .ok a d' => .ok (a, d')
  | .error error _ => .error error.kind

/-- Two actions come to the same on every draft. -/
def Agrees (action action' : Emit α) : Prop := ∀ d, outcome action d = outcome action' d

/-! ## Composition -/

theorem outcome_bind (action : Emit α) (next : α → Emit β) (d : Draft) :
    outcome (action >>= next) d = outcome action d >>= fun done => outcome (next done.1) done.2 := by
  show (match EStateM.bind action next d with
    | .ok b d' => Except.ok (b, d')
    | .error error _ => .error error.kind) = _
  rw [EStateM.bind, outcome]
  cases action d <;> rfl

@[refl] theorem Agrees.refl (action : Emit α) : Agrees action action := fun _ => rfl

theorem Agrees.bind {action action' : Emit α} {next next' : α → Emit β} (h : Agrees action action')
    (hnext : ∀ a, Agrees (next a) (next' a)) : Agrees (action >>= next) (action' >>= next') := by
  intro d
  rw [outcome_bind, outcome_bind, h d]
  cases outcome action' d with
  | error kind => rfl
  | ok done => exact hnext done.1 done.2

/-- The same action, and then two that agree. -/
theorem Agrees.after {action : Emit α} {next next' : α → Emit β}
    (h : ∀ a, Agrees (next a) (next' a)) : Agrees (action >>= next) (action >>= next') :=
  (Agrees.refl action).bind h

theorem Agrees.capture {action action' : Emit Unit} (h : Agrees action action') :
    Agrees (capture action) (Lua.capture action') :=
  Agrees.after fun _ => Agrees.after fun _ => h.bind fun _ => Agrees.refl _

theorem Agrees.deeper {action action' : Emit Unit} (h : Agrees action action') :
    Agrees (deeper action) (Lua.deeper action') :=
  Agrees.after fun _ => h.bind fun _ => Agrees.refl _

theorem agrees_refuse {error error' : EmitError} (h : error.kind = error'.kind) :
    Agrees (refuse error : Emit α) (refuse error') :=
  fun _ => congrArg Except.error h

theorem comparison_agrees : Comparison Agrees where
  pure _ := .refl _
  write _ := .refl _
  indent _ := .refl _
  useBitLibrary := .refl _
  refuse _ := .refl _
  bind := .bind
  capture _ h := h.capture.bind fun _ => .refl _
  deeper := .deeper

/-! ## Names -/

/-- The same settings with another table of names. -/
def Setting.withNames (g : Setting) (names : NameTable) : Setting := { g with names := names }

variable {g : Setting} {names : NameTable} {action action' : Emit Unit}

theorem agrees_nameOf {s s' : Symbol} (h : g.names.resolve s = names.resolve s') :
    Agrees (nameOf g s) (nameOf (g.withNames names) s') := by
  have hnames : (g.withNames names).names.resolve s' = names.resolve s' := rfl
  rw [nameOf_eq, nameOf_eq, h, hnames]
  cases names.resolve s' with
  | none => exact agrees_refuse rfl
  | some name => exact Agrees.refl _

theorem agrees_writeName {s s' : Symbol} (h : g.names.resolve s = names.resolve s') :
    Agrees (writeName g s) (writeName (g.withNames names) s') :=
  comparison_agrees.writeName (agrees_nameOf h)

/-! ## The generator -/

/-- Runs that agree make generators answer with one text or with refusals of one kind. -/
theorem Agrees.answer (h : Agrees action action') (generator generator' : Generator)
    (finish : Draft → String) :
    (generator.clear.run action finish).1.mapError EmitError.kind =
      (generator'.clear.run action' finish).1.mapError EmitError.kind := by
  have hanswer (generator : Generator) (action : Emit Unit) :
      (generator.clear.run action finish).1.mapError EmitError.kind =
        (outcome action Draft.empty).map fun done => finish done.2 := by
    simp only [Generator.run, Generator.clear, EStateM.run, outcome]
    cases action Draft.empty <;> rfl
  rw [hanswer, hanswer, h Draft.empty]

end CodeTree.Lua
