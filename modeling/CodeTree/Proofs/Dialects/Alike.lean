import CodeTree.Proofs.Emission.Text
import CodeTree.Proofs.Variants.Comparison

/-! # Two runs of the emitter side by side

Two runs are alike if they stop at the same place or not at all: where one ends, the other ends with the
same value, and where one stops, the other stops with the same refusal, but that the tree which the
refusal shows is revised. What they write may differ; it is the same under a condition on the
parts that were written, which the relation carries along.

* `EmitError.revise`: the refusal with the revised tree.
* `Alike`: the relation.
* `comparison_alike`: runs built from runs that are alike.
* `alike_emitAtom` to `alike_emitLocalName`: the forms of the emitter that look at the target. -/

namespace CodeTree.Lua

set_option autoImplicit false

variable {α β : Type} {P : Prop} {r : Revision}

/-- A refusal that shows a tree, with that tree revised. -/
def EmitError.revise (r : Revision) : EmitError → EmitError
  | .statement s => .statement (s.revise r)
  | .expression e => .expression (e.revise r)
  | error => error

theorem EmitError.revise_id (error : EmitError) : error.revise {} = error := by
  cases error with
  | statement s => rw [EmitError.revise, Statement.revise_id]
  | expression e => rw [EmitError.revise, Expr.revise_id]
  | _ => rfl

/-- At each depth both runs add text and end with one value, or both stop. Under `P` they add the same
text and use the `bit` library alike. -/
def Alike (P : Prop) (r : Revision) (action action' : Emit α) : Prop :=
  ∀ n, (∃ a w bit w' bit', Adds action n a w bit ∧ Adds action' n a w' bit' ∧
      (P → w = w' ∧ bit = bit')) ∨
    ∃ error, Stops action n error ∧ Stops action' n (error.revise r)

/-! ## Composition -/

theorem Alike.bind {action action' : Emit α} {next next' : α → Emit β}
    (h : Alike P r action action') (hnext : ∀ a, Alike P r (next a) (next' a)) :
    Alike P r (action >>= next) (action' >>= next') := by
  intro n
  rcases h n with ⟨a, w₁, b₁, w₁', b₁', hadds, hadds', heq₁⟩ | ⟨error, hstops, hstops'⟩
  · rcases hnext a n with ⟨b, w₂, b₂, w₂', b₂', hnext, hnext', heq₂⟩ | ⟨error, hnext, hnext'⟩
    · refine .inl ⟨b, _, _, _, _, hadds.bind hnext, hadds'.bind hnext', fun hP => ?_⟩
      rw [(heq₁ hP).1, (heq₁ hP).2, (heq₂ hP).1, (heq₂ hP).2]
      exact ⟨rfl, rfl⟩
    · exact .inr ⟨error, hadds.bind_stops hnext, hadds'.bind_stops hnext'⟩
  · exact .inr ⟨error, hstops.bind, hstops'.bind⟩

theorem Alike.deeper {action action' : Emit Unit} (h : Alike P r action action') :
    Alike P r (deeper action) (deeper action') := by
  intro n
  rcases h (n + 1) with ⟨_, w, bit, w', bit', hadds, hadds', heq⟩ | ⟨error, hstops, hstops'⟩
  · exact .inl ⟨(), w, bit, w', bit', hadds.deeper, hadds'.deeper, heq⟩
  · exact .inr ⟨error, hstops.deeper, hstops'.deeper⟩

/-- Two captured texts may differ, so only an action that takes every text can follow: writing. -/
theorem Alike.capture {action action' : Emit Unit} (format : String → String)
    (h : Alike P r action action') :
    Alike P r (capture action >>= fun text => write (format text))
      (Lua.capture action' >>= fun text => write (format text)) := by
  intro n
  rcases h n with ⟨_, w, bit, w', bit', hadds, hadds', heq⟩ | ⟨error, hstops, hstops'⟩
  · refine .inl ⟨(), _, _, _, _, hadds.capture.bind (adds_write _ n),
      hadds'.capture.bind (adds_write _ n), fun hP => ?_⟩
    rw [(heq hP).1, (heq hP).2]
    exact ⟨rfl, rfl⟩
  · exact .inr ⟨error, hstops.capture.bind, hstops'.capture.bind⟩

/-! ## The primitive actions -/

theorem alike_pure (a : α) : Alike P r (pure a) (pure a) :=
  fun n => .inl ⟨a, _, _, _, _, adds_pure a n, adds_pure a n, fun _ => ⟨rfl, rfl⟩⟩

theorem alike_write_of {text text' : String} (h : P → text = text') :
    Alike P r (write text) (write text') :=
  fun n => .inl ⟨(), _, _, _, _, adds_write text n, adds_write text' n, fun hP => by simp [h hP]⟩

theorem alike_write (text : String) : Alike P r (write text) (write text) :=
  alike_write_of fun _ => rfl

theorem alike_indent (width : Nat) : Alike P r (indent width) (indent width) :=
  fun n => .inl ⟨(), _, _, _, _, adds_indent width n, adds_indent width n, fun _ => ⟨rfl, rfl⟩⟩

theorem alike_useBitLibrary : Alike P r useBitLibrary useBitLibrary :=
  fun n => .inl ⟨(), _, _, _, _, adds_useBitLibrary n, adds_useBitLibrary n, fun _ => ⟨rfl, rfl⟩⟩

theorem alike_refuse (error : EmitError) :
    Alike P r (refuse error : Emit α) (refuse (error.revise r)) :=
  fun n => .inr ⟨error, stops_refuse error n, stops_refuse _ n⟩

/-- Writing something or not. -/
theorem alike_writeIf {c c' : Bool} (text : String) (h : P → c = c') :
    Alike P r (if c then write text else pure ()) (if c' then write text else pure ()) := by
  intro n
  have hadds : ∀ c : Bool, Adds (if c then write text else pure ()) n ()
      (if c then text.toList else []) false := by
    rintro (_ | _)
    · exact adds_pure () n
    · exact adds_write text n
  exact .inl ⟨(), _, _, _, _, hadds c, hadds c', fun hP => by simp [h hP]⟩

theorem alike_useBitLibraryIf {c c' : Bool} (h : P → c = c') :
    Alike P r (if c then useBitLibrary else pure ()) (if c' then useBitLibrary else pure ()) := by
  intro n
  have hadds : ∀ c : Bool, Adds (if c then useBitLibrary else pure ()) n () [] c := by
    rintro (_ | _)
    · exact adds_pure () n
    · exact adds_useBitLibrary n
  exact .inl ⟨(), _, _, _, _, hadds c, hadds c', fun hP => by simp [h hP]⟩

theorem EmitError.revise_of_showsTree {error : EmitError} (h : error.showsTree = false) :
    error.revise r = error := by
  cases error with
  | statement | expression => cases h
  | _ => rfl

theorem comparison_alike : Comparison (Alike P r) where
  pure := alike_pure
  write := alike_write
  indent := alike_indent
  useBitLibrary := alike_useBitLibrary
  refuse {α error} h := by
    have hrefused : Alike P r (refuse error : Emit α) (refuse (error.revise r)) :=
      alike_refuse error
    rwa [EmitError.revise_of_showsTree h] at hrefused
  bind := .bind
  capture := .capture
  deeper := .deeper

/-! ## The forms of nodes -/

/-- The same names and settings, but another target. -/
def Setting.withTarget (g : Setting) (target : Target) : Setting :=
  { g with config.target := target }

/-- A node whose own text two targets have in common. -/
def WrittenAlike (t t' : Target) : Node → Prop
  | .expression (.atom (.literal value)) => literalText t value = literalText t' value
  | .expression (.binary operator _ _) =>
    needsBitLibrary t operator = needsBitLibrary t' operator ∧
      binaryForm t operator = binaryForm t' operator
  | _ => True

variable {g : Setting} {t : Target} {action action' : Emit Unit}

theorem alike_nameOf (s : Symbol) : Alike P r (nameOf g s) (nameOf (g.withTarget t) s) := by
  rw [nameOf_eq, nameOf_eq]
  cases hname : g.names.resolve s with
  | none =>
    rw [show (g.withTarget t).names.resolve s = none from hname]
    exact alike_refuse _
  | some name =>
    rw [show (g.withTarget t).names.resolve s = some name from hname]
    exact alike_pure name

theorem alike_writeName (s : Symbol) : Alike P r (writeName g s) (writeName (g.withTarget t) s) :=
  (alike_nameOf s).bind alike_write

theorem alike_emitAtom {f : Bool → Bool} {a : Atom}
    (h : P → WrittenAlike g.config.target t (.expression (.atom a))) :
    Alike P { constant := f } (emitAtom g a) (emitAtom (g.withTarget t) a) := by
  cases a with
  | nil | selfReference => exact alike_write _
  | literal value => exact alike_write_of h
  | identifier | localVariable | typeReference => exact alike_writeName _
  | enumValue value =>
    exact (alike_nameOf _).bind fun _ => (alike_nameOf _).bind fun _ => alike_write _
  | raw code =>
    rw [emitAtom, emitAtom, show (g.withTarget t).config.allowRaw = g.config.allowRaw from rfl]
    split
    · exact comparison_alike.lines (by rfl) _
    · exact alike_refuse _
  | propertyValue | inherited | selector | default => exact alike_refuse (.expression (.atom _))

/-- Whether an operator has a form does not depend on the target. -/
theorem binaryForm_alike (t t' : Target) (operator : Operator BinaryKind) :
    (∃ form form', binaryForm t operator = .ok form ∧ binaryForm t' operator = .ok form') ∨
      ∃ kind, binaryForm t operator = .error kind ∧ binaryForm t' operator = .error kind := by
  cases operator with
  | custom text => exact .inl ⟨_, _, rfl, rfl⟩
  | standard kind =>
    cases kind with
    | logicalXor | is | isNot | isIn | notIn =>
      exact .inr ⟨_, by cases t <;> rfl, by cases t' <;> rfl⟩
    | _ => cases t <;> cases t' <;> exact .inl ⟨_, _, rfl, rfl⟩

theorem emitBinary_eq (g : Setting) (operator : Operator BinaryKind) (left right : Emit Unit) :
    emitBinary g operator left right =
      (if needsBitLibrary g.config.target operator then useBitLibrary else pure ()) >>= fun _ =>
        match binaryForm g.config.target operator with
        | .ok form => emitInForm form left right
        | .error kind => refuse (.binaryOperator kind) := by
  unfold emitBinary
  cases needsBitLibrary g.config.target operator <;> rfl

theorem alike_emitBinary {operator : Operator BinaryKind} {left left' right right' : Emit Unit}
    (h : P → needsBitLibrary g.config.target operator = needsBitLibrary t operator ∧
      binaryForm g.config.target operator = binaryForm t operator)
    (hleft : Alike P r left left') (hright : Alike P r right right') :
    Alike P r (emitBinary g operator left right)
      (emitBinary (g.withTarget t) operator left' right') := by
  rw [emitBinary_eq, emitBinary_eq, show (g.withTarget t).config.target = t from rfl]
  refine (alike_useBitLibraryIf fun hP => (h hP).1).bind fun _ => ?_
  rcases binaryForm_alike g.config.target t operator with
    ⟨form, form', hform, hform'⟩ | ⟨kind, hkind, hkind'⟩
  · have hsame : P → form = form' := fun hP => by simpa [hform, hform'] using (h hP).2
    rw [hform, hform']
    exact (alike_write_of fun hP => by rw [hsame hP]).bind fun _ => hleft.bind fun _ =>
      (alike_write_of fun hP => by rw [hsame hP]).bind fun _ => hright.bind fun _ =>
        alike_write_of fun hP => by rw [hsame hP]
  · rw [hkind, hkind']
    exact alike_refuse _

theorem alike_checkArgument (name : Option Symbol) (passing : Passing) :
    Alike P r (checkArgument g name passing) (checkArgument (g.withTarget t) name passing) := by
  cases passing with
  | byRef | out => exact alike_refuse _
  | byValue =>
    cases name with
    | none => exact alike_pure ()
    | some name =>
      unfold checkArgument
      rw [show (g.withTarget t).config.namedArguments = g.config.namedArguments from rfl]
      cases g.config.namedArguments with
      | positional => exact alike_pure ()
      | reject => exact (alike_nameOf name).bind fun _ => alike_refuse _

theorem alike_emitLocalName {constant : Bool} (name : Symbol)
    (h : P → (constant && g.config.target.hasConstants) = (r.constant constant && t.hasConstants)) :
    Alike P r (emitLocalName g name constant)
      (emitLocalName (g.withTarget t) name (r.constant constant)) :=
  (alike_nameOf name).bind fun _ => (alike_write _).bind fun _ => alike_writeIf " <const>" h

end CodeTree.Lua
