import CodeTree.Proofs.Reading.Translation

/-! # What the names of an emitted text refer to

Names in Lua are bound by the parameters of functions and by local declarations, and a name refers to
the innermost binding of its text. Besides those of the tree there are bindings that the emitter brings
along: the parameters of its division and of its guards, and the new object whose properties it
assigns. A name of the tree is captured when it refers to one of these.

* `reference scope text`: what a name refers to.
* `Exp.occurrences`: the names that are read in an expression, each with its scope.
* `Hygienic x`: the names of the tree in `x` refer to what they refer to without the bindings of the
  emitter.
* `IsCaptured` and `Caught`: names that do not. -/

namespace CodeTree.Lua

set_option autoImplicit false

/-- A name with its origin. -/
structure Marked where
  origin : Origin
  text : String
  deriving DecidableEq

namespace Marked

def isGiven (n : Marked) : Bool := n.origin = .tree

end Marked

/-- A name that is read, with the bindings around it, the innermost one first. -/
structure Occurrence where
  name : Marked
  scope : List Marked

/-! ## References -/

/-- The binding that a text refers to in a scope, with the bindings of the tree around it. -/
def reference : List Marked → String → Option (Marked × List Marked)
  | [], _ => none
  | b :: scope, text =>
    if b.text = text then some (b, scope.filter (·.isGiven)) else reference scope text

/-- The innermost binding of a text is one that the emitter brings along. -/
def IsCaptured : List Marked → String → Prop
  | [], _ => False
  | b :: scope, text => if b.text = text then b.origin = .emitter else IsCaptured scope text

variable {scope : List Marked} {name text : String}

@[simp] theorem not_isCaptured_nil : ¬ IsCaptured [] text := nofun

@[simp] theorem isCaptured_emitter_cons :
    IsCaptured (⟨.emitter, name⟩ :: scope) text ↔ text = name ∨ IsCaptured scope text := by
  by_cases h : name = text
  · simp [IsCaptured, h]
  · simp [IsCaptured, h, Ne.symm h]

@[simp] theorem isCaptured_tree_cons :
    IsCaptured (⟨.tree, name⟩ :: scope) text ↔ name ≠ text ∧ IsCaptured scope text := by
  by_cases h : name = text <;> simp [IsCaptured, h]

theorem isGiven_of_reference {scope outer : List Marked} {b : Marked}
    (hscope : ∀ c ∈ scope, c.isGiven = true) (h : reference scope text = some (b, outer)) :
    b.isGiven = true := by
  induction scope with
  | nil => exact nomatch h
  | cons c scope ih =>
    rw [List.forall_mem_cons] at hscope
    rw [reference] at h
    split at h
    · cases h
      exact hscope.1
    · exact ih hscope.2 h

/-- A name refers to the same without the bindings of the emitter exactly when it is not captured. -/
theorem reference_filter_eq_iff (scope : List Marked) (text : String) :
    reference (scope.filter (·.isGiven)) text = reference scope text ↔ ¬ IsCaptured scope text := by
  induction scope with
  | nil => simp [reference]
  | cons b scope ih =>
    obtain ⟨origin, name⟩ := b
    cases origin with
    | tree =>
      by_cases h : name = text
      · simp [reference, Marked.isGiven, h]
      · simpa [reference, Marked.isGiven, h] using ih
    | emitter =>
      by_cases h : name = text
      · have hne : reference (scope.filter (·.isGiven)) text ≠
            some (⟨.emitter, text⟩, scope.filter (·.isGiven)) := by
          intro heq
          exact nomatch isGiven_of_reference (fun c hc => (List.mem_filter.1 hc).2) heq
        simpa [reference, Marked.isGiven, h] using hne
      · simpa [reference, Marked.isGiven, h, Ne.symm h] using ih

/-! ## Occurrences -/

/-- The names that a statement binds in what follows it. -/
def Stat.bound : Stat Marked → List Marked
  | .declare n _ _ => [n]
  | _ => []

def scopeAfter (scope : List Marked) : List (Stat Marked) → List Marked
  | [] => scope
  | s :: statements => scopeAfter (s.bound ++ scope) statements

mutual

/-- The names that are read in an expression. -/
def Exp.occurrences (scope : List Marked) : Exp Marked → List Occurrence
  | .nil | .boolean _ | .numeral _ | .string _ => []
  | .name n => [⟨n, scope⟩]
  | .field x _ => x.occurrences scope
  | .index x key => x.occurrences scope ++ key.occurrences scope
  | .call f arguments => f.occurrences scope ++ occurrencesExps scope arguments
  | .invoke x _ arguments => x.occurrences scope ++ occurrencesExps scope arguments
  | .paren x => x.occurrences scope
  | .unary _ x => x.occurrences scope
  | .binary _ x y => x.occurrences scope ++ y.occurrences scope
  | .table fields => occurrencesFields scope fields
  | .function parameters body => occurrencesStats (parameters.reverse ++ scope) body

def occurrencesExps (scope : List Marked) : List (Exp Marked) → List Occurrence
  | [] => []
  | x :: xs => x.occurrences scope ++ occurrencesExps scope xs

def TableField.occurrences (scope : List Marked) : TableField Marked → List Occurrence
  | .item value => value.occurrences scope
  | .keyed key value => key.occurrences scope ++ value.occurrences scope

def occurrencesFields (scope : List Marked) : List (TableField Marked) → List Occurrence
  | [] => []
  | f :: fs => f.occurrences scope ++ occurrencesFields scope fs

/-- The names that are read in a statement. A declared name is bound only behind its values. -/
def Stat.occurrences (scope : List Marked) : Stat Marked → List Occurrence
  | .empty => []
  | .declare _ _ values => occurrencesExps scope values
  | .assign target value => target.occurrences scope ++ value.occurrences scope
  | .call x => x.occurrences scope
  | .block body => occurrencesStats scope body
  | .conditional condition consequence alternative =>
    condition.occurrences scope ++ occurrencesStats scope consequence
      ++ occurrencesStats scope alternative
  | .result values => occurrencesExps scope values

def occurrencesStats (scope : List Marked) : List (Stat Marked) → List Occurrence
  | [] => []
  | s :: statements => s.occurrences scope ++ occurrencesStats (s.bound ++ scope) statements

end

/-- Each name of the tree refers to what it would refer to without the bindings of the emitter. -/
def Hygienic (x : Exp Marked) : Prop :=
  ∀ o ∈ x.occurrences [], o.name.isGiven = true →
    reference (o.scope.filter (·.isGiven)) o.name.text = reference o.scope o.name.text

instance (x : Exp Marked) : Decidable (Hygienic x) := inferInstanceAs (Decidable (∀ _ ∈ _, _))

/-! ## Captured names -/

def Caught (os : List Occurrence) : Prop :=
  ∃ o ∈ os, o.name.isGiven = true ∧ IsCaptured o.scope o.name.text

theorem hygienic_iff_not_caught {x : Exp Marked} : Hygienic x ↔ ¬ Caught (x.occurrences []) := by
  simp [Hygienic, Caught, reference_filter_eq_iff]

@[simp] theorem not_caught_nil : ¬ Caught [] := by simp [Caught]

@[simp] theorem caught_append {os ps : List Occurrence} : Caught (os ++ ps) ↔ Caught os ∨ Caught ps := by
  simp [Caught, or_and_right, exists_or]

@[simp] theorem caught_given :
    Caught ((given Marked.mk name).occurrences scope) ↔ IsCaptured scope name := by
  simp [given, Exp.occurrences, Caught, Marked.isGiven]

@[simp] theorem not_caught_own : ¬ Caught ((own Marked.mk name).occurrences scope) := by
  simp [own, Exp.occurrences, Caught, Marked.isGiven]

theorem occurrencesStats_append (ss ts : List (Stat Marked)) :
    occurrencesStats scope (ss ++ ts) =
      occurrencesStats scope ss ++ occurrencesStats (scopeAfter scope ss) ts := by
  induction ss generalizing scope with
  | nil => rfl
  | cons s ss ih => rw [List.cons_append, occurrencesStats, ih, occurrencesStats, scopeAfter,
      List.append_assoc]

theorem scopeAfter_append (ss ts : List (Stat Marked)) :
    scopeAfter scope (ss ++ ts) = scopeAfter (scopeAfter scope ss) ts := by
  induction ss generalizing scope with
  | nil => rfl
  | cons s ss ih => rw [List.cons_append, scopeAfter, ih, scopeAfter]

end CodeTree.Lua
