import CodeTree.Proofs.Inspection.Numbers
import CodeTree.Proofs.Inspection.Quoted
import CodeTree.Tree.Inspect

/-! # Debug texts of what is not a tree

Types, operators, names of kinds, literals and atoms can be read from their texts, and so can a record of
such fields that has the texts of trees among them.

* `tells_type`, `tells_operator`, `tells_passing` and the theorems beside them: what a node holds beside
  trees.
* `Atom.oneNaN`: an atom with one NaN for all NaNs.
* `tells_atom`: the texts of atoms, with the names of their kinds.
* `tells_memberAccess`, `tells_newInstance` and the theorems behind them: the records that hold trees. -/

namespace CodeTree

set_option autoImplicit false

/-- The same literal with one NaN for all NaNs. -/
def Literal.oneNaN : Literal → Literal
  | .float x => .float x.oneNaN
  | l => l

/-- The same atom with one NaN for all NaNs. -/
def Atom.oneNaN : Atom → Atom
  | .literal l => .literal l.oneNaN
  | a => a

namespace Inspect

/-! ## Names of kinds -/

theorem isWord_passing (a : Passing) : IsWord a.name := by
  cases a <;> exact isWord_ofList rfl

theorem tells_passing (a b : Passing) : Tells a.name b.name (a = b) :=
  tells_words isWord_passing
    (fun a b h => by cases a <;> cases b <;> first | rfl | exact absurd h (by decide)) a b

theorem tells_arrayKind (a b : ArrayKind) : Tells a.name b.name (a = b) :=
  tells_words (fun a => by cases a <;> exact isWord_ofList rfl)
    (fun a b h => by cases a <;> cases b <;> first | rfl | exact absurd h (by decide)) a b

theorem tells_aggregateKind (a b : AggregateKind) : Tells a.name b.name (a = b) :=
  tells_words (fun a => by cases a <;> exact isWord_ofList rfl)
    (fun a b h => by cases a <;> cases b <;> first | rfl | exact absurd h (by decide)) a b

theorem tells_unaryKind (a b : UnaryKind) : Tells a.name b.name (a = b) := by
  have hread : ∀ a : UnaryKind, UnaryKind.ofName? a.name = some a := fun a => by cases a <;> rfl
  refine tells_words (fun a => by cases a <;> exact isWord_ofList rfl) (fun a b h => ?_) a b
  rw [← Option.some_inj, ← hread a, h, hread b]

theorem tells_binaryKind (a b : BinaryKind) : Tells a.name b.name (a = b) := by
  have hread : ∀ a : BinaryKind, BinaryKind.ofName? a.name = some a := fun a => by cases a <;> rfl
  refine tells_words (fun a => by cases a <;> exact isWord_ofList rfl) (fun a b h => ?_) a b
  rw [← Option.some_inj, ← hread a, h, hread b]

theorem tells_operator {κ : Type} {name : κ → String} (h : ∀ a b, Tells (name a) (name b) (a = b))
    (a b : Operator κ) : Tells (a.inspect name) (b.inspect name) (a = b) := by
  have hstandard (kind : κ) : Named (Operator.inspect name (.standard kind)) "Standard" :=
    named_tagged (isWord_ofList rfl) _
  have hcustom (text : String) : Named (Operator.inspect name (.custom text)) "Custom" :=
    named_tagged (isWord_ofList rfl) _
  cases a with
  | standard a =>
    cases b with
    | standard b => exact (h a b).tagged.mono fun heq => by rw [heq]
    | custom b => exact .of_name_ne (hstandard a) (hcustom b) (by decide)
  | custom a =>
    cases b with
    | standard b => exact .of_name_ne (hcustom a) (hstandard b) (by decide)
    | custom b => exact (tells_string a b).tagged.mono fun heq => by rw [heq]

/-! ## Types -/

/-- What may be missing is told if it is told when it is there. -/
theorem tells_option_map {α : Type} {f : α → String} (h : ∀ a b, Tells (f a) (f b) (a = b)) :
    ∀ a b : Option α, Tells (option (a.map f)) (option (b.map f)) (a = b)
  | none, none => TellsOption.option rfl
  | none, some _ => TellsOption.option trivial
  | some _, none => TellsOption.option trivial
  | some a, some b => TellsOption.option ((h a b).mono fun heq => by rw [heq])

theorem tells_symbol? (a b : Option Symbol) : Tells (symbol? a) (symbol? b) (a = b) :=
  tells_option_map tells_symbol a b

theorem opens_types (ts : List TypeReference) : ∀ u ∈ TypeReference.inspectAll ts, Opens u := by
  induction ts with
  | nil => nofun
  | cons t ts ih =>
    have ht : Named t.inspect "TypeReference" := by
      cases t
      exact named_record (isWord_ofList rfl) _
    exact List.forall_mem_cons.2 ⟨ht.opens, ih⟩

mutual

theorem tells_type : ∀ a b : TypeReference, Tells a.inspect b.inspect (a = b)
  | ⟨name, arguments, nullable⟩, ⟨name', arguments', nullable'⟩ => by
    have harguments := (tells_types arguments arguments').list (opens_types _) (opens_types _)
    refine ((tells_symbol name name').field
      (harguments.field ((tells_bool nullable nullable').field .nil))).record.mono ?_
    rintro ⟨rfl, rfl, rfl, -⟩
    rfl

theorem tells_types : ∀ as bs : List TypeReference,
    TellsAll (TypeReference.inspectAll as) (TypeReference.inspectAll bs) (as = bs)
  | [], [] => .nil rfl
  | [], _ :: _ => .nil_cons
  | _ :: _, [] => .cons_nil
  | a :: as, b :: bs =>
    (TellsAll.cons (tells_type a b) (tells_types as bs)).mono fun heq => by rw [heq.1, heq.2]

end

theorem tells_type? (a b : Option TypeReference) : Tells (type? a) (type? b) (a = b) :=
  tells_option_map tells_type a b

/-! ## Literals -/

theorem tells_literal (a b : Literal) : Tells a.inspect b.inspect (a.oneNaN = b.oneNaN) := by
  have hword (l : Literal) : IsWord l.variant := by
    cases l <;> exact isWord_ofList rfl
  have hnamed (l : Literal) : Named l.inspect l.variant := named_tagged (hword l) _
  have hsame {a b : Literal} {p : Prop} (hvariant : a.variant = b.variant)
      (h : Tells a.inspectValue b.inspectValue p) : Tells a.inspect b.inspect p := by
    rw [Literal.inspect, Literal.inspect, Literal.inspectRecord, Literal.inspectRecord, hvariant]
    exact ((h.field .nil).record.mono And.left).tagged
  cases a with
  | string a =>
    cases b with
    | string b => exact hsame rfl ((tells_string a b).mono fun heq => by rw [heq])
    | _ => exact .of_name_ne (hnamed _) (hnamed _) (by simp [Literal.variant])
  | character a =>
    cases b with
    | character b => exact hsame rfl ((tells_char a b).mono fun heq => by rw [heq])
    | _ => exact .of_name_ne (hnamed _) (hnamed _) (by simp [Literal.variant])
  | integer a =>
    cases b with
    | integer b => exact hsame rfl ((tells_integer a b).mono fun heq => by rw [heq])
    | _ => exact .of_name_ne (hnamed _) (hnamed _) (by simp [Literal.variant])
  | float a =>
    cases b with
    | float b =>
      exact hsame rfl ((tells_float a b _).mono fun heq => congrArg Literal.float heq)
    | _ => exact .of_name_ne (hnamed _) (hnamed _) (by simp [Literal.variant])
  | boolean a =>
    cases b with
    | boolean b => exact hsame rfl ((tells_bool a b).mono fun heq => by rw [heq])
    | _ => exact .of_name_ne (hnamed _) (hnamed _) (by simp [Literal.variant])

/-! ## Atoms -/

theorem tells_localVariable (a b : LocalVariable) : Tells a.inspect b.inspect (a = b) := by
  cases a
  cases b
  refine ((tells_symbol _ _).field
    ((tells_bool _ _).field ((tells_bool _ _).field .nil))).record.mono ?_
  rintro ⟨rfl, rfl, rfl, -⟩
  rfl

theorem tells_enumValue (a b : EnumValue) : Tells a.inspect b.inspect (a = b) := by
  cases a
  cases b
  refine ((tells_type _ _).field ((tells_symbol _ _).field .nil)).record.mono ?_
  rintro ⟨rfl, rfl, -⟩
  rfl

theorem tells_raw (a b : RawCode) : Tells a.inspect b.inspect (a = b) := by
  have hopens (lines : List String) : ∀ u ∈ lines.map string, Opens u :=
    List.forall_mem_map.2 fun line _ => opens_string line
  obtain ⟨lines⟩ := a
  obtain ⟨lines'⟩ := b
  have hlines := (tells_map tells_string lines lines').list (hopens lines) (hopens lines')
  refine (hlines.field .nil).record.mono ?_
  rintro ⟨rfl, -⟩
  rfl

theorem named_assemble {name : String} (h : IsWord name) (contents : Option String) :
    Named (assemble name contents) name := by
  cases contents with
  | none => exact .self h
  | some contents => exact named_tagged h _

/-- A node is told by the name of its kind and by what it holds. -/
theorem tells_assemble {n m : String} {o o' : Option String} {p : Prop} (hn : IsWord n)
    (hm : IsWord m) (h : n = m → TellsOption o o' p) : Tells (assemble n o) (assemble m o') p := by
  -- A name with a bracket behind it is not read as the name alone.
  have hbracket (u : String) (r s : List Char) (hr : Halts r) :
      (assemble n none).toList ++ r ≠ (assemble n (some u)).toList ++ s := by
    intro heq
    rw [assemble, assemble, tagged, String.toList_append, String.toList_append, String.toList_append,
      List.append_assoc, List.append_assoc, List.append_assoc] at heq
    rw [List.append_cancel_left heq] at hr
    cases hr with
    | closing h => cases h
  by_cases hname : n = m
  · subst hname
    have htold := h rfl
    cases o with
    | none =>
      cases o' with
      | none => exact .refl _ htold
      | some v => exact fun r s hr _ heq => absurd heq (hbracket v r s hr)
    | some u =>
      cases o' with
      | none => exact fun r s _ hs heq => absurd heq.symm (hbracket u s r hs)
      | some v => exact htold.tagged
  · exact .of_name_ne (named_assemble hn o) (named_assemble hm o') hname

theorem isWord_variant_atom (a : Atom) : IsWord a.variant := by
  cases a <;> exact isWord_ofList rfl

theorem tells_atom (a b : Atom) :
    Tells (assemble a.variant a.contents?) (assemble b.variant b.contents?)
      (a.oneNaN = b.oneNaN) := by
  refine tells_assemble (isWord_variant_atom a) (isWord_variant_atom b) fun hvariant => ?_
  cases a with
  | nil =>
    cases b with
    | nil => exact rfl
    | _ => simp [Atom.variant] at hvariant
  | selfReference =>
    cases b with
    | selfReference => exact rfl
    | _ => simp [Atom.variant] at hvariant
  | propertyValue =>
    cases b with
    | propertyValue => exact rfl
    | _ => simp [Atom.variant] at hvariant
  | inherited =>
    cases b with
    | inherited => exact rfl
    | _ => simp [Atom.variant] at hvariant
  | literal a =>
    cases b with
    | literal b => exact (tells_literal a b).mono fun heq => congrArg Atom.literal heq
    | _ => simp [Atom.variant] at hvariant
  | identifier a =>
    cases b with
    | identifier b => exact (tells_symbol a b).mono fun heq => by rw [heq]
    | _ => simp [Atom.variant] at hvariant
  | localVariable a =>
    cases b with
    | localVariable b => exact (tells_localVariable a b).mono fun heq => by rw [heq]
    | _ => simp [Atom.variant] at hvariant
  | typeReference a =>
    cases b with
    | typeReference b => exact (tells_type a b).mono fun heq => by rw [heq]
    | _ => simp [Atom.variant] at hvariant
  | enumValue a =>
    cases b with
    | enumValue b => exact (tells_enumValue a b).mono fun heq => by rw [heq]
    | _ => simp [Atom.variant] at hvariant
  | selector a =>
    cases b with
    | selector b => exact (tells_symbol a b).mono fun heq => by rw [heq]
    | _ => simp [Atom.variant] at hvariant
  | default a =>
    cases b with
    | default b => exact (tells_type a b).mono fun heq => by rw [heq]
    | _ => simp [Atom.variant] at hvariant
  | raw a =>
    cases b with
    | raw b => exact (tells_raw a b).mono fun heq => by rw [heq]
    | _ => simp [Atom.variant] at hvariant

/-! ## Records that hold trees -/

section Records

variable {o o' : Option String} {u u' : String} {us us' : List String} {p q : Prop}

theorem tells_memberAccess (h : TellsOption o o' p) (a b : Selection) :
    Tells (memberAccess o a) (memberAccess o' b) (p ∧ a = b) := by
  cases a
  cases b
  refine (h.option.field ((tells_symbol _ _).field
    ((tells_bool _ _).field ((tells_bool _ _).field .nil)))).record.mono ?_
  rintro ⟨hp, rfl, rfl, rfl, -⟩
  exact ⟨hp, rfl⟩

theorem tells_newInstance (type type' : TypeReference) (constructor constructor' : Option Symbol)
    (harguments : Tells u u' p) (hinitializers : Tells (list us) (list us') q) :
    Tells (newInstance type constructor u us) (newInstance type' constructor' u' us')
      (type = type' ∧ constructor = constructor' ∧ p ∧ q) := by
  refine ((tells_type type type').field ((tells_symbol? constructor constructor').field
    (harguments.field (hinitializers.field .nil)))).record.mono ?_
  rintro ⟨htype, hconstructor, hp, hq, -⟩
  exact ⟨htype, hconstructor, hp, hq⟩

theorem tells_callParameter (name name' : Option Symbol) (passing passing' : Passing)
    (h : Tells u u' p) :
    Tells (callParameter name u passing) (callParameter name' u' passing')
      (name = name' ∧ p ∧ passing = passing') := by
  refine ((tells_symbol? name name').field
    (h.field ((tells_passing passing passing').field .nil))).record.mono ?_
  rintro ⟨hname, hp, hpassing, -⟩
  exact ⟨hname, hp, hpassing⟩

theorem tells_parameterDefinition (name name' : Symbol) (type type' : Option TypeReference)
    (passing passing' : Passing) (h : TellsOption o o' p) :
    Tells (parameterDefinition name type passing o) (parameterDefinition name' type' passing' o')
      (name = name' ∧ type = type' ∧ passing = passing' ∧ p) := by
  refine ((tells_symbol name name').field ((tells_type? type type').field
    ((tells_passing passing passing').field (h.option.field .nil)))).record.mono ?_
  rintro ⟨hname, htype, hpassing, hp, -⟩
  exact ⟨hname, htype, hpassing, hp⟩

/-- Variables and fields are shown alike. -/
theorem tells_declared {title valueField : String} (name name' : Symbol)
    (type type' : Option TypeReference) (constant constant' : Bool) (h : TellsOption o o' p) :
    Tells
      (record title [("name", name.inspect), ("type_ref", type? type), (valueField, option o),
        ("constant", bool constant)])
      (record title [("name", name'.inspect), ("type_ref", type? type'), (valueField, option o'),
        ("constant", bool constant')])
      (name = name' ∧ type = type' ∧ p ∧ constant = constant') := by
  refine ((tells_symbol name name').field ((tells_type? type type').field
    (h.option.field ((tells_bool constant constant').field .nil)))).record.mono ?_
  rintro ⟨hname, htype, hp, hconstant, -⟩
  exact ⟨hname, htype, hp, hconstant⟩

theorem tells_variableDeclaration (name name' : Symbol) (type type' : Option TypeReference)
    (constant constant' : Bool) (h : TellsOption o o' p) :
    Tells (variableDeclaration name type o constant) (variableDeclaration name' type' o' constant')
      (name = name' ∧ type = type' ∧ p ∧ constant = constant') :=
  tells_declared name name' type type' constant constant' h

theorem tells_fieldDefinition (name name' : Symbol) (type type' : Option TypeReference)
    (constant constant' : Bool) (h : TellsOption o o' p) :
    Tells (fieldDefinition name type o constant) (fieldDefinition name' type' o' constant')
      (name = name' ∧ type = type' ∧ p ∧ constant = constant') :=
  tells_declared name name' type type' constant constant' h

end Records

theorem named_callParameter (name : Option Symbol) (value : String) (passing : Passing) :
    Named (callParameter name value passing) "CallParameter" :=
  named_record (isWord_ofList rfl) _

theorem named_parameterDefinition (name : Symbol) (type : Option TypeReference) (passing : Passing)
    (value : Option String) :
    Named (parameterDefinition name type passing value) "ParameterDefinition" :=
  named_record (isWord_ofList rfl) _

theorem named_variableDeclaration (name : Symbol) (type : Option TypeReference)
    (value : Option String) (constant : Bool) :
    Named (variableDeclaration name type value constant) "VariableDeclarationStatement" :=
  named_record (isWord_ofList rfl) _

end Inspect

end CodeTree
