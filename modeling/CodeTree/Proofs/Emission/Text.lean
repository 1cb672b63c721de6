import CodeTree.Lua.Generator
import CodeTree.Proofs.Emission.Frame
import Mathlib.Tactic.Simproc.ExistsAndEq

/-! # The text of each kind of node

One statement for each form and each kind of node: what is written at a depth when writing succeeds, in
terms of what is written for the parts. Every later fact about the written text rests on these
statements and not on the actions. -/

namespace CodeTree.Lua

set_option autoImplicit false
set_option synthInstance.maxSize 1000

variable {g : Setting} {n : Nat} {w : List Char}

/-! ## Sequences -/

section Sequences

variable {β : Type} {next : Unit → Emit β} {b : β}

@[simp] theorem yields_unit_bind {action : Emit Unit} [Tidy action] [∀ u, Tidy (next u)] :
    Yields (action >>= next) n b w ↔
      ∃ w₁, Yields action n () w₁ ∧ ∃ w₂, Yields (next ()) n b w₂ ∧ w = w₁ ++ w₂ := by
  rw [yields_bind]
  constructor
  · rintro ⟨_, w₁, w₂, hw₁, hw₂, hw⟩
    exact ⟨w₁, hw₁, w₂, hw₂, hw⟩
  · rintro ⟨w₁, hw₁, w₂, hw₂, hw⟩
    exact ⟨(), w₁, w₂, hw₁, hw₂, hw⟩

@[simp] theorem yields_nameOf_bind {s : Symbol} {next : String → Emit β}
    [∀ name, Tidy (next name)] :
    Yields (nameOf g s >>= next) n b w ↔
      ∃ name, g.names.resolve s = some name ∧ Yields (next name) n b w := by
  rw [yields_bind]
  constructor
  · rintro ⟨name, w₁, w₂, h₁, h₂, rfl⟩
    obtain ⟨hname, rfl⟩ := yields_nameOf.1 h₁
    exact ⟨name, hname, h₂⟩
  · rintro ⟨name, hname, h₂⟩
    exact ⟨name, [], w, yields_nameOf.2 ⟨hname, rfl⟩, h₂, rfl⟩

@[simp] theorem yields_capture_bind {action : Emit Unit} {next : String → Emit β} [Tidy action]
    [∀ text, Tidy (next text)] : Yields (capture action >>= next) n b w ↔
      ∃ v, Yields action n () v ∧ Yields (next (String.ofList v)) n b w := by
  rw [yields_bind]
  constructor
  · rintro ⟨text, w₁, w₂, hw₁, hw₂, rfl⟩
    obtain ⟨hv, rfl⟩ := yields_capture.1 hw₁
    exact ⟨text.toList, hv, by simpa using hw₂⟩
  · rintro ⟨v, hv, hw⟩
    exact ⟨String.ofList v, [], w, yields_capture.2 ⟨by simpa using hv, rfl⟩, hw, rfl⟩

end Sequences

theorem yields_emitBetween {opening closing : String} {inner : Emit Unit} [Tidy inner] :
    Yields (emitBetween opening closing inner) n () w ↔
      ∃ v, Yields inner n () v ∧ w = opening.toList ++ v ++ closing.toList := by
  simp [emitBetween]

/-! ## Atoms -/

@[simp] theorem yields_emitAtom_nil : Yields (emitAtom g .nil) n () w ↔ w = "nil".toList :=
  yields_write

@[simp] theorem yields_emitAtom_self :
    Yields (emitAtom g .selfReference) n () w ↔ w = "self".toList :=
  yields_write

@[simp] theorem yields_emitAtom_literal {l : Literal} :
    Yields (emitAtom g (.literal l)) n () w ↔ w = (literalText g.config.target l).toList :=
  yields_write

@[simp] theorem yields_emitAtom_identifier {s : Symbol} :
    Yields (emitAtom g (.identifier s)) n () w ↔
      ∃ name, g.names.resolve s = some name ∧ w = name.toList :=
  yields_writeName

@[simp] theorem yields_emitAtom_localVariable {read : LocalVariable} :
    Yields (emitAtom g (.localVariable read)) n () w ↔
      ∃ name, g.names.resolve read.name = some name ∧ w = name.toList :=
  yields_writeName

@[simp] theorem yields_emitAtom_typeReference {type : TypeReference} :
    Yields (emitAtom g (.typeReference type)) n () w ↔
      ∃ name, g.names.resolve type.name = some name ∧ w = name.toList :=
  yields_writeName

@[simp] theorem yields_emitAtom_enumValue {value : EnumValue} :
    Yields (emitAtom g (.enumValue value)) n () w ↔
      ∃ type, g.names.resolve value.type.name = some type ∧
        ∃ name, g.names.resolve value.value = some name ∧
          w = type.toList ++ '.' :: name.toList := by
  simp [emitAtom]

@[simp] theorem not_yields_emitAtom_propertyValue : ¬ Yields (emitAtom g .propertyValue) n () w :=
  not_yields_refuse

@[simp] theorem not_yields_emitAtom_inherited : ¬ Yields (emitAtom g .inherited) n () w :=
  not_yields_refuse

@[simp] theorem not_yields_emitAtom_selector {name : Symbol} :
    ¬ Yields (emitAtom g (.selector name)) n () w :=
  not_yields_refuse

@[simp] theorem not_yields_emitAtom_default {type : TypeReference} :
    ¬ Yields (emitAtom g (.default type)) n () w :=
  not_yields_refuse

/-! ## Operations -/

/-- The blank that keeps a minus sign apart from the operand. -/
def gap (operator : String) (operand : List Char) : List Char :=
  if endsWith '-' operator ∧ operand.head? = some '-' then [' '] else []

theorem gap_eq_nil {operator : String} (h : endsWith '-' operator = false) (operand : List Char) :
    gap operator operand = [] :=
  if_neg fun hboth => absurd hboth.1 (by simp [h])

theorem toList_apart (operator : String) (v : List Char) :
    (if endsWith '-' operator ∧ opensWith '-' (String.ofList v) then
      " " ++ String.ofList v else String.ofList v).toList = gap operator v ++ v := by
  simp only [gap, opensWith, String.toList_ofList, beq_iff_eq]
  split <;> simp

theorem yields_emitPrefixed {operator : String} {operand : Emit Unit} [Tidy operand] :
    Yields (emitPrefixed operator operand) n () w ↔
      ∃ v, Yields operand n () v ∧ w = '(' :: operator.toList ++ gap operator v ++ v ++ [')'] := by
  simp [emitPrefixed, toList_apart]

theorem yields_emitUnary_plus {operand : Emit Unit} :
    Yields (emitUnary (.standard .plus) operand) n () w ↔ Yields operand n () w := Iff.rfl

theorem not_yields_emitUnary_addressOf {operand : Emit Unit} :
    ¬ Yields (emitUnary (.standard .addressOf) operand) n () w := not_yields_refuse

theorem yields_emitInForm {form : BinaryForm} {left right : Emit Unit} [Tidy left] [Tidy right] :
    Yields (emitInForm form left right) n () w ↔
      ∃ v₁ v₂, Yields left n () v₁ ∧ Yields right n () v₂ ∧
        w = form.opening.toList ++ v₁ ++ form.between.toList ++ v₂ ++ form.closing.toList := by
  simp [emitInForm, and_assoc]

theorem yields_emitBinary {operator : Operator BinaryKind} {left right : Emit Unit}
    [Tidy left] [Tidy right] : Yields (emitBinary g operator left right) n () w ↔
      ∃ form v₁ v₂, binaryForm g.config.target operator = .ok form ∧
        Yields left n () v₁ ∧ Yields right n () v₂ ∧
          w = form.opening.toList ++ v₁ ++ form.between.toList ++ v₂ ++ form.closing.toList := by
  rw [emitBinary]
  cases binaryForm g.config.target operator with
  | error kind => split <;> simp
  | ok form => split <;> simp [yields_emitInForm, and_assoc]

/-! ## Accesses -/

@[simp] theorem yields_emitCall_none : Yields (emitCall none) n () w ↔ w = [] := by
  simp [emitCall]

theorem yields_emitCall_some {arguments : Emit Unit} [Tidy arguments] :
    Yields (emitCall (some arguments)) n () w ↔
      ∃ v, Yields arguments n () v ∧ w = '(' :: v ++ [')'] := by
  simp [emitCall, yields_emitBetween]

theorem yields_emitMember_none {selection : Selection} {arguments : Option (Emit Unit)}
    {optional : Bool} (h : ∀ a ∈ arguments, Tidy a) :
    Yields (emitMember g none selection arguments optional) n () w ↔
      ∃ member v, g.names.resolve selection.name = some member ∧
        Yields (emitCall arguments) n () v ∧ w = member.toList ++ v := by
  have := tidy_emitCall h
  have hnone : ∀ s ∈ (none : Option Site), Tidy s.emit := by simp
  have : ∀ member, Tidy (emitAccess none selection arguments optional member) :=
    tidy_emitAccess hnone h
  simp [emitMember_eq, emitAccess]

/-- The access operator: calls on anything but a type take the instance along. -/
def accessOperator (hasArguments isType : Bool) : Char :=
  if hasArguments && !isType then ':' else '.'

def accessText (guarded : Bool) (guard : String) (operator : Char) (member : String)
    (site call : List Char) : List Char :=
  if guarded then
    "(function(t) if ".toList ++ guard.toList ++ " then return nil end return t".toList
      ++ operator :: member.toList ++ call ++ " end)(".toList ++ site ++ [')']
  else
    site ++ operator :: member.toList ++ call

theorem yields_emitMember_some (site : Site) {selection : Selection}
    {arguments : Option (Emit Unit)} {optional : Bool} [Tidy site.emit]
    (h : ∀ a ∈ arguments, Tidy a) :
    Yields (emitMember g (some site) selection arguments optional) n () w ↔
      ∃ member v s, g.names.resolve selection.name = some member ∧
        Yields (emitCall arguments) n () v ∧ Yields site.emit n () s ∧
          w = accessText (selection.nilSafe || optional)
            (guardText selection.nilSafe optional member)
            (accessOperator arguments.isSome site.isType) member s v := by
  have := tidy_emitCall h
  have hsome : ∀ s ∈ some site, Tidy s.emit := by
    rintro _ ⟨⟩
    infer_instance
  have : ∀ member, Tidy (emitAccess (some site) selection arguments optional member) :=
    tidy_emitAccess hsome h
  have hoperator : ∀ member : String,
      ((if arguments.isSome && !site.isType then ":" else ".") ++ member).toList =
        accessOperator arguments.isSome site.isType :: member.toList := by
    intro member
    rw [accessOperator]
    split <;> simp
  rw [emitMember_eq, yields_nameOf_bind]
  simp only [emitAccess, accessText]
  by_cases hguard : (selection.nilSafe || optional) = true
  · simp only [hguard, if_true, yields_unit_bind, yields_write, hoperator]
    simp [and_assoc]
  · rw [Bool.not_eq_true] at hguard
    simp only [hguard, Bool.false_eq_true, if_false, yields_unit_bind, yields_write, hoperator]
    constructor
    · rintro ⟨member, hmember, s, hs, _, ⟨_, rfl, v, hv, rfl⟩, rfl⟩
      exact ⟨member, v, s, hmember, hv, hs, by simp⟩
    · rintro ⟨member, v, s, hmember, hv, hs, rfl⟩
      exact ⟨member, hmember, s, hs, _, ⟨_, rfl, v, hv, rfl⟩, by simp⟩

/-! ## Arguments, parameters and lines -/

/-- Whether an argument can be written: it is passed by value, and has no name where names are
refused. -/
def admits (g : Setting) (name : Option Symbol) (passing : Passing) : Prop :=
  passing = .byValue ∧ (g.config.namedArguments = .reject → name = none)

@[simp] theorem yields_checkArgument {name : Option Symbol} {passing : Passing} :
    Yields (checkArgument g name passing) n () w ↔ admits g name passing ∧ w = [] := by
  unfold admits checkArgument
  cases passing with
  | byRef | out => simp
  | byValue =>
    cases name with
    | none => simp
    | some name => cases g.config.namedArguments <;> simp

@[simp] theorem yields_emitParameterNames_nil {isFirst : Bool} :
    Yields (emitParameterNames g isFirst []) n () w ↔ w = [] := by
  simp [emitParameterNames]

/-- The comma in front of all elements of a list but the first. -/
def comma (isFirst : Bool) : List Char := if isFirst then [] else [',', ' ']

@[simp] theorem yields_emitParameterNames_cons {isFirst : Bool} {p : Parameter}
    {parameters : List Parameter} :
    Yields (emitParameterNames g isFirst (p :: parameters)) n () w ↔
      p.passing = .byValue ∧ ∃ name v, g.names.resolve p.name = some name ∧
        Yields (emitParameterNames g false parameters) n () v ∧
          w = comma isFirst ++ name.toList ++ v := by
  rw [emitParameterNames]
  by_cases hp : p.passing = .byValue <;> cases isFirst <;> simp [hp, comma, and_assoc]

@[simp] theorem yields_emitLine {line : Emit Unit} [Tidy line] :
    Yields (emitLine g line) n () w ↔
      ∃ v, Yields line n () v ∧
        w = List.replicate (n * g.config.indentWidth) ' ' ++ v ++ ['\n'] := by
  simp [emitLine]

/-- The semicolon that keeps a line apart from the one before it. -/
def semicolon (line : List Char) : List Char := if line.head? = some '(' then [';'] else []

theorem toList_separated (v : List Char) :
    (if opensWith '(' (String.ofList v) then ";" ++ String.ofList v
      else String.ofList v).toList = semicolon v ++ v := by
  simp only [semicolon, opensWith, String.toList_ofList, beq_iff_eq]
  split <;> simp

@[simp] theorem yields_emitExpressionLine {expression : Emit Unit} [Tidy expression] :
    Yields (emitExpressionLine g expression) n () w ↔
      ∃ v, Yields expression n () v ∧
        w = List.replicate (n * g.config.indentWidth) ' ' ++ semicolon v ++ v ++ ['\n'] := by
  simp [emitExpressionLine, toList_separated]

@[simp] theorem yields_emitLocalName {name : Symbol} {constant : Bool} :
    Yields (emitLocalName g name constant) n () w ↔
      ∃ text, g.names.resolve name = some text ∧
        w = "local ".toList ++ text.toList
          ++ if constant && g.config.target.hasConstants then " <const>".toList else [] := by
  rw [emitLocalName]
  by_cases hconstant : (constant && g.config.target.hasConstants) = true
  · simp [hconstant]
  · simp only [Bool.not_eq_true] at hconstant
    simp [hconstant]

/-! ## Expressions -/

@[simp] theorem yields_emitExpr_shared {s : Sentinel} :
    Yields (emitExpr g (.shared s)) n () w ↔ Yields (emitExpr g (.atom s.atom)) n () w := Iff.rfl

@[simp] theorem yields_emitExpr_atom {a : Atom} :
    Yields (emitExpr g (.atom a)) n () w ↔ Yields (emitAtom g a) n () w := Iff.rfl

theorem yields_emitExpr_array {elements : List Expr} {kind : ArrayKind} :
    Yields (emitExpr g (.array elements kind)) n () w ↔
      ∃ v, Yields (emitExprs g true elements) n () v ∧ w = '{' :: v ++ ['}'] := by
  simp [emitExpr, yields_emitBetween]

theorem yields_emitExpr_dictionary {entries : List (Expr × Expr)} :
    Yields (emitExpr g (.dictionary entries)) n () w ↔
      ∃ v, Yields (emitEntries g true entries) n () v ∧ w = '{' :: v ++ ['}'] := by
  simp [emitExpr, yields_emitBetween]

theorem yields_emitExpr_tuple {elements : List Expr} :
    Yields (emitExpr g (.tuple elements)) n () w ↔
      ∃ v, Yields (emitExprs g true elements) n () v ∧ w = '{' :: v ++ ['}'] := by
  simp [emitExpr, yields_emitBetween]

theorem yields_emitExpr_unary {operator : Operator UnaryKind} {operand : Expr} :
    Yields (emitExpr g (.unary operator operand)) n () w ↔
      Yields (emitUnary operator (emitExpr g operand)) n () w := Iff.rfl

theorem yields_emitExpr_binary {operator : Operator BinaryKind} {left right : Expr} :
    Yields (emitExpr g (.binary operator left right)) n () w ↔
      ∃ form v₁ v₂, binaryForm g.config.target operator = .ok form ∧
        Yields (emitExpr g left) n () v₁ ∧ Yields (emitExpr g right) n () v₂ ∧
          w = form.opening.toList ++ v₁ ++ form.between.toList ++ v₂ ++ form.closing.toList :=
  yields_emitBinary

section Access

variable {selection : Selection} {site : Expr}

theorem yields_emitExpr_field_none : Yields (emitExpr g (.field none selection)) n () w ↔
    ∃ member, g.names.resolve selection.name = some member ∧ w = member.toList := by
  rw [emitExpr, emitSite?, yields_emitMember_none (by simp)]
  simp

theorem yields_emitExpr_field_some : Yields (emitExpr g (.field (some site) selection)) n () w ↔
    ∃ member s, g.names.resolve selection.name = some member ∧ Yields (emitExpr g site) n () s ∧
      w = accessText selection.nilSafe (guardText selection.nilSafe false member) '.' member s [] := by
  rw [emitExpr, emitSite?, yields_emitMember_some ⟨isTypeReference site, emitExpr g site⟩ (by simp)]
  simp [accessOperator]

theorem yields_emitExpr_call_none {arguments : List Argument} {optional : Bool} :
    Yields (emitExpr g (.call none selection arguments optional)) n () w ↔
      ∃ member v, g.names.resolve selection.name = some member ∧
        Yields (emitArguments g true arguments) n () v ∧ w = member.toList ++ '(' :: v ++ [')'] := by
  rw [emitExpr, emitSite?, yields_emitMember_none (by rintro _ ⟨⟩; infer_instance)]
  simp [yields_emitCall_some]

theorem yields_emitExpr_call_some {arguments : List Argument} {optional : Bool} :
    Yields (emitExpr g (.call (some site) selection arguments optional)) n () w ↔
      ∃ member v s, g.names.resolve selection.name = some member ∧
        Yields (emitArguments g true arguments) n () v ∧ Yields (emitExpr g site) n () s ∧
          w = accessText (selection.nilSafe || optional)
            (guardText selection.nilSafe optional member)
            (accessOperator true (isTypeReference site)) member s ('(' :: v ++ [')']) := by
  rw [emitExpr, emitSite?, yields_emitMember_some ⟨isTypeReference site, emitExpr g site⟩
    (by rintro _ ⟨⟩; infer_instance)]
  simp only [yields_emitCall_some, Option.isSome_some]
  constructor
  · rintro ⟨member, _, s, hmember, ⟨v, hv, rfl⟩, hs, hw⟩
    exact ⟨member, v, s, hmember, hv, hs, hw⟩
  · rintro ⟨member, v, s, hmember, hv, hs, hw⟩
    exact ⟨member, _, s, hmember, ⟨v, hv, rfl⟩, hs, hw⟩

theorem yields_emitExpr_property {site : Option Expr} {indices : List Argument} :
    Yields (emitExpr g (.property site selection indices)) n () w ↔
      ∃ v i, Yields (emitExpr g (.field site selection)) n () v ∧
        Yields (emitPropertyIndices g indices) n () i ∧ w = v ++ i := by
  show Yields (emitExpr g (.field site selection) >>= fun _ => emitPropertyIndices g indices) n () w ↔ _
  simp

end Access

def constructorText (type constructor : String) : List Char :=
  type.toList ++ '.' :: constructor.toList ++ ['(']

/-- The name of the constructor that is called: `new` if none is given. -/
def constructorName (g : Setting) : Option Symbol → Option String
  | some constructor => g.names.resolve constructor
  | none => some "new"

theorem yields_emitExpr_construct {type : TypeReference} {constructor : Option Symbol}
    {arguments : List Argument} :
    Yields (emitExpr g (.construct type constructor arguments [])) n () w ↔
      ∃ typeName name v, g.names.resolve type.name = some typeName ∧
        constructorName g constructor = some name ∧
          Yields (emitArguments g true arguments) n () v ∧
            w = constructorText typeName name ++ v ++ [')'] := by
  rw [emitExpr]
  cases constructor <;> simp [yields_emitBetween, constructorName, constructorText]

theorem yields_emitExpr_construct_with {type : TypeReference} {constructor : Option Symbol}
    {arguments : List Argument} {i : Argument} {is : List Argument} :
    Yields (emitExpr g (.construct type constructor arguments (i :: is))) n () w ↔
      ∃ v u, Yields (emitExpr g (.construct type constructor arguments [])) n () v ∧
        Yields (emitInitializers g (i :: is)) n () u ∧
          w = "(function() local o = ".toList ++ v ++ u ++ "; return o end)()".toList := by
  have hparts : Yields (emitExpr g (.construct type constructor arguments (i :: is))) n () w ↔
      ∃ typeName name v u, g.names.resolve type.name = some typeName ∧
        constructorName g constructor = some name ∧ Yields (emitArguments g true arguments) n () v ∧
          Yields (emitInitializers g (i :: is)) n () u ∧
            w = "(function() local o = ".toList ++ (constructorText typeName name ++ v ++ [')'])
              ++ u ++ "; return o end)()".toList := by
    rw [emitExpr]
    cases constructor <;> simp [yields_emitBetween, constructorName, constructorText, and_assoc]
  simp only [hparts, yields_emitExpr_construct]
  constructor
  · rintro ⟨typeName, name, v, u, htype, hname, hv, hu, rfl⟩
    exact ⟨_, u, ⟨typeName, name, v, htype, hname, hv, rfl⟩, hu, rfl⟩
  · rintro ⟨_, u, ⟨typeName, name, v, htype, hname, hv, rfl⟩, hu, rfl⟩
    exact ⟨typeName, name, v, u, htype, hname, hv, hu, rfl⟩

theorem yields_emitExpr_allocate {type : TypeReference} {constructor : Option Symbol}
    {bounds : List Expr} {initializers : List Argument} :
    Yields (emitExpr g (.allocate type constructor bounds initializers)) n () w ↔
      (∃ name, g.names.resolve type.name = some name) ∧ w = ['{', '}'] := by
  rw [emitExpr]
  simp

theorem yields_emitExpr_element {array : Expr} {indices : List Expr} :
    Yields (emitExpr g (.element array indices)) n () w ↔
      ∃ v i, Yields (emitExpr g array) n () v ∧ Yields (emitIndices g indices) n () i ∧
        w = v ++ i := by
  rw [emitExpr]
  simp

theorem yields_emitExpr_parentheses {inner : Expr} :
    Yields (emitExpr g (.wrapped .parentheses inner)) n () w ↔
      ∃ v, Yields (emitExpr g inner) n () v ∧ w = '(' :: v ++ [')'] := by
  simp [emitExpr, yields_emitBetween]

theorem yields_emitExpr_typeOf {inner : Expr} :
    Yields (emitExpr g (.wrapped .typeOf inner)) n () w ↔
      ∃ v, Yields (emitExpr g inner) n () v ∧ w = "type(".toList ++ v ++ [')'] := by
  simp [emitExpr, yields_emitBetween]

theorem yields_emitExpr_conditional_none {condition consequence : Expr} :
    Yields (emitExpr g (.conditional condition consequence none)) n () w ↔
      ∃ v₁ v₂, Yields (emitExpr g condition) n () v₁ ∧ Yields (emitExpr g consequence) n () v₂ ∧
        w = "(function() if ".toList ++ v₁ ++ " then return ".toList ++ v₂
          ++ " end end)()".toList := by
  rw [emitExpr]
  simp [and_assoc]

theorem yields_emitExpr_conditional_some {condition consequence alternative : Expr} :
    Yields (emitExpr g (.conditional condition consequence (some alternative))) n () w ↔
      ∃ v₁ v₂ v₃, Yields (emitExpr g condition) n () v₁ ∧
        Yields (emitExpr g consequence) n () v₂ ∧ Yields (emitExpr g alternative) n () v₃ ∧
          w = "(function() if ".toList ++ v₁ ++ " then return ".toList ++ v₂
            ++ " else return ".toList ++ v₃ ++ " end end)()".toList := by
  rw [emitExpr]
  simp [and_assoc]

@[simp] theorem yields_emitExpr_cast {value : Expr} {type : TypeReference} {throwing safe : Bool} :
    Yields (emitExpr g (.cast value type throwing safe)) n () w ↔
      Yields (emitExpr g value) n () w := Iff.rfl

theorem yields_emitExpr_assigned {value : Expr} {inverted : Bool} :
    Yields (emitExpr g (.assigned value inverted)) n () w ↔
      ∃ v, Yields (emitExpr g value) n () v ∧
        w = '(' :: v ++ (if inverted then " == nil)" else " ~= nil)").toList := by
  simp [emitExpr, yields_emitBetween]

theorem yields_emitExpr_method {lambda : Bool} {parameters : List Parameter}
    {returns : Option TypeReference} {body : List Statement} {locals : Option (List Declaration)} :
    Yields (emitExpr g (.method lambda parameters returns body locals)) n () w ↔
      ∃ v d l b, Yields (emitParameterNames g true parameters) n () v ∧
        Yields (emitDefaultValues g parameters) (n + 1) () d ∧
          Yields (emitLocals? g locals) (n + 1) () l ∧ Yields (emitStatements g body) (n + 1) () b ∧
            w = "function(".toList ++ v ++ ")\n".toList ++ d ++ l ++ b
              ++ List.replicate (n * g.config.indentWidth) ' ' ++ "end".toList := by
  rw [emitExpr]
  simp [and_assoc]

/-! ## Lists of parts -/

section Lists

variable {isFirst : Bool}

@[simp] theorem yields_emitExprs_nil : Yields (emitExprs g isFirst []) n () w ↔ w = [] := by
  simp [emitExprs]

theorem yields_emitExprs_cons {e : Expr} {es : List Expr} :
    Yields (emitExprs g isFirst (e :: es)) n () w ↔
      ∃ v vs, Yields (emitExpr g e) n () v ∧ Yields (emitExprs g false es) n () vs ∧
        w = comma isFirst ++ v ++ vs := by
  rw [emitExprs]
  cases isFirst <;> simp [comma, and_assoc]

@[simp] theorem yields_emitEntries_nil : Yields (emitEntries g isFirst []) n () w ↔ w = [] := by
  simp [emitEntries]

theorem yields_emitEntries_cons {key value : Expr} {entries : List (Expr × Expr)} :
    Yields (emitEntries g isFirst ((key, value) :: entries)) n () w ↔
      ∃ k v vs, Yields (emitExpr g key) n () k ∧ Yields (emitExpr g value) n () v ∧
        Yields (emitEntries g false entries) n () vs ∧
          w = comma isFirst ++ '[' :: k ++ "] = ".toList ++ v ++ vs := by
  rw [emitEntries]
  cases isFirst <;> simp [comma, yields_emitBetween, and_assoc]

@[simp] theorem yields_emitArguments_nil : Yields (emitArguments g isFirst []) n () w ↔ w = [] := by
  simp [emitArguments]

theorem yields_emitArguments_cons {name : Option Symbol} {value : Expr} {passing : Passing}
    {arguments : List Argument} :
    Yields (emitArguments g isFirst (⟨name, value, passing⟩ :: arguments)) n () w ↔
      admits g name passing ∧ ∃ v vs, Yields (emitExpr g value) n () v ∧
        Yields (emitArguments g false arguments) n () vs ∧ w = comma isFirst ++ v ++ vs := by
  rw [emitArguments]
  cases isFirst <;> simp [comma, and_assoc]

@[simp] theorem yields_emitPropertyIndices_nil :
    Yields (emitPropertyIndices g []) n () w ↔ w = [] := by
  simp [emitPropertyIndices]

theorem yields_emitPropertyIndices_cons {name : Option Symbol} {value : Expr} {passing : Passing}
    {indices : List Argument} :
    Yields (emitPropertyIndices g (⟨name, value, passing⟩ :: indices)) n () w ↔
      admits g name passing ∧ ∃ v vs, Yields (emitExpr g value) n () v ∧
        Yields (emitPropertyIndices g indices) n () vs ∧ w = '[' :: v ++ ']' :: vs := by
  rw [emitPropertyIndices]
  simp [yields_emitBetween, and_assoc]

@[simp] theorem yields_emitIndices_nil : Yields (emitIndices g []) n () w ↔ w = [] := by
  simp [emitIndices]

theorem yields_emitIndices_cons {index : Expr} {indices : List Expr} :
    Yields (emitIndices g (index :: indices)) n () w ↔
      ∃ v vs, Yields (emitExpr g index) n () v ∧ Yields (emitIndices g indices) n () vs ∧
        w = '[' :: v ++ ']' :: vs := by
  rw [emitIndices]
  simp [yields_emitBetween]

@[simp] theorem yields_emitInitializers_nil : Yields (emitInitializers g []) n () w ↔ w = [] := by
  simp [emitInitializers]

theorem yields_emitInitializers_cons {name : Option Symbol} {value : Expr} {passing : Passing}
    {initializers : List Argument} :
    Yields (emitInitializers g (⟨name, value, passing⟩ :: initializers)) n () w ↔
      ∃ symbol property v vs, name = some symbol ∧ g.names.resolve symbol = some property ∧
        Yields (emitExpr g value) n () v ∧ Yields (emitInitializers g initializers) n () vs ∧
          w = "; o.".toList ++ property.toList ++ " = ".toList ++ v ++ vs := by
  cases name <;> simp [emitInitializers, and_assoc]

@[simp] theorem yields_emitDefaultValues_nil :
    Yields (emitDefaultValues g []) n () w ↔ w = [] := by
  simp [emitDefaultValues]

@[simp] theorem yields_emitDefaultValues_cons_none {name : Symbol} {type : Option TypeReference}
    {passing : Passing} {parameters : List Parameter} :
    Yields (emitDefaultValues g (⟨name, type, passing, none⟩ :: parameters)) n () w ↔
      Yields (emitDefaultValues g parameters) n () w := by
  rw [emitDefaultValues]

theorem yields_emitDefaultValues_cons_some {name : Symbol} {type : Option TypeReference}
    {passing : Passing} {value : Expr} {parameters : List Parameter} :
    Yields (emitDefaultValues g (⟨name, type, passing, some value⟩ :: parameters)) n () w ↔
      ∃ text v vs, g.names.resolve name = some text ∧ Yields (emitExpr g value) n () v ∧
        Yields (emitDefaultValues g parameters) n () vs ∧
          w = List.replicate (n * g.config.indentWidth) ' ' ++ "if ".toList ++ text.toList
            ++ " == nil then ".toList ++ text.toList ++ " = ".toList ++ v ++ " end\n".toList
            ++ vs := by
  rw [emitDefaultValues, yields_nameOf_bind]
  constructor
  · rintro ⟨text, htext, hw⟩
    obtain ⟨_, hline, vs, hvs, rfl⟩ := yields_unit_bind.1 hw
    obtain ⟨_, hbetween, rfl⟩ := yields_emitLine.1 hline
    obtain ⟨v, hv, rfl⟩ := yields_emitBetween.1 hbetween
    refine ⟨text, v, vs, htext, hv, hvs, ?_⟩
    simp only [String.toList_append, List.append_assoc]
    rfl
  · rintro ⟨text, v, vs, htext, hv, hvs, rfl⟩
    refine ⟨text, htext, yields_unit_bind.2 ⟨_, yields_emitLine.2
      ⟨_, yields_emitBetween.2 ⟨v, hv, rfl⟩, rfl⟩, vs, hvs, ?_⟩⟩
    simp only [String.toList_append, List.append_assoc]
    rfl

def localText (g : Setting) (name : String) (constant : Bool) : List Char :=
  "local ".toList ++ name.toList
    ++ if constant && g.config.target.hasConstants then " <const>".toList else []

theorem yields_emitLocal_none {name : Symbol} {type : Option TypeReference} {constant : Bool} :
    Yields (emitLocal g ⟨name, type, none, constant⟩) n () w ↔
      ∃ text, g.names.resolve name = some text ∧ w = localText g text constant := by
  rw [emitLocal, yields_emitLocalName]
  rfl

theorem yields_emitLocal_some {name : Symbol} {type : Option TypeReference} {value : Expr}
    {constant : Bool} : Yields (emitLocal g ⟨name, type, some value, constant⟩) n () w ↔
      ∃ text v, g.names.resolve name = some text ∧ Yields (emitExpr g value) n () v ∧
        w = localText g text constant ++ " = ".toList ++ v := by
  rw [emitLocal, yields_unit_bind]
  constructor
  · rintro ⟨_, hname, _, hvalue, rfl⟩
    obtain ⟨text, htext, rfl⟩ := yields_emitLocalName.1 hname
    obtain ⟨_, hequals, v, hv, rfl⟩ := yields_unit_bind.1 hvalue
    rw [yields_write.1 hequals, ← List.append_assoc]
    exact ⟨text, v, htext, hv, rfl⟩
  · rintro ⟨text, v, htext, hv, rfl⟩
    rw [List.append_assoc]
    exact ⟨_, yields_emitLocalName.2 ⟨text, htext, rfl⟩, _,
      yields_unit_bind.2 ⟨_, yields_write.2 rfl, v, hv, rfl⟩, rfl⟩

@[simp] theorem yields_emitLocals_nil : Yields (emitLocals g []) n () w ↔ w = [] := by
  simp [emitLocals]

theorem yields_emitLocals_cons {declared : Declaration} {locals : List Declaration} :
    Yields (emitLocals g (declared :: locals)) n () w ↔
      ∃ v vs, Yields (emitLocal g declared) n () v ∧ Yields (emitLocals g locals) n () vs ∧
        w = List.replicate (n * g.config.indentWidth) ' ' ++ v ++ '\n' :: vs := by
  rw [emitLocals]
  simp

@[simp] theorem yields_emitLocals?_none : Yields (emitLocals? g none) n () w ↔ w = [] := by
  simp [emitLocals?]

@[simp] theorem yields_emitLocals?_some {locals : List Declaration} :
    Yields (emitLocals? g (some locals)) n () w ↔ Yields (emitLocals g locals) n () w := Iff.rfl

end Lists

/-! ## Statements -/

theorem yields_emitStatement_expression {value : Expr} :
    Yields (emitStatement g (.expression value)) n () w ↔
      standsAlone g value ∧ ∃ v, Yields (emitExpr g value) n () v ∧
        w = List.replicate (n * g.config.indentWidth) ' ' ++ semicolon v ++ v ++ ['\n'] := by
  rw [emitStatement]
  by_cases halone : standsAlone g value <;> simp [halone]

theorem yields_emitStatement_declaration {declared : Declaration} :
    Yields (emitStatement g (.declaration declared)) n () w ↔
      ∃ v, Yields (emitLocal g declared) n () v ∧
        w = List.replicate (n * g.config.indentWidth) ' ' ++ v ++ ['\n'] := by
  rw [emitStatement, yields_emitLine]

theorem yields_emitStatement_assignment {target value : Expr} :
    Yields (emitStatement g (.assignment target value)) n () w ↔
      ∃ t v, Yields (emitExpr g target) n () t ∧ Yields (emitExpr g value) n () v ∧
        w = List.replicate (n * g.config.indentWidth) ' ' ++ t ++ " = ".toList ++ v ++ ['\n'] := by
  rw [emitStatement]
  simp [and_assoc]

theorem yields_emitStatement_result_none :
    Yields (emitStatement g (.result none)) n () w ↔
      w = List.replicate (n * g.config.indentWidth) ' ' ++ "return\n".toList := by
  rw [emitStatement]
  simp

theorem yields_emitStatement_result_some {value : Expr} :
    Yields (emitStatement g (.result (some value))) n () w ↔
      ∃ v, Yields (emitExpr g value) n () v ∧
        w = List.replicate (n * g.config.indentWidth) ' ' ++ "return ".toList ++ v ++ ['\n'] := by
  rw [emitStatement]
  simp

theorem yields_emitStatement_block {body : List Statement} :
    Yields (emitStatement g (.block body)) n () w ↔
      ∃ b, Yields (emitStatements g body) (n + 1) () b ∧
        w = List.replicate (n * g.config.indentWidth) ' ' ++ "do\n".toList ++ b
          ++ List.replicate (n * g.config.indentWidth) ' ' ++ "end\n".toList := by
  rw [emitStatement]
  simp

@[simp] theorem yields_emitStatements_nil : Yields (emitStatements g []) n () w ↔ w = [] := by
  simp [emitStatements]

theorem yields_emitStatements_cons {s : Statement} {statements : List Statement} :
    Yields (emitStatements g (s :: statements)) n () w ↔
      ∃ v vs, Yields (emitStatement g s) n () v ∧ Yields (emitStatements g statements) n () vs ∧
        w = v ++ vs := by
  rw [emitStatements]
  simp

/-! ## The generator -/

section Generator

variable {generator : Generator} {action : Emit Unit} {finish : Draft → String}

theorem run_empty_of_adds {bit : Bool} (h : Adds action 0 () w bit) :
    action.run Draft.empty = .ok () ⟨String.ofList w, 0, bit⟩ := by
  rw [EStateM.run, h Draft.empty rfl]
  simp [Draft.add, Draft.empty]

theorem run_of_adds {bit : Bool} (h : Adds action 0 () w bit) :
    (generator.clear.run action finish).1 = .ok (finish ⟨String.ofList w, 0, bit⟩) := by
  simp [Generator.run, Generator.clear, run_empty_of_adds h]

/-- The draft is kept, and with it whether the `bit` library is used. -/
theorem draft_run_of_adds {bit : Bool} (h : Adds action 0 () w bit) :
    (generator.clear.run action finish).2.draft = ⟨String.ofList w, 0, bit⟩ := by
  simp [Generator.run, Generator.clear, run_empty_of_adds h]

theorem run_of_stops {error : EmitError} (h : Stops action 0 error) :
    (generator.clear.run action finish).1 = .error error := by
  obtain ⟨draft, hdraft⟩ := h Draft.empty rfl
  have hrun : action.run Draft.empty = .error error draft := hdraft
  simp [Generator.run, Generator.clear, hrun]

/-- Every run starts from an empty draft, so an answer does not show what was written before. -/
theorem answer_eq_answer (generator generator' : Generator) (action : Emit Unit)
    (finish : Draft → String) :
    (generator.clear.run action finish).1 = (generator'.clear.run action finish).1 := by
  have hdraft : generator.clear.draft = generator'.clear.draft := rfl
  rw [Generator.run, Generator.run, hdraft]
  cases action.run generator'.clear.draft <;> rfl

/-- A generator answers with what writing adds to an empty draft. -/
theorem generateExpression_eq_ok {e : Expr} {text : String} :
    (generator.generateExpression e).1 = .ok text ↔
      Yields (emitExpr generator.setting e) 0 () text.toList := by
  rw [Generator.generateExpression]
  rcases (tidy_emitExpr generator.setting e).adds_or_stops 0 with ⟨_, w, bit, hadds⟩ | ⟨error, hstops⟩
  · rw [yields_iff_of_adds hadds, run_of_adds hadds]
    simp [← String.toList_inj, eq_comm]
  · rw [run_of_stops hstops]
    exact iff_of_false nofun fun ⟨_, hadds⟩ => hadds.not_stops hstops

/-- The text of a list of statements is what writing adds, after the prelude if they use the `bit`
library. -/
theorem generateStatements_eq_ok {statements : List Statement} {text : String} :
    (generator.generateStatements statements).1 = .ok text ↔
      ∃ w bit, Adds (emitStatements generator.setting statements) 0 () w bit ∧
        text = (if bit then bitPrelude else "") ++ String.ofList w := by
  rw [Generator.generateStatements]
  rcases (tidy_emitStatements generator.setting statements).adds_or_stops 0 with
    ⟨_, v, bit, hadds⟩ | ⟨error, hstops⟩
  · rw [run_of_adds hadds, Except.ok.injEq]
    constructor
    · rintro rfl
      exact ⟨v, bit, hadds, by cases bit <;> simp⟩
    · rintro ⟨w, bit', hadds', rfl⟩
      obtain ⟨rfl, rfl⟩ := hadds.unique_library hadds'
      cases bit <;> simp
  · rw [run_of_stops hstops]
    exact iff_of_false nofun fun ⟨_, _, hadds, _⟩ => hadds.not_stops hstops

end Generator

end CodeTree.Lua
