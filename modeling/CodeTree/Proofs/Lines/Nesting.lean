import CodeTree.Proofs.Emission.Text
import CodeTree.Proofs.Lexical.Numerals
import CodeTree.Proofs.Walking.Portable
import Mathlib.Tactic.IntervalCases

/-! # How deep lines are nested

A line belongs to the statement, default value, local or end of a method that it begins with, or to the raw
code that it goes on with. Its nesting depth is the number of blocks and methods around that. Line breaks
are written in no other places: literals and the words of the forms have none, so only names, operators
and raw code of the tree could bring in more.

* `Expr.nesting`, `Statement.nesting`: the depths of the lines of a tree, in the order of the text.
* `Node.Unbroken`: a node whose own texts have no line feeds; `AllUnbroken`: only such nodes.
* `newline_notMem_literalText`, `unbroken_binaryForm`: texts without line feeds. -/

namespace CodeTree

set_option autoImplicit false

/-! ## The lines of a tree -/

/-- Raw code begins a line behind each of its lines but the last. -/
def Atom.nesting : Atom → List Nat
  | raw code => List.replicate (code.lines.length - 1) 0
  | _ => []

mutual

/-- The depths of the lines that the text of an expression begins: how many of its methods and blocks are
around them. The line that the text itself stands on is not among them. -/
def Expr.nesting : Expr → List Nat
  | .shared s => s.atom.nesting
  | .atom a => a.nesting
  | .array elements _ => nestingExprs elements
  | .dictionary entries => nestingEntries entries
  | .tuple elements => nestingExprs elements
  | .unary _ operand => operand.nesting
  | .binary _ left right => left.nesting ++ right.nesting
  | .field site _ => nestingExpr? site
  | .call site selection arguments optional =>
    if selection.nilSafe || optional then nestingArguments arguments ++ nestingExpr? site
    else nestingExpr? site ++ nestingArguments arguments
  | .property site _ indices => nestingExpr? site ++ nestingArguments indices
  | .construct _ _ arguments initializers =>
    nestingArguments arguments ++ nestingArguments initializers
  | .allocate _ _ _ _ => []
  | .element array indices => array.nesting ++ nestingExprs indices
  | .wrapped _ inner => inner.nesting
  | .conditional condition consequence alternative =>
    condition.nesting ++ consequence.nesting ++ nestingExpr? alternative
  | .cast value _ _ _ => value.nesting
  | .assigned value _ => value.nesting
  | .method _ parameters _ body locals =>
    (nestingDefaults parameters ++ nestingLocals? locals ++ nestingStatements body).map (· + 1) ++ [0]
  | .anonymousType _ _ => []

def nestingExpr? : Option Expr → List Nat
  | none => []
  | some e => e.nesting

def nestingExprs : List Expr → List Nat
  | [] => []
  | e :: es => e.nesting ++ nestingExprs es

def nestingEntries : List (Expr × Expr) → List Nat
  | [] => []
  | (key, value) :: entries => key.nesting ++ value.nesting ++ nestingEntries entries

def nestingArguments : List Argument → List Nat
  | [] => []
  | ⟨_, value, _⟩ :: arguments => value.nesting ++ nestingArguments arguments

/-- A parameter with a default value has a line of its own, which the value may go on from. -/
def nestingDefaults : List Parameter → List Nat
  | [] => []
  | ⟨_, _, _, none⟩ :: parameters => nestingDefaults parameters
  | ⟨_, _, _, some value⟩ :: parameters => 0 :: (value.nesting ++ nestingDefaults parameters)

def nestingLocals : List Declaration → List Nat
  | [] => []
  | ⟨_, _, value, _⟩ :: locals => 0 :: (nestingExpr? value ++ nestingLocals locals)

def nestingLocals? : Option (List Declaration) → List Nat
  | none => []
  | some locals => nestingLocals locals

/-- The depths of the lines of a statement. -/
def Statement.nesting : Statement → List Nat
  | .expression value => 0 :: value.nesting
  | .declaration ⟨_, _, value, _⟩ => 0 :: nestingExpr? value
  | .assignment target value => 0 :: (target.nesting ++ value.nesting)
  | .result value => 0 :: nestingExpr? value
  | .block body => 0 :: ((nestingStatements body).map (· + 1) ++ [0])

def nestingStatements : List Statement → List Nat
  | [] => []
  | s :: statements => s.nesting ++ nestingStatements statements

end

/-! ## Texts without line feeds -/

/-- The name of a symbol, if it has one, has no line feeds. -/
def NameTable.Unbroken (names : NameTable) (s : Symbol) : Prop :=
  ∀ name ∈ names.resolve s, '\n' ∉ name.toList

instance (names : NameTable) : DecidablePred names.Unbroken :=
  fun _ => inferInstanceAs (Decidable (∀ _ ∈ _, _))

/-- The names that a node is written with, its custom operator and its raw lines have no line feeds. -/
structure Node.Unbroken (names : NameTable) (node : Node) : Prop where
  symbols : ∀ s ∈ node.symbols, names.Unbroken s
  customText : ∀ text ∈ node.customText?, '\n' ∉ text.toList
  code : ∀ code ∈ node.code?, ∀ line ∈ code.lines, '\n' ∉ line.toList

instance (names : NameTable) : DecidablePred (Node.Unbroken names) := fun node =>
  decidable_of_iff ((∀ s ∈ node.symbols, names.Unbroken s) ∧
    (∀ text ∈ node.customText?, '\n' ∉ text.toList) ∧
    ∀ code ∈ node.code?, ∀ line ∈ code.lines, '\n' ∉ line.toList)
    ⟨fun ⟨symbols, customText, code⟩ => ⟨symbols, customText, code⟩,
      fun h => ⟨h.symbols, h.customText, h.code⟩⟩

def AllUnbroken (names : NameTable) (nodes : List Node) : Prop := ∀ node ∈ nodes, node.Unbroken names

instance (names : NameTable) : DecidablePred (AllUnbroken names) :=
  fun _ => inferInstanceAs (Decidable (∀ _ ∈ _, _))

@[simp] theorem allUnbroken_cons {names : NameTable} {node : Node} {nodes : List Node} :
    AllUnbroken names (node :: nodes) ↔ node.Unbroken names ∧ AllUnbroken names nodes :=
  List.forall_mem_cons

@[simp] theorem allUnbroken_append {names : NameTable} {nodes nodes' : List Node} :
    AllUnbroken names (nodes ++ nodes') ↔ AllUnbroken names nodes ∧ AllUnbroken names nodes' :=
  List.forall_mem_append

theorem newline_notMem_append {s t : String} (hs : '\n' ∉ s.toList) (ht : '\n' ∉ t.toList) :
    '\n' ∉ (s ++ t).toList := by
  simp [hs, ht]

namespace Lua

theorem newline_notMem_escapeChar (c : Char) : '\n' ∉ escapeChar c := by
  unfold escapeChar
  split
  · decide
  · decide
  · decide
  · decide
  · decide
  · rename_i hfeed _ _
    have hfeed : c ≠ '\n' := hfeed
    have hdigit : ∀ code, '\n' ≠ decimalDigit (code % 10) := by
      intro code
      have hlt : code % 10 < 10 := Nat.mod_lt _ (by omega)
      generalize code % 10 = digit at hlt
      interval_cases digit <;> decide
    split
    · simp [decimalEscape, hdigit]
    · simpa using hfeed.symm

theorem newline_notMem_quote (text : String) : '\n' ∉ (quote text).toList := by
  simp [quote, escape, newline_notMem_escapeChar]

theorem IsDigits.newline_notMem {text : List Char} (h : IsDigits text) : '\n' ∉ text :=
  fun hmem => absurd (h.isDigit _ hmem) (by decide)

theorem newline_notMem_sign (negative : Bool) : '\n' ∉ sign negative := by
  cases negative <;> decide

theorem newline_notMem_integerText (target : Target) (value : Int64) :
    '\n' ∉ (integerText target value).toList := by
  rw [integerText]
  split
  · decide
  · rw [toList_integerText, List.mem_append, not_or]
    exact ⟨newline_notMem_sign _, (isDigits_toDigits _).newline_notMem⟩

theorem newline_notMem_floatText (value : Binary64) : '\n' ∉ (floatText value).toList := by
  by_cases hnan : value.isNaN = true
  · rw [floatText, if_pos hnan]
    decide
  · rw [Bool.not_eq_true] at hnan
    by_cases hinfinite : value.isInfinite = true
    · simp only [floatText, hnan, hinfinite, Bool.false_eq_true, if_false, if_true]
      cases value.isNegative <;> decide
    · rw [Bool.not_eq_true] at hinfinite
      obtain ⟨whole, fraction, hwhole, hfraction, htext⟩ := isPositional_positional value.shortest
      rw [toList_floatText hnan hinfinite, htext]
      simp [newline_notMem_sign, hwhole.newline_notMem, hfraction.newline_notMem]

/-- A line feed in a string is escaped, and numbers and truth values have none. -/
theorem newline_notMem_literalText (target : Target) (l : Literal) :
    '\n' ∉ (literalText target l).toList := by
  cases l with
  | string value => exact newline_notMem_quote value
  | character value => exact newline_notMem_quote _
  | integer value => exact newline_notMem_integerText target value
  | float value => exact newline_notMem_floatText value
  | boolean value =>
    show '\n' ∉ (if value then "true" else "false").toList
    cases value <;> decide

/-- The texts around and between two operands have no line feeds. -/
structure BinaryForm.Unbroken (form : BinaryForm) : Prop where
  opening : '\n' ∉ form.opening.toList
  between : '\n' ∉ form.between.toList
  closing : '\n' ∉ form.closing.toList

theorem unbroken_parenthesized {operator : String} (h : '\n' ∉ operator.toList) :
    (BinaryForm.parenthesized operator).Unbroken where
  opening := (by decide : '\n' ∉ "(".toList)
  between := by simpa [BinaryForm.parenthesized] using h
  closing := (by decide : '\n' ∉ ")".toList)

theorem unbroken_calling {function : String} (h : '\n' ∉ function.toList) :
    (BinaryForm.calling function).Unbroken where
  opening := by simpa [BinaryForm.calling] using h
  between := (by decide : '\n' ∉ ", ".toList)
  closing := (by decide : '\n' ∉ ")".toList)

theorem newline_notMem_bitFunction {target : Target} {kind : BinaryKind} {function : String}
    (h : bitFunction? target kind = some function) : '\n' ∉ function.toList := by
  unfold bitFunction? at h
  split at h
  · cases h
  · split at h <;> cases h <;> decide

theorem newline_notMem_truncatingDivision (target : Target) :
    '\n' ∉ (truncatingDivision target).toList :=
  newline_notMem_append (newline_notMem_append (by decide) (by cases target <;> decide)) (by decide)

theorem unbroken_standardForm {target : Target} {kind : BinaryKind} {form : BinaryForm}
    (h : standardForm? target kind = some form) : form.Unbroken := by
  cases kind with
  | truncatedDivision =>
    cases h
    exact unbroken_calling (newline_notMem_truncatingDivision target)
  | implies =>
    cases h
    exact ⟨by decide, by decide, by decide⟩
  | logicalXor | is | isNot | isIn | notIn => cases h
  | _ =>
    cases h
    exact unbroken_parenthesized (by decide)

/-- No text of a form has a line feed, unless a custom operator brings one in. -/
theorem unbroken_binaryForm {target : Target} {operator : Operator BinaryKind} {form : BinaryForm}
    (hoperator : ∀ text ∈ operator.customText?, '\n' ∉ text.toList)
    (h : binaryForm target operator = .ok form) : form.Unbroken := by
  cases operator with
  | custom text =>
    obtain rfl : BinaryForm.parenthesized text = form := by simpa [binaryForm] using h
    exact unbroken_parenthesized (hoperator text rfl)
  | standard kind =>
    rw [binaryForm] at h
    cases hfunction : bitFunction? target kind with
    | some function =>
      rw [hfunction] at h
      cases h
      exact unbroken_calling (newline_notMem_bitFunction hfunction)
    | none =>
      cases hform : standardForm? target kind with
      | some standard =>
        rw [hfunction, hform] at h
        cases h
        exact unbroken_standardForm hform
      | none =>
        rw [hfunction, hform] at h
        cases h

theorem newline_notMem_guardText (nilSafe optional : Bool) {member : String}
    (h : '\n' ∉ member.toList) : '\n' ∉ (guardText nilSafe optional member).toList := by
  cases nilSafe <;> cases optional <;> simp [guardText, h]

end Lua

end CodeTree
