import CodeTree.Tree.Traversal

/-! # The nodes that reach the text

Writing a tree visits its nodes in the order of the text: a node before what is below it, and the parts
of a node as they are written. That is the order of the tree with two exceptions. A guarded call has its
arguments before its site, and nothing below an array allocation is written. A shared reference counts
as the atom it refers to.

* `Expr.rendered` and `Statement.rendered` list these nodes.
* `Node.symbols`, `Node.customText?`, `Node.strings` and `Node.isRaw` are what a node adds to the text
  besides its parts.
* `Node.sites` are the parts whose text it goes on with, `Node.targets` those it assigns to,
  `Node.arguments` those it passes on, and `Node.bodies` the lists of statements that are a block of
  their own. -/

namespace CodeTree

set_option autoImplicit false

/-! ## What a node adds -/

def Atom.symbols : Atom → List Symbol
  | identifier name => [name]
  | localVariable read => [read.name]
  | typeReference type => [type.name]
  | enumValue value => [value.type.name, value.value]
  | _ => []

/-- The symbols whose names a node is written with. Of an allocation no name is written. -/
def Expr.symbols : Expr → List Symbol
  | shared s => s.atom.symbols
  | atom a => a.symbols
  | field _ selection => [selection.name]
  | call _ selection _ _ => [selection.name]
  | property _ selection _ => [selection.name]
  | construct type constructor _ initializers =>
    type.name :: constructor.toList ++ initializers.filterMap (·.name)
  | method _ parameters _ _ locals => parameters.map (·.name) ++ (locals.getD []).map (·.name)
  | _ => []

/-- The expression behind unary plus and casts, which leave no trace in the text. -/
def Expr.core : Expr → Expr
  | shared s => atom s.atom
  | unary (.standard .plus) operand => operand.core
  | cast value _ _ _ => value.core
  | e => e

/-- Whether accesses and indices can be written behind an expression: it is not, behind plus and casts,
nil, a literal, a list or dictionary, an array allocation or a method. -/
def Expr.takesSuffix (e : Expr) : Bool :=
  match e.core with
  | atom .nil | atom (.literal _) => false
  | array _ _ | dictionary _ | tuple _ | allocate _ _ _ _ | method _ _ _ _ _ => false
  | _ => true

/-- The expressions behind whose text a node writes an access or an index. -/
def Expr.sites : Expr → List Expr
  | field site _ => site.toList
  | call site _ _ _ => site.toList
  | property site _ _ => site.toList
  | element indexed _ => [indexed]
  | _ => []

def Expr.customText? : Expr → Option String
  | unary operator _ => operator.customText?
  | binary operator _ _ => operator.customText?
  | _ => none

def Expr.isMethod : Expr → Bool
  | method _ _ _ _ _ => true
  | _ => false

def Statement.isResult : Statement → Bool
  | result _ => true
  | _ => false

/-- Of these statements only the last one may be a return. -/
def ReturnsLast (body : List Statement) : Prop := ∀ s ∈ body.dropLast, s.isResult = false

instance : DecidablePred ReturnsLast := fun _ => inferInstanceAs (Decidable (∀ _ ∈ _, _))

theorem returnsLast_cons {s : Statement} {body : List Statement} :
    ReturnsLast (s :: body) ↔ (s.isResult = true → body = []) ∧ ReturnsLast body := by
  cases body <;> simp [ReturnsLast]

def Literal.text? : Literal → Option (List Char)
  | string value => some value.toList
  | character value => some [value]
  | _ => none

namespace Node

def symbols : Node → List Symbol
  | expression e => e.symbols
  | statement (.declaration declared) => [declared.name]
  | _ => []

def customText? : Node → Option String
  | expression e => e.customText?
  | _ => none

def sites : Node → List Expr
  | expression e => e.sites
  | _ => []

/-- The arguments of a call or a constructor and the indices of a property. -/
def arguments : Node → List Argument
  | expression e => e.arguments?.getD []
  | _ => []

/-- The statements of a method or of a block: one list or none. -/
def bodies : Node → List (List Statement)
  | expression (.method _ _ _ body _) => [body]
  | statement (.block body) => [body]
  | _ => []

/-- The expressions that a node assigns to: one or none. -/
def targets : Node → List Expr
  | statement (.assignment target _) => [target]
  | _ => []

/-- The texts of string and character literals at a node: one or none. -/
def strings : Node → List (List Char)
  | expression e => (e.literal?.bind Literal.text?).toList
  | _ => []

def isRaw : Node → Bool
  | expression e => e.isRaw
  | _ => false

def isMethod : Node → Bool
  | expression e => e.isMethod
  | _ => false

end Node

/-! ## The nodes of a tree in the order of the text -/

mutual

/-- The nodes of an expression that are written, in the order of the text. -/
def Expr.rendered : Expr → List Node
  | .shared s => [.expression (.atom s.atom)]
  | .atom a => [.expression (.atom a)]
  | .array elements kind => .expression (.array elements kind) :: renderedExprs elements
  | .dictionary entries => .expression (.dictionary entries) :: renderedEntries entries
  | .tuple elements => .expression (.tuple elements) :: renderedExprs elements
  | .unary operator operand => .expression (.unary operator operand) :: operand.rendered
  | .binary operator left right =>
    .expression (.binary operator left right) :: (left.rendered ++ right.rendered)
  | .field site selection => .expression (.field site selection) :: renderedExpr? site
  | .call site selection arguments optional =>
    .expression (.call site selection arguments optional) ::
      if selection.nilSafe || optional then renderedArguments arguments ++ renderedExpr? site
      else renderedExpr? site ++ renderedArguments arguments
  | .property site selection indices =>
    .expression (.property site selection indices) ::
      (renderedExpr? site ++ renderedArguments indices)
  | .construct type constructor arguments initializers =>
    .expression (.construct type constructor arguments initializers) ::
      (renderedArguments arguments ++ renderedArguments initializers)
  | .allocate type constructor bounds initializers =>
    [.expression (.allocate type constructor bounds initializers)]
  | .element array indices =>
    .expression (.element array indices) :: (array.rendered ++ renderedExprs indices)
  | .wrapped wrapper inner => .expression (.wrapped wrapper inner) :: inner.rendered
  | .conditional condition consequence alternative =>
    .expression (.conditional condition consequence alternative) ::
      (condition.rendered ++ consequence.rendered ++ renderedExpr? alternative)
  | .cast value type throwing safe =>
    .expression (.cast value type throwing safe) :: value.rendered
  | .assigned value inverted => .expression (.assigned value inverted) :: value.rendered
  | .method lambda parameters returns body locals =>
    .expression (.method lambda parameters returns body locals) ::
      (renderedDefaults parameters ++ renderedLocals? locals ++ renderedStatements body)
  | .anonymousType kind members => [.expression (.anonymousType kind members)]

def renderedExpr? : Option Expr → List Node
  | none => []
  | some e => e.rendered

def renderedExprs : List Expr → List Node
  | [] => []
  | e :: es => e.rendered ++ renderedExprs es

def renderedEntries : List (Expr × Expr) → List Node
  | [] => []
  | (key, value) :: entries => key.rendered ++ value.rendered ++ renderedEntries entries

def renderedArguments : List Argument → List Node
  | [] => []
  | ⟨_, value, _⟩ :: arguments => value.rendered ++ renderedArguments arguments

def renderedDefaults : List Parameter → List Node
  | [] => []
  | ⟨_, _, _, value⟩ :: parameters => renderedExpr? value ++ renderedDefaults parameters

def renderedLocals : List Declaration → List Node
  | [] => []
  | ⟨_, _, value, _⟩ :: locals => renderedExpr? value ++ renderedLocals locals

def renderedLocals? : Option (List Declaration) → List Node
  | none => []
  | some locals => renderedLocals locals

def Statement.rendered : Statement → List Node
  | .expression value => .statement (.expression value) :: value.rendered
  | .declaration ⟨name, type, value, constant⟩ =>
    .statement (.declaration ⟨name, type, value, constant⟩) :: renderedExpr? value
  | .assignment target value =>
    .statement (.assignment target value) :: (target.rendered ++ value.rendered)
  | .result value => .statement (.result value) :: renderedExpr? value
  | .block body => .statement (.block body) :: renderedStatements body

def renderedStatements : List Statement → List Node
  | [] => []
  | s :: statements => s.rendered ++ renderedStatements statements

end

end CodeTree
