import CodeTree.Tree.Basic

/-!
# Debug texts of trees

The debug text of a tree shows every node with all of its fields on one line. An expression shows the
kind of its node and then what the node holds; a reference to a shared node has `&` in front.

* `Expr.inspect` is the text of an expression, `Expr.inspectNode` that of its node, without `&`.
* `Expr.inspectContents` is the text of what a node holds, without the name of its kind.
* `Argument.inspect`, `Parameter.inspect`, `Declaration.inspect`, `Member.inspect` and
  `Statement.inspect` are the texts of the other parts of trees.
-/

namespace CodeTree

set_option autoImplicit false

/-! ## Texts built from the texts of the parts -/

/-- A node of a kind with what it holds. -/
def assemble (variant : String) : Option String → String
  | none => variant
  | some contents => Inspect.tagged variant [contents]

/-- The mark of a shared reference. -/
def sharingMark (isShared : Bool) : String := if isShared then "&" else ""

namespace Inspect

def symbol? (s : Option Symbol) : String := option (s.map Symbol.inspect)

def type? (t : Option TypeReference) : String := option (t.map TypeReference.inspect)

def memberAccess (site : Option String) (selection : Selection) : String :=
  record "MemberAccess"
    [("call_site", option site), ("name", selection.name.inspect),
     ("nil_safe", bool selection.nilSafe), ("unwrap_nullable", bool selection.unwrap)]

def newInstance (type : TypeReference) (constructor : Option Symbol) (arguments : String)
    (initializers : List String) : String :=
  record "NewInstanceExpression"
    [("type_ref", type.inspect), ("constructor_name", symbol? constructor), ("arguments", arguments),
     ("property_initializers", list initializers)]

def callParameter (name : Option Symbol) (value : String) (passing : Passing) : String :=
  record "CallParameter" [("name", symbol? name), ("value", value), ("modifier", passing.name)]

def parameterDefinition (name : Symbol) (type : Option TypeReference) (passing : Passing)
    (defaultValue : Option String) : String :=
  record "ParameterDefinition"
    [("name", name.inspect), ("type_ref", type? type), ("modifier", passing.name),
     ("default_value", option defaultValue)]

def variableDeclaration (name : Symbol) (type : Option TypeReference) (value : Option String)
    (constant : Bool) : String :=
  record "VariableDeclarationStatement"
    [("name", name.inspect), ("type_ref", type? type), ("value", option value),
     ("constant", bool constant)]

def fieldDefinition (name : Symbol) (type : Option TypeReference) (initializer : Option String)
    (constant : Bool) : String :=
  record "FieldDefinition"
    [("name", name.inspect), ("type_ref", type? type), ("initializer", option initializer),
     ("constant", bool constant)]

end Inspect

/-- The name of the kind of node an expression refers to. -/
def Expr.variant : Expr → String
  | .shared s => s.atom.variant
  | .atom a => a.variant
  | .array _ _ => "ArrayLiteral"
  | .dictionary _ => "DictionaryLiteral"
  | .tuple _ => "TupleLiteral"
  | .unary _ _ => "UnaryOperator"
  | .binary _ _ _ => "BinaryOperator"
  | .field _ _ => "FieldAccess"
  | .call _ _ _ _ => "MethodCall"
  | .property _ _ _ => "PropertyAccess"
  | .construct _ _ _ _ => "NewInstance"
  | .allocate _ _ _ _ => "NewInstance"
  | .element _ _ => "ArrayElementAccess"
  | .wrapped wrapper _ => wrapper.variant
  | .conditional _ _ _ => "IfThenElse"
  | .cast _ _ _ _ => "TypeCast"
  | .assigned _ _ => "Assigned"
  | .method _ _ _ _ _ => "AnonymousMethod"
  | .anonymousType _ _ => "AnonymousType"

/-- The text of an expression, given that of what its node holds. -/
def Expr.inspectAround (e : Expr) (contents : Option String) : String :=
  sharingMark e.isShared ++ assemble e.variant contents

/-! ## The texts of all parts -/

mutual

/-- The debug text of what a node holds, if it holds anything. -/
def Expr.contents? : Expr → Option String
  | .shared s => s.atom.contents?
  | .atom a => a.contents?
  | .array elements kind =>
    some (Inspect.record "ArrayLiteralExpression"
      [("elements", Inspect.list (inspectExprs elements)), ("array_kind", kind.name)])
  | .dictionary entries =>
    some (Inspect.record "DictionaryLiteralExpression"
      [("entries", Inspect.list (inspectEntries entries))])
  | .tuple elements =>
    some (Inspect.record "TupleLiteralExpression"
      [("members", Inspect.list (inspectExprs elements))])
  | .unary operator operand =>
    some (Inspect.record "UnaryOperatorExpression"
      [("value", operand.inspectAround operand.contents?),
       ("operator", operator.inspect UnaryKind.name)])
  | .binary operator left right =>
    some (Inspect.record "BinaryOperatorExpression"
      [("lhs", left.inspectAround left.contents?), ("rhs", right.inspectAround right.contents?),
       ("operator", operator.inspect BinaryKind.name)])
  | .field site selection =>
    some (Inspect.record "FieldAccessExpression"
      [("access", Inspect.memberAccess (inspectExpr? site) selection)])
  | .call site selection arguments optional =>
    some (Inspect.record "MethodCallExpression"
      [("access", Inspect.memberAccess (inspectExpr? site) selection),
       ("parameters", Inspect.list (inspectArguments arguments)),
       ("call_optionally", Inspect.bool optional)])
  | .property site selection indices =>
    some (Inspect.record "PropertyAccessExpression"
      [("access", Inspect.memberAccess (inspectExpr? site) selection),
       ("parameters", Inspect.list (inspectArguments indices))])
  | .construct type constructor arguments initializers =>
    some (Inspect.newInstance type constructor
      (Inspect.tagged "Constructor" [Inspect.list (inspectArguments arguments)])
      (inspectArguments initializers))
  | .allocate type constructor bounds initializers =>
    some (Inspect.newInstance type constructor
      (Inspect.tagged "ArrayBounds" [Inspect.list (inspectExprs bounds)])
      (inspectArguments initializers))
  | .element array indices =>
    some (Inspect.record "ArrayElementAccessExpression"
      [("array", array.inspectAround array.contents?),
       ("parameters", Inspect.list (inspectExprs indices))])
  | .wrapped _ inner => some (inner.inspectAround inner.contents?)
  | .conditional condition consequence alternative =>
    some (Inspect.record "IfThenElseExpression"
      [("condition", condition.inspectAround condition.contents?),
       ("if_expression", consequence.inspectAround consequence.contents?),
       ("else_expression", Inspect.option (inspectExpr? alternative))])
  | .cast value type throwing guaranteedSafe =>
    some (Inspect.record "TypeCastExpression"
      [("expression", value.inspectAround value.contents?), ("target_type", type.inspect),
       ("throws_exception", Inspect.bool throwing),
       ("guaranteed_safe", Inspect.bool guaranteedSafe)])
  | .assigned value inverted =>
    some (Inspect.record "AssignedExpression"
      [("value", value.inspectAround value.contents?), ("inverted", Inspect.bool inverted)])
  | .method lambda parameters returns body locals =>
    some (Inspect.record "AnonymousMethodExpression"
      [("lambda", Inspect.bool lambda), ("parameters", Inspect.list (inspectParameters parameters)),
       ("return_type", Inspect.type? returns),
       ("statements", Inspect.list (inspectStatements body)),
       ("local_variables", Inspect.option (inspectLocals? locals))])
  | .anonymousType kind members =>
    some (Inspect.record "AnonymousTypeExpression"
      [("kind", kind.name), ("members", Inspect.list (inspectMembers members))])

def inspectExpr? : Option Expr → Option String
  | none => none
  | some e => some (e.inspectAround e.contents?)

def inspectExprs : List Expr → List String
  | [] => []
  | e :: es => e.inspectAround e.contents? :: inspectExprs es

def inspectEntries : List (Expr × Expr) → List String
  | [] => []
  | (key, value) :: entries =>
    Inspect.pair (key.inspectAround key.contents?) (value.inspectAround value.contents?)
      :: inspectEntries entries

def inspectArguments : List Argument → List String
  | [] => []
  | ⟨name, value, passing⟩ :: arguments =>
    Inspect.callParameter name (value.inspectAround value.contents?) passing
      :: inspectArguments arguments

def inspectParameters : List Parameter → List String
  | [] => []
  | ⟨name, type, passing, defaultValue⟩ :: parameters =>
    Inspect.parameterDefinition name type passing (inspectExpr? defaultValue)
      :: inspectParameters parameters

def inspectLocals : List Declaration → List String
  | [] => []
  | ⟨name, type, value, constant⟩ :: locals =>
    Inspect.variableDeclaration name type (inspectExpr? value) constant :: inspectLocals locals

def inspectLocals? : Option (List Declaration) → Option String
  | none => none
  | some locals => some (Inspect.list (inspectLocals locals))

/-- Debug text of a member. -/
def Member.inspect : Member → String
  | .field ⟨name, type, value, constant⟩ =>
    Inspect.tagged "Field" [Inspect.fieldDefinition name type (inspectExpr? value) constant]
  | .method name parameters returns body =>
    Inspect.tagged "Method"
      [Inspect.record "MethodDefinition"
        [("name", name.inspect), ("parameters", Inspect.list (inspectParameters parameters)),
         ("return_type", Inspect.type? returns),
         ("statements", Inspect.list (inspectStatements body))]]

def inspectMembers : List Member → List String
  | [] => []
  | m :: members => m.inspect :: inspectMembers members

/-- Debug text of a statement. -/
def Statement.inspect : Statement → String
  | .expression value => Inspect.tagged "Expression" [value.inspectAround value.contents?]
  | .declaration ⟨name, type, value, constant⟩ =>
    Inspect.tagged "VariableDeclaration"
      [Inspect.variableDeclaration name type (inspectExpr? value) constant]
  | .assignment target value =>
    Inspect.record "Assignment"
      [("target", target.inspectAround target.contents?),
       ("value", value.inspectAround value.contents?)]
  | .result value => Inspect.tagged "Return" [Inspect.option (inspectExpr? value)]
  | .block body => Inspect.tagged "Block" [Inspect.list (inspectStatements body)]

def inspectStatements : List Statement → List String
  | [] => []
  | s :: statements => s.inspect :: inspectStatements statements

end

/-- Debug text of an expression. -/
def Expr.inspect (e : Expr) : String := e.inspectAround e.contents?

/-- Debug text of the node an expression refers to, which does not show sharing. -/
def Expr.inspectNode (e : Expr) : String := assemble e.variant e.contents?

/-- Debug text of what a node holds; empty for a node that holds nothing. -/
def Expr.inspectContents (e : Expr) : String := e.contents?.getD ""

/-- Debug text of an argument. -/
def Argument.inspect (a : Argument) : String :=
  Inspect.callParameter a.name a.value.inspect a.passing

/-- Debug text of a parameter. -/
def Parameter.inspect (p : Parameter) : String :=
  Inspect.parameterDefinition p.name p.type p.passing (p.defaultValue.map Expr.inspect)

/-- Debug text of a declaration as one of a variable. -/
def Declaration.inspect (d : Declaration) : String :=
  Inspect.variableDeclaration d.name d.type (d.value.map Expr.inspect) d.constant

/-! ## Lemmas -/

theorem Expr.inspect_shared (s : Sentinel) :
    (Expr.shared s).inspect = "&" ++ (Expr.atom s.atom).inspect := by
  simp [inspect, inspectAround, sharingMark, isShared, sentinel?, variant, contents?]

theorem inspectExprs_eq_map (es : List Expr) : inspectExprs es = es.map Expr.inspect := by
  induction es with
  | nil => rfl
  | cons e es ih => simp [inspectExprs, Expr.inspect, ih]

theorem inspectArguments_eq_map (arguments : List Argument) :
    inspectArguments arguments = arguments.map Argument.inspect := by
  induction arguments with
  | nil => rfl
  | cons a arguments ih =>
    cases a
    simp [inspectArguments, Argument.inspect, Expr.inspect, ih]

end CodeTree
