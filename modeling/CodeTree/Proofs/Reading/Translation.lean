import CodeTree.Proofs.Emission.Text
import CodeTree.Proofs.Reading.Grammar

/-! # The Lua syntax tree of a tree

What a tree means in Lua, as a syntax tree and without any text. Plus and casts are left out, a
negative number is a minus sign before its magnitude, operations stand in parentheses, and what Lua has
no expression for is a function that is called at once. Names can be marked by their origin: those of
the tree, and those that the emitter brings along (`math`, `bit`, `type` and its own parameters and
locals).

* `Origin`: where a name comes from.
* `toLua?`, `toLuaStatement?`: the syntax tree of an expression and of a statement.
* `guarded`, `conditional`, `initialized` and `truncatedDivision`: the functions called at once. -/

namespace CodeTree.Lua

set_option autoImplicit false

/-- Where a name in an emitted text comes from. -/
inductive Origin
  | tree
  | emitter
  deriving DecidableEq

/-- The operator that a text is. -/
def UnaryOp.ofText : String → UnaryOp
  | "-" => minus
  | "not" => not
  | "#" => length
  | "~" => complement
  | text => custom text

def BinaryOp.ofText : String → BinaryOp
  | "or" => or
  | "and" => and
  | "<" => less
  | ">" => greater
  | "<=" => lessEqual
  | ">=" => greaterEqual
  | "~=" => notEqual
  | "==" => equal
  | "|" => bitOr
  | "~" => bitXor
  | "&" => bitAnd
  | "<<" => shiftLeft
  | ">>" => shiftRight
  | ".." => concat
  | "+" => add
  | "-" => subtract
  | "*" => multiply
  | "/" => divide
  | "//" => floorDivide
  | "%" => modulo
  | "^" => power
  | text => custom text

/-- The operator of Lua that stands for a standard operator. -/
def binaryOp? : BinaryKind → Option BinaryOp
  | .addition => some .add
  | .subtraction => some .subtract
  | .multiplication => some .multiply
  | .division => some .divide
  | .modulus => some .modulo
  | .equals => some .equal
  | .notEquals => some .notEqual
  | .lessThan => some .less
  | .lessThanOrEquals => some .lessEqual
  | .greaterThan => some .greater
  | .greaterThanOrEquals => some .greaterEqual
  | .logicalAnd => some .and
  | .logicalOr => some .or
  | .shiftLeft => some .shiftLeft
  | .shiftRight => some .shiftRight
  | .bitwiseAnd => some .bitAnd
  | .bitwiseOr => some .bitOr
  | .bitwiseXor => some .bitXor
  | _ => none

/-- The function of the `bit` library that stands for an operator where there are no operators on
bits. -/
def bitName? (target : Target) (kind : BinaryKind) : Option String :=
  if target.hasNativeBitwise then
    none
  else
    match kind with
    | .bitwiseAnd => some "band"
    | .bitwiseOr => some "bor"
    | .bitwiseXor => some "bxor"
    | .shiftLeft => some "lshift"
    | .shiftRight => some "rshift"
    | _ => none

section Translation

variable {ν : Type} (tag : Origin → String → ν)

/-- A name that the emitter brings along. -/
def own (text : String) : Exp ν := .name (tag .emitter text)

def given (text : String) : Exp ν := .name (tag .tree text)

/-! ## Atoms -/

def signed (negative : Bool) (magnitude : Exp ν) : Exp ν :=
  if negative then .unary .minus magnitude else magnitude

def integerExp (target : Target) (value : Int64) : Exp ν :=
  if value = Int64.minValue ∧ target.hasIntegers then .field (own tag "math") "mininteger"
  else signed (decide (value.toInt < 0)) (.numeral (toString value.toInt.natAbs))

def floatExp (x : Binary64) : Exp ν :=
  if x.isNaN then .paren (.binary .divide (.numeral "0") (.numeral "0"))
  else if x.isInfinite then signed x.isNegative (.field (own tag "math") "huge")
  else signed x.isNegative (.numeral x.shortest.positional)

def literalExp (target : Target) : Literal → Exp ν
  | .string value => .string (bytesOf value.toList)
  | .character value => .string (bytesOf [value])
  | .integer value => integerExp tag target value
  | .float value => floatExp tag value
  | .boolean value => .boolean value

def atomExp? (g : Setting) : Atom → Option (Exp ν)
  | .nil => some .nil
  | .selfReference => some (given tag "self")
  | .literal value => some (literalExp tag g.config.target value)
  | .identifier name => (g.names.resolve name).map (given tag)
  | .localVariable read => (g.names.resolve read.name).map (given tag)
  | .typeReference type => (g.names.resolve type.name).map (given tag)
  | .enumValue value => do
    let type ← g.names.resolve value.type.name
    let name ← g.names.resolve value.value
    some (.field (given tag type) name)
  | _ => none

/-! ## Operations -/

def unaryExp? (operator : Operator UnaryKind) (x : Exp ν) : Option (Exp ν) :=
  match operator with
  | .standard .plus => some x
  | .standard .minus => some (.paren (.unary .minus x))
  | .standard .not => some (.paren (.unary .not x))
  | .standard .addressOf => none
  | .custom text => some (.paren (.unary (.ofText text) x))

/-- The function that divides toward zero. -/
def truncatedDivision (target : Target) : Exp ν :=
  .function [tag .emitter "a", tag .emitter "b"]
    [.result [.binary (if target.hasIntegers then .floorDivide else .divide)
      (.paren (.binary .subtract (own tag "a")
        (.call (.field (own tag "math") "fmod") [own tag "a", own tag "b"])))
      (own tag "b")]]

/-- An operation that is not a call into the `bit` library. -/
def standardExp? (target : Target) (kind : BinaryKind) (x y : Exp ν) : Option (Exp ν) :=
  match kind with
  | .truncatedDivision => some (.call (.paren (truncatedDivision tag target)) [x, y])
  | .implies => some (.paren (.binary .or (.paren (.unary .not x)) y))
  | kind => (binaryOp? kind).map fun op => .paren (.binary op x y)

def binaryExp? (target : Target) (operator : Operator BinaryKind) (x y : Exp ν) : Option (Exp ν) :=
  match operator with
  | .custom text => some (.paren (.binary (.ofText text) x y))
  | .standard kind =>
    match bitName? target kind with
    | some name => some (.call (.field (own tag "bit") name) [x, y])
    | none => standardExp? tag target kind x y

/-- An expression that picks one of two values, as a function called at once. -/
def conditional (condition consequence : Exp ν) (alternative : Option (Exp ν)) : Exp ν :=
  .call (.paren (.function []
    [.conditional condition [.result [consequence]]
      (match alternative with
        | some alternative => [.result [alternative]]
        | none => [])])) []

/-! ## Accesses -/

/-- The condition under which a guarded access is nil. -/
def guardExp (nilSafe optional : Bool) (member : String) : Exp ν :=
  let isNil : Exp ν := .binary .equal (own tag "t") .nil
  let hasNone : Exp ν := .binary .equal (.field (own tag "t") member) .nil
  if nilSafe && optional then .binary .or isNil hasNone
  else if nilSafe then isNil
  else hasNone

def selected (x : Exp ν) (isType : Bool) (member : String) (arguments : Option (List (Exp ν))) : Exp ν :=
  match arguments with
  | none => .field x member
  | some arguments => if isType then .call (.field x member) arguments else .invoke x member arguments

/-- An access that is nil if its site is, as a function applied to the site. -/
def guarded (x : Exp ν) (isType nilSafe optional : Bool) (member : String)
    (arguments : Option (List (Exp ν))) : Exp ν :=
  .call (.paren (.function [tag .emitter "t"]
    [.conditional (guardExp tag nilSafe optional member) [.result [.nil]] [],
     .result [selected (own tag "t") isType member arguments]])) [x]

def memberExp (site : Option (Bool × Exp ν)) (selection : Selection) (optional : Bool)
    (member : String) (arguments : Option (List (Exp ν))) : Exp ν :=
  match site with
  | none =>
    match arguments with
    | none => given tag member
    | some arguments => .call (given tag member) arguments
  | some (isType, x) =>
    if selection.nilSafe || optional then
      guarded tag x isType selection.nilSafe optional member arguments
    else selected x isType member arguments

def indexed (x : Exp ν) (keys : List (Exp ν)) : Exp ν := keys.foldl .index x

/-! ## Constructions -/

/-- A new object whose properties are assigned, as a function called at once. -/
def initialized (creation : Exp ν) (assignments : List (Stat ν)) : Exp ν :=
  .call (.paren (.function []
    (.declare (tag .emitter "o") none [creation] :: assignments
      ++ [.empty, .result [own tag "o"]]))) []

def constructExp (type constructor : String) (arguments : List (Exp ν))
    (assignments : List (Stat ν)) : Exp ν :=
  let creation := .call (.field (given tag type) constructor) arguments
  if assignments.isEmpty then creation else initialized tag creation assignments

def initializer (property : String) (value : Exp ν) : List (Stat ν) :=
  [.empty, .assign (.field (own tag "o") property) value]

/-! ## Methods and statements -/

def parameterNames? (g : Setting) : List Parameter → Option (List ν)
  | [] => some []
  | p :: parameters => do
    let name ← g.names.resolve p.name
    let names ← parameterNames? g parameters
    some (tag .tree name :: names)

def defaultStat (name : String) (value : Exp ν) : Stat ν :=
  .conditional (.binary .equal (given tag name) .nil) [.assign (given tag name) value] []

def attribute? (g : Setting) (constant : Bool) : Option String :=
  if constant && g.config.target.hasConstants then some "const" else none

/-- A call as a statement. One that begins with a parenthesis is kept apart from what is before it. -/
def callStats (x : Exp ν) : List (Stat ν) :=
  if x.opensParen then [.empty, .call x] else [.call x]

/-! ## Trees -/

variable (g : Setting)

mutual

/-- The syntax tree of an expression, if it has one. -/
def toLua? : Expr → Option (Exp ν)
  | .shared s => atomExp? tag g s.atom
  | .atom a => atomExp? tag g a
  | .array elements _ => do
    let xs ← toLuaList? elements
    some (.table (xs.map .item))
  | .dictionary entries => do
    let fields ← toLuaEntries? entries
    some (.table fields)
  | .tuple elements => do
    let xs ← toLuaList? elements
    some (.table (xs.map .item))
  | .unary operator operand => do
    let x ← toLua? operand
    unaryExp? operator x
  | .binary operator left right => do
    let x ← toLua? left
    let y ← toLua? right
    binaryExp? tag g.config.target operator x y
  | .field site selection => do
    let site ← toLuaSite? site
    let member ← g.names.resolve selection.name
    some (memberExp tag site selection false member none)
  | .call site selection arguments optional => do
    let site ← toLuaSite? site
    let member ← g.names.resolve selection.name
    let arguments ← toLuaArguments? arguments
    some (memberExp tag site selection optional member (some arguments))
  | .property site selection indices => do
    let site ← toLuaSite? site
    let member ← g.names.resolve selection.name
    let indices ← toLuaArguments? indices
    some (indexed (memberExp tag site selection false member none) indices)
  | .construct type constructor arguments initializers => do
    let type ← g.names.resolve type.name
    let constructor ← constructorName g constructor
    let arguments ← toLuaArguments? arguments
    let assignments ← toLuaInitializers? initializers
    some (constructExp tag type constructor arguments assignments)
  | .allocate _ _ _ _ => some (.table [])
  | .element array indices => do
    let x ← toLua? array
    let indices ← toLuaList? indices
    some (indexed x indices)
  | .wrapped .parentheses inner => do
    let x ← toLua? inner
    some (.paren x)
  | .wrapped .typeOf inner => do
    let x ← toLua? inner
    some (.call (own tag "type") [x])
  | .wrapped _ _ => none
  | .conditional condition consequence alternative => do
    let condition ← toLua? condition
    let consequence ← toLua? consequence
    match alternative with
    | none => some (conditional condition consequence none)
    | some alternative =>
      let alternative ← toLua? alternative
      some (conditional condition consequence (some alternative))
  | .cast value _ _ _ => toLua? value
  | .assigned value inverted => do
    let x ← toLua? value
    some (.paren (.binary (if inverted then .equal else .notEqual) x .nil))
  | .method _ parameters _ body locals => do
    let names ← parameterNames? tag g parameters
    let defaults ← toLuaDefaults? parameters
    let locals ← toLuaLocals? locals
    let body ← toLuaStatements? body
    some (.function names (defaults ++ locals ++ body))
  | .anonymousType _ _ => none

def toLuaSite? : Option Expr → Option (Option (Bool × Exp ν))
  | none => some none
  | some site => do
    let x ← toLua? site
    some (some (isTypeReference site, x))

def toLuaList? : List Expr → Option (List (Exp ν))
  | [] => some []
  | e :: es => do
    let x ← toLua? e
    let xs ← toLuaList? es
    some (x :: xs)

def toLuaEntries? : List (Expr × Expr) → Option (List (TableField ν))
  | [] => some []
  | (key, value) :: entries => do
    let key ← toLua? key
    let value ← toLua? value
    let fields ← toLuaEntries? entries
    some (.keyed key value :: fields)

def toLuaArguments? : List Argument → Option (List (Exp ν))
  | [] => some []
  | ⟨_, value, _⟩ :: arguments => do
    let x ← toLua? value
    let xs ← toLuaArguments? arguments
    some (x :: xs)

def toLuaInitializers? : List Argument → Option (List (Stat ν))
  | [] => some []
  | ⟨name, value, _⟩ :: initializers => do
    let name ← name
    let property ← g.names.resolve name
    let x ← toLua? value
    let assignments ← toLuaInitializers? initializers
    some (initializer tag property x ++ assignments)

def toLuaDefaults? : List Parameter → Option (List (Stat ν))
  | [] => some []
  | ⟨_, _, _, none⟩ :: parameters => toLuaDefaults? parameters
  | ⟨name, _, _, some value⟩ :: parameters => do
    let name ← g.names.resolve name
    let x ← toLua? value
    let defaults ← toLuaDefaults? parameters
    some (defaultStat tag name x :: defaults)

def toLuaLocal? : Declaration → Option (Stat ν)
  | ⟨name, _, none, constant⟩ => do
    let name ← g.names.resolve name
    some (.declare (tag .tree name) (attribute? g constant) [])
  | ⟨name, _, some value, constant⟩ => do
    let name ← g.names.resolve name
    let x ← toLua? value
    some (.declare (tag .tree name) (attribute? g constant) [x])

def toLuaLocalList? : List Declaration → Option (List (Stat ν))
  | [] => some []
  | declared :: locals => do
    let s ← toLuaLocal? declared
    let statements ← toLuaLocalList? locals
    some (s :: statements)

def toLuaLocals? : Option (List Declaration) → Option (List (Stat ν))
  | none => some []
  | some locals => toLuaLocalList? locals

/-- The statements that a statement is in Lua. -/
def toLuaStatement? : Statement → Option (List (Stat ν))
  | .expression value => do
    let x ← toLua? value
    some (callStats x)
  | .declaration declared => do
    let s ← toLuaLocal? declared
    some [s]
  | .assignment target value => do
    let x ← toLua? target
    let y ← toLua? value
    some [.assign x y]
  | .result none => some [.result []]
  | .result (some value) => do
    let x ← toLua? value
    some [.result [x]]
  | .block body => do
    let body ← toLuaStatements? body
    some [.block body]

def toLuaStatements? : List Statement → Option (List (Stat ν))
  | [] => some []
  | s :: statements => do
    let s ← toLuaStatement? s
    let statements ← toLuaStatements? statements
    some (s ++ statements)

end

end Translation

end CodeTree.Lua
