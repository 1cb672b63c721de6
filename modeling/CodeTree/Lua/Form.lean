import CodeTree.Lua.Draft
import CodeTree.Lua.Literal
import CodeTree.Lua.Operation
import CodeTree.Tree.View

/-!
# Forms of nodes in Lua

Each kind of node has one form in Lua or is refused. The functions here write a form around parts that
write themselves.

* `emitAtom` writes a node without parts.
* `emitUnary` and `emitBinary` write operations.
* `emitMember` is the form shared by field accesses, calls and property accesses. A guarded access is
  a function that returns nil early, applied to the site.
* `checkArgument` and `emitParameterNames` deal with what Lua functions do not have.
* `emitLine` and `emitExpressionLine` write lines.

Two texts depend on what follows them: a minus sign keeps a space from another one, since two of them
begin a comment, and a line that begins with a parenthesis gets a semicolon in front, since it would go
on with the line before.
-/

namespace CodeTree.Lua

set_option autoImplicit false

/-- What writing depends on besides the tree. -/
structure Setting where
  names : NameTable
  config : Config

/-! ## Names and atoms -/

/-- Stops with a refusal. -/
def refuse {α : Type} (error : EmitError) : Emit α := throw error

/-- The name of a symbol. -/
def nameOf (g : Setting) (s : Symbol) : Emit String :=
  match g.names.name s with
  | .ok name => pure name
  | .error error => refuse (.tree error)

/-- Writes the name of a symbol. -/
def writeName (g : Setting) (s : Symbol) : Emit Unit := do
  write (← nameOf g s)

/-- Writes lines of raw code; all but the first are indented. -/
def emitLines (g : Setting) : List String → Emit Unit
  | [] => pure ()
  | [line] => write line
  | line :: lines => do
    write line
    newline
    indent g.config.indentWidth
    emitLines g lines

/-- Writes a node without parts. Of a type only the name is written. -/
def emitAtom (g : Setting) : Atom → Emit Unit
  | .nil => write "nil"
  | .selfReference => write "self"
  | .literal value => write (literalText g.config.target value)
  | .identifier name => writeName g name
  | .localVariable read => writeName g read.name
  | .typeReference type => writeName g type.name
  | .enumValue value => do
    let type ← nameOf g value.type.name
    let name ← nameOf g value.value
    write (type ++ "." ++ name)
  | .raw code =>
    if g.config.allowRaw then emitLines g code.lines
    else refuse (.tree (.notPortable code.lines.length))
  | .propertyValue => refuse (.expression (.atom .propertyValue))
  | .inherited => refuse (.expression (.atom .inherited))
  | .selector name => refuse (.expression (.atom (.selector name)))
  | .default type => refuse (.expression (.atom (.default type)))

/-! ## Operations -/

/-- Whether a text begins with a character. -/
def opensWith (c : Char) (text : String) : Bool := text.toList.head? == some c

/-- Whether a text ends with a character. -/
def endsWith (c : Char) (text : String) : Bool := text.toList.getLast? == some c

/-- Writes something between two texts. -/
def emitBetween (opening closing : String) (inner : Emit Unit) : Emit Unit := do
  write opening
  inner
  write closing

/-- Writes an operator before its operand, in parentheses. -/
def emitPrefixed (operator : String) (operand : Emit Unit) : Emit Unit := do
  write ("(" ++ operator)
  let text ← capture operand
  write (if endsWith '-' operator && opensWith '-' text then " " ++ text else text)
  write ")"

/-- Writes an operation on one operand. Plus changes nothing and is left out. -/
def emitUnary (operator : Operator UnaryKind) (operand : Emit Unit) : Emit Unit :=
  match operator with
  | .standard .plus => operand
  | .standard .minus => emitPrefixed "-" operand
  | .standard .not => emitPrefixed "not " operand
  | .standard .addressOf => refuse (.unaryOperator .addressOf)
  | .custom text => emitPrefixed text operand

/-- Writes two operands in a form. -/
def emitInForm (form : BinaryForm) (left right : Emit Unit) : Emit Unit := do
  write form.opening
  left
  write form.between
  right
  write form.closing

/-- Writes an operation on two operands, or refuses its operator before writing any of them. -/
def emitBinary (g : Setting) (operator : Operator BinaryKind) (left right : Emit Unit) :
    Emit Unit := do
  if needsBitLibrary g.config.target operator then useBitLibrary
  match binaryForm g.config.target operator with
  | .ok form => emitInForm form left right
  | .error kind => refuse (.binaryOperator kind)

/-! ## Accesses -/

/-- The condition under which a guarded access is nil. -/
def guardText (nilSafe optional : Bool) (member : String) : String :=
  (if nilSafe then "t == nil" else "")
    ++ (if nilSafe && optional then " or " else "")
    ++ (if optional then "t." ++ member ++ " == nil" else "")

/-- Where a member is looked for. -/
structure Site where
  isType : Bool
  emit : Emit Unit

/-- Writes an access to a member, with a call if there are arguments. Members of a type are static and
take no instance along. -/
def emitMember (g : Setting) (site : Option Site) (selection : Selection)
    (arguments : Option (Emit Unit)) (optional : Bool) : Emit Unit := do
  let member ← nameOf g selection.name
  let call : Emit Unit :=
    match arguments with
    | some arguments => emitBetween "(" ")" arguments
    | none => pure ()
  match site with
  | none =>
    write member
    call
  | some site =>
    let separator := if arguments.isSome && !site.isType then ":" else "."
    if selection.nilSafe || optional then
      write ("(function(t) if " ++ guardText selection.nilSafe optional member
        ++ " then return nil end return t")
      write (separator ++ member)
      call
      write " end)("
      site.emit
      write ")"
    else
      site.emit
      write (separator ++ member)
      call

/-- Whether an expression is a reference to a type. -/
def isTypeReference (e : Expr) : Bool :=
  match e.atom? with
  | some (.typeReference _) => true
  | _ => false

/-! ## Arguments and parameters -/

/-- Refuses an argument that is not passed by value, or by a name where names are refused. -/
def checkArgument (g : Setting) (name : Option Symbol) (passing : Passing) : Emit Unit :=
  match passing with
  | .byValue =>
    match name, g.config.namedArguments with
    | some name, .reject => do
      refuse (.namedArgument (← nameOf g name))
    | _, _ => pure ()
  | passing => refuse (.argumentPassing passing)

/-- Writes the names of parameters, with commas between them. -/
def emitParameterNames (g : Setting) : (isFirst : Bool) → List Parameter → Emit Unit
  | _, [] => pure ()
  | isFirst, p :: parameters => do
    if p.passing ≠ .byValue then refuse (.parameterPassing p.passing)
    unless isFirst do write ", "
    writeName g p.name
    emitParameterNames g false parameters

/-! ## Lines -/

/-- Whether Lua accepts an expression as a statement: calls, and raw code where it is allowed. -/
def standsAlone (g : Setting) (e : Expr) : Bool :=
  match e.node with
  | .call _ _ _ _ => true
  | .atom (.raw _) => g.config.allowRaw
  | _ => false

/-- Writes a statement that is a single expression. -/
def emitExpressionLine (g : Setting) (expression : Emit Unit) : Emit Unit := do
  indent g.config.indentWidth
  let text ← capture expression
  write (if opensWith '(' text then ";" ++ text else text)
  newline

/-- Writes one line. -/
def emitLine (g : Setting) (line : Emit Unit) : Emit Unit := do
  indent g.config.indentWidth
  line
  newline

/-- Writes what comes before the value of a local variable. -/
def emitLocalName (g : Setting) (name : Symbol) (constant : Bool) : Emit Unit := do
  let name ← nameOf g name
  write ("local " ++ name)
  if constant && g.config.target.hasConstants then write " <const>"

end CodeTree.Lua
