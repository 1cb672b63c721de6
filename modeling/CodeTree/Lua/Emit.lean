import CodeTree.Lua.Form

/-!
# Writing trees in Lua

An expression is written where the draft stands; a statement is a line of its own, or several, at the
depth of the draft. Parts are written in the order in which they stand in the text, which is the order
of the tree except that a guarded access has its arguments before its site. Of several faults in a tree
the first one in that order is reported.

* `emitExpr` writes an expression, `emitStatement` a statement and `emitStatements` a list of them.
-/

namespace CodeTree.Lua

set_option autoImplicit false

mutual

/-- Writes an expression. -/
def emitExpr (g : Setting) : Expr → Emit Unit
  | .shared s => emitAtom g s.atom
  | .atom a => emitAtom g a
  | .array elements _ => emitBetween "\x7b" "\x7d" (emitExprs g true elements)
  | .dictionary entries => emitBetween "\x7b" "\x7d" (emitEntries g true entries)
  | .tuple elements => emitBetween "\x7b" "\x7d" (emitExprs g true elements)
  | .unary operator operand => emitUnary operator (emitExpr g operand)
  | .binary operator left right => emitBinary g operator (emitExpr g left) (emitExpr g right)
  | .field site selection => emitMember g (emitSite? g site) selection none false
  | .call site selection arguments optional =>
    emitMember g (emitSite? g site) selection (some (emitArguments g true arguments)) optional
  | .property site selection indices => do
    emitMember g (emitSite? g site) selection none false
    emitPropertyIndices g indices
  | .construct type constructor arguments initializers => do
    let typeName ← nameOf g type.name
    let constructorName ← match constructor with
      | some constructor => nameOf g constructor
      | none => pure "new"
    let creation := emitBetween (typeName ++ "." ++ constructorName ++ "(") ")"
      (emitArguments g true arguments)
    match initializers with
    | [] => creation
    | initializers =>
      write "(function() local o = "
      creation
      emitInitializers g initializers
      write "; return o end)()"
  | .allocate type _ _ _ => do
    let _ ← nameOf g type.name
    write "\x7b\x7d"
  | .element array indices => do
    emitExpr g array
    emitIndices g indices
  | .wrapped .parentheses inner => emitBetween "(" ")" (emitExpr g inner)
  | .wrapped .typeOf inner => emitBetween "type(" ")" (emitExpr g inner)
  | .wrapped .sizeOf inner => refuse (.expression (.wrapped .sizeOf inner))
  | .wrapped .dereference inner => refuse (.expression (.wrapped .dereference inner))
  | .conditional condition consequence alternative => do
    write "(function() if "
    emitExpr g condition
    write " then return "
    emitExpr g consequence
    match alternative with
    | some alternative =>
      write " else return "
      emitExpr g alternative
    | none => pure ()
    write " end end)()"
  | .cast value _ _ _ => emitExpr g value
  | .assigned value inverted =>
    emitBetween "(" (if inverted then " == nil)" else " ~= nil)") (emitExpr g value)
  | .method _ parameters _ body locals => do
    write "function("
    emitParameterNames g true parameters
    write ")"
    newline
    deeper do
      emitDefaultValues g parameters
      emitLocals? g locals
      emitStatements g body
    indent g.config.indentWidth
    write "end"
  | .anonymousType kind members => refuse (.expression (.anonymousType kind members))

def emitSite? (g : Setting) : Option Expr → Option Site
  | none => none
  | some site => some ⟨isTypeReference site, emitExpr g site⟩

def emitExprs (g : Setting) : (isFirst : Bool) → List Expr → Emit Unit
  | _, [] => pure ()
  | isFirst, e :: es => do
    unless isFirst do write ", "
    emitExpr g e
    emitExprs g false es

def emitEntries (g : Setting) : (isFirst : Bool) → List (Expr × Expr) → Emit Unit
  | _, [] => pure ()
  | isFirst, (key, value) :: entries => do
    unless isFirst do write ", "
    emitBetween "[" "] = " (emitExpr g key)
    emitExpr g value
    emitEntries g false entries

def emitArguments (g : Setting) : (isFirst : Bool) → List Argument → Emit Unit
  | _, [] => pure ()
  | isFirst, ⟨name, value, passing⟩ :: arguments => do
    checkArgument g name passing
    unless isFirst do write ", "
    emitExpr g value
    emitArguments g false arguments

def emitPropertyIndices (g : Setting) : List Argument → Emit Unit
  | [] => pure ()
  | ⟨name, value, passing⟩ :: indices => do
    checkArgument g name passing
    emitBetween "[" "]" (emitExpr g value)
    emitPropertyIndices g indices

def emitIndices (g : Setting) : List Expr → Emit Unit
  | [] => pure ()
  | index :: indices => do
    emitBetween "[" "]" (emitExpr g index)
    emitIndices g indices

/-- Writes the assignments of properties to the new object `o`. -/
def emitInitializers (g : Setting) : List Argument → Emit Unit
  | [] => pure ()
  | ⟨name, value, _⟩ :: initializers => do
    match name with
    | none => refuse .unnamedInitializer
    | some name =>
      let property ← nameOf g name
      write ("; o." ++ property ++ " = ")
      emitExpr g value
      emitInitializers g initializers

/-- Writes a line for each parameter that has a default value. -/
def emitDefaultValues (g : Setting) : List Parameter → Emit Unit
  | [] => pure ()
  | ⟨_, _, _, none⟩ :: parameters => emitDefaultValues g parameters
  | ⟨name, _, _, some value⟩ :: parameters => do
    let name ← nameOf g name
    emitLine g (emitBetween ("if " ++ name ++ " == nil then " ++ name ++ " = ") " end"
      (emitExpr g value))
    emitDefaultValues g parameters

/-- Writes the declaration of a local variable. -/
def emitLocal (g : Setting) : Declaration → Emit Unit
  | ⟨name, _, none, constant⟩ => emitLocalName g name constant
  | ⟨name, _, some value, constant⟩ => do
    emitLocalName g name constant
    write " = "
    emitExpr g value

def emitLocals (g : Setting) : List Declaration → Emit Unit
  | [] => pure ()
  | declared :: locals => do
    emitLine g (emitLocal g declared)
    emitLocals g locals

def emitLocals? (g : Setting) : Option (List Declaration) → Emit Unit
  | none => pure ()
  | some locals => emitLocals g locals

/-- Writes a statement. -/
def emitStatement (g : Setting) : Statement → Emit Unit
  | .expression value =>
    if standsAlone g value then emitExpressionLine g (emitExpr g value)
    else refuse (.statement (.expression value))
  | .declaration declared => emitLine g (emitLocal g declared)
  | .assignment target value =>
    emitLine g do
      emitExpr g target
      write " = "
      emitExpr g value
  | .result none => emitLine g (write "return")
  | .result (some value) =>
    emitLine g do
      write "return "
      emitExpr g value
  | .block body => do
    emitLine g (write "do")
    deeper (emitStatements g body)
    emitLine g (write "end")

def emitStatements (g : Setting) : List Statement → Emit Unit
  | [] => pure ()
  | s :: statements => do
    emitStatement g s
    emitStatements g statements

end

end CodeTree.Lua
