import CodeTree.Tree.Literal
import CodeTree.Tree.TypeReference

/-!
# Atoms

An atom is a node of a tree that has no expressions below it: a literal, a name in one of its roles, a
fixed reference such as `self`, or raw code.

* `RawCode.ofText` splits a text into the lines of raw code.
* `Atom.equal` compares two atoms; literals by value, all else field by field.
* `Atom.variant` names the kind of node, `Atom.contents?` is the debug text of what it holds.
-/

namespace CodeTree

set_option autoImplicit false

/-- A local variable that is read. -/
structure LocalVariable where
  name : Symbol
  nilSafe : Bool
  unwrap : Bool
  deriving DecidableEq

/-- A value of an enumeration. -/
structure EnumValue where
  type : TypeReference
  value : Symbol
  deriving DecidableEq

/-- Lines of target code that are passed through as they are. -/
structure RawCode where
  lines : List String
  deriving DecidableEq

namespace LocalVariable

/-- A plain read. -/
def named (name : Symbol) : LocalVariable := ⟨name, false, false⟩

def inspect (v : LocalVariable) : String :=
  Inspect.record "LocalVariableAccessExpression"
    [("name", v.name.inspect), ("nil_safe", Inspect.bool v.nilSafe),
     ("unwrap_nullable", Inspect.bool v.unwrap)]

end LocalVariable

namespace EnumValue

def inspect (v : EnumValue) : String :=
  Inspect.record "EnumValueAccessExpression"
    [("type_ref", v.type.inspect), ("value_name", v.value.inspect)]

end EnumValue

namespace RawCode

/-- The pieces between line feeds; there is one piece more than there are line feeds. -/
def splitAtLineFeeds : List Char → List (List Char)
  | [] => [[]]
  | c :: cs =>
    if c = '\n' then
      [] :: splitAtLineFeeds cs
    else
      match splitAtLineFeeds cs with
      | [] => [[c]]
      | line :: lines => (c :: line) :: lines

/-- The lines of a text. Carriage returns are dropped wherever they stand. -/
def ofText (text : String) : RawCode :=
  ⟨(splitAtLineFeeds (text.toList.filter (· ≠ '\r'))).map String.ofList⟩

def inspect (raw : RawCode) : String :=
  Inspect.record "RawExpression" [("lines", Inspect.list (raw.lines.map Inspect.string))]

end RawCode

/-- A node without expressions below it. -/
inductive Atom
  | nil
  | selfReference
  | propertyValue
  | inherited
  | literal (value : Literal)
  | identifier (name : Symbol)
  | localVariable (read : LocalVariable)
  | typeReference (type : TypeReference)
  | enumValue (value : EnumValue)
  | selector (name : Symbol)
  | default (type : TypeReference)
  | raw (code : RawCode)
  deriving DecidableEq

namespace Atom

def equal : Atom → Atom → Bool
  | literal a, literal b => a.equal b
  | a, b => decide (a = b)

/-- The name of the kind of node. -/
def variant : Atom → String
  | nil => "Nil"
  | selfReference => "SelfReference"
  | propertyValue => "PropertyValue"
  | inherited => "Inherited"
  | literal _ => "Literal"
  | identifier _ => "NamedIdentifier"
  | localVariable _ => "LocalVariableAccess"
  | typeReference _ => "TypeReference"
  | enumValue _ => "EnumValueAccess"
  | selector _ => "Selector"
  | default _ => "Default"
  | raw _ => "Raw"

/-- The debug text of what an atom holds, if it holds anything. -/
def contents? : Atom → Option String
  | nil | selfReference | propertyValue | inherited => none
  | literal value => some value.inspect
  | identifier name => some name.inspect
  | localVariable read => some read.inspect
  | typeReference type => some type.inspect
  | enumValue value => some value.inspect
  | selector name => some name.inspect
  | default type => some type.inspect
  | raw code => some code.inspect

def literal? : Atom → Option Literal
  | literal value => some value
  | _ => none

def raw? : Atom → Option RawCode
  | raw code => some code
  | _ => none

end Atom

end CodeTree
