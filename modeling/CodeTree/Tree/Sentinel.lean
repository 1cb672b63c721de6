import CodeTree.Tree.Atom

/-!
# Sentinels

Eleven atoms recur so often that all trees share one node for each. A sentinel names such a node; two
references to shared nodes are the same node exactly when they name the same sentinel.

* `Sentinel.atom` is the node a sentinel stands for.
* `Sentinel.all` lists the sentinels in their order, `Sentinel.position` is the place in it.
-/

namespace CodeTree

set_option autoImplicit false

/-- The nodes that all trees share. -/
inductive Sentinel
  | nil
  | selfReference
  | propertyValue
  | inherited
  | trueValue
  | falseValue
  | integerZero
  | floatZero
  | characterZero
  | emptyString
  | space
  deriving DecidableEq

namespace Sentinel

def all : List Sentinel :=
  [nil, selfReference, propertyValue, inherited, trueValue, falseValue, integerZero, floatZero,
   characterZero, emptyString, space]

def name : Sentinel → String
  | nil => "Nil"
  | selfReference => "SelfReference"
  | propertyValue => "PropertyValue"
  | inherited => "Inherited"
  | trueValue => "True"
  | falseValue => "False"
  | integerZero => "IntegerZero"
  | floatZero => "FloatZero"
  | characterZero => "CharacterZero"
  | emptyString => "EmptyString"
  | space => "Space"

def ofName? (text : String) : Option Sentinel := all.find? (·.name == text)

/-- The place of a sentinel in `all`. -/
def position (s : Sentinel) : Nat := all.idxOf s

/-- The node that a sentinel stands for. -/
def atom : Sentinel → Atom
  | nil => .nil
  | selfReference => .selfReference
  | propertyValue => .propertyValue
  | inherited => .inherited
  | trueValue => .literal (.boolean true)
  | falseValue => .literal (.boolean false)
  | integerZero => .literal (.integer 0)
  | floatZero => .literal (.float Binary64.zero)
  | characterZero => .literal (.character '\x00')
  | emptyString => .literal (.string "")
  | space => .literal (.string " ")

/-- The sentinel of a truth value. -/
def ofBool (b : Bool) : Sentinel := if b then trueValue else falseValue

theorem mem_all (s : Sentinel) : s ∈ all := by cases s <;> decide

end Sentinel

end CodeTree
