import CodeTree.Name.Symbol
import CodeTree.Text.Inspect

/-!
# Type references

A type is referred to by name, with type arguments and a mark for nullable types. What the name
means is not known to a tree.

* `TypeReference.named` is a plain type.
* `TypeReference.inspect` is the debug text.
* Equality of type references is decidable.
-/

namespace CodeTree

set_option autoImplicit false

/-- A reference to a type by name. -/
structure TypeReference where
  name : Symbol
  arguments : List TypeReference
  nullable : Bool
  deriving Inhabited

namespace TypeReference

def named (name : Symbol) : TypeReference := ⟨name, [], false⟩

/-- The same type, also admitting no value. -/
def orNull (t : TypeReference) : TypeReference := { t with nullable := true }

mutual

/-- Decides equality of two type references. -/
def decideEq : (a b : TypeReference) → Decidable (a = b)
  | ⟨name, arguments, nullable⟩, ⟨name', arguments', nullable'⟩ =>
    if hhead : name = name' ∧ nullable = nullable' then
      match decideListEq arguments arguments' with
      | isTrue harguments => isTrue (by rw [hhead.1, hhead.2, harguments])
      | isFalse harguments => isFalse fun h => harguments (by injection h)
    else
      isFalse fun h => hhead (by injection h with h₁ h₂ h₃; exact ⟨h₁, h₃⟩)

/-- Decides equality of two lists of type references. -/
def decideListEq : (as bs : List TypeReference) → Decidable (as = bs)
  | [], [] => isTrue rfl
  | [], _ :: _ => isFalse (by simp)
  | _ :: _, [] => isFalse (by simp)
  | a :: as, b :: bs =>
    match decideEq a b, decideListEq as bs with
    | isTrue h, isTrue hs => isTrue (by rw [h, hs])
    | isFalse h, _ => isFalse fun e => h (by injection e)
    | _, isFalse hs => isFalse fun e => hs (by injection e)

end

instance : DecidableEq TypeReference := decideEq

mutual

/-- Debug text of a type reference. -/
def inspect : TypeReference → String
  | ⟨name, arguments, nullable⟩ =>
    Inspect.record "TypeReference"
      [("name", name.inspect), ("generic_arguments", Inspect.list (inspectAll arguments)),
       ("nullable", Inspect.bool nullable)]

def inspectAll : List TypeReference → List String
  | [] => []
  | t :: ts => inspect t :: inspectAll ts

end

end TypeReference

end CodeTree
