/-!
# Symbols

A symbol stands for a name in a tree. It is the position of that name in a `NameTable`, counted from
zero in order of first interning, and means nothing without the table it came from.

* `Symbol.ofIndex?` is the symbol an index stands for, if it stands for one.
* `Symbol.inspect` is its debug text, which counts from one.
-/

namespace CodeTree

set_option autoImplicit false

/-- The position of a name in a name table. -/
structure Symbol where
  index : Nat
  deriving DecidableEq, Inhabited

namespace Symbol

/-- The number of positions a 32-bit index can tell apart. -/
def indexRange : Nat := Nat.pow 2 32

/-- The symbol an index stands for. Only the low 32 bits of the index count, so indices that differ
by a multiple of `indexRange` stand for the same symbol; an index whose low bits are all ones
stands for none, because its count from one would not fit. -/
def ofIndex? (index : Nat) : Option Symbol :=
  let position := index % indexRange
  if position + 1 < indexRange then some ⟨position⟩ else none

/-- Debug text of a symbol, counting from one. -/
def inspect (s : Symbol) : String :=
  "SymbolU32 \x7b value: " ++ toString (s.index + 1) ++ " \x7d"

theorem ofIndex?_eq_some_iff {index : Nat} {s : Symbol} :
    ofIndex? index = some s ↔
      index % indexRange + 1 < indexRange ∧ s = ⟨index % indexRange⟩ := by
  show (if index % indexRange + 1 < indexRange then some ⟨index % indexRange⟩ else none) = some s ↔ _
  by_cases h : index % indexRange + 1 < indexRange
  · rw [if_pos h, Option.some.injEq, eq_comm]
    exact (and_iff_right h).symm
  · rw [if_neg h]
    exact iff_of_false (fun hs => nomatch hs) (fun hs => h hs.1)

/-- An index whose count from one fits in 32 bits stands for the symbol at that very position. -/
theorem ofIndex?_of_lt {index : Nat} (h : index + 1 < indexRange) : ofIndex? index = some ⟨index⟩ := by
  have hmod : index % indexRange = index := Nat.mod_eq_of_lt (Nat.lt_of_succ_lt h)
  rw [ofIndex?_eq_some_iff, hmod]
  exact ⟨h, rfl⟩

end Symbol

end CodeTree
