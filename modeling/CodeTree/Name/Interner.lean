import CodeTree.Name.Symbol

/-!
# Interners

An interner gives each text a symbol and gives the text of a symbol back.

* `Interner` is what an interner can be asked for.
* `LawfulInterner` is what its answers can be relied on for. A text that is new gets the symbol behind
  the others, and interning changes what is known of that text and of its symbol, of nothing else. An
  interner with a bounded number of symbols keeps to this until it is full.
-/

namespace CodeTree

set_option autoImplicit false

/-- What keeps texts under symbols. -/
class Interner (τ : Type) where
  empty : τ
  /-- The symbol of a text, which is added if it is new. -/
  intern : τ → String → Symbol × τ
  /-- The symbol of a text if it has one. -/
  find? : τ → String → Option Symbol
  /-- The text that a symbol stands for. -/
  resolve : τ → Symbol → Option String
  /-- How many texts there are. -/
  size : τ → Nat

/-- An interner whose symbols are handed out in order, one for each text. -/
class LawfulInterner (τ : Type) [Interner τ] : Prop where
  size_empty : Interner.size (Interner.empty : τ) = 0
  find?_empty (text : String) : Interner.find? (Interner.empty : τ) text = none
  resolve_empty (s : Symbol) : Interner.resolve (Interner.empty : τ) s = none
  /-- A text that has a symbol keeps it, and nothing is added. -/
  intern_known {t : τ} {text : String} {s : Symbol} (h : Interner.find? t text = some s) :
    Interner.intern t text = (s, t)
  /-- Symbols are consecutive. -/
  intern_new {t : τ} {text : String} (h : Interner.find? t text = none) :
    (Interner.intern t text).1 = ⟨Interner.size t⟩
  size_intern_new {t : τ} {text : String} (h : Interner.find? t text = none) :
    Interner.size (Interner.intern t text).2 = Interner.size t + 1
  find?_intern (t : τ) (text other : String) :
    Interner.find? (Interner.intern t text).2 other =
      if other = text then some (Interner.intern t text).1 else Interner.find? t other
  resolve_intern (t : τ) (text : String) (s : Symbol) :
    Interner.resolve (Interner.intern t text).2 s =
      if s = (Interner.intern t text).1 then some text else Interner.resolve t s

end CodeTree
