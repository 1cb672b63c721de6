import CodeTree.Name.Interner

/-!
# The name table

A name table holds each name once, in order of first interning; a name's symbol is its position.

* `intern` gives the symbol of a name, adding the name behind the others if it is new.
* `find?` looks a name up without adding it.
* `resolve` gives the name a symbol stands for, if the table has one.

It is the interner that sessions use unless they are given another.
-/

namespace CodeTree

set_option autoImplicit false

/-- Names in order of first interning. -/
structure NameTable where
  names : List String
  deriving DecidableEq, Inhabited

namespace NameTable

def empty : NameTable := ⟨[]⟩

/-- How many names the table holds. -/
def size (t : NameTable) : Nat := t.names.length

/-- The symbol of a name that is already in the table. -/
def find? (t : NameTable) (name : String) : Option Symbol :=
  (t.names.findIdx? (· == name)).map Symbol.mk

/-- The name a symbol stands for. -/
def resolve (t : NameTable) (s : Symbol) : Option String :=
  t.names[s.index]?

/-- The symbol of a name, and the table in which it stands for that name. -/
def intern (t : NameTable) (name : String) : Symbol × NameTable :=
  match t.find? name with
  | some s => (s, t)
  | none => (⟨t.size⟩, ⟨t.names ++ [name]⟩)

instance : Interner NameTable where
  empty := empty
  intern := intern
  find? := find?
  resolve := resolve
  size := size

/-- The table that interning the given names in order makes of the empty one. -/
def ofList (names : List String) : NameTable :=
  names.foldl (fun t name => (t.intern name).2) empty

/-! ## Lemmas -/

@[simp] theorem size_empty : empty.size = 0 := rfl

theorem intern_of_find? {t : NameTable} {name : String} {s : Symbol} (h : t.find? name = some s) :
    t.intern name = (s, t) := by
  simp [intern, h]

theorem intern_of_find?_none {t : NameTable} {name : String} (h : t.find? name = none) :
    t.intern name = (⟨t.size⟩, ⟨t.names ++ [name]⟩) := by
  simp [intern, h]

/-- A name that is found is the one its symbol resolves to. -/
theorem resolve_of_find? {t : NameTable} {name : String} {s : Symbol} (h : t.find? name = some s) :
    t.resolve s = some name := by
  obtain ⟨i, hi, rfl⟩ := Option.map_eq_some_iff.1 h
  obtain ⟨hlt, hname, -⟩ := List.findIdx?_eq_some_iff_getElem.1 hi
  have : t.names[i] = name := by simpa using hname
  simp [resolve, hlt, this]

/-- The symbol that interning returns resolves, from then on, to the interned name. -/
theorem resolve_intern (t : NameTable) (name : String) :
    (t.intern name).2.resolve (t.intern name).1 = some name := by
  cases h : t.find? name with
  | some s => simpa [intern_of_find? h] using resolve_of_find? h
  | none => simp [intern_of_find?_none h, resolve, size]

/-- Interning keeps the name of every symbol that had one. -/
theorem resolve_intern_of_resolve {t : NameTable} {s : Symbol} {text : String} (name : String)
    (h : t.resolve s = some text) : (t.intern name).2.resolve s = some text := by
  cases hf : t.find? name with
  | some r => simpa [intern_of_find? hf] using h
  | none =>
    obtain ⟨hlt, -⟩ := List.getElem?_eq_some_iff.1 h
    simpa [intern_of_find?_none hf, resolve, List.getElem?_append_left hlt] using h

end NameTable

end CodeTree
