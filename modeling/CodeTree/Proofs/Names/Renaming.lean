import CodeTree.Proofs.Names.Interning
import CodeTree.Proofs.Variants.Revised

/-! # Renamed symbols

A tree can be given other symbols, those of another table say. The emitter looks a symbol up and does
nothing else with it, so a renaming after which each symbol stands for the same text is faithful: the
tree is written as before.

* `Revision.renaming`: other symbols in all fields of a tree.
* `faithful_renaming`: the emitter does not notice them.
* `NameTable.translate`: the symbol with the same text in another table. -/

namespace CodeTree

set_option autoImplicit false

/-! ## Renamings -/

mutual

/-- Another symbol for each one in a type. -/
def TypeReference.rename (ρ : Symbol → Symbol) : TypeReference → TypeReference
  | ⟨name, arguments, nullable⟩ => ⟨ρ name, renameTypes ρ arguments, nullable⟩

def renameTypes (ρ : Symbol → Symbol) : List TypeReference → List TypeReference
  | [] => []
  | type :: types => type.rename ρ :: renameTypes ρ types

end

def Atom.rename (ρ : Symbol → Symbol) : Atom → Atom
  | identifier name => identifier (ρ name)
  | localVariable read => localVariable { read with name := ρ read.name }
  | typeReference type => typeReference (type.rename ρ)
  | enumValue value => enumValue ⟨value.type.rename ρ, ρ value.value⟩
  | selector name => selector (ρ name)
  | default type => default (type.rename ρ)
  | a => a

def Selection.rename (ρ : Symbol → Symbol) (selection : Selection) : Selection :=
  { selection with name := ρ selection.name }

/-- Puts another symbol in the place of each one. -/
def Revision.renaming (ρ : Symbol → Symbol) : Revision where
  atom := Atom.rename ρ
  name := ρ
  declaredType := Option.map (TypeReference.rename ρ)
  selection _ := Selection.rename ρ
  argumentName := Option.map ρ
  initializerName := Option.map ρ
  createdType := TypeReference.rename ρ
  constructorName := Option.map ρ
  castType := TypeReference.rename ρ
  returns := Option.map (TypeReference.rename ρ)

theorem TypeReference.name_rename (ρ : Symbol → Symbol) (type : TypeReference) :
    (type.rename ρ).name = ρ type.name := by
  obtain ⟨name, arguments, nullable⟩ := type
  rfl

namespace Lua

variable {g : Setting} {names : NameTable} {ρ : Symbol → Symbol}

theorem resolve_rename (h : ∀ s, g.names.resolve s = names.resolve (ρ s)) (type : TypeReference) :
    g.names.resolve type.name = names.resolve (type.rename ρ).name := by
  rw [type.name_rename]
  exact h type.name

theorem agrees_emitAtom_rename (h : ∀ s, g.names.resolve s = names.resolve (ρ s)) (a : Atom) :
    Agrees (emitAtom g a) (emitAtom (g.withNames names) (a.rename ρ)) := by
  cases a with
  | identifier name => exact agrees_writeName (h name)
  | localVariable read => exact agrees_writeName (h read.name)
  | typeReference type => exact agrees_writeName (resolve_rename h type)
  | enumValue value =>
    exact (agrees_nameOf (resolve_rename h value.type)).bind fun _ =>
      (agrees_nameOf (h value.value)).bind fun _ => Agrees.refl _
  | raw code =>
    show Agrees (if g.config.allowRaw then _ else _) (if g.config.allowRaw then _ else _)
    split
    · exact comparison_agrees.lines (by rfl) code.lines
    · exact Agrees.refl _
  | selector | default => exact agrees_refuse rfl
  | nil | selfReference | propertyValue | inherited | literal => exact Agrees.refl _

/-- A name that is refused is looked up for the message. -/
theorem agrees_checkArgument_rename (h : ∀ s, g.names.resolve s = names.resolve (ρ s))
    (name : Option Symbol) (passing : Passing) :
    Agrees (checkArgument g name passing)
      (checkArgument (g.withNames names) (name.map ρ) passing) := by
  cases passing with
  | byRef | out => exact Agrees.refl _
  | byValue =>
    cases name with
    | none => exact Agrees.refl _
    | some s =>
      have hconfig : (g.withNames names).config = g.config := rfl
      unfold checkArgument
      rw [hconfig]
      cases g.config.namedArguments with
      | positional => exact Agrees.refl _
      | reject => exact (agrees_nameOf (h s)).bind fun _ => agrees_refuse rfl

/-- No form of the emitter notices that the symbols are others with the same texts. -/
theorem faithful_renaming (h : ∀ s, g.names.resolve s = names.resolve (ρ s)) :
    Faithful (.renaming ρ) g names where
  shared _ := rfl
  atom := agrees_emitAtom_rename h
  isType a := by cases a <;> rfl
  isRaw a := by cases a <;> rfl
  name := h
  member _ selection := h selection.name
  nilSafe _ := rfl
  optional _ := rfl
  argument := agrees_checkArgument_rename h
  initializer name := by cases name <;> simp [Revision.renaming, h]
  created := resolve_rename h
  constructor name := by cases name <;> simp [Revision.renaming, h]
  constant _ := rfl

end Lua

/-! ## Translations -/

namespace NameTable

/-- The symbol in another table that has the text of a symbol, or else one without a name. -/
def translate (t t' : NameTable) (s : Symbol) : Symbol :=
  match t.resolve s with
  | some text => (t'.find? text).getD ⟨t'.size⟩
  | none => ⟨t'.size⟩

/-- A translation depends on the text alone. -/
theorem translate_eq_of_resolve_eq {t t' joint : NameTable} {s s' : Symbol}
    (h : t.resolve s = t'.resolve s') : t.translate joint s = t'.translate joint s' := by
  rw [translate, translate, h]

/-- A table that has all names of another one has a symbol for each symbol of that. -/
theorem resolve_translate {t t' : NameTable} (h : t.names ⊆ t'.names) (s : Symbol) :
    t'.resolve (t.translate t' s) = t.resolve s := by
  have hnone : t'.resolve ⟨t'.size⟩ = none := resolve_eq_none_iff.2 (Nat.le_refl t'.size)
  cases hs : t.resolve s with
  | none =>
    rw [translate, hs]
    exact hnone
  | some text =>
    have hmem : text ∈ t'.names := h (List.mem_of_getElem? hs)
    rw [translate, hs]
    cases hfind : t'.find? text with
    | none => exact absurd hmem (find?_eq_none_iff.1 hfind)
    | some s' => simpa [hfind] using resolve_of_find? hfind

end NameTable

end CodeTree
