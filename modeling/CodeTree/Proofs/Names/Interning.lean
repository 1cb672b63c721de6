import CodeTree.Name.Table
import Mathlib.Data.List.Induction
import Mathlib.Data.List.Nodup

/-! # Interning one name after another

Interning only ever adds a name behind the others, and only one that is not there yet. So a symbol keeps
its name for good, a name has one symbol, and the table lists the given names in the order in which
each was first given.

* `NameTable.internAll`: interning several names.
* `resolve_internAll`: symbols keep their names.
* `find?_eq_some_iff`: the symbol that is found is the only one of its name.
* `intern_symbols`: symbols are handed out in order.
* `names_ofList`: the names of a table that was made from the empty one.
* `LawfulInterner NameTable`: all of this is as it is relied on.
* `Interner.Agrees`: lawful interners that agree cannot be told apart later on. -/

namespace CodeTree

set_option autoImplicit false

namespace NameTable

variable {t : NameTable} {s : Symbol} {text : String}

/-- The table that interning names in order makes of a table. -/
def internAll (t : NameTable) (texts : List String) : NameTable :=
  texts.foldl (fun t text => (t.intern text).2) t

theorem ofList_append (texts more : List String) :
    ofList (texts ++ more) = (ofList texts).internAll more :=
  List.foldl_append

/-- Symbols that had a name keep it, whatever is interned. -/
theorem resolve_internAll (h : t.resolve s = some text) (more : List String) :
    (t.internAll more).resolve s = some text := by
  induction more generalizing t with
  | nil => exact h
  | cons name more ih => exact ih (resolve_intern_of_resolve name h)

theorem resolve_eq_none_iff : t.resolve s = none ↔ t.size ≤ s.index := List.getElem?_eq_none_iff

theorem find?_eq_none_iff : t.find? text = none ↔ text ∉ t.names := by
  rw [find?, Option.map_eq_none_iff, List.findIdx?_eq_none_iff]
  constructor
  · intro h hmem
    exact Bool.noConfusion ((h text hmem).symm.trans (beq_self_eq_true text))
  · intro h name hname
    exact beq_eq_false_iff_ne.2 fun heq => h (heq ▸ hname)

/-! ## A name has one symbol -/

theorem intern_names (t : NameTable) (text : String) :
    (t.intern text).2.names = if text ∈ t.names then t.names else t.names ++ [text] := by
  split
  next hmem =>
    obtain ⟨s, hs⟩ := Option.ne_none_iff_exists'.1 fun h => find?_eq_none_iff.1 h hmem
    rw [intern_of_find? hs]
  next hnew => rw [intern_of_find?_none (find?_eq_none_iff.2 hnew)]

theorem nodup_intern (h : t.names.Nodup) (text : String) : (t.intern text).2.names.Nodup := by
  rw [intern_names]
  split
  next => exact h
  next hnew => exact List.concat_eq_append ▸ h.concat hnew

theorem nodup_internAll (h : t.names.Nodup) (texts : List String) :
    (t.internAll texts).names.Nodup := by
  induction texts generalizing t with
  | nil => exact h
  | cons text texts ih => exact ih (nodup_intern h text)

theorem nodup_ofList (texts : List String) : (ofList texts).names.Nodup :=
  nodup_internAll List.nodup_nil texts

/-- In a table without repetitions symbols with the same name are the same. -/
theorem eq_of_resolve (h : t.names.Nodup) {s' : Symbol} (hs : t.resolve s = some text)
    (hs' : t.resolve s' = some text) : s = s' := by
  obtain ⟨hlt, htext⟩ := List.getElem?_eq_some_iff.1 hs
  obtain ⟨hlt', htext'⟩ := List.getElem?_eq_some_iff.1 hs'
  have hindex : s.index = s'.index := h.getElem_inj_iff.1 (htext.trans htext'.symm)
  cases s
  cases s'
  exact congrArg Symbol.mk hindex

theorem find?_eq_some_iff (h : t.names.Nodup) : t.find? text = some s ↔ t.resolve s = some text := by
  refine ⟨resolve_of_find?, fun hs => ?_⟩
  have hmem : text ∈ t.names := List.mem_of_getElem? hs
  obtain ⟨s', hs'⟩ := Option.ne_none_iff_exists'.1 fun hnone => find?_eq_none_iff.1 hnone hmem
  rw [hs', eq_of_resolve h hs (resolve_of_find? hs')]

/-! ## The order of the names -/

/-- The symbols that have a name, in order. -/
def symbols (t : NameTable) : List Symbol := (List.range t.size).map Symbol.mk

theorem mem_symbols : s ∈ t.symbols ↔ s.index < t.size := by
  rw [symbols, List.mem_map]
  constructor
  · rintro ⟨index, hindex, rfl⟩
    exact List.mem_range.1 hindex
  · exact fun h => ⟨s.index, List.mem_range.2 h, rfl⟩

/-- Interning hands out a symbol of the table, or else the next one. -/
theorem intern_symbols (t : NameTable) (text : String) :
    (t.intern text).2.symbols =
      if (t.intern text).1 ∈ t.symbols then t.symbols else t.symbols ++ [(t.intern text).1] := by
  cases h : t.find? text with
  | some s =>
    obtain ⟨hlt, -⟩ := List.getElem?_eq_some_iff.1 (resolve_of_find? h)
    rw [intern_of_find? h, if_pos (mem_symbols.2 hlt)]
  | none =>
    have hnew : ⟨t.size⟩ ∉ t.symbols := fun hmem => Nat.lt_irrefl _ (mem_symbols.1 hmem)
    rw [intern_of_find?_none h, if_neg hnew]
    simp [symbols, size, List.range_succ]

theorem eraseDups_concat {α : Type} [DecidableEq α] (as : List α) (a : α) :
    (as ++ [a]).eraseDups = if a ∈ as then as.eraseDups else as.eraseDups ++ [a] := by
  rw [List.eraseDups_append]
  by_cases h : a ∈ as <;> simp [List.removeAll, List.eraseDups_cons, h]

/-- A table lists the names that were interned in the order in which each was first given. -/
theorem names_ofList (texts : List String) : (ofList texts).names = texts.eraseDups := by
  induction texts using List.reverseRecOn with
  | nil => rfl
  | append_singleton texts text ih =>
    have hlast : ofList (texts ++ [text]) = ((ofList texts).intern text).2 := ofList_append _ _
    rw [hlast, intern_names, ih, eraseDups_concat]
    simp only [List.mem_eraseDups]

/-! ## The laws of an interner -/

theorem find?_intern (t : NameTable) (text other : String) :
    (t.intern text).2.find? other = if other = text then some (t.intern text).1 else t.find? other := by
  cases h : t.find? text with
  | some s =>
    rw [intern_of_find? h]
    split
    next heq => rw [heq, h]
    next => rfl
  | none =>
    rw [intern_of_find?_none h, find?, List.findIdx?_append]
    split
    next heq =>
      have hnone : t.names.findIdx? (· == text) = none := Option.map_eq_none_iff.1 h
      simp [heq, hnone, List.findIdx?_cons, size]
    next hne => simp [List.findIdx?_cons, beq_eq_false_iff_ne.2 (Ne.symm hne), find?]

theorem resolve_intern_eq (t : NameTable) (text : String) (s : Symbol) :
    (t.intern text).2.resolve s = if s = (t.intern text).1 then some text else t.resolve s := by
  split
  next heq => rw [heq, resolve_intern]
  next hne =>
    cases h : t.find? text with
    | some s' => rw [intern_of_find? h]
    | none =>
      rw [intern_of_find?_none h] at hne ⊢
      -- The new name stands behind all the others, so only its own position is new.
      have hindex : s.index ≠ t.names.length := fun heq => hne (congrArg Symbol.mk heq)
      show (t.names ++ [text])[s.index]? = t.names[s.index]?
      rcases Nat.lt_or_gt_of_ne hindex with hlt | hgt
      · exact List.getElem?_append_left hlt
      · have hend : t.names.length + 1 ≤ s.index := hgt
        rw [List.getElem?_eq_none (Nat.le_of_lt hgt), List.getElem?_eq_none (by simpa using hend)]

instance : LawfulInterner NameTable where
  size_empty := rfl
  find?_empty _ := rfl
  resolve_empty _ := rfl
  intern_known := intern_of_find?
  intern_new h := congrArg Prod.fst (intern_of_find?_none h)
  size_intern_new {t text} h := by
    show (t.intern text).2.names.length = t.names.length + 1
    rw [intern_of_find?_none h, List.length_append, List.length_singleton]
  find?_intern := find?_intern
  resolve_intern := resolve_intern_eq

end NameTable

/-! ## Interners that agree -/

namespace Interner

variable {τ υ : Type} [Interner τ] [Interner υ] {t : τ} {u : υ}

/-- Two interners know the same texts under the same symbols. -/
structure Agrees (t : τ) (u : υ) : Prop where
  size : Interner.size t = Interner.size u
  find? : ∀ text, Interner.find? t text = Interner.find? u text
  resolve : ∀ s, Interner.resolve t s = Interner.resolve u s

variable [LawfulInterner τ] [LawfulInterner υ]

theorem agrees_empty : Agrees (Interner.empty : τ) (Interner.empty : υ) where
  size := LawfulInterner.size_empty.trans LawfulInterner.size_empty.symm
  find? text := (LawfulInterner.find?_empty text).trans (LawfulInterner.find?_empty text).symm
  resolve s := (LawfulInterner.resolve_empty s).trans (LawfulInterner.resolve_empty s).symm

theorem Agrees.symbol (h : Agrees t u) (text : String) :
    (Interner.intern t text).1 = (Interner.intern u text).1 := by
  cases hu : Interner.find? u text with
  | some s =>
    rw [LawfulInterner.intern_known hu, LawfulInterner.intern_known ((h.find? text).trans hu)]
  | none =>
    rw [LawfulInterner.intern_new hu, LawfulInterner.intern_new ((h.find? text).trans hu), h.size]

theorem Agrees.intern (h : Agrees t u) (text : String) :
    Agrees (Interner.intern t text).2 (Interner.intern u text).2 where
  size := by
    cases hu : Interner.find? u text with
    | some s =>
      rw [LawfulInterner.intern_known hu, LawfulInterner.intern_known ((h.find? text).trans hu), h.size]
    | none =>
      rw [LawfulInterner.size_intern_new hu,
        LawfulInterner.size_intern_new ((h.find? text).trans hu), h.size]
  find? other := by
    rw [LawfulInterner.find?_intern, LawfulInterner.find?_intern, h.symbol, h.find?]
  resolve s := by
    rw [LawfulInterner.resolve_intern, LawfulInterner.resolve_intern, h.symbol, h.resolve]

end Interner

end CodeTree
