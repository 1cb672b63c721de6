import CodeTree.Proofs.Lexical.Numerals
import CodeTree.Text.Inspect

/-! # What debug texts tell

The debug text of a value ends where something stands that cannot belong to it: at the end, at a comma or at
the bracket that closes the text around it. Two texts that are read in front of such ends and read the same
end at the same place, and what they tell is what follows for the values from that.

* `Halts`, `Closes`: what can stand behind a value, and behind the last of several values.
* `Tells u v p`: if `u` and `v` read the same in front of anything that halts, they end at the same place
  and `p` holds.
* `TellsAll`, `TellsFields`: the same for the parts of a text and for the fields of a record.
* `Tells.of_name_ne`: texts that begin with different names do not read the same.
* `TellsFields.record`, `TellsAll.list` and the rules beside them: one rule for each way to build a text. -/

namespace CodeTree.Inspect

set_option autoImplicit false

/-- What can stand behind the last part of a text: the bracket that closes it. -/
inductive Closes : List Char → Prop
  | parenthesis (rest : List Char) : Closes (')' :: rest)
  | bracket (rest : List Char) : Closes (']' :: rest)
  | brace (rest : List Char) : Closes (' ' :: '\x7d' :: rest)

/-- What can stand behind a part of a text, or behind a whole text. -/
inductive Halts : List Char → Prop
  | nothing : Halts []
  | comma (rest : List Char) : Halts (',' :: rest)
  | closing {rest : List Char} (h : Closes rest) : Halts rest

/-- Read in front of what halts, the texts end at the same place if they read the same, and `p` holds. -/
def Tells (u v : String) (p : Prop) : Prop :=
  ∀ r s, Halts r → Halts s → u.toList ++ r = v.toList ++ s → p ∧ r = s

/-- Parts of a text, each after a comma. -/
def listed (us : List String) : List Char := us.flatMap fun u => ", ".toList ++ u.toList

/-- Read in front of what closes, the parts of two texts end at the same place if they read the same, and
`p` holds. -/
def TellsAll (us vs : List String) (p : Prop) : Prop :=
  ∀ r s, Closes r → Closes s → listed us ++ r = listed vs ++ s → p ∧ r = s

/-- `TellsAll` for the fields of two records. -/
def TellsFields (fs gs : List (String × String)) (p : Prop) : Prop :=
  TellsAll (fs.map fun field => field.1 ++ ": " ++ field.2)
    (gs.map fun field => field.1 ++ ": " ++ field.2) p

/-- `Tells` for texts that may be missing. If only one is missing there is nothing to tell. -/
def TellsOption : (u v : Option String) → (p : Prop) → Prop
  | none, none, p => p
  | some u, some v, p => Tells u v p
  | _, _, _ => True

variable {u v u' v' : String} {us vs : List String} {fs gs : List (String × String)} {p q : Prop}

theorem Tells.mono (h : Tells u v p) (hpq : p → q) : Tells u v q :=
  fun r s hr hs heq => (h r s hr hs heq).imp_left hpq

theorem TellsAll.mono (h : TellsAll us vs p) (hpq : p → q) : TellsAll us vs q :=
  fun r s hr hs heq => (h r s hr hs heq).imp_left hpq

theorem Tells.refl (u : String) (hp : p) : Tells u u p :=
  fun _ _ _ _ heq => ⟨hp, List.append_cancel_left heq⟩

/-- Two whole texts that are the same. -/
theorem Tells.of_eq (h : Tells u v p) (heq : u = v) : p :=
  (h [] [] .nothing .nothing (by rw [heq])).1

/-! ## Words and names -/

/-- The characters of names and numbers. -/
def isWordPart (c : Char) : Bool := c.isAlphanum || c == '-' || c == '.'

/-- A text of such characters only. -/
structure IsWord (u : String) : Prop where
  ne_nil : u.toList ≠ []
  isWordPart : ∀ c ∈ u.toList, isWordPart c = true

/-- A text in quotes is its characters, so that `rfl` decides about them. -/
theorem isWord_ofList {c : Char} {cs : List Char} (h : (c :: cs).all Inspect.isWordPart = true) :
    IsWord (String.ofList (c :: cs)) where
  ne_nil := by simp
  isWordPart := by simpa using h

theorem Closes.not_isWordPart {r : List Char} (h : Closes r) : ∀ c ∈ r.head?, isWordPart c = false := by
  cases h <;> (rintro c ⟨⟩; decide)

theorem Halts.not_isWordPart {r : List Char} (h : Halts r) : ∀ c ∈ r.head?, isWordPart c = false := by
  cases h with
  | nothing => exact nofun
  | comma => rintro c ⟨⟩; decide
  | closing h => exact h.not_isWordPart

theorem tells_word (hu : IsWord u) (hv : IsWord v) : Tells u v (u = v) := by
  intro r s hr hs h
  have hsame := Lua.stretch_inj hu.isWordPart hv.isWordPart hr.not_isWordPart hs.not_isWordPart h
  exact ⟨String.toList_inj.1 hsame.1, hsame.2⟩

/-- A family of words tells the members apart if no two have the same word. -/
theorem tells_words {α : Type} {f : α → String} (hword : ∀ a, IsWord (f a))
    (hinjective : Function.Injective f) (a b : α) : Tells (f a) (f b) (a = b) :=
  (tells_word (hword a) (hword b)).mono fun h => hinjective h

/-- The text begins with a name, and the name ends there. -/
structure Named (u name : String) : Prop where
  isWord : IsWord name
  exists_eq : ∃ rest, u.toList = name.toList ++ rest ∧ ∀ r, Halts r →
    ∀ c ∈ (rest ++ r).head?, isWordPart c = false

theorem Named.self (h : IsWord u) : Named u u :=
  ⟨h, [], (List.append_nil _).symm, fun _ hr => hr.not_isWordPart⟩

theorem named_tagged {name : String} (h : IsWord name) (parts : List String) :
    Named (tagged name parts) name := by
  refine ⟨h, '(' :: ((", ".intercalate parts).toList ++ [')']), by simp [tagged], fun r _ => ?_⟩
  rintro c ⟨⟩
  decide

theorem named_record {name : String} (h : IsWord name) (fields : List (String × String)) :
    Named (record name fields) name := by
  refine ⟨h, ' ' :: _, by simp [record]; rfl, fun r _ => ?_⟩
  rintro c ⟨⟩
  decide

/-- Texts that begin with different names do not read the same. -/
theorem Tells.of_name_ne {n m : String} (hu : Named u n) (hv : Named v m) (hne : n ≠ m) :
    Tells u v p := by
  intro r s hr hs h
  obtain ⟨hn, rest, hurest, hrest⟩ := hu
  obtain ⟨hm, rest', hvrest, hrest'⟩ := hv
  rw [hurest, hvrest, List.append_assoc, List.append_assoc] at h
  have hsame := Lua.stretch_inj hn.isWordPart hm.isWordPart (hrest r hr) (hrest' s hs) h
  exact absurd (String.toList_inj.1 hsame.1) hne

/-- Texts that begin with different characters do not read the same. -/
theorem Tells.of_head_ne {c d : Char} (hu : u.toList.head? = some c) (hv : v.toList.head? = some d)
    (hne : c ≠ d) : Tells u v p := by
  intro r s _ _ h
  have hhead := congrArg List.head? h
  rw [List.head?_append, List.head?_append, hu, hv] at hhead
  exact absurd (Option.some.inj hhead) hne

theorem Named.exists_head {name : String} (h : Named u name) :
    ∃ c, u.toList.head? = some c ∧ Inspect.isWordPart c = true := by
  obtain ⟨hname, rest, hu, -⟩ := h
  obtain ⟨c, cs, hc⟩ := List.exists_cons_of_ne_nil hname.ne_nil
  exact ⟨c, by rw [hu, hc]; rfl, hname.isWordPart c (by simp [hc])⟩

/-! ## Texts around other texts -/

theorem Tells.after (a : String) (h : Tells u v p) : Tells (a ++ u) (a ++ v) p := by
  intro r s hr hs heq
  rw [String.toList_append, String.toList_append, List.append_assoc, List.append_assoc] at heq
  exact h r s hr hs (List.append_cancel_left heq)

theorem Tells.before {b : String} (hb : ∀ r, Halts (b.toList ++ r)) (h : Tells u v p) :
    Tells (u ++ b) (v ++ b) p := by
  intro r s _ _ heq
  rw [String.toList_append, String.toList_append, List.append_assoc, List.append_assoc] at heq
  have htold := h _ _ (hb r) (hb s) heq
  exact ⟨htold.1, List.append_cancel_left htold.2⟩

theorem halts_comma (rest : List Char) : Halts (", ".toList ++ rest) := .comma _

theorem halts_parenthesis (rest : List Char) : Halts (")".toList ++ rest) :=
  .closing (.parenthesis rest)

theorem Tells.tagged {name : String} (h : Tells u v p) :
    Tells (tagged name [u]) (tagged name [v]) p := by
  rw [Inspect.tagged, Inspect.tagged, String.intercalate_singleton, String.intercalate_singleton]
  exact (h.after _).before halts_parenthesis

theorem Tells.pair (h : Tells u v p) (h' : Tells u' v' q) : Tells (pair u u') (pair v v') (p ∧ q) := by
  intro r s _ _ heq
  simp only [Inspect.pair, String.toList_append, List.append_assoc] at heq
  obtain ⟨hp, heq⟩ := h _ _ (halts_comma _) (halts_comma _) (List.append_cancel_left heq)
  obtain ⟨hq, heq⟩ := h' _ _ (halts_parenthesis _) (halts_parenthesis _)
    (List.append_cancel_left heq)
  exact ⟨⟨hp, hq⟩, List.append_cancel_left heq⟩

theorem TellsOption.option {o o' : Option String} (h : TellsOption o o' p) :
    Tells (option o) (option o') p := by
  have hnone : Named (Inspect.option none) "None" := Named.self (isWord_ofList rfl)
  have hsome : ∀ text, Named (Inspect.option (some text)) "Some" := fun text =>
    named_tagged (isWord_ofList rfl) [text]
  match o, o', h with
  | none, none, h => exact .refl _ h
  | some u, some v, h => exact h.tagged
  | none, some v, _ => exact .of_name_ne hnone (hsome v) (by decide)
  | some u, none, _ => exact .of_name_ne (hsome u) hnone (by decide)

/-! ## Parts -/

theorem listed_cons (u : String) (us : List String) :
    listed (u :: us) = ", ".toList ++ (u.toList ++ listed us) := by
  rw [listed, List.flatMap_cons, List.append_assoc]
  rfl

/-- After a comma the parts between commas are parts each after a comma. -/
theorem listed_eq_intercalate (u : String) (us : List String) :
    listed (u :: us) = ", ".toList ++ (", ".intercalate (u :: us)).toList := by
  induction us generalizing u with
  | nil => rw [listed_cons, String.intercalate_singleton]; simp [listed]
  | cons u' us ih =>
    rw [listed_cons, ih, String.intercalate_cons_cons, String.toList_append, String.toList_append,
      List.append_assoc]

theorem Halts.listed (us : List String) {r : List Char} (h : Closes r) :
    Halts (Inspect.listed us ++ r) := by
  cases us with
  | nil => exact .closing h
  | cons u us =>
    rw [listed_cons, List.append_assoc]
    exact halts_comma _

theorem Closes.ne_listed_cons {r : List Char} (h : Closes r) (u : String) (us : List String)
    (s : List Char) : r ≠ Inspect.listed (u :: us) ++ s := by
  rw [listed_cons]
  rintro rfl
  cases h

theorem TellsAll.nil (hp : p) : TellsAll [] [] p := fun _ _ _ _ heq => ⟨hp, heq⟩

theorem TellsAll.nil_cons : TellsAll [] (v :: vs) p :=
  fun _ _ hr _ heq => absurd heq (hr.ne_listed_cons v vs _)

theorem TellsAll.cons_nil : TellsAll (u :: us) [] p :=
  fun _ _ _ hs heq => absurd heq.symm (hs.ne_listed_cons u us _)

theorem TellsAll.cons (h : Tells u v p) (hs : TellsAll us vs q) :
    TellsAll (u :: us) (v :: vs) (p ∧ q) := by
  intro r s hr hs' heq
  rw [listed_cons, listed_cons, List.append_assoc, List.append_assoc, List.append_assoc,
    List.append_assoc] at heq
  obtain ⟨hp, heq⟩ := h _ _ (.listed us hr) (.listed vs hs') (List.append_cancel_left heq)
  exact (hs r s hr hs' heq).imp_left fun hq => ⟨hp, hq⟩

/-- Parts between commas and brackets. -/
theorem TellsAll.enclosed {a b : String} (h : TellsAll (u :: us) (v :: vs) p)
    (hb : ∀ r, Closes (b.toList ++ r)) :
    Tells (a ++ ", ".intercalate (u :: us) ++ b) (a ++ ", ".intercalate (v :: vs) ++ b) p := by
  intro r s _ _ heq
  simp only [String.toList_append, List.append_assoc] at heq
  have hlisted : listed (u :: us) ++ (b.toList ++ r) = listed (v :: vs) ++ (b.toList ++ s) := by
    rw [listed_eq_intercalate, listed_eq_intercalate, List.append_assoc, List.append_assoc,
      List.append_cancel_left heq]
  obtain ⟨hp, heq⟩ := h _ _ (hb r) (hb s) hlisted
  exact ⟨hp, List.append_cancel_left heq⟩

/-! ## Records -/

theorem TellsFields.nil : TellsFields [] [] True := TellsAll.nil trivial

theorem Tells.field {name : String} (h : Tells u v p) (hs : TellsFields fs gs q) :
    TellsFields ((name, u) :: fs) ((name, v) :: gs) (p ∧ q) :=
  TellsAll.cons (h.after _) hs

theorem TellsFields.record {name : String} {f g : String × String}
    (h : TellsFields (f :: fs) (g :: gs) p) :
    Tells (record name (f :: fs)) (record name (g :: gs)) p := by
  have hclosed := TellsAll.enclosed (a := name ++ " \x7b ") (b := " \x7d") h fun r => .brace r
  exact hclosed

/-! ## Lists -/

/-- The text is not empty, and it does not begin as a list ends. -/
def Opens (u : String) : Prop := ∃ c, u.toList.head? = some c ∧ c ≠ ']'

theorem Named.opens {name : String} (h : Named u name) : Opens u := by
  obtain ⟨c, hu, hc⟩ := h.exists_head
  refine ⟨c, hu, ?_⟩
  rintro rfl
  exact absurd hc (by decide)

/-- A text that opens is not read as an empty list. -/
theorem Opens.ne_bracket (h : Opens u) (us : List String) (r s : List Char) :
    (list []).toList ++ r ≠ (list (u :: us)).toList ++ s := by
  obtain ⟨c, hhead, hc⟩ := h
  obtain ⟨cs, hu⟩ := List.head?_eq_some_iff.1 hhead
  have hlisted := listed_eq_intercalate u us
  rw [listed_cons, hu] at hlisted
  simp only [list, String.toList_append, ← List.append_cancel_left hlisted]
  intro heq
  simp at heq
  exact hc heq.1.symm

theorem TellsAll.list (h : TellsAll us vs p) (hus : ∀ u ∈ us, Opens u) (hvs : ∀ v ∈ vs, Opens v) :
    Tells (list us) (list vs) p := by
  match us, vs with
  | [], [] =>
    intro r s _ _ heq
    have hrest := List.append_cancel_left heq
    exact ⟨(h (']' :: []) (']' :: []) (.bracket []) (.bracket []) rfl).1, hrest⟩
  | [], v :: vs => exact fun r s _ _ heq => absurd heq ((hvs v (by simp)).ne_bracket vs r s)
  | u :: us, [] => exact fun r s _ _ heq => absurd heq.symm ((hus u (by simp)).ne_bracket us s r)
  | u :: us, v :: vs => exact h.enclosed fun r => .bracket r

/-- A list tells what its items tell, if each item tells what it is. -/
theorem tells_map {α : Type} {f : α → String} (h : ∀ a b, Tells (f a) (f b) (a = b)) :
    ∀ as bs : List α, TellsAll (as.map f) (bs.map f) (as = bs)
  | [], [] => .nil rfl
  | [], _ :: _ => .nil_cons
  | _ :: _, [] => .cons_nil
  | a :: as, b :: bs =>
    (TellsAll.cons (h a b) (tells_map h as bs)).mono fun heq => by rw [heq.1, heq.2]

/-! ## Truth values -/

theorem tells_bool (a b : Bool) : Tells (bool a) (bool b) (a = b) :=
  tells_words (fun b => by cases b <;> exact isWord_ofList rfl)
    (fun a b h => by cases a <;> cases b <;> trivial) a b

end CodeTree.Inspect
